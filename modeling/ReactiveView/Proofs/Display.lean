import ReactiveView.Proofs.Resolution
import ReactiveView.View.Tree

namespace ReactiveView

theorem Table.get?_eq_some_of_mem {α : Type} {t : Table α} {name : String} (h : name ∈ t.names) :
    ∃ value, t.get? name = some value := by
  cases hg : t.get? name with
  | some value => exact ⟨value, rfl⟩
  | none => exact absurd h (Table.get?_eq_none.1 hg)

theorem Table.names_put_new {α : Type} {t : Table α} {name : String} (value : α)
    (h : name ∉ t.names) : (t.put name value).names = t.names ++ [name] := by
  simp only [Table.names] at *
  rw [Table.put, Table.putEntry_names, if_neg h]

/-- Values of the kind that a facet takes. -/
def Facet.Takes : Facet → FacetValue → Prop
  | .text, .text _ => True
  | .visible, .visible _ => True
  | .value, .output (.value _) => True
  | .prop _, .output _ => True
  | _, _ => False

theorem Facet.takes_fallback (facet : Facet) : facet.Takes facet.fallback := by
  cases facet <;> trivial

theorem Facet.Takes.cases {facet : Facet} {value : FacetValue} (h : facet.Takes value) :
    (facet = .text ∧ ∃ s, value = .text s) ∨ (facet = .visible ∧ ∃ b, value = .visible b) ∨
      (facet = .value ∧ ∃ v, value = .output (.value v)) ∨
      ∃ name o, facet = .prop name ∧ value = .output o := by
  cases facet with
  | text =>
    cases value with
    | text s => exact .inl ⟨rfl, s, rfl⟩
    | visible b | output o => exact h.elim
  | visible =>
    cases value with
    | visible b => exact .inr (.inl ⟨rfl, b, rfl⟩)
    | text s | output o => exact h.elim
  | value =>
    cases value with
    | output o =>
      cases o with
      | value v => exact .inr (.inr (.inl ⟨rfl, v, rfl⟩))
      | color c => exact h.elim
    | text s | visible b => exact h.elim
  | prop name =>
    cases value with
    | output o => exact .inr (.inr (.inr ⟨name, o, rfl, rfl⟩))
    | text s | visible b => exact h.elim

def Facet.prop? : Facet → Option String
  | .prop name => some name
  | _ => none

theorem Facet.filterMap_prop_map (names : List String) :
    (names.map Facet.prop).filterMap Facet.prop? = names := by
  rw [List.filterMap_map]
  exact List.filterMap_some

theorem ViewNode.filterMap_prop_facets (node : ViewNode) :
    node.facets.filterMap Facet.prop? = node.props.names.filter isPlainProp := by
  rw [facets]
  rw [List.filterMap_append, Facet.filterMap_prop_map]
  split <;> split <;> rfl

theorem ViewNode.mem_facets_text {node : ViewNode} : Facet.text ∈ node.facets ↔ node.text.isSome := by
  simp [facets]

theorem ViewNode.mem_facets_value {node : ViewNode} :
    Facet.value ∈ node.facets ↔ node.props.has bindProp := by simp [facets]

theorem ViewNode.takes_of_resolve {node : ViewNode} {s : State} {facet : Facet}
    {value : FacetValue} (h : node.resolve s facet = .ok value) : facet.Takes value := by
  cases facet with
  | text =>
    rw [resolve] at h
    cases hr : Span.resolveAll s (node.text.getD []) with
    | error fault => rw [hr] at h; cases h
    | ok text => rw [hr] at h; cases h; trivial
  | visible =>
    rw [resolve] at h
    split at h
    · cases h; trivial
    · rename_i p hp
      cases hr : p.resolveValue s visibleProp with
      | error fault => rw [hr] at h; cases h
      | ok v => rw [hr] at h; cases h; trivial
  | value =>
    rw [resolve] at h
    split at h
    · cases h; trivial
    · rename_i p hp
      cases hr : p.resolveValue s bindProp with
      | error fault => rw [hr] at h; cases h
      | ok v => rw [hr] at h; cases h; trivial
  | prop name =>
    rw [resolve] at h
    split at h
    · cases h; trivial
    · rename_i p hp
      cases hr : p.resolve s with
      | error fault => rw [hr] at h; cases h
      | ok out => rw [hr] at h; cases h; trivial

theorem ArenaNode.takes_of_resolve {n : ArenaNode} {s : State} {facet : Facet}
    {value : FacetValue} (h : (n.resolve s facet).2 = .ok value) : facet.Takes value := by
  rw [resolve] at h
  cases hr : n.node.resolve s facet with
  | ok shown =>
    rw [hr] at h
    cases h
    exact ViewNode.takes_of_resolve hr
  | error fault =>
    rw [hr] at h
    cases fault with
    | evaluation cause =>
      cases h
      exact facet.takes_fallback
    | sandbox cause | missingArgument b | notWhole x => cases h

namespace Node

def blank (node : Node) : Node := { node with text := none, visible := true, value := none, props := .empty }

def facets (node : Node) : List Facet :=
  (if node.text.isSome then [.text] else []) ++ [.visible] ++
    (if node.value.isSome then [.value] else []) ++ node.props.names.map .prop

theorem blank_write (node : Node) (facet : Facet) (value : FacetValue) :
    (node.write facet value).blank = node.blank := by
  simp only [write]
  split <;> rfl

theorem blank_writeAll (node : Node) (values : List (Facet × FacetValue)) :
    (node.writeAll values).blank = node.blank := by
  induction values generalizing node with
  | nil => rfl
  | cons entry rest ih =>
    have h := ih (node.write entry.1 entry.2)
    rwa [blank_write] at h

theorem read_write_self {node : Node} {facet : Facet} {value : FacetValue}
    (h : facet.Takes value) : (node.write facet value).read facet = value := by
  rcases h.cases with ⟨rfl, s, rfl⟩ | ⟨rfl, b, rfl⟩ | ⟨rfl, v, rfl⟩ | ⟨name, o, rfl, rfl⟩
  · rfl
  · rfl
  · rfl
  · simp [write, read, Table.get?_put]

theorem read_write_of_ne {node : Node} {facet other : Facet} (value : FacetValue)
    (h : facet ≠ other) : (node.write facet value).read other = node.read other := by
  simp only [write]
  split
  · cases other with
    | text => exact absurd rfl h
    | visible | value | prop name => rfl
  · cases other with
    | visible => exact absurd rfl h
    | text | value | prop name => rfl
  · cases other with
    | value => exact absurd rfl h
    | text | visible | prop name => rfl
  · rename_i name o
    cases other with
    | text | visible | value => rfl
    | prop name' =>
      have hne : name' ≠ name := fun e => h (by rw [e])
      simp [read, Table.get?_put, hne]
  · rfl

theorem read_writeAll_of_notMem {values : List (Facet × FacetValue)} {facet : Facet}
    (h : facet ∉ values.map Prod.fst) (node : Node) :
    (node.writeAll values).read facet = node.read facet := by
  induction values generalizing node with
  | nil => rfl
  | cons entry rest ih =>
    simp only [List.map_cons, List.mem_cons, not_or] at h
    have hr := ih h.2 (node.write entry.1 entry.2)
    rwa [read_write_of_ne entry.2 (Ne.symm h.1)] at hr

theorem read_writeAll {values : List (Facet × FacetValue)} (hnd : (values.map Prod.fst).Nodup)
    {facet : Facet} {value : FacetValue} (hm : (facet, value) ∈ values) (ht : facet.Takes value)
    (node : Node) : (node.writeAll values).read facet = value := by
  induction values generalizing node with
  | nil => cases hm
  | cons entry rest ih =>
    rw [List.map_cons, List.nodup_cons] at hnd
    rcases List.mem_cons.1 hm with rfl | hm
    · have hr := read_writeAll_of_notMem hnd.1 (node.write facet value)
      rwa [read_write_self ht] at hr
    · exact ih hnd.2 hm (node.write entry.1 entry.2)

@[simp]
theorem mem_facets_text {node : Node} : Facet.text ∈ node.facets ↔ node.text.isSome := by
  simp [facets]

@[simp]
theorem mem_facets_visible {node : Node} : Facet.visible ∈ node.facets := by simp [facets]

@[simp]
theorem mem_facets_value {node : Node} : Facet.value ∈ node.facets ↔ node.value.isSome := by
  simp [facets]

@[simp]
theorem mem_facets_prop {node : Node} {name : String} :
    Facet.prop name ∈ node.facets ↔ name ∈ node.props.names := by simp [facets]

theorem filterMap_prop_facets (node : Node) : node.facets.filterMap Facet.prop? = node.props.names := by
  rw [facets]
  rw [List.filterMap_append, Facet.filterMap_prop_map]
  split <;> split <;> rfl

theorem facets_write {node : Node} {facet : Facet} {value : FacetValue}
    (h : facet ∈ node.facets) : (node.write facet value).facets = node.facets := by
  simp only [write]
  split
  · simp [facets, mem_facets_text.1 h]
  · rfl
  · simp [facets, mem_facets_value.1 h]
  · simp [facets, Table.names_put _ (mem_facets_prop.1 h)]
  · rfl

theorem facets_writeAll {values : List (Facet × FacetValue)} {node : Node}
    (h : ∀ entry ∈ values, entry.1 ∈ node.facets) : (node.writeAll values).facets = node.facets := by
  induction values generalizing node with
  | nil => rfl
  | cons entry rest ih =>
    have hw : (node.write entry.1 entry.2).facets = node.facets :=
      facets_write (h entry List.mem_cons_self)
    have hr : ((node.write entry.1 entry.2).writeAll rest).facets =
        (node.write entry.1 entry.2).facets := ih fun e he => by
      rw [hw]
      exact h e (List.mem_cons_of_mem _ he)
    exact hr.trans hw

theorem mem_facets_write {node : Node} {facet other : Facet} {value : FacetValue}
    (h : facet.Takes value) :
    other ∈ (node.write facet value).facets ↔ other = facet ∨ other ∈ node.facets := by
  rcases h.cases with ⟨rfl, s, rfl⟩ | ⟨rfl, b, rfl⟩ | ⟨rfl, v, rfl⟩ | ⟨name, o, rfl, rfl⟩
  · cases other <;> simp [write]
  · cases other <;> simp [write]
  · cases other <;> simp [write]
  · by_cases hn : name ∈ node.props.names
    · have hm : Facet.prop name ∈ node.facets := mem_facets_prop.2 hn
      rw [facets_write hm]
      exact ⟨Or.inr, fun ho => ho.elim (fun e => e ▸ hm) id⟩
    · have hnames := Table.names_put_new o hn
      cases other <;> simp [write, hnames, or_comm]

theorem mem_facets_writeAll {values : List (Facet × FacetValue)}
    (h : ∀ entry ∈ values, entry.1.Takes entry.2) (node : Node) {facet : Facet} :
    facet ∈ (node.writeAll values).facets ↔ facet ∈ values.map Prod.fst ∨ facet ∈ node.facets := by
  induction values generalizing node with
  | nil => simp [writeAll]
  | cons entry rest ih =>
    have hr := ih (fun e he => h e (List.mem_cons_of_mem _ he)) (node.write entry.1 entry.2)
    rw [mem_facets_write (h entry List.mem_cons_self)] at hr
    refine hr.trans ?_
    rw [List.map_cons, List.mem_cons]
    exact or_left_comm.trans or_assoc.symm

theorem names_write {node : Node} {facet : Facet} {value : FacetValue} (ht : facet.Takes value)
    (hnew : facet ∉ node.facets ∨ facet.prop? = none) :
    (node.write facet value).props.names = node.props.names ++ facet.prop?.toList := by
  rcases ht.cases with ⟨rfl, s, rfl⟩ | ⟨rfl, b, rfl⟩ | ⟨rfl, v, rfl⟩ | ⟨name, o, rfl, rfl⟩
  · simp [write, Facet.prop?]
  · simp [write, Facet.prop?]
  · simp [write, Facet.prop?]
  · rcases hnew with hnew | hnew
    · exact Table.names_put_new o fun hn => hnew (mem_facets_prop.2 hn)
    · cases hnew

theorem names_writeAll {values : List (Facet × FacetValue)}
    (h : ∀ entry ∈ values, entry.1.Takes entry.2) (hnd : (values.map Prod.fst).Nodup)
    (node : Node)
    (hnew : ∀ facet ∈ values.map Prod.fst, facet ∉ node.facets ∨ facet.prop? = none) :
    (node.writeAll values).props.names =
      node.props.names ++ (values.map Prod.fst).filterMap Facet.prop? := by
  induction values generalizing node with
  | nil => simp [writeAll]
  | cons entry rest ih =>
    rw [List.map_cons, List.nodup_cons] at hnd
    have ht := h entry List.mem_cons_self
    have hn := names_write ht (hnew entry.1 (by simp))
    refine (ih (fun e he => h e (List.mem_cons_of_mem _ he)) hnd.2 _ fun facet hf => ?_).trans ?_
    · rw [mem_facets_write ht, not_or]
      have hne : facet ≠ entry.1 := fun e => hnd.1 (e ▸ hf)
      exact (hnew facet (by simp [hf])).imp (fun hnot => ⟨hne, hnot⟩) id
    · rw [hn, List.map_cons, List.append_assoc]
      cases entry.1 <;> rfl

/-- A node built from all facets of its declaration shows exactly those, in their order. -/
theorem facets_shell_writeAll {n : ArenaNode} {values : List (Facet × FacetValue)}
    (h : ∀ entry ∈ values, entry.1.Takes entry.2) (hf : values.map Prod.fst = n.facets) :
    ((shell n).writeAll values).facets = n.facets := by
  have hmem (facet : Facet) : facet ∈ ((shell n).writeAll values).facets ↔ facet ∈ n.facets := by
    rw [mem_facets_writeAll h, hf]
    have hs : (shell n).facets = [.visible] := rfl
    rw [hs, List.mem_singleton]
    exact or_iff_left_of_imp fun e => e ▸ by simp [ArenaNode.facets, ViewNode.facets]
  have hnames := names_writeAll h (hf ▸ n.node.facets_nodup) (shell n) fun facet _ => by
    have hs : (shell n).facets = [.visible] := rfl
    rw [hs, List.mem_singleton]
    cases facet <;> simp [Facet.prop?]
  have ht := (mem_facets_text.symm.trans (hmem .text)).trans ViewNode.mem_facets_text
  have hv := (mem_facets_value.symm.trans (hmem .value)).trans ViewNode.mem_facets_value
  rw [hf] at hnames
  have hn : ((shell n).writeAll values).props.names = n.node.props.names.filter isPlainProp :=
    hnames.trans n.node.filterMap_prop_facets
  rw [facets]
  rw [hn]
  simp only [ht, hv]
  rfl

end Node

end ReactiveView
