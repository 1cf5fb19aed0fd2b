import ReactiveView.Proofs.Selectivity
import ReactiveView.Proofs.Sizes

namespace ReactiveView

inductive Expr.Mentions (x : String) : Expr → Prop where
  | ident : Mentions x (.ident x)
  | operand {op : UnaryOp} {e : Expr} (h : Mentions x e) : Mentions x (.unary op e)
  | left {op : BinaryOp} {l r : Expr} (h : Mentions x l) : Mentions x (.binary op l r)
  | right {op : BinaryOp} {l r : Expr} (h : Mentions x r) : Mentions x (.binary op l r)
  | arg {callee : String} {args : List Expr} {e : Expr} (he : e ∈ args) (h : Mentions x e) :
      Mentions x (.call callee args)

inductive PropValue.Mentions (x : String) : PropValue → Prop where
  | ident : Mentions x (.ident x)
  | expr {e : Expr} (h : e.Mentions x) : Mentions x (.expr e)

/-- A variable occurs in what a node declares for a facet: the template for the text, the properties of
these meanings for visibility and value, and the property itself for a plain one. -/
inductive ViewNode.Mentions (node : ViewNode) (x : String) : Facet → Prop where
  | text {spans : List Span} (h : node.text = some spans) (hx : .var x ∈ spans) :
      Mentions node x .text
  | visible {p : PropValue} (h : node.props.get? visibleProp = some p) (hx : p.Mentions x) :
      Mentions node x .visible
  | value {p : PropValue} (h : node.props.get? bindProp = some p) (hx : p.Mentions x) :
      Mentions node x .value
  | prop {name : String} {p : PropValue} (hplain : isPlainProp name = true)
      (h : node.props.get? name = some p) (hx : p.Mentions x) : Mentions node x (.prop name)

namespace Expr

variable {x : String}

mutual

theorem mentions_of_mem_reads : ∀ e : Expr, x ∈ e.reads → e.Mentions x
  | .literal v, h => by
    rw [reads] at h
    cases h
  | .ident name, h => by
    rw [reads, List.mem_singleton] at h
    rw [h]
    exact .ident
  | .unary op operand, h => by
    rw [reads] at h
    exact .operand (mentions_of_mem_reads operand h)
  | .binary op left right, h => by
    rw [reads, List.mem_append] at h
    rcases h with h | h
    · exact .left (mentions_of_mem_reads left h)
    · exact .right (mentions_of_mem_reads right h)
  | .call callee args, h => by
    rw [reads] at h
    obtain ⟨e, he, hx⟩ := exists_mentions_of_mem_readsAll args h
    exact .arg he hx

theorem exists_mentions_of_mem_readsAll : ∀ es : List Expr, x ∈ readsAll es → ∃ e ∈ es, e.Mentions x
  | [], h => by
    rw [readsAll] at h
    cases h
  | e :: es, h => by
    rw [readsAll, List.mem_append] at h
    rcases h with h | h
    · exact ⟨e, List.mem_cons_self, mentions_of_mem_reads e h⟩
    · obtain ⟨later, hl, hx⟩ := exists_mentions_of_mem_readsAll es h
      exact ⟨later, List.mem_cons_of_mem _ hl, hx⟩

end

theorem reads_subset_readsAll {e : Expr} {es : List Expr} (he : e ∈ es) : e.reads ⊆ readsAll es := by
  induction es with
  | nil => cases he
  | cons first rest ih =>
    rw [readsAll]
    rcases List.mem_cons.1 he with rfl | he
    · exact List.subset_append_left _ _
    · exact List.subset_append_of_subset_right _ (ih he)

theorem Mentions.mem_reads {e : Expr} (h : e.Mentions x) : x ∈ e.reads := by
  induction h with
  | ident =>
    rw [reads]
    exact List.mem_singleton_self x
  | operand h ih =>
    rw [reads]
    exact ih
  | left h ih =>
    rw [reads]
    exact List.mem_append_left _ ih
  | right h ih =>
    rw [reads]
    exact List.mem_append_right _ ih
  | arg he h ih =>
    rw [reads]
    exact reads_subset_readsAll he ih

end Expr

theorem PropValue.mem_reads_iff {x : String} {p : PropValue} : x ∈ p.reads ↔ p.Mentions x := by
  constructor
  · intro h
    cases p with
    | literal v | color c => cases h
    | expr e => exact .expr (e.mentions_of_mem_reads h)
    | ident name =>
      rw [reads, List.mem_singleton] at h
      rw [h]
      exact .ident
  · intro h
    cases h with
    | ident => exact List.mem_singleton_self x
    | expr h => exact h.mem_reads

namespace ViewNode

variable {node : ViewNode} {x : String} {facet : Facet}

theorem Mentions.mem_facets (h : node.Mentions x facet) : facet ∈ node.facets := by
  cases h with
  | text h hx =>
    rw [mem_facets_text, h]
    rfl
  | visible h hx => simp [facets]
  | value h hx =>
    rw [mem_facets_value, Table.has, h]
    rfl
  | prop hplain h hx =>
    exact mem_facets_prop.2 ⟨List.mem_map_of_mem (Table.mem_entries h), hplain⟩

theorem mentions_of_facetOfProp {name : String} {p : PropValue} {kind : ReadKind}
    (hf : facetOfProp? name = some (facet, kind)) (h : node.props.get? name = some p)
    (hx : p.Mentions x) : node.Mentions x facet := by
  rw [facetOfProp?] at hf
  split at hf
  · rename_i hname
    subst hname
    cases hf
    exact .visible h hx
  · split at hf
    · rename_i hname
      subst hname
      cases hf
      exact .value h hx
    · split at hf
      · rename_i hplain
        cases hf
        exact .prop hplain h hx
      · cases hf

end ViewNode

/-- The index records a variable for a facet just if it occurs there. -/
theorem ArenaNode.mem_readsIn_iff {n : ArenaNode} {x : String} {facet : Facet} :
    x ∈ n.readsIn facet ↔ n.node.Mentions x facet := by
  constructor
  · intro h
    obtain ⟨read, hread, rfl, rfl⟩ := mem_readsIn.1 h
    rcases List.mem_append.1 hread with htext | hprop
    · obtain ⟨name, hname, rfl⟩ := List.mem_map.1 htext
      obtain ⟨span, hspan, hname⟩ := List.mem_flatMap.1 hname
      cases span with
      | literal text => cases hname
      | var other =>
        obtain rfl : name = other := List.mem_singleton.1 hname
        cases ht : n.node.text with
        | none =>
          rw [ht] at hspan
          cases hspan
        | some spans =>
          rw [ht] at hspan
          exact .text ht hspan
    · obtain ⟨entry, hentry, hprop⟩ := List.mem_flatMap.1 hprop
      rw [propReads] at hprop
      split at hprop
      · rename_i facet kind hf
        obtain ⟨name, hname, rfl⟩ := List.mem_map.1 hprop
        exact ViewNode.mentions_of_facetOfProp hf (Table.get?_of_mem hentry)
          (PropValue.mem_reads_iff.1 hname)
      · cases hprop
  · intro h
    cases h with
    | text h hx =>
      apply text_mem_readsIn
      rw [h]
      exact List.mem_flatMap.2 ⟨.var x, hx, List.mem_singleton_self x⟩
    | visible h hx => exact prop_mem_readsIn h rfl (PropValue.mem_reads_iff.2 hx)
    | value h hx => exact prop_mem_readsIn h rfl (PropValue.mem_reads_iff.2 hx)
    | prop hplain h hx =>
      exact prop_mem_readsIn h (facetOfProp_plain hplain) (PropValue.mem_reads_iff.2 hx)

theorem Index.dependents_congr (index : Index) {names others : List String}
    (h : ∀ x, x ∈ names ↔ x ∈ others) : index.dependents names = index.dependents others := by
  have hreads : index.readsOf names = index.readsOf others :=
    List.filter_congr fun read _ => by simp only [List.contains_eq_mem, h read.name]
  rw [dependents, dependents, hreads]

namespace Program

variable {p : Program} {names : List String}

theorem mem_dependents_iff {r : FacetRef} : r ∈ p.application.index.dependents names ↔
    ∃ n, p.nodes[r.ref]? = some n ∧ ∃ x ∈ names, n.node.Mentions x r.facet := by
  obtain ⟨ref, facet⟩ := r
  have hnum : p.application.Numbered := ViewNode.refs_arena p.view
  constructor
  · intro h
    obtain ⟨n, hn, hfacet⟩ := (Application.mem_dependents_iff hnum rfl).1 h
    obtain rfl := ref_eq_of_getElem? hn
    have hlisted := (ArenaNode.facetsAmong_sublist _ n).subset hfacet
    obtain ⟨x, hx, hreads⟩ := (mem_dependents (List.mem_of_getElem? hn) hlisted).1 h
    exact ⟨n, hn, x, hx, ArenaNode.mem_readsIn_iff.1 hreads⟩
  · rintro ⟨n, hn, x, hx, hmentions⟩
    obtain rfl := ref_eq_of_getElem? hn
    exact (mem_dependents (List.mem_of_getElem? hn) hmentions.mem_facets).2
      ⟨x, hx, ArenaNode.mem_readsIn_iff.2 hmentions⟩

theorem mem_nodesOf_iff {i : Nat} : i ∈ p.application.index.nodesOf names ↔
    ∃ facet, ⟨i, facet⟩ ∈ p.application.index.dependents names := by
  constructor
  · intro h
    obtain ⟨-, hany⟩ := List.mem_filter.1 h
    obtain ⟨read, hread, href⟩ := List.any_eq_true.1 hany
    obtain ⟨hread, hname⟩ := List.mem_filter.1 hread
    obtain ⟨n, hn, hreads⟩ := List.mem_flatMap.1 hread
    obtain ⟨j, hj⟩ := List.mem_iff_getElem?.1 hn
    obtain rfl : j = i := by
      rw [← ref_eq_of_getElem? hj, ← ArenaNode.ref_of_mem_reads hreads]
      exact beq_iff_eq.1 href
    have hmentions : n.node.Mentions read.name read.facet :=
      ArenaNode.mem_readsIn_iff.1 (ArenaNode.mem_readsIn.2 ⟨read, hreads, rfl, rfl⟩)
    exact ⟨read.facet, mem_dependents_iff.2 ⟨n, hj, read.name, by simpa using hname, hmentions⟩⟩
  · rintro ⟨facet, h⟩
    obtain ⟨n, hn, x, hx, hmentions⟩ := mem_dependents_iff.1 h
    obtain ⟨read, hread, -, rfl⟩ := ArenaNode.mem_readsIn.1 (ArenaNode.mem_readsIn_iff.2 hmentions)
    obtain rfl := ref_eq_of_getElem? hn
    have hmem := List.mem_of_getElem? hn
    refine List.mem_filter.2 ⟨List.mem_map_of_mem hmem, List.any_eq_true.2 ⟨read, ?_, ?_⟩⟩
    · exact List.mem_filter.2 ⟨List.mem_flatMap.2 ⟨n, hmem, hread⟩, by simpa using hx⟩
    · rw [ArenaNode.ref_of_mem_reads hread]
      exact beq_self_eq_true n.ref

/-- Whatever names are looked for in the index of a loaded document, in any order, repeated or unknown, it
lists a facet of a node just if one of them occurs there. The list holds facets of the view only, in
pre-order and in the order of the facets of a node, so each once, and only which names are looked for
matters. The nodes of the names are those with a listed facet. -/
theorem dependents_exact {app : Application} (hload : p.load = .ok app) (names : List String) :
    (∀ r, r ∈ app.index.dependents names ↔
      ∃ n, app.nodes[r.ref]? = some n ∧ ∃ x ∈ names, n.node.Mentions x r.facet) ∧
    (∀ r ∈ app.index.dependents names, ∃ n, app.nodes[r.ref]? = some n ∧ r.facet ∈ n.facets) ∧
    (app.index.dependents names).Pairwise app.Precedes ∧ (app.index.dependents names).Nodup ∧
    (∀ others, (∀ x, x ∈ names ↔ x ∈ others) →
      app.index.dependents names = app.index.dependents others) ∧
    (app.index.nodesOf names).Pairwise (· < ·) ∧
    ∀ i, i ∈ app.index.nodesOf names ↔ ∃ facet, ⟨i, facet⟩ ∈ app.index.dependents names := by
  have hnum := numbered_of_load hload
  obtain ⟨-, rfl⟩ := load_eq_ok_iff.1 hload
  have hordered := Application.pairwise_dependents hnum rfl names
  refine ⟨fun r => mem_dependents_iff, fun r hr => ?_, hordered, ?_, ?_, ?_, fun i => mem_nodesOf_iff⟩
  · obtain ⟨n, hn, x, -, hmentions⟩ := mem_dependents_iff.1 hr
    exact ⟨n, hn, hmentions.mem_facets⟩
  · refine hordered.imp fun {a b} hab heq => ?_
    subst heq
    exact Application.not_precedes_self _ a hab
  · exact fun others h => Index.dependents_congr _ h
  · refine List.Pairwise.filter _ ?_
    have hrefs : (p.application.index.nodes.map ArenaNode.ref) = List.range p.nodes.length := hnum
    rw [hrefs]
    exact List.pairwise_lt_range

end Program

def drafting : Program where
  app := "Drafting"
  version := .ofInt 1
  state := [("draft", .str ""), ("open", .bool true)]
  view := some ⟨"column", .ofList [("title", .ident "draft")],
    [⟨"input", .ofList [("bind", .ident "draft"), ("visible", .expr (.binary .and (.ident "open")
      (.binary .ne (.ident "draft") (.literal (.str "")))))], [], some [.var "draft"]⟩], none⟩
  actions := []

/-- The visibility of the field is named once, although both names occur there and one of them is asked for
again; an unknown name adds nothing. -/
theorem drafting_dependents :
    let index := drafting.application.index
    let named : List FacetRef := [⟨0, .prop "title"⟩, ⟨1, .text⟩, ⟨1, .visible⟩, ⟨1, .value⟩]
    drafting.load = .ok drafting.application ∧
      index.dependents ["draft", "open"] = named ∧
      index.dependents ["open", "nobody", "draft", "open"] = named ∧
      (∀ i, i ∈ index.nodesOf ["open"] ↔ ∃ facet, ⟨i, facet⟩ ∈ index.dependents ["open"]) ∧
      ∃ n, drafting.application.nodes[1]? = some n ∧
        ∃ x ∈ ["draft", "open"], n.node.Mentions x .visible := by
  intro index named
  have hload : drafting.load = .ok drafting.application :=
    Program.load_eq_ok_iff.2 ⟨by decide +kernel, rfl⟩
  have hnamed : index.dependents ["open", "nobody", "draft", "open"] = named := by decide +kernel
  have hboth : index.dependents ["draft", "open"] = named := by decide +kernel
  have hvisible : ⟨1, .visible⟩ ∈ index.dependents ["draft", "open"] := by
    rw [hboth]
    decide
  obtain ⟨hlisted, -⟩ := Program.dependents_exact hload ["draft", "open"]
  obtain ⟨-, -, -, -, -, -, hnodes⟩ := Program.dependents_exact hload ["open"]
  exact ⟨hload, hboth, hnamed, hnodes, (hlisted ⟨1, .visible⟩).1 hvisible⟩

end ReactiveView
