import ReactiveView.Proofs.Evaluation
import ReactiveView.View.Index
import ReactiveView.View.Resolve

namespace ReactiveView

theorem Table.mem_of_lookup {α : Type} {entries : List (String × α)} {name : String} {value : α}
    (h : entries.lookup name = some value) : (name, value) ∈ entries := by
  induction entries with
  | nil => simp at h
  | cons entry rest ih =>
    rw [Table.lookup_cons] at h
    by_cases hn : name = entry.1
    · rw [if_pos hn] at h
      cases h
      rw [hn]
      exact List.mem_cons_self
    · rw [if_neg hn] at h
      exact List.mem_cons_of_mem _ (ih h)

theorem Table.mem_entries {α : Type} {t : Table α} {name : String} {value : α}
    (h : t.get? name = some value) : (name, value) ∈ t.entries := Table.mem_of_lookup h

namespace ArenaNode

def readsIn (n : ArenaNode) (facet : Facet) : List String :=
  (n.reads.filter fun read => read.facet = facet).map Read.name

theorem mem_readsIn {n : ArenaNode} {facet : Facet} {name : String} :
    name ∈ n.readsIn facet ↔ ∃ read ∈ n.reads, read.facet = facet ∧ read.name = name := by
  simp [readsIn, and_assoc]

theorem text_mem_readsIn {n : ArenaNode} {name : String}
    (h : name ∈ (n.node.text.getD []).flatMap Span.reads) : name ∈ n.readsIn .text := by
  refine mem_readsIn.2 ⟨⟨name, n.ref, .text, .interpolation⟩, ?_, rfl, rfl⟩
  exact List.mem_append_left _ (List.mem_map.2 ⟨name, h, rfl⟩)

theorem prop_mem_readsIn {n : ArenaNode} {prop name : String} {value : PropValue} {facet : Facet}
    {kind : ReadKind} (hp : n.node.props.get? prop = some value)
    (hf : facetOfProp? prop = some (facet, kind)) (h : name ∈ value.reads) :
    name ∈ n.readsIn facet := by
  refine mem_readsIn.2 ⟨⟨name, n.ref, facet, kind⟩, ?_, rfl, rfl⟩
  refine List.mem_append_right _ (List.mem_flatMap.2 ⟨_, Table.mem_entries hp, ?_⟩)
  simp only [propReads, hf]
  exact List.mem_map.2 ⟨name, h, rfl⟩

end ArenaNode

theorem facetOfProp_plain {name : String} (h : isPlainProp name = true) :
    facetOfProp? name = some (.prop name, .prop) := by
  have hv : name ≠ visibleProp := by rintro rfl; simp [isPlainProp] at h
  have hb : name ≠ bindProp := by rintro rfl; simp [isPlainProp] at h
  rw [facetOfProp?, if_neg hv, if_neg hb, if_pos h]

theorem ViewNode.mem_facets_prop {node : ViewNode} {name : String} :
    Facet.prop name ∈ node.facets ↔ name ∈ node.props.names ∧ isPlainProp name = true := by
  simp [ViewNode.facets]

theorem ViewNode.facets_nodup (node : ViewNode) : node.facets.Nodup := by
  have hp : ((node.props.names.filter isPlainProp).map Facet.prop).Nodup :=
    List.Pairwise.map _ (fun _ _ hne h => hne (Facet.prop.inj h)) (node.props.nodup.filter _)
  rw [ViewNode.facets]
  split <;> split <;> simp [hp]

namespace PropValue

theorem resolve_congr {s t : State} {p : PropValue} (h : AgreeOn p.reads s t) :
    p.resolve s = p.resolve t := by
  cases p with
  | literal v | color c => rfl
  | expr e => rw [resolve, resolve, Expr.evaluate_congr e h]
  | ident name => rw [resolve, resolve, Expr.lookup_congr (h name (by simp [reads]))]

theorem resolveValue_congr {s t : State} {p : PropValue} (place : String)
    (h : AgreeOn p.reads s t) : p.resolveValue s place = p.resolveValue t place := by
  rw [resolveValue, resolveValue, resolve_congr h]

end PropValue

theorem Span.resolveAll_congr {s t : State} (spans : List Span)
    (h : AgreeOn (spans.flatMap Span.reads) s t) :
    Span.resolveAll s spans = Span.resolveAll t spans := by
  induction spans with
  | nil => rfl
  | cons span rest ih =>
    have hr := ih (h.mono (by simp))
    have hs : span.resolve s = span.resolve t := by
      cases span with
      | literal text => rfl
      | var name => rw [Span.resolve, Span.resolve, Expr.lookup_congr (h name (by simp [reads]))]
    rw [resolveAll, resolveAll, hs, hr]

namespace ArenaNode

theorem node_resolve_congr {n : ArenaNode} {s t : State} {facet : Facet}
    (hf : facet ∈ n.facets) (h : AgreeOn (n.readsIn facet) s t) :
    n.node.resolve s facet = n.node.resolve t facet := by
  cases facet with
  | text =>
    have hs := Span.resolveAll_congr (n.node.text.getD [])
      (h.mono fun name hn => text_mem_readsIn hn)
    rw [ViewNode.resolve, ViewNode.resolve, hs]
  | visible =>
    cases hp : n.node.props.get? visibleProp with
    | none => simp only [ViewNode.resolve, hp]
    | some p =>
      have hr := PropValue.resolveValue_congr visibleProp
        (h.mono fun name hn => prop_mem_readsIn hp rfl hn)
      simp only [ViewNode.resolve, hp, hr]
  | value =>
    cases hp : n.node.props.get? bindProp with
    | none => simp only [ViewNode.resolve, hp]
    | some p =>
      have hr := PropValue.resolveValue_congr bindProp
        (h.mono fun name hn => prop_mem_readsIn hp rfl hn)
      simp only [ViewNode.resolve, hp, hr]
  | prop name =>
    cases hp : n.node.props.get? name with
    | none => simp only [ViewNode.resolve, hp]
    | some p =>
      have hplain := facetOfProp_plain (ViewNode.mem_facets_prop.1 hf).2
      have hr := PropValue.resolve_congr
        (h.mono fun x hn => prop_mem_readsIn hp hplain hn)
      simp only [ViewNode.resolve, hp, hr]

theorem resolve_congr {n : ArenaNode} {s t : State} {facet : Facet}
    (hf : facet ∈ n.facets) (h : AgreeOn (n.readsIn facet) s t) :
    n.resolve s facet = n.resolve t facet := by
  rw [resolve, resolve, node_resolve_congr hf h]

theorem ref_of_mem_reads {n : ArenaNode} {read : Read} (h : read ∈ n.reads) : read.ref = n.ref := by
  rcases List.mem_append.1 h with h | h
  · obtain ⟨x, -, rfl⟩ := List.mem_map.1 h
    rfl
  · obtain ⟨entry, -, h⟩ := List.mem_flatMap.1 h
    rw [propReads] at h
    split at h
    · obtain ⟨x, -, rfl⟩ := List.mem_map.1 h
      rfl
    · cases h

theorem mem_facetsAmong {nodes : List ArenaNode} {n : ArenaNode} (hn : n ∈ nodes)
    {facet : Facet} (hf : facet ∈ n.facets) {name : String} (hr : name ∈ n.readsIn facet)
    {dirty : List String} (hd : name ∈ dirty) :
    facet ∈ Index.facetsAmong ((Index.ofNodes nodes).readsOf dirty) n := by
  obtain ⟨read, hread, rfl, rfl⟩ := mem_readsIn.1 hr
  have hown : read.ref = n.ref := ref_of_mem_reads hread
  have hmem : read ∈ ((Index.ofNodes nodes).readsOf dirty).filter fun read => read.ref == n.ref := by
    refine List.mem_filter.2 ⟨List.mem_filter.2 ⟨?_, by simpa using hd⟩, by simpa using hown⟩
    exact List.mem_flatMap.2 ⟨n, hn, hread⟩
  rw [Index.facetsAmong]
  simp only [List.isEmpty_iff, List.ne_nil_of_mem hmem, if_false]
  exact List.mem_filter.2 ⟨hf, List.any_eq_true.2 ⟨read, hmem, by simp⟩⟩

theorem facetsAmong_sublist (reads : List Read) (n : ArenaNode) :
    (Index.facetsAmong reads n).Sublist n.facets := by
  unfold Index.facetsAmong
  dsimp only
  split
  · exact List.nil_sublist _
  · exact List.filter_sublist

theorem resolveAll_cons (s : State) (n : ArenaNode) (facet : Facet) (rest : List Facet) :
    (n.resolveAll s (facet :: rest)).2 =
      match (n.resolve s facet).2 with
      | .error failure => .error failure
      | .ok value => (n.resolveAll s rest).2.map fun values => (facet, value) :: values := by
  rw [resolveAll]
  split <;> rename_i h <;> rw [h]

theorem resolveAll_ok {s : State} {n : ArenaNode} {facets : List Facet}
    {values : List (Facet × FacetValue)} (h : (n.resolveAll s facets).2 = .ok values) :
    values.map Prod.fst = facets ∧ ∀ entry ∈ values, (n.resolve s entry.1).2 = .ok entry.2 := by
  induction facets generalizing values with
  | nil =>
    cases h
    exact ⟨rfl, by simp⟩
  | cons facet rest ih =>
    rw [resolveAll_cons] at h
    cases hv : (n.resolve s facet).2 with
    | error failure =>
      rw [hv] at h
      cases h
    | ok value =>
      cases hr : (n.resolveAll s rest).2 with
      | error failure =>
        rw [hv, hr] at h
        cases h
      | ok later =>
        rw [hv, hr] at h
        cases h
        obtain ⟨hfst, hall⟩ := ih hr
        refine ⟨by rw [List.map_cons, hfst], ?_⟩
        intro entry he
        rcases List.mem_cons.1 he with rfl | he
        · exact hv
        · exact hall entry he

theorem exists_resolveAll_ok {s : State} {n : ArenaNode} {facets : List Facet}
    (h : ∀ facet ∈ facets, ∃ value, (n.resolve s facet).2 = .ok value) :
    ∃ values, (n.resolveAll s facets).2 = .ok values := by
  induction facets with
  | nil => exact ⟨[], rfl⟩
  | cons facet rest ih =>
    obtain ⟨value, hv⟩ := h facet List.mem_cons_self
    obtain ⟨values, hvs⟩ := ih fun f hf => h f (List.mem_cons_of_mem _ hf)
    exact ⟨(facet, value) :: values, by rw [resolveAll_cons, hv, hvs]; rfl⟩

theorem error_of_resolveAll {s : State} {n : ArenaNode} {facets : List Facet} {failure : Failure}
    (h : (n.resolveAll s facets).2 = .error failure) :
    ∃ facet ∈ facets, (n.resolve s facet).2 = .error failure := by
  induction facets with
  | nil => cases h
  | cons facet rest ih =>
    rw [resolveAll_cons] at h
    cases hv : (n.resolve s facet).2 with
    | error other =>
      rw [hv] at h
      cases h
      exact ⟨facet, List.mem_cons_self, hv⟩
    | ok value =>
      cases hr : (n.resolveAll s rest).2 with
      | error other =>
        rw [hv, hr] at h
        cases h
        obtain ⟨f, hf, hfail⟩ := ih hr
        exact ⟨f, List.mem_cons_of_mem _ hf, hfail⟩
      | ok later =>
        rw [hv, hr] at h
        cases h

end ArenaNode

def PropValue.calls : PropValue → List CallSite
  | .expr e => e.calls
  | .literal _ | .color _ | .ident _ => []

namespace PropValue

theorem resolve_blame (s : State) (p : PropValue) :
    FailsOnly (Expr.Blame s p.reads p.calls) (p.resolve s) := by
  cases p with
  | literal v | color c => exact .ok _
  | expr e => exact (Expr.evaluate_blame s e).map _
  | ident name => exact (Expr.lookup_blame s name []).map _

theorem resolveValue_blame (s : State) (place : String) (p : PropValue) :
    FailsOnly (Expr.Blame s p.reads p.calls) (p.resolveValue s place) := by
  have hp := resolve_blame s p
  rw [resolveValue]
  split <;> rename_i hr
  · exact .ok _
  · exact .error (.values (Or.inl rfl))
  · exact .error (hp _ hr)

end PropValue

theorem Span.resolveAll_blame (s : State) (spans : List Span) :
    FailsOnly (Expr.Blame s (spans.flatMap Span.reads) []) (Span.resolveAll s spans) := by
  induction spans with
  | nil => exact .ok _
  | cons span rest ih =>
    have hs : FailsOnly (Expr.Blame s span.reads []) (span.resolve s) := by
      cases span with
      | literal text => exact .ok _
      | var name => exact (Expr.lookup_blame s name []).map _
    rw [resolveAll, List.flatMap_cons]
    refine (hs.mono (Expr.Blame.mono (List.subset_append_left ..) (List.Subset.refl _))).bind
      fun text _ => ?_
    refine (ih.mono (Expr.Blame.mono (List.subset_append_right ..) (List.Subset.refl _))).bind
      fun later _ => ?_
    exact .ok _

namespace ArenaNode

def calls (n : ArenaNode) : List CallSite := n.node.props.entries.flatMap fun entry => entry.2.calls

theorem calls_subset {n : ArenaNode} {prop : String} {p : PropValue}
    (hp : n.node.props.get? prop = some p) : p.calls ⊆ n.calls := fun _ h =>
  List.mem_flatMap.2 ⟨_, Table.mem_entries hp, h⟩

/-- A facet fails by values, by a variable that the index records for it, or by a call of its node. -/
theorem node_resolve_blame {n : ArenaNode} (s : State) {facet : Facet} (hf : facet ∈ n.facets) :
    FailsOnly (Expr.Blame s (n.readsIn facet) n.calls) (n.node.resolve s facet) := by
  cases facet with
  | text =>
    refine ((Span.resolveAll_blame s _).mono (Expr.Blame.mono ?_ (List.nil_subset _))).map _
    exact fun name hn => text_mem_readsIn hn
  | visible =>
    rw [ViewNode.resolve]
    split
    · exact .ok _
    · rename_i p hp
      refine ((p.resolveValue_blame s _).mono (Expr.Blame.mono ?_ (calls_subset hp))).map _
      exact fun name hn => prop_mem_readsIn hp rfl hn
  | value =>
    rw [ViewNode.resolve]
    split
    · exact .ok _
    · rename_i p hp
      refine ((p.resolveValue_blame s _).mono (Expr.Blame.mono ?_ (calls_subset hp))).map _
      exact fun name hn => prop_mem_readsIn hp rfl hn
  | prop name =>
    rw [ViewNode.resolve]
    split
    · exact .ok _
    · rename_i p hp
      have hplain := facetOfProp_plain (ViewNode.mem_facets_prop.1 hf).2
      refine ((p.resolve_blame s).mono (Expr.Blame.mono ?_ (calls_subset hp))).map _
      exact fun x hn => prop_mem_readsIn hp hplain hn

def Supplied (n : ArenaNode) : Prop := ∀ site ∈ n.calls, site.Supplied

theorem error_of_resolve {n : ArenaNode} (hn : n.Supplied) {s : State} {facet : Facet}
    (hf : facet ∈ n.facets) {failure : Failure} (h : (n.resolve s facet).2 = .error failure) :
    ∃ cause, failure = .sandbox cause := by
  have hblame := node_resolve_blame s hf
  rw [resolve] at h
  cases hr : n.node.resolve s facet with
  | ok value =>
    rw [hr] at h
    cases h
  | error fault =>
    rw [hr] at h
    have hfault := hblame fault hr
    cases fault with
    | evaluation cause => cases h
    | sandbox cause =>
      cases h
      exact ⟨cause, rfl⟩
    | missingArgument b =>
      cases hfault with
      | values hv => exact hv.elim
      | lacking hsite hb hlt =>
        obtain ⟨c, hc, hle, -⟩ := hn _ hsite
        obtain rfl : c = b := Option.some.inj (hc.symm.trans hb)
        exact absurd hle (Nat.not_le.2 hlt)
    | notWhole x =>
      cases hfault with
      | values hv => exact hv.elim

end ArenaNode

end ReactiveView
