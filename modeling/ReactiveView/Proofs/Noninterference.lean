import ReactiveView.Proofs.Loading

namespace ReactiveView

namespace ViewNode

mutual

theorem refs_place (ref : Nat) (parent : Option Nat) (path : List Nat) : ∀ node : ViewNode,
    (node.place ref parent path).map ArenaNode.ref = List.range' ref node.size
  | ⟨_, _, children, _⟩ => by
    -- a node comes first, its children are numbered from the next reference on
    have hc := refs_placeAll (ref + 1) ref path 0 children
    rw [place, size, Nat.add_comm 1 (sizeAll children), List.range'_succ, List.map_cons, hc]

theorem refs_placeAll (next parent : Nat) (path : List Nat) (position : Nat) :
    ∀ nodes : List ViewNode,
      (placeAll next parent path position nodes).map ArenaNode.ref = List.range' next (sizeAll nodes)
  | [] => by rw [placeAll, sizeAll]; rfl
  | child :: rest => by
    have hc := refs_place next (some parent) (path ++ [position]) child
    have hr := refs_placeAll (next + child.size) parent path (position + 1) rest
    rw [placeAll, sizeAll, List.map_append, hc, hr, ← List.range'_append_1]

end

theorem length_place (ref : Nat) (parent : Option Nat) (path : List Nat) (node : ViewNode) :
    (node.place ref parent path).length = node.size := by
  have h := congrArg List.length (refs_place ref parent path node)
  rwa [List.length_map, List.length_range'] at h

theorem refs_arena (view : Option ViewNode) :
    (arena view).map ArenaNode.ref = List.range (arena view).length := by
  cases view with
  | none => rfl
  | some root =>
    rw [arena, refs_place, length_place, List.range_eq_range']

theorem ref_eq_of_getElem? {view : Option ViewNode} {i : Nat} {n : ArenaNode}
    (h : (arena view)[i]? = some n) : n.ref = i := by
  obtain ⟨hi, -⟩ := List.getElem?_eq_some_iff.1 h
  have hget : ((arena view).map ArenaNode.ref)[i]? = some i := by
    rw [refs_arena]
    exact List.getElem?_range hi
  rw [List.getElem?_map, h] at hget
  exact Option.some.inj hget

end ViewNode

namespace Program

theorem ref_eq_of_getElem? {p : Program} {i : Nat} {n : ArenaNode} (h : p.nodes[i]? = some n) :
    n.ref = i := ViewNode.ref_eq_of_getElem? h

theorem eq_of_ref_eq {p : Program} {m n : ArenaNode} (hm : m ∈ p.nodes) (hn : n ∈ p.nodes)
    (h : m.ref = n.ref) : m = n := by
  obtain ⟨i, hi⟩ := List.mem_iff_getElem?.1 hm
  obtain ⟨j, hj⟩ := List.mem_iff_getElem?.1 hn
  have hij : i = j := by rw [← ref_eq_of_getElem? hi, ← ref_eq_of_getElem? hj, h]
  rw [hij, hj] at hi
  exact (Option.some.inj hi).symm

end Program

/-- The index lists a facet under some variables just if it reads one of them. -/
theorem Program.mem_dependents {p : Program} {n : ArenaNode} (hn : n ∈ p.nodes) {facet : Facet}
    (hf : facet ∈ n.facets) {names : List String} :
    ⟨n.ref, facet⟩ ∈ p.application.index.dependents names ↔ ∃ x ∈ names, x ∈ n.readsIn facet := by
  constructor
  · intro h
    obtain ⟨m, hm, h⟩ := List.mem_flatMap.1 h
    obtain ⟨other, hother, heq⟩ := List.mem_map.1 h
    obtain ⟨href, rfl⟩ := FacetRef.mk.inj heq
    rw [Index.facetsAmong] at hother
    split at hother
    · cases hother
    · -- the read that lists the facet is one of a node with this reference, so of this node
      obtain ⟨read, hread, hfacet⟩ := List.any_eq_true.1 (List.mem_filter.1 hother).2
      obtain ⟨hread, hrefm⟩ := List.mem_filter.1 hread
      obtain ⟨hread, hname⟩ := List.mem_filter.1 hread
      obtain ⟨k, hk, hreads⟩ := List.mem_flatMap.1 hread
      have hkref := ArenaNode.ref_of_mem_reads hreads
      have hkn : k = n := eq_of_ref_eq hk hn (by rw [← hkref, beq_iff_eq.1 hrefm, href])
      subst hkn
      exact ⟨read.name, by simpa using hname,
        ArenaNode.mem_readsIn.2 ⟨read, hreads, beq_iff_eq.1 hfacet, rfl⟩⟩
  · rintro ⟨x, hx, hr⟩
    refine List.mem_flatMap.2 ⟨n, hn, List.mem_map.2 ⟨facet, ?_, rfl⟩⟩
    exact ArenaNode.mem_facetsAmong hn hf hr hx

/-- A facet depends on no variable but those under which the index lists it, and it is listed under no
variable that it does not read. Two states that agree on these variables give it the same value, or the
same error and fallback; so a change of variables none of which lists it leaves it as it is. -/
theorem Program.resolve_eq_of_agree {p : Program} {app : Application} (hload : p.load = .ok app)
    {ref : Nat} {n : ArenaNode} (hn : app.nodes[ref]? = some n) {facet : Facet}
    (hf : facet ∈ n.facets) :
    (∀ s t : State,
      (∀ x, ⟨ref, facet⟩ ∈ app.index.dependents [x] → s.get? x = t.get? x) →
        n.resolve s facet = n.resolve t facet) ∧
    (∀ (names : List String) (s t : State), ⟨ref, facet⟩ ∉ app.index.dependents names →
      (∀ x ∉ names, s.get? x = t.get? x) → n.resolve s facet = n.resolve t facet) ∧
    ∀ x, ⟨ref, facet⟩ ∈ app.index.dependents [x] ↔ x ∈ n.readsIn facet := by
  obtain ⟨-, rfl⟩ := load_eq_ok_iff.1 hload
  have hmem := List.mem_of_getElem? hn
  have href : n.ref = ref := ref_eq_of_getElem? hn
  subst href
  have hlisted (names : List String) : ⟨n.ref, facet⟩ ∈ p.application.index.dependents names ↔
      ∃ x ∈ names, x ∈ n.readsIn facet := mem_dependents hmem hf
  refine ⟨fun s t hagree => ?_, fun names s t hquiet hagree => ?_, fun x => ?_⟩
  · refine ArenaNode.resolve_congr hf fun x hx => hagree x ?_
    exact (hlisted [x]).2 ⟨x, List.mem_singleton_self x, hx⟩
  · refine ArenaNode.resolve_congr hf fun x hx => hagree x fun hnames => hquiet ?_
    exact (hlisted names).2 ⟨x, hnames, hx⟩
  · rw [hlisted [x]]
    simp

def counterLabel : ArenaNode :=
  ⟨0, ⟨"label", .ofList [("value", .ident "count"), ("on_click", .ident "raise")], [], none⟩, none,
    [], []⟩

/-- The value that the label of the counter shows depends on the count and on nothing else. -/
theorem counter_value_of_count : counter.load = .ok counter.application ∧
    counter.application.nodes[0]? = some counterLabel ∧ .prop "value" ∈ counterLabel.facets ∧
      (∀ x, ⟨0, .prop "value"⟩ ∈ counter.application.index.dependents [x] ↔ x = "count") ∧
      ∀ s t : State, s.get? "count" = t.get? "count" →
        counterLabel.resolve s (.prop "value") = counterLabel.resolve t (.prop "value") := by
  have hn : counter.application.nodes[0]? = some counterLabel := rfl
  have hf : .prop "value" ∈ counterLabel.facets := by decide +kernel
  have hreads : counterLabel.readsIn (.prop "value") = ["count"] := by decide +kernel
  obtain ⟨hagree, -, hlisted⟩ := Program.resolve_eq_of_agree counter_loads hn hf
  have hcount (x : String) :
      ⟨0, .prop "value"⟩ ∈ counter.application.index.dependents [x] ↔ x = "count" := by
    rw [hlisted x, hreads, List.mem_singleton]
  exact ⟨counter_loads, hn, hf, hcount, fun s t h => hagree s t fun x hx => (hcount x).1 hx ▸ h⟩

end ReactiveView
