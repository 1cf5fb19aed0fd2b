import ReactiveView.Proofs.Incremental

namespace ReactiveView

theorem eq_of_getD {α : Type} {default : α} {o p : Option α} (hsome : o.isSome ↔ p.isSome)
    (h : o.isSome → o.getD default = p.getD default) : o = p := by
  cases o <;> cases p <;> simp_all

def changeOf (entry : Facet × FacetValue) : Change := (Patch.ofFacet 0 entry.1 entry.2).change

theorem Patch.ofFacet_eq (ref : Nat) (entry : Facet × FacetValue) :
    Patch.ofFacet ref entry.1 entry.2 = ⟨.position ref, changeOf entry⟩ := rfl

namespace ArenaNode

/-- Values of the right kind for facets of a node, in the order of the facets. -/
structure Accepts (n : ArenaNode) (values : List (Facet × FacetValue)) : Prop where
  takes : ∀ entry ∈ values, entry.1.Takes entry.2
  facets : (values.map Prod.fst).Sublist n.facets

variable {n : ArenaNode} {values : List (Facet × FacetValue)}

theorem Accepts.nodup (h : n.Accepts values) : (values.map Prod.fst).Nodup :=
  h.facets.nodup n.node.facets_nodup

theorem Accepts.text (h : n.Accepts values) (ht : .text ∈ values.map Prod.fst) :
    n.node.text.isSome = true := ViewNode.mem_facets_text.1 (h.facets.subset ht)

theorem accepts_changes {s : State} {wanted : List Facet} (hsub : wanted.Sublist n.facets)
    (h : (n.resolveAll s wanted).2 = .ok values) (before : Node) :
    n.Accepts (View.changes before values) := by
  obtain ⟨hfst, hall⟩ := resolveAll_ok h
  constructor
  · intro entry he
    exact takes_of_resolve (hall entry (List.mem_of_mem_filter he))
  · rw [← hfst] at hsub
    exact (List.filter_sublist.map Prod.fst).trans hsub

end ArenaNode

namespace Node

structure Fits (n : ArenaNode) (node : Node) : Prop where
  blank : node.blank = shell n
  facets : node.facets = n.facets

def shown (node : Node) : List (Facet × FacetValue) :=
  node.facets.map fun facet => (facet, node.read facet)

theorem Mirrors.fits {s : State} {n : ArenaNode} {node : Node} (h : node.Mirrors s n) :
    node.Fits n := ⟨h.blank, h.facets⟩

theorem Fits.ref_eq {n : ArenaNode} {node : Node} (h : node.Fits n) : node.ref = n.ref :=
  (fields_of_blank_eq (v := shell n) h.blank).1

theorem Fits.children_eq {n : ArenaNode} {node : Node} (h : node.Fits n) :
    node.children = n.children := (fields_of_blank_eq (v := shell n) h.blank).2.2.2.1

theorem Fits.writeAll {n : ArenaNode} {node : Node} (h : node.Fits n)
    {values : List (Facet × FacetValue)} (hv : n.Accepts values) : (node.writeAll values).Fits n := by
  have hshown : ∀ entry ∈ values, entry.1 ∈ node.facets := by
    intro entry he
    rw [h.facets]
    exact hv.facets.subset (List.mem_map_of_mem he)
  exact ⟨(blank_writeAll node values).trans h.blank, (facets_writeAll hshown).trans h.facets⟩

@[simp]
theorem map_fst_shown (node : Node) : node.shown.map Prod.fst = node.facets := by
  simp [shown, Function.comp_def]

theorem takes_read {node : Node} {facet : Facet} : facet.Takes (node.read facet) := by
  cases facet <;> trivial

theorem shown_shell_writeAll {n : ArenaNode} {values : List (Facet × FacetValue)}
    (h : ∀ entry ∈ values, entry.1.Takes entry.2) (hf : values.map Prod.fst = n.facets) :
    ((shell n).writeAll values).shown = values := by
  have hnd : (values.map Prod.fst).Nodup := hf ▸ n.node.facets_nodup
  rw [shown, facets_shell_writeAll h hf, ← hf, List.map_map]
  refine (List.map_congr_left fun entry he => ?_).trans (List.map_id values)
  rw [Function.comp_apply, read_writeAll hnd he (h entry he)]
  rfl

theorem eq_of_read {u v : Node} (hblank : u.blank = v.blank) (hfacets : u.facets = v.facets)
    (h : ∀ facet ∈ u.facets, u.read facet = v.read facet) : u = v := by
  have htext : u.text = v.text := by
    apply eq_of_getD
    · rw [← mem_facets_text, ← mem_facets_text, hfacets]
    · intro hu
      simpa [read] using h .text (mem_facets_text.2 hu)
  have hvisible : u.visible = v.visible := by simpa [read] using h .visible mem_facets_visible
  have hvalue : u.value = v.value := by
    apply eq_of_getD
    · rw [← mem_facets_value, ← mem_facets_value, hfacets]
    · intro hu
      simpa [read] using h .value (mem_facets_value.2 hu)
  have hnames : u.props.names = v.props.names := by
    rw [← filterMap_prop_facets, ← filterMap_prop_facets, hfacets]
  have hprops : u.props = v.props := by
    refine Table.eq_of_get? hnames fun name hn => ?_
    obtain ⟨o, ho⟩ := Table.get?_eq_some_of_mem hn
    obtain ⟨p, hp⟩ := Table.get?_eq_some_of_mem (hnames ▸ hn)
    have hread := h (.prop name) (mem_facets_prop.2 hn)
    simp only [read, ho, hp, Option.getD_some, FacetValue.output.injEq] at hread
    rw [ho, hp, hread]
  obtain ⟨href, hkind, hparent, hchildren, hhandlers, hbinding⟩ := fields_of_blank_eq hblank
  cases u
  cases v
  congr

theorem Fits.text_isSome {n : ArenaNode} {node : Node} (h : node.Fits n) :
    node.text.isSome = n.node.text.isSome := by
  rw [Bool.eq_iff_iff, ← mem_facets_text, ← ViewNode.mem_facets_text, h.facets, ArenaNode.facets]

theorem Fits.accepts_shown {n : ArenaNode} {node : Node} (h : node.Fits n) :
    n.Accepts node.shown := by
  constructor
  · simp [shown, takes_read]
  · rw [map_fst_shown, h.facets]

theorem Fits.rebuild {n : ArenaNode} {node : Node} (h : node.Fits n) :
    (shell n).writeAll node.shown = node := by
  have hfst : node.shown.map Prod.fst = n.facets := node.map_fst_shown.trans h.facets
  have hfacets := facets_shell_writeAll h.accepts_shown.takes hfst
  apply eq_of_read
  · exact (blank_writeAll _ _).trans h.blank.symm
  · exact hfacets.trans h.facets.symm
  · intro facet hf
    rw [hfacets, ← hfst] at hf
    obtain ⟨entry, he, rfl⟩ := List.mem_map.1 hf
    obtain ⟨facet, -, rfl⟩ := List.mem_map.1 he
    exact read_writeAll h.accepts_shown.nodup he takes_read _

end Node

end ReactiveView
