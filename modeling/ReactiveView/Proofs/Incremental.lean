import Mathlib.Data.Option.Defs
import ReactiveView.Proofs.Closeness
import ReactiveView.Proofs.Upkeep

namespace ReactiveView

/-- Nodes that differ at most in the binary64 numbers that they show, by less than the closeness of
change detection. -/
structure Node.Agrees (shown fresh : Node) : Prop where
  ref : shown.ref = fresh.ref
  kind : shown.kind = fresh.kind
  parent : shown.parent = fresh.parent
  children : shown.children = fresh.children
  handlers : shown.handlers = fresh.handlers
  binding : shown.binding = fresh.binding
  text : shown.text = fresh.text
  visible : shown.visible = fresh.visible
  value : Option.Rel Value.Near shown.value fresh.value
  names : shown.props.names = fresh.props.names
  props : ∀ name, Option.Rel Output.Near (shown.props.get? name) (fresh.props.get? name)

namespace FacetValue.StandsFor

theorem text_eq {s t : String} (h : (FacetValue.text s).StandsFor (.text t)) : s = t := by
  rcases h with h | h
  · exact FacetValue.text.inj h
  · simpa [FacetValue.same] using h

theorem visible_eq {b c : Bool} (h : (FacetValue.visible b).StandsFor (.visible c)) : b = c := by
  rcases h with h | h
  · exact FacetValue.visible.inj h
  · simpa [FacetValue.same] using h

theorem near {o p : Output} (h : (FacetValue.output o).StandsFor (.output p)) : o.Near p := by
  rcases h with h | h
  · rw [FacetValue.output.inj h]
    exact Output.near_refl p
  · exact Output.near_of_same h

end FacetValue.StandsFor

namespace Node

theorem fields_of_blank_eq {u v : Node} (h : u.blank = v.blank) :
    u.ref = v.ref ∧ u.kind = v.kind ∧ u.parent = v.parent ∧ u.children = v.children ∧
      u.handlers = v.handlers ∧ u.binding = v.binding := by simpa [blank] using h

theorem agrees_of_standsFor {shown fresh : Node} (hblank : shown.blank = fresh.blank)
    (hfacets : shown.facets = fresh.facets)
    (h : ∀ facet ∈ fresh.facets, (shown.read facet).StandsFor (fresh.read facet)) :
    shown.Agrees fresh := by
  obtain ⟨href, hkind, hparent, hchildren, hhandlers, hbinding⟩ := fields_of_blank_eq hblank
  -- Facets are the same, so what one node shows the other shows as well; the values stand for each other.
  refine ⟨href, hkind, hparent, hchildren, hhandlers, hbinding, ?text,
    (h .visible mem_facets_visible).visible_eq, ?value, ?names, fun name => ?props⟩
  case text =>
    have hsome : shown.text.isSome ↔ fresh.text.isSome := by
      rw [← mem_facets_text, ← mem_facets_text, hfacets]
    cases hf : fresh.text with
    | none => simpa [hf] using hsome
    | some t =>
      obtain ⟨s, hs⟩ := Option.isSome_iff_exists.1 (hsome.2 (by rw [hf]; rfl))
      have hst := h .text (mem_facets_text.2 (by rw [hf]; rfl))
      rw [read, read, hs, hf] at hst
      rw [hs]
      exact congrArg some hst.text_eq
  case value =>
    have hsome : shown.value.isSome ↔ fresh.value.isSome := by
      rw [← mem_facets_value, ← mem_facets_value, hfacets]
    cases hf : fresh.value with
    | none =>
      have hs : shown.value = none := by simpa [hf] using hsome
      rw [hs]
      exact .none
    | some w =>
      obtain ⟨v, hs⟩ := Option.isSome_iff_exists.1 (hsome.2 (by rw [hf]; rfl))
      have hst := h .value (mem_facets_value.2 (by rw [hf]; rfl))
      rw [read, read, hs, hf] at hst
      rw [hs]
      exact .some hst.near
  case names => rw [← filterMap_prop_facets, ← filterMap_prop_facets, hfacets]
  case props =>
    have hmem : name ∈ shown.props.names ↔ name ∈ fresh.props.names := by
      rw [← mem_facets_prop, ← mem_facets_prop, hfacets]
    cases hf : fresh.props.get? name with
    | none =>
      rw [Table.get?_eq_none.2 fun hn => Table.get?_eq_none.1 hf (hmem.1 hn)]
      exact .none
    | some p =>
      have hn : name ∈ fresh.props.names := List.mem_map_of_mem (Table.mem_entries hf)
      obtain ⟨o, ho⟩ := Table.get?_eq_some_of_mem (hmem.2 hn)
      have hst := h (.prop name) (mem_facets_prop.2 hn)
      rw [read, read, ho, hf] at hst
      rw [ho]
      exact .some hst.near

theorem Tracks.agrees {s : State} {n : ArenaNode} {shown fresh : Node}
    (h : shown.Tracks AgreeOn s n) (hm : fresh.Mirrors s n) : shown.Agrees fresh := by
  refine agrees_of_standsFor (h.blank.trans hm.blank.symm) (h.facets.trans hm.facets.symm) ?_
  intro facet hf
  rw [hm.facets] at hf
  obtain ⟨seen, value, hread, hres, hstands⟩ := h.shows facet hf
  have hvalue := hm.shows facet hf
  rw [← ArenaNode.resolve_congr hf hread, hres] at hvalue
  rwa [← Except.ok.inj hvalue]

end Node

def Tree.Agrees (shown fresh : Tree) : Prop := List.Forall₂ Node.Agrees shown.nodes fresh.nodes

theorem forall₂_of_common {α β γ : Type} {P : α → β → Prop} {Q : α → γ → Prop} {R : β → γ → Prop}
    (hR : ∀ a b c, P a b → Q a c → R b c) {as : List α} {bs : List β} {cs : List γ}
    (hp : List.Forall₂ P as bs) (hq : List.Forall₂ Q as cs) : List.Forall₂ R bs cs := by
  induction hp generalizing cs with
  | nil =>
    cases hq
    exact .nil
  | cons hab hrest ih =>
    cases hq with
    | cons hac hq => exact .cons (hR _ _ _ hab hac) (ih hq)

namespace View

/-- A fresh build succeeds for a state that a tree tracks exactly, and the tree agrees with it. -/
theorem exists_materialize_agrees {app : Application} {s : State} {tree : Tree}
    (h : tree.Tracks AgreeOn app s) :
    ∃ fresh, (materialize app s none).outcome = .ok fresh ∧ tree.Agrees fresh.tree := by
  have hres : ∀ n ∈ app.nodes, ∀ facet ∈ n.facets, ∃ value, (n.resolve s facet).2 = .ok value := by
    intro n hn facet hf
    obtain ⟨node, -, hnode⟩ := exists_of_forall₂ h hn
    obtain ⟨seen, value, hread, hseen, -⟩ := hnode.shows facet hf
    exact ⟨value, by rw [← ArenaNode.resolve_congr hf hread, hseen]⟩
  obtain ⟨result, hr⟩ := exists_buildNodes hres
  refine ⟨rendering result, by rw [materialize, hr]; rfl, ?_⟩
  exact forall₂_of_common (fun _ _ _ ht hm => ht.agrees hm) h (buildNodes_mirrors hr)

structure Step where
  state : State
  dirty : List String
  account : Account

def replay (app : Application) : Tree → List Step → Except Failure Tree
  | tree, [] => .ok tree
  | tree, step :: rest =>
    match (reconcile app step.state (some tree) step.dirty step.account).outcome with
    | .error failure => .error failure
    | .ok shown => replay app shown.tree rest

def lastState : State → List Step → State
  | s, [] => s
  | _, step :: rest => lastState step.state rest

def NamesChanges : State → List Step → Prop
  | _, [] => True
  | s, step :: rest =>
    (∀ x, s.get? x ≠ step.state.get? x → x ∈ step.dirty) ∧ NamesChanges step.state rest

theorem replay_tracks {app : Application} (hindex : app.index = Index.ofNodes app.nodes)
    {s : State} {steps : List Step} (hnames : NamesChanges s steps) {tree last : Tree}
    (htree : tree.Tracks AgreeOn app s) (h : replay app tree steps = .ok last) :
    last.Tracks AgreeOn app (lastState s steps) := by
  induction steps generalizing s tree with
  | nil =>
    cases h
    exact htree
  | cons step rest ih =>
    rw [replay] at h
    split at h
    · cases h
    · rename_i shown hshown
      have hkept : ∀ names, (∀ x ∈ names, x ∉ step.dirty) → AgreeOn names s step.state :=
        fun names hn x hx => Classical.not_not.1 fun hne => hn x hx (hnames.1 x hne)
      have hnext := reconcile_tracks AgreeOn.refl AgreeOn.trans hindex htree hkept hshown
      exact ih hnames.2 hnext h

/-- However many steps a view was kept up to date for, it agrees with one built for the last state,
and that build succeeds. -/
theorem replay_agrees_with_build {p : Program} {app : Application} (hload : p.load = .ok app)
    {s : State} {account : Account} {first : Rendering}
    (hfirst : (materialize app s account).outcome = .ok first) {steps : List Step}
    (hnames : NamesChanges s steps) {last : Tree}
    (hlast : replay app first.tree steps = .ok last) :
    ∃ fresh, (materialize app (lastState s steps) none).outcome = .ok fresh ∧
      last.Agrees fresh.tree := by
  have htree := materialize_tracks AgreeOn.refl hfirst
  exact exists_materialize_agrees
    (replay_tracks (Program.sound_of_load hload).index hnames htree hlast)

def raising : List Step :=
  [⟨counter.application.initialState.put "count" (.int 1), ["total", "count"], none⟩]

theorem raising_agrees_with_build :
    ∃ first last fresh,
      (materialize counter.application counter.application.initialState none).outcome = .ok first ∧
      replay counter.application first.tree raising = .ok last ∧
      (materialize counter.application (lastState counter.application.initialState raising)
        none).outcome = .ok fresh ∧ last.Agrees fresh.tree := by
  obtain ⟨first, hfirst, hreplay⟩ := exists_ok_of_any
    (materialize counter.application counter.application.initialState none).outcome
    (fun first => (replay counter.application first.tree raising).toOption.any fun _ => true)
    (by decide +kernel)
  obtain ⟨last, hlast, -⟩ := exists_ok_of_any _ _ hreplay
  have hnames : NamesChanges counter.application.initialState raising := by
    refine ⟨fun x hx => ?_, trivial⟩
    rw [Table.get?_put] at hx
    by_cases hc : x = "count"
    · exact hc ▸ List.mem_cons_of_mem _ List.mem_cons_self
    · rw [if_neg hc] at hx
      exact absurd rfl hx
  obtain ⟨fresh, hfresh, hagrees⟩ :=
    replay_agrees_with_build counter_loads hfirst hnames hlast
  exact ⟨first, last, fresh, hfirst, hlast, hfresh, hagrees⟩

end View

end ReactiveView
