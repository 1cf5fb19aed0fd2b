import ReactiveView.Proofs.Patching

namespace ReactiveView

def Tree.read (tree : Tree) (r : FacetRef) : FacetValue :=
  (tree.nodes[r.ref]?.map fun node => node.read r.facet).getD .null

theorem Tree.read_eq {tree : Tree} {i : Nat} {node : Node} (h : tree.nodes[i]? = some node)
    (facet : Facet) : tree.read ⟨i, facet⟩ = node.read facet := by
  rw [read, h]
  rfl

theorem pairwise_idxOf {α : Type} [DecidableEq α] {l : List α} (h : l.Nodup) :
    l.Pairwise fun a b => l.idxOf a < l.idxOf b := by
  rw [List.pairwise_iff_getElem]
  intro i j hi hj hij
  rw [h.idxOf_getElem i hi, h.idxOf_getElem j hj]
  exact hij

namespace Application

variable {app : Application}

/-- A facet of a view has a value in a state, possibly the fallback. -/
def Resolves (app : Application) (s : State) (r : FacetRef) (value : FacetValue) : Prop :=
  ∃ n, app.nodes[r.ref]? = some n ∧ r.facet ∈ n.facets ∧ (n.resolve s r.facet).2 = .ok value

def recomputed (app : Application) (s : State) (r : FacetRef) : FacetValue :=
  (app.nodes[r.ref]?.bind fun n => (n.resolve s r.facet).2.toOption).getD .null

theorem recomputed_eq {s : State} {i : Nat} {n : ArenaNode} (hn : app.nodes[i]? = some n)
    {facet : Facet} {value : FacetValue} (h : (n.resolve s facet).2 = .ok value) :
    app.recomputed s ⟨i, facet⟩ = value := by
  rw [recomputed, hn, Option.bind_some, h]
  rfl

def Precedes (app : Application) (a b : FacetRef) : Prop :=
  a.ref < b.ref ∨
    a.ref = b.ref ∧ ∃ n, app.nodes[a.ref]? = some n ∧
      n.facets.idxOf a.facet < n.facets.idxOf b.facet

theorem dependents_eq (hindex : app.index = Index.ofNodes app.nodes) (names : List String) :
    app.index.dependents names = app.nodes.flatMap fun n =>
      (Index.facetsAmong (app.index.readsOf names) n).map (FacetRef.mk n.ref) := by
  have hnodes : app.index.nodes = app.nodes := by rw [hindex]; rfl
  rw [Index.dependents, hnodes]

theorem mem_dependents_iff (hnum : app.Numbered) (hindex : app.index = Index.ofNodes app.nodes)
    {r : FacetRef} {names : List String} :
    r ∈ app.index.dependents names ↔ ∃ n, app.nodes[r.ref]? = some n ∧
      r.facet ∈ Index.facetsAmong (app.index.readsOf names) n := by
  rw [dependents_eq hindex]
  constructor
  · intro h
    obtain ⟨n, hn, h⟩ := List.mem_flatMap.1 h
    obtain ⟨facet, hfacet, rfl⟩ := List.mem_map.1 h
    exact ⟨n, hnum.getElem?_ref hn, hfacet⟩
  · rintro ⟨n, hn, hfacet⟩
    refine List.mem_flatMap.2 ⟨n, List.mem_of_getElem? hn, List.mem_map.2 ⟨r.facet, hfacet, ?_⟩⟩
    rw [hnum.ref_eq hn]

theorem not_precedes_self (app : Application) (r : FacetRef) : ¬app.Precedes r r := by
  rintro (h | ⟨-, n, -, h⟩)
  · exact Nat.lt_irrefl _ h
  · exact Nat.lt_irrefl _ h

theorem pairwise_dependents (hnum : app.Numbered) (hindex : app.index = Index.ofNodes app.nodes)
    (names : List String) : (app.index.dependents names).Pairwise app.Precedes := by
  rw [dependents_eq hindex, List.pairwise_flatMap]
  constructor
  · intro n hn
    have hfacets := pairwise_idxOf n.node.facets_nodup
    rw [List.pairwise_map]
    exact (hfacets.sublist (ArenaNode.facetsAmong_sublist _ n)).imp fun h =>
      Or.inr ⟨rfl, n, hnum.getElem?_ref hn, h⟩
  · have hrefs : app.nodes.Pairwise fun m n => m.ref < n.ref := by
      rw [← List.pairwise_map (f := ArenaNode.ref) (R := fun i j => i < j), hnum]
      exact List.pairwise_lt_range
    refine hrefs.imp fun {m n} hlt a ha b hb => Or.inl ?_
    obtain ⟨_, -, rfl⟩ := List.mem_map.1 ha
    obtain ⟨_, -, rfl⟩ := List.mem_map.1 hb
    exact hlt

end Application

namespace ArenaNode

variable {s : State} {n : ArenaNode} {facets : List Facet} {values : List (Facet × FacetValue)}

theorem target_resolve (s : State) (n : ArenaNode) (facet : Facet) :
    (n.resolve s facet).1.target = ⟨n.ref, facet⟩ := by
  rw [resolve]
  split <;> rfl

theorem targets_resolveAll (h : (n.resolveAll s facets).2 = .ok values) :
    (n.resolveAll s facets).1.map Visit.target = facets.map (FacetRef.mk n.ref) := by
  induction facets generalizing values with
  | nil => rfl
  | cons facet rest ih =>
    have htarget := target_resolve s n facet
    rw [resolveAll] at h ⊢
    split at h
    · cases h
    · rename_i visit value hvisit
      rw [hvisit] at htarget
      generalize n.resolveAll s rest = pass at h ih ⊢
      obtain ⟨visits, outcome⟩ := pass
      cases outcome with
      | error failure => cases h
      | ok later => exact congrArg₂ List.cons htarget (ih rfl)

theorem values_eq_map (h : (n.resolveAll s facets).2 = .ok values) {new : Facet → FacetValue}
    (hnew : ∀ facet value, (n.resolve s facet).2 = .ok value → new facet = value) :
    values = facets.map fun facet => (facet, new facet) := by
  obtain ⟨hfst, hall⟩ := resolveAll_ok h
  rw [← hfst, List.map_map]
  refine (List.map_id values).symm.trans (List.map_congr_left fun entry he => ?_)
  rw [Function.comp_apply, hnew entry.1 entry.2 (hall entry he)]
  rfl

end ArenaNode

namespace View

variable {s : State} {wanted : ArenaNode → List Facet} {ns : List ArenaNode} {nodes : List Node}
  {account : Account} {result : List Node × List Patch}

theorem changes_map (before : Node) (facets : List Facet) (new : Facet → FacetValue) :
    changes before (facets.map fun facet => (facet, new facet)) =
      (facets.filter fun facet => !(before.read facet).same (new facet)).map
        fun facet => (facet, new facet) := List.filter_map

theorem targets_updateNodes
    (h : (updateNodes s wanted ns nodes account).outcome = .ok result)
    (hlength : ns.length = nodes.length) :
    (updateNodes s wanted ns nodes account).visits.map Visit.target =
      ns.flatMap fun n => (wanted n).map (FacetRef.mk n.ref) := by
  induction ns generalizing nodes account result with
  | nil => simp [updateNodes]
  | cons n rest ih =>
    cases nodes with
    | nil => cases hlength
    | cons before others =>
      obtain ⟨values, next, later, hv, hl, hvisits, -⟩ := updateNodes_cons_ok h
      rw [hvisits, List.map_append, List.flatMap_cons, ArenaNode.targets_resolveAll hv,
        ih hl (Nat.succ.inj hlength)]

theorem patches_updateNodes
    (h : (updateNodes s wanted ns nodes account).outcome = .ok result)
    {old new : FacetRef → FacetValue}
    (hold : List.Forall₂ (fun n (node : Node) => ∀ facet, old ⟨n.ref, facet⟩ = node.read facet)
      ns nodes)
    (hnew : ∀ n ∈ ns, ∀ facet value, (n.resolve s facet).2 = .ok value →
      new ⟨n.ref, facet⟩ = value) :
    result.2 = ((ns.flatMap fun n => (wanted n).map (FacetRef.mk n.ref)).filter
      fun r => !(old r).same (new r)).map fun r => Patch.ofFacet r.ref r.facet (new r) := by
  induction hold generalizing account result with
  | nil =>
    simp only [updateNodes] at h
    cases h
    rfl
  | cons hread hrest ih =>
    rename_i n before rest others
    obtain ⟨values, next, later, hv, hl, -, rfl⟩ := updateNodes_cons_ok h
    have hvalues := ArenaNode.values_eq_map hv (hnew n List.mem_cons_self)
    have hlater := ih hl fun m hm => hnew m (List.mem_cons_of_mem _ hm)
    -- Patches of the first node come before those of the others.
    rw [List.flatMap_cons, List.filter_append, List.map_append, ← hlater, hvalues, changes_map,
      patchesOf, List.map_map, List.filter_map, List.map_map]
    simp only [Function.comp_def, hread]

theorem read_update {n : ArenaNode} {before : Node} {facets : List Facet}
    (hsub : facets.Sublist n.facets) {values : List (Facet × FacetValue)}
    (hv : (n.resolveAll s facets).2 = .ok values) {new : Facet → FacetValue}
    (hnew : ∀ facet value, (n.resolve s facet).2 = .ok value → new facet = value) (facet : Facet) :
    (before.writeAll (changes before values)).read facet =
      if facet ∈ facets.filter fun facet => !(before.read facet).same (new facet) then new facet
      else before.read facet := by
  have haccepts := ArenaNode.accepts_changes hsub hv before
  have hvalues := ArenaNode.values_eq_map hv hnew
  rw [hvalues, changes_map] at haccepts ⊢
  split
  · rename_i hmem
    have hentry := List.mem_map_of_mem (f := fun facet => (facet, new facet)) hmem
    exact Node.read_writeAll haccepts.nodup hentry (haccepts.takes _ hentry) before
  · rename_i hmem
    apply Node.read_writeAll_of_notMem
    simpa [Function.comp_def] using hmem

inductive Produced (app : Application) : Tree → Prop where
  | built {s : State} {account : Account} {shown : Rendering}
      (h : (materialize app s account).outcome = .ok shown) : Produced app shown.tree
  | updated {tree : Tree} {s : State} {dirty : List String} {account : Account}
      {shown : Rendering} (htree : Produced app tree)
      (h : (reconcile app s (some tree) dirty account).outcome = .ok shown) :
      Produced app shown.tree

theorem Produced.fits {app : Application} {tree : Tree} (h : Produced app tree) :
    tree.Fits app := by
  induction h with
  | built h => exact materialize_fits h
  | updated _ h ih => exact reconcile_fits h ih

end View

/-- What an update makes of a node: the changed facets show their new values, and everything else is as
it was. -/
structure Node.Becomes (before after : Node) (changed : Facet → Prop) (new : Facet → FacetValue) :
    Prop where
  ref : after.ref = before.ref
  kind : after.kind = before.kind
  parent : after.parent = before.parent
  children : after.children = before.children
  handlers : after.handlers = before.handlers
  binding : after.binding = before.binding
  facets : after.facets = before.facets
  written : ∀ facet, changed facet → after.read facet = new facet
  kept : ∀ facet, ¬changed facet → after.read facet = before.read facet
  same : (∀ facet, ¬changed facet) → after = before

theorem Node.becomes_of_read {before after : Node} {changed : Facet → Prop}
    [DecidablePred changed] {new : Facet → FacetValue} (hblank : after.blank = before.blank)
    (hfacets : after.facets = before.facets)
    (hread : ∀ facet, after.read facet = if changed facet then new facet else before.read facet) :
    before.Becomes after changed new := by
  obtain ⟨href, hkind, hparent, hchildren, hhandlers, hbinding⟩ := fields_of_blank_eq hblank
  have hkept (facet : Facet) (h : ¬changed facet) : after.read facet = before.read facet := by
    rw [hread, if_neg h]
  refine ⟨href, hkind, hparent, hchildren, hhandlers, hbinding, hfacets, fun facet h => ?_, hkept,
    fun h => eq_of_read hblank hfacets fun facet _ => hkept facet (h facet)⟩
  rw [hread, if_pos h]

namespace View

section Updates

variable {app : Application} (hnum : app.Numbered) (hindex : app.index = Index.ofNodes app.nodes)
  {tree : Tree} (htree : tree.Fits app) {s : State} {dirty : List String} {account : Account}
  {shown : Rendering} (h : (reconcile app s (some tree) dirty account).outcome = .ok shown)

include hindex htree h

theorem targets_reconcile :
    (reconcile app s (some tree) dirty account).visits.map Visit.target =
      app.index.dependents dirty := by
  obtain ⟨result, hr, -⟩ := outcome_rendering h
  rw [Application.dependents_eq hindex]
  exact targets_updateNodes hr htree.length_eq

include hnum

theorem resolves_of_reconcile {r : FacetRef} (hr : r ∈ app.index.dependents dirty) :
    r.ref < tree.nodes.length ∧ app.Resolves s r (app.recomputed s r) := by
  obtain ⟨n, hn, hwanted⟩ := (Application.mem_dependents_iff hnum hindex).1 hr
  have hlt : r.ref < tree.nodes.length := htree.length_eq ▸ (List.getElem?_eq_some_iff.1 hn).1
  obtain ⟨result, hu, -⟩ := outcome_rendering h
  obtain ⟨values, hv, -⟩ :=
    exists_values_of_updateNodes hu hnum.nodup hn (List.getElem?_eq_getElem hlt)
  obtain ⟨hfst, hall⟩ := ArenaNode.resolveAll_ok hv
  obtain ⟨entry, he, hentry⟩ := List.mem_map.1 (hfst ▸ hwanted)
  have hvalue := hentry ▸ hall entry he
  refine ⟨hlt, n, hn, (ArenaNode.facetsAmong_sublist _ n).subset hwanted, ?_⟩
  rwa [Application.recomputed_eq hn hvalue]

/-- An update patches the facets that the index names and whose value has changed, in this order. -/
theorem patches_reconcile :
    shown.patches = ((app.index.dependents dirty).filter fun r =>
      !(tree.read r).same (app.recomputed s r)).map fun r =>
        Patch.ofFacet r.ref r.facet (app.recomputed s r) := by
  obtain ⟨result, hu, rfl⟩ := outcome_rendering h
  rw [Application.dependents_eq hindex]
  refine patches_updateNodes hu ?_ fun n hn facet value hvalue => ?_
  · refine List.forall₂_iff_get.2 ⟨htree.length_eq, fun i hi hi' facet => ?_⟩
    have hn : app.nodes[i]? = some app.nodes[i] := List.getElem?_eq_getElem hi
    rw [List.get_eq_getElem, hnum.ref_eq hn]
    exact Tree.read_eq (List.getElem?_eq_getElem hi') facet
  · exact Application.recomputed_eq (hnum.getElem?_ref hn) hvalue

theorem becomes_of_reconcile {i : Nat} {before : Node} (hbefore : tree.nodes[i]? = some before) :
    ∃ after, shown.tree.nodes[i]? = some after ∧
      before.Becomes after
        (fun facet => ⟨i, facet⟩ ∈ (app.index.dependents dirty).filter fun r =>
          !(tree.read r).same (app.recomputed s r))
        fun facet => app.recomputed s ⟨i, facet⟩ := by
  obtain ⟨n, hn, hfits⟩ := htree.exists_declared hbefore
  obtain ⟨result, hu, rfl⟩ := outcome_rendering h
  obtain ⟨values, hv, hafter, -⟩ := exists_values_of_updateNodes hu hnum.nodup hn hbefore
  have hsub := ArenaNode.facetsAmong_sublist (app.index.readsOf dirty) n
  have hfits' := hfits.writeAll (ArenaNode.accepts_changes hsub hv before)
  refine ⟨_, hafter, Node.becomes_of_read (Node.blank_writeAll _ _)
    (hfits'.facets.trans hfits.facets.symm) fun facet => ?_⟩
  refine (read_update hsub hv (fun facet value hvalue => Application.recomputed_eq hn hvalue)
    facet).trans (if_congr ?_ rfl rfl)
  rw [List.mem_filter, List.mem_filter, Application.mem_dependents_iff hnum hindex,
    Tree.read_eq hbefore]
  simp [hn]

end Updates

end View

/-- An update of a view of a loaded document, which was built and perhaps updated before, touches what the
index names and nothing else. It visits the named facets in their order, each once, and all of them have
a value. It patches those whose value is not taken for the one shown before, in the same order. Each
node becomes one that shows the new values of its patched facets and is otherwise as it was. -/
theorem Program.reconcile_touches {p : Program} {app : Application} (hload : p.load = .ok app)
    {tree : Tree} (htree : View.Produced app tree) {s : State} {dirty : List String}
    {account : Account} {shown : Rendering}
    (h : (View.reconcile app s (some tree) dirty account).outcome = .ok shown) :
    let named := app.index.dependents dirty
    let changed := named.filter fun r => !(tree.read r).same (app.recomputed s r)
    named.Pairwise app.Precedes ∧ named.Nodup ∧
      (View.reconcile app s (some tree) dirty account).visits.map Visit.target = named ∧
      (∀ r ∈ named, r.ref < tree.nodes.length ∧ app.Resolves s r (app.recomputed s r)) ∧
      changed.Pairwise app.Precedes ∧
      shown.patches = changed.map (fun r => Patch.ofFacet r.ref r.facet (app.recomputed s r)) ∧
      shown.tree.nodes.length = tree.nodes.length ∧
      ∀ i (before : Node), tree.nodes[i]? = some before →
        ∃ after, shown.tree.nodes[i]? = some after ∧
          before.Becomes after (fun facet => ⟨i, facet⟩ ∈ changed)
            fun facet => app.recomputed s ⟨i, facet⟩ := by
  intro named changed
  have hnum := numbered_of_load hload
  have hindex := (sound_of_load hload).index
  have hfits := htree.fits
  have hordered : named.Pairwise app.Precedes := Application.pairwise_dependents hnum hindex dirty
  have hnodup : named.Nodup := by
    refine hordered.imp fun {a b} hab heq => ?_
    subst heq
    exact app.not_precedes_self a hab
  refine ⟨hordered, hnodup, ?targets, ?values, ?order, ?patches, ?length, ?nodes⟩
  case targets => exact View.targets_reconcile hindex hfits h
  case values => exact fun r hr => View.resolves_of_reconcile hnum hindex hfits h hr
  case order => exact hordered.filter _
  case patches => exact View.patches_reconcile hnum hindex hfits h
  case length =>
    exact (View.reconcile_fits h hfits).length_eq.symm.trans hfits.length_eq
  case nodes => exact fun i before hi => View.becomes_of_reconcile hnum hindex hfits h hi

def motto : Program where
  app := "Motto"
  version := .ofInt 1
  state := [("motto", .str "calm")]
  view := some ⟨"input", .ofList [("bind", .ident "motto"),
    ("value", .expr (.binary (.arithmetic .add) (.ident "motto") (.literal (.str "!")))),
    ("visible", .expr (.binary .ne (.ident "motto") (.literal (.str ""))))], [], none⟩
  actions := [⟨"dare", [⟨"motto", .literal (.str "bold")⟩]⟩]

/-- The field reads the motto in three facets. It stays visible, so there are two patches: the bound value
and the property that is named in the same way. -/
theorem motto_touched :
    let bold := motto.application.initialState.put "motto" (.str "bold")
    let shown : List FacetRef := [⟨0, .value⟩, ⟨0, .prop "value"⟩]
    motto.load = .ok motto.application ∧
      motto.application.index.dependents ["motto"] = ⟨0, .visible⟩ :: shown ∧
      ∃ first later, View.Updated motto.application bold ["motto"] first later ∧
        later.patches = [⟨.position 0, .prop "value" (.value (.str "bold"))⟩,
          ⟨.position 0, .prop "value" (.value (.str "bold!"))⟩] ∧
        ∀ i (before : Node), first.tree.nodes[i]? = some before →
          ∃ after, later.tree.nodes[i]? = some after ∧
            before.Becomes after (fun facet => ⟨i, facet⟩ ∈ shown)
              fun facet => motto.application.recomputed bold ⟨i, facet⟩ := by
  intro bold shown
  have hload : motto.load = .ok motto.application :=
    Program.load_eq_ok_iff.2 ⟨by decide +kernel, rfl⟩
  obtain ⟨first, later, ⟨hfirst, hlater⟩, hcheck⟩ := View.exists_updated motto.application bold
    ["motto"]
    (fun first _ : Rendering => (motto.application.index.dependents ["motto"]).filter (fun r =>
      !(first.tree.read r).same (motto.application.recomputed bold r)) = shown)
    (by decide +kernel)
  obtain ⟨-, -, -, -, -, hpatches, -, hnodes⟩ :=
    Program.reconcile_touches hload (.built hfirst) hlater
  rw [of_decide_eq_true hcheck] at hpatches hnodes
  refine ⟨hload, by decide +kernel, first, later, ⟨hfirst, hlater⟩, ?_, hnodes⟩
  rw [hpatches]
  decide +kernel

end ReactiveView
