import ReactiveView.Proofs.Noninterference
import ReactiveView.Proofs.Presentation

namespace ReactiveView

/-- Changes that patches make to the element of a reference. -/
def changesFor (ref : Reference) (patches : List Patch) : List Change :=
  patches.filterMap fun patch => if patch.ref = ref then some patch.change else none

theorem changesFor_append (ref : Reference) (front back : List Patch) :
    changesFor ref (front ++ back) = changesFor ref front ++ changesFor ref back :=
  List.filterMap_append

theorem changesFor_ofFacet (own ref : Nat) (values : List (Facet × FacetValue)) :
    changesFor (.position ref) (values.map fun entry => Patch.ofFacet own entry.1 entry.2) =
      if own = ref then values.map changeOf else [] := by
  simp only [changesFor, List.filterMap_map, Function.comp_def, Patch.ofFacet_eq,
    Reference.position.injEq]
  split
  · exact congrFun List.filterMap_eq_map values
  · simp

theorem exists_getElem?_of_forall₂ {α β : Type} {R : α → β → Prop} {as : List α} {bs : List β}
    (h : List.Forall₂ R as bs) {i : Nat} {b : β} (hb : bs[i]? = some b) :
    ∃ a, as[i]? = some a ∧ R a b := by
  induction h generalizing i with
  | nil => simp at hb
  | cons hab hrest ih =>
    cases i with
    | zero =>
      obtain rfl : _ = b := by simpa using hb
      exact ⟨_, rfl, hab⟩
    | succ i => simpa using ih (i := i) (by simpa using hb)

def Node.patches (node : Node) : List Patch :=
  node.shown.map fun entry => Patch.ofFacet node.ref entry.1 entry.2

namespace Node

theorem changesFor_flatMap_of_notMem {nodes : List Node} {ref : Nat} (h : ref ∉ nodes.map Node.ref) :
    changesFor (.position ref) (nodes.flatMap patches) = [] := by
  induction nodes with
  | nil => rfl
  | cons head rest ih =>
    simp only [List.map_cons, List.mem_cons, not_or] at h
    rw [List.flatMap_cons, changesFor_append, patches, changesFor_ofFacet, if_neg (Ne.symm h.1),
      ih h.2]
    rfl

theorem changesFor_flatMap {nodes : List Node} (hnd : (nodes.map Node.ref).Nodup) {node : Node}
    (hm : node ∈ nodes) :
    changesFor (.position node.ref) (nodes.flatMap patches) = node.shown.map changeOf := by
  induction nodes with
  | nil => cases hm
  | cons head rest ih =>
    rw [List.map_cons, List.nodup_cons] at hnd
    rw [List.flatMap_cons, changesFor_append, patches, changesFor_ofFacet]
    rcases List.mem_cons.1 hm with rfl | hrest
    · rw [if_pos rfl, changesFor_flatMap_of_notMem hnd.1, List.append_nil]
    · have hne : head.ref ≠ node.ref := fun he => hnd.1 (he ▸ List.mem_map_of_mem hrest)
      rw [if_neg hne, ih hnd.2 hrest]
      rfl

end Node

namespace Tree

def patches (tree : Tree) : List Patch := tree.nodes.flatMap Node.patches

def Fits (app : Application) (tree : Tree) : Prop :=
  List.Forall₂ (fun n (node : Node) => node.Fits n) app.nodes tree.nodes

end Tree

namespace View

variable {s : State} {wanted : ArenaNode → List Facet} {ns : List ArenaNode} {nodes : List Node}
  {account : Account} {result : List Node × List Patch}

theorem patches_of_buildNodes (h : (buildNodes s ns account).outcome = .ok result) :
    result.2 = result.1.flatMap Node.patches := by
  induction ns generalizing account result with
  | nil =>
    cases h
    rfl
  | cons n rest ih =>
    obtain ⟨values, next, later, hv, hl, rfl⟩ := buildNodes_cons_ok h
    obtain ⟨hfst, hall⟩ := ArenaNode.resolveAll_ok hv
    have hshown : ((Node.shell n).writeAll values).shown = values :=
      Node.shown_shell_writeAll (fun e he => ArenaNode.takes_of_resolve (hall e he)) hfst
    have href : ((Node.shell n).writeAll values).ref = n.ref :=
      (Node.fields_of_blank_eq (Node.blank_writeAll (Node.shell n) values)).1
    rw [List.flatMap_cons, Node.patches, hshown, href, ih hl]
    rfl

theorem changesFor_updateNodes_of_notMem
    (h : (updateNodes s wanted ns nodes account).outcome = .ok result) {ref : Nat}
    (hns : ref ∉ ns.map ArenaNode.ref) :
    changesFor (.position ref) result.2 = [] := by
  induction ns generalizing nodes account result with
  | nil =>
    simp only [updateNodes] at h
    cases h
    rfl
  | cons n rest ih =>
    cases nodes with
    | nil =>
      simp only [updateNodes] at h
      cases h
      rfl
    | cons before others =>
      obtain ⟨values, next, later, hv, hl, -, rfl⟩ := updateNodes_cons_ok h
      simp only [List.map_cons, List.mem_cons, not_or] at hns
      rw [changesFor_append, View.patchesOf, changesFor_ofFacet, if_neg (Ne.symm hns.1), ih hl hns.2]
      rfl

/-- What an update writes to a node is what its patches for the node describe. -/
theorem exists_values_of_updateNodes
    (h : (updateNodes s wanted ns nodes account).outcome = .ok result)
    (hnd : (ns.map ArenaNode.ref).Nodup) {i : Nat} {n : ArenaNode} {before : Node}
    (hn : ns[i]? = some n) (hb : nodes[i]? = some before) :
    ∃ values, (n.resolveAll s (wanted n)).2 = .ok values ∧
      result.1[i]? = some (before.writeAll (changes before values)) ∧
      changesFor (.position n.ref) result.2 = (changes before values).map changeOf := by
  induction ns generalizing nodes account result i with
  | nil => simp at hn
  | cons first rest ih =>
    cases nodes with
    | nil => simp at hb
    | cons head others =>
      obtain ⟨values, next, later, hv, hl, -, rfl⟩ := updateNodes_cons_ok h
      rw [List.map_cons, List.nodup_cons] at hnd
      cases i with
      | zero =>
        obtain rfl : first = n := by simpa using hn
        obtain rfl : head = before := by simpa using hb
        refine ⟨values, hv, rfl, ?_⟩
        rw [changesFor_append, View.patchesOf, changesFor_ofFacet, if_pos rfl,
          changesFor_updateNodes_of_notMem hl hnd.1, List.append_nil]
      | succ i =>
        obtain ⟨own, hown, hresult, hchanges⟩ := ih hl hnd.2 hn hb
        refine ⟨own, hown, hresult, ?_⟩
        have hne : first.ref ≠ n.ref := fun he =>
          hnd.1 (he ▸ List.mem_map_of_mem (List.mem_of_getElem? hn))
        rw [changesFor_append, View.patchesOf, changesFor_ofFacet, if_neg hne, hchanges]
        rfl

end View

def Application.Numbered (app : Application) : Prop :=
  app.nodes.map ArenaNode.ref = List.range app.nodes.length

theorem Program.numbered_of_load {p : Program} {app : Application} (h : p.load = .ok app) :
    app.Numbered := by
  obtain ⟨-, rfl⟩ := load_eq_ok_iff.1 h
  exact ViewNode.refs_arena p.view

namespace Application.Numbered

variable {app : Application} (h : app.Numbered)

include h

theorem nodup : (app.nodes.map ArenaNode.ref).Nodup := by
  rw [h]
  exact List.nodup_range

theorem ref_eq {i : Nat} {n : ArenaNode} (hn : app.nodes[i]? = some n) : n.ref = i := by
  have hget : (app.nodes.map ArenaNode.ref)[i]? = some n.ref := by rw [List.getElem?_map, hn]; rfl
  rw [h, List.getElem?_range (List.getElem?_eq_some_iff.1 hn).1] at hget
  exact (Option.some.inj hget).symm

theorem getElem?_ref {n : ArenaNode} (hn : n ∈ app.nodes) : app.nodes[n.ref]? = some n := by
  obtain ⟨i, hi⟩ := List.mem_iff_getElem?.1 hn
  rw [h.ref_eq hi]
  exact hi

end Application.Numbered

namespace Tree

variable {app : Application} {tree : Tree}

theorem Fits.map_ref (h : tree.Fits app) : tree.nodes.map Node.ref = app.nodes.map ArenaNode.ref := by
  have hrefs : List.Forall₂ (fun n (node : Node) => n.ref = node.ref) app.nodes tree.nodes :=
    h.imp fun n node hn => hn.ref_eq.symm
  exact (List.forall₂_eq_eq_eq ▸ List.forall₂_map_left_iff.2 (List.forall₂_map_right_iff.2 hrefs)).symm

theorem Fits.exists_declared (h : tree.Fits app) {i : Nat} {node : Node}
    (hnode : tree.nodes[i]? = some node) : ∃ n, app.nodes[i]? = some n ∧ node.Fits n :=
  exists_getElem?_of_forall₂ h hnode

theorem Fits.fits_of_getElem? (h : tree.Fits app) {i : Nat} {n : ArenaNode} {node : Node}
    (hn : app.nodes[i]? = some n) (hnode : tree.nodes[i]? = some node) : node.Fits n := by
  obtain ⟨m, hm, hfits⟩ := h.exists_declared hnode
  rw [hn, Option.some.injEq] at hm
  exact hm ▸ hfits

theorem Fits.ref_eq (h : tree.Fits app) (hnum : app.Numbered) {i : Nat} {node : Node}
    (hnode : tree.nodes[i]? = some node) : node.ref = i := by
  obtain ⟨n, hn, hfits⟩ := h.exists_declared hnode
  exact hfits.ref_eq.trans (hnum.ref_eq hn)

theorem Fits.changesFor_patches (h : tree.Fits app) (hnum : app.Numbered) {i : Nat} {node : Node}
    (hnode : tree.nodes[i]? = some node) :
    changesFor (.position i) tree.patches = node.shown.map changeOf := by
  have hnd : (tree.nodes.map Node.ref).Nodup := h.map_ref ▸ hnum.nodup
  rw [← h.ref_eq hnum hnode]
  exact Node.changesFor_flatMap hnd (List.mem_of_getElem? hnode)

end Tree

namespace View

variable {app : Application} {s : State} {account : Account} {shown : Rendering}

theorem materialize_fits (h : (materialize app s account).outcome = .ok shown) :
    shown.tree.Fits app := by
  obtain ⟨result, hr, rfl⟩ := outcome_rendering h
  exact (buildNodes_mirrors hr).imp fun n node hm => hm.fits

theorem patches_of_materialize (h : (materialize app s account).outcome = .ok shown) :
    shown.patches = shown.tree.patches := by
  obtain ⟨result, hr, rfl⟩ := outcome_rendering h
  exact patches_of_buildNodes hr

section Updates

variable {tree : Tree} {dirty : List String}
  (h : (reconcile app s (some tree) dirty account).outcome = .ok shown)

include h

theorem reconcile_fits (htree : tree.Fits app) : shown.tree.Fits app := by
  obtain ⟨result, hr, rfl⟩ := outcome_rendering h
  refine updateNodes_forall₂ hr htree fun n hn before values hb hv => ?_
  exact hb.writeAll (ArenaNode.accepts_changes (ArenaNode.facetsAmong_sublist _ n) hv before)

theorem exists_values_of_reconcile (hnum : app.Numbered) {i : Nat} {n : ArenaNode} {before : Node}
    (hn : app.nodes[i]? = some n) (hb : tree.nodes[i]? = some before) :
    ∃ values, n.Accepts values ∧ shown.tree.nodes[i]? = some (before.writeAll values) ∧
      changesFor (.position i) shown.patches = values.map changeOf := by
  obtain ⟨result, hr, rfl⟩ := outcome_rendering h
  obtain ⟨values, hv, hnode, hchanges⟩ := exists_values_of_updateNodes hr hnum.nodup hn hb
  rw [hnum.ref_eq hn] at hchanges
  exact ⟨changes before values,
    ArenaNode.accepts_changes (ArenaNode.facetsAmong_sublist _ n) hv before, hnode, hchanges⟩

end Updates

end View

def View.Updated (app : Application) (t : State) (dirty : List String) (first later : Rendering) :
    Prop :=
  (materialize app app.initialState none).outcome = .ok first ∧
    (reconcile app t (some first.tree) dirty none).outcome = .ok later

theorem View.exists_updated (app : Application) (t : State) (dirty : List String)
    (check : Rendering → Rendering → Bool)
    (h : (materialize app app.initialState none).outcome.toOption.any (fun first =>
      (reconcile app t (some first.tree) dirty none).outcome.toOption.any (check first)) = true) :
    ∃ first later, View.Updated app t dirty first later ∧ check first later = true := by
  obtain ⟨first, hfirst, hlater⟩ := exists_ok_of_any _ _ h
  obtain ⟨later, hlater, hcheck⟩ := exists_ok_of_any _ _ hlater
  exact ⟨first, later, ⟨hfirst, hlater⟩, hcheck⟩

end ReactiveView
