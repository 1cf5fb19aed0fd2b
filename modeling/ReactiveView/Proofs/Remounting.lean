import ReactiveView.Proofs.Fields

namespace ReactiveView

inductive View.Updates (app : Application) : Tree → List Rendering → Prop where
  | nil (tree : Tree) : Updates app tree []
  | cons {tree : Tree} {s : State} {dirty : List String} {account : Account} {shown : Rendering}
      {later : List Rendering}
      (h : (View.reconcile app s (some tree) dirty account).outcome = .ok shown)
      (hlater : Updates app shown.tree later) : Updates app tree (shown :: later)

def Tree.latest (tree : Tree) : List Rendering → Tree
  | [] => tree
  | shown :: later => shown.tree.latest later

def Page.applyAll {dom : Dom} (page : Page dom) (later : List Rendering) : Page dom :=
  later.foldl (fun page shown => page.apply shown.patches) page

namespace ArenaNode

variable {dom : Dom} (reading : dom.Reading) (n : ArenaNode)

/-- What governs the field of a node is written before the value, and by no update. -/
def Early (later : List Rendering) : Prop :=
  n.facets.Pairwise (fun facet other => facet.enters = true → other.governs reading n.tag = false) ∧
    ∀ shown ∈ later, ∀ change ∈ changesFor (.position n.ref) shown.patches, change.governs reading n.tag = false

/-- The element of a node is a field of text throughout. -/
def Textual (shownAll : List Rendering) : Prop :=
  n.tag = "input" ∧ n.node.kind ≠ "checkbox" ∧
    ∀ shown ∈ shownAll, ∀ change ∈ changesFor (.position n.ref) shown.patches, change.KeepsText reading

/-- A node has no value, and one facet at most that governs its field. -/
def Bare : Prop := (∀ facet ∈ n.facets, facet.enters = false) ∧ n.Single (·.governs reading n.tag)

/-- The order in which the facets of a node are written makes no difference to its field. -/
def Settled (first : Rendering) (later : List Rendering) : Prop :=
  n.Single Facet.enters ∧ (n.Early reading later ∨ n.Textual reading (first :: later) ∨ n.Bare reading)

section Deciding

instance : (change : Change) → Decidable (change.KeepsText reading)
  | .prop _ _ => inferInstanceAs (Decidable (_ ∨ _ ∧ _))
  | .text _ | .visible _ => .isTrue trivial

instance (sort : Facet → Bool) : Decidable (n.Single sort) :=
  inferInstanceAs (Decidable (∀ facet ∈ n.facets, ∀ other ∈ n.facets, _))

instance (later : List Rendering) : Decidable (n.Early reading later) := inferInstanceAs (Decidable (_ ∧ _))

instance (shownAll : List Rendering) : Decidable (n.Textual reading shownAll) :=
  inferInstanceAs (Decidable (_ ∧ _ ∧ _))

instance : Decidable (n.Bare reading) := inferInstanceAs (Decidable (_ ∧ _))

instance (first : Rendering) (later : List Rendering) : Decidable (n.Settled reading first later) :=
  inferInstanceAs (Decidable (_ ∧ (_ ∨ _ ∨ _)))

end Deciding

end ArenaNode

namespace Page

variable {dom : Dom} {app : Application} {p : Program} {tree : Tree}

theorem MirrorsNode.contentOf_eq {page : Page dom} {n : ArenaNode} {node : Node} {id : Nat} {el : Element dom.Face}
    (h : page.MirrorsNode n node id el) : page.contentOf el = node.text.getD "" := by
  obtain ⟨own?, below, hchildren, hbelow, -, htext⟩ := h.children
  have hnone : below.filterMap page.dataOf? = [] := by
    rw [List.filterMap_eq_nil_iff]
    intro child hchild
    obtain ⟨i, hi⟩ := List.mem_iff_getElem?.1 hchild
    obtain ⟨_, -, _, _, rfl, -⟩ := exists_getElem?_of_forall₂ hbelow hi
    rfl
  rw [contentOf, hchildren, List.filterMap_append, hnone, List.append_nil, ← htext]
  cases own? with
  | none => rfl
  | some own =>
    rw [Option.toList_some, List.map_singleton, Option.bind_some]
    cases hdata : page.texts[own]? with
    | none => simp [dataOf?, hdata, String.join]
    | some text => simp [dataOf?, hdata, String.join]

theorem exists_element {page : Page dom} {i : Nat} {part : Part dom.Face} (h : page.partOf? i = some part) :
    ∃ el, page.elementFor? (.position i) = some el ∧ el.face = part.face := by
  obtain ⟨id, hid, hmap⟩ := Option.bind_eq_some_iff.1 h
  obtain ⟨el, hel, rfl⟩ := Option.map_eq_some_iff.1 hmap
  exact ⟨el, by rw [elementFor?, idOf?, hid, Option.bind_some, hel], rfl⟩

theorem Stands.applyAll (hload : p.load = .ok app) {later : List Rendering} (hlater : View.Updates app tree later)
    {page : Page dom} {base : Nat} (h : page.Stands app base) (htree : tree.Fits app) {i : Nat} {n : ArenaNode}
    (hn : app.nodes[i]? = some n) {node : Node} (hnode : tree.nodes[i]? = some node) :
    ∃ written, (∀ entry ∈ written, entry.1 ∈ n.facets ∧ entry.1.Takes entry.2 ∧
        ∃ shown ∈ later, changeOf entry ∈ changesFor (.position i) shown.patches) ∧
      (tree.latest later).nodes[i]? = some (node.writeAll written) ∧
      (page.applyAll later).partOf? i = (page.partOf? i).map (dom.changeAll · written) := by
  induction hlater generalizing page node with
  | nil tree => exact ⟨[], List.forall_mem_nil _, hnode, Option.map_id'.symm⟩
  | @cons tree _ _ _ shown later hshown hrest ih =>
    obtain ⟨hstands, hparts⟩ := h.update hload htree hshown
    obtain ⟨values, hv, hnext, hchanges, hpart⟩ := hparts i n node hn hnode
    obtain ⟨written, hwritten, hlast, hparts⟩ := ih hstands (View.reconcile_fits hshown htree) hnext
    refine ⟨values ++ written, fun entry hentry => ?_, ?_, ?_⟩
    · rcases List.mem_append.1 hentry with hentry | hentry
      · refine ⟨hv.facets.subset (List.mem_map_of_mem hentry), hv.takes entry hentry, shown, List.mem_cons_self, ?_⟩
        exact hchanges ▸ List.mem_map_of_mem hentry
      · obtain ⟨hfacet, htake, other, hother, hchange⟩ := hwritten entry hentry
        exact ⟨hfacet, htake, other, List.mem_cons_of_mem _ hother, hchange⟩
    · rw [Tree.latest, hlast, Node.writeAll_append]
    · refine hparts.trans ?_
      rw [hpart, Option.map_map]
      refine congrFun (congrArg Option.map (funext fun part => ?_)) _
      rw [Function.comp_apply, Dom.changeAll, Dom.changeAll, Dom.changeAll, List.map_append, List.foldl_append]

theorem Displays.applyAll (hload : p.load = .ok app) {later : List Rendering} (hlater : View.Updates app tree later)
    {page : Page dom} {base : Nat} (h : page.Displays app base tree) :
    (page.applyAll later).Displays app base (tree.latest later) := by
  induction hlater generalizing page with
  | nil tree => exact h
  | cons hshown hrest ih => exact ih (h.update hload hshown)

theorem Displays.contentOf_eq (hload : p.load = .ok app) {page : Page dom} {base : Nat}
    (h : page.Displays app base tree) {i : Nat} {n : ArenaNode} {node : Node} (hn : app.nodes[i]? = some n)
    (hnode : tree.nodes[i]? = some node) {el : Element dom.Face} (hel : page.elementFor? (.position i) = some el) :
    page.contentOf el = node.text.getD "" := by
  have href := h.fits.ref_eq (Program.numbered_of_load hload) hnode
  obtain ⟨id, own, hid, hown, hmirrors⟩ := h.mirrorsNode hload hn hnode href
  rw [href] at hid
  rw [elementFor?, hid, Option.bind_some, hown] at hel
  rw [← Option.some.inj hel]
  exact hmirrors.contentOf_eq

/-- An element that was kept up to date and one that is new agree: in the tag and the text always, in the hidden flag
and an attribute where one facet at most sets it, in the field where the order of what is written makes no difference
to it. -/
structure Agree (reading : dom.Reading) (n : ArenaNode) (first : Rendering) (later : List Rendering)
    (kept fresh : Page dom) (old new : Element dom.Face) : Prop where
  tag : dom.tag old.face = dom.tag new.face
  text : kept.contentOf old = fresh.contentOf new
  hidden : (reading.reflects = true → n.Single (·.sets reading n.tag "hidden")) →
    dom.hidden old.face = dom.hidden new.face
  attributes : ∀ name, n.Single (·.sets reading n.tag name) →
    (n.tag = "input" → reading.key name = reading.key "value" → n.Textual reading (first :: later)) →
      dom.attribute? old.face name = dom.attribute? new.face name
  field : Dom.isFieldTag n.tag = true → n.Settled reading first later → dom.checked (dom.form old.face) =
    dom.checked (dom.form new.face) ∧ dom.value (dom.form old.face) = dom.value (dom.form new.face)

section Faces

variable {reading : dom.Reading} (hdom : dom.Lawful reading) {n : ArenaNode} {node : Node} (hfits : node.Fits n)
  {first : Rendering} {later : List Rendering} {written : List (Facet × FacetValue)}
  (hlast : (node.writeAll written).Fits n)
  (hwritten : ∀ entry ∈ written, entry.1 ∈ n.facets ∧ entry.1.Takes entry.2 ∧
    ∃ shown ∈ later, changeOf entry ∈ changesFor (.position n.ref) shown.patches)
  (hshown : changesFor (.position n.ref) first.patches = node.shown.map changeOf)

include hwritten hshown in
theorem keepsText_written (h : n.Textual reading (first :: later)) :
    ∀ entry ∈ node.shown ++ written, (changeOf entry).KeepsText reading := by
  intro entry he
  rcases List.mem_append.1 he with he | he
  · exact h.2.2 first List.mem_cons_self _ (hshown ▸ List.mem_map_of_mem he)
  · obtain ⟨-, -, shown, hs, hchange⟩ := hwritten entry he
    exact h.2.2 shown (List.mem_cons_of_mem _ hs) _ hchange

include hdom hfits hlast hwritten hshown

theorem fieldOf_agrees (hfield : Dom.isFieldTag n.tag = true) (h : n.Settled reading first later) :
    dom.fieldOf (dom.repaintAll (dom.planted node) (node.shown ++ written)) =
      dom.fieldOf (dom.repaintAll (dom.planted (node.writeAll written)) (node.writeAll written).shown) := by
  have hin : ∀ entry ∈ written, entry.1 ∈ n.facets ∧ entry.1.Takes entry.2 :=
    fun entry he => (hwritten entry he).imp_right And.left
  obtain ⟨hsingle, ⟨hordered, hquiet⟩ | htextual | ⟨hnone, hsole⟩⟩ := h
  · refine Dom.field_agrees hdom hfield hsingle hordered hfits hlast hin fun entry he => ?_
    obtain ⟨-, htake, shown, hs, hchange⟩ := hwritten entry he
    rw [← Dom.governs_changeOf htake]
    exact hquiet shown hs _ hchange
  · exact Dom.text_agrees hdom hfits hlast hin hsingle htextual.1 htextual.2.1
      (keepsText_written hwritten hshown htextual)
  · exact Dom.bare_agrees hdom hfits hlast hin hfield hnone hsole

end Faces

end Page

def password : Program where
  app := "Password"
  version := .ofInt 1
  state := [("secret", .str "abc"), ("look", .str "password")]
  view := some ⟨"input", .ofList [("bind", .ident "secret"), ("type", .ident "look")], [], none⟩
  actions := [⟨"show", [⟨"look", .literal (.str "text")⟩]⟩]

def pinned : Program where
  app := "Pinned"
  version := .ofInt 1
  state := [("note", .str "first")]
  view := some ⟨"input", .ofList [("bind", .ident "note"), ("value", .literal (.str "fixed"))], [],
    none⟩
  actions := [⟨"edit", [⟨"note", .literal (.str "second")⟩]⟩]

end ReactiveView
