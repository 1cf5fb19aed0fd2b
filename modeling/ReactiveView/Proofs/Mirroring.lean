import ReactiveView.Page.Plain
import ReactiveView.Proofs.Standing

namespace ReactiveView

theorem Program.children_of_load {p : Program} {app : Application} (h : p.load = .ok app)
    {i child : Nat} {n : ArenaNode} (hn : app.nodes[i]? = some n) (hc : child ∈ n.children) :
    ∃ m, app.nodes[child]? = some m ∧ m.parent = some i := by
  obtain ⟨-, rfl⟩ := load_eq_ok_iff.1 h
  have hnodes : p.application.nodes = ViewNode.arena p.view := rfl
  rw [hnodes] at hn ⊢
  generalize p.view = view at hn ⊢
  cases view with
  | none => cases hn
  | some root => exact (ViewNode.mem_children_iff hn child).1 hc

namespace Dom

variable {dom : Dom}

def changeAll (dom : Dom) (part : Part dom.Face) (values : List (Facet × FacetValue)) : Part dom.Face :=
  (values.map changeOf).foldl dom.change part

theorem text_changeAll {values : List (Facet × FacetValue)} (ht : ∀ entry ∈ values, entry.1.Takes entry.2)
    {part : Part dom.Face} {node : Node} (h : part.text? = node.text ∨ .text ∈ values.map Prod.fst) :
    (dom.changeAll part values).text? = (node.writeAll values).text := by
  induction values generalizing part node with
  | nil => exact h.resolve_right (by simp)
  | cons entry rest ih =>
    obtain ⟨hentry, hrest⟩ := List.forall_mem_cons.1 ht
    obtain ⟨facet, value⟩ := entry
    have hnext : (dom.change part (changeOf (facet, value))).text? = (node.write facet value).text ∨
        .text ∈ rest.map Prod.fst := ?_
    exact ih hrest hnext
    rw [List.map_cons, List.mem_cons] at h
    rcases hentry.cases with ⟨rfl, s, rfl⟩ | ⟨rfl, b, rfl⟩ | ⟨rfl, v, rfl⟩ | ⟨name, o, rfl, rfl⟩
    · exact .inl rfl
    · exact h.imp_right (Or.resolve_left · (by simp))
    · exact h.imp_right (Or.resolve_left · (by simp))
    · exact h.imp_right (Or.resolve_left · (by simp))

end Dom

namespace ArenaNode.Accepts

variable {n : ArenaNode} {values : List (Facet × FacetValue)}

theorem template_of_text (h : n.Accepts values) {s : String} (hs : .text s ∈ values.map changeOf) :
    n.node.text.isSome = true := by
  obtain ⟨⟨facet, value⟩, hentry, hchange⟩ := List.mem_map.1 hs
  rcases (h.takes _ hentry).cases with ⟨rfl, t, rfl⟩ | ⟨rfl, b, rfl⟩ | ⟨rfl, v, rfl⟩ | ⟨name, o, rfl, rfl⟩
  · exact h.text (List.mem_map_of_mem hentry)
  · cases hchange
  · cases hchange
  · cases hchange

end ArenaNode.Accepts

theorem mem_changesFor {patches : List Patch} {ref : Reference} {change : Change} :
    change ∈ changesFor ref patches ↔ ⟨ref, change⟩ ∈ patches := by
  rw [changesFor, List.mem_filterMap]
  constructor
  · rintro ⟨patch, hpatch, hsome⟩
    obtain ⟨rfl, rfl⟩ := Option.ite_none_right_eq_some.1 hsome |>.imp_right Option.some.inj
    exact hpatch
  · exact fun h => ⟨_, h, by rw [if_pos rfl]⟩

section Suiting

variable {app : Application} (hnum : app.Numbered) {tree : Tree} (htree : tree.Fits app)

include hnum htree

theorem Tree.Fits.suits : ∀ patch ∈ tree.patches, patch.Suits app := by
  rintro patch hpatch i s rfl
  have hs := mem_changesFor.2 hpatch
  cases hn : app.nodes[i]? with
  | none =>
    have hout : i ∉ tree.nodes.map Node.ref := by
      rw [htree.map_ref, hnum, List.mem_range, Nat.not_lt]
      exact List.getElem?_eq_none_iff.1 hn
    rw [patches, Node.changesFor_flatMap_of_notMem hout] at hs
    cases hs
  | some n =>
    have hi : i < tree.nodes.length := htree.length_eq ▸ (List.getElem?_eq_some_iff.1 hn).1
    have hnode := List.getElem?_eq_getElem hi
    rw [htree.changesFor_patches hnum hnode] at hs
    exact (htree.fits_of_getElem? hn hnode).accepts_shown.template_of_text hs

theorem View.suits_of_reconcile {s : State} {dirty : List String} {account : Account} {shown : Rendering}
    (h : (View.reconcile app s (some tree) dirty account).outcome = .ok shown) :
    ∀ patch ∈ shown.patches, patch.Suits app := by
  rintro patch hpatch i text rfl
  have hs := mem_changesFor.2 hpatch
  cases hn : app.nodes[i]? with
  | none =>
    have hout : i ∉ app.nodes.map ArenaNode.ref := by
      rw [hnum, List.mem_range, Nat.not_lt]
      exact List.getElem?_eq_none_iff.1 hn
    obtain ⟨result, hresult, rfl⟩ := outcome_rendering h
    rw [rendering, changesFor_updateNodes_of_notMem hresult hout] at hs
    cases hs
  | some n =>
    have hi : i < tree.nodes.length := htree.length_eq ▸ (List.getElem?_eq_some_iff.1 hn).1
    obtain ⟨values, hv, -, hchanges⟩ := exists_values_of_reconcile h hnum hn (List.getElem?_eq_getElem hi)
    rw [hchanges] at hs
    exact hv.template_of_text hs

end Suiting

namespace Page

variable {dom : Dom} {app : Application} {p : Program} (hload : p.load = .ok app) {tree : Tree}

/-- Pages that show a tree: mounted with a build of the view on whatever was there before, then kept up to date
with the patches of updates. -/
inductive Follows (app : Application) : Page dom → Tree → Prop where
  | mount {s : State} {account : Account} {shown : Rendering} (page : Page dom)
      (h : (View.materialize app s account).outcome = .ok shown)
      (hok : (page.mount shown.tree shown.patches).1 = .ok ()) :
      Follows app (page.mount shown.tree shown.patches).2 shown.tree
  | apply {page : Page dom} {tree : Tree} {s : State} {dirty : List String} {account : Account}
      {shown : Rendering} (hpage : Follows app page tree)
      (h : (View.reconcile app s (some tree) dirty account).outcome = .ok shown) :
      Follows app (page.apply shown.patches) shown.tree

/-- The elements of a page stand as the nodes of a tree do, and its texts are those of the tree. -/
structure Displays (page : Page dom) (app : Application) (base : Nat) (tree : Tree) : Prop where
  fits : tree.Fits app
  stands : page.Stands app base
  texts : ∀ i node, tree.nodes[i]? = some node → ∃ part, page.partOf? i = some part ∧ part.text? = node.text

theorem mount_ok_iff (hload : p.load = .ok app) (htree : tree.Fits app) (page : Page dom) (patches : List Patch) :
    (page.mount tree patches).1 = .ok () ↔ app.nodes.all ArenaNode.tagged = true := by
  have hsites := htree.sites_eq hload page.elements.length
  constructor
  · intro hok
    have hsome := sites_isSome_of_mount hok
    rw [hsites] at hsome
    split at hsome
    · assumption
    · cases hsome
  · intro htagged
    rw [if_pos htagged] at hsites
    obtain ⟨registrations, hmount⟩ := page.mount_eq hsites patches
    rw [hmount]

section Steps

include hload

theorem stands_mount {page : Page dom} (htree : tree.Fits app) (hok : (page.mount tree tree.patches).1 = .ok ()) :
    (page.mount tree tree.patches).2.Stands app page.elements.length ∧
      ∀ i n node, app.nodes[i]? = some n → tree.nodes[i]? = some node →
        (page.mount tree tree.patches).2.partOf? i =
          some (dom.changeAll ⟨dom.planted node, node.text.map fun _ => ""⟩ node.shown) := by
  have hnum := Program.numbered_of_load hload
  have htagged := (mount_ok_iff hload htree page tree.patches).1 hok
  have hsites := htree.sites_eq hload page.elements.length
  rw [if_pos htagged] at hsites
  obtain ⟨registrations, hmount⟩ := page.mount_eq hsites tree.patches
  have hlaid := stands_laidOut hload htree htagged page
  have hstands : ((page.laidOut app tree).registered registrations).Stands app page.elements.length :=
    ⟨hlaid.container, hlaid.found, hlaid.own, hlaid.element, hlaid.text⟩
  obtain ⟨hlater, hparts⟩ := hstands.apply (htree.suits hnum)
  rw [hmount]
  refine ⟨hlater, fun i n node hn hnode => (hparts i).trans ?_⟩
  have hpart : ((page.laidOut app tree).registered registrations).partOf? i = _ :=
    partOf?_laidOut hload htree htagged page hn hnode
  rw [hpart, Option.map_some, htree.changesFor_patches hnum hnode]
  rfl

theorem Stands.update {page : Page dom} {base : Nat} (h : page.Stands app base) (htree : tree.Fits app) {s : State}
    {dirty : List String} {account : Account} {shown : Rendering}
    (hstep : (View.reconcile app s (some tree) dirty account).outcome = .ok shown) :
    (page.apply shown.patches).Stands app base ∧
      ∀ i n before, app.nodes[i]? = some n → tree.nodes[i]? = some before →
        ∃ values, n.Accepts values ∧ shown.tree.nodes[i]? = some (before.writeAll values) ∧
          changesFor (.position i) shown.patches = values.map changeOf ∧
          (page.apply shown.patches).partOf? i = (page.partOf? i).map (dom.changeAll · values) := by
  have hnum := Program.numbered_of_load hload
  obtain ⟨hlater, hparts⟩ := h.apply (View.suits_of_reconcile hnum htree hstep)
  refine ⟨hlater, fun i n before hn hb => ?_⟩
  obtain ⟨values, hv, hnode, hchanges⟩ := View.exists_values_of_reconcile hstep hnum hn hb
  refine ⟨values, hv, hnode, hchanges, (hparts i).trans ?_⟩
  rw [hchanges]
  rfl

theorem displays_mount {page : Page dom} (htree : tree.Fits app)
    (hok : (page.mount tree tree.patches).1 = .ok ()) :
    (page.mount tree tree.patches).2.Displays app page.elements.length tree := by
  obtain ⟨hstands, hparts⟩ := stands_mount hload htree hok
  refine ⟨htree, hstands, fun i node hnode => ?_⟩
  obtain ⟨n, hn, hfits⟩ := htree.exists_declared hnode
  refine ⟨_, hparts i n node hn hnode, ?_⟩
  have hshell : node.text.map (fun _ => "") = (Node.shell n).text ∨ .text ∈ node.shown.map Prod.fst := by
    rw [Node.map_fst_shown, Node.mem_facets_text]
    cases node.text with
    | none => exact .inl rfl
    | some s => exact .inr rfl
  rw [Dom.text_changeAll hfits.accepts_shown.takes hshell, hfits.rebuild]

theorem Displays.update {page : Page dom} {base : Nat} (h : page.Displays app base tree) {s : State}
    {dirty : List String} {account : Account} {shown : Rendering}
    (hstep : (View.reconcile app s (some tree) dirty account).outcome = .ok shown) :
    (page.apply shown.patches).Displays app base shown.tree := by
  obtain ⟨hstands, hparts⟩ := h.stands.update hload h.fits hstep
  have hfits := View.reconcile_fits hstep h.fits
  refine ⟨hfits, hstands, fun i node hnode => ?_⟩
  obtain ⟨n, hn, -⟩ := hfits.exists_declared hnode
  have hbefore := List.getElem?_eq_getElem (h.fits.length_eq ▸ (List.getElem?_eq_some_iff.1 hn).1)
  obtain ⟨values, hv, hlater, -, hpart⟩ := hparts i n _ hn hbefore
  obtain ⟨part, hshown, htext⟩ := h.texts i _ hbefore
  obtain rfl := Option.some.inj (hlater.symm.trans hnode)
  rw [hshown, Option.map_some] at hpart
  exact ⟨_, hpart, Dom.text_changeAll hv.takes (.inl htext)⟩

theorem Follows.displays {page : Page dom} (h : page.Follows app tree) : ∃ base, page.Displays app base tree := by
  induction h with
  | mount page h hok =>
    rw [View.patches_of_materialize h] at hok ⊢
    exact ⟨_, displays_mount hload (View.materialize_fits h) hok⟩
  | apply hpage h ih =>
    obtain ⟨base, hdisplays⟩ := ih
    exact ⟨base, hdisplays.update hload h⟩

end Steps

def elementFor? (page : Page dom) (ref : Reference) : Option (Element dom.Face) :=
  (page.idOf? ref).bind (page.elements[·]?)

def IsElementOf (page : Page dom) (parent ref : Nat) (child : Child) : Prop :=
  ∃ id el, child = .element id ∧ page.idOf? (.position ref) = some id ∧ page.elements[id]? = some el ∧
    el.parent = some parent

/-- An element stands for a node: over the elements of its children, in order, and with a text of its own in front
exactly if the node has a template, which no patch of a text takes from its children. -/
structure MirrorsNode (page : Page dom) (n : ArenaNode) (node : Node) (id : Nat) (el : Element dom.Face) :
    Prop where
  children : ∃ (own? : Option Nat) (below : List Child), el.children = own?.toList.map .text ++ below ∧
    List.Forall₂ (page.IsElementOf id) node.children below ∧ own?.isSome = n.node.text.isSome ∧
      (own?.bind fun own => page.texts[own]?.map TextNode.data) = node.text
  keeps : n.node.text.isSome → ∀ s,
    ((page.applyOne ⟨.position node.ref, .text s⟩).elementFor? (.position node.ref)).map Element.children =
      some el.children

/-- A page mirrors a tree: one element in the container, unless the tree is empty, and an element for each of its
references and no others, each its own. -/
structure Mirrors (page : Page dom) (app : Application) (tree : Tree) : Prop where
  container : page.container.map some =
    (tree.nodes.head?.map fun node => page.idOf? (.position node.ref)).toList
  refs : ∀ ref, (page.elementFor? ref).isSome ↔ ∃ node ∈ tree.nodes, ref = .position node.ref
  distinct : ∀ ref other id, page.idOf? ref = some id → page.idOf? other = some id → ref = other
  nodes : List.Forall₂ (fun n node => ∃ id el, page.idOf? (.position node.ref) = some id ∧
    page.elements[id]? = some el ∧ page.MirrorsNode n node id el) app.nodes tree.nodes

section Mirroring

variable {page : Page dom} {base : Nat}

theorem Stands.idOf?_inj (h : page.Stands app base) {ref other : Reference} {id : Nat}
    (href : page.idOf? ref = some id) (hother : page.idOf? other = some id) : ref = other := by
  cases ref with
  | stray x => cases href
  | position i =>
    cases other with
    | stray x => cases hother
    | position j =>
      rw [idOf?, h.found, Option.ite_none_right_eq_some, Option.some.injEq] at href hother
      congr 1
      omega

theorem Displays.isSome_iff (h : page.Displays app base tree) (hnum : app.Numbered) (ref : Reference) :
    (page.elementFor? ref).isSome ↔ ∃ node ∈ tree.nodes, ref = .position node.ref := by
  constructor
  · intro hsome
    cases ref with
    | stray x => cases hsome
    | position i =>
      by_cases hi : i < tree.nodes.length
      · have hnode := List.getElem?_eq_getElem hi
        exact ⟨_, List.mem_of_getElem? hnode, by rw [h.fits.ref_eq hnum hnode]⟩
      · rw [elementFor?, idOf?, h.stands.found, if_neg (h.fits.length_eq ▸ hi)] at hsome
        cases hsome
  · rintro ⟨node, hm, rfl⟩
    obtain ⟨i, hi⟩ := List.mem_iff_getElem?.1 hm
    obtain ⟨n, hn, -⟩ := h.fits.exists_declared hi
    obtain ⟨el, hel, -⟩ := h.stands.element i n hn
    rw [h.fits.ref_eq hnum hi, elementFor?, h.stands.idOf?_position (List.getElem?_eq_some_iff.1 hn).1,
      Option.bind_some, hel]
    rfl

theorem Displays.map_container (h : page.Displays app base tree) (hnum : app.Numbered) :
    page.container.map some = (tree.nodes.head?.map fun node => page.idOf? (.position node.ref)).toList := by
  have hlength := h.fits.length_eq
  rw [h.stands.container]
  cases hnodes : tree.nodes with
  | nil =>
    rw [hnodes, List.length_nil, List.length_eq_zero_iff] at hlength
    rw [hlength]
    rfl
  | cons head rest =>
    have hhead : head.ref = 0 := h.fits.ref_eq hnum (by rw [hnodes]; rfl)
    have hpos : 0 < app.nodes.length := by rw [hlength, hnodes]; exact Nat.succ_pos _
    have hsome : ¬app.nodes.isEmpty := by rw [List.isEmpty_iff_length_eq_zero]; omega
    rw [if_neg hsome, List.head?_cons, Option.map_some, hhead, h.stands.idOf?_position hpos]
    rfl

include hload in
theorem Displays.mirrorsNode (h : page.Displays app base tree) {i : Nat} {n : ArenaNode} {node : Node}
    (hn : app.nodes[i]? = some n) (hnode : tree.nodes[i]? = some node) (href : node.ref = i) :
    ∃ id el, page.idOf? (.position node.ref) = some id ∧ page.elements[id]? = some el ∧
      page.MirrorsNode n node id el := by
  have hi := (List.getElem?_eq_some_iff.1 hn).1
  obtain ⟨el, hel, hparent, hchildren⟩ := h.stands.element i n hn
  obtain ⟨part, hpart, htext⟩ := h.texts i node hnode
  have hown := h.stands.own i
  rw [hn] at hown
  rw [href]
  refine ⟨base + i, el, h.stands.idOf?_position hi, hel,
    ⟨page.textTable.lookup i, _, hchildren, ?children, hown, ?text⟩, ?keeps⟩
  case children =>
    rw [(h.fits.fits_of_getElem? hn hnode).children_eq, List.forall₂_map_right_iff, List.forall₂_same]
    intro child hc
    obtain ⟨m, hm, hlink⟩ := Program.children_of_load hload hn hc
    obtain ⟨cel, hcel, hcparent, -⟩ := h.stands.element child m hm
    rw [hlink] at hcparent
    exact ⟨base + child, cel, rfl, h.stands.idOf?_position (List.getElem?_eq_some_iff.1 hm).1, hcel, hcparent⟩
  case text =>
    rw [partOf?, h.stands.found, if_pos hi, Option.bind_some, hel] at hpart
    rw [← htext, ← Option.some.inj hpart]
  case keeps =>
    intro hsome s
    obtain ⟨own, hlookup⟩ := Option.isSome_iff_exists.1 (hown.trans hsome)
    rw [href, h.stands.setText_eq hlookup s]
    have hid : ((page.overwrite own s).write (base + i) (dom.write (.content s))).idOf? (.position i) =
        some (base + i) := h.stands.idOf?_position hi
    have hlater : (page.overwrite own s).elements[base + i]? = some el := hel
    rw [elementFor?, hid, Option.bind_some, getElem?_write, hlater, Option.map_some, if_pos rfl, Option.map_some]

include hload in
theorem Displays.mirrors (h : page.Displays app base tree) : page.Mirrors app tree := by
  have hnum := Program.numbered_of_load hload
  refine ⟨h.map_container hnum, h.isSome_iff hnum, fun ref other id => h.stands.idOf?_inj, ?_⟩
  refine List.forall₂_iff_get.2 ⟨h.fits.length_eq, fun i hi hi' => ?_⟩
  have hnode : tree.nodes[i]? = some (tree.nodes.get ⟨i, hi'⟩) := List.getElem?_eq_getElem hi'
  exact h.mirrorsNode hload (List.getElem?_eq_getElem hi) hnode (h.fits.ref_eq hnum hnode)

/-- After a mount and any updates, a page mirrors the latest tree. -/
theorem follows_mirrors (hload : p.load = .ok app) {page : Page dom} (h : page.Follows app tree) :
    page.Mirrors app tree := by
  obtain ⟨base, hdisplays⟩ := h.displays hload
  exact hdisplays.mirrors hload

end Mirroring

end Page

def letter : Program where
  app := "Letter"
  version := .ofInt 1
  state := [("reader", .str "Ada")]
  view := some ⟨"letter", .ofList [],
    [⟨"label", .ofList [("title", .ident "reader")], [], none⟩],
    some [.literal "Dear ", .var "reader"]⟩
  actions := [⟨"address", [⟨"reader", .literal (.str "Grace")⟩]⟩]

theorem letter_mirrors :
    ∃ first later,
      View.Updated letter.application (letter.application.initialState.put "reader" (.str "Grace"))
        ["reader"] first later ∧
      ((Page.empty Dom.plain true).mount first.tree first.patches).1 = .ok () ∧
      (((Page.empty Dom.plain true).mount first.tree first.patches).2.apply later.patches).Mirrors
        letter.application later.tree := by
  have hload : letter.load = .ok letter.application :=
    Program.load_eq_ok_iff.2 ⟨by decide +kernel, rfl⟩
  obtain ⟨first, later, ⟨hfirst, hlater⟩, -⟩ := View.exists_updated letter.application
    (letter.application.initialState.put "reader" (.str "Grace")) ["reader"] (fun _ _ => true)
    (by decide +kernel)
  have hok : ((Page.empty Dom.plain true).mount first.tree first.patches).1 = .ok () :=
    (Page.mount_ok_iff hload (View.materialize_fits hfirst) _ _).2 (by decide +kernel)
  exact ⟨first, later, ⟨hfirst, hlater⟩, hok,
    Page.follows_mirrors hload ((Page.Follows.mount (Page.empty Dom.plain true) hfirst hok).apply hlater)⟩

end ReactiveView
