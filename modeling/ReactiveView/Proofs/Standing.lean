import ReactiveView.Proofs.Flattening
import ReactiveView.Proofs.Mounting
import ReactiveView.Proofs.Patching

namespace ReactiveView

namespace ArenaNode

def tagged (n : ArenaNode) : Bool := (Dom.tagOf? n.node.kind).isSome

def site (base : Nat) (n : ArenaNode) : Site :=
  ⟨n.ref, base + n.ref, n.parent.map (base + ·), n.children.map (base + ·)⟩

def links (n : ArenaNode) : Option (List Nat) := (Dom.tagOf? n.node.kind).map fun _ => n.children

theorem links_eq_none {n : ArenaNode} (h : n.tagged = false) : n.links = none := by
  have hnone : Dom.tagOf? n.node.kind = none := by simpa [tagged] using h
  rw [links, hnone, Option.map_none]

theorem links_eq_some {n : ArenaNode} (h : n.tagged = true) : n.links = some n.children := by
  obtain ⟨tag, htag⟩ := Option.isSome_iff_exists.1 h
  rw [links, htag, Option.map_some]

end ArenaNode

namespace Site

variable {links : Nat → Option (List Nat)} {base : Nat}

/-- A layout is walked in its order, if a walk of each of the sibling trees does so. -/
theorem walkAll_placeAll {walk : Nat → Nat → Option (List Site)} {nodes : List ArenaNode} {parent : Nat}
    {path : List Nat} {children : List ViewNode} (hwalk : ∀ child ∈ children, ∀ next position,
      child.place next (some parent) (path ++ [position]) ⊆ nodes → walk (base + next) next =
        if (child.place next (some parent) (path ++ [position])).all ArenaNode.tagged then
          some ((child.place next (some parent) (path ++ [position])).map (ArenaNode.site base)) else none)
    (next position : Nat) (hsub : ViewNode.placeAll next parent path position children ⊆ nodes) :
    walkAll walk (base + next) (ViewNode.childRefs next children) =
      if (ViewNode.placeAll next parent path position children).all ArenaNode.tagged then
        some ((ViewNode.childRefs next children).map (base + ·),
          (ViewNode.placeAll next parent path position children).map (ArenaNode.site base)) else none := by
  induction children generalizing next position with
  | nil => rfl
  | cons child rest ih =>
    obtain ⟨hchild, hrest⟩ := List.forall_mem_cons.1 hwalk
    rw [ViewNode.placeAll, List.append_subset] at hsub
    have hothers := ih hrest (next + child.size) (position + 1) hsub.2
    rw [ViewNode.childRefs, ViewNode.placeAll, walkAll, hchild next position hsub.1, List.all_append]
    cases hfirst : (child.place next (some parent) (path ++ [position])).all ArenaNode.tagged with
    | false => rfl
    | true =>
      rw [if_pos rfl, Option.bind_some, List.length_map, ViewNode.length_place, Nat.add_assoc, hothers,
        Bool.true_and]
      split
      · rw [Option.map_some, List.map_cons, List.map_append]
      · rfl

theorem size_le_sizeAll {child : ViewNode} {children : List ViewNode} (h : child ∈ children) :
    child.size ≤ ViewNode.sizeAll children := by
  induction children with
  | nil => cases h
  | cons first rest ih =>
    rw [ViewNode.sizeAll]
    rcases List.mem_cons.1 h with rfl | h
    · exact Nat.le_add_right _ _
    · exact Nat.le_trans (ih h) (Nat.le_add_left _ _)

theorem walk_place (root : ViewNode) : ∀ {depth ref : Nat} {parent : Option Nat} {path : List Nat},
    (∀ m ∈ root.place ref parent path, links m.ref = m.links) → root.size ≤ depth →
      walk links depth (parent.map (base + ·)) (base + ref) ref =
        if (root.place ref parent path).all ArenaNode.tagged then
          some ((root.place ref parent path).map (ArenaNode.site base)) else none := by
  induction root using ViewNode.induction with
  | h root ih =>
    intro depth ref parent path hlinks hdepth
    rw [ViewNode.place_eq] at hlinks ⊢
    obtain ⟨hroot, hbelow⟩ := List.forall_mem_cons.1 hlinks
    cases depth with
    | zero => exact absurd hdepth (by have := root.size_pos; omega)
    | succ depth =>
      have hsize : ViewNode.sizeAll root.children ≤ depth := by
        cases root
        rw [ViewNode.size] at hdepth
        dsimp only
        omega
      -- The hypothesis in the form in which siblings are walked: blocks of children are parts of the layout.
      have hwalk (child : ViewNode) (hchild : child ∈ root.children) (next position : Nat)
          (hsub : child.place next (some ref) (path ++ [position]) ⊆
            ViewNode.placeAll (ref + 1) ref path 0 root.children) :
          walk links depth (some (base + ref)) (base + next) next =
            if (child.place next (some ref) (path ++ [position])).all ArenaNode.tagged then
              some ((child.place next (some ref) (path ++ [position])).map (ArenaNode.site base)) else none :=
        ih child hchild (fun m hm => hbelow m (hsub hm)) (Nat.le_trans (size_le_sizeAll hchild) hsize)
      have hchildren := walkAll_placeAll hwalk (ref + 1) 0 (List.Subset.refl _)
      rw [walk, hroot, List.all_cons]
      cases htag : ArenaNode.tagged ⟨ref, root, parent, ViewNode.childRefs (ref + 1) root.children, path⟩ with
      | false =>
        rw [ArenaNode.links_eq_none htag]
        rfl
      | true =>
        rw [ArenaNode.links_eq_some htag, Option.bind_some, Nat.add_assoc, hchildren, Bool.true_and]
        split <;> rfl

end Site

namespace Tree

variable {app : Application} {tree : Tree}

theorem kind_eq_of_fits {n : ArenaNode} {node : Node} (h : node.Fits n) : node.kind = n.node.kind :=
  (Node.fields_of_blank_eq (v := Node.shell n) h.blank).2.1

theorem Fits.links_eq (h : tree.Fits app) {i : Nat} {n : ArenaNode} (hn : app.nodes[i]? = some n) :
    tree.links i = n.links := by
  have hi : i < tree.nodes.length := h.length_eq ▸ (List.getElem?_eq_some_iff.1 hn).1
  have hnode := List.getElem?_eq_getElem hi
  have hfits := h.fits_of_getElem? hn hnode
  rw [links, hnode, Option.bind_some, kind_eq_of_fits hfits, hfits.children_eq, ArenaNode.links]

theorem Fits.sites_eq {p : Program} (hload : p.load = .ok app) (h : tree.Fits app) (base : Nat) :
    tree.sites base =
      if app.nodes.all ArenaNode.tagged then some (app.nodes.map (ArenaNode.site base)) else none := by
  have hnum := Program.numbered_of_load hload
  have hlength := h.length_eq
  have hlinks (m : ArenaNode) (hm : m ∈ app.nodes) : tree.links m.ref = m.links :=
    h.links_eq (hnum.getElem?_ref hm)
  obtain ⟨-, rfl⟩ := Program.load_eq_ok_iff.1 hload
  have hempty : tree.nodes.isEmpty = p.application.nodes.isEmpty := by
    rw [Bool.eq_iff_iff, List.isEmpty_iff_length_eq_zero, List.isEmpty_iff_length_eq_zero, hlength]
  have hnodes : p.application.nodes = ViewNode.arena p.view := rfl
  rw [sites, hempty, ← hlength]
  rw [hnodes] at hlinks ⊢
  generalize p.view = view at hlinks ⊢
  cases view with
  | none => rfl
  | some root =>
    have hsome : (root.place 0 none []).isEmpty = false := by rw [ViewNode.place_eq, List.isEmpty_cons]
    rw [ViewNode.arena] at hlinks ⊢
    rw [hsome, if_neg Bool.false_ne_true, ViewNode.length_place]
    have hwalk : Site.walk tree.links root.size (Option.map (base + ·) none) (base + 0) 0 = _ :=
      Site.walk_place root hlinks (Nat.le_refl _)
    exact hwalk

end Tree

/-- What a page shows at a node: the face of its element, and its own text if there is one. -/
structure Part (Face : Type) where
  face : Face
  text? : Option String

def Dom.repaint (dom : Dom) (face : dom.Face) : Change → dom.Face
  | .text s => dom.write (.content s) face
  | .visible b => dom.write (.hidden !b) face
  | .prop name output => dom.setProp name output face

def Dom.change (dom : Dom) (part : Part dom.Face) (change : Change) : Part dom.Face where
  face := dom.repaint part.face change
  text? := match change with
    | .text s => some s
    | _ => part.text?

def Patch.Suits (app : Application) (patch : Patch) : Prop :=
  ∀ i s, patch = ⟨.position i, .text s⟩ → app.nodes[i]?.any (·.node.text.isSome) = true

namespace Page

variable {dom : Dom}

def partOf? (page : Page dom) (i : Nat) : Option (Part dom.Face) :=
  (page.elementTable.lookup i).bind fun id => page.elements[id]?.map fun el =>
    ⟨el.face, (page.textTable.lookup i).bind fun own => page.texts[own]?.map TextNode.data⟩

/-- The elements from a base on stand as the nodes of an application do, each with a text of its own first if there
is a template. -/
structure Stands (page : Page dom) (app : Application) (base : Nat) : Prop where
  container : page.container = if app.nodes.isEmpty then [] else [base]
  found : ∀ i, page.elementTable.lookup i = if i < app.nodes.length then some (base + i) else none
  own : ∀ i, (page.textTable.lookup i).isSome = app.nodes[i]?.any (·.node.text.isSome)
  element : ∀ i n, app.nodes[i]? = some n → ∃ el, page.elements[base + i]? = some el ∧
    el.parent = n.parent.map (base + ·) ∧
      el.children = (page.textTable.lookup i).toList.map .text ++ n.children.map fun child => .element (base + child)
  text : ∀ i own, page.textTable.lookup i = some own → ∃ data, page.texts[own]? = some ⟨data, some (base + i)⟩

section Mounted

variable {p : Program} {app : Application} {tree : Tree}

def laidOut (page : Page dom) (app : Application) (tree : Tree) : Page dom :=
  page.mounted tree (app.nodes.map (ArenaNode.site page.elements.length))

theorem map_ref_sites (hnum : app.Numbered) (base : Nat) :
    (app.nodes.map (ArenaNode.site base)).map Site.ref = List.range app.nodes.length :=
  (List.map_map ..).trans hnum

variable (hload : p.load = .ok app) (htree : tree.Fits app) (htagged : app.nodes.all ArenaNode.tagged = true)
  (page : Page dom)

include hload htree htagged

theorem exists_own {i : Nat} {n : ArenaNode} {node : Node} (hn : app.nodes[i]? = some n)
    (hnode : tree.nodes[i]? = some node) :
    ∃ own?, (page.laidOut app tree).Planted (n.site page.elements.length) node own? ∧
      (page.laidOut app tree).elementTable.lookup i = some (page.elements.length + i) ∧
        (page.laidOut app tree).textTable.lookup i = own? := by
  have hnum := Program.numbered_of_load hload
  obtain rfl := hnum.ref_eq hn
  have hsites := htree.sites_eq hload page.elements.length
  rw [if_pos htagged, ← length_destroy] at hsites
  have hrefs := map_ref_sites hnum page.elements.length
  obtain ⟨own?, hplanted, hentered⟩ := exists_planted (Tree.map_id_sites hsites) (Tree.links_sites hsites)
    (List.mem_map_of_mem (List.mem_of_getElem? hn)) hnode
  rw [length_destroy] at hplanted hentered
  obtain ⟨helement, htext⟩ := hentered (by rw [hrefs]; exact List.nodup_range)
  exact ⟨own?, ⟨hplanted.own, hplanted.element, hplanted.text⟩, helement, htext fun other hother => rfl⟩

theorem stands_laidOut : (page.laidOut app tree).Stands app page.elements.length := by
  have hnum := Program.numbered_of_load hload
  have hrefs := map_ref_sites hnum page.elements.length
  have hin {i : Nat} {n : ArenaNode} (hn : app.nodes[i]? = some n) : ∃ node, tree.nodes[i]? = some node :=
    ⟨_, List.getElem?_eq_getElem (htree.length_eq ▸ (List.getElem?_eq_some_iff.1 hn).1)⟩
  -- Positions beyond the nodes of the application are in neither table.
  have hout {i : Nat} (hi : app.nodes[i]? = none) :
      (page.laidOut app tree).elementTable.lookup i = none ∧ (page.laidOut app tree).textTable.lookup i = none := by
    have hnot : i ∉ (app.nodes.map (ArenaNode.site page.elements.length)).map Site.ref := by
      rw [hrefs, List.mem_range, Nat.not_lt]
      exact List.getElem?_eq_none_iff.1 hi
    exact ⟨lookup_elementTable_grow hnot, lookup_textTable_grow hnot⟩
  refine ⟨?container, fun i => ?found, fun i => ?own, fun i n hn => ?element, fun i own hown => ?text⟩
  case container =>
    cases hnodes : app.nodes with
    | nil => simp [laidOut, mounted, hnodes]
    | cons first rest =>
      have hfirst : first.ref = 0 := hnum.ref_eq (by rw [hnodes]; rfl)
      simp [laidOut, mounted, hnodes, ArenaNode.site, hfirst]
  case found =>
    cases hn : app.nodes[i]? with
    | none =>
      rw [if_neg (Nat.not_lt.2 (List.getElem?_eq_none_iff.1 hn))]
      exact (hout hn).1
    | some n =>
      obtain ⟨node, hnode⟩ := hin hn
      obtain ⟨own?, -, helement, -⟩ := exists_own hload htree htagged page hn hnode
      rw [if_pos (List.getElem?_eq_some_iff.1 hn).1, helement]
  case own =>
    cases hn : app.nodes[i]? with
    | none => rw [(hout hn).2]; rfl
    | some n =>
      obtain ⟨node, hnode⟩ := hin hn
      obtain ⟨own?, hplanted, -, htext⟩ := exists_own hload htree htagged page hn hnode
      rw [htext, hplanted.own, (htree.fits_of_getElem? hn hnode).text_isSome]
      rfl
  case element =>
    obtain ⟨node, hnode⟩ := hin hn
    obtain ⟨own?, hplanted, -, htext⟩ := exists_own hload htree htagged page hn hnode
    have helement := hplanted.element
    rw [ArenaNode.site, hnum.ref_eq hn] at helement
    refine ⟨_, helement, rfl, ?_⟩
    rw [htext, List.map_map]
    rfl
  case text =>
    cases hn : app.nodes[i]? with
    | none =>
      rw [(hout hn).2] at hown
      cases hown
    | some n =>
      obtain ⟨node, hnode⟩ := hin hn
      obtain ⟨own?, hplanted, -, htext⟩ := exists_own hload htree htagged page hn hnode
      have hdata := hplanted.text own (htext ▸ hown)
      rw [ArenaNode.site, hnum.ref_eq hn] at hdata
      exact ⟨"", hdata⟩

theorem partOf?_laidOut {i : Nat} {n : ArenaNode} {node : Node} (hn : app.nodes[i]? = some n)
    (hnode : tree.nodes[i]? = some node) :
    (page.laidOut app tree).partOf? i = some ⟨dom.planted node, node.text.map fun _ => ""⟩ := by
  obtain ⟨own?, hplanted, helement, htext⟩ := exists_own hload htree htagged page hn hnode
  have hface := hplanted.element
  have hnum := Program.numbered_of_load hload
  rw [ArenaNode.site, hnum.ref_eq hn] at hface
  rw [partOf?, helement, Option.bind_some, hface, Option.map_some, htext]
  have hown := hplanted.own
  cases own? with
  | none =>
    rw [Option.isSome_none, eq_comm, Option.isSome_eq_false_iff, Option.isNone_iff_eq_none] at hown
    rw [hown]
    rfl
  | some own =>
    obtain ⟨s, hs⟩ := Option.isSome_iff_exists.1 hown.symm
    rw [Option.bind_some, hplanted.text own rfl, hs]
    rfl

end Mounted

section Patches

variable {page : Page dom} {app : Application} {base : Nat}

theorem modify_congr {α : Type} {xs : List α} {i : Nat} {f g : α → α} (h : ∀ x, xs[i]? = some x → f x = g x) :
    xs.modify i f = xs.modify i g := by
  refine List.ext_getElem? fun j => ?_
  rw [List.getElem?_modify, List.getElem?_modify]
  split
  · rename_i hij
    subst hij
    cases hx : xs[i]? with
    | none => rfl
    | some x => exact congrArg some (h x hx)
  · rfl

theorem getElem?_write (id : Nat) (f : dom.Face → dom.Face) (j : Nat) :
    (page.write id f).elements[j]? =
      page.elements[j]?.map fun el => if id = j then { el with face := f el.face } else el :=
  List.getElem?_modify _ _ _ _

def overwrite (page : Page dom) (own : Nat) (s : String) : Page dom :=
  { page with texts := page.texts.modify own fun text => { text with data := s } }

theorem getElem?_overwrite (own : Nat) (s : String) (j : Nat) :
    (page.overwrite own s).texts[j]? =
      page.texts[j]?.map fun text => if own = j then { text with data := s } else text :=
  List.getElem?_modify _ _ _ _

theorem Stands.write (h : page.Stands app base) (id : Nat) (f : dom.Face → dom.Face) :
    (page.write id f).Stands app base where
  container := h.container
  found := h.found
  own := h.own
  element i n hn := by
    obtain ⟨el, hel, hparent, hchildren⟩ := h.element i n hn
    rw [getElem?_write, hel]
    refine ⟨_, rfl, ?_, ?_⟩
    · split <;> exact hparent
    · split <;> exact hchildren
  text := h.text

theorem Stands.overwrite (h : page.Stands app base) (own : Nat) (s : String) :
    (page.overwrite own s).Stands app base where
  container := h.container
  found := h.found
  own := h.own
  element := h.element
  text i other hother := by
    obtain ⟨data, hdata⟩ := h.text i other hother
    rw [getElem?_overwrite, hdata]
    by_cases hown : own = other
    · exact ⟨s, by simp [hown]⟩
    · exact ⟨data, by simp [hown]⟩

theorem Stands.eq_of_own (h : page.Stands app base) {i j own : Nat} (hi : page.textTable.lookup i = some own)
    (hj : page.textTable.lookup j = some own) : i = j := by
  obtain ⟨data, hdata⟩ := h.text i own hi
  obtain ⟨other, hother⟩ := h.text j own hj
  rw [hdata, Option.some.injEq, TextNode.mk.injEq, Option.some.injEq] at hother
  omega

theorem Stands.partOf?_write (h : page.Stands app base) (i : Nat) (f : dom.Face → dom.Face) (j : Nat) :
    (page.write (base + i) f).partOf? j =
      if i = j then (page.partOf? j).map fun part => { part with face := f part.face } else page.partOf? j := by
  have hfound : (page.write (base + i) f).elementTable.lookup j = _ := h.found j
  rw [partOf?, partOf?, hfound, h.found j]
  by_cases hj : j < app.nodes.length
  · rw [if_pos hj, Option.bind_some, Option.bind_some, getElem?_write, Option.map_map]
    by_cases hij : i = j
    · rw [if_pos hij, Option.map_map, hij]
      refine congrFun (congrArg Option.map (funext fun el => ?_)) _
      rw [Function.comp_apply, if_pos rfl]
      rfl
    · rw [if_neg hij]
      refine congrFun (congrArg Option.map (funext fun el => ?_)) _
      rw [Function.comp_apply, if_neg (by omega)]
      rfl
  · rw [if_neg hj]
    split <;> rfl

theorem Stands.partOf?_overwrite (h : page.Stands app base) {i own : Nat}
    (hown : page.textTable.lookup i = some own) (s : String) (j : Nat) :
    (page.overwrite own s).partOf? j =
      if i = j then (page.partOf? j).map fun part => { part with text? := some s } else page.partOf? j := by
  rw [partOf?, partOf?]
  have htext : ((page.overwrite own s).textTable.lookup j).bind
      (fun other => (page.overwrite own s).texts[other]?.map TextNode.data) = if i = j then some s else
        (page.textTable.lookup j).bind fun other => page.texts[other]?.map TextNode.data := by
    change (page.textTable.lookup j).bind _ = _
    cases hother : page.textTable.lookup j with
    | none =>
      rw [if_neg]
      · rfl
      · rintro rfl
        rw [hown] at hother
        cases hother
    | some other =>
      obtain ⟨data, hdata⟩ := h.text j other hother
      rw [Option.bind_some, Option.bind_some, getElem?_overwrite, hdata]
      by_cases hij : i = j
      · subst hij
        obtain rfl : own = other := Option.some.inj (hown.symm.trans hother)
        simp
      · have hne : own ≠ other := fun he => hij (h.eq_of_own hown (he ▸ hother))
        simp [hij, hne]
  rw [htext]
  change (page.elementTable.lookup j).bind _ = _
  split
  · rw [Option.map_bind]
    refine congrArg _ (funext fun id => ?_)
    rw [Function.comp_apply, Option.map_map]
    rfl
  · rfl

theorem contentOf_eq {el : Element dom.Face} {own : Nat} {text : TextNode} {ids : List Nat} {base : Nat}
    (hchildren : el.children = .text own :: ids.map fun id => .element (base + id))
    (htext : page.texts[own]? = some text) : page.contentOf el = text.data := by
  have helements : (ids.map fun id => Child.element (base + id)).filterMap page.dataOf? = [] := by
    rw [List.filterMap_map, List.filterMap_eq_nil_iff]
    exact fun _ _ => rfl
  have hown : page.dataOf? (.text own) = some text.data := by rw [dataOf?, htext, Option.map_some]
  rw [contentOf, hchildren, List.filterMap_cons_some hown, helements]
  simp [String.join]

theorem Stands.lt_of_own (h : page.Stands app base) {i own : Nat} (hown : page.textTable.lookup i = some own) :
    i < app.nodes.length := by
  have hnode : app.nodes[i]?.any (·.node.text.isSome) = true := by
    rw [← h.own i, hown]
    rfl
  obtain ⟨n, hn, -⟩ := (Option.any_eq_true _ _).1 hnode
  exact (List.getElem?_eq_some_iff.1 hn).1

theorem Stands.setData_eq (h : page.Stands app base) {i own : Nat} (hown : page.textTable.lookup i = some own)
    (s : String) : page.setData own s = (page.overwrite own s).write (base + i) (dom.write (.content s)) := by
  obtain ⟨data, hdata⟩ := h.text i own hown
  obtain ⟨el, hel, -, hchildren⟩ :=
    (h.overwrite own s).element i _ (List.getElem?_eq_getElem (h.lt_of_own hown))
  have hlater : (page.overwrite own s).texts[own]? = some ⟨s, some (base + i)⟩ := by
    rw [getElem?_overwrite, hdata, Option.map_some, if_pos rfl]
  have hlookup : (page.overwrite own s).textTable.lookup i = some own := hown
  rw [hlookup, Option.toList_some, List.map_singleton, List.singleton_append] at hchildren
  rw [setData, hdata, Option.bind_some]
  change refill (page.overwrite own s) (base + i) = _
  rw [refill, Page.write, Page.modify, Page.modify]
  congr 1
  refine modify_congr fun other hother => ?_
  obtain rfl : el = other := Option.some.inj (hel.symm.trans hother)
  rw [contentOf_eq hchildren hlater]

theorem Stands.idOf?_position (h : page.Stands app base) {i : Nat} (hi : i < app.nodes.length) :
    page.idOf? (.position i) = some (base + i) := by
  rw [idOf?, h.found, if_pos hi]

/-- A patch of a text changes the text and lets the element take it in. -/
theorem Stands.setText_eq (h : page.Stands app base) {i own : Nat} (hown : page.textTable.lookup i = some own)
    (s : String) : page.applyOne ⟨.position i, .text s⟩ =
      (page.overwrite own s).write (base + i) (dom.write (.content s)) := by
  rw [applyOne]
  dsimp only
  rw [h.idOf?_position (h.lt_of_own hown)]
  dsimp only
  rw [setText, hown]
  exact h.setData_eq hown s

theorem Stands.partOf?_eq_none (h : page.Stands app base) {i : Nat} (hi : app.nodes.length ≤ i) :
    page.partOf? i = none := by
  rw [partOf?, h.found, if_neg (Nat.not_lt.2 hi), Option.bind_none]

theorem Stands.applyOne (h : page.Stands app base) {patch : Patch} (hsuits : patch.Suits app) :
    (page.applyOne patch).Stands app base ∧ ∀ j, (page.applyOne patch).partOf? j =
      if patch.ref = .position j then (page.partOf? j).map (dom.change · patch.change) else page.partOf? j := by
  obtain ⟨ref, change⟩ := patch
  cases ref with
  | stray x => exact ⟨⟨h.container, h.found, h.own, h.element, h.text⟩, fun j => by rw [if_neg (by simp)]; rfl⟩
  | position i =>
    simp only [Reference.position.injEq]
    by_cases hi : i < app.nodes.length
    · cases change with
      | text s =>
        have hown := hsuits i s rfl
        rw [← h.own, Option.isSome_iff_exists] at hown
        obtain ⟨own, hown⟩ := hown
        rw [h.setText_eq hown]
        refine ⟨(h.overwrite own s).write _ _, fun j => ?_⟩
        rw [(h.overwrite own s).partOf?_write, h.partOf?_overwrite hown]
        split
        · rw [Option.map_map]
          rfl
        · rfl
      | visible b =>
        rw [Page.applyOne]
        dsimp only
        rw [h.idOf?_position hi]
        exact ⟨h.write _ _, h.partOf?_write i _⟩
      | prop name output =>
        rw [Page.applyOne]
        dsimp only
        rw [h.idOf?_position hi]
        exact ⟨h.write _ _, h.partOf?_write i _⟩
    -- A patch for an unknown node leaves a warning and nothing else.
    · have hid : page.idOf? (.position i) = none := by rw [idOf?, h.found, if_neg hi]
      rw [Page.applyOne]
      dsimp only
      rw [hid]
      refine ⟨⟨h.container, h.found, h.own, h.element, h.text⟩, fun j => ?_⟩
      by_cases hij : i = j
      · subst hij
        rw [if_pos rfl, h.partOf?_eq_none (Nat.not_lt.1 hi)]
        exact h.partOf?_eq_none (Nat.not_lt.1 hi)
      · rw [if_neg hij]
        rfl

theorem Stands.apply (h : page.Stands app base) {patches : List Patch}
    (hsuits : ∀ patch ∈ patches, patch.Suits app) :
    (page.apply patches).Stands app base ∧ ∀ i, (page.apply patches).partOf? i =
      (page.partOf? i).map fun part => (changesFor (.position i) patches).foldl dom.change part := by
  induction patches generalizing page with
  | nil => exact ⟨h, fun i => by simp [Page.apply, changesFor]⟩
  | cons patch rest ih =>
    obtain ⟨hpatch, hrest⟩ := List.forall_mem_cons.1 hsuits
    obtain ⟨hstep, hpart⟩ := h.applyOne hpatch
    obtain ⟨hlater, hparts⟩ := ih hstep hrest
    refine ⟨hlater, fun i => (hparts i).trans ?_⟩
    rw [hpart i, changesFor, changesFor, List.filterMap_cons]
    split
    · rw [Option.map_map]
      rfl
    · rfl

end Patches

end Page

end ReactiveView
