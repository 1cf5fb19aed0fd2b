import ReactiveView.Page.Basic

namespace ReactiveView

/-- Place of an element on a page: the node that it is for, its number, and the numbers of its parent and of the
elements under it. -/
structure Site where
  ref : Nat
  id : Nat
  parent : Option Nat
  children : List Nat

def Site.detached (site : Site) : Site := { site with parent := none }

def Tree.links (tree : Tree) (ref : Nat) : Option (List Nat) :=
  tree.nodes[ref]?.bind fun node => (Dom.tagOf? node.kind).map fun _ => node.children

namespace Site

def walkAll (walk : Nat → Nat → Option (List Site)) : Nat → List Nat → Option (List Nat × List Site)
  | _, [] => some ([], [])
  | id, ref :: rest =>
    (walk id ref).bind fun first =>
      (walkAll walk (id + first.length) rest).map fun others => (id :: others.1, first ++ others.2)

/-- Places of a node and of all nodes under it, numbered in pre-order. -/
def walk (links : Nat → Option (List Nat)) : Nat → Option Nat → Nat → Nat → Option (List Site)
  | 0, _, _, _ => none
  | depth + 1, parent, id, ref =>
    (links ref).bind fun refs =>
      (walkAll (walk links depth (some id)) (id + 1) refs).map fun below =>
        ⟨ref, id, parent, below.1⟩ :: below.2

variable {links : Nat → Option (List Nat)} {depth id ref : Nat} {parent : Option Nat}

theorem walk_eq_some {sites : List Site} (h : walk links (depth + 1) parent id ref = some sites) :
    ∃ refs heads below, links ref = some refs ∧
      walkAll (walk links depth (some id)) (id + 1) refs = some (heads, below) ∧
      sites = ⟨ref, id, parent, heads⟩ :: below := by
  obtain ⟨refs, hrefs, hbelow⟩ := Option.bind_eq_some_iff.1 h
  obtain ⟨⟨heads, below⟩, hwalk, rfl⟩ := Option.map_eq_some_iff.1 hbelow
  exact ⟨refs, heads, below, hrefs, hwalk, rfl⟩

theorem walkAll_cons_eq_some {next : Nat → Nat → Option (List Site)} {rest heads : List Nat}
    {sites : List Site} (h : walkAll next id (ref :: rest) = some (heads, sites)) :
    ∃ first later others, next id ref = some first ∧
      walkAll next (id + first.length) rest = some (later, others) ∧ heads = id :: later ∧
      sites = first ++ others := by
  obtain ⟨first, hfirst, hothers⟩ := Option.bind_eq_some_iff.1 h
  obtain ⟨⟨later, others⟩, hwalk, heq⟩ := Option.map_eq_some_iff.1 hothers
  cases heq
  exact ⟨first, later, others, hfirst, hwalk, rfl, rfl⟩

theorem forall_walkAll {P : Site → Prop} {next : Nat → Nat → Option (List Site)}
    (h : ∀ id ref sites, next id ref = some sites → ∀ site ∈ sites, P site) {refs heads : List Nat}
    {sites : List Site} (hwalk : walkAll next id refs = some (heads, sites)) : ∀ site ∈ sites, P site := by
  induction refs generalizing id heads sites with
  | nil =>
    cases hwalk
    exact List.forall_mem_nil _
  | cons ref rest ih =>
    obtain ⟨first, later, others, hfirst, hothers, -, rfl⟩ := walkAll_cons_eq_some hwalk
    exact List.forall_mem_append.2 ⟨h id ref first hfirst, ih hothers⟩

theorem links_of_walk {sites : List Site} (h : walk links depth parent id ref = some sites) :
    ∀ site ∈ sites, (links site.ref).isSome := by
  induction depth generalizing parent id ref sites with
  | zero => cases h
  | succ depth ih =>
    obtain ⟨refs, heads, below, hrefs, hbelow, rfl⟩ := walk_eq_some h
    refine List.forall_mem_cons.2 ⟨?_, forall_walkAll (fun _ _ _ => ih) hbelow⟩
    rw [hrefs]
    rfl

theorem map_id_walkAll {next : Nat → Nat → Option (List Site)}
    (h : ∀ id ref sites, next id ref = some sites → sites.map Site.id = List.range' id sites.length)
    {refs heads : List Nat} {sites : List Site} (hwalk : walkAll next id refs = some (heads, sites)) :
    sites.map Site.id = List.range' id sites.length := by
  induction refs generalizing id heads sites with
  | nil =>
    cases hwalk
    rfl
  | cons ref rest ih =>
    obtain ⟨first, later, others, hfirst, hothers, -, rfl⟩ := walkAll_cons_eq_some hwalk
    rw [List.map_append, h id ref first hfirst, ih hothers, List.length_append, List.range'_append_1]

theorem map_id_walk {sites : List Site} (h : walk links depth parent id ref = some sites) :
    sites.map Site.id = List.range' id sites.length := by
  induction depth generalizing parent id ref sites with
  | zero => cases h
  | succ depth ih =>
    obtain ⟨refs, heads, below, -, hbelow, rfl⟩ := walk_eq_some h
    rw [List.map_cons, map_id_walkAll (fun _ _ _ => ih) hbelow, List.length_cons, List.range'_succ]

end Site

namespace Dom

def planted (dom : Dom) (node : Node) : dom.Face :=
  if node.text.isSome then dom.write (.content "") (dom.faceOf (tagOf node.kind) node)
  else dom.faceOf (tagOf node.kind) node

end Dom

theorem List.modify_append_of_lt {α : Type} {i : Nat} {xs : List α} (h : i < xs.length) (ys : List α)
    (f : α → α) : (xs ++ ys).modify i f = xs.modify i f ++ ys := by
  induction xs generalizing i with
  | nil => simp at h
  | cons x xs ih =>
    cases i with
    | zero => rfl
    | succ i => simpa using ih (Nat.lt_of_succ_lt_succ h)

theorem List.modify_concat {α : Type} (xs : List α) (x : α) (f : α → α) :
    (xs ++ [x]).modify xs.length f = xs ++ [f x] := by
  induction xs with
  | nil => rfl
  | cons head rest ih => simpa using ih

namespace Page

variable {dom : Dom}

def ownText (page : Page dom) (node : Node) : Option Nat :=
  if node.text.isSome then some page.texts.length else none

def plantedElement (page : Page dom) (node : Node) (site : Site) (listeners : List Listener) :
    Element dom.Face where
  face := dom.planted node
  parent := site.parent
  children := (page.ownText node).toList.map .text ++ site.children.map .element
  listeners := listeners

def plant (page : Page dom) (node : Node) (site : Site) (listeners : List Listener) : Page dom :=
  { page with
    elements := page.elements ++ [page.plantedElement node site listeners]
    texts := page.texts ++ (page.ownText node).toList.map fun _ => ⟨"", some page.elements.length⟩
    elementTable := (site.ref, page.elements.length) :: page.elementTable
    textTable := (page.ownText node).toList.map (fun own => (site.ref, own)) ++ page.textTable }

def awaited (page : Page dom) (node : Node) : List Listener :=
  if page.listening then
    (Element.signalsOf node (page.plantedElement node ⟨0, 0, none, []⟩ [])).map (Listener.mk · node.ref)
  else []

def sprout (tree : Tree) (page : Page dom) (site : Site) : Page dom :=
  match tree.nodes[site.ref]? with
  | none => page
  | some node => page.plant node site (page.awaited node)

def grow (tree : Tree) (page : Page dom) (sites : List Site) : Page dom := sites.foldl (sprout tree) page

def adopt (ids : List Nat) (el : Element dom.Face) : Element dom.Face :=
  { el with children := el.children ++ ids.map .element }

section Planting

variable {page : Page dom} {node : Node} {site : Site} {listeners : List Listener} {tree : Tree}

theorem modify_plant_last (f : Element dom.Face → Element dom.Face) :
    (page.plant node site listeners).modify page.elements.length f =
      { page.plant node site listeners with
        elements := page.elements ++ [f (page.plantedElement node site listeners)] } := by
  simp only [modify, plant, List.modify_concat]

theorem adopt_plant (ids : List Nat) :
    (page.plant node site listeners).modify page.elements.length (adopt ids) =
      page.plant node { site with children := site.children ++ ids } listeners := by
  rw [modify_plant_last]
  simp only [adopt, plant, plantedElement, List.map_append, List.append_assoc]

theorem move_plant (parent : Option Nat) :
    (page.plant node site listeners).modify page.elements.length (fun el => { el with parent }) =
      page.plant node { site with parent } listeners := modify_plant_last _

theorem attend_plant (more : List Listener) :
    (page.plant node site listeners).modify page.elements.length
        (fun el => { el with listeners := el.listeners ++ more }) =
      page.plant node site (listeners ++ more) := modify_plant_last _

theorem modify_plant {i : Nat} (hi : i < page.elements.length) (f : Element dom.Face → Element dom.Face) :
    (page.plant node site listeners).modify i f = (page.modify i f).plant node site listeners := by
  simp only [modify, plant, ownText, plantedElement, List.length_modify, List.modify_append_of_lt hi]

theorem enroll_eq {tag : String} (htag : Dom.tagOf? node.kind = some tag) (ref : Nat) :
    page.enroll tag ref node = page.plant node ⟨ref, page.elements.length, none, []⟩ [] := by
  obtain rfl : Dom.tagOf node.kind = tag := by
    rw [Dom.tagOf?] at htag
    split at htag
    · cases htag
    · exact Option.some.inj htag
  cases htext : node.text with
  | none => simp [enroll, plant, plantedElement, ownText, Dom.planted, htext]
  | some s =>
    simp [enroll, plant, plantedElement, ownText, Dom.planted, htext, addText, refill, modify, contentOf, dataOf?,
      List.modify_concat, String.join]

theorem sprout_eq (hnode : tree.nodes[site.ref]? = some node) :
    page.sprout tree site = page.plant node site (page.awaited node) := by
  rw [sprout, hnode]

end Planting

section Growing

variable {tree : Tree} {page : Page dom} {sites : List Site}

theorem modify_sprout {i : Nat} (hi : i < page.elements.length) (site : Site)
    (f : Element dom.Face → Element dom.Face) :
    (page.sprout tree site).modify i f = (page.modify i f).sprout tree site := by
  rw [sprout, sprout]
  cases tree.nodes[site.ref]? with
  | none => rfl
  | some node => exact modify_plant hi f

theorem length_sprout (page : Page dom) (site : Site) (h : (tree.links site.ref).isSome) :
    (page.sprout tree site).elements.length = page.elements.length + 1 := by
  obtain ⟨refs, hrefs⟩ := Option.isSome_iff_exists.1 h
  obtain ⟨node, hnode, -⟩ := Option.bind_eq_some_iff.1 hrefs
  rw [sprout_eq hnode, plant, List.length_append, List.length_singleton]

theorem length_grow (h : ∀ site ∈ sites, (tree.links site.ref).isSome) :
    (page.grow tree sites).elements.length = page.elements.length + sites.length := by
  induction sites generalizing page with
  | nil => rfl
  | cons site rest ih =>
    obtain ⟨hsite, hrest⟩ := List.forall_mem_cons.1 h
    rw [grow, List.foldl_cons, ← grow, ih hrest, length_sprout page site hsite, List.length_cons]
    omega

theorem modify_grow {i : Nat} (hi : i < page.elements.length) (sites : List Site)
    (f : Element dom.Face → Element dom.Face) :
    (page.grow tree sites).modify i f = (page.modify i f).grow tree sites := by
  induction sites generalizing page with
  | nil => rfl
  | cons site rest ih =>
    have hlength : i < (page.sprout tree site).elements.length := by
      rw [sprout]
      split
      · exact hi
      · rw [plant, List.length_append]
        omega
    rw [grow, List.foldl_cons, ← grow, ih hlength, modify_sprout hi site f]
    rfl

def registered (page : Page dom) (registrations : List (Nat × Listener)) : Page dom :=
  { page with registrations }

theorem grow_registered (page : Page dom) (registrations : List (Nat × Listener)) (sites : List Site) :
    (page.registered registrations).grow tree sites = (page.grow tree sites).registered registrations := by
  induction sites generalizing page with
  | nil => rfl
  | cons site rest ih =>
    have hstep : (page.registered registrations).sprout tree site =
        (page.sprout tree site).registered registrations := by
      rw [sprout, sprout]
      split <;> rfl
    rw [grow, List.foldl_cons, hstep, ← grow, ih]
    rfl

theorem getElem?_sprout {i : Nat} (hi : i < page.elements.length) (site : Site) :
    (page.sprout tree site).elements[i]? = page.elements[i]? := by
  rw [sprout]
  split
  · rfl
  · exact List.getElem?_append_left hi

theorem le_length_sprout (page : Page dom) (site : Site) :
    page.elements.length ≤ (page.sprout tree site).elements.length := by
  rw [sprout]
  split
  · exact Nat.le_refl _
  · rw [plant, List.length_append]
    exact Nat.le_add_right _ _

theorem getElem?_grow {i : Nat} (hi : i < page.elements.length) (sites : List Site) :
    (page.grow tree sites).elements[i]? = page.elements[i]? := by
  induction sites generalizing page with
  | nil => rfl
  | cons site rest ih =>
    have hlength : i < (page.sprout tree site).elements.length := Nat.lt_of_lt_of_le hi (page.le_length_sprout site)
    exact (ih hlength).trans (getElem?_sprout hi site)

theorem listening_grow (page : Page dom) (sites : List Site) :
    (page.grow tree sites).listening = page.listening := by
  induction sites generalizing page with
  | nil => rfl
  | cons site rest ih =>
    refine (ih _).trans ?_
    rw [sprout]
    split <;> rfl

end Growing

section Wiring

theorem modify_listeners_nil (page : Page dom) (i : Nat) :
    (page.modify i fun el => { el with listeners := el.listeners ++ [] }) = page := by
  have hsame : (fun el : Element dom.Face => { el with listeners := el.listeners ++ [] }) = id :=
    funext fun el => by rw [List.append_nil]; rfl
  rw [hsame, modify, List.modify_id]

theorem foldl_listen (page : Page dom) (id ref : Nat) (signals : List Signal) :
    signals.foldl (fun page signal => page.listen id ⟨signal, ref⟩) page =
      (page.modify id fun el => { el with listeners := el.listeners ++ signals.map (Listener.mk · ref) }).registered
        (page.registrations ++ signals.map fun signal => (id, ⟨signal, ref⟩)) := by
  induction signals generalizing page with
  | nil =>
    rw [List.map_nil, List.map_nil, List.append_nil, modify_listeners_nil]
    rfl
  | cons signal rest ih =>
    rw [List.foldl_cons, ih]
    simp [registered, modify, listen, List.modify_modify_eq, Function.comp_def]

theorem wire_eq {page : Page dom} {id : Nat} {el : Element dom.Face} {node : Node} {listeners : List Listener}
    (hel : page.elements[id]? = some el)
    (hlisteners : (if page.listening then (Element.signalsOf node el).map (Listener.mk · node.ref) else []) =
      listeners) :
    ∃ registrations, page.wire id node =
      (page.modify id fun el => { el with listeners := el.listeners ++ listeners }).registered registrations := by
  subst hlisteners
  rw [wire, hel, Option.map_some, Option.getD_some]
  split
  · exact ⟨_, foldl_listen page id node.ref _⟩
  · exact ⟨page.registrations, by rw [modify_listeners_nil]; rfl⟩

end Wiring

section Building

variable {tree : Tree}

theorem grow_append (page : Page dom) (first others : List Site) :
    page.grow tree (first ++ others) = (page.grow tree first).grow tree others := List.foldl_append

theorem adopt_nil : (adopt [] : Element dom.Face → Element dom.Face) = id :=
  funext fun el => by rw [adopt, List.map_nil, List.append_nil]; rfl

theorem modify_adopt (page : Page dom) (i : Nat) (ids more : List Nat) :
    (page.modify i (adopt ids)).modify i (adopt more) = page.modify i (adopt (ids ++ more)) := by
  have hboth : (adopt more ∘ adopt ids : Element dom.Face → Element dom.Face) = adopt (ids ++ more) :=
    funext fun el => by simp [adopt]
  simp only [modify, List.modify_modify_eq, hboth]

theorem move_sprout (page : Page dom) (site : Site) :
    (page.sprout tree site.detached).modify page.elements.length (fun el => { el with parent := site.parent }) =
      page.sprout tree site := by
  rw [sprout, sprout, Site.detached]
  cases tree.nodes[site.ref]? with
  | none => simp only [modify, List.modify_eq_self (Nat.le_refl _)]
  | some node => exact move_plant site.parent

theorem append_grow {page : Page dom} {parent : Nat} {root : Site} (below : List Site)
    (hparent : parent < page.elements.length) (hroot : root.parent = some parent)
    (hlinks : (tree.links root.ref).isSome) :
    (page.grow tree (root.detached :: below)).append parent page.elements.length =
      (page.modify parent (adopt [page.elements.length])).grow tree (root :: below) := by
  let taken := page.modify parent (adopt [page.elements.length])
  have hlength : taken.elements.length = page.elements.length := List.length_modify _ _ _
  have hyoung : page.elements.length < (taken.sprout tree root.detached).elements.length := by
    rw [length_sprout taken root.detached hlinks, hlength]
    exact Nat.lt_succ_self _
  calc (page.grow tree (root.detached :: below)).append parent page.elements.length
      = ((page.grow tree (root.detached :: below)).modify parent (adopt [page.elements.length])).modify
          page.elements.length fun el => { el with parent := some parent } := rfl
    _ = ((taken.sprout tree root.detached).grow tree below).modify page.elements.length
          fun el => { el with parent := some parent } := by
        rw [modify_grow hparent]
        rfl
    _ = ((taken.sprout tree root.detached).modify taken.elements.length
          fun el => { el with parent := root.parent }).grow tree below := by
        rw [modify_grow hyoung, hlength, hroot]
    _ = taken.grow tree (root :: below) := by
        rw [move_sprout]
        rfl

/-- A walk from the next number on tells what a build adds. -/
def Builds (tree : Tree) (dom : Dom) (depth : Nat) : Prop :=
  ∀ (page : Page dom) (ref : Nat) (parent : Option Nat) (sites : List Site),
    Site.walk tree.links depth parent page.elements.length ref = some sites →
      ∃ root rest registrations, sites = root :: rest ∧ root.parent = parent ∧
        build tree depth ref page = (.ok page.elements.length,
          (page.grow tree (root.detached :: rest)).registered registrations)

theorem appendAll_eq {depth : Nat} (hbuild : Builds tree dom depth) {parent : Nat} {page : Page dom}
    {refs heads : List Nat} {sites : List Site} (hparent : parent < page.elements.length)
    (hwalk : Site.walkAll (Site.walk tree.links depth (some parent)) page.elements.length refs =
      some (heads, sites)) :
    ∃ registrations, appendAll (build tree depth) parent refs page =
      (.ok (), ((page.modify parent (adopt heads)).grow tree sites).registered registrations) := by
  induction refs generalizing page heads sites with
  | nil =>
    cases hwalk
    refine ⟨page.registrations, ?_⟩
    rw [adopt_nil, modify, List.modify_id]
    rfl
  | cons ref rest ih =>
    obtain ⟨first, later, others, hfirst, hothers, rfl, rfl⟩ := Site.walkAll_cons_eq_some hwalk
    have hlinks := Site.links_of_walk hfirst
    obtain ⟨root, below, registrations, rfl, hroot, hbuilt⟩ := hbuild page ref (some parent) first hfirst
    -- The parent takes in the first child before its later ones are built.
    let taken := page.modify parent (adopt [page.elements.length])
    let next := (taken.grow tree (root :: below)).registered registrations
    have htaken : taken.elements.length = page.elements.length := List.length_modify _ _ _
    have hlength : next.elements.length = page.elements.length + (root :: below).length :=
      (length_grow hlinks).trans (by rw [htaken])
    have happend : ((page.grow tree (root.detached :: below)).registered registrations).append parent
        page.elements.length = next :=
      congrArg (registered · registrations) (append_grow below hparent hroot (hlinks root List.mem_cons_self))
    have hbelow : parent < next.elements.length := by omega
    rw [← hlength] at hothers
    obtain ⟨final, hfinal⟩ := ih hbelow hothers
    refine ⟨final, ?_⟩
    rw [appendAll, hbuilt]
    dsimp only
    rw [happend, hfinal]
    -- Later children are appended to an element that is older than all that was added meanwhile.
    have hgrown : next.modify parent (adopt later) =
        ((page.modify parent (adopt (page.elements.length :: later))).grow tree (root :: below)).registered
          registrations := by
      have htogether := modify_adopt page parent [page.elements.length] later
      have hlate : (taken.grow tree (root :: below)).modify parent (adopt later) =
          (taken.modify parent (adopt later)).grow tree (root :: below) :=
        modify_grow (htaken ▸ hparent) (root :: below) (adopt later)
      rw [htogether] at hlate
      exact congrArg (registered · registrations) hlate
    rw [hgrown, grow_registered, ← grow_append]
    rfl

theorem wire_grow (tree : Tree) (page : Page dom) (node : Node) (site : Site) (below : List Site)
    (registrations : List (Nat × Listener)) :
    ∃ wired, (((page.plant node site []).grow tree below).registered registrations).wire page.elements.length
        node = ((page.plant node site (page.awaited node)).grow tree below).registered wired := by
  have hyoung : page.elements.length < (page.plant node site []).elements.length := by
    rw [plant, List.length_append]
    exact Nat.lt_succ_self _
  have hel : ((page.plant node site []).grow tree below).elements[page.elements.length]? =
      some (page.plantedElement node site []) :=
    (getElem?_grow hyoung below).trans List.getElem?_concat_length
  have hlistening : ((page.plant node site []).grow tree below).listening = page.listening :=
    listening_grow _ below
  let grown := ((page.plant node site []).grow tree below).registered registrations
  have hlisteners : (if grown.listening then
      (Element.signalsOf node (page.plantedElement node site [])).map (Listener.mk · node.ref) else []) =
      page.awaited node := by
    rw [awaited, ← hlistening]
    rfl
  have hgrown : grown.elements[page.elements.length]? = some (page.plantedElement node site []) := hel
  obtain ⟨wired, hwired⟩ := wire_eq hgrown hlisteners
  have hattend : ((page.plant node site []).grow tree below).modify page.elements.length _ = _ :=
    modify_grow hyoung below fun el => { el with listeners := el.listeners ++ page.awaited node }
  rw [attend_plant, List.nil_append] at hattend
  have hwhole := congrArg (registered · wired) hattend
  exact ⟨wired, hwired.trans hwhole⟩

/-- What a build does if every node under its own has a tag and is there. -/
theorem builds (tree : Tree) (dom : Dom) (depth : Nat) : Builds tree dom depth := by
  induction depth with
  | zero =>
    intro page ref parent sites hwalk
    cases hwalk
  | succ depth ih =>
    intro page ref parent sites hwalk
    obtain ⟨refs, heads, below, hlinks, hbelow, rfl⟩ := Site.walk_eq_some hwalk
    obtain ⟨node, hnode, htags⟩ := Option.bind_eq_some_iff.1 hlinks
    obtain ⟨tag, htag, rfl⟩ := Option.map_eq_some_iff.1 htags
    let bare := page.plant node ⟨ref, page.elements.length, none, []⟩ []
    have hlength : bare.elements.length = page.elements.length + 1 := List.length_append
    have hyoung : page.elements.length < bare.elements.length := by omega
    rw [← hlength] at hbelow
    obtain ⟨registrations, happend⟩ := appendAll_eq ih hyoung hbelow
    obtain ⟨wired, hwire⟩ := wire_grow tree page node ⟨ref, page.elements.length, none, heads⟩ below registrations
    refine ⟨_, below, wired, rfl, rfl, ?_⟩
    rw [build, hnode]
    dsimp only
    rw [htag]
    dsimp only
    rw [enroll_eq htag, happend]
    dsimp only
    have hplant : page.sprout tree ⟨ref, page.elements.length, none, heads⟩ =
        page.plant node ⟨ref, page.elements.length, none, heads⟩ (page.awaited node) := sprout_eq hnode
    rw [adopt_plant, List.nil_append, hwire, ← hplant]
    rfl

theorem appendAll_error {depth : Nat} (hfails : ∀ (page : Page dom) (ref : Nat) (parent : Option Nat),
      Site.walk tree.links depth parent page.elements.length ref = none →
        ∃ failure later, build tree depth ref page = (.error failure, later))
    {parent : Nat} {page : Page dom} {refs : List Nat} (hparent : parent < page.elements.length)
    (hwalk : Site.walkAll (Site.walk tree.links depth (some parent)) page.elements.length refs = none) :
    ∃ failure later, appendAll (build tree depth) parent refs page = (.error failure, later) := by
  induction refs generalizing page with
  | nil => cases hwalk
  | cons ref rest ih =>
    cases hfirst : Site.walk tree.links depth (some parent) page.elements.length ref with
    | none =>
      obtain ⟨failure, later, hbuilt⟩ := hfails page ref (some parent) hfirst
      exact ⟨failure, later, by rw [appendAll, hbuilt]⟩
    | some first =>
      rw [Site.walkAll, hfirst, Option.bind_some, Option.map_eq_none_iff] at hwalk
      obtain ⟨root, below, registrations, rfl, -, hbuilt⟩ :=
        builds tree dom depth page ref (some parent) first hfirst
      have hlinks : ∀ site ∈ root.detached :: below, (tree.links site.ref).isSome :=
        List.forall_mem_cons.2 (List.forall_mem_cons.1 (Site.links_of_walk hfirst))
      let next := ((page.grow tree (root.detached :: below)).registered registrations).append parent
        page.elements.length
      have hlength : next.elements.length = page.elements.length + (root :: below).length := by
        refine (List.length_modify _ _ _).trans ((List.length_modify _ _ _).trans ?_)
        exact length_grow hlinks
      have hyoung : parent < next.elements.length := by omega
      rw [← hlength] at hwalk
      obtain ⟨failure, later, hlater⟩ := ih hyoung hwalk
      refine ⟨failure, later, ?_⟩
      rw [appendAll, hbuilt]
      exact hlater

theorem build_error {depth : Nat} (page : Page dom) (ref : Nat) (parent : Option Nat)
    (hwalk : Site.walk tree.links depth parent page.elements.length ref = none) :
    ∃ failure later, build tree depth ref page = (.error failure, later) := by
  induction depth generalizing page ref parent with
  | zero => exact ⟨_, _, rfl⟩
  | succ depth ih =>
    rw [build]
    cases hnode : tree.nodes[ref]? with
    | none => exact ⟨_, _, rfl⟩
    | some node =>
      dsimp only
      cases htag : Dom.tagOf? node.kind with
      | none => exact ⟨_, _, rfl⟩
      | some tag =>
        have hlinks : tree.links ref = some node.children := by
          rw [Tree.links, hnode, Option.bind_some, htag, Option.map_some]
        rw [Site.walk, hlinks, Option.bind_some, Option.map_eq_none_iff] at hwalk
        let bare := page.plant node ⟨ref, page.elements.length, none, []⟩ []
        have hlength : bare.elements.length = page.elements.length + 1 := List.length_append
        have hyoung : page.elements.length < bare.elements.length := by omega
        rw [← hlength] at hwalk
        obtain ⟨failure, later, happend⟩ := appendAll_error ih hyoung hwalk
        refine ⟨failure, later, ?_⟩
        dsimp only
        rw [enroll_eq htag, happend]

end Building

end Page

end ReactiveView
