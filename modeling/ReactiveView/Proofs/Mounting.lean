import ReactiveView.Proofs.Planting

namespace ReactiveView

def Tree.sites (tree : Tree) (base : Nat) : Option (List Site) :=
  if tree.nodes.isEmpty then some [] else Site.walk tree.links tree.nodes.length none base 0

theorem Tree.map_id_sites {tree : Tree} {base : Nat} {sites : List Site} (h : tree.sites base = some sites) :
    sites.map Site.id = List.range' base sites.length := by
  rw [Tree.sites] at h
  split at h
  · cases h
    rfl
  · exact Site.map_id_walk h

theorem Tree.links_sites {tree : Tree} {base : Nat} {sites : List Site} (h : tree.sites base = some sites) :
    ∀ site ∈ sites, (tree.links site.ref).isSome := by
  rw [Tree.sites] at h
  split at h
  · cases h
    exact List.forall_mem_nil _
  · exact Site.links_of_walk h

namespace Page

variable {dom : Dom} {page : Page dom} {tree : Tree} {sites : List Site}

@[simp]
theorem length_foldl_unregister (registrations : List (Nat × Listener)) (elements : List (Element dom.Face)) :
    (registrations.foldl unregister elements).length = elements.length := by
  induction registrations generalizing elements with
  | nil => rfl
  | cons registration rest ih => exact (ih _).trans (List.length_modify _ _ _)

@[simp]
theorem length_destroy (page : Page dom) : page.destroy.elements.length = page.elements.length :=
  length_foldl_unregister page.registrations page.elements

/-- Page of a mount before its patches: nothing of earlier mounts is kept but elements that are out of use. -/
def mounted (page : Page dom) (tree : Tree) (sites : List Site) : Page dom :=
  { page.destroy.grow tree sites with container := (sites.head?.map Site.id).toList }

theorem container_grow (page : Page dom) (sites : List Site) :
    (page.grow tree sites).container = page.container := by
  induction sites generalizing page with
  | nil => rfl
  | cons site rest ih =>
    refine (ih _).trans ?_
    rw [sprout]
    split <;> rfl

theorem mount_eq (hsites : tree.sites page.elements.length = some sites) (patches : List Patch) :
    ∃ registrations, page.mount tree patches =
      (.ok (), ((page.mounted tree sites).registered registrations).apply patches) := by
  rw [mount, buildRoot]
  by_cases hempty : tree.nodes.isEmpty
  · rw [Tree.sites, if_pos hempty] at hsites
    cases hsites
    rw [if_pos hempty]
    exact ⟨page.destroy.registrations, rfl⟩
  · rw [Tree.sites, if_neg hempty, ← length_destroy] at hsites
    obtain ⟨root, below, registrations, rfl, hroot, hbuilt⟩ := builds tree dom _ _ 0 none sites hsites
    have hid : root.id = page.destroy.elements.length := (List.cons.inj (Site.map_id_walk hsites)).1
    have hdetached : root.detached = root := by rw [Site.detached, ← hroot]
    rw [if_neg hempty, hbuilt, hdetached]
    have hcontainer : (page.destroy.grow tree (root :: below)).container = [] := container_grow _ _
    refine ⟨registrations, ?_⟩
    dsimp only [registered, mounted]
    rw [hcontainer, List.nil_append, List.head?_cons, Option.map_some, hid]
    rfl

theorem sites_isSome_of_mount {patches : List Patch} (h : (page.mount tree patches).1 = .ok ()) :
    (tree.sites page.elements.length).isSome := by
  rw [Option.isSome_iff_ne_none]
  intro hnone
  rw [Tree.sites] at hnone
  split at hnone
  · cases hnone
  · rename_i hempty
    rw [← length_destroy] at hnone
    obtain ⟨failure, later, hbuilt⟩ := build_error page.destroy 0 none hnone
    rw [mount, buildRoot, if_neg hempty, hbuilt] at h
    cases h

/-- The element of a node is on a page as it was built, with a text of its own if the node has one. -/
structure Planted (page : Page dom) (site : Site) (node : Node) (own? : Option Nat) : Prop where
  own : own?.isSome = node.text.isSome
  element : page.elements[site.id]? = some
    ⟨dom.planted node, site.parent, own?.toList.map .text ++ site.children.map .element, page.awaited node⟩
  text : ∀ own ∈ own?, page.texts[own]? = some ⟨"", some site.id⟩

theorem awaited_congr {later : Page dom} (h : later.listening = page.listening) (node : Node) :
    later.awaited node = page.awaited node := by
  rw [awaited, awaited, h]
  rfl

theorem getElem?_texts_sprout {i : Nat} (hi : i < page.texts.length) (site : Site) :
    (page.sprout tree site).texts[i]? = page.texts[i]? := by
  rw [sprout]
  split
  · rfl
  · exact List.getElem?_append_left hi

theorem Planted.sprout {site : Site} {node : Node} {own? : Option Nat} (h : page.Planted site node own?)
    (other : Site) : (page.sprout tree other).Planted site node own? where
  own := h.own
  element := by
    have hlistening : (page.sprout tree other).listening = page.listening := listening_grow page [other]
    rw [getElem?_sprout (List.getElem?_eq_some_iff.1 h.element).1, awaited_congr hlistening]
    exact h.element
  text own hown := by
    rw [getElem?_texts_sprout (List.getElem?_eq_some_iff.1 (h.text own hown)).1]
    exact h.text own hown

theorem Planted.grow {site : Site} {node : Node} {own? : Option Nat} (h : page.Planted site node own?)
    (sites : List Site) : (page.grow tree sites).Planted site node own? := by
  induction sites generalizing page with
  | nil => exact h
  | cons other rest ih => exact ih (h.sprout other)

theorem planted_sprout {site : Site} {node : Node} (hid : site.id = page.elements.length)
    (hnode : tree.nodes[site.ref]? = some node) :
    (page.sprout tree site).Planted site node (page.ownText node) := by
  rw [sprout_eq hnode]
  refine ⟨?_, ?_, fun own hown => ?_⟩
  · rw [ownText]
    cases node.text <;> rfl
  · rw [hid]
    exact List.getElem?_concat_length
  · rw [ownText] at hown
    cases htext : node.text with
    | none => simp [htext] at hown
    | some s =>
      obtain rfl : page.texts.length = own := by simpa [htext] using hown
      simp [plant, ownText, htext, hid]

theorem lookup_textTable_sprout {ref : Nat} {site : Site} (h : ref ≠ site.ref) :
    (page.sprout tree site).textTable.lookup ref = page.textTable.lookup ref := by
  rw [Page.sprout]
  split
  · rfl
  · rename_i node hnode
    rw [plant, ownText]
    split
    · simp [List.lookup_cons, beq_eq_false_iff_ne.2 h]
    · rfl

theorem lookup_textTable_grow {ref : Nat} (h : ref ∉ sites.map Site.ref) :
    (page.grow tree sites).textTable.lookup ref = page.textTable.lookup ref := by
  induction sites generalizing page with
  | nil => rfl
  | cons site rest ih =>
    simp only [List.map_cons, List.mem_cons, not_or] at h
    exact (ih h.2).trans (lookup_textTable_sprout h.1)

theorem lookup_elementTable_grow {ref : Nat} (h : ref ∉ sites.map Site.ref) :
    (page.grow tree sites).elementTable.lookup ref = page.elementTable.lookup ref := by
  induction sites generalizing page with
  | nil => rfl
  | cons site rest ih =>
    simp only [List.map_cons, List.mem_cons, not_or] at h
    refine (ih h.2).trans ?_
    rw [Page.sprout]
    split
    · rfl
    · simp [plant, List.lookup_cons, beq_eq_false_iff_ne.2 h.1]

theorem lookup_elementTable_sprout {site : Site} {node : Node} (hid : site.id = page.elements.length)
    (hnode : tree.nodes[site.ref]? = some node) :
    (page.sprout tree site).elementTable.lookup site.ref = some site.id := by
  rw [sprout_eq hnode, hid]
  exact List.lookup_cons_self

theorem lookup_own_sprout {site : Site} {node : Node} (hnode : tree.nodes[site.ref]? = some node)
    (hnone : page.textTable.lookup site.ref = none) :
    (page.sprout tree site).textTable.lookup site.ref = page.ownText node := by
  rw [sprout_eq hnode, plant, ownText]
  split
  · exact List.lookup_cons_self
  · exact hnone

theorem exists_planted (hids : sites.map Site.id = List.range' page.elements.length sites.length)
    (hlinks : ∀ site ∈ sites, (tree.links site.ref).isSome) {site : Site} (hsite : site ∈ sites) {node : Node}
    (hnode : tree.nodes[site.ref]? = some node) :
    ∃ own?, (page.grow tree sites).Planted site node own? ∧ ((sites.map Site.ref).Nodup →
      (page.grow tree sites).elementTable.lookup site.ref = some site.id ∧
        ((∀ other ∈ sites, page.textTable.lookup other.ref = none) →
          (page.grow tree sites).textTable.lookup site.ref = own?)) := by
  induction sites generalizing page with
  | nil => cases hsite
  | cons first rest ih =>
    rw [List.map_cons, List.length_cons, List.range'_succ, List.cons.injEq] at hids
    obtain ⟨hfirst, hrest⟩ := List.forall_mem_cons.1 hlinks
    rw [List.map_cons, List.nodup_cons]
    rcases List.mem_cons.1 hsite with rfl | hsite
    · have hplanted := planted_sprout hids.1 hnode
      refine ⟨page.ownText node, hplanted.grow rest, fun hnd => ⟨?_, fun hnone => ?_⟩⟩
      · exact (lookup_elementTable_grow hnd.1).trans (lookup_elementTable_sprout hids.1 hnode)
      · exact (lookup_textTable_grow hnd.1).trans (lookup_own_sprout hnode (hnone site List.mem_cons_self))
    · have hlength := length_sprout page first hfirst
      obtain ⟨own?, hplanted, hentered⟩ := ih (hlength ▸ hids.2) hrest hsite
      refine ⟨own?, hplanted, fun hnd => ?_⟩
      obtain ⟨helement, htext⟩ := hentered hnd.2
      refine ⟨helement, fun hnone => htext fun other hother => ?_⟩
      have hne : other.ref ≠ first.ref := fun he => hnd.1 (he ▸ List.mem_map_of_mem hother)
      exact (lookup_textTable_sprout hne).trans (hnone other (List.mem_cons_of_mem _ hother))

theorem elementTable_grow (hids : sites.map Site.id = List.range' page.elements.length sites.length)
    (hlinks : ∀ site ∈ sites, (tree.links site.ref).isSome) :
    (page.grow tree sites).elementTable =
      (sites.map fun site => (site.ref, site.id)).reverse ++ page.elementTable := by
  induction sites generalizing page with
  | nil => rfl
  | cons site rest ih =>
    rw [List.map_cons, List.length_cons, List.range'_succ, List.cons.injEq] at hids
    obtain ⟨hsite, hrest⟩ := List.forall_mem_cons.1 hlinks
    obtain ⟨refs, hrefs⟩ := Option.isSome_iff_exists.1 hsite
    obtain ⟨node, hnode, -⟩ := Option.bind_eq_some_iff.1 hrefs
    have hlength := length_sprout page site hsite
    have hlater := ih (hlength ▸ hids.2) hrest
    have htable : (page.sprout tree site).elementTable = (site.ref, site.id) :: page.elementTable := by
      rw [sprout_eq hnode, hids.1]
      rfl
    rw [htable] at hlater
    refine hlater.trans ?_
    rw [List.map_cons, List.reverse_cons, List.append_assoc]
    rfl

end Page

end ReactiveView
