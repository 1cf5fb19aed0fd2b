import Mathlib.Tactic.SplitIfs
import ReactiveView.Proofs.Documents
import ReactiveView.Proofs.Evaluation
import ReactiveView.Proofs.Mounting
import ReactiveView.View.Reconcile

namespace ReactiveView

/-- Signals that a node awaits: clicks and changes where it has an action for them, and input where it is bound and
its element is a field other than a checkbox. -/
def Node.Awaits (node : Node) (checkbox : Bool) : Signal → Prop
  | .click => node.handlers.has "on_click" = true
  | .change => node.handlers.has "on_change" = true
  | .input => node.binding.isSome = true ∧ Dom.isFieldTag (Dom.tagOf node.kind) = true ∧ checkbox = false

instance (node : Node) (checkbox : Bool) : DecidablePred (node.Awaits checkbox) := fun signal => by
  cases signal <;> unfold Node.Awaits <;> infer_instance

namespace Page

variable {dom : Dom}

inductive Act where
  | mount (tree : Tree) (patches : List Patch)
  | apply (patches : List Patch)
  | destroy
  | edit (id : Nat) (text : String)

def act (page : Page dom) : Act → Page dom
  | .mount tree patches => (page.mount tree patches).2
  | .apply patches => page.apply patches
  | .destroy => page.destroy
  | .edit id text => page.edit id text

/-- Hold what a page is to show: the number of its first element, and the tree, unless its mount failed. -/
structure Stage where
  base : Nat
  tree? : Option Tree

def stageAfter (page : Page dom) (stage : Stage) : Act → Stage
  | .mount tree patches =>
    ⟨page.elements.length, if (page.mount tree patches).1.isOk then some tree else none⟩
  | .destroy => ⟨page.elements.length, some ⟨[]⟩⟩
  | .apply _ | .edit .. => stage

def runFrom (page : Page dom) (stage : Stage) : List Act → Page dom × Stage
  | [] => (page, stage)
  | act :: rest => runFrom (page.act act) (page.stageAfter stage act) rest

def run (dom : Dom) (acts : List Act) : Page dom × Stage := runFrom (empty dom true) ⟨0, some ⟨[]⟩⟩ acts

section Awaiting

variable {reading : dom.Reading} (hdom : dom.Lawful reading)

include hdom

theorem mem_signalsOf_planted {node : Node} {el : Element dom.Face} (hel : el.face = dom.planted node)
    {signal : Signal} : signal ∈ Element.signalsOf node el ↔ node.Awaits (node.kind == "checkbox") signal := by
  rw [Element.signalsOf, hel, hdom.isField_planted, hdom.isCheckbox_planted]
  cases signal <;> simp [Node.Awaits, and_assoc]

omit hdom in
theorem nodup_signalsOf (node : Node) (el : Element dom.Face) : (Element.signalsOf node el).Nodup := by
  rw [Element.signalsOf]
  split_ifs <;> decide

theorem filter_awaited {page : Page dom} (hlistening : page.listening = true) (node : Node) (signal : Signal) :
    ((page.awaited node).filter fun listener => listener.signal == signal) =
      if node.Awaits (node.kind == "checkbox") signal then [⟨signal, node.ref⟩] else [] := by
  let el := page.plantedElement node ⟨0, 0, none, []⟩ []
  have hmem : signal ∈ Element.signalsOf node el ↔ node.Awaits (node.kind == "checkbox") signal :=
    mem_signalsOf_planted hdom rfl
  rw [awaited, if_pos hlistening, List.filter_map, Function.comp_def, List.filter_beq,
    (nodup_signalsOf node el).count]
  by_cases hawaits : node.Awaits (node.kind == "checkbox") signal
  · rw [if_pos hawaits, if_pos (hmem.2 hawaits)]
    rfl
  · rw [if_neg hawaits, if_neg (mt hmem.1 hawaits)]
    rfl

end Awaiting

structure Patched (page later : Page dom) : Prop where
  listening : later.listening = page.listening
  length : later.elements.length = page.elements.length
  registrations : later.registrations = page.registrations
  table : later.elementTable = page.elementTable
  elements : ∀ (id : Nat) (el : Element dom.Face), later.elements[id]? = some el →
    ∃ before : Element dom.Face, page.elements[id]? = some before ∧ el.listeners = before.listeners ∧
      ∀ parent, el.parent = some parent → before.parent = some parent

namespace Patched

variable {page later last : Page dom}

theorem refl (page : Page dom) : page.Patched page :=
  ⟨rfl, rfl, rfl, rfl, fun _ el hel => ⟨el, hel, rfl, fun _ hparent => hparent⟩⟩

theorem trans (h : page.Patched later) (h' : later.Patched last) : page.Patched last where
  listening := h'.listening.trans h.listening
  length := h'.length.trans h.length
  registrations := h'.registrations.trans h.registrations
  table := h'.table.trans h.table
  elements id el hel := by
    obtain ⟨middle, hmiddle, hlisteners, hparent⟩ := h'.elements id el hel
    obtain ⟨before, hbefore, hbefore', hparent'⟩ := h.elements id middle hmiddle
    exact ⟨before, hbefore, hlisteners.trans hbefore', fun parent he => hparent' parent (hparent parent he)⟩

theorem modify (page : Page dom) (id : Nat) {f : Element dom.Face → Element dom.Face}
    (hlisteners : ∀ el, (f el).listeners = el.listeners)
    (hparent : ∀ el parent, (f el).parent = some parent → el.parent = some parent) :
    page.Patched (page.modify id f) where
  listening := rfl
  length := List.length_modify _ _ _
  registrations := rfl
  table := rfl
  elements other el hel := by
    have hmodify : (page.modify id f).elements[other]? =
        page.elements[other]?.map fun el => if id = other then f el else el := List.getElem?_modify _ _ _ _
    rw [hmodify] at hel
    obtain ⟨before, hbefore, rfl⟩ := Option.map_eq_some_iff.1 hel
    refine ⟨before, hbefore, ?_⟩
    split_ifs
    · exact ⟨hlisteners before, hparent before⟩
    · exact ⟨rfl, fun _ he => he⟩

theorem write (page : Page dom) (id : Nat) (f : dom.Face → dom.Face) : page.Patched (page.write id f) :=
  modify page id (fun _ => rfl) fun _ _ he => he

theorem beside (page : Page dom) (texts : List TextNode) (warnings : List Log.Line) :
    page.Patched { page with texts, warnings } := ⟨rfl, rfl, rfl, rfl, (refl page).elements⟩

theorem refill (page : Page dom) (id : Nat) : page.Patched (page.refill id) :=
  modify page id (fun _ => rfl) fun _ _ he => he

theorem addText (page : Page dom) (id : Nat) (data : String) : page.Patched (page.addText id data) := by
  have hadded := beside page (page.texts ++ [⟨data, some id⟩]) page.warnings
  have hchild := modify { page with texts := page.texts ++ [⟨data, some id⟩] } id
    (f := fun el => { el with children := el.children ++ [.text page.texts.length] })
    (fun _ => rfl) fun _ _ he => he
  exact (hadded.trans hchild).trans (refill _ id)

theorem setData (page : Page dom) (id : Nat) (data : String) : page.Patched (page.setData id data) := by
  have hchanged := beside page (page.texts.modify id fun text => { text with data }) page.warnings
  rw [Page.setData]
  split
  · exact hchanged
  · exact hchanged.trans (refill _ _)

theorem detach (page : Page dom) (child : Child) : page.Patched (page.detach child) := by
  cases child with
  | element id => exact modify page id (fun _ => rfl) fun _ _ he => by cases he
  | text id => exact beside page _ page.warnings

theorem detachAll (page : Page dom) (children : List Child) : page.Patched (children.foldl Page.detach page) := by
  induction children generalizing page with
  | nil => exact refl page
  | cons child rest ih => exact (detach page child).trans (ih _)

theorem setContent (page : Page dom) (id : Nat) (data : String) : page.Patched (page.setContent id data) := by
  have hdetached := detachAll page ((page.elements[id]?.map Element.children).getD [])
  have hempty := modify (((page.elements[id]?.map Element.children).getD []).foldl Page.detach page) id
    (f := fun el => { el with children := [] }) (fun _ => rfl) fun _ _ he => he
  exact (hdetached.trans hempty).trans (addText _ id data)

theorem applyOne (page : Page dom) (patch : Patch) : page.Patched (page.applyOne patch) := by
  rw [Page.applyOne]
  split
  · split
    · rw [Page.setText]
      split
      · exact setData page _ _
      · exact setContent page _ _
    · exact write page _ _
    · exact write page _ _
  · exact beside page page.texts _

theorem apply (page : Page dom) (patches : List Patch) : page.Patched (page.apply patches) := by
  induction patches generalizing page with
  | nil => exact refl page
  | cons patch rest ih => exact (applyOne page patch).trans (ih _)

end Patched

def listenersAt (id : Nat) (registrations : List (Nat × Listener)) : List Listener :=
  registrations.filterMap fun registration => if registration.1 = id then some registration.2 else none

theorem listenersAt_eq_nil {id : Nat} {registrations : List (Nat × Listener)}
    (h : ∀ registration ∈ registrations, registration.1 ≠ id) : listenersAt id registrations = [] := by
  rw [listenersAt, List.filterMap_eq_nil_iff]
  exact fun registration hr => if_neg (h registration hr)

theorem listenersAt_concat (id : Nat) (registrations : List (Nat × Listener)) (registration : Nat × Listener) :
    listenersAt id (registrations ++ [registration]) = listenersAt id registrations ++
      if registration.1 = id then [registration.2] else [] := by
  rw [listenersAt, List.filterMap_append]
  congr 1
  rw [List.filterMap_cons]
  split_ifs <;> rfl

theorem foldl_erase_self (listeners : List Listener) : listeners.foldl List.erase listeners = [] := by
  induction listeners with
  | nil => rfl
  | cons listener rest ih => rw [List.foldl_cons, List.erase_cons_head, ih]

theorem getElem?_foldl_unregister (registrations : List (Nat × Listener)) (elements : List (Element dom.Face))
    (id : Nat) : (registrations.foldl unregister elements)[id]? = elements[id]?.map fun el =>
      { el with listeners := (listenersAt id registrations).foldl List.erase el.listeners } := by
  induction registrations generalizing elements with
  | nil => simp [listenersAt]
  | cons registration rest ih =>
    rw [List.foldl_cons, ih, unregister, List.getElem?_modify]
    by_cases h : registration.1 = id
    · simp [listenersAt, h, Element.unlisten, Function.comp_def]
    · simp [listenersAt, h]

/-- A page that wants events and knows its listeners: each element has those that are registered at it, and only
elements from a base on have any. Elements stand inside earlier ones. -/
structure Orderly (page : Page dom) (base : Nat) : Prop where
  listening : page.listening = true
  recent : ∀ registration ∈ page.registrations, base ≤ registration.1 ∧ registration.1 < page.elements.length
  listeners : ∀ (id : Nat) (el : Element dom.Face), page.elements[id]? = some el →
    el.listeners = listenersAt id page.registrations
  nested : ∀ (id : Nat) (el : Element dom.Face) (parent : Nat), page.elements[id]? = some el →
    el.parent = some parent → parent < id

namespace Orderly

variable {page later : Page dom} {base : Nat}

theorem empty (dom : Dom) : (Page.empty dom true).Orderly 0 :=
  ⟨rfl, by simp [Page.empty], by simp [Page.empty], by simp [Page.empty]⟩

theorem patched (h : page.Orderly base) (hpatched : page.Patched later) : later.Orderly base where
  listening := hpatched.listening.trans h.listening
  recent registration hr := by
    rw [hpatched.registrations] at hr
    rw [hpatched.length]
    exact h.recent registration hr
  listeners id el hel := by
    obtain ⟨before, hbefore, hlisteners, -⟩ := hpatched.elements id el hel
    rw [hlisteners, hpatched.registrations, h.listeners id before hbefore]
  nested id el parent hel hparent := by
    obtain ⟨before, hbefore, -, hsame⟩ := hpatched.elements id el hel
    exact h.nested id before parent hbefore (hsame parent hparent)

theorem enroll (h : page.Orderly base) (tag : String) (ref : Nat) (node : Node) :
    (page.enroll tag ref node).Orderly base := by
  let entered : Page dom := { page with
    elements := page.elements ++ [⟨dom.faceOf tag node, none, [], []⟩]
    elementTable := (ref, page.elements.length) :: page.elementTable }
  have hentered : entered.Orderly base := by
    have hcases (id : Nat) (el : Element dom.Face) (hel : entered.elements[id]? = some el) :
        page.elements[id]? = some el ∨ id = page.elements.length ∧ el = ⟨dom.faceOf tag node, none, [], []⟩ := by
      rw [show entered.elements = page.elements ++ [⟨dom.faceOf tag node, none, [], []⟩] from rfl,
        List.getElem?_append] at hel
      split_ifs at hel with hid
      · exact .inl hel
      · rw [List.getElem?_singleton, Option.ite_none_right_eq_some] at hel
        exact .inr ⟨by omega, (Option.some.inj hel.2).symm⟩
    refine ⟨h.listening, fun registration hr => ?_, fun id el hel => ?_, fun id el parent hel hparent => ?_⟩
    · have hrecent := h.recent registration hr
      refine ⟨hrecent.1, Nat.lt_of_lt_of_le hrecent.2 ?_⟩
      exact Nat.le_of_lt (by simp [entered])
    · rcases hcases id el hel with hbefore | ⟨rfl, rfl⟩
      · exact h.listeners id el hbefore
      · exact (listenersAt_eq_nil fun registration hr => Nat.ne_of_lt (h.recent registration hr).2).symm
    · rcases hcases id el hel with hbefore | ⟨rfl, rfl⟩
      · exact h.nested id el parent hbefore hparent
      · cases hparent
  rw [Page.enroll]
  split
  · have htext : entered.Patched { entered with textTable := (ref, page.texts.length) :: page.textTable } :=
      ⟨rfl, rfl, rfl, rfl, (Patched.refl entered).elements⟩
    exact hentered.patched (htext.trans (Patched.addText _ _ _))
  · exact hentered

theorem append (h : page.Orderly base) {parent id : Nat} (hlt : parent < id) :
    (page.append parent id).Orderly base := by
  have hadopted := h.patched (Patched.modify page parent
    (f := fun el => { el with children := el.children ++ [.element id] }) (fun _ => rfl) fun _ _ he => he)
  have hmodify (other : Nat) : (page.append parent id).elements[other]? =
      (page.modify parent fun el => { el with children := el.children ++ [.element id] }).elements[other]?.map
        fun el => if id = other then { el with parent := some parent } else el := List.getElem?_modify _ _ _ _
  refine ⟨h.listening, fun registration hr => ?_, fun other el hel => ?_, fun other el own hel hown => ?_⟩
  · have hrecent := hadopted.recent registration hr
    exact ⟨hrecent.1, by rw [Page.append, Page.modify, List.length_modify]; exact hrecent.2⟩
  · rw [hmodify] at hel
    obtain ⟨before, hbefore, rfl⟩ := Option.map_eq_some_iff.1 hel
    rw [show (page.append parent id).registrations = page.registrations from rfl]
    have hlisteners := hadopted.listeners other before hbefore
    split <;> exact hlisteners
  · rw [hmodify] at hel
    obtain ⟨before, hbefore, rfl⟩ := Option.map_eq_some_iff.1 hel
    split at hown
    · rename_i heq
      rw [← Option.some.inj hown, ← heq]
      exact hlt
    · exact hadopted.nested other before own hbefore hown

theorem listen (h : page.Orderly base) {id : Nat} (hbase : base ≤ id) (hid : id < page.elements.length)
    (listener : Listener) : (page.listen id listener).Orderly base := by
  have hmodify (other : Nat) : (page.listen id listener).elements[other]? = page.elements[other]?.map
      fun el => if id = other then { el with listeners := el.listeners ++ [listener] } else el :=
    List.getElem?_modify _ _ _ _
  have hlength : (page.listen id listener).elements.length = page.elements.length := List.length_modify _ _ _
  refine ⟨h.listening, fun registration hr => ?_, fun other el hel => ?_, fun other el parent hel hparent => ?_⟩
  · rw [hlength]
    rcases List.mem_append.1 hr with hr | hr
    · exact h.recent registration hr
    · rw [List.mem_singleton.1 hr]
      exact ⟨hbase, hid⟩
  · rw [hmodify] at hel
    obtain ⟨before, hbefore, rfl⟩ := Option.map_eq_some_iff.1 hel
    rw [show (page.listen id listener).registrations = page.registrations ++ [(id, listener)] from rfl,
      listenersAt_concat, ← h.listeners other before hbefore]
    split_ifs
    · rfl
    · exact (List.append_nil _).symm
  · rw [hmodify] at hel
    obtain ⟨before, hbefore, rfl⟩ := Option.map_eq_some_iff.1 hel
    refine h.nested other before parent hbefore ?_
    split at hparent <;> exact hparent

theorem wire (h : page.Orderly base) {id : Nat} (hbase : base ≤ id) (hid : id < page.elements.length) (node : Node) :
    (page.wire id node).Orderly base ∧ (page.wire id node).elements.length = page.elements.length := by
  have hall (signals : List Signal) (start : Page dom) (hstart : start.Orderly base)
      (hlength : start.elements.length = page.elements.length) :
      (signals.foldl (fun page signal => page.listen id ⟨signal, node.ref⟩) start).Orderly base ∧
        (signals.foldl (fun page signal => page.listen id ⟨signal, node.ref⟩) start).elements.length =
          page.elements.length := by
    induction signals generalizing start with
    | nil => exact ⟨hstart, hlength⟩
    | cons signal rest ih =>
      exact ih _ (hstart.listen hbase (hlength ▸ hid) _) ((List.length_modify _ _ _).trans hlength)
  rw [Page.wire]
  split
  · exact hall _ page h rfl
  · exact ⟨h, rfl⟩

def Grows (base : Nat) (page later : Page dom) : Prop :=
  later.Orderly base ∧ page.elements.length ≤ later.elements.length

theorem appendAll {build : Nat → Page dom → Except Failure Nat × Page dom}
    (hbuild : ∀ ref page, page.Orderly base → base ≤ page.elements.length →
      Grows base page (build ref page).2 ∧ ∀ id, (build ref page).1 = .ok id → id = page.elements.length)
    {parent : Nat} (hparent : parent < page.elements.length) (h : page.Orderly base)
    (hbase : base ≤ page.elements.length) (refs : List Nat) :
    Grows base page (Page.appendAll build parent refs page).2 := by
  induction refs generalizing page with
  | nil => exact ⟨h, Nat.le_refl _⟩
  | cons ref rest ih =>
    obtain ⟨⟨hlater, hlength⟩, hid⟩ := hbuild ref page h hbase
    rw [Page.appendAll]
    split
    · rename_i failure later heq
      rw [heq] at hlater hlength
      exact ⟨hlater, hlength⟩
    · rename_i id later heq
      rw [heq] at hlater hlength hid
      obtain rfl := hid id rfl
      dsimp only at hlength
      have happended : (later.append parent page.elements.length).elements.length = later.elements.length :=
        (List.length_modify _ _ _).trans (List.length_modify _ _ _)
      have hyoung : parent < (later.append parent page.elements.length).elements.length := by omega
      obtain ⟨hlast, hgrown⟩ := ih hyoung (hlater.append hparent) (by omega)
      exact ⟨hlast, by omega⟩

theorem length_enroll (page : Page dom) (tag : String) (ref : Nat) (node : Node) :
    (page.enroll tag ref node).elements.length = page.elements.length + 1 := by
  rw [Page.enroll]
  split
  · refine (Patched.addText _ _ _).length.trans ?_
    exact List.length_append
  · exact List.length_append

theorem build (tree : Tree) (depth : Nat) : ∀ ref (page : Page dom), page.Orderly base → base ≤ page.elements.length →
    Grows base page (Page.build tree depth ref page).2 ∧
      ∀ id, (Page.build tree depth ref page).1 = .ok id → id = page.elements.length := by
  induction depth with
  | zero =>
    intro ref page h hbase
    exact ⟨⟨h, Nat.le_refl _⟩, fun id hid => by cases hid⟩
  | succ depth ih =>
    intro ref page h hbase
    rw [Page.build]
    split
    · exact ⟨⟨h, Nat.le_refl _⟩, fun id hid => by cases hid⟩
    · rename_i node hnode
      split
      · exact ⟨⟨h, Nat.le_refl _⟩, fun id hid => by cases hid⟩
      · rename_i tag htag
        -- Elements of the children are younger than that of their parent, which is entered first.
        have hlength := length_enroll page tag ref node
        have hyoung : page.elements.length < (page.enroll tag ref node).elements.length := by omega
        obtain ⟨hbelow, hgrown⟩ := appendAll ih hyoung (h.enroll tag ref node) (by omega) node.children
        dsimp only
        split
        · rename_i failure later heq
          rw [heq] at hbelow hgrown
          dsimp only at hgrown
          exact ⟨⟨hbelow, by dsimp only; omega⟩, fun id hid => by cases hid⟩
        · rename_i later heq
          rw [heq] at hbelow hgrown
          dsimp only at hgrown
          have hin : page.elements.length < later.elements.length := by omega
          obtain ⟨hwired, hsame⟩ := hbelow.wire hbase hin node
          exact ⟨⟨hwired, by dsimp only at hsame ⊢; omega⟩, fun id hid => (Except.ok.inj hid).symm⟩

theorem destroy (h : page.Orderly base) : page.destroy.Orderly page.elements.length ∧
    ∀ (id : Nat) (el : Element dom.Face), page.destroy.elements[id]? = some el → el.listeners = [] := by
  have hcases (id : Nat) (el : Element dom.Face) (hel : page.destroy.elements[id]? = some el) :
      ∃ before : Element dom.Face, page.elements[id]? = some before ∧ el.listeners = [] ∧
        el.parent = before.parent := by
    have hremoved := getElem?_foldl_unregister page.registrations page.elements id
    obtain ⟨before, hbefore, rfl⟩ := Option.map_eq_some_iff.1 (hremoved.symm.trans hel)
    refine ⟨before, hbefore, ?_, rfl⟩
    rw [h.listeners id before hbefore]
    exact foldl_erase_self _
  refine ⟨⟨h.listening, fun registration hr => absurd hr List.not_mem_nil, fun id el hel => ?_,
    fun id el parent hel hparent => ?_⟩, fun id el hel => ?_⟩
  · obtain ⟨-, -, hnone, -⟩ := hcases id el hel
    exact hnone
  · obtain ⟨before, hbefore, -, hsame⟩ := hcases id el hel
    exact h.nested id before parent hbefore (hsame ▸ hparent)
  · obtain ⟨-, -, hnone, -⟩ := hcases id el hel
    exact hnone

theorem mount (h : page.Orderly base) (tree : Tree) (patches : List Patch) :
    (page.mount tree patches).2.Orderly page.elements.length := by
  obtain ⟨hdestroyed, -⟩ := h.destroy
  have hroot : (page.destroy.buildRoot tree).2.Orderly page.elements.length := by
    rw [Page.buildRoot]
    split
    · exact hdestroyed
    · obtain ⟨⟨hbuilt, -⟩, -⟩ :=
        Orderly.build tree tree.nodes.length 0 page.destroy hdestroyed
          (Nat.le_of_eq (length_destroy page).symm)
      split
      · rename_i failure later heq
        rw [heq] at hbuilt
        exact hbuilt
      · rename_i id later heq
        rw [heq] at hbuilt
        exact ⟨hbuilt.listening, hbuilt.recent, hbuilt.listeners, hbuilt.nested⟩
  rw [Page.mount]
  split
  · rename_i failure later heq
    rw [heq] at hroot
    exact hroot
  · rename_i later heq
    rw [heq] at hroot
    exact hroot.patched (Patched.apply later patches)

theorem edit (h : page.Orderly base) (id : Nat) (text : String) : (page.edit id text).Orderly base :=
  h.patched (Patched.write page id _)

end Orderly

structure Shows (page : Page dom) (base : Nat) (tree : Tree) (sites : List Site) : Prop where
  walked : tree.sites base = some sites
  length : page.elements.length = base + sites.length
  table : page.elementTable = (sites.map fun site => (site.ref, site.id)).reverse
  elements : ∀ site ∈ sites, ∃ (node : Node) (el : Element dom.Face), tree.nodes[site.ref]? = some node ∧
    page.elements[site.id]? = some el ∧ el.listeners = page.awaited node

theorem Shows.patched {page later : Page dom} {base : Nat} {tree : Tree} {sites : List Site}
    (h : page.Shows base tree sites) (hpatched : page.Patched later) : later.Shows base tree sites where
  walked := h.walked
  length := hpatched.length.trans h.length
  table := hpatched.table.trans h.table
  elements site hsite := by
    obtain ⟨node, before, hnode, hbefore, hlisteners⟩ := h.elements site hsite
    have hid : site.id < later.elements.length := hpatched.length ▸ (List.getElem?_eq_some_iff.1 hbefore).1
    have hel := List.getElem?_eq_getElem hid
    obtain ⟨own, hown, hsame, -⟩ := hpatched.elements site.id _ hel
    obtain rfl := Option.some.inj (hbefore.symm.trans hown)
    exact ⟨node, _, hnode, hel, by rw [hsame, hlisteners, awaited_congr hpatched.listening]⟩

theorem shows_empty {page : Page dom} (htable : page.elementTable = []) :
    page.Shows page.elements.length ⟨[]⟩ [] := ⟨rfl, rfl, htable, List.forall_mem_nil _⟩

theorem shows_mounted {page : Page dom} {tree : Tree} {sites : List Site}
    (hsites : tree.sites page.elements.length = some sites) :
    (page.mounted tree sites).Shows page.elements.length tree sites := by
  have hids := Tree.map_id_sites hsites
  have hlinks := Tree.links_sites hsites
  rw [← length_destroy page] at hids
  refine ⟨hsites, (length_grow hlinks).trans (by rw [length_destroy]),
    (elementTable_grow hids hlinks).trans (List.append_nil _), fun site hsite => ?_⟩
  obtain ⟨refs, hrefs⟩ := Option.isSome_iff_exists.1 (hlinks site hsite)
  obtain ⟨node, hnode, -⟩ := Option.bind_eq_some_iff.1 hrefs
  obtain ⟨own?, hplanted, -⟩ := exists_planted hids hlinks hsite hnode
  exact ⟨node, _, hnode, hplanted.element, rfl⟩

structure Keeps (page : Page dom) (stage : Stage) : Prop where
  orderly : page.Orderly stage.base
  shows : ∀ tree ∈ stage.tree?, ∃ sites, page.Shows stage.base tree sites

namespace Keeps

variable {page later : Page dom} {stage : Stage}

theorem empty (dom : Dom) : (Page.empty dom true).Keeps ⟨0, some ⟨[]⟩⟩ where
  orderly := Orderly.empty dom
  shows tree htree := by
    obtain rfl := Option.some.inj htree
    exact ⟨[], shows_empty rfl⟩

theorem patched (h : page.Keeps stage) (hpatched : page.Patched later) : later.Keeps stage where
  orderly := h.orderly.patched hpatched
  shows tree htree := (h.shows tree htree).imp fun _ hshows => hshows.patched hpatched

theorem destroy (h : page.Keeps stage) : page.destroy.Keeps ⟨page.elements.length, some ⟨[]⟩⟩ where
  orderly := h.orderly.destroy.1
  shows tree htree := by
    obtain rfl := Option.some.inj htree
    exact ⟨[], length_destroy page ▸ shows_empty rfl⟩

theorem mount (h : page.Keeps stage) (tree : Tree) (patches : List Patch) :
    (page.mount tree patches).2.Keeps (page.stageAfter stage (.mount tree patches)) := by
  refine ⟨h.orderly.mount tree patches, fun shown hshown => ?_⟩
  rw [stageAfter, Option.mem_def, Option.ite_none_right_eq_some] at hshown
  obtain ⟨hok, hsame⟩ := hshown
  obtain rfl := Option.some.inj hsame
  have hsome : (tree.sites page.elements.length).isSome := by
    have hmounted : (page.mount tree patches).1 = .ok () := by
      cases hresult : (page.mount tree patches).1 with
      | error failure =>
        rw [hresult] at hok
        cases hok
      | ok _ => rfl
    exact sites_isSome_of_mount hmounted
  obtain ⟨sites, hsites⟩ := Option.isSome_iff_exists.1 hsome
  obtain ⟨registrations, hmount⟩ := page.mount_eq hsites patches
  have hmounted := shows_mounted hsites
  have hregistered : ((page.mounted tree sites).registered registrations).Shows page.elements.length tree sites :=
    ⟨hmounted.walked, hmounted.length, hmounted.table, hmounted.elements⟩
  rw [hmount]
  exact ⟨sites, hregistered.patched (Patched.apply _ patches)⟩

theorem act (h : page.Keeps stage) (act : Act) : (page.act act).Keeps (page.stageAfter stage act) := by
  cases act with
  | mount tree patches => exact h.mount tree patches
  | apply patches => exact h.patched (Patched.apply page patches)
  | destroy => exact h.destroy
  | edit id text => exact h.patched (Patched.write page id _)

theorem runFrom (h : page.Keeps stage) (acts : List Act) :
    (Page.runFrom page stage acts).1.Keeps (Page.runFrom page stage acts).2 := by
  induction acts generalizing page stage with
  | nil => exact h
  | cons act rest ih => exact ih (h.act act)

end Keeps

section Upward

variable {page : Page dom} {base : Nat} (h : page.Orderly base)

include h

theorem upward_eq {id : Nat} : ∀ {fuel other : Nat}, id < fuel → id < other →
    page.upward fuel id = page.upward other id := by
  induction id using Nat.strongRecOn with
  | ind id ih =>
    intro fuel other hfuel hother
    obtain ⟨fuel, rfl⟩ : ∃ k, fuel = k + 1 := ⟨fuel - 1, by omega⟩
    obtain ⟨other, rfl⟩ : ∃ k, other = k + 1 := ⟨other - 1, by omega⟩
    rw [upward, upward]
    cases hel : page.elements[id]? with
    | none => rfl
    | some el =>
      dsimp only
      cases hparent : el.parent with
      | none => rfl
      | some parent =>
        have hlt := h.nested id el parent hel hparent
        have hsame : page.upward fuel parent = page.upward other parent := ih parent hlt (by omega) (by omega)
        rw [Option.map_some, Option.map_some, hsame]

/-- An event that bubbles calls the listeners of its element first, and then it is as if it had been fired at the
parent. -/
theorem called_eq {id : Nat} {el : Element dom.Face} (hel : page.elements[id]? = some el) (signal : Signal)
    (bubbles : Bool) : page.called id signal bubbles = page.listenersFor signal id ++
      if bubbles then (el.parent.map fun parent => page.called parent signal true).getD [] else [] := by
  have hid := (List.getElem?_eq_some_iff.1 hel).1
  obtain ⟨fuel, hfuel⟩ : ∃ k, page.elements.length = k + 1 := ⟨page.elements.length - 1, by omega⟩
  have hup : page.upward page.elements.length id =
      id :: (el.parent.map (page.upward page.elements.length)).getD [] := by
    rw [hfuel, upward, hel]
    dsimp only
    cases hparent : el.parent with
    | none => rfl
    | some parent =>
      have hlt := h.nested id el parent hel hparent
      -- The way up from the parent needs one step less.
      have hsame : page.upward fuel parent = page.upward (fuel + 1) parent := upward_eq h (by omega) (by omega)
      rw [Option.map_some, Option.map_some, hsame]
  rw [called, reached, hup]
  cases bubbles with
  | false => simp
  | true =>
    cases el.parent with
    | none => simp
    | some parent => simp [called, reached]

end Upward

/-- A page serves what was mounted last. After a mount, its elements are those of the places of the tree, and each
listens, once, for what its node awaits. An event calls the listeners of its element and, if it bubbles, those of the
elements that this one stands in; each of them makes the request of its own node. Elements of earlier mounts call
nobody. -/
structure Serves (page : Page dom) (stage : Stage) : Prop where
  mounted : ∀ tree ∈ stage.tree?, ∃ sites, tree.sites stage.base = some sites ∧
    page.elements.length = stage.base + sites.length ∧
    page.elementTable = (sites.map fun site => (site.ref, site.id)).reverse ∧
    ∀ site ∈ sites, ∃ node, tree.nodes[site.ref]? = some node ∧ ∀ signal, page.listenersFor signal site.id =
      if node.Awaits (node.kind == "checkbox") signal then [(site.id, ⟨signal, node.ref⟩)] else []
  called : ∀ id el, page.elements[id]? = some el → ∀ signal bubbles, page.called id signal bubbles =
    page.listenersFor signal id ++
      if bubbles then (el.parent.map fun parent => page.called parent signal true).getD [] else []
  requested : ∀ id signal, ∀ call ∈ page.listenersFor signal id, ∃ el, page.elements[id]? = some el ∧
    page.requestOf? call = some ⟨.position call.2.ref, eventOf el signal⟩
  idle : ∀ id < stage.base, ∀ signal bubbles, page.called id signal bubbles = []

section Serving

variable {reading : dom.Reading} (hdom : dom.Lawful reading) {page : Page dom} {stage : Stage}

theorem listenersFor_eq {id : Nat} {el : Element dom.Face} (hel : page.elements[id]? = some el) (signal : Signal) :
    page.listenersFor signal id =
      (el.listeners.filter fun listener => listener.signal == signal).map fun listener => (id, listener) := by
  rw [listenersFor, hel]
  rfl

theorem Keeps.idle (h : page.Keeps stage) {id : Nat} : id < stage.base → ∀ signal bubbles,
    page.called id signal bubbles = [] := by
  induction id using Nat.strongRecOn with
  | ind id ih =>
    intro hid signal bubbles
    cases hel : page.elements[id]? with
    | none =>
      have hup : page.upward page.elements.length id = [] := by
        cases page.elements.length with
        | zero => rfl
        | succ fuel => rw [upward, hel]
      rw [called, reached, hup]
      cases bubbles <;> rfl
    | some el =>
      have hnone : el.listeners = [] := by
        rw [h.orderly.listeners id el hel]
        exact listenersAt_eq_nil fun registration hr =>
          Nat.ne_of_gt (Nat.lt_of_lt_of_le hid (h.orderly.recent registration hr).1)
      rw [called_eq h.orderly hel, listenersFor_eq hel, hnone]
      cases bubbles with
      | false => rfl
      | true =>
        cases hparent : el.parent with
        | none => rfl
        | some parent =>
          have hlt := h.orderly.nested id el parent hel hparent
          exact ih parent hlt (Nat.lt_trans hlt hid) signal true

include hdom

theorem Keeps.serves (h : page.Keeps stage) : page.Serves stage where
  mounted tree htree := by
    obtain ⟨sites, hshows⟩ := h.shows tree htree
    refine ⟨sites, hshows.walked, hshows.length, hshows.table, fun site hsite => ?_⟩
    obtain ⟨node, el, hnode, hel, hlisteners⟩ := hshows.elements site hsite
    refine ⟨node, hnode, fun signal => ?_⟩
    rw [listenersFor_eq hel, hlisteners, filter_awaited hdom h.orderly.listening]
    split <;> rfl
  called _ _ hel := called_eq h.orderly hel
  requested id signal call hcall := by
    cases hel : page.elements[id]? with
    | none =>
      rw [listenersFor, hel] at hcall
      cases hcall
    | some el =>
      rw [listenersFor_eq hel, List.mem_map] at hcall
      obtain ⟨listener, hlistener, rfl⟩ := hcall
      obtain ⟨-, hsignal⟩ := List.mem_filter.1 hlistener
      refine ⟨el, rfl, ?_⟩
      rw [requestOf?, hel, Option.map_some, beq_iff_eq.1 hsignal]
  idle _ hid := h.idle hid

end Serving

end Page

def switch : Program where
  app := "Switch"
  version := .ofInt 1
  state := [("on", .bool false)]
  view := some ⟨"input",
    .ofList [("bind", .ident "on"), ("type", .literal (.str "checkbox"))], [], none⟩
  actions := [⟨"flip", [⟨"on", .literal (.bool true)⟩]⟩]

end ReactiveView
