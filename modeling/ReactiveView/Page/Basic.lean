import ReactiveView.Page.Element
import ReactiveView.Session.Renderer

namespace ReactiveView

/-- Hold every element and every text that was ever created, in order, and what is kept about the latest mount: the
elements in the container, the element and the text of each reference, and every listener that was added. -/
structure Page (dom : Dom) where
  listening : Bool
  elements : List (Element dom.Face)
  texts : List TextNode
  container : List Nat
  elementTable : List (Nat × Nat)
  textTable : List (Nat × Nat)
  registrations : List (Nat × Listener)
  warnings : List Log.Line

namespace Page

variable {dom : Dom}

def empty (dom : Dom) (listening : Bool) : Page dom := ⟨listening, [], [], [], [], [], [], []⟩

def idOf? (page : Page dom) : Reference → Option Nat
  | .position n => page.elementTable.lookup n
  | .stray _ => none

def modify (page : Page dom) (id : Nat) (change : Element dom.Face → Element dom.Face) : Page dom :=
  { page with elements := page.elements.modify id change }

def write (page : Page dom) (id : Nat) (change : dom.Face → dom.Face) : Page dom :=
  page.modify id fun el => { el with face := change el.face }

def dataOf? (page : Page dom) : Child → Option String
  | .element _ => none
  | .text id => page.texts[id]?.map TextNode.data

def contentOf (page : Page dom) (el : Element dom.Face) : String :=
  String.join (el.children.filterMap page.dataOf?)

/-- Let an element take in the text that is now inside it. -/
def refill (page : Page dom) (id : Nat) : Page dom :=
  page.modify id fun el => { el with face := dom.write (.content (page.contentOf el)) el.face }

def addText (page : Page dom) (id : Nat) (data : String) : Page dom :=
  let added : Page dom := { page with texts := page.texts ++ [⟨data, some id⟩] }
  (added.modify id fun el => { el with children := el.children ++ [.text page.texts.length] }).refill id

def setData (page : Page dom) (id : Nat) (data : String) : Page dom :=
  let changed : Page dom := { page with texts := page.texts.modify id fun text => { text with data } }
  match (page.texts[id]?).bind TextNode.parent with
  | none => changed
  | some parent => changed.refill parent

def detach (page : Page dom) : Child → Page dom
  | .element id => page.modify id fun el => { el with parent := none }
  | .text id => { page with texts := page.texts.modify id fun text => { text with parent := none } }

def setContent (page : Page dom) (id : Nat) (data : String) : Page dom :=
  let children := (page.elements[id]?.map Element.children).getD []
  ((children.foldl detach page).modify id fun el => { el with children := [] }).addText id data

def listen (page : Page dom) (id : Nat) (listener : Listener) : Page dom :=
  { page.modify id fun el => { el with listeners := el.listeners ++ [listener] } with
    registrations := page.registrations ++ [(id, listener)] }

def unregister (elements : List (Element dom.Face)) (registration : Nat × Listener) :
    List (Element dom.Face) :=
  elements.modify registration.1 fun el => el.unlisten registration.2

def unlisten (page : Page dom) : Page dom :=
  { page with
    elements := page.registrations.foldl unregister page.elements
    registrations := [] }

def wire (page : Page dom) (id : Nat) (node : Node) : Page dom :=
  if page.listening then
    let signals := (page.elements[id]?.map (Element.signalsOf node)).getD []
    signals.foldl (fun page signal => page.listen id ⟨signal, node.ref⟩) page
  else page

/-- Set the text of a node; an element without a text of its own has its children replaced. -/
def setText (page : Page dom) (ref id : Nat) (text : String) : Page dom :=
  match page.textTable.lookup ref with
  | some own => page.setData own text
  | none => page.setContent id text

def applyOne (page : Page dom) (patch : Patch) : Page dom :=
  match patch.ref, page.idOf? patch.ref with
  | .position ref, some id =>
    match patch.change with
    | .text s => page.setText ref id s
    | .visible b => page.write id (dom.write (.hidden !b))
    | .prop name output => page.write id (dom.setProp name output)
  | _, _ =>
    let line : Log.Line :=
      ⟨.warn, ["Patch for unknown node " ++ patch.ref.number.numeral ++ " ignored"]⟩
    { page with warnings := page.warnings ++ [line] }

def apply (page : Page dom) (patches : List Patch) : Page dom := patches.foldl applyOne page

def enroll (page : Page dom) (tag : String) (ref : Nat) (node : Node) : Page dom :=
  let id := page.elements.length
  let entered : Page dom := { page with
    elements := page.elements ++ [⟨dom.faceOf tag node, none, [], []⟩]
    elementTable := (ref, id) :: page.elementTable }
  if node.text.isSome then
    { entered with textTable := (ref, page.texts.length) :: page.textTable }.addText id ""
  else entered

def append (page : Page dom) (parent id : Nat) : Page dom :=
  (page.modify parent fun el => { el with children := el.children ++ [.element id] }).modify id
    fun el => { el with parent := some parent }

def appendAll (build : Nat → Page dom → Except Failure Nat × Page dom) (parent : Nat) :
    List Nat → Page dom → Except Failure Unit × Page dom
  | [], page => (.ok (), page)
  | ref :: rest, page =>
    match build ref page with
    | (.error failure, later) => (.error failure, later)
    | (.ok id, later) => appendAll build parent rest (later.append parent id)

def missingNode (ref : Nat) : Failure := .defect (.raised ("There is no node " ++ toString ref))

def missingTag (kind : String) : Failure :=
  .defect (.raised ("There is no element for nodes of kind " ++ kind))

/-- Build the element of a node and those of all nodes under it, which are nested at most so deep. -/
def build (tree : Tree) : Nat → Nat → Page dom → Except Failure Nat × Page dom
  | 0, _, page => (.error (.defect .nestingExceeded), page)
  | depth + 1, ref, page =>
    match tree.nodes[ref]? with
    | none => (.error (missingNode ref), page)
    | some node =>
      match Dom.tagOf? node.kind with
      | none => (.error (missingTag node.kind), page)
      | some tag =>
        let id := page.elements.length
        match appendAll (build tree depth) id node.children (page.enroll tag ref node) with
        | (.error failure, later) => (.error failure, later)
        | (.ok (), later) => (.ok id, later.wire id node)

def destroy (page : Page dom) : Page dom :=
  { page.unlisten with container := [], elementTable := [], textTable := [] }

def buildRoot (page : Page dom) (tree : Tree) : Except Failure Unit × Page dom :=
  if tree.nodes.isEmpty then (.ok (), page)
  else
    match build tree tree.nodes.length 0 page with
    | (.error failure, later) => (.error failure, later)
    | (.ok id, later) => (.ok (), { later with container := later.container ++ [id] })

def mount (page : Page dom) (tree : Tree) (patches : List Patch) : Except Failure Unit × Page dom :=
  match page.destroy.buildRoot tree with
  | (.error failure, later) => (.error failure, later)
  | (.ok (), later) => (.ok (), later.apply patches)

def edit (page : Page dom) (id : Nat) (text : String) : Page dom := page.write id (dom.write (.entry text))

def eventOf (el : Element dom.Face) : Signal → Event
  | .click => .click
  | .change => .change
  | .input => .input (dom.value (dom.form el.face))

/-- An element and those it stands in, from the inside out. An element is younger than its parent. -/
def upward (page : Page dom) : Nat → Nat → List Nat
  | 0, _ => []
  | fuel + 1, id =>
    match page.elements[id]? with
    | none => []
    | some el => id :: (el.parent.map (upward page fuel)).getD []

def reached (page : Page dom) (id : Nat) (bubbles : Bool) : List Nat :=
  let path := page.upward page.elements.length id
  if bubbles then path else path.take 1

def listenersFor (page : Page dom) (signal : Signal) (id : Nat) : List (Nat × Listener) :=
  ((page.elements[id]?.map Element.listeners).getD [] |>.filter fun listener =>
    listener.signal == signal).map fun listener => (id, listener)

def called (page : Page dom) (id : Nat) (signal : Signal) (bubbles : Bool) : List (Nat × Listener) :=
  (page.reached id bubbles).flatMap (page.listenersFor signal)

/-- Request that a listener makes when it is called: it reports the field of its own element. -/
def requestOf? (page : Page dom) (call : Nat × Listener) : Option Request :=
  page.elements[call.1]?.map fun el => ⟨.position call.2.ref, eventOf el call.2.signal⟩

def renderer (dom : Dom) : Renderer (Page dom) where
  mount := fun tree patches page => page.mount tree patches
  apply := fun patches _ => .update (fun page => page.apply patches) .done

end Page

end ReactiveView
