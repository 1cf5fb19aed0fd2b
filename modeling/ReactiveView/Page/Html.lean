import ReactiveView.Page.Dom

namespace ReactiveView

/-- How an input uses its value: as the text of a field, as its attribute alone, or beside a check mark. -/
inductive HtmlMode where
  | field
  | attr
  | mark
  deriving DecidableEq

structure HtmlForm where
  tag : String
  type? : Option String := none
  default? : Option String := none
  marked? : Option String := none
  entered? : Option String := none
  mark? : Option Bool := none
  content : String := ""
  deriving DecidableEq

namespace HtmlForm

def isInput (form : HtmlForm) : Bool := form.tag == "input"

def isTextArea (form : HtmlForm) : Bool := form.tag == "textarea"

def typeName (form : HtmlForm) : String := (form.type?.getD "text").map Char.toLower

def mode (form : HtmlForm) : HtmlMode :=
  if form.typeName = "checkbox" ∨ form.typeName = "radio" then .mark
  else if ["hidden", "submit", "image", "reset", "button"].contains form.typeName then .attr
  else .field

def isCheckbox (form : HtmlForm) : Bool := form.isInput && form.typeName == "checkbox"

def withoutBreaks (text : String) : String :=
  String.ofList (text.toList.filter fun c => c != '\n' && c != '\r')

/-- Line breaks of a text area are single characters, however they were written. -/
def unifyBreaks : List Char → List Char
  | [] => []
  | '\r' :: '\n' :: rest => '\n' :: unifyBreaks rest
  | '\r' :: rest => '\n' :: unifyBreaks rest
  | c :: rest => c :: unifyBreaks rest

def withUnifiedBreaks (text : String) : String := String.ofList (unifyBreaks text.toList)

def value (form : HtmlForm) : String :=
  if form.isInput then
    match form.mode with
    | .field => withoutBreaks (form.entered?.getD (form.default?.getD ""))
    | .attr => form.default?.getD ""
    | .mark => form.default?.getD "on"
  else if form.isTextArea then withUnifiedBreaks (form.entered?.getD form.content)
  else ""

def checked (form : HtmlForm) : Bool := form.mark?.getD form.marked?.isSome

def setValue (form : HtmlForm) (text : String) : HtmlForm :=
  if form.isInput then
    if form.mode = .field then { form with entered? := some text } else { form with default? := some text }
  else { form with entered? := some text }

/-- Change the type. A value that is no attribute any more, or not yet one, is taken over. -/
def setType (form : HtmlForm) (type? : Option String) : HtmlForm :=
  let next := { form with type? }
  if form.mode = .field ∧ next.mode ≠ .field then
    { next with default? := if form.value = "" then form.default? else some form.value, entered? := none }
  else if form.mode ≠ .field ∧ next.mode = .field then { next with entered? := none }
  else next

end HtmlForm

/-- Hold an element of an HTML document. Names of attributes are in lower case; `hidden` is one of them, and those
that decide about an input stand in its form. -/
structure HtmlFace where
  form : HtmlForm
  attributes : Table String := .empty
  deriving DecidableEq

namespace HtmlFace

def key (name : String) : String := name.map Char.toLower

def put (face : HtmlFace) (name : String) : Option String → HtmlFace
  | none => { face with attributes := face.attributes.erase name }
  | some text => { face with attributes := face.attributes.put name text }

def setAttribute (face : HtmlFace) (name : String) (text : Option String) : HtmlFace :=
  if face.form.isInput then
    if name = "type" then { face with form := face.form.setType text }
    else if name = "value" then { face with form := { face.form with default? := text } }
    else if name = "checked" then { face with form := { face.form with marked? := text } }
    else face.put name text
  else face.put name text

def attribute? (face : HtmlFace) (name : String) : Option String :=
  if face.form.isInput then
    if name = "type" then face.form.type?
    else if name = "value" then face.form.default?
    else if name = "checked" then face.form.marked?
    else face.attributes.get? name
  else face.attributes.get? name

def write (face : HtmlFace) : Dom.Write → HtmlFace
  | .attr name text => face.setAttribute (key name) text
  | .hidden flag => face.put "hidden" (if flag then some "" else none)
  | .checked flag => { face with form := { face.form with mark? := some flag } }
  | .value text | .entry text => { face with form := face.form.setValue text }
  | .content text => if face.form.isTextArea then { face with form := { face.form with content := text } } else face

end HtmlFace

/-- A document of elements as HTML has them, as far as text fields, text areas and checkboxes go. -/
def Dom.html : Dom where
  Face := HtmlFace
  Form := HtmlForm
  create tag := { form := { tag } }
  write w face := face.write w
  tag face := face.form.tag
  attribute? face name := face.attribute? (HtmlFace.key name)
  hidden face := (face.attributes.get? "hidden").isSome
  form := HtmlFace.form
  isCheckbox := HtmlForm.isCheckbox
  checked := HtmlForm.checked
  value := HtmlForm.value

end ReactiveView
