import ReactiveView.View.Tree

namespace ReactiveView

namespace Dom

/-- What a page does to an element of the document: it sets an attribute or removes it, sets the flags and the
field, and changes the text inside. Users enter text in fields on their own. -/
inductive Write where
  | attr (name : String) (text : Option String)
  | hidden (flag : Bool)
  | checked (flag : Bool)
  | value (text : String)
  | content (text : String)
  | entry (text : String)

end Dom

/-- What a page uses of the document it stands in. A face is the state of one element, and its form is the part
that decides about the field and the check mark. -/
structure Dom where
  Face : Type
  Form : Type
  create : String → Face
  write : Dom.Write → Face → Face
  tag : Face → String
  attribute? : Face → String → Option String
  hidden : Face → Bool
  form : Face → Form
  isCheckbox : Form → Bool
  checked : Form → Bool
  value : Form → String

namespace Dom

def refAttribute : String := "data-prism-ref"

def kindAttribute : String := "data-prism-kind"

def tagOf (kind : String) : String :=
  if kind = "text" ∨ kind = "label" then "span"
  else if kind = "button" then "button"
  else if kind = "input" ∨ kind = "text_input" ∨ kind = "checkbox" then "input"
  else if kind = "textarea" then "textarea"
  else if kind = "image" then "img"
  else "div"

/-- Names that every record of tags has without being told: there is something under them, but no tag. -/
def inheritedNames : List String :=
  ["constructor", "hasOwnProperty", "isPrototypeOf", "propertyIsEnumerable", "toLocaleString", "toString",
    "valueOf", "__proto__", "__defineGetter__", "__defineSetter__", "__lookupGetter__", "__lookupSetter__"]

def tagOf? (kind : String) : Option String :=
  if inheritedNames.contains kind then none else some (tagOf kind)

def isFieldTag (tag : String) : Bool := tag == "input" || tag == "textarea"

def attributeText : Output → Option String
  | .color c => some c.css
  | .value .null => none
  | .value v => some v.text

def outputTruthy : Output → Bool
  | .color _ => false
  | .value v => v.truthy

variable (dom : Dom)

def isField (face : dom.Face) : Bool := isFieldTag (dom.tag face)

/-- Face of a new element with the marks of its node. A checkbox is one from the start. -/
def faceOf (tag : String) (node : Node) : dom.Face :=
  let bare := dom.write (.attr refAttribute (some (toString node.ref))) (dom.create tag)
  let marked := dom.write (.attr kindAttribute (some node.kind)) bare
  if node.kind = "checkbox" then dom.write (.attr "type" (some "checkbox")) marked else marked

def setField (next : String) (face : dom.Face) : dom.Face :=
  if dom.value (dom.form face) = next then face else dom.write (.value next) face

def setProp (name : String) (output : Output) (face : dom.Face) : dom.Face :=
  if name = "value" ∧ dom.isField face then
    if dom.isCheckbox (dom.form face) then dom.write (.checked (outputTruthy output)) face
    else dom.setField ((attributeText output).getD "") face
  else dom.write (.attr name (attributeText output)) face

end Dom

end ReactiveView
