import ReactiveView.Page.Dom
import ReactiveView.Text.Case

namespace ReactiveView

/-- Hold an element of a document that does no more than it is told: the names of attributes keep their case, the
hidden flag is no attribute, and a field has the text that was written last. `writes` counts what is written to the
field. -/
structure PlainFace where
  tag : String
  attributes : Table String := .empty
  hidden : Bool := false
  checked : Bool := false
  value : String := ""
  writes : Nat := 0
  deriving DecidableEq

namespace PlainFace

def write (face : PlainFace) : Dom.Write → PlainFace
  | .attr name none => { face with attributes := face.attributes.erase name }
  | .attr name (some text) => { face with attributes := face.attributes.put name text }
  | .hidden flag => { face with hidden := flag }
  | .checked flag => { face with checked := flag }
  | .value text => { face with value := text, writes := face.writes + 1 }
  | .content _ => face
  | .entry text => { face with value := text }

def isInput (face : PlainFace) : Bool := face.tag == "input"

end PlainFace

structure PlainForm where
  type? : Option String
  checked : Bool
  value : String
  deriving DecidableEq

def PlainFace.form (face : PlainFace) : PlainForm where
  type? := if face.isInput then some ((face.attributes.get? "type").getD "text") else none
  checked := face.checked
  value := face.value

def Dom.plain : Dom where
  Face := PlainFace
  Form := PlainForm
  create tag := { tag }
  write w face := face.write w
  tag := PlainFace.tag
  attribute? face name := face.attributes.get? name
  hidden := PlainFace.hidden
  form := PlainFace.form
  isCheckbox form := form.type?.any fun type => Text.lower type == "checkbox"
  checked := PlainForm.checked
  value := PlainForm.value

end ReactiveView
