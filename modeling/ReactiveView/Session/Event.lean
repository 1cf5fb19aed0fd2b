import ReactiveView.View.Tree
import ReactiveView.Error.Failure

namespace ReactiveView

inductive Event where
  | click
  | change
  | input (value : String)
  | key (key : String)
  | backspace
  deriving DecidableEq

namespace Event

def handler? : Event → Option String
  | .click => some "on_click"
  | .change => some "on_change"
  | _ => none

/-- Text after an event of editing: input replaces it, a key appends, and backspace drops the last
character. -/
def edit (text : String) : Event → String
  | .input value => value
  | .key added => text ++ added
  | .backspace => String.ofList text.toList.dropLast
  | _ => text

end Event

def editableText (value : Option Value) : String :=
  match value with
  | some v => v.text
  | none => ""

structure Request where
  ref : Reference
  event : Event
  deriving DecidableEq

inductive IgnoreReason where
  | noSuchNode
  | hidden
  | noHandler (property : String)
  | notBound
  deriving DecidableEq

def IgnoreReason.text : IgnoreReason → String
  | .noSuchNode => "no such node"
  | .hidden => "node is hidden"
  | .noHandler property => "no " ++ property ++ " handler"
  | .notBound => "node is not bound"

inductive EventResult where
  | applied (dirty : List String) (patches : List Patch)
  | ignored (reason : IgnoreReason)
  | failed (error : ActionError)
  deriving DecidableEq

structure EventOutcome where
  request : Request
  result : EventResult
  deriving DecidableEq

end ReactiveView
