import ReactiveView.Error.Evaluation
import ReactiveView.Error.Load
import ReactiveView.Error.Lookup
import ReactiveView.Error.Sandbox
import ReactiveView.Table
import ReactiveView.Text.Quoted

namespace ReactiveView

inductive Fault where
  | evaluation (cause : EvalError)
  | sandbox (cause : SandboxError)
  /-- A function was called with fewer arguments than it needs. Loading excludes this. -/
  | missingArgument (function : Builtin)
  /-- A number without a whole part was to become a whole value. Functions check before they convert. -/
  | notWhole (x : Binary64)
  deriving DecidableEq

inductive ActionError where
  | unknownAction (name : String)
  /-- An assignment had no value: the action, the variable assigned, and the reason. -/
  | evaluation (action target : String) (cause : EvalError)
  deriving DecidableEq

namespace ActionError

def code : ActionError → String
  | .unknownAction _ => "UNKNOWN_ACTION"
  | .evaluation .. => "EVALUATION"

def action : ActionError → String
  | .unknownAction name => name
  | .evaluation action _ _ => action

def message : ActionError → String
  | .unknownAction name => "Unknown action \"" ++ name ++ "\""
  | .evaluation action target cause =>
    "Action \"" ++ action ++ "\" aborted while assigning \"" ++ target ++ "\": " ++ cause.message

end ActionError

/-- Failures of a program that uses the library, rather than of a document. -/
inductive Defect where
  | brokenInvariant (message : String) (context : Option (Table HostLiteral))
  | nestedTransaction (label : String)
  | undeclaredAssignment (label target : String)
  | nestedFlush
  | flushDepthExceeded (limit : Binary64)
  | missingArgument (function : Builtin)
  | notWhole (x : Binary64)
  /-- A directory was to be read like a file. -/
  | directoryRead
  /-- A path that exists has no real path. -/
  | lookup (cause : LookupError)
  /-- Calls from inside a renderer are nested beyond any depth that is answered. -/
  | nestingExceeded
  /-- A host program raised an error of its own. -/
  | raised (message : String)
  deriving DecidableEq

namespace Defect

def indent (depth : Nat) : String := "".pushn ' ' (2 * depth)

def objectText (depth : Nat) (members : List (String × String)) : String :=
  if members.isEmpty then "\x7b\x7d"
  else
    "\x7b\n" ++
      ",\n".intercalate
        (members.map fun member => indent (depth + 1) ++ Text.quoted member.1 ++ ": " ++ member.2) ++
      "\n" ++ indent depth ++ "\x7d"

def numberText (x : Binary64) : String := if x.isFinite then x.numeral else "null"

def boolText (b : Bool) : String := if b then "true" else "false"

def valueText (depth : Nat) (v : Value) : String :=
  let members (kind : String) (payload : String) := [("kind", Text.quoted kind), ("value", payload)]
  objectText depth <|
    match v with
    | .int n => members "int" (Text.quoted (toString n))
    | .float x => members "float" (numberText x)
    | .str s => members "str" (Text.quoted s)
    | .bool b => members "bool" (boolText b)
    | .null => [("kind", Text.quoted "null")]

def literalText (depth : Nat) : HostLiteral → String
  | .text s => Text.quoted s
  | .number x => numberText x
  | .whole n => Text.quoted (toString n)
  | .flag b => boolText b
  | .nothing => "null"
  | .value v => valueText depth v

def contextText (context : Table HostLiteral) : String :=
  objectText 0 (context.entries.map fun entry => (entry.1, literalText 1 entry.2))

def invariantText (message : String) : String := "[Prism Invariant] " ++ message

def message : Defect → String
  | .brokenInvariant text none => invariantText text
  | .brokenInvariant text (some context) => invariantText text ++ "\n" ++ contextText context
  | .nestedTransaction label =>
    invariantText ("[State Precondition] transaction \"" ++ label ++
      "\" started while another is running")
  | .undeclaredAssignment label target =>
    invariantText ("[State Precondition] transaction \"" ++ label ++
      "\" assigns undeclared variable \"" ++ target ++ "\"")
  | .nestedFlush => invariantText "[Scheduler] flush() called while already running"
  | .flushDepthExceeded limit =>
    "[Scheduler] exceeded MAX_FLUSH_DEPTH (" ++ limit.numeral ++ "). Likely an event feedback loop."
  | .missingArgument function => invariantText (function.name ++ "() lacks an argument")
  | .notWhole x =>
    "The number " ++ x.numeral ++ " cannot be converted to a BigInt because it is not an integer"
  | .directoryRead => "EISDIR: illegal operation on a directory, read"
  | .lookup cause => cause.message
  | .nestingExceeded => "Calls are nested too deeply"
  | .raised text => text

end Defect

def invariant (condition : Bool) (message : String) (context : Option (Table HostLiteral)) :
    Except Defect Unit :=
  if condition then .ok () else .error (.brokenInvariant message context)

/-- Everything that can go wrong. What is thrown is always an error, never another value. -/
inductive Failure where
  | load (cause : LoadError)
  | evaluation (cause : EvalError)
  | sandbox (cause : SandboxError)
  | action (cause : ActionError)
  | defect (cause : Defect)
  deriving DecidableEq

namespace Failure

def message : Failure → String
  | .load cause => cause.message
  | .evaluation cause => cause.message
  | .sandbox cause => cause.message
  | .action cause => cause.message
  | .defect cause => cause.message

end Failure

def Fault.toFailure : Fault → Failure
  | .evaluation cause => .evaluation cause
  | .sandbox cause => .sandbox cause
  | .missingArgument function => .defect (.missingArgument function)
  | .notWhole x => .defect (.notWhole x)

end ReactiveView
