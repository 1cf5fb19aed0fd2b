import ReactiveView.Decimal.Layout
import ReactiveView.Expr.Builtin
import ReactiveView.Sandbox.Limits

namespace ReactiveView

inductive PathFault where
  | invalidCharacters
  | wrongExtension
  | traversal
  | outsideRoot
  deriving DecidableEq

def PathFault.reason : PathFault → String
  | .invalidCharacters => "invalid characters"
  | .wrongExtension => "only " ++ sourceExtension ++ " files can be loaded"
  | .traversal => "path traversal is not allowed"
  | .outsideRoot => "path resolves outside the application root"

inductive SandboxCode where
  | pathRejected
  | fileTooLarge
  | memoryExceeded
  deriving DecidableEq

namespace SandboxCode

def all : List SandboxCode := [.pathRejected, .fileTooLarge, .memoryExceeded]

def name : SandboxCode → String
  | .pathRejected => "PATH_REJECTED"
  | .fileTooLarge => "FILE_TOO_LARGE"
  | .memoryExceeded => "MEMORY_EXCEEDED"

def ofName? (name : String) : Option SandboxCode := all.find? fun code => code.name == name

end SandboxCode

inductive SandboxError where
  | pathRejected (requested : String) (fault : PathFault)
  | fileTooLarge (requested : String) (bytes : Int) (limit : Binary64)
  | sourceTooLarge (bytes : Int) (limit : Binary64)
  /-- A charge did not fit: the limit, what was charged for, the bytes in use and the bytes asked. -/
  | memoryExceeded (limit : Binary64) (what : String) (used requested : Binary64)
  /-- A text was to be padded to a width beyond the memory limit. -/
  | widthExceeded (function : Builtin) (width : Int)
  /-- A parser refused a document on grounds of its own. -/
  | reported (code : SandboxCode) (text : String)
  deriving DecidableEq

namespace SandboxError

def code : SandboxError → SandboxCode
  | .pathRejected .. => .pathRejected
  | .fileTooLarge .. | .sourceTooLarge .. => .fileTooLarge
  | .memoryExceeded .. | .widthExceeded .. => .memoryExceeded
  | .reported code _ => code

def message : SandboxError → String
  | .pathRejected requested fault =>
    "Refusing to load \"" ++ requested ++ "\": " ++ fault.reason
  | .fileTooLarge requested bytes limit =>
    "\"" ++ requested ++ "\" is " ++ toString bytes ++ " bytes; the limit is " ++ limit.numeral
  | .sourceTooLarge bytes limit =>
    "Source is " ++ toString bytes ++ " bytes; the limit is " ++ limit.numeral
  | .memoryExceeded limit what used requested =>
    "Memory limit of " ++ limit.numeral ++ " bytes exceeded by " ++ what ++ " (" ++
      used.numeral ++ " in use, " ++ requested.numeral ++ " requested)"
  | .widthExceeded function width =>
    function.name ++ "() width " ++ toString width ++ " exceeds the memory limit"
  | .reported _ text => text

end SandboxError

end ReactiveView
