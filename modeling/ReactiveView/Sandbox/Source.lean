import ReactiveView.Error.Failure
import ReactiveView.Sandbox.Guard
import ReactiveView.Text.Utf8

namespace ReactiveView

inductive ParserFault where
  | load (cause : LoadError)
  | sandbox (cause : SandboxError)
  | other (message : String)
  deriving DecidableEq

structure Source where
  text : String
  file : String
  deriving DecidableEq

namespace Source

variable {α : Type}

def byteSize (text : String) : Int := text.utf8ByteSize

def checkSize (text : String) (limit : Limit) : Except SandboxError Unit :=
  if limit.most < byteSize text then .error (.sourceTooLarge (byteSize text) limit.number)
  else .ok ()

def parserFailure (file : String) : ParserFault → Failure
  | .load cause => .load cause
  | .sandbox cause => .sandbox cause
  | .other message => .load (.unparsable file message)

def parse (parser : Source → Except ParserFault α) (s : Source) : Except Failure α :=
  (parser s).mapError (parserFailure s.file)

def parseChecked (parser : Source → Except ParserFault α) (s : Source) (limit : Limit) :
    Except Failure α :=
  match checkSize s.text limit with
  | .error cause => .error (.sandbox cause)
  | .ok () => s.parse parser

/-- Read a document through the guard, up to the point where it can be parsed. -/
def fetch (fs : FileSystem) (directory : Path) (requested root : String) (limit : Limit) :
    Except Failure Source :=
  match Guard.validate fs directory requested root with
  | .error failure => .error failure
  | .ok path =>
    match fs.content? path with
    | none => .error (.load (.unreadable requested))
    | some content =>
      if limit.most < content.size then
        .error (.sandbox (.fileTooLarge requested content.size limit.number))
      else
        match content with
        | .directory => .error (.defect .directoryRead)
        | .file bytes =>
          let s : Source := ⟨Text.decodeUtf8 bytes, path.text⟩
          match checkSize s.text limit with
          | .error cause => .error (.sandbox cause)
          | .ok () => .ok s

def load (fs : FileSystem) (directory : Path) (requested root : String) (limit : Limit)
    (parser : Source → Except ParserFault α) : Except Failure α :=
  match fetch fs directory requested root limit with
  | .error failure => .error failure
  | .ok s => s.parse parser

end Source

end ReactiveView
