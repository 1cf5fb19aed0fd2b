import ReactiveView.Document.Basic
import ReactiveView.Text.Blank

namespace ReactiveView

def isIdentStart (c : Char) : Bool := c.isAlpha || c == '_'

def isIdentChar (c : Char) : Bool := c.isAlphanum || c == '_'

def isIdentifier : List Char → Bool
  | [] => false
  | c :: rest => isIdentStart c && rest.all isIdentChar

structure Placeholder where
  before : List Char
  name : List Char
  after : List Char
  deriving DecidableEq

namespace Placeholder

def openBrace : Char := '\x7b'

def closeBrace : Char := '\x7d'

def text (p : Placeholder) : List Char :=
  openBrace :: p.before ++ p.name ++ p.after ++ [closeBrace]

def read? : List Char → Option Placeholder
  | [] => none
  | c :: rest =>
    if c = openBrace then
      let before := rest.takeWhile Text.isBlank
      let body := rest.dropWhile Text.isBlank
      let name := body.takeWhile isIdentChar
      let tail := body.dropWhile isIdentChar
      let after := tail.takeWhile Text.isBlank
      match tail.dropWhile Text.isBlank with
      | d :: _ => if d = closeBrace ∧ isIdentifier name then some ⟨before, name, after⟩ else none
      | [] => none
    else none

end Placeholder

inductive Segment where
  | literal (text : List Char)
  | hole (placeholder : Placeholder)
  deriving DecidableEq

namespace Segment

def text : Segment → List Char
  | .literal text => text
  | .hole placeholder => placeholder.text

def span : Segment → Span
  | .literal text => .literal (String.ofList text)
  | .hole placeholder => .var (String.ofList placeholder.name)

/-- Literal segment of the characters read since the last placeholder, latest first. -/
def pending : List Char → List Segment
  | [] => []
  | read => [.literal read.reverse]

/-- Cut a text at its placeholders; `skip` characters still belong to the last one. -/
def scan : Nat → List Char → List Char → List Segment
  | _, read, [] => pending read
  | skip + 1, read, _ :: rest => scan skip read rest
  | 0, read, c :: rest =>
    match Placeholder.read? (c :: rest) with
    | some placeholder =>
      pending read ++ .hole placeholder :: scan (placeholder.text.length - 1) [] rest
    | none => scan 0 (c :: read) rest

end Segment

namespace Span

def template (source : String) : List Span :=
  (Segment.scan 0 [] source.toList).map Segment.span

def render : Span → List Char
  | .literal text => text.toList
  | .var name => Placeholder.text ⟨[], name.toList, []⟩

def renderAll (spans : List Span) : String := String.ofList (spans.flatMap render)

end Span

end ReactiveView
