import ReactiveView.Decimal.Numeral
import ReactiveView.Error.Failure
import ReactiveView.Text.Blank
import ReactiveView.Text.Case
import ReactiveView.Text.Search

namespace ReactiveView.Builtin

abbrev Answer := Except Fault Value

def reject (cause : EvalError) : Except Fault α := .error (.evaluation cause)

inductive Numeric where
  | int (n : Int)
  | float (x : Binary64)

def Numeric.toBinary64 : Numeric → Binary64
  | .int n => .ofInt n
  | .float x => x

def Numeric.value : Numeric → Value
  | .int n => .int n
  | .float x => .float x

def expectNumber (b : Builtin) : Value → Except Fault Numeric
  | .int n => .ok (.int n)
  | .float x => .ok (.float x)
  | v => reject (.argument b .number v.kind)

def expectText (b : Builtin) : Value → Except Fault String
  | .str s => .ok s
  | v => reject (.argument b .text v.kind)

def expectWhole (b : Builtin) : Value → Except Fault Int
  | .int n => .ok n
  | v => reject (.argument b .whole v.kind)

def maxInt : Int := 0x7FFFFFFFFFFFFFFF

def minInt : Int := -0x8000000000000000

def clamp64 (n : Int) : Int :=
  if maxInt < n then maxInt else if n < minInt then minInt else n

def rangeEnd : Binary64 := .ofInt 0x8000000000000000

def convert (x : Binary64) : Answer :=
  match Value.ofNumber? x with
  | some v => .ok v
  | none => .error (.notWhole x)

/-- Turn a number into a whole value that saturates at the 64-bit range. -/
def toWhole (b : Builtin) (x : Binary64) : Answer :=
  if x.isNaN then reject (.notANumber b)
  else if rangeEnd.numLe x then .ok (.int maxInt)
  else if x.numLe rangeEnd.neg then .ok (.int minInt)
  else convert x

def unary (b : Builtin) (f : Value → Answer) : List Value → Answer
  | v :: _ => f v
  | [] => .error (.missingArgument b)

def binary (b : Builtin) (f : Value → Value → Answer) : List Value → Answer
  | v :: w :: _ => f v w
  | _ => .error (.missingArgument b)

def ternary (b : Builtin) (f : Value → Value → Value → Answer) : List Value → Answer
  | v :: w :: u :: _ => f v w u
  | _ => .error (.missingArgument b)

def rounded (b : Builtin) (rounding : Binary64.Rounding) (v : Value) : Answer :=
  match expectNumber b v with
  | .ok (.int n) => .ok (.int n)
  | .ok (.float x) => toWhole b (rounding.round x)
  | .error fault => .error fault

/-- Choose one of two numbers; two whole ones are compared exactly, and a choice between kinds is a
binary64 number. -/
def choose (b : Builtin) (smaller : Bool) (v w : Value) : Answer := do
  let x ← expectNumber b v
  let y ← expectNumber b w
  match x, y with
  | .int m, .int n =>
    let takeLeft := if smaller then m ≤ n else n ≤ m
    return .int (if takeLeft then m else n)
  | _, _ =>
    let l := x.toBinary64
    let r := y.toBinary64
    let takeLeft := if smaller then l.numLe r else r.numLe l
    return .float (if takeLeft then l else r)

def textMap (b : Builtin) (f : String → String) (v : Value) : Answer := do
  return .str (f (← expectText b v))

def textTest (b : Builtin) (test : String → String → Bool) (v w : Value) : Answer := do
  let s ← expectText b v
  let part ← expectText b w
  return .bool (test s part)

def padded (atStart : Bool) (s : String) (width : Int) (fill : String) : String :=
  let missing := (width - s.length).toNat
  let unit := fill.toList.headD ' '
  if missing = 0 then s
  else if atStart then "".pushn unit missing ++ s
  else s.pushn unit missing

def pad (b : Builtin) (atStart : Bool) : List Value → Answer
  | v :: w :: rest => do
    let s ← expectText b v
    let width ← expectWhole b w
    let fill ← match rest with
      | [] => pure " "
      | u :: _ => expectText b u
    if memoryLimitBytes < width then throw (.sandbox (.widthExceeded b width))
    return .str (padded atStart s width fill)
  | _ => .error (.missingArgument b)

def toInt : Value → Answer
  | .int n => .ok (.int n)
  | .float x => toWhole .int (Binary64.Rounding.towardZero.round x)
  | .bool b => .ok (.int (if b then 1 else 0))
  | .str s =>
    let stripped := Text.stripChars s.toList
    match Numeral.readInt? stripped with
    | some n => .ok (.int (clamp64 n))
    | none =>
      match Binary64.ofText? stripped with
      | some x => toWhole .int (Binary64.Rounding.towardZero.round x)
      | none => reject (.notConvertible .int (.str s))
  | .null => reject (.notConvertible .int .null)

def toFloat : Value → Answer
  | .int n => .ok (.float (.ofInt n))
  | .float x => .ok (.float x)
  | .bool b => .ok (.float (.ofInt (if b then 1 else 0)))
  | .str s =>
    match Binary64.ofText? (Text.stripChars s.toList) with
    | some x => .ok (.float x)
    | none => reject (.notConvertible .float (.str s))
  | .null => reject (.notConvertible .float .null)

/-- Absolute value. The least whole number has none and stays as it is. -/
def absolute (v : Value) : Answer :=
  match expectNumber .abs v with
  | .ok (.int n) => .ok (if n < 0 then .ofInt (-n) else .int n)
  | .ok (.float x) => .ok (.float x.abs)
  | .error fault => .error fault

def squareRoot (v : Value) : Answer := do
  return .float (← expectNumber .sqrt v).toBinary64.sqrt

def replaced (v w u : Value) : Answer := do
  let s ← expectText .replace v
  let target ← expectText .replace w
  let replacement ← expectText .replace u
  return .str (Text.replace s target replacement)

/-- Call a function. Arguments beyond those it takes are not looked at. -/
def apply : Builtin → List Value → Answer
  | .abs => unary .abs absolute
  | .min => binary .min (choose .min true)
  | .max => binary .max (choose .max false)
  | .floor => unary .floor (rounded .floor .down)
  | .ceil => unary .ceil (rounded .ceil .up)
  | .round => unary .round (rounded .round .nearest)
  | .sqrt => unary .sqrt squareRoot
  | .len => unary .len fun v => do return .ofInt (← expectText .len v).length
  | .str => unary .str fun v => .ok (.str v.text)
  | .upper => unary .upper (textMap .upper Text.upper)
  | .lower => unary .lower (textMap .lower Text.lower)
  | .trim => unary .trim (textMap .trim Text.strip)
  | .contains => binary .contains (textTest .contains Text.contains)
  | .startsWith => binary .startsWith (textTest .startsWith Text.startsWith)
  | .endsWith => binary .endsWith (textTest .endsWith Text.endsWith)
  | .replace => ternary .replace replaced
  | .padStart => pad .padStart true
  | .padEnd => pad .padEnd false
  | .int => unary .int toInt
  | .float => unary .float toFloat
  | .bool => unary .bool fun v => .ok (.bool v.truthy)
  | .isNull => unary .isNull fun v => .ok (.bool (v.kind = .null))
  | .type => unary .type fun v => .ok (.str v.kind.name)

end ReactiveView.Builtin
