import ReactiveView.Decimal.Shortest

namespace ReactiveView

structure Numeral where
  negative : Bool
  whole : List Char
  fraction : List Char
  exponent : Int
  deriving DecidableEq

namespace Numeral

def digitValue (cs : List Char) : Nat := cs.foldl (fun n c => 10 * n + (c.toNat - '0'.toNat)) 0

def readSign : List Char → Bool × List Char
  | '-' :: rest => (true, rest)
  | '+' :: rest => (false, rest)
  | rest => (false, rest)

def readDigits (cs : List Char) : List Char × List Char :=
  (cs.takeWhile Char.isDigit, cs.dropWhile Char.isDigit)

/-- Read the exponent that makes up the rest of a numeral; nothing at all stands for zero. -/
def readExponent? : List Char → Option Int
  | [] => some 0
  | mark :: rest =>
    if mark = 'e' ∨ mark = 'E' then
      let (negative, digits) := readSign rest
      if digits.isEmpty || !digits.all Char.isDigit then none
      else some (if negative then -(digitValue digits : Int) else digitValue digits)
    else none

def read? (cs : List Char) : Option Numeral :=
  let (negative, body) := readSign cs
  let (whole, afterWhole) := readDigits body
  let (fraction, afterFraction) := match afterWhole with
    | '.' :: rest => readDigits rest
    | rest => ([], rest)
  if whole.isEmpty && fraction.isEmpty then none
  else (readExponent? afterFraction).map fun exponent => ⟨negative, whole, fraction, exponent⟩

def readInt? (cs : List Char) : Option Int :=
  let (negative, digits) := readSign cs
  if digits.isEmpty || !digits.all Char.isDigit then none
  else some (if negative then -(digitValue digits : Int) else digitValue digits)

def toDecimal (n : Numeral) : Decimal :=
  ⟨digitValue (n.whole ++ n.fraction), n.exponent - n.fraction.length⟩

def toBinary64 (n : Numeral) : Binary64 := n.toDecimal.toBinary64 n.negative

end Numeral

def Binary64.ofText? (cs : List Char) : Option Binary64 :=
  match Numeral.read? cs with
  | some numeral => some numeral.toBinary64
  | none =>
    if cs = ['i', 'n', 'f'] then some (.infinity false)
    else if cs = ['-', 'i', 'n', 'f'] then some (.infinity true)
    else if cs = ['N', 'a', 'N'] then some .nan
    else none

end ReactiveView
