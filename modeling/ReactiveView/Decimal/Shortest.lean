import ReactiveView.Binary64.Arithmetic

namespace ReactiveView

structure Decimal where
  digits : Nat
  exponent : Int
  deriving DecidableEq

namespace Decimal

def length (n : Nat) : Nat := (Nat.toDigits 10 n).length

/-- Round a decimal to the nearest number. Beyond the exponents of binary64 the answer is known
without computing the power of ten. -/
def toBinary64 (negative : Bool) (d : Decimal) : Binary64 :=
  if d.digits = 0 then .signedZero negative
  else
    let magnitude := length d.digits + d.exponent
    if 309 < magnitude then .infinity negative
    else if magnitude < -323 then .signedZero negative
    else if 0 ≤ d.exponent then
      .ofRatio negative (d.digits * Nat.pow 10 d.exponent.toNat * unitsPerOne) 1
    else .ofRatio negative (d.digits * unitsPerOne) (Nat.pow 10 (-d.exponent).toNat)

structure Interval where
  low : Nat
  high : Nat
  closed : Bool

open Binary64 in
def Interval.ofCode (code : Nat) : Interval where
  low := units (code - 1) + units code
  high := units code + units (code + 1)
  closed := significand code % 2 == 0

def Interval.contains (i : Interval) (num den : Nat) : Bool :=
  if i.closed then i.low * den ≤ num && num ≤ i.high * den
  else i.low * den < num && num < i.high * den

/-- Choose, among the two neighbours of a magnitude on the grid of `10 ^ exponent`, the nearer one
that reads back as its code; a tie goes to the even one. -/
def neighbour? (code : Nat) (exponent : Int) : Option Nat :=
  let one := 2 * unitsPerOne
  let value := 2 * Binary64.units code
  let num := if 0 ≤ exponent then Nat.pow 10 exponent.toNat * one else one
  let den := if 0 ≤ exponent then 1 else Nat.pow 10 (-exponent).toNat
  let below := value * den / num
  let rest := 2 * (value * den % num)
  let interval := Interval.ofCode code
  let lowFits := interval.contains (below * num) den
  let highFits := interval.contains ((below + 1) * num) den
  if lowFits && highFits then
    some (if rest < num then below else if num < rest then below + 1 else below + below % 2)
  else if lowFits then some below
  else if highFits then some (below + 1)
  else none

def leading (code : Nat) : Int :=
  (length (Binary64.units code * Nat.pow 10 400 / unitsPerOne) : Int) - 401

/-- Shortest decimal that reads back as a finite magnitude; seventeen digits always do. -/
def shortest (code : Nat) : Decimal :=
  if code = 0 then ⟨0, 0⟩
  else
    let first := leading code
    let candidate (places : Nat) : Option Decimal :=
      let exponent := first - places
      (neighbour? code exponent).map fun digits =>
        if digits = Nat.pow 10 (places + 1) then ⟨1, exponent + places + 1⟩ else ⟨digits, exponent⟩
    ((List.range 17).findSome? candidate).getD ⟨Binary64.units code, -1074⟩

end Decimal

end ReactiveView
