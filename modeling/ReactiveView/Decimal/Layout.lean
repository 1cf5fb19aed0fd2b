import ReactiveView.Decimal.Shortest

namespace ReactiveView

namespace Decimal

structure Layout where
  lowest : Int
  highest : Int

/-- The point may stand up to five zeros before the first digit and up to the twenty-first place. -/
def Layout.standard : Layout := ⟨-5, 21⟩

def digitText (n : Nat) : String := String.ofList (Nat.toDigits 10 n)

def zeros (n : Nat) : String := "".pushn '0' n

def Layout.text (layout : Layout) (d : Decimal) : String :=
  let digits := Nat.toDigits 10 d.digits
  let point := digits.length + d.exponent
  if 0 ≤ d.exponent ∧ point ≤ layout.highest then
    String.ofList digits ++ zeros d.exponent.toNat
  else if 0 < point ∧ point ≤ layout.highest then
    String.ofList (digits.take point.toNat) ++ "." ++ String.ofList (digits.drop point.toNat)
  else if layout.lowest ≤ point ∧ point ≤ 0 then
    "0." ++ zeros (-point).toNat ++ String.ofList digits
  else
    let exponent := point - 1
    let mantissa := match digits with
      | [] => ""
      | [c] => String.ofList [c]
      | c :: rest => String.ofList [c] ++ "." ++ String.ofList rest
    mantissa ++ "e" ++ (if exponent < 0 then "-" else "+") ++ digitText exponent.natAbs

end Decimal

namespace Binary64

def numeral : Binary64 → String
  | .nan => "NaN"
  | .signed negative code =>
    if code.val = 0 then "0"
    else
      (if negative then "-" else "") ++
        if code.val = infinityCode then "Infinity"
        else Decimal.Layout.standard.text (Decimal.shortest code.val)

def exactTextBound : Nat := 1000000000000000000000

/-- Text of a number as a value: infinities are short names, and a whole number shows its exact
digits below `exactTextBound`. -/
def text (x : Binary64) : String :=
  match x with
  | .nan => "NaN"
  | .signed negative code =>
    if code.val = infinityCode then (if negative then "-inf" else "inf")
    else
      match x.toInt? with
      | some n => if n.natAbs < exactTextBound then toString n else x.numeral
      | none => x.numeral

end Binary64

end ReactiveView
