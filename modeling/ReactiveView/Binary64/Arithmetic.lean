import ReactiveView.Binary64.Basic

namespace ReactiveView.Binary64

def roundHalfEven (num den : Nat) : Nat :=
  let quotient := num / den
  let rest := 2 * (num % den)
  if rest < den then quotient
  else if den < rest then quotient + 1
  else quotient + quotient % 2

/-- Code of the magnitude nearest to `num / den` units. A carry out of the significand lands on
the first code of the next spacing. -/
def nearestCode (num den : Nat) : Nat :=
  let exponent := Nat.log2 (num / den) - 52
  exponent * codesPerSpacing + roundHalfEven num (den * Nat.pow 2 exponent)

def ofRatio (negative : Bool) (num den : Nat) : Binary64 := ofCode negative (nearestCode num den)

/-- Round a whole number of units. An exact zero takes the given sign. -/
def ofUnits (zeroNegative : Bool) (total : Int) : Binary64 :=
  if total = 0 then signedZero zeroNegative
  else ofRatio (decide (total < 0)) total.natAbs 1

def ofInt (n : Int) : Binary64 := ofUnits false (n * unitsPerOne)

def isNegative : Binary64 → Bool
  | .nan => false
  | .signed negative _ => negative

def add (x y : Binary64) : Binary64 :=
  if x.isNaN || y.isNaN then .nan
  else if x.isInfinite then (if y.isInfinite && x.isNegative != y.isNegative then .nan else x)
  else if y.isInfinite then y
  else ofUnits (x.isNegative && y.isNegative) (x.signedUnits + y.signedUnits)

def sub (x y : Binary64) : Binary64 := add x y.neg

instance : Add Binary64 := ⟨add⟩

instance : Sub Binary64 := ⟨sub⟩

instance : Neg Binary64 := ⟨neg⟩

instance : LT Binary64 := ⟨fun x y => x.numLt y = true⟩

instance : DecidableLT Binary64 := fun x y => inferInstanceAs (Decidable (x.numLt y = true))

instance : OfNat Binary64 0 := ⟨zero⟩

instance : NatCast Binary64 := ⟨fun n => .ofInt n⟩

def mul : Binary64 → Binary64 → Binary64
  | .signed s a, .signed t b =>
    if a.val = infinityCode ∨ b.val = infinityCode then
      (if a.val = 0 ∨ b.val = 0 then .nan else infinity (s != t))
    else ofRatio (s != t) (units a.val * units b.val) unitsPerOne
  | _, _ => .nan

def div : Binary64 → Binary64 → Binary64
  | .signed s a, .signed t b =>
    if a.val = infinityCode then (if b.val = infinityCode then .nan else infinity (s != t))
    else if b.val = infinityCode then signedZero (s != t)
    else if b.val = 0 then (if a.val = 0 then .nan else infinity (s != t))
    else ofRatio (s != t) (units a.val * unitsPerOne) (units b.val)
  | _, _ => .nan

def rem : Binary64 → Binary64 → Binary64
  | .signed s a, .signed _ b =>
    if a.val = infinityCode ∨ b.val = 0 then .nan
    else if b.val = infinityCode then .signed s a
    else ofRatio s (units a.val % units b.val) 1
  | _, _ => .nan

/-- Whole part of the square root, one binary digit for each unit of fuel. -/
def sqrtFloor : Nat → Nat → Nat
  | 0, _ => 0
  | fuel + 1, n =>
    let root := 2 * sqrtFloor fuel (n / 4)
    if (root + 1) * (root + 1) ≤ n then root + 1 else root

def sqrt : Binary64 → Binary64
  | .nan => .nan
  | .signed negative code =>
    if code.val = 0 then .signed negative code
    else if negative then .nan
    else if code.val = infinityCode then .signed negative code
    else
      let square := units code.val * unitsPerOne
      let root := sqrtFloor (Nat.log2 square / 2 + 1) square
      ofRatio false (2 * root + if root * root = square then 0 else 1) 2

/-- Largest distance at which two numbers still count as close: below `2 ^ (-52)`. -/
def closeness : Binary64 := .signed false ⟨0x3CB0000000000000, by decide⟩

/-- Equal, or nearer to each other than `closeness` as subtraction sees it. -/
def close (x y : Binary64) : Bool := numEq x y || numLt (sub x y).abs closeness

inductive Rounding where
  | down
  | up
  | towardZero
  /-- The nearest whole number, a half going away from zero. -/
  | nearest
  deriving DecidableEq

def Rounding.apply : Rounding → Int → Int
  | .down, total => total.fdiv unitsPerOne
  | .up, total => -((-total).fdiv unitsPerOne)
  | .towardZero, total => total.tdiv unitsPerOne
  | .nearest, total =>
    total.sign * ((2 * total.natAbs + unitsPerOne) / (2 * unitsPerOne) : Nat)

def Rounding.round (rounding : Rounding) (x : Binary64) : Binary64 :=
  if x.isFinite then .ofInt (rounding.apply x.signedUnits) else x

def toInt? (x : Binary64) : Option Int :=
  if x.isFinite && x.signedUnits.natAbs % unitsPerOne == 0 then some (x.signedUnits.tdiv unitsPerOne)
  else none

end ReactiveView.Binary64
