namespace ReactiveView

def infinityCode : Nat := 0x7FF0000000000000

def unitsPerOne : Nat := Nat.pow 2 1074

def codesPerSpacing : Nat := 0x10000000000000

def signWeight : Nat := 0x8000000000000000

/-- Hold a binary64 number. There is one value that is not a number, and two zeros. -/
inductive Binary64 where
  | nan
  | signed (negative : Bool) (code : Fin (infinityCode + 1))
  deriving DecidableEq

namespace Binary64

def infinity (negative : Bool) : Binary64 := .signed negative ⟨infinityCode, by decide⟩

def signedZero (negative : Bool) : Binary64 := .signed negative ⟨0, by decide⟩

def zero : Binary64 := signedZero false

instance : Inhabited Binary64 := ⟨zero⟩

def ofCode (negative : Bool) (code : Nat) : Binary64 :=
  .signed negative ⟨min code infinityCode, Nat.lt_succ_of_le (Nat.min_le_right ..)⟩

def spacing (code : Nat) : Nat := code / codesPerSpacing - 1

def significand (code : Nat) : Nat := code - spacing code * codesPerSpacing

def units (code : Nat) : Nat := significand code * Nat.pow 2 (spacing code)

def isNaN : Binary64 → Bool
  | .nan => true
  | .signed .. => false

def isFinite : Binary64 → Bool
  | .nan => false
  | .signed _ code => code.val < infinityCode

def isInfinite : Binary64 → Bool
  | .nan => false
  | .signed _ code => code.val == infinityCode

/-- Value in units, with the sign. Infinity counts as the number that would follow the largest
finite one. -/
def signedUnits : Binary64 → Int
  | .nan => 0
  | .signed true code => -(units code.val : Int)
  | .signed false code => units code.val

/-- Position on the number line; both zeros stand at the same place. -/
def rank : Binary64 → Int
  | .nan => 0
  | .signed true code => -(code.val : Int)
  | .signed false code => code.val

def isZero (x : Binary64) : Bool := !x.isNaN && x.rank == 0

def numEq (x y : Binary64) : Bool := !x.isNaN && !y.isNaN && x.rank == y.rank

def numLt (x y : Binary64) : Bool := !x.isNaN && !y.isNaN && decide (x.rank < y.rank)

def numLe (x y : Binary64) : Bool := !x.isNaN && !y.isNaN && decide (x.rank ≤ y.rank)

def neg : Binary64 → Binary64
  | .nan => .nan
  | .signed negative code => .signed (!negative) code

def abs : Binary64 → Binary64
  | .nan => .nan
  | .signed _ code => .signed false code

/-- Read a 64-bit pattern; every pattern that is not a number reads as `nan`. -/
def ofBits (bits : Nat) : Binary64 :=
  let code := bits % signWeight
  if h : code < infinityCode + 1 then .signed (bits / signWeight % 2 == 1) ⟨code, h⟩ else .nan

def toBits : Binary64 → Nat
  | .nan => 0x7FF8000000000000
  | .signed negative code => (if negative then signWeight else 0) + code.val

theorem toBits_signed (negative : Bool) (code : Fin (infinityCode + 1)) :
    (signed negative code).toBits % signWeight = code.val ∧
      ((signed negative code).toBits / signWeight % 2 == 1) = negative := by
  have hc := code.isLt
  have hi : infinityCode = 0x7FF0000000000000 := rfl
  have hw : signWeight = 0x8000000000000000 := rfl
  rw [toBits, hw]
  cases negative
  · rw [if_neg Bool.false_ne_true]
    exact ⟨by omega, beq_eq_false_iff_ne.2 (by omega)⟩
  · rw [if_pos rfl]
    exact ⟨by omega, beq_iff_eq.2 (by omega)⟩

theorem ofBits_toBits (x : Binary64) : ofBits x.toBits = x := by
  cases x with
  | nan => decide +kernel
  | signed negative code =>
    obtain ⟨hm, hs⟩ := toBits_signed negative code
    simp only [ofBits, hm, hs, code.isLt, dite_true]

end Binary64

end ReactiveView
