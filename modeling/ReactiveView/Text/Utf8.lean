namespace ReactiveView.Text

def replacementChar : Char := '\uFFFD'

/-- Hold an unfinished character: the bits so far, the number of bytes still owed, and the range in
which the next byte has to lie. -/
structure Unfinished where
  bits : Nat
  owed : Nat
  low : Nat
  high : Nat

def firstByte (b : Nat) : Option (Char ⊕ Unfinished) :=
  if b < 0x80 then some (.inl (Char.ofNat b))
  else if b < 0xC2 then none
  else if b < 0xE0 then some (.inr ⟨b - 0xC0, 1, 0x80, 0xBF⟩)
  else if b < 0xF0 then
    some (.inr ⟨b - 0xE0, 2, if b = 0xE0 then 0xA0 else 0x80, if b = 0xED then 0x9F else 0xBF⟩)
  else if b < 0xF5 then
    some (.inr ⟨b - 0xF0, 3, if b = 0xF0 then 0x90 else 0x80, if b = 0xF4 then 0x8F else 0xBF⟩)
  else none

structure Decoding where
  read : List Char
  unfinished : Option Unfinished

namespace Decoding

def start (read : List Char) (b : Nat) : Decoding :=
  match firstByte b with
  | some (.inl c) => ⟨c :: read, none⟩
  | some (.inr unfinished) => ⟨read, some unfinished⟩
  | none => ⟨replacementChar :: read, none⟩

/-- Read one byte. A byte that does not continue the unfinished character ends it and starts anew. -/
def step (d : Decoding) (byte : UInt8) : Decoding :=
  let b := byte.toNat
  match d.unfinished with
  | none => start d.read b
  | some u =>
    if u.low ≤ b ∧ b ≤ u.high then
      let bits := 64 * u.bits + (b - 0x80)
      if u.owed = 1 then ⟨Char.ofNat bits :: d.read, none⟩
      else ⟨d.read, some ⟨bits, u.owed - 1, 0x80, 0xBF⟩⟩
    else start (replacementChar :: d.read) b

def finish (d : Decoding) : List Char :=
  match d.unfinished with
  | none => d.read.reverse
  | some _ => (replacementChar :: d.read).reverse

end Decoding

def decodeUtf8 (bytes : List UInt8) : String :=
  String.ofList (bytes.foldl Decoding.step ⟨[], none⟩).finish

end ReactiveView.Text
