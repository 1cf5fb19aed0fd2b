namespace ReactiveView.Text

def charUnits (c : Char) : Nat := if c.toNat < 0x10000 then 1 else 2

def units16 (s : String) : Nat := s.toList.foldl (fun n c => n + charUnits c) 0

/-- Position of a character among 16-bit units: the surrogates of the characters beyond the basic
plane stand before its last block. -/
def unitRank (c : Char) : Nat :=
  if c.toNat < 0xD800 then c.toNat
  else if c.toNat < 0x10000 then c.toNat + 0x110000
  else c.toNat

def unitsLe : List Char → List Char → Bool
  | [], _ => true
  | _ :: _, [] => false
  | a :: as, b :: bs => unitRank a < unitRank b || (a == b && unitsLe as bs)

def sortByUnits (names : List String) : List String :=
  names.mergeSort (fun a b => unitsLe a.toList b.toList)

end ReactiveView.Text
