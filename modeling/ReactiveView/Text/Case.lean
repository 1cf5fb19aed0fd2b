import ReactiveView.Text.CaseTable

namespace ReactiveView.Text

def shiftOf : List CaseRun → Nat → Option Int
  | [], _ => none
  | run :: rest, c =>
    if c < run.first then none
    else if c ≤ run.last then
      (if (c - run.first) % run.step = 0 then some run.shift else none)
    else shiftOf rest c

def inRanges : List (Nat × Nat) → Nat → Bool
  | [], _ => false
  | (first, last) :: rest, c => !(c < first) && (c ≤ last || inRanges rest c)

def mapCase (runs : List CaseRun) (expansions : List (Nat × List Nat)) (c : Char) : List Char :=
  match shiftOf runs c.toNat with
  | some shift => [Char.ofNat (c.toNat + shift).toNat]
  | none =>
    match expansions.lookup c.toNat with
    | some codes => codes.map Char.ofNat
    | none => [c]

def upperChar (c : Char) : List Char :=
  if c.toNat < 0x80 then [c.toUpper] else mapCase upperRuns upperExpansions c

def lowerChar (c : Char) : List Char :=
  if c.toNat < 0x80 then [c.toLower] else mapCase lowerRuns lowerExpansions c

def isCased (c : Char) : Bool := inRanges casedRanges c.toNat

def isCaseIgnorable (c : Char) : Bool := inRanges ignorableRanges c.toNat

/-- Tell whether the first character that counts is a cased letter. -/
def startsCased (cs : List Char) : Bool :=
  match cs.dropWhile isCaseIgnorable with
  | [] => false
  | c :: _ => isCased c

def capitalSigma : Char := '\u03A3'

def smallSigma : Char := '\u03C3'

def finalSigma : Char := '\u03C2'

/-- Lower case of a character between those before it, latest first, and those after it. -/
def lowerBetween (before : List Char) (c : Char) (rest : List Char) : List Char :=
  if c = capitalSigma then
    [if startsCased before && !startsCased rest then finalSigma else smallSigma]
  else lowerChar c

def lowerAfter : List Char → List Char → List Char
  | _, [] => []
  | before, c :: rest => lowerBetween before c rest ++ lowerAfter (c :: before) rest

def lowerOnto (done : List Char) : List Char → List Char → List Char
  | _, [] => done
  | before, c :: rest =>
    lowerOnto ((lowerBetween before c rest).reverseAux done) (c :: before) rest

theorem lowerOnto_eq (done before cs : List Char) :
    lowerOnto done before cs = (lowerAfter before cs).reverse ++ done := by
  induction cs generalizing done before with
  | nil => rfl
  | cons c rest ih => simp [lowerOnto, lowerAfter, ih, List.reverseAux_eq]

def upper (s : String) : String := String.ofList (s.toList.flatMap upperChar)

def lower (s : String) : String := String.ofList (lowerOnto [] [] s.toList).reverse

theorem lower_eq (s : String) : lower s = String.ofList (lowerAfter [] s.toList) := by
  simp [lower, lowerOnto_eq]

end ReactiveView.Text
