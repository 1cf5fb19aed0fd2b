namespace ReactiveView.Text

def occursIn (part : List Char) : List Char → Bool
  | [] => part.isEmpty
  | c :: rest => part.isPrefixOf (c :: rest) || occursIn part rest

/-- Cut a text at the leftmost occurrences of a target that do not overlap. The pieces that are complete and the
characters read of the next one stand in reverse; `skip` characters of the last occurrence are still to be passed
over. -/
def splitOnto (target : List Char) :
    List (List Char) → List Char → Nat → List Char → List (List Char)
  | done, piece, _, [] => (piece.reverse :: done).reverse
  | done, piece, skip + 1, _ :: rest => splitOnto target done piece skip rest
  | done, piece, 0, c :: rest =>
    if target.isPrefixOf (c :: rest) then
      splitOnto target (piece.reverse :: done) [] (target.length - 1) rest
    else splitOnto target done (c :: piece) 0 rest

def split (target s : List Char) : List (List Char) := splitOnto target [] [] 0 s

/-- Replace every occurrence: cut the text there and join the pieces again. An empty target stands before every
character and at the end. -/
def replaceChars (target replacement s : List Char) : List Char :=
  if !target.isEmpty then replacement.intercalate (split target s)
  else if s.isEmpty then replacement
  else replacement ++ replacement.intercalate (s.map fun c => [c]) ++ replacement

def contains (s part : String) : Bool := occursIn part.toList s.toList

def startsWith (s part : String) : Bool := part.toList.isPrefixOf s.toList

def endsWith (s part : String) : Bool := part.toList.reverse.isPrefixOf s.toList.reverse

def replace (s target replacement : String) : String :=
  String.ofList (replaceChars target.toList replacement.toList s.toList)

end ReactiveView.Text
