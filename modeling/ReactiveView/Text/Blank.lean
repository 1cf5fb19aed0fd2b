namespace ReactiveView.Text

/-- Code points of the white space outside ASCII: the space separators, the two line separators and
the zero-width no-break space. -/
def wideBlanks : List Nat :=
  [0xA0, 0x1680, 0x2000, 0x2001, 0x2002, 0x2003, 0x2004, 0x2005, 0x2006, 0x2007, 0x2008, 0x2009,
   0x200A, 0x2028, 0x2029, 0x202F, 0x205F, 0x3000, 0xFEFF]

def isBlank (c : Char) : Bool :=
  c == ' ' || (0x9 ≤ c.toNat && c.toNat ≤ 0xD) || (0x80 ≤ c.toNat && wideBlanks.contains c.toNat)

theorem isBlank_of_isWhitespace {c : Char} (h : c.isWhitespace = true) : isBlank c = true := by
  simp only [Char.isWhitespace, Bool.or_eq_true, decide_eq_true_eq] at h
  rcases h with ((h | h) | h) | h <;> subst h <;> decide

def stripChars (cs : List Char) : List Char :=
  ((cs.dropWhile isBlank).reverse.dropWhile isBlank).reverse

def strip (s : String) : String := String.ofList (stripChars s.toList)

def isBlankText (s : String) : Bool := s.toList.all isBlank

theorem dropWhile_eq_nil {p : Char → Bool} {cs : List Char} :
    cs.dropWhile p = [] ↔ cs.all p = true := by
  induction cs with
  | nil => simp
  | cons c cs ih => cases h : p c <;> simp [h, ih]

theorem stripChars_eq_nil {cs : List Char} : stripChars cs = [] ↔ cs.all isBlank = true := by
  rw [← dropWhile_eq_nil]
  constructor
  · intro h
    rw [stripChars, List.reverse_eq_nil_iff, dropWhile_eq_nil, List.all_reverse] at h
    cases hd : cs.dropWhile isBlank with
    | nil => rfl
    | cons c rest =>
      have hc : isBlank c = false := by
        have := List.head_dropWhile_not isBlank (l := cs) (by simp [hd])
        simpa [hd] using this
      simp [hd, hc] at h
  · intro h
    simp [stripChars, h]

end ReactiveView.Text
