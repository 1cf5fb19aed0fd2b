import Mathlib.Data.List.Basic
import ReactiveView.Expr.Function

namespace ReactiveView.Text

def padding (atStart : Bool) : Builtin := if atStart then .padStart else .padEnd

def padArguments (s : String) (width : Int) (fill : Option String) : List Value :=
  .str s :: .int width :: (fill.map .str).toList

def fillChar (fill : Option String) : Char := (fill.getD "").toList.headD ' '

/-- A text with copies of a character in front of it or behind it. -/
def Extends (atStart : Bool) (s : String) (c : Char) (r : String) : Prop :=
  ∃ n, r.toList = if atStart then List.replicate n c ++ s.toList else s.toList ++ List.replicate n c

theorem toList_pushn (s : String) (c : Char) (n : Nat) : (s.pushn c n).toList = s.toList ++ List.replicate n c := by
  induction n with
  | zero => exact (List.append_nil _).symm
  | succ n ih =>
    change ((s.pushn c n).push c).toList = _
    rw [String.toList_push, ih, List.replicate_succ', List.append_assoc]

section Padded

variable (atStart : Bool) (s : String) (width : Int) (fill : String)

theorem toList_padded : (Builtin.padded atStart s width fill).toList =
    let copies := List.replicate (width - s.length).toNat (fill.toList.headD ' ')
    if atStart then copies ++ s.toList else s.toList ++ copies := by
  rw [Builtin.padded]
  dsimp only
  split_ifs with hnone hstart
  · simp [hnone]
  · simp [hnone]
  · rw [String.toList_append, toList_pushn]
    simp
  · rw [toList_pushn]

theorem length_padded : ((Builtin.padded atStart s width fill).length : Int) = max (s.length : Int) width := by
  rw [← String.length_toList, toList_padded, ← String.length_toList]
  dsimp only
  split
  · rw [List.length_append, List.length_replicate]
    omega
  · rw [List.length_append, List.length_replicate]
    omega

theorem padded_of_le {s : String} {width : Int} (h : width ≤ s.length) : Builtin.padded atStart s width fill = s := by
  rw [Builtin.padded, if_pos (by omega)]

end Padded

theorem apply_padding (atStart : Bool) (s : String) (width : Int) (fill : Option String) :
    (padding atStart).apply (padArguments s width fill) =
      if memoryLimitBytes < width then .error (.sandbox (.widthExceeded (padding atStart) width))
      else .ok (.str (Builtin.padded atStart s width (fill.getD " "))) := by
  cases atStart <;> cases fill <;> rfl

theorem headD_getD (fill : Option String) : (fill.getD " ").toList.headD ' ' = fillChar fill := by
  cases fill <;> rfl

/-- A width beyond the memory limit is a violation. Otherwise the text is filled up to the width, on one side and with
the first character of the fill, and is then wide enough for any width up to that one. -/
theorem pads_to_width (atStart : Bool) (s : String) (width : Int) (fill : Option String) :
    ((∃ violation, (padding atStart).apply (padArguments s width fill) = .error (.sandbox violation) ∧
      violation.code = .memoryExceeded) ↔ 16777216 < width) ∧
    (width ≤ 16777216 → ∃ r, (padding atStart).apply (padArguments s width fill) = .ok (.str r) ∧
      (r.length : Int) = max (s.length : Int) width ∧
      Builtin.len.apply [.str r] = .ok (.ofInt (max (s.length : Int) width)) ∧
      Extends atStart s (fillChar fill) r ∧
      ∀ (again : Bool) (narrower : Int) (other : Option String), narrower ≤ width →
        (padding again).apply (padArguments r narrower other) = .ok (.str r)) := by
  have hlimit : memoryLimitBytes = 16777216 := rfl
  rw [apply_padding, hlimit]
  constructor
  · split_ifs with hwidth
    · exact iff_of_true ⟨_, rfl, rfl⟩ hwidth
    · exact iff_of_false (by simp) hwidth
  · intro hwidth
    have hlength := length_padded atStart s width (fill.getD " ")
    rw [if_neg (Int.not_lt.2 hwidth)]
    refine ⟨_, rfl, hlength, ?len, ⟨(width - s.length).toNat, ?shape⟩, fun again narrower other hle => ?again⟩
    case len =>
      rw [← hlength]
      rfl
    case shape => rw [toList_padded, headD_getD]
    case again => rw [apply_padding, hlimit, if_neg (by omega), padded_of_le _ _ (by omega)]

end ReactiveView.Text
