import ReactiveView.View.Tree

namespace ReactiveView

/-- Equal, or binary64 numbers at a distance below the closeness of change detection. -/
def Value.Near (v w : Value) : Prop :=
  v = w ∨ ∃ x y, v = .float x ∧ w = .float y ∧ (x.sub y).abs.numLt Binary64.closeness = true

def Output.Near : Output → Output → Prop
  | .value v, .value w => v.Near w
  | .color c, .color d => c = d
  | _, _ => False

namespace Binary64

theorem eq_or_zeros_of_rank_eq {s t : Bool} {a b : Fin (infinityCode + 1)}
    (h : (signed s a).rank = (signed t b).rank) :
    signed s a = signed t b ∨ a = ⟨0, by decide⟩ ∧ b = ⟨0, by decide⟩ := by
  cases s with
  | false =>
    cases t with
    | false =>
      have hab : a = b := Fin.ext (Int.ofNat.inj h)
      exact Or.inl (by rw [hab])
    | true =>
      simp only [rank] at h
      exact Or.inr ⟨Fin.ext (by dsimp only; omega), Fin.ext (by dsimp only; omega)⟩
  | true =>
    cases t with
    | true =>
      simp only [rank] at h
      have hab : a = b := Fin.ext (by omega)
      exact Or.inl (by rw [hab])
    | false =>
      simp only [rank] at h
      exact Or.inr ⟨Fin.ext (by dsimp only; omega), Fin.ext (by dsimp only; omega)⟩

theorem zeros_near (s t : Bool) :
    ((signedZero s).sub (signedZero t)).abs.numLt closeness = true := by
  cases s <;> cases t <;> decide +kernel

theorem eq_or_lt_of_close {x y : Binary64} (h : x.close y = true) :
    x = y ∨ (x.sub y).abs.numLt closeness = true := by
  rw [close] at h
  rw [Bool.or_eq_true] at h
  rcases h with heq | hlt
  · cases x with
    | nan => cases heq
    | signed s a =>
      cases y with
      | nan => simp [numEq, isNaN] at heq
      | signed t b =>
        have hrank : (signed s a).rank = (signed t b).rank := by simpa [numEq, isNaN] using heq
        rcases eq_or_zeros_of_rank_eq hrank with h | ⟨rfl, rfl⟩
        · exact Or.inl h
        · exact Or.inr (zeros_near s t)
  · exact Or.inr hlt

end Binary64

theorem Value.near_of_identical {v w : Value} (h : v.identical w = true) : v.Near w := by
  cases v with
  | float x =>
    cases w with
    | float y =>
      exact (Binary64.eq_or_lt_of_close h).imp (congrArg Value.float) fun hlt => ⟨x, y, rfl, rfl, hlt⟩
    | int n | str s | bool b | null => cases h
  | int m =>
    cases w with
    | int n => exact Or.inl (congrArg Value.int (by simpa [identical] using h))
    | float x | str s | bool b | null => cases h
  | str s =>
    cases w with
    | str t => exact Or.inl (congrArg Value.str (by simpa [identical] using h))
    | int n | float x | bool b | null => cases h
  | bool b =>
    cases w with
    | bool c => exact Or.inl (congrArg Value.bool (by simpa [identical] using h))
    | int n | float x | str s | null => cases h
  | null =>
    cases w with
    | null => exact Or.inl rfl
    | int n | float x | str s | bool b => cases h

theorem Value.Near.size_eq {v w : Value} (h : v.Near w) : v.size = w.size := by
  rcases h with rfl | ⟨x, y, rfl, rfl, -⟩
  · rfl
  · rfl

theorem Output.near_refl (o : Output) : o.Near o := by
  cases o with
  | value v => exact Or.inl rfl
  | color c => rfl

theorem Output.near_of_same {o p : Output} (h : o.same p = true) : o.Near p := by
  cases o with
  | value v =>
    cases p with
    | value w => exact Value.near_of_identical h
    | color c => cases h
  | color c =>
    cases p with
    | color d => simpa [same, Near] using h
    | value w => cases h

end ReactiveView
