import ReactiveView.Proofs.Modular

namespace ReactiveView

def Value.IsNumber (v : Value) : Prop := ∃ x, v.number? = some x ∧ x.isNaN = false

/-- Different numbers that equality takes for the same: one of them at least is not whole, and read as binary64
numbers they differ, at a distance below the closeness of change detection. -/
def Value.Indistinct (v w : Value) : Prop :=
  ¬(v.kind = .int ∧ w.kind = .int) ∧ ∃ x y, v.number? = some x ∧ w.number? = some y ∧
    x.rank ≠ y.rank ∧ (x.sub y).abs.numLt Binary64.closeness = true

theorem Binary64.close_iff {x y : Binary64} (hx : x.isNaN = false) (hy : y.isNaN = false) :
    x.close y = true ↔ x.rank = y.rank ∨ (x.sub y).abs.numLt closeness = true := by
  simp [close, numEq, hx, hy]

/-- Unless both numbers are whole, equality looks at them as binary64 numbers. -/
theorem Value.equal_eq_close {v w : Value} {x y : Binary64}
    (hmixed : ¬(v.kind = .int ∧ w.kind = .int)) (hx : v.number? = some x) (hy : w.number? = some y) :
    v.equal w = x.close y := by
  cases v with
  | int m =>
    cases w with
    | int n => exact absurd ⟨rfl, rfl⟩ hmixed
    | float y' =>
      cases hx
      cases hy
      rfl
    | str t | bool c | null => cases hy
  | float x' =>
    cases hx
    cases w with
    | int n | float y' =>
      cases hy
      rfl
    | str t | bool c | null => cases hy
  | str s | bool b | null => cases hx

namespace Expr

theorem order?_eq_compare {x y : Binary64} (hx : x.isNaN = false) (hy : y.isNaN = false) :
    order? x y = some (compare x.rank y.rank) := by
  simp [order?, hx, hy]

theorem applyRelational_eq_order? {v w : Value} {x y : Binary64} (op : RelationalOp)
    (hmixed : ¬(v.kind = .int ∧ w.kind = .int)) (hx : v.number? = some x) (hy : w.number? = some y) :
    applyRelational op v w = .ok (.bool ((order? x y).any op.holds)) := by
  rw [applyRelational]
  · simp only [hx, hy]
    cases order? x y with
    | none => rfl
    | some o => rfl
  · intro m n hv hw
    rw [hv, hw] at hmixed
    exact hmixed ⟨rfl, rfl⟩

theorem exists_order {v w : Value} (hv : v.IsNumber) (hw : w.IsNumber) :
    ∃ o : Ordering, (∀ op, applyRelational op v w = .ok (.bool (op.holds o))) ∧
      (v.equal w = true ↔ o = .eq ∨ v.Indistinct w) ∧ (v.Indistinct w → o ≠ .eq) := by
  by_cases hwhole : v.kind = .int ∧ w.kind = .int
  · cases v with
    | int m =>
      cases w with
      | int n =>
        have hexact : ¬(Value.int m).Indistinct (.int n) := fun h => h.1 ⟨rfl, rfl⟩
        refine ⟨compare m n, fun op => rfl, ?_, fun h => absurd h hexact⟩
        rw [or_iff_left hexact, compare_eq_iff_eq]
        exact beq_iff_eq
      | float y | str t | bool c | null => cases hwhole.2
    | float x | str s | bool b | null => cases hwhole.1
  · obtain ⟨x, hx, hxn⟩ := hv
    obtain ⟨y, hy, hyn⟩ := hw
    have hindistinct : v.Indistinct w ↔
        x.rank ≠ y.rank ∧ (x.sub y).abs.numLt Binary64.closeness = true := by
      simp [Value.Indistinct, hwhole, hx, hy]
    refine ⟨compare x.rank y.rank, fun op => ?_, ?_, fun h => ?_⟩
    · rw [applyRelational_eq_order? op hwhole hx hy, order?_eq_compare hxn hyn, Option.any_some]
    · rw [Value.equal_eq_close hwhole hx hy, Binary64.close_iff hxn hyn, hindistinct,
        compare_eq_iff_eq]
      by_cases hrank : x.rank = y.rank <;> simp [hrank]
    · rw [Ne, compare_eq_iff_eq]
      exact (hindistinct.1 h).1

def IsTrue (s : State) (e : Expr) : Prop := e.evaluate s = .ok (.bool true)

theorem isTrue_iff {s : State} {e : Expr} {b : Bool} (h : e.evaluate s = .ok (.bool b)) :
    e.IsTrue s ↔ b = true := by
  simp [IsTrue, h]

/-- The comparisons of two numbers evaluate to truth values. If the numbers are not indistinct, exactly one of
less, equal and greater is true, and the weak relations are less or equal and greater or equal. Indistinct numbers
are equal, and one of them is less than the other all the same; the weak relations hold just where the strict ones
do. Inequality is the negation of equality. -/
theorem comparisons_agree {s : State} {l r : Expr} {v w : Value} (hl : l.evaluate s = .ok v)
    (hr : r.evaluate s = .ok w) (hv : v.IsNumber) (hw : w.IsNumber) :
    let lt := Expr.binary (.relational .lt) l r
    let gt := Expr.binary (.relational .gt) l r
    let le := Expr.binary (.relational .le) l r
    let ge := Expr.binary (.relational .ge) l r
    let eq := Expr.binary .eq l r
    let ne := Expr.binary .ne l r
    (∀ e ∈ [lt, gt, le, ge, eq, ne], ∃ b, e.evaluate s = .ok (.bool b)) ∧
    (¬v.Indistinct w →
      (lt.IsTrue s ∧ ¬eq.IsTrue s ∧ ¬gt.IsTrue s ∨ ¬lt.IsTrue s ∧ eq.IsTrue s ∧ ¬gt.IsTrue s ∨
        ¬lt.IsTrue s ∧ ¬eq.IsTrue s ∧ gt.IsTrue s) ∧
      (le.IsTrue s ↔ lt.IsTrue s ∨ eq.IsTrue s) ∧ (ge.IsTrue s ↔ gt.IsTrue s ∨ eq.IsTrue s)) ∧
    (v.Indistinct w →
      eq.IsTrue s ∧ (lt.IsTrue s ↔ ¬gt.IsTrue s) ∧ (le.IsTrue s ↔ lt.IsTrue s) ∧
        (ge.IsTrue s ↔ gt.IsTrue s)) ∧
    (ne.IsTrue s ↔ ¬eq.IsTrue s) := by
  intro lt gt le ge eq ne
  obtain ⟨o, horder, hequal, hstrict⟩ := exists_order hv hw
  have hrelation (op : RelationalOp) :
      (Expr.binary (.relational op) l r).evaluate s = .ok (.bool (op.holds o)) := by
    rw [evaluate_binary_of_ok hl hr rfl]
    exact horder op
  have heq : eq.evaluate s = .ok (.bool (v.equal w)) := evaluate_binary_of_ok hl hr rfl
  have hne : ne.evaluate s = .ok (.bool (!v.equal w)) := evaluate_binary_of_ok hl hr rfl
  refine ⟨?_, ?_⟩
  · simp only [List.forall_mem_cons, List.not_mem_nil, false_implies, implies_true, and_true]
    exact ⟨⟨_, hrelation .lt⟩, ⟨_, hrelation .gt⟩, ⟨_, hrelation .le⟩, ⟨_, hrelation .ge⟩,
      ⟨_, heq⟩, ⟨_, hne⟩⟩
  · have hlt : lt.IsTrue s ↔ o = .lt := by
      rw [isTrue_iff (hrelation .lt), RelationalOp.holds, beq_iff_eq]
    have hgt : gt.IsTrue s ↔ o = .gt := by
      rw [isTrue_iff (hrelation .gt), RelationalOp.holds, beq_iff_eq]
    have hle : le.IsTrue s ↔ o ≠ .gt := by
      rw [isTrue_iff (hrelation .le), RelationalOp.holds, bne_iff_ne]
    have hge : ge.IsTrue s ↔ o ≠ .lt := by
      rw [isTrue_iff (hrelation .ge), RelationalOp.holds, bne_iff_ne]
    have hequals : eq.IsTrue s ↔ o = .eq ∨ v.Indistinct w := by rw [isTrue_iff heq, hequal]
    have hdiffers : ne.IsTrue s ↔ ¬eq.IsTrue s := by
      rw [isTrue_iff hne, isTrue_iff heq, Bool.not_eq_true', Bool.not_eq_true]
    rw [hdiffers, hlt, hgt, hle, hge, hequals]
    cases o with
    | lt | gt => simp
    | eq =>
      have hdistinct : ¬v.Indistinct w := fun h => hstrict h rfl
      simp [hdistinct]

/-- A whole number beyond `2 ^ 53` and the binary64 number that it rounds to are not indistinct: they are equal, and
none is less than the other. -/
theorem rounded_compares :
    let v : Value := .int 0x20000000000001
    let w : Value := .float (.ofBits 0x4340000000000000)
    let s : State := Table.ofList [("count", v), ("level", w)]
    let count := Expr.ident "count"
    let level := Expr.ident "level"
    v.IsNumber ∧ w.IsNumber ∧ ¬v.Indistinct w ∧
      (Expr.binary .eq count level).IsTrue s ∧ (Expr.binary (.relational .le) count level).IsTrue s ∧
      ¬(Expr.binary (.relational .lt) count level).IsTrue s ∧
      ¬(Expr.binary (.relational .gt) count level).IsTrue s := by
  intro v w s count level
  have hv : v.IsNumber := ⟨_, rfl, by decide +kernel⟩
  have hw : w.IsNumber := ⟨_, rfl, by decide +kernel⟩
  have hplace : (Binary64.ofInt 0x20000000000001).rank = (Binary64.ofBits 0x4340000000000000).rank := by
    decide +kernel
  have hdistinct : ¬v.Indistinct w := by
    rintro ⟨-, x, y, hx, hy, hrank, -⟩
    rw [← Option.some.inj hx, ← Option.some.inj hy] at hrank
    exact hrank hplace
  have hequal : (Expr.binary .eq count level).IsTrue s := by
    rw [IsTrue]
    decide +kernel
  have hcount : count.evaluate s = .ok v := rfl
  have hlevel : level.evaluate s = .ok w := rfl
  obtain ⟨-, hexact, -, -⟩ := comparisons_agree hcount hlevel hv hw
  obtain ⟨hone, hle, -⟩ := hexact hdistinct
  refine ⟨hv, hw, hdistinct, hequal, hle.2 (Or.inr hequal), ?_⟩
  cases hone with
  | inl hless => exact absurd hequal hless.2.1
  | inr hrest =>
    cases hrest with
    | inl hsame => exact ⟨hsame.1, hsame.2.2⟩
    | inr hgreater => exact absurd hequal hgreater.2.1

/-- The sum of 0.1 and 0.2 equals 0.3, and is greater. -/
theorem tenths_equal_and_greater :
    let s : State := Table.empty
    let sum := Expr.binary (.arithmetic .add) (.literal (.float (.ofBits 0x3FB999999999999A)))
      (.literal (.float (.ofBits 0x3FC999999999999A)))
    let tenths := Expr.literal (.float (.ofBits 0x3FD3333333333333))
    (∃ v w, sum.evaluate s = .ok v ∧ tenths.evaluate s = .ok w ∧ v.IsNumber ∧ w.IsNumber) ∧
      (Expr.binary .eq sum tenths).IsTrue s ∧ (Expr.binary (.relational .gt) sum tenths).IsTrue s := by
  intro s sum tenths
  refine ⟨⟨.float (.ofBits 0x3FD3333333333334), .float (.ofBits 0x3FD3333333333333), ?_, rfl,
    ⟨_, rfl, by decide +kernel⟩, ⟨_, rfl, by decide +kernel⟩⟩, ?_, ?_⟩
  · decide +kernel
  · rw [IsTrue]
    decide +kernel
  · rw [IsTrue]
    decide +kernel

end Expr

end ReactiveView
