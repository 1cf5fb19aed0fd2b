import Mathlib.Algebra.Group.Nat.Defs
import ReactiveView.Binary64.Arithmetic

namespace ReactiveView.Binary64

/-- The whole numbers below this bound have binary64 numbers of their own, and sums and differences among
them are exact. -/
def exactBound : Nat := Nat.pow 2 53

theorem unitsPerOne_eq {k : Nat} (h : k = 1074) : unitsPerOne = 2 ^ k := by
  subst h
  decide +kernel

theorem unitsPerOne_pos : 0 < unitsPerOne := by
  obtain ⟨k, hk⟩ : ∃ k, k = 1074 := ⟨_, rfl⟩
  rw [unitsPerOne_eq hk]
  exact Nat.two_pow_pos k

theorem units_of_bracket {exponent q : Nat} (hlo : codesPerSpacing ≤ q) (hhi : q < 2 * codesPerSpacing) :
    units (exponent * codesPerSpacing + q) = q * 2 ^ exponent := by
  have hpos : 0 < codesPerSpacing := by decide
  have hq : q / codesPerSpacing = 1 := Nat.div_eq_of_lt_le (by omega) (by omega)
  have hspacing : spacing (exponent * codesPerSpacing + q) = exponent := by
    rw [spacing, Nat.add_comm, Nat.add_mul_div_right q exponent hpos, hq]
    omega
  rw [units, significand, hspacing, Nat.add_sub_cancel_left, Nat.pow_eq]

theorem units_of_lt {code : Nat} (h : code < 2 * codesPerSpacing) : units code = code := by
  have hspacing : spacing code = 0 := by
    have : code / codesPerSpacing < 2 := Nat.div_lt_of_lt_mul (by omega)
    rw [spacing]
    omega
  rw [units, significand, hspacing]
  simp

theorem exists_bracket {code : Nat} (h : codesPerSpacing ≤ code) :
    ∃ exponent q, codesPerSpacing ≤ q ∧ q < 2 * codesPerSpacing ∧
      code = exponent * codesPerSpacing + q := by
  have hpos : 0 < codesPerSpacing := by decide
  have hdiv := Nat.div_add_mod' code codesPerSpacing
  have hmod := Nat.mod_lt code hpos
  have hone : 1 ≤ code / codesPerSpacing := (Nat.one_le_div_iff hpos).2 h
  refine ⟨code / codesPerSpacing - 1, code % codesPerSpacing + codesPerSpacing, by omega, by omega, ?_⟩
  obtain ⟨k, hk⟩ := Nat.exists_eq_add_of_le' hone
  rw [hk, Nat.add_mul] at hdiv
  rw [hk, Nat.add_sub_cancel]
  omega

theorem units_lt_units {a b : Nat} (h : a < b) : units a < units b := by
  by_cases ha : a < codesPerSpacing
  · rw [units_of_lt (by omega)]
    by_cases hb : b < 2 * codesPerSpacing
    · rwa [units_of_lt hb]
    · obtain ⟨exponent, q, hlo, hhi, rfl⟩ := exists_bracket (by omega : codesPerSpacing ≤ b)
      rw [units_of_bracket hlo hhi]
      have := Nat.le_mul_of_pos_right q (Nat.two_pow_pos exponent)
      omega
  · obtain ⟨e, p, hp, hp', rfl⟩ := exists_bracket (Nat.le_of_not_lt ha)
    obtain ⟨f, q, hq, hq', rfl⟩ := exists_bracket (by omega : codesPerSpacing ≤ b)
    rw [units_of_bracket hp hp', units_of_bracket hq hq']
    have hef : e ≤ f := by
      refine Nat.not_lt.1 fun hfe => ?_
      have := Nat.mul_le_mul_right codesPerSpacing (show f + 1 ≤ e by omega)
      rw [Nat.add_mul] at this
      omega
    obtain ⟨d, rfl⟩ := Nat.exists_eq_add_of_le hef
    rw [Nat.pow_add, Nat.mul_comm (2 ^ e), ← Nat.mul_assoc]
    refine Nat.mul_lt_mul_of_pos_right ?_ (Nat.two_pow_pos e)
    cases d with
    | zero =>
      rw [Nat.pow_zero, Nat.mul_one]
      rw [Nat.add_zero] at h
      omega
    | succ d =>
      -- the larger significand is at least half the smaller one's bound
      have := Nat.le_mul_of_pos_right (2 * q) (Nat.two_pow_pos d)
      rw [Nat.pow_succ, Nat.mul_comm (2 ^ d), ← Nat.mul_assoc, Nat.mul_comm q]
      omega

theorem units_le_units {a b : Nat} (h : a ≤ b) : units a ≤ units b := by
  rcases Nat.eq_or_lt_of_le h with rfl | hlt
  · exact Nat.le_refl _
  · exact Nat.le_of_lt (units_lt_units hlt)

theorem roundHalfEven_of_dvd {num den : Nat} (hden : 0 < den) (h : den ∣ num) :
    roundHalfEven num den = num / den := by
  rw [roundHalfEven, Nat.mod_eq_zero_of_dvd h]
  exact if_pos hden

theorem le_roundHalfEven (num den : Nat) : num / den ≤ roundHalfEven num den := by
  rw [roundHalfEven]
  split
  · exact Nat.le_refl _
  · split <;> omega

theorem log2_eq {n k : Nat} (hlo : 2 ^ k ≤ n) (hhi : n < 2 ^ (k + 1)) : Nat.log2 n = k :=
  (Nat.log2_eq_iff (by have := Nat.two_pow_pos k; omega)).2 ⟨hlo, hhi⟩

theorem le_log2_of_le {a b num : Nat} (h : 2 ^ a * 2 ^ b ≤ num) : num ≠ 0 ∧ a + b ≤ Nat.log2 num := by
  rw [← Nat.pow_add] at h
  have hne : num ≠ 0 := Nat.ne_of_gt (Nat.lt_of_lt_of_le (Nat.two_pow_pos _) h)
  exact ⟨hne, (Nat.le_log2 hne).2 h⟩

theorem nearestCode_of_bracket {exponent q : Nat} (hlo : codesPerSpacing ≤ q)
    (hhi : q < 2 * codesPerSpacing) :
    nearestCode (q * 2 ^ exponent) 1 = exponent * codesPerSpacing + q := by
  have hc : codesPerSpacing = 2 ^ 52 := by decide
  have hpos := Nat.two_pow_pos exponent
  have hlog : Nat.log2 (q * 2 ^ exponent / 1) - 52 = exponent := by
    rw [Nat.div_one, log2_eq (k := 52 + exponent), Nat.add_sub_cancel_left]
    · rw [Nat.pow_add, ← hc]
      exact Nat.mul_le_mul_right _ hlo
    · rw [show 52 + exponent + 1 = 53 + exponent by omega, Nat.pow_add]
      exact Nat.mul_lt_mul_of_pos_right (by omega) hpos
  rw [nearestCode, hlog, Nat.pow_eq, Nat.one_mul, roundHalfEven_of_dvd hpos (Nat.dvd_mul_left ..),
    Nat.mul_div_cancel _ hpos]

def boundCode : Nat := 1076 * codesPerSpacing

theorem boundCode_le_nearestCode {num : Nat} (h : exactBound * unitsPerOne ≤ num) :
    boundCode ≤ nearestCode num 1 := by
  have hc : codesPerSpacing = 2 ^ 52 := by decide
  have hb : exactBound = 2 ^ 53 := by decide
  obtain ⟨k, hk⟩ : ∃ k, k = 1074 := ⟨_, rfl⟩
  rw [hb, unitsPerOne_eq hk] at h
  obtain ⟨hne, hlog⟩ := le_log2_of_le h
  obtain ⟨exponent, hexp⟩ := Nat.exists_eq_add_of_le (show 52 ≤ Nat.log2 num by omega)
  have hq : codesPerSpacing ≤ num / 2 ^ exponent := by
    rw [Nat.le_div_iff_mul_le (Nat.two_pow_pos _), hc, ← Nat.pow_add, ← hexp]
    exact Nat.log2_self_le hne
  have hround := le_roundHalfEven num (2 ^ exponent)
  have hmul := Nat.mul_le_mul_right codesPerSpacing (show 1075 ≤ exponent by omega)
  rw [nearestCode, Nat.div_one, hexp, Nat.add_sub_cancel_left, Nat.pow_eq, Nat.one_mul, boundCode]
  omega

theorem nearestCode_whole {n : Nat} (h : n < exactBound) :
    units (nearestCode (n * unitsPerOne) 1) = n * unitsPerOne ∧
      nearestCode (n * unitsPerOne) 1 < boundCode := by
  have hc : codesPerSpacing = 2 ^ 52 := by decide
  rcases Nat.eq_zero_or_pos n with rfl | hn
  · rw [Nat.zero_mul]
    decide
  · obtain ⟨k, hk⟩ : ∃ k, Nat.log2 n = k := ⟨_, rfl⟩
    have hk52 : k ≤ 52 := by
      have : Nat.log2 n < 53 := (Nat.log2_lt (by omega)).2 h
      omega
    have hlo : 2 ^ k ≤ n := hk ▸ Nat.log2_self_le (by omega)
    have hhi : n < 2 ^ (k + 1) := hk ▸ Nat.lt_log2_self
    -- move the leading digit to the place of a significand
    have hsplit : n * unitsPerOne = n * 2 ^ (52 - k) * 2 ^ (1022 + k) := by
      rw [Nat.mul_assoc, ← Nat.pow_add, unitsPerOne_eq (by omega : 52 - k + (1022 + k) = 1074)]
    have hq : codesPerSpacing ≤ n * 2 ^ (52 - k) := by
      have := Nat.mul_le_mul_right (2 ^ (52 - k)) hlo
      rwa [← Nat.pow_add, show k + (52 - k) = 52 by omega, ← hc] at this
    have hq' : n * 2 ^ (52 - k) < 2 * codesPerSpacing := by
      have := Nat.mul_lt_mul_of_pos_right hhi (Nat.two_pow_pos (52 - k))
      rwa [← Nat.pow_add, show k + 1 + (52 - k) = 53 by omega] at this
    rw [hsplit, nearestCode_of_bracket hq hq', units_of_bracket hq hq']
    refine ⟨rfl, ?_⟩
    have := Nat.mul_le_mul_right codesPerSpacing (show 1022 + k ≤ 1074 by omega)
    rw [boundCode]
    omega

def codeOf (n : Int) : Nat := min (nearestCode (n.natAbs * unitsPerOne) 1) infinityCode

theorem ofInt_eq (n : Int) :
    ofInt n = .signed (decide (n < 0)) ⟨codeOf n, Nat.lt_succ_of_le (Nat.min_le_right ..)⟩ := by
  have hu := unitsPerOne_pos
  rw [ofInt, ofUnits]
  by_cases hn : n = 0
  · subst hn
    decide +kernel
  · have hmul : n * unitsPerOne ≠ 0 := by
      rw [Int.mul_ne_zero_iff]
      exact ⟨hn, by omega⟩
    have hneg : n * (unitsPerOne : Int) < 0 ↔ n < 0 := by
      refine ⟨fun h => Int.not_le.1 fun hn => ?_, fun h => Int.mul_neg_of_neg_of_pos h (by omega)⟩
      have := Int.mul_nonneg hn (Int.natCast_nonneg unitsPerOne)
      omega
    rw [if_neg hmul, ofRatio, ofCode, Int.natAbs_mul, Int.natAbs_natCast]
    simp only [hneg, codeOf]

theorem isNaN_ofInt (n : Int) : (ofInt n).isNaN = false := by
  rw [ofInt_eq]
  rfl

theorem isNegative_ofInt (n : Int) : (ofInt n).isNegative = decide (n < 0) := by
  rw [ofInt_eq]
  rfl

theorem codeOf_lt {n : Int} (h : n.natAbs < exactBound) : codeOf n < boundCode :=
  Nat.lt_of_le_of_lt (Nat.min_le_left ..) (nearestCode_whole h).2

theorem boundCode_lt : boundCode < infinityCode := by decide

theorem units_codeOf {n : Int} (h : n.natAbs < exactBound) :
    units (codeOf n) = n.natAbs * unitsPerOne := by
  obtain ⟨hunits, hlt⟩ := nearestCode_whole h
  rw [codeOf, Nat.min_eq_left (Nat.le_of_lt (Nat.lt_trans hlt boundCode_lt)), hunits]

theorem isInfinite_ofInt {n : Int} (h : n.natAbs < exactBound) : (ofInt n).isInfinite = false := by
  have hlt := Nat.lt_trans (codeOf_lt h) boundCode_lt
  rw [ofInt_eq]
  exact beq_eq_false_iff_ne.2 (Nat.ne_of_lt hlt)

theorem signedUnits_ofInt {n : Int} (h : n.natAbs < exactBound) :
    (ofInt n).signedUnits = n * unitsPerOne := by
  have hunits := congrArg (Int.ofNat) (units_codeOf h)
  simp only [Int.ofNat_eq_natCast, Int.natCast_mul] at hunits
  rw [ofInt_eq]
  by_cases hn : n < 0
  · simp only [hn, decide_true, signedUnits, hunits]
    rw [show ((n.natAbs : Nat) : Int) = -n by omega, Int.neg_mul, Int.neg_neg]
  · simp only [hn, decide_false, signedUnits, hunits]
    rw [show ((n.natAbs : Nat) : Int) = n by omega]

/-- A whole sum is rounded to its number; an exact zero must come out positive. -/
theorem ofUnits_whole {zeroNegative : Bool} {n : Int} (h : n = 0 → zeroNegative = false) :
    ofUnits zeroNegative (n * unitsPerOne) = ofInt n := by
  rw [ofInt, ofUnits, ofUnits]
  split
  · rename_i hzero
    have hu : (unitsPerOne : Int) ≠ 0 := by
      have := unitsPerOne_pos
      omega
    rw [h ((Int.mul_eq_zero.1 hzero).resolve_right hu)]
  · rfl

theorem isNaN_ofUnits (zeroNegative : Bool) (units : Int) :
    (ofUnits zeroNegative units).isNaN = false := by
  rw [ofUnits]
  split <;> rfl

theorem add_eq (x y : Binary64) : x + y = add x y := rfl

theorem sub_eq (x y : Binary64) : x - y = add x y.neg := rfl

theorem natCast_mk {α : Type} (f : Nat → α) (n : Nat) : @Nat.cast α ⟨f⟩ n = f n := rfl

-- by the general lemma, since `rfl` starts to compute the number
theorem natCast_eq (n : Nat) : (n : Binary64) = ofInt n := natCast_mk (fun n => ofInt n) n

theorem zero_eq : (0 : Binary64) = ofInt 0 := by
  rw [ofInt, ofUnits, Int.zero_mul, if_pos rfl]
  rfl

theorem isNaN_add {x y : Binary64} (hx : x.isNaN = false) (hy : y.isNaN = false)
    (hinf : x.isInfinite = false) : (add x y).isNaN = false := by
  rw [add, hx, hy, hinf]
  simp only [Bool.or_self, Bool.false_eq_true, if_false]
  split
  · exact hy
  · exact isNaN_ofUnits _ _

theorem isNaN_add_ofInt {u : Int} (h : u.natAbs < exactBound) (a : Int) :
    (ofInt u + ofInt a).isNaN = false := by
  rw [add_eq]
  exact isNaN_add (isNaN_ofInt u) (isNaN_ofInt a) (isInfinite_ofInt h)

theorem ofInt_add {a b : Int} (ha : a.natAbs < exactBound) (hb : b.natAbs < exactBound) :
    ofInt a + ofInt b = ofInt (a + b) := by
  rw [add_eq, add, isNaN_ofInt, isNaN_ofInt, isInfinite_ofInt ha, isInfinite_ofInt hb, signedUnits_ofInt ha,
    signedUnits_ofInt hb, ← Int.add_mul, isNegative_ofInt, isNegative_ofInt]
  refine ofUnits_whole fun hzero => ?_
  rw [Bool.and_eq_false_iff, decide_eq_false_iff_not, decide_eq_false_iff_not]
  omega

theorem isNaN_neg (x : Binary64) : x.neg.isNaN = x.isNaN := by cases x <;> rfl

theorem isInfinite_neg (x : Binary64) : x.neg.isInfinite = x.isInfinite := by cases x <;> rfl

theorem signedUnits_neg (x : Binary64) : x.neg.signedUnits = -x.signedUnits := by
  rcases x with _ | ⟨_ | _, code⟩
  · rfl
  · rfl
  · exact (Int.neg_neg _).symm

theorem isNegative_neg {x : Binary64} (h : x.isNaN = false) : x.neg.isNegative = !x.isNegative := by
  cases x with
  | nan => cases h
  | signed negative code => rfl

theorem ofInt_sub {a b : Int} (ha : a.natAbs < exactBound) (hb : b.natAbs < exactBound) :
    ofInt a - ofInt b = ofInt (a - b) := by
  rw [sub_eq, add, isNaN_neg, isInfinite_neg, isNaN_ofInt, isNaN_ofInt, isInfinite_ofInt ha,
    isInfinite_ofInt hb, signedUnits_neg, signedUnits_ofInt ha, signedUnits_ofInt hb,
    ← Int.sub_eq_add_neg, ← Int.sub_mul, isNegative_neg (isNaN_ofInt b), isNegative_ofInt,
    isNegative_ofInt]
  refine ofUnits_whole fun hzero => ?_
  rw [Bool.and_eq_false_iff, Bool.not_eq_false', decide_eq_false_iff_not, decide_eq_true_iff]
  omega

theorem sub_neg (x y : Binary64) : x - -y = x + y := by
  change add x y.neg.neg = add x y
  rcases y with _ | ⟨_ | _, code⟩ <;> rfl

theorem lt_iff {x y : Binary64} :
    x < y ↔ x.isNaN = false ∧ y.isNaN = false ∧ x.rank < y.rank := by
  change (!x.isNaN && !y.isNaN && decide (x.rank < y.rank)) = true ↔ _
  simp [and_assoc]

theorem lt_trans {x y z : Binary64} (h : x < y) (h' : y < z) : x < z := by
  rw [lt_iff] at *
  exact ⟨h.1, h'.2.1, by omega⟩

theorem lt_of_not_lt {x y z : Binary64} (hx : x.isNaN = false) (h : ¬y < x) (h' : y < z) : x < z := by
  rw [lt_iff] at *
  have hle : x.rank ≤ y.rank := Int.not_lt.1 fun hlt => h ⟨h'.1, hx, hlt⟩
  exact ⟨hx, h'.2.1, Int.lt_of_le_of_lt hle h'.2.2⟩

theorem rank_ofInt (n : Int) : (ofInt n).rank = if n < 0 then -(codeOf n : Int) else codeOf n := by
  rw [ofInt_eq]
  by_cases hn : n < 0 <;> simp [hn, rank]

theorem codeOf_lt_codeOf {a b : Int} (hb : b.natAbs < exactBound) (h : a.natAbs < b.natAbs) :
    codeOf a < codeOf b := by
  refine Nat.not_le.1 fun hle => ?_
  have hunits := units_le_units hle
  rw [units_codeOf hb, units_codeOf (Nat.lt_trans h hb)] at hunits
  exact Nat.not_lt.2 (Nat.le_of_mul_le_mul_right hunits unitsPerOne_pos) h

theorem rank_ofInt_lt {a b : Int} (ha : a.natAbs < exactBound) (hb : b.natAbs < exactBound)
    (h : a < b) : (ofInt a).rank < (ofInt b).rank := by
  rw [rank_ofInt, rank_ofInt]
  by_cases hbneg : b < 0
  · rw [if_pos hbneg, if_pos (by omega)]
    have := codeOf_lt_codeOf ha (show b.natAbs < a.natAbs by omega)
    omega
  · rw [if_neg hbneg]
    by_cases haneg : a < 0
    · rw [if_pos haneg]
      have := codeOf_lt_codeOf (a := 0) ha (show (0 : Int).natAbs < a.natAbs by omega)
      omega
    · rw [if_neg haneg]
      have := codeOf_lt_codeOf hb (show a.natAbs < b.natAbs by omega)
      omega

theorem ofInt_lt_ofInt {a b : Int} (ha : a.natAbs < exactBound) (hb : b.natAbs < exactBound) :
    ofInt a < ofInt b ↔ a < b := by
  rw [lt_iff]
  refine ⟨fun h => ?_, fun h => ⟨isNaN_ofInt a, isNaN_ofInt b, rank_ofInt_lt ha hb h⟩⟩
  refine Int.not_le.1 fun hle => ?_
  rcases Int.lt_or_eq_of_le hle with hlt | rfl
  · have := rank_ofInt_lt hb ha hlt
    omega
  · omega

theorem not_lt_ofInt_of_le {x : Binary64} {a b : Int} (ha : a.natAbs < exactBound)
    (hb : b.natAbs < exactBound) (hle : a ≤ b) (h : ¬x < ofInt b) : ¬x < ofInt a := by
  rcases Int.lt_or_eq_of_le hle with hlt | rfl
  · rw [lt_iff] at h ⊢
    have := rank_ofInt_lt ha hb hlt
    exact fun hx => h ⟨hx.1, isNaN_ofInt b, by omega⟩
  · exact h

def bound : Binary64 := ofInt exactBound

theorem rank_bound : bound.rank = boundCode := by decide +kernel

theorem rank_lt_of_lt_bound {x : Binary64} (h : x < bound) : x.rank < boundCode := by
  have hrank := (lt_iff.1 h).2.2
  rwa [rank_bound] at hrank

/-- A sum that rounds to less than the bound was less than the bound. -/
theorem lt_of_rank_ofUnits {zeroNegative : Bool} {total : Int}
    (h : (ofUnits zeroNegative total).rank < boundCode) : total < exactBound * unitsPerOne := by
  refine Int.not_le.1 fun hge => ?_
  have hnat : exactBound * unitsPerOne ≤ total.natAbs := by omega
  have hcode := boundCode_le_nearestCode hnat
  have hpos : ¬total ≤ 0 := by
    have : 0 < exactBound * unitsPerOne := Nat.mul_pos (by decide) unitsPerOne_pos
    omega
  rw [ofUnits, if_neg (by omega), ofRatio, ofCode, decide_eq_false (by omega)] at h
  have hinf := boundCode_lt
  simp only [rank] at h
  omega

theorem natCast_lt_of_lt_bound {n : Nat} (h : ofInt n < bound) : n < exactBound := by
  have hlt := lt_of_rank_ofUnits (rank_lt_of_lt_bound h)
  have hu := unitsPerOne_pos
  have hmul : n * unitsPerOne < exactBound * unitsPerOne := by exact_mod_cast hlt
  exact Nat.lt_of_mul_lt_mul_right hmul

theorem add_natCast_lt_bound {u a : Nat} (hu : u < exactBound) (h : ofInt u + ofInt a < bound) :
    u + a < exactBound := by
  by_cases ha : a < exactBound
  · rw [ofInt_add (by omega) (by omega)] at h
    exact natCast_lt_of_lt_bound (by exact_mod_cast h)
  · exfalso
    have hrank := rank_lt_of_lt_bound h
    have hcode : boundCode ≤ codeOf a := by
      refine Nat.le_min.2 ⟨boundCode_le_nearestCode ?_, Nat.le_of_lt boundCode_lt⟩
      exact Nat.mul_le_mul_right _ (by omega)
    have hpos : ¬(a : Int) < 0 := by omega
    rw [add_eq, add, isNaN_ofInt, isNaN_ofInt, isInfinite_ofInt (by omega)] at hrank
    simp only [Bool.or_self, Bool.false_eq_true, if_false] at hrank
    split at hrank
    · rw [rank_ofInt, if_neg hpos] at hrank
      omega
    · have hlt := lt_of_rank_ofUnits hrank
      rw [signedUnits_ofInt (by omega)] at hlt
      have hunits : exactBound * unitsPerOne ≤ units (codeOf a) := by
        have hle := units_le_units hcode
        rwa [show units boundCode = exactBound * unitsPerOne by decide +kernel] at hle
      have hsigned : (ofInt a).signedUnits = units (codeOf a) := by
        rw [ofInt_eq]
        simp only [hpos, decide_false, signedUnits]
      rw [hsigned] at hlt
      have hmul : 0 ≤ (u : Int) * unitsPerOne := Int.mul_nonneg (by omega) (by omega)
      omega

end ReactiveView.Binary64
