import Mathlib.Data.Int.ModEq
import ReactiveView.Proofs.Ranges

namespace ReactiveView

theorem wrap64_modEq (n : Int) : wrap64 n ≡ n [ZMOD 2 ^ 64] := Int.bmod_emod

theorem Has64Bits.eq_of_modEq {m n : Int} (hm : Has64Bits m) (hn : Has64Bits n)
    (h : m ≡ n [ZMOD 2 ^ 64]) : m = n := by
  obtain ⟨hml, hmu⟩ := hm
  obtain ⟨hnl, hnu⟩ := hn
  have hdvd : (2 : Int) ^ 64 ∣ n - m := h.dvd
  omega

theorem wrap64_eq_of_modEq {m n : Int} (h : m ≡ n [ZMOD 2 ^ 64]) : wrap64 m = wrap64 n := by
  have hmn : wrap64 m ≡ wrap64 n [ZMOD 2 ^ 64] :=
    ((wrap64_modEq m).trans h).trans (wrap64_modEq n).symm
  exact (has64Bits_wrap64 m).eq_of_modEq (has64Bits_wrap64 n) hmn

theorem Has64Bits.wrap64_eq {n : Int} (h : Has64Bits n) : wrap64 n = n :=
  (has64Bits_wrap64 n).eq_of_modEq h (wrap64_modEq n)

namespace Expr

theorem pow_mod_two_mul_pow_div_two (base : Int) (exponent : Nat) :
    base ^ (exponent % 2) * (base * base) ^ (exponent / 2) = base ^ exponent := by
  rw [← pow_two, ← pow_mul, ← pow_add, Nat.mod_add_div]

/-- The result times the power that is left stays the same, modulo `2 ^ 64`, in every round. -/
theorem multiplyPow_modEq (result base : Int) (exponent : Nat) :
    multiplyPow result base exponent ≡ result * base ^ exponent [ZMOD 2 ^ 64] := by
  fun_induction multiplyPow result base exponent with
  | case1 result base => rw [pow_zero, mul_one]
  | case2 result base exponent hpos ih =>
    have hresult : (if exponent % 2 = 1 then wrap64 (result * base) else result) ≡
        result * base ^ (exponent % 2) [ZMOD 2 ^ 64] := by
      rcases Nat.mod_two_eq_zero_or_one exponent with h | h
      · rw [h, if_neg Nat.zero_ne_one, pow_zero, mul_one]
      · rw [h, if_pos rfl, pow_one]
        exact wrap64_modEq _
    have hbase := (wrap64_modEq (base * base)).pow (exponent / 2)
    calc
      _ ≡ _ * wrap64 (base * base) ^ (exponent / 2) [ZMOD 2 ^ 64] := ih
      _ ≡ result * base ^ (exponent % 2) * (base * base) ^ (exponent / 2) [ZMOD 2 ^ 64] :=
        hresult.mul hbase
      _ = result * base ^ exponent := by rw [mul_assoc, pow_mod_two_mul_pow_div_two]

theorem has64Bits_multiplyPow {result : Int} (h : Has64Bits result) (base : Int) (exponent : Nat) :
    Has64Bits (multiplyPow result base exponent) := by
  fun_induction multiplyPow result base exponent with
  | case1 => exact h
  | case2 result base exponent hpos ih =>
    apply ih
    split
    · exact has64Bits_wrap64 _
    · exact h

theorem wrappingPow_eq (base : Int) (exponent : Nat) :
    wrappingPow base exponent = wrap64 (base ^ exponent) := by
  have hone : Has64Bits 1 := ⟨by decide, by decide⟩
  have hpow : wrappingPow base exponent ≡ 1 * wrap64 base ^ exponent [ZMOD 2 ^ 64] :=
    multiplyPow_modEq 1 (wrap64 base) exponent
  rw [one_mul] at hpow
  have hexact := hpow.trans ((wrap64_modEq base).pow exponent)
  rw [← wrap64_eq_of_modEq hexact]
  exact (has64Bits_multiplyPow hone _ _).wrap64_eq.symm

/-- Exact values, over all whole numbers, of expressions of whole literals and variables with negation, sums,
differences, products and powers whose exponent is a literal that is not negative. -/
inductive Denotes (s : State) : Expr → Int → Prop where
  | literal (n : Int) : Denotes s (.literal (.int n)) n
  | ident {name : String} {n : Int} (h : s.get? name = some (.int n)) : Denotes s (.ident name) n
  | neg {e : Expr} {n : Int} (h : Denotes s e n) : Denotes s (.unary .neg e) (-n)
  | add {l r : Expr} {m n : Int} (hl : Denotes s l m) (hr : Denotes s r n) :
      Denotes s (.binary (.arithmetic .add) l r) (m + n)
  | sub {l r : Expr} {m n : Int} (hl : Denotes s l m) (hr : Denotes s r n) :
      Denotes s (.binary (.arithmetic .sub) l r) (m - n)
  | mul {l r : Expr} {m n : Int} (hl : Denotes s l m) (hr : Denotes s r n) :
      Denotes s (.binary (.arithmetic .mul) l r) (m * n)
  | pow {e : Expr} {n : Int} (h : Denotes s e n) (k : Nat) :
      Denotes s (.binary .pow e (.literal (.int k))) (n ^ k)

def IsOperation : Expr → Prop
  | .unary _ _ | .binary _ _ _ => True
  | .literal _ | .ident _ | .call _ _ => False

/-- The value of an expression is right modulo `2 ^ 64`. An operation wraps it, a literal and a variable pass
it on as it is. -/
def ComputesModulo (s : State) (e : Expr) (n : Int) : Prop :=
  ∃ m, e.evaluate s = .ok (.int m) ∧ m ≡ n [ZMOD 2 ^ 64] ∧ (e.IsOperation → Has64Bits m)

theorem evaluate_binary_of_ok {s : State} {op : BinaryOp} {l r : Expr} {v w : Value}
    (hl : l.evaluate s = .ok v) (hr : r.evaluate s = .ok w) (hop : decided? op v = none) :
    (Expr.binary op l r).evaluate s = applyBinary op v w := by
  rw [evaluate, hl, hr]
  simp only [bind, Except.bind, hop]

theorem computesModulo_of_wrapped {s : State} {e : Expr} {a n : Int}
    (he : e.evaluate s = .ok (.ofInt a)) (h : a ≡ n [ZMOD 2 ^ 64]) : ComputesModulo s e n :=
  ⟨wrap64 a, he, (wrap64_modEq a).trans h, fun _ => has64Bits_wrap64 a⟩

theorem Denotes.computesModulo {s : State} {e : Expr} {n : Int} (h : e.Denotes s n) :
    ComputesModulo s e n := by
  induction h with
  | literal n => exact ⟨n, by rw [evaluate], Int.ModEq.refl n, nofun⟩
  | @ident name n h => exact ⟨n, by rw [evaluate, lookup, h], Int.ModEq.refl n, nofun⟩
  | @neg e n h ih =>
    obtain ⟨a, ha, han, -⟩ := ih
    have hneg : (Expr.unary .neg e).evaluate s = .ok (.ofInt (-a)) := by
      rw [evaluate, ha]
      rfl
    exact computesModulo_of_wrapped hneg han.neg
  | @add l r m n hl hr ihl ihr =>
    obtain ⟨a, ha, ham, -⟩ := ihl
    obtain ⟨b, hb, hbn, -⟩ := ihr
    exact computesModulo_of_wrapped (evaluate_binary_of_ok ha hb rfl) (ham.add hbn)
  | @sub l r m n hl hr ihl ihr =>
    obtain ⟨a, ha, ham, -⟩ := ihl
    obtain ⟨b, hb, hbn, -⟩ := ihr
    exact computesModulo_of_wrapped (evaluate_binary_of_ok ha hb rfl) (ham.sub hbn)
  | @mul l r m n hl hr ihl ihr =>
    obtain ⟨a, ha, ham, -⟩ := ihl
    obtain ⟨b, hb, hbn, -⟩ := ihr
    exact computesModulo_of_wrapped (evaluate_binary_of_ok ha hb rfl) (ham.mul hbn)
  | @pow e n h k ih =>
    obtain ⟨a, ha, han, -⟩ := ih
    have hpower : wrappingPow a k ≡ n ^ k [ZMOD 2 ^ 64] := by
      rw [wrappingPow_eq]
      exact (wrap64_modEq _).trans (han.pow k)
    exact computesModulo_of_wrapped (evaluate_binary_of_ok ha (by rw [evaluate]) rfl) hpower

end Expr

end ReactiveView
