import Mathlib.Data.Nat.Digits.Defs
import ReactiveView.Proofs.Exactness
import ReactiveView.Proofs.Ranges
import ReactiveView.Proofs.Stripping

namespace ReactiveView

namespace Numeral

inductive Sign where
  | none
  | plus
  | minus

namespace Sign

def text : Sign → List Char
  | .none => []
  | .plus => ['+']
  | .minus => ['-']

def isNegative : Sign → Bool
  | .minus => true
  | _ => false

def apply : Sign → Nat → Int
  | .minus, n => -n
  | _, n => n

end Sign

structure IsDigits (cs : List Char) : Prop where
  ne_nil : cs ≠ []
  isDigit : ∀ c ∈ cs, c.isDigit = true

inductive IsMantissa : List Char → Prop where
  | whole {ds : List Char} (h : IsDigits ds) : IsMantissa ds
  | point {ds fraction : List Char} (h : IsDigits ds) (hfraction : ∀ c ∈ fraction, c.isDigit = true) :
      IsMantissa (ds ++ '.' :: fraction)
  | fraction {ds : List Char} (h : IsDigits ds) : IsMantissa ('.' :: ds)

inductive IsExponent : List Char → Prop where
  | absent : IsExponent []
  | scaled {mark : Char} (hmark : mark = 'e' ∨ mark = 'E') (sign : Sign) {ds : List Char} (h : IsDigits ds) :
      IsExponent (mark :: (sign.text ++ ds))

inductive IsNumeral : List Char → Prop where
  | mk (sign : Sign) {mantissa exponent : List Char} (hmantissa : IsMantissa mantissa)
      (hexponent : IsExponent exponent) : IsNumeral (sign.text ++ (mantissa ++ exponent))

theorem bounds_of_isDigit {c : Char} (h : c.isDigit = true) : 48 ≤ c.toNat ∧ c.toNat ≤ 57 := by
  simp only [Char.isDigit, Bool.and_eq_true, decide_eq_true_eq] at h
  exact h

theorem not_isBlank_of_isDigit {c : Char} (h : c.isDigit = true) : Text.isBlank c = false := by
  rw [Bool.eq_false_iff]
  intro hblank
  have := Text.bounds_of_isBlank hblank
  have := bounds_of_isDigit h
  omega

theorem not_sign_of_isDigit {c : Char} (h : c.isDigit = true) : c ≠ '-' ∧ c ≠ '+' := by
  constructor <;> rintro rfl <;> cases h

theorem IsDigits.head {ds : List Char} (h : IsDigits ds) (rest : List Char) :
    ∃ c ∈ (ds ++ rest).head?, c.isDigit = true := by
  obtain ⟨c, tail, rfl⟩ := List.exists_cons_of_ne_nil h.ne_nil
  exact ⟨c, rfl, h.isDigit c List.mem_cons_self⟩

theorem exists_sign (cs : List Char) :
    ∃ (sign : Sign) (rest : List Char), cs = sign.text ++ rest ∧ readSign cs = (sign.isNegative, rest) := by
  rw [readSign.eq_def]
  split
  · exact ⟨.minus, _, rfl, rfl⟩
  · exact ⟨.plus, _, rfl, rfl⟩
  · exact ⟨.none, _, rfl, rfl⟩

theorem readSign_append (sign : Sign) {rest : List Char} (h : ∀ c ∈ rest.head?, c ≠ '-' ∧ c ≠ '+') :
    readSign (sign.text ++ rest) = (sign.isNegative, rest) := by
  cases sign with
  | plus | minus => rfl
  | none =>
    rw [Sign.text, List.nil_append, readSign.eq_def]
    split
    · exact absurd rfl (h '-' rfl).1
    · exact absurd rfl (h '+' rfl).2
    · rfl

theorem readDigits_append {ds rest : List Char} (h : ∀ c ∈ ds, c.isDigit = true)
    (hrest : ∀ c ∈ rest.head?, c.isDigit = false) : readDigits (ds ++ rest) = (ds, rest) := by
  obtain ⟨htake, hdrop⟩ := Text.takeWhile_dropWhile_append h hrest
  rw [readDigits, htake, hdrop]

theorem exists_digits (cs : List Char) :
    ∃ ds rest, cs = ds ++ rest ∧ (∀ c ∈ ds, c.isDigit = true) ∧ ∀ c ∈ rest.head?, c.isDigit = false :=
  ⟨_, _, List.takeWhile_append_dropWhile.symm, List.all_eq_true.1 List.all_takeWhile, Text.head?_dropWhile⟩

theorem isDigits_iff {cs : List Char} : (cs.isEmpty || !cs.all Char.isDigit) = false ↔ IsDigits cs := by
  rw [Bool.or_eq_false_iff, List.isEmpty_eq_false_iff, Bool.not_eq_false', List.all_eq_true]
  exact ⟨fun h => ⟨h.1, h.2⟩, fun h => ⟨h.ne_nil, h.isDigit⟩⟩

theorem readExponent?_isSome_iff {cs : List Char} : (readExponent? cs).isSome = true ↔ IsExponent cs := by
  constructor
  · intro h
    cases cs with
    | nil => exact .absent
    | cons mark rest =>
      rw [readExponent?] at h
      split at h
      · rename_i hmark
        obtain ⟨sign, ds, rfl, hsign⟩ := exists_sign rest
        rw [hsign] at h
        dsimp only at h
        split at h
        · cases h
        · rename_i hds
          exact .scaled hmark sign (isDigits_iff.1 (Bool.not_eq_true _ ▸ hds))
      · cases h
  · rintro (_ | ⟨hmark, sign, hds⟩)
    · rfl
    · obtain ⟨c, hc, hdigit⟩ := hds.head []
      rw [List.append_nil] at hc
      have hsign := readSign_append sign fun d hd => by
        rw [Option.mem_unique hd hc]
        exact not_sign_of_isDigit hdigit
      rw [readExponent?, if_pos hmark, hsign]
      dsimp only
      rw [isDigits_iff.2 hds]
      rfl

theorem IsExponent.head {exponent : List Char} (h : IsExponent exponent) :
    ∀ c ∈ exponent.head?, c = 'e' ∨ c = 'E' := by
  cases h with
  | absent => simp
  | scaled hmark sign hds =>
    rintro c ⟨⟩
    exact hmark

theorem IsMantissa.head {mantissa : List Char} (h : IsMantissa mantissa) (rest : List Char) :
    ∀ c ∈ (mantissa ++ rest).head?, c ≠ '-' ∧ c ≠ '+' := by
  have hdigits {ds : List Char} (hds : IsDigits ds) (tail : List Char) :
      ∀ c ∈ (ds ++ tail).head?, c ≠ '-' ∧ c ≠ '+' := by
    intro c hc
    obtain ⟨d, hd, hdigit⟩ := hds.head tail
    rw [Option.mem_unique hc hd]
    exact not_sign_of_isDigit hdigit
  cases h with
  | whole hds => exact hdigits hds rest
  | point hds hfraction =>
    rw [List.append_assoc]
    exact hdigits hds _
  | fraction hds =>
    rintro c ⟨⟩
    decide

section Reading

variable {cs ds exponent : List Char} {negative : Bool} (hds : ∀ c ∈ ds, c.isDigit = true)

include hds

theorem isSome_read?_point {fraction : List Char}
    (hsign : readSign cs = (negative, ds ++ '.' :: (fraction ++ exponent)))
    (hfraction : ∀ c ∈ fraction, c.isDigit = true) (hexponent : ∀ c ∈ exponent.head?, c.isDigit = false) :
    (read? cs).isSome = true ↔ (ds ≠ [] ∨ fraction ≠ []) ∧ IsExponent exponent := by
  have hpoint : ∀ c ∈ ('.' :: (fraction ++ exponent)).head?, c.isDigit = false := by
    rintro c ⟨⟩
    rfl
  rw [read?, hsign]
  dsimp only
  rw [readDigits_append hds hpoint]
  split
  · rename_i after hafter
    cases hafter
    rw [readDigits_append hfraction hexponent, ← readExponent?_isSome_iff]
    cases ds <;> cases fraction <;> simp
  · rename_i hother
    exact absurd rfl (hother _)

theorem isSome_read?_whole (hsign : readSign cs = (negative, ds ++ exponent))
    (hexponent : ∀ c ∈ exponent.head?, c.isDigit = false ∧ c ≠ '.') :
    (read? cs).isSome = true ↔ ds ≠ [] ∧ IsExponent exponent := by
  rw [read?, hsign]
  dsimp only
  rw [readDigits_append hds fun c hc => (hexponent c hc).1, ← readExponent?_isSome_iff]
  split
  · rename_i hafter
    dsimp only at hafter
    subst hafter
    exact absurd rfl (hexponent '.' rfl).2
  · cases ds <;> simp

end Reading

theorem read?_isSome_iff {cs : List Char} : (read? cs).isSome = true ↔ IsNumeral cs := by
  constructor
  · intro h
    obtain ⟨sign, body, rfl, hsign⟩ := exists_sign cs
    obtain ⟨ds, rest, rfl, hds, hrest⟩ := exists_digits body
    by_cases hpoint : '.' ∈ rest.head?
    · obtain ⟨after, rfl⟩ : ∃ after, rest = '.' :: after := List.head?_eq_some_iff.1 hpoint
      obtain ⟨fraction, exponent, rfl, hfraction, hexponent⟩ := exists_digits after
      obtain ⟨hne, hexp⟩ := (isSome_read?_point hds hsign hfraction hexponent).1 h
      by_cases hwhole : ds = []
      · have hmantissa : IsMantissa ('.' :: fraction) := .fraction ⟨hne.resolve_left (not_not.2 hwhole), hfraction⟩
        have hnumeral := IsNumeral.mk sign hmantissa hexp
        rwa [hwhole]
      · have hmantissa : IsMantissa (ds ++ '.' :: fraction) := .point ⟨hwhole, hds⟩ hfraction
        have hnumeral := IsNumeral.mk sign hmantissa hexp
        rwa [List.append_assoc] at hnumeral
    · have hplain : ∀ c ∈ rest.head?, c.isDigit = false ∧ c ≠ '.' := fun c hc =>
        ⟨hrest c hc, fun hdot => hpoint (hdot ▸ hc)⟩
      obtain ⟨hne, hexp⟩ := (isSome_read?_whole hds hsign hplain).1 h
      exact .mk sign (.whole ⟨hne, hds⟩) hexp
  · rintro @⟨sign, mantissa, exponent, hmantissa, hexponent⟩
    have hsign := readSign_append sign (hmantissa.head exponent)
    have hmark : ∀ c ∈ exponent.head?, c.isDigit = false ∧ c ≠ '.' := fun c hc => by
      rcases hexponent.head c hc with rfl | rfl <;> decide
    cases hmantissa with
    | whole hds => exact (isSome_read?_whole hds.isDigit hsign hmark).2 ⟨hds.ne_nil, hexponent⟩
    | point hds hfraction =>
      rw [List.append_assoc] at hsign ⊢
      exact (isSome_read?_point hds.isDigit hsign hfraction fun c hc => (hmark c hc).1).2
        ⟨Or.inl hds.ne_nil, hexponent⟩
    | fraction hds =>
      exact (isSome_read?_point (List.forall_mem_nil _) hsign hds.isDigit fun c hc => (hmark c hc).1).2
        ⟨Or.inr hds.ne_nil, hexponent⟩

def denoted (ds : List Char) : Nat := Nat.ofDigits 10 (ds.reverse.map fun c => c.toNat - '0'.toNat)

theorem digitValue_eq_denoted (ds : List Char) : digitValue ds = denoted ds := by
  rw [denoted, Nat.ofDigits_eq_foldr, List.foldr_map, List.foldr_reverse, digitValue]
  congr 1
  funext n c
  exact Nat.add_comm _ _

theorem readInt?_append (sign : Sign) {ds : List Char} (h : IsDigits ds) :
    readInt? (sign.text ++ ds) = some (sign.apply (denoted ds)) := by
  have hsign := readSign_append sign ((IsMantissa.whole h).head [])
  rw [List.append_nil] at hsign
  rw [readInt?, hsign]
  dsimp only
  rw [isDigits_iff.2 h, digitValue_eq_denoted]
  cases sign <;> rfl

/-- White space, an optional sign, digits, and white space, with the number that stands there. -/
inductive WholeText : List Char → Int → Prop where
  | mk {before ds after : List Char} (sign : Sign) (hbefore : ∀ c ∈ before, Text.isBlank c = true)
      (h : IsDigits ds) (hafter : ∀ c ∈ after, Text.isBlank c = true) :
      WholeText (before ++ (sign.text ++ ds ++ after)) (sign.apply (denoted ds))

theorem readInt?_of_wholeText {cs : List Char} {n : Int} (h : WholeText cs n) :
    readInt? (Text.stripChars cs) = some n := by
  obtain @⟨before, ds, after, sign, hbefore, hds, hafter⟩ := h
  have hsolid : ∀ c ∈ sign.text ++ ds, Text.isBlank c = false := by
    refine List.forall_mem_append.2 ⟨?_, fun c hc => not_isBlank_of_isDigit (hds.isDigit c hc)⟩
    intro c hc
    cases sign with
    | none => cases hc
    | plus | minus =>
      rw [List.mem_singleton.1 hc]
      decide
  have hstripped : Text.Stripped (before ++ (sign.text ++ ds ++ after)) (sign.text ++ ds) :=
    ⟨⟨before, after, rfl, hbefore, hafter⟩, fun c hc => hsolid c (List.mem_of_mem_head? hc),
      fun c hc => hsolid c (List.mem_of_mem_getLast? hc)⟩
  rw [hstripped.eq_stripChars, readInt?_append sign hds]

theorem isDigits_toDigits (n : Nat) : IsDigits (Nat.toDigits 10 n) :=
  ⟨Nat.toDigits_ne_nil, fun _ hc => Nat.isDigit_of_mem_toDigits (by decide) (by decide) hc⟩

theorem denoted_toDigits (n : Nat) : denoted (Nat.toDigits 10 n) = n := by
  rw [← digitValue_eq_denoted]
  exact Nat.ofDigitChars_ten_toDigits

theorem wholeText_toString (n : Int) : WholeText (toString n).toList n := by
  have hdigits (sign : Sign) (m : Nat) :
      WholeText (sign.text ++ Nat.toDigits 10 m) (sign.apply m) := by
    have h := @WholeText.mk [] _ [] sign (List.forall_mem_nil _) (isDigits_toDigits m) (List.forall_mem_nil _)
    rwa [List.nil_append, List.append_nil, denoted_toDigits] at h
  cases n with
  | ofNat m =>
    have htext : (toString (Int.ofNat m)).toList = Sign.none.text ++ Nat.toDigits 10 m :=
      String.toList_ofList
    rw [htext]
    exact hdigits .none m
  | negSucc m =>
    have htext : (toString (Int.negSucc m)).toList = Sign.minus.text ++ Nat.toDigits 10 (m + 1) := by
      have hsplit : toString (Int.negSucc m) = "-" ++ String.ofList (Nat.toDigits 10 (m + 1)) := rfl
      rw [hsplit, String.toList_append, String.toList_ofList, String.toList_ofList]
      rfl
    rw [htext]
    exact hdigits .minus (m + 1)

theorem clamp64_eq (n : Int) : Builtin.clamp64 n = max (-2 ^ 63) (min n (2 ^ 63 - 1)) := by
  have hmax : Builtin.maxInt = 2 ^ 63 - 1 := rfl
  have hmin : Builtin.minInt = -2 ^ 63 := rfl
  rw [Builtin.clamp64, hmax, hmin]
  split
  · omega
  · split <;> omega

section Conversions

variable {s : String} {n : Int} {x : Binary64}

theorem apply_float_of_some (h : Binary64.ofText? (Text.stripChars s.toList) = some x) :
    Builtin.float.apply [.str s] = .ok (.float x) := by
  change Builtin.toFloat (.str s) = _
  rw [Builtin.toFloat, h]

theorem apply_float_of_none (h : Binary64.ofText? (Text.stripChars s.toList) = none) :
    Builtin.float.apply [.str s] = Builtin.reject (.notConvertible .float (.str s)) := by
  change Builtin.toFloat (.str s) = _
  rw [Builtin.toFloat, h]

/-- Text of a whole number is read exactly; only other text goes through the binary64 numbers. -/
theorem apply_int_of_whole (h : readInt? (Text.stripChars s.toList) = some n) :
    Builtin.int.apply [.str s] = .ok (.int (Builtin.clamp64 n)) := by
  change Builtin.toInt (.str s) = _
  rw [Builtin.toInt, h]

section Inexact

variable (hwhole : readInt? (Text.stripChars s.toList) = none)

include hwhole

theorem apply_int_of_some (h : Binary64.ofText? (Text.stripChars s.toList) = some x) :
    Builtin.int.apply [.str s] = Builtin.toWhole .int (Binary64.Rounding.towardZero.round x) := by
  change Builtin.toInt (.str s) = _
  rw [Builtin.toInt, hwhole, h]

theorem apply_int_of_none (h : Binary64.ofText? (Text.stripChars s.toList) = none) :
    Builtin.int.apply [.str s] = Builtin.reject (.notConvertible .int (.str s)) := by
  change Builtin.toInt (.str s) = _
  rw [Builtin.toInt, hwhole, h]

end Inexact

end Conversions

/-- Decimal text reads as the number that stands there, moved to the nearest one of 64 bits, however many digits it
has. So a whole number of 64 bits is read back from its text. -/
theorem int_of_wholeText :
    (∀ (s : String) (n : Int), WholeText s.toList n →
      Builtin.int.apply [.str s] = .ok (.int (max (-2 ^ 63) (min n (2 ^ 63 - 1))))) ∧
    ∀ n : Int, Has64Bits n → ∃ s, Builtin.str.apply [.int n] = .ok (.str s) ∧
      Builtin.int.apply [.str s] = .ok (.int n) := by
  have hread (s : String) (n : Int) (h : WholeText s.toList n) :
      Builtin.int.apply [.str s] = .ok (.int (max (-2 ^ 63) (min n (2 ^ 63 - 1)))) := by
    rw [← clamp64_eq]
    exact apply_int_of_whole (readInt?_of_wholeText h)
  refine ⟨hread, fun n hn => ⟨toString n, rfl, ?_⟩⟩
  rw [hread _ n (wholeText_toString n)]
  obtain ⟨hlow, hhigh⟩ := hn
  have hsame : max (-2 ^ 63) (min n (2 ^ 63 - 1)) = n := by omega
  rw [hsame]

/-- A number beyond 64 bits, behind a no-break space and zeros, and the least number of 64 bits. -/
theorem int_of_overlong :
    WholeText "\u00a0-00018446744073709551617\n".toList (-18446744073709551617) ∧ Has64Bits (-2 ^ 63) ∧
      Builtin.int.apply [.str "\u00a0-00018446744073709551617\n"] = .ok (.int (-2 ^ 63)) ∧
      ∃ s, Builtin.str.apply [.int (-2 ^ 63)] = .ok (.str s) ∧
        Builtin.int.apply [.str s] = .ok (.int (-2 ^ 63)) := by
  have htext : WholeText "\u00a0-00018446744073709551617\n".toList (-18446744073709551617) := by
    have hds : IsDigits "00018446744073709551617".toList :=
      ⟨by decide, List.all_eq_true.1 (by decide)⟩
    have h := @WholeText.mk ['\u00a0'] _ ['\n'] .minus (List.forall_mem_singleton.2 (by decide)) hds
      (List.forall_mem_singleton.2 (by decide))
    have hvalue : Sign.minus.apply (denoted "00018446744073709551617".toList) = -18446744073709551617 := by
      decide +kernel
    rwa [hvalue] at h
  have hbits : Has64Bits (-2 ^ 63) := ⟨by decide, by decide⟩
  exact ⟨htext, hbits, int_of_wholeText.1 _ _ htext, int_of_wholeText.2 _ hbits⟩

theorem isNaN_round (rounding : Binary64.Rounding) (x : Binary64) : (rounding.round x).isNaN = x.isNaN := by
  cases x with
  | nan => rfl
  | signed negative code =>
    rw [Binary64.Rounding.round]
    split
    · exact Binary64.isNaN_ofUnits _ _
    · rfl

theorem isNaN_toBinary64 (n : Numeral) : n.toBinary64.isNaN = false := by
  rw [toBinary64, Decimal.toBinary64]
  dsimp only
  split
  · rfl
  · split
    · rfl
    · split
      · rfl
      · split <;> rfl

theorem ofText?_of_isNumeral {cs : List Char} (h : IsNumeral cs) :
    ∃ x, Binary64.ofText? cs = some x ∧ x.isNaN = false := by
  obtain ⟨n, hn⟩ := Option.isSome_iff_exists.1 (read?_isSome_iff.2 h)
  exact ⟨n.toBinary64, by rw [Binary64.ofText?, hn], isNaN_toBinary64 n⟩

theorem ofText?_isSome_iff {cs : List Char} : (Binary64.ofText? cs).isSome = true ↔
    cs = "inf".toList ∨ cs = "-inf".toList ∨ cs = "NaN".toList ∨ IsNumeral cs := by
  have hinf : "inf".toList = ['i', 'n', 'f'] := rfl
  have hneg : "-inf".toList = ['-', 'i', 'n', 'f'] := rfl
  have hnan : "NaN".toList = ['N', 'a', 'N'] := rfl
  rw [← read?_isSome_iff, Binary64.ofText?, hinf, hneg, hnan]
  cases read? cs with
  | some n => simp
  | none =>
    dsimp only
    split_ifs <;> simp [*]

theorem isNumeral_of_readInt? {cs : List Char} {n : Int} (h : readInt? cs = some n) : IsNumeral cs := by
  obtain ⟨sign, ds, rfl, hsign⟩ := exists_sign cs
  rw [readInt?, hsign] at h
  dsimp only at h
  split at h
  · cases h
  · rename_i hds
    have hnumeral := IsNumeral.mk sign (.whole (isDigits_iff.1 (Bool.not_eq_true _ ▸ hds))) .absent
    rwa [List.append_nil] at hnumeral

theorem exists_toWhole_iff {b : Builtin} {x : Binary64} :
    (∃ v, Builtin.toWhole b x = .ok v) ↔ x.isNaN = false := by
  cases hn : x.isNaN with
  | true => simp [Builtin.toWhole, Builtin.reject, hn]
  | false => exact iff_of_true (Builtin.exists_toWhole b hn) rfl

def Mismatches (answer : Builtin.Answer) : Prop :=
  FailsOnly (fun fault => ∃ cause, fault = .evaluation cause ∧ cause.errorClass = .typeMismatch) answer

theorem mismatches_reject {cause : EvalError} (h : cause.errorClass = .typeMismatch) :
    Mismatches (Builtin.reject cause) := FailsOnly.error ⟨cause, rfl, h⟩

theorem mismatches_toWhole (b : Builtin) (x : Binary64) : Mismatches (Builtin.toWhole b x) := by
  cases hn : x.isNaN with
  | true =>
    rw [Builtin.toWhole, if_pos hn]
    exact mismatches_reject rfl
  | false =>
    obtain ⟨v, hv⟩ := exists_toWhole_iff.2 hn
    rw [hv]
    exact FailsOnly.ok v

/-- Text converts to a binary64 number just if it is a numeral, or the name of an infinity or of what is not a number,
with white space around it. It converts to a whole number just if that binary64 number is a number. Otherwise the
conversion is a mismatch of types. -/
theorem int_accepts_float (s : String) :
    (∃ t, Text.Stripped s.toList t ∧ ((∃ v, Builtin.float.apply [.str s] = .ok v) ↔
      t = "inf".toList ∨ t = "-inf".toList ∨ t = "NaN".toList ∨ IsNumeral t)) ∧
    ((∃ v, Builtin.int.apply [.str s] = .ok v) ↔
      ∃ x, Builtin.float.apply [.str s] = .ok (.float x) ∧ x.isNaN = false) ∧
    Mismatches (Builtin.float.apply [.str s]) ∧ Mismatches (Builtin.int.apply [.str s]) := by
  have hstripped := Text.stripped_stripChars s.toList
  cases htext : Binary64.ofText? (Text.stripChars s.toList) with
  | none =>
    have hwhole : readInt? (Text.stripChars s.toList) = none := by
      cases h : readInt? (Text.stripChars s.toList) with
      | none => rfl
      | some n =>
        obtain ⟨x, hx, -⟩ := ofText?_of_isNumeral (isNumeral_of_readInt? h)
        rw [hx] at htext
        cases htext
    rw [apply_float_of_none htext, apply_int_of_none hwhole htext]
    refine ⟨⟨_, hstripped, ?_⟩, ?_, mismatches_reject rfl, mismatches_reject rfl⟩
    · rw [← ofText?_isSome_iff, htext]
      simp [Builtin.reject]
    · simp [Builtin.reject]
  | some x =>
    have haccepted := ofText?_isSome_iff.1 (Option.isSome_iff_exists.2 ⟨x, htext⟩)
    rw [apply_float_of_some htext]
    cases hwhole : readInt? (Text.stripChars s.toList) with
    | some n =>
      obtain ⟨y, hy, hnumber⟩ := ofText?_of_isNumeral (isNumeral_of_readInt? hwhole)
      obtain rfl : x = y := Option.some.inj (htext.symm.trans hy)
      rw [apply_int_of_whole hwhole]
      exact ⟨⟨_, hstripped, iff_of_true ⟨_, rfl⟩ haccepted⟩, iff_of_true ⟨_, rfl⟩ ⟨x, rfl, hnumber⟩,
        FailsOnly.ok _, FailsOnly.ok _⟩
    | none =>
      rw [apply_int_of_some hwhole htext, exists_toWhole_iff, isNaN_round]
      refine ⟨⟨_, hstripped, iff_of_true ⟨_, rfl⟩ haccepted⟩, ?_, FailsOnly.ok _, mismatches_toWhole _ _⟩
      simp

end Numeral

end ReactiveView
