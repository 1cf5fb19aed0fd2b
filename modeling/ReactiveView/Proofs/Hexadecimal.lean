import Mathlib.Data.List.Basic
import ReactiveView.Color

namespace ReactiveView

theorem forall_char_lt {bound : Nat} {P : Char → Prop} (h : ∀ n < bound, P (Char.ofNat n)) {c : Char}
    (hc : c.toNat < bound) : P c := by
  have hn := h c.toNat hc
  rwa [Char.ofNat_toNat] at hn

namespace Color

def hexDigits : List Char := "0123456789abcdefABCDEF".toList

def unmarked : List Char → List Char
  | '#' :: rest => rest
  | cs => cs

def digitValue (c : Char) : Nat := (hexDigit? c).getD 0

theorem hexDigit?_eq_none_of_le {c : Char} (h : 0x67 ≤ c.toNat) : hexDigit? c = none := by
  have hle (d : Char) (hd : d.toNat < 0x67) : ¬c ≤ d := by
    intro hcd
    have hnat : c.toNat ≤ d.toNat := UInt32.le_iff_toNat_le.1 (Char.le_def.1 hcd)
    omega
  have hdigit : c.isDigit = false := by
    rw [Char.isDigit, Bool.and_eq_false_iff]
    exact .inr (decide_eq_false (hle '9' (by decide)))
  rw [hexDigit?, hdigit, if_neg Bool.false_ne_true, if_neg fun hf => hle 'f' (by decide) hf.2,
    if_neg fun hf => hle 'F' (by decide) hf.2]

theorem bounds_of_mem_hexDigits {c : Char} (h : c ∈ '#' :: hexDigits) : 0 < c.toNat ∧ c.toNat < 0x67 := by
  have hall : ('#' :: hexDigits).all (fun c => 0 < c.toNat && c.toNat < 0x67) = true := by decide
  simpa using List.all_eq_true.1 hall c h

theorem hexDigit?_eq (c : Char) : hexDigit? c = if c ∈ hexDigits then some (digitValue c) else none := by
  by_cases hc : c.toNat < 0x67
  · exact forall_char_lt (P := fun c => hexDigit? c = if c ∈ hexDigits then some (digitValue c) else none)
      (by decide +kernel) hc
  · rw [hexDigit?_eq_none_of_le (Nat.le_of_not_lt hc),
      if_neg fun h => hc (bounds_of_mem_hexDigits (List.mem_cons_of_mem _ h)).2]

theorem digitValue_lt {c : Char} (h : c ∈ hexDigits) : digitValue c < 16 := by
  have hall : hexDigits.all (fun c => digitValue c < 16) = true := by decide
  simpa using List.all_eq_true.1 hall c h

theorem digitValue_digitChar : ∀ n < 16, Nat.digitChar n ∈ hexDigits ∧ digitValue (Nat.digitChar n) = n := by
  decide

theorem mapM_hexDigit?_of_digits {cs : List Char} (h : ∀ c ∈ cs, c ∈ hexDigits) :
    cs.mapM hexDigit? = some (cs.map digitValue) := by
  induction cs with
  | nil => rfl
  | cons c rest ih =>
    obtain ⟨hc, hrest⟩ := List.forall_mem_cons.1 h
    rw [List.mapM_cons, ih hrest, hexDigit?_eq, if_pos hc]
    rfl

theorem mapM_hexDigit?_of_other {cs : List Char} (h : ¬∀ c ∈ cs, c ∈ hexDigits) : cs.mapM hexDigit? = none := by
  induction cs with
  | nil => exact absurd (List.forall_mem_nil _) h
  | cons c rest ih =>
    rw [List.mapM_cons, hexDigit?_eq]
    by_cases hc : c ∈ hexDigits
    · rw [if_pos hc, ih fun hrest => h (List.forall_mem_cons.2 ⟨hc, hrest⟩)]
      rfl
    · rw [if_neg hc]
      rfl

theorem ofHex?_eq_bind (s : String) : ofHex? s = ((unmarked s.toList).mapM hexDigit?).bind ofDigits? := by
  rw [ofHex?]
  unfold ofHexChars?
  split
  · rename_i rest hmark
    rw [hmark, unmarked]
  · rw [unmarked]
    assumption

theorem ofHex?_of_digits {s : String} (h : ∀ c ∈ unmarked s.toList, c ∈ hexDigits) :
    ofHex? s = ofDigits? ((unmarked s.toList).map digitValue) := by
  rw [ofHex?_eq_bind, mapM_hexDigit?_of_digits h, Option.bind_some]

theorem ofHex?_of_other {s : String} (h : ¬∀ c ∈ unmarked s.toList, c ∈ hexDigits) : ofHex? s = none := by
  rw [ofHex?_eq_bind, mapM_hexDigit?_of_other h, Option.bind_none]

theorem digits_of_ofHex? {s : String} {color : Color} (h : ofHex? s = some color) :
    ∀ c ∈ unmarked s.toList, c ∈ hexDigits := by
  by_contra hother
  rw [ofHex?_of_other hother] at h
  cases h

theorem ofDigits?_isSome_iff {ds : List Nat} : (ofDigits? ds).isSome = true ↔ ds.length ∈ [3, 4, 6, 8] := by
  constructor
  · fun_cases ofDigits? ds <;> simp
  · intro h
    match ds, h with
    | [_, _, _], _ => rfl
    | [_, _, _, _], _ => rfl
    | [_, _, _, _, _, _], _ => rfl
    | [_, _, _, _, _, _, _, _], _ => rfl

def channels (color : Color) : List Int := [color.red, color.green, color.blue, color.alpha]

theorem channels_of_ofDigits? {ds : List Nat} (hds : ∀ d ∈ ds, d < 16) {color : Color}
    (h : ofDigits? ds = some color) : ∀ channel ∈ color.channels, 0 ≤ channel ∧ channel ≤ 255 := by
  unfold ofDigits? at h
  split at h <;> cases h <;> simp [channels] at hds ⊢ <;> omega

theorem alpha_of_ofDigits? {ds : List Nat} (hds : ds.length ∈ [3, 6]) {color : Color}
    (h : ofDigits? ds = some color) : color.alpha = 255 := by
  unfold ofDigits? at h
  split at h <;> cases h <;> simp at hds ⊢

theorem ofDigits?_doubled {ds : List Nat} (h : ds.length ∈ [3, 4]) :
    ofDigits? (ds.flatMap fun d => [d, d]) = ofDigits? ds := by
  match ds, h with
  | [r, g, b], _ => simp [ofDigits?]; omega
  | [r, g, b, a], _ => simp [ofDigits?]; omega

theorem toNat_ofNat (n : Nat) : (Char.ofNat n).toNat = n ∨ (Char.ofNat n).toNat = 0 := by
  rw [Char.ofNat]
  by_cases h : n.isValidChar
  · rw [dif_pos h]
    exact .inl rfl
  · rw [dif_neg h]
    exact .inr rfl

theorem ofNat_notMem_hexDigits {n : Nat} (h : 0x67 ≤ n) : Char.ofNat n ∉ '#' :: hexDigits := by
  intro hm
  obtain ⟨hlow, hhigh⟩ := bounds_of_mem_hexDigits hm
  rcases toNat_ofNat n with hn | hn <;> omega

theorem le_of_shiftOf {runs : List Text.CaseRun}
    (hruns : ∀ run ∈ runs, 0x80 ≤ run.last → 0x67 ≤ run.first + run.shift) {c : Nat} (hc : 0x80 ≤ c)
    {shift : Int} (h : Text.shiftOf runs c = some shift) : 0x67 ≤ c + shift := by
  induction runs with
  | nil => cases h
  | cons run rest ih =>
    rw [Text.shiftOf] at h
    split_ifs at h with hfirst hlast hstep
    · injection h with h
      have hrun := hruns run List.mem_cons_self (Nat.le_trans hc hlast)
      omega
    · exact ih (fun r hr => hruns r (List.mem_cons_of_mem _ hr)) h

theorem exists_mapCase {c : Char} (h : 0x80 ≤ c.toNat) :
    ∃ d tail, Text.mapCase Text.lowerRuns Text.lowerExpansions c = d :: tail ∧ d ∉ '#' :: hexDigits := by
  rw [Text.mapCase]
  split
  · rename_i shift hshift
    have hle := le_of_shiftOf (by decide +kernel) h hshift
    exact ⟨_, _, rfl, ofNat_notMem_hexDigits (by omega)⟩
  · split
    · rename_i codes hcodes
      -- the only expansion is that of the capital I with a dot, which starts with an i
      obtain rfl : codes = [0x69, 0x307] := by
        rw [Text.lowerExpansions, List.lookup_cons] at hcodes
        split at hcodes
        · exact (Option.some.inj hcodes).symm
        · cases hcodes
      exact ⟨_, _, rfl, ofNat_notMem_hexDigits (by decide)⟩
    · refine ⟨_, _, rfl, fun hm => ?_⟩
      have hbounds := bounds_of_mem_hexDigits hm
      omega

theorem exists_lowerBetween {c : Char} (h : 0x80 ≤ c.toNat) (before rest : List Char) :
    ∃ d tail, Text.lowerBetween before c rest = d :: tail ∧ d ∉ '#' :: hexDigits := by
  rw [Text.lowerBetween]
  split
  · split
    · exact ⟨_, _, rfl, by decide⟩
    · exact ⟨_, _, rfl, by decide⟩
  · rw [Text.lowerChar, if_neg (Nat.not_lt.2 h)]
    exact exists_mapCase h

theorem lowerBetween_of_lt {c : Char} (h : c.toNat < 0x80) (before rest : List Char) :
    Text.lowerBetween before c rest = [c.toLower] := by
  have hne : c ≠ Text.capitalSigma := by
    rintro rfl
    revert h
    decide
  rw [Text.lowerBetween, if_neg hne, Text.lowerChar, if_pos h]

theorem toLower_of_lt {c : Char} (h : c.toNat < 0x80) :
    hexDigit? c.toLower = hexDigit? c ∧ (c.toLower = '#' → c = '#') :=
  forall_char_lt (P := fun c => hexDigit? c.toLower = hexDigit? c ∧ (c.toLower = '#' → c = '#'))
    (by decide +kernel) h

theorem mapM_lowerAfter (before cs : List Char) :
    (Text.lowerAfter before cs).mapM hexDigit? = cs.mapM hexDigit? := by
  induction cs generalizing before with
  | nil => rfl
  | cons c rest ih =>
    rw [Text.lowerAfter]
    by_cases hc : c.toNat < 0x80
    · rw [lowerBetween_of_lt hc, List.singleton_append, List.mapM_cons, List.mapM_cons, ih, (toLower_of_lt hc).1]
    · obtain ⟨d, tail, hlower, hd⟩ := exists_lowerBetween (Nat.le_of_not_lt hc) before rest
      have hdigit : hexDigit? d = none := by rw [hexDigit?_eq, if_neg fun h => hd (List.mem_cons_of_mem _ h)]
      rw [hlower, List.cons_append, List.mapM_cons, List.mapM_cons, hdigit, hexDigit?_eq_none_of_le (by omega)]
      rfl

theorem unmarked_of_ne {c : Char} (h : c ≠ '#') (rest : List Char) : unmarked (c :: rest) = c :: rest := by
  unfold unmarked
  split
  · rename_i heq
    exact absurd (List.cons.inj heq).1 h
  · rfl

theorem exists_unmarked_lowerAfter (cs : List Char) :
    ∃ before, unmarked (Text.lowerAfter [] cs) = Text.lowerAfter before (unmarked cs) := by
  cases cs with
  | nil => exact ⟨[], rfl⟩
  | cons c rest =>
    by_cases hmark : c = '#'
    · subst hmark
      exact ⟨['#'], rfl⟩
    · refine ⟨[], ?_⟩
      rw [unmarked_of_ne hmark, Text.lowerAfter]
      by_cases hc : c.toNat < 0x80
      · rw [lowerBetween_of_lt hc, List.singleton_append, unmarked_of_ne (mt (toLower_of_lt hc).2 hmark)]
      · obtain ⟨d, tail, hlower, hd⟩ := exists_lowerBetween (Nat.le_of_not_lt hc) [] rest
        rw [hlower, List.cons_append, unmarked_of_ne fun h => hd (h ▸ List.mem_cons_self)]

/-- A text is read as its small letters are. Its capital letters would not do: those of the ligature of two small f
are two hex digits, and the ligature is none. -/
theorem ofHex?_lower (s : String) : ofHex? (Text.lower s) = ofHex? s := by
  obtain ⟨before, hbefore⟩ := exists_unmarked_lowerAfter s.toList
  rw [ofHex?_eq_bind, ofHex?_eq_bind, Text.lower_eq, String.toList_ofList, hbefore, mapM_lowerAfter]

def hexPair (n : Nat) : List Char := [Nat.digitChar (n / 16), Nat.digitChar (n % 16)]

def hexText (red green blue alpha : Fin 256) : String :=
  String.ofList ('#' :: (hexPair red ++ hexPair green ++ hexPair blue ++ hexPair alpha))

theorem hexPair_value (n : Fin 256) : (∀ c ∈ hexPair n, c ∈ hexDigits) ∧
    (hexPair n).map digitValue = [n.val / 16, n.val % 16] := by
  obtain ⟨hhigh, hvalue⟩ := digitValue_digitChar (n.val / 16) (by omega)
  obtain ⟨hlow, hvalue'⟩ := digitValue_digitChar (n.val % 16) (by omega)
  exact ⟨by simp [hexPair, hhigh, hlow], by simp [hexPair, hvalue, hvalue']⟩

theorem ofHex?_hexText (red green blue alpha : Fin 256) :
    ofHex? (hexText red green blue alpha) = some ⟨red.val, green.val, blue.val, alpha.val⟩ := by
  have hdigits (n : Fin 256) := (hexPair_value n).1
  have hvalue (n : Fin 256) := (hexPair_value n).2
  rw [ofHex?_of_digits]
  · rw [hexText, String.toList_ofList]
    simp only [unmarked, List.map_append, hvalue, List.cons_append, List.nil_append, ofDigits?]
    congr 2 <;> omega
  · rw [hexText, String.toList_ofList]
    simp only [unmarked, List.mem_append]
    rintro c (((h | h) | h) | h) <;> exact hdigits _ c h

theorem ofHex?_isSome_iff (s : String) : (ofHex? s).isSome = true ↔
    (unmarked s.toList).length ∈ [3, 4, 6, 8] ∧ ∀ c ∈ unmarked s.toList, c ∈ hexDigits := by
  by_cases hdigits : ∀ c ∈ unmarked s.toList, c ∈ hexDigits
  · rw [ofHex?_of_digits hdigits, ofDigits?_isSome_iff, List.length_map, and_iff_left hdigits]
  · rw [ofHex?_of_other hdigits]
    exact iff_of_false (by simp) fun h => hdigits h.2

theorem channels_of_ofHex? {s : String} {color : Color} (h : ofHex? s = some color) :
    (∀ channel ∈ color.channels, 0 ≤ channel ∧ channel ≤ 255) ∧
      ((unmarked s.toList).length ∈ [3, 6] → color.alpha = 255) := by
  have hdigits := digits_of_ofHex? h
  rw [ofHex?_of_digits hdigits] at h
  constructor
  · apply channels_of_ofDigits? _ h
    intro d hd
    obtain ⟨c, hc, rfl⟩ := List.mem_map.1 hd
    exact digitValue_lt (hdigits c hc)
  · intro hlength
    exact alpha_of_ofDigits? (by rwa [List.length_map]) h

theorem ofHex?_doubled {s t : String} (hlength : (unmarked s.toList).length ∈ [3, 4])
    (ht : unmarked t.toList = (unmarked s.toList).flatMap fun c => [c, c]) : ofHex? t = ofHex? s := by
  have hsame : (∀ c ∈ unmarked t.toList, c ∈ hexDigits) ↔ ∀ c ∈ unmarked s.toList, c ∈ hexDigits := by
    simp [ht]
  by_cases hdigits : ∀ c ∈ unmarked s.toList, c ∈ hexDigits
  · have hdoubled := @ofDigits?_doubled ((unmarked s.toList).map digitValue) (by rwa [List.length_map])
    rw [List.flatMap_map] at hdoubled
    rw [ofHex?_of_digits hdigits, ofHex?_of_digits (hsame.2 hdigits), ht, List.map_flatMap]
    exact hdoubled
  · rw [ofHex?_of_other hdigits, ofHex?_of_other (mt hsame.1 hdigits)]

/-- Exactly the texts of three, four, six or eight hex digits, with a number sign in front or without, are colors.
Their channels are bytes, without digits for alpha they are opaque, single digits are read as pairs of themselves,
and letter case makes no difference. Every color of bytes is read from the digits of its channels. -/
theorem hex_read_exactly :
    (∀ s : String, (ofHex? s).isSome = true ↔
      (unmarked s.toList).length ∈ [3, 4, 6, 8] ∧ ∀ c ∈ unmarked s.toList, c ∈ hexDigits) ∧
    (∀ (s : String) (color : Color), ofHex? s = some color →
      (∀ channel ∈ color.channels, 0 ≤ channel ∧ channel ≤ 255) ∧
        ((unmarked s.toList).length ∈ [3, 6] → color.alpha = 255)) ∧
    (∀ s t : String, (unmarked s.toList).length ∈ [3, 4] →
      unmarked t.toList = (unmarked s.toList).flatMap (fun c => [c, c]) → ofHex? t = ofHex? s) ∧
    (∀ s t : String, Text.lower s = Text.lower t → ofHex? s = ofHex? t) ∧
    ∀ red green blue alpha : Fin 256, ofHex? (hexText red green blue alpha) =
      some ⟨red.val, green.val, blue.val, alpha.val⟩ := by
  refine ⟨ofHex?_isSome_iff, fun s color h => channels_of_ofHex? h, fun s t hlength ht => ofHex?_doubled hlength ht,
    fun s t hcase => ?_, ofHex?_hexText⟩
  calc ofHex? s = ofHex? (Text.lower s) := (ofHex?_lower s).symm
    _ = ofHex? (Text.lower t) := by rw [hcase]
    _ = ofHex? t := ofHex?_lower t

/-- A short and opaque color, its long form, and the same in small letters. -/
theorem orange_read :
    (∀ channel ∈ channels ⟨255, 136, 0, 255⟩, 0 ≤ channel ∧ channel ≤ 255) ∧
    ((⟨255, 136, 0, 255⟩ : Color).alpha = 255) ∧
    ofHex? "FF8800" = ofHex? "#F80" ∧ ofHex? "#F80" = ofHex? "#f80" ∧
    ofHex? (hexText 255 136 0 255) = some ⟨255, 136, 0, 255⟩ := by
  obtain ⟨-, hchannels, hdoubles, hcases, htext⟩ := hex_read_exactly
  have horange : ofHex? "#F80" = some ⟨255, 136, 0, 255⟩ := by decide
  obtain ⟨hbytes, hopaque⟩ := hchannels "#F80" _ horange
  exact ⟨hbytes, hopaque (by decide), hdoubles "#F80" "FF8800" (by decide) (by decide),
    hcases "#F80" "#f80" (by decide), htext 255 136 0 255⟩

end Color

end ReactiveView
