import Mathlib.Data.List.Basic
import Mathlib.Tactic.Ring
import ReactiveView.Expr.Function

namespace ReactiveView.Text

/-- Scan a text from the left: where the target occurs, the replacement is written and the occurrence skipped;
elsewhere one character is copied. -/
def scan (target replacement : List Char) : List Char → List Char
  | [] => []
  | c :: rest =>
    if target <+: c :: rest then replacement ++ scan target replacement (rest.drop (target.length - 1))
    else c :: scan target replacement rest
termination_by s => s.length
decreasing_by
  · rw [List.length_drop, List.length_cons]
    omega
  · exact Nat.lt_succ_self _

section Scan

variable {target replacement : List Char}

theorem drop_of_isPrefix {c : Char} {rest : List Char} (hne : target ≠ []) (h : target <+: c :: rest) :
    target ++ rest.drop (target.length - 1) = c :: rest := by
  obtain ⟨after, hafter⟩ := h
  obtain ⟨d, tail, rfl⟩ := List.exists_cons_of_ne_nil hne
  rw [List.cons_append] at hafter
  injection hafter with hd hrest
  rw [← hd, ← hrest, List.length_cons, Nat.add_sub_cancel, List.drop_left, List.cons_append]

theorem scan_self (hne : target ≠ []) (s : List Char) : scan target target s = s := by
  fun_induction scan target target s with
  | case1 => rfl
  | case2 c rest h ih => rw [ih, drop_of_isPrefix hne h]
  | case3 c rest h ih => rw [ih]

theorem scan_of_not_occursIn {s : List Char} (h : occursIn target s = false) : scan target replacement s = s := by
  fun_induction scan target replacement s with
  | case1 => rfl
  | case2 c rest hprefix ih =>
    rw [occursIn, List.isPrefixOf_iff_prefix.2 hprefix] at h
    cases h
  | case3 c rest hprefix ih =>
    rw [occursIn, Bool.or_eq_false_iff] at h
    rw [ih h.2]

end Scan

theorem intercalate_concat (separator : List Char) (pieces : List (List Char)) (last : List Char) :
    separator.intercalate (pieces ++ [last]) = pieces.flatMap (· ++ separator) ++ last := by
  induction pieces with
  | nil => simp
  | cons piece rest ih =>
    rw [List.cons_append, List.flatMap_cons, List.append_assoc, ← ih]
    cases rest <;> simp

/-- The pieces that are complete are followed by the replacement each, the rest of the text is scanned. -/
theorem intercalate_splitOnto (target replacement : List Char) (done : List (List Char)) (piece : List Char)
    (skip : Nat) (s : List Char) : replacement.intercalate (splitOnto target done piece skip s) =
      done.reverse.flatMap (· ++ replacement) ++ (piece.reverse ++ scan target replacement (s.drop skip)) := by
  fun_induction splitOnto target done piece skip s with
  | case1 done piece skip => rw [List.reverse_cons, intercalate_concat, List.drop_nil, scan, List.append_nil]
  | case2 done piece skip c rest ih => rw [ih, List.drop_succ_cons]
  | case3 done piece c rest h ih =>
    rw [ih, List.drop_zero, scan, if_pos (List.isPrefixOf_iff_prefix.1 h)]
    simp
  | case4 done piece c rest h ih =>
    rw [ih, List.drop_zero, List.drop_zero, scan, if_neg (mt List.isPrefixOf_iff_prefix.2 h)]
    simp

theorem intercalate_split (target replacement s : List Char) :
    replacement.intercalate (split target s) = scan target replacement s := by
  rw [split, intercalate_splitOnto]
  rfl

theorem intercalate_singletons (replacement : List Char) {s : List Char} (hne : s ≠ []) :
    replacement ++ replacement.intercalate (s.map fun c => [c]) = s.flatMap fun c => replacement ++ [c] := by
  induction s with
  | nil => exact absurd rfl hne
  | cons c rest ih =>
    cases rest with
    | nil => simp
    | cons d rest =>
      rw [List.flatMap_cons, ← ih (List.cons_ne_nil d rest)]
      simp

theorem replaceChars_of_ne_nil {target : List Char} (hne : target ≠ []) (replacement s : List Char) :
    replaceChars target replacement s = scan target replacement s := by
  rw [replaceChars, List.isEmpty_eq_false_iff.2 hne, ← intercalate_split]
  rfl

theorem replaceChars_nil (replacement s : List Char) :
    replaceChars [] replacement s = (s.flatMap fun c => replacement ++ [c]) ++ replacement := by
  rw [replaceChars]
  cases s with
  | nil => simp
  | cons c rest =>
    rw [← intercalate_singletons replacement (List.cons_ne_nil c rest)]
    simp

theorem length_replaceChars_nil (replacement s : List Char) :
    (replaceChars [] replacement s).length = s.length + (s.length + 1) * replacement.length := by
  rw [replaceChars_nil, List.length_append]
  induction s with
  | nil => simp
  | cons c rest ih =>
    rw [List.flatMap_cons, List.length_append, Nat.add_assoc, ih, List.length_append, List.length_singleton,
      List.length_cons]
    ring

theorem replaceChars_self (target s : List Char) : replaceChars target target s = s := by
  by_cases hne : target = []
  · rw [hne, replaceChars_nil, List.append_nil]
    exact List.flatMap_singleton' s
  · rw [replaceChars_of_ne_nil hne, scan_self hne]

theorem apply_replace (s target replacement : String) :
    Builtin.replace.apply [.str s, .str target, .str replacement] = .ok (.str (replace s target replacement)) := rfl

theorem apply_contains (s part : String) :
    Builtin.contains.apply [.str s, .str part] = .ok (.bool (contains s part)) := rfl

/-- Replacement finds the occurrences that a scan from the left finds. An empty target stands before every character
and at the end, so lengths add up. A text that replaces itself, or that does not occur, changes nothing. -/
theorem replace_leftmost :
    (∀ s target replacement : String, target ≠ "" →
      Builtin.replace.apply [.str s, .str target, .str replacement] =
        .ok (.str (String.ofList (scan target.toList replacement.toList s.toList)))) ∧
    (∀ s replacement : String, Builtin.replace.apply [.str s, .str "", .str replacement] =
      .ok (.str (String.ofList
        ((s.toList.flatMap fun c => replacement.toList ++ [c]) ++ replacement.toList)))) ∧
    (∀ s target : String, Builtin.replace.apply [.str s, .str target, .str target] = .ok (.str s)) ∧
    (∀ s target replacement : String, target ≠ "" →
      Builtin.contains.apply [.str s, .str target] = .ok (.bool false) →
        Builtin.replace.apply [.str s, .str target, .str replacement] = .ok (.str s)) ∧
    ∀ s replacement : String, ∃ r, Builtin.replace.apply [.str s, .str "", .str replacement] = .ok (.str r) ∧
      Builtin.len.apply [.str r] = .ok (.ofInt (s.length + (s.length + 1) * replacement.length)) := by
  have hscan (s target replacement : String) (hne : target ≠ "") : replace s target replacement =
      String.ofList (scan target.toList replacement.toList s.toList) := by
    rw [replace, replaceChars_of_ne_nil (mt String.toList_eq_nil_iff.1 hne)]
  have hempty (s replacement : String) : replace s "" replacement = String.ofList
      ((s.toList.flatMap fun c => replacement.toList ++ [c]) ++ replacement.toList) := by
    rw [replace, ← replaceChars_nil]
    rfl
  refine ⟨fun s target replacement hne => ?_, fun s replacement => ?_, fun s target => ?_,
    fun s target replacement hne habsent => ?_, fun s replacement => ⟨_, rfl, ?_⟩⟩
  · rw [apply_replace, hscan s target replacement hne]
  · rw [apply_replace, hempty]
  · rw [apply_replace, replace, replaceChars_self, String.ofList_toList]
  · have hoccurs : occursIn target.toList s.toList = false := by
      rw [apply_contains] at habsent
      injection habsent with habsent
      injection habsent
    rw [apply_replace, hscan s target replacement hne, scan_of_not_occursIn hoccurs, String.ofList_toList]
  · have hlength : (replace s "" replacement).length = s.length + (s.length + 1) * replacement.length := by
      rw [replace, ← String.length_toList, String.toList_ofList]
      exact length_replaceChars_nil _ _
    change (Except.ok (Value.ofInt (replace s "" replacement).length) : Builtin.Answer) = _
    rw [hlength]
    push_cast
    rfl

/-- A target that overlaps itself, and a replacement that holds it. -/
theorem replace_overlapping : ("aa" : String) ≠ "" ∧
    Builtin.replace.apply [.str "aaabaa", .str "aa", .str "<aa>"] =
      .ok (.str (String.ofList (scan "aa".toList "<aa>".toList "aaabaa".toList))) ∧
    Builtin.contains.apply [.str "abab", .str "aa"] = .ok (.bool false) ∧
    Builtin.replace.apply [.str "abab", .str "aa", .str "<aa>"] = .ok (.str "abab") := by
  have hne : ("aa" : String) ≠ "" := by decide
  have habsent : Builtin.contains.apply [.str "abab", .str "aa"] = .ok (.bool false) := by decide
  exact ⟨hne, replace_leftmost.1 _ _ _ hne, habsent, replace_leftmost.2.2.2.1 _ _ _ hne habsent⟩

end ReactiveView.Text
