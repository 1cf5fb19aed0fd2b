import ReactiveView.Text.Blank

namespace ReactiveView.Text

theorem bounds_of_isBlank {c : Char} (h : isBlank c = true) : c.toNat ≤ 0x20 ∨ 0x7F < c.toNat := by
  simp only [isBlank, Bool.or_eq_true, Bool.and_eq_true, decide_eq_true_eq, beq_iff_eq] at h
  cases h with
  | inl hascii =>
    cases hascii with
    | inl hspace =>
      subst hspace
      decide
    | inr hcontrol => omega
  | inr hwide => omega

theorem takeWhile_dropWhile_append {p : Char → Bool} {taken rest : List Char}
    (htaken : ∀ c ∈ taken, p c = true) (hrest : ∀ c ∈ rest.head?, p c = false) :
    (taken ++ rest).takeWhile p = taken ∧ (taken ++ rest).dropWhile p = rest := by
  rw [List.takeWhile_append_of_pos htaken, List.dropWhile_append_of_pos htaken]
  cases rest with
  | nil => simp
  | cons c rest =>
    have hc : p c = false := hrest c rfl
    simp [hc]

theorem head?_dropWhile {p : Char → Bool} {cs : List Char} :
    ∀ c ∈ (cs.dropWhile p).head?, p c = false := by
  intro c hc
  have hnot := List.head?_dropWhile_not p cs
  rw [Option.mem_def.1 hc] at hnot
  exact hnot

/-- The second text is the first one without the white space at its ends. -/
structure Stripped (s t : List Char) : Prop where
  exists_blanks : ∃ before after, s = before ++ (t ++ after) ∧ (∀ c ∈ before, isBlank c = true) ∧
    ∀ c ∈ after, isBlank c = true
  head : ∀ c ∈ t.head?, isBlank c = false
  last : ∀ c ∈ t.getLast?, isBlank c = false

theorem stripped_stripChars (s : List Char) : Stripped s (stripChars s) := by
  have hbody := List.takeWhile_append_dropWhile (p := isBlank) (l := s)
  generalize hb : s.dropWhile isBlank = body at hbody
  have hback := List.takeWhile_append_dropWhile (p := isBlank) (l := body.reverse)
  have hcut : stripChars s ++ (body.reverse.takeWhile isBlank).reverse = body := by
    rw [stripChars, hb, ← List.reverse_append, hback, List.reverse_reverse]
  refine ⟨⟨s.takeWhile isBlank, (body.reverse.takeWhile isBlank).reverse, ?_, ?_, ?_⟩, ?_, ?_⟩
  · rw [hcut, hbody]
  · exact List.all_eq_true.1 List.all_takeWhile
  · intro c hc
    exact List.all_eq_true.1 List.all_takeWhile c (List.mem_reverse.1 hc)
  · intro c hc
    have hfirst : c ∈ body.head? := by
      rw [← hcut, List.head?_append, Option.mem_def.1 hc]
      rfl
    exact head?_dropWhile c (hb ▸ hfirst)
  · intro c hc
    rw [stripChars, hb, List.getLast?_reverse] at hc
    exact head?_dropWhile c hc

theorem Stripped.eq_stripChars {s t : List Char} (h : Stripped s t) : stripChars s = t := by
  obtain ⟨⟨before, after, rfl, hbefore, hafter⟩, hhead, hlast⟩ := h
  cases t with
  | nil =>
    rw [stripChars_eq_nil, List.all_eq_true]
    exact List.forall_mem_append.2 ⟨hbefore, hafter⟩
  | cons d t =>
    have hfirst : ∀ c ∈ (d :: t ++ after).head?, isBlank c = false := hhead
    have hback : ∀ c ∈ (d :: t).reverse.head?, isBlank c = false := by
      rw [List.head?_reverse]
      exact hlast
    have hblank : ∀ c ∈ after.reverse, isBlank c = true := fun c hc => hafter c (List.mem_reverse.1 hc)
    rw [stripChars, (takeWhile_dropWhile_append hbefore hfirst).2, List.reverse_append,
      (takeWhile_dropWhile_append hblank hback).2, List.reverse_reverse]

end ReactiveView.Text
