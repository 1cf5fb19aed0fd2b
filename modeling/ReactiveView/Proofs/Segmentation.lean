import Mathlib.Data.List.Chain
import Mathlib.Data.List.Infix
import ReactiveView.Document.Template
import ReactiveView.Proofs.Stripping

namespace ReactiveView

theorem bounds_of_isAlpha {c : Char} (h : c.isAlpha = true) :
    (65 ≤ c.toNat ∧ c.toNat ≤ 90) ∨ (97 ≤ c.toNat ∧ c.toNat ≤ 122) := by
  cases (Bool.or_eq_true c.isUpper c.isLower).mp h with
  | inl hupper => exact .inl (of_decide_eq_true hupper)
  | inr hlower =>
    have ⟨hlow, hhigh⟩ := (Bool.and_eq_true _ _).mp hlower
    exact .inr ⟨of_decide_eq_true hlow, of_decide_eq_true hhigh⟩

theorem bounds_of_isIdentChar {c : Char} (h : isIdentChar c = true) : 0x20 < c.toNat ∧ c.toNat < 0x7B := by
  simp only [isIdentChar, Char.isAlphanum, Char.isDigit, Bool.or_eq_true, Bool.and_eq_true,
    decide_eq_true_eq, beq_iff_eq] at h
  obtain (hletter | hdigit) | hunderscore := h
  · have := bounds_of_isAlpha hletter
    omega
  · change 48 ≤ c.toNat ∧ c.toNat ≤ 57 at hdigit
    omega
  · subst hunderscore
    decide

theorem isIdentChar_eq_false_of_isBlank {c : Char} (h : Text.isBlank c = true) :
    isIdentChar c = false := by
  rw [Bool.eq_false_iff]
  intro hident
  have := Text.bounds_of_isBlank h
  have := bounds_of_isIdentChar hident
  omega

theorem isBlank_eq_false_of_isIdentChar {c : Char} (h : isIdentChar c = true) :
    Text.isBlank c = false := by
  rw [Bool.eq_false_iff]
  intro hblank
  rw [isIdentChar_eq_false_of_isBlank hblank] at h
  cases h

theorem isIdentChar_of_isIdentifier {name : List Char} (h : isIdentifier name = true) :
    ∀ c ∈ name, isIdentChar c = true := by
  cases name with
  | nil => exact fun c hc => absurd hc List.not_mem_nil
  | cons d rest =>
    simp only [isIdentifier, Bool.and_eq_true, List.all_eq_true] at h
    have hd : isIdentChar d = true := by
      have hstart := h.1
      simp only [isIdentStart, Bool.or_eq_true] at hstart
      simp only [isIdentChar, Char.isAlphanum, Bool.or_eq_true]
      tauto
    exact List.forall_mem_cons.2 ⟨hd, h.2⟩

namespace Placeholder

structure WellFormed (p : Placeholder) : Prop where
  isBlank_before : ∀ c ∈ p.before, Text.isBlank c = true
  isIdentifier_name : isIdentifier p.name = true
  isBlank_after : ∀ c ∈ p.after, Text.isBlank c = true

theorem text_eq (p : Placeholder) (rest : List Char) :
    p.text ++ rest = openBrace :: (p.before ++ (p.name ++ (p.after ++ closeBrace :: rest))) := by
  simp [text]

theorem read?_text {p : Placeholder} (h : p.WellFormed) (rest : List Char) :
    read? (p.text ++ rest) = some p := by
  have hident := isIdentChar_of_isIdentifier h.isIdentifier_name
  -- Each part ends at the first character of the next one, which is not of its class.
  have hname : ∀ c ∈ (p.name ++ (p.after ++ closeBrace :: rest)).head?, Text.isBlank c = false := by
    cases hp : p.name with
    | nil =>
      have hidentifier := h.isIdentifier_name
      rw [hp] at hidentifier
      cases hidentifier
    | cons d name =>
      rintro c ⟨⟩
      apply isBlank_eq_false_of_isIdentChar
      apply hident
      rw [hp]
      exact List.mem_cons_self
  have hafter : ∀ c ∈ (p.after ++ closeBrace :: rest).head?, isIdentChar c = false := by
    cases hp : p.after with
    | nil =>
      rintro c ⟨⟩
      decide
    | cons d after =>
      rintro c ⟨⟩
      apply isIdentChar_eq_false_of_isBlank
      apply h.isBlank_after
      rw [hp]
      exact List.mem_cons_self
  have hclose : ∀ c ∈ (closeBrace :: rest).head?, Text.isBlank c = false := by
    rintro c ⟨⟩
    decide
  obtain ⟨htakeBefore, hdropBefore⟩ := Text.takeWhile_dropWhile_append h.isBlank_before hname
  obtain ⟨htakeName, hdropName⟩ := Text.takeWhile_dropWhile_append hident hafter
  obtain ⟨htakeAfter, hdropAfter⟩ := Text.takeWhile_dropWhile_append h.isBlank_after hclose
  rw [text_eq, read?, if_pos rfl]
  simp only [htakeBefore, hdropBefore, htakeName, hdropName, htakeAfter, hdropAfter,
    h.isIdentifier_name, and_self, if_true]

theorem of_read? {cs : List Char} {p : Placeholder} (h : read? cs = some p) :
    p.WellFormed ∧ p.text <+: cs := by
  cases cs with
  | nil => cases h
  | cons c rest =>
    rw [read?] at h
    split at h
    · rename_i hopen
      dsimp only at h
      generalize hbody : rest.dropWhile Text.isBlank = body at h
      generalize htail : body.dropWhile isIdentChar = tail at h
      split at h
      · rename_i d final hfinal
        split at h
        · rename_i hclose
          cases h
          refine ⟨⟨List.all_eq_true.1 List.all_takeWhile, hclose.2,
            List.all_eq_true.1 List.all_takeWhile⟩, final, ?_⟩
          rw [text_eq, ← hclose.1, ← hfinal, List.takeWhile_append_dropWhile, ← htail,
            List.takeWhile_append_dropWhile, ← hbody, List.takeWhile_append_dropWhile, hopen]
        · cases h
      · cases h
    · cases h

theorem read?_eq_some_iff {cs : List Char} {p : Placeholder} :
    read? cs = some p ↔ p.WellFormed ∧ p.text <+: cs := by
  constructor
  · exact of_read?
  · rintro ⟨h, rest, rfl⟩
    exact read?_text h rest

theorem text_append_drop {p : Placeholder} {c : Char} {rest : List Char} (h : p.text <+: c :: rest) :
    p.text ++ rest.drop (p.text.length - 1) = c :: rest := by
  obtain ⟨final, hfinal⟩ := h
  have hlength : p.text.length - 1 + 1 = p.text.length := rfl
  rw [← List.drop_succ_cons (a := c), hlength, ← hfinal, List.drop_left]

theorem openBrace_notMem_tail {p : Placeholder} (h : p.WellFormed) : openBrace ∉ p.text.tail := by
  have hblank : Text.isBlank openBrace = false := by decide
  have hident : isIdentChar openBrace = false := by decide
  have hclose : openBrace ≠ closeBrace := by decide
  intro hmem
  simp only [text, List.cons_append, List.tail_cons, List.mem_append, List.mem_singleton] at hmem
  obtain ((hbefore | hname) | hafter) | hlast := hmem
  · exact absurd (h.isBlank_before _ hbefore) (by simp [hblank])
  · exact absurd (isIdentChar_of_isIdentifier h.isIdentifier_name _ hname) (by simp [hident])
  · exact absurd (h.isBlank_after _ hafter) (by simp [hblank])
  · exact hclose hlast

end Placeholder

def HoldsPlaceholder (cs : List Char) : Prop := ∃ p : Placeholder, p.WellFormed ∧ p.text <:+: cs

theorem holdsPlaceholder_iff {cs : List Char} :
    HoldsPlaceholder cs ↔ ∃ rest ∈ cs.tails, (Placeholder.read? rest).isSome = true := by
  constructor
  · rintro ⟨p, hp, hwithin⟩
    obtain ⟨rest, hstart, hsuffix⟩ := List.infix_iff_prefix_suffix.1 hwithin
    refine ⟨rest, (List.mem_tails _ _).2 hsuffix, ?_⟩
    rw [Placeholder.read?_eq_some_iff.2 ⟨hp, hstart⟩, Option.isSome_some]
  · rintro ⟨rest, hsuffix, hread⟩
    obtain ⟨p, hp⟩ := Option.isSome_iff_exists.1 hread
    obtain ⟨hwell, hstart⟩ := Placeholder.of_read? hp
    exact ⟨p, hwell, List.infix_iff_prefix_suffix.2 ⟨rest, hstart, (List.mem_tails _ _).1 hsuffix⟩⟩

instance : DecidablePred HoldsPlaceholder := fun _ => decidable_of_iff _ holdsPlaceholder_iff.symm

theorem HoldsPlaceholder.mono {cs ds : List Char} (h : HoldsPlaceholder cs) (hwithin : cs <:+: ds) :
    HoldsPlaceholder ds := by
  obtain ⟨p, hp, htext⟩ := h
  exact ⟨p, hp, htext.trans hwithin⟩

/-- No placeholder starts in a text without placeholders and ends after it, if what follows opens a brace. -/
theorem read?_append_eq_none {cs rest : List Char} (hne : cs ≠ []) (hplain : ¬HoldsPlaceholder cs)
    (hrest : ∀ c ∈ rest.head?, c = Placeholder.openBrace) : Placeholder.read? (cs ++ rest) = none := by
  cases hread : Placeholder.read? (cs ++ rest) with
  | none => rfl
  | some p =>
    obtain ⟨hp, final, hfinal⟩ := Placeholder.of_read? hread
    obtain ⟨u, hcs, hu⟩ | ⟨u, htext, hrestEq⟩ := List.append_eq_append_iff.1 hfinal
    · exact absurd ⟨p, hp, hcs ▸ (List.prefix_append p.text u).isInfix⟩ hplain
    · cases u with
      | nil =>
        rw [List.append_nil] at htext
        exact absurd ⟨p, hp, htext ▸ List.infix_rfl⟩ hplain
      | cons c u =>
        -- The first character after `cs` lies within the placeholder, behind its opening brace.
        have hc : c = Placeholder.openBrace := hrest c (by rw [hrestEq]; rfl)
        have hmem : c ∈ p.text.tail := by
          rw [htext, List.tail_append_of_ne_nil hne]
          exact List.mem_append_right _ List.mem_cons_self
        exact absurd (hc ▸ hmem) (Placeholder.openBrace_notMem_tail hp)

namespace Segment

theorem scan_eq_scan_drop (skip : Nat) (read cs : List Char) :
    scan skip read cs = scan 0 read (cs.drop skip) := by
  induction cs generalizing skip with
  | nil => rw [List.drop_nil, scan, scan]
  | cons c cs ih =>
    cases skip with
    | zero => rfl
    | succ skip => rw [scan, ih, List.drop_succ_cons]

theorem scan_text {p : Placeholder} (h : p.WellFormed) (read rest : List Char) :
    scan 0 read (p.text ++ rest) = pending read ++ .hole p :: scan 0 [] rest := by
  have hread := Placeholder.read?_text h rest
  obtain ⟨c, tail, htext⟩ : ∃ c tail, p.text = c :: tail := ⟨_, _, rfl⟩
  have hdrop : (tail ++ rest).drop (p.text.length - 1) = rest := by
    rw [htext, List.length_cons, Nat.add_sub_cancel, List.drop_left]
  rw [htext, List.cons_append] at hread ⊢
  rw [scan, hread]
  dsimp only
  rw [scan_eq_scan_drop, hdrop]

theorem scan_plain {cs rest : List Char} (hplain : ¬HoldsPlaceholder cs)
    (hrest : ∀ c ∈ rest.head?, c = Placeholder.openBrace) (read : List Char) :
    scan 0 read (cs ++ rest) = scan 0 (cs.reverse ++ read) rest := by
  induction cs generalizing read with
  | nil => rfl
  | cons c cs ih =>
    have hnone := read?_append_eq_none (List.cons_ne_nil c cs) hplain hrest
    have htail : ¬HoldsPlaceholder cs := fun h => hplain (h.mono (List.suffix_cons c cs).isInfix)
    rw [List.cons_append] at hnone ⊢
    rw [scan, hnone]
    dsimp only
    rw [ih htail, List.reverse_cons, List.append_assoc, List.singleton_append]

theorem pending_reverse {cs : List Char} (h : cs ≠ []) : pending cs.reverse = [.literal cs] := by
  obtain ⟨c, rest, hrev⟩ := List.exists_cons_of_ne_nil (List.reverse_ne_nil_iff.2 h)
  rw [hrev, pending, ← hrev, List.reverse_reverse]
  exact List.cons_ne_nil _ _

def isLiteral : Segment → Bool
  | .literal _ => true
  | .hole _ => false

def Proper : Segment → Prop
  | .literal text => text ≠ [] ∧ ¬HoldsPlaceholder text
  | .hole placeholder => placeholder.WellFormed

/-- No two literals are neighbours. -/
structure Normal (segments : List Segment) : Prop where
  proper : ∀ s ∈ segments, s.Proper
  apart : segments.IsChain fun s t => s.isLiteral = false ∨ t.isLiteral = false

theorem head?_flatMap_text {segments : List Segment} (hhead : ∀ s ∈ segments.head?, s.isLiteral = false) :
    ∀ c ∈ (segments.flatMap text).head?, c = Placeholder.openBrace := by
  cases segments with
  | nil => simp
  | cons s rest =>
    cases s with
    | literal cs => cases hhead _ rfl
    | hole p =>
      rintro c ⟨⟩
      rfl

theorem scan_flatMap_text {segments : List Segment} (hproper : ∀ s ∈ segments, s.Proper)
    (hhead : ∀ s ∈ segments.head?, s.isLiteral = false) (read : List Char) :
    scan 0 read (segments.flatMap text) = pending read ++ scan 0 [] (segments.flatMap text) := by
  cases segments with
  | nil =>
    rw [List.flatMap_nil, scan, scan, pending, List.append_nil]
  | cons s rest =>
    cases s with
    | literal cs => cases hhead _ rfl
    | hole p =>
      have hp : p.WellFormed := hproper _ List.mem_cons_self
      rw [List.flatMap_cons, text, scan_text hp, scan_text hp]
      rfl

theorem Normal.scan_text {segments : List Segment} (h : Normal segments) :
    scan 0 [] (segments.flatMap text) = segments := by
  obtain ⟨hproper, hapart⟩ := h
  induction segments with
  | nil => rfl
  | cons s rest ih =>
    rw [List.forall_mem_cons] at hproper
    rw [List.isChain_cons] at hapart
    have hrest := ih hproper.2 hapart.2
    cases s with
    | hole p =>
      rw [List.flatMap_cons, text, Segment.scan_text hproper.1, hrest]
      rfl
    | literal cs =>
      obtain ⟨hne, hplain⟩ := hproper.1
      have hhead : ∀ t ∈ rest.head?, t.isLiteral = false := fun t ht =>
        (hapart.1 t ht).resolve_left Bool.false_ne_true.symm
      rw [List.flatMap_cons, text, scan_plain hplain (head?_flatMap_text hhead), List.append_nil,
        scan_flatMap_text hproper.2 hhead, pending_reverse hne, hrest]
      rfl

theorem flatMap_text_pending (read : List Char) : (pending read).flatMap text = read.reverse := by
  cases read with
  | nil => rfl
  | cons c read => simp [pending, text]

theorem flatMap_text_scan (skip : Nat) (read cs : List Char) :
    (scan skip read cs).flatMap text = read.reverse ++ cs.drop skip := by
  fun_induction scan skip read cs with
  | case1 skip read => rw [flatMap_text_pending, List.drop_nil, List.append_nil]
  | case2 skip read c rest ih => rw [ih, List.drop_succ_cons]
  | case3 read c rest p hread ih =>
    have hstart := (Placeholder.of_read? hread).2
    rw [List.flatMap_append, List.flatMap_cons, flatMap_text_pending, ih, text, List.reverse_nil,
      List.nil_append, Placeholder.text_append_drop hstart]
    rfl
  | case4 read c rest hread ih =>
    rw [ih, List.reverse_cons, List.append_assoc]
    rfl

/-- No placeholder starts in the literal that is being read. -/
def Passed (read cs : List Char) : Prop :=
  ∀ u, u ≠ [] → u <:+ read.reverse → Placeholder.read? (u ++ cs) = none

theorem passed_nil (cs : List Char) : Passed [] cs :=
  fun _ hne hsuffix => absurd (List.suffix_nil.1 hsuffix) hne

theorem Passed.cons {read : List Char} {c : Char} {rest : List Char} (h : Passed read (c :: rest))
    (hread : Placeholder.read? (c :: rest) = none) : Passed (c :: read) rest := by
  intro u hne hsuffix
  rw [List.reverse_cons, List.suffix_concat_iff] at hsuffix
  obtain ⟨v, hv, hsuffix⟩ := hsuffix.resolve_left hne
  rw [hv, List.append_assoc, List.singleton_append]
  cases v with
  | nil => exact hread
  | cons d v => exact h _ (List.cons_ne_nil d v) hsuffix

theorem Passed.not_holdsPlaceholder {read cs : List Char} (h : Passed read cs) :
    ¬HoldsPlaceholder read.reverse := by
  rintro ⟨p, hp, hwithin⟩
  obtain ⟨u, hstart, hsuffix⟩ := List.infix_iff_prefix_suffix.1 hwithin
  have hne : u ≠ [] := by
    rintro rfl
    cases List.prefix_nil.1 hstart
  have hnone := h u hne hsuffix
  rw [Placeholder.read?_eq_some_iff.2 ⟨hp, hstart.trans (List.prefix_append _ _)⟩] at hnone
  cases hnone

theorem isChain_pending (read : List Char) :
    (pending read).IsChain fun s t => s.isLiteral = false ∨ t.isLiteral = false := by
  cases read with
  | nil => exact List.isChain_nil
  | cons c read => exact List.isChain_singleton _

theorem Passed.proper {read cs : List Char} (h : Passed read cs) : ∀ s ∈ pending read, s.Proper := by
  cases read with
  | nil => simp [pending]
  | cons c read =>
    intro s hs
    rw [pending, List.mem_singleton] at hs
    · rw [hs]
      exact ⟨List.reverse_ne_nil_iff.2 (List.cons_ne_nil _ _), h.not_holdsPlaceholder⟩
    · exact List.cons_ne_nil _ _

theorem normal_scan {skip : Nat} {read cs : List Char} (h : Passed read (cs.drop skip)) :
    Normal (scan skip read cs) := by
  -- What is read of a literal holds no placeholder start; that is carried along.
  fun_induction scan skip read cs with
  | case1 skip read =>
    rw [List.drop_nil] at h
    exact ⟨h.proper, isChain_pending read⟩
  | case2 skip read c rest ih => exact ih h
  | case3 read c rest p hread ih =>
    have hp := (Placeholder.of_read? hread).1
    obtain ⟨hproper, hapart⟩ := ih (passed_nil _)
    refine ⟨List.forall_mem_append.2 ⟨h.proper, List.forall_mem_cons.2 ⟨hp, hproper⟩⟩, ?_⟩
    have hafter : (Segment.hole p :: scan (p.text.length - 1) [] rest).IsChain fun s t =>
        s.isLiteral = false ∨ t.isLiteral = false :=
      List.isChain_cons.2 ⟨fun _ _ => Or.inl rfl, hapart⟩
    refine List.isChain_append.2 ⟨isChain_pending read, hafter, ?_⟩
    rintro s - t ⟨⟩
    exact Or.inr rfl
  | case4 read c rest hread ih => exact ih (h.cons hread)

def ofSpan : Span → Segment
  | .literal text => .literal text.toList
  | .var name => .hole ⟨[], name.toList, []⟩

theorem span_ofSpan (s : Span) : (ofSpan s).span = s := by
  cases s with
  | literal text => rw [ofSpan, span, String.ofList_toList]
  | var name => rw [ofSpan, span, String.ofList_toList]

theorem text_ofSpan (s : Span) : (ofSpan s).text = s.render := by
  cases s with
  | literal text => rfl
  | var name => rfl

end Segment

namespace Span

def isLiteral : Span → Bool
  | .literal _ => true
  | .var _ => false

def Proper : Span → Prop
  | .literal text => text ≠ "" ∧ ¬HoldsPlaceholder text.toList
  | .var name => isIdentifier name.toList = true

instance : DecidablePred Proper
  | .literal text => inferInstanceAs (Decidable (text ≠ "" ∧ ¬HoldsPlaceholder text.toList))
  | .var name => inferInstanceAs (Decidable (isIdentifier name.toList = true))

structure Normal (spans : List Span) : Prop where
  proper : ∀ s ∈ spans, s.Proper
  apart : spans.IsChain fun s t => s.isLiteral = false ∨ t.isLiteral = false

theorem isLiteral_ofSpan (s : Span) : (Segment.ofSpan s).isLiteral = s.isLiteral := by
  cases s <;> rfl

theorem isLiteral_span (s : Segment) : s.span.isLiteral = s.isLiteral := by
  cases s <;> rfl

theorem proper_ofSpan {s : Span} (h : s.Proper) : (Segment.ofSpan s).Proper := by
  cases s with
  | literal text => exact ⟨fun hnil => h.1 (String.toList_eq_nil_iff.1 hnil), h.2⟩
  | var name => exact ⟨by simp, h, by simp⟩

theorem proper_span {s : Segment} (h : s.Proper) : s.span.Proper := by
  cases s with
  | literal cs =>
    refine ⟨?_, ?_⟩
    · rw [Ne, String.ofList_eq_empty_iff]
      exact h.1
    · rw [String.toList_ofList]
      exact h.2
  | hole p =>
    rw [Segment.span, Proper, String.toList_ofList]
    exact h.isIdentifier_name

theorem normal_ofSpan {spans : List Span} (h : Normal spans) :
    Segment.Normal (spans.map Segment.ofSpan) := by
  refine ⟨?_, ?_⟩
  · rw [List.forall_mem_map]
    exact fun s hs => proper_ofSpan (h.proper s hs)
  · simp only [List.isChain_map, isLiteral_ofSpan]
    exact h.apart

theorem normal_span {segments : List Segment} (h : Segment.Normal segments) :
    Normal (segments.map Segment.span) := by
  refine ⟨?_, ?_⟩
  · rw [List.forall_mem_map]
    exact fun s hs => proper_span (h.proper s hs)
  · simp only [List.isChain_map, isLiteral_span]
    exact h.apart

theorem template_renderAll {spans : List Span} (h : Normal spans) : template (renderAll spans) = spans := by
  have hrender : spans.flatMap render = (spans.map Segment.ofSpan).flatMap Segment.text := by
    rw [List.flatMap_map]
    exact List.flatMap_congr fun s _ => (Segment.text_ofSpan s).symm
  rw [template, renderAll, String.toList_ofList, hrender, (normal_ofSpan h).scan_text, List.map_map]
  exact List.map_id'' Segment.span_ofSpan spans

/-- The template of a text is normal, and the text is the template with each variable written as the placeholder that
was found: the segments are the only normal ones of that text. Writing a normal template, with no white space in its
placeholders, and cutting the text gives the template back. -/
theorem template_inverse :
    (∀ s : String, Normal (template s) ∧
      (∃ segments : List Segment, segments.map Segment.span = template s ∧
        segments.flatMap Segment.text = s.toList ∧ Segment.Normal segments ∧
        ∀ others, Segment.Normal others → others.flatMap Segment.text = s.toList → others = segments) ∧
      template (renderAll (template s)) = template s) ∧
    ∀ spans, Normal spans → template (renderAll spans) = spans := by
  refine ⟨fun s => ?_, fun spans h => template_renderAll h⟩
  have hsegments := Segment.normal_scan (Segment.passed_nil (s.toList.drop 0))
  have hspans : Normal (template s) := normal_span hsegments
  refine ⟨hspans, ⟨Segment.scan 0 [] s.toList, rfl, ?_, hsegments, ?_⟩, template_renderAll hspans⟩
  · exact Segment.flatMap_text_scan 0 [] s.toList
  · intro others hothers htext
    rw [← htext, hothers.scan_text]

/-- Braces around a placeholder and next to it stay literal. -/
theorem braced_inverse :
    let spans : List Span := [.literal "\x7b", .var "left", .literal "\x7d and \x7b\x7b", .var "right", .var "_0",
      .literal "\x7d"]
    let text := "\x7b\x7bleft\x7d\x7d and \x7b\x7b\x7bright\x7d\x7b_0\x7d\x7d"
    Normal spans ∧ renderAll spans = text ∧ template text = spans := by
  intro spans text
  have hnormal : Normal spans := ⟨by decide, by decide⟩
  have hrender : renderAll spans = text := by decide
  refine ⟨hnormal, hrender, ?_⟩
  rw [← hrender]
  exact template_inverse.2 spans hnormal

end Span

end ReactiveView
