import ReactiveView.Sandbox.Path

namespace ReactiveView.Path

def isSlash (c : Char) : Bool := c == separator || c == '\\'

theorem cut_eq_splitOnP (isCut : Char → Bool) (cs : List Char) : cut isCut cs = cs.splitOnP isCut := by
  induction cs with
  | nil => rfl
  | cons c rest ih =>
    obtain ⟨first, parts, hrest⟩ := List.exists_cons_of_ne_nil (List.splitOnP_ne_nil isCut rest)
    rw [cut, List.splitOnP_cons_eq_if_modifyHead, ih, hrest]
    rfl

theorem not_isCut_of_mem_splitOnP {isCut : Char → Bool} {cs part : List Char}
    (h : part ∈ cs.splitOnP isCut) : ∀ c ∈ part, isCut c = false := by
  induction cs generalizing part with
  | nil =>
    rw [List.splitOnP_nil, List.mem_singleton] at h
    simp [h]
  | cons c rest ih =>
    obtain ⟨first, parts, hrest⟩ := List.exists_cons_of_ne_nil (List.splitOnP_ne_nil isCut rest)
    rw [List.splitOnP_cons_eq_if_modifyHead, hrest] at h
    rw [hrest] at ih
    split at h
    · cases List.mem_cons.1 h with
      | inl hnil => simp [hnil]
      | inr hlater => exact ih hlater
    · rename_i hc
      cases List.mem_cons.1 h with
      | inl hfirst =>
        rw [hfirst, List.forall_mem_cons]
        exact ⟨Bool.eq_false_iff.2 hc, ih List.mem_cons_self⟩
      | inr hlater => exact ih (List.mem_cons_of_mem _ hlater)

theorem splitOnP_eq_flatMap {p q : Char → Bool} (hpq : ∀ c, p c = true → q c = true) (cs : List Char) :
    cs.splitOnP q = (cs.splitOnP p).flatMap (List.splitOnP q) := by
  induction cs with
  | nil => rfl
  | cons c rest ih =>
    obtain ⟨first, parts, hrest⟩ := List.exists_cons_of_ne_nil (List.splitOnP_ne_nil p rest)
    rw [hrest, List.flatMap_cons] at ih
    rw [List.splitOnP_cons_eq_if_modifyHead, List.splitOnP_cons_eq_if_modifyHead, hrest, ih]
    by_cases hp : p c = true
    · rw [if_pos hp, if_pos (hpq c hp)]
      rfl
    · -- The character stays with the first part, whichever way that part is cut.
      obtain ⟨piece, pieces, hfirst⟩ := List.exists_cons_of_ne_nil (List.splitOnP_ne_nil q first)
      rw [if_neg hp, List.modifyHead_cons, List.flatMap_cons, List.splitOnP_cons_eq_if_modifyHead, hfirst]
      split
      · rfl
      · rfl

theorem segments_eq (text : String) :
    segments text = (text.toList.splitOnP (· == separator)).map String.ofList := by
  rw [segments, cut_eq_splitOnP]

theorem separator_notMem_of_mem_segments {text name : String} (h : name ∈ segments text) :
    separator ∉ name.toList := by
  rw [segments_eq, List.mem_map] at h
  obtain ⟨part, hpart, rfl⟩ := h
  rw [String.toList_ofList]
  intro hmem
  have hcut := not_isCut_of_mem_splitOnP hpart separator hmem
  simp at hcut

theorem hasTraversal_eq_false_iff {text : String} :
    hasTraversal text = false ↔ "..".toList ∉ text.toList.splitOnP isSlash := by
  have hslash : (fun c => c == separator || c == '\\') = isSlash := rfl
  simp only [hasTraversal, hslash, cut_eq_splitOnP, List.any_eq_false, beq_iff_eq]
  exact ⟨fun h hmem => h _ hmem rfl, fun h part hpart heq => h (heq ▸ hpart)⟩

theorem dots_notMem_segments {text : String} (h : "..".toList ∉ text.toList.splitOnP isSlash) :
    ".." ∉ segments text := by
  intro hmem
  rw [segments_eq, List.mem_map] at hmem
  obtain ⟨part, hpart, hdots⟩ := hmem
  have heq : part = "..".toList := by rw [← hdots, String.toList_ofList]
  have hwhole : ("..".toList).splitOnP isSlash = ["..".toList] := by decide
  apply h
  rw [splitOnP_eq_flatMap (p := (· == separator)) (by simp [isSlash]) text.toList, List.mem_flatMap]
  exact ⟨part, hpart, by rw [heq, hwhole]; exact List.mem_singleton_self _⟩

def IsName (name : String) : Prop :=
  name ≠ "" ∧ name ≠ "." ∧ name ≠ ".." ∧ separator ∉ name.toList

/-- Names of a text that lead on: they are neither empty nor a dot. -/
def trail (text : String) : Path := (segments text).filter fun name => name ≠ "" ∧ name ≠ "."

theorem foldl_follow {names : List String} (h : ".." ∉ names) (start : Path) :
    names.foldl follow start = start ++ names.filter fun name => name ≠ "" ∧ name ≠ "." := by
  induction names generalizing start with
  | nil => simp
  | cons name names ih =>
    rw [List.mem_cons, not_or] at h
    rw [List.foldl_cons, ih h.2, follow]
    by_cases hstay : name = "" ∨ name = "."
    · have hskip : ¬(name ≠ "" ∧ name ≠ ".") := fun hkeep => hstay.elim hkeep.1 hkeep.2
      simp [hstay, hskip]
    · have hkeep : name ≠ "" ∧ name ≠ "." := not_or.1 hstay
      simp [hkeep, Ne.symm h.1]

theorem resolve_eq {text : String} (h : ".." ∉ segments text) (base : Path) :
    resolve base text = (if isAbsolute text then [] else base) ++ trail text := foldl_follow h _

theorem isName_of_mem_trail {text name : String} (h : ".." ∉ segments text) (hname : name ∈ trail text) :
    IsName name := by
  rw [trail, List.mem_filter, decide_eq_true_eq] at hname
  obtain ⟨hmem, hne, hdot⟩ := hname
  exact ⟨hne, hdot, fun hdots => h (hdots ▸ hmem), separator_notMem_of_mem_segments hmem⟩

theorem exists_stem_of_hasSourceExtension {text : String} (h : hasSourceExtension text = true) :
    ∃ stem : String, stem ≠ "" ∧ baseName text = stem ++ sourceExtension := by
  rw [hasSourceExtension, Bool.and_eq_true, List.isPrefixOf_iff_prefix, List.reverse_prefix,
    decide_eq_true_eq] at h
  obtain ⟨⟨stem, hstem⟩, hlength⟩ := h
  refine ⟨String.ofList stem, ?_, ?_⟩
  · rw [Ne, String.ofList_eq_empty_iff]
    rintro rfl
    rw [← hstem, List.nil_append, String.length_toList] at hlength
    exact Nat.lt_irrefl _ hlength
  · rw [← String.toList_inj, String.toList_append, String.toList_ofList, hstem]

theorem getLast?_trail {text : String} (h : hasSourceExtension text = true) :
    (trail text).getLast? = some (baseName text) := by
  obtain ⟨stem, -, hname⟩ := exists_stem_of_hasSourceExtension h
  have hlong : 1 < (baseName text).length := by
    rw [hname, String.length_append]
    exact Nat.lt_add_left _ (by decide)
  have htrail : trail text = ((segments text).filter fun name => name != "").filter fun name => name ≠ "." := by
    rw [List.filter_filter, trail]
    apply List.filter_congr
    intro name _
    simp [bne, Bool.beq_eq_decide_eq, Bool.and_comm]
  rw [htrail]
  rw [baseName] at hlong ⊢
  generalize (segments text).filter (fun name => name != "") = names at hlong ⊢
  cases List.eq_nil_or_concat names with
  | inl hnil =>
    rw [hnil] at hlong
    exact absurd hlong (by decide)
  | inr hlast =>
    obtain ⟨front, last, rfl⟩ := hlast
    rw [List.concat_eq_append] at hlong ⊢
    rw [List.getLastD_concat] at hlong ⊢
    have hdot : last ≠ "." := by
      rintro rfl
      exact absurd hlong (by decide)
    simp [hdot]

/-- The names that lead from a root to a path are the rest of the path, or start by going up. -/
theorem relative_cases (root target : Path) :
    target = root ++ relative root target ∨ ∃ rest, relative root target = ".." :: rest := by
  fun_induction relative root target with
  | case1 root b target ih =>
    cases ih with
    | inl hbelow => exact Or.inl (congrArg (b :: ·) hbelow)
    | inr hup => exact Or.inr hup
  | case2 a root b target hne => exact Or.inr ⟨_, rfl⟩
  | case3 root target hends =>
    cases root with
    | nil => exact Or.inl rfl
    | cons a root => exact Or.inr ⟨_, rfl⟩

theorem relative_append (root rest : Path) : relative root (root ++ rest) = rest := by
  induction root with
  | nil => cases rest <;> rfl
  | cons name root ih => rw [List.cons_append, relative, if_pos rfl, ih]

theorem isInside_append (root : Path) (name : String) (rest : Path) :
    isInside root (root ++ name :: rest) = !startsWithDots name := by
  rw [isInside, relative_append]

theorem isInside_iff {root target : Path} :
    isInside root target = true ↔
      ∃ name rest, target = root ++ name :: rest ∧ startsWithDots name = false := by
  constructor
  · intro h
    rw [isInside] at h
    cases relative_cases root target with
    | inl hbelow =>
      generalize relative root target = names at h hbelow
      cases names with
      | nil => cases h
      | cons name rest => exact ⟨name, rest, hbelow, by simpa using h⟩
    | inr hup =>
      obtain ⟨rest, hrest⟩ := hup
      rw [hrest] at h
      cases h
  · rintro ⟨name, rest, rfl, hname⟩
    rw [isInside_append, hname]
    rfl

end ReactiveView.Path
