namespace ReactiveView

variable {α : Type}

/-- Keep entries in order of first insertion, one for each name. -/
structure Table (α : Type) where
  entries : List (String × α)
  nodup : (entries.map Prod.fst).Nodup
  deriving DecidableEq

namespace Table

def names (t : Table α) : List String := t.entries.map Prod.fst

def values (t : Table α) : List α := t.entries.map Prod.snd

def size (t : Table α) : Nat := t.entries.length

def get? (t : Table α) (name : String) : Option α := t.entries.lookup name

def has (t : Table α) (name : String) : Bool := (t.get? name).isSome

def empty : Table α := ⟨[], List.nodup_nil⟩

instance : EmptyCollection (Table α) := ⟨empty⟩

instance : Inhabited (Table α) := ⟨empty⟩

def putEntry (name : String) (value : α) : List (String × α) → List (String × α)
  | [] => [(name, value)]
  | entry :: rest =>
    if entry.1 = name then (name, value) :: rest else entry :: putEntry name value rest

theorem putEntry_names (name : String) (value : α) (entries : List (String × α)) :
    (putEntry name value entries).map Prod.fst =
      if name ∈ entries.map Prod.fst then entries.map Prod.fst
      else entries.map Prod.fst ++ [name] := by
  induction entries with
  | nil => simp [putEntry]
  | cons entry rest ih =>
    by_cases h : entry.1 = name
    · simp [putEntry, h]
    · have h' : ¬name = entry.1 := fun e => h e.symm
      simp only [putEntry, h, ↓reduceIte, List.map_cons, List.mem_cons, h', false_or, ih]
      split <;> simp

def put (t : Table α) (name : String) (value : α) : Table α where
  entries := putEntry name value t.entries
  nodup := by
    rw [putEntry_names]
    split
    · exact t.nodup
    · rename_i h
      exact List.nodup_append.2 ⟨t.nodup, by simp, by rintro a ha b hb rfl; simp_all⟩

def erase (t : Table α) (name : String) : Table α where
  entries := t.entries.filter fun entry => entry.1 != name
  nodup := (List.filter_sublist.map Prod.fst).nodup t.nodup

/-- Build a table from entries in order. A repeated name keeps its first place and its last value. -/
def ofList (entries : List (String × α)) : Table α :=
  entries.foldl (fun t entry => t.put entry.1 entry.2) empty

def indexOf? (name : String) : Option Nat :=
  let digits := name.toList
  if digits.isEmpty || !digits.all Char.isDigit || (digits.head? == some '0' && digits.length != 1) ||
      10 < digits.length then
    none
  else
    let n := digits.foldl (fun n c => 10 * n + (c.toNat - '0'.toNat)) 0
    if n < 0xFFFFFFFF then some n else none

def recordLe (a b : String × α) : Bool :=
  match indexOf? a.1, indexOf? b.1 with
  | some m, some n => m ≤ n
  | none, some _ => false
  | _, none => true

/-- Build a record: a table in which the names that spell numbers come first, in ascending order,
and all others keep their order. -/
def ofRecord (entries : List (String × α)) : Table α where
  entries := (ofList entries).entries.mergeSort recordLe
  nodup := ((List.mergeSort_perm _ _).map Prod.fst).nodup_iff.2 (ofList entries).nodup

theorem lookup_cons (name key : String) (value : α) (rest : List (String × α)) :
    List.lookup name ((key, value) :: rest) =
      if name = key then some value else rest.lookup name := by
  rw [List.lookup_cons]
  by_cases h : name = key
  · rw [if_pos h, beq_iff_eq.2 h]
  · rw [if_neg h, beq_eq_false_iff_ne.2 h]

theorem get?_eq_none {t : Table α} {name : String} : t.get? name = none ↔ name ∉ t.names := by
  unfold get? names
  induction t.entries with
  | nil => simp
  | cons entry rest ih =>
    rw [lookup_cons]
    by_cases h : name = entry.1 <;> simp_all

theorem has_iff {t : Table α} {name : String} : t.has name = true ↔ name ∈ t.names := by
  rw [has, Option.isSome_iff_ne_none, ne_eq, get?_eq_none, Classical.not_not]

theorem lookup_putEntry (name other : String) (value : α) (entries : List (String × α)) :
    (putEntry name value entries).lookup other =
      if other = name then some value else entries.lookup other := by
  induction entries with
  | nil => simp [putEntry, lookup_cons]
  | cons entry rest ih =>
    unfold putEntry
    by_cases h : entry.1 = name
    · rw [if_pos h, lookup_cons, lookup_cons, h]
      by_cases ho : other = name <;> simp [ho]
    · rw [if_neg h, lookup_cons, lookup_cons, ih]
      by_cases ho : other = entry.1
      · simp [ho, h]
      · simp [ho]

theorem get?_put (t : Table α) (name other : String) (value : α) :
    (t.put name value).get? other = if other = name then some value else t.get? other :=
  lookup_putEntry name other value t.entries

theorem names_put {t : Table α} {name : String} (value : α) (h : name ∈ t.names) :
    (t.put name value).names = t.names := by
  unfold names at *
  rw [put, putEntry_names, if_pos h]

theorem lookup_filter_ne (name other : String) (entries : List (String × α)) :
    (entries.filter fun entry => entry.1 != name).lookup other =
      if other = name then none else entries.lookup other := by
  induction entries with
  | nil => simp
  | cons entry rest ih =>
    rw [List.filter_cons]
    by_cases h : entry.1 = name
    · rw [if_neg (by simpa using h), ih, lookup_cons, h]
      by_cases ho : other = name <;> simp [ho]
    · rw [if_pos (by simpa using h), lookup_cons, lookup_cons, ih]
      by_cases ho : other = entry.1
      · simp [ho, h]
      · simp [ho]

theorem get?_erase (t : Table α) (name other : String) :
    (t.erase name).get? other = if other = name then none else t.get? other :=
  lookup_filter_ne name other t.entries

theorem eq_of_get? {t u : Table α} (hnames : t.names = u.names)
    (h : ∀ name ∈ t.names, t.get? name = u.get? name) : t = u := by
  obtain ⟨ts, hts⟩ := t
  obtain ⟨us, hus⟩ := u
  congr 1
  dsimp only [names, get?] at hnames h
  induction ts generalizing us with
  | nil => simpa using hnames
  | cons entry rest ih =>
    cases us with
    | nil => simp at hnames
    | cons other others =>
      obtain ⟨name, value⟩ := entry
      obtain ⟨name', value'⟩ := other
      simp only [List.map_cons, List.cons.injEq] at hnames
      obtain ⟨rfl, hrest⟩ := hnames
      have hvalue : value = value' := by simpa [lookup_cons] using h name (by simp)
      have hne (x : String) (hx : x ∈ rest.map Prod.fst) : x ≠ name := by
        rintro rfl
        exact (List.nodup_cons.1 hts).1 hx
      rw [hvalue]
      rw [ih (List.nodup_cons.1 hts).2 others (List.nodup_cons.1 hus).2 hrest fun x hx => ?_]
      simpa [lookup_cons, hne x hx] using h x (by simp [hx])

end Table

end ReactiveView
