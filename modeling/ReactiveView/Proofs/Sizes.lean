import Mathlib.Algebra.BigOperators.Ring.Finset
import Mathlib.Algebra.Ring.Int.Defs
import ReactiveView.Proofs.Display
import ReactiveView.Proofs.Transaction

namespace ReactiveView

theorem nodup_eraseDups {α : Type} [BEq α] [LawfulBEq α] (l : List α) : l.eraseDups.Nodup := by
  match l with
  | [] => simp
  | a :: rest =>
    have hlt : (rest.filter fun b => !b == a).length < rest.length + 1 :=
      Nat.lt_succ_of_le (List.length_filter_le _ rest)
    rw [List.eraseDups_cons, List.nodup_cons]
    exact ⟨by simp, nodup_eraseDups _⟩
termination_by l.length

theorem Table.get?_of_mem {α : Type} {t : Table α} {name : String} {value : α}
    (h : (name, value) ∈ t.entries) : t.get? name = some value := by
  obtain ⟨found, hf⟩ := Table.get?_eq_some_of_mem (List.mem_map_of_mem h : name ∈ t.names)
  have heq := List.inj_on_of_nodup_map t.nodup (Table.mem_entries hf) h rfl
  rw [hf, (Prod.mk.inj heq).2]

theorem sum_map_sub {α : Type} (f g : α → Int) (l : List α) :
    (l.map fun a => f a - g a).sum = (l.map f).sum - (l.map g).sum := by
  induction l with
  | nil => rfl
  | cons a rest ih =>
    simp only [List.map_cons, List.sum_cons, ih]
    omega

namespace Store

def sizeAt (s : State) (name : String) : Int :=
  match s.get? name with
  | some v => sizeOfEntry name v
  | none => 0

theorem sizeOfState_eq_sum (s : State) : (sizeOfState s : Int) = (s.names.map (sizeAt s)).sum := by
  have hmap : s.entries.map (fun entry => Int.ofNat (sizeOfEntry entry.1 entry.2)) =
      s.names.map (sizeAt s) := by
    rw [Table.names, List.map_map]
    refine List.map_congr_left fun entry he => ?_
    rw [Function.comp, sizeAt, Table.get?_of_mem he]
    rfl
  have hsum : sizeOfState s = (s.entries.map fun entry => sizeOfEntry entry.1 entry.2).sum := rfl
  rw [hsum, Nat.cast_list_sum, List.map_map]
  exact congrArg List.sum hmap

theorem growth_eq {s t : State} (hnames : s.names = t.names) (name : String) :
    (growth s t name : Int) = sizeAt t name - sizeAt s name := by
  simp only [growth, sizeAt]
  cases hs : s.get? name with
  | none => rw [(Table.names_eq_none_iff hnames).1 hs]; rfl
  | some v =>
    cases ht : t.get? name with
    | none => rw [(Table.names_eq_none_iff hnames).2 ht] at hs; cases hs
    | some w =>
      simp only [sizeOfEntry]
      omega

theorem growth_self_eq {s t : State} {name : String} (h : t.get? name = s.get? name) :
    (growth s t name : Int) = 0 := by
  rw [growth, h]
  cases s.get? name with
  | none => rfl
  | some v => exact Int.sub_self _

theorem growth_of_notMem {s t : State} {name : String} (h : name ∉ s.names) :
    (growth s t name : Int) = 0 := by
  rw [growth, Table.get?_eq_none.2 h]

theorem netGrowth_eq_sum (s t : State) (names : List String) :
    netGrowth s t names = (names.map (growth s t) : List Int).sum := by
  rw [List.sum_eq_foldl, List.foldl_map, netGrowth]

/-- Growth is counted once for each name, whatever list of names covers the changes. -/
theorem netGrowth_eq {s t : State} (hnames : s.names = t.names) {names : List String}
    (hnd : names.Nodup) (hframe : ∀ x, x ∉ names → t.get? x = s.get? x) :
    netGrowth s t names = (sizeOfState t : Int) - sizeOfState s := by
  have hall : (s.names.map (growth s t)).sum = (sizeOfState t : Int) - sizeOfState s := by
    rw [sizeOfState_eq_sum, sizeOfState_eq_sum, ← hnames]
    rw [List.map_congr_left fun name _ => growth_eq hnames name, sum_map_sub]
  have hnames : names.toFinset ⊆ names.toFinset ∪ s.names.toFinset := Finset.subset_union_left
  have hstate : s.names.toFinset ⊆ names.toFinset ∪ s.names.toFinset := Finset.subset_union_right
  have hleft := Finset.sum_subset (f := growth s t) hnames fun x _ hx =>
    growth_self_eq (hframe x (by simpa using hx))
  have hright := Finset.sum_subset (f := growth s t) hstate fun x _ hx =>
    growth_of_notMem (by simpa using hx)
  rw [netGrowth_eq_sum, ← List.sum_toFinset _ hnd, hleft, ← hright,
    List.sum_toFinset _ (show s.names.Nodup from s.nodup)]
  exact hall

end Store

end ReactiveView
