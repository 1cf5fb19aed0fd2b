import ReactiveView.Proofs.Atomicity

namespace ReactiveView

namespace Mutation

/-- Variables that some mutations assign or read. -/
def footprint (mutations : List Mutation) : List String :=
  mutations.flatMap fun m => m.target :: m.expr.reads

theorem mem_footprint_of_target {mutations : List Mutation} {name : String}
    (h : name ∈ mutations.map target) : name ∈ footprint mutations := by
  obtain ⟨m, hm, rfl⟩ := List.mem_map.1 h
  exact List.mem_flatMap.2 ⟨m, hm, List.mem_cons_self⟩

end Mutation

namespace Action

def Independent (a b : Action) : Prop :=
  (∀ x ∈ a.mutations.map Mutation.target, x ∉ Mutation.footprint b.mutations) ∧
    ∀ x ∈ b.mutations.map Mutation.target, x ∉ Mutation.footprint a.mutations

instance (a b : Action) : Decidable (a.Independent b) :=
  inferInstanceAs (Decidable (_ ∧ _))

end Action

structure Working.AgreesOn (names : List String) (w v : Working) : Prop where
  values : AgreeOn names w.state v.state
  names : w.state.names = v.state.names
  account : w.account = v.account
  charged : w.charged = v.charged

namespace Store

theorem eq_of_fields {s t : Store} (hstate : s.state = t.state) (haccount : s.account = t.account)
    (hbusy : s.busy = t.busy) : s = t := by
  cases s
  cases t
  cases hstate
  cases haccount
  cases hbusy
  rfl

structure AgreesOn (names : List String) (s t : Store) : Prop where
  values : AgreeOn names s.state t.state
  names : s.state.names = t.state.names
  account : s.account = t.account
  busy : s.busy = t.busy

variable {label : String} {names : List String}

theorem step_agrees {w v : Working} (h : w.AgreesOn names v) {m : Mutation}
    (hreads : m.expr.reads ⊆ names) :
    (∃ failure, step label m w = .error failure ∧ step label m v = .error failure) ∨
      ∃ w' v', step label m w = .ok w' ∧ step label m v = .ok v' ∧ w'.AgreesOn names v' := by
  have hhas : w.state.has m.target = v.state.has m.target := by
    rw [Bool.eq_iff_iff, Table.has_iff, Table.has_iff, h.names]
  have hvalue := Expr.evaluate_congr m.expr (h.values.mono hreads)
  simp only [step, hhas, hvalue, h.account, h.charged]
  split
  · exact Or.inl ⟨_, rfl, rfl⟩
  · rename_i hdeclared
    have hv : m.target ∈ v.state.names := Table.has_iff.1 (by simpa using hdeclared)
    split
    · exact Or.inl ⟨_, rfl, rfl⟩
    · rename_i value _
      split
      · exact Or.inl ⟨_, rfl, rfl⟩
      · refine Or.inr ⟨_, _, rfl, rfl, ?_, ?_, rfl, rfl⟩
        · intro x hx
          rw [Table.get?_put, Table.get?_put, h.values x hx]
        · rw [Table.names_put value hv, Table.names_put value (h.names ▸ hv), h.names]

theorem steps_agrees (label : String) {mutations : List Mutation}
    (hnames : Mutation.footprint mutations ⊆ names) {w v : Working} (h : w.AgreesOn names v) :
    (steps label mutations w).1 = (steps label mutations v).1 ∧
      (steps label mutations w).2.AgreesOn names (steps label mutations v).2 := by
  induction mutations generalizing w v with
  | nil => exact ⟨rfl, h⟩
  | cons m rest ih =>
    rw [Mutation.footprint, List.flatMap_cons, List.append_subset, List.cons_subset] at hnames
    obtain ⟨⟨-, hreads⟩, hrest⟩ := hnames
    rw [steps, steps]
    rcases step_agrees h hreads with ⟨failure, hw, hv⟩ | ⟨w', v', hw, hv, hnext⟩
    · rw [hw, hv]
      exact ⟨rfl, h⟩
    · rw [hw, hv]
      exact ih hrest hnext

theorem discard_agrees {s t : Store} (h : s.AgreesOn names t) {w v : Working}
    (hw : w.AgreesOn names v) : (s.discard w).AgreesOn names (t.discard v) := by
  refine ⟨h.values, h.names, ?_, h.busy⟩
  rw [discard, discard, hw.account, hw.charged]

theorem commit_agrees {s t : Store} (h : s.AgreesOn names t) {w v : Working}
    (hw : w.AgreesOn names v) {assigned : List String} (hsub : assigned ⊆ names) :
    (commit s assigned w).1 = (commit t assigned v).1 ∧
      (commit s assigned w).2.AgreesOn names (commit t assigned v).2 := by
  have hchanged : assigned.filter (changed s.state w.state) =
      assigned.filter (changed t.state v.state) := by
    refine List.filter_congr fun x hx => ?_
    rw [changed, changed, h.values x (hsub hx), hw.values x (hsub hx)]
  have hgrowth : (netGrowth s.state w.state assigned : Int) = netGrowth t.state v.state assigned := by
    rw [netGrowth_eq_sum, netGrowth_eq_sum]
    refine congrArg List.sum (List.map_congr_left fun x hx => ?_)
    rw [growth, growth, h.values x (hsub hx), hw.values x (hsub hx)]
  simp only [commit, hchanged, hgrowth, hw.account, hw.charged]
  split
  · exact ⟨rfl, discard_agrees h hw⟩
  · refine ⟨rfl, ?_, ?_, rfl, h.busy⟩
    · dsimp only
      split
      · exact h.values
      · exact hw.values
    · dsimp only
      split
      · exact h.names
      · exact hw.names

theorem transact_agrees {mutations : List Mutation} (hnames : Mutation.footprint mutations ⊆ names)
    {s t : Store} (h : s.AgreesOn names t) :
    (s.transact label mutations).1 = (t.transact label mutations).1 ∧
      (s.transact label mutations).2.AgreesOn names (t.transact label mutations).2 := by
  have hstart : Working.AgreesOn names ⟨s.state, s.account, 0⟩ ⟨t.state, t.account, 0⟩ :=
    ⟨h.values, h.names, h.account, rfl⟩
  have hsteps := steps_agrees label hnames hstart
  have hassigned : targets mutations ⊆ names := fun x hx =>
    hnames (Mutation.mem_footprint_of_target (mem_targets.1 hx))
  -- Both stores refuse, or both run the mutations from agreeing copies.
  cases hb : t.busy with
  | true =>
    rw [transact_of_busy hb, transact_of_busy (h.busy.trans hb)]
    exact ⟨rfl, h⟩
  | false =>
    rw [transact_of_idle hb, transact_of_idle (h.busy.trans hb)]
    generalize steps label mutations ⟨s.state, s.account, 0⟩ = left at hsteps ⊢
    generalize steps label mutations ⟨t.state, t.account, 0⟩ = right at hsteps ⊢
    obtain ⟨outcome, w⟩ := left
    obtain ⟨_, v⟩ := right
    obtain ⟨rfl, hw⟩ := hsteps
    cases outcome with
    | error failure => exact ⟨rfl, discard_agrees h hw⟩
    | ok done => exact commit_agrees h hw hassigned

theorem get?_apply {a : Action} {name : String} (h : name ∉ a.mutations.map Mutation.target)
    (s : Store) : (s.apply a).2.state.get? name = s.state.get? name := by
  rw [apply]
  cases hb : s.busy with
  | true => rw [transact_of_busy hb]
  | false =>
    have hframe := get?_steps a.name h ⟨s.state, s.account, 0⟩
    rw [transact_of_idle hb]
    split
    · rfl
    · rename_i w hsteps
      rw [hsteps] at hframe
      rw [commit]
      split
      · rfl
      · dsimp only
        split
        · rfl
        · exact hframe

theorem names_apply (s : Store) (a : Action) : (s.apply a).2.state.names = s.state.names :=
  names_transact s a.mutations

theorem account_apply_of_none {s : Store} (h : s.account = none) (a : Action) :
    (s.apply a).2.account = none := account_transact_of_none h a.name a.mutations

theorem busy_apply (s : Store) (a : Action) : (s.apply a).2.busy = s.busy := by
  cases hb : s.busy with
  | true => rw [apply, transact_of_busy hb, hb]
  | false => exact idle_transact hb a.name a.mutations

/-- Without a meter, an action does the same after one that assigns nothing that it assigns or reads. -/
theorem apply_after {s : Store} (hfree : s.account = none) {a b : Action}
    (h : ∀ x ∈ b.mutations.map Mutation.target, x ∉ Mutation.footprint a.mutations) :
    ((s.apply b).2.apply a).1 = (s.apply a).1 ∧
      ((s.apply b).2.apply a).2.AgreesOn (Mutation.footprint a.mutations) (s.apply a).2 := by
  have hagree : (s.apply b).2.AgreesOn (Mutation.footprint a.mutations) s := by
    refine ⟨fun x hx => ?_, names_apply s b, ?_, busy_apply s b⟩
    · exact get?_apply (fun hassigned => h x hassigned hx) s
    · rw [account_apply_of_none hfree, hfree]
  exact transact_agrees (List.Subset.refl _) hagree

theorem state_apply_comm {s : Store} (hfree : s.account = none) {a b : Action}
    (h : a.Independent b) :
    ((s.apply a).2.apply b).2.state = ((s.apply b).2.apply a).2.state := by
  obtain ⟨hfirst, hlast⟩ := h
  have hnames : ((s.apply a).2.apply b).2.state.names = ((s.apply b).2.apply a).2.state.names := by
    rw [names_apply, names_apply, names_apply, names_apply]
  refine Table.eq_of_get? hnames fun x _ => ?_
  by_cases hxa : x ∈ a.mutations.map Mutation.target
  · have hused := Mutation.mem_footprint_of_target hxa
    have hxb : x ∉ b.mutations.map Mutation.target := fun hx =>
      hlast x hx hused
    rw [get?_apply hxb]
    exact ((apply_after hfree hlast).2.values x hused).symm
  · rw [get?_apply hxa]
    by_cases hxb : x ∈ b.mutations.map Mutation.target
    · exact (apply_after hfree hfirst).2.values x (Mutation.mem_footprint_of_target hxb)
    · rw [get?_apply hxb, get?_apply hxb, get?_apply hxa]

/-- Without a meter, independent actions can change places: both orders end in the same store, with the
same values under the same names, and each action reports or fails with the same in both. -/
theorem apply_comm {s : Store} (hfree : s.account = none) {a b : Action} (h : a.Independent b) :
    ((s.apply a).2.apply b).2 = ((s.apply b).2.apply a).2 ∧
      ((s.apply b).2.apply a).1 = (s.apply a).1 ∧ ((s.apply a).2.apply b).1 = (s.apply b).1 := by
  refine ⟨?_, (apply_after hfree h.2).1, (apply_after hfree h.1).1⟩
  apply eq_of_fields
  · exact state_apply_comm hfree h
  · rw [account_apply_of_none (account_apply_of_none hfree a) b,
      account_apply_of_none (account_apply_of_none hfree b) a]
  · rw [busy_apply, busy_apply, busy_apply, busy_apply]

/-- Raising the count and splitting the bill have nothing to do with each other. There is nobody to split
the bill among, so that fails, before and after the count is raised. -/
theorem raise_split_comm :
    let s : Store := ⟨.ofList [("bill", .int 90), ("count", .int 1), ("people", .int 0)], none, false⟩
    let raise : Action := ⟨"raise",
      [⟨"count", .binary (.arithmetic .add) (.ident "count") (.literal (.int 1))⟩]⟩
    let divide : Action := ⟨"split",
      [⟨"bill", .binary (.arithmetic .div) (.ident "bill") (.ident "people")⟩]⟩
    raise.Independent divide ∧ ((s.apply raise).2.apply divide).2 = ((s.apply divide).2.apply raise).2 ∧
      ((s.apply divide).2.apply raise).1 = .ok ["count"] ∧
      ((s.apply raise).2.apply divide).1 =
        .error (.action (.evaluation "split" "bill" (.divisionByZero "/"))) := by
  intro s raise divide
  have hindependent : raise.Independent divide := by decide +kernel
  obtain ⟨hstore, hraise, hdivide⟩ := apply_comm (s := s) rfl hindependent
  refine ⟨hindependent, hstore, ?_, ?_⟩
  · rw [hraise]
    rfl
  · rw [hdivide]
    rfl

end Store

end ReactiveView
