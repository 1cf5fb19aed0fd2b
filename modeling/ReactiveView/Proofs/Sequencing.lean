import ReactiveView.Proofs.Atomicity

namespace ReactiveView

/-- Assign variables in order. Each value is found under the assignments before it, and the first that
is not found ends the run. -/
def Mutation.run : State → List Mutation → Except Fault State
  | s, [] => .ok s
  | s, m :: rest =>
    match m.expr.evaluate s with
    | .error fault => .error fault
    | .ok value => run (s.put m.target value) rest

namespace Mutation

theorem run_cons_of_ok {s : State} {m : Mutation} {value : Value} (h : m.expr.evaluate s = .ok value)
    (rest : List Mutation) : run s (m :: rest) = run (s.put m.target value) rest := by
  rw [run, h]

theorem run_cons_of_error {s : State} {m : Mutation} {fault : Fault}
    (h : m.expr.evaluate s = .error fault) (rest : List Mutation) :
    run s (m :: rest) = .error fault := by
  rw [run, h]

theorem exists_of_run_eq_error {s : State} {mutations : List Mutation} {fault : Fault}
    (h : run s mutations = .error fault) :
    ∃ before m after w, mutations = before ++ m :: after ∧ run s before = .ok w ∧
      m.expr.evaluate w = .error fault := by
  induction mutations generalizing s with
  | nil => cases h
  | cons m rest ih =>
    cases hv : m.expr.evaluate s with
    | error other =>
      rw [run_cons_of_error hv] at h
      cases h
      exact ⟨[], m, rest, s, rfl, rfl, hv⟩
    | ok value =>
      rw [run_cons_of_ok hv] at h
      obtain ⟨before, last, after, w, rfl, hbefore, hlast⟩ := ih h
      refine ⟨m :: before, last, after, w, rfl, ?_, hlast⟩
      rw [run_cons_of_ok hv]
      exact hbefore

theorem names_run {s w : State} {mutations : List Mutation} (h : run s mutations = .ok w)
    (htargets : ∀ m ∈ mutations, m.target ∈ s.names) : w.names = s.names := by
  induction mutations generalizing s with
  | nil =>
    cases h
    rfl
  | cons m rest ih =>
    cases hv : m.expr.evaluate s with
    | error fault =>
      rw [run_cons_of_error hv] at h
      cases h
    | ok value =>
      rw [run_cons_of_ok hv] at h
      have hput : (s.put m.target value).names = s.names :=
        Table.names_put value (htargets m List.mem_cons_self)
      have hrest := ih h fun later hl => by
        rw [hput]
        exact htargets later (List.mem_cons_of_mem _ hl)
      rw [hrest, hput]

end Mutation

namespace Store

variable {label : String}

theorem step_of_ok {m : Mutation} {s : State} {charged : Int} {value : Value}
    (htarget : m.target ∈ s.names) (h : m.expr.evaluate s = .ok value) :
    step label m ⟨s, none, charged⟩ = .ok ⟨s.put m.target value, none, charged + value.size⟩ := by
  have hhas : s.has m.target = true := Table.has_iff.2 htarget
  simp [step, hhas, h, Account.allocate]

theorem step_of_error {m : Mutation} {w : Working} {fault : Fault}
    (htarget : m.target ∈ w.state.names) (h : m.expr.evaluate w.state = .error fault) :
    step label m w = .error (mutationFailure label m.target fault) := by
  have hhas : w.state.has m.target = true := Table.has_iff.2 htarget
  simp [step, hhas, h]

theorem steps_of_run {mutations : List Mutation} {s w : State}
    (htargets : ∀ m ∈ mutations, m.target ∈ s.names) (h : Mutation.run s mutations = .ok w)
    (charged : Int) :
    ∃ total, steps label mutations ⟨s, none, charged⟩ = (.ok (), ⟨w, none, total⟩) := by
  induction mutations generalizing s charged with
  | nil =>
    cases h
    exact ⟨charged, rfl⟩
  | cons m rest ih =>
    have htarget := htargets m List.mem_cons_self
    cases hv : m.expr.evaluate s with
    | error fault =>
      rw [Mutation.run_cons_of_error hv] at h
      cases h
    | ok value =>
      rw [Mutation.run_cons_of_ok hv] at h
      rw [steps, step_of_ok htarget hv]
      apply ih _ h
      intro later hl
      rw [Table.names_put value htarget]
      exact htargets later (List.mem_cons_of_mem _ hl)

theorem steps_append_of_error {before after : List Mutation} {m : Mutation} {w reached : Working}
    {failure : Failure} (hbefore : steps label before w = (.ok (), reached))
    (h : step label m reached = .error failure) :
    steps label (before ++ m :: after) w = (.error failure, reached) := by
  induction before generalizing w with
  | nil =>
    cases hbefore
    rw [List.nil_append, steps, h]
  | cons first rest ih =>
    rw [steps] at hbefore
    rw [List.cons_append, steps]
    split at hbefore
    · cases hbefore
    · exact ih hbefore

theorem apply_of_error {s : Store} (hidle : s.busy = false) (hfree : s.account = none) {a : Action}
    (htargets : ∀ m ∈ a.mutations, m.target ∈ s.state.names) {before after : List Mutation}
    {m : Mutation} (hsplit : a.mutations = before ++ m :: after) {w : State}
    (hbefore : Mutation.run s.state before = .ok w) {fault : Fault}
    (h : m.expr.evaluate w = .error fault) :
    s.apply a = (.error (mutationFailure a.name m.target fault), s) := by
  have hdeclared : ∀ earlier ∈ before, earlier.target ∈ s.state.names := by
    intro earlier he
    apply htargets
    rw [hsplit]
    exact List.mem_append_left _ he
  obtain ⟨charged, hsteps⟩ : ∃ total,
      steps a.name before ⟨s.state, none, 0⟩ = (.ok (), ⟨w, none, total⟩) :=
    steps_of_run hdeclared hbefore 0
  have hstep : step a.name m ⟨w, none, charged⟩ =
      .error (mutationFailure a.name m.target fault) := by
    apply step_of_error _ h
    rw [Mutation.names_run hbefore hdeclared]
    apply htargets
    rw [hsplit]
    exact List.mem_append_right _ List.mem_cons_self
  have hall : steps a.name (before ++ m :: after) ⟨s.state, none, 0⟩ =
      (.error (mutationFailure a.name m.target fault), ⟨w, none, charged⟩) :=
    steps_append_of_error hsteps hstep
  have hback : s.discard ⟨w, none, charged⟩ = s := by
    rw [discard, Account.release, Option.map_none, ← hfree]
  rw [apply, transact_of_idle hidle, hsplit, hfree, hall]
  simp only [hback]

theorem apply_of_run {s : Store} (hidle : s.busy = false) (hfree : s.account = none) {a : Action}
    (htargets : ∀ m ∈ a.mutations, m.target ∈ s.state.names) {w : State}
    (h : Mutation.run s.state a.mutations = .ok w) :
    let dirty := (targets a.mutations).filter (changed s.state w)
    s.apply a = (.ok dirty, { s with state := if dirty.isEmpty then s.state else w }) := by
  obtain ⟨charged, hsteps⟩ : ∃ total,
      steps a.name a.mutations ⟨s.state, none, 0⟩ = (.ok (), ⟨w, none, total⟩) :=
    steps_of_run htargets h 0
  rw [apply, transact_of_idle hidle, hfree, hsteps]
  simp only [commit, settle_none]

theorem changed_iff {s w : State} {x : String} :
    changed s w x = true ↔
      ∃ u v, s.get? x = some u ∧ w.get? x = some v ∧ u.identical v = false := by
  cases hs : s.get? x with
  | none => simp [changed, hs]
  | some u =>
    cases hw : w.get? x with
    | none => simp [changed, hs, hw]
    | some v => simp [changed, hs, hw]

/-- A store is reached by calls that succeed or fail, while others may charge its meter and give bytes
back. -/
inductive Reached : Store → Prop where
  | created {initial : State} {account : Account} {s : Store} (h : ∀ m ∈ account, 0 ≤ m.usage)
    (hs : create initial account = .ok s) : Reached s
  | called {s : Store} (h : Reached s) (call : StoreCall) : Reached (call.run s).2
  | charged {s : Store} (h : Reached s) {bytes : Nat} {what : String} {account : Account}
    (ha : s.account.allocate bytes what = .ok account) : Reached { s with account }
  | refunded {s : Store} (h : Reached s) (bytes : Nat) :
    Reached { s with account := s.account.release bytes }

theorem Reached.idle {s : Store} (h : s.Reached) : s.busy = false := by
  induction h with
  | @created initial account s _ hs =>
    rw [create] at hs
    cases ha : account.allocate (sizeOfState initial) "initial state" with
    | error cause =>
      rw [ha] at hs
      cases hs
    | ok later =>
      rw [ha] at hs
      cases hs
      rfl
  | called _ call ih =>
    rw [StoreCall.run_eq_transact]
    exact idle_transact ih call.label call.mutations
  | charged _ _ ih => exact ih
  | refunded _ _ ih => exact ih

/-- Without a meter, an action is a sequence of assignments. If one has no value, the action fails with
the first such assignment and changes nothing. Otherwise it reports exactly the assigned variables whose
value differs in the end from the committed one; if there is one, the state becomes what the assignments
lead to, and if there is none, it stays. Assigning a variable is the action that does just that, whatever
its name. -/
theorem Reached.apply_in_order {s : Store} (hs : s.Reached) (hfree : s.account = none) {a : Action}
    (htargets : ∀ m ∈ a.mutations, m.target ∈ s.state.names) :
    (∀ fault, Mutation.run s.state a.mutations = .error fault →
      ∃ before m after w, a.mutations = before ++ m :: after ∧
        Mutation.run s.state before = .ok w ∧ m.expr.evaluate w = .error fault ∧
        (∀ cause, fault = .evaluation cause →
          s.apply a = (.error (.action (.evaluation a.name m.target cause)), s)) ∧
        ((∀ cause, fault ≠ .evaluation cause) → s.apply a = (.error fault.toFailure, s))) ∧
    (∀ w, Mutation.run s.state a.mutations = .ok w →
      ∃ dirty later, s.apply a = (.ok dirty, later) ∧
        (∀ x, x ∈ dirty ↔ x ∈ a.mutations.map Mutation.target ∧
          ∃ u v, s.state.get? x = some u ∧ w.get? x = some v ∧ u.identical v = false) ∧
        (dirty ≠ [] → later.state = w) ∧ (dirty = [] → later.state = s.state) ∧
        w.names = s.state.names ∧ later.state.names = s.state.names) ∧
    ∀ name value, s.assign name value = s.apply ⟨"bind:" ++ name, [⟨name, .literal value⟩]⟩ ∧
      (name ∈ s.state.names → ∀ label, s.assign name value =
        s.apply ⟨label, [⟨name, .literal value⟩]⟩) := by
  have hidle := hs.idle
  refine ⟨?fails, ?succeeds, ?assigns⟩
  case fails =>
    intro fault h
    obtain ⟨before, m, after, w, hsplit, hbefore, hlast⟩ := Mutation.exists_of_run_eq_error h
    have happly := apply_of_error hidle hfree htargets hsplit hbefore hlast
    refine ⟨before, m, after, w, hsplit, hbefore, hlast, ?_, ?_⟩
    · rintro cause rfl
      exact happly
    · intro hother
      rw [happly]
      cases fault with
      | evaluation cause => exact absurd rfl (hother cause)
      | sandbox cause | missingArgument b | notWhole x => rfl
  case succeeds =>
    intro w h
    have hnames := Mutation.names_run h htargets
    refine ⟨_, _, apply_of_run hidle hfree htargets h, ?_, ?_, ?_, hnames, ?_⟩
    · intro x
      rw [List.mem_filter, mem_targets, changed_iff]
    · intro hdirty
      simp [hdirty]
    · intro hclean
      simp [hclean]
    · dsimp only
      split
      · rfl
      · exact hnames
  case assigns =>
    intro name value
    refine ⟨rfl, fun hname label => ?_⟩
    have hdeclared : ∀ m ∈ [Mutation.mk name (.literal value)], m.target ∈ s.state.names := by
      intro m hm
      rw [List.mem_singleton.1 hm]
      exact hname
    have hrun : Mutation.run s.state [⟨name, .literal value⟩] = .ok (s.state.put name value) := rfl
    have hlabel (label : String) := apply_of_run (a := ⟨label, [⟨name, .literal value⟩]⟩) hidle hfree
      hdeclared hrun
    exact (hlabel ("bind:" ++ name)).trans (hlabel label).symm

/-- The count is raised, used for the total and set back: only the total is reported. -/
theorem restore_in_order :
    let ledger : State := .ofList [("count", .int 1), ("total", .int 2)]
    let restore : Action := ⟨"restore",
      [⟨"count", .binary (.arithmetic .add) (.ident "count") (.literal (.int 1))⟩,
        ⟨"total", .binary (.arithmetic .mul) (.ident "count") (.literal (.int 10))⟩,
        ⟨"count", .literal (.int 1)⟩]⟩
    ∃ s dirty later, create ledger none = .ok s ∧ s.apply restore = (.ok dirty, later) ∧
      (∀ x, x ∈ dirty ↔ x = "total") ∧ later.state = ledger.put "total" (.int 20) := by
  intro ledger restore
  let s : Store := ⟨ledger, none, false⟩
  have hcreate : create ledger none = .ok s := rfl
  have hs : s.Reached := .created (by simp) hcreate
  have htargets : ∀ m ∈ restore.mutations, m.target ∈ s.state.names := by decide +kernel
  have hrun : Mutation.run s.state restore.mutations = .ok (ledger.put "total" (.int 20)) := by rfl
  obtain ⟨dirty, later, happly, hdirty, hstate, -⟩ :=
    (hs.apply_in_order rfl htargets).2.1 _ hrun
  have htotal : ∀ x, x ∈ dirty ↔ x = "total" := by
    intro x
    rw [hdirty x]
    constructor
    · rintro ⟨hx, u, v, hu, hv, hne⟩
      by_contra hother
      rw [Table.get?_put, if_neg hother, hu] at hv
      cases hv
      have hcount : x = "count" := by simpa [restore, hother] using hx
      subst hcount
      cases hu
      cases hne
    · rintro rfl
      exact ⟨by decide +kernel, .int 2, .int 20, rfl, rfl, rfl⟩
  refine ⟨s, dirty, later, hcreate, happly, htotal, hstate ?_⟩
  rintro rfl
  exact absurd ((htotal "total").2 rfl) List.not_mem_nil

end Store

end ReactiveView
