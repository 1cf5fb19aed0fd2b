import ReactiveView.Proofs.Resolution
import ReactiveView.State.Store

namespace ReactiveView

theorem Table.mem_names_of_has {α : Type} {t : Table α} {name : String} (h : t.has name = true) :
    name ∈ t.names := Table.has_iff.1 h

theorem Table.names_eq_none_iff {α : Type} {t u : Table α} (h : t.names = u.names) {name : String} :
    t.get? name = none ↔ u.get? name = none := by
  rw [Table.get?_eq_none, Table.get?_eq_none, h]

/-- Equal, or taken for the same by change detection. -/
def Value.Unchanged : Option Value → Option Value → Prop
  | none, none => True
  | some v, some w => v = w ∨ v.identical w = true
  | _, _ => False

theorem Value.Unchanged.refl (v : Option Value) : Value.Unchanged v v := by
  cases v with
  | none => trivial
  | some v => exact Or.inl rfl

namespace Store

variable {α : Type} {label : String}

theorem leave_enter {s : Store α} (h : s.busy = false) : s.enter.leave = s := by
  cases s
  cases h
  rfl

section Steps

variable [Add α] [LT α] [DecidableLT α] [NatCast α] [Amount α]

theorem step_ok {m : Mutation} {w next : Working α} (h : step label m w = .ok next) :
    ∃ value account, m.target ∈ w.state.names ∧ m.expr.evaluate w.state = .ok value ∧
      w.account.allocate value.size ("action \"" ++ label ++ "\"") = .ok account ∧
      next = ⟨w.state.put m.target value, account, w.charged + value.size⟩ := by
  rw [step] at h
  split at h
  · cases h
  · rename_i hhas
    have hmem : m.target ∈ w.state.names := Table.mem_names_of_has (by simpa using hhas)
    split at h
    · cases h
    · rename_i value hv
      split at h
      · cases h
      · rename_i account ha
        cases h
        exact ⟨value, account, hmem, hv, ha, rfl⟩

theorem step_error {m : Mutation} {w : Working α} {failure : Failure}
    (h : step label m w = .error failure) :
    (w.state.has m.target = false ∧ failure = .defect (.undeclaredAssignment label m.target)) ∨
      (∃ fault, m.expr.evaluate w.state = .error fault ∧
        failure = mutationFailure label m.target fault) ∨
      ∃ (value : Value) (cause : SandboxError),
        w.account.allocate value.size ("action \"" ++ label ++ "\"") = .error cause ∧
          failure = .sandbox cause := by
  rw [step] at h
  split at h
  · rename_i hhas
    cases h
    exact Or.inl ⟨by simpa using hhas, rfl⟩
  · split at h
    · rename_i fault hfault
      cases h
      exact Or.inr (Or.inl ⟨fault, hfault, rfl⟩)
    · rename_i value _
      split at h
      · rename_i cause hcause
        cases h
        exact Or.inr (Or.inr ⟨value, cause, hcause, rfl⟩)
      · cases h

theorem steps_error {mutations : List Mutation} {w : Working α} {failure : Failure}
    (h : (steps label mutations w).1 = .error failure) :
    ∃ before m after reached, mutations = before ++ m :: after ∧
      steps label before w = (.ok (), reached) ∧ step label m reached = .error failure := by
  induction mutations generalizing w with
  | nil => cases h
  | cons m rest ih =>
    rw [steps] at h
    split at h
    · rename_i other hstep
      cases h
      exact ⟨[], m, rest, w, rfl, rfl, hstep⟩
    · rename_i next hstep
      obtain ⟨before, last, after, reached, rfl, hbefore, hlast⟩ := ih h
      refine ⟨m :: before, last, after, reached, rfl, ?_, hlast⟩
      rw [steps, hstep]
      exact hbefore

theorem steps_names (label : String) (mutations : List Mutation) (w : Working α) :
    (steps label mutations w).2.state.names = w.state.names := by
  induction mutations generalizing w with
  | nil => rfl
  | cons m rest ih =>
    rw [steps]
    split
    · rfl
    · rename_i next hs
      obtain ⟨value, account, hmem, -, -, rfl⟩ := step_ok hs
      exact (ih _).trans (Table.names_put value hmem)

theorem names_of_steps {mutations : List Mutation} {w reached : Working α} {outcome : Except Failure Unit}
    (h : steps label mutations w = (outcome, reached)) : reached.state.names = w.state.names := by
  have hnames := steps_names label mutations w
  rw [h] at hnames
  exact hnames

theorem get?_steps (label : String) {mutations : List Mutation} {name : String}
    (h : name ∉ mutations.map Mutation.target) (w : Working α) :
    (steps label mutations w).2.state.get? name = w.state.get? name := by
  induction mutations generalizing w with
  | nil => rfl
  | cons m rest ih =>
    simp only [List.map_cons, List.mem_cons, not_or] at h
    rw [steps]
    split
    · rfl
    · rename_i next hs
      obtain ⟨value, account, -, -, -, rfl⟩ := step_ok hs
      rw [ih h.2, Table.get?_put, if_neg h.1]

theorem mem_targets {mutations : List Mutation} {name : String} :
    name ∈ targets mutations ↔ name ∈ mutations.map Mutation.target := List.mem_eraseDups

theorem get?_of_steps {mutations : List Mutation} {w reached : Working α} {outcome : Except Failure Unit}
    (h : steps label mutations w = (outcome, reached)) {name : String} (hn : name ∉ targets mutations) :
    reached.state.get? name = w.state.get? name := by
  have hframe := get?_steps label (fun hm => hn (mem_targets.2 hm)) w
  rw [h] at hframe
  exact hframe

end Steps

theorem unchanged_of_changed {s t : State} (hnames : s.names = t.names) {name : String}
    (h : changed s t name = false) : Value.Unchanged (s.get? name) (t.get? name) := by
  cases hs : s.get? name with
  | none =>
    rw [(Table.names_eq_none_iff hnames).1 hs]
    trivial
  | some v =>
    cases ht : t.get? name with
    | none =>
      rw [(Table.names_eq_none_iff hnames).2 ht] at hs
      cases hs
    | some w =>
      rw [changed, hs, ht] at h
      exact Or.inr (by simpa using h)

variable [Add α] [Sub α] [Neg α] [LT α] [DecidableLT α] [OfNat α 0] [NatCast α] [Amount α]

theorem names_commit {s : Store α} {w : Working α} (hnames : s.state.names = w.state.names)
    (names : List String) : (commit s names w).2.state.names = s.state.names := by
  unfold commit
  dsimp only
  split
  · rfl
  · dsimp only
    split
    · rfl
    · exact hnames.symm

theorem unchanged_of_commit {s : Store α} {w : Working α} (hnames : s.state.names = w.state.names)
    {names dirty : List String} (h : (commit s names w).1 = .ok dirty)
    (hframe : ∀ x, x ∉ names → w.state.get? x = s.state.get? x) {name : String}
    (hclean : name ∉ dirty) :
    Value.Unchanged (s.state.get? name) ((commit s names w).2.state.get? name) := by
  unfold commit at h ⊢
  dsimp only at h ⊢
  split at h
  · cases h
  · cases h
    dsimp only
    split
    · exact Value.Unchanged.refl _
    · by_cases hn : name ∈ names
      · exact unchanged_of_changed hnames (Bool.eq_false_iff.2 fun hc =>
          hclean (List.mem_filter.2 ⟨hn, hc⟩))
      · rw [hframe name hn]
        exact Value.Unchanged.refl _

theorem transact_of_busy {s : Store α} (h : s.busy = true) (label : String)
    (mutations : List Mutation) :
    s.transact label mutations = (.error (.defect (.nestedTransaction label)), s) := by
  rw [transact, if_pos h]

/-- A commit does not look at whether a transaction is running. -/
theorem commit_enter (s : Store α) (names : List String) (w : Working α) :
    commit s.enter names w = ((commit s names w).1, (commit s names w).2.enter) := by
  unfold commit
  dsimp only [enter]
  split <;> rfl

theorem busy_commit (s : Store α) (names : List String) (w : Working α) :
    (commit s names w).2.busy = s.busy := by
  unfold commit
  dsimp only
  split <;> rfl

theorem transact_of_idle {s : Store α} (h : s.busy = false) (label : String)
    (mutations : List Mutation) :
    s.transact label mutations =
      match steps label mutations ⟨s.state, s.account, 0⟩ with
      | (.error failure, w) => (.error failure, s.discard w)
      | (.ok (), w) => commit s (targets mutations) w := by
  rw [transact, if_neg (by rw [h]; exact Bool.false_ne_true)]
  obtain ⟨outcome, w⟩ := steps label mutations ⟨s.state, s.account, 0⟩
  cases outcome with
  | error failure =>
    have hback : (s.enter.discard w).leave = (s.discard w).enter.leave := rfl
    dsimp only
    rw [hback, leave_enter (show (s.discard w).busy = false from h)]
  | ok done =>
    dsimp only
    rw [commit_enter]
    dsimp only
    rw [leave_enter ((busy_commit s _ _).trans h)]

theorem idle_transact {s : Store α} (h : s.busy = false) (label : String) (mutations : List Mutation) :
    (s.transact label mutations).2.busy = false := by
  rw [transact_of_idle h]
  split
  · exact h
  · exact (busy_commit s _ _).trans h

/-- A transaction fails because another is running, at one of its mutations, or because the net growth
of the state does not fit. -/
theorem transact_error {s : Store α} {mutations : List Mutation} {failure : Failure}
    (h : (s.transact label mutations).1 = .error failure) :
    (s.busy = true ∧ failure = .defect (.nestedTransaction label)) ∨
      (∃ before m after w, mutations = before ++ m :: after ∧
        steps label before ⟨s.state, s.account, 0⟩ = (.ok (), w) ∧
          step label m w = .error failure) ∨
      ∃ (account : Account α) (bytes : α) (cause : SandboxError),
        account.allocate bytes "state commit" = .error cause ∧ failure = .sandbox cause := by
  cases hb : s.busy with
  | true =>
    rw [transact_of_busy hb] at h
    cases h
    exact Or.inl ⟨rfl, rfl⟩
  | false =>
    rw [transact_of_idle hb] at h
    split at h
    · rename_i hsteps
      cases h
      exact Or.inr (Or.inl (steps_error (congrArg Prod.fst hsteps)))
    · rw [commit] at h
      split at h
      · rename_i cause hsettle
        cases h
        rw [settle] at hsettle
        split at hsettle
        · exact Or.inr (Or.inr ⟨_, _, cause, hsettle, rfl⟩)
        · cases hsettle
      · cases h

theorem names_transact (s : Store α) (mutations : List Mutation) :
    (s.transact label mutations).2.state.names = s.state.names := by
  cases hb : s.busy with
  | true => rw [transact_of_busy hb]
  | false =>
    rw [transact_of_idle hb]
    split
    · rfl
    · rename_i w hs
      exact names_commit (names_of_steps hs).symm _

theorem state_transact_of_error {s : Store α} {mutations : List Mutation} {failure : Failure}
    (h : (s.transact label mutations).1 = .error failure) :
    (s.transact label mutations).2.state = s.state := by
  cases hb : s.busy with
  | true => rw [transact_of_busy hb]
  | false =>
    rw [transact_of_idle hb] at h ⊢
    split
    · rfl
    · rename_i w hs
      rw [hs] at h
      unfold commit at h ⊢
      dsimp only at h ⊢
      split at h
      · rfl
      · cases h

theorem unchanged_of_transact {s : Store α} {mutations : List Mutation} {dirty : List String}
    (h : (s.transact label mutations).1 = .ok dirty) {name : String} (hclean : name ∉ dirty) :
    Value.Unchanged (s.state.get? name) ((s.transact label mutations).2.state.get? name) := by
  cases hb : s.busy with
  | true =>
    rw [transact_of_busy hb] at h
    cases h
  | false =>
    rw [transact_of_idle hb] at h ⊢
    split
    · rename_i failure w hs
      rw [hs] at h
      cases h
    · rename_i w hs
      rw [hs] at h
      exact unchanged_of_commit (names_of_steps hs).symm h (fun _ => get?_of_steps hs) hclean

end Store

end ReactiveView
