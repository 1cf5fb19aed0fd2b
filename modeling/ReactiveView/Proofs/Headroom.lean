import ReactiveView.Proofs.Revision

namespace ReactiveView

variable {σ : Type}

/-- What a larger limit has: the number that errors show, and so many bytes more. -/
structure Headroom where
  number : Binary64
  bytes : Nat

def Limit.widen (limit : Limit) (more : Headroom) : Limit := ⟨more.number, limit.most + more.bytes⟩

def Limit.headroom (limit larger : Limit) : Headroom :=
  ⟨larger.number, (larger.most - limit.most).toNat⟩

theorem Limit.widen_headroom {limit larger : Limit} (h : limit.most ≤ larger.most) :
    limit.widen (limit.headroom larger) = larger := by
  obtain ⟨number, most⟩ := larger
  simp only [widen, headroom, Limit.mk.injEq, true_and]
  dsimp only at h
  omega

def Meter.widen (more : Headroom) (m : Meter) : Meter := { m with limit := m.limit.widen more }

def Account.widen (more : Headroom) (account : Account) : Account := account.map (Meter.widen more)

def Working.widen (more : Headroom) (w : Working) : Working :=
  { w with account := w.account.widen more }

def Store.widen (more : Headroom) (s : Store) : Store := { s with account := s.account.widen more }

def Pass.widen {α : Type} (more : Headroom) (pass : Pass α) : Pass α :=
  { pass with account := pass.account.widen more }

def Core.widen (more : Headroom) (core : Core σ) : Core σ := { core with store := core.store.widen more }

def SandboxError.Overrun : SandboxError → Prop
  | .memoryExceeded .. => True
  | _ => False

instance : DecidablePred SandboxError.Overrun
  | .memoryExceeded .. => isTrue trivial
  | .pathRejected .. | .fileTooLarge .. | .sourceTooLarge .. | .widthExceeded .. | .reported .. =>
    isFalse id

/-- An outcome that is due to a charge which is refused. -/
def Overruns {α : Type} (outcome : Except Failure α) : Prop :=
  ∃ cause : SandboxError, outcome = .error (.sandbox cause) ∧ cause.Overrun

theorem Overruns.map {α β : Type} {outcome : Except Failure α} (h : Overruns outcome) (f : α → β) :
    Overruns (outcome.map f) := by
  obtain ⟨cause, rfl, ho⟩ := h
  exact ⟨cause, rfl, ho⟩

variable (more : Headroom)

theorem Meter.allocate_widen (m : Meter) (bytes : Int) (what : String) :
    (∃ cause, m.allocate bytes what = .error cause ∧ cause.Overrun) ∨
      ∃ later, m.allocate bytes what = .ok later ∧
        (m.widen more).allocate bytes what = .ok (later.widen more) := by
  by_cases hfits : m.limit.most < m.usage + bytes
  · refine Or.inl ⟨_, if_pos hfits, trivial⟩
  · have hwide : ¬(m.limit.widen more).most < m.usage + bytes := by
      simp only [Limit.widen]
      omega
    exact Or.inr ⟨_, if_neg hfits, if_neg hwide⟩

namespace Account

theorem allocate_widen (account : Account) (bytes : Int) (what : String) :
    (∃ cause, account.allocate bytes what = .error cause ∧ cause.Overrun) ∨
      ∃ later, account.allocate bytes what = .ok later ∧
        (account.widen more).allocate bytes what = .ok (later.widen more) := by
  cases account with
  | none => exact Or.inr ⟨none, rfl, rfl⟩
  | some m =>
    simp only [allocate, widen, Option.map_some]
    rcases m.allocate_widen more bytes what with ⟨cause, hc, ho⟩ | ⟨later, hl, hw⟩
    · rw [hc]
      exact Or.inl ⟨cause, rfl, ho⟩
    · rw [hl, hw]
      exact Or.inr ⟨some later, rfl, rfl⟩

@[simp]
theorem release_widen (account : Account) (bytes : Int) :
    (account.widen more).release bytes = (account.release bytes).widen more := by
  cases account <;> rfl

end Account

namespace Store

variable (label : String)

theorem step_widen (m : Mutation) (w : Working) : Overruns (step label m w) ∨
    step label m (w.widen more) = (step label m w).map (Working.widen more) := by
  simp only [step, Working.widen]
  by_cases hhas : w.state.has m.target
  · simp only [hhas]
    cases m.expr.evaluate w.state with
    | error fault => exact Or.inr rfl
    | ok value =>
      rcases w.account.allocate_widen more value.size ("action \"" ++ label ++ "\"") with
        ⟨cause, hc, ho⟩ | ⟨later, hl, hw⟩
      · simp only [hc]
        exact Or.inl ⟨cause, rfl, ho⟩
      · simp only [hl, hw]
        exact Or.inr rfl
  · simp only [hhas]
    exact Or.inr rfl

theorem steps_widen (mutations : List Mutation) (w : Working) : Overruns (steps label mutations w).1 ∨
    steps label mutations (w.widen more) =
      Prod.map id (Working.widen more) (steps label mutations w) := by
  induction mutations generalizing w with
  | nil => exact Or.inr rfl
  | cons m rest ih =>
    simp only [steps]
    rcases step_widen more label m w with ⟨cause, hs, ho⟩ | hw
    · rw [hs]
      exact Or.inl ⟨cause, rfl, ho⟩
    · rw [hw]
      cases step label m w with
      | error failure => exact Or.inr rfl
      | ok next => exact ih next

theorem settle_widen (account : Account) (charged delta : Int) :
    (∃ cause, settle account charged delta = .error cause ∧ cause.Overrun) ∨
      ∃ later, settle account charged delta = .ok later ∧
        settle (account.widen more) charged delta = .ok (later.widen more) := by
  simp only [settle, Account.release_widen]
  by_cases hdelta : 0 < delta
  · simp only [hdelta, if_true]
    exact (account.release charged).allocate_widen more delta "state commit"
  · simp only [hdelta, if_false]
    exact Or.inr ⟨_, rfl, rfl⟩

theorem discard_widen (s : Store) (w : Working) :
    (s.widen more).discard (w.widen more) = (s.discard w).widen more := by
  simp [discard, widen, Working.widen]

theorem commit_widen (s : Store) (names : List String) (w : Working) : Overruns (commit s names w).1 ∨
    commit (s.widen more) names (w.widen more) = Prod.map id (widen more) (commit s names w) := by
  have hstate : (s.widen more).state = s.state := rfl
  have hwork : (w.widen more).state = w.state := rfl
  have haccount : (w.widen more).account = w.account.widen more := rfl
  have hcharged : (w.widen more).charged = w.charged := rfl
  simp only [commit, hstate, hwork, haccount, hcharged]
  rcases settle_widen more w.account w.charged (netGrowth s.state w.state names) with
    ⟨cause, hc, ho⟩ | ⟨later, hl, hw⟩
  · rw [hc]
    exact Or.inl ⟨cause, rfl, ho⟩
  · rw [hl, hw]
    exact Or.inr rfl

theorem transact_widen (s : Store) (mutations : List Mutation) :
    Overruns (s.transact label mutations).1 ∨ (s.widen more).transact label mutations =
      Prod.map id (widen more) (s.transact label mutations) := by
  have hbusy : (s.widen more).busy = s.busy := rfl
  have hwork : (⟨(s.widen more).state, (s.widen more).account, 0⟩ : Working) =
    (⟨s.state, s.account, 0⟩ : Working).widen more := rfl
  simp only [transact, hbusy, hwork]
  by_cases hb : s.busy
  · simp only [hb, if_true]
    exact Or.inr rfl
  · simp only [hb, Bool.false_eq_true, if_false]
    rcases steps_widen more label mutations ⟨s.state, s.account, 0⟩ with ⟨cause, hs, ho⟩ | hw
    · left
      refine ⟨cause, ?_, ho⟩
      generalize steps label mutations (⟨s.state, s.account, 0⟩ : Working) = result at hs ⊢
      obtain ⟨outcome, w⟩ := result
      obtain rfl : outcome = .error (.sandbox cause) := hs
      rfl
    · rw [hw]
      generalize steps label mutations (⟨s.state, s.account, 0⟩ : Working) = result
      obtain ⟨outcome, w⟩ := result
      cases outcome with
      | error failure =>
        right
        change (Except.error failure, ((s.enter.widen more).discard (w.widen more)).leave) = _
        rw [discard_widen]
        rfl
      | ok done =>
        have hcommit := commit_widen more s.enter (targets mutations) w
        change Overruns (commit s.enter (targets mutations) w).1 ∨
          ((commit (s.enter.widen more) (targets mutations) (w.widen more)).1,
            (commit (s.enter.widen more) (targets mutations) (w.widen more)).2.leave) = _
        rcases hcommit with ho | hc
        · exact Or.inl ho
        · rw [hc]
          exact Or.inr rfl

theorem create_widen (initial : State) (account : Account) :
    (∃ cause, create initial account = .error cause ∧ cause.Overrun) ∨
      ∃ s, create initial account = .ok s ∧
        create initial (account.widen more) = .ok (s.widen more) := by
  simp only [create]
  rcases account.allocate_widen more (sizeOfState initial) "initial state" with
    ⟨cause, hc, ho⟩ | ⟨later, hl, hw⟩
  · rw [hc]
    exact Or.inl ⟨cause, rfl, ho⟩
  · rw [hl, hw]
    exact Or.inr ⟨_, rfl, rfl⟩

end Store

theorem Application.Offers.widen {app : Application}
    {change : Store → Except Failure (List String) × Store} (h : app.Offers change) (s : Store) :
    Overruns (change s).1 ∨ change (s.widen more) = Prod.map id (Store.widen more) (change s) := by
  cases h with
  | execute name =>
    simp only [Store.execute]
    cases app.actions.get? name with
    | none => exact Or.inr rfl
    | some a => exact s.transact_widen more a.name a.mutations
  | assign name text => exact s.transact_widen more _ _

namespace View

theorem buildNodes_widen (state : State) (ns : List ArenaNode) (account : Account) :
    Overruns (buildNodes state ns account).outcome ∨
      buildNodes state ns (account.widen more) = (buildNodes state ns account).widen more := by
  induction ns generalizing account with
  | nil => exact Or.inr rfl
  | cons n rest ih =>
    simp only [buildNodes]
    obtain ⟨visits, resolved⟩ := n.resolveAll state n.facets
    cases resolved with
    | error failure => exact Or.inr rfl
    | ok values =>
      dsimp only
      rcases account.allocate_widen more ((Node.shell n).writeAll values).size "view materialization"
        with ⟨cause, hc, ho⟩ | ⟨later, hl, hw⟩
      · rw [hc]
        exact Or.inl ⟨cause, rfl, ho⟩
      · rw [hl, hw]
        dsimp only
        rcases ih later with ho | hrest
        · exact Or.inl (ho.map _)
        · rw [hrest]
          exact Or.inr rfl

theorem updateNodes_widen (state : State) (wanted : ArenaNode → List Facet) (ns : List ArenaNode)
    (nodes : List Node) (account : Account) :
    Overruns (updateNodes state wanted ns nodes account).outcome ∨
      updateNodes state wanted ns nodes (account.widen more) =
        (updateNodes state wanted ns nodes account).widen more := by
  induction ns generalizing nodes account with
  | nil =>
    simp only [updateNodes]
    exact Or.inr rfl
  | cons n rest ih =>
    cases nodes with
    | nil =>
      simp only [updateNodes]
      exact Or.inr rfl
    | cons before others =>
      simp only [updateNodes]
      obtain ⟨visits, resolved⟩ := n.resolveAll state (wanted n)
      cases resolved with
      | error failure => exact Or.inr rfl
      | ok values =>
        dsimp only
        by_cases hsame : (changes before values).isEmpty
        · rw [if_pos hsame, if_pos hsame]
          rcases ih others account with ho | hrest
          · exact Or.inl (ho.map _)
          · rw [hrest]
            exact Or.inr rfl
        · rw [if_neg hsame, if_neg hsame]
          -- Only the charge looks at the limit; once it is granted, the release cannot tell the limits apart.
          rcases account.allocate_widen more (before.writeAll (changes before values)).size "view update"
            with ⟨cause, hc, ho⟩ | ⟨charged, hl, hw⟩
          · rw [hc]
            exact Or.inl ⟨cause, rfl, ho⟩
          · rw [hl, hw]
            dsimp only
            rw [Account.release_widen]
            rcases ih others (charged.release before.size) with ho | hrest
            · exact Or.inl (ho.map _)
            · rw [hrest]
              exact Or.inr rfl

theorem materialize_widen (app : Application) (state : State) (account : Account) :
    Overruns (materialize app state account).outcome ∨
      materialize app state (account.widen more) = (materialize app state account).widen more := by
  simp only [materialize]
  rcases buildNodes_widen more state app.nodes account with ho | hw
  · exact Or.inl (ho.map _)
  · rw [hw]
    exact Or.inr rfl

theorem reconcile_widen (app : Application) (state : State) (tree : Tree) (dirty : List String)
    (account : Account) : Overruns (reconcile app state (some tree) dirty account).outcome ∨
      reconcile app state (some tree) dirty (account.widen more) =
        (reconcile app state (some tree) dirty account).widen more := by
  simp only [reconcile]
  rcases updateNodes_widen more state (Index.facetsAmong (app.index.readsOf dirty)) app.nodes tree.nodes
    account with ho | hw
  · exact Or.inl (ho.map _)
  · rw [hw]
    exact Or.inr rfl

end View

theorem Core.revise_widen {core : Core σ} {change : Store → Except Failure (List String) × Store}
    (h : core.app.Offers change) : Overruns (core.revise change).1 ∨
      (core.widen more).revise change = Prod.map id (Core.widen more) (core.revise change) := by
  have hstore : (core.widen more).store = core.store.widen more := rfl
  simp only [revise, hstore]
  rcases h.widen more core.store with ⟨cause, hc, ho⟩ | hw
  · left
    refine ⟨cause, ?_, ho⟩
    generalize change core.store = result at hc ⊢
    obtain ⟨outcome, store⟩ := result
    obtain rfl : outcome = .error (.sandbox cause) := hc
    rfl
  · rw [hw]
    generalize change core.store = result
    obtain ⟨outcome, store⟩ := result
    cases outcome with
    | error failure => exact Or.inr rfl
    | ok dirty =>
      have hpass := View.reconcile_widen more core.app store.state core.tree dirty store.account
      dsimp only [Prod.map, id, widen, Store.widen] at hpass ⊢
      rcases hpass with ⟨cause, hc, ho⟩ | hw
      · rw [hc]
        exact Or.inl ⟨cause, rfl, ho⟩
      · rw [hw]
        right
        generalize View.reconcile core.app store.state (some core.tree) dirty store.account = pass
        obtain ⟨visits, account, outcome⟩ := pass
        cases outcome with
        | error failure => rfl
        | ok rendering => rfl

end ReactiveView
