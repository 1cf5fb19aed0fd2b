import ReactiveView.Proofs.Transaction
import ReactiveView.Proofs.Upkeep
import ReactiveView.Session.Start

namespace ReactiveView

variable {σ : Type}

/-- Changes of the state that calls on an application make. -/
inductive Application.Offers (app : Application) :
    (Store → Except Failure (List String) × Store) → Prop where
  | execute (name : String) : Offers app fun store => store.execute app.actions name
  | assign (name text : String) : Offers app fun store => store.assign name (.str text)

theorem Application.Offers.eq_transact {app : Application}
    {change : Store → Except Failure (List String) × Store} (h : app.Offers change) (s : Store) :
    (∃ label mutations, change s = s.transact label mutations) ∨
      ∃ failure, change s = (.error failure, s) := by
  cases h with
  | execute name =>
    simp only [Store.execute]
    cases app.actions.get? name with
    | none => exact Or.inr ⟨_, rfl⟩
    | some a => exact Or.inl ⟨_, _, rfl⟩
  | assign name text => exact Or.inl ⟨_, _, rfl⟩

theorem Application.Offers.state_of_error {app : Application}
    {change : Store → Except Failure (List String) × Store} (h : app.Offers change) {s : Store}
    {failure : Failure} (he : (change s).1 = .error failure) : (change s).2.state = s.state := by
  rcases h.eq_transact s with ⟨label, mutations, hc⟩ | ⟨other, hc⟩
  · rw [hc] at he ⊢
    exact Store.state_transact_of_error he
  · rw [hc]

namespace Core

/-- Change the state and bring the view up to date, without the renderer. -/
def revise (change : Store → Except Failure (List String) × Store) (core : Core σ) :
    Except Failure (List String × Rendering) × Core σ :=
  match change core.store with
  | (.error failure, store) => (.error failure, { core with store })
  | (.ok dirty, store) =>
    let pass := View.reconcile core.app store.state (some core.tree) dirty store.account
    let passed := World.afterPass { core with store } pass
    match pass.outcome with
    | .error failure => (.error failure, passed)
    | .ok rendering => (.ok (dirty, rendering), { passed with tree := rendering.tree })

theorem revise_cases (change : Store → Except Failure (List String) × Store) (core : Core σ) :
    (∃ failure store, change core.store = (.error failure, store) ∧
      core.revise change = (.error failure, { core with store })) ∨
    (∃ dirty store pass failure, change core.store = (.ok dirty, store) ∧
      pass = View.reconcile core.app store.state (some core.tree) dirty store.account ∧
      pass.outcome = .error failure ∧
      core.revise change = (.error failure, World.afterPass { core with store } pass)) ∨
    ∃ dirty store pass rendering, change core.store = (.ok dirty, store) ∧
      pass = View.reconcile core.app store.state (some core.tree) dirty store.account ∧
      pass.outcome = .ok rendering ∧ core.revise change = (.ok (dirty, rendering),
        { World.afterPass { core with store } pass with tree := rendering.tree }) := by
  rw [revise]
  cases hc : change core.store with
  | mk outcome store =>
    cases outcome with
    | error failure => exact Or.inl ⟨failure, store, rfl, rfl⟩
    | ok dirty =>
      dsimp only
      cases ho : (View.reconcile core.app store.state (some core.tree) dirty store.account).outcome with
      | error failure => exact Or.inr (Or.inl ⟨dirty, store, _, failure, rfl, rfl, ho, rfl⟩)
      | ok rendering => exact Or.inr (Or.inr ⟨dirty, store, _, rendering, rfl, rfl, ho, rfl⟩)

def struck {α : Type} (outcome : Except Failure α) (core : Core σ) : Core σ :=
  match outcome with
  | .error (.sandbox cause) => { core with fatal := some cause }
  | _ => core

section Struck

variable {α : Type} (outcome : Except Failure α) (core : Core σ)

@[simp]
theorem struck_app : (core.struck outcome).app = core.app := by
  simp only [struck]
  split <;> rfl

@[simp]
theorem struck_store : (core.struck outcome).store = core.store := by
  simp only [struck]
  split <;> rfl

@[simp]
theorem struck_tree : (core.struck outcome).tree = core.tree := by
  simp only [struck]
  split <;> rfl

theorem fatal_of_struck (h : (core.struck outcome).fatal = none) : core.fatal = none := by
  simp only [struck] at h
  split at h
  · cases h
  · exact h

end Struck

structure Alike (core later : Core σ) : Prop where
  app : later.app = core.app
  store : later.store = core.store
  tree : later.tree = core.tree
  fatal : later.fatal = core.fatal

theorem Alike.refl (core : Core σ) : core.Alike core := ⟨rfl, rfl, rfl, rfl⟩

theorem Alike.struck {core later : Core σ} (h : core.Alike later) {α : Type}
    (outcome : Except Failure α) : (core.struck outcome).Alike (later.struck outcome) := by
  simp only [Core.struck]
  split
  · exact ⟨h.app, h.store, h.tree, rfl⟩
  · exact h

theorem alike_write (core : Core σ) (lines : List Log.Line) : core.Alike (core.write lines) :=
  ⟨rfl, rfl, rfl, rfl⟩

theorem struck_error {α β : Type} (failure : Failure) (core : Core σ) :
    core.struck (.error failure : Except Failure α) =
      core.struck (.error failure : Except Failure β) := by
  cases failure <;> rfl

theorem alike_escalate {α : Type} (failure : Failure) (dropped : Nat) (core : Core σ) :
    (core.struck (.error failure : Except Failure α)).Alike
      (World.escalate failure dropped core) := by
  simp only [World.escalate]
  split
  · split
    · rename_i hf
      exact ⟨rfl, rfl, rfl, hf⟩
    · exact alike_write _ _
  · rename_i hne
    have hs : core.struck (.error failure : Except Failure α) = core := by
      cases failure with
      | sandbox cause => exact absurd rfl (hne cause)
      | load cause | evaluation cause | action cause | defect cause => rfl
    rw [hs]
    split
    · exact Alike.refl _
    · exact alike_write _ _

end Core

namespace World

def present (calls : Calls σ) (r : Renderer σ) (q : TaskQueue Request) :
    Except Failure (List String × Rendering) × Core σ → Except Failure Execution × World σ
  | (.error failure, core) => (.error failure, (q, core))
  | (.ok (dirty, rendering), core) =>
    if rendering.patches.isEmpty then (.ok ⟨dirty, []⟩, (q, core))
    else
      let reaction := r.apply rendering.patches rendering.tree
      match reaction.run calls (q, core.write [updatedLine dirty rendering.patches]) with
      | (.error failure, later) => (.error failure, later)
      | (.ok (), later) => (.ok ⟨dirty, rendering.patches⟩, later)

/-- A call revises the view, then hands it to the renderer. -/
theorem perform_eq (calls : Calls σ) (r : Renderer σ)
    (change : Store → Except Failure (List String) × Store) (q : TaskQueue Request)
    (core : Core σ) : perform calls r change (q, core) = present calls r q (core.revise change) := by
  unfold perform
  rcases core.revise_cases change with ⟨failure, store, hchange, hr⟩ |
    ⟨dirty, store, pass, failure, hchange, rfl, ho, hr⟩ |
    ⟨dirty, store, pass, rendering, hchange, rfl, ho, hr⟩
  · rw [hr]
    dsimp only
    rw [hchange]
    rfl
  · rw [hr]
    dsimp only
    rw [hchange]
    dsimp only [refresh]
    rw [ho]
    rfl
  · rw [hr]
    dsimp only
    rw [hchange]
    dsimp only [refresh]
    rw [ho]
    rfl

theorem offers_of_responseTo {core : Core σ} {request : Request}
    {change : Store → Except Failure (List String) × Store}
    (h : responseTo core request = .ok change) : core.app.Offers change := by
  rw [responseTo] at h
  split at h
  · cases h
  · split at h
    · cases h
    · split at h
      · split at h
        · cases h
        · cases h
          exact .execute _
      · split at h
        · cases h
        · cases h
          exact .assign _ _

end World

theorem Launch.start_ok {app : Application} {limits : Limits} {r : Renderer σ} {sink : σ}
    {world : World σ} (h : (Launch.start app limits r sink).outcome = .ok world) :
    ∃ store pass rendering,
      Store.create app.initialState (some { limit := limits.memory }) = .ok store ∧
      pass = View.materialize app store.state store.account ∧ pass.outcome = .ok rendering ∧
      world.2.app = app ∧ world.2.store = { store with account := pass.account } ∧
      world.2.tree = rendering.tree ∧ world.2.pending = [] := by
  rw [Launch.start] at h
  split at h
  · cases h
  · rename_i store hc
    dsimp only at h
    split at h
    · cases h
    · rename_i rendering hp
      split at h
      · cases h
      · cases h
        exact ⟨store, _, rendering, hc, rfl, hp, rfl, rfl, rfl, rfl⟩

end ReactiveView
