import ReactiveView.Proofs.Accounting

namespace ReactiveView

variable {σ : Type}

namespace Core

structure Untouched (core later : Core σ) : Prop where
  state : later.store.state = core.store.state
  tree : later.tree = core.tree
  usage : later.meter.usage = core.meter.usage

theorem untouched_of_error {core : Core σ} {m : Meter} (hexact : core.Exact core.app m)
    (hlive : core.fatal = none) {change : Store → Except Failure (List String) × Store}
    (hoffers : core.app.Offers change) {failure : Failure} {store : Store}
    (h : change core.store = (.error failure, store)) : core.Untouched { core with store } := by
  have hstate := hoffers.state_of_error (congrArg Prod.fst h)
  obtain ⟨later, hl, -, husage⟩ := hexact.change hoffers
  rw [h] at hstate hl husage
  dsimp only at hstate hl husage
  have hafter := husage hlive
  have hbefore := hexact.usage hlive
  rw [hstate] at hafter
  refine ⟨hstate, rfl, ?_⟩
  rw [hexact.meter_eq, hbefore, meter]
  dsimp only
  rw [hl]
  exact hafter

end Core

namespace World

/-- A renderer passes on the error of an action after a call has revised the view. -/
def PassesOn (calls : Calls σ) (r : Renderer σ)
    (change : Store → Except Failure (List String) × Store) (world : World σ) (error : ActionError)
    (later : World σ) : Prop :=
  ∃ dirty rendering core, world.2.revise change = (.ok (dirty, rendering), core) ∧
    (r.apply rendering.patches rendering.tree).run calls
      (world.1, core.write [updatedLine dirty rendering.patches]) = (.error (.action error), later)

section

variable {calls : Calls σ} {r : Renderer σ} {world later : World σ} {error : ActionError}
  (happ : world.2.app.Sound) {m : Meter} (hexact : world.2.Exact world.2.app m)
  (hlive : world.2.fatal = none)

include happ hexact hlive

theorem untouched_of_perform {change : Store → Except Failure (List String) × Store}
    (hoffers : world.2.app.Offers change)
    (h : perform calls r change world = (.error (.action error), later)) :
    world.2.Untouched later.2 ∨ PassesOn calls r change world error later := by
  obtain ⟨q, core⟩ := world
  rw [perform_eq] at h
  rcases core.revise_cases change with ⟨failure, store, hchange, hr⟩ |
    ⟨dirty, store, pass, failure, hchange, rfl, ho, hr⟩ |
    ⟨dirty, store, pass, rendering, hchange, rfl, ho, hr⟩
  · rw [hr] at h
    cases h
    exact Or.inl (Core.untouched_of_error hexact hlive hoffers hchange)
  · rw [hr] at h
    obtain ⟨cause, rfl⟩ := View.error_of_reconcile happ.supplied ho
    cases h
  · right
    refine ⟨dirty, rendering, _, hr, ?_⟩
    rw [hr] at h
    rw [present] at h
    dsimp only at h
    split at h
    · cases h
    · split at h
      · rename_i failure last hrun
        cases h
        exact hrun
      · cases h

/-- An action that is aborted leaves everything as it was, unless the error is one that the renderer
passed on after the commit. -/
theorem untouched_of_executeWith {name : String}
    (h : executeWith calls r name world = (.error (.action error), later)) :
    world.2.Untouched later.2 ∨
      PassesOn calls r (fun store => store.execute world.2.app.actions name) world error later := by
  rw [executeWith] at h
  rw [hlive] at h
  dsimp only at h
  split at h
  · cases h
  · rename_i failure last hp
    cases h
    exact untouched_of_perform happ hexact hlive (.execute name) hp

theorem untouched_of_handleEvent {request : Request}
    (h : handleEvent calls r request world = (.ok (.failed error), later)) :
    world.2.Untouched later.2 ∨
      ∃ change last, responseTo world.2 request = .ok change ∧
        PassesOn calls r change world error last := by
  rw [handleEvent] at h
  cases hr : responseTo world.2 request with
  | error reason =>
    rw [hr] at h
    cases h
  | ok change =>
    rw [hr] at h
    dsimp only at h
    split at h
    · cases h
    · rename_i cause q core hp
      cases h
      rcases untouched_of_perform happ hexact hlive (offers_of_responseTo hr) hp with hu | hpass
      · exact Or.inl ⟨hu.state, hu.tree, hu.usage⟩
      · exact Or.inr ⟨change, _, rfl, hpass⟩
    · cases h

end

def careless : Renderer Unit where
  mount _ _ w := (.ok (), w)
  apply _ _ := .execute "missing" fun answer =>
    match answer with
    | .ok _ => .done
    | .error failure => .fail failure

/-- The action that raises the counter takes effect, and the call throws the error of another one. -/
theorem careless_raises :
    ∃ world, (Launch.start counter.application {} careless ()).outcome = .ok world ∧
      ((calls careless nestingLimit).execute "raise" world).1 =
        .error (.action (.unknownAction "missing")) ∧
      world.2.store.state.get? "count" = some (.int 0) ∧
      ((calls careless nestingLimit).execute "raise" world).2.2.store.state.get? "count" =
        some (.int 1) := by
  obtain ⟨world, hstart, hchecks⟩ := exists_ok_of_any
    (Launch.start counter.application {} careless ()).outcome
    (fun world => ((calls careless nestingLimit).execute "raise" world).1 =
        .error (.action (.unknownAction "missing")) ∧
      world.2.store.state.get? "count" = some (.int 0) ∧
      ((calls careless nestingLimit).execute "raise" world).2.2.store.state.get? "count" =
        some (.int 1))
    (by decide +kernel)
  exact ⟨world, hstart, of_decide_eq_true hchecks⟩

end World

end ReactiveView
