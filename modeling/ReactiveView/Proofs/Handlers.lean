import ReactiveView.Proofs.Moments
import ReactiveView.Proofs.Names

namespace ReactiveView

variable {σ : Type}

def Failure.Known : Failure → Prop
  | .action (.unknownAction _) => False
  | _ => True

theorem Store.known_of_transact {s : Store} {label : String} {mutations : List Mutation}
    {failure : Failure} (h : (s.transact label mutations).1 = .error failure) : failure.Known := by
  rcases transact_error h with ⟨-, rfl⟩ | ⟨_, m, _, w, -, -, hstep⟩ | ⟨_, _, cause, -, rfl⟩
  · trivial
  · rcases step_error hstep with ⟨-, rfl⟩ | ⟨fault, -, rfl⟩ | ⟨_, cause, -, rfl⟩
    · trivial
    · cases fault <;> trivial
    · trivial
  · trivial

/-- A renderer fails with the error of an action that does not exist. -/
def Renderer.Misnames (r : Renderer σ) (name : String) : Prop :=
  ∃ depth patches tree world,
    ((r.apply patches tree).run (World.calls r depth) world).1 = .error (.action (.unknownAction name))

def EventResult.Known (r : Renderer σ) (result : EventResult) : Prop :=
  ∀ name, result = .failed (.unknownAction name) → r.Misnames name

/-- An application shows the nodes of its document, and what it has to report is known. -/
structure Core.Wired (app : Application) (r : Renderer σ) (core : Core σ) : Prop where
  app_eq : core.app = app
  nodes : List.Forall₂ (fun n (node : Node) => node.blank = Node.shell n) app.nodes core.tree.nodes
  pending : ∀ outcome ∈ core.pending, outcome.result.Known r

structure Calls.Wire (app : Application) (r : Renderer σ) (calls : Calls σ) : Prop where
  execute : ∀ name world, world.2.Wired app r → (calls.execute name world).2.2.Wired app r
  dispatch : ∀ request world, world.2.Wired app r → (calls.dispatch request world).2.2.Wired app r
  report : ∀ request world outcomes, world.2.Wired app r →
    (calls.dispatch request world).1 = .ok outcomes → ∀ outcome ∈ outcomes, outcome.result.Known r

section Wired

variable {app : Application} (hclosed : app.Closed) {r : Renderer σ}

include hclosed

theorem Core.Wired.exists_action {core : Core σ} (h : core.Wired app r) {node : Node}
    (hnode : node ∈ core.tree.nodes) {property action : String}
    (hget : node.handlers.get? property = some action) : ∃ a, app.actions.get? action = some a := by
  obtain ⟨n, hn, hblank⟩ := exists_of_forall₂ h.nodes.flip hnode
  have hhandlers : node.blank.handlers = (Node.shell n).handlers := congrArg Node.handlers hblank
  refine hclosed.handlers n hn property action ?_
  rw [← hhandlers]
  exact hget

theorem World.known_of_responseTo {core : Core σ} (h : core.Wired app r) {request : Request}
    {change : Store → Except Failure (List String) × Store} (hr : responseTo core request = .ok change)
    {s : Store} {failure : Failure} (hf : (change s).1 = .error failure) : failure.Known := by
  rw [responseTo] at hr
  split at hr
  · cases hr
  · rename_i node hnode
    split at hr
    · cases hr
    · split at hr
      · split at hr
        · cases hr
        · rename_i action hget
          cases hr
          -- the action is looked up by a handler of a node that is shown, so it exists
          have hmem : node ∈ core.tree.nodes := by
            cases hq : request.ref with
            | position i =>
              rw [hq] at hnode
              exact List.mem_of_getElem? hnode
            | stray x =>
              rw [hq] at hnode
              cases hnode
          obtain ⟨a, ha⟩ := h.exists_action hclosed hmem hget
          dsimp only at hf
          rw [Store.execute, h.app_eq, ha] at hf
          exact Store.known_of_transact hf
      · split at hr
        · cases hr
        · cases hr
          exact Store.known_of_transact hf

end Wired

namespace Core

variable {app : Application} {r : Renderer σ} {core : Core σ}

theorem Wired.revise (h : core.Wired app r)
    (change : Store → Except Failure (List String) × Store) :
    (core.revise change).2.Wired app r := by
  obtain ⟨rfl, hnodes, hpending⟩ := h
  rcases core.revise_cases change with ⟨failure, store, hchange, hr⟩ |
    ⟨dirty, store, pass, failure, hchange, rfl, ho, hr⟩ |
    ⟨dirty, store, pass, rendering, hchange, rfl, ho, hr⟩
  · rw [hr]
    exact ⟨rfl, hnodes, hpending⟩
  · rw [hr]
    exact ⟨rfl, hnodes, hpending⟩
  · rw [hr]
    refine ⟨rfl, ?_, hpending⟩
    obtain ⟨result, hres, rfl⟩ := View.outcome_rendering ho
    -- an update writes facets only, and handlers are not among them
    exact View.updateNodes_forall₂ hres hnodes fun n _ before values hblank _ =>
      (Node.blank_writeAll before _).trans hblank

theorem Wired.write (h : core.Wired app r) (lines : List Log.Line) : (core.write lines).Wired app r :=
  ⟨h.app_eq, h.nodes, h.pending⟩

theorem Wired.escalate (h : core.Wired app r) (failure : Failure) (dropped : Nat) :
    (World.escalate failure dropped core).Wired app r := by
  simp only [World.escalate]
  split
  · split <;> exact ⟨h.app_eq, h.nodes, h.pending⟩
  · split <;> exact ⟨h.app_eq, h.nodes, h.pending⟩

theorem Wired.abandon {world : World σ} (h : world.2.Wired app r) (failure : Failure) :
    (World.abandon failure world).2.Wired app r := by
  cases failure with
  | sandbox cause => exact h.escalate (.sandbox cause) world.1.queueLength
  | load cause => exact h.escalate (.load cause) 0
  | evaluation cause => exact h.escalate (.evaluation cause) 0
  | action cause => exact h.escalate (.action cause) 0
  | defect cause => exact h.escalate (.defect cause) 0

theorem Wired.report (h : core.Wired app r) {outcome : EventOutcome} (ho : outcome.result.Known r) :
    Wired app r { core with pending := core.pending ++ [outcome] } := by
  refine ⟨h.app_eq, h.nodes, fun other hmem => ?_⟩
  rcases List.mem_append.1 hmem with hmem | hmem
  · exact h.pending other hmem
  · rw [List.mem_singleton.1 hmem]
    exact ho

theorem Wired.settle (h : core.Wired app r) : Wired app r { core with pending := [] } :=
  ⟨h.app_eq, h.nodes, fun _ hmem => by cases hmem⟩

end Core

section Runs

variable {app : Application} {r : Renderer σ} {calls : Calls σ} (hcalls : calls.Wire app r)

include hcalls

theorem Reaction.run_wired (reaction : Reaction σ) (world : World σ) (h : world.2.Wired app r) :
    (reaction.run calls world).2.2.Wired app r := by
  induction reaction generalizing world with
  | done | fail failure => exact h
  | update change next ih => exact ih (world.1, _) ⟨h.app_eq, h.nodes, h.pending⟩
  | consult next ih | look next ih | weigh next ih => exact ih _ world h
  | execute name next ih => exact ih _ _ (hcalls.execute name world h)
  | dispatch request next ih => exact ih _ _ (hcalls.dispatch request world h)

namespace World

theorem perform_wired {world : World σ} (h : world.2.Wired app r)
    (change : Store → Except Failure (List String) × Store) :
    (perform calls r change world).2.2.Wired app r := by
  obtain ⟨q, core⟩ := world
  have hrevised := h.revise change
  rw [perform_eq]
  generalize core.revise change = result at hrevised
  obtain ⟨outcome, later⟩ := result
  cases outcome with
  | error failure => exact hrevised
  | ok revised =>
    rw [present]
    dsimp only
    split
    · exact hrevised
    · have hrun := Reaction.run_wired hcalls (r.apply revised.2.patches revised.2.tree)
        (q, later.write [updatedLine revised.1 revised.2.patches]) (hrevised.write _)
      split <;> rename_i heq <;> rw [heq] at hrun <;> exact hrun

theorem executeWith_wired (name : String) {world : World σ} (h : world.2.Wired app r) :
    (executeWith calls r name world).2.2.Wired app r := by
  rw [executeWith]
  split
  · exact h
  · have hp := perform_wired hcalls h fun store => store.execute world.2.app.actions name
    split
    · rename_i heq
      rw [heq] at hp
      exact hp
    · rename_i failure later heq
      rw [heq] at hp
      exact Core.Wired.abandon hp failure

end World

end Runs

namespace World

section Depth

variable {app : Application} (hclosed : app.Closed) (hsound : app.Sound) {r : Renderer σ} {depth : Nat}
  (hcalls : (calls r depth).Wire app r)

include hsound

theorem misnames_of_perform {world later : World σ} (happ : world.2.app = app)
    {change : Store → Except Failure (List String) × Store} {name : String}
    (h : perform (calls r depth) r change world = (.error (.action (.unknownAction name)), later))
    (hchange : ∀ failure, (change world.2.store).1 = .error failure → failure.Known) :
    r.Misnames name := by
  obtain ⟨q, core⟩ := world
  rw [perform_eq] at h
  rcases core.revise_cases change with ⟨failure, store, hc, hr⟩ |
    ⟨dirty, store, pass, failure, hc, rfl, ho, hr⟩ | ⟨dirty, store, pass, rendering, hc, rfl, ho, hr⟩
  · rw [hr] at h
    cases h
    exact (hchange _ (congrArg Prod.fst hc)).elim
  · obtain rfl : core.app = app := happ
    obtain ⟨cause, rfl⟩ := View.error_of_reconcile hsound.supplied ho
    rw [hr] at h
    cases h
  · rw [hr, present] at h
    dsimp only at h
    split at h
    · cases h
    · split at h
      · rename_i hrun
        cases h
        exact ⟨depth, _, _, _, congrArg Prod.fst hrun⟩
      · cases h

include hclosed hcalls

theorem runRequest_wired (request : Request) (world : World σ) (h : world.2.Wired app r) :
    (runRequest (calls r depth) r request world).2.2.Wired app r := by
  rw [runRequest, handleEvent]
  cases hr : responseTo world.2 request with
  | error reason => exact h.report fun name he => by cases he
  | ok change =>
    dsimp only
    have hp := perform_wired hcalls h change
    cases hperform : perform (calls r depth) r change world with
    | mk outcome later =>
      rw [hperform] at hp
      cases outcome with
      | ok execution => exact hp.report fun name he => by cases he
      | error failure =>
        cases failure with
        | action error =>
          -- the change of an event finds its action, so only the renderer is left to blame
          refine (hp.write _).report fun name he => ?_
          cases he
          exact misnames_of_perform hsound h.app_eq hperform fun failure hf =>
            known_of_responseTo hclosed h hr hf
        | load cause | evaluation cause | sandbox cause | defect cause => exact hp

theorem drain_wired (budget : Nat) (world : World σ) (h : world.2.Wired app r) :
    (TaskQueue.drain (runRequest (calls r depth) r) budget world).2.2.Wired app r := by
  induction budget generalizing world with
  | zero =>
    rw [TaskQueue.drain]
    split <;> exact h
  | succ budget ih =>
    rw [TaskQueue.drain]
    cases world.1.next? with
    | none => exact h
    | some next =>
      obtain ⟨request, started⟩ := next
      dsimp only
      have hr := runRequest_wired hclosed hsound hcalls request (started, world.2) h
      split
      · rename_i heq
        rw [heq] at hr
        exact hr
      · rename_i later heq
        rw [heq] at hr
        exact ih later hr

theorem flush_wired (world : World σ) (h : world.2.Wired app r) :
    (TaskQueue.flush (runRequest (calls r depth) r) world).2.2.Wired app r := by
  rw [TaskQueue.flush]
  split
  · exact h
  · exact drain_wired hclosed hsound hcalls _ (world.1.begin, world.2) h

theorem dispatchWith_wired (request : Request) {world : World σ} (h : world.2.Wired app r) :
    (dispatchWith (calls r depth) r request world).2.2.Wired app r ∧
      ∀ outcomes, (dispatchWith (calls r depth) r request world).1 = .ok outcomes →
        ∀ outcome ∈ outcomes, outcome.result.Known r := by
  rw [dispatchWith]
  split
  · exact ⟨h, fun outcomes ho => by cases ho⟩
  · dsimp only
    split
    · refine ⟨h, fun outcomes ho => ?_⟩
      cases ho
      exact fun outcome hmem => by cases hmem
    · have hf := flush_wired hclosed hsound hcalls (world.1.enqueue request, world.2) h
      split
      · rename_i heq
        rw [heq] at hf
        refine ⟨hf.settle, fun outcomes ho => ?_⟩
        cases ho
        exact hf.pending
      · rename_i heq
        rw [heq] at hf
        exact ⟨hf.settle.escalate _ _, fun outcomes ho => by cases ho⟩

end Depth

section Events

variable {app : Application} (hclosed : app.Closed) (hsound : app.Sound) (r : Renderer σ)

include hclosed hsound

theorem calls_wire (depth : Nat) : (calls r depth).Wire app r := by
  induction depth with
  | zero => exact ⟨fun _ _ h => h, fun _ _ h => h, fun _ _ _ _ ho => by cases ho⟩
  | succ depth ih =>
    exact ⟨fun name _ h => executeWith_wired ih name h,
      fun request _ h => (dispatchWith_wired hclosed hsound ih request h).1,
      fun request _ outcomes h => (dispatchWith_wired hclosed hsound ih request h).2 outcomes⟩

theorem run_wired (depth : Nat) {world : World σ} (h : world.2.Wired app r) (cs : List Call) :
    (run r depth world cs).2.Wired app r := by
  induction cs generalizing world with
  | nil => exact h
  | cons call rest ih =>
    refine ih ?_
    have hwire := calls_wire hclosed hsound r depth
    cases call with
    | execute name => exact hwire.execute name world h
    | dispatch request => exact hwire.dispatch request world h
    | value name | state | tree | fatal | memory => exact h

end Events

theorem runRequest_ne_action (calls : Calls σ) (r : Renderer σ) (request : Request) (world : World σ)
    (error : ActionError) : (runRequest calls r request world).1 ≠ .error (.action error) := by
  rw [runRequest, handleEvent]
  cases responseTo world.2 request with
  | error reason => rintro ⟨⟩
  | ok change =>
    dsimp only
    generalize perform calls r change world = result
    obtain ⟨outcome, later⟩ := result
    cases outcome with
    | ok execution => rintro ⟨⟩
    | error failure => cases failure <;> rintro ⟨⟩

theorem drain_ne_action (calls : Calls σ) (r : Renderer σ) (budget : Nat) (world : World σ)
    (error : ActionError) :
    (TaskQueue.drain (runRequest calls r) budget world).1 ≠ .error (.action error) := by
  induction budget generalizing world with
  | zero =>
    rw [TaskQueue.drain]
    split <;> rintro ⟨⟩
  | succ budget ih =>
    rw [TaskQueue.drain]
    split
    · rintro ⟨⟩
    · rename_i request started heq
      have hr := runRequest_ne_action calls r request (started, world.2) error
      split
      · rename_i hrun
        rw [hrun] at hr
        exact fun he => hr (by rw [Except.error.inj he])
      · exact ih _

/-- A dispatch never throws the error of an action: such an error becomes the outcome of its event. -/
theorem dispatch_ne_action (r : Renderer σ) (depth : Nat) (request : Request) (world : World σ)
    (error : ActionError) : ((calls r depth).dispatch request world).1 ≠ .error (.action error) := by
  cases depth with
  | zero => rintro ⟨⟩
  | succ depth =>
    change (dispatchWith (calls r depth) r request world).1 ≠ _
    rw [dispatchWith]
    split
    · rintro ⟨⟩
    · dsimp only
      split
      · rintro ⟨⟩
      · rename_i hrunning
        rw [TaskQueue.flush]
        rw [if_neg hrunning]
        have hd := drain_ne_action (calls r depth) r (world.1.enqueue request).limit.most.toNat
          ((world.1.enqueue request).begin, world.2) error
        generalize TaskQueue.drain (runRequest (calls r depth) r) _ _ = result at hd ⊢
        obtain ⟨outcome, q, core⟩ := result
        cases outcome with
        | ok done => rintro ⟨⟩
        | error failure => exact fun he => hd (by rw [Except.error.inj he])

end World

theorem Launch.wired_of_start {app : Application} {limits : Limits} {r : Renderer σ} {sink : σ}
    {world : World σ} (h : (Launch.start app limits r sink).outcome = .ok world) :
    world.2.Wired app r := by
  obtain ⟨store, pass, rendering, -, rfl, hp, happ, -, htree, hpending⟩ := Launch.start_ok h
  refine ⟨happ, ?_, fun outcome hmem => ?_⟩
  · rw [htree]
    exact (View.materialize_mirrors hp).imp fun _ _ hm => hm.blank
  · rw [hpending] at hmem
    cases hmem

end ReactiveView
