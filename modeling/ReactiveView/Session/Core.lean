import ReactiveView.Schedule.Queue
import ReactiveView.Session.Renderer
import ReactiveView.State.Store
import ReactiveView.View.Reconcile

namespace ReactiveView

variable {σ : Type}

/-- Hold a running application apart from its event queue: the outcomes that are still to be
reported, the violation that ended it, the lines it has logged, and the state of its renderer. -/
structure Core (σ : Type) where
  app : Application
  store : Store
  tree : Tree
  pending : List EventOutcome
  fatal : Option SandboxError
  log : List Log.Line
  sink : σ

abbrev World (σ : Type) := TaskQueue Request × Core σ

structure Calls (σ : Type) where
  execute : String → World σ → Except Failure Execution × World σ
  dispatch : Request → World σ → Except Failure (List EventOutcome) × World σ

namespace Core

def write (core : Core σ) (lines : List Log.Line) : Core σ := { core with log := core.log ++ lines }

def glimpse (core : Core σ) : Glimpse := ⟨core.store.state, core.tree, core.fatal⟩

def meter (core : Core σ) : Meter := core.store.account.getD {}

end Core

namespace Reaction

def run (calls : Calls σ) : Reaction σ → World σ → Except Failure Unit × World σ
  | .done, world => (.ok (), world)
  | .fail failure, world => (.error failure, world)
  | .update change next, (q, core) => run calls next (q, { core with sink := change core.sink })
  | .consult next, (q, core) => run calls (next core.sink) (q, core)
  | .look next, (q, core) => run calls (next core.glimpse) (q, core)
  | .weigh next, (q, core) => run calls (next core.meter) (q, core)
  | .execute name next, world =>
    let (answer, later) := calls.execute name world
    run calls (next answer) later
  | .dispatch request next, world =>
    let (answer, later) := calls.dispatch request world
    run calls (next answer) later

end Reaction

namespace World

def updatedLine (dirty : List String) (patches : List Patch) : Log.Line :=
  ⟨.debug, ["Reconciled " ++ toString dirty.length ++ " variable(s) into " ++
    toString patches.length ++ " patch(es)"]⟩

def afterPass (core : Core σ) (pass : Pass Rendering) : Core σ :=
  { core with
    store := { core.store with account := pass.account }
    log := core.log ++ pass.visits.filterMap Visit.brief? }

def refresh (calls : Calls σ) (r : Renderer σ) (dirty : List String) (world : World σ) :
    Except Failure Execution × World σ :=
  let (q, core) := world
  let pass := View.reconcile core.app core.store.state (some core.tree) dirty core.store.account
  let passed := afterPass core pass
  match pass.outcome with
  | .error failure => (.error failure, (q, passed))
  | .ok rendering =>
    let updated := { passed with tree := rendering.tree }
    if rendering.patches.isEmpty then (.ok ⟨dirty, []⟩, (q, updated))
    else
      let reaction := r.apply rendering.patches rendering.tree
      match reaction.run calls (q, updated.write [updatedLine dirty rendering.patches]) with
      | (.error failure, later) => (.error failure, later)
      | (.ok (), later) => (.ok ⟨dirty, rendering.patches⟩, later)

def droppedNote (dropped : Nat) : String :=
  if dropped = 0 then "" else "(" ++ toString dropped ++ " queued event(s) dropped)"

/-- Take note of a failure. A violation of the sandbox ends the application; any other failure is
logged if it drops events. -/
def escalate (failure : Failure) (dropped : Nat) (core : Core σ) : Core σ :=
  match failure with
  | .sandbox cause =>
    if core.fatal = some cause then core
    else
      { core with fatal := some cause }.write
        [⟨.error, ["Application \"" ++ core.app.name ++ "\" terminated:", cause.message,
          droppedNote dropped]⟩]
  | failure =>
    if dropped = 0 then core
    else core.write [⟨.error, ["Event queue aborted:", failure.message, droppedNote dropped]⟩]

def abandon (failure : Failure) (world : World σ) : World σ :=
  match failure with
  | .sandbox _ => (world.1.clear, escalate failure world.1.queueLength world.2)
  | _ => (world.1, escalate failure 0 world.2)

def perform (calls : Calls σ) (r : Renderer σ)
    (change : Store → Except Failure (List String) × Store) (world : World σ) :
    Except Failure Execution × World σ :=
  let (q, core) := world
  match change core.store with
  | (.error failure, store) => (.error failure, (q, { core with store }))
  | (.ok dirty, store) => refresh calls r dirty (q, { core with store })

def executeWith (calls : Calls σ) (r : Renderer σ) (name : String) (world : World σ) :
    Except Failure Execution × World σ :=
  match world.2.fatal with
  | some cause => (.error (.sandbox cause), world)
  | none =>
    match perform calls r (fun store => store.execute world.2.app.actions name) world with
    | (.ok execution, later) => (.ok execution, later)
    | (.error failure, later) => (.error failure, abandon failure later)

/-- Decide what an event does to the state, if it does anything. -/
def responseTo (core : Core σ) (request : Request) :
    Except IgnoreReason (Store → Except Failure (List String) × Store) :=
  match core.tree.node? request.ref with
  | none => .error .noSuchNode
  | some node =>
    if !node.visible then .error .hidden
    else
      match request.event.handler? with
      | some property =>
        match node.handlers.get? property with
        | none => .error (.noHandler property)
        | some action => .ok fun store => store.execute core.app.actions action
      | none =>
        match node.binding with
        | none => .error .notBound
        | some target =>
          let text := editableText (core.store.state.get? target)
          .ok fun store => store.assign target (.str (request.event.edit text))

def handleEvent (calls : Calls σ) (r : Renderer σ) (request : Request) (world : World σ) :
    Except Failure EventResult × World σ :=
  match responseTo world.2 request with
  | .error reason => (.ok (.ignored reason), world)
  | .ok change =>
    match perform calls r change world with
    | (.ok execution, later) => (.ok (.applied execution.dirty execution.patches), later)
    | (.error (.action error), (q, core)) =>
      (.ok (.failed error), (q, core.write [⟨.warn, [error.message]⟩]))
    | (.error failure, later) => (.error failure, later)

def runRequest (calls : Calls σ) (r : Renderer σ) (request : Request) (world : World σ) :
    Except Failure Unit × World σ :=
  match handleEvent calls r request world with
  | (.error failure, later) => (.error failure, later)
  | (.ok result, (q, core)) =>
    (.ok (), (q, { core with pending := core.pending ++ [⟨request, result⟩] }))

/-- Queue an event and, unless a flush is running, run the queue. The outcomes of all events that ran
are the answer. -/
def dispatchWith (calls : Calls σ) (r : Renderer σ) (request : Request) (world : World σ) :
    Except Failure (List EventOutcome) × World σ :=
  match world.2.fatal with
  | some cause => (.error (.sandbox cause), world)
  | none =>
    let queued : World σ := (world.1.enqueue request, world.2)
    if queued.1.running then (.ok [], queued)
    else
      match TaskQueue.flush (runRequest calls r) queued with
      | (.ok (), (q, core)) => (.ok core.pending, (q, { core with pending := [] }))
      | (.error failure, (q, core)) =>
        (.error failure,
          (q.clear, escalate failure q.queueLength { core with pending := [] }))

/-- Answers to calls that are nested at most so deep. -/
def calls (r : Renderer σ) : Nat → Calls σ
  | 0 =>
    ⟨fun _ world => (.error (.defect .nestingExceeded), world),
      fun _ world => (.error (.defect .nestingExceeded), world)⟩
  | depth + 1 =>
    ⟨fun name world => executeWith (calls r depth) r name world,
      fun request world => dispatchWith (calls r depth) r request world⟩

def nestingLimit : Nat := 1000

def execute (r : Renderer σ) (name : String) (world : World σ) :
    Except Failure Execution × World σ := (calls r nestingLimit).execute name world

def dispatch (r : Renderer σ) (request : Request) (world : World σ) :
    Except Failure (List EventOutcome) × World σ :=
  (calls r nestingLimit).dispatch request world

end World

end ReactiveView
