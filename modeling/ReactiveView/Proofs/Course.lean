import ReactiveView.Proofs.Moments

namespace ReactiveView

variable {σ : Type}

/-- What can happen while calls are answered. -/
inductive Incident where
  /-- An event is taken into the queue. -/
  | accepted (request : Request)
  /-- A change of the state, or the pass over the view that follows it, violates the sandbox. -/
  | violated (cause : SandboxError)
  /-- The renderer is handed patches. -/
  | shown (patches : List Patch) (tree : Tree)
  /-- The renderer breaks off its reaction. -/
  | thrown (failure : Failure)
  /-- An event of the queue has been handled. -/
  | handled (outcome : EventOutcome)
  /-- A call is over. -/
  | answered (answer : Except Failure Reply)

namespace Incident

def accepted? : Incident → Option Request
  | .accepted request => some request
  | _ => none

def handled? : Incident → Option EventOutcome
  | .handled outcome => some outcome
  | _ => none

def cause? : Incident → Option SandboxError
  | .violated cause => some cause
  | .thrown (.sandbox cause) => some cause
  | _ => none

end Incident

/-- Incidents in order, each with the world as it is then. An event is accepted into the queue of that
world. -/
abbrev Course (σ : Type) := List (Incident × World σ)

def acceptedIn (course : Course σ) : List Request := course.filterMap fun m => m.1.accepted?

def handledIn (course : Course σ) : List EventOutcome := course.filterMap fun m => m.1.handled?

def causesIn (course : Course σ) : List SandboxError := course.filterMap fun m => m.1.cause?

@[simp]
theorem acceptedIn_append (s t : Course σ) : acceptedIn (s ++ t) = acceptedIn s ++ acceptedIn t :=
  List.filterMap_append

@[simp]
theorem handledIn_append (s t : Course σ) : handledIn (s ++ t) = handledIn s ++ handledIn t :=
  List.filterMap_append

@[simp]
theorem causesIn_append (s t : Course σ) : causesIn (s ++ t) = causesIn s ++ causesIn t :=
  List.filterMap_append

structure Courses (σ : Type) where
  execute : String → World σ → Course σ
  dispatch : Request → World σ → Course σ

def Reaction.course (calls : Calls σ) (inside : Courses σ) : Reaction σ → World σ → Course σ
  | .done, _ => []
  | .fail failure, world => [(.thrown failure, world)]
  | .update change next, (q, core) =>
    course calls inside next (q, { core with sink := change core.sink })
  | .consult next, (q, core) => course calls inside (next core.sink) (q, core)
  | .look next, (q, core) => course calls inside (next core.glimpse) (q, core)
  | .weigh next, (q, core) => course calls inside (next core.meter) (q, core)
  | .execute name next, world =>
    let (answer, later) := calls.execute name world
    inside.execute name world ++ course calls inside (next answer) later
  | .dispatch request next, world =>
    let (answer, later) := calls.dispatch request world
    inside.dispatch request world ++ course calls inside (next answer) later

namespace World

def reviseCourse (q : TaskQueue Request) :
    Except Failure (List String × Rendering) × Core σ → Course σ
  | (.error (.sandbox cause), core) => [(.violated cause, (q, core))]
  | _ => []

def presentCourse (calls : Calls σ) (inside : Courses σ) (r : Renderer σ) (q : TaskQueue Request) :
    Except Failure (List String × Rendering) × Core σ → Course σ
  | (.error _, _) => []
  | (.ok (dirty, rendering), core) =>
    if rendering.patches.isEmpty then []
    else
      let shown : World σ := (q, core.write [updatedLine dirty rendering.patches])
      (.shown rendering.patches rendering.tree, shown) ::
        (r.apply rendering.patches rendering.tree).course calls inside shown

def performCourse (calls : Calls σ) (inside : Courses σ) (r : Renderer σ)
    (change : Store → Except Failure (List String) × Store) (world : World σ) : Course σ :=
  reviseCourse world.1 (world.2.revise change) ++
    presentCourse calls inside r world.1 (world.2.revise change)

def executeCourse (calls : Calls σ) (inside : Courses σ) (r : Renderer σ) (name : String)
    (world : World σ) : Course σ :=
  match world.2.fatal with
  | some _ => []
  | none =>
    performCourse calls inside r (fun store => store.execute world.2.app.actions name) world

def requestCourse (calls : Calls σ) (inside : Courses σ) (r : Renderer σ) (request : Request)
    (world : World σ) : Course σ :=
  let body :=
    match responseTo world.2 request with
    | .error _ => []
    | .ok change => performCourse calls inside r change world
  match handleEvent calls r request world with
  | (.error _, _) => body
  | (.ok result, _) => body ++ [(.handled ⟨request, result⟩, (runRequest calls r request world).2)]

def drainCourse (calls : Calls σ) (inside : Courses σ) (r : Renderer σ) : Nat → World σ → Course σ
  | 0, _ => []
  | budget + 1, (q, core) =>
    match q.next? with
    | none => []
    | some (request, started) =>
      requestCourse calls inside r request (started, core) ++
        match runRequest calls r request (started, core) with
        | (.error _, _) => []
        | (.ok (), later) => drainCourse calls inside r budget later

def dispatchCourse (calls : Calls σ) (inside : Courses σ) (r : Renderer σ) (request : Request)
    (world : World σ) : Course σ :=
  match world.2.fatal with
  | some _ => []
  | none =>
    let q := world.1.enqueue request
    (.accepted request, world) ::
      if q.running then [] else drainCourse calls inside r q.limit.most.toNat (q.begin, world.2)

def closed {α : Type} (reply : α → Reply) (course : Course σ) (result : Except Failure α × World σ) :
    Course σ := course ++ [(.answered (result.1.map reply), result.2)]

def courses (r : Renderer σ) : Nat → Courses σ
  | 0 =>
    ⟨fun name world => closed .executed [] ((calls r 0).execute name world),
      fun request world => closed .dispatched [] ((calls r 0).dispatch request world)⟩
  | depth + 1 =>
    ⟨fun name world => closed .executed (executeCourse (calls r depth) (courses r depth) r name world)
        ((calls r (depth + 1)).execute name world),
      fun request world =>
        closed .dispatched (dispatchCourse (calls r depth) (courses r depth) r request world)
          ((calls r (depth + 1)).dispatch request world)⟩

def courseOf (r : Renderer σ) (depth : Nat) (world : World σ) : Call → Course σ
  | .execute name => (courses r depth).execute name world
  | .dispatch request => (courses r depth).dispatch request world
  | _ => []

def runCourse (r : Renderer σ) (depth : Nat) : World σ → List Call → Course σ
  | _, [] => []
  | world, call :: rest =>
    courseOf r depth world call ++ runCourse r depth (world.after r depth call) rest

end World

def Core.report (core : Core σ) (outcome : EventOutcome) : Core σ :=
  { core with pending := core.pending ++ [outcome] }

namespace World

section Requests

variable {calls : Calls σ} {inside : Courses σ} {r : Renderer σ} {request : Request} {world : World σ}

def concludeEvent (request : Request) :
    Except Failure Execution × World σ → Except Failure Unit × World σ
  | (.ok execution, later) =>
    (.ok (), (later.1, later.2.report ⟨request, .applied execution.dirty execution.patches⟩))
  | (.error (.action error), later) =>
    (.ok (), (later.1, (later.2.write [⟨.warn, [error.message]⟩]).report ⟨request, .failed error⟩))
  | (.error failure, later) => (.error failure, later)

def concludeCourse (request : Request) (result : Except Failure Execution × World σ) : Course σ :=
  match result.1 with
  | .ok execution =>
    [(.handled ⟨request, .applied execution.dirty execution.patches⟩, (concludeEvent request result).2)]
  | .error (.action error) =>
    [(.handled ⟨request, .failed error⟩, (concludeEvent request result).2)]
  | .error _ => []

theorem runRequest_of_ignored {reason : IgnoreReason} (h : responseTo world.2 request = .error reason) :
    runRequest calls r request world =
      (.ok (), (world.1, world.2.report ⟨request, .ignored reason⟩)) := by
  rw [runRequest, handleEvent, h]
  rfl

theorem requestCourse_of_ignored {reason : IgnoreReason}
    (h : responseTo world.2 request = .error reason) : requestCourse calls inside r request world =
      [(.handled ⟨request, .ignored reason⟩,
        (world.1, world.2.report ⟨request, .ignored reason⟩))] := by
  rw [requestCourse, runRequest_of_ignored h, handleEvent, h]
  rfl

variable {change : Store → Except Failure (List String) × Store}
  (h : responseTo world.2 request = .ok change)

include h

theorem runRequest_of_response :
    runRequest calls r request world = concludeEvent request (perform calls r change world) := by
  simp only [runRequest, handleEvent, h]
  generalize perform calls r change world = result
  obtain ⟨outcome, later⟩ := result
  cases outcome with
  | ok execution => rfl
  | error failure => cases failure <;> rfl

theorem requestCourse_of_response : requestCourse calls inside r request world =
    performCourse calls inside r change world ++
      concludeCourse request (perform calls r change world) := by
  simp only [requestCourse, runRequest_of_response h, handleEvent, h]
  generalize perform calls r change world = result
  obtain ⟨outcome, later⟩ := result
  cases outcome with
  | ok execution => rfl
  | error failure => cases failure <;> simp [concludeCourse]

end Requests

def conclude : Except Failure Unit × World σ → Except Failure (List EventOutcome) × World σ
  | (.ok (), (q, core)) => (.ok core.pending, (q.finish, { core with pending := [] }))
  | (.error failure, (q, core)) =>
    (.error failure,
      (q.finish.clear, escalate failure q.finish.queueLength { core with pending := [] }))

section Dispatches

variable (calls : Calls σ) (inside : Courses σ) (r : Renderer σ) (request : Request) {world : World σ}

theorem dispatchWith_of_running (hlive : world.2.fatal = none) (hrunning : world.1.running = true) :
    dispatchWith calls r request world = (.ok [], (world.1.enqueue request, world.2)) := by
  have hqueued : (world.1.enqueue request).running = true := hrunning
  rw [dispatchWith, hlive]
  dsimp only
  rw [if_pos hqueued]

theorem dispatchWith_of_idle (hlive : world.2.fatal = none) (hidle : world.1.running = false) :
    dispatchWith calls r request world = conclude (TaskQueue.drain (runRequest calls r)
      (world.1.enqueue request).limit.most.toNat ((world.1.enqueue request).begin, world.2)) := by
  have hqueued : ¬(world.1.enqueue request).running = true := by simp [TaskQueue.enqueue, hidle]
  rw [dispatchWith, hlive]
  dsimp only
  rw [if_neg hqueued, TaskQueue.flush, if_neg hqueued]
  dsimp only
  generalize TaskQueue.drain _ _ _ = result
  obtain ⟨outcome, q, core⟩ := result
  cases outcome <;> rfl

theorem dispatchCourse_of_running (hlive : world.2.fatal = none) (hrunning : world.1.running = true) :
    dispatchCourse calls inside r request world = [(.accepted request, world)] := by
  have hqueued : (world.1.enqueue request).running = true := hrunning
  rw [dispatchCourse, hlive]
  dsimp only
  rw [if_pos hqueued]

theorem dispatchCourse_of_idle (hlive : world.2.fatal = none) (hidle : world.1.running = false) :
    dispatchCourse calls inside r request world =
      (.accepted request, world) :: drainCourse calls inside r
        (world.1.enqueue request).limit.most.toNat ((world.1.enqueue request).begin, world.2) := by
  have hqueued : ¬(world.1.enqueue request).running = true := by simp [TaskQueue.enqueue, hidle]
  rw [dispatchCourse, hlive]
  dsimp only
  rw [if_neg hqueued]

end Dispatches

end World

theorem Core.revise_keeps (change : Store → Except Failure (List String) × Store) (core : Core σ) :
    (core.revise change).2.fatal = core.fatal ∧ (core.revise change).2.pending = core.pending := by
  rcases core.revise_cases change with ⟨failure, store, -, hr⟩ |
    ⟨dirty, store, pass, failure, -, -, -, hr⟩ | ⟨dirty, store, pass, rendering, -, -, -, hr⟩ <;>
    rw [hr] <;> exact ⟨rfl, rfl⟩

def failureOf {α : Type} : Except Failure α → Option Failure
  | .error failure => some failure
  | .ok _ => none

namespace Course

/-- A relation between the world before a part of a call, its course, the failure it passes on and the
world after it, which survives all that an action does to a running application. -/
structure Law (P : World σ → Course σ → Option Failure → World σ → Prop) : Prop where
  refl : ∀ w, P w [] none w
  append : ∀ {a b c s t f}, P a s none b → P b t f c → P a (s ++ t) f c
  sink : ∀ (w : World σ) sink, P w [] none (w.1, { w.2 with sink })
  thrown : ∀ w failure, P w [(.thrown failure, w)] (some failure) w
  answered : ∀ w answer, P w [(.answered answer, w)] none w
  revise : ∀ (w : World σ) change, w.2.fatal = none → w.2.app.Offers change →
    P w (World.reviseCourse w.1 (w.2.revise change)) (failureOf (w.2.revise change).1)
      (w.1, (w.2.revise change).2)
  shown : ∀ (w : World σ) lines patches tree, w.2.fatal = none →
    P w [(.shown patches tree, (w.1, w.2.write lines))] none (w.1, w.2.write lines)
  abandon : ∀ {a b s failure}, P a s (some failure) b → P a s none (World.abandon failure b)

end Course

structure Calls.Obey (P : World σ → Course σ → Option Failure → World σ → Prop) (calls : Calls σ)
    (inside : Courses σ) : Prop where
  execute : ∀ name world, P world (inside.execute name world) none (calls.execute name world).2
  dispatch : ∀ request world,
    P world (inside.dispatch request world) none (calls.dispatch request world).2

section Lifting

variable {P : World σ → Course σ → Option Failure → World σ → Prop} (law : Course.Law P)
  {calls : Calls σ} {inside : Courses σ} (hcalls : calls.Obey P inside)

include law

theorem Course.Law.closed {α : Type} {world : World σ} {course : Course σ} {reply : α → Reply}
    {result : Except Failure α × World σ} (h : P world course none result.2) :
    P world (World.closed reply course result) none result.2 :=
  law.append h (law.answered _ _)

include hcalls

theorem Reaction.course_law (reaction : Reaction σ) (world : World σ) :
    P world (reaction.course calls inside world) (failureOf (reaction.run calls world).1)
      (reaction.run calls world).2 := by
  induction reaction generalizing world with
  | done => exact law.refl world
  | fail failure => exact law.thrown world failure
  | update change next ih =>
    have hsink := law.sink world (change world.2.sink)
    exact law.append hsink (ih (world.1, _))
  | consult next ih | look next ih | weigh next ih => exact ih _ world
  | execute name next ih => exact law.append (hcalls.execute name world) (ih _ _)
  | dispatch request next ih => exact law.append (hcalls.dispatch request world) (ih _ _)

namespace World

variable (r : Renderer σ)

theorem perform_law {change : Store → Except Failure (List String) × Store} (world : World σ)
    (hlive : world.2.fatal = none) (hchange : world.2.app.Offers change) :
    P world (performCourse calls inside r change world)
      (failureOf (perform calls r change world).1) (perform calls r change world).2 := by
  obtain ⟨q, core⟩ := world
  have hrevise := law.revise (q, core) change hlive hchange
  have hfatal := (core.revise_keeps change).1.trans hlive
  rw [perform_eq, performCourse]
  dsimp only at hrevise ⊢
  generalize core.revise change = result at hrevise hfatal ⊢
  obtain ⟨outcome, later⟩ := result
  cases outcome with
  | error failure =>
    rw [presentCourse, present, List.append_nil]
    exact hrevise
  | ok revised =>
    refine law.append hrevise ?_
    rw [presentCourse, present]
    dsimp only
    split
    · exact law.refl _
    · have hreaction := Reaction.course_law law hcalls
        (r.apply revised.2.patches revised.2.tree)
        (q, later.write [updatedLine revised.1 revised.2.patches])
      have hall := law.append
        (law.shown (q, later) _ revised.2.patches revised.2.tree hfatal) hreaction
      split
      · rename_i hrun
        rw [hrun] at hall
        exact hall
      · rename_i hrun
        rw [hrun] at hall
        exact hall

theorem executeWith_law (name : String) (world : World σ) :
    P world (executeCourse calls inside r name world) none (executeWith calls r name world).2 := by
  rw [executeCourse, executeWith]
  cases hf : world.2.fatal with
  | some cause => exact law.refl world
  | none =>
    dsimp only
    have hall := perform_law law hcalls r world hf (.execute name)
    generalize perform calls r _ world = result at hall ⊢
    obtain ⟨outcome, later⟩ := result
    cases outcome with
    | ok execution => exact hall
    | error failure => exact law.abandon hall

end World

end Lifting

namespace World

/-- A relation that obeys the law holds along all calls, if it holds along dispatches whenever it holds
along the calls inside them. -/
theorem calls_obey {P : World σ → Course σ → Option Failure → World σ → Prop} (law : Course.Law P)
    (r : Renderer σ)
    (hdispatch : ∀ depth, (calls r depth).Obey P (courses r depth) → ∀ request world,
      P world (dispatchCourse (calls r depth) (courses r depth) r request world) none
        (dispatchWith (calls r depth) r request world).2) (depth : Nat) :
    (calls r depth).Obey P (courses r depth) := by
  induction depth with
  | zero =>
    exact ⟨fun _ world => law.closed (law.refl world), fun _ world => law.closed (law.refl world)⟩
  | succ depth ih =>
    exact ⟨fun name world => law.closed (executeWith_law law ih r name world),
      fun request world => law.closed (hdispatch depth ih request world)⟩

section Runs

variable {P : World σ → Course σ → Option Failure → World σ → Prop} (law : Course.Law P)
  {r : Renderer σ} {depth : Nat} (hcalls : (calls r depth).Obey P (courses r depth))

include law hcalls

theorem after_obeys (world : World σ) (call : Call) :
    P world (courseOf r depth world call) none (world.after r depth call) := by
  cases call with
  | execute name => exact hcalls.execute name world
  | dispatch request => exact hcalls.dispatch request world
  | value name | state | tree | fatal | memory => exact law.refl world

theorem run_obeys (world : World σ) (cs : List Call) :
    P world (runCourse r depth world cs) none (run r depth world cs) := by
  induction cs generalizing world with
  | nil => exact law.refl world
  | cons call rest ih => exact law.append (after_obeys law hcalls world call) (ih _)

end Runs

end World

end ReactiveView
