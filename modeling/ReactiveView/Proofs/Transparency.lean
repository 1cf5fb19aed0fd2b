import ReactiveView.Proofs.Accounting
import ReactiveView.Proofs.Course
import ReactiveView.Proofs.Headroom

namespace ReactiveView

variable {σ : Type}

def World.widen (more : Headroom) (world : World σ) : World σ := (world.1, world.2.widen more)

def Course.widen (more : Headroom) (t : Course σ) : Course σ := t.map fun m => (m.1, m.2.widen more)

def Incident.Overrun : Incident → Prop
  | .violated cause => cause.Overrun
  | _ => False

instance : DecidablePred Incident.Overrun
  | .violated cause => inferInstanceAs (Decidable cause.Overrun)
  | .accepted _ | .shown .. | .thrown _ | .handled _ | .answered _ => isFalse id

def Course.Within (t : Course σ) : Prop := ∀ m ∈ t, ¬m.1.Overrun

instance (t : Course σ) : Decidable t.Within :=
  inferInstanceAs (Decidable (∀ m ∈ t, ¬m.1.Overrun))

/-- Two courses go in lockstep: the second goes through what the first goes through before a charge is
refused, under the larger limit, and `same` holds of what they end with if none is. -/
structure Course.Lockstep (more : Headroom) (t t' : Course σ) (same : Prop) : Prop where
  before : ∀ s, s <+: t → Within s → widen more s <+: t'
  whole : Within t → t' = widen more t ∧ same

namespace Course.Lockstep

variable {more : Headroom} {s t s' t' : Course σ} {same same' : Prop}

theorem refl (t : Course σ) (h : same) : Lockstep more t (widen more t) same :=
  ⟨fun _ hs _ => hs.map _, fun _ => ⟨rfl, h⟩⟩

theorem nil (h : same) : Lockstep more ([] : Course σ) [] same := refl [] h

theorem mono (h : Lockstep more t t' same) (himp : same → same') : Lockstep more t t' same' :=
  ⟨h.before, fun hw => ⟨(h.whole hw).1, himp (h.whole hw).2⟩⟩

theorem overrun {m : Incident × World σ} (h : m.1.Overrun) : Lockstep more (m :: t) t' same := by
  refine ⟨fun s hs hw => ?_, fun hw => absurd h (hw m List.mem_cons_self)⟩
  rcases List.prefix_cons_iff.1 hs with rfl | ⟨rest, rfl, -⟩
  · exact List.nil_prefix
  · exact absurd h (hw m List.mem_cons_self)

theorem append (h : Lockstep more s s' same) (h' : same → Lockstep more t t' same') :
    Lockstep more (s ++ t) (s' ++ t') same' := by
  refine ⟨fun u hu hw => ?_, fun hw => ?_⟩
  · rcases List.prefix_or_prefix_of_prefix hu (List.prefix_append s t) with hu' | ⟨v, rfl⟩
    · exact (h.before u hu' hw).trans (List.prefix_append _ _)
    · -- the first part is left whole, so both runs enter the second one alike
      have hv := (List.prefix_append_right_inj s).1 hu
      obtain ⟨hs, ht⟩ := List.forall_mem_append.1 hw
      obtain ⟨rfl, hsame⟩ := h.whole hs
      have hrest := (h' hsame).before v hv ht
      simpa [widen] using (List.prefix_append_right_inj (widen more s)).2 hrest
  · obtain ⟨hs, ht⟩ := List.forall_mem_append.1 hw
    obtain ⟨rfl, hsame⟩ := h.whole hs
    obtain ⟨rfl, hend⟩ := (h' hsame).whole ht
    exact ⟨by simp [widen], hend⟩

end Course.Lockstep

/-- A renderer looks at the meter, if at all, without regard to the limit. -/
def Reaction.Oblivious : Reaction σ → Prop
  | .done | .fail _ => True
  | .update _ next => Oblivious next
  | .consult next => ∀ sink, Oblivious (next sink)
  | .look next => ∀ glimpse, Oblivious (next glimpse)
  | .weigh next =>
    (∀ (m : Meter) (limit : Limit), next { m with limit } = next m) ∧ ∀ m, Oblivious (next m)
  | .execute _ next => ∀ answer, Oblivious (next answer)
  | .dispatch _ next => ∀ answer, Oblivious (next answer)

def Renderer.Oblivious (r : Renderer σ) : Prop := ∀ patches tree, (r.apply patches tree).Oblivious

def Matches {α : Type} (more : Headroom) (result result' : Except Failure α × World σ) : Prop :=
  result' = Prod.map id (World.widen more) result

structure Calls.Lockstep (more : Headroom) (calls : Calls σ) (inside : Courses σ) : Prop where
  execute : ∀ name world, Course.Lockstep more (inside.execute name world)
    (inside.execute name (world.widen more))
    (Matches more (calls.execute name world) (calls.execute name (world.widen more)))
  dispatch : ∀ request world, Course.Lockstep more (inside.dispatch request world)
    (inside.dispatch request (world.widen more))
    (Matches more (calls.dispatch request world) (calls.dispatch request (world.widen more)))

theorem Reaction.weigh_widen {next : Meter → Reaction σ} (h : (Reaction.weigh next).Oblivious)
    (more : Headroom) (core : Core σ) : next (core.widen more).meter = next core.meter := by
  simp only [Core.meter, Core.widen, Store.widen, Account.widen]
  cases core.store.account with
  | none => rfl -- without a meter, both runs show the default one
  | some m => exact h.1 m _

namespace World

theorem escalate_widen (more : Headroom) (failure : Failure) (dropped : Nat) (core : Core σ) :
    escalate failure dropped (core.widen more) = (escalate failure dropped core).widen more := by
  cases failure with
  | sandbox cause =>
    have hfatal : (core.widen more).fatal = core.fatal := rfl
    simp only [escalate, hfatal]
    split <;> rfl
  | load cause | evaluation cause | action cause | defect cause =>
    simp only [escalate]
    split <;> rfl

theorem abandon_widen (more : Headroom) (failure : Failure) (world : World σ) :
    abandon failure (world.widen more) = (abandon failure world).widen more := by
  cases failure <;> exact congrArg (Prod.mk _) (escalate_widen more _ _ world.2)

theorem conclude_widen (more : Headroom) (result : Except Failure Unit × World σ) :
    conclude (Prod.map id (World.widen more) result) =
      Prod.map id (World.widen more) (conclude result) := by
  obtain ⟨outcome, q, core⟩ := result
  cases outcome with
  | ok done => rfl
  | error failure =>
    exact congrArg (fun core => (Except.error failure, q.finish.clear, core))
      (escalate_widen more failure q.finish.queueLength { core with pending := [] })

end World

section Lifting

variable {more : Headroom} {calls : Calls σ} {inside : Courses σ} (hcalls : calls.Lockstep more inside)

include hcalls

theorem Reaction.lockstep {reaction : Reaction σ} (h : reaction.Oblivious) (world : World σ) :
    Course.Lockstep more (reaction.course calls inside world)
      (reaction.course calls inside (world.widen more))
      (Matches more (reaction.run calls world) (reaction.run calls (world.widen more))) := by
  induction reaction generalizing world with
  | done => exact .nil rfl
  | fail failure => exact .refl _ rfl
  | update change next ih => exact ih h (world.1, _)
  | consult next ih => exact ih _ (h _) world
  | look next ih => exact ih _ (h _) world
  -- The limit is all that differs between the meters, and the renderer takes no notice of it.
  | weigh next ih =>
    obtain ⟨q, core⟩ := world
    have hnext := ih core.meter (h.2 core.meter) (q, core)
    have hmeter := weigh_widen h more core
    simp only [course, run, World.widen, hmeter] at hnext ⊢
    exact hnext
  | execute name next ih =>
    have hcall := hcalls.execute name world
    rw [course, course, run, run]
    generalize calls.execute name world = result at hcall ⊢
    generalize calls.execute name (world.widen more) = result' at hcall ⊢
    refine hcall.append ?_
    rintro rfl
    exact ih _ (h _) _
  | dispatch request next ih =>
    have hcall := hcalls.dispatch request world
    rw [course, course, run, run]
    generalize calls.dispatch request world = result at hcall ⊢
    generalize calls.dispatch request (world.widen more) = result' at hcall ⊢
    refine hcall.append ?_
    rintro rfl
    exact ih _ (h _) _

namespace World

variable {r : Renderer σ} (hr : r.Oblivious)

include hr

theorem present_lockstep (q : TaskQueue Request)
    (result : Except Failure (List String × Rendering) × Core σ) :
    Course.Lockstep more (presentCourse calls inside r q result)
      (presentCourse calls inside r q (Prod.map id (Core.widen more) result))
      (Matches more (present calls r q result)
        (present calls r q (Prod.map id (Core.widen more) result))) := by
  obtain ⟨outcome, core⟩ := result
  cases outcome with
  | error failure => exact .nil rfl
  | ok revised =>
    obtain ⟨dirty, rendering⟩ := revised
    simp only [presentCourse, present, Prod.map, id]
    by_cases hempty : rendering.patches.isEmpty
    · simp only [hempty, if_true]
      exact .nil rfl
    · simp only [hempty, Bool.false_eq_true, if_false]
      have hreaction := Reaction.lockstep hcalls (hr rendering.patches rendering.tree)
        (q, core.write [updatedLine dirty rendering.patches])
      refine .append (.refl [(.shown rendering.patches rendering.tree,
        (q, core.write [updatedLine dirty rendering.patches]))] trivial) fun _ => ?_
      refine hreaction.mono fun heq => ?_
      have hrun : (r.apply rendering.patches rendering.tree).run calls
          (q, (core.widen more).write [updatedLine dirty rendering.patches]) = _ := heq
      rw [Matches, hrun]
      generalize (r.apply rendering.patches rendering.tree).run calls _ = result
      obtain ⟨outcome, later⟩ := result
      cases outcome <;> rfl

theorem perform_lockstep {change : Store → Except Failure (List String) × Store} {world : World σ}
    (hchange : world.2.app.Offers change) :
    Course.Lockstep more (performCourse calls inside r change world)
      (performCourse calls inside r change (world.widen more))
      (Matches more (perform calls r change world) (perform calls r change (world.widen more))) := by
  obtain ⟨q, core⟩ := world
  simp only [World.widen, perform_eq, performCourse]
  rcases Core.revise_widen more hchange with ⟨cause, hc, ho⟩ | hw
  · have hcourse : reviseCourse q (core.revise change) =
        [(.violated cause, (q, (core.revise change).2))] := by
      generalize core.revise change = result at hc ⊢
      obtain ⟨outcome, later⟩ := result
      obtain rfl : outcome = .error (.sandbox cause) := hc
      rfl
    -- nothing is said of what the two runs do from here on
    rw [hcourse]
    exact .overrun ho
  · rw [hw]
    have hpresent := present_lockstep hcalls hr q (core.revise change)
    generalize core.revise change = result at hpresent ⊢
    have hrevise : reviseCourse q (Prod.map id (Core.widen more) result) =
        Course.widen more (reviseCourse q result) := by
      obtain ⟨outcome, later⟩ := result
      cases outcome with
      | ok revised => rfl
      | error failure => cases failure <;> rfl
    rw [hrevise]
    exact .append (.refl _ trivial) fun _ => hpresent

theorem executeWith_lockstep (name : String) (world : World σ) :
    Course.Lockstep more (executeCourse calls inside r name world)
      (executeCourse calls inside r name (world.widen more))
      (Matches more (executeWith calls r name world) (executeWith calls r name (world.widen more))) := by
  have hfatal : (world.widen more).2.fatal = world.2.fatal := rfl
  have happ : (world.widen more).2.app = world.2.app := rfl
  simp only [executeCourse, executeWith, hfatal, happ]
  cases world.2.fatal with
  | some cause => exact .nil rfl
  | none =>
    dsimp only
    refine (perform_lockstep hcalls hr (.execute name)).mono fun heq => ?_
    rw [Matches] at heq
    rw [Matches, heq]
    generalize perform calls r _ world = result
    obtain ⟨outcome, later⟩ := result
    cases outcome with
    | ok execution => rfl
    | error failure => exact congrArg (Prod.mk _) (abandon_widen more failure later)

theorem runRequest_lockstep (request : Request) (world : World σ) :
    Course.Lockstep more (requestCourse calls inside r request world)
      (requestCourse calls inside r request (world.widen more))
      (Matches more (runRequest calls r request world)
        (runRequest calls r request (world.widen more))) := by
  have hwide : responseTo (world.widen more).2 request = responseTo world.2 request := rfl
  cases hresponse : responseTo world.2 request with
  | error reason =>
    rw [hresponse] at hwide
    rw [requestCourse_of_ignored hresponse, requestCourse_of_ignored hwide,
      runRequest_of_ignored hresponse, runRequest_of_ignored hwide]
    exact .refl [(.handled _, (world.1, world.2.report _))] rfl
  | ok change =>
    rw [hresponse] at hwide
    rw [requestCourse_of_response hresponse, requestCourse_of_response hwide,
      runRequest_of_response hresponse, runRequest_of_response hwide]
    refine (perform_lockstep hcalls hr (offers_of_responseTo hresponse)).append fun heq => ?_
    rw [Matches] at heq
    rw [heq]
    generalize perform calls r change world = result
    obtain ⟨outcome, later⟩ := result
    cases outcome with
    | ok execution => exact .refl [(.handled _, (later.1, later.2.report _))] rfl
    | error failure =>
      cases failure with
      | action error =>
        exact .refl [(.handled _, (later.1, (later.2.write [⟨.warn, [error.message]⟩]).report _))] rfl
      | load cause | evaluation cause | sandbox cause | defect cause => exact .nil rfl

theorem drain_lockstep (budget : Nat) (world : World σ) :
    Course.Lockstep more (drainCourse calls inside r budget world)
      (drainCourse calls inside r budget (world.widen more))
      (Matches more (TaskQueue.drain (runRequest calls r) budget world)
        (TaskQueue.drain (runRequest calls r) budget (world.widen more))) := by
  induction budget generalizing world with
  | zero =>
    obtain ⟨q, core⟩ := world
    simp only [World.widen, TaskQueue.drain, drainCourse]
    cases q.next? <;> exact .nil rfl
  | succ budget ih =>
    obtain ⟨q, core⟩ := world
    simp only [World.widen, TaskQueue.drain, drainCourse]
    cases q.next? with
    | none => exact .nil rfl
    | some next =>
      obtain ⟨request, started⟩ := next
      dsimp only
      refine (runRequest_lockstep hcalls hr request (started, core)).append fun heq => ?_
      rw [Matches] at heq
      have hrun : runRequest calls r request (started, core.widen more) = _ := heq
      rw [hrun]
      generalize runRequest calls r request (started, core) = result
      obtain ⟨outcome, later⟩ := result
      cases outcome with
      | error failure => exact .nil rfl
      | ok done => exact ih later

theorem dispatchWith_lockstep (request : Request) (world : World σ) :
    Course.Lockstep more (dispatchCourse calls inside r request world)
      (dispatchCourse calls inside r request (world.widen more))
      (Matches more (dispatchWith calls r request world)
        (dispatchWith calls r request (world.widen more))) := by
  cases hlive : world.2.fatal with
  | some cause =>
    have hwide : (world.widen more).2.fatal = some cause := hlive
    simp only [dispatchCourse, dispatchWith, hlive, hwide]
    exact .nil rfl
  | none =>
    have hwide : (world.widen more).2.fatal = none := hlive
    cases hrunning : world.1.running with
    | true =>
      have hwiderunning : (world.widen more).1.running = true := hrunning
      rw [dispatchWith_of_running calls r request hlive hrunning,
        dispatchWith_of_running calls r request hwide hwiderunning,
        dispatchCourse_of_running calls inside r request hlive hrunning,
        dispatchCourse_of_running calls inside r request hwide hwiderunning]
      exact .refl [(.accepted request, world)] rfl
    | false =>
      have hwiderunning : (world.widen more).1.running = false := hrunning
      rw [dispatchWith_of_idle calls r request hlive hrunning,
        dispatchWith_of_idle calls r request hwide hwiderunning,
        dispatchCourse_of_idle calls inside r request hlive hrunning,
        dispatchCourse_of_idle calls inside r request hwide hwiderunning]
      refine .append (.refl [(.accepted request, world)] trivial) fun _ => ?_
      refine (drain_lockstep hcalls hr (world.1.enqueue request).limit.most.toNat
        ((world.1.enqueue request).begin, world.2)).mono fun heq => ?_
      rw [Matches] at heq
      exact (congrArg conclude heq).trans (conclude_widen more _)

end World

end Lifting

theorem Course.Lockstep.closed {more : Headroom} {α : Type} {reply : α → Reply} {t t' : Course σ}
    {result result' : Except Failure α × World σ}
    (h : Lockstep more t t' (Matches more result result')) :
    Lockstep more (World.closed reply t result) (World.closed reply t' result')
      (Matches more result result') := by
  refine h.append ?_
  rintro rfl
  exact .refl [(.answered (result.1.map reply), result.2)] rfl

namespace World

variable {more : Headroom} {r : Renderer σ} (hr : r.Oblivious)

include hr

theorem calls_lockstep (depth : Nat) : (calls r depth).Lockstep more (courses r depth) := by
  induction depth with
  | zero => exact ⟨fun _ _ => .closed (.nil rfl), fun _ _ => .closed (.nil rfl)⟩
  | succ depth ih =>
    exact ⟨fun name world => .closed (executeWith_lockstep ih hr name world),
      fun request world => .closed (dispatchWith_lockstep ih hr request world)⟩

theorem after_lockstep (depth : Nat) (world : World σ) (call : Call) :
    Course.Lockstep more (courseOf r depth world call) (courseOf r depth (world.widen more) call)
      ((world.widen more).after r depth call = (world.after r depth call).widen more) := by
  have hcalls : (calls r depth).Lockstep more (courses r depth) := calls_lockstep hr depth
  cases call with
  | execute name => exact (hcalls.execute name world).mono fun heq => congrArg Prod.snd heq
  | dispatch request => exact (hcalls.dispatch request world).mono fun heq => congrArg Prod.snd heq
  | value name | state | tree | fatal | memory => exact .nil rfl

theorem run_lockstep (depth : Nat) (world : World σ) (cs : List Call) :
    Course.Lockstep more (runCourse r depth world cs) (runCourse r depth (world.widen more) cs)
      (run r depth (world.widen more) cs = (run r depth world cs).widen more) := by
  induction cs generalizing world with
  | nil => exact .nil rfl
  | cons call rest ih =>
    refine (after_lockstep hr depth world call).append fun heq => ?_
    rw [run, run, heq]
    exact ih _

end World

namespace Launch

def widen (more : Headroom) (launch : Launch σ) : Launch σ :=
  { launch with outcome := launch.outcome.map (World.widen more) }

def violations (app : Application) (limits : Limits) : List SandboxError :=
  match Store.create app.initialState (some { limit := limits.memory }) with
  | .error cause => [cause]
  | .ok store =>
    match (View.materialize app store.state store.account).outcome with
    | .error (.sandbox cause) => [cause]
    | _ => []

theorem start_widen (more : Headroom) {app : Application} {limits : Limits}
    (h : ∀ cause ∈ violations app limits, ¬cause.Overrun) (r : Renderer σ) (sink : σ) :
    start app { limits with memory := limits.memory.widen more } r sink =
      (start app limits r sink).widen more := by
  rw [violations] at h
  simp only [start]
  rcases Store.create_widen more app.initialState (some { limit := limits.memory }) with
    ⟨cause, hc, ho⟩ | ⟨store, hc, hw⟩
  · rw [hc] at h
    exact absurd ho (h cause List.mem_cons_self)
  · have hcreate : Store.create app.initialState (some { limit := limits.memory.widen more }) =
      .ok (store.widen more) := hw
    rw [hc] at h
    rw [hc, hcreate]
    dsimp only at h ⊢
    rcases View.materialize_widen more app store.state store.account with ⟨cause, hm, ho⟩ | hpass
    · rw [hm] at h
      exact absurd ho (h cause List.mem_cons_self)
    · have hwide : View.materialize app (store.widen more).state (store.widen more).account = _ := hpass
      rw [hwide]
      generalize View.materialize app store.state store.account = pass
      obtain ⟨visits, account, outcome⟩ := pass
      cases outcome with
      | error failure => rfl
      | ok rendering =>
        dsimp only [Pass.widen]
        obtain ⟨mounting, mounted⟩ := r.mount rendering.tree rendering.patches sink
        cases mounting <;> rfl

end Launch

namespace World

/-- As long as no charge is refused, an application goes the same way under a larger limit: it starts
alike and shows the same view, its calls have the same answers and its events the same outcomes, the
renderer is handed the same patches, and every world on the way differs in nothing but the limit. -/
theorem run_transparent {app : Application} {limits : Limits} {larger : Limit}
    (hle : limits.memory.most ≤ larger.most) {r : Renderer σ} (hr : r.Oblivious) (sink : σ)
    (hstart : ∀ cause ∈ Launch.violations app limits, ¬cause.Overrun) :
    Launch.start app { limits with memory := larger } r sink =
      (Launch.start app limits r sink).widen (limits.memory.headroom larger) ∧
    ∀ start, (Launch.start app limits r sink).outcome = .ok start → ∀ (depth : Nat) (cs : List Call),
      Course.Lockstep (limits.memory.headroom larger) (runCourse r depth start cs)
        (runCourse r depth (start.widen (limits.memory.headroom larger)) cs)
        (run r depth (start.widen (limits.memory.headroom larger)) cs =
          (run r depth start cs).widen (limits.memory.headroom larger)) := by
  have hwide := Launch.start_widen (limits.memory.headroom larger) hstart r sink
  rw [Limit.widen_headroom hle] at hwide
  exact ⟨hwide, fun start _ depth cs => run_lockstep hr depth start cs⟩

theorem echo_oblivious : echo.Oblivious := by
  intro patches tree sink
  change Reaction.Oblivious (if sink = 0 then _ else _)
  split
  · exact fun _ => trivial
  · trivial

/-- The counter fits into few bytes, with the call that the renderer makes. -/
theorem counter_transparent :
    ∃ start more,
      (Launch.start counter.application { memory := .ofInt 400 } echo 0).outcome = .ok start ∧
      (Limit.ofInt 400).widen more = .ofInt memoryLimitBytes ∧
      Launch.start counter.application {} echo 0 =
        (Launch.start counter.application { memory := .ofInt 400 } echo 0).widen more ∧
      run echo nestingLimit (start.widen more) [.execute "raise"] =
        (run echo nestingLimit start [.execute "raise"]).widen more := by
  obtain ⟨start, hstart, hchecks⟩ := exists_ok_of_any
    (Launch.start counter.application { memory := .ofInt 400 } echo 0).outcome
    (fun start => Course.Within (runCourse echo nestingLimit start [.execute "raise"]))
    (by decide +kernel)
  have hle : ({ memory := .ofInt 400 } : Limits).memory.most ≤ (Limit.ofInt memoryLimitBytes).most := by
    decide
  have hviolations : ∀ cause ∈ Launch.violations counter.application { memory := .ofInt 400 },
      ¬cause.Overrun := by
    decide +kernel
  obtain ⟨hwide, hruns⟩ := run_transparent hle echo_oblivious 0 hviolations
  have hrun := hruns start hstart nestingLimit [.execute "raise"]
  exact ⟨start, _, hstart, Limit.widen_headroom hle, hwide, (hrun.whole (of_decide_eq_true hchecks)).2⟩

end World

end ReactiveView
