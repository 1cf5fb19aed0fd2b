import ReactiveView.Proofs.Termination

namespace ReactiveView

variable {σ : Type}

theorem Fault.toFailure_ne_nestedFlush (fault : Fault) : fault.toFailure ≠ TaskQueue.nestedFlush := by
  cases fault <;> simp [toFailure, TaskQueue.nestedFlush]

theorem Store.step_ne_nestedFlush (label : String) (m : Mutation) (w : Working) :
    step label m w ≠ .error TaskQueue.nestedFlush := by
  intro h
  rcases step_error h with ⟨-, hf⟩ | ⟨fault, -, hf⟩ | ⟨value, cause, -, hf⟩
  · cases hf
  · cases fault <;> cases hf
  · cases hf

theorem Store.transact_ne_nestedFlush (s : Store) (label : String) (mutations : List Mutation) :
    (s.transact label mutations).1 ≠ .error TaskQueue.nestedFlush := by
  intro h
  rcases transact_error h with ⟨-, hf⟩ | ⟨before, m, after, w, -, -, hstep⟩ |
    ⟨account, bytes, cause, -, hf⟩
  · cases hf
  · exact step_ne_nestedFlush label m w hstep
  · cases hf

theorem ArenaNode.resolve_ne_nestedFlush (s : State) (n : ArenaNode) (facet : Facet) :
    (n.resolve s facet).2 ≠ .error TaskQueue.nestedFlush := by
  rw [resolve]
  split
  · simp
  · simp
  · rename_i fault _ _
    exact fun h => fault.toFailure_ne_nestedFlush (Except.error.inj h)

theorem View.updateNodes_ne_nestedFlush (s : State) (wanted : ArenaNode → List Facet)
    (ns : List ArenaNode) (nodes : List Node) (account : Account) :
    (updateNodes s wanted ns nodes account).outcome ≠ .error TaskQueue.nestedFlush := by
  induction ns generalizing nodes account with
  | nil => simp [updateNodes]
  | cons n rest ih =>
    cases nodes with
    | nil => simp [updateNodes]
    | cons before others =>
      intro h
      rw [updateNodes] at h
      split at h
      · rename_i visits failure hv
        cases h
        obtain ⟨facet, -, hf⟩ := ArenaNode.error_of_resolveAll (congrArg Prod.snd hv)
        exact n.resolve_ne_nestedFlush s facet hf
      · dsimp only at h
        split at h
        · exact ih _ _ (error_extend h)
        · split at h
          · cases h
          · exact ih _ _ (error_extend h)

theorem View.reconcile_ne_nestedFlush (app : Application) (s : State) (tree : Tree)
    (dirty : List String) (account : Account) :
    (reconcile app s (some tree) dirty account).outcome ≠ .error TaskQueue.nestedFlush := by
  rw [reconcile]
  have hupdate := updateNodes_ne_nestedFlush s (Index.facetsAmong (app.index.readsOf dirty)) app.nodes
    tree.nodes account
  dsimp only
  intro h
  cases hu : (updateNodes s (Index.facetsAmong (app.index.readsOf dirty)) app.nodes tree.nodes
      account).outcome with
  | ok result =>
    rw [hu] at h
    cases h
  | error failure =>
    rw [hu] at h
    cases h
    exact hupdate hu

theorem Application.Offers.ne_nestedFlush {app : Application}
    {change : Store → Except Failure (List String) × Store} (h : app.Offers change) (s : Store) :
    (change s).1 ≠ .error TaskQueue.nestedFlush := by
  cases h with
  | execute name =>
    simp only [Store.execute]
    cases app.actions.get? name with
    | none => simp [TaskQueue.nestedFlush]
    | some a => exact s.transact_ne_nestedFlush _ _
  | assign name text => exact s.transact_ne_nestedFlush _ _

theorem Core.revise_ne_nestedFlush {core : Core σ}
    {change : Store → Except Failure (List String) × Store} (h : core.app.Offers change) :
    (core.revise change).1 ≠ .error TaskQueue.nestedFlush := by
  rcases core.revise_cases change with ⟨failure, store, hc, hr⟩ |
    ⟨dirty, store, pass, failure, -, hp, ho, hr⟩ | ⟨dirty, store, pass, rendering, -, -, -, hr⟩ <;>
    rw [hr]
  · intro hf
    cases hf
    exact h.ne_nestedFlush core.store (by rw [hc])
  · intro hf
    cases hf
    rw [hp] at ho
    exact View.reconcile_ne_nestedFlush _ _ _ _ _ ho
  · simp

namespace World

/-- Unless a flush runs, no event waits and no outcome is left to report. -/
def Calm (world : World σ) : Prop :=
  world.1.running = false → world.1.waiting = [] ∧ world.2.pending = []

theorem calm_of_running {world : World σ} (h : world.1.running = true) : world.Calm := by
  simp [Calm, h]

theorem pending_escalate (failure : Failure) (dropped : Nat) (core : Core σ) :
    (escalate failure dropped core).pending = core.pending := by
  cases failure <;> simp only [escalate] <;> split <;> rfl

section Conclusion

variable (result : Except Failure Unit × World σ)

theorem running_conclude : (conclude result).2.1.running = false := by
  obtain ⟨outcome, q, core⟩ := result
  cases outcome <;> rfl

theorem pending_conclude : (conclude result).2.2.pending = [] := by
  obtain ⟨outcome, q, core⟩ := result
  cases outcome with
  | ok done => rfl
  | error failure => exact pending_escalate _ _ _

theorem waiting_conclude (h : result.1 = .ok () → result.2.1.waiting = []) :
    (conclude result).2.1.waiting = [] := by
  obtain ⟨outcome, q, core⟩ := result
  cases outcome with
  | ok done => exact (TaskQueue.waiting_finish q).trans (h rfl)
  | error failure => exact TaskQueue.waiting_clear _

variable {result}

theorem conclude_ok {outcomes : List EventOutcome} (h : (conclude result).1 = .ok outcomes) :
    result.1 = .ok () ∧ outcomes = result.2.2.pending ∧
      (conclude result).2.2.fatal = result.2.2.fatal := by
  obtain ⟨outcome, q, core⟩ := result
  cases outcome with
  | ok done =>
    cases h
    exact ⟨rfl, rfl, rfl⟩
  | error failure => cases h

theorem conclude_error {failure : Failure} (h : (conclude result).1 = .error failure) :
    result.1 = .error failure := by
  obtain ⟨outcome, q, core⟩ := result
  cases outcome <;> cases h
  rfl

end Conclusion

end World

/-- Part of a call before a failure it passes on. While a flush runs, events are only queued, behind
those that wait, until a violation drops them. Otherwise no event and no outcome is left. -/
structure Course.Orderly (w : World σ) (t : Course σ) (f : Option Failure) (later : World σ) :
    Prop where
  running : later.1.running = w.1.running
  alive : later.fatalAfter f = none → w.2.fatal = none
  calm : w.Calm → later.Calm ∧ ∀ m ∈ t, m.2.Calm
  pending : w.1.running = true → later.2.pending = w.2.pending
  handled : w.1.running = true → handledIn t = []
  waiting : w.1.running = true → later.fatalAfter f = none →
    later.1.waiting = w.1.waiting ++ acceptedIn t
  flush : f = some TaskQueue.nestedFlush → ∃ m ∈ t, m.1 = .thrown TaskQueue.nestedFlush

namespace Course.Orderly

variable {a b c w later : World σ} {s t : Course σ} {f : Option Failure}

theorem still (hqueue : later.1 = w.1) (hpending : later.2.pending = w.2.pending)
    (halive : later.fatalAfter f = none → w.2.fatal = none)
    (ht : ∀ m ∈ t, m.2.1 = w.1 ∧ m.2.2.pending = w.2.pending ∧ m.1.accepted? = none ∧
      m.1.handled? = none)
    (hflush : f = some TaskQueue.nestedFlush → ∃ m ∈ t, m.1 = .thrown TaskQueue.nestedFlush) :
    Orderly w t f later where
  running := by rw [hqueue]
  alive := halive
  calm hcalm := by
    refine ⟨?_, fun m hm => ?_⟩
    · rwa [World.Calm, hqueue, hpending]
    · obtain ⟨hq, hp, -⟩ := ht m hm
      rwa [World.Calm, hq, hp]
  pending _ := hpending
  handled _ := List.filterMap_eq_nil_iff.2 fun m hm => (ht m hm).2.2.2
  waiting _ _ := by
    have haccepted : acceptedIn t = [] := List.filterMap_eq_nil_iff.2 fun m hm => (ht m hm).2.2.1
    rw [hqueue, haccepted, List.append_nil]
  flush := hflush

theorem refl (w : World σ) : Orderly w [] none w :=
  still rfl rfl id (List.forall_mem_nil _) nofun

theorem append (h : Orderly a s none b) (h' : Orderly b t f c) : Orderly a (s ++ t) f c where
  running := h'.running.trans h.running
  alive hc := h.alive (h'.alive hc)
  calm ha := by
    obtain ⟨hb, hs⟩ := h.calm ha
    obtain ⟨hc, ht⟩ := h'.calm hb
    exact ⟨hc, List.forall_mem_append.2 ⟨hs, ht⟩⟩
  pending ha := (h'.pending (h.running.trans ha)).trans (h.pending ha)
  handled ha := by
    rw [handledIn_append, h.handled ha, h'.handled (h.running.trans ha), List.append_nil]
  waiting ha hc := by
    have hb := h.waiting ha (h'.alive hc)
    rw [h'.waiting (h.running.trans ha) hc, hb, acceptedIn_append, List.append_assoc]
  flush hf := by
    obtain ⟨m, hm, hthrown⟩ := h'.flush hf
    exact ⟨m, List.mem_append_right _ hm, hthrown⟩

theorem abandon {failure : Failure} (h : Orderly a s (some failure) b) :
    Orderly a s none (World.abandon failure b) := by
  have hpending : (World.abandon failure b).2.pending = b.2.pending := by
    cases failure <;> simp only [World.abandon] <;> apply World.pending_escalate
  have hfatal := World.fatal_abandon failure b
  refine ⟨?_, fun hl => h.alive (hfatal ▸ hl), fun ha => ⟨fun hidle => ?_, (h.calm ha).2⟩,
    fun ha => hpending.trans (h.pending ha), h.handled, fun ha hl => ?_, fun hflush => ?_⟩
  · cases failure <;> exact h.running
  · rw [hpending]
    cases failure with
    | sandbox cause => exact ⟨TaskQueue.waiting_clear _, ((h.calm ha).1 hidle).2⟩
    | load cause | evaluation cause | action cause | defect cause => exact (h.calm ha).1 hidle
  · have hlive := hfatal.symm.trans hl
    cases failure with
    | sandbox cause => cases hlive
    | load cause | evaluation cause | action cause | defect cause => exact h.waiting ha hlive
  · cases hflush

end Course.Orderly

theorem Course.orderly_law : Course.Law (Course.Orderly (σ := σ)) where
  refl w := .refl w
  append h h' := h.append h'
  sink w sink := .still rfl rfl id (List.forall_mem_nil _) nofun
  answered w answer := .still rfl rfl id (by simp [Incident.accepted?, Incident.handled?]) nofun
  shown w lines patches tree _ :=
    .still rfl rfl id (by simp [Incident.accepted?, Incident.handled?, Core.write]) nofun
  thrown w failure := by
    refine .still rfl rfl (fun hl => ?_) (by simp [Incident.accepted?, Incident.handled?]) fun hf => ?_
    · cases failure with
      | sandbox cause => cases hl
      | load cause | evaluation cause | action cause | defect cause => exact hl
    · exact ⟨_, List.mem_cons_self, by rw [Option.some.inj hf]⟩
  revise w change hlive hoffers := by
    have hpending := (w.2.revise_keeps change).2
    have hflush := Core.revise_ne_nestedFlush hoffers
    generalize w.2.revise change = result at hpending hflush ⊢
    obtain ⟨outcome, core⟩ := result
    refine .still rfl hpending (fun _ => hlive) (fun m hm => ?_) fun hf => ?_
    · unfold World.reviseCourse at hm
      split at hm
      · rename_i heq
        cases heq
        obtain rfl := List.mem_singleton.1 hm
        exact ⟨rfl, hpending, rfl, rfl⟩
      · cases hm
    · cases outcome with
      | ok revised => cases hf
      | error failure => exact absurd (congrArg Except.error (Option.some.inj hf)) hflush
  abandon h := h.abandon

structure Course.Handles (request : Request) (w : World σ) (t : Course σ)
    (outcome : Except Failure Unit) (later : World σ) : Prop where
  running : later.1.running = true
  calm : ∀ m ∈ t, m.2.Calm
  pending : later.2.pending = w.2.pending ++ handledIn t
  handled : (handledIn t).map EventOutcome.request = if outcome = .ok () then [request] else []
  waiting : outcome = .ok () → later.2.fatal = none → later.1.waiting = w.1.waiting ++ acceptedIn t
  flush : outcome = .error TaskQueue.nestedFlush → ∃ m ∈ t, m.1 = .thrown TaskQueue.nestedFlush

/-- Part of a flush that handles the events that wait. Those it handles are the first of those that
waited and those that were queued meanwhile, and all of them if nothing fails. -/
structure Course.Serves (w : World σ) (t : Course σ) (outcome : Except Failure Unit) (later : World σ) :
    Prop where
  running : later.1.running = true
  calm : ∀ m ∈ t, m.2.Calm
  pending : later.2.pending = w.2.pending ++ handledIn t
  served : (handledIn t).map EventOutcome.request <+: w.1.waiting ++ acceptedIn t
  emptied : outcome = .ok () → later.1.waiting = []
  complete : outcome = .ok () → later.2.fatal = none →
    (handledIn t).map EventOutcome.request = w.1.waiting ++ acceptedIn t
  flush : outcome = .error TaskQueue.nestedFlush → ∃ m ∈ t, m.1 = .thrown TaskQueue.nestedFlush

section Requests

variable {request : Request} {w mid later : World σ} {body : Course σ}

theorem Course.Orderly.handles_error {failure : Failure} (h : Orderly w body (some failure) later)
    (hrunning : w.1.running = true) : Handles request w body (.error failure) later where
  running := h.running.trans hrunning
  calm := (h.calm (World.calm_of_running hrunning)).2
  pending := by rw [h.handled hrunning, List.append_nil, h.pending hrunning]
  handled := by simp [h.handled hrunning]
  waiting := nofun
  flush hf := h.flush (congrArg some (Except.error.inj hf))

theorem Course.Orderly.handles {result : EventResult} (h : Orderly w body none mid)
    (hrunning : w.1.running = true) (hqueue : later.1 = mid.1) (hfatal : later.2.fatal = mid.2.fatal)
    (hpending : later.2.pending = mid.2.pending ++ [⟨request, result⟩]) :
    Handles request w (body ++ [(.handled ⟨request, result⟩, later)]) (.ok ()) later := by
  have hmid := h.running.trans hrunning
  have hlater : later.1.running = true := hqueue ▸ hmid
  have hhandled : handledIn (body ++ [(.handled ⟨request, result⟩, later)]) = [⟨request, result⟩] := by
    rw [handledIn_append, h.handled hrunning]
    rfl
  have haccepted : acceptedIn (body ++ [(.handled ⟨request, result⟩, later)]) = acceptedIn body := by
    rw [acceptedIn_append]
    exact List.append_nil _
  refine ⟨hlater, fun m hm => ?_, ?_, ?_, fun _ hl => ?_, nofun⟩
  · rcases List.mem_append.1 hm with hm | hm
    · exact (h.calm (World.calm_of_running hrunning)).2 m hm
    · obtain rfl := List.mem_singleton.1 hm
      exact World.calm_of_running hlater
  · rw [hpending, hhandled, h.pending hrunning]
  · rw [hhandled]
    rfl
  · rw [hqueue, haccepted]
    exact h.waiting hrunning (hfatal.symm.trans hl)

theorem Course.Serves.nothing (hrunning : w.1.running = true) (hempty : w.1.waiting = []) :
    Serves w [] (.ok ()) w := by
  refine ⟨hrunning, List.forall_mem_nil _, (List.append_nil _).symm, List.nil_prefix, fun _ => hempty,
    fun _ _ => ?_, nofun⟩
  rw [hempty]
  rfl

theorem Course.Handles.append {outcome : Except Failure Unit} {rest : Course σ} {before : World σ}
    (h : Handles request w body (.ok ()) mid) (hrest : Serves mid rest outcome later)
    (hsettles : Settles mid rest (failureOf outcome) later) (hspent : mid.Spent)
    (hwaiting : before.1.waiting = request :: w.1.waiting)
    (hpending : before.2.pending = w.2.pending) : Serves before (body ++ rest) outcome later := by
  have hhandled : (handledIn (body ++ rest)).map EventOutcome.request =
      request :: (handledIn rest).map EventOutcome.request := by
    rw [handledIn_append, List.map_append, h.handled, if_pos rfl]
    rfl
  have hqueued (hmid : mid.2.fatal = none) : before.1.waiting ++ acceptedIn (body ++ rest) =
      request :: (mid.1.waiting ++ acceptedIn rest) := by
    rw [h.waiting rfl hmid, hwaiting, acceptedIn_append, List.cons_append, List.append_assoc]
  refine ⟨hrest.running, List.forall_mem_append.2 ⟨h.calm, hrest.calm⟩, ?_, ?_, hrest.emptied,
    fun hok hlive => ?_, fun hf => ?_⟩
  · rw [hrest.pending, h.pending, hpending, handledIn_append, List.append_assoc]
  · have hserved := hrest.served
    rw [hhandled]
    -- a violation drops what waits, and from then on nothing is accepted either
    by_cases hmid : mid.2.fatal = none
    · rw [hqueued hmid]
      exact List.cons_prefix_cons.2 ⟨rfl, hserved⟩
    · rw [hspent hmid, hsettles.accepted_of_ended hmid, List.append_nil, List.prefix_nil] at hserved
      rw [hserved, hwaiting]
      exact List.cons_prefix_cons.2 ⟨rfl, List.nil_prefix⟩
  · rw [hok] at hsettles
    have hmid := hsettles.alive hlive
    rw [hhandled, hqueued hmid, hrest.complete hok hlive]
  · obtain ⟨m, hm, hthrown⟩ := hrest.flush hf
    exact ⟨m, List.mem_append_right _ hm, hthrown⟩

end Requests

namespace World

variable {calls : Calls σ} {inside : Courses σ} (r : Renderer σ)

theorem runRequest_handles (hcalls : calls.Obey Course.Orderly inside) (request : Request)
    (world : World σ) (hlive : world.2.fatal = none) (hrunning : world.1.running = true) :
    Course.Handles request world (requestCourse calls inside r request world)
      (runRequest calls r request world).1 (runRequest calls r request world).2 := by
  cases hresponse : responseTo world.2 request with
  | error reason =>
    rw [requestCourse_of_ignored hresponse, runRequest_of_ignored hresponse]
    exact (Course.Orderly.refl world).handles hrunning rfl rfl rfl
  | ok change =>
    rw [requestCourse_of_response hresponse, runRequest_of_response hresponse]
    have hall := perform_law Course.orderly_law hcalls r world hlive (offers_of_responseTo hresponse)
    generalize perform calls r change world = result at hall ⊢
    obtain ⟨outcome, later⟩ := result
    cases outcome with
    | ok execution => exact hall.handles hrunning rfl rfl rfl
    | error failure =>
      cases failure with
      | action cause =>
        -- the error of a failed action is its outcome
        have hbody : Course.Orderly world _ none later :=
          ⟨hall.running, hall.alive, hall.calm, hall.pending, hall.handled, hall.waiting, nofun⟩
        exact hbody.handles hrunning rfl rfl rfl
      | sandbox cause | load cause | evaluation cause | defect cause =>
        exact (List.append_nil (performCourse calls inside r change world)).symm ▸
          hall.handles_error hrunning

variable (hsettle : calls.Obey Course.Settles inside) (hcalls : calls.Obey Course.Orderly inside)

include hsettle hcalls

theorem drain_serves (budget : Nat) (world : World σ) (hspent : world.Spent)
    (hrunning : world.1.running = true) :
    Course.Serves world (drainCourse calls inside r budget world)
      (TaskQueue.drain (runRequest calls r) budget world).1
      (TaskQueue.drain (runRequest calls r) budget world).2 := by
  induction budget generalizing world with
  | zero =>
    obtain ⟨q, core⟩ := world
    rw [TaskQueue.drain, drainCourse]
    cases hnext : q.next? with
    | none => exact .nothing hrunning (TaskQueue.next?_eq_none hnext)
    | some next =>
      refine ⟨hrunning, List.forall_mem_nil _, (List.append_nil _).symm, List.nil_prefix, fun hok => ?_,
        fun hok => ?_, fun hflush => ?_⟩
      · cases hok
      · cases hok
      · cases hflush
  | succ budget ih =>
    obtain ⟨q, core⟩ := world
    rw [TaskQueue.drain, drainCourse]
    cases hnext : q.next? with
    | none => exact .nothing hrunning (TaskQueue.next?_eq_none hnext)
    | some next =>
      obtain ⟨request, started⟩ := next
      obtain ⟨hwaiting, hstarted, -, -⟩ := TaskQueue.next?_eq_some hnext
      -- An application that has ended has no event to take.
      have hlive : core.fatal = none := by
        by_contra hdead
        rw [hspent hdead] at hwaiting
        cases hwaiting
      have hhandles := runRequest_handles r hcalls request (started, core) hlive
        (hstarted.trans hrunning)
      have hsettles := runRequest_settles r hsettle request (started, core) hlive
      dsimp only at hhandles hsettles ⊢
      generalize runRequest calls r request (started, core) = result at hhandles hsettles ⊢
      generalize requestCourse calls inside r request (started, core) = first at hhandles hsettles ⊢
      obtain ⟨outcome, mid⟩ := result
      cases outcome with
      | error failure =>
        rw [List.append_nil]
        have hnone : handledIn first = [] := by simpa using hhandles.handled
        refine ⟨hhandles.running, hhandles.calm, hhandles.pending, ?_, fun hok => ?_, fun hok => ?_,
          hhandles.flush⟩
        · rw [hnone]
          exact List.nil_prefix
        · cases hok
        · cases hok
      | ok done =>
        have hmid : mid.Spent := hsettles.spent (spent_of_live hlive)
        exact hhandles.append (ih mid hmid hhandles.running) (drain_settles r hsettle budget mid hmid)
          hmid hwaiting rfl

end World

/-- A dispatch that starts a flush: it leaves nothing behind, handles only events that are accepted since
it began, its own first, and if it returns it reports those, all of them unless the application ended. -/
structure World.Delivers (request : Request) (course : Course σ)
    (answer : Except Failure (List EventOutcome)) (later : World σ) : Prop where
  idle : later.1.running = false
  waiting : later.1.waiting = []
  pending : later.2.pending = []
  first : (acceptedIn course).head? = some request
  served : (handledIn course).map EventOutcome.request <+: acceptedIn course
  reported : ∀ outcomes, answer = .ok outcomes → outcomes = handledIn course
  complete : ∀ outcomes, answer = .ok outcomes → later.2.fatal = none →
    outcomes.map EventOutcome.request = acceptedIn course
  flush : answer = .error TaskQueue.nestedFlush → ∃ m ∈ course, m.1 = .thrown TaskQueue.nestedFlush

namespace World

section Deliveries

variable {calls : Calls σ} {inside : Courses σ} (hsettle : calls.Obey Course.Settles inside)
  (hcalls : calls.Obey Course.Orderly inside) (r : Renderer σ) (request : Request) (world : World σ)

include hsettle hcalls

theorem flush_serves (hlive : world.2.fatal = none) :
    Course.Serves ((world.1.enqueue request).begin, world.2)
      (drainCourse calls inside r (world.1.enqueue request).limit.most.toNat
        ((world.1.enqueue request).begin, world.2))
      (TaskQueue.drain (runRequest calls r) (world.1.enqueue request).limit.most.toNat
        ((world.1.enqueue request).begin, world.2)).1
      (TaskQueue.drain (runRequest calls r) (world.1.enqueue request).limit.most.toNat
        ((world.1.enqueue request).begin, world.2)).2 :=
  drain_serves r hsettle hcalls _ _ (spent_of_live hlive) rfl

theorem dispatchWith_delivers (hlive : world.2.fatal = none) (hidle : world.1.running = false)
    (hcalm : world.Calm) :
    Delivers request (dispatchCourse calls inside r request world)
      (dispatchWith calls r request world).1 (dispatchWith calls r request world).2 := by
  have hserves := flush_serves hsettle hcalls r request world hlive
  obtain ⟨hempty, hpending⟩ := hcalm hidle
  rw [dispatchWith_of_idle calls r request hlive hidle,
    dispatchCourse_of_idle calls inside r request hlive hidle]
  generalize TaskQueue.drain _ _ _ = result at hserves ⊢
  generalize drainCourse _ _ _ _ _ = course at hserves ⊢
  -- Nothing waited before, so the flush starts with this event alone.
  have hwaiting : ((world.1.enqueue request).begin.waiting ++ acceptedIn course) =
      acceptedIn ((.accepted request, world) :: course) := by
    have hq : (world.1.enqueue request).begin.waiting = [request] := by
      change (world.1.enqueue request).waiting = [request]
      rw [TaskQueue.waiting_enqueue, hempty, List.nil_append]
    rw [hq]
    rfl
  have hall : result.2.2.pending = handledIn ((.accepted request, world) :: course) := by
    rw [hserves.pending, hpending, List.nil_append]
    rfl
  have hserved := hserves.served
  have hcomplete := hserves.complete
  dsimp only at hserved hcomplete
  rw [hwaiting] at hserved hcomplete
  refine ⟨running_conclude result, waiting_conclude result hserves.emptied, pending_conclude result, rfl,
    hserved, fun outcomes hok => ?_, fun outcomes hok hl => ?_, fun hf => ?_⟩
  · obtain ⟨-, hpendings, -⟩ := conclude_ok hok
    rw [hpendings, hall]
  · obtain ⟨hdone, hpendings, hfatal⟩ := conclude_ok hok
    rw [hpendings, hall]
    exact hcomplete hdone (hfatal.symm.trans hl)
  · obtain ⟨m, hm, hthrown⟩ := hserves.flush (conclude_error hf)
    exact ⟨m, List.mem_cons_of_mem _ hm, hthrown⟩

theorem dispatchWith_orderly :
    Course.Orderly world (dispatchCourse calls inside r request world) none
      (dispatchWith calls r request world).2 := by
  cases hlive : world.2.fatal with
  | some cause =>
    rw [dispatchCourse, dispatchWith, hlive]
    exact .refl world
  | none =>
    cases hrunning : world.1.running with
    | true =>
      have hqueued : (world.1.enqueue request).running = true := hrunning
      rw [dispatchWith_of_running calls r request hlive hrunning,
        dispatchCourse_of_running calls inside r request hlive hrunning]
      refine ⟨rfl, id, fun hcalm => ⟨calm_of_running hqueued, List.forall_mem_singleton.2 hcalm⟩,
        fun _ => rfl, fun _ => rfl, fun _ _ => ?_, fun hflush => ?_⟩
      · exact TaskQueue.waiting_enqueue _ _
      · cases hflush
    | false =>
      have hserves := flush_serves hsettle hcalls r request world hlive
      rw [dispatchWith_of_idle calls r request hlive hrunning,
        dispatchCourse_of_idle calls inside r request hlive hrunning]
      have hidle : ¬world.1.running = true := by simp [hrunning]
      refine ⟨(running_conclude _).trans hrunning.symm, fun _ => hlive, fun hcalm => ⟨fun _ => ?_, ?_⟩,
        fun h => absurd h hidle, fun h => absurd h hidle, fun h => absurd h hidle, fun hflush => ?_⟩
      · exact ⟨waiting_conclude _ hserves.emptied, pending_conclude _⟩
      · exact List.forall_mem_cons.2 ⟨hcalm, hserves.calm⟩
      · cases hflush

end Deliveries

theorem Delivers.closed {request : Request} {course : Course σ}
    {result : Except Failure (List EventOutcome) × World σ}
    (h : Delivers request course result.1 result.2) :
    Delivers request (World.closed .dispatched course result) result.1 result.2 := by
  have haccepted : acceptedIn (World.closed .dispatched course result) = acceptedIn course := by
    rw [World.closed, acceptedIn_append]
    exact List.append_nil _
  have hhandled : handledIn (World.closed .dispatched course result) = handledIn course := by
    rw [World.closed, handledIn_append]
    exact List.append_nil _
  refine ⟨h.idle, h.waiting, h.pending, ?_, ?_, ?_, ?_, fun hf => ?_⟩
  · rw [haccepted]
    exact h.first
  · rw [hhandled, haccepted]
    exact h.served
  · rw [hhandled]
    exact h.reported
  · rw [haccepted]
    exact h.complete
  · obtain ⟨m, hm, hthrown⟩ := h.flush hf
    exact ⟨m, List.mem_append_left _ hm, hthrown⟩

theorem calls_orderly (r : Renderer σ) (depth : Nat) :
    (calls r depth).Obey Course.Orderly (courses r depth) :=
  calls_obey Course.orderly_law r
    (fun depth hinside => dispatchWith_orderly (calls_settle r depth) hinside r) depth

/-- Whenever no flush runs, between calls and inside them, no event waits and no outcome is left. A
dispatch while a flush runs only queues its event. Any other handles its own event, then those that are
accepted meanwhile, and leaves nothing behind. -/
theorem run_delivers {app : Application} {limits : Limits} {r : Renderer σ} {sink : σ} {start : World σ}
    (hstart : (Launch.start app limits r sink).outcome = .ok start) (depth : Nat) (cs : List Call) :
    ((run r depth start cs).1.running = false ∧ (run r depth start cs).1.waiting = [] ∧
      (run r depth start cs).2.pending = []) ∧
    (∀ m ∈ runCourse r depth start cs, m.2.Calm) ∧
    ∀ world : World σ, world.Calm → world.2.fatal = none → ∀ (inner : Nat) (request : Request),
      (world.1.running = true → (calls r (inner + 1)).dispatch request world =
        (.ok [], (world.1.enqueue request, world.2))) ∧
      (world.1.running = false →
        Delivers request ((courses r (inner + 1)).dispatch request world)
          ((calls r (inner + 1)).dispatch request world).1
          ((calls r (inner + 1)).dispatch request world).2) := by
  obtain ⟨hqueue, hlive⟩ := Launch.fresh_of_start hstart
  obtain ⟨-, -, -, -, -, -, -, -, -, hpending⟩ := Launch.start_ok hstart
  have hidle : start.1.running = false := by rw [hqueue]
  have hcalm : start.Calm := fun _ => ⟨by rw [hqueue]; rfl, hpending⟩
  have horderly := run_obeys Course.orderly_law (calls_orderly r depth) start cs
  obtain ⟨hend, hcourse⟩ := horderly.calm hcalm
  have hrunning := horderly.running.trans hidle
  refine ⟨⟨hrunning, hend hrunning⟩, hcourse, fun world hworld halive inner request => ⟨?_, ?_⟩⟩
  · exact dispatchWith_of_running (calls r inner) r request halive
  · intro hrest
    exact (dispatchWith_delivers (calls_settle r inner) (calls_orderly r inner) r request world halive
      hrest hworld).closed

end World

end ReactiveView
