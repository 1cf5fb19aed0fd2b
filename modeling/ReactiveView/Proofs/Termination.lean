import ReactiveView.Proofs.Course

namespace ReactiveView

variable {σ : Type}

def Incident.Quiet : Incident → Prop
  | .thrown _ | .handled _ | .answered _ => True
  | .accepted _ | .violated _ | .shown .. => False

structure Core.Frozen (core later : Core σ) : Prop where
  store : later.store = core.store
  tree : later.tree = core.tree

theorem Core.Frozen.refl (core : Core σ) : core.Frozen core := ⟨rfl, rfl⟩

theorem Core.Frozen.trans {a b c : Core σ} (h : a.Frozen b) (h' : b.Frozen c) : a.Frozen c :=
  ⟨h'.store.trans h.store, h'.tree.trans h.tree⟩

/-- What happens later is quiet and finds state and view unchanged. -/
def Core.Still (core : Core σ) (m : Incident × World σ) : Prop := m.1.Quiet ∧ core.Frozen m.2.2

namespace World

/-- Violation that has ended an application as soon as a failure in flight is taken note of. -/
def fatalAfter (world : World σ) : Option Failure → Option SandboxError
  | some (.sandbox cause) => some cause
  | _ => world.2.fatal

def Spent (world : World σ) : Prop := world.2.fatal ≠ none → world.1.waiting = []

theorem spent_of_live {world : World σ} (h : world.2.fatal = none) : world.Spent :=
  fun hf => absurd h hf

end World

/-- The last violation on a course ends the application. From the first one on, all is still. -/
structure Course.Settles (w : World σ) (t : Course σ) (f : Option Failure) (later : World σ) :
    Prop where
  fatal : later.fatalAfter f = (causesIn t).getLast?.or w.2.fatal
  spent : w.Spent → later.Spent
  ended : w.2.fatal ≠ none → (∀ m ∈ t, w.2.Still m) ∧ w.2.Frozen later.2
  after : t.Pairwise fun m n => m.1.cause? ≠ none → m.2.2.Still n
  frozen : ∀ m ∈ t, m.1.cause? ≠ none → m.2.2.Frozen later.2

namespace Course.Settles

variable {a b c later : World σ} {s t : Course σ} {f : Option Failure}

theorem refl (w : World σ) (hf : w.fatalAfter f = w.2.fatal) : Settles w [] f w :=
  ⟨hf, id, fun _ => ⟨List.forall_mem_nil _, .refl _⟩, .nil, List.forall_mem_nil _⟩

theorem fatal_ne_none (h : Settles a s none b) {m : Incident × World σ} (hm : m ∈ s)
    (hc : m.1.cause? ≠ none) : b.2.fatal ≠ none := by
  obtain ⟨cause, hcause⟩ := Option.ne_none_iff_exists'.1 hc
  have hmem : cause ∈ causesIn s := List.mem_filterMap.2 ⟨m, hm, hcause⟩
  have hfatal : b.2.fatal = (causesIn s).getLast?.or a.2.fatal := h.fatal
  rw [hfatal]
  simp [List.ne_nil_of_mem hmem]

theorem alive (h : Settles a s none b) (hb : b.2.fatal = none) : a.2.fatal = none :=
  (Option.or_eq_none_iff.1 (h.fatal.symm.trans hb)).2

theorem accepted_of_ended (h : Settles a s f b) (ha : a.2.fatal ≠ none) : acceptedIn s = [] := by
  refine List.filterMap_eq_nil_iff.2 fun m hm => ?_
  obtain ⟨i, w⟩ := m
  have hquiet : i.Quiet := ((h.ended ha).1 _ hm).1
  cases i with
  | accepted request => cases hquiet
  | violated cause | shown patches tree | thrown failure | handled outcome | answered answer => rfl

theorem append (h : Settles a s none b) (h' : Settles b t f c) : Settles a (s ++ t) f c := by
  have hb : b.2.fatal = (causesIn s).getLast?.or a.2.fatal := h.fatal
  refine ⟨?_, fun ha => h'.spent (h.spent ha), fun ha => ?_, ?_, fun m hm hc => ?_⟩
  · rw [h'.fatal, hb, causesIn_append, List.getLast?_append, Option.or_assoc]
  · have hb' : b.2.fatal ≠ none := fun hn => ha (h.alive hn)
    obtain ⟨hs, hab⟩ := h.ended ha
    obtain ⟨ht, hbc⟩ := h'.ended hb'
    exact ⟨List.forall_mem_append.2 ⟨hs, fun m hm => ⟨(ht m hm).1, hab.trans (ht m hm).2⟩⟩,
      hab.trans hbc⟩
  · refine List.pairwise_append.2 ⟨h.after, h'.after, fun m hm n hn hc => ?_⟩
    obtain ⟨ht, -⟩ := h'.ended (h.fatal_ne_none hm hc)
    exact ⟨(ht n hn).1, (h.frozen m hm hc).trans (ht n hn).2⟩
  · rcases List.mem_append.1 hm with hm | hm
    · exact (h.frozen m hm hc).trans (h'.ended (h.fatal_ne_none hm hc)).2
    · exact h'.frozen m hm hc

theorem single {i : Incident} (hcause : i.cause? = none) (hfatal : later.fatalAfter f = a.2.fatal)
    (hspent : a.Spent → later.Spent) (hfrozen : a.2.Frozen later.2)
    (hquiet : a.2.fatal ≠ none → i.Quiet) : Settles a [(i, later)] f later where
  fatal := by
    have hnone : causesIn [(i, later)] = [] := by simp [causesIn, hcause]
    rw [hnone]
    exact hfatal
  spent := hspent
  ended ha := ⟨List.forall_mem_singleton.2 ⟨hquiet ha, hfrozen⟩, hfrozen⟩
  after := List.pairwise_singleton _ _
  frozen := List.forall_mem_singleton.2 fun hc => absurd hcause hc

theorem violation {i : Incident} {cause : SandboxError} (hcause : i.cause? = some cause)
    (hquiet : w.2.fatal ≠ none → i.Quiet ∧ w.2.Frozen later.2) (hspent : w.Spent → later.Spent) :
    Settles w [(i, later)] (some (.sandbox cause)) later where
  fatal := by
    have hsome : causesIn [(i, later)] = [cause] := by simp [causesIn, hcause]
    rw [hsome]
    rfl
  spent := hspent
  ended hw := ⟨List.forall_mem_singleton.2 (hquiet hw), (hquiet hw).2⟩
  after := List.pairwise_singleton _ _
  frozen := List.forall_mem_singleton.2 fun _ => .refl _

theorem close (h : Settles a s f b) (hfatal : later.2.fatal = b.fatalAfter f)
    (hspent : b.Spent → later.Spent) (hfrozen : b.2.Frozen later.2) : Settles a s none later where
  fatal := hfatal.trans h.fatal
  spent ha := hspent (h.spent ha)
  ended ha := ⟨(h.ended ha).1, (h.ended ha).2.trans hfrozen⟩
  after := h.after
  frozen m hm hc := (h.frozen m hm hc).trans hfrozen

theorem of_core (h : Settles b s f c) (hcore : b.2 = a.2) (hspent : a.Spent → b.Spent) :
    Settles a s f c := by
  obtain ⟨hfatal, hspent', hended, hafter, hfrozen⟩ := h
  rw [hcore] at hfatal hended
  exact ⟨hfatal, fun ha => hspent' (hspent ha), hended, hafter, hfrozen⟩

end Course.Settles

namespace World

theorem fatal_escalate {world : World σ} (failure : Failure) (dropped : Nat) :
    (escalate failure dropped world.2).fatal = world.fatalAfter (some failure) := by
  have h := (Core.alike_escalate (α := Unit) failure dropped world.2).fatal
  rw [h]
  cases failure <;> rfl

theorem frozen_escalate (failure : Failure) (dropped : Nat) (core : Core σ) :
    core.Frozen (escalate failure dropped core) := by
  have h := Core.alike_escalate (α := Unit) failure dropped core
  exact ⟨by rw [h.store, Core.struck_store], by rw [h.tree, Core.struck_tree]⟩

theorem spent_clear (q : TaskQueue Request) (core : Core σ) : Spent (q.clear, core) :=
  fun _ => TaskQueue.waiting_clear q

theorem frozen_abandon (failure : Failure) (world : World σ) :
    world.2.Frozen (abandon failure world).2 := by
  cases failure <;> simp only [abandon] <;> apply frozen_escalate

theorem fatal_abandon (failure : Failure) (world : World σ) :
    (abandon failure world).2.fatal = world.fatalAfter (some failure) := by
  cases failure <;> simp only [abandon] <;> apply fatal_escalate

theorem settles_conclude {a : World σ} {s : Course σ} {result : Except Failure Unit × World σ}
    (h : Course.Settles a s (failureOf result.1) result.2) :
    Course.Settles a s none (conclude result).2 := by
  obtain ⟨outcome, q, core⟩ := result
  cases outcome with
  | ok done =>
    exact h.close rfl (fun hs hdead => (TaskQueue.waiting_finish q).trans (hs hdead)) ⟨rfl, rfl⟩
  | error failure =>
    let left : World σ := (q, { core with pending := [] })
    have hleft : left.fatalAfter (some failure) = fatalAfter (q, core) (some failure) := by
      cases failure <;> rfl
    have hfrozen := frozen_escalate failure q.finish.queueLength left.2
    exact h.close ((fatal_escalate failure _).trans hleft) (fun _ => spent_clear _ _)
      ⟨hfrozen.1, hfrozen.2⟩

theorem settles_abandon {a b : World σ} {s : Course σ} {failure : Failure}
    (h : Course.Settles a s (some failure) b) : Course.Settles a s none (abandon failure b) := by
  refine h.close (fatal_abandon failure b) (fun hspent => ?_) (frozen_abandon failure b)
  cases failure with
  | sandbox cause => exact spent_clear _ _
  | load cause | evaluation cause | action cause | defect cause => exact hspent

end World

theorem Course.settles_law : Course.Law (Course.Settles (σ := σ)) where
  refl w := .refl w rfl
  append h h' := h.append h'
  sink w sink := (Settles.refl w rfl : Settles w [] none w).close rfl id ⟨rfl, rfl⟩
  answered w answer := .single rfl rfl id (.refl _) fun _ => trivial
  shown w lines patches tree hlive :=
    .single rfl rfl id ⟨rfl, rfl⟩ fun hdead => absurd hlive hdead
  thrown w failure := by
    cases failure with
    | sandbox cause => exact .violation rfl (fun _ => ⟨trivial, .refl _⟩) id
    | load cause | evaluation cause | action cause | defect cause =>
      exact .single rfl rfl id (.refl _) fun _ => trivial
  revise w change hlive _ := by
    have hfatal := (w.2.revise_keeps change).1.trans hlive
    generalize w.2.revise change = result at hfatal ⊢
    obtain ⟨outcome, core⟩ := result
    have hspent : w.Spent → World.Spent (w.1, core) := fun _ => World.spent_of_live hfatal
    have hquiet : ∀ f, World.fatalAfter (w.1, core) f = none → Settles w [] f (w.1, core) :=
      fun f hf => ⟨hf.trans hlive.symm, hspent, fun hdead => absurd hlive hdead, .nil,
        List.forall_mem_nil _⟩
    cases outcome with
    | ok revised => exact hquiet _ hfatal
    | error failure =>
      cases failure with
      | sandbox cause => exact .violation rfl (fun hdead => absurd hlive hdead) hspent
      | load cause | evaluation cause | action cause | defect cause => exact hquiet _ hfatal
  abandon h := World.settles_abandon h

namespace World

variable (r : Renderer σ)

section Flushes

variable {calls : Calls σ} {inside : Courses σ} (hcalls : calls.Obey Course.Settles inside)

include hcalls

theorem runRequest_settles (request : Request) (world : World σ) (hlive : world.2.fatal = none) :
    Course.Settles world (requestCourse calls inside r request world)
      (failureOf (runRequest calls r request world).1) (runRequest calls r request world).2 := by
  have hreport (w : World σ) (outcome : EventOutcome) :
      Course.Settles w [(.handled outcome, (w.1, w.2.report outcome))] none
        (w.1, w.2.report outcome) := .single rfl rfl id ⟨rfl, rfl⟩ fun _ => trivial
  cases hresponse : responseTo world.2 request with
  | error reason =>
    rw [requestCourse_of_ignored hresponse, runRequest_of_ignored hresponse]
    exact hreport world _
  | ok change =>
    rw [requestCourse_of_response hresponse, runRequest_of_response hresponse]
    have hall := perform_law Course.settles_law hcalls r world hlive (offers_of_responseTo hresponse)
    generalize perform calls r change world = result at hall ⊢
    obtain ⟨outcome, later⟩ := result
    cases outcome with
    | ok execution => exact hall.append (hreport later _)
    | error failure =>
      cases failure with
      | action cause =>
        -- a failed action leaves the application running
        have hwarned : Course.Settles world _ none
            (later.1, later.2.write [⟨.warn, [cause.message]⟩]) := hall.close rfl id ⟨rfl, rfl⟩
        exact hwarned.append (hreport _ _)
      | sandbox cause | load cause | evaluation cause | defect cause =>
        exact (List.append_nil (performCourse calls inside r change world)).symm ▸ hall

/-- An application that has ended has no events left, so a flush starts events only while it runs. -/
theorem drain_settles (budget : Nat) (world : World σ) (hspent : world.Spent) :
    Course.Settles world (drainCourse calls inside r budget world)
      (failureOf (TaskQueue.drain (runRequest calls r) budget world).1)
      (TaskQueue.drain (runRequest calls r) budget world).2 := by
  induction budget generalizing world with
  | zero =>
    obtain ⟨q, core⟩ := world
    rw [TaskQueue.drain, drainCourse]
    cases q.next? with
    | none => exact .refl _ rfl
    | some next => exact .refl _ rfl
  | succ budget ih =>
    obtain ⟨q, core⟩ := world
    rw [TaskQueue.drain, drainCourse]
    cases hnext : q.next? with
    | none => exact .refl _ rfl
    | some next =>
      obtain ⟨request, started⟩ := next
      have hwaiting := (TaskQueue.next?_eq_some hnext).1
      -- There is an event, so the application has not ended.
      have hlive : core.fatal = none := by
        by_contra hdead
        rw [hspent hdead] at hwaiting
        cases hwaiting
      have hrun : Course.Settles (q, core) (requestCourse calls inside r request (started, core)) _ _ :=
        (runRequest_settles r hcalls request (started, core) hlive).of_core rfl
          fun _ => spent_of_live hlive
      dsimp only
      generalize runRequest calls r request (started, core) = result at hrun ⊢
      obtain ⟨outcome, later⟩ := result
      cases outcome with
      | error failure =>
        rw [List.append_nil]
        exact hrun
      | ok done => exact hrun.append (ih later (hrun.spent hspent))

theorem dispatchWith_settles (request : Request) (world : World σ) :
    Course.Settles world (dispatchCourse calls inside r request world) none
      (dispatchWith calls r request world).2 := by
  cases hlive : world.2.fatal with
  | some cause =>
    rw [dispatchCourse, dispatchWith, hlive]
    exact .refl _ rfl
  | none =>
    have haccepted : Course.Settles world [(.accepted request, world)] none world :=
      .single rfl rfl id (.refl _) fun hdead => absurd hlive hdead
    cases hrunning : world.1.running with
    | true =>
      rw [dispatchWith_of_running calls r request hlive hrunning,
        dispatchCourse_of_running calls inside r request hlive hrunning]
      exact haccepted.close rfl (fun _ => spent_of_live hlive) (.refl _)
    | false =>
      rw [dispatchWith_of_idle calls r request hlive hrunning,
        dispatchCourse_of_idle calls inside r request hlive hrunning]
      have hdrain := drain_settles r hcalls (world.1.enqueue request).limit.most.toNat
        ((world.1.enqueue request).begin, world.2) (spent_of_live hlive)
      exact haccepted.append
        (settles_conclude (hdrain.of_core (a := world) rfl fun _ => spent_of_live hlive))

end Flushes

theorem calls_settle (depth : Nat) :
    (calls r depth).Obey Course.Settles (courses r depth) :=
  calls_obey Course.settles_law r (fun _ hinside => dispatchWith_settles r hinside) depth

theorem run_settles (depth : Nat) (world : World σ) (cs : List Call) :
    Course.Settles world (runCourse r depth world cs) none (run r depth world cs) :=
  run_obeys Course.settles_law (calls_settle r depth) world cs

end World

theorem Incident.eq_thrown_of_quiet {i : Incident} {cause : SandboxError} (hquiet : i.Quiet)
    (hcause : i.cause? = some cause) : i = .thrown (.sandbox cause) := by
  cases i with
  | thrown failure =>
    cases failure with
    | sandbox other => rw [Option.some.inj hcause]
    | load other | evaluation other | action other | defect other => cases hcause
  | accepted request | violated other | shown patches tree => cases hquiet
  | handled outcome | answered answer => cases hcause

theorem Launch.fresh_of_start {app : Application} {limits : Limits} {r : Renderer σ} {sink : σ}
    {world : World σ} (h : (Launch.start app limits r sink).outcome = .ok world) :
    world.1 = { limit := limits.flushDepth } ∧ world.2.fatal = none := by
  rw [Launch.start] at h
  split at h
  · cases h
  · dsimp only at h
    split at h
    · cases h
    · split at h
      · cases h
      · cases h
        exact ⟨rfl, rfl⟩

namespace World

section Ended

variable {world : World σ} {cause : SandboxError} (r : Renderer σ) (depth : Nat)
  (hfatal : world.2.fatal = some cause)

include hfatal

theorem execute_of_fatal (name : String) :
    (calls r (depth + 1)).execute name world = (.error (.sandbox cause), world) := by
  change executeWith (calls r depth) r name world = _
  rw [executeWith, hfatal]

theorem dispatch_of_fatal (request : Request) :
    (calls r (depth + 1)).dispatch request world = (.error (.sandbox cause), world) := by
  change dispatchWith (calls r depth) r request world = _
  rw [dispatchWith, hfatal]

theorem after_of_fatal (call : Call) : world.after r (depth + 1) call = world := by
  cases call with
  | execute name => exact congrArg Prod.snd (execute_of_fatal r depth hfatal name)
  | dispatch request => exact congrArg Prod.snd (dispatch_of_fatal r depth hfatal request)
  | value name | state | tree | fatal | memory => rfl

theorem courseOf_of_fatal (call : Call) :
    ∀ m ∈ courseOf r (depth + 1) world call, m = (.answered (.error (.sandbox cause)), world) := by
  cases call with
  | execute name =>
    have hcourse : executeCourse (calls r depth) (courses r depth) r name world = [] := by
      rw [executeCourse, hfatal]
    have hanswer := execute_of_fatal r depth hfatal name
    simp only [courseOf, courses, closed, hcourse, hanswer]
    exact List.forall_mem_singleton.2 rfl
  | dispatch request =>
    have hcourse : dispatchCourse (calls r depth) (courses r depth) r request world = [] := by
      rw [dispatchCourse, hfatal]
    have hanswer := dispatch_of_fatal r depth hfatal request
    simp only [courseOf, courses, closed, hcourse, hanswer]
    exact List.forall_mem_singleton.2 rfl
  | value name | state | tree | fatal | memory => exact List.forall_mem_nil _

theorem run_of_fatal (cs : List Call) : run r (depth + 1) world cs = world := by
  induction cs with
  | nil => rfl
  | cons call rest ih => rw [run, after_of_fatal r depth hfatal, ih]

theorem runCourse_of_fatal (cs : List Call) : ∀ m ∈ runCourse r (depth + 1) world cs,
    m = (.answered (.error (.sandbox cause)), world) := by
  induction cs with
  | nil => exact List.forall_mem_nil _
  | cons call rest ih =>
    rw [runCourse, after_of_fatal r depth hfatal]
    exact List.forall_mem_append.2 ⟨courseOf_of_fatal r depth hfatal call, ih⟩

end Ended

/-- An application that has ended with a violation: its queue is empty, every call is refused with that
violation, and nothing else happens. -/
structure Ended (r : Renderer σ) (depth : Nat) (cause : SandboxError) (world : World σ) : Prop where
  fatal : world.2.fatal = some cause
  waiting : world.1.waiting = []
  execute : ∀ name, (calls r depth).execute name world = (.error (.sandbox cause), world)
  dispatch : ∀ request, (calls r depth).dispatch request world = (.error (.sandbox cause), world)
  run : ∀ cs, run r depth world cs = world
  course : ∀ cs, ∀ m ∈ runCourse r depth world cs,
    m = (.answered (.error (.sandbox cause)), world)

theorem ended_of_fatal {world : World σ} {cause : SandboxError} (r : Renderer σ) (depth : Nat)
    (hspent : world.Spent) (hfatal : world.2.fatal = some cause) :
    Ended r (depth + 1) cause world where
  fatal := hfatal
  waiting := hspent (hfatal ▸ Option.some_ne_none cause)
  execute := execute_of_fatal r depth hfatal
  dispatch := dispatch_of_fatal r depth hfatal
  run := run_of_fatal r depth hfatal
  course := runCourse_of_fatal r depth hfatal

end World

theorem Course.Settles.exists_final {w later : World σ} {before after : Course σ}
    {m : Incident × World σ} {cause : SandboxError}
    (h : Settles w (before ++ m :: after) none later) (hcause : m.1.cause? = some cause)
    (hstill : ∀ n ∈ after, m.2.2.Still n) :
    ∃ final, (final = cause ∨ ∃ n ∈ after, n.1 = .thrown (.sandbox final)) ∧
      later.2.fatal = some final := by
  have hlast : later.2.fatal = (causesIn (before ++ m :: after)).getLast?.or w.2.fatal := h.fatal
  have hcauses : causesIn (before ++ m :: after) = causesIn before ++ cause :: causesIn after := by
    simp [causesIn, hcause]
  rw [hcauses, List.getLast?_append, List.getLast?_cons] at hlast
  cases hmore : (causesIn after).getLast? with
  | none =>
    rw [hmore] at hlast
    exact ⟨cause, Or.inl rfl, hlast⟩
  | some final =>
    rw [hmore] at hlast
    obtain ⟨n, hn, hthrown⟩ := List.mem_filterMap.1 (List.mem_of_getLast? hmore)
    exact ⟨final, Or.inr ⟨n, hn, Incident.eq_thrown_of_quiet (hstill n hn).1 hthrown⟩, hlast⟩

namespace World

/-- Once a violation is raised, however deep in a call, no further one is raised, no event is taken,
nothing is shown, and state, memory in use and view stay as they are. When the call from outside is over
the application has ended with that violation, unless the renderer throws another one of its own. -/
theorem ended_of_violation {app : Application} {limits : Limits} {r : Renderer σ} {sink : σ}
    {start : World σ} (hstart : (Launch.start app limits r sink).outcome = .ok start) (depth : Nat)
    (cs : List Call) {before after : Course σ} {i : Incident} {w : World σ} {cause : SandboxError}
    (hcourse : runCourse r (depth + 1) start cs = before ++ (i, w) :: after)
    (hcause : i.cause? = some cause) :
    (∀ m ∈ after, w.2.Still m) ∧ w.2.Frozen (run r (depth + 1) start cs).2 ∧
    ∃ final, (final = cause ∨ ∃ m ∈ after, m.1 = .thrown (.sandbox final)) ∧
      Ended r (depth + 1) final (run r (depth + 1) start cs) := by
  obtain ⟨-, hlive⟩ := Launch.fresh_of_start hstart
  have hsettles := run_settles r (depth + 1) start cs
  rw [hcourse] at hsettles
  have hc : i.cause? ≠ none := hcause ▸ Option.some_ne_none cause
  have hstill : ∀ m ∈ after, w.2.Still m := fun m hm =>
    (List.pairwise_cons.1 (List.pairwise_append.1 hsettles.after).2.1).1 m hm hc
  obtain ⟨final, hfinal, hended⟩ := hsettles.exists_final hcause hstill
  exact ⟨hstill, hsettles.frozen (i, w) (List.mem_append_right _ List.mem_cons_self) hc, final, hfinal,
    ended_of_fatal r depth (hsettles.spent (spent_of_live hlive)) hended⟩

end World

end ReactiveView
