import ReactiveView.Proofs.Recording

namespace ReactiveView

variable {α ω : Type}

/-- From one point of a recorded history to a later one the record grows by events that follow a FIFO
queue, with the same task running at both, and in which certain tasks ended. -/
def Recorded.Advances (current : Option α) (ends : List (α × Except Failure Unit))
    (world later : Recorded α ω) : Prop :=
  (later.1.running = world.1.running ∧ later.1.limit = world.1.limit) ∧
    ∃ log, later.2.2 = world.2.2 ++ log ∧ endedIn log = ends ∧
      Fifo.Follows ⟨world.1.waiting, current⟩ log ⟨later.1.waiting, current⟩

namespace Recorded.Advances

variable {current : Option α} {ends : List (α × Except Failure Unit)} {world later last : Recorded α ω}

theorem refl (current : Option α) (world : Recorded α ω) : Advances current [] world world :=
  ⟨⟨rfl, rfl⟩, [], (List.append_nil _).symm, rfl, .nil _⟩

theorem trans {more : List (α × Except Failure Unit)} (h : Advances current ends world later)
    (h' : Advances current more later last) : Advances current (ends ++ more) world last := by
  obtain ⟨⟨hrunning, hlimit⟩, log, hlog, rfl, hfollows⟩ := h
  obtain ⟨⟨hrunning', hlimit'⟩, log', hlog', rfl, hfollows'⟩ := h'
  refine ⟨⟨hrunning'.trans hrunning, hlimit'.trans hlimit⟩, log ++ log', ?_, ?_,
    hfollows.append hfollows'⟩
  · rw [hlog', hlog, List.append_assoc]
  · exact List.filterMap_append

theorem enqueue (current : Option α) (q : TaskQueue α) (w : ω) (log : Chronicle α) (task : α) :
    Advances current [] (q, w, log)
      (q.enqueue task, w, log ++ [(.enqueued task, q.enqueue task)]) := by
  refine ⟨⟨rfl, rfl⟩, _, rfl, rfl, ?_⟩
  rw [TaskQueue.waiting_enqueue]
  exact .single (.enqueue q.waiting current task) (TaskQueue.waiting_enqueue q task)

theorem clear (current : Option α) (q : TaskQueue α) (w : ω) (log : Chronicle α) :
    Advances current [] (q, w, log) (q.clear, w, log ++ [(.cleared q.queueLength, q.clear)]) := by
  refine ⟨⟨rfl, rfl⟩, _, rfl, rfl, ?_⟩
  rw [TaskQueue.waiting_clear, ← TaskQueue.length_waiting]
  exact .single (.clear q.waiting current) (TaskQueue.waiting_clear q)

theorem update (current : Option α) (q : TaskQueue α) (w changed : ω) (log : Chronicle α) :
    Advances current [] (q, w, log) (q, changed, log) :=
  ⟨⟨rfl, rfl⟩, [], (List.append_nil _).symm, rfl, .nil _⟩

end Recorded.Advances

namespace Job

structure Law (R : Recorded α ω → Recorded α ω → Prop) : Prop where
  refl : ∀ world, R world world
  trans : ∀ a b c, R a b → R b c → R a c
  enqueue : ∀ q w log task,
    R (q, w, log) (q.enqueue task, w, log ++ [(.enqueued task, q.enqueue task)])
  clear : ∀ q w log, R (q, w, log) (q.clear, w, log ++ [(.cleared q.queueLength, q.clear)])
  update : ∀ q w changed log, R (q, w, log) (q, changed, log)

theorem law_of_task (task : α) :
    Law (ω := ω) (Recorded.Advances (some task) []) where
  refl := .refl (some task)
  trans _ _ _ h h' := h.trans h'
  enqueue := .enqueue (some task)
  clear := .clear (some task)
  update := .update (some task)

theorem law_of_host :
    Law fun world later : Recorded α ω => ∃ ends, Recorded.Advances none ends world later where
  refl world := ⟨[], .refl none world⟩
  trans _ _ _ := fun ⟨_, h⟩ ⟨_, h'⟩ => ⟨_, h.trans h'⟩
  enqueue q w log task := ⟨[], .enqueue none q w log task⟩
  clear q w log := ⟨[], .clear none q w log⟩
  update q w changed log := ⟨[], .update none q w changed log⟩

theorem Law.recorded {R : Recorded α ω → Recorded α ω → Prop} (law : Law R)
    {flush : Recorded α ω → Except Failure Unit × Recorded α ω}
    (hflush : ∀ world, R world (flush world).2) (last : Except Failure Unit → List (QueueEvent α))
    (job : Job α ω) (q : TaskQueue α) (w : ω) (log : Chronicle α) :
    ∃ outcome q' w' log', R (q, w, log) (q', w', log') ∧
      (job.recorded last).run flush (q, w, log) =
        (outcome, q', w', log' ++ (last outcome).map fun event => (event, q')) := by
  -- What a job does after a request depends on the answer, so the queue, the world and the record vary.
  induction job generalizing q w log with
  | done => exact ⟨.ok (), q, w, log, law.refl _, by rw [Job.recorded, run_note]; rfl⟩
  | fail failure =>
    exact ⟨.error failure, q, w, log, law.refl _, by rw [Job.recorded, run_note]; rfl⟩
  | enqueue task next ih =>
    obtain ⟨outcome, q', w', log', hR, hrun⟩ := ih (q.enqueue task) w _
    refine ⟨outcome, q', w', log', law.trans _ _ _ (law.enqueue q w log task) hR, ?_⟩
    rw [Job.recorded, run, run_note]
    exact hrun
  | flush next ih =>
    have hstep := hflush (q, w, log)
    rw [Job.recorded, run]
    generalize flush (q, w, log) = result at hstep ⊢
    obtain ⟨answer, q₁, w₁, log₁⟩ := result
    obtain ⟨outcome, q', w', log', hR, hrun⟩ := ih answer q₁ w₁ log₁
    exact ⟨outcome, q', w', log', law.trans _ _ _ hstep hR, hrun⟩
  | clear next ih =>
    obtain ⟨outcome, q', w', log', hR, hrun⟩ := ih q.queueLength q.clear w _
    refine ⟨outcome, q', w', log', law.trans _ _ _ (law.clear q w log) hR, ?_⟩
    rw [Job.recorded, run, run_note]
    exact hrun
  | look next ih => exact ih q q w log
  | consult next ih => exact ih w q w log
  | update change next ih =>
    obtain ⟨outcome, q', w', log', hR, hrun⟩ := ih q (change w) log
    exact ⟨outcome, q', w', log', law.trans _ _ _ (law.update q w (change w) log) hR, hrun⟩

end Job

/-- How a flush that may start so many tasks ends. All tasks ended well and none is left; or the last
one failed; or tasks are left after as many as may be started. -/
inductive FlushEnd (limit : Limit) (budget : Nat) :
    List (α × Except Failure Unit) → List α → Except Failure Unit → Prop where
  | emptied {ends : List (α × Except Failure Unit)} (hok : ∀ e ∈ ends, e.2 = .ok ())
      (hlength : ends.length ≤ budget) : FlushEnd limit budget ends [] (.ok ())
  | failed {ends : List (α × Except Failure Unit)} {task : α} {failure : Failure} {left : List α}
      (hok : ∀ e ∈ ends, e.2 = .ok ()) (hlength : ends.length < budget) :
      FlushEnd limit budget (ends ++ [(task, .error failure)]) left (.error failure)
  | exceeded {ends : List (α × Except Failure Unit)} {left : List α}
      (hok : ∀ e ∈ ends, e.2 = .ok ()) (hlength : ends.length = budget) (hleft : left ≠ []) :
      FlushEnd limit budget ends left (.error (.defect (.flushDepthExceeded limit.number)))

namespace FlushEnd

variable {limit : Limit} {budget : Nat} {ends : List (α × Except Failure Unit)} {left : List α}
  {outcome : Except Failure Unit}

theorem length_le (h : FlushEnd limit budget ends left outcome) : ends.length ≤ budget := by
  cases h with
  | emptied hok hlength => exact hlength
  | failed hok hlength =>
    rw [List.length_append]
    exact hlength
  | exceeded hok hlength hleft => exact Nat.le_of_eq hlength

theorem cons (h : FlushEnd limit budget ends left outcome) (task : α) :
    FlushEnd limit (budget + 1) ((task, .ok ()) :: ends) left outcome := by
  have hall {rest : List (α × Except Failure Unit)} (hok : ∀ e ∈ rest, e.2 = .ok ()) :
      ∀ e ∈ (task, .ok ()) :: rest, e.2 = .ok () := List.forall_mem_cons.2 ⟨rfl, hok⟩
  cases h with
  | emptied hok hlength => exact .emptied (hall hok) (Nat.succ_le_succ hlength)
  | failed hok hlength => exact .failed (hall hok) (Nat.succ_lt_succ hlength)
  | exceeded hok hlength hleft => exact .exceeded (hall hok) (congrArg (· + 1) hlength) hleft

end FlushEnd

namespace TaskQueue

open Job

variable (script : α → Job α ω)

theorem task_advances {q started : TaskQueue α} {task : α} (h : q.next? = some (task, started))
    (w : ω) (log : Chronicle α) :
    ∃ outcome later, behave (recordedTask script) task (started, w, log) = (outcome, later) ∧
      Recorded.Advances none [(task, outcome)] (q, w, log) later := by
  obtain ⟨hwaiting, hrunning, hlimit, -⟩ := next?_eq_some h
  -- a flush that the task requests is refused, so no other task starts before it ends
  have hrefuse (world : Recorded α ω) :
      Recorded.Advances (some task) [] world (refuse world).2 := .refl (some task) world
  obtain ⟨outcome, q', w', log', ⟨hkept, made, hmade, hends, hfollows⟩, hrun⟩ :=
    (law_of_task task).recorded hrefuse (fun outcome => [.ended task outcome]) (script task) started w
      (log ++ [(.started task, started)])
  refine ⟨outcome, _, (run_note _ _ _ _ _ _).trans hrun,
    ⟨hkept.1.trans hrunning, hkept.2.trans hlimit⟩,
    (.started task, started) :: made ++ [(.ended task outcome, q')], ?_, ?_, ?_⟩
  · dsimp only at hmade ⊢
    rw [hmade]
    simp
  · exact List.filterMap_append.trans (congrArg (· ++ [(task, outcome)]) hends)
  · rw [hwaiting]
    refine .append (.cons (.start task started.waiting) rfl hfollows) (.single ?_ rfl)
    exact .finish task _ outcome

theorem drain_advances (budget : Nat) (world : Recorded α ω) :
    ∃ ends, Recorded.Advances none ends world (drain (behave (recordedTask script)) budget world).2 ∧
      FlushEnd world.1.limit budget ends
        (drain (behave (recordedTask script)) budget world).2.1.waiting
        (drain (behave (recordedTask script)) budget world).1 := by
  have hnone : ∀ e ∈ ([] : List (α × Except Failure Unit)), e.2 = .ok () := List.forall_mem_nil _
  induction budget generalizing world with
  | zero =>
    obtain ⟨q, w, log⟩ := world
    rw [drain]
    cases hnext : q.next? with
    | none =>
      dsimp only
      rw [next?_eq_none hnext]
      exact ⟨[], .refl none _, .emptied hnone (Nat.le_refl _)⟩
    | some next =>
      obtain ⟨hwaiting, -⟩ := next?_eq_some hnext
      dsimp only
      exact ⟨[], .refl none _, .exceeded hnone rfl (hwaiting ▸ List.cons_ne_nil _ _)⟩
  | succ budget ih =>
    obtain ⟨q, w, log⟩ := world
    rw [drain]
    cases hnext : q.next? with
    | none =>
      dsimp only
      rw [next?_eq_none hnext]
      exact ⟨[], .refl none _, .emptied hnone (Nat.zero_le _)⟩
    | some next =>
      obtain ⟨task, started⟩ := next
      obtain ⟨outcome, later, hrun, htask⟩ := task_advances script hnext w log
      dsimp only
      rw [hrun]
      cases outcome with
      | error failure => exact ⟨_, htask, .failed hnone (Nat.succ_pos budget)⟩
      | ok done =>
        -- the task ended well, so one more task fits in front of those of the rest
        obtain ⟨ends, hrest, hend⟩ := ih later
        refine ⟨_, htask.trans hrest, ?_⟩
        rw [htask.1.2] at hend
        exact hend.cons task

theorem flush_advances {world : Recorded α ω} (hidle : world.1.running = false) :
    ∃ ends, Recorded.Advances none ends world (flush (behave (recordedTask script)) world).2 ∧
      FlushEnd world.1.limit world.1.limit.most.toNat ends
        (flush (behave (recordedTask script)) world).2.1.waiting
        (flush (behave (recordedTask script)) world).1 := by
  obtain ⟨ends, ⟨hkept, log, hlog, hends, hfollows⟩, hend⟩ :=
    drain_advances script world.1.limit.most.toNat (world.1.begin, world.2)
  rw [flush]
  rw [if_neg (by rw [hidle]; exact Bool.false_ne_true)]
  generalize drain (behave (recordedTask script)) world.1.limit.most.toNat (world.1.begin, world.2) =
    result at hkept hlog hfollows hend ⊢
  obtain ⟨outcome, q, w, later⟩ := result
  refine ⟨ends, ⟨⟨hidle.symm, (limit_finish q).trans hkept.2⟩, log, hlog, hends, ?_⟩, ?_⟩
  · rw [waiting_finish]
    exact hfollows
  · rw [waiting_finish]
    exact hend

theorem flush_of_running (behave : α → TaskQueue α × ω → Except Failure Unit × (TaskQueue α × ω))
    {world : TaskQueue α × ω} (h : world.1.running = true) :
    flush behave world = (.error nestedFlush, world) := by rw [flush, if_pos h]

theorem host_flush_advances (world : Recorded α ω) :
    ∃ ends, Recorded.Advances none ends world (flush (behave (recordedTask script)) world).2 := by
  cases hrunning : world.1.running with
  | true =>
    rw [flush_of_running _ hrunning]
    exact ⟨[], .refl none world⟩
  | false =>
    obtain ⟨ends, hadvances, -⟩ := flush_advances script hrunning
    exact ⟨ends, hadvances⟩

end TaskQueue

namespace Job

open TaskQueue

variable (script : α → Job α ω)

theorem recordedHost_advances (job : Job α ω) (world : Recorded α ω) :
    ∃ ends, Recorded.Advances none ends world (recordedHost script job world).2 := by
  obtain ⟨outcome, q, w, log, hadvances, hrun⟩ := law_of_host.recorded
    (host_flush_advances script) (fun _ => []) job world.1 world.2.1 world.2.2
  rw [recordedHost, host]
  rw [show (world.1, world.2.1, world.2.2) = world from rfl] at hrun
  rw [hrun, List.map_nil, List.append_nil]
  exact hadvances

theorem running_run (job : Job α ω) (world : TaskQueue α × ω) :
    (job.run refuse world).2.1.running = world.1.running := by
  induction job generalizing world with
  | done | fail failure => rfl
  | enqueue task next ih => exact ih _
  | flush next ih | clear next ih | look next ih | consult next ih => exact ih _ _
  | update change next ih => exact ih _

theorem run_flush_of_running (tasks : α → TaskQueue α × ω → Except Failure Unit × (TaskQueue α × ω))
    (job : Job α ω) (world : TaskQueue α × ω) (h : world.1.running = true) :
    job.run (TaskQueue.flush tasks) world = job.run refuse world := by
  induction job generalizing world with
  | done | fail failure => rfl
  | enqueue task next ih => exact ih _ h
  | flush next ih =>
    rw [run, run, flush_of_running tasks h]
    exact ih _ _ h
  | clear next ih | look next ih | consult next ih => exact ih _ _ h
  | update change next ih => exact ih _ h

end Job

namespace TaskQueue

open Job

theorem drain_flushing (script : α → Job α ω)
    (tasks : α → TaskQueue α × ω → Except Failure Unit × (TaskQueue α × ω)) (budget : Nat)
    (world : TaskQueue α × ω) (h : world.1.running = true) :
    drain (fun task => (script task).run (flush tasks)) budget world =
      drain (behave script) budget world := by
  induction budget generalizing world with
  | zero => rfl
  | succ budget ih =>
    rw [drain, drain]
    cases hnext : world.1.next? with
    | none => rfl
    | some next =>
      obtain ⟨task, started⟩ := next
      obtain ⟨-, hrunning, -⟩ := next?_eq_some hnext
      have hstarted : started.running = true := hrunning.trans h
      have hkept := running_run (script task) (started, world.2)
      dsimp only
      rw [run_flush_of_running tasks (script task) (started, world.2) hstarted]
      rw [behave]
      generalize (script task).run refuse (started, world.2) = result at hkept ⊢
      obtain ⟨outcome, later⟩ := result
      cases outcome with
      | error failure => rfl
      | ok done => exact ih later (hkept.trans hstarted)

theorem flush_flushing (script : α → Job α ω)
    (tasks : α → TaskQueue α × ω → Except Failure Unit × (TaskQueue α × ω)) :
    flush (fun task => (script task).run (flush tasks)) = flush (behave script) := by
  funext world
  cases hrunning : world.1.running with
  | true => rw [flush_of_running _ hrunning, flush_of_running _ hrunning]
  | false =>
    rw [flush, flush]
    rw [drain_flushing script tasks _ (world.1.begin, world.2) rfl]

end TaskQueue

/-- At a point of a history, the queue holds the tasks that are neither started nor dropped, in the
order in which they came, and counts them; every task that was started has ended, but for one at most,
and they end in the order in which they are started. -/
structure Served (came : List α) (log : Chronicle α) (q : TaskQueue α) : Prop where
  balanced : Balanced came log q.waiting
  length : q.queueLength = q.waiting.length
  serial : ∃ current : Option α, startedIn log = (endedIn log).map Prod.fst ++ current.toList

theorem Fifo.Follows.served {waiting left : List α} {current : Option α} {log : Chronicle α}
    {q : TaskQueue α} (h : Fifo.Follows ⟨waiting, none⟩ log ⟨left, current⟩) (hq : q.waiting = left) :
    Served waiting log q := by
  subst hq
  exact ⟨h.balanced, (TaskQueue.length_waiting q).symm, current, h.serial⟩

/-- The task queue is a FIFO queue. Take any program of a host and any tasks, which enqueue, flush,
clear and fail as they like, with a record of all that happens. The record changes nothing, and it
follows a FIFO queue. At every point of it, and at its end, the tasks enqueued so far are, in order,
those that were run once or dropped, and those that wait. A flush after it runs at most as many tasks as
the limit allows. It leaves no task waiting, or ends with the failure of the last task that it ran, or
leaves tasks after as many as the limit allows; the tasks left are those neither started nor dropped, in
order. A flush that is requested while one is running fails and changes nothing, and requests of tasks
are refused for this reason. -/
theorem Job.host_served (script : α → Job α ω) (job : Job α ω) (limit : Limit) (w : ω) :
    let history := recordedHost script job ({ limit }, w, [])
    let log := history.2.2.2
    let flushed := TaskQueue.flush (behave (recordedTask script)) history.2
    (Prod.map id forget history = host script job ({ limit }, w) ∧
      Fifo.Follows ⟨[], none⟩ log ⟨history.2.1.waiting, none⟩ ∧
      (∀ before event seen after, log = before ++ (event, seen) :: after →
        Served [] (before ++ [(event, seen)]) seen) ∧
      Served [] log history.2.1 ∧ history.2.1.running = false) ∧
    (Prod.map id forget flushed = TaskQueue.flush (behave script) (forget history.2) ∧
      ∃ later, flushed.2.2.2 = log ++ later ∧ startedIn later = (endedIn later).map Prod.fst ∧
        (startedIn later).length ≤ limit.most.toNat ∧
        Served history.2.1.waiting later flushed.2.1 ∧
        FlushEnd limit limit.most.toNat (endedIn later) flushed.2.1.waiting flushed.1) ∧
    (∀ (tasks : α → TaskQueue α × ω → Except Failure Unit × (TaskQueue α × ω)) world,
      world.1.running = true → TaskQueue.flush tasks world = (.error TaskQueue.nestedFlush, world)) ∧
    ∀ tasks, TaskQueue.flush (fun task => (script task).run (TaskQueue.flush tasks)) =
      TaskQueue.flush (behave script) := by
  intro history log flushed
  obtain ⟨ends, ⟨⟨hidle, hlimit⟩, made, hmade, -, hfollows⟩⟩ :=
    recordedHost_advances script job ({ limit }, w, [])
  have hlog : Fifo.Follows ⟨[], none⟩ log ⟨history.2.1.waiting, none⟩ := by
    rw [show log = made from hmade]
    exact hfollows
  obtain ⟨ends', ⟨-, later, hlater, hends, hflush⟩, hend⟩ := TaskQueue.flush_advances script hidle
  have hstarted : startedIn later = (endedIn later).map Prod.fst := by
    simpa using hflush.serial
  rw [hlimit, ← hends] at hend
  refine ⟨⟨forgets_host script job _, hlog, fun before event seen after hsplit => ?_,
      hlog.served rfl, hidle⟩,
    ⟨TaskQueue.forgets_flush (forgets_task script) _, later, hlater, hstarted, ?_,
      hflush.served rfl, hend⟩,
    fun tasks world => TaskQueue.flush_of_running tasks, TaskQueue.flush_flushing script⟩
  · obtain ⟨current, hbefore⟩ := Fifo.Follows.at (hsplit ▸ hlog)
    exact hbefore.served rfl
  · rw [hstarted, List.length_map]
    exact hend.length_le

/-- Tasks that wait are run before those that they enqueue. -/
example :
    let script (n : Nat) : Job Nat (List Nat) :=
      .update (· ++ [n]) (if n < 3 then .enqueue (n + 1) .done else .done)
    (Job.host script (.enqueue 1 (.enqueue 5 (.flush fun _ => .done))) ({}, [])).2.2 =
      [1, 5, 2, 3] := by decide

end ReactiveView
