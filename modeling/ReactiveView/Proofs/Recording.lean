import ReactiveView.Proofs.Fifo
import ReactiveView.Schedule.Job

namespace ReactiveView

variable {α ω : Type}

abbrev Recorded (α ω : Type) := TaskQueue α × ω × Chronicle α

namespace Job

def note : List (QueueEvent α) → Job α (ω × Chronicle α) → Job α (ω × Chronicle α)
  | [], next => next
  | event :: rest, next =>
    .look fun q => .update (fun s => (s.1, s.2 ++ [(event, q)])) (note rest next)

/-- Do what a job does and note it; the events of its end depend on how it ends. -/
def recorded (last : Except Failure Unit → List (QueueEvent α)) :
    Job α ω → Job α (ω × Chronicle α)
  | .done => note (last (.ok ())) .done
  | .fail failure => note (last (.error failure)) (.fail failure)
  | .enqueue task next => .enqueue task (note [.enqueued task] (recorded last next))
  | .flush next => .flush fun outcome => recorded last (next outcome)
  | .clear next => .clear fun dropped => note [.cleared dropped] (recorded last (next dropped))
  | .look next => .look fun q => recorded last (next q)
  | .consult next => .consult fun s => recorded last (next s.1)
  | .update change next => .update (fun s => (change s.1, s.2)) (recorded last next)

def recordedTask (script : α → Job α ω) (task : α) : Job α (ω × Chronicle α) :=
  note [.started task] ((script task).recorded fun outcome => [.ended task outcome])

def recordedHost (script : α → Job α ω) (job : Job α ω) :
    Recorded α ω → Except Failure Unit × Recorded α ω :=
  host (recordedTask script) (job.recorded fun _ => [])

theorem run_note (flush : Recorded α ω → Except Failure Unit × Recorded α ω)
    (events : List (QueueEvent α)) (next : Job α (ω × Chronicle α)) (q : TaskQueue α) (w : ω)
    (log : Chronicle α) :
    (note events next).run flush (q, w, log) =
      next.run flush (q, w, log ++ events.map fun event => (event, q)) := by
  induction events generalizing log with
  | nil => rw [note, List.map_nil, List.append_nil]
  | cons event rest ih =>
    rw [note, run, run, ih, List.append_assoc]
    rfl

def forget (world : Recorded α ω) : TaskQueue α × ω := (world.1, world.2.1)

/-- A recorded step does what the step without a record does. -/
def Forgets (recorded : Recorded α ω → Except Failure Unit × Recorded α ω)
    (plain : TaskQueue α × ω → Except Failure Unit × (TaskQueue α × ω)) : Prop :=
  ∀ world, Prod.map id forget (recorded world) = plain (forget world)

theorem forgets_recorded {flush : Recorded α ω → Except Failure Unit × Recorded α ω}
    {plain : TaskQueue α × ω → Except Failure Unit × (TaskQueue α × ω)} (h : Forgets flush plain)
    (last : Except Failure Unit → List (QueueEvent α)) (job : Job α ω) :
    Forgets ((job.recorded last).run flush) (job.run plain) := by
  rintro ⟨q, w, log⟩
  induction job generalizing q w log with
  | done | fail failure =>
    rw [recorded, run_note]
    rfl
  | enqueue task next ih =>
    rw [recorded, run, run_note]
    exact ih _ _ _
  | flush next ih =>
    have hflush := h (q, w, log)
    rw [recorded, run, run, ← hflush]
    exact ih _ _ _ _
  | clear next ih =>
    rw [recorded, run, run_note]
    exact ih _ _ _ _
  | look next ih | consult next ih => exact ih _ q w log
  | update change next ih => exact ih q (change w) log

theorem forgets_refuse : Forgets (α := α) (ω := ω) refuse refuse := fun _ => rfl

theorem forgets_task (script : α → Job α ω) (task : α) :
    Forgets (behave (recordedTask script) task) (behave script task) := by
  rintro ⟨q, w, log⟩
  rw [behave, recordedTask, run_note]
  exact forgets_recorded forgets_refuse _ (script task) _

end Job

namespace TaskQueue

open Job

section

variable {recorded : α → Recorded α ω → Except Failure Unit × Recorded α ω}
  {plain : α → TaskQueue α × ω → Except Failure Unit × (TaskQueue α × ω)}
  (h : ∀ task, Forgets (recorded task) (plain task))

include h

theorem forgets_drain (budget : Nat) : Forgets (drain recorded budget) (drain plain budget) := by
  induction budget with
  | zero =>
    intro world
    simp only [drain, forget]
    cases world.1.next? <;> rfl
  | succ budget ih =>
    intro world
    simp only [drain, forget]
    cases world.1.next? with
    | none => rfl
    | some next =>
      obtain ⟨task, started⟩ := next
      have htask : Prod.map id forget (recorded task (started, world.2)) =
        plain task (started, world.2.1) := h task (started, world.2)
      dsimp only
      rw [← htask]
      generalize recorded task (started, world.2) = result
      obtain ⟨outcome, later⟩ := result
      cases outcome with
      | ok done => exact ih later
      | error failure => rfl

theorem forgets_flush : Forgets (flush recorded) (flush plain) := by
  intro world
  cases hr : world.1.running with
  | true =>
    simp only [flush, forget, hr, ↓reduceIte]
    rfl
  | false =>
    have hdrain : Prod.map id forget
        (drain recorded world.1.limit.most.toNat (world.1.begin, world.2)) =
          drain plain world.1.limit.most.toNat (world.1.begin, world.2.1) :=
      forgets_drain h _ (world.1.begin, world.2)
    simp only [flush, forget, hr, Bool.false_eq_true, ↓reduceIte]
    rw [← hdrain]
    rfl

end

end TaskQueue

theorem Job.forgets_host (script : α → Job α ω) (job : Job α ω) :
    Forgets (recordedHost script job) (host script job) :=
  forgets_recorded (TaskQueue.forgets_flush (forgets_task script)) _ job

end ReactiveView
