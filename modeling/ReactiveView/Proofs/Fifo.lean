import ReactiveView.Schedule.Queue

namespace ReactiveView

variable {α : Type}

inductive QueueEvent (α : Type) where
  | enqueued (task : α)
  | cleared (dropped : Nat)
  | started (task : α)
  | ended (task : α) (outcome : Except Failure Unit)

namespace QueueEvent

def enqueued? : QueueEvent α → Option α
  | .enqueued task => some task
  | _ => none

def started? : QueueEvent α → Option α
  | .started task => some task
  | _ => none

def ended? : QueueEvent α → Option (α × Except Failure Unit)
  | .ended task outcome => some (task, outcome)
  | _ => none

def dropped : QueueEvent α → Nat
  | .cleared dropped => dropped
  | _ => 0

end QueueEvent

abbrev Chronicle (α : Type) := List (QueueEvent α × TaskQueue α)

def enqueuedIn (log : Chronicle α) : List α := log.filterMap fun entry => entry.1.enqueued?

def startedIn (log : Chronicle α) : List α := log.filterMap fun entry => entry.1.started?

def endedIn (log : Chronicle α) : List (α × Except Failure Unit) :=
  log.filterMap fun entry => entry.1.ended?

def droppedIn (log : Chronicle α) : Nat := (log.map fun entry => entry.1.dropped).foldr (· + ·) 0

structure Fifo (α : Type) where
  waiting : List α
  current : Option α

namespace Fifo

/-- Tasks are enqueued at the end, dropped all at once, and started at the front while none runs. -/
inductive Step : Fifo α → QueueEvent α → Fifo α → Prop where
  | enqueue (waiting : List α) (current : Option α) (task : α) :
      Step ⟨waiting, current⟩ (.enqueued task) ⟨waiting ++ [task], current⟩
  | clear (waiting : List α) (current : Option α) :
      Step ⟨waiting, current⟩ (.cleared waiting.length) ⟨[], current⟩
  | start (task : α) (waiting : List α) :
      Step ⟨task :: waiting, none⟩ (.started task) ⟨waiting, some task⟩
  | finish (task : α) (waiting : List α) (outcome : Except Failure Unit) :
      Step ⟨waiting, some task⟩ (.ended task outcome) ⟨waiting, none⟩

/-- A chronicle follows a queue: every event is a step, and the tasks seen to wait are those that do. -/
inductive Follows : Fifo α → Chronicle α → Fifo α → Prop where
  | nil (f : Fifo α) : Follows f [] f
  | cons {f g h : Fifo α} {event : QueueEvent α} {seen : TaskQueue α} {rest : Chronicle α}
      (hstep : f.Step event g) (hseen : seen.waiting = g.waiting) (hrest : g.Follows rest h) :
      Follows f ((event, seen) :: rest) h

theorem Follows.single {f g : Fifo α} {event : QueueEvent α} {seen : TaskQueue α}
    (hstep : f.Step event g) (hseen : seen.waiting = g.waiting) : f.Follows [(event, seen)] g :=
  .cons hstep hseen (.nil g)

theorem Follows.append {f g h : Fifo α} {log later : Chronicle α} (hlog : f.Follows log g)
    (hlater : g.Follows later h) : f.Follows (log ++ later) h := by
  induction hlog with
  | nil f => exact hlater
  | cons hstep hseen _ ih => exact .cons hstep hseen (ih hlater)

theorem Follows.split {f h : Fifo α} {log later : Chronicle α} (hall : f.Follows (log ++ later) h) :
    ∃ g, f.Follows log g ∧ g.Follows later h := by
  induction log generalizing f with
  | nil => exact ⟨f, .nil f, hall⟩
  | cons entry rest ih =>
    cases hall with
    | cons hstep hseen hrest =>
      obtain ⟨g, hbefore, hafter⟩ := ih hrest
      exact ⟨g, .cons hstep hseen hbefore, hafter⟩

theorem Follows.at {f h : Fifo α} {before after : Chronicle α} {event : QueueEvent α}
    {seen : TaskQueue α} (hall : f.Follows (before ++ (event, seen) :: after) h) :
    ∃ current, f.Follows (before ++ [(event, seen)]) ⟨seen.waiting, current⟩ := by
  obtain ⟨g, hbefore, hrest⟩ := hall.split
  cases hrest with
  | @cons _ g' _ _ _ _ hstep hseen hrest =>
    -- the queue that was seen holds what the steps up to this event leave
    obtain ⟨waiting, current⟩ := g'
    obtain rfl : seen.waiting = waiting := hseen
    exact ⟨current, hbefore.append (.single hstep rfl)⟩

end Fifo

inductive Fate where
  | ran
  | dropped
  deriving DecidableEq

def settledAs (fate : Fate) (settled : List (α × Fate)) : List α :=
  (settled.filter fun entry => entry.2 = fate).map Prod.fst

/-- The tasks that came, those that waited before a chronicle and those that it enqueues, are those that
were settled and those that wait, in one order. Each settled task was run or dropped, and those that ran
were started in this order. -/
def Balanced (came : List α) (log : Chronicle α) (waiting : List α) : Prop :=
  ∃ settled : List (α × Fate), came ++ enqueuedIn log = settled.map Prod.fst ++ waiting ∧
    startedIn log = settledAs .ran settled ∧ droppedIn log = (settledAs .dropped settled).length

theorem settledAs_append (fate : Fate) (first second : List (α × Fate)) :
    settledAs fate (first ++ second) = settledAs fate first ++ settledAs fate second := by
  rw [settledAs, List.filter_append, List.map_append]
  rfl

theorem settledAs_of_forall {fate : Fate} {settled : List (α × Fate)} (h : ∀ e ∈ settled, e.2 = fate) :
    settledAs fate settled = settled.map Prod.fst := by
  rw [settledAs, List.filter_eq_self.2 fun e he => decide_eq_true (h e he)]

theorem settledAs_eq_nil {fate : Fate} {settled : List (α × Fate)} (h : ∀ e ∈ settled, e.2 ≠ fate) :
    settledAs fate settled = [] := by
  rw [settledAs, List.filter_eq_nil_iff.2 fun e he => by simpa using h e he]
  rfl

namespace Fifo

theorem Follows.balanced {f g : Fifo α} {log : Chronicle α} (h : f.Follows log g) :
    Balanced f.waiting log g.waiting := by
  induction h with
  | nil f => exact ⟨[], List.append_nil _, rfl, rfl⟩
  | @cons _ _ _ _ _ rest hstep _ _ ih =>
    obtain ⟨settled, hcame, hstarted, hdropped⟩ := ih
    cases hstep with
    | enqueue waiting current task =>
      refine ⟨settled, ?_, hstarted, (Nat.zero_add _).trans hdropped⟩
      rw [← hcame, List.append_assoc]
      rfl
    | clear waiting current =>
      -- the tasks that are dropped are settled ahead of all that comes later
      have hfate : ∀ e ∈ waiting.map fun task => (task, Fate.dropped), e.2 = .dropped := by
        intro e he
        obtain ⟨task, -, rfl⟩ := List.mem_map.1 he
        rfl
      have hnames : (waiting.map fun task => (task, Fate.dropped)).map Prod.fst = waiting := by
        rw [List.map_map]
        exact List.map_id waiting
      refine ⟨waiting.map (·, .dropped) ++ settled, ?_, ?_, ?_⟩
      · rw [List.map_append, hnames, List.append_assoc, ← hcame]
        rfl
      · have hran : ∀ e ∈ waiting.map fun task => (task, Fate.dropped), e.2 ≠ .ran := by
          intro e he
          rw [hfate e he]
          decide
        rw [settledAs_append, settledAs_eq_nil hran]
        exact hstarted
      · rw [settledAs_append, settledAs_of_forall hfate, hnames, List.length_append, ← hdropped]
        rfl
    | start task waiting =>
      exact ⟨(task, .ran) :: settled, congrArg (task :: ·) hcame, congrArg (task :: ·) hstarted,
        (Nat.zero_add _).trans hdropped⟩
    | finish task waiting outcome =>
      exact ⟨settled, hcame, hstarted, (Nat.zero_add _).trans hdropped⟩

theorem Follows.serial {f g : Fifo α} {log : Chronicle α} (h : f.Follows log g) :
    f.current.toList ++ startedIn log = (endedIn log).map Prod.fst ++ g.current.toList := by
  induction h with
  | nil f => exact List.append_nil _
  | @cons _ _ _ _ _ rest hstep _ _ ih =>
    cases hstep with
    | enqueue waiting current task => exact ih
    | clear waiting current => exact ih
    | start task waiting => exact ih
    | finish task waiting outcome => exact congrArg (task :: ·) ih

end Fifo

end ReactiveView
