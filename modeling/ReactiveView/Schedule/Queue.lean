import ReactiveView.Error.Failure

namespace ReactiveView

variable {α ω : Type}

/-- Keep an array of tasks with the position of the first that waits, whether a flush is running, the
tasks it has started, the number of flushes that have ended, and the most tasks that one may start. -/
structure TaskQueue (α : Type) where
  tasks : Array α := #[]
  head : Nat := 0
  head_le : head ≤ tasks.size := by exact Nat.zero_le _
  running : Bool := false
  depth : Nat := 0
  flushes : Nat := 0
  limit : Limit := .ofInt maxFlushDepth

namespace TaskQueue

def waiting (q : TaskQueue α) : List α := q.tasks.toList.drop q.head

def queueLength (q : TaskQueue α) : Nat := q.tasks.size - q.head

@[simp]
theorem length_waiting (q : TaskQueue α) : q.waiting.length = q.queueLength := by
  simp [waiting, queueLength]

def enqueue (q : TaskQueue α) (task : α) : TaskQueue α :=
  { q with
    tasks := q.tasks.push task
    head_le := by rw [Array.size_push]; exact Nat.le_succ_of_le q.head_le }

@[simp]
theorem waiting_enqueue (q : TaskQueue α) (task : α) :
    (q.enqueue task).waiting = q.waiting ++ [task] := by
  have h : q.head ≤ q.tasks.toList.length := by simpa using q.head_le
  simp [waiting, enqueue, List.drop_append_of_le_length h]

def clear (q : TaskQueue α) : TaskQueue α :=
  { q with
    tasks := #[]
    head := 0
    head_le := Nat.zero_le _ }

@[simp]
theorem waiting_clear (q : TaskQueue α) : q.clear.waiting = [] := by simp [waiting, clear]

def next? (q : TaskQueue α) : Option (α × TaskQueue α) :=
  if h : q.head < q.tasks.size then
    some (q.tasks[q.head],
      { q with
        head := q.head + 1
        head_le := h
        depth := q.depth + 1 })
  else none

theorem next?_eq_none {q : TaskQueue α} (h : q.next? = none) : q.waiting = [] := by
  rw [next?] at h
  split at h
  · cases h
  · rename_i hle
    simpa [waiting] using Nat.not_lt.1 hle

theorem next?_eq_some {q started : TaskQueue α} {task : α} (h : q.next? = some (task, started)) :
    q.waiting = task :: started.waiting ∧ started.running = q.running ∧
      started.limit = q.limit ∧ started.depth = q.depth + 1 := by
  rw [next?] at h
  split at h
  · rename_i hlt
    cases h
    refine ⟨?_, rfl, rfl, rfl⟩
    rw [waiting, List.drop_eq_getElem_cons (by simpa using hlt)]
    rfl
  · cases h

def depthExceeded (q : TaskQueue α) : Failure := .defect (.flushDepthExceeded q.limit.number)

/-- Run tasks until none waits, one fails, or the budget is spent with tasks left. A task may change
the queue and the rest of the world. -/
def drain (behave : α → TaskQueue α × ω → Except Failure Unit × (TaskQueue α × ω)) :
    Nat → TaskQueue α × ω → Except Failure Unit × (TaskQueue α × ω)
  | 0, (q, w) =>
    match q.next? with
    | none => (.ok (), (q, w))
    | some _ => (.error q.depthExceeded, (q, w))
  | budget + 1, (q, w) =>
    match q.next? with
    | none => (.ok (), (q, w))
    | some (task, started) =>
      match behave task (started, w) with
      | (.error failure, world) => (.error failure, world)
      | (.ok (), world) => drain behave budget world

def begin (q : TaskQueue α) : TaskQueue α := { q with running := true, depth := 0 }

def compact (q : TaskQueue α) : TaskQueue α :=
  if q.tasks.size ≤ q.head then q.clear
  else if 0 < q.head then
    { q with
      tasks := q.tasks.extract q.head q.tasks.size
      head := 0
      head_le := Nat.zero_le _ }
  else q

def finish (q : TaskQueue α) : TaskQueue α :=
  { q.compact with running := false, depth := 0, flushes := q.flushes + 1 }

@[simp]
theorem waiting_compact (q : TaskQueue α) : q.compact.waiting = q.waiting := by
  unfold compact
  split
  · rename_i h
    simpa [waiting, clear] using h
  · split
    · simp [waiting, List.take_of_length_le]
    · rfl

@[simp]
theorem waiting_finish (q : TaskQueue α) : q.finish.waiting = q.waiting := waiting_compact q

@[simp]
theorem limit_finish (q : TaskQueue α) : q.finish.limit = q.limit := by
  simp only [finish, compact]
  split
  · rfl
  · split <;> rfl

def nestedFlush : Failure := .defect .nestedFlush

/-- Run the tasks that wait, and those they enqueue. The tasks that a failure leaves behind keep
waiting. -/
def flush (behave : α → TaskQueue α × ω → Except Failure Unit × (TaskQueue α × ω))
    (world : TaskQueue α × ω) : Except Failure Unit × (TaskQueue α × ω) :=
  if world.1.running then (.error nestedFlush, world)
  else
    let (outcome, (q, w)) := drain behave world.1.limit.most.toNat (world.1.begin, world.2)
    (outcome, (q.finish, w))

end TaskQueue

end ReactiveView
