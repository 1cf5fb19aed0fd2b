import ReactiveView.Schedule.Queue

namespace ReactiveView

variable {α ω : Type}

/-- Describe a program over a queue of tasks and some state of its own. -/
inductive Job (α ω : Type) where
  | done
  | fail (failure : Failure)
  | enqueue (task : α) (next : Job α ω)
  | flush (next : Except Failure Unit → Job α ω)
  | clear (next : Nat → Job α ω)
  | look (next : TaskQueue α → Job α ω)
  | consult (next : ω → Job α ω)
  | update (change : ω → ω) (next : Job α ω)

namespace Job

def run (flush : TaskQueue α × ω → Except Failure Unit × (TaskQueue α × ω)) :
    Job α ω → TaskQueue α × ω → Except Failure Unit × (TaskQueue α × ω)
  | .done, world => (.ok (), world)
  | .fail failure, world => (.error failure, world)
  | .enqueue task next, (q, w) => run flush next (q.enqueue task, w)
  | .flush next, world =>
    let (outcome, later) := flush world
    run flush (next outcome) later
  | .clear next, (q, w) => run flush (next q.queueLength) (q.clear, w)
  | .look next, (q, w) => run flush (next q) (q, w)
  | .consult next, (q, w) => run flush (next w) (q, w)
  | .update change next, (q, w) => run flush next (q, change w)

def refuse (world : TaskQueue α × ω) : Except Failure Unit × (TaskQueue α × ω) :=
  (.error TaskQueue.nestedFlush, world)

def behave (script : α → Job α ω) (task : α) :
    TaskQueue α × ω → Except Failure Unit × (TaskQueue α × ω) := (script task).run refuse

/-- Run the job of a host program over tasks that run jobs themselves. -/
def host (script : α → Job α ω) (job : Job α ω) :
    TaskQueue α × ω → Except Failure Unit × (TaskQueue α × ω) :=
  job.run (TaskQueue.flush (behave script))

end Job

end ReactiveView
