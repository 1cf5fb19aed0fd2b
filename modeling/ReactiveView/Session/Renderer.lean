import ReactiveView.Sandbox.Meter
import ReactiveView.Session.Event
import ReactiveView.Expr.Evaluate

namespace ReactiveView

structure Execution where
  dirty : List String
  patches : List Patch
  deriving DecidableEq

structure Glimpse where
  state : State
  tree : Tree
  fatal : Option SandboxError

/-- Describe what a renderer with private state `σ` does when it is handed patches. -/
inductive Reaction (σ : Type) where
  | done
  | fail (failure : Failure)
  | update (change : σ → σ) (next : Reaction σ)
  | consult (next : σ → Reaction σ)
  | look (next : Glimpse → Reaction σ)
  | weigh (next : Meter → Reaction σ)
  | execute (name : String) (next : Except Failure Execution → Reaction σ)
  | dispatch (request : Request) (next : Except Failure (List EventOutcome) → Reaction σ)

/-- Take the first layout of a view, then every later list of patches. -/
structure Renderer (σ : Type) where
  mount : Tree → List Patch → σ → Except Failure Unit × σ
  apply : List Patch → Tree → Reaction σ

namespace Renderer

def silent : Renderer Unit where
  mount := fun _ _ w => (.ok (), w)
  apply := fun _ _ => .done

end Renderer

end ReactiveView
