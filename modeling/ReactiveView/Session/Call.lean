import ReactiveView.Session.Core

namespace ReactiveView

variable {σ : Type}

inductive Call where
  | execute (name : String)
  | dispatch (request : Request)
  | value (name : String)
  | state
  | tree
  | fatal
  | memory

inductive Reply where
  | executed (execution : Execution)
  | dispatched (outcomes : List EventOutcome)
  | value (v : Option Value)
  | state (s : State)
  | tree (t : Tree)
  | fatal (cause : Option SandboxError)
  | memory (meter : Meter)

/-- Make a call while reacting to patches; the answer decides what follows. -/
def Reaction.call (next : Except Failure Reply → Reaction σ) : Call → Reaction σ
  | .execute name => .execute name fun answer => next (answer.map .executed)
  | .dispatch request => .dispatch request fun answer => next (answer.map .dispatched)
  | .value name => .look fun glimpse => next (.ok (.value (glimpse.state.get? name)))
  | .state => .look fun glimpse => next (.ok (.state glimpse.state))
  | .tree => .look fun glimpse => next (.ok (.tree glimpse.tree))
  | .fatal => .look fun glimpse => next (.ok (.fatal glimpse.fatal))
  | .memory => .weigh fun meter => next (.ok (.memory meter))

namespace World

def call (r : Renderer σ) (world : World σ) : Call → Except Failure Reply × World σ
  | .execute name =>
    let (answer, later) := execute r name world
    (answer.map .executed, later)
  | .dispatch request =>
    let (answer, later) := dispatch r request world
    (answer.map .dispatched, later)
  | .value name => (.ok (.value (world.2.store.state.get? name)), world)
  | .state => (.ok (.state world.2.store.state), world)
  | .tree => (.ok (.tree world.2.tree), world)
  | .fatal => (.ok (.fatal world.2.fatal), world)
  | .memory => (.ok (.memory world.2.meter), world)

end World

end ReactiveView
