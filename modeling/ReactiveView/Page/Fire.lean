import ReactiveView.Page.Basic
import ReactiveView.Session.Core

namespace ReactiveView

structure Response where
  request : Request
  answer : Except Failure (List EventOutcome)

namespace World

variable {dom : Dom}

/-- Call listeners one after the other; each dispatches its request. A failure does not keep the later ones from
running. -/
def callAll : List (Nat × Listener) → World (Page dom) → List Response × World (Page dom)
  | [], world => ([], world)
  | call :: rest, world =>
    match world.2.sink.requestOf? call with
    | none => callAll rest world
    | some request =>
      let (answer, later) := dispatch (Page.renderer dom) request world
      let (responses, last) := callAll rest later
      (⟨request, answer⟩ :: responses, last)

def fire (id : Nat) (signal : Signal) (bubbles : Bool) (world : World (Page dom)) :
    List Response × World (Page dom) :=
  callAll (world.2.sink.called id signal bubbles) world

end World

end ReactiveView
