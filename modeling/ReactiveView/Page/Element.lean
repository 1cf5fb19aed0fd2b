import ReactiveView.Log
import ReactiveView.Page.Dom

namespace ReactiveView

inductive Signal where
  | click
  | change
  | input
  deriving DecidableEq

namespace Signal

def all : List Signal := [.click, .change, .input]

def name : Signal → String
  | .click => "click"
  | .change => "change"
  | .input => "input"

def ofName? (name : String) : Option Signal := all.find? fun signal => signal.name == name

end Signal

structure Listener where
  signal : Signal
  ref : Nat
  deriving DecidableEq

inductive Child where
  | element (id : Nat)
  | text (id : Nat)
  deriving DecidableEq

structure Element (Face : Type) where
  face : Face
  parent : Option Nat
  children : List Child
  listeners : List Listener

structure TextNode where
  data : String
  parent : Option Nat

namespace Element

variable {dom : Dom}

/-- Signals an element listens for: clicks and changes where its node has an action for them, and input where a
field other than a checkbox is bound. -/
def signalsOf (node : Node) (el : Element dom.Face) : List Signal :=
  (if node.handlers.has "on_click" then [.click] else []) ++
    (if node.handlers.has "on_change" then [.change] else []) ++
    if node.binding.isSome && dom.isField el.face && !dom.isCheckbox (dom.form el.face) then [.input] else []

def unlisten {Face : Type} (el : Element Face) (listener : Listener) : Element Face :=
  { el with listeners := el.listeners.erase listener }

end Element

end ReactiveView
