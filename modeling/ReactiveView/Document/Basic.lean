import ReactiveView.Color
import ReactiveView.Expr.Basic
import ReactiveView.Table

namespace ReactiveView

inductive Span where
  | literal (text : String)
  | var (name : String)
  deriving DecidableEq

/-- Declared values of properties. A bare name stands for an action in a handler and for a state
variable everywhere else. -/
inductive PropValue where
  | literal (value : Value)
  | color (color : Color)
  | expr (expr : Expr)
  | ident (name : String)

structure ViewNode where
  kind : String
  props : Table PropValue
  children : List ViewNode
  text : Option (List Span)

structure Mutation where
  target : String
  expr : Expr

structure Action where
  name : String
  mutations : List Mutation

/-- Hold a document. Nothing about its names has been checked. -/
structure Program where
  app : String
  version : Binary64
  state : List (String × Value)
  view : Option ViewNode
  actions : List Action

def visibleProp : String := "visible"

def bindProp : String := "bind"

def isHandlerProp (name : String) : Bool := "on_".toList.isPrefixOf name.toList

def isPlainProp (name : String) : Bool :=
  name != visibleProp && name != bindProp && !isHandlerProp name

namespace ViewNode

mutual

def size : ViewNode → Nat
  | ⟨_, _, children, _⟩ => 1 + sizeAll children

def sizeAll : List ViewNode → Nat
  | [] => 0
  | node :: rest => node.size + sizeAll rest

end

end ViewNode

end ReactiveView
