import ReactiveView.Expr.Evaluate
import ReactiveView.Text.Blank
import ReactiveView.View.Index

namespace ReactiveView

structure Application where
  name : String
  version : Binary64
  nodes : List ArenaNode
  actions : Table Action
  initialState : State
  index : Index

def faultIf (condition : Bool) (fault : LoadError) : List LoadError :=
  if condition then [fault] else []

def repeatFaults (fault : String → LoadError) : List String → List String → List LoadError
  | _, [] => []
  | seen, name :: rest =>
    faultIf (seen.contains name) (fault name) ++ repeatFaults fault (name :: seen) rest

def CallSite.faults (site : CallSite) (place : Place) : List LoadError :=
  match Builtin.ofName? site.callee with
  | none => [.unknownFunction site.callee place]
  | some b =>
    faultIf (site.arity < b.minArgs || b.maxArgs < site.arity)
      (.arity site.callee b.minArgs b.maxArgs site.arity place)

def Expr.faults (e : Expr) (declared : List String) (place : Place) : List LoadError :=
  (e.reads.flatMap fun name =>
    faultIf (!declared.contains name) (.undeclaredVariable name place)) ++
  e.calls.flatMap fun site => site.faults place

def Mutation.faults (m : Mutation) (declared : List String) (action : String) : List LoadError :=
  faultIf (!declared.contains m.target) (.undeclaredTarget action m.target) ++
    m.expr.faults declared (.action action)

/-- Faults of actions in their order; `seen` holds the names of those before. -/
def actionFaults (declared : List String) : List String → List Action → List LoadError
  | _, [] => []
  | seen, a :: rest =>
    faultIf (seen.contains a.name) (.duplicateAction a.name) ++
      (a.mutations.flatMap fun m => m.faults declared a.name) ++
      actionFaults declared (a.name :: seen) rest

def handlerFaults (value : PropValue) (actions : List String) (place : Place) : List LoadError :=
  match value with
  | .ident action => faultIf (!actions.contains action) (.unknownAction place action)
  | _ => [.handlerWithoutAction place]

def PropValue.isIdent : PropValue → Bool
  | .ident _ => true
  | _ => false

def PropValue.isColor : PropValue → Bool
  | .color _ => true
  | _ => false

def PropValue.exprFaults (value : PropValue) (declared : List String) (place : Place) :
    List LoadError :=
  match value with
  | .expr e => e.faults declared place
  | _ => []

def propFaults (declared actions : List String) (n : ArenaNode) (entry : String × PropValue) :
    List LoadError :=
  let place := Place.property n.label entry.1
  if isHandlerProp entry.1 then handlerFaults entry.2 actions place
  else
    faultIf (entry.1 == bindProp && !entry.2.isIdent) (.bindingWithoutVariable place) ++
      faultIf (entry.1 == visibleProp && entry.2.isColor) (.colorNotAllowed place) ++
      entry.2.exprFaults declared place

def readFaults (declared : List String) (n : ArenaNode) : List LoadError :=
  n.reads.flatMap fun read =>
    faultIf (!declared.contains read.name) (.undeclaredRead read.name n.label)

def isVersion (version : Binary64) : Bool :=
  match version.toInt? with
  | some n => 1 ≤ n
  | none => false

namespace Program

def stateNames (p : Program) : List String := p.state.map Prod.fst

def actionNames (p : Program) : List String := p.actions.map Action.name

def nodes (p : Program) : List ArenaNode := ViewNode.arena p.view

/-- Everything that is wrong with a document, in the order in which it is looked for. -/
def faults (p : Program) : List LoadError :=
  faultIf (Text.isBlankText p.app) .missingName ++
    faultIf (!isVersion p.version) (.badVersion p.version) ++
    repeatFaults .duplicateVariable [] p.stateNames ++
    actionFaults p.stateNames [] p.actions ++
    (p.nodes.flatMap fun n =>
      n.node.props.entries.flatMap (propFaults p.stateNames p.actionNames n)) ++
    p.nodes.flatMap (readFaults p.stateNames)

def application (p : Program) : Application where
  name := p.app
  version := p.version
  nodes := p.nodes
  actions := Table.ofList (p.actions.map fun a => (a.name, a))
  initialState := Table.ofList p.state
  index := Index.ofNodes p.nodes

/-- Check a document; its first fault rejects it. -/
def load (p : Program) : Except LoadError Application :=
  match p.faults with
  | [] => .ok p.application
  | fault :: _ => .error fault

theorem load_eq_ok_iff {p : Program} {app : Application} :
    p.load = .ok app ↔ p.faults = [] ∧ p.application = app := by
  unfold load
  split <;> simp [*]

end Program

end ReactiveView
