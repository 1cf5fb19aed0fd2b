import ReactiveView.Expr.Evaluate
import ReactiveView.Log
import ReactiveView.View.Tree

namespace ReactiveView

/-- Record that a facet was resolved, with the error that made it fall back, if any. -/
structure Visit where
  ref : Nat
  kind : String
  facet : Facet
  error : Option EvalError

namespace Visit

def target (visit : Visit) : FacetRef := ⟨visit.ref, visit.facet⟩

def line? (visit : Visit) : Option Log.Line :=
  visit.error.map fun cause =>
    ⟨.warn, ["Could not resolve " ++ visit.facet.name ++ " of node " ++ toString visit.ref ++ " (" ++
      visit.kind ++ "):", cause.message]⟩

def brief? (visit : Visit) : Option Log.Line :=
  visit.error.map fun cause =>
    ⟨.warn, ["Could not resolve " ++ visit.facet.name ++ " of node " ++ toString visit.ref ++ ":",
      cause.message]⟩

end Visit

def PropValue.resolve (state : State) : PropValue → Except Fault Output
  | .literal v => .ok (.value v)
  | .color c => .ok (.color c)
  | .expr e => (e.evaluate state).map .value
  | .ident name => (Expr.lookup state name).map .value

def PropValue.resolveValue (state : State) (place : String) (p : PropValue) : Except Fault Value :=
  match p.resolve state with
  | .ok (.value v) => .ok v
  | .ok (.color _) => .error (.evaluation (.colorIn place))
  | .error fault => .error fault

def Span.resolve (state : State) : Span → Except Fault String
  | .literal text => .ok text
  | .var name => (Expr.lookup state name).map Value.text

def Span.resolveAll (state : State) : List Span → Except Fault String
  | [] => .ok ""
  | span :: rest => do
    let text ← span.resolve state
    return text ++ (← resolveAll state rest)

namespace ViewNode

def resolve (state : State) (node : ViewNode) : Facet → Except Fault FacetValue
  | .text => (Span.resolveAll state (node.text.getD [])).map .text
  | .visible =>
    match node.props.get? visibleProp with
    | none => .ok (.visible true)
    | some p => (p.resolveValue state visibleProp).map fun v => .visible v.truthy
  | .value =>
    match node.props.get? bindProp with
    | none => .ok .null
    | some p => (p.resolveValue state bindProp).map fun v => .output (.value v)
  | .prop name =>
    match node.props.get? name with
    | none => .ok .null
    | some p => (p.resolve state).map .output

end ViewNode

def Facet.fallback : Facet → FacetValue
  | .text => .text ""
  | .visible => .visible false
  | .value => .null
  | .prop _ => .null

namespace ArenaNode

/-- Resolve a facet of a node. Evaluation errors give the fallback; anything else is a failure. -/
def resolve (state : State) (n : ArenaNode) (facet : Facet) : Visit × Except Failure FacetValue :=
  match n.node.resolve state facet with
  | .ok value => (⟨n.ref, n.node.kind, facet, none⟩, .ok value)
  | .error (.evaluation cause) => (⟨n.ref, n.node.kind, facet, some cause⟩, .ok facet.fallback)
  | .error fault => (⟨n.ref, n.node.kind, facet, none⟩, .error fault.toFailure)

def resolveAll (state : State) (n : ArenaNode) :
    List Facet → List Visit × Except Failure (List (Facet × FacetValue))
  | [] => ([], .ok [])
  | facet :: rest =>
    match n.resolve state facet with
    | (visit, .error failure) => ([visit], .error failure)
    | (visit, .ok value) =>
      let (visits, outcome) := resolveAll state n rest
      (visit :: visits, outcome.map fun values => (facet, value) :: values)

end ArenaNode

end ReactiveView
