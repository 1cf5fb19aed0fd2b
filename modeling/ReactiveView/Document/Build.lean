import ReactiveView.Document.Basic
import ReactiveView.Error.Load

namespace ReactiveView

def Expr.lit (literal : HostLiteral) : Expr := .literal literal.toValue

namespace PropValue

def lit (literal : HostLiteral) : PropValue := .literal literal.toValue

def ofColor (text : String) : Except LoadError PropValue :=
  match Color.ofText? text with
  | some c => .ok (.color c)
  | none => .error (.invalidColor text)

end PropValue

namespace ViewNode

def build (kind : String) (props : List (String × PropValue)) (children : List ViewNode) : ViewNode :=
  ⟨kind, Table.ofRecord props, children, none⟩

end ViewNode

namespace Action

def ofList (name : String) (mutations : List (String × Expr)) : Action :=
  ⟨name, mutations.map fun entry => ⟨entry.1, entry.2⟩⟩

def ofRecord (name : String) (mutations : List (String × Expr)) : Action :=
  ofList name (Table.ofRecord mutations).entries

end Action

/-- Document whose initial state is a record of host literals. The version is 1 unless given. -/
def Program.build (app : String) (version : Option Binary64) (state : List (String × HostLiteral))
    (view : Option ViewNode) (actions : List Action) : Program where
  app := app
  version := version.getD (.ofInt 1)
  state := (Table.ofRecord state).entries.map fun entry => (entry.1, entry.2.toValue)
  view := view
  actions := actions

end ReactiveView
