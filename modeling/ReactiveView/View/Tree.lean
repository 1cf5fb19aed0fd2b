import ReactiveView.Sandbox.Size
import ReactiveView.View.Arena

namespace ReactiveView

/-- Resolved properties: a runtime value, or a color as it was declared. -/
inductive Output where
  | value (v : Value)
  | color (c : Color)
  deriving DecidableEq

namespace Output

def size : Output → Nat
  | .value v => v.size
  | .color _ => 24

def same : Output → Output → Bool
  | .value v, .value w => v.identical w
  | .color c, .color d => c == d
  | _, _ => false

end Output

inductive FacetValue where
  | text (s : String)
  | visible (b : Bool)
  | output (o : Output)
  deriving DecidableEq

namespace FacetValue

def null : FacetValue := .output (.value .null)

def same : FacetValue → FacetValue → Bool
  | .text s, .text t => s == t
  | .visible b, .visible c => b == c
  | .output o, .output p => o.same p
  | _, _ => false

end FacetValue

structure Node where
  ref : Nat
  kind : String
  parent : Option Nat
  children : List Nat
  text : Option String
  visible : Bool
  value : Option Value
  props : Table Output
  handlers : Table String
  binding : Option String
  deriving DecidableEq

/-- Hold a materialized view; the node of a reference stands at that position. -/
structure Tree where
  nodes : List Node
  deriving DecidableEq

namespace Node

def facetSize (node : Node) : Nat :=
  (match node.text with
    | some s => sizeOfString s
    | none => 0) +
  (match node.value with
    | some v => v.size
    | none => 0) +
  (node.props.entries.map fun entry => sizeOfString entry.1 + entry.2.size).foldr (· + ·) 0

def size (node : Node) : Int := sizeOfNodeShell node.children.length + node.facetSize

def read (node : Node) : Facet → FacetValue
  | .text => .text (node.text.getD "")
  | .visible => .visible node.visible
  | .value => .output (.value (node.value.getD .null))
  | .prop name => .output ((node.props.get? name).getD (.value .null))

def write (node : Node) : Facet → FacetValue → Node
  | .text, .text s => { node with text := some s }
  | .visible, .visible b => { node with visible := b }
  | .value, .output (.value v) => { node with value := some v }
  | .prop name, .output o => { node with props := node.props.put name o }
  | _, _ => node

def writeAll (node : Node) (values : List (Facet × FacetValue)) : Node :=
  values.foldl (fun node entry => node.write entry.1 entry.2) node

def handlersOf : List (String × PropValue) → List (String × String)
  | [] => []
  | (name, .ident action) :: rest =>
    if isHandlerProp name then (name, action) :: handlersOf rest else handlersOf rest
  | _ :: rest => handlersOf rest

def bindingOf (props : Table PropValue) : Option String :=
  match props.get? bindProp with
  | some (.ident name) => some name
  | _ => none

def shell (n : ArenaNode) : Node where
  ref := n.ref
  kind := n.node.kind
  parent := n.parent
  children := n.children
  text := none
  visible := true
  value := none
  props := .empty
  handlers := Table.ofList (handlersOf n.node.props.entries)
  binding := bindingOf n.node.props

end Node

/-- References as events and patches give them: a position among the nodes, or a number that is no
position at all. -/
inductive Reference where
  | position (n : Nat)
  | stray (x : Binary64)
  deriving DecidableEq

namespace Reference

def ofNumber (x : Binary64) : Reference :=
  match x.toInt? with
  | some (.ofNat n) => .position n
  | _ => .stray x

def number : Reference → Binary64
  | .position n => .ofInt n
  | .stray x => x

end Reference

namespace Tree

def node? (tree : Tree) : Reference → Option Node
  | .position n => tree.nodes[n]?
  | .stray _ => none

def size (tree : Tree) : Int := (tree.nodes.map Node.size).foldr (· + ·) 0

end Tree

inductive Change where
  | text (s : String)
  | visible (b : Bool)
  | prop (name : String) (output : Output)
  deriving DecidableEq

structure Patch where
  ref : Reference
  change : Change
  deriving DecidableEq

def Patch.ofFacet (ref : Nat) (facet : Facet) (value : FacetValue) : Patch :=
  ⟨.position ref,
    match facet, value with
    | .text, .text s => .text s
    | .visible, .visible b => .visible b
    | .value, .output o => .prop "value" o
    | .prop name, .output o => .prop name o
    | facet, _ => .prop facet.name (.value .null)⟩

end ReactiveView
