import ReactiveView.View.Arena

namespace ReactiveView

inductive ReadKind where
  | interpolation
  | visible
  | bind
  | prop
  deriving DecidableEq

def ReadKind.name : ReadKind → String
  | .interpolation => "interpolation"
  | .visible => "visible"
  | .bind => "bind"
  | .prop => "prop"

structure Read where
  name : String
  ref : Nat
  facet : Facet
  kind : ReadKind
  deriving DecidableEq

def Span.reads : Span → List String
  | .literal _ => []
  | .var name => [name]

def PropValue.reads : PropValue → List String
  | .literal _ => []
  | .color _ => []
  | .expr e => e.reads
  | .ident name => [name]

/-- Facet that a property determines, with the way it reads variables. Handlers determine none. -/
def facetOfProp? (name : String) : Option (Facet × ReadKind) :=
  if name = visibleProp then some (.visible, .visible)
  else if name = bindProp then some (.value, .bind)
  else if isPlainProp name then some (.prop name, .prop)
  else none

namespace ArenaNode

def textReads (n : ArenaNode) : List Read :=
  ((n.node.text.getD []).flatMap Span.reads).map fun name => ⟨name, n.ref, .text, .interpolation⟩

def propReads (n : ArenaNode) (entry : String × PropValue) : List Read :=
  match facetOfProp? entry.1 with
  | some (facet, kind) => entry.2.reads.map fun name => ⟨name, n.ref, facet, kind⟩
  | none => []

def reads (n : ArenaNode) : List Read :=
  n.textReads ++ n.node.props.entries.flatMap n.propReads

end ArenaNode

structure Index where
  nodes : List ArenaNode
  reads : List Read

namespace Index

def ofNodes (nodes : List ArenaNode) : Index := ⟨nodes, nodes.flatMap ArenaNode.reads⟩

def readNames (index : Index) : List String := (index.reads.map Read.name).eraseDups

def entriesFor (index : Index) (name : String) : List Read :=
  index.reads.filter fun read => read.name == name

def readsOf (index : Index) (names : List String) : List Read :=
  index.reads.filter fun read => names.contains read.name

def facetsAmong (reads : List Read) (n : ArenaNode) : List Facet :=
  let own := reads.filter fun read => read.ref == n.ref
  if own.isEmpty then [] else n.facets.filter fun facet => own.any fun read => read.facet == facet

/-- Facets that read any of some variables, each once, in pre-order and in facet order. -/
def dependents (index : Index) (names : List String) : List FacetRef :=
  let reads := index.readsOf names
  index.nodes.flatMap fun n => (facetsAmong reads n).map fun facet => ⟨n.ref, facet⟩

def nodesOf (index : Index) (names : List String) : List Nat :=
  let reads := index.readsOf names
  (index.nodes.map ArenaNode.ref).filter fun ref => reads.any fun read => read.ref == ref

end Index

end ReactiveView
