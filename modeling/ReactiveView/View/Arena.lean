import ReactiveView.Error.Load
import ReactiveView.View.Facet

namespace ReactiveView

/-- Place a view node in the list: its position, that of its parent, those of its children, and the
child positions that lead to it from the root. -/
structure ArenaNode where
  ref : Nat
  node : ViewNode
  parent : Option Nat
  children : List Nat
  path : List Nat

namespace ArenaNode

def facets (n : ArenaNode) : List Facet := n.node.facets

def label (n : ArenaNode) : NodeLabel := ⟨n.node.kind, n.path⟩

end ArenaNode

namespace ViewNode

def childRefs : Nat → List ViewNode → List Nat
  | _, [] => []
  | next, child :: rest => next :: childRefs (next + child.size) rest

mutual

def place (ref : Nat) (parent : Option Nat) (path : List Nat) : ViewNode → List ArenaNode
  | ⟨kind, props, children, text⟩ =>
    ⟨ref, ⟨kind, props, children, text⟩, parent, childRefs (ref + 1) children, path⟩ ::
      placeAll (ref + 1) ref path 0 children

def placeAll (next parent : Nat) (path : List Nat) (position : Nat) :
    List ViewNode → List ArenaNode
  | [] => []
  | child :: rest =>
    place next (some parent) (path ++ [position]) child ++
      placeAll (next + child.size) parent path (position + 1) rest

end

def arena : Option ViewNode → List ArenaNode
  | none => []
  | some root => root.place 0 none []

end ViewNode

end ReactiveView
