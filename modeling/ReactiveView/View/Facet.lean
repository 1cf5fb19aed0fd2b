import ReactiveView.Document.Basic

namespace ReactiveView

/-- Name an aspect of a view node. The value is that of the bound variable. -/
inductive Facet where
  | text
  | visible
  | value
  | prop (name : String)
  deriving DecidableEq

structure FacetRef where
  ref : Nat
  facet : Facet
  deriving DecidableEq

namespace Facet

def propMark : String := "prop:"

def name : Facet → String
  | .text => "text"
  | .visible => "visible"
  | .value => "value"
  | .prop name => propMark ++ name

def propOfName? (name : String) : Option String :=
  if propMark.toList.isPrefixOf name.toList then
    some (String.ofList (name.toList.drop propMark.length))
  else none

end Facet

/-- Facets of a node: text and value where it has them, visibility always, then its plain
properties in their order. -/
def ViewNode.facets (node : ViewNode) : List Facet :=
  (if node.text.isSome then [.text] else []) ++ [.visible] ++
    (if node.props.has bindProp then [.value] else []) ++
    (node.props.names.filter isPlainProp).map .prop

end ReactiveView
