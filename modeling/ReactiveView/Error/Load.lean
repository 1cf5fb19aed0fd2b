import ReactiveView.Decimal.Layout

namespace ReactiveView

/-- Name a view node by its kind and the child positions that lead to it from the root. -/
structure NodeLabel where
  kind : String
  path : List Nat
  deriving DecidableEq

def NodeLabel.text (label : NodeLabel) : String :=
  label.kind ++ "@" ++
    if label.path.isEmpty then "root" else ".".intercalate (label.path.map toString)

inductive Place where
  | action (name : String)
  | property (node : NodeLabel) (name : String)
  deriving DecidableEq

def Place.text : Place → String
  | .action name => "action \"" ++ name ++ "\""
  | .property node name => node.text ++ "." ++ name

inductive LoadCode where
  | unreadable
  | grammar
  | missingDirective
  | unresolvedIdentifier
  | duplicateVariable
  | duplicateAction
  | unknownFunction
  | arity
  deriving DecidableEq

namespace LoadCode

def all : List LoadCode :=
  [.unreadable, .grammar, .missingDirective, .unresolvedIdentifier, .duplicateVariable,
   .duplicateAction, .unknownFunction, .arity]

def name : LoadCode → String
  | .unreadable => "UNREADABLE"
  | .grammar => "GRAMMAR"
  | .missingDirective => "MISSING_DIRECTIVE"
  | .unresolvedIdentifier => "UNRESOLVED_IDENTIFIER"
  | .duplicateVariable => "DUPLICATE_VARIABLE"
  | .duplicateAction => "DUPLICATE_ACTION"
  | .unknownFunction => "UNKNOWN_FUNCTION"
  | .arity => "ARITY"

def ofName? (name : String) : Option LoadCode := all.find? fun code => code.name == name

end LoadCode

inductive LoadError where
  | missingName
  | badVersion (version : Binary64)
  | duplicateVariable (name : String)
  | duplicateAction (name : String)
  | undeclaredTarget (action target : String)
  | undeclaredVariable (name : String) (place : Place)
  | undeclaredRead (name : String) (node : NodeLabel)
  | unknownFunction (name : String) (place : Place)
  | arity (name : String) (least most given : Nat) (place : Place)
  | handlerWithoutAction (place : Place)
  | unknownAction (place : Place) (action : String)
  | bindingWithoutVariable (place : Place)
  | colorNotAllowed (place : Place)
  | invalidColor (text : String)
  | unreadable (requested : String)
  /-- The parser failed with a message of its own. -/
  | unparsable (file message : String)
  /-- The parser refused a document on grounds of its own. -/
  | reported (code : LoadCode) (text : String)
  deriving DecidableEq

namespace LoadError

def code : LoadError → LoadCode
  | .missingName | .badVersion _ => .missingDirective
  | .duplicateVariable _ => .duplicateVariable
  | .duplicateAction _ => .duplicateAction
  | .undeclaredTarget .. | .undeclaredVariable .. | .undeclaredRead .. | .unknownAction .. =>
    .unresolvedIdentifier
  | .unknownFunction .. => .unknownFunction
  | .arity .. => .arity
  | .handlerWithoutAction _ | .bindingWithoutVariable _ | .colorNotAllowed _ | .invalidColor _
  | .unparsable .. => .grammar
  | .unreadable _ => .unreadable
  | .reported code _ => code

def arityText (least most : Nat) : String :=
  if least = most then toString least else toString least ++ "-" ++ toString most

def message : LoadError → String
  | .missingName => "@app must name the application"
  | .badVersion version => "@version must be a positive integer, got " ++ version.numeral
  | .duplicateVariable name => "State variable \"" ++ name ++ "\" is declared more than once"
  | .duplicateAction name => "Action \"" ++ name ++ "\" is declared more than once"
  | .undeclaredTarget action target =>
    "Action \"" ++ action ++ "\" assigns undeclared variable \"" ++ target ++ "\""
  | .undeclaredVariable name place =>
    "Unknown state variable \"" ++ name ++ "\" in " ++ place.text
  | .undeclaredRead name node =>
    "Unknown state variable \"" ++ name ++ "\" read by " ++ node.text
  | .unknownFunction name place => "Unknown function \"" ++ name ++ "\" in " ++ place.text
  | .arity name least most given place =>
    name ++ "() takes " ++ arityText least most ++ " argument(s), got " ++ toString given ++
      " in " ++ place.text
  | .handlerWithoutAction place => place.text ++ " must name an action"
  | .unknownAction place action =>
    place.text ++ " refers to unknown action \"" ++ action ++ "\""
  | .bindingWithoutVariable place => place.text ++ " must name a state variable"
  | .colorNotAllowed place => place.text ++ " cannot be a color"
  | .invalidColor text => "Invalid color \"" ++ text ++ "\""
  | .unreadable requested => "Cannot read \"" ++ requested ++ "\""
  | .unparsable file message => file ++ ": " ++ message
  | .reported _ text => text

end LoadError

end ReactiveView
