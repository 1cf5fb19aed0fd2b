import ReactiveView.Expr.Builtin
import ReactiveView.Value

namespace ReactiveView

inductive Expectation where
  | number
  | text
  | whole
  deriving DecidableEq

def Expectation.phrase : Expectation → String
  | .number => "a number"
  | .text => "a string"
  | .whole => "an int"

inductive EvalError where
  /-- An operator met operands of kinds it is not defined for. -/
  | operator (symbol : String) (left : Value.Kind) (right : Option Value.Kind)
  | argument (function : Builtin) (expected : Expectation) (got : Value.Kind)
  /-- A whole number was asked of what is not a number. -/
  | notANumber (function : Builtin)
  | notConvertible (function : Builtin) (value : Value)
  /-- A color stands where only runtime values are allowed. -/
  | colorIn (place : String)
  | undefinedVariable (name : String)
  | unknownFunction (name : String)
  | divisionByZero (symbol : String)
  deriving DecidableEq

namespace EvalError

inductive Class where
  | typeMismatch
  | undefinedVariable
  | divisionByZero
  deriving DecidableEq

def Class.name : Class → String
  | .typeMismatch => "TypeMismatch"
  | .undefinedVariable => "UndefinedVariable"
  | .divisionByZero => "DivisionByZero"

def errorClass : EvalError → Class
  | .operator .. | .argument .. | .notANumber _ | .notConvertible .. | .colorIn _ => .typeMismatch
  | .undefinedVariable _ | .unknownFunction _ => .undefinedVariable
  | .divisionByZero _ => .divisionByZero

/-- A value as an error shows it: text between quotation marks, anything else by its kind. -/
def shown : Value → String
  | .str s => "\"" ++ s ++ "\""
  | v => v.kind.name

def message : EvalError → String
  | .operator symbol left none =>
    "Operator \"" ++ symbol ++ "\" cannot be applied to " ++ left.name
  | .operator symbol left (some right) =>
    "Operator \"" ++ symbol ++ "\" cannot be applied to " ++ left.name ++ " and " ++ right.name
  | .argument function expected got =>
    function.name ++ "() expects " ++ expected.phrase ++ ", got " ++ got.name
  | .notANumber function => function.name ++ "() cannot convert NaN to int"
  | .notConvertible function value => function.name ++ "() cannot convert " ++ shown value
  | .colorIn place => place ++ " cannot hold a color"
  | .undefinedVariable name => "Undefined variable \"" ++ name ++ "\""
  | .unknownFunction name => "Unknown function \"" ++ name ++ "\""
  | .divisionByZero symbol => "Division by zero in \"" ++ symbol ++ "\""

end EvalError

end ReactiveView
