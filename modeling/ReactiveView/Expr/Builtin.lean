namespace ReactiveView

inductive Builtin where
  | abs | min | max | floor | ceil | round | sqrt
  | len | str | upper | lower | trim | contains | startsWith | endsWith | replace
  | padStart | padEnd
  | int | float | bool | isNull | type
  deriving DecidableEq

namespace Builtin

def all : List Builtin :=
  [.abs, .min, .max, .floor, .ceil, .round, .sqrt, .len, .str, .upper, .lower, .trim, .contains,
   .startsWith, .endsWith, .replace, .padStart, .padEnd, .int, .float, .bool, .isNull, .type]

theorem mem_all (b : Builtin) : b ∈ all := by cases b <;> decide

def name : Builtin → String
  | .abs => "abs"
  | .min => "min"
  | .max => "max"
  | .floor => "floor"
  | .ceil => "ceil"
  | .round => "round"
  | .sqrt => "sqrt"
  | .len => "len"
  | .str => "str"
  | .upper => "upper"
  | .lower => "lower"
  | .trim => "trim"
  | .contains => "contains"
  | .startsWith => "starts_with"
  | .endsWith => "ends_with"
  | .replace => "replace"
  | .padStart => "pad_start"
  | .padEnd => "pad_end"
  | .int => "int"
  | .float => "float"
  | .bool => "bool"
  | .isNull => "is_null"
  | .type => "type"

def minArgs : Builtin → Nat
  | .min | .max | .contains | .startsWith | .endsWith | .padStart | .padEnd => 2
  | .replace => 3
  | _ => 1

/-- Most arguments of a call. Only the padding functions have an optional one. -/
def maxArgs : Builtin → Nat
  | .padStart | .padEnd => 3
  | b => b.minArgs

def ofName? (name : String) : Option Builtin := all.find? fun b => b.name == name

theorem name_of_ofName? {name : String} {b : Builtin} (h : ofName? name = some b) :
    b.name = name := by
  simpa using List.find?_some h

end Builtin

end ReactiveView
