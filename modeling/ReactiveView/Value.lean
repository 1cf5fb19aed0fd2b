import ReactiveView.Decimal.Layout
import ReactiveView.Text.Units

namespace ReactiveView

def wrap64 (n : Int) : Int := n.bmod 0x10000000000000000

inductive Value where
  | int (n : Int)
  | float (x : Binary64)
  | str (s : String)
  | bool (b : Bool)
  | null
  deriving DecidableEq, Inhabited

namespace Value

inductive Kind where
  | int
  | float
  | str
  | bool
  | null
  deriving DecidableEq

def Kind.name : Kind → String
  | .int => "int"
  | .float => "float"
  | .str => "string"
  | .bool => "bool"
  | .null => "null"

def kind : Value → Kind
  | .int _ => .int
  | .float _ => .float
  | .str _ => .str
  | .bool _ => .bool
  | .null => .null

def ofInt (n : Int) : Value := .int (wrap64 n)

def ofNumber? (x : Binary64) : Option Value :=
  if x.isFinite then some (ofInt (Binary64.Rounding.towardZero.apply x.signedUnits)) else none

def number? : Value → Option Binary64
  | .int n => some (.ofInt n)
  | .float x => some x
  | _ => none

def isNumeric (v : Value) : Bool := v.number?.isSome

/-- Canonical text, as interpolation and concatenation show it. Null shows nothing. -/
def text : Value → String
  | .int n => toString n
  | .float x => x.text
  | .str s => s
  | .bool true => "true"
  | .bool false => "false"
  | .null => ""

/-- Same kind and same payload, where close numbers count as the same. Change detection uses it. -/
def identical : Value → Value → Bool
  | .int m, .int n => m == n
  | .float x, .float y => x.close y
  | .str s, .str t => s == t
  | .bool b, .bool c => b == c
  | .null, .null => true
  | _, _ => false

/-- Equality behind the equality operators: whole and binary64 numbers compare as numbers. -/
def equal : Value → Value → Bool
  | .int m, .float y => (Binary64.ofInt m).close y
  | .float x, .int n => x.close (.ofInt n)
  | v, w => v.identical w

def truthy : Value → Bool
  | .bool b => b
  | .int n => n != 0
  | .float x => !x.isZero && !x.isNaN
  | .str s => !s.isEmpty
  | .null => false

end Value

inductive HostLiteral where
  | text (s : String)
  | number (x : Binary64)
  | whole (n : Int)
  | flag (b : Bool)
  | nothing
  | value (v : Value)
  deriving DecidableEq

def HostLiteral.toValue : HostLiteral → Value
  | .text s => .str s
  | .number x =>
    match x.toInt? with
    | some n => .ofInt n
    | none => .float x
  | .whole n => .ofInt n
  | .flag b => .bool b
  | .nothing => .null
  | .value v => v

end ReactiveView
