import ReactiveView.Binary64.Power
import ReactiveView.Expr.Basic
import ReactiveView.Expr.Function

namespace ReactiveView

abbrev State := Table Value

namespace Expr

def mismatch (symbol : String) (left : Value) (right : Option Value) : Except Fault α :=
  .error (.evaluation (.operator symbol left.kind (right.map Value.kind)))

def applyUnary : UnaryOp → Value → Except Fault Value
  | .not, .bool b => .ok (.bool (!b))
  | .not, v => mismatch "not" v none
  | .neg, .int n => .ok (.ofInt (-n))
  | .neg, .float x => .ok (.float x.neg)
  | .neg, v => mismatch "-" v none

def order? (x y : Binary64) : Option Ordering :=
  if x.isNaN || y.isNaN then none else some (compare x.rank y.rank)

def applyRelational (op : RelationalOp) (v w : Value) : Except Fault Value :=
  match v, w with
  | .int m, .int n => .ok (.bool (op.holds (compare m n)))
  | _, _ =>
    match v.number?, w.number? with
    | some x, some y =>
      .ok (.bool (match order? x y with
        | some o => op.holds o
        | none => false))
    | _, _ => mismatch op.symbol v (some w)

def divisionByZero (op : ArithmeticOp) : Except Fault Value :=
  .error (.evaluation (.divisionByZero op.symbol))

def applyWhole (op : ArithmeticOp) (m n : Int) : Except Fault Value :=
  match op with
  | .add => .ok (.ofInt (m + n))
  | .sub => .ok (.ofInt (m - n))
  | .mul => .ok (.ofInt (m * n))
  | .div =>
    if n = 0 then divisionByZero op else .ok (.float ((Binary64.ofInt m).div (.ofInt n)))
  | .rem => if n = 0 then divisionByZero op else .ok (.ofInt (m.tmod n))

def applyBinary64 (op : ArithmeticOp) (x y : Binary64) : Except Fault Value :=
  match op with
  | .add => .ok (.float (x.add y))
  | .sub => .ok (.float (x.sub y))
  | .mul => .ok (.float (x.mul y))
  | .div => if y.isZero then divisionByZero op else .ok (.float (x.div y))
  | .rem => if y.isZero then divisionByZero op else .ok (.float (x.rem y))

def applyArithmetic (op : ArithmeticOp) (v w : Value) : Except Fault Value :=
  match v, w with
  | .int m, .int n => applyWhole op m n
  | _, _ =>
    match v.number?, w.number? with
    | some x, some y => applyBinary64 op x y
    | _, _ => mismatch op.symbol v (some w)

def isText (v : Value) : Bool := v.kind == .str

/-- Multiply a result by a power of a base, by repeated squaring: the digits of the exponent are taken from
the least on, and the result and the base are reduced to 64 bits at every step. -/
def multiplyPow (result base : Int) (exponent : Nat) : Int :=
  if exponent = 0 then result
  else
    multiplyPow (if exponent % 2 = 1 then wrap64 (result * base) else result)
      (wrap64 (base * base)) (exponent / 2)
termination_by exponent
decreasing_by omega

def wrappingPow (base : Int) (exponent : Nat) : Int := multiplyPow 1 (wrap64 base) exponent

def applyPower (v w : Value) : Except Fault Value :=
  match v, w with
  | .int m, .int n =>
    if 0 ≤ n then .ok (.ofInt (wrappingPow m n.toNat))
    else .ok (.float ((Binary64.ofInt m).pow (.ofInt n)))
  | _, _ =>
    match v.number?, w.number? with
    | some x, some y => .ok (.float (x.pow y))
    | _, _ => mismatch "**" v (some w)

def applyBinary (op : BinaryOp) (v w : Value) : Except Fault Value :=
  match op with
  | .arithmetic .add =>
    if isText v || isText w then .ok (.str (v.text ++ w.text)) else applyArithmetic .add v w
  | .arithmetic op => applyArithmetic op v w
  | .pow => applyPower v w
  | .relational op => applyRelational op v w
  | .eq => .ok (.bool (v.equal w))
  | .ne => .ok (.bool (!v.equal w))
  | .and | .or =>
    match v, w with
    | .bool _, .bool c => .ok (.bool c)
    | .bool _, _ => mismatch op.symbol w (some v)
    | _, _ => mismatch op.symbol v none
  | .coalesce => .ok (if v.kind = .null then w else v)

/-- Answer of an operator that its left operand decides on its own, if it does. -/
def decided? (op : BinaryOp) (v : Value) : Option (Except Fault Value) :=
  match op, v with
  | .and, .bool true => none
  | .and, .bool false => some (.ok v)
  | .or, .bool false => none
  | .or, .bool true => some (.ok v)
  | .and, _ | .or, _ => some (mismatch op.symbol v none)
  | .coalesce, .null => none
  | .coalesce, _ => some (.ok v)
  | _, _ => none

def lookup (state : State) (name : String) : Except Fault Value :=
  match state.get? name with
  | some v => .ok v
  | none => .error (.evaluation (.undefinedVariable name))

mutual

/-- Value of an expression under a state, or the reason why there is none. -/
def evaluate (state : State) : Expr → Except Fault Value
  | .literal value => .ok value
  | .ident name => lookup state name
  | .unary op operand => do applyUnary op (← operand.evaluate state)
  | .binary op left right => do
    let v ← left.evaluate state
    match decided? op v with
    | some answer => answer
    | none => applyBinary op v (← right.evaluate state)
  | .call callee args =>
    match Builtin.ofName? callee with
    | none => .error (.evaluation (.unknownFunction callee))
    | some function => do function.apply (← evaluateAll state args)

def evaluateAll (state : State) : List Expr → Except Fault (List Value)
  | [] => .ok []
  | e :: es => do
    let v ← e.evaluate state
    let vs ← evaluateAll state es
    return v :: vs

end

end Expr

end ReactiveView
