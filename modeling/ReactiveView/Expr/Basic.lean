import ReactiveView.Value

namespace ReactiveView

inductive UnaryOp where
  | not
  | neg
  deriving DecidableEq

inductive ArithmeticOp where
  | add | sub | mul | div | rem
  deriving DecidableEq

inductive RelationalOp where
  | lt | gt | le | ge
  deriving DecidableEq

inductive BinaryOp where
  | arithmetic (op : ArithmeticOp)
  | pow
  | relational (op : RelationalOp)
  | eq
  | ne
  | and
  | or
  | coalesce
  deriving DecidableEq

def ArithmeticOp.symbol : ArithmeticOp → String
  | .add => "+"
  | .sub => "-"
  | .mul => "*"
  | .div => "/"
  | .rem => "%"

def RelationalOp.symbol : RelationalOp → String
  | .lt => "<"
  | .gt => ">"
  | .le => "<="
  | .ge => ">="

def RelationalOp.holds : RelationalOp → Ordering → Bool
  | .lt, o => o == .lt
  | .gt, o => o == .gt
  | .le, o => o != .gt
  | .ge, o => o != .lt

def BinaryOp.symbol : BinaryOp → String
  | .arithmetic op => op.symbol
  | .pow => "**"
  | .relational op => op.symbol
  | .eq => "=="
  | .ne => "!="
  | .and => "and"
  | .or => "or"
  | .coalesce => "??"

def BinaryOp.all : List BinaryOp :=
  [.arithmetic .add, .arithmetic .sub, .arithmetic .mul, .arithmetic .div, .arithmetic .rem, .pow,
   .relational .lt, .relational .gt, .relational .le, .relational .ge, .eq, .ne, .and, .or,
   .coalesce]

def BinaryOp.ofSymbol? (symbol : String) : Option BinaryOp :=
  all.find? fun op => op.symbol == symbol

inductive Expr where
  | literal (value : Value)
  | ident (name : String)
  | unary (op : UnaryOp) (operand : Expr)
  | binary (op : BinaryOp) (left right : Expr)
  | call (callee : String) (args : List Expr)

structure CallSite where
  callee : String
  arity : Nat
  deriving DecidableEq

namespace Expr

mutual

/-- Variables an expression reads, one entry for each occurrence, from left to right. -/
def reads : Expr → List String
  | .literal _ => []
  | .ident name => [name]
  | .unary _ operand => operand.reads
  | .binary _ left right => left.reads ++ right.reads
  | .call _ args => readsAll args

def readsAll : List Expr → List String
  | [] => []
  | e :: es => e.reads ++ readsAll es

end

mutual

def calls : Expr → List CallSite
  | .literal _ => []
  | .ident _ => []
  | .unary _ operand => operand.calls
  | .binary _ left right => left.calls ++ right.calls
  | .call callee args => ⟨callee, args.length⟩ :: callsAll args

def callsAll : List Expr → List CallSite
  | [] => []
  | e :: es => e.calls ++ callsAll es

end

end Expr

end ReactiveView
