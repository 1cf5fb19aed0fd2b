import ReactiveView.Document.Basic
import ReactiveView.Expr.Evaluate
import ReactiveView.Sandbox.Meter
import ReactiveView.Sandbox.Size

namespace ReactiveView

/-- Hold the committed state, the account its memory is charged to, and whether a transaction is
running. -/
structure Store (α : Type := Int) where
  state : State
  account : Account α
  busy : Bool := false

structure Working (α : Type := Int) where
  state : State
  account : Account α
  charged : α

namespace Store

variable {α : Type}

def enter (s : Store α) : Store α := { s with busy := true }

def leave (s : Store α) : Store α := { s with busy := false }

def read (s : Store α) (e : Expr) : Except Fault Value := e.evaluate s.state

def sizeOfState (state : State) : Nat :=
  (state.entries.map fun entry => sizeOfEntry entry.1 entry.2).foldr (· + ·) 0

variable [Add α] [Sub α] [Neg α] [LT α] [DecidableLT α] [OfNat α 0] [NatCast α] [Amount α]

def create (initial : State) (account : Account α) : Except SandboxError (Store α) := do
  return { state := initial, account := ← account.allocate (sizeOfState initial) "initial state" }

def mutationFailure (label target : String) : Fault → Failure
  | .evaluation cause => .action (.evaluation label target cause)
  | fault => fault.toFailure

def step (label : String) (m : Mutation) (w : Working α) : Except Failure (Working α) :=
  if !w.state.has m.target then .error (.defect (.undeclaredAssignment label m.target))
  else
    match m.expr.evaluate w.state with
    | .error fault => .error (mutationFailure label m.target fault)
    | .ok value =>
      match w.account.allocate value.size ("action \"" ++ label ++ "\"") with
      | .error cause => .error (.sandbox cause)
      | .ok account => .ok ⟨w.state.put m.target value, account, w.charged + value.size⟩

/-- Run mutations in order up to the first that fails. The working copy is the last good one. -/
def steps (label : String) : List Mutation → Working α → Except Failure Unit × Working α
  | [], w => (.ok (), w)
  | m :: rest, w =>
    match step label m w with
    | .error failure => (.error failure, w)
    | .ok next => steps label rest next

def targets (mutations : List Mutation) : List String := (mutations.map Mutation.target).eraseDups

def changed (before after : State) (name : String) : Bool :=
  match before.get? name, after.get? name with
  | some v, some w => !v.identical w
  | _, _ => false

def growth (before after : State) (name : String) : α :=
  match before.get? name, after.get? name with
  | some v, some w => (w.size : α) - (v.size : α)
  | _, _ => 0

def netGrowth (before after : State) (names : List String) : α :=
  names.foldl (fun delta name => delta + growth before after name) 0

/-- Trade the charges of a working copy for the net growth of the state. -/
def settle (account : Account α) (charged delta : α) : Except SandboxError (Account α) :=
  let released := account.release charged
  if 0 < delta then released.allocate delta "state commit" else .ok (released.release (-delta))

def discard (s : Store α) (w : Working α) : Store α :=
  { s with account := w.account.release w.charged }

/-- Install a working copy, if it changes anything, and report what changed. -/
def commit (s : Store α) (names : List String) (w : Working α) :
    Except Failure (List String) × Store α :=
  let dirty := names.filter (changed s.state w.state)
  match settle w.account w.charged (netGrowth s.state w.state names) with
  | .error cause => (.error (.sandbox cause), s.discard w)
  | .ok account =>
    (.ok dirty, { s with state := if dirty.isEmpty then s.state else w.state, account })

def transact (s : Store α) (label : String) (mutations : List Mutation) :
    Except Failure (List String) × Store α :=
  if s.busy then (.error (.defect (.nestedTransaction label)), s)
  else
    match steps label mutations ⟨s.state, s.account, 0⟩ with
    | (.error failure, w) => (.error failure, (s.enter.discard w).leave)
    | (.ok (), w) =>
      let (outcome, later) := commit s.enter (targets mutations) w
      (outcome, later.leave)

def apply (s : Store α) (a : Action) : Except Failure (List String) × Store α :=
  s.transact a.name a.mutations

def assign (s : Store α) (name : String) (value : Value) :
    Except Failure (List String) × Store α :=
  s.transact ("bind:" ++ name) [⟨name, .literal value⟩]

def execute (s : Store α) (actions : Table Action) (name : String) :
    Except Failure (List String) × Store α :=
  match actions.get? name with
  | some a => s.apply a
  | none => (.error (.action (.unknownAction name)), s)

end Store

end ReactiveView
