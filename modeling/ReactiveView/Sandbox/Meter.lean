import ReactiveView.Error.Sandbox

namespace ReactiveView

/-- Amounts that a meter can count. -/
class Amount (α : Type) where
  /-- Largest amount within a limit. -/
  cap : Limit → α
  /-- Number that errors show for an amount. -/
  number : α → Binary64

instance : Amount Int := ⟨Limit.most, .ofInt⟩

instance : Amount Binary64 := ⟨Limit.number, id⟩

/-- Meter of the memory an application may use. Owners charge an estimate for what they keep alive and
release it when they drop it; the running total stays within the limit. -/
structure Meter (α : Type := Int) where
  limit : Limit := .ofInt memoryLimitBytes
  usage : α := by exact 0
  peak : α := by exact 0
  deriving DecidableEq

variable {α : Type} [Add α] [Sub α] [LT α] [DecidableLT α] [OfNat α 0] [Amount α]

namespace Meter

def allocate (m : Meter α) (amount : α) (what : String) : Except SandboxError (Meter α) :=
  let next := m.usage + amount
  if Amount.cap m.limit < next then
    .error (.memoryExceeded m.limit.number what (Amount.number m.usage) (Amount.number amount))
  else .ok { m with usage := next, peak := if m.peak < next then next else m.peak }

def release (m : Meter α) (amount : α) : Meter α :=
  { m with usage := if m.usage - amount < 0 then 0 else m.usage - amount }

end Meter

abbrev Account (α : Type := Int) := Option (Meter α)

namespace Account

def allocate (account : Account α) (amount : α) (what : String) : Except SandboxError (Account α) :=
  match account with
  | none => .ok none
  | some meter => (meter.allocate amount what).map some

def release (account : Account α) (amount : α) : Account α :=
  account.map fun meter => meter.release amount

end Account

end ReactiveView
