import ReactiveView.Binary64.Arithmetic

namespace ReactiveView

def maxSourceBytes : Int := 1024 * 1024

def memoryLimitBytes : Int := 16 * 1024 * 1024

def sourceExtension : String := ".prism"

def maxFlushDepth : Int := 50

/-- Hold a limit of what can be counted: the number that was asked for, which errors show, and the
largest whole number within it. -/
structure Limit where
  number : Binary64
  most : Int
  deriving DecidableEq

namespace Limit

def ofInt (n : Int) : Limit := ⟨.ofInt n, n⟩

def ofNumber (x : Binary64) : Limit := ⟨x, Binary64.Rounding.down.apply x.signedUnits⟩

end Limit

end ReactiveView
