import ReactiveView.Value

namespace ReactiveView

def objectOverhead : Nat := 16

def entryOverhead : Nat := 32

def nodeOverhead : Int := 96

def sizeOfString (s : String) : Nat := objectOverhead + 2 * Text.units16 s

def Value.size : Value → Nat
  | .int _ => objectOverhead + 8
  | .float _ => objectOverhead + 8
  | .str s => objectOverhead + sizeOfString s
  | .bool _ => objectOverhead
  | .null => objectOverhead

def sizeOfEntry (name : String) (value : Value) : Nat :=
  entryOverhead + sizeOfString name + value.size

/-- Size of a node before its text, value and properties are counted. -/
def sizeOfNodeShell (children : Int) : Int := nodeOverhead + 8 * children

end ReactiveView
