import ReactiveView.Decimal.Layout
import ReactiveView.Text.Case

namespace ReactiveView

structure Color where
  red : Int
  green : Int
  blue : Int
  alpha : Int := 255
  deriving DecidableEq

namespace Color

def palette : List (String × Color) :=
  [("transparent", ⟨0, 0, 0, 0⟩), ("white", ⟨255, 255, 255, 255⟩), ("black", ⟨0, 0, 0, 255⟩),
   ("gray", ⟨128, 128, 128, 255⟩), ("light_gray", ⟨200, 200, 200, 255⟩),
   ("dark_gray", ⟨64, 64, 64, 255⟩), ("red", ⟨244, 67, 54, 255⟩), ("green", ⟨76, 175, 80, 255⟩),
   ("blue", ⟨33, 150, 243, 255⟩), ("yellow", ⟨255, 235, 59, 255⟩), ("orange", ⟨255, 152, 0, 255⟩),
   ("purple", ⟨156, 39, 176, 255⟩), ("cyan", ⟨0, 188, 212, 255⟩), ("pink", ⟨233, 30, 99, 255⟩)]

def hexDigit? (c : Char) : Option Nat :=
  if c.isDigit then some (c.toNat - '0'.toNat)
  else if 'a' ≤ c ∧ c ≤ 'f' then some (c.toNat - 'a'.toNat + 10)
  else if 'A' ≤ c ∧ c ≤ 'F' then some (c.toNat - 'A'.toNat + 10)
  else none

/-- Build a color from hex digits: one digit for each channel is doubled, and without digits for
alpha the color is opaque. -/
def ofDigits? : List Nat → Option Color
  | [r, g, b] => some ⟨r * 17, g * 17, b * 17, 255⟩
  | [r, g, b, a] => some ⟨r * 17, g * 17, b * 17, a * 17⟩
  | [r, r', g, g', b, b'] => some ⟨r * 16 + r', g * 16 + g', b * 16 + b', 255⟩
  | [r, r', g, g', b, b', a, a'] =>
    some ⟨r * 16 + r', g * 16 + g', b * 16 + b', a * 16 + a'⟩
  | _ => none

def ofHexChars? : List Char → Option Color
  | '#' :: rest => (rest.mapM hexDigit?).bind ofDigits?
  | cs => (cs.mapM hexDigit?).bind ofDigits?

def ofHex? (s : String) : Option Color := ofHexChars? s.toList

def ofText? (s : String) : Option Color :=
  if s.toList.head? = some '#' then ofHex? s else palette.lookup (Text.lower s)

open Binary64 in
/-- Opacity between 0 and 1, rounded to three decimal places, a half going up. -/
def opacity (c : Color) : Binary64 :=
  let scaled := ((ofInt c.alpha).div (ofInt 255)).mul (ofInt 1000)
  let rounded := (2 * scaled.signedUnits + unitsPerOne).fdiv (2 * unitsPerOne)
  (ofInt rounded).div (ofInt 1000)

def channelText (channel : Int) : String := (Binary64.ofInt channel).numeral

def css (c : Color) : String :=
  "rgba(" ++ channelText c.red ++ ", " ++ channelText c.green ++ ", " ++ channelText c.blue ++ ", " ++
    c.opacity.numeral ++ ")"

end Color

end ReactiveView
