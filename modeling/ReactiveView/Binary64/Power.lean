import ReactiveView.Binary64.Arithmetic

namespace ReactiveView.Binary64

instance : Mul Binary64 := ⟨mul⟩

instance : Div Binary64 := ⟨div⟩

def one : Binary64 := ofInt 1

def half : Binary64 := ofBits 0x3FE0000000000000

def quarter : Binary64 := ofBits 0x3FD0000000000000

def third : Binary64 := ofBits 0x3FD5555555555555

def series (coefficients : List Binary64) (z : Binary64) : Binary64 :=
  coefficients.foldr (fun c rest => c + z * rest) zero

def code : Binary64 → Nat
  | .nan => 0
  | .signed _ code => code.val

def halfPatterns : Nat := 0x100000000

def upperHalf (x : Binary64) : Nat := x.code / halfPatterns

/-- Drop the lower half of the pattern. At most 21 digits are left, so that the product of two
truncated numbers is exact. -/
def truncate : Binary64 → Binary64
  | .nan => .nan
  | .signed negative code =>
    .signed negative
      ⟨code.val / halfPatterns * halfPatterns,
        Nat.lt_of_le_of_lt (Nat.div_mul_le_self ..) code.isLt⟩

def scale (x : Binary64) (exponent : Int) : Binary64 :=
  if 0 ≤ exponent then ofRatio x.isNegative (units x.code * Nat.pow 2 exponent.toNat) 1
  else ofRatio x.isNegative (units x.code) (Nat.pow 2 (-exponent).toNat)

structure Split where
  head : Binary64
  tail : Binary64

structure SplitConstant where
  full : Binary64
  head : Binary64
  tail : Binary64

def ln2 : SplitConstant :=
  ⟨ofBits 0x3FE62E42FEFA39EF, ofBits 0x3FE62E4300000000, ofBits 0xBE205C610CA86C39⟩

def inverseLn2 : SplitConstant :=
  ⟨ofBits 0x3FF71547652B82FE, ofBits 0x3FF7154760000000, ofBits 0x3E54AE0BF85DDF44⟩

def seriesScale : SplitConstant :=
  ⟨ofBits 0x3FEEC709DC3A03FD, ofBits 0x3FEEC709E0000000, ofBits 0xBE3E2FE0145B01F5⟩

def overflowMargin : Binary64 := ofBits 0x3C971547652B82FE

/-- Hold a magnitude as a number near a centre, times a power of two. The centre is one, or one and
a half when `wide` is set. -/
structure Reduced where
  exponent : Int
  number : Binary64
  wide : Bool

namespace Reduced

def centre (r : Reduced) : Binary64 := if r.wide then ofBits 0x3FF8000000000000 else one

def centreLog (r : Reduced) : Split :=
  if r.wide then ⟨ofBits 0x3FE2B80340000000, ofBits 0x3E4CFDEB43CFD006⟩ else ⟨zero, zero⟩

def ofNormal (x : Binary64) : Reduced :=
  let lead := x.upperHalf % 0x100000
  let exponent : Int := (x.code / codesPerSpacing : Nat) - 1023
  let number := ofCode false (1023 * codesPerSpacing + x.code % codesPerSpacing)
  if lead ≤ 0x3988E then ⟨exponent, number, false⟩
  else if lead < 0xBB67A then ⟨exponent, number, true⟩
  else ⟨exponent + 1, ofCode false (1022 * codesPerSpacing + x.code % codesPerSpacing), false⟩

def ofMagnitude (x : Binary64) : Reduced :=
  if x.code < codesPerSpacing then
    let r := ofNormal (scale x 53)
    { r with exponent := r.exponent - 53 }
  else ofNormal x

def sumHead (r : Reduced) : Binary64 :=
  ofBits ((r.number.upperHalf / 2 + 0x20080000 + if r.wide then 0x40000 else 0) * halfPatterns)

end Reduced

/-- Coefficients of the logarithm of `(1 + s) / (1 - s)`, in powers of the square of `s`. -/
def logSeries : List Binary64 :=
  [ofBits 0x3FE3333333333303, ofBits 0x3FDB6DB6DB6FABFF, ofBits 0x3FD55555518F264D,
   ofBits 0x3FD17460A91D4101, ofBits 0x3FCD864A93C9DB65, ofBits 0x3FCA7E284A454EEF]

def log2 (x : Binary64) : Split :=
  let r := Reduced.ofMagnitude x
  let three := ofInt 3
  let difference := r.number - r.centre
  let inverse := one / (r.number + r.centre)
  let s := difference * inverse
  let sHead := s.truncate
  let sumTail := r.number - (r.sumHead - r.centre)
  let sTail := inverse * ((difference - sHead * r.sumHead) - sHead * sumTail)
  let square := s * s
  let rest := square * square * series logSeries square + sTail * (sHead + s)
  let headSquare := sHead * sHead
  let factorHead := (three + headSquare + rest).truncate
  let factorTail := rest - ((factorHead - three) - headSquare)
  let u := sHead * factorHead
  let v := sTail * factorHead + factorTail * s
  let head := (u + v).truncate
  let tail := v - (head - u)
  let scaledHead := seriesScale.head * head
  let scaledTail := seriesScale.tail * head + tail * seriesScale.full + r.centreLog.tail
  let exponent := ofInt r.exponent
  let result := (((scaledHead + scaledTail) + r.centreLog.head) + exponent).truncate
  ⟨result, scaledTail - (((result - exponent) - r.centreLog.head) - scaledHead)⟩

/-- Binary logarithm of a number that differs from one by `2 ^ (-20)` at most. -/
def log2NearOne (x : Binary64) : Split :=
  let t := x - one
  let w := (t * t) * (half - t * (third - t * quarter))
  let u := inverseLn2.head * t
  let v := t * inverseLn2.tail - w * inverseLn2.full
  let head := (u + v).truncate
  ⟨head, v - (head - u)⟩

def Split.times (s : Split) (y : Binary64) : Split :=
  ⟨y.truncate * s.head, (y - y.truncate) * s.head + y * s.tail⟩

def Split.sum (s : Split) : Binary64 := s.tail + s.head

def nearestWhole (x : Binary64) : Int :=
  if 0x3FE00000 < x.upperHalf then Rounding.nearest.apply x.truncate.signedUnits else 0

def expSeries : List Binary64 :=
  [ofBits 0x3FC555555555553E, ofBits 0xBF66C16C16BEBD93, ofBits 0x3F11566AAF25DE2C,
   ofBits 0xBEBBBD41C5D26BF1, ofBits 0x3E66376972BEA4D0]

def exp2 (s : Split) : Binary64 :=
  let whole := nearestWhole s.sum
  let head := s.head - ofInt whole
  let t := (s.tail + head).truncate
  let u := t * ln2.head
  let v := (s.tail - (t - head)) * ln2.full + t * ln2.tail
  let z := u + v
  let w := v - (z - u)
  let square := z * z
  let c := z - square * series expSeries square
  let r := (z * c) / ((c - ofInt 2) - (w + z * w))
  scale (one - (r - z)) whole

def exp2Bounded (s : Split) : Binary64 :=
  let high := ofInt 1024
  let low := ofInt (-1075)
  if numLt high s.sum ||
      numEq high s.sum && numLt (s.sum - s.head) (s.tail + overflowMargin) then
    infinity false
  else if numLt s.sum low || numEq low s.sum && numLe s.tail (s.sum - s.head) then zero
  else exp2 s

/-- Power of a magnitude that is no zero, not one and not infinite. An exponent beyond `2 ^ 31` in
magnitude leaves the format unless the base is close to one, and one beyond `2 ^ 64` always. -/
def powMagnitude (x y : Binary64) : Binary64 :=
  if 0x41E00000 < y.upperHalf then
    if 0x43F00000 < y.upperHalf ∨ x.upperHalf < 0x3FEFFFFF ∨ 0x3FF00000 < x.upperHalf then
      if decide (0x3FF00000 ≤ x.upperHalf) == y.isNegative then zero else infinity false
    else exp2Bounded ((log2NearOne x).times y)
  else exp2Bounded ((log2 x).times y)

def powInfinite (x : Binary64) (negative : Bool) : Binary64 :=
  if numEq x.abs one then .nan
  else if numLt x.abs one == negative then infinity false
  else zero

def powAbs (x y : Binary64) : Binary64 :=
  if x.isZero || x.isInfinite || numEq x one then (if y.isNegative then one / x else x)
  else powMagnitude x y

/-- Power. Nothing but the exponent zero makes a number of what is not one, and a negative base has
powers to whole exponents only. -/
def pow (x y : Binary64) : Binary64 :=
  if y.isZero then one
  else if x.isNaN || y.isNaN then .nan
  else if y.isInfinite then powInfinite x y.isNegative
  else if y = one then x
  else if y = ofInt (-1) then one / x
  else if y = ofInt 2 then x * x
  else if y = half && !x.isNegative then sqrt x
  else if x.isNegative then
    match y.toInt? with
    | some n => if n % 2 = 0 then powAbs x.abs y else (powAbs x.abs y).neg
    | none => if x.isZero || x.isInfinite then powAbs x.abs y else .nan
  else powAbs x y

end ReactiveView.Binary64
