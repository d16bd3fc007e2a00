/-!
# Binary floating-point numbers as text

A JSON number with a fraction or an exponent denotes the nearest number with 53 significant binary
digits and an exponent in the range of the binary64 format. `ofRatio` finds it exactly, in natural
numbers, and `text` writes it with the fewest decimal digits that still denote it.
-/

namespace ShiftReduce

namespace Json

/-- The number `mantissa · 2 ^ exponent`, not negative. -/
structure Binary64 where
  mantissa : Nat
  exponent : Int
deriving DecidableEq, Repr

namespace Binary64

/-- The least exponent. -/
def minExponent : Int := -1074

/-- Numerator and denominator of `num / den · 2 ^ e`. -/
def shift (num den : Nat) (e : Int) : Nat × Nat :=
  if e < 0 then (num, den * Nat.pow 2 (-e).toNat) else (num * Nat.pow 2 e.toNat, den)

/-- The integer nearest to `num / den`; a half goes to the even neighbour. -/
def roundHalfEven (num den : Nat) : Nat :=
  let q := num / den
  let r := 2 * (num % den)
  if r < den || (r == den && q % 2 == 0) then q else q + 1

/-- The nearest number to `num / den`; a half goes to the even mantissa. -/
def ofRatio (num den : Nat) : Binary64 :=
  if num = 0 then ⟨0, minExponent⟩
  else
    let guess := max ((num.log2 : Int) - den.log2 - 53) minExponent
    let (n, d) := shift num den (-guess)
    let e := if Nat.pow 2 53 ≤ n / d then guess + 1 else guess
    let (n, d) := shift num den (-e)
    let m := roundHalfEven n d
    if m = Nat.pow 2 53 then ⟨Nat.pow 2 52, e + 1⟩ else ⟨m, e⟩

/-- The number is too big for the format. -/
def isInfinite (x : Binary64) : Bool := 971 < x.exponent

/-- Numerator and denominator. -/
def ratio (x : Binary64) : Nat × Nat := shift x.mantissa 1 x.exponent

/-- The rounded product. -/
def mul (x y : Binary64) : Binary64 :=
  ofRatio (x.ratio.1 * y.ratio.1) (x.ratio.2 * y.ratio.2)

/-- The rounded quotient. -/
def div (x y : Binary64) : Binary64 :=
  ofRatio (x.ratio.1 * y.ratio.2) (x.ratio.2 * y.ratio.1)

/-- The rounded power of ten. -/
def pow10 (k : Nat) : Binary64 := ofRatio (Nat.pow 10 k) 1

/-- `significand · 10 ^ exponent` by one rounded multiplication or division by a power of ten, or
by several divisions where the power is out of range; `none` if the number is too big. -/
def scale : Nat → Binary64 → Int → Option Binary64
  | 0, x, _ => some x
  | fuel + 1, x, e =>
    if e.natAbs ≤ 308 then
      if e < 0 then some (x.div (pow10 e.natAbs))
      else
        let y := x.mul (pow10 e.natAbs)
        if y.isInfinite then none else some y
    else if x.mantissa = 0 then some x
    else if 0 ≤ e then none
    else scale fuel (x.div (pow10 308)) (e + 308)

/-- `significand · 10 ^ exponent`, for a significand of at most 64 binary digits; `none` if the
number is too big. -/
def ofDecimal (significand : Nat) (exponent : Int) : Option Binary64 :=
  scale 4 (ofRatio significand 1) exponent

/-! ## Shortest decimal text -/

/-- The number of decimal digits before the point of `num / den`, negative if zeros follow it. -/
def decimalPoint (num den : Nat) : Int :=
  if den ≤ num then (Nat.toDigits 10 (num / den)).length
  else
    let zeros := ((List.range 400).find? fun j => den ≤ num * Nat.pow 10 (j + 1)).getD 0
    Int.negOfNat zeros

/-- The decimal `d · 10 ^ k` lies within the interval of the numbers that round to the number:
`lower` and `upper` over `den`, ends included if `closed`. -/
def covers (lower upper den : Nat) (closed : Bool) (d : Nat) (k : Int) : Bool :=
  let (n, m) := if k < 0 then (d * den, Nat.pow 10 k.natAbs) else (d * den * Nat.pow 10 k.natAbs, 1)
  if closed then lower * m ≤ n && n ≤ upper * m else lower * m < n && n < upper * m

/-- Without its final zeros, `d · 10 ^ k` is the pair of the digits left and the exponent. -/
def stripZeros : Nat → Nat → Int → Nat × Int
  | 0, d, k => (d, k)
  | fuel + 1, d, k => if d % 10 = 0 then stripZeros fuel (d / 10) (k + 1) else (d, k)

/-- The digits `d` and the exponent `k` of the shortest decimal `d · 10 ^ k` that denotes the
number, of several the nearest one. -/
def shortest (x : Binary64) : Nat × Int :=
  let (v, den) := shift (4 * x.mantissa) 1 (x.exponent - 2)
  let unit := v / (4 * x.mantissa)
  let below := if x.mantissa = Nat.pow 2 52 ∧ minExponent < x.exponent then 1 else 2
  let lower := v - below * unit
  let upper := v + 2 * unit
  let closed := x.mantissa % 2 == 0
  let point := decimalPoint v den
  let candidate (digits : Nat) : Option (Nat × Int) :=
    let k := point - digits
    let (n, m) := if k < 0 then (v * Nat.pow 10 k.natAbs, den) else (v, den * Nat.pow 10 k.natAbs)
    let nearest := roundHalfEven n m
    let floor := n / m
    let other := if nearest = floor then floor + 1 else floor
    ([nearest, other].find? fun d => covers lower upper den closed d k).map (·, k)
  match (List.range 17).findSome? fun i => candidate (i + 1) with
  | some (d, k) => stripZeros 20 d k
  | none => (0, 0)

/-- The number as text: with a decimal point if that takes at most 16 digits before it or at most
4 zeros after it, else with an exponent. -/
def text (x : Binary64) : List Char :=
  if x.mantissa = 0 then "0.0".toList
  else
    let (d, k) := x.shortest
    let ds := Nat.toDigits 10 d
    let point : Int := ds.length + k
    if 0 ≤ k ∧ point ≤ 16 then ds ++ List.replicate k.toNat '0' ++ ['.', '0']
    else if 0 < point ∧ point ≤ 16 then ds.take point.toNat ++ '.' :: ds.drop point.toNat
    else if -5 < point ∧ point ≤ 0 then
      '0' :: '.' :: (List.replicate (-point).toNat '0' ++ ds)
    else
      let fraction := if ds.length = 1 then [] else '.' :: ds.tail
      let sign := if point < 1 then '-' else '+'
      ds.take 1 ++ fraction ++ 'e' :: sign :: Nat.toDigits 10 (point - 1).natAbs

end Binary64

end Json

end ShiftReduce
