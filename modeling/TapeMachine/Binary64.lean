/-!
# Double precision numbers

The fractions of a settings file or a log entry are double precision numbers: a decimal is read as
the nearest of them, and one is written with the fewest digits that read back as it. All arithmetic
is exact, on natural numbers.

## Main statements

* `ofDecimal_zero` — no digits but zeros make a zero
* `text_half`, `text_large` — the positional and the exponent form
-/

namespace TapeMachine

/-- A double precision number; `finite negative m e` is `m · 2^e`, where `m` is below 2^53 and has
53 binary digits unless `e` is the least exponent. -/
inductive Binary64 where
  | nan
  | infinity (negative : Bool)
  | finite (negative : Bool) (mantissa : Nat) (exponent : Int)
  deriving DecidableEq, Repr, Inhabited

namespace Binary64

/-! ## Reading -/

/-- The quotient to the nearest whole number; halves go to the even one. -/
def roundDiv (num den : Nat) : Nat :=
  let q := num / den
  let r := num % den
  if 2 * r < den then q
  else if den < 2 * r then q + 1
  else if q % 2 = 0 then q else q + 1

def leastExponent : Int := -1074

/-- Every mantissa is below this number, 2^53. -/
def mantissaLimit : Nat := 1 <<< 53

/-- The number of that sign nearest to `num / den`. -/
def ofRatio (negative : Bool) (num den : Nat) : Binary64 :=
  if num = 0 then .finite negative 0 leastExponent
  else
    let estimate : Int := (num.log2 : Int) - (den.log2 : Int) - 53
    let scaled (e : Int) : Nat × Nat :=
      if e < 0 then (num <<< (-e).toNat, den) else (num, den <<< e.toNat)
    -- the estimate gives 53 or 54 binary digits; in the second case it is one too small
    let wide := scaled estimate
    let e := max leastExponent (if wide.1 / wide.2 < mantissaLimit then estimate else estimate + 1)
    let (n, d) := scaled e
    let m := roundDiv n d
    -- rounding up may have given a digit too many
    let (m, e) := if m = mantissaLimit then (m / 2, e + 1) else (m, e)
    if 971 < e then .infinity negative else .finite negative m e

/-- The number nearest to `digits · 10^scale`. Scales beyond the range of all numbers are settled
by the count of digits. -/
def ofDecimal (negative : Bool) (digits : Nat) (scale : Int) : Binary64 :=
  if digits = 0 then .finite negative 0 leastExponent
  else
    let size : Int := (Nat.toDigits 10 digits).length + scale
    if size < -400 then .finite negative 0 leastExponent
    else if 400 < size then .infinity negative
    else if scale < 0 then ofRatio negative digits (Nat.pow 10 (-scale).toNat)
    else ofRatio negative (digits * Nat.pow 10 scale.toNat) 1

theorem ofDecimal_zero (negative : Bool) (scale : Int) :
    ofDecimal negative 0 scale = .finite negative 0 leastExponent := rfl

/-! ## Writing -/

/-- Numerator and denominator of `m · 2^e`. -/
def ratio (m : Nat) (e : Int) : Nat × Nat :=
  if e < 0 then (m, 1 <<< (-e).toNat) else (m <<< e.toNat, 1)

/-- The decimal exponent `p` with `10^p ≤ num / den < 10^(p+1)`, for positive numbers. -/
def decimalExponent (num den : Nat) : Int :=
  if den ≤ num then ((Nat.toDigits 10 (num / den)).length : Int) - 1
  else
    let count := (Nat.toDigits 10 (den / num)).length
    if den ≤ num * Nat.pow 10 (count - 1) then 1 - (count : Int) else -(count : Int)

/-- The digits and the scale of the nearest decimal with the fewest digits that reads back as
`num / den`; `count` digits are tried first, and `tries` lengths at most. -/
def shortest (num den : Nat) (exponent : Int) : (tries count : Nat) → Nat × Int
  | 0, count => (0, exponent - (count : Int) + 1)
  | tries + 1, count =>
    let scale := exponent - (count : Int) + 1
    let (n, d) := if scale < 0 then (num * Nat.pow 10 (-scale).toNat, den)
      else (num, den * Nat.pow 10 scale.toNat)
    let nearest := roundDiv n d
    let value := ofRatio false num den
    let low := n / d
    let readsBack (digits : Nat) : Bool := ofDecimal false digits scale == value
    -- at a power of two the gap below is half the gap above, so a neighbour may do
    if readsBack nearest then (nearest, scale)
    else if readsBack low then (low, scale)
    else if readsBack (low + 1) then (low + 1, scale)
    else shortest num den exponent tries (count + 1)

/-- Decimal digits without the zeros at the end. -/
def dropZeros (digits : List Char) : List Char := (digits.reverse.dropWhile (· == '0')).reverse

/-- The text of significant digits, the first of which stands for `10^exponent`: positional from
`10^-4` up to `10^16`, with an exponent of two digits or more outside. -/
def layout (digits : List Char) (exponent : Int) : List Char :=
  let count : Int := digits.length
  if -4 ≤ exponent ∧ exponent < 16 then
    if exponent < 0 then
      ['0', '.'] ++ List.replicate (-exponent - 1).toNat '0' ++ digits
    else if count ≤ exponent + 1 then
      digits ++ List.replicate (exponent + 1 - count).toNat '0' ++ ['.', '0']
    else digits.take (exponent + 1).toNat ++ '.' :: digits.drop (exponent + 1).toNat
  else
    let power := (Nat.repr exponent.natAbs).toList
    let power := if power.length < 2 then '0' :: power else power
    let tail := digits.drop 1
    digits.take 1 ++ (if tail.isEmpty then [] else '.' :: tail) ++
      ['e', if exponent < 0 then '-' else '+'] ++ power

/-- The text of a number: the fewest digits that read back as it. -/
def text : Binary64 → String
  | .nan => "nan"
  | .infinity false => "inf"
  | .infinity true => "-inf"
  | .finite negative m e =>
    let sign := if negative then "-" else ""
    if m = 0 then sign ++ "0.0"
    else
      let (num, den) := ratio m e
      let exponent := decimalExponent num den
      let (digits, scale) := shortest num den exponent 17 1
      let shown := Nat.toDigits 10 digits
      sign ++ String.ofList (layout (dropZeros shown) (scale + (shown.length : Int) - 1))

theorem text_half : (ofDecimal true 5 (-1)).text = "-0.5" := by decide +kernel

theorem text_large : (ofDecimal false 1 16).text = "1e+16" := by decide +kernel

/-! ## Arithmetic with whole numbers -/

/-- `n - x`, rounded to the nearest number. -/
def subFromInt (n : Int) : Binary64 → Binary64
  | .nan => .nan
  | .infinity negative => .infinity (!negative)
  | .finite negative m e =>
    let (num, den) := ratio m e
    let x : Int := if negative then -(num : Int) else (num : Int)
    let difference : Int := n * (den : Int) - x
    ofRatio (difference < 0) difference.natAbs den

/-- Which side of a whole number a number is on; a NaN is on none. -/
def compareInt? (n : Int) : Binary64 → Option Ordering
  | .nan => none
  | .infinity negative => some (if negative then .lt else .gt)
  | .finite negative m e =>
    let (num, den) := ratio m e
    some (compare (if negative then -(num : Int) else (num : Int)) (n * (den : Int)))

def isNegative : Binary64 → Bool
  | .nan => false
  | .infinity negative => negative
  | .finite negative m _ => negative && m != 0

end Binary64

end TapeMachine
