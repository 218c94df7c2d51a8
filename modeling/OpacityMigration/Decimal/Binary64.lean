/-!
# Binary numbers of 53 bits

The finite non-negative numbers of the 64-bit binary format: a mantissa below `2 ^ 53` times a
power of two that is at least `2 ^ -1074`. All arithmetic is exact arithmetic on ratios of natural
numbers followed by one rounding to the nearest number of the format, a tie going to the even
mantissa.
-/

namespace OpacityMigration.Decimal

/-- The number `mantissa * 2 ^ exponent`. -/
structure Binary64 where
  mantissa : Nat
  exponent : Int
deriving DecidableEq, Repr

/-- The integer nearest to `num / den`; halfway between two, the even one. -/
def roundDiv (num den : Nat) : Nat :=
  let q := num / den
  let r := num % den
  if 2 * r < den then q
  else if den < 2 * r then q + 1
  else q + q % 2

namespace Binary64

def minExponent : Int := -1074

def maxExponent : Int := 971

def zero : Binary64 := ⟨0, minExponent⟩

/-- Mantissas stay below this: they have 53 bits. -/
def mantissaBound : Nat := 0x20_0000_0000_0000

/-- The least mantissa of 53 bits. -/
def fullMantissa : Nat := 0x10_0000_0000_0000

/-- The ratio `num / den`, divided by `2 ^ exponent`. -/
def scale (num den : Nat) (exponent : Int) : Nat × Nat :=
  (num <<< (-exponent).toNat, den <<< exponent.toNat)

/-- The number nearest to `num / den`; `none` if that is beyond the greatest number. -/
def ofRatio? (num den : Nat) : Option Binary64 :=
  if num = 0 then some zero
  else
    let low : Int := (Nat.log2 num : Int) - Nat.log2 den - 53
    let (n, d) := scale num den low
    let exponent := max minExponent (if n < d * mantissaBound then low else low + 1)
    let (n, d) := scale num den exponent
    let mantissa := roundDiv n d
    let result : Binary64 :=
      if mantissa = mantissaBound then ⟨fullMantissa, exponent + 1⟩ else ⟨mantissa, exponent⟩
    if maxExponent < result.exponent then none else some result

def ofNat? (n : Nat) : Option Binary64 :=
  ofRatio? n 1

def ratio (x : Binary64) : Nat × Nat :=
  scale x.mantissa 1 (-x.exponent)

def mul? (x y : Binary64) : Option Binary64 :=
  ofRatio? (x.ratio.1 * y.ratio.1) (x.ratio.2 * y.ratio.2)

/-- The rounded quotient by a number other than zero. -/
def div? (x y : Binary64) : Option Binary64 :=
  ofRatio? (x.ratio.1 * y.ratio.2) (x.ratio.2 * y.ratio.1)

def tenTo (n : Nat) : Nat := Nat.pow 10 n

/-- The greatest power of ten of the format. -/
def maxPowerOfTen : Nat := 308

/-- `x` divided by `10 ^ n`, in steps of at most `10 ^ 308`. -/
def divPowerOfTen? (x : Binary64) (n : Nat) : Option Binary64 :=
  if x.mantissa = 0 then some x
  else
    if _h : n ≤ maxPowerOfTen then
      (ofNat? (tenTo n)).bind x.div?
    else
      ((ofNat? (tenTo maxPowerOfTen)).bind x.div?).bind (divPowerOfTen? · (n - maxPowerOfTen))
termination_by n
decreasing_by
  simp only [maxPowerOfTen] at *
  omega

/-- `x` times `10 ^ n`; `none` beyond the greatest number. -/
def mulPowerOfTen? (x : Binary64) (n : Nat) : Option Binary64 :=
  if x.mantissa = 0 then some x
  else if n ≤ maxPowerOfTen then (ofNat? (tenTo n)).bind x.mul?
  else none

/-- The number read from the decimal `significand * 10 ^ exponent`: the significand is rounded,
then the product or quotient with the power of ten. `none` beyond the greatest number. -/
def ofDecimal? (significand : Nat) (exponent : Int) : Option Binary64 :=
  (ofNat? significand).bind fun x =>
    if 0 ≤ exponent then x.mulPowerOfTen? exponent.toNat else x.divPowerOfTen? (-exponent).toNat

end Binary64

end OpacityMigration.Decimal
