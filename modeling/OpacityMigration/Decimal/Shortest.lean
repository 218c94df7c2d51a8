import OpacityMigration.Decimal.Binary64

/-!
# The shortest decimal of a binary number

Of the decimals that round to a given binary number, `shortest` takes those with the fewest digits
and of these the nearest: the coarsest decimal grid that has a point in the interval of all reals
that round to the number, and on it the point nearest to the number. `text` lays the digits out.
-/

namespace OpacityMigration.Decimal

/-- The decimal `digits * 10 ^ exponent`. -/
structure Scientific where
  digits : Nat
  exponent : Int
deriving DecidableEq, Repr

namespace Binary64

/-- Quarters of the mantissa's unit between the number and the lower end of its interval: half a
unit, or a quarter where the numbers below are twice as dense. -/
def lowerGap (x : Binary64) : Nat :=
  if x.mantissa = fullMantissa ∧ minExponent < x.exponent then 1 else 2

/-- Whether the decimal `c * 10 ^ p` rounds to `x`. The ends of the interval round to an even
mantissa. -/
def rounds (x : Binary64) (c : Nat) (p : Int) : Bool :=
  let (unit, den) := scale 1 4 (-x.exponent)
  let point := c * tenTo p.toNat * den
  let below := (4 * x.mantissa - x.lowerGap) * unit * tenTo (-p).toNat
  let above := (4 * x.mantissa + 2) * unit * tenTo (-p).toNat
  if x.mantissa % 2 = 0 then below ≤ point && point ≤ above
  else below < point && point < above

/-- The point of the grid of multiples of `10 ^ p` that is nearest to `x`, if it rounds to `x`. -/
def onGrid? (x : Binary64) (p : Int) : Option Scientific :=
  let num := x.ratio.1 * tenTo (-p).toNat
  let den := x.ratio.2 * tenTo p.toNat
  let near := roundDiv num den
  let far := if near * den ≤ num then near + 1 else near - 1
  if x.rounds near p then some ⟨near, p⟩
  else if x.rounds far p then some ⟨far, p⟩
  else none

/-- Grids from `10 ^ p` downwards, `n` of them. -/
def searchGrids (x : Binary64) : Nat → Int → Option Scientific
  | 0, _ => none
  | n + 1, p => (x.onGrid? p).or (searchGrids x n (p - 1))

/-- The decimal with the fewest digits that rounds to `x`. No number of the format needs a grid
finer than `10 ^ -343` or admits one coarser than `10 ^ 308`. -/
def shortest (x : Binary64) : Scientific :=
  (x.searchGrids 652 308).getD ⟨0, 0⟩

end Binary64

namespace Scientific

/-- Positional from `10 ^ -5` up to below `10 ^ 16`, with a point and a digit after it; otherwise
one digit before the point, no point if no digit follows, and an exponent with its sign. -/
def text (d : Scientific) : List Char :=
  let digits := Nat.toDigits 10 d.digits
  let leading : Int := d.exponent + digits.length - 1
  if d.digits = 0 then "0.0".toList
  else if -5 ≤ leading ∧ leading ≤ 15 then
    if 0 ≤ d.exponent then digits ++ List.replicate d.exponent.toNat '0' ++ ".0".toList
    else if 0 ≤ leading then
      digits.take (leading.toNat + 1) ++ '.' :: digits.drop (leading.toNat + 1)
    else "0.".toList ++ List.replicate (-leading - 1).toNat '0' ++ digits
  else
    let fraction := match digits.tail with
      | [] => []
      | more => '.' :: more
    digits.take 1 ++ fraction ++ 'e' :: (if leading < 0 then '-' else '+') ::
      Nat.toDigits 10 leading.natAbs

end Scientific

end OpacityMigration.Decimal
