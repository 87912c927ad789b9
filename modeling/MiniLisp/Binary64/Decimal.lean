import MiniLisp.Binary64.Round

/-!
# Decimal notation

Reading: `ofDecimal coeff places` is the number nearest to `coeff / 10 ^ places`.

Printing: `text` is a sign, digits and at most one point, never an exponent. Among the decimals that
read back to the number it takes one on the coarsest grid of powers of ten, hence one with the
fewest digits, and there the nearest; of two at the same distance the larger.

Everything is exact in natural numbers, because `2 ^ -1074` is `5 ^ 1074` steps of `10 ^ -1074`.
-/

namespace MiniLisp.Binary64

/-- The number nearest to `coeff / 10 ^ places`. -/
def ofDecimal (coeff places : Nat) : Binary64 :=
  ofQuotient false (coeff * Nat.pow 2 1074) (Nat.pow 10 places)

/-- The decimal `coeff * 10 ^ step`, counted in steps of `10 ^ -1074`. -/
structure Decimal where
  coeff : Nat
  step : Nat
  deriving DecidableEq

/-- How many steps of `10 ^ -1074` one step of `2 ^ -1074` is. -/
def decimalUnit : Nat := Nat.pow 5 1074

/-- The magnitude of rank `rank` in steps of `10 ^ -1074`, exactly. -/
def decimalUnits (rank : Nat) : Nat := units rank * decimalUnit

namespace Decimal

def rank (d : Decimal) : Nat := nearest (d.coeff * Nat.pow 10 d.step) decimalUnit

/-- The decimals of grid `10 ^ step` on both sides of a magnitude that round to it: the nearer one
if both do, and the upper one if they are equally near. -/
def onGrid? (target step : Nat) : Option Decimal :=
  let exact := decimalUnits target
  let grid := Nat.pow 10 step
  let lower : Decimal := ⟨exact / grid, step⟩
  let upper : Decimal := ⟨exact / grid + 1, step⟩
  if lower.rank == target then
    if upper.rank == target && grid ≤ 2 * (exact % grid) then some upper else some lower
  else if upper.rank == target then some upper
  else none

/-- The first decimal found on the grids `10 ^ step`, `10 ^ (step - 1)`, ..., `1`; the last of them
holds the magnitude itself. -/
def search (target : Nat) : Nat → Decimal
  | 0 => ⟨decimalUnits target, 0⟩
  | step + 1 => (onGrid? target (step + 1)).getD (search target step)

/-- A power of ten above `n` has this exponent: `n` has at most `log2 n + 1` binary digits, and
`2 ^ 100000 < 10 ^ 30103`. -/
def stepAbove (n : Nat) : Nat := (Nat.log2 n + 1) * 30103 / 100000 + 1

/-- The fewest digits that read back to the magnitude of rank `target`. -/
def shortest (target : Nat) : Decimal := search target (stepAbove (decimalUnits target))

/-- `n` in decimal digits, with zeros in front up to `width` digits. -/
def padded (width n : Nat) : List Char :=
  let ds := Nat.toDigits 10 n
  List.replicate (width - ds.length) '0' ++ ds

/-- Positional notation: digits, and a point with digits after it if the decimal is no integer. -/
def chars (d : Decimal) : List Char :=
  if 1074 ≤ d.step then Nat.toDigits 10 (d.coeff * Nat.pow 10 (d.step - 1074))
  else
    let places := 1074 - d.step
    let unit := Nat.pow 10 places
    Nat.toDigits 10 (d.coeff / unit) ++ '.' :: padded places (d.coeff % unit)

end Decimal

def magnitudeChars (rank : Nat) : List Char :=
  if rank = 0 then ['0']
  else if rank = top then "inf".toList
  else (Decimal.shortest rank).chars

def text : Binary64 → String
  | nan => "NaN"
  | signed true rank _ => String.ofList ('-' :: magnitudeChars rank)
  | signed false rank _ => String.ofList (magnitudeChars rank)

end MiniLisp.Binary64
