import MiniLisp.Binary64.Basic

/-!
# Rounding to the grid

`nearest num den` is the rank of the magnitude nearest to `num / den` steps of `2 ^ -1074`, an
exact tie going to the even rank. It has no upper end: a rank from `top` on stands for infinity.

The grid between two powers of two is evenly spaced, so rounding is one division: with `s` chosen
such that the quotient by `2 ^ s` has at most 53 bits, rank `s * 2 ^ 52 + m` is the magnitude
`m * 2 ^ s`, and a carry into the next power of two is the next rank.
-/

namespace MiniLisp.Binary64

/-- The natural number nearest to `num / den`, an exact half going to the even neighbour. -/
def roundHalfEven (num den : Nat) : Nat :=
  let floor := num / den
  let rest := 2 * (num % den)
  if den < rest || (rest == den && floor % 2 == 1) then floor + 1 else floor

/-- The rank of the magnitude nearest to `num / den` steps of `2 ^ -1074`. -/
def nearest (num den : Nat) : Nat :=
  let s := Nat.log2 (num / den) - 52
  s * Nat.pow 2 52 + roundHalfEven num (den * Nat.pow 2 s)

/-- The number of a sign and a magnitude of `num / den` steps of `2 ^ -1074`, rounded. -/
def ofQuotient (negative : Bool) (num den : Nat) : Binary64 :=
  ofRank negative (nearest num den)

end MiniLisp.Binary64
