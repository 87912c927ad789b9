/-!
# Binary64 numbers

A number is not-a-number, or a sign and a magnitude. The magnitudes are a grid: `units r` is the
`r`-th one, counted in steps of `2 ^ -1074`, and rank `top` is infinity. Powers are written
`Nat.pow`, which is one function whatever instances of `Pow` are in scope.

* `ofBits` : the number with a given 64-bit pattern (every not-a-number pattern is one value);
* `units` : the grid, `0 = units 0 < units 1 < ...`;
* `eqv`, `lt` : comparison by position on the line, in which both zeros stand at one place and
  not-a-number stands nowhere.
-/

namespace MiniLisp

/-- The rank of infinity: one more than the rank of the largest finite magnitude. -/
def Binary64.top : Nat := 2047 * Nat.pow 2 52

/-- A binary64 number: a sign and the rank of its magnitude on the grid, or not-a-number. -/
inductive Binary64 where
  | nan
  | signed (negative : Bool) (rank : Nat) (rank_le : rank ≤ Binary64.top)
  deriving DecidableEq

namespace Binary64

/-- The number of a sign and a rank; a rank past the end of the grid is infinity. -/
def ofRank (negative : Bool) (rank : Nat) : Binary64 :=
  .signed negative (min rank top) (Nat.min_le_right rank top)

def infinity (negative : Bool) : Binary64 := ofRank negative top

def zero (negative : Bool) : Binary64 := ofRank negative 0

/-- The number with bit pattern `bits`: the sign is the highest bit and the rank the other 63. -/
def ofBits (bits : UInt64) : Binary64 :=
  let rank := bits.toNat % Nat.pow 2 63
  if h : rank ≤ top then .signed (Nat.pow 2 63 ≤ bits.toNat) rank h else nan

/-- The magnitude of rank `rank` in steps of `2 ^ -1074`. Up to rank `2 ^ 53` the grid has every
step; from there each run of `2 ^ 52` ranks is twice as coarse as the one before. -/
def units (rank : Nat) : Nat :=
  let run := Nat.pow 2 52
  if rank < run then rank else (run + rank % run) * Nat.pow 2 (rank / run - 1)

def neg : Binary64 → Binary64
  | nan => nan
  | signed negative rank h => .signed (!negative) rank h

def isZero : Binary64 → Bool
  | nan => false
  | signed _ rank _ => rank == 0

/-- Where a number stands on the line, counted in ranks; not-a-number stands nowhere. -/
def position? : Binary64 → Option Int
  | nan => none
  | signed true rank _ => some (-(rank : Int))
  | signed false rank _ => some rank

/-- Do two numbers stand at the same place? -/
def eqv (a b : Binary64) : Bool :=
  match a.position?, b.position? with
  | some x, some y => x == y
  | _, _ => false

/-- Does `a` stand below `b`? -/
def lt (a b : Binary64) : Bool :=
  match a.position?, b.position? with
  | some x, some y => decide (x < y)
  | _, _ => false

end Binary64

end MiniLisp
