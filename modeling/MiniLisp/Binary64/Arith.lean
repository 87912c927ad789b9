import MiniLisp.Binary64.Round

/-!
# Arithmetic

Each operation computes the exact result as a quotient of natural numbers and rounds once. The
cases without a finite exact result follow the usual table: infinity absorbs, and `∞ - ∞`,
`0 * ∞`, `0 / 0` and `∞ / ∞` are not-a-number.
-/

namespace MiniLisp.Binary64

/-- Steps of `2 ^ -1074` with a sign. -/
def offset (negative : Bool) (rank : Nat) : Int :=
  if negative then -(units rank : Int) else units rank

/-- The sum. An exact zero is negative only if both operands are. -/
def add : Binary64 → Binary64 → Binary64
  | signed n a _, signed k b _ =>
    if a = top then
      if b = top ∧ n ≠ k then nan else infinity n
    else if b = top then infinity k
    else
      let sum := offset n a + offset k b
      if sum = 0 then zero (n && k) else ofQuotient (decide (sum < 0)) sum.natAbs 1
  | _, _ => nan

def sub (a b : Binary64) : Binary64 := add a b.neg

/-- The product; its sign is negative if the operands' signs differ. -/
def mul : Binary64 → Binary64 → Binary64
  | signed n a _, signed k b _ =>
    if a = top ∨ b = top then
      if a = 0 ∨ b = 0 then nan else infinity (n != k)
    else ofQuotient (n != k) (units a * units b) (Nat.pow 2 1074)
  | _, _ => nan

/-- The quotient; a finite number that is not zero divided by zero is infinite. -/
def div : Binary64 → Binary64 → Binary64
  | signed n a _, signed k b _ =>
    if a = top then
      if b = top then nan else infinity (n != k)
    else if b = top then zero (n != k)
    else if b = 0 then
      if a = 0 then nan else infinity (n != k)
    else ofQuotient (n != k) (units a * Nat.pow 2 1074) (units b)
  | _, _ => nan

end MiniLisp.Binary64
