import MiniLisp.Binary64.Arith
import MiniLisp.RuntimeError
import MiniLisp.Value.Equality

/-!
# Operators

`Operator.apply` is what an operator makes of its two operands: arithmetic and order on numbers,
`+` also on strings, and equality on all values.
-/

namespace MiniLisp.Operator

def numbers : Value → Value → Except RuntimeError.Cause (Binary64 × Binary64)
  | .number a, .number b => .ok (a, b)
  | _, _ => .error .notNumbers

def apply (op : Operator) (left right : Value) : Except RuntimeError.Cause Value :=
  match op with
  | plus =>
    match left, right with
    | .number a, .number b => .ok (.number (a.add b))
    | .string a, .string b => .ok (.string (a ++ b))
    | _, _ => .error .notAddable
  | minus => do
    let (a, b) ← numbers left right
    return .number (a.sub b)
  | star => do
    let (a, b) ← numbers left right
    return .number (a.mul b)
  | slash => do
    let (a, b) ← numbers left right
    return .number (a.div b)
  | less => do
    let (a, b) ← numbers left right
    return .bool (a.lt b)
  | greater => do
    let (a, b) ← numbers left right
    return .bool (b.lt a)
  | equal => .ok (.bool (left.same right))

end MiniLisp.Operator
