/-!
# Character classes as ranges

A class of characters is a list of code point ranges, both ends included; `Ranges.has` is
membership.
-/

namespace MiniLisp.Text

/-- A class of characters: ranges of code points, both ends included. -/
abbrev Ranges := List (Nat × Nat)

def Ranges.has (ranges : Ranges) (c : Char) : Bool :=
  ranges.any fun range => range.1 ≤ c.toNat && c.toNat ≤ range.2

end MiniLisp.Text
