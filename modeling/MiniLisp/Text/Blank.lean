import MiniLisp.Text.Range

/-!
# Blanks

`isBlank` is the property White_Space: the characters that separate tokens, and those that are
dropped from both ends of a line at the prompt.
-/

namespace MiniLisp.Text

/-- The characters with property White_Space. -/
def blankRanges : Ranges :=
  [(0x9, 0xd), (0x20, 0x20), (0x85, 0x85), (0xa0, 0xa0), (0x1680, 0x1680), (0x2000, 0x200a),
   (0x2028, 0x2029), (0x202f, 0x202f), (0x205f, 0x205f), (0x3000, 0x3000)]

def isBlank (c : Char) : Bool := blankRanges.has c

def trim (text : List Char) : List Char :=
  ((text.dropWhile isBlank).reverse.dropWhile isBlank).reverse

end MiniLisp.Text
