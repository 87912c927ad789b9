/-!
# Lines

`lines` splits a text into lines; `inclusiveLines` splits it as it is read from a stream, each line
with its end. `find?` is the first place of one text in another, and `padLeft` fills up to a width.
-/

namespace MiniLisp.Text

/-- The lines of a text. A line ends with a line feed, and a carriage return just before it belongs
to the end; after the last line feed there is one more line unless nothing follows. -/
def lines : List Char → List (List Char)
  | [] => []
  | '\n' :: rest => [] :: lines rest
  | '\r' :: '\n' :: rest => [] :: lines rest
  | c :: rest =>
    match lines rest with
    | [] => [[c]]
    | line :: more => (c :: line) :: more

/-- The stretches of a list that end with `stop`, and what follows the last of them if anything
does. -/
def inclusiveLines {α : Type} [DecidableEq α] (stop : α) : List α → List (List α)
  | [] => []
  | x :: rest =>
    if x = stop then [x] :: inclusiveLines stop rest
    else match inclusiveLines stop rest with
      | [] => [[x]]
      | line :: more => (x :: line) :: more

/-- How many characters stand before the first occurrence of `part` in a text. -/
def find? (part : List Char) : List Char → Option Nat
  | [] => if part.isEmpty then some 0 else none
  | c :: rest =>
    if part.isPrefixOf (c :: rest) then some 0 else (find? part rest).map (· + 1)

/-- `n` copies of a character. -/
def repeated (n : Nat) (c : Char) : String := String.ofList (List.replicate n c)

/-- A text with spaces in front, up to `width` characters. -/
def padLeft (width : Nat) (text : String) : String := repeated (width - text.length) ' ' ++ text

end MiniLisp.Text
