import MiniLisp.Binary64.Decimal
import MiniLisp.Text.Alphabetic
import MiniLisp.Text.Blank
import MiniLisp.Text.Numeric
import MiniLisp.Token.Kind

/-!
# Pieces of a text

Every text is cut into pieces, each as long as it can be: single blanks, comments, numbers, strings,
words, marks, and what is none of these. Nothing is dropped and nothing is refused here; a number
with two points or a string without its closing quote is a piece like any other. The lexer reads
exactly these pieces (`MiniLisp.Proofs.Lexing`), of which it leaves out blanks and comments.

* `Piece.text` : the characters of a piece;
* `Piece.first` : the first piece of a text, and the text after it (`first_text`);
* `Piece.cut` : all pieces of a text, which spell it (`cut_text`).
-/

namespace MiniLisp

open Text

inductive Piece where
  /-- One white-space character. -/
  | blank (c : Char)
  /-- Two slashes and the rest of the line; `body` is what follows the slashes. -/
  | comment (body : List Char)
  /-- A digit and the digits and points after it. -/
  | number (text : List Char)
  /-- The characters between two quotes. -/
  | string (body : List Char)
  /-- The characters after a quote that is never closed. -/
  | openString (body : List Char)
  /-- A letter or underscore and the word characters after it. -/
  | word (text : List Char)
  /-- One punctuation mark. -/
  | mark (m : Mark)
  /-- Any other character. -/
  | stray (c : Char)
  deriving DecidableEq

def isNumberChar (c : Char) : Bool := c.isDigit || c == '.'

def isWordStart (c : Char) : Bool := isAlphabetic c || c == '_'

def isWordChar (c : Char) : Bool := isAlphabetic c || isNumeric c || c == '_' || c == '?'

namespace Piece

def text : Piece → List Char
  | blank c => [c]
  | comment body => '/' :: '/' :: body
  | number text => text
  | string body => '"' :: (body ++ ['"'])
  | openString body => '"' :: body
  | word text => text
  | mark m => [m.char]
  | stray c => [c]

/-- The first piece of the text `c :: rest`, and what follows it. -/
def first (c : Char) (rest : List Char) : Piece × List Char :=
  if isBlank c then (blank c, rest)
  else if c = '/' ∧ rest.head? = some '/' then
    (comment (rest.tail.takeWhile (· != '\n')), rest.tail.dropWhile (· != '\n'))
  else if c.isDigit then
    (number (c :: rest.takeWhile isNumberChar), rest.dropWhile isNumberChar)
  else if c = '"' then
    match rest.dropWhile (· != '"') with
    | [] => (openString rest, [])
    | _ :: after => (string (rest.takeWhile (· != '"')), after)
  else if isWordStart c then
    (word (c :: rest.takeWhile isWordChar), rest.dropWhile isWordChar)
  else match Mark.ofChar? c with
    | some m => (mark m, rest)
    | none => (stray c, rest)

theorem first_rest_length (c : Char) (rest : List Char) :
    (first c rest).2.length ≤ rest.length := by
  have drop (p : Char → Bool) (l : List Char) : (l.dropWhile p).length ≤ l.length :=
    (List.dropWhile_sublist p).length_le
  unfold first
  split
  · exact Nat.le_refl _
  split
  · exact Nat.le_trans (drop _ _) (by simp)
  split
  · exact drop _ _
  split
  · split
    · exact Nat.zero_le _
    · rename_i after h
      have := drop (· != '"') rest
      rw [h] at this
      exact Nat.le_of_succ_le this
  split
  · exact drop _ _
  split <;> exact Nat.le_refl _

/-- Nothing is lost or reordered between the first piece and the rest. -/
theorem first_text (c : Char) (rest : List Char) :
    (first c rest).1.text ++ (first c rest).2 = c :: rest := by
  unfold first
  split
  · rfl
  split
  · rename_i h
    obtain ⟨rfl, h⟩ := h
    cases rest with
    | nil => simp at h
    | cons d rest =>
      obtain rfl : d = '/' := by simpa using h
      simp [text, List.takeWhile_append_dropWhile]
  split
  · simp [text, List.takeWhile_append_dropWhile]
  split
  · rename_i h
    subst h
    split
    · simp [text]
    · rename_i q after h
      have hq : q = '"' := by
        have := List.head?_dropWhile_not (· != '"') rest
        simpa [h] using this
      have := List.takeWhile_append_dropWhile (p := (· != '"')) (l := rest)
      rw [h, hq] at this
      simp [text, this]
  split
  · simp [text, List.takeWhile_append_dropWhile]
  split
  · rename_i m h
    simp [text, Mark.char_of_ofChar? h]
  · rfl

def cut : List Char → List Piece
  | [] => []
  | c :: rest => (first c rest).1 :: cut (first c rest).2
termination_by text => text.length
decreasing_by exact Nat.lt_succ_of_le (first_rest_length c rest)

theorem cut_text (text : List Char) : (cut text).flatMap Piece.text = text := by
  fun_induction cut text with
  | case1 => rfl
  | case2 c rest ih => rw [List.flatMap_cons, ih, first_text]

/-- Is the piece a blank or a comment, which separate tokens and mean nothing? -/
def isGap : Piece → Bool
  | blank _ => true
  | comment _ => true
  | _ => false

def byteSize (p : Piece) : Nat := (String.ofList p.text).utf8ByteSize

def newlines (p : Piece) : Nat := p.text.count '\n'

/-- The value of a number's text: digits with at most one point among them. -/
def numberValue? (text : List Char) : Option Binary64 :=
  if text.count '.' ≤ 1 then
    some (.ofDecimal (Nat.ofDigitChars 10 (text.filter (· != '.')) 0)
      ((text.dropWhile (· != '.')).length - 1))
  else none

end Piece

end MiniLisp
