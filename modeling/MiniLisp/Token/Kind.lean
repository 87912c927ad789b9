/-!
# Token kinds

What a token can be: a punctuation mark (an operator among them), a keyword, a symbol, a string, a
number, or the end of the text. Marks and keywords have one spelling each:

* `Mark.char`, `Mark.ofChar?` : a mark and its character;
* `Keyword.spelling`, `Keyword.ofText?` : a keyword and its text.
-/

namespace MiniLisp

inductive Operator where
  | plus | minus | star | slash | equal | less | greater
  deriving DecidableEq, Repr

inductive Keyword where
  | define | set | cons | cond | car | cdr
  | nilConst | trueConst | falseConst
  | and | or | not | isNumber | isSymbol | isList | isNil
  deriving DecidableEq, Repr

inductive Mark where
  | leftParen | rightParen | dot | semicolon
  | operator (op : Operator)
  deriving DecidableEq, Repr

inductive Kind where
  | mark (m : Mark)
  | keyword (k : Keyword)
  | symbol
  | string
  | number
  | endOfText
  deriving DecidableEq, Repr

namespace Keyword

def all : List Keyword :=
  [define, set, cons, cond, car, cdr, nilConst, trueConst, falseConst,
    and, or, not, isNumber, isSymbol, isList, isNil]

def spelling : Keyword → String
  | define => "define"
  | set => "set"
  | cons => "cons"
  | cond => "cond"
  | car => "car"
  | cdr => "cdr"
  | nilConst => "nil"
  | trueConst => "true"
  | falseConst => "false"
  | and => "and?"
  | or => "or?"
  | not => "not?"
  | isNumber => "number?"
  | isSymbol => "symbol?"
  | isList => "list?"
  | isNil => "nil?"

def ofText? (text : String) : Option Keyword := all.find? (·.spelling == text)

end Keyword

namespace Mark

def char : Mark → Char
  | leftParen => '('
  | rightParen => ')'
  | dot => '.'
  | semicolon => ';'
  | operator .plus => '+'
  | operator .minus => '-'
  | operator .star => '*'
  | operator .slash => '/'
  | operator .equal => '='
  | operator .less => '<'
  | operator .greater => '>'

def ofChar? : Char → Option Mark
  | '(' => some leftParen
  | ')' => some rightParen
  | '.' => some dot
  | ';' => some semicolon
  | '+' => some (operator .plus)
  | '-' => some (operator .minus)
  | '*' => some (operator .star)
  | '/' => some (operator .slash)
  | '=' => some (operator .equal)
  | '<' => some (operator .less)
  | '>' => some (operator .greater)
  | _ => none

theorem char_of_ofChar? {c : Char} {m : Mark} (h : ofChar? c = some m) : m.char = c := by
  unfold ofChar? at h
  split at h <;> cases h <;> rfl

end Mark

namespace Kind

def isKeyword : Kind → Bool
  | keyword _ => true
  | _ => false

def isOperator : Kind → Bool
  | mark (.operator _) => true
  | _ => false

/-- The kind of a word: a keyword if it is spelled as one, otherwise a symbol. -/
def ofWord (text : String) : Kind :=
  match Keyword.ofText? text with
  | some k => keyword k
  | none => symbol

end Kind

end MiniLisp
