import MiniLisp.Expr.Basic
import MiniLisp.Token.Scan

/-!
# Reading expressions

Tokens are read one at a time against a stack of unfinished forms, so what has been read so far
decides alone whether the next token fits. A token that does not fit is reported, and reading
resumes after the next semicolon; what was complete before stays.

* `Await` : what the innermost unfinished form waits for, `Frame` : the forms around it;
* `Move.onToken` : what one token does, `Await.missing?` : what is missing if the text ends here;
* `Expr.parse` : the expressions of a list of tokens, and the errors;
* `Expr.read` : the same from a text.
-/

namespace MiniLisp

/-- An unfinished form that waits for an expression inside it. -/
inductive Frame where
  /-- Only the opening parenthesis has been read. -/
  | opened
  /-- A call; the arguments read so far, last first. -/
  | call (name : Token) (args : List Expr)
  /-- Any other list; the elements after the head read so far, last first. -/
  | list (head : Expr) (tail : List Expr)
  /-- A definition that lacks its body. -/
  | body (name : Token) (params : List Token)

/-- What comes next in the innermost unfinished form. -/
inductive Await where
  /-- An expression, or the end of a list or a call. -/
  | item
  /-- After `(define`: a parenthesis, or the name of the function. -/
  | definition
  /-- After `(define (`: the name of the function. -/
  | functionName
  /-- After `(define name`: a parenthesis. -/
  | parameterList (name : Token)
  /-- A parameter, or the end of the list; the parameters read so far, last first. -/
  | parameters (name : Token) (params : List Token)
  /-- The end of a definition. -/
  | definitionEnd (name : Token) (params : List Token) (body : Expr)

inductive Move where
  /-- It fits, and a form is still unfinished. -/
  | go (await : Await) (frames : List Frame)
  /-- It completes an expression outside all forms. -/
  | emit (e : Expr)
  /-- It stands where nothing is unfinished, and is skipped. -/
  | skip
  /-- It does not fit. -/
  | fail (cause : SyntaxError.Cause)

namespace Expr

def ofToken (t : Token) : Except SyntaxError.Cause Expr :=
  match t.kind with
  | .keyword _ => .ok (.keyword t [])
  | .mark (.operator _) => .ok (.operator t [])
  | .number | .string =>
    match t.literal? with
    | some value => .ok (.atom value t)
    | none => .error .literalWithoutValue
  | .symbol => .ok (.symbol t)
  | _ => .error (.expected .expression)

end Expr

namespace Frame

/-- What a form becomes once its head is read: a symbol makes it a call and the keyword `define` a
definition. -/
def ofHead (head : Expr) (outer : List Frame) : Move :=
  match head with
  | .symbol name => .go .item (.call name [] :: outer)
  | .keyword token _ =>
    if token.kind = .keyword .define then .go .definition outer
    else .go .item (.list head [] :: outer)
  | _ => .go .item (.list head [] :: outer)

/-- What a complete expression does inside the unfinished forms. -/
def complete (e : Expr) : List Frame → Move
  | [] => .emit e
  | .opened :: outer => ofHead e outer
  | .call name args :: outer => .go .item (.call name (e :: args) :: outer)
  | .list head tail :: outer => .go .item (.list head (e :: tail) :: outer)
  | .body name params :: outer => .go (.definitionEnd name params e) outer

/-- What a closing parenthesis does where an expression could stand. -/
def close : List Frame → Move
  | .call name args :: outer => complete (.call (.symbol name) name args.reverse) outer
  | .list head tail :: outer => complete (.list head tail.reverse) outer
  | _ => .fail (.expected .expression)

end Frame

namespace Move

def onItem (frames : List Frame) (t : Token) : Move :=
  match t.kind with
  | .mark .leftParen => .go .item (.opened :: frames)
  | .mark .rightParen => Frame.close frames
  | .mark .semicolon => if frames.isEmpty then .skip else .fail (.expected .expression)
  | _ =>
    match Expr.ofToken t with
    | .ok e => Frame.complete e frames
    | .error cause => .fail cause

def onToken (await : Await) (frames : List Frame) (t : Token) : Move :=
  match await with
  | .item => onItem frames t
  | .definition =>
    match t.kind with
    | .mark .leftParen => .go .functionName frames
    | .symbol => .go (.parameterList t) frames
    | _ => .fail (.expected .functionName)
  | .functionName =>
    match t.kind with
    | .symbol => .go (.parameters t []) frames
    | _ => .fail (.expected .functionName)
  | .parameterList name =>
    match t.kind with
    | .mark .leftParen => .go (.parameters name []) frames
    | _ => .fail (.expected .parameterList)
  | .parameters name params =>
    match t.kind with
    | .mark .rightParen => .go .item (.body name params.reverse :: frames)
    | .symbol => .go (.parameters name (t :: params)) frames
    | _ => .fail (.expected .parameter)
  | .definitionEnd name params body =>
    match t.kind with
    | .mark .rightParen => Frame.complete (.define 0 name params body) frames
    | _ => .fail (.expected .definitionEnd)

end Move

/-- What is missing if the text ends here; nothing is, if no form is unfinished. -/
def Await.missing? (await : Await) (frames : List Frame) : Option Expected :=
  match await with
  | .item =>
    match frames with
    | [] => none
    | .opened :: _ => some .expression
    | .call _ _ :: _ => some .callEnd
    | .list _ _ :: _ => some .listEnd
    | .body _ _ :: _ => some .expression
  | .definition => some .functionName
  | .functionName => some .functionName
  | .parameterList _ => some .parameterList
  | .parameters _ _ => some .parameter
  | .definitionEnd _ _ _ => some .definitionEnd

/-- Is the reader inside a form, or skipping to the next semicolon? -/
inductive Reader.Mode where
  | reading (await : Await) (frames : List Frame)
  | skipping

/-- The state of reading; expressions and errors last first. -/
structure Reader where
  mode : Reader.Mode
  expressions : List Expr
  errors : List SyntaxError

structure Parse where
  expressions : List Expr
  errors : List SyntaxError

namespace Reader

def Mode.start : Mode := .reading .item []

def start : Reader := ⟨.start, [], []⟩

def read (r : Reader) (t : Token) : Reader :=
  match r.mode with
  | .skipping => if t.kind = .mark .semicolon then { r with mode := .start } else r
  | .reading await frames =>
    match Move.onToken await frames t with
    | .go await frames => { r with mode := .reading await frames }
    | .emit e => { r with mode := .start, expressions := e :: r.expressions }
    | .skip => r
    | .fail cause =>
      { r with
        mode := if t.kind = .mark .semicolon then .start else .skipping
        errors := SyntaxError.atToken t cause :: r.errors }

/-- Ends reading on line `line`. -/
def finish (r : Reader) (line : Nat) : Parse :=
  let missing : List SyntaxError :=
    match r.mode with
    | .skipping => []
    | .reading await frames =>
      match await.missing? frames with
      | none => []
      | some what => [⟨line, .atEnd, .expected what⟩]
  ⟨r.expressions.reverse, (missing ++ r.errors).reverse⟩

end Reader

namespace Expr

/-- The line on which tokens end: that of the end of the text, or else of the last token. -/
def endLine (tokens : List Token) : Nat :=
  match tokens.find? (·.kind == .endOfText) with
  | some t => t.line
  | none => (tokens.getLast?.map (·.line)).getD 1

/-- The expressions that tokens form up to the end of the text, and the errors. -/
def parse (tokens : List Token) : Parse :=
  ((tokens.takeWhile (·.kind != .endOfText)).foldl Reader.read .start).finish (endLine tokens)

/-- Reads a text. The errors of scanning come before those of reading expressions. -/
def read (source : String) : Parse :=
  let scanned := scan source
  let parsed := parse scanned.tokens
  { parsed with errors := scanned.errors ++ parsed.errors }

end Expr

end MiniLisp
