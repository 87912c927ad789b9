import MiniLisp.Eval.Datum
import MiniLisp.Eval.Machine
import MiniLisp.Eval.Operator

/-!
# Evaluation

`step` says what one expression does, given how the expressions inside it are evaluated; `eval` ties
the knot to a given depth. Operands are evaluated from left to right, and a form that has the wrong
number of operands fails before any of them is evaluated.

* `operate`, `applyKeyword`, `cond` : the forms with an operator or keyword at the head;
* `invoke` : the body of a function in a new scope, after which the old scope is current again;
* `eval`, `evalSequence` : an expression, or several in a row.
-/

namespace MiniLisp

open EvalM

abbrev Evaluator := Expr → EvalM Value

namespace Evaluator

def all (ev : Evaluator) : List Expr → EvalM (List Value)
  | [] => pure []
  | x :: xs => do
    let v ← ev x
    return v :: (← all ev xs)

def operate (ev : Evaluator) (op : Token) (operands : List Expr) : EvalM Value :=
  match operands with
  | [x, y] => do
    let left ← ev x
    let right ← ev y
    match op.kind with
    | .mark (.operator o) => ofExcept op (o.apply left right)
    | _ => fail op .invalidOperator
  | _ => fail op .notTwoOperands

/-- Conditions and results in turn: the result after the first true condition. -/
def cond (ev : Evaluator) (token : Token) : List Expr → EvalM Value
  | condition :: result :: rest => do
    if (← ev condition).isTruthy then ev result else cond ev token rest
  | [condition] => do
    let _ ← ev condition
    fail token .noTrueCondition
  | [] => fail token .noTrueCondition

/-- Puts a value in front of a list; a value that is no list counts as a list of that value, and nil
as one without elements. -/
def cons (token : Token) (first second : Value) : EvalM Value := do
  let head ← ofExcept token (first.datum token.line)
  match second with
  | .list l => newList head l.elements
  | .nil => newList head []
  | other => newList head [← ofExcept token (other.datum token.line)]

def applyForm (ev : Evaluator) (form : Keyword) (token : Token) (args : List Expr) :
    EvalM Value :=
  match form, args with
  | .trueConst, _ => pure (.bool true)
  | .falseConst, _ => pure (.bool false)
  | .nilConst, _ => pure .nil
  | .car, [x] => do
    match ← ev x with
    | .list l => ev l.head
    | other => pure other
  | .cdr, [x] => do
    match ← ev x with
    | .list ⟨_, _, []⟩ => pure .nil
    | .list ⟨_, _, first :: rest⟩ => newList first rest
    | _ => fail token .notAList
  | .cons, [x, y] => do
    let first ← ev x
    let second ← ev y
    cons token first second
  | .cond, args => cond ev token args
  | .isNumber, [x] => do
    match ← ev x with
    | .number _ => pure (.bool true)
    | _ => pure (.bool false)
  | .isSymbol, [x] =>
    match x with
    | .symbol _ => pure (.bool true)
    | _ => pure (.bool false)
  | .isList, [x] => do
    match ← ev x with
    | .list _ => pure (.bool true)
    | _ => pure (.bool false)
  | .isNil, [x] => do
    return .bool (← ev x).isNil
  | .and, [x, y] => do
    let left ← ev x
    let right ← ev y
    return .bool (left.isTruthy && right.isTruthy)
  | .or, [x, y] => do
    let left ← ev x
    let right ← ev y
    return if left.isTruthy || right.isTruthy then .bool true else .nil
  | .not, [x] => do
    return .bool (!(← ev x).isTruthy)
  | .set, [x, y] =>
    match x with
    | .symbol name => do
      let value ← ev y
      define name.lexeme value
      return .nil
    | _ => fail token .notASymbol
  | .define, _ => fail token .strayDefine
  | form, _ => fail token (.operandCount form)

def applyKeyword (ev : Evaluator) (token : Token) (args : List Expr) : EvalM Value :=
  match token.kind with
  | .keyword form => applyForm ev form token args
  | _ => fail token .unknownKeyword

/-- Evaluates the body of a function in a new scope that binds its parameters. The scope that was
current becomes current again, also if the body fails. -/
def invoke (ev : Evaluator) (f : Closure) (args : List Value) : EvalM Value := fun m =>
  let scope := m.store.size
  let store := (m.store.push (some f.scope)).defineAll scope (f.params.map (·.lexeme)) args
  (ev f.body { m with store, current := scope }).mapMachine ({ · with current := m.current })

/-- Calls a value with arguments, which are evaluated first whatever the value is. -/
def call (ev : Evaluator) (callee : Value) (token : Token) (args : List Expr) : EvalM Value := do
  let values ← all ev args
  match callee with
  | .function f =>
    if values.length = f.arity then invoke ev f values
    else fail token (.wrongArity f.name.lexeme (f.params.map (·.lexeme)) values.length)
  | _ => fail token .notAFunction

def form (ev : Evaluator) (head : Expr) (tail : List Expr) : EvalM Value :=
  match head with
  | .operator op _ => operate ev op tail
  | .keyword token _ => applyKeyword ev token tail
  | .atom _ _ => newList head tail
  | .call _ token _ => do
    let callee ← ev head
    call ev callee token tail
  | _ => fail head.token .badHead

/-- Evaluates an expression, given how the expressions inside it are evaluated. -/
def step (ev : Evaluator) : Evaluator
  | .atom value _ => pure value.value
  | .data label head tail => pure (.list ⟨label, head, tail⟩)
  | .symbol name => get name
  | .operator op operands => operate ev op operands
  | .keyword token args => applyKeyword ev token args
  | .list head tail => form ev head tail
  | .define _ name params body => do
    defineFunction name params body
    return .nil
  | .call callee token args => do
    let callee ← ev callee
    call ev callee token args

end Evaluator

/-- Evaluates an expression that nests to less than `depth`. -/
def eval : Nat → Evaluator
  | 0 => fun _ _ => .exhausted
  | depth + 1 => (eval depth).step

/-- Evaluates expressions in turn; the value of the last one, or nil if there is none. -/
def evalSequence (depth : Nat) : List Expr → EvalM Value
  | [] => pure .nil
  | [x] => eval depth x
  | x :: xs => do
    let _ ← eval depth x
    evalSequence depth xs

end MiniLisp
