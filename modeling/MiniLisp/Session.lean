import MiniLisp.Eval.Basic
import MiniLisp.Expr.Read

/-!
# Sessions

A unit of source is read and its expressions are evaluated in order, up to the first error. A
session runs units one after the other on one machine and keeps the errors found while reading them.

* `Machine.interpret` : the values that expressions give, and how their evaluation ends;
* `Machine.interpretWith` : the same, with the values handed on one by one;
* `Session.run`, `Session.runWith` : one unit in a session;
* `Session.evaluate` : its values, if its evaluation did not fail;
* `evaluateSource` : one unit alone, which is evaluated only if it has no errors.
-/

namespace MiniLisp

inductive Ending where
  | completed
  | failed (e : RuntimeError)
  /-- An expression nested deeper than allowed. -/
  | exhausted
  deriving DecidableEq

/-- The values that are not nil, in order, how it ended, and the machine that is left. -/
structure Run where
  emitted : List Value
  ending : Ending
  machine : Machine

def Machine.interpret (depth : Nat) (m : Machine) : List Expr → Run
  | [] => ⟨[], .completed, m⟩
  | e :: exprs =>
    match eval depth e m with
    | .done value m =>
      let rest := interpret depth m exprs
      if value.isNil then rest else { rest with emitted := value :: rest.emitted }
    | .failed error m => ⟨[], .failed error, m⟩
    | .exhausted => ⟨[], .exhausted, m⟩

/-- Evaluates expressions in order up to the first error, and hands each value that is not nil to
`emit` before the next expression is looked at. -/
def Machine.interpretWith {σ : Type} (emit : σ → Value → σ) (depth : Nat) (sink : σ)
    (m : Machine) : List Expr → σ × Ending × Machine
  | [] => (sink, .completed, m)
  | e :: exprs =>
    match eval depth e m with
    | .done value m =>
      let sink := if value.isNil then sink else emit sink value
      interpretWith emit depth sink m exprs
    | .failed error m => (sink, .failed error, m)
    | .exhausted => (sink, .exhausted, m)

/-- A machine, and the errors found while reading since they were last reset. -/
structure Session where
  machine : Machine
  errors : List SyntaxError

structure Session.Run where
  emitted : List Value
  ending : Ending
  session : Session

namespace Session

def initial : Session := ⟨.initial, []⟩

/-- Runs a unit. The expressions that could be read are evaluated even if there are errors. -/
def run (depth : Nat) (s : Session) (source : String) : Session.Run :=
  let parsed := Expr.read source
  let (program, machine) := s.machine.adopt parsed.expressions
  let r := machine.interpret depth program
  ⟨r.emitted, r.ending, ⟨r.machine, s.errors ++ parsed.errors⟩⟩

/-- Runs a unit and hands its values to `emit` as they come. -/
def runWith {σ : Type} (emit : σ → Value → σ) (depth : Nat) (sink : σ) (s : Session)
    (source : String) : σ × Ending × Session :=
  let parsed := Expr.read source
  let (program, machine) := s.machine.adopt parsed.expressions
  let (sink, ending, machine) := machine.interpretWith emit depth sink program
  (sink, ending, ⟨machine, s.errors ++ parsed.errors⟩)

def hadError (s : Session) : Bool := !s.errors.isEmpty

def resetErrors (s : Session) : Session := { s with errors := [] }

end Session

inductive Evaluation where
  | values (vs : List Value)
  | syntaxErrors (es : List SyntaxError)
  | runtimeError (e : RuntimeError)
  | exhausted

/-- What a unit gives that emitted `values`; they are lost unless it was completed. -/
def Ending.evaluation (values : List Value) : Ending → Evaluation
  | completed => .values values
  | failed e => .runtimeError e
  | exhausted => .exhausted

def Session.evaluate (depth : Nat) (s : Session) (source : String) : Evaluation × Session :=
  let (values, ending, s) := s.runWith (fun values value => values ++ [value]) depth [] source
  (ending.evaluation values, s)

/-- Evaluates a unit in a new machine, unless there are errors in its text. -/
def evaluateSource (depth : Nat) (source : String) : Evaluation :=
  let parsed := Expr.read source
  if parsed.errors.isEmpty then
    let (program, machine) := Machine.initial.adopt parsed.expressions
    let r := machine.interpret depth program
    match r.ending with
    | .completed => .values r.emitted
    | .failed e => .runtimeError e
    | .exhausted => .exhausted
  else .syntaxErrors parsed.errors

def defaultDepth : Nat := 1000000

end MiniLisp
