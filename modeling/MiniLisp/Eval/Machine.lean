import MiniLisp.Expr.Label
import MiniLisp.RuntimeError
import MiniLisp.Scope.Store

/-!
# The machine

What evaluation reads and changes: the store of scopes, the scope that is current, and the labels
that have been given. An action on it either is done with a result, or fails with an error, or was
stopped because it nested deeper than allowed; a failed action keeps the changes it had made.
-/

namespace MiniLisp

structure Machine where
  store : Store
  current : ScopeId
  labels : Labels

inductive Outcome (α : Type) where
  | done (result : α) (after : Machine)
  | failed (error : RuntimeError) (after : Machine)
  /-- It nested deeper than allowed. Real calls nest until the stack is full, and the program is
  then killed; that this is an outcome, what is said about it (`Ending.stopText`) and the exit code
  are a convention. -/
  | exhausted

abbrev EvalM (α : Type) := Machine → Outcome α

namespace Outcome

def bind {α β : Type} (o : Outcome α) (f : α → EvalM β) : Outcome β :=
  match o with
  | done a m => f a m
  | failed e m => failed e m
  | exhausted => exhausted

/-- Changes the machine that is left, whether or not the action failed. -/
def mapMachine {α : Type} (f : Machine → Machine) : Outcome α → Outcome α
  | done a m => done a (f m)
  | failed e m => failed e (f m)
  | exhausted => exhausted

end Outcome

instance : Monad EvalM where
  pure a := fun m => .done a m
  bind x f := fun m => (x m).bind f

namespace EvalM

def fail {α : Type} (token : Token) (cause : RuntimeError.Cause) : EvalM α :=
  fun m => .failed ⟨token, cause⟩ m

def ofExcept {α : Type} (token : Token) : Except RuntimeError.Cause α → EvalM α
  | .ok a => pure a
  | .error cause => fail token cause

end EvalM

namespace Machine

def globalScope : ScopeId := 0

def initial : Machine := ⟨Store.empty.push none, globalScope, .none⟩

def globals (m : Machine) : Bindings := m.store.bindings globalScope

def relabelled {α : Type} (m : Machine) (f : StateM Labels α) : α × Machine :=
  let (a, labels) := f m.labels
  (a, { m with labels })

/-- Labels the definitions in expressions that come in from outside. -/
def adopt (m : Machine) (exprs : List Expr) : List Expr × Machine :=
  m.relabelled (Expr.relabelAll exprs)

def define (m : Machine) (name : String) (value : Value) : Machine :=
  { m with store := m.store.define m.current name value }

end Machine

namespace EvalM

def get (name : Token) : EvalM Value := fun m =>
  match m.store.lookup name.lexeme m.current with
  | some value => .done value m
  | none => .failed ⟨name, .undefinedVariable name.lexeme⟩ m

def define (name : String) (value : Value) : EvalM Unit := fun m => .done () (m.define name value)

def freshLabel : EvalM Nat := fun m =>
  let (label, m) := m.relabelled Labels.freshObject
  .done label m

/-- Binds a new function in the current scope, around which it is closed. -/
def defineFunction (name : Token) (params : List Token) (body : Expr) : EvalM Unit := fun m =>
  let (label, m) := m.relabelled Labels.freshObject
  .done () (m.define name.lexeme (.function ⟨label, name, params, body, m.current⟩))

def newList (head : Expr) (tail : List Expr) : EvalM Value := do
  return .list ⟨← freshLabel, head, tail⟩

end EvalM

end MiniLisp
