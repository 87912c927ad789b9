import MiniLisp.Scope.Store

/-!
# Environments

An environment is a name for a scope, and several environments may name one. They are numbered in
the order in which they are made: `create` makes one with a new scope, `child` one with a new scope
inside another environment's, and `clone` one more name for the same scope.
-/

namespace MiniLisp

structure Environments where
  store : Store
  scopes : Array ScopeId

namespace Environments

def empty : Environments := ⟨.empty, #[]⟩

/-- The scope that environment `e` names. -/
def scope? (es : Environments) (e : Nat) : Option ScopeId := es.scopes[e]?

def create (es : Environments) : Environments :=
  ⟨es.store.push none, es.scopes.push es.store.size⟩

/-- Adds an environment with a new scope enclosed by that of environment `e`. -/
def child (es : Environments) (e : Nat) : Environments :=
  ⟨es.store.push (es.scope? e), es.scopes.push es.store.size⟩

/-- Adds an environment that shares the scope of environment `e`. -/
def clone (es : Environments) (e : Nat) : Environments :=
  match es.scope? e with
  | some i => { es with scopes := es.scopes.push i }
  | none => es

/-- Binds a name in the scope of environment `e`. -/
def define (es : Environments) (e : Nat) (name : String) (value : Value) : Environments :=
  match es.scope? e with
  | some i => { es with store := es.store.define i name value }
  | none => es

/-- The value of a name seen from environment `e`. -/
def lookup (es : Environments) (e : Nat) (name : String) : Option Value :=
  (es.scope? e).bind (es.store.lookup name)

/-- The bindings in the scope of environment `e` alone. -/
def bindings (es : Environments) (e : Nat) : Bindings :=
  match es.scope? e with
  | some i => es.store.bindings i
  | none => []

def same (es : Environments) (a b : Nat) : Bool :=
  match es.scope? a, es.scope? b with
  | some i, some j => i == j
  | _, _ => false

end Environments

end MiniLisp
