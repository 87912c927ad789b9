import MiniLisp.Value.Basic

/-!
# One scope

A scope holds bindings in the order in which their names were first bound, and may be enclosed by
another scope. Binding a name again changes its value and not its place.
-/

namespace MiniLisp

abbrev Bindings := List (String × Value)

namespace Bindings

def bind (name : String) (value : Value) : Bindings → Bindings
  | [] => [(name, value)]
  | (n, v) :: rest =>
    if n = name then (n, value) :: rest else (n, v) :: bind name value rest

def get? (bindings : Bindings) (name : String) : Option Value := bindings.lookup name

end Bindings

structure Scope where
  enclosing : Option ScopeId
  bindings : Bindings

end MiniLisp
