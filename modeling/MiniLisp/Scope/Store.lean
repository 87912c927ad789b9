import MiniLisp.Scope.Basic

/-!
# The store of scopes

All scopes ever made, numbered in the order in which they were made. A scope is enclosed by an older
one only, so the chain of enclosing scopes ends.

* `Store.push` : a new empty scope;
* `Store.define` : binds a name in one scope;
* `Store.lookup` : the value of a name in a scope or, failing that, in the scopes around it.
-/

namespace MiniLisp

/-- The scopes, each enclosed by an older one or by none. -/
structure Store where
  scopes : Array Scope
  older : ∀ (i : ScopeId) (s : Scope) (p : ScopeId),
    scopes[i]? = some s → s.enclosing = some p → p < i

namespace Store

def empty : Store := ⟨#[], by simp⟩

/-- How many scopes there are; also the number of the next one. -/
def size (s : Store) : Nat := s.scopes.size

/-- Adds an empty scope, enclosed by `enclosing` if that is a scope. -/
def push (s : Store) (enclosing : Option ScopeId) : Store where
  scopes := s.scopes.push ⟨enclosing.filter (· < s.size), []⟩
  older := by
    intro i scope p hi hp
    rw [Array.getElem?_push] at hi
    split at hi
    · rename_i h
      cases hi
      obtain ⟨_, hlt⟩ := Option.filter_eq_some_iff.1 hp
      exact h ▸ of_decide_eq_true hlt
    · exact s.older i scope p hi hp

/-- Binds or rebinds a name in scope `i`. -/
def define (s : Store) (i : ScopeId) (name : String) (value : Value) : Store where
  scopes := s.scopes.modify i fun scope => { scope with bindings := scope.bindings.bind name value }
  older := by
    intro j scope p hj hp
    rw [Array.getElem?_modify] at hj
    split at hj
    · obtain ⟨old, hold, rfl⟩ := Option.map_eq_some_iff.1 hj
      exact s.older j old p hold hp
    · exact s.older j scope p hj hp

/-- The bindings of scope `i` alone. -/
def bindings (s : Store) (i : ScopeId) : Bindings :=
  match s.scopes[i]? with
  | some scope => scope.bindings
  | none => []

/-- The scope around scope `i`. -/
def enclosing? (s : Store) (i : ScopeId) : Option ScopeId := s.scopes[i]?.bind (·.enclosing)

theorem enclosing?_lt {s : Store} {i p : ScopeId} (h : s.enclosing? i = some p) : p < i := by
  obtain ⟨scope, hi, hp⟩ := Option.bind_eq_some_iff.1 h
  exact s.older i scope p hi hp

/-- The value of a name in scope `i`, or else in the nearest scope around it that binds the name. -/
def lookup (s : Store) (name : String) (i : ScopeId) : Option Value :=
  match (s.bindings i).get? name with
  | some value => some value
  | none =>
    match _h : s.enclosing? i with
    | some p => lookup s name p
    | none => none
termination_by i
decreasing_by exact enclosing?_lt _h

/-- Binds names to values in scope `i`, one after the other; what one list has more than the other
is left out. -/
def defineAll (s : Store) (i : ScopeId) (names : List String) (values : List Value) : Store :=
  (names.zip values).foldl (fun s (name, value) => s.define i name value) s

end Store

end MiniLisp
