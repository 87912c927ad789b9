import MiniLisp.Expr.Basic

/-!
# Labels

Definitions and list data have an identity besides their contents: two definitions written alike
are different, while one definition that is reached twice is itself. `Expr.relabel` gives every
definition and every list datum in an expression a label that was never given before. Definitions
and lists are counted apart, so the labels of definitions depend on the program text alone.
-/

namespace MiniLisp

structure Labels where
  /-- The next label of a definition. -/
  definition : Nat
  /-- The next label of a list or a function. -/
  object : Nat
  deriving DecidableEq

namespace Labels

def none : Labels := ⟨0, 0⟩

def freshDefinition : StateM Labels Nat := fun labels =>
  (labels.definition, { labels with definition := labels.definition + 1 })

def freshObject : StateM Labels Nat := fun labels =>
  (labels.object, { labels with object := labels.object + 1 })

end Labels

namespace Expr

mutual

/-- Labels the definitions and list data of an expression afresh, outermost first. -/
def relabel : Expr → StateM Labels Expr
  | atom value token => pure (atom value token)
  | symbol name => pure (symbol name)
  | operator op operands => do return operator op (← relabelAll operands)
  | keyword token args => do return keyword token (← relabelAll args)
  | list head tail => do
    let head ← relabel head
    return list head (← relabelAll tail)
  | data _ head tail => do
    let label ← Labels.freshObject
    let head ← relabel head
    return data label head (← relabelAll tail)
  | define _ name params body => do
    let label ← Labels.freshDefinition
    return define label name params (← relabel body)
  | call callee token args => do
    let callee ← relabel callee
    return call callee token (← relabelAll args)

def relabelAll : List Expr → StateM Labels (List Expr)
  | [] => pure []
  | x :: xs => do
    let x ← relabel x
    return x :: (← relabelAll xs)

end

end Expr

end MiniLisp
