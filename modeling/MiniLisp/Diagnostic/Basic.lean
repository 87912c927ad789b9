import MiniLisp.RuntimeError
import MiniLisp.SyntaxError

/-!
# Diagnostics

A diagnostic is what is shown about an error: a code, a message, a place, and notes. Errors in a
text have code `E0101` and errors of evaluation `E0201`.
-/

namespace MiniLisp

structure Diagnostic where
  code? : Option String
  message : String
  line : Nat
  location : Location
  notes : List String
  deriving DecidableEq

namespace Diagnostic

def ofSyntaxError (e : SyntaxError) : Diagnostic :=
  ⟨some "E0101", e.message, e.line, e.location, []⟩

def ofRuntimeError (e : RuntimeError) : Diagnostic :=
  ⟨some "E0201", e.message, e.token.line, .ofToken e.token, e.note?.toList⟩

end Diagnostic

end MiniLisp
