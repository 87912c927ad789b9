import MiniLisp.Command.Options
import MiniLisp.Diagnostic.Render
import MiniLisp.Session

/-!
# Reports

What is written about the errors of a unit: the one-line form of each, those found while reading
first, and on request their excerpts.

What a program writes is given as a whole, so it is assumed here and for scripts and the prompt that
standard output and standard error take all of it, and that nothing is logged beside it. What
printing values does to an output that fails is said by `Printer`; on one that never does, a printer
writes `valueLines`.
-/

namespace MiniLisp

structure Settings where
  coloured : Bool
  verbose : Bool
  preserveCase : Bool

/-- The settings that options ask for; `terminal` is whether an automatic choice colours. -/
def Settings.ofOptions (terminal : Bool) (o : Options) : Settings :=
  ⟨o.color.enabled?.getD terminal, o.verbose, o.preserveCase⟩

/-- What a program writes, and the code with which it ends. -/
structure Result where
  code : Nat
  stdout : String
  stderr : String
  deriving DecidableEq

def Ending.error? : Ending → Option RuntimeError
  | failed e => some e
  | _ => none

def Evaluation.diagnostics : Evaluation → List Diagnostic
  | syntaxErrors es => es.map .ofSyntaxError
  | runtimeError e => [.ofRuntimeError e]
  | values _ | exhausted => []

def errorLine (settings : Settings) (message : String) : String :=
  Style.redBold.paint settings.coloured message ++ "\n"

/-- What is said about an evaluation that was stopped, by the convention of `Outcome.exhausted`. -/
def Ending.stopText : Ending → List String
  | exhausted => ["Evaluation nests too deeply."]
  | _ => []

/-- The report on a unit: the errors found while reading it, and how its evaluation ended. -/
def report (settings : Settings) (source fileName : String) (errors : List SyntaxError)
    (ending : Ending) : String :=
  let texts := errors.map (·.text) ++ (ending.error?.map (·.text)).toList ++ ending.stopText
  let diagnostics := errors.map Diagnostic.ofSyntaxError
    ++ (ending.error?.map Diagnostic.ofRuntimeError).toList
  String.join (texts.map (errorLine settings))
    ++ (if settings.verbose && !diagnostics.isEmpty then
        Diagnostic.renderAll ⟨source, fileName, settings.coloured⟩ diagnostics
      else "")

def valueLines (values : List Value) : String := String.join (values.map (·.text ++ "\n"))

end MiniLisp
