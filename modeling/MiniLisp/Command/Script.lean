import MiniLisp.Command.Folder
import MiniLisp.Command.Report

/-!
# Running a script

A script is one unit in a new session. It ends with code 64 if it cannot be read, with 65 if there
are errors in its text, otherwise with 70 if its evaluation fails, and with 0 if all went well.
-/

namespace MiniLisp

namespace Script

def code (hadError : Bool) : Ending → Nat
  | .completed => if hadError then 65 else 0
  | _ => if hadError then 65 else 70

def runSource (depth : Nat) (settings : Settings) (path source : String) : Result :=
  let source := Options.normalize settings.preserveCase source
  let r := Session.initial.run depth source
  ⟨code r.session.hadError r.ending, valueLines r.emitted,
    report settings source path r.session.errors r.ending⟩

def run (depth : Nat) (settings : Settings) (path : String) : Except ReadError String → Result
  | .ok source => runSource depth settings path source
  | .error e =>
    ⟨64, "", errorLine settings ("Failed to read " ++ path ++ ": " ++ e.message)⟩

end Script

end MiniLisp
