import MiniLisp.Command.Folder
import MiniLisp.Command.Report

/-!
# The prompt

Without a script, lines are read and run as units of one session, each after a prompt. Blank lines
do nothing, `:env` lists what is bound globally, and `exit` or `quit` ends.

* `Prompt.answer` : what one line does;
* `Prompt.run` : all lines of an input.
-/

namespace MiniLisp

namespace Prompt

def sign : String := ">>> "

inductive Answer where
  /-- It ends the session. -/
  | quit
  /-- It prints, and the session goes on. -/
  | print (stdout stderr : String) (session : Session)

def bindingLines (bindings : Bindings) : String :=
  String.join (bindings.map fun (name, value) => name ++ " = " ++ value.text ++ "\n")

/-- Runs a line as a unit. The errors that were in it are reported and then forgotten. -/
def runLine (depth : Nat) (settings : Settings) (s : Session) (source : String) : Answer :=
  let r := s.run depth source
  .print (valueLines r.emitted) (report settings source "repl" r.session.errors r.ending)
    r.session.resetErrors

def answer (depth : Nat) (settings : Settings) (s : Session) (line : String) : Answer :=
  let source := Options.normalize settings.preserveCase line
  match String.ofList (Text.trim source.toList) with
  | "" => .print "" "" s
  | "exit" => .quit
  | "quit" => .quit
  | ":env" => .print (bindingLines s.machine.globals) "" s
  | _ => runLine depth settings s source

def unreadable (settings : Settings) : String :=
  errorLine settings ("Error reading input: " ++ ReadError.notText.message)

/-- Reads and runs lines until they end, one ends the session, or one is no text. -/
def runLines (depth : Nat) (settings : Settings) (s : Session) : List (List UInt8) → Result
  | [] => ⟨0, sign ++ "\n", ""⟩
  | bytes :: rest =>
    match Entry.decode ⟨bytes.toArray⟩ with
    | .error _ => ⟨0, sign ++ "\n", unreadable settings⟩
    | .ok line =>
      match answer depth settings s line with
      | .quit => ⟨0, sign ++ "\n", ""⟩
      | .print out err s =>
        let r := runLines depth settings s rest
        ⟨r.code, sign ++ out ++ r.stdout, err ++ r.stderr⟩

def run (depth : Nat) (settings : Settings) (input : ByteArray) : Result :=
  runLines depth settings .initial (Text.inclusiveLines 10 input.toList)

end Prompt

end MiniLisp
