import MiniLisp.Command.Prompt
import MiniLisp.Command.Script

/-!
# The command line

The arguments decide: a script is run, lines are read at the prompt, or there is nothing to run.
What is written then about the command line itself is a parameter, except for the version.
-/

namespace MiniLisp

namespace Program

def versionText : String := "lispy 0.1.0\n"

/-- What is written about the command line: if it makes no sense, if help is asked for, and for a
shell that completes it. -/
structure Texts where
  usage : String
  help : String
  completions : Shell → String

inductive Request where
  /-- Nothing is run. -/
  | refused (r : Refusal)
  /-- Completions for a shell. -/
  | completions (shell : Shell)
  /-- The script at a path. -/
  | script (settings : Settings) (path : String)
  /-- Lines from the input. -/
  | prompt (settings : Settings)

/-- Reads a command line; `terminal` is whether an automatic choice colours. -/
def request (terminal : Bool) (args : List String) : Request :=
  match Options.parse args with
  | .error r => .refused r
  | .ok o =>
    match o.complete?, o.script? with
    | some shell, _ => .completions shell
    | none, some path => .script (.ofOptions terminal o) path
    | none, none => .prompt (.ofOptions terminal o)

def refusal (texts : Texts) : Refusal → Result
  | .version => ⟨Refusal.version.code, versionText, ""⟩
  | .help => ⟨Refusal.help.code, texts.help, ""⟩
  | .usage => ⟨Refusal.usage.code, "", texts.usage⟩

/-- What the program does with files in `working` and an input. -/
def run (texts : Texts) (depth : Nat) (working : Entry) (input : ByteArray) : Request → Result
  | .refused r => refusal texts r
  | .completions shell => ⟨0, texts.completions shell, ""⟩
  | .script settings path => Script.run depth settings path (working.read path)
  | .prompt settings => Prompt.run depth settings input

end Program

end MiniLisp
