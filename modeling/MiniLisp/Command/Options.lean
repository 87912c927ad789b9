import MiniLisp.Text.LowerCase

/-!
# Options

The arguments of the command line: at most one script, options before or after it, and two commands.
Arguments are read from left to right, and the first one that settles the matter does: a refusal, or
a request for help or for the version. What a `--color` or a script name says is looked at when the
next option is met or the arguments end, not before.
-/

namespace MiniLisp

inductive ColorChoice where
  | auto
  | always
  | never
  deriving DecidableEq, Repr

namespace ColorChoice

def ofText? (text : String) : Option ColorChoice :=
  match Text.toLower text with
  | "auto" => some auto
  | "always" => some always
  | "never" => some never
  | _ => none

def invalidMessage (text : String) : String :=
  "Invalid color choice: " ++ text ++ ". Must be 'auto', 'always', or 'never'"

/-- Are colours on? An automatic choice depends on the terminal. -/
def enabled? : ColorChoice → Option Bool
  | auto => none
  | always => some true
  | never => some false

end ColorChoice

inductive Shell where
  | bash
  | elvish
  | fish
  | powershell
  | zsh
  deriving DecidableEq, Repr

namespace Shell

def name : Shell → String
  | bash => "bash"
  | elvish => "elvish"
  | fish => "fish"
  | powershell => "powershell"
  | zsh => "zsh"

def ofName? (text : String) : Option Shell :=
  [bash, elvish, fish, powershell, zsh].find? (·.name == text)

end Shell

structure Options where
  script? : Option String := none
  color? : Option ColorChoice := none
  verbose : Bool := false
  preserveCase : Bool := false
  complete? : Option Shell := none
  deriving DecidableEq

inductive Refusal where
  | usage
  | help
  | version
  deriving DecidableEq, Repr

namespace Refusal

def code : Refusal → Nat
  | usage => 64
  | help => 0
  | version => 0

end Refusal

namespace Options

/-- The colour choice; without one it is automatic. -/
def color (o : Options) : ColorChoice := o.color?.getD .auto

/-- An argument that has been met and not been looked at. -/
inductive Pending where
  | nothing
  | color (text : String)
  | script (text : String)
  deriving DecidableEq

/-- Looks at the pending argument: a choice must be one and given once, a name must not be empty. -/
def settle (o : Options) : Pending → Except Refusal Options
  | .nothing => .ok o
  | .color text =>
    match o.color?, ColorChoice.ofText? text with
    | none, some choice => .ok { o with color? := some choice }
    | _, _ => .error .usage
  | .script text => if text.isEmpty then .error .usage else .ok { o with script? := some text }

def short (o : Options) (c : Char) : Except Refusal Options :=
  match c with
  | 'v' => if o.verbose then .error .usage else .ok { o with verbose := true }
  | 'h' => .error .help
  | 'V' => .error .version
  | _ => .error .usage

def long (o : Options) (text : List Char) : Except Refusal Options :=
  match String.ofList (text.takeWhile (· != '=')), text.dropWhile (· != '=') with
  | "verbose", [] => if o.verbose then .error .usage else .ok { o with verbose := true }
  | "preserve-case", [] =>
    if o.preserveCase then .error .usage else .ok { o with preserveCase := true }
  | "help", [] => .error .help
  | "version", [] => .error .version
  | "color", '=' :: value => o.settle (.color (String.ofList value))
  | _, _ => .error .usage

/-- Reads a positional argument: the script, of which there is one at most. -/
def positional (o : Options) (pending : Pending) (text : String) :
    Except Refusal (Options × Pending) := do
  let o ← o.settle pending
  if o.script?.isSome then .error .usage else .ok (o, .script text)

def readPositional (o : Options) (pending : Pending) : List String → Except Refusal Options
  | [] => o.settle pending
  | text :: rest => do
    let (o, pending) ← o.positional pending text
    readPositional o pending rest

/-- Reads the arguments of the command `complete`: the name of a shell, and options of its own. -/
def readShell (pending : Option String) (positional : Bool) : List String → Except Refusal Shell
  | [] =>
    match pending.bind Shell.ofName? with
    | some shell => .ok shell
    | none => .error .usage
  | text :: rest =>
    match positional, text.toList with
    | false, ['-', '-'] => readShell pending true rest
    | false, '-' :: option :: more =>
      if (option = 'h' || (option :: more) == "-help".toList)
          && (pending.all fun name => (Shell.ofName? name).isSome) then .error .help
      else .error .usage
    | _, _ => if pending.isSome then .error .usage else readShell (some text) positional rest

/-- Reads the arguments of the command `help`: the name of a command, or none. -/
def readHelp : List String → Refusal
  | [] => .help
  | ["help"] => .help
  | ["complete"] => .help
  | _ => .usage

def read (o : Options) (pending : Pending) : List String → Except Refusal Options
  | [] => o.settle pending
  | text :: rest =>
    match text.toList with
    | ['-', '-'] => readPositional o pending rest
    | '-' :: '-' :: option =>
      if option = "color".toList then
        match rest with
        | [] => .error .usage
        | value :: rest =>
          if value.startsWith "-" && value != "-" then .error .usage
          else do
            let o ← o.settle pending
            read o (.color value) rest
      else do
        let o ← o.settle pending
        let o ← o.long option
        read o .nothing rest
    | '-' :: option :: more => do
      let o ← o.settle pending
      let o ← (option :: more).foldlM short o
      read o .nothing rest
    | _ =>
      if text = "help" then .error (readHelp rest)
      else if text = "complete" then do
        let shell ← readShell none false rest
        let o ← o.settle pending
        return { o with complete? := some shell }
      else do
        let (o, pending) ← o.positional pending text
        read o pending rest

def parse (args : List String) : Except Refusal Options := read {} .nothing args

/-- A source as it is run: in lower case, unless letter case is to be kept. -/
def normalize (preserveCase : Bool) (source : String) : String :=
  if preserveCase then source else Text.toLower source

end Options

end MiniLisp
