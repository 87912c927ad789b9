import MiniLisp.Command.Program

/-!
# The executable

Reads files and standard input, writes what the library answers, and decides nothing itself.
-/

namespace MiniLisp

namespace Executable

/-- The bytes up to the next line feed, that included, or up to the end of the input. -/
partial def readLine (input : IO.FS.Stream) (line : ByteArray) : IO ByteArray := do
  let next ← input.read 1
  let line := line ++ next
  if next.isEmpty || next.toList == [10] then return line else readLine input line

partial def prompt (settings : Settings) (input : IO.FS.Stream) (s : Session) : IO Unit := do
  IO.print Prompt.sign
  (← IO.getStdout).flush
  let line ← readLine input ByteArray.empty
  if line.isEmpty then IO.println ""
  else match Entry.decode line with
    | .error _ => do
      IO.eprint (Prompt.unreadable settings)
      IO.println ""
    | .ok text =>
      match Prompt.answer defaultDepth settings s text with
      | .quit => IO.println ""
      | .print out err s => do
        IO.print out
        IO.eprint err
        prompt settings input s

def readFile (path : String) : IO (Except ReadError String) := do
  try
    let bytes ← IO.FS.readBinFile path
    return Entry.decode bytes
  catch e =>
    match e with
    | .noFileOrDirectory _ _ _ => return .error .notFound
    | e => return .error (.other (toString e))

def write (r : Result) : IO UInt32 := do
  IO.print r.stdout
  IO.eprint r.stderr
  return r.code.toUInt32

def usage : String := "usage: [-v] [--preserve-case] [--color auto|always|never] [SCRIPT]\n"

/-- What this executable says about its command line. It has no completions for shells. -/
def texts : Program.Texts := ⟨usage, usage, fun _ => ""⟩

def run (args : List String) : IO UInt32 := do
  let terminal := (← (← IO.getStdout).isTty) && (← (← IO.getStderr).isTty)
  match Program.request terminal args with
  | .script settings path => do write (Script.run defaultDepth settings path (← readFile path))
  | .prompt settings => do
    prompt settings (← IO.getStdin) .initial
    return 0
  | request => write (Program.run texts defaultDepth Entry.emptyFolder ByteArray.empty request)

end Executable

end MiniLisp

def main (args : List String) : IO UInt32 := MiniLisp.Executable.run args
