import MiniLisp.Diagnostic.Basic
import MiniLisp.Diagnostic.Style
import MiniLisp.Text.Lines

/-!
# Showing diagnostics

A diagnostic is shown as a header, an excerpt of the line it is about, and its notes. The excerpt
has a gutter as wide as the line number, and carets under the lexeme where that is on the line.

* `Diagnostic.column?` : where the carets go;
* `Diagnostic.render` : one diagnostic, `Diagnostic.renderAll` : several and their count.
-/

namespace MiniLisp

open Text

/-- Where on its line something is marked: how many characters before it, and how many carets. -/
structure Column where
  start : Nat
  width : Nat
  deriving DecidableEq

namespace Diagnostic

structure View where
  source : String
  fileName : String
  coloured : Bool

/-- The place of a location on a line. A lexeme is marked where it first occurs; the end of the text
is marked after the last character. -/
def column? (content : List Char) : Location → Option Column
  | .at lexeme =>
    if lexeme.isEmpty then none
    else (find? lexeme.toList content).map (⟨·, lexeme.length⟩)
  | .atEnd => some ⟨content.length, 1⟩
  | .unknown => none

/-- The line a diagnostic is about, if the source has it. Lines count from 1; 0 also means the first
one. -/
def content? (view : View) (d : Diagnostic) : Option (List Char) :=
  (lines view.source.toList)[d.line - 1]?

def header (view : View) (d : Diagnostic) : String :=
  let code := match d.code? with
    | some code => "[" ++ code ++ "]"
    | none => ""
  Style.redBold.paint view.coloured "error" ++ code ++ ": "
    ++ Style.bold.paint view.coloured d.message ++ "\n"

/-- The excerpt: where the line is, and the line itself between two empty lines of the gutter. -/
def excerpt (view : View) (d : Diagnostic) (content : List Char) : String :=
  let blue := Style.blue.paint view.coloured
  let number := toString d.line
  let column := column? content d.location
  let bar := blue "|"
  let gutter := repeated (number.length + 1) ' ' ++ " " ++ bar
  let place := view.fileName ++ ":" ++ number ++ ":"
    ++ toString ((column.map (·.start + 1)).getD 1)
  let marks := match column with
    | some c =>
      gutter ++ " " ++ repeated c.start ' '
        ++ Style.red.paint view.coloured (repeated (max c.width 1) '^') ++ "\n"
    | none => ""
  "  " ++ blue "-->" ++ " " ++ place ++ "\n"
    ++ gutter ++ "\n"
    ++ padLeft (number.length + 1) (blue number) ++ " " ++ bar ++ " " ++ String.ofList content
    ++ "\n" ++ marks ++ gutter ++ "\n"

def noteLine (view : View) (note : String) : String :=
  "  " ++ Style.blue.paint view.coloured "=" ++ " " ++ Style.bold.paint view.coloured "note:"
    ++ " " ++ note ++ "\n"

def render (view : View) (d : Diagnostic) : String :=
  header view d
    ++ (match content? view d with
      | some content => excerpt view d content
      | none => "")
    ++ String.join (d.notes.map (noteLine view))

def summary : Nat → String
  | 0 => ""
  | 1 => "error: aborting due to 1 error\n"
  | n => "error: aborting due to " ++ toString n ++ " errors\n"

/-- Diagnostics, each followed by an empty line, and their number. -/
def renderAll (view : View) (ds : List Diagnostic) : String :=
  String.join (ds.map fun d => render view d ++ "\n") ++ summary ds.length

end Diagnostic

end MiniLisp
