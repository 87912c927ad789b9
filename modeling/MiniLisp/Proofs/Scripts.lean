import MiniLisp.Command.Program
import MiniLisp.Proofs.Bytes
import MiniLisp.Proofs.Histories

/-!
# Scripts

A script is evaluated as its text is on its own, but for two things: its values are printed as they
come, even if its evaluation fails later, and what could be read of it is evaluated even if there
are errors in its text.

* `report_plain` : a report without colours and excerpts has the one-line forms of the errors;
* `Machine.Ends` : the values of expressions up to the end of their evaluation;
* `Machine.interpret_ends` : those that are emitted are the ones that are not nil;
* `Program.run_script` : what a script prints, beside what its text gives on its own.
-/

namespace MiniLisp

/-! ## Plain reports -/

def Settings.plain (preserveCase : Bool) : Settings := ⟨false, false, preserveCase⟩

@[simp] theorem Settings.preserveCase_plain (preserveCase : Bool) :
    (plain preserveCase).preserveCase = preserveCase := rfl

def textLines (texts : List String) : String := String.join (texts.map (· ++ "\n"))

def Ending.complaints : Ending → List String
  | completed => []
  | failed e => [e.text]
  | exhausted => exhausted.stopText

theorem textLines_append (texts more : List String) :
    textLines (texts ++ more) = textLines texts ++ textLines more := by
  simp [textLines]

theorem valueLines_eq (values : List Value) :
    valueLines values = textLines (values.map (·.text)) := by
  simp [valueLines, textLines, Function.comp_def]

/-- **A plain report** has the one-line forms of the errors, those of reading first. -/
theorem report_plain (preserveCase : Bool) (source fileName : String) (errors : List SyntaxError)
    (ending : Ending) :
    report (.plain preserveCase) source fileName errors ending =
      textLines (errors.map (·.text) ++ ending.complaints) := by
  have hline : errorLine (.plain preserveCase) = (· ++ "\n") := rfl
  unfold report
  rw [hline]
  cases ending <;> simp [Settings.plain, textLines, Ending.error?, Ending.stopText,
    Ending.complaints]

/-! ## Evaluation up to its end -/

/-- Expressions are evaluated from left to right to `values`, nil among them, until they end so. -/
inductive Machine.Ends (depth : Nat) : Machine → List Expr → List Value → Ending → Prop
  | completed (m : Machine) : Ends depth m [] [] .completed
  | failed {m n : Machine} {x : Expr} {e : RuntimeError} (h : eval depth x m = .failed e n)
      (xs : List Expr) : Ends depth m (x :: xs) [] (.failed e)
  | exhausted {m : Machine} {x : Expr} (h : eval depth x m = .exhausted) (xs : List Expr) :
      Ends depth m (x :: xs) [] .exhausted
  | next {m n : Machine} {x : Expr} {v : Value} {xs : List Expr} {vs : List Value}
      {ending : Ending} (h : eval depth x m = .done v n) (hxs : Ends depth n xs vs ending) :
      Ends depth m (x :: xs) (v :: vs) ending

def nonNil (values : List Value) : List Value := values.filter fun v => !v.isNil

theorem Machine.interpret_ends (depth : Nat) (m : Machine) (xs : List Expr) :
    ∃ values, m.Ends depth xs values (m.interpret depth xs).ending ∧
      (m.interpret depth xs).emitted = nonNil values := by
  induction xs generalizing m with
  | nil => exact ⟨[], .completed m, rfl⟩
  | cons x xs ih =>
    unfold interpret
    cases h : eval depth x m with
    | failed e n => exact ⟨[], .failed h xs, rfl⟩
    | exhausted => exact ⟨[], .exhausted h xs, rfl⟩
    | done v n =>
      obtain ⟨values, hends, hemitted⟩ := ih n
      refine ⟨v :: values, ?_, ?_⟩
      · by_cases hnil : v.isNil <;> simpa [hnil] using Ends.next h hends
      · by_cases hnil : v.isNil <;> simp [hnil, hemitted, nonNil]

theorem Machine.Ends.interpret {depth : Nat} {m : Machine} {xs : List Expr} {values : List Value}
    {ending : Ending} (h : m.Ends depth xs values ending) :
    (m.interpret depth xs).ending = ending ∧
      (m.interpret depth xs).emitted = nonNil values := by
  induction h with
  | completed => exact ⟨rfl, rfl⟩
  | failed h | exhausted h =>
    rw [Machine.interpret, h]
    exact ⟨rfl, rfl⟩
  | @next m n x v xs vs ending h _ ih =>
    obtain ⟨hending, hemitted⟩ := ih
    rw [Machine.interpret, h]
    by_cases hnil : v.isNil <;> simp [hnil, hending, hemitted, nonNil]

theorem Session.run_ends (depth : Nat) (s : Session) (source : String) :
    let (program, machine) := s.machine.adopt (Expr.read source).expressions
    ∃ values, machine.Ends depth program values (s.run depth source).ending ∧
      (s.run depth source).emitted = nonNil values :=
  Machine.interpret_ends depth _ _

/-! ## Running a script -/

theorem Entry.read_text {working : Entry} {path text : String}
    (hfile : working.find path = .ok (.file text.toUTF8)) : working.read path = .ok text := by
  have htext : text.toUTF8 = ⟨(Text.utf8 text.toList).toArray⟩ := by
    rw [← Text.toUTF8_ofList, String.ofList_toList]
  unfold Entry.read
  rw [hfile, htext]
  show decode _ = _
  rw [decode_utf8, String.ofList_toList]

theorem Script.runSource_plain (depth : Nat) (preserveCase : Bool) (path text : String) :
    let source := Options.normalize preserveCase text
    let r := Session.initial.run depth source
    runSource depth (.plain preserveCase) path text =
      ⟨code r.session.hadError r.ending, textLines (r.emitted.map (·.text)),
        textLines (r.session.errors.map (·.text) ++ r.ending.complaints)⟩ := by
  unfold runSource
  simp only [report_plain, valueLines_eq]
  rfl

/-- **A script prints what its text gives.** If its text gives values, they are printed, nothing is
reported, and the code is 0. If it gives an error of evaluation, the values before it are printed,
it is reported, and the code is 70. If there are errors in the text, they are reported, whatever
could be read is evaluated all the same, an error of that is reported after them, and the code is
65. -/
theorem Program.run_script (texts : Texts) (depth : Nat) (preserveCase : Bool) {working : Entry}
    (input : ByteArray) {path text : String}
    (hfile : working.find path = .ok (.file text.toUTF8)) :
    let source := Options.normalize preserveCase text
    let (program, machine) := Machine.initial.adopt (Expr.read source).expressions
    let result := run texts depth working input (.script (.plain preserveCase) path)
    ∃ values ending, machine.Ends depth program values ending ∧
      result.stdout = textLines ((nonNil values).map (·.text)) ∧
      match evaluateSource depth source with
      | .values vs =>
        ending = .completed ∧ vs = nonNil values ∧ result.code = 0 ∧ result.stderr = ""
      | .runtimeError e =>
        ending = .failed e ∧ result.code = 70 ∧ result.stderr = textLines [e.text]
      | .syntaxErrors es => result.code = 65 ∧
        result.stderr = textLines (es.map (·.text)) ++ textLines ending.complaints
      | .exhausted =>
        ending = .exhausted ∧ result.code = 70 ∧ result.stderr = textLines ending.complaints := by
  intro source
  have hresult : run texts depth working input (.script (.plain preserveCase) path) =
      Script.runSource depth (.plain preserveCase) path text := by
    show Script.run depth _ path (working.read path) = _
    rw [Entry.read_text hfile]
    rfl
  obtain ⟨values, hends, hemitted⟩ := Session.initial.run_ends depth source
  refine ⟨values, _, hends, ?_⟩
  rw [hresult, Script.runSource_plain, Session.evaluateSource_eq, Session.evaluate_eq]
  -- what the program does and what the text gives alone are both read off one run
  generalize Session.initial.run depth source = r at hemitted ⊢
  obtain ⟨emitted, ending, s⟩ := r
  obtain rfl : emitted = nonNil values := hemitted
  refine ⟨rfl, ?_⟩
  by_cases h : s.errors = []
  · cases ending <;>
      simp [Session.hadError, h, Ending.evaluation, Ending.complaints, Script.code, textLines]
  · cases ending <;> simp [Session.hadError, h, Script.code, textLines_append]

/-- A script with a character that belongs nowhere is evaluated around it, and its evaluation fails
after a value. -/
theorem Program.run_script_recovered :
    let texts : Texts := ⟨"", "", fun _ => ""⟩
    let working : Entry := .folder [("a", .file "1 # (x)".toUTF8)]
    let result := run texts 9 working ByteArray.empty (.script (.plain true) "a")
    working.find "a" = .ok (.file "1 # (x)".toUTF8) ∧ result.code = 65 ∧ result.stdout = "1\n" ∧
      result.stderr = "[line 1] Error: Unexpected character '#'.\n" ++
        "[line 1] Runtime Error: Undefined variable 'x'.\n" := by
  intro texts working result
  have hfile : working.find "a" = .ok (.file "1 # (x)".toUTF8) := by
    have hsize : "a".utf8ByteSize = 1 := by decide +kernel
    have hstart : "a".startsWith "/" = false := by decide +kernel
    have hparts : "a".splitOn "/" = ["a"] := by
      unfold String.splitOn
      rw [if_neg (by decide), String.splitOnAux, if_neg (by decide +kernel),
        if_neg (by decide +kernel), String.splitOnAux, if_pos (by decide +kernel)]
      decide +kernel
    simp [Entry.find, Entry.follow, Entry.child?, hsize, hstart, hparts, working]
  have herrors : (Expr.read "1 # (x)").errors = [⟨1, .unknown, .unexpectedCharacter '#'⟩] := by
    decide +kernel
  have halone : evaluateSource 9 "1 # (x)" =
      .syntaxErrors [⟨1, .unknown, .unexpectedCharacter '#'⟩] := by
    simp [evaluateSource, herrors]
  have hrun : (Session.initial.run 9 "1 # (x)").emitted.map (·.text) = ["1"] ∧
      (Session.initial.run 9 "1 # (x)").ending =
        .failed ⟨⟨.symbol, "x", none, 1⟩, .undefinedVariable "x"⟩ := by
    decide +kernel
  obtain ⟨values, ending, hends, hout, hrest⟩ :=
    Program.run_script texts 9 true ByteArray.empty hfile
  have hsource : Options.normalize true "1 # (x)" = "1 # (x)" := rfl
  rw [hsource] at hends hrest
  rw [halone] at hrest
  obtain ⟨hcode, herr⟩ := hrest
  obtain ⟨hending, hemitted⟩ := hends.interpret
  obtain ⟨htexts, hfailed⟩ := hrun
  have hvalues : (nonNil values).map (·.text) = ["1"] := by
    rw [← hemitted]
    exact htexts
  have hfailed : ending = .failed ⟨⟨.symbol, "x", none, 1⟩, .undefinedVariable "x"⟩ := by
    rw [← hending]
    exact hfailed
  refine ⟨hfile, hcode, ?_, ?_⟩
  · rw [hout, hvalues]
    rfl
  · rw [herr, hfailed]
    decide +kernel

end MiniLisp
