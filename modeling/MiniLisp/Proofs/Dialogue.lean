import MiniLisp.Proofs.GlobalScope
import MiniLisp.Proofs.InputLines
import MiniLisp.Proofs.Scripts
import MiniLisp.Proofs.Simulation.SameCode

/-!
# The dialogue at the prompt

The prompt keeps one session from line to line. It forgets the errors of a line as soon as they are
reported, so each is reported once, below the line it is in.

* `Machine.Listed` : global bindings are listed in the order in which they were made;
* `Prompt.Says` : the words of a line, without the blanks around them;
* `Prompt.Answers` : what one line prints, and the session that it leaves;
* `Prompt.Dialogue` : lines one after the other, each in the session that those before it left, up
  to the first that ends the session;
* `Prompt.answer_answers` : the step from one line to the next;
* `Prompt.run_text` : all that the prompt prints on an input.
-/

namespace MiniLisp

/-! ## The order of global bindings -/

/-- Global bindings are listed in the order in which they were made: no name twice, and the names
that were bound at any earlier time first. -/
structure Machine.Listed (m : Machine) : Prop where
  nodup : m.globals.names.Nodup
  order : ∀ n : Machine, initial.Leads n → n.Leads m → n.globals.names <+: m.globals.names

def Machine.StartsWith (names : List String) (m : Machine) : Prop :=
  names <+: m.globals.names ∧ m.globals.names.Nodup

theorem Machine.StartsWith.define {names : List String} {m : Machine} (h : m.StartsWith names)
    (name : String) (v : Value) : (m.define name v).StartsWith names := by
  unfold StartsWith globals
  rw [store_define, Store.bindings_define]
  split
  · exact ⟨h.1.trans (Bindings.names_isPrefix_bind ..), Bindings.nodup_bind h.2 ..⟩
  · exact h

def SameCode.naming (names : List String) : SameCode where
  inside := fun _ => True
  machine m m' := m.StartsWith names ∧ m' = m
  label := by
    rintro m _ ⟨-, rfl⟩
    rfl
  current := by
    rintro m _ ⟨-, rfl⟩
    exact ⟨rfl, trivial⟩
  lookup := by
    rintro m _ name ⟨-, rfl⟩
    refine ⟨rfl, ?_⟩
    intro v _
    cases v <;> trivial
  relabelled := by
    rintro m _ ⟨h, rfl⟩
    exact ⟨h, rfl⟩
  define := by
    rintro m _ name v ⟨h, rfl⟩ _
    exact ⟨h.define name v, rfl⟩
  opened := by
    rintro m _ f ⟨h, rfl⟩ _
    refine ⟨?_, rfl⟩
    unfold Machine.StartsWith Machine.globals
    rwa [Machine.store_opened, Store.bindings_push]
  leave := by
    rintro m _ n _ ⟨-, rfl⟩ ⟨h, rfl⟩
    exact ⟨h, rfl⟩

namespace Machine

theorem Advances.startsWith {names : List String} {m n : Machine} (hstep : m.Advances n)
    (h : m.StartsWith names) : n.StartsWith names := by
  have heval (depth : Nat) (e : Expr) :=
    (SameCode.naming names).simulation.eval depth (rfl : e = e) ⟨h, rfl⟩
  cases hstep with
  | adopt exprs => exact h
  | @done depth e v n hdone =>
    have he := heval depth e
    rw [hdone] at he
    cases he with
    | done _ hn _ => exact hn.1
  | @failed depth e error n hfailed =>
    have he := heval depth e
    rw [hfailed] at he
    cases he with
    | failed _ _ hn _ => exact hn.1

theorem Leads.startsWith {names : List String} {m n : Machine} (hmn : m.Leads n)
    (h : m.StartsWith names) : n.StartsWith names := by
  induction hmn with
  | refl => exact h
  | tail _ hstep ih => exact hstep.startsWith ih

theorem startsWith_initial : initial.StartsWith [] := by
  unfold StartsWith globals
  rw [initial_bindings]
  exact ⟨List.prefix_refl _, List.nodup_nil⟩

/-- Bindings are listed in order on every machine that evaluation leads to. -/
theorem Leads.listed {m : Machine} (h : initial.Leads m) : m.Listed where
  nodup := (h.startsWith startsWith_initial).2
  order _ hn hnm := by
    have hnodup := (hn.startsWith startsWith_initial).2
    exact (hnm.startsWith ⟨List.prefix_refl _, hnodup⟩).1

end Machine

/-! ## Lines -/

namespace Prompt

variable (depth : Nat) (preserveCase : Bool)

/-- The words of a line: its text as it is run, without the blanks at its two ends. -/
def Says (line words : String) : Prop :=
  Text.Trimmed (Options.normalize preserveCase line).toList words.toList

def Leaves (line : String) : Prop := Says preserveCase line "exit" ∨ Says preserveCase line "quit"

/-- What a line prints in a session, what is written about its errors, and the session it leaves. -/
inductive Answers (s : Session) (line : String) : String → String → Session → Prop
  | blank (h : Says preserveCase line "") : Answers s line "" "" s
  | bindings (h : Says preserveCase line ":env") (hlisted : s.machine.Listed) :
      Answers s line
        (textLines (s.machine.globals.map fun (name, value) => name ++ " = " ++ value.text)) "" s
  | unit (hblank : ¬Says preserveCase line "") (henv : ¬Says preserveCase line ":env")
      {values : List Value} {ending : Ending} {after : Session}
      (hrun : s.runWith (fun values value => values ++ [value]) depth []
        (Options.normalize preserveCase line) = (values, ending, after)) :
      Answers s line (textLines (values.map (·.text)))
        (textLines ((Session.unitErrors (Options.normalize preserveCase line)).map (·.text) ++
          ending.complaints)) after

/-- Lines one after the other, each answered in the session that those before it left, up to the
first that ends it; what is printed for each, and what is written about its errors. -/
inductive Dialogue : Session → List String → List (String × String) → Prop
  | nil (s : Session) : Dialogue s [] []
  | leave (s : Session) {line : String} (h : Leaves preserveCase line) (lines : List String) :
      Dialogue s (line :: lines) []
  | cons {s after : Session} {line out err : String} {lines : List String}
      {answers : List (String × String)} (hstay : ¬Leaves preserveCase line)
      (hline : Answers depth preserveCase s line out err after)
      (hlines : Dialogue after lines answers) : Dialogue s (line :: lines) ((out, err) :: answers)

/-- The session `s` is at the same point as `t`, which keeps all errors, and has none left to
report. -/
structure Follows (s t : Session) : Prop where
  errors : s.errors = []
  machine : s.machine = t.machine
  leads : Machine.initial.Leads t.machine

variable {depth preserveCase}

theorem says_iff {line words : String} :
    Says preserveCase line words ↔
      String.ofList (Text.trim (Options.normalize preserveCase line).toList) = words := by
  rw [Says, Text.trimmed_iff, ← String.toList_inj, String.toList_ofList, eq_comm]

instance (line words : String) : Decidable (Says preserveCase line words) :=
  decidable_of_iff' _ says_iff

instance (line : String) : Decidable (Leaves preserveCase line) :=
  inferInstanceAs (Decidable (_ ∨ _))

theorem Answers.unique {s after after' : Session} {line out out' err err' : String}
    (h : Answers depth preserveCase s line out err after)
    (h' : Answers depth preserveCase s line out' err' after') :
    out = out' ∧ err = err' ∧ after = after' := by
  have hother {words words' : String} (hw : Says preserveCase line words)
      (hw' : Says preserveCase line words') : words = words' :=
    (says_iff.1 hw).symm.trans (says_iff.1 hw')
  cases h with
  | blank hblank =>
    cases h' with
    | blank => exact ⟨rfl, rfl, rfl⟩
    | bindings henv => exact absurd (hother hblank henv) (by decide)
    | unit hblank' => exact absurd hblank hblank'
  | bindings henv =>
    cases h' with
    | blank hblank => exact absurd (hother hblank henv) (by decide)
    | bindings => exact ⟨rfl, rfl, rfl⟩
    | unit _ henv' => exact absurd henv henv'
  | unit hblank henv hrun =>
    cases h' with
    | blank hblank' => exact absurd hblank' hblank
    | bindings henv' => exact absurd henv' henv
    | unit _ _ hrun' =>
      rw [hrun] at hrun'
      cases hrun'
      exact ⟨rfl, rfl, rfl⟩

theorem Dialogue.unique {s : Session} {lines : List String}
    {answers answers' : List (String × String)}
    (h : Dialogue depth preserveCase s lines answers)
    (h' : Dialogue depth preserveCase s lines answers') : answers = answers' := by
  induction h generalizing answers' with
  | nil =>
    cases h'
    rfl
  | leave s hleave =>
    cases h' with
    | leave => rfl
    | cons hstay => exact absurd hleave hstay
  | cons hstay hline _ ih =>
    cases h' with
    | leave _ hleave => exact absurd hleave hstay
    | cons _ hline' hlines =>
      obtain ⟨rfl, rfl, rfl⟩ := hline.unique hline'
      rw [ih hlines]

theorem bindingLines_eq (bindings : Bindings) :
    bindingLines bindings =
      textLines (bindings.map fun (name, value) => name ++ " = " ++ value.text) := by
  simp [bindingLines, textLines, Function.comp_def]

theorem runLine_answers {s t : Session} (h : Follows s t) {line : String}
    (hblank : ¬Says preserveCase line "") (henv : ¬Says preserveCase line ":env") :
    ∃ out err s' t', runLine depth (.plain preserveCase) s (Options.normalize preserveCase line) =
      .print out err s' ∧ Answers depth preserveCase t line out err t' ∧ Follows s' t' := by
  obtain ⟨machine, errors⟩ := s
  obtain ⟨herrors, hmachine, hleads⟩ := h
  obtain rfl : errors = [] := herrors
  obtain rfl : machine = t.machine := hmachine
  have hrun := t.runWith_collected depth (Options.normalize preserveCase line)
  obtain ⟨hunit, hunits⟩ := t.after_leads depth (Options.normalize preserveCase line) 0
  refine ⟨_, _, _, (t.run depth (Options.normalize preserveCase line)).session, rfl, ?_,
    ⟨rfl, rfl, (hleads.trans hunit).trans hunits⟩⟩
  rw [report_plain, valueLines_eq]
  exact .unit hblank henv hrun

theorem answer_eq (s : Session) (line : String) :
    answer depth (.plain preserveCase) s line =
      if Leaves preserveCase line then .quit
      else if Says preserveCase line "" then .print "" "" s
      else if Says preserveCase line ":env" then .print (bindingLines s.machine.globals) "" s
      else runLine depth (.plain preserveCase) s (Options.normalize preserveCase line) := by
  unfold answer
  simp only [Leaves, says_iff, Settings.preserveCase_plain]
  split <;> simp_all

/-- **The step from one line to the next**, unless the line ends the session. -/
theorem answer_answers {s t : Session} (h : Follows s t) {line : String}
    (hline : ¬Leaves preserveCase line) :
    ∃ out err s' t', answer depth (.plain preserveCase) s line = .print out err s' ∧
      Answers depth preserveCase t line out err t' ∧ Follows s' t' := by
  rw [answer_eq, if_neg hline]
  by_cases hblank : Says preserveCase line ""
  · rw [if_pos hblank]
    exact ⟨"", "", s, t, rfl, .blank hblank, h⟩
  · rw [if_neg hblank]
    by_cases henv : Says preserveCase line ":env"
    · rw [if_pos henv, bindingLines_eq, h.machine]
      exact ⟨_, "", s, t, rfl, .bindings henv h.leads.listed, h⟩
    · rw [if_neg henv]
      exact runLine_answers h hblank henv

/-- The prompt answers lines in order, up to the first that ends the session. -/
theorem runLines_dialogue (lines : List (List Char)) {s t : Session} (h : Follows s t) :
    ∃ answers, Dialogue depth preserveCase t (lines.map String.ofList) answers ∧
      runLines depth (.plain preserveCase) s (lines.map Text.utf8) =
        ⟨0, String.join (answers.map fun a => sign ++ a.1) ++ sign ++ "\n",
          String.join (answers.map (·.2))⟩ := by
  induction lines generalizing s t with
  | nil => exact ⟨[], .nil t, rfl⟩
  | cons line lines ih =>
    rw [List.map_cons, List.map_cons, runLines, Entry.decode_utf8]
    dsimp only
    by_cases hline : Leaves preserveCase (String.ofList line)
    · rw [answer_eq, if_pos hline]
      exact ⟨[], .leave t hline _, rfl⟩
    · obtain ⟨out, err, s', t', hanswer, hanswers, hfollows⟩ := answer_answers h hline
      obtain ⟨answers, hdialogue, hrest⟩ := ih hfollows
      refine ⟨(out, err) :: answers, .cons hline hanswers hdialogue, ?_⟩
      rw [hanswer]
      dsimp only
      rw [hrest]
      simp [String.append_assoc]

variable (depth preserveCase) in
/-- **The prompt is a dialogue.** The lines of an input, up to the first that says `exit` or `quit`,
are answered in one session, whatever fails in them: after each prompt sign stands what the line
prints, and after the last of them one more sign. About the errors of a line the one-line forms are
written, those of reading before that of its evaluation, line by line and once each. -/
theorem run_text (texts : Program.Texts) (working : Entry) (text : String) :
    ∃ lines answers, Text.Lines text.toList lines ∧
      Dialogue depth preserveCase .initial (lines.map String.ofList) answers ∧
      Program.run texts depth working text.toUTF8 (.prompt (.plain preserveCase)) =
        ⟨0, String.join (answers.map fun a => ">>> " ++ a.1) ++ ">>> " ++ "\n",
          String.join (answers.map (·.2))⟩ := by
  obtain ⟨answers, hdialogue, hrun⟩ := runLines_dialogue (Text.inclusiveLines '\n' text.toList)
    (⟨rfl, rfl, .refl⟩ : Follows .initial .initial)
  refine ⟨_, answers, Text.lines_inclusiveLines text.toList, hdialogue, ?_⟩
  show runLines depth _ _ (Text.inclusiveLines 10 text.toUTF8.toList) = _
  rw [Text.toList_toUTF8, Text.inclusiveLines_utf8]
  exact hrun

/-- Two values and two errors, a blank line, the bindings, and an end in capital letters. -/
theorem run_text_session :
    let text := "(set x \"a\") x\n\n :ENV \nx (y) #\nx\n Exit\nx"
    Program.run ⟨"", "", fun _ => ""⟩ 9 .emptyFolder text.toUTF8 (.prompt (.plain false)) =
      ⟨0, ">>> a\n>>> >>> x = a\n>>> a\n>>> a\n>>> \n",
        "[line 1] Error: Unexpected character '#'.\n" ++
          "[line 1] Runtime Error: Undefined variable 'y'.\n"⟩ := by
  intro text
  obtain ⟨lines, answers, hlines, hdialogue, hrun⟩ :=
    run_text 9 false ⟨"", "", fun _ => ""⟩ .emptyFolder text
  have hlines : lines.map String.ofList = ["(set x \"a\") x\n", "\n", " :ENV \n", "x (y) #\n",
      "x\n", " Exit\n", "x"] := by
    rw [Text.lines_iff.1 hlines]
    decide +kernel
  rw [hlines] at hdialogue
  have hlisted : (Session.initial.run 9
      (Options.normalize false "(set x \"a\") x\n")).session.machine.Listed := by
    obtain ⟨hafter, hrest⟩ := Session.initial.after_leads 9 _ 0
    exact Machine.Leads.listed (hafter.trans hrest)
  have hanswers := hdialogue.unique <|
    .cons (by decide +kernel)
      (.unit (by decide +kernel) (by decide +kernel) (Session.runWith_collected ..)) <|
    .cons (by decide +kernel) (.blank (by decide +kernel)) <|
    .cons (by decide +kernel) (.bindings (by decide +kernel) hlisted) <|
    .cons (by decide +kernel)
      (.unit (by decide +kernel) (by decide +kernel) (Session.runWith_collected ..)) <|
    .cons (by decide +kernel)
      (.unit (by decide +kernel) (by decide +kernel) (Session.runWith_collected ..)) <|
    .leave _ (by decide +kernel) ["x"]
  rw [hrun, hanswers]
  decide +kernel

end Prompt

end MiniLisp
