import Mathlib.Data.List.DropRight
import MiniLisp.Session

/-!
# Histories of sessions

Units are run in a session, their values collected or handed on one by one, and the errors found
while reading are reset from time to time.

* `Machine.interpretWith_eq`, `Session.runWith_eq` : values are handed on in the order in which they
  are collected, whoever receives them;
* `Session.history` : what is seen of any number of steps, and the session that is left;
* `History.errors_after`, `History.after_alike` : what one step does to the errors that are kept,
  and that all else it does is the same whatever they are;
* `Session.bookkeeping` : the same of whole histories, with units on their own beside them.
-/

namespace MiniLisp

/-! ## Handing values on -/

/-- **Values are handed on as they are collected**, one after the other. -/
theorem Machine.interpretWith_eq {σ : Type} (emit : σ → Value → σ) (depth : Nat) (sink : σ)
    (m : Machine) (xs : List Expr) :
    m.interpretWith emit depth sink xs =
      ((m.interpret depth xs).emitted.foldl emit sink, (m.interpret depth xs).ending,
        (m.interpret depth xs).machine) := by
  induction xs generalizing sink m with
  | nil => rfl
  | cons x xs ih =>
    unfold interpretWith interpret
    cases eval depth x m with
    | failed | exhausted => rfl
    | done v n =>
      simp only [ih]
      by_cases h : v.isNil <;> simp [h]

namespace Session

theorem runWith_eq {σ : Type} (emit : σ → Value → σ) (depth : Nat) (sink : σ) (s : Session)
    (unit : String) :
    s.runWith emit depth sink unit =
      ((s.run depth unit).emitted.foldl emit sink, (s.run depth unit).ending,
        (s.run depth unit).session) := by
  simp only [runWith, run, Machine.interpretWith_eq]

theorem runWith_collected (depth : Nat) (s : Session) (unit : String) :
    s.runWith (fun values value => values ++ [value]) depth [] unit =
      ((s.run depth unit).emitted, (s.run depth unit).ending, (s.run depth unit).session) := by
  rw [runWith_eq]
  simp [← List.flatMap_def]

theorem evaluate_eq (depth : Nat) (s : Session) (unit : String) :
    s.evaluate depth unit =
      ((s.run depth unit).ending.evaluation (s.run depth unit).emitted,
        (s.run depth unit).session) := by
  simp only [evaluate, runWith_collected]

/-! ## Histories -/

inductive Step where
  /-- A unit is run, and its values are collected. -/
  | evaluate (unit : String)
  /-- A unit is run, and its values are handed on as they come. -/
  | stream (unit : String)
  /-- The errors found while reading are forgotten. -/
  | reset

def Step.unit? : Step → Option String
  | evaluate unit | stream unit => some unit
  | reset => none

def Step.runs (step : Step) : Bool := step.unit?.isSome

inductive Seen where
  | evaluated (e : Evaluation)
  | streamed (values : List Value) (ending : Ending)

/-- What was seen of the units so far, and the session that is left. -/
structure History where
  seen : List Seen
  session : Session

def History.after (depth : Nat) (h : History) : Step → History
  | .evaluate unit =>
    let (e, s) := h.session.evaluate depth unit
    ⟨h.seen ++ [.evaluated e], s⟩
  | .stream unit =>
    let (values, ending, s) :=
      h.session.runWith (fun values value => values ++ [value]) depth [] unit
    ⟨h.seen ++ [.streamed values ending], s⟩
  | .reset => ⟨h.seen, h.session.resetErrors⟩

/-- The history of steps taken one after the other, from a session on. -/
def history (depth : Nat) (s : Session) (steps : List Step) : History :=
  steps.foldl (History.after depth) ⟨[], s⟩

def sinceReset (steps : List Step) : List String :=
  (steps.rtakeWhile Step.runs).filterMap Step.unit?

/-- The errors in the text of a unit: those of scanning, then those of reading expressions. -/
def unitErrors (unit : String) : List SyntaxError :=
  (scan unit).errors ++ (Expr.parse (scan unit).tokens).errors

theorem history_concat (depth : Nat) (s : Session) (steps : List Step) (step : Step) :
    history depth s (steps ++ [step]) = (history depth s steps).after depth step := by
  simp [history]

namespace History

theorem errors_after (depth : Nat) (h : History) (step : Step) :
    (h.after depth step).session.errors =
      match step.unit? with
      | some unit => h.session.errors ++ unitErrors unit
      | none => [] := by
  cases step with
  | evaluate unit =>
    unfold after
    simp only [evaluate_eq]
    rfl
  | stream unit =>
    unfold after
    simp only [runWith_eq]
    rfl
  | reset => rfl

/-- **The errors that are kept change nothing else**: not what is seen of a step, and not the
machine that it leaves. -/
theorem after_alike (depth : Nat) {h h' : History} (hseen : h.seen = h'.seen)
    (hmachine : h.session.machine = h'.session.machine) (step : Step) :
    (h.after depth step).seen = (h'.after depth step).seen ∧
      (h.after depth step).session.machine = (h'.after depth step).session.machine := by
  obtain ⟨seen, machine, errors⟩ := h
  obtain ⟨seen', machine', errors'⟩ := h'
  obtain rfl : seen = seen' := hseen
  obtain rfl : machine = machine' := hmachine
  cases step <;> exact ⟨rfl, rfl⟩

end History

theorem sinceReset_concat (steps : List Step) (step : Step) :
    sinceReset (steps ++ [step]) =
      match step.unit? with
      | some unit => sinceReset steps ++ [unit]
      | none => [] := by
  unfold sinceReset
  rw [List.rtakeWhile_concat]
  cases step <;> simp [Step.runs, Step.unit?]

/-- The errors that are kept are those of the units since the last reset. -/
theorem errors_history (depth : Nat) (steps : List Step) :
    (history depth .initial steps).session.errors = (sinceReset steps).flatMap unitErrors := by
  -- from the last step back: a reset there makes all that was before it irrelevant
  induction steps using List.reverseRecOn with
  | nil => rfl
  | append_singleton steps step ih =>
    rw [history_concat, History.errors_after, sinceReset_concat, ih]
    cases step.unit? <;> simp

/-- Without its resets a history is the same, the errors that are kept apart. -/
theorem history_filter_runs (depth : Nat) (s : Session) (steps : List Step) :
    (history depth s steps).seen = (history depth s (steps.filter Step.runs)).seen ∧
      (history depth s steps).session.machine =
        (history depth s (steps.filter Step.runs)).session.machine := by
  induction steps using List.reverseRecOn with
  | nil => exact ⟨rfl, rfl⟩
  | append_singleton steps step ih =>
    obtain ⟨hseen, hmachine⟩ := ih
    rw [history_concat, List.filter_append]
    by_cases hruns : step.runs
    · rw [List.filter_singleton, hruns, cond_true, history_concat]
      exact History.after_alike depth hseen hmachine step
    · obtain rfl : step = .reset := by
        cases step with
        | reset => rfl
        | evaluate | stream => simp [Step.runs, Step.unit?] at hruns
      simpa [History.after, resetErrors, hruns] using ⟨hseen, hmachine⟩

/-! ## Units as a whole -/

theorem evaluation_eq_values {ending : Ending} {values vs : List Value} :
    ending.evaluation values = .values vs ↔ ending = .completed ∧ values = vs := by
  cases ending <;> simp [Ending.evaluation]

theorem evaluation_eq_runtimeError {ending : Ending} {values : List Value} {e : RuntimeError} :
    ending.evaluation values = .runtimeError e ↔ ending = .failed e := by
  cases ending <;> simp [Ending.evaluation]

theorem evaluation_ne_syntaxErrors {ending : Ending} {values : List Value}
    {es : List SyntaxError} : ending.evaluation values ≠ .syntaxErrors es := by
  cases ending <;> simp [Ending.evaluation]

theorem hadError_iff (s : Session) : s.hadError = true ↔ s.errors ≠ [] := by
  simp [hadError]

/-- A unit on its own is one in a new session, refused if there are errors in its text. -/
theorem evaluateSource_eq (depth : Nat) (unit : String) :
    evaluateSource depth unit =
      let (e, s) := initial.evaluate depth unit
      if s.hadError then .syntaxErrors s.errors else e := by
  have herrors : (initial.run depth unit).session.errors = (Expr.read unit).errors := rfl
  simp only [evaluate_eq, hadError_iff, herrors]
  unfold evaluateSource
  by_cases h : (Expr.read unit).errors = []
  · simp only [h]
    rfl
  · simp [h]

/-- **The bookkeeping of sessions.** The errors that a session keeps are those of the units since
the last reset, unit by unit, and it had an error exactly when there are any. Resets change nothing
that is seen of the units, and no binding. The values of a unit are handed on, whoever receives
them, as they are collected; collecting fails as the evaluation does, and leaves the same session. A
unit on its own gives what it gives in a new session, or the errors that this session then keeps. -/
theorem bookkeeping (depth : Nat) :
    (∀ steps, let s := (history depth initial steps).session
      s.errors = (sinceReset steps).flatMap unitErrors ∧
        (s.hadError = true ↔ s.errors ≠ [])) ∧
    (∀ (s : Session) steps, let h := history depth s steps
      let h' := history depth s (steps.filter Step.runs)
      h.seen = h'.seen ∧ h.session.machine = h'.session.machine) ∧
    (∀ (s : Session) unit, ∃ (values : List Value) (ending : Ending) (after : Session),
      (∀ {σ : Type} (emit : σ → Value → σ) (sink : σ),
        s.runWith emit depth sink unit = (values.foldl emit sink, ending, after)) ∧
      (s.evaluate depth unit).2 = after ∧
      (∀ vs, (s.evaluate depth unit).1 = .values vs ↔ ending = .completed ∧ values = vs) ∧
      (∀ e, (s.evaluate depth unit).1 = .runtimeError e ↔ ending = .failed e) ∧
      ∀ es, (s.evaluate depth unit).1 ≠ .syntaxErrors es) ∧
    ∀ unit, evaluateSource depth unit =
      let (e, s) := initial.evaluate depth unit
      if s.hadError then .syntaxErrors s.errors else e := by
  refine ⟨fun steps => ⟨errors_history depth steps, hadError_iff _⟩, history_filter_runs depth,
    fun s unit => ?_, evaluateSource_eq depth⟩
  refine ⟨_, _, _, fun emit sink => runWith_eq emit depth sink s unit, ?_⟩
  rw [evaluate_eq]
  exact ⟨rfl, fun vs => evaluation_eq_values, fun e => evaluation_eq_runtimeError,
    fun es => evaluation_ne_syntaxErrors⟩

end Session

end MiniLisp
