import MiniLisp.Proofs.Blame
import MiniLisp.Proofs.Units

/-!
# Layout does not matter

Two texts whose tokens differ in their lines only have the same meaning: white space and comments
can be put and left out wherever the tokens stay the same.

* `Token.content` : what a token is, wherever it stands;
* `Evaluation.Moved line` : the same evaluation, with errors moved as `line` says;
* `evaluateSource_moved` : texts whose tokens are moved so;
* `evaluateSource_layout` : texts with the same tokens; an error moves with some token.
-/

namespace MiniLisp

open List

def Token.content (t : Token) : Kind × String × Option Literal := (t.kind, t.lexeme, t.literal?)

/-- Errors of evaluation that say the same, at tokens that differ in their lines only. -/
structure RuntimeError.Moved (line : Nat → Nat → Prop) (e e' : RuntimeError) : Prop where
  token : e.token.Moved line e'.token
  message : e'.message = e.message
  note? : e'.note? = e.note?

/-- The same printed values, or the same errors on lines that are related by `line`. -/
inductive Evaluation.Moved (line : Nat → Nat → Prop) : Evaluation → Evaluation → Prop
  | values {vs vs' : List Value} (h : vs'.map Value.text = vs.map Value.text) :
      Moved line (.values vs) (.values vs')
  | syntaxErrors {es es' : List SyntaxError} (h : Forall₂ (SyntaxError.Moved line) es es') :
      Moved line (.syntaxErrors es) (.syntaxErrors es')
  | runtimeError {e e' : RuntimeError} (h : e.Moved line e') :
      Moved line (.runtimeError e) (.runtimeError e')
  | exhausted : Moved line .exhausted .exhausted

variable {line : Nat → Nat → Prop} {a b : String}

/-- A scan without errors is its tokens, the last of which is its end. -/
theorem scan_of_errors {source : String} (h : (scan source).errors = []) :
    scan source = ⟨tokensFrom 1 source ++ [.endOfText (1 + newlines source)], []⟩ := by
  rw [scan_eq_scanFrom, scanFrom_eq] at h ⊢
  dsimp only at h
  rw [h]

/-- Moved tokens are read as expressions that are alike, or with errors that have moved. -/
theorem Expr.read_moved (ha : (scan a).errors = []) (hb : (scan b).errors = [])
    (h : Forall₂ (Token.Moved line) (scan a).tokens (scan b).tokens) :
    Forall₂ (Alike (Token.Moved line)) (read a).expressions (read b).expressions ∧
      Forall₂ (SyntaxError.Moved line) (read a).errors (read b).errors := by
  unfold read
  dsimp only
  rw [ha, hb]
  rw [scan_of_errors ha, scan_of_errors hb] at h ⊢
  have hreversed := forall₂_reverse_iff.2 h
  rw [List.reverse_append, List.reverse_append] at hreversed
  obtain ⟨hend, hrest⟩ := forall₂_cons.1 hreversed
  have htokens := forall₂_reverse_iff.1 hrest
  exact parse_moved (tokensFrom_kind 1 a) (tokensFrom_kind 1 b) htokens hend.line

/-- **Texts whose tokens are moved** have the same values, or errors that are moved in the same
way. -/
theorem evaluateSource_moved (ha : (scan a).errors = []) (hb : (scan b).errors = [])
    (h : Forall₂ (Token.Moved line) (scan a).tokens (scan b).tokens) (depth : Nat) :
    (evaluateSource depth a).Moved line (evaluateSource depth b) := by
  obtain ⟨hexprs, herrors⟩ := Expr.read_moved ha hb h
  have hempty : (Expr.read b).errors.isEmpty = (Expr.read a).errors.isEmpty := by
    generalize (Expr.read a).errors = es, (Expr.read b).errors = es' at herrors ⊢
    cases herrors <;> rfl
  have hinitial : Machine.initial.Moved line .initial := {
    store := {
      size := rfl
      enclosing := fun _ => rfl
      bindings := fun i => by
        rw [Machine.initial_bindings]
        exact .nil }
    current := rfl
    labels := rfl }
  obtain ⟨hemitted, hending, -⟩ := Machine.runProgram_moved hexprs hinitial depth
  unfold evaluateSource
  dsimp only
  rw [hempty]
  split
  · unfold Machine.runProgram at hemitted hending
    generalize (Machine.initial.adopt (Expr.read a).expressions).2.interpret depth
      (Machine.initial.adopt (Expr.read a).expressions).1 = r at hemitted hending ⊢
    generalize (Machine.initial.adopt (Expr.read b).expressions).2.interpret depth
      (Machine.initial.adopt (Expr.read b).expressions).1 = r' at hemitted hending ⊢
    generalize r.ending = ending, r'.ending = ending' at hending ⊢
    cases hending with
    | completed =>
      exact .values (map_congr_of_forall₂ (fun _ _ h => h.text_eq fun _ _ ht => ht.lexeme) hemitted)
    | failed cause ht => exact .runtimeError ⟨ht, rfl, rfl⟩
    | exhausted => exact .exhausted
  · exact .syntaxErrors herrors

/-- **Layout does not matter.** Two texts without errors in their tokens, which have the same tokens
up to lines, print the same values, or cannot be read for the same reasons, or fail for the same
reason at the same kind of token. If they fail, the lines are those of some token in the one text
and in the other. -/
theorem evaluateSource_layout (ha : (scan a).errors = []) (hb : (scan b).errors = [])
    (h : (scan b).tokens.map Token.content = (scan a).tokens.map Token.content) (depth : Nat) :
    Evaluation.Moved
      (fun l l' => ∃ t t', (t, t') ∈ (scan a).tokens.zip (scan b).tokens ∧
        t.line = l ∧ t'.line = l')
      (evaluateSource depth a) (evaluateSource depth b) := by
  have hsame : Forall₂ (· = ·) ((scan a).tokens.map Token.content)
      ((scan b).tokens.map Token.content) := by
    rw [h]
    exact forall₂_same.2 fun _ _ => rfl
  rw [forall₂_map_left_iff, forall₂_map_right_iff] at hsame
  obtain ⟨hlength, hzip⟩ := forall₂_iff_zip.1 hsame
  refine evaluateSource_moved ha hb (forall₂_iff_zip.2 ⟨hlength, fun {t t'} hmem => ?_⟩) depth
  have hcontent := hzip hmem
  simp only [Token.content, Prod.mk.injEq] at hcontent
  obtain ⟨hkind, hlexeme, hliteral⟩ := hcontent
  exact ⟨hkind.symm, hlexeme.symm, hliteral.symm, t, t', hmem, rfl, rfl⟩

/-- A function that fails on an element that `cons` made, in five lines and in one. -/
theorem evaluateSource_layout_call :
    let a := "(define (f x) // adds\n  (+ (car x) 1))\n\n(f // a list\n  (cons nil 2))"
    let b := "(define(f x)(+(car x)1))(f(cons nil 2))"
    (scan a).errors = [] ∧ (scan b).errors = [] ∧
      (scan b).tokens.map Token.content = (scan a).tokens.map Token.content ∧
      ∃ e', evaluateSource 9 b = .runtimeError e' ∧
        e'.message = "Operands must be two numbers or two strings." ∧ e'.token.lexeme = "+" := by
  intro a b
  obtain ⟨ha, hb, h⟩ : (scan a).errors = [] ∧ (scan b).errors = [] ∧
      (scan b).tokens.map Token.content = (scan a).tokens.map Token.content := by
    decide +kernel
  have hfirst : evaluateSource 9 a =
      .runtimeError ⟨⟨.mark (.operator .plus), "+", none, 2⟩, .notAddable⟩ := by
    decide +kernel
  have hmoved := evaluateSource_layout ha hb h 9
  rw [hfirst] at hmoved
  generalize evaluateSource 9 b = second at hmoved
  cases hmoved with
  | runtimeError hmoved => exact ⟨ha, hb, h, _, rfl, hmoved.message, hmoved.token.lexeme⟩

end MiniLisp
