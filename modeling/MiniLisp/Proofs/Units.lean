import MiniLisp.Proofs.Labelling
import MiniLisp.Proofs.Reading
import MiniLisp.Proofs.Scanning
import MiniLisp.Proofs.Simulation.Lines
import MiniLisp.Proofs.Simulation.SameCode

/-!
# Units one after the other

A file and the same text given to the prompt in two units do the same. The definitions of a file are
all labelled before the first expression is evaluated, and its second part starts on a later line;
neither matters.

* `Machine.interpret_withDefinitions` : evaluation neither looks at nor changes the number of
  definitions that are labelled;
* `Session.runFrom` : a unit whose first line has some number;
* `Session.runFrom_newline` : two units with a line break between them, exactly;
* `Expr.readFrom_shift`, `Machine.runProgram_moved` : a unit on other lines;
* `Session.run_newline` : the two together.
-/

namespace MiniLisp

open List

/-! ## Labels of definitions -/

/-- The machine after `d` definitions have been labelled. -/
def Machine.withDefinitions (m : Machine) (d : Nat) : Machine :=
  { m with labels := { m.labels with definition := d } }

/-- Evaluation neither looks at the number of definitions, here `c` and `d`, nor changes it. -/
def SameCode.counting (c d : Nat) : SameCode where
  inside := fun _ => True
  machine m m' := m.labels.definition = c ∧ m' = m.withDefinitions d
  label := by
    rintro m _ ⟨-, rfl⟩
    rfl
  current := by
    rintro m _ ⟨-, rfl⟩
    exact ⟨rfl, trivial⟩
  lookup := by
    rintro m _ name ⟨-, rfl⟩
    refine ⟨rfl, ?_⟩
    intro v _
    cases v <;> trivial
  relabelled := by
    rintro m _ ⟨hc, rfl⟩
    exact ⟨hc, rfl⟩
  define := by
    rintro m _ name v ⟨hc, rfl⟩ _
    exact ⟨hc, rfl⟩
  opened := by
    rintro m _ f ⟨hc, rfl⟩ _
    exact ⟨hc, rfl⟩
  leave := by
    rintro m _ n _ ⟨-, rfl⟩ ⟨hc, rfl⟩
    exact ⟨hc, rfl⟩

theorem Machine.interpret_withDefinitions (depth : Nat) (m : Machine) (d : Nat) (xs : List Expr) :
    (m.withDefinitions d).interpret depth xs =
        ⟨(m.interpret depth xs).emitted, (m.interpret depth xs).ending,
          (m.interpret depth xs).machine.withDefinitions d⟩ ∧
      (m.interpret depth xs).machine.labels.definition = m.labels.definition := by
  have hxs : Forall₂ (· = ·) xs xs := forall₂_same.2 fun _ _ => rfl
  have h := (SameCode.counting m.labels.definition d).simulation.interpret depth hxs
    (⟨rfl, rfl⟩ : m.labels.definition = _ ∧ m.withDefinitions d = _)
  generalize m.interpret depth xs = r at h ⊢
  generalize (m.withDefinitions d).interpret depth xs = r' at h ⊢
  obtain ⟨emitted, ending, machine⟩ := r
  obtain ⟨emitted', ending', machine'⟩ := r'
  obtain ⟨hemitted, hending, hcount, hmachine⟩ := h
  have hemitted : emitted = emitted' := by
    have := hemitted.imp fun _ _ hv => hv.1
    rwa [forall₂_eq_eq_eq] at this
  have hsame : ending = ending' := by
    cases hending with
    | completed => rfl
    | exhausted => rfl
    | failed cause ht =>
      obtain rfl := ht
      rfl
  subst hemitted hsame
  obtain rfl : machine' = machine.withDefinitions d := hmachine
  exact ⟨rfl, hcount⟩

/-! ## Programs in two parts -/

theorem Machine.interpret_done {depth : Nat} {m n : Machine} {x : Expr} {value : Value}
    (h : eval depth x m = .done value n) (xs : List Expr) :
    m.interpret depth (x :: xs) =
      if value.isNil then n.interpret depth xs
      else { n.interpret depth xs with emitted := value :: (n.interpret depth xs).emitted } := by
  rw [interpret, h]

theorem Machine.interpret_append (depth : Nat) (m : Machine) (xs ys : List Expr)
    (h : (m.interpret depth xs).ending = .completed) :
    m.interpret depth (xs ++ ys) =
      let first := m.interpret depth xs
      let second := first.machine.interpret depth ys
      ⟨first.emitted ++ second.emitted, second.ending, second.machine⟩ := by
  induction xs generalizing m with
  | nil => rfl
  | cons x xs ih =>
    rw [List.cons_append]
    cases heval : eval depth x m with
    | failed error n =>
      rw [interpret, heval] at h
      exact nomatch h
    | exhausted =>
      rw [interpret, heval] at h
      exact nomatch h
    | done value n =>
      rw [interpret_done heval] at h
      rw [interpret_done heval, interpret_done heval]
      split
      · rename_i hnil
        rw [if_pos hnil] at h
        exact ih n h
      · rename_i hnil
        rw [if_neg hnil] at h
        rw [ih n h]
        rfl

def Machine.runProgram (depth : Nat) (m : Machine) (exprs : List Expr) : Run :=
  (m.adopt exprs).2.interpret depth (m.adopt exprs).1

/-- If the second part takes no label of an object, it gets the same labels whether they are given
before the first part is evaluated or after. -/
theorem Machine.runProgram_append {depth : Nat} {m : Machine} {xs ys : List Expr}
    (hys : ∀ o o', ∀ e ∈ ys, e.Objectless o o') (h : (m.runProgram depth xs).ending = .completed) :
    m.runProgram depth (xs ++ ys) =
      let first := m.runProgram depth xs
      let second := first.machine.runProgram depth ys
      ⟨first.emitted ++ second.emitted, second.ending, second.machine⟩ := by
  obtain ⟨xs', l, hfirst⟩ : ∃ xs' l, Expr.relabelAll xs m.labels = (xs', l) := ⟨_, _, rfl⟩
  obtain ⟨ys', l', hsecond⟩ : ∃ ys' l', Expr.relabelAll ys l = (ys', l') := ⟨_, _, rfl⟩
  have hobject : l'.object = l.object := by
    obtain ⟨-, -, hobject, -⟩ := Expr.objectless_all (hys l.object l.object) l l ⟨rfl, rfl, rfl⟩
    rwa [hsecond] at hobject
  -- the machines differ in the number of definitions that are labelled when evaluation starts
  have hboth : m.adopt (xs ++ ys) =
      (xs' ++ ys', ({ m with labels := l } : Machine).withDefinitions l'.definition) := by
    have hl' : l' = { l with definition := l'.definition } := by
      rw [← hobject]
    unfold adopt relabelled
    rw [Expr.relabelAll_append, hfirst]
    dsimp only
    rw [hsecond, hl']
    rfl
  have hadopt : m.adopt xs = (xs', { m with labels := l }) := by
    unfold adopt relabelled
    rw [hfirst]
  unfold runProgram at h ⊢
  rw [hadopt] at h ⊢
  rw [hboth]
  dsimp only at h ⊢
  obtain ⟨hrun, hcount⟩ :=
    interpret_withDefinitions depth { m with labels := l } l'.definition xs'
  generalize ({ m with labels := l } : Machine).interpret depth xs' = first at h hrun hcount ⊢
  have hlater : first.machine.adopt ys = (ys', first.machine.withDefinitions l'.definition) := by
    have hapart : Labels.Apart l.object first.machine.labels.object l first.machine.labels :=
      ⟨hcount, rfl, rfl⟩
    obtain ⟨hresult, hdefinition, -, hkept⟩ := Expr.objectless_all (hys _ _) _ _ hapart
    rw [hsecond] at hresult hdefinition
    unfold adopt relabelled withDefinitions
    generalize Expr.relabelAll ys first.machine.labels = given at hresult hdefinition hkept
    obtain ⟨ys'', ⟨d, o⟩⟩ := given
    dsimp only at hresult hdefinition hkept
    subst hresult hdefinition hkept
    rfl
  rw [hlater, interpret_append _ _ _ _ (by rw [hrun]; exact h), hrun]

/-! ## Units from a line on -/

/-- What is read from a text whose first line has number `line`. -/
def Expr.readFrom (line : Nat) (source : String) : List Expr :=
  (Expr.parse (scanFrom line source).tokens).expressions

/-- The errors in a text whose first line has number `line`. -/
def Expr.readErrorsFrom (line : Nat) (source : String) : List SyntaxError :=
  (scanFrom line source).errors ++ (Expr.parse (scanFrom line source).tokens).errors

/-- Runs a unit whose first line has number `line`. -/
def Session.runFrom (depth line : Nat) (s : Session) (source : String) : Session.Run :=
  let r := s.machine.runProgram depth (Expr.readFrom line source)
  ⟨r.emitted, r.ending, ⟨r.machine, s.errors ++ Expr.readErrorsFrom line source⟩⟩

theorem Expr.read_eq_readFrom (source : String) :
    read source = ⟨readFrom 1 source, readErrorsFrom 1 source⟩ := by
  unfold read
  rw [scan_eq_scanFrom]
  rfl

theorem Session.run_eq_runFrom (depth : Nat) (s : Session) (source : String) :
    s.run depth source = s.runFrom depth 1 source := by
  unfold run
  rw [Expr.read_eq_readFrom]
  rfl

def Session.Run.followedBy (r r' : Session.Run) : Session.Run :=
  ⟨r.emitted ++ r'.emitted, r'.ending, r'.session⟩

theorem Expr.readFrom_objectless (line : Nat) (source : String) (o o' : Nat) :
    ∀ e ∈ readFrom line source, e.Objectless o o' := by
  intro e he
  obtain ⟨us, -, hspells⟩ := parse_spells he
  exact hspells.objectless o o' e List.mem_cons_self

/-- A text is read like its two parts, if there is no error in the tokens of the first. -/
theorem Expr.readFrom_newline {a : String} {line : Nat}
    (hopen : ∀ p ∈ Piece.cut a.toList, p.isOpenString = false)
    (hparse : (parse (scanFrom line a).tokens).errors = []) (b : String) :
    readFrom line (a ++ "\n" ++ b) = readFrom line a ++ readFrom (line + (newlines a + 1)) b ∧
      readErrorsFrom line (a ++ "\n" ++ b) =
        readErrorsFrom line a ++ readErrorsFrom (line + (newlines a + 1)) b := by
  have hend : line + (newlines a + 1 + newlines b) = line + (newlines a + 1) + newlines b := by
    omega
  unfold readFrom readErrorsFrom
  rw [hparse, List.append_nil]
  rw [scanFrom_eq] at hparse ⊢
  rw [scanFrom_eq, scanFrom_eq, tokensFrom_newline hopen, newlines_newline, hend,
    errorsFrom_newline hopen]
  dsimp only at hparse ⊢
  rw [parse_append (tokensFrom_kind _ _) (tokensFrom_kind _ _) hparse]
  exact ⟨rfl, List.append_assoc _ _ _⟩

/-- **Two units with a line break between them** do what the first does, and then what the second
does if its lines are counted on. -/
theorem Session.runFrom_newline {depth line : Nat} {s : Session} {a : String}
    (hopen : ∀ p ∈ Piece.cut a.toList, p.isOpenString = false)
    (hparse : (Expr.parse (scanFrom line a).tokens).errors = [])
    (hrun : (s.runFrom depth line a).ending = .completed) (b : String) :
    s.runFrom depth line (a ++ "\n" ++ b) =
      (s.runFrom depth line a).followedBy
        ((s.runFrom depth line a).session.runFrom depth (line + (newlines a + 1)) b) := by
  obtain ⟨hread, herrors⟩ := Expr.readFrom_newline hopen hparse b
  have hprogram :=
    Machine.runProgram_append (Expr.readFrom_objectless (line + (newlines a + 1)) b) hrun
  unfold runFrom Run.followedBy
  rw [hread, herrors, hprogram, ← List.append_assoc]

/-! ## Units on other lines -/

/-- What is read from a text on later lines is the same, on later lines. -/
theorem Expr.readFrom_shift (k line : Nat) (source : String) :
    Forall₂ (Alike (Token.Moved fun l l' => l' = l + k)) (readFrom line source)
        (readFrom (line + k) source) ∧
      readErrorsFrom (line + k) source = (readErrorsFrom line source).map (.shift k) := by
  have htokens : Forall₂ (Token.Moved fun l l' => l' = l + k) (tokensFrom line source)
      (tokensFrom (line + k) source) := by
    unfold tokensFrom
    rw [Piece.tokens_shift, forall₂_map_right_iff]
    exact forall₂_same.2 fun t _ => ⟨rfl, rfl, rfl, rfl⟩
  have hscan : errorsFrom (line + k) source = (errorsFrom line source).map (SyntaxError.shift k) :=
    Piece.errors_shift k line _
  have hend : line + k + newlines source = line + newlines source + k := by omega
  obtain ⟨hexprs, herrors⟩ :=
    parse_moved (tokensFrom_kind _ _) (tokensFrom_kind _ _) htokens hend
  have hparse : (parse (tokensFrom (line + k) source ++
      [.endOfText (line + k + newlines source)])).errors =
      (parse (tokensFrom line source ++ [.endOfText (line + newlines source)])).errors.map
        (SyntaxError.shift k) := by
    refine (List.map_id _).symm.trans (map_congr_of_forall₂ (fun e e' h => ?_) herrors)
    obtain ⟨hline, hlocation, hcause⟩ := h
    cases e'
    dsimp only at hline hlocation hcause
    rw [hline, hlocation, hcause]
    rfl
  unfold readFrom readErrorsFrom
  rw [scanFrom_eq, scanFrom_eq]
  refine ⟨hexprs, ?_⟩
  rw [List.map_append, ← hscan, ← hparse]

theorem Machine.runProgram_moved {line : Nat → Nat → Prop} {xs xs' : List Expr}
    (hxs : Forall₂ (Expr.Alike (Token.Moved line)) xs xs') {m m' : Machine} (hm : m.Moved line m')
    (depth : Nat) :
    (Simulation.moved line).Runs (m.runProgram depth xs) (m'.runProgram depth xs') := by
  have hlabels := Expr.relabelAll_action (hxs.imp fun _ _ h => h.relabel)
  obtain ⟨hprogram, hafter⟩ := hlabels m.labels m'.labels hm.labels.symm
  exact (Simulation.moved line).interpret depth hprogram ⟨hm.store, hm.current, hafter.symm⟩

/-- Endings of one kind; errors have one cause, and tokens that differ in their lines only. -/
abbrev Ending.Moved (line : Nat → Nat → Prop) : Ending → Ending → Prop :=
  (Simulation.moved line).Endings

/-- The line itself, or the one `k` lines further down. -/
def SameOrLater (k l l' : Nat) : Prop := l' = l ∨ l' = l + k

/-- **A text is run like its parts.** Let `a` be read and run without an error, in any session. Then
`a` and `b` with a line break between them emit the same texts as `a` and then `b`, end in the same
way, and leave the same bindings and the same errors, except that the lines of `b` are counted on
from those of `a`. -/
theorem Session.run_newline (depth : Nat) (s : Session) {a : String} (b : String)
    (hscan : ∀ e ∈ (scan a).errors, e.cause ≠ .unterminatedString)
    (hparse : (Expr.parse (scan a).tokens).errors = [])
    (hrun : (s.run depth a).ending = .completed) :
    let first := s.run depth a
    let second := first.session.run depth b
    let joined := s.run depth (a ++ "\n" ++ b)
    let k := newlines a + 1
    joined = first.followedBy (first.session.runFrom depth (1 + k) b) ∧
      joined.emitted.map Value.text =
        first.emitted.map Value.text ++ second.emitted.map Value.text ∧
      Ending.Moved (SameOrLater k) second.ending joined.ending ∧
      joined.session.machine.globals.texts = second.session.machine.globals.texts ∧
      second.session.errors = first.session.errors ++ (Expr.read b).errors ∧
      joined.session.errors = first.session.errors ++ (Expr.read b).errors.map (.shift k) := by
  intro first second joined k
  rw [scan_eq_scanFrom] at hscan hparse
  have hopen : ∀ p ∈ Piece.cut a.toList, p.isOpenString = false := isOpenString_of_errors hscan
  have hsecond : second = first.session.runFrom depth 1 b := run_eq_runFrom ..
  have hjoined : joined = first.followedBy (first.session.runFrom depth (1 + k) b) := by
    rw [run_eq_runFrom] at hrun
    show s.run depth _ = (s.run depth a).followedBy ((s.run depth a).session.runFrom ..)
    rw [run_eq_runFrom, run_eq_runFrom]
    exact runFrom_newline hopen hparse hrun b
  obtain ⟨hexprs, herrors⟩ := Expr.readFrom_shift k 1 b
  have hexprs : Forall₂ (Expr.Alike (Token.Moved (SameOrLater k))) (Expr.readFrom 1 b)
      (Expr.readFrom (1 + k) b) :=
    hexprs.imp fun _ _ h => h.mono fun t t' ht => ⟨ht.kind, ht.lexeme, ht.literal?, .inr ht.line⟩
  obtain ⟨hemitted, hending, hmachine⟩ := Machine.runProgram_moved hexprs
    (first.session.machine.moved_refl fun l => .inl rfl) depth
  rw [Expr.read_eq_readFrom, hjoined, hsecond]
  refine ⟨rfl, ?_, hending, (hmachine.store.bindings _).texts_eq, rfl, ?_⟩
  · have htexts := map_congr_of_forall₂ (fun v v' h => h.text_eq fun _ _ ht => ht.lexeme) hemitted
    show (first.emitted ++ _).map Value.text = _
    rw [List.map_append]
    exact congrArg (first.emitted.map Value.text ++ ·) htexts
  · show first.session.errors ++ Expr.readErrorsFrom (1 + k) b = _
    rw [herrors]

/-- A function is defined in one unit and called in the next one, where the second call fails. It
fails in the same way if the units are joined, on a line that is two larger. -/
theorem Session.run_newline_call :
    let first := initial.run 9 "(define f (x) x)\n"
    let second := first.session.run 9 "(f \"a\") (f y)"
    let joined := initial.run 9 ("(define f (x) x)\n" ++ "\n" ++ "(f \"a\") (f y)")
    first.ending = .completed ∧
      second.ending = .failed ⟨⟨.symbol, "y", none, 1⟩, .undefinedVariable "y"⟩ ∧
      Ending.Moved (SameOrLater 2) second.ending joined.ending ∧
      joined.ending = .failed ⟨⟨.symbol, "y", none, 3⟩, .undefinedVariable "y"⟩ ∧
      joined.emitted.map Value.text = ["a"] ∧
      joined.session.machine.globals.texts = [("f", "<fn f>")] ∧ joined.session.errors = [] := by
  intro first second joined
  have hread : (∀ e ∈ (scan "(define f (x) x)\n").errors, e.cause ≠ .unterminatedString) ∧
      (Expr.parse (scan "(define f (x) x)\n").tokens).errors = [] ∧
      (Expr.read "(f \"a\") (f y)").errors = [] := by
    decide +kernel
  have hruns : (first.ending = .completed ∧ first.emitted.map Value.text = [] ∧
        first.session.errors = []) ∧
      (second.ending = .failed ⟨⟨.symbol, "y", none, 1⟩, .undefinedVariable "y"⟩ ∧
        second.emitted.map Value.text = ["a"] ∧
        second.session.machine.globals.texts = [("f", "<fn f>")]) ∧
      joined.ending = .failed ⟨⟨.symbol, "y", none, 3⟩, .undefinedVariable "y"⟩ := by
    decide +kernel
  obtain ⟨hscan, hparse, hclean⟩ := hread
  obtain ⟨⟨hrun, hsilent, hkept⟩, ⟨hfailed, htexts, hbound⟩, hjoined⟩ := hruns
  obtain ⟨-, hemitted, hending, hglobals, -, herrors⟩ :=
    run_newline 9 initial "(f \"a\") (f y)" hscan hparse hrun
  refine ⟨hrun, hfailed, hending, hjoined, ?_, hglobals.trans hbound, ?_⟩
  · rw [hemitted, hsilent, htexts]
    rfl
  · rw [herrors, hkept, hclean]
    rfl

end MiniLisp
