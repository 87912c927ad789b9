import MiniLisp.Proofs.Labelling
import MiniLisp.Proofs.Simulation.Invariant
import MiniLisp.Proofs.Spans

/-!
# Blame

Every error of evaluation blames a token that was scanned, in the unit that fails or in one that the
session ran before. Putting a value into a list makes tokens that were never scanned; they stand in
literals and constants, which cannot fail, and never at the head of a form.

* `Expr.Sourced source` : all tokens of an expression that can be blamed have the property `source`;
* `Invariant.sourced` : evaluation keeps it;
* `Spells.sourced`, `Expr.Sourced.relabel` : what is read and labelled has it;
* `Session.Ran` : the sessions that have run some units (`Session.Ran.sourced`);
* `RuntimeError.token_scanned` : the theorem.
-/

namespace MiniLisp

open List

/-! ## Expressions -/

/-- All tokens of an expression that can be blamed for an error have the property `source`. -/
inductive Expr.Sourced (source : Token → Prop) : Expr → Prop
  | atom (value : Literal) (t : Token) : Sourced source (.atom value t)
  | symbol {t : Token} (ht : source t) : Sourced source (.symbol t)
  | operator {t : Token} {xs : List Expr} (ht : source t) (hxs : ∀ x ∈ xs, Sourced source x) :
      Sourced source (.operator t xs)
  | keyword {t : Token} {xs : List Expr} (ht : t.kind.IsConstant ∨ source t)
      (hxs : ∀ x ∈ xs, Sourced source x) : Sourced source (.keyword t xs)
  | list {x : Expr} {xs : List Expr} (ht : source x.token) (hx : Sourced source x)
      (hxs : ∀ x ∈ xs, Sourced source x) : Sourced source (.list x xs)
  | data (label : Nat) {x : Expr} {xs : List Expr} (hx : Sourced source x)
      (hxs : ∀ x ∈ xs, Sourced source x) : Sourced source (.data label x xs)
  | define (label : Nat) {t : Token} {ps : List Token} {x : Expr} (ht : source t)
      (hps : ∀ p ∈ ps, source p) (hx : Sourced source x) : Sourced source (.define label t ps x)
  | call {x : Expr} {t : Token} {xs : List Expr} (hx : Sourced source x) (ht : source t)
      (hxs : ∀ x ∈ xs, Sourced source x) : Sourced source (.call x t xs)

section Sourced

variable {source : Token → Prop}

theorem Expr.Sourced.parts {e : Expr} (h : e.Sourced source) :
    Expr.Matches (Kept source) (Kept (Expr.Sourced source)) e e := by
  cases h with
  | atom value t => exact .atom value t t
  | symbol ht => exact .symbol (.self ht)
  | operator ht hxs => exact .operator (.self ht) (forall₂_kept_self hxs)
  | keyword ht hxs => exact .keyword rfl (ht.imp_right .self) (forall₂_kept_self hxs)
  | list ht hx hxs => exact .list (.self ht) (.self hx) (forall₂_kept_self hxs)
  | data label hx hxs => exact .data label (.self hx) (forall₂_kept_self hxs)
  | define label ht hps hx => exact .define label (.self ht) (forall₂_kept_self hps) (.self hx)
  | call hx ht hxs => exact .call (.self hx) (.self ht) (forall₂_kept_self hxs)

/-- The tokens that are made for an element are those of a literal or of a constant. -/
theorem Expr.Sourced.datum {line : Nat} {v : Value} {e : Expr}
    (hv : v.Satisfies source (Expr.Sourced source)) (he : v.datum line = .ok e) :
    e.Sourced source := by
  have hconstant {t : Token} (ht : t.kind.IsConstant) : (Expr.keyword t []).Sourced source :=
    .keyword (.inl ht) nofun
  cases v with
  | nil =>
    cases he
    exact hconstant (.inl rfl)
  | bool b =>
    cases b with
    | true =>
      cases he
      exact hconstant (.inr (.inl rfl))
    | false =>
      cases he
      exact hconstant (.inr (.inr rfl))
  | number n =>
    cases he
    exact .atom _ _
  | string s =>
    cases he
    exact .atom _ _
  | list l =>
    cases he
    obtain ⟨hhead, htail⟩ := List.forall_mem_cons.1 hv
    exact .data l.label hhead htail
  | function f => exact nomatch he

variable (source) in
/-- **Blame is kept inside `source`** by evaluation. -/
def Invariant.sourced : Invariant where
  token := source
  expr := Expr.Sourced source
  parts := Expr.Sourced.parts
  datum _ hv he := .datum hv he

/-! ## What is read -/

theorem Expr.relabel_token (e : Expr) (l : Labels) : (e.relabel l).1.token = e.token := by
  match e with
  | .atom _ _ | .symbol _ | .operator _ _ | .keyword _ _ | .define _ _ _ _ | .call _ _ _ =>
    rw [relabel]
    rfl
  | .list head tail =>
    rw [relabel]
    exact relabel_token head l
  | .data label head tail =>
    rw [relabel]
    exact relabel_token head _

theorem Expr.Sourced.relabel {e : Expr} (h : e.Sourced source) (l : Labels) :
    (e.relabel l).1.Sourced source := by
  induction h generalizing l with
  | atom value t =>
    rw [Expr.relabel]
    exact .atom value t
  | symbol ht =>
    rw [Expr.relabel]
    exact .symbol ht
  | operator ht _ ihs =>
    rw [Expr.relabel]
    exact .operator ht (relabelAll_forall ihs l)
  | keyword ht _ ihs =>
    rw [Expr.relabel]
    exact .keyword ht (relabelAll_forall ihs l)
  | @list x xs ht _ _ ih ihs =>
    have htoken : source (x.relabel l).1.token := by rwa [relabel_token]
    rw [Expr.relabel]
    exact .list htoken (ih l) (relabelAll_forall ihs _)
  | data label _ _ ih ihs =>
    rw [Expr.relabel]
    exact .data _ (ih _) (relabelAll_forall ihs _)
  | define label ht hps _ ih =>
    rw [Expr.relabel]
    exact .define _ ht hps (ih _)
  | call _ ht _ ih ihs =>
    rw [Expr.relabel]
    exact .call (ih l) ht (relabelAll_forall ihs _)

theorem Header.sourced {name : Token} {params hs : List Token} (h : Header name params hs)
    (hsource : ∀ t ∈ hs, source t) : source name ∧ ∀ p ∈ params, source p := by
  cases h with
  | together => exact ⟨hsource name (by simp), fun p hp => hsource p (by simp [hp])⟩
  | apart => exact ⟨hsource name (by simp), fun p hp => hsource p (by simp [hp])⟩

theorem Expr.ofToken_sourced {t : Token} {e : Expr} (h : ofToken t = .ok e) (ht : source t) :
    e.Sourced source ∧ e.token = t := by
  rcases ofToken_cases h with ⟨_, _, rfl⟩ | ⟨_, _, rfl⟩ | ⟨_, value, _, rfl⟩ | ⟨_, rfl⟩
  · exact ⟨.keyword (.inr ht) nofun, rfl⟩
  · exact ⟨.operator ht nofun, rfl⟩
  · exact ⟨.atom value t, rfl⟩
  · exact ⟨.symbol ht, rfl⟩

theorem Spells.sourced {ts : List Token} {es : List Expr} (h : Spells ts es)
    (hsource : ∀ t ∈ ts, source t) : ∀ e ∈ es, e.Sourced source ∧ source e.token := by
  induction h with
  | nil => exact fun e he => nomatch he
  | @token t e ts es he h ih =>
    obtain ⟨ht, hts⟩ := List.forall_mem_cons.1 hsource
    obtain ⟨hsourced, htoken⟩ := Expr.ofToken_sourced he ht
    exact List.forall_mem_cons.2 ⟨⟨hsourced, htoken ▸ ht⟩, ih hts⟩
  | @call lp name rp as ts args es hlp hname hargs hrp h ihargs ih =>
    simp only [List.forall_mem_cons, List.forall_mem_append] at hsource
    obtain ⟨-, hname, has, -, hts⟩ := hsource
    refine List.forall_mem_cons.2 ⟨⟨?_, hname⟩, ih hts⟩
    exact .call (.symbol hname) hname fun x hx => (ihargs has x hx).1
  | @define lp kw name rp params hs bs ts body es hlp hkw hheader hbody hrp h ihbody ih =>
    simp only [List.forall_mem_cons, List.forall_mem_append] at hsource
    obtain ⟨-, -, hhs, hbs, -, hts⟩ := hsource
    obtain ⟨hname, hparams⟩ := hheader.sourced hhs
    refine List.forall_mem_cons.2 ⟨⟨?_, hname⟩, ih hts⟩
    exact .define 0 hname hparams (ihbody hbs body List.mem_cons_self).1
  | @list lp rp hs tls ts head tail es hlp hhead hplain htail hrp h ihhead ihtail ih =>
    simp only [List.forall_mem_cons, List.forall_mem_append] at hsource
    obtain ⟨-, hhs, htls, -, hts⟩ := hsource
    obtain ⟨hsourced, htoken⟩ := ihhead hhs head List.mem_cons_self
    refine List.forall_mem_cons.2 ⟨⟨?_, htoken⟩, ih hts⟩
    exact .list htoken hsourced fun x hx => (ihtail htls x hx).1

end Sourced

theorem Expr.read_sourced {source : Token → Prop} {unit : String}
    (hsource : ∀ t ∈ tokensFrom 1 unit, source t) :
    ∀ e ∈ (read unit).expressions, e.Sourced source := by
  intro e he
  obtain ⟨us, hus, hspells⟩ := parse_spells he
  rw [takeWhile_tokens] at hus
  exact (hspells.sourced (fun t ht => hsource t (hus.subset ht)) e List.mem_cons_self).1

/-! ## Runs -/

/-- The sessions that have run some units, one after the other. -/
inductive Session.Ran : List String → Session → Prop
  | initial : Ran [] .initial
  | run {units : List String} {s : Session} (h : Ran units s) (depth : Nat) (unit : String) :
      Ran (units ++ [unit]) (s.run depth unit).session
  | reset {units : List String} {s : Session} (h : Ran units s) : Ran units s.resetErrors

section Ran

variable {source : Token → Prop}

/-- A unit whose tokens have the property, on a machine whose code has it. -/
theorem Machine.adopt_keeps {m : Machine} (hm : (Invariant.sourced source).machine m)
    {unit : String} (hsource : ∀ t ∈ tokensFrom 1 unit, source t) (depth : Nat) :
    (Invariant.sourced source).Keeps
      ((m.adopt (Expr.read unit).expressions).2.interpret depth
        (m.adopt (Expr.read unit).expressions).1) := by
  have hread := Expr.read_sourced hsource
  have hadopted : ∀ x ∈ (m.adopt (Expr.read unit).expressions).1, x.Sourced source :=
    Expr.relabelAll_forall (fun x hx => (hread x hx).relabel) m.labels
  exact (Invariant.sourced source).interpret depth hadopted hm

theorem Session.Ran.sourced {units : List String} {s : Session} (h : Ran units s)
    (hsource : ∀ u ∈ units, ∀ t ∈ tokensFrom 1 u, source t) :
    (Invariant.sourced source).machine s.machine := by
  -- `source` covers all the units from the start, so no step has to weaken it
  induction h with
  | initial => exact Machine.satisfies_initial source (Expr.Sourced source)
  | run _ depth unit ih =>
    obtain ⟨hunits, hunit⟩ := List.forall_mem_append.1 hsource
    exact (Machine.adopt_keeps (ih hunits) (hunit unit List.mem_cons_self) depth).machine
  | reset _ ih => exact ih hsource

end Ran

/-- Is the token one that scanning gives for a text, other than the one for its end? -/
def Token.ScannedIn (source : String) (t : Token) : Prop :=
  t ∈ (scan source).tokens ∧ t.kind ≠ .endOfText

theorem Token.scannedIn_of_mem {source : String} {t : Token} (ht : t ∈ tokensFrom 1 source) :
    t.ScannedIn source := by
  refine ⟨?_, tokensFrom_kind 1 source t ht⟩
  rw [scan_eq_scanFrom, scanFrom_eq]
  exact List.mem_append_left _ ht

theorem Token.line_bounds {source : String} {t : Token} (ht : t ∈ tokensFrom 1 source) :
    1 ≤ t.line ∧ t.line ≤ 1 + newlines source := by
  obtain ⟨before, text, rest, lexeme, hsource, -, hresult⟩ := stands_of_mem_tokens ht
  have hline : t.line = 1 + before.count '\n' := by
    cases lexeme with
    | number | string | token =>
      cases hresult
      rfl
    | invalidNumber | unterminatedString | unexpected => exact nomatch hresult
  have hcount : newlines source = before.count '\n' + (text ++ rest).count '\n' := by
    rw [newlines, hsource, List.count_append]
  omega

/-- The error with which evaluation of a text alone fails blames one of its tokens. -/
theorem RuntimeError.token_mem {depth : Nat} {source : String} {e : RuntimeError}
    (h : evaluateSource depth source = .runtimeError e) : e.token ∈ tokensFrom 1 source := by
  have hinitial : (Invariant.sourced fun t => t ∈ tokensFrom 1 source).machine .initial :=
    Machine.satisfies_initial _ _
  have hkeeps := Machine.adopt_keeps hinitial (fun t ht => ht) depth
  unfold evaluateSource at h
  dsimp only at h
  split at h
  · split at h
    · exact nomatch h
    · rename_i e' hending
      cases h
      exact hkeeps.blamed e hending
    · exact nomatch h
  · exact nomatch h

/-- **Every error of evaluation blames a token that was scanned**: in the unit that fails, or in one
that the session ran before; never the end of a text. A text evaluated alone fails at one of its own
tokens, on one of its lines. -/
theorem RuntimeError.token_scanned :
    (∀ (units : List String) (s : Session) (depth : Nat) (unit : String) (e : RuntimeError),
      s.Ran units → (s.run depth unit).ending = .failed e →
      ∃ u ∈ units ++ [unit], e.token.ScannedIn u) ∧
    ∀ (depth : Nat) (source : String) (e : RuntimeError),
      evaluateSource depth source = .runtimeError e →
      e.token.ScannedIn source ∧ 1 ≤ e.token.line ∧ e.token.line ≤ 1 + newlines source := by
  constructor
  · intro units s depth unit e hran hfailed
    have hmachine : (Invariant.sourced fun t => ∃ u ∈ units ++ [unit], t.ScannedIn u).machine
        s.machine :=
      hran.sourced fun u hu t ht => ⟨u, List.mem_append_left _ hu, t.scannedIn_of_mem ht⟩
    have hunit : ∀ t ∈ tokensFrom 1 unit, ∃ u ∈ units ++ [unit], t.ScannedIn u :=
      fun t ht => ⟨unit, List.mem_append_right _ List.mem_cons_self, t.scannedIn_of_mem ht⟩
    exact (Machine.adopt_keeps hmachine hunit depth).blamed e hfailed
  · intro depth source e hfailed
    have htoken := e.token_mem hfailed
    exact ⟨Token.scannedIn_of_mem htoken, Token.line_bounds htoken⟩

instance (x : Ending) (e : RuntimeError) : Decidable (x = .failed e) :=
  match x with
  | .failed e' => decidable_of_iff (e' = e) ⟨congrArg _, Ending.failed.inj⟩
  | .completed | .exhausted => isFalse Ending.noConfusion

instance (x : Evaluation) (e : RuntimeError) : Decidable (x = .runtimeError e) :=
  match x with
  | .runtimeError e' => decidable_of_iff (e' = e) ⟨congrArg _, Evaluation.runtimeError.inj⟩
  | .values _ | .syntaxErrors _ | .exhausted => isFalse Evaluation.noConfusion

/-- A function of an earlier unit fails on its second line, on an element that `cons` made; and a
text alone fails on its last line. -/
theorem RuntimeError.token_scanned_earlier :
    let first := "(define (f x)\n (+ (car x) 1))"
    let second := "(f (cons nil (cons 2 nil)))"
    let alone := "(set l (1 2))\n\n(set m\n (cons (y) l))"
    let s := (Session.initial.run 9 first).session
    (∃ e, (s.run 9 second).ending = .failed e ∧
      e.token = ⟨.mark (.operator .plus), "+", none, 2⟩ ∧
      ∃ u ∈ [first] ++ [second], e.token.ScannedIn u) ∧
    ∃ e, evaluateSource 9 alone = .runtimeError e ∧ e.token.ScannedIn alone ∧ e.token.line = 4 := by
  intro first second alone s
  have hran : s.Ran [first] := .run .initial 9 first
  have hfailed : (s.run 9 second).ending =
      .failed ⟨⟨.mark (.operator .plus), "+", none, 2⟩, .notAddable⟩ := by
    decide +kernel
  have halone : evaluateSource 9 alone =
      .runtimeError ⟨⟨.symbol, "y", none, 4⟩, .undefinedVariable "y"⟩ := by
    decide +kernel
  obtain ⟨hsession, hsource⟩ := token_scanned
  refine ⟨⟨_, hfailed, rfl, ?_⟩, _, halone, ?_, rfl⟩
  · exact hsession [first] s 9 second _ hran hfailed
  · exact (hsource 9 alone _ halone).1

end MiniLisp
