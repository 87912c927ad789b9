import MiniLisp.Proofs.Printing
import MiniLisp.Proofs.Reading

/-!
# Printed expressions are read back

The printed form of an expression that was read is again a text with this expression. What is needed
of its tokens is that they were cut from some text: then they are cut in the same way from the
printed one. Numbers are printed anew, and that their printed form is read back is assumed of each.

* `Token.FromPiece` : tokens that were cut from a text, and their printed forms;
* `Binary64.ReadsBack` : numbers whose printed form is one token with their value;
* `Spells.prints` : the expressions that such tokens spell are read back, by induction on how;
* `Yields.read` : a text whose tokens spell expressions is read as these;
* `read_printed` : so are all expressions of a text.
-/

namespace MiniLisp

open List

/-! ## Tokens of a text -/

def Token.FromPiece (t : Token) : Prop := ∃ p : Piece, p.Valid ∧ ∃ l, p.Gives l t

theorem fromPiece_of_mem {line : Nat} {source : String} {t : Token}
    (h : t ∈ tokensFrom line source) : t.FromPiece := by
  obtain ⟨p, hp, l, hgives⟩ := Piece.mem_tokens h
  exact ⟨p, (Piece.wellCut_cut _).valid p hp, l, hgives⟩

namespace Piece.Gives

variable {p : Piece} {l : Nat} {t : Token}

theorem lexeme_eq (h : p.Gives l t) : t.lexeme.toList = p.text := by
  cases h <;> exact String.toList_ofList

theorem isToken (h : p.Gives l t) : p.IsToken := by
  cases h <;> trivial

theorem onLine (h : p.Gives l t) (line : Nat) : p.Gives line { t with line } := by
  cases h with
  | number hn => exact .number hn
  | string body => exact .string body
  | word text => exact .word text
  | mark m => exact .mark m

end Piece.Gives

namespace Token.FromPiece

variable {t : Token}

/-- The lexeme of a token that was cut from a text is cut as this token wherever it is printed. -/
theorem yields (h : t.FromPiece) :
    Yields t.lexeme.toList fun ts => ∃ line, ts = [{ t with line }] := by
  obtain ⟨p, hvalid, l, hgives⟩ := h
  have hresult (line : Nat) : p.result? line = some (.ok { t with line }) :=
    Piece.result?_eq_ok_iff.2 (hgives.onLine line)
  have herrors (line : Nat) : Piece.errors line [p] = [] := by
    rw [Piece.errors, Piece.results, hresult line]
    rfl
  have htokens (line : Nat) : Piece.tokens line [p] = [{ t with line }] := by
    rw [Piece.tokens, Piece.results, hresult line]
    rfl
  rw [hgives.lexeme_eq]
  exact ⟨[p], .token hvalid hgives.isToken herrors, fun line => ⟨line, htokens line⟩⟩

theorem yields_like (h : t.FromPiece) : Yields t.lexeme.toList (IsLike t) := by
  refine h.yields.imp ?_
  rintro _ ⟨line, rfl⟩
  exact ⟨_, rfl, rfl, rfl, fun _ => rfl⟩

theorem number (h : t.FromPiece) (hk : t.kind = .number) :
    ∃ n, t.literal? = some (.number n) := by
  obtain ⟨p, -, l, hgives⟩ := h
  cases hgives with
  | number => exact ⟨_, rfl⟩
  | string | mark => cases hk
  | word text =>
    have hk : Kind.ofWord (String.ofList text) = .number := hk
    unfold Kind.ofWord at hk
    split at hk <;> cases hk

/-- The value of a token of kind string, which is printed as it was written. -/
theorem string (h : t.FromPiece) (hk : t.kind = .string) :
    ∃ s, t.literal? = some (.string s) ∧ t.lexeme = (Literal.string s).text := by
  obtain ⟨p, -, l, hgives⟩ := h
  cases hgives with
  | number | mark => cases hk
  | string body =>
    refine ⟨_, rfl, String.toList_inj.1 ?_⟩
    simp [Literal.text, Piece.text, String.toList_append]
  | word text =>
    have hk : Kind.ofWord (String.ofList text) = .string := hk
    unfold Kind.ofWord at hk
    split at hk <;> cases hk

end Token.FromPiece

/-! ## Numbers -/

/-- Is the printed form of the number one token, of kind number, with its value? -/
def Binary64.ReadsBack (n : Binary64) : Prop :=
  (scan n.text).errors = [] ∧ ∃ t l, (scan n.text).tokens = [t, .endOfText l] ∧
    t.kind = .number ∧ t.literal? = some (.number n)

def isPrintedDigit (c : Char) : Bool := c.isDigit || "-.NaNinf".toList.contains c

namespace Binary64

theorem Decimal.chars_digits (d : Decimal) : ∀ c ∈ d.chars, isPrintedDigit c = true := by
  have hdigits (k : Nat) : ∀ c ∈ Nat.toDigits 10 k, isPrintedDigit c = true := by
    intro c hc
    have := Nat.isDigit_of_mem_toDigits (by decide) (by decide) hc
    rw [isPrintedDigit, this, Bool.true_or]
  unfold chars
  split
  · exact hdigits _
  · refine List.forall_mem_append.2 ⟨hdigits _, List.forall_mem_cons.2 ⟨by decide, ?_⟩⟩
    refine List.forall_mem_append.2 ⟨?_, hdigits _⟩
    intro c hc
    rw [List.eq_of_mem_replicate hc]
    decide

theorem magnitudeChars_digits (rank : Nat) :
    ∀ c ∈ magnitudeChars rank, isPrintedDigit c = true := by
  unfold magnitudeChars
  split
  · exact List.all_eq_true.1 (by decide)
  · split
    · exact List.all_eq_true.1 (by decide)
    · exact Decimal.chars_digits _

theorem text_digits (n : Binary64) : ∀ c ∈ n.text.toList, isPrintedDigit c = true := by
  unfold text
  split
  · exact List.all_eq_true.1 (by decide)
  · rw [String.toList_ofList]
    exact List.forall_mem_cons.2 ⟨by decide, magnitudeChars_digits _⟩
  · rw [String.toList_ofList]
    exact magnitudeChars_digits _

end Binary64

theorem not_gap_of_isPrintedDigit {c : Char} (h : isPrintedDigit c = true) :
    Text.isBlank c = false ∧ c ≠ '/' := by
  have hall : "0123456789-.NaNinf".toList.all fun d => !Text.isBlank d && d != '/' := by
    decide +kernel
  suffices hmem : c ∈ "0123456789-.NaNinf".toList by
    simpa using List.all_eq_true.1 hall c hmem
  have hlist : "0123456789-.NaNinf".toList =
      ['0', '1', '2', '3', '4', '5', '6', '7', '8', '9'] ++ "-.NaNinf".toList := by decide
  rw [hlist, List.mem_append]
  rcases Bool.or_eq_true_iff.1 h with h | h
  · exact .inl (isDigit_cases h)
  · exact .inr (List.contains_iff_mem.1 h)

theorem Piece.length_results {ps : List Piece} (h : ∀ p ∈ ps, p.isGap = false) (line : Nat) :
    (tokens line ps).length + (errors line ps).length = ps.length := by
  induction ps generalizing line with
  | nil => rfl
  | cons p ps ih =>
    obtain ⟨hp, hps⟩ := List.forall_mem_cons.1 h
    have hone : (tokens line [p]).length + (errors line [p]).length = 1 := by
      obtain ⟨lexeme, hlexeme⟩ : ∃ lexeme, p.lexeme? = some lexeme := by
        cases p with
        | blank | comment => exact nomatch hp
        | number | string | openString | word | mark | stray => exact ⟨_, rfl⟩
      rw [tokens, errors, results, result?, hlexeme]
      show ([lexeme.toToken _ line].filterMap _).length +
        ([lexeme.toToken _ line].filterMap _).length = 1
      cases lexeme.toToken (String.ofList p.text) line <;> rfl
    have hrest := ih hps (line + ([p].flatMap Piece.text).count '\n')
    rw [← List.singleton_append, tokens_append, errors_append, List.length_append,
      List.length_append, List.length_append, List.length_singleton]
    omega

theorem Binary64.isGap_cut_text (n : Binary64) :
    ∀ p ∈ Piece.cut n.text.toList, p.isGap = false := by
  intro p hp
  have hchars : ∀ c ∈ p.text, isPrintedDigit c = true := by
    intro c hc
    refine n.text_digits c ?_
    rw [← Piece.cut_text n.text.toList]
    exact List.mem_flatMap.2 ⟨p, hp, hc⟩
  cases p with
  | blank c =>
    have hblank : Text.isBlank c = true := (Piece.wellCut_cut _).valid _ hp
    rw [(not_gap_of_isPrintedDigit (hchars c List.mem_cons_self)).1] at hblank
    exact nomatch hblank
  | comment body =>
    exact absurd rfl (not_gap_of_isPrintedDigit (hchars '/' List.mem_cons_self)).2
  | number | string | openString | word | mark | stray => rfl

/-- The token of a number that is read back is cut from its printed form. -/
theorem Binary64.ReadsBack.fromPiece {n : Binary64} (h : n.ReadsBack) :
    ∃ t : Token, t.FromPiece ∧ t.kind = .number ∧ t.literal? = some (.number n) ∧
      t.lexeme = n.text := by
  obtain ⟨herrors, t, l, htokens, hk, hliteral⟩ := h
  rw [scan_eq_scanFrom, scanFrom_eq] at herrors htokens
  have htokens : tokensFrom 1 n.text ++ [.endOfText (1 + newlines n.text)] =
      [t] ++ [.endOfText l] := htokens
  obtain ⟨htokens, -⟩ := List.append_inj' htokens rfl
  have herrors : errorsFrom 1 n.text = [] := herrors
  have hlength := Piece.length_results n.isGap_cut_text 1
  have hone : (Piece.cut n.text.toList).length = 1 := by
    rw [← hlength]
    show (tokensFrom 1 n.text).length + (errorsFrom 1 n.text).length = 1
    rw [htokens, herrors]
    rfl
  obtain ⟨p, hp⟩ := List.length_eq_one_iff.1 hone
  have hmem : t ∈ tokensFrom 1 n.text := by
    rw [htokens]
    exact List.mem_cons_self
  obtain ⟨q, hq, l', hgives⟩ := Piece.mem_tokens hmem
  have hq' : q = p := by
    rw [hp] at hq
    exact List.mem_singleton.1 hq
  subst hq'
  have hfrom : t.FromPiece := ⟨q, (Piece.wellCut_cut _).valid q hq, l', hgives⟩
  refine ⟨t, hfrom, hk, hliteral, String.toList_inj.1 ?_⟩
  rw [hgives.lexeme_eq]
  have htext := Piece.cut_text n.text.toList
  rwa [hp, List.flatMap_singleton] at htext

/-! ## Expressions -/

def Token.Printable (t : Token) : Prop :=
  t.FromPiece ∧ ∀ n, t.literal? = some (.number n) → n.ReadsBack

/-- An expression that is one token, and is printed as the lexeme of that token, is read back. -/
theorem Token.FromPiece.prints {t : Token} (h : t.FromPiece) {e : Expr}
    (he : Expr.ofToken t = .ok e) (htext : e.text = t.lexeme) : e.Prints := by
  unfold Expr.Prints
  rw [htext]
  refine h.yields.imp ?_
  rintro _ ⟨line, rfl⟩
  have hmoved : Token.Moved (fun _ _ => True) t { t with line } := ⟨rfl, rfl, rfl, trivial⟩
  rcases Expr.ofToken_moved hmoved with ⟨_, e', hok, hok', halike⟩ | ⟨cause, herror, -⟩
  · rw [he] at hok
    cases hok
    have hrespelled : ∀ u u', Token.Moved (fun _ _ => True) u u' → u.Respelled u' := by
      intro u u' hu
      exact ⟨hu.kind, hu.literal?, fun _ => hu.lexeme⟩
    exact ⟨[e'], .token hok' .nil, .cons (halike.mono hrespelled) .nil⟩
  · rw [he] at herror
    exact nomatch herror

/-- A number is printed anew, and the token of the printed form stands for it. -/
theorem Binary64.ReadsBack.prints {n : Binary64} (h : n.ReadsBack) {t : Token}
    (hk : t.kind = .number) (hvalue : t.literal? = some (.number n)) :
    (Expr.atom (.number n) t).Prints := by
  obtain ⟨u, hu, huk, huliteral, hulexeme⟩ := h.fromPiece
  show Yields n.text.toList _
  rw [← hulexeme]
  refine hu.yields.imp ?_
  rintro _ ⟨line, rfl⟩
  have hatom : Expr.ofToken { u with line } = .ok (.atom (.number n) { u with line }) := by
    unfold Expr.ofToken
    simp only [huk, huliteral]
  have hrespelled : t.Respelled { u with line } :=
    ⟨huk.trans hk.symm, huliteral.trans hvalue.symm, fun hne => absurd hk hne⟩
  exact ⟨_, .token hatom .nil, .cons (.atom _ hrespelled) .nil⟩

theorem Token.Printable.prints {t : Token} (h : t.Printable) {e : Expr}
    (he : Expr.ofToken t = .ok e) : e.Prints := by
  rcases Expr.ofToken_cases he with ⟨k, hk, rfl⟩ | ⟨op, hk, rfl⟩ | ⟨hk | hk, value, hvalue, rfl⟩ |
    ⟨hk, rfl⟩
  · exact h.1.prints he rfl
  · exact h.1.prints he rfl
  · obtain ⟨n, hn⟩ := h.1.number hk
    rw [hvalue] at hn
    cases hn
    exact (h.2 n hvalue).prints hk hvalue
  · obtain ⟨s, hs, hlexeme⟩ := h.1.string hk
    rw [hvalue] at hs
    cases hs
    exact h.1.prints he hlexeme.symm
  · exact h.1.prints he rfl

theorem Header.symbols {name : Token} {params hs : List Token} (h : Header name params hs) :
    (name ∈ hs ∧ name.kind = .symbol) ∧ ∀ p ∈ params, p ∈ hs ∧ p.kind = .symbol := by
  cases h with
  | together hlp hname hparams hrp =>
    exact ⟨⟨by simp, hname⟩, fun p hp => ⟨by simp [hp], hparams p hp⟩⟩
  | apart hname hlp hparams hrp =>
    exact ⟨⟨by simp, hname⟩, fun p hp => ⟨by simp [hp], hparams p hp⟩⟩

/-- **Expressions that are spelled by printable tokens are read back.** -/
theorem Spells.prints {ts : List Token} {es : List Expr} (h : Spells ts es)
    (hts : ∀ t ∈ ts, t.Printable) : ∀ e ∈ es, e.Prints := by
  induction h with
  | nil => exact fun e he => nomatch he
  | token ht _ ih =>
    obtain ⟨htoken, hrest⟩ := List.forall_mem_cons.1 hts
    exact List.forall_mem_cons.2 ⟨htoken.prints ht, ih hrest⟩
  | call hlp hname hargs hrp _ ihargs ih =>
    obtain ⟨-, hts⟩ := List.forall_mem_cons.1 hts
    obtain ⟨hprintable, hts⟩ := List.forall_mem_cons.1 hts
    obtain ⟨has, hts⟩ := List.forall_mem_append.1 hts
    obtain ⟨-, hts⟩ := List.forall_mem_cons.1 hts
    exact List.forall_mem_cons.2
      ⟨.call hname hprintable.1.yields_like (ihargs has), ih hts⟩
  | define hlp hkw hheader hbody hrp _ ihbody ih =>
    obtain ⟨-, hts⟩ := List.forall_mem_cons.1 hts
    obtain ⟨-, hts⟩ := List.forall_mem_cons.1 hts
    obtain ⟨hhs, hts⟩ := List.forall_mem_append.1 hts
    obtain ⟨hbs, hts⟩ := List.forall_mem_append.1 hts
    obtain ⟨-, hts⟩ := List.forall_mem_cons.1 hts
    obtain ⟨⟨hname, hk⟩, hparams⟩ := hheader.symbols
    have hbody := ihbody hbs _ List.mem_cons_self
    refine List.forall_mem_cons.2 ⟨.define hk (hhs _ hname).1.yields_like ?_ hbody, ih hts⟩
    intro p hp
    obtain ⟨hmem, hk⟩ := hparams p hp
    exact (hhs p hmem).prints (by unfold Expr.ofToken; rw [hk])
  | list hlp hhead hplain htail hrp _ ihhead ihtail ih =>
    obtain ⟨-, hts⟩ := List.forall_mem_cons.1 hts
    obtain ⟨hhs, hts⟩ := List.forall_mem_append.1 hts
    obtain ⟨htls, hts⟩ := List.forall_mem_append.1 hts
    obtain ⟨-, hts⟩ := List.forall_mem_cons.1 hts
    have hhead := ihhead hhs _ List.mem_cons_self
    exact List.forall_mem_cons.2 ⟨.list hplain hhead (ihtail htls), ih hts⟩

/-! ## Texts -/

theorem Expr.prints_of_parse {source : String}
    (hnumbers : ∀ t ∈ (scan source).tokens, ∀ n, t.literal? = some (.number n) → n.ReadsBack) :
    ∀ e ∈ (parse (scan source).tokens).expressions, e.Prints := by
  intro e he
  obtain ⟨us, hus, hspells⟩ := parse_spells he
  refine hspells.prints (fun t ht => ?_) e List.mem_cons_self
  have hmem := hus.subset ht
  have hscanned := hnumbers t ((List.takeWhile_prefix _).subset hmem)
  rw [takeWhile_tokens] at hmem
  exact ⟨fromPiece_of_mem hmem, hscanned⟩

/-- A text whose tokens spell expressions is read as these expressions. -/
theorem Yields.read {text : String} {es : List Expr} (h : Yields text.toList (SpellsLike es)) :
    (scan text).errors = [] ∧ (Expr.parse (scan text).tokens).errors = [] ∧
      Forall₂ (Expr.Alike Token.Respelled) es (Expr.parse (scan text).tokens).expressions := by
  obtain ⟨ps, hps, htokens⟩ := h
  have hcut : Piece.cut text.toList = ps := by
    have := Piece.cut_flatMap (hps.wellCut [] delimited_nil)
    rwa [hps.text] at this
  have htokensFrom : tokensFrom 1 text = Piece.tokens 1 ps := by
    rw [tokensFrom, hcut]
  have herrorsFrom : errorsFrom 1 text = [] := by
    rw [errorsFrom, hcut]
    exact hps.errors 1
  obtain ⟨es', hspells, halike⟩ := htokens 1
  have hparse : Expr.parse (scan text).tokens = ⟨es', []⟩ := by
    rw [scan_eq_scanFrom, scanFrom_eq]
    dsimp only
    rw [Expr.parse_tokens (tokensFrom_kind 1 text), htokensFrom, hspells.read_start]
    show (⟨es'.reverse.reverse, []⟩ : Parse) = _
    rw [List.reverse_reverse]
  refine ⟨?_, ?_, ?_⟩
  · rw [scan_eq_scanFrom, scanFrom_eq]
    exact herrorsFrom
  · rw [hparse]
  · rw [hparse]
    exact halike

/-- **A text that is printed is read back.** The printed forms of the expressions of a text, on
lines of their own, are scanned and read without an error as the same expressions, up to lines and
the spelling of numbers, if the printed form of every number in the text is. -/
theorem read_printed (source : String)
    (hnumbers : ∀ t ∈ (scan source).tokens, ∀ n, t.literal? = some (.number n) → n.ReadsBack) :
    let exprs := (Expr.parse (scan source).tokens).expressions
    let printed := "\n".intercalate (exprs.map Expr.text)
    (scan printed).errors = [] ∧ (Expr.parse (scan printed).tokens).errors = [] ∧
      Forall₂ (Expr.Alike Token.Respelled) exprs
        (Expr.parse (scan printed).tokens).expressions := by
  intro exprs printed
  have hnewline : IsSeparator '\n' := .inr rfl
  have hprinted : Yields printed.toList (SpellsLike exprs) :=
    Expr.Prints.intercalate hnewline (Expr.prints_of_parse hnumbers)
  exact hprinted.read

/-- A definition is printed with its name apart from the parameters, and a number without the zeros
at its end. -/
theorem read_printed_spelled_anew :
    let source := "(define (f x) (+ x 1.50))"
    let exprs := (Expr.parse (scan source).tokens).expressions
    exprs.map Expr.text = ["(define f (x) (+ x 1.5))"] ∧
      Forall₂ (Expr.Alike Token.Respelled) exprs
        (Expr.parse (scan ("\n".intercalate (exprs.map Expr.text))).tokens).expressions := by
  refine ⟨by decide +kernel, (read_printed "(define (f x) (+ x 1.50))" fun t ht n hn => ?_).2.2⟩
  have hall : ∀ t ∈ (scan "(define (f x) (+ x 1.50))").tokens,
      t.literal? = none ∨ t.literal? = some (.number (.ofDecimal 15 1)) := by
    decide +kernel
  rcases hall t ht with hnone | hsome
  · rw [hnone] at hn
    exact nomatch hn
  · rw [hsome] at hn
    cases hn
    refine ⟨by decide +kernel, ⟨.number, "1.5", some (.number (.ofDecimal 15 1)), 1⟩, 1, ?_⟩
    exact ⟨by decide +kernel, rfl, rfl⟩

end MiniLisp
