import MiniLisp.Proofs.Lexing

/-!
# Scanning piece by piece

A text can be scanned by looking at every piece for itself: a piece gives a token, an error, or
nothing, and tells the next one its line.

* `Piece.results` : the tokens and errors of pieces in one list;
* `Piece.results_append`, `Piece.results_shift` : more pieces, and other lines;
* `scanFrom` : scanning a text piece by piece, where its first line has some number;
* `scan_eq_scanFrom` : this is what scanning the lexemes of the lexer gives;
* `tokensFrom_newline`, `errorsFrom_newline` : two texts with a line break between them are scanned
  one after the other;
* `scan_newline` : what that means for the lines of the second text.
-/

namespace MiniLisp

/-- The token, `k` lines further down. -/
def Token.shift (k : Nat) (t : Token) : Token := { t with line := t.line + k }

/-- The error, `k` lines further down. -/
def SyntaxError.shift (k : Nat) (e : SyntaxError) : SyntaxError := { e with line := e.line + k }

namespace Piece

/-! ## What pieces are -/

/-- The token or error that a piece is, on line `line`. -/
def result? (line : Nat) (p : Piece) : Option (Except SyntaxError Token) :=
  p.lexeme?.map fun lexeme => lexeme.toToken (String.ofList p.text) line

/-- The tokens and errors of pieces, the first of which starts on line `line`. -/
def results (line : Nat) : List Piece → List (Except SyntaxError Token)
  | [] => []
  | p :: ps => (p.result? line).toList ++ results (line + p.newlines) ps

def tokens (line : Nat) (ps : List Piece) : List Token :=
  (results line ps).filterMap Except.toOption

def errors (line : Nat) (ps : List Piece) : List SyntaxError :=
  (results line ps).filterMap SyntaxError.ofResult?

/-- The tokens and errors of the lexemes among pieces, sliced out of the text in which these
stand. -/
theorem map_toToken {source : String} {before : List Char} {ps : List Piece}
    (h : source.toList = before ++ ps.flatMap text) :
    (Span.ofPieces (bytes before) ps).map (Span.toToken source) =
      results (1 + before.count '\n') ps := by
  induction ps generalizing before with
  | nil => rfl
  | cons p ps ih =>
    rw [List.flatMap_cons] at h
    have hrest := ih (h.trans (List.append_assoc ..).symm)
    rw [bytes_append, List.count_append, ← Nat.add_assoc] at hrest
    rw [results, result?, Span.ofPieces]
    cases hp : p.lexeme? with
    | none => exact hrest
    | some lexeme =>
      have htoken : Span.toToken source ⟨bytes before, bytes before + bytes p.text, lexeme⟩ =
          lexeme.toToken (String.ofList p.text) (1 + before.count '\n') := by
        rw [Span.toToken, ← bytes_append, slice_eq h, lineAt_eq h]
      exact congrArg₂ List.cons htoken hrest

theorem results_append (line : Nat) (ps qs : List Piece) :
    results line (ps ++ qs) =
      results line ps ++ results (line + (ps.flatMap text).count '\n') qs := by
  induction ps generalizing line with
  | nil => rfl
  | cons p ps ih =>
    have hline : line + ((p :: ps).flatMap text).count '\n' =
        line + p.newlines + (ps.flatMap text).count '\n' := by
      rw [List.flatMap_cons, List.count_append, Nat.add_assoc]
      rfl
    rw [List.cons_append, results, results, ih, hline, List.append_assoc]

theorem tokens_append (line : Nat) (ps qs : List Piece) :
    tokens line (ps ++ qs) = tokens line ps ++ tokens (line + (ps.flatMap text).count '\n') qs := by
  rw [tokens, results_append, List.filterMap_append]
  rfl

theorem errors_append (line : Nat) (ps qs : List Piece) :
    errors line (ps ++ qs) = errors line ps ++ errors (line + (ps.flatMap text).count '\n') qs := by
  rw [errors, results_append, List.filterMap_append]
  rfl

theorem mem_results {line : Nat} {ps : List Piece} {r : Except SyntaxError Token}
    (h : r ∈ results line ps) : ∃ p ∈ ps, ∃ l, p.result? l = some r := by
  induction ps generalizing line with
  | nil => exact nomatch h
  | cons p ps ih =>
    rcases List.mem_append.1 h with h | h
    · exact ⟨p, List.mem_cons_self, line, Option.mem_toList.1 h⟩
    · obtain ⟨q, hq, l, hr⟩ := ih h
      exact ⟨q, List.mem_cons_of_mem _ hq, l, hr⟩

theorem results_of_mem (line : Nat) {ps : List Piece} {p : Piece} (hp : p ∈ ps) :
    ∃ l, ∀ r, p.result? l = some r → r ∈ results line ps := by
  induction ps generalizing line with
  | nil => exact nomatch hp
  | cons q ps ih =>
    rcases List.mem_cons.1 hp with rfl | hp
    · exact ⟨line, fun r hr => List.mem_append_left _ (Option.mem_toList.2 hr)⟩
    · obtain ⟨l, hl⟩ := ih (line + q.newlines) hp
      exact ⟨l, fun r hr => List.mem_append_right _ (hl r hr)⟩

/-- The token that a piece is, on line `line`. -/
inductive Gives (line : Nat) : Piece → Token → Prop
  | number {text : List Char} {n : Binary64} (h : numberValue? text = some n) :
      Gives line (.number text) ⟨.number, String.ofList text, some (.number n), line⟩
  | string (body : List Char) :
      Gives line (.string body) ⟨.string, String.ofList (Piece.string body).text,
        some (.string (String.ofList body)), line⟩
  | word (text : List Char) :
      Gives line (.word text) ⟨Kind.ofWord (String.ofList text), String.ofList text, none, line⟩
  | mark (m : Mark) : Gives line (.mark m) ⟨.mark m, String.ofList [m.char], none, line⟩

theorem result?_eq_ok_iff {p : Piece} {line : Nat} {t : Token} :
    p.result? line = some (.ok t) ↔ p.Gives line t := by
  constructor
  · intro h
    unfold result? at h
    cases p with
    | blank | comment | openString | stray => exact nomatch h
    | string body =>
      cases h
      exact .string body
    | word text =>
      cases h
      exact .word text
    | mark m =>
      cases h
      exact .mark m
    | number text =>
      simp only [lexeme?, Option.map_some] at h
      split at h
      · rename_i n hn
        cases h
        exact .number hn
      · exact nomatch h
  · intro h
    cases h with
    | number hn =>
      simp only [result?, lexeme?, hn, Option.map_some]
      rfl
    | string | word | mark => rfl

theorem mem_tokens {line : Nat} {ps : List Piece} {t : Token} (h : t ∈ tokens line ps) :
    ∃ p ∈ ps, ∃ l, p.Gives l t := by
  obtain ⟨r, hr, ht⟩ := List.mem_filterMap.1 h
  cases r with
  | ok u =>
    cases ht
    obtain ⟨p, hp, l, hresult⟩ := mem_results hr
    exact ⟨p, hp, l, result?_eq_ok_iff.1 hresult⟩
  | error e => exact nomatch ht

theorem Gives.kind_ne_endOfText {p : Piece} {line : Nat} {t : Token} (h : p.Gives line t) :
    t.kind ≠ .endOfText := by
  cases h with
  | number | string | mark => exact Kind.noConfusion
  | word text =>
    show Kind.ofWord _ ≠ _
    unfold Kind.ofWord
    split <;> exact Kind.noConfusion

/-! ## Other lines -/

theorem result?_shift (k line : Nat) (p : Piece) :
    p.result? (line + k) =
      (p.result? line).map fun r => (r.map (Token.shift k)).mapError (SyntaxError.shift k) := by
  unfold result?
  rw [Option.map_map]
  congr 1
  funext lexeme
  cases lexeme <;> rfl

theorem results_shift (k line : Nat) (ps : List Piece) :
    results (line + k) ps =
      (results line ps).map fun r => (r.map (Token.shift k)).mapError (SyntaxError.shift k) := by
  induction ps generalizing line with
  | nil => rfl
  | cons p ps ih =>
    have hline : line + k + p.newlines = line + p.newlines + k := by omega
    rw [results, results, result?_shift, hline, ih, List.map_append]
    congr 1
    cases p.result? line <;> rfl

theorem tokens_shift (k line : Nat) (ps : List Piece) :
    tokens (line + k) ps = (tokens line ps).map (Token.shift k) := by
  rw [tokens, results_shift, List.filterMap_map, tokens, List.map_filterMap]
  congr 1
  funext r
  cases r <;> rfl

theorem errors_shift (k line : Nat) (ps : List Piece) :
    errors (line + k) ps = (errors line ps).map (SyntaxError.shift k) := by
  rw [errors, results_shift, List.filterMap_map, errors, List.map_filterMap]
  congr 1
  funext r
  cases r <;> rfl

end Piece

/-! ## Texts -/

def newlines (source : String) : Nat := source.toList.count '\n'

/-- The tokens of a text whose first line has number `line`, without one for its end. -/
def tokensFrom (line : Nat) (source : String) : List Token :=
  Piece.tokens line (Piece.cut source.toList)

/-- The errors of a text whose first line has number `line`. -/
def errorsFrom (line : Nat) (source : String) : List SyntaxError :=
  Piece.errors line (Piece.cut source.toList)

/-- Scans a text piece by piece; its first line has number `line`. -/
def scanFrom (line : Nat) (source : String) : Scan :=
  ⟨tokensFrom line source ++ [.endOfText (line + newlines source)], errorsFrom line source⟩

theorem scanFrom_eq (line : Nat) (source : String) :
    scanFrom line source =
      ⟨tokensFrom line source ++ [.endOfText (line + newlines source)],
        errorsFrom line source⟩ := rfl

/-- **A text is scanned piece by piece.** -/
theorem scan_eq_scanFrom (source : String) : scan source = scanFrom 1 source := by
  have htext : source.toList = [] ++ (Piece.cut source.toList).flatMap Piece.text := by
    rw [Piece.cut_text, List.nil_append]
  have hresults : (lexemes source).map (Span.toToken source) =
      Piece.results 1 (Piece.cut source.toList) := by
    rw [lexemes_eq]
    exact Piece.map_toToken htext
  have hend : lineAt source source.utf8ByteSize = 1 + newlines source := by
    have hbytes : bytes source.toList = source.utf8ByteSize := by
      rw [bytes, String.ofList_toList]
    rw [← hbytes]
    exact @lineAt_eq source source.toList [] [] (by simp)
  unfold scan
  dsimp only
  rw [hresults, hend, lex_eq, List.map_nil, List.append_nil]
  rfl

theorem tokensFrom_kind (line : Nat) (source : String) :
    ∀ t ∈ tokensFrom line source, t.kind ≠ .endOfText := by
  intro t ht
  obtain ⟨p, -, l, hgives⟩ := Piece.mem_tokens ht
  exact hgives.kind_ne_endOfText

theorem takeWhile_tokens (source : String) :
    (scan source).tokens.takeWhile (·.kind != .endOfText) = tokensFrom 1 source := by
  have hne : ∀ t ∈ tokensFrom 1 source, (t.kind != .endOfText) = true :=
    fun t ht => bne_iff_ne.2 (tokensFrom_kind 1 source t ht)
  rw [scan_eq_scanFrom, scanFrom_eq, List.takeWhile_append_of_pos hne]
  exact List.append_nil _

theorem newlines_newline (a b : String) :
    newlines (a ++ "\n" ++ b) = newlines a + 1 + newlines b := by
  unfold newlines
  rw [String.toList_append, String.toList_append, List.count_append, List.count_append]
  rfl

theorem isOpenString_of_errors {line : Nat} {source : String}
    (h : ∀ e ∈ errorsFrom line source, e.cause ≠ .unterminatedString) :
    ∀ p ∈ Piece.cut source.toList, p.isOpenString = false := by
  intro p hp
  cases p with
  | openString body =>
    obtain ⟨l, hl⟩ := Piece.results_of_mem line hp
    have hmem := hl _ rfl
    exact absurd rfl (h ⟨l, .unknown, .unterminatedString⟩ (List.mem_filterMap.2 ⟨_, hmem, rfl⟩))
  | blank | comment | number | string | word | mark | stray => rfl

section Newline

variable {a : String} (hopen : ∀ p ∈ Piece.cut a.toList, p.isOpenString = false) (line : Nat)
  (b : String)
include hopen

theorem results_newline :
    Piece.results line (Piece.cut (a ++ "\n" ++ b).toList) =
      Piece.results line (Piece.cut a.toList) ++
        Piece.results (line + (newlines a + 1)) (Piece.cut b.toList) := by
  have htext : (a ++ "\n" ++ b).toList = a.toList ++ '\n' :: b.toList := by
    rw [String.toList_append, String.toList_append, List.append_assoc]
    rfl
  rw [htext, Piece.cut_newline hopen, Piece.results_append, Piece.cut_text]
  rfl

theorem tokensFrom_newline :
    tokensFrom line (a ++ "\n" ++ b) =
      tokensFrom line a ++ tokensFrom (line + (newlines a + 1)) b := by
  rw [tokensFrom, Piece.tokens, results_newline hopen, List.filterMap_append]
  rfl

theorem errorsFrom_newline :
    errorsFrom line (a ++ "\n" ++ b) =
      errorsFrom line a ++ errorsFrom (line + (newlines a + 1)) b := by
  rw [errorsFrom, Piece.errors, results_newline hopen, List.filterMap_append]
  rfl

/-- Up to the end of the first text, and then like the second text alone on later lines. -/
theorem scanFrom_newline :
    scanFrom line (a ++ "\n" ++ b) =
      ⟨tokensFrom line a ++ (scanFrom (line + (newlines a + 1)) b).tokens,
        errorsFrom line a ++ (scanFrom (line + (newlines a + 1)) b).errors⟩ := by
  have hend : line + (newlines a + 1 + newlines b) = line + (newlines a + 1) + newlines b := by
    omega
  rw [scanFrom_eq, scanFrom_eq, tokensFrom_newline hopen, errorsFrom_newline hopen,
    newlines_newline, hend, List.append_assoc]

end Newline

theorem scanFrom_shift (k line : Nat) (source : String) :
    scanFrom (line + k) source =
      ⟨(scanFrom line source).tokens.map (Token.shift k),
        (scanFrom line source).errors.map (SyntaxError.shift k)⟩ := by
  have hend : Token.endOfText (line + k + newlines source) =
      (Token.endOfText (line + newlines source)).shift k := by
    rw [Nat.add_right_comm]
    rfl
  rw [scanFrom_eq, scanFrom_eq, tokensFrom, Piece.tokens_shift, errorsFrom, Piece.errors_shift,
    hend, List.map_append]
  rfl

/-- **A line break cuts a scan in two.** If no string is open at the end of `a`, then `a` and `b`
with a line break between them give the tokens of `a` up to its end and those of `b`, and the errors
of `a` and those of `b`, where all that comes from `b` stands as many lines further down as `a` has
lines. -/
theorem scan_newline {a : String} (h : ∀ e ∈ (scan a).errors, e.cause ≠ .unterminatedString)
    (b : String) :
    ∃ ts, (scan a).tokens = ts ++ [.endOfText (newlines a + 1)] ∧
      (∀ t ∈ ts, t.kind ≠ .endOfText) ∧
      (scan (a ++ "\n" ++ b)).tokens =
        ts ++ (scan b).tokens.map (Token.shift (newlines a + 1)) ∧
      (scan (a ++ "\n" ++ b)).errors =
        (scan a).errors ++ (scan b).errors.map (SyntaxError.shift (newlines a + 1)) := by
  have hfirst : scan a = ⟨tokensFrom 1 a ++ [.endOfText (newlines a + 1)], errorsFrom 1 a⟩ := by
    rw [scan_eq_scanFrom, scanFrom_eq, Nat.add_comm]
  have hopen : ∀ p ∈ Piece.cut a.toList, p.isOpenString = false := by
    rw [hfirst] at h
    exact isOpenString_of_errors h
  have hboth : scan (a ++ "\n" ++ b) =
      ⟨tokensFrom 1 a ++ (scan b).tokens.map (Token.shift (newlines a + 1)),
        errorsFrom 1 a ++ (scan b).errors.map (SyntaxError.shift (newlines a + 1))⟩ := by
    rw [scan_eq_scanFrom, scan_eq_scanFrom b, scanFrom_newline hopen, scanFrom_shift]
  exact ⟨tokensFrom 1 a, by rw [hfirst], tokensFrom_kind 1 a, by rw [hboth], by rw [hboth, hfirst]⟩

/-- A comment without a line break at its end swallows nothing of what comes after it, and a string
of two lines counts as two. -/
theorem scan_newline_comment :
    let a := "(# \"x\ny\") // \"z"
    let b := "1.2.3"
    (∀ e ∈ (scan a).errors, e.cause ≠ .unterminatedString) ∧
      (scan (a ++ "\n" ++ b)).errors =
        [⟨1, .unknown, .unexpectedCharacter '#'⟩, ⟨3, .unknown, .invalidNumber "1.2.3"⟩] := by
  intro a b
  have h : ∀ e ∈ (scan a).errors, e.cause ≠ .unterminatedString := by decide +kernel
  have hparts : (scan a).errors ++ (scan b).errors.map (SyntaxError.shift (newlines a + 1)) =
      [⟨1, .unknown, .unexpectedCharacter '#'⟩, ⟨3, .unknown, .invalidNumber "1.2.3"⟩] := by
    decide +kernel
  obtain ⟨_, -, -, -, herrors⟩ := scan_newline h b
  exact ⟨h, herrors.trans hparts⟩

end MiniLisp
