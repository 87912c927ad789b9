import Mathlib.Data.List.Forall2
import MiniLisp.Proofs.Scanning

/-!
# Spans

Which characters are lexemes and which are gaps is said without a scanner, each with the characters
that follow it. A text is cut in exactly one way that obeys these rules, and all of it is taken.

* `Gap`, `Lexeme.Spelled` : the characters of a gap and of a lexeme, and what may follow them;
* `Scanned` : the spans of a text, with the gaps between them;
* `Gap.pieces`, `Lexeme.Spelled.piece` : gaps and lexemes are pieces, and the converses;
* `Span.Stands` : where a span stands in a text;
* `stands_of_mem_tokens` : where a token stands in a text;
* `lexemes_scanned` : the theorem.
-/

namespace MiniLisp

open List Text

/-! ## What stands in a text -/

/-- Characters that mean nothing, and after them `rest`: white space, and comments, which end only
before a line break or at the end of the text. -/
inductive Gap : List Char → List Char → Prop
  | nil (rest : List Char) : Gap [] rest
  | blank {c : Char} {gap rest : List Char} (hc : isBlank c = true) (h : Gap gap rest) :
      Gap (c :: gap) rest
  | comment {body gap rest : List Char} (hbody : '\n' ∉ body)
      (hend : ∀ c ∈ (gap ++ rest).head?, c = '\n') (h : Gap gap rest) :
      Gap ('/' :: '/' :: (body ++ gap)) rest

/-- The characters of a lexeme, and after them `rest`. -/
inductive Lexeme.Spelled : Lexeme → List Char → List Char → Prop
  | number {c : Char} {cs rest : List Char} {n : Binary64} (hc : c.isDigit = true)
      (hrun : ∀ d ∈ cs, isNumberChar d = true) (hend : ∀ d ∈ rest.head?, isNumberChar d = false)
      (hpoints : (c :: cs).count '.' ≤ 1) (hn : Piece.numberValue? (c :: cs) = some n) :
      Spelled (.number n) (c :: cs) rest
  | invalidNumber {c : Char} {cs rest : List Char} (hc : c.isDigit = true)
      (hrun : ∀ d ∈ cs, isNumberChar d = true) (hend : ∀ d ∈ rest.head?, isNumberChar d = false)
      (hpoints : 2 ≤ (c :: cs).count '.') : Spelled .invalidNumber (c :: cs) rest
  | string {body rest : List Char} (hbody : '"' ∉ body) :
      Spelled (.string (String.ofList body)) ('"' :: (body ++ ['"'])) rest
  | unterminatedString {body : List Char} (hbody : '"' ∉ body) :
      Spelled .unterminatedString ('"' :: body) []
  | keyword {k : Keyword} {rest : List Char} (hend : ∀ d ∈ rest.head?, isWordChar d = false) :
      Spelled (.token (.keyword k)) k.spelling.toList rest
  | symbol {c : Char} {cs rest : List Char} (hc : isWordStart c = true)
      (hrun : ∀ d ∈ cs, isWordChar d = true) (hend : ∀ d ∈ rest.head?, isWordChar d = false)
      (hk : ∀ k : Keyword, c :: cs ≠ k.spelling.toList) : Spelled (.token .symbol) (c :: cs) rest
  | mark {m : Mark} {rest : List Char} (hslash : m = .operator .slash → rest.head? ≠ some '/') :
      Spelled (.token (.mark m)) [m.char] rest
  | unexpected {c : Char} {rest : List Char} (hblank : isBlank c = false)
      (hdigit : c.isDigit = false) (hquote : c ≠ '"') (hword : isWordStart c = false)
      (hmark : ∀ m : Mark, m.char ≠ c) : Spelled (.unexpected c) [c] rest

/-- The spans of a text, the part of it `before` them left out: each is that of a lexeme, and there
are only gaps before the first one, between them, and after the last one. -/
inductive Scanned : List Char → List Char → List Span → Prop
  | done {before gap : List Char} (hgap : Gap gap []) : Scanned before gap []
  | span {before gap text rest : List Char} {lexeme : Lexeme} {spans : List Span}
      (hgap : Gap gap (text ++ rest)) (hlexeme : lexeme.Spelled text rest)
      (h : Scanned (before ++ gap ++ text) rest spans) :
      Scanned before (gap ++ (text ++ rest))
        (⟨bytes (before ++ gap), bytes (before ++ gap ++ text), lexeme⟩ :: spans)

/-! ## Keywords and marks -/

namespace Keyword

theorem ofText?_spelling (k : Keyword) : ofText? k.spelling = some k := by
  cases k <;> decide +kernel

theorem toList_spelling {text : List Char} {k : Keyword}
    (h : ofText? (String.ofList text) = some k) : text = k.spelling.toList := by
  have hspelling : (k.spelling == String.ofList text) = true :=
    @List.find?_some _ (fun k : Keyword => k.spelling == String.ofList text) _ _ h
  rw [beq_iff_eq.1 hspelling, String.toList_ofList]

theorem spelling_word (k : Keyword) : ∃ c cs, k.spelling.toList = c :: cs ∧
    isWordStart c = true ∧ ∀ d ∈ cs, isWordChar d = true := by
  have hword : k.spelling.toList.head?.any isWordStart = true ∧
      k.spelling.toList.tail.all isWordChar = true := by
    cases k <;> decide +kernel
  cases hk : k.spelling.toList with
  | nil =>
    rw [hk] at hword
    exact nomatch hword.1
  | cons c cs =>
    rw [hk] at hword
    exact ⟨c, cs, rfl, hword.1, List.all_eq_true.1 hword.2⟩

end Keyword

theorem Kind.ofWord_spelling (k : Keyword) :
    ofWord (String.ofList k.spelling.toList) = .keyword k := by
  rw [String.ofList_toList, ofWord, k.ofText?_spelling]

theorem Kind.ofWord_symbol {text : List Char} (h : ∀ k : Keyword, text ≠ k.spelling.toList) :
    ofWord (String.ofList text) = .symbol := by
  unfold ofWord
  cases hk : Keyword.ofText? (String.ofList text) with
  | none => rfl
  | some k => exact absurd (Keyword.toList_spelling hk) (h k)

namespace Mark

theorem eq_slash {m : Mark} (h : m.char = '/') : m = .operator .slash := by
  have hspec := m.char_spec.1
  rw [h] at hspec
  cases hspec
  rfl

theorem ofChar?_eq_none_iff {c : Char} : ofChar? c = none ↔ ∀ m : Mark, m.char ≠ c := by
  constructor
  · rintro h m rfl
    rw [m.char_spec.1] at h
    exact nomatch h
  · intro h
    cases hm : ofChar? c with
    | none => rfl
    | some m => exact absurd (char_of_ofChar? hm) (h m)

end Mark

/-! ## Gaps and lexemes as pieces -/

theorem Lexeme.Spelled.ne_nil {lexeme : Lexeme} {text rest : List Char}
    (h : lexeme.Spelled text rest) : text ≠ [] := by
  cases h with
  | @keyword k =>
    obtain ⟨c, cs, hk, -⟩ := k.spelling_word
    rw [hk]
    exact List.cons_ne_nil c cs
  | number | invalidNumber | string | unterminatedString | symbol | mark | unexpected =>
    exact List.cons_ne_nil _ _

theorem Gap.pieces {gap rest : List Char} (h : Gap gap rest) :
    ∃ ps : List Piece, (∀ p ∈ ps, p.lexeme? = none) ∧ ps.flatMap Piece.text = gap ∧
      Piece.WellCut ps rest := by
  induction h with
  | nil => exact ⟨[], nofun, rfl, trivial⟩
  | @blank c gap rest hc _ ih =>
    obtain ⟨ps, hps, rfl, hcut⟩ := ih
    exact ⟨.blank c :: ps, List.forall_mem_cons.2 ⟨rfl, hps⟩, rfl, hc, trivial, hcut⟩
  | @comment body gap rest hbody hend _ ih =>
    obtain ⟨ps, hps, rfl, hcut⟩ := ih
    exact ⟨.comment body :: ps, List.forall_mem_cons.2 ⟨rfl, hps⟩, rfl, hbody, hend, hcut⟩

theorem Gap.cons {p : Piece} (hp : p.lexeme? = none) (hvalid : p.Valid) {gap rest : List Char}
    (hends : p.Ends (gap ++ rest)) (h : Gap gap rest) : Gap (p.text ++ gap) rest := by
  cases p with
  | blank c => exact .blank hvalid h
  | comment body => exact .comment hvalid hends h
  | number | string | openString | word | mark | stray => exact nomatch hp

theorem Piece.points_of_numberValue? {text : List Char} {n : Binary64}
    (h : numberValue? text = some n) : text.count '.' ≤ 1 := by
  unfold numberValue? at h
  split at h
  · assumption
  · exact nomatch h

theorem Piece.points_of_no_numberValue? {text : List Char} (h : numberValue? text = none) :
    2 ≤ text.count '.' := by
  unfold numberValue? at h
  split at h
  · exact nomatch h
  · omega

theorem Lexeme.Spelled.piece {lexeme : Lexeme} {text rest : List Char}
    (h : lexeme.Spelled text rest) :
    ∃ p : Piece, p.lexeme? = some lexeme ∧ p.text = text ∧ p.Valid ∧ p.Ends rest := by
  cases h with
  | @number c cs rest n hc hrun hend hpoints hn =>
    refine ⟨.number (c :: cs), ?_, rfl, ⟨c, cs, rfl, hc, hrun⟩, hend⟩
    simp only [Piece.lexeme?, hn]
  | @invalidNumber c cs rest hc hrun hend hpoints =>
    refine ⟨.number (c :: cs), ?_, rfl, ⟨c, cs, rfl, hc, hrun⟩, hend⟩
    have hnone : Piece.numberValue? (c :: cs) = none := if_neg (Nat.not_le.2 hpoints)
    simp only [Piece.lexeme?, hnone]
  | @string body rest hbody => exact ⟨.string body, rfl, rfl, hbody, trivial⟩
  | @unterminatedString body hbody => exact ⟨.openString body, rfl, rfl, hbody, rfl⟩
  | @keyword k rest hend =>
    refine ⟨.word k.spelling.toList, ?_, rfl, k.spelling_word, hend⟩
    rw [Piece.lexeme?, Kind.ofWord_spelling]
  | @symbol c cs rest hc hrun hend hk =>
    refine ⟨.word (c :: cs), ?_, rfl, ⟨c, cs, rfl, hc, hrun⟩, hend⟩
    rw [Piece.lexeme?, Kind.ofWord_symbol hk]
  | @mark m rest hslash =>
    exact ⟨.mark m, rfl, rfl, trivial, fun hchar => hslash (m.eq_slash hchar)⟩
  | @unexpected c rest hblank hdigit hquote hword hmark =>
    exact ⟨.stray c, rfl, rfl, ⟨hblank, hdigit, hquote, hword, Mark.ofChar?_eq_none_iff.2 hmark⟩,
      trivial⟩

theorem Piece.spelled {p : Piece} {lexeme : Lexeme} (hp : p.lexeme? = some lexeme)
    (hvalid : p.Valid) {rest : List Char} (hends : p.Ends rest) : lexeme.Spelled p.text rest := by
  cases p with
  | blank | comment => exact nomatch hp
  | number text =>
    obtain ⟨c, cs, rfl, hc, hcs⟩ := hvalid
    cases hvalue : numberValue? (c :: cs) with
    | none =>
      simp only [lexeme?, hvalue] at hp
      cases hp
      exact .invalidNumber hc hcs hends (points_of_no_numberValue? hvalue)
    | some n =>
      simp only [lexeme?, hvalue] at hp
      cases hp
      exact .number hc hcs hends (points_of_numberValue? hvalue) hvalue
  | string body =>
    cases hp
    exact .string hvalid
  | openString body =>
    cases hp
    obtain rfl : rest = [] := hends
    exact .unterminatedString hvalid
  | word text =>
    obtain ⟨c, cs, rfl, hc, hcs⟩ := hvalid
    rw [lexeme?, Option.some_inj] at hp
    subst hp
    cases hk : Keyword.ofText? (String.ofList (c :: cs)) with
    | some k =>
      rw [Keyword.toList_spelling hk, Kind.ofWord_spelling]
      exact .keyword hends
    | none =>
      have hne : ∀ k : Keyword, c :: cs ≠ k.spelling.toList := by
        intro k hspelling
        rw [hspelling, String.ofList_toList, k.ofText?_spelling] at hk
        cases hk
      rw [Kind.ofWord_symbol hne]
      exact .symbol hc hcs hends hne
  | mark m =>
    cases hp
    refine .mark ?_
    rintro rfl
    exact hends rfl
  | stray c =>
    cases hp
    obtain ⟨hblank, hdigit, hquote, hword, hmark⟩ := hvalid
    exact .unexpected hblank hdigit hquote hword (Mark.ofChar?_eq_none_iff.1 hmark)

/-! ## Spans of pieces -/

namespace Span

theorem ofPieces_gap (offset : Nat) {ps : List Piece} (hps : ∀ p ∈ ps, p.lexeme? = none)
    (qs : List Piece) :
    ofPieces offset (ps ++ qs) = ofPieces (offset + bytes (ps.flatMap Piece.text)) qs := by
  induction ps generalizing offset with
  | nil => rfl
  | cons p ps ih =>
    obtain ⟨hp, hps⟩ := List.forall_mem_cons.1 hps
    rw [List.cons_append, ofPieces, hp, List.flatMap_cons, bytes_append, ← Nat.add_assoc]
    exact ih _ hps

theorem ofPieces_lexeme (offset : Nat) {p : Piece} {lexeme : Lexeme} (hp : p.lexeme? = some lexeme)
    (ps : List Piece) :
    ofPieces offset (p :: ps) =
      ⟨offset, offset + bytes p.text, lexeme⟩ :: ofPieces (offset + bytes p.text) ps := by
  rw [ofPieces, hp]
  rfl

end Span

namespace Scanned

/-- The spans of a text are those of the pieces into which it is cut. -/
theorem eq_ofPieces {before source : List Char} {spans : List Span}
    (h : Scanned before source spans) :
    spans = Span.ofPieces (bytes before) (Piece.cut source) := by
  induction h with
  | @done before gap hgap =>
    obtain ⟨ps, hps, rfl, hcut⟩ := hgap.pieces
    have := Span.ofPieces_gap (bytes before) hps []
    rw [List.append_nil] at this
    rw [Piece.cut_flatMap hcut, this]
    rfl
  | @span before gap text rest lexeme spans hgap hlexeme h ih =>
    obtain ⟨ps, hps, rfl, hcut⟩ := hgap.pieces
    obtain ⟨p, hp, rfl, hvalid, hends⟩ := hlexeme.piece
    rw [Piece.cut_append hcut, Piece.cut_piece hvalid hends, Span.ofPieces_gap _ hps,
      Span.ofPieces_lexeme _ hp, ih, ← bytes_append, ← bytes_append]

theorem gap {p : Piece} (hp : p.lexeme? = none) (hvalid : p.Valid) {before rest : List Char}
    (hends : p.Ends rest) {spans : List Span} (h : Scanned (before ++ p.text) rest spans) :
    Scanned before (p.text ++ rest) spans := by
  generalize hbefore : before ++ p.text = before' at h
  cases h with
  | done hgap =>
    rw [← List.append_nil rest] at hends
    exact .done (hgap.cons hp hvalid hends)
  | @span _ tail text rest lexeme spans hgap hlexeme h =>
    subst hbefore
    rw [List.append_assoc before p.text tail] at h ⊢
    rw [← List.append_assoc p.text tail]
    exact .span (hgap.cons hp hvalid hends) hlexeme h

/-- Pieces that are cut well give the spans of the text that they spell. -/
theorem ofPieces {ps : List Piece} (h : Piece.WellCut ps []) (before : List Char) :
    Scanned before (ps.flatMap Piece.text) (Span.ofPieces (bytes before) ps) := by
  induction ps generalizing before with
  | nil => exact .done (.nil [])
  | cons p ps ih =>
    obtain ⟨hvalid, hends, hps⟩ := h
    have hrest := ih hps (before ++ p.text)
    rw [List.append_nil] at hends
    rw [bytes_append] at hrest
    rw [List.flatMap_cons]
    cases hp : p.lexeme? with
    | none =>
      rw [Span.ofPieces, hp]
      exact gap hp hvalid hends hrest
    | some lexeme =>
      have hspan := @Scanned.span before [] p.text _ lexeme
        (Span.ofPieces (bytes before + bytes p.text) ps) (.nil _) (Piece.spelled hp hvalid hends)
      rw [List.append_nil, bytes_append] at hspan
      rw [Span.ofPieces_lexeme _ hp]
      exact hspan hrest

theorem increasing {before source : List Char} {spans : List Span}
    (h : Scanned before source spans) :
    (∀ s ∈ spans, bytes before ≤ s.start ∧ s.start < s.stop) ∧
      spans.Pairwise (fun s s' => s.stop ≤ s'.start) := by
  induction h with
  | done => exact ⟨nofun, .nil⟩
  | @span before gap text rest lexeme spans _ hlexeme _ ih =>
    obtain ⟨hspans, hpairwise⟩ := ih
    have hgap : bytes (before ++ gap) = bytes before + bytes gap := bytes_append before gap
    have htext : bytes (before ++ gap ++ text) = bytes (before ++ gap) + bytes text :=
      bytes_append (before ++ gap) text
    have hpos : 0 < bytes text := bytes_pos hlexeme.ne_nil
    refine ⟨List.forall_mem_cons.2 ⟨⟨?_, ?_⟩, ?_⟩, .cons (fun s hs => (hspans s hs).1) hpairwise⟩
    · show bytes before ≤ bytes (before ++ gap)
      omega
    · show bytes (before ++ gap) < bytes (before ++ gap ++ text)
      omega
    · intro s hs
      obtain ⟨hstart, hstop⟩ := hspans s hs
      exact ⟨by omega, hstop⟩

end Scanned

/-! ## Tokens and errors of spans -/

/-- The span is where `text` stands in `source`, after `before` and before `rest`. -/
structure Span.Stands (s : Span) (source before text rest : List Char) : Prop where
  source : source = before ++ (text ++ rest)
  start : s.start = bytes before
  stop : s.stop = bytes (before ++ text)
  spelled : s.lexeme.Spelled text rest

/-- The token or error that a span of `source` gives: with its own characters, on the line on which
it starts. -/
def Span.Gives (source : List Char) (s : Span) (result : Except SyntaxError Token) : Prop :=
  ∃ before text rest, s.Stands source before text rest ∧
    result = s.lexeme.toToken (String.ofList text) (1 + before.count '\n')

theorem Piece.results_spans {ps : List Piece} (h : WellCut ps []) (before : List Char) :
    Forall₂ (Span.Gives (before ++ ps.flatMap text)) (Span.ofPieces (bytes before) ps)
      (results (1 + before.count '\n') ps) := by
  induction ps generalizing before with
  | nil => exact .nil
  | cons p ps ih =>
    obtain ⟨hvalid, hends, hps⟩ := h
    have hrest := ih hps (before ++ p.text)
    rw [List.append_nil] at hends
    rw [bytes_append, List.count_append, ← Nat.add_assoc, List.append_assoc] at hrest
    rw [List.flatMap_cons]
    cases hp : p.lexeme? with
    | none =>
      rw [Span.ofPieces, hp, results, result?, hp]
      exact hrest
    | some lexeme =>
      rw [Span.ofPieces_lexeme _ hp, results, result?, hp]
      refine .cons ⟨before, p.text, ps.flatMap text, ⟨rfl, rfl, ?_, ?_⟩, rfl⟩ hrest
      · exact (bytes_append before p.text).symm
      · exact spelled hp hvalid hends

theorem exists_of_forall₂_right {α β : Type} {R : α → β → Prop} {xs : List α} {ys : List β}
    (h : Forall₂ R xs ys) {y : β} (hy : y ∈ ys) : ∃ x ∈ xs, R x y := by
  induction h with
  | nil => exact nomatch hy
  | cons hxy _ ih =>
    rcases List.mem_cons.1 hy with rfl | hy
    · exact ⟨_, List.mem_cons_self, hxy⟩
    · obtain ⟨x, hx, hxy⟩ := ih hy
      exact ⟨x, List.mem_cons_of_mem _ hx, hxy⟩

/-- Every token of a text is a lexeme that stands in it, on the line on which the token starts. -/
theorem stands_of_mem_tokens {source : String} {t : Token} (ht : t ∈ tokensFrom 1 source) :
    ∃ before text rest lexeme, source.toList = before ++ (text ++ rest) ∧
      Lexeme.Spelled lexeme text rest ∧
      lexeme.toToken (String.ofList text) (1 + before.count '\n') = .ok t := by
  have hresults := Piece.results_spans (Piece.wellCut_cut source.toList) []
  rw [Piece.cut_text] at hresults
  obtain ⟨r, hr, hrt⟩ := List.mem_filterMap.1 ht
  obtain rfl : r = .ok t := by
    cases r with
    | ok u => exact congrArg Except.ok (Option.some.inj hrt)
    | error e => exact nomatch hrt
  obtain ⟨s, -, before, text, rest, hstands, hresult⟩ := exists_of_forall₂_right hresults hr
  exact ⟨before, text, rest, s.lexeme, hstands.source, hstands.spelled, hresult.symm⟩

/-- **A text is cut into lexemes in exactly one way**, and all that is left out is white space and
comments. The lexer does not fail on it and gives these lexemes. Their spans take bytes, one after
the other; and each gives one token or error, with the characters that stand there and their
line. -/
theorem lexemes_scanned (source : String) :
    (lex source).failures = [] ∧ (lex source).lexemes? = some (lexemes source) ∧
      (∀ spans, Scanned [] source.toList spans ↔ spans = lexemes source) ∧
      (∀ s ∈ lexemes source, s.start < s.stop) ∧
      (lexemes source).Pairwise (fun s s' => s.stop ≤ s'.start) ∧
      ∃ results : List (Except SyntaxError Token),
        scan source = ⟨results.filterMap Except.toOption ++ [.endOfText (1 + newlines source)],
          results.filterMap SyntaxError.ofResult?⟩ ∧
        Forall₂ (Span.Gives source.toList) (lexemes source) results := by
  have hlexemes : Span.ofPieces (bytes []) (Piece.cut source.toList) = lexemes source :=
    (lexemes_eq source).symm
  have hscanned : Scanned [] source.toList (lexemes source) := by
    have h := Scanned.ofPieces (Piece.wellCut_cut source.toList) []
    rwa [Piece.cut_text, hlexemes] at h
  have hresults := Piece.results_spans (Piece.wellCut_cut source.toList) []
  rw [Piece.cut_text, hlexemes] at hresults
  obtain ⟨hspans, hpairwise⟩ := hscanned.increasing
  refine ⟨by rw [lex_eq], by rw [lexemes_eq, lex_eq], ?_, fun s hs => (hspans s hs).2, hpairwise,
    ?_⟩
  · intro spans
    constructor
    · exact fun h => h.eq_ofPieces.trans hlexemes
    · rintro rfl
      exact hscanned
  · exact ⟨_, (scan_eq_scanFrom source).trans (scanFrom_eq 1 source), hresults⟩

/-- A word whose letter takes two bytes, a number with two points, and a comment up to its end. -/
example : lexemes "(é? 1.2.3)// ()\n\"a" =
    [⟨0, 1, .token (.mark .leftParen)⟩, ⟨1, 4, .token .symbol⟩, ⟨5, 10, .invalidNumber⟩,
      ⟨10, 11, .token (.mark .rightParen)⟩, ⟨17, 19, .unterminatedString⟩] := by
  decide +kernel

end MiniLisp
