import MiniLisp.Proofs.ReadBack
import MiniLisp.Proofs.Spans

/-!
# Tokens scanned again

The tokens of a text, written out with white space between them, are a text with the same tokens. A
token is cut from its own characters alone, and white space ends every token, so it does not matter
what stood around a token in the text that it comes from.

* `IsSpacing` : white space of any length but none;
* `Token.Joined` : tokens with spacing between them;
* `Token.Joined.pieces` : how such a text is cut;
* `scan_joined` : what it is scanned as.
-/

namespace MiniLisp

open List Text

def IsSpacing (text : String) : Prop := text ≠ "" ∧ ∀ c ∈ text.toList, isBlank c = true

/-- The text is that of the tokens, one after the other with spacing between them. -/
inductive Token.Joined : List Token → String → Prop
  | nil : Joined [] ""
  | single (t : Token) : Joined [t] t.lexeme
  | cons (t : Token) {spacing : String} (hspacing : IsSpacing spacing) {u : Token}
      {ts : List Token} {text : String} (h : Joined (u :: ts) text) :
      Joined (t :: u :: ts) (t.lexeme ++ spacing ++ text)

/-! ## White space -/

theorem Piece.IsToken.ends_of_isBlank {p : Piece} (hp : p.IsToken) {c : Char}
    (hc : isBlank c = true) (rest : List Char) : p.Ends (c :: rest) := by
  have hhead {P : Char → Prop} (h : P c) : ∀ d ∈ (c :: rest).head?, P d := by
    intro d hd
    obtain rfl := Option.mem_some_iff.1 hd
    exact h
  cases p with
  | number => exact hhead (P := (isNumberChar · = false)) (isNumberChar_of_isBlank hc)
  | word => exact hhead (P := (isWordChar · = false)) (isWordChar_of_isBlank hc)
  | mark m =>
    intro _ hslash
    cases hslash
    exact absurd hc (by decide)
  | comment | openString => exact hp.elim
  | blank | string | stray => trivial

theorem IsSpacing.gap {spacing : String} (h : IsSpacing spacing) (rest : List Char) :
    Gap spacing.toList rest := by
  obtain ⟨-, hblank⟩ := h
  generalize spacing.toList = cs at hblank
  induction cs with
  | nil => exact .nil rest
  | cons c cs ih =>
    obtain ⟨hc, hcs⟩ := List.forall_mem_cons.1 hblank
    exact .blank hc (ih hcs)

theorem IsSpacing.exists_cons {spacing : String} (h : IsSpacing spacing) :
    ∃ c cs, spacing.toList = c :: cs ∧ isBlank c = true := by
  obtain ⟨hne, hblank⟩ := h
  cases hcs : spacing.toList with
  | nil => exact absurd (String.toList_eq_nil_iff.1 hcs) hne
  | cons c cs => exact ⟨c, cs, rfl, hblank c (hcs ▸ List.mem_cons_self)⟩

/-! ## Pieces -/

namespace Piece

theorem results_of_no_lexeme {ps : List Piece} (h : ∀ p ∈ ps, p.lexeme? = none) (line : Nat) :
    results line ps = [] := by
  induction ps generalizing line with
  | nil => rfl
  | cons p ps ih =>
    obtain ⟨hp, hps⟩ := List.forall_mem_cons.1 h
    rw [results, result?, hp, ih hps]
    rfl

end Piece

theorem Token.FromPiece.exists_piece {t : Token} (h : t.FromPiece) :
    ∃ p : Piece, p.text = t.lexeme.toList ∧ p.Valid ∧ p.IsToken ∧
      ∀ line, Piece.results line [p] = [.ok { t with line }] := by
  obtain ⟨p, hvalid, l, hgives⟩ := h
  refine ⟨p, hgives.lexeme_eq.symm, hvalid, hgives.isToken, fun line => ?_⟩
  rw [Piece.results, Piece.result?_eq_ok_iff.2 (hgives.onLine line)]
  rfl

def Token.Results (ts : List Token) (rs : List (Except SyntaxError Token)) : Prop :=
  Forall₂ (fun t r => ∃ line, r = .ok { t with line }) ts rs

namespace Token.Results

variable {ts : List Token} {rs : List (Except SyntaxError Token)}

theorem errors (h : Token.Results ts rs) : rs.filterMap SyntaxError.ofResult? = [] := by
  induction h with
  | nil => rfl
  | cons ht _ ih =>
    obtain ⟨line, rfl⟩ := ht
    exact ih

theorem tokens (h : Token.Results ts rs) :
    Forall₂ (Token.Moved fun _ _ => True) ts (rs.filterMap Except.toOption) := by
  induction h with
  | nil => exact .nil
  | cons ht _ ih =>
    obtain ⟨line, rfl⟩ := ht
    exact .cons ⟨rfl, rfl, rfl, trivial⟩ ih

end Token.Results

/-- Tokens that were cut from texts are cut from the text that joins them. -/
theorem Token.Joined.pieces {ts : List Token} {text : String} (h : Joined ts text)
    (hts : ∀ t ∈ ts, t.FromPiece) :
    ∃ ps, ps.flatMap Piece.text = text.toList ∧ Piece.WellCut ps [] ∧
      ∀ line, Token.Results ts (Piece.results line ps) := by
  induction h with
  | nil => exact ⟨[], rfl, trivial, fun _ => .nil⟩
  | single t =>
    obtain ⟨p, htext, hvalid, htoken, hresults⟩ := (hts t List.mem_cons_self).exists_piece
    have hends : p.Ends [] := .of_delimited htoken delimited_nil
    refine ⟨[p], ?_, ⟨hvalid, hends, trivial⟩, fun line => ?_⟩
    · rw [List.flatMap_singleton, htext]
    · rw [hresults]
      exact .cons ⟨line, rfl⟩ .nil
  | @cons t spacing hspacing u ts text _ ih =>
    obtain ⟨ht, hts⟩ := List.forall_mem_cons.1 hts
    obtain ⟨p, hp, hvalid, htoken, hpresults⟩ := ht.exists_piece
    obtain ⟨ps, hps, hcut, hresults⟩ := ih hts
    obtain ⟨gaps, hnone, hgaps, hcutGaps⟩ := (hspacing.gap (ps.flatMap Piece.text ++ [])).pieces
    obtain ⟨c, cs, hcs, hc⟩ := hspacing.exists_cons
    have hends : p.Ends ((gaps ++ ps).flatMap Piece.text ++ []) := by
      rw [List.append_nil, List.flatMap_append, hgaps, hcs, List.cons_append]
      exact htoken.ends_of_isBlank hc _
    refine ⟨p :: (gaps ++ ps), ?_, ⟨hvalid, hends, hcutGaps.append hcut⟩, fun line => ?_⟩
    · rw [List.flatMap_cons, List.flatMap_append, hp, hgaps, hps, String.toList_append,
        String.toList_append, List.append_assoc]
    · show Token.Results _ (Piece.results line ([p] ++ (gaps ++ ps)))
      rw [Piece.results_append, hpresults, Piece.results_append,
        Piece.results_of_no_lexeme hnone, List.nil_append]
      exact .cons ⟨line, rfl⟩ (hresults _)

/-! ## Texts -/

theorem scan_of_cut {text : String} {ps : List Piece} (htext : ps.flatMap Piece.text = text.toList)
    (hcut : Piece.WellCut ps []) :
    scan text = ⟨Piece.tokens 1 ps ++ [.endOfText (newlines text + 1)], Piece.errors 1 ps⟩ := by
  have hpieces : Piece.cut text.toList = ps := by
    rw [← htext, Piece.cut_flatMap hcut]
  rw [scan_eq_scanFrom, scanFrom_eq, tokensFrom, errorsFrom, hpieces, Nat.add_comm]

/-- A text that joins tokens that were cut from texts is scanned as these. -/
theorem Token.Joined.scan_eq {ts : List Token} {text : String} (h : Joined ts text)
    (hts : ∀ t ∈ ts, t.FromPiece) :
    (scan text).errors = [] ∧ ∃ us, Forall₂ (Token.Moved fun _ _ => True) ts us ∧
      (scan text).tokens = us ++ [.endOfText (newlines text + 1)] := by
  obtain ⟨ps, htext, hcut, hresults⟩ := h.pieces hts
  rw [scan_of_cut htext hcut]
  exact ⟨(hresults 1).errors, _, (hresults 1).tokens, rfl⟩

/-- The lexeme of a token that was cut from a text is scanned as this token. -/
theorem Token.FromPiece.scan_lexeme {t : Token} (h : t.FromPiece) :
    scan t.lexeme = ⟨[{ t with line := 1 }, .endOfText (newlines t.lexeme + 1)], []⟩ := by
  obtain ⟨p, hp, hvalid, htoken, hresults⟩ := h.exists_piece
  have htext : [p].flatMap Piece.text = t.lexeme.toList := by
    rw [List.flatMap_singleton, hp]
  have hcut : Piece.WellCut [p] [] := ⟨hvalid, .of_delimited htoken delimited_nil, trivial⟩
  rw [scan_of_cut htext hcut, Piece.tokens, Piece.errors, hresults]
  rfl

/-- **The tokens of a text are scanned again from their texts**, with any white space between them:
no error is found, and the same tokens are, up to their lines. Each of them alone is scanned as this
one token. -/
theorem scan_joined (source : String) :
    ∃ ts l, (scan source).tokens = ts ++ [.endOfText l] ∧
      (∀ text, Token.Joined ts text →
        (scan text).errors = [] ∧ ∃ us, Forall₂ (Token.Moved fun _ _ => True) ts us ∧
          (scan text).tokens = us ++ [.endOfText (newlines text + 1)]) ∧
      ∀ t ∈ ts,
        scan t.lexeme = ⟨[{ t with line := 1 }, .endOfText (newlines t.lexeme + 1)], []⟩ := by
  have hfrom : ∀ t ∈ tokensFrom 1 source, t.FromPiece := fun t ht => fromPiece_of_mem ht
  refine ⟨tokensFrom 1 source, 1 + newlines source, ?_, ?_, ?_⟩
  · rw [scan_eq_scanFrom, scanFrom_eq]
  · exact fun text htext => htext.scan_eq hfrom
  · exact fun t ht => (hfrom t ht).scan_lexeme

/-- Two slashes with an error between them; with a space between them they are no comment. -/
theorem scan_joined_slashes :
    let slash : Token := ⟨.mark (.operator .slash), "/", none, 1⟩
    (scan "/@/").tokens = [slash, slash, .endOfText 1] ∧ Token.Joined [slash, slash] "/ /" ∧
    (scan "/ /").errors = [] ∧
    ∃ us, Forall₂ (Token.Moved fun _ _ => True) [slash, slash] us ∧
      (scan "/ /").tokens = us ++ [.endOfText 1] := by
  intro slash
  have hsource : (scan "/@/").tokens = [slash, slash, .endOfText 1] := by
    decide +kernel
  have hspace : IsSpacing " " := ⟨by decide, List.all_eq_true.1 (by decide)⟩
  have hjoined : Token.Joined [slash, slash] "/ /" := .cons slash hspace (.single slash)
  obtain ⟨ts, l, htokens, htexts, -⟩ := scan_joined "/@/"
  have heq : ts ++ [.endOfText l] = [slash, slash] ++ [.endOfText 1] := htokens.symm.trans hsource
  obtain ⟨rfl, -⟩ := List.append_inj' heq rfl
  exact ⟨hsource, hjoined, htexts _ hjoined⟩

end MiniLisp
