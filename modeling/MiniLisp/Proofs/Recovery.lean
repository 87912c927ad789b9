import Mathlib.Algebra.GroupWithZero.Nat
import Mathlib.Data.List.Induction
import MiniLisp.Proofs.Derivations

/-!
# Recovery

After an error nothing is read up to the next semicolon, and whatever is unfinished there is given
up. So semicolons divide tokens into segments that are read apart.

* `SyntaxError.Before` : an error, and what it is if a semicolon follows;
* `Reader.read_semicolon` : at a semicolon nothing stays unfinished;
* `LongestSpelled` : the longest tokens at the start that spell expressions;
* `Reader.InSegment` : what is read where no semicolon stands;
* `Expr.parse_semicolon`, `Expr.parse_segment`, `Expr.parse_segments` : two segments, one, and all;
* `Expr.parse_recovers` : the theorem.
-/

namespace MiniLisp

open List

/-! ## At a semicolon -/

/-- An error before the semicolon `semi`, as it is reported alone and before the semicolon: what is
missing at the end is reported at the semicolon. -/
inductive SyntaxError.Before (semi : Token) : SyntaxError → SyntaxError → Prop
  | same {e : SyntaxError} (he : e.location ≠ .atEnd) : Before semi e e
  | atEnd (l : Nat) (what what' : Expected) :
      Before semi ⟨l, .atEnd, .expected what⟩ (atToken semi (.expected what'))

theorem SyntaxError.location_atToken {t : Token} (ht : t.kind ≠ .endOfText) (cause : Cause) :
    (atToken t cause).location ≠ .atEnd := by
  show Location.ofToken t ≠ .atEnd
  rw [Location.ofToken, if_neg ht]
  exact nofun

theorem Move.onToken_semicolon (await : Await) (frames : List Frame) {semi : Token}
    (hsemi : semi.kind = .mark .semicolon) :
    (await.missing? frames = none ∧ onToken await frames semi = .skip) ∨
      ∃ what what', await.missing? frames = some what ∧
        onToken await frames semi = .fail (.expected what') := by
  cases await with
  | item =>
    simp only [onToken, onItem, hsemi]
    cases frames with
    | nil => exact .inl ⟨rfl, rfl⟩
    | cons frame outer => cases frame <;> exact .inr ⟨_, _, rfl, rfl⟩
  | definition | functionName | parameterList | parameters | definitionEnd =>
    simp only [onToken, hsemi]
    exact .inr ⟨_, _, rfl, rfl⟩

namespace Reader

theorem location_of_mem_errors {ts : List Token} (hts : ∀ t ∈ ts, t.kind ≠ .endOfText) {r : Reader}
    (hr : ∀ e ∈ r.errors, e.location ≠ .atEnd) :
    ∀ e ∈ (ts.foldl read r).errors, e.location ≠ .atEnd :=
  forall_errors (fun t ht => SyntaxError.location_atToken (hts t ht)) hr

/-- At a semicolon nothing stays unfinished, and what was missing is reported. -/
theorem read_semicolon {r : Reader} (hr : ∀ e ∈ r.errors, e.location ≠ .atEnd) {semi : Token}
    (hsemi : semi.kind = .mark .semicolon) (l : Nat) :
    ∃ errs, r.read semi = ⟨.start, r.expressions, errs.reverse⟩ ∧
      Forall₂ (SyntaxError.Before semi) (r.finish l).errors errs := by
  obtain ⟨mode, xs, errs⟩ := r
  have hsame : Forall₂ (SyntaxError.Before semi) errs errs :=
    forall₂_same.2 fun e he => .same (hr e he)
  cases mode with
  | skipping =>
    refine ⟨errs.reverse, ?_, forall₂_reverse_iff.2 hsame⟩
    rw [List.reverse_reverse]
    exact if_pos hsemi
  | reading await frames =>
    rcases Move.onToken_semicolon await frames hsemi with ⟨hmissing, hmove⟩ |
      ⟨what, what', hmissing, hmove⟩
    · obtain ⟨rfl, rfl⟩ := missing?_eq_none hmissing
      refine ⟨errs.reverse, ?_, forall₂_reverse_iff.2 hsame⟩
      rw [List.reverse_reverse]
      simp only [read, hmove, Mode.start]
    · refine ⟨(SyntaxError.atToken semi (.expected what') :: errs).reverse, ?_, ?_⟩
      · rw [List.reverse_reverse]
        simp only [read, hmove, hsemi, if_true]
      · simp only [finish, hmissing]
        exact forall₂_reverse_iff.2 (.cons (.atEnd l what what') hsame)

end Reader

theorem Expr.endLine_append {ts us : List Token} (hts : ∀ t ∈ ts, t.kind ≠ .endOfText)
    (hus : us ≠ []) : endLine (ts ++ us) = endLine us := by
  unfold endLine
  rw [List.find?_append, find?_endOfText hts, Option.none_or, List.getLast?_append_of_ne_nil ts hus]

theorem Expr.parse_semicolon {ts us : List Token} (hts : ∀ t ∈ ts, t.kind ≠ .endOfText)
    (hus : ∀ t ∈ us, t.kind ≠ .endOfText) {semi : Token} (hsemi : semi.kind = .mark .semicolon) :
    ∃ errs, parse (ts ++ semi :: us) =
        ⟨(parse ts).expressions ++ (parse us).expressions, errs ++ (parse us).errors⟩ ∧
      Forall₂ (SyntaxError.Before semi) (parse ts).errors errs := by
  have hne : semi.kind ≠ .endOfText := fun h => nomatch hsemi.symm.trans h
  have hall : ∀ t ∈ ts ++ semi :: us, t.kind ≠ .endOfText :=
    List.forall_mem_append.2 ⟨hts, List.forall_mem_cons.2 ⟨hne, hus⟩⟩
  obtain ⟨errs, hread, herrs⟩ :=
    Reader.read_semicolon (Reader.location_of_mem_errors hts (r := .start) nofun) hsemi (endLine ts)
  rw [← parse_unended hts] at herrs
  refine ⟨errs, ?_, herrs⟩
  have hend : (us.foldl Reader.read .start).finish (endLine (ts ++ semi :: us)) = parse us := by
    cases us with
    | nil => rfl
    | cons u us =>
      have hbefore : ∀ t ∈ ts ++ [semi], t.kind ≠ .endOfText :=
        List.forall_mem_append.2 ⟨hts, List.forall_mem_singleton.2 hne⟩
      rw [parse_unended hus, List.append_cons ts semi,
        endLine_append hbefore (List.cons_ne_nil u us)]
  have hafter : us.foldl Reader.read ((ts.foldl Reader.read .start).read semi) =
      (us.foldl Reader.read .start).following (ts.foldl Reader.read .start).expressions
        errs.reverse := by
    rw [hread, ← Reader.foldl_following]
    rfl
  rw [parse_unended hall, List.foldl_append, List.foldl_cons, hafter, Reader.finish_following, hend,
    List.reverse_reverse, parse_unended hts]
  rfl

/-! ## Inside a segment -/

/-- Tokens at the start of `ts` that spell expressions, as many as there are. -/
structure LongestSpelled (ts us : List Token) (es : List Expr) : Prop where
  starts : us <+: ts
  spells : Spells us es
  longest : ∀ us' es', us' <+: ts → Spells us' es' → us' <+: us

namespace LongestSpelled

theorem whole {ts : List Token} {es : List Expr} (h : Spells ts es) : LongestSpelled ts ts es :=
  ⟨List.prefix_refl ts, h, fun _ _ hstarts _ => hstarts⟩

theorem concat {ts us : List Token} {es : List Expr} (h : LongestSpelled ts us es) {t : Token}
    (ht : ∀ es', ¬ Spells (ts ++ [t]) es') : LongestSpelled (ts ++ [t]) us es := by
  refine ⟨h.starts.trans (List.prefix_append ts [t]), h.spells, ?_⟩
  intro us' es' hstarts hspells
  rcases List.prefix_concat_iff.1 hstarts with rfl | hstarts
  · exact absurd hspells (ht es')
  · exact h.longest us' es' hstarts hspells

theorem ne_concat {ts us : List Token} {es : List Expr} (h : LongestSpelled ts us es) (t : Token) :
    us ≠ ts ++ [t] := by
  rintro rfl
  have hlength := h.starts.length_le
  rw [List.length_append, List.length_singleton] at hlength
  omega

end LongestSpelled

namespace Reader

/-- What was read of the tokens `ts`, among which there is no semicolon. -/
inductive InSegment (ts : List Token) : Reader → Prop
  | reading {us vs : List Token} {xs : List Expr} {await : Await} {frames : List Frame}
      (hlongest : LongestSpelled ts us xs.reverse) (hts : ts = us ++ vs)
      (hvs : Awaits await frames vs) : InSegment ts ⟨.reading await frames, xs, []⟩
  | failed {us : List Token} {xs : List Expr} (hlongest : LongestSpelled ts us xs.reverse)
      (hus : us ≠ ts) (e : SyntaxError) : InSegment ts ⟨.skipping, xs, [e]⟩

/-- Where something is unfinished, or an error was, the tokens do not spell expressions. -/
theorem not_spells {ts : List Token} {r : Reader} (hr : ts.foldl read .start = r)
    (hmode : r.mode ≠ .start) (es : List Expr) : ¬ Spells ts es := by
  intro h
  rw [h.read_start] at hr
  subst hr
  exact hmode rfl

theorem InSegment.read {ts : List Token} {t : Token} {r : Reader} (h : InSegment ts r)
    (hr : (ts ++ [t]).foldl read .start = r.read t) (ht : t.kind ≠ .mark .semicolon) :
    InSegment (ts ++ [t]) (r.read t) := by
  cases h with
  | @failed us xs hlongest hus e =>
    have hskip : Reader.read ⟨.skipping, xs, [e]⟩ t = ⟨.skipping, xs, [e]⟩ := if_neg ht
    rw [hskip] at hr ⊢
    exact .failed (hlongest.concat (not_spells hr nofun)) (hlongest.ne_concat t) e
  | @reading us vs xs await frames hlongest hts hvs =>
    have hstep := read_step hvs t xs []
    generalize Reader.read ⟨.reading await frames, xs, []⟩ t = after at hstep hr ⊢
    cases hstep with
    | @go await' frames' hawaits =>
      -- tokens of an unfinished form would be read back to the start if they spelled expressions
      have hmode : Mode.reading await' frames' ≠ .start := by
        intro hstart
        cases hstart
        exact absurd hawaits.eq_nil (by simp)
      refine .reading (hlongest.concat (not_spells hr hmode)) ?_ hawaits
      rw [hts, List.append_assoc]
    | @emit e he =>
      refine .reading (.whole ?_) (List.append_nil _).symm (.item .nil)
      rw [hts, List.append_assoc]
      exact hlongest.spells.push he
    | skip _ hsemicolon => exact absurd hsemicolon ht
    | fail cause =>
      rw [if_neg ht] at hr ⊢
      exact .failed (hlongest.concat (not_spells hr nofun)) (hlongest.ne_concat t) _

/-- Without a semicolon at most one error is found, and what was read before it is all that there
is. -/
theorem inSegment {ts : List Token} (hts : ∀ t ∈ ts, t.kind ≠ .mark .semicolon) :
    InSegment ts (ts.foldl read .start) := by
  induction ts using List.reverseRecOn with
  | nil => exact .reading (.whole .nil) rfl (.item .nil)
  | append_singleton ts t ih =>
    obtain ⟨hts, ht⟩ := List.forall_mem_append.1 hts
    have hstep : (ts ++ [t]).foldl read .start = (ts.foldl read .start).read t :=
      List.foldl_concat ..
    rw [hstep]
    exact (ih hts).read hstep (ht t (List.mem_singleton_self t))

end Reader

/-- Where no semicolon stands, the longest tokens at the start that spell expressions are read, and
one error is reported if these are not all. -/
theorem Expr.parse_segment {ts : List Token} (hts : ∀ t ∈ ts, t.kind ≠ .endOfText)
    (hsemi : ∀ t ∈ ts, t.kind ≠ .mark .semicolon) :
    ∃ us, LongestSpelled ts us (parse ts).expressions ∧
      (parse ts).errors.length = if us = ts then 0 else 1 := by
  rw [parse_unended hts]
  have hsegment := Reader.inSegment hsemi
  generalize ts.foldl Reader.read .start = r at hsegment
  cases hsegment with
  | @failed us xs hlongest hus e => exact ⟨us, hlongest, (if_neg hus).symm⟩
  | @reading us vs xs await frames hlongest hus hvs =>
    refine ⟨us, hlongest, ?_⟩
    cases hmissing : await.missing? frames with
    | none =>
      obtain ⟨rfl, rfl⟩ := Reader.missing?_eq_none hmissing
      obtain rfl := hvs.eq_nil
      rw [hus, List.append_nil, if_pos rfl]
      rfl
    | some what =>
      have hne : us ≠ ts := by
        rintro rfl
        obtain rfl := List.self_eq_append_right.1 hus
        obtain ⟨rfl, rfl⟩ := hvs.eq_start
        exact nomatch hmissing
      rw [if_neg hne]
      simp only [Reader.finish, hmissing]
      rfl

/-! ## All segments -/

/-- Tokens in segments; each but the first follows a semicolon. -/
def segments (first : List Token) (rest : List (Token × List Token)) : List Token :=
  first ++ rest.flatMap fun s => s.1 :: s.2

theorem segments_cons (first : List Token) (semi : Token) (ts : List Token)
    (rest : List (Token × List Token)) :
    segments first ((semi, ts) :: rest) = first ++ semi :: segments ts rest := rfl

theorem segments_kind {first : List Token} {rest : List (Token × List Token)}
    (hfirst : ∀ t ∈ first, t.kind ≠ .endOfText)
    (hrest : ∀ s ∈ rest, s.1.kind = .mark .semicolon ∧ ∀ t ∈ s.2, t.kind ≠ .endOfText) :
    ∀ t ∈ segments first rest, t.kind ≠ .endOfText := by
  refine List.forall_mem_append.2 ⟨hfirst, ?_⟩
  intro t ht
  obtain ⟨s, hs, hts⟩ := List.mem_flatMap.1 ht
  obtain ⟨hsemi, hkind⟩ := hrest s hs
  rcases List.mem_cons.1 hts with rfl | hts
  · exact fun h => nomatch hsemi.symm.trans h
  · exact hkind t hts

/-- The expressions are those of the segments, each read alone, and there are as many errors. -/
theorem Expr.parse_segments {first : List Token} {rest : List (Token × List Token)}
    (hfirst : ∀ t ∈ first, t.kind ≠ .endOfText)
    (hrest : ∀ s ∈ rest, s.1.kind = .mark .semicolon ∧ ∀ t ∈ s.2, t.kind ≠ .endOfText) :
    (parse (segments first rest)).expressions =
        (parse first).expressions ++ rest.flatMap (fun s => (parse s.2).expressions) ∧
      (parse (segments first rest)).errors.length =
        (parse first).errors.length + (rest.map fun s => (parse s.2).errors.length).sum := by
  induction rest generalizing first with
  | nil =>
    rw [segments, List.flatMap_nil, List.append_nil, List.flatMap_nil, List.append_nil]
    exact ⟨rfl, rfl⟩
  | cons s rest ih =>
    obtain ⟨semi, ts⟩ := s
    obtain ⟨⟨hsemi, hts⟩, hrest⟩ := List.forall_mem_cons.1 hrest
    obtain ⟨hexpressions, herrors⟩ := ih hts hrest
    obtain ⟨errs, hparse, herrs⟩ := parse_semicolon hfirst (segments_kind hts hrest) hsemi
    rw [segments_cons, hparse]
    dsimp only
    rw [hexpressions, List.length_append, herrors, herrs.length_eq]
    exact ⟨rfl, rfl⟩

/-- **A semicolon ends every error.** Tokens on both sides of it are read apart; where there is
none, the longest tokens at the start that spell expressions are read, with one error if they are
not all; so the expressions of many segments are those of each. -/
theorem Expr.parse_recovers :
    (∀ (ts us : List Token) (semi : Token), (∀ t ∈ ts, t.kind ≠ .endOfText) →
      (∀ t ∈ us, t.kind ≠ .endOfText) → semi.kind = .mark .semicolon →
      ∃ errs, parse (ts ++ semi :: us) =
          ⟨(parse ts).expressions ++ (parse us).expressions, errs ++ (parse us).errors⟩ ∧
        Forall₂ (SyntaxError.Before semi) (parse ts).errors errs) ∧
    (∀ ts : List Token, (∀ t ∈ ts, t.kind ≠ .endOfText) → (∀ t ∈ ts, t.kind ≠ .mark .semicolon) →
      ∃ us, LongestSpelled ts us (parse ts).expressions ∧
        (parse ts).errors.length = if us = ts then 0 else 1) ∧
    ∀ (first : List Token) (rest : List (Token × List Token)),
      (∀ t ∈ first, t.kind ≠ .endOfText) →
      (∀ s ∈ rest, s.1.kind = .mark .semicolon ∧ ∀ t ∈ s.2, t.kind ≠ .endOfText) →
      (parse (segments first rest)).expressions =
          (parse first).expressions ++ rest.flatMap (fun s => (parse s.2).expressions) ∧
        (parse (segments first rest)).errors.length =
          (parse first).errors.length + (rest.map fun s => (parse s.2).errors.length).sum := by
  refine ⟨?_, ?_, ?_⟩
  · exact fun _ _ _ hts hus hsemi => parse_semicolon hts hus hsemi
  · exact fun _ hts hsemi => parse_segment hts hsemi
  · exact fun _ _ hfirst hrest => parse_segments hfirst hrest

/-- An unfinished call, and after the semicolon a stray parenthesis. -/
theorem Expr.parse_unfinished_then_stray :
    let ts := tokensFrom 1 "1 (f (+ 2 3)"
    let us := tokensFrom 2 "(g 4) ) 5"
    let semi : Token := ⟨.mark .semicolon, ";", none, 1⟩
    (parse (ts ++ semi :: us)).expressions.map Expr.text = ["1", "(g 4)"] ∧
      (parse (ts ++ semi :: us)).expressions = (parse ts).expressions ++ (parse us).expressions ∧
      (∃ vs, vs ≠ ts ∧ LongestSpelled ts vs (parse ts).expressions) ∧
      (parse (segments ts [(semi, us)])).errors.length = 2 := by
  intro ts us semi
  have hts := tokensFrom_kind 1 "1 (f (+ 2 3)"
  have hus := tokensFrom_kind 2 "(g 4) ) 5"
  obtain ⟨hboundary, hsegment, hsegments⟩ := parse_recovers
  obtain ⟨errs, hparse, -⟩ := hboundary ts us semi hts hus rfl
  obtain ⟨vs, hlongest, hlength⟩ := hsegment ts hts (by decide +kernel)
  obtain ⟨-, herrors⟩ := hsegments ts [(semi, us)] hts (List.forall_mem_singleton.2 ⟨rfl, hus⟩)
  have hone : (parse ts).errors.length = 1 ∧ (parse us).errors.length = 1 := by decide +kernel
  refine ⟨by decide +kernel, congrArg Parse.expressions hparse, ⟨vs, ?_, hlongest⟩, ?_⟩
  · intro hvs
    rw [if_pos hvs, hone.1] at hlength
    exact nomatch hlength
  · rw [herrors, hone.1, List.map_singleton, hone.2]
    rfl

end MiniLisp
