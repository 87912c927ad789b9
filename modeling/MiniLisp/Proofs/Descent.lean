import MiniLisp.Expr.Descent
import MiniLisp.Proofs.Grammar
import MiniLisp.Proofs.Reading

/-!
# Recursive descent reads the same

Reading by recursive descent ends, and never looks past the end of the text. Both follow from one
comparison: whatever a function of the parser does to the tokens that it goes through, the reader
that takes one token at a time does too.

* `Cursor.at`, `Stands` : a cursor that has come to a place one token at a time;
* `Runs` : what a parser does to the tokens before the end of the text, compared with the reader;
  its rules are `Runs.bind`, `Runs.map` and one for each step of the cursor;
* `ReadsOne` : parsers that read one expression, `readsOne_expression` : the parser with as many
  turns as there are tokens;
* `Reader.Bounded` : errors are as rare as semicolons;
* `Expr.descend_total` : the theorem.
-/

namespace MiniLisp

/-! ## The cursor -/

/-- The cursor at place `i`, to which it has come from the first token, one token at a time. -/
def Cursor.at (i : Nat) : Cursor := ⟨i, (List.range i).reverse⟩

theorem Cursor.next_at (i : Nat) : (Cursor.at i).next = .at (i + 1) := by
  show (⟨i + 1, i :: (List.range i).reverse⟩ : Cursor) = ⟨i + 1, (List.range (i + 1)).reverse⟩
  rw [List.range_succ, List.reverse_append]
  rfl

/-- Are the tokens from the cursor on `rest`? -/
def Stands (tokens : List Token) (c : Cursor) (rest : List Token) : Prop :=
  ∃ before, tokens = before ++ rest ∧ c = .at before.length

namespace Parser

section Cursor

variable {tokens rest : List Token} {c : Cursor} {t : Token} (h : Stands tokens c (t :: rest))
include h

theorem stands_next : Stands tokens c.next rest := by
  obtain ⟨before, rfl, rfl⟩ := h
  refine ⟨before ++ [t], by simp, ?_⟩
  rw [Cursor.next_at, List.length_append]
  rfl

theorem peek_eq : peek tokens c = .done t c := by
  obtain ⟨before, rfl, rfl⟩ := h
  have hget : (before ++ t :: rest)[before.length]? = some t := by simp
  have hcurrent : (Cursor.at before.length).current = before.length := rfl
  simp only [peek, hcurrent, hget]

theorem isAtEnd_eq : isAtEnd tokens c = .done (t.kind == .endOfText) c := by
  show (peek tokens c).bind _ = _
  rw [peek_eq h]
  rfl

theorem advance_eq (ht : t.kind ≠ .endOfText) : advance tokens c = .done t c.next := by
  show (peek tokens c).bind _ = _
  rw [peek_eq h]
  show (isAtEnd tokens c).bind _ = _
  rw [isAtEnd_eq h, beq_false_of_ne ht]
  rfl

variable {kind : Kind} (hkind : kind ≠ .endOfText)
include hkind

theorem check_eq : check kind tokens c = .done (t.kind == kind) c := by
  show (isAtEnd tokens c).bind _ = _
  rw [isAtEnd_eq h]
  by_cases ht : t.kind = .endOfText
  · rw [ht, beq_self_eq_true, beq_false_of_ne hkind.symm]
    rfl
  · rw [beq_false_of_ne ht]
    show (peek tokens c).bind _ = _
    rw [peek_eq h]
    rfl

theorem matchKind_eq (ht : t.kind = kind) : matchKind kind tokens c = .done true c.next := by
  show (check kind tokens c).bind _ = _
  rw [check_eq h hkind, ht, beq_self_eq_true]
  show (advance tokens c).bind _ = _
  rw [advance_eq h (ht ▸ hkind)]
  rfl

theorem matchKind_of_ne (ht : t.kind ≠ kind) : matchKind kind tokens c = .done false c := by
  show (check kind tokens c).bind _ = _
  rw [check_eq h hkind, beq_false_of_ne ht]
  rfl

theorem consume_eq (ht : t.kind = kind) (what : Expected) :
    consume kind what tokens c = .done t c.next := by
  show (check kind tokens c).bind _ = _
  rw [check_eq h hkind, ht, beq_self_eq_true]
  exact advance_eq h (ht ▸ hkind)

theorem consume_of_ne (ht : t.kind ≠ kind) (what : Expected) :
    consume kind what tokens c = .failed (.atToken t (.expected what)) c := by
  show (check kind tokens c).bind _ = _
  rw [check_eq h hkind, beq_false_of_ne ht]
  show (peek tokens c).bind _ = _
  rw [peek_eq h]
  rfl

end Cursor

end Parser

/-! ## Parsers and the reader -/

section Runs

variable (last : Token) (after : List Token)

/-- What is left of the tokens `rest`, after which `last` and `after` stand, and what the reader
`r` makes of those that were read. If the parser has failed, the reader ends as if it skipped what
is left, with this error. -/
def Leaves {α : Type} (tokens rest : List Token) (r : Reader)
    (A : α → List Token → Reader → Prop) : Descent α → Prop
  | .done a c => ∃ used left, rest = used ++ left ∧ Stands tokens c (left ++ last :: after) ∧
      A a left (used.foldl Reader.read r)
  | .failed e c => ∃ left, left <:+ rest ∧ Stands tokens c (left ++ last :: after) ∧
      (rest.foldl Reader.read r).finish last.line =
        (left.foldl Reader.read ⟨.skipping, [], [e]⟩).finish last.line
  | .outOfBounds | .exhausted => False

/-- Wherever `rest` stands before the end `last` of the text, the parser reads some of it, and the
reader is then as `A` says; or it fails as the reader does. -/
def Runs {α : Type} (x : Parser α) (rest : List Token) (r : Reader)
    (A : α → List Token → Reader → Prop) : Prop :=
  ∀ tokens c, Stands tokens c (rest ++ last :: after) →
    Leaves last after tokens rest r A (x tokens c)

variable {last after}

namespace Runs

variable {α β : Type} {x y : Parser α} {rest : List Token} {r : Reader}
  {A : α → List Token → Reader → Prop}

theorem pure {a : α} (h : A a rest r) : Runs last after (Pure.pure a) rest r A :=
  fun _ _ hc => ⟨[], rest, rfl, hc, h⟩

theorem bind {f : α → Parser β} {B : β → List Token → Reader → Prop}
    (hx : Runs last after x rest r A)
    (hf : ∀ a left r', left <:+ rest → A a left r' → Runs last after (f a) left r' B) :
    Runs last after (x >>= f) rest r B := by
  intro tokens c hc
  have hleaves := hx tokens c hc
  show Leaves last after tokens rest r B ((x tokens c).bind fun a => f a tokens)
  cases ho : x tokens c with
  | outOfBounds | exhausted | failed =>
    rw [ho] at hleaves
    exact hleaves
  | done a c' =>
    rw [ho] at hleaves
    obtain ⟨used, left, rfl, hc', ha⟩ := hleaves
    have hleaves' := hf a left _ (List.suffix_append used left) ha tokens c' hc'
    show Leaves last after tokens (used ++ left) r B (f a tokens c')
    cases ho' : f a tokens c' with
    | outOfBounds | exhausted =>
      rw [ho'] at hleaves'
      exact hleaves'
    | done b c'' =>
      rw [ho'] at hleaves'
      obtain ⟨used', left', rfl, hc'', hb⟩ := hleaves'
      refine ⟨used ++ used', left', (List.append_assoc ..).symm, hc'', ?_⟩
      rw [List.foldl_append]
      exact hb
    | failed e c'' =>
      rw [ho'] at hleaves'
      obtain ⟨left', hleft', hc'', hfinish⟩ := hleaves'
      refine ⟨left', hleft'.trans (List.suffix_append used left), hc'', ?_⟩
      rw [List.foldl_append]
      exact hfinish

theorem mono {B : α → List Token → Reader → Prop} (hx : Runs last after x rest r A)
    (h : ∀ a left r', left <:+ rest → A a left r' → B a left r') :
    Runs last after x rest r B := by
  intro tokens c hc
  have hleaves := hx tokens c hc
  cases ho : x tokens c with
  | outOfBounds | exhausted | failed =>
    rw [ho] at hleaves
    exact hleaves
  | done a c' =>
    rw [ho] at hleaves
    obtain ⟨used, left, rfl, hc', ha⟩ := hleaves
    exact ⟨used, left, rfl, hc', h a left _ (List.suffix_append used left) ha⟩

end Runs

end Runs

/-! ## Steps of the cursor -/

namespace Reader

variable {await : Await} {frames : List Frame}

/-- Where a token does not fit, the reader skips with an error at it. -/
theorem foldl_of_fail {t : Token} {cause : SyntaxError.Cause}
    (h : Move.onToken await frames t = .fail cause) (left : List Token) :
    (t :: left).foldl read ⟨.reading await frames, [], []⟩ =
      (t :: left).foldl read ⟨.skipping, [], [.atToken t cause]⟩ := by
  rw [List.foldl_cons, List.foldl_cons]
  congr 1
  simp only [read, h]
  split <;> rfl

/-- Where something is missing, the reader ends with an error at the end of the text. -/
theorem finish_of_missing {what : Expected} (h : await.missing? frames = some what) {last : Token}
    (hlast : last.kind = .endOfText) :
    (⟨.reading await frames, [], []⟩ : Reader).finish last.line =
      (⟨.skipping, [], [.atToken last (.expected what)]⟩ : Reader).finish last.line := by
  simp only [finish, h, SyntaxError.atToken, Location.ofToken, hlast, if_true]
  rfl

end Reader

section Steps

variable {last : Token} {after : List Token} {α : Type} {x y : Parser α} {rest : List Token}
  {r : Reader} {A : α → List Token → Reader → Prop}

theorem Leaves.cons {tokens : List Token} {t : Token} {d : Descent α}
    (h : Leaves last after tokens rest (r.read t) A d) :
    Leaves last after tokens (t :: rest) r A d := by
  cases d with
  | outOfBounds | exhausted => exact h
  | done a c =>
    obtain ⟨used, left, rfl, hc, ha⟩ := h
    exact ⟨t :: used, left, rfl, hc, ha⟩
  | failed e c =>
    obtain ⟨left, hleft, hc, hfinish⟩ := h
    exact ⟨left, hleft.trans (List.suffix_cons t rest), hc, hfinish⟩

namespace Runs

variable (hlast : last.kind = .endOfText)
include hlast

theorem ifMatch {kind : Kind} (hkind : kind ≠ .endOfText)
    (hyes : ∀ t left, rest = t :: left → t.kind = kind → Runs last after x left (r.read t) A)
    (hno : (∀ t left, rest = t :: left → t.kind ≠ kind) → Runs last after y rest r A) :
    Runs last after (do if ← Parser.matchKind kind then x else y) rest r A := by
  intro tokens c hc
  show Leaves last after tokens rest r A ((Parser.matchKind kind tokens c).bind _)
  cases rest with
  | nil =>
    rw [Parser.matchKind_of_ne hc hkind (hlast ▸ hkind.symm)]
    exact hno nofun tokens c hc
  | cons t left =>
    by_cases ht : t.kind = kind
    · rw [Parser.matchKind_eq hc hkind ht]
      exact (hyes t left rfl ht tokens c.next (Parser.stands_next hc)).cons
    · rw [Parser.matchKind_of_ne hc hkind ht]
      refine hno ?_ tokens c hc
      rintro _ _ ⟨⟩
      exact ht

theorem ifCheck {kind : Kind} (hkind : kind ≠ .endOfText)
    (hyes : (∃ t left, rest = t :: left ∧ t.kind = kind) → Runs last after x rest r A)
    (hno : (∀ t left, rest = t :: left → t.kind ≠ kind) → Runs last after y rest r A) :
    Runs last after (do if ← Parser.check kind then x else y) rest r A := by
  intro tokens c hc
  show Leaves last after tokens rest r A ((Parser.check kind tokens c).bind _)
  cases rest with
  | nil =>
    rw [Parser.check_eq hc hkind, beq_false_of_ne (hlast ▸ hkind.symm)]
    exact hno nofun tokens c hc
  | cons t left =>
    rw [Parser.check_eq hc hkind]
    by_cases ht : t.kind = kind
    · rw [ht, beq_self_eq_true]
      exact hyes ⟨t, left, rfl, ht⟩ tokens c hc
    · rw [beq_false_of_ne ht]
      refine hno ?_ tokens c hc
      rintro _ _ ⟨⟩
      exact ht

theorem ifAtEnd (hrest : ∀ t ∈ rest, t.kind ≠ .endOfText)
    (hyes : rest = [] → Runs last after x rest r A)
    (hno : rest ≠ [] → Runs last after y rest r A) :
    Runs last after (do if ← Parser.isAtEnd then x else y) rest r A := by
  intro tokens c hc
  show Leaves last after tokens rest r A ((Parser.isAtEnd tokens c).bind _)
  cases rest with
  | nil =>
    rw [Parser.isAtEnd_eq hc, hlast]
    exact hyes rfl tokens c hc
  | cons t left =>
    rw [Parser.isAtEnd_eq hc, beq_false_of_ne (hrest t List.mem_cons_self)]
    exact hno (List.cons_ne_nil t left) tokens c hc

/-- A token that must be of a kind is read, or the reader fails at it too. -/
theorem consume {kind : Kind} (hkind : kind ≠ .endOfText) {what : Expected} {await : Await}
    {frames : List Frame}
    (hfail : ∀ t left, rest = t :: left → t.kind ≠ kind →
      Move.onToken await frames t = .fail (.expected what))
    (hmissing : await.missing? frames = some what) :
    Runs last after (Parser.consume kind what) rest ⟨.reading await frames, [], []⟩
      fun t left r' => rest = t :: left ∧ t.kind = kind ∧
        r' = Reader.read ⟨.reading await frames, [], []⟩ t := by
  intro tokens c hc
  cases rest with
  | nil =>
    rw [Parser.consume_of_ne hc hkind (hlast ▸ hkind.symm)]
    exact ⟨[], List.suffix_refl [], hc, Reader.finish_of_missing hmissing hlast⟩
  | cons t left =>
    by_cases ht : t.kind = kind
    · rw [Parser.consume_eq hc hkind ht]
      exact ⟨[t], left, rfl, Parser.stands_next hc, rfl, ht, rfl⟩
    · rw [Parser.consume_of_ne hc hkind ht]
      refine ⟨t :: left, List.suffix_refl _, hc, ?_⟩
      rw [Reader.foldl_of_fail (hfail t left rfl ht)]

end Runs

end Steps

/-! ## Forms -/

/-- Must an expression be read here, so that the reader fails if there is none? -/
def Frame.NeedItem (frames : List Frame) : List Token → Prop
  | [] => Await.item.missing? frames = some .expression
  | t :: _ => (t.kind = .mark .rightParen → Frame.close frames = .fail (.expected .expression)) ∧
      (t.kind = .mark .semicolon → frames ≠ [])

theorem Frame.needItem_opened (outer : List Frame) (rest : List Token) :
    NeedItem (.opened :: outer) rest := by
  cases rest with
  | nil => rfl
  | cons t left => exact ⟨fun _ => rfl, fun _ => List.cons_ne_nil _ _⟩

theorem Frame.needItem_body (name : Token) (params : List Token) (outer : List Frame)
    (rest : List Token) : NeedItem (.body name params :: outer) rest := by
  cases rest with
  | nil => rfl
  | cons t left => exact ⟨fun _ => rfl, fun _ => List.cons_ne_nil _ _⟩

theorem Reader.accept_inside {frame : Frame} {outer : List Frame}
    (h : Frame.InSequence (frame :: outer)) (e : Expr) : ∃ frame',
      Frame.InSequence (frame' :: outer) ∧
        accept ⟨.reading .item (frame :: outer), [], []⟩ e =
          ⟨.reading .item (frame' :: outer), [], []⟩ := by
  cases frame with
  | call name args => exact ⟨.call name (e :: args), trivial, rfl⟩
  | list head tail => exact ⟨.list head (e :: tail), trivial, rfl⟩
  | opened | body => exact h.elim

section Forms

variable (last : Token) (after : List Token)

/-- Does the parser read one expression of fewer than `n` tokens, as the reader does? -/
def ReadsOne (n : Nat) (x : Parser Expr) : Prop :=
  ∀ rest, rest.length < n → (∀ t ∈ rest, t.kind ≠ .endOfText) →
    ∀ frames, Frame.NeedItem frames rest →
      Runs last after x rest ⟨.reading .item frames, [], []⟩ fun e left r' =>
        left.length < rest.length ∧ r' = Reader.accept ⟨.reading .item frames, [], []⟩ e

variable {last after} (hlast : last.kind = .endOfText)
include hlast

theorem runs_atom {rest : List Token} (hrest : ∀ t ∈ rest, t.kind ≠ .endOfText)
    (hparen : ∀ t left, rest = t :: left → t.kind ≠ .mark .leftParen) {frames : List Frame}
    (hneed : Frame.NeedItem frames rest) :
    Runs last after Parser.atom rest ⟨.reading .item frames, [], []⟩ fun e left r' =>
      left.length < rest.length ∧ r' = Reader.accept ⟨.reading .item frames, [], []⟩ e := by
  intro tokens c hc
  show Leaves last after tokens rest _ _ ((Parser.peek tokens c).bind _)
  cases rest with
  | nil =>
    rw [Parser.peek_eq hc]
    simp only [Descent.bind, hlast]
    exact ⟨[], List.suffix_refl [], hc, Reader.finish_of_missing hneed hlast⟩
  | cons t left =>
    have hend := hrest t List.mem_cons_self
    have hadvance := Parser.advance_eq hc hend
    have hone {e : Expr} (he : Expr.ofToken t = .ok e) : Leaves last after tokens (t :: left)
        ⟨.reading .item frames, [], []⟩ (fun e left' r' => left'.length < (t :: left).length ∧
          r' = Reader.accept ⟨.reading .item frames, [], []⟩ e) (.done e c.next) :=
      ⟨[t], left, rfl, Parser.stands_next hc, Nat.lt_succ_self _, Reader.read_token _ _ _ he⟩
    have hnone (hfail : Move.onToken .item frames t = .fail (.expected .expression)) :
        Leaves last after tokens (t :: left)
          ⟨.reading .item frames, [], []⟩ (fun e left' r' => left'.length < (t :: left).length ∧
            r' = Reader.accept ⟨.reading .item frames, [], []⟩ e)
          (.failed (.atToken t (.expected .expression)) c) := by
      refine ⟨t :: left, List.suffix_refl _, hc, ?_⟩
      rw [Reader.foldl_of_fail hfail]
    rw [Parser.peek_eq hc]
    obtain ⟨kind, lexeme, literal?, line⟩ := t
    cases kind with
    | keyword | symbol =>
      show Leaves last after tokens _ _ _ ((Parser.advance tokens c).bind _)
      rw [hadvance]
      exact hone rfl
    | endOfText => exact absurd rfl hend
    | mark m =>
      cases m with
      | leftParen => exact absurd rfl (hparen _ _ rfl)
      | rightParen => exact hnone (hneed.1 rfl)
      | dot => exact hnone rfl
      | operator =>
        show Leaves last after tokens _ _ _ ((Parser.advance tokens c).bind _)
        rw [hadvance]
        exact hone rfl
      | semicolon =>
        refine hnone ?_
        cases frames with
        | nil => exact absurd rfl (hneed.2 rfl)
        | cons => rfl
    | number | string =>
      show Leaves last after tokens _ _ _ ((Parser.advance tokens c).bind _)
      rw [hadvance]
      cases literal? with
      | some value => exact hone rfl
      -- the reader skips from this token on, the cursor is behind it
      | none => exact ⟨left, List.suffix_cons _ left, Parser.stands_next hc, rfl⟩

theorem runs_parameters (turns : Nat) {rest : List Token} (hturns : rest.length < turns)
    (name : Token) (ps : List Token) (outer : List Frame) :
    Runs last after (Parser.parameters turns) rest ⟨.reading (.parameters name ps) outer, [], []⟩
      fun params _ r' =>
        r' = ⟨.reading .item (.body name (ps.reverse ++ params) :: outer), [], []⟩ := by
  induction turns generalizing rest ps with
  | zero => exact absurd hturns (Nat.not_lt_zero _)
  | succ turns ih =>
    refine .ifMatch hlast nofun (fun t left _ ht => ?_) fun hno => ?_
    · refine .pure ?_
      rw [List.append_nil]
      exact Reader.read_go _ _ _ _ (by simp only [Move.onToken, ht])
    · have hfail (t : Token) (left : List Token) (hrest : rest = t :: left)
          (ht : t.kind ≠ .symbol) :
          Move.onToken (.parameters name ps) outer t = .fail (.expected .parameter) := by
        have hno := hno t left hrest
        simp only [Move.onToken]
      refine .bind (.consume hlast (by decide) hfail rfl) fun p left r' hleft hp => ?_
      obtain ⟨rfl, hp, rfl⟩ := hp
      have hread : Reader.read ⟨.reading (.parameters name ps) outer, [], []⟩ p =
          ⟨.reading (.parameters name (p :: ps)) outer, [], []⟩ :=
        Reader.read_go _ _ _ _ (by simp only [Move.onToken, hp])
      rw [hread]
      refine .bind (ih (Nat.lt_of_succ_lt_succ hturns) (p :: ps)) fun params _ r' _ hr' => .pure ?_
      rw [hr', List.reverse_cons, List.append_assoc]
      rfl

theorem runs_untilRightParen {n : Nat} {x : Parser Expr} (hx : ReadsOne last after n x)
    (turns : Nat) {rest : List Token} (hturns : rest.length < turns) (hn : rest.length < n)
    (hrest : ∀ t ∈ rest, t.kind ≠ .endOfText) {frame : Frame} {outer : List Frame}
    (hinside : Frame.InSequence (frame :: outer)) :
    Runs last after (Parser.untilRightParen x turns) rest
      ⟨.reading .item (frame :: outer), [], []⟩ fun es left r' =>
        r' = es.foldl Reader.accept ⟨.reading .item (frame :: outer), [], []⟩ ∧
          ∀ t left', left = t :: left' → t.kind = .mark .rightParen := by
  induction turns generalizing rest frame with
  | zero => exact absurd hturns (Nat.not_lt_zero _)
  | succ turns ih =>
    refine .ifCheck hlast (by decide) ?_ fun hno => .ifAtEnd hlast hrest ?_ fun hne => ?_
    · rintro ⟨t, left, rfl, ht⟩
      refine .pure ⟨rfl, ?_⟩
      rintro _ _ ⟨⟩
      exact ht
    · rintro rfl
      exact .pure ⟨rfl, nofun⟩
    · have hneed : Frame.NeedItem (frame :: outer) rest := by
        cases rest with
        | nil => exact absurd rfl hne
        | cons t left => exact ⟨fun ht => absurd ht (hno t left rfl), fun _ => List.cons_ne_nil _ _⟩
      refine .bind (hx rest hn hrest _ hneed) fun e left r' hleft he => ?_
      obtain ⟨hlength, rfl⟩ := he
      obtain ⟨frame', hinside', haccept⟩ := Reader.accept_inside hinside e
      rw [haccept]
      have hleftrest : ∀ t ∈ left, t.kind ≠ .endOfText := fun t ht => hrest t (hleft.subset ht)
      refine .bind (ih (by omega) (by omega) hleftrest hinside') fun es left' r' _ hes => .pure ?_
      rw [List.foldl_cons, haccept]
      exact hes

/-- Expressions inside the form that `frame` leaves unfinished, and the parenthesis that closes
it. -/
theorem runs_closed {n : Nat} {x : Parser Expr} (hx : ReadsOne last after n x) {turns : Nat}
    {rest : List Token} (hturns : rest.length < turns) (hn : rest.length < n)
    (hrest : ∀ t ∈ rest, t.kind ≠ .endOfText) {frame : List Expr → Frame} {form : List Expr → Expr}
    {what : Expected} {outer : List Frame} (hinside : Frame.InSequence (frame [] :: outer))
    (haccept : ∀ es : List Expr,
      es.foldl Reader.accept ⟨.reading .item (frame [] :: outer), [], []⟩ =
        ⟨.reading .item (frame es.reverse :: outer), [], []⟩)
    (hmissing : ∀ es, Await.item.missing? (frame es :: outer) = some what)
    (hclose : ∀ es rp, rp.kind = .mark .rightParen →
      Reader.read ⟨.reading .item (frame es :: outer), [], []⟩ rp =
        Reader.accept ⟨.reading .item outer, [], []⟩ (form es.reverse)) :
    Runs last after
      (do
        let es ← Parser.untilRightParen x turns
        let _ ← Parser.consume (.mark .rightParen) what
        return form es)
      rest ⟨.reading .item (frame [] :: outer), [], []⟩ fun e _ r' =>
        r' = Reader.accept ⟨.reading .item outer, [], []⟩ e := by
  refine .bind (runs_untilRightParen hlast hx turns hturns hn hrest hinside)
    fun es left r' _ hes => ?_
  obtain ⟨rfl, hparen⟩ := hes
  rw [haccept]
  have hfail (t : Token) (left' : List Token) (hleft : left = t :: left')
      (ht : t.kind ≠ .mark .rightParen) :
      Move.onToken .item (frame es.reverse :: outer) t = .fail (.expected what) :=
    absurd (hparen t left' hleft) ht
  refine .bind (.consume hlast (by decide) hfail (hmissing _)) fun rp _ r' _ hrp => .pure ?_
  obtain ⟨-, hrp, rfl⟩ := hrp
  rw [hclose _ rp hrp, List.reverse_reverse]

theorem runs_functionCall {n : Nat} {x : Parser Expr} (hx : ReadsOne last after n x)
    {turns : Nat} {rest : List Token} (hturns : rest.length < turns) (hn : rest.length < n)
    (hrest : ∀ t ∈ rest, t.kind ≠ .endOfText) (name : Token) (outer : List Frame) :
    Runs last after (Parser.functionCall x turns name) rest
      ⟨.reading .item (.call name [] :: outer), [], []⟩ fun e _ r' =>
        r' = Reader.accept ⟨.reading .item outer, [], []⟩ e := by
  refine runs_closed hlast hx hturns hn hrest trivial (fun es => ?_) (fun _ => rfl)
    fun es rp hrp => Reader.read_callEnd _ _ _ hrp name es
  rw [Reader.accept_args, List.append_nil]

theorem runs_plainList {n : Nat} {x : Parser Expr} (hx : ReadsOne last after n x)
    {turns : Nat} {rest : List Token} (hturns : rest.length < turns) (hn : rest.length < n)
    (hrest : ∀ t ∈ rest, t.kind ≠ .endOfText) (head : Expr) (outer : List Frame) :
    Runs last after (Parser.plainList x turns head) rest
      ⟨.reading .item (.list head [] :: outer), [], []⟩ fun e _ r' =>
        r' = Reader.accept ⟨.reading .item outer, [], []⟩ e := by
  refine runs_closed hlast hx hturns hn hrest trivial (fun es => ?_) (fun _ => rfl)
    fun es rp hrp => Reader.read_listEnd _ _ _ hrp head es
  rw [Reader.accept_elements, List.append_nil]

theorem runs_header {turns : Nat} {rest : List Token} (hturns : rest.length < turns)
    (outer : List Frame) :
    Runs last after (Parser.header turns) rest ⟨.reading .definition outer, [], []⟩
      fun h _ r' => r' = ⟨.reading .item (.body h.1 h.2 :: outer), [], []⟩ := by
  have hparameters {left : List Token} (hleft : left <:+ rest) (name : Token) :
      Runs last after (Parser.parameters turns >>= fun params => pure (name, params)) left
        ⟨.reading (.parameters name []) outer, [], []⟩
        fun h _ r' => r' = ⟨.reading .item (.body h.1 h.2 :: outer), [], []⟩ := by
    have hlength := hleft.length_le
    refine .bind (runs_parameters hlast turns (by omega) name [] outer) fun params _ r' _ hr' => ?_
    exact .pure hr'
  refine .ifMatch hlast (by decide) (fun lp left hrest hlp => ?_) fun hno => ?_
  · have hread : Reader.read ⟨.reading .definition outer, [], []⟩ lp =
        ⟨.reading .functionName outer, [], []⟩ :=
      Reader.read_go _ _ _ _ (by simp only [Move.onToken, hlp])
    rw [hread]
    have hfail (t : Token) (left' : List Token) (_ : left = t :: left') (ht : t.kind ≠ .symbol) :
        Move.onToken .functionName outer t = .fail (.expected .functionName) := by
      simp only [Move.onToken]
    refine .bind (.consume hlast (by decide) hfail rfl) fun name left' r' hleft hname => ?_
    obtain ⟨-, hname, rfl⟩ := hname
    have hread : Reader.read ⟨.reading .functionName outer, [], []⟩ name =
        ⟨.reading (.parameters name []) outer, [], []⟩ :=
      Reader.read_go _ _ _ _ (by simp only [Move.onToken, hname])
    rw [hread]
    exact hparameters (hleft.trans (hrest ▸ List.suffix_cons lp left)) name
  · have hfail (t : Token) (left : List Token) (hrest : rest = t :: left) (ht : t.kind ≠ .symbol) :
        Move.onToken .definition outer t = .fail (.expected .functionName) := by
      have hno := hno t left hrest
      simp only [Move.onToken]
    refine .bind (.consume hlast (by decide) hfail rfl) fun name left r' hleft hname => ?_
    obtain ⟨-, hname, rfl⟩ := hname
    have hread : Reader.read ⟨.reading .definition outer, [], []⟩ name =
        ⟨.reading (.parameterList name) outer, [], []⟩ :=
      Reader.read_go _ _ _ _ (by simp only [Move.onToken, hname])
    have hfail' (t : Token) (left' : List Token) (_ : left = t :: left')
        (ht : t.kind ≠ .mark .leftParen) :
        Move.onToken (.parameterList name) outer t = .fail (.expected .parameterList) := by
      simp only [Move.onToken]
    rw [hread]
    refine .bind (.consume hlast (by decide) hfail' rfl) fun lp left' r' hleft' hlp => ?_
    obtain ⟨-, hlp, rfl⟩ := hlp
    have hread : Reader.read ⟨.reading (.parameterList name) outer, [], []⟩ lp =
        ⟨.reading (.parameters name []) outer, [], []⟩ :=
      Reader.read_go _ _ _ _ (by simp only [Move.onToken, hlp])
    rw [hread]
    exact hparameters (hleft'.trans hleft) name

theorem runs_functionDefinition {n : Nat} {x : Parser Expr} (hx : ReadsOne last after n x)
    {turns : Nat} {rest : List Token} (hturns : rest.length < turns) (hn : rest.length < n)
    (hrest : ∀ t ∈ rest, t.kind ≠ .endOfText) (outer : List Frame) :
    Runs last after (Parser.functionDefinition x turns) rest
      ⟨.reading .definition outer, [], []⟩ fun e _ r' =>
        r' = Reader.accept ⟨.reading .item outer, [], []⟩ e := by
  refine .bind (runs_header hlast hturns outer) fun h left r' hleft hr' => ?_
  obtain ⟨name, params⟩ := h
  subst hr'
  have hlength := hleft.length_le
  have hleftrest : ∀ t ∈ left, t.kind ≠ .endOfText := fun t ht => hrest t (hleft.subset ht)
  refine .bind (hx left (by omega) hleftrest _ (Frame.needItem_body name params outer left))
    fun body left' r' _ hbody => ?_
  obtain ⟨-, rfl⟩ := hbody
  have haccept : Reader.accept ⟨.reading .item (.body name params :: outer), [], []⟩ body =
      ⟨.reading (.definitionEnd name params body) outer, [], []⟩ := rfl
  rw [haccept]
  refine .bind (.consume hlast (by decide) (fun t _ _ ht => ?_) rfl) fun t _ r' _ ht => .pure ?_
  · simp only [Move.onToken]
  · obtain ⟨-, ht, rfl⟩ := ht
    exact Reader.read_definitionEnd _ _ _ ht name params body

/-- What follows an opening parenthesis: the head decides how it goes on. -/
theorem runs_list {n : Nat} {x : Parser Expr} (hx : ReadsOne last after n x) {turns : Nat}
    {rest : List Token} (hturns : rest.length < turns) (hn : rest.length < n)
    (hrest : ∀ t ∈ rest, t.kind ≠ .endOfText) (outer : List Frame) :
    Runs last after (Parser.list x turns) rest ⟨.reading .item (.opened :: outer), [], []⟩
      fun e _ r' => r' = Reader.accept ⟨.reading .item outer, [], []⟩ e := by
  refine .bind (hx rest hn hrest _ (Frame.needItem_opened outer rest))
    fun head left r' hleft hr' => ?_
  obtain ⟨hlength, rfl⟩ := hr'
  have hleftrest : ∀ t ∈ left, t.kind ≠ .endOfText := fun t ht => hrest t (hleft.subset ht)
  have hplain (hhead : head.HeadsList) :
      Runs last after (Parser.plainList x turns head) left
        (Reader.accept ⟨.reading .item (.opened :: outer), [], []⟩ head)
        fun e _ r' => r' = Reader.accept ⟨.reading .item outer, [], []⟩ e := by
    have haccept : Reader.accept ⟨.reading .item (.opened :: outer), [], []⟩ head =
        ⟨.reading .item (.list head [] :: outer), [], []⟩ :=
      Reader.accept_go _ _ _ _ (Frame.ofHead_of_headsList hhead outer)
    rw [haccept]
    exact runs_plainList hlast hx (by omega) (by omega) hleftrest head outer
  cases head with
  | symbol name => exact runs_functionCall hlast hx (by omega) (by omega) hleftrest name outer
  | keyword t args =>
    by_cases ht : t.kind = .keyword .define
    · simp only [ht, if_true]
      have haccept : Reader.accept ⟨.reading .item (.opened :: outer), [], []⟩ (.keyword t args) =
          ⟨.reading .definition outer, [], []⟩ := Reader.accept_go _ _ _ _ (if_pos ht)
      rw [haccept]
      exact runs_functionDefinition hlast hx (by omega) (by omega) hleftrest outer
    · simp only [ht, if_false]
      exact hplain ht
  | atom | operator | list | data | define | call => exact hplain trivial

/-- **With as many turns as there are tokens, one expression is read as the reader reads it.** -/
theorem readsOne_expression (turns : Nat) :
    ReadsOne last after turns (Parser.expression turns) := by
  induction turns with
  | zero => exact fun rest hn => absurd hn (Nat.not_lt_zero _)
  | succ turns ih =>
    intro rest hn hrest frames hneed
    refine .ifMatch hlast (by decide) (fun lp left hcons hlp => ?_) fun hno => ?_
    · subst hcons
      have hn : left.length < turns := Nat.lt_of_succ_lt_succ hn
      rw [Reader.read_leftParen _ _ _ hlp]
      have hleft : ∀ t ∈ left, t.kind ≠ .endOfText :=
        fun t ht => hrest t (List.mem_cons_of_mem _ ht)
      refine (runs_list hlast ih hn hn hleft frames).mono fun e left' r' hleft hr' => ⟨?_, hr'⟩
      exact Nat.lt_succ_of_le hleft.length_le
    · exact runs_atom hlast hrest hno hneed

end Forms

/-! ## Programs -/

namespace Reader

theorem finish_after (e : Expr) (ts : List Token) (l : Nat) :
    (ts.foldl read ⟨.start, [e], []⟩).finish l =
      { (ts.foldl read .start).finish l with
        expressions := e :: ((ts.foldl read .start).finish l).expressions } := by
  show (ts.foldl read (start.following [e] [])).finish l = _
  rw [foldl_following, finish_following]
  rfl

theorem finish_after_error (e : SyntaxError) (ts : List Token) (l : Nat) :
    (ts.foldl read ⟨.start, [], [e]⟩).finish l =
      { (ts.foldl read .start).finish l with
        errors := e :: ((ts.foldl read .start).finish l).errors } := by
  show (ts.foldl read (start.following [] [e])).finish l = _
  rw [foldl_following, finish_following]
  rfl

end Reader

section Programs

variable (last : Token) (after : List Token)

/-- Does the parser skip fewer than `n` tokens after an error as the reader does, and at least one
if there is one? -/
def Skips (n : Nat) (skip : Parser Unit) : Prop :=
  ∀ rest, rest.length < n → (∀ t ∈ rest, t.kind ≠ .endOfText) →
    ∀ tokens c, Stands tokens c (rest ++ last :: after) → ∃ left c', left <:+ rest ∧
      (rest ≠ [] → left.length < rest.length) ∧ Stands tokens c' (left ++ last :: after) ∧
      skip tokens c = .done () c' ∧ ∀ errs,
        (rest.foldl Reader.read ⟨.skipping, [], errs⟩).finish last.line =
          (left.foldl Reader.read ⟨.start, [], errs⟩).finish last.line

variable {last after} (hlast : last.kind = .endOfText)
include hlast

theorem skips_synchronize (turns : Nat) : Skips last after turns (Parser.synchronize turns) := by
  induction turns with
  | zero => exact fun rest hn => absurd hn (Nat.not_lt_zero _)
  | succ turns ih =>
    intro rest hn hrest tokens c hc
    show ∃ left c', _ ∧ _ ∧ _ ∧ (Parser.isAtEnd tokens c).bind _ = _ ∧ _
    cases rest with
    | nil =>
      rw [Parser.isAtEnd_eq hc, hlast]
      exact ⟨[], c, List.suffix_refl [], fun h => absurd rfl h, hc, rfl, fun _ => rfl⟩
    | cons t left =>
      have ht := hrest t List.mem_cons_self
      have hc' := Parser.stands_next hc
      rw [Parser.isAtEnd_eq hc, beq_false_of_ne ht]
      show ∃ left' c', _ ∧ _ ∧ _ ∧ (Parser.advance tokens c).bind _ = _ ∧ _
      rw [Parser.advance_eq hc ht]
      by_cases hsemi : t.kind = .mark .semicolon
      · have hread (errs : List SyntaxError) :
            Reader.read ⟨.skipping, [], errs⟩ t = ⟨.start, [], errs⟩ := if_pos hsemi
        simp only [Descent.bind, hsemi, if_true, List.foldl_cons, hread]
        exact ⟨left, c.next, List.suffix_cons t left, fun _ => Nat.lt_succ_self _, hc', rfl,
          fun _ => rfl⟩
      · have hread (errs : List SyntaxError) :
            Reader.read ⟨.skipping, [], errs⟩ t = ⟨.skipping, [], errs⟩ := if_neg hsemi
        simp only [Descent.bind, hsemi, if_false, List.foldl_cons, hread]
        obtain ⟨left', c', hsuffix, -, hleft'⟩ := ih left (Nat.lt_of_succ_lt_succ hn)
          (fun u hu => hrest u (List.mem_cons_of_mem _ hu)) tokens c.next hc'
        exact ⟨left', c', hsuffix.trans (List.suffix_cons t left),
          fun _ => Nat.lt_succ_of_le hsuffix.length_le, hleft'⟩

/-- **A program is read as the reader reads it**, and the cursor is then at the end of the text. -/
theorem program_eq {n : Nat} {x : Parser Expr} {skip : Parser Unit} (hx : ReadsOne last after n x)
    (hskip : Skips last after n skip) (turns : Nat) {rest : List Token}
    (hturns : rest.length < turns) (hn : rest.length < n)
    (hrest : ∀ t ∈ rest, t.kind ≠ .endOfText) {tokens : List Token} {c : Cursor}
    (hc : Stands tokens c (rest ++ last :: after)) :
    ∃ c', Stands tokens c' (last :: after) ∧ Parser.program x skip turns tokens c =
      .done ((rest.foldl Reader.read .start).finish last.line) c' := by
  induction turns generalizing rest c with
  | zero => exact absurd hturns (Nat.not_lt_zero _)
  | succ turns ih =>
    -- the loop goes on with what is left, which is less
    have hnext {left : List Token} {c' : Cursor} (hlength : left.length < rest.length)
        (hleft : left <:+ rest) (hc' : Stands tokens c' (left ++ last :: after)) :=
      ih (c := c') (by omega) (by omega) (fun u hu => hrest u (hleft.subset hu)) hc'
    show ∃ c', _ ∧ (Parser.isAtEnd tokens c).bind _ = _
    cases rest with
    | nil =>
      rw [Parser.isAtEnd_eq hc, hlast]
      exact ⟨c, hc, rfl⟩
    | cons t left =>
      rw [Parser.isAtEnd_eq hc, beq_false_of_ne (hrest t List.mem_cons_self)]
      show ∃ c', _ ∧ (Parser.matchKind (.mark .semicolon) tokens c).bind _ = _
      by_cases ht : t.kind = .mark .semicolon
      · rw [Parser.matchKind_eq hc (by decide) ht]
        have hread : Reader.read .start t = .start := by
          simp only [Reader.read, Reader.start, Reader.Mode.start, Move.onToken, Move.onItem, ht]
          rfl
        rw [List.foldl_cons, hread]
        exact hnext (Nat.lt_succ_self _) (List.suffix_cons t left) (Parser.stands_next hc)
      · rw [Parser.matchKind_of_ne hc (by decide) ht]
        have hneed : Frame.NeedItem [] (t :: left) := ⟨fun _ => rfl, fun h => absurd h ht⟩
        have hone := hx (t :: left) hn hrest [] hneed tokens c hc
        show ∃ c', _ ∧ (Parser.attempt x tokens c).bind _ = _
        unfold Parser.attempt
        cases ho : x tokens c with
        | outOfBounds | exhausted =>
          rw [ho] at hone
          exact hone.elim
        | done e c₁ =>
          rw [ho] at hone
          obtain ⟨used, left₁, hused, hc₁, hlength, haccept⟩ := hone
          have hfold : (t :: left).foldl Reader.read .start =
              left₁.foldl Reader.read ⟨.start, [e], []⟩ := by
            rw [hused, List.foldl_append]
            exact congrArg (left₁.foldl Reader.read) haccept
          obtain ⟨c', hc', hprogram⟩ := hnext hlength (hused ▸ List.suffix_append used left₁) hc₁
          refine ⟨c', hc', ?_⟩
          show (Parser.program x skip turns tokens c₁).bind _ = _
          rw [hprogram, hfold, Reader.finish_after]
          rfl
        | failed error c₁ =>
          rw [ho] at hone
          obtain ⟨left₁, hleft₁, hc₁, hfinish⟩ := hone
          have hlength₁ := hleft₁.length_le
          obtain ⟨left₂, c₂, hleft₂, hlength₂, hc₂, hskipped, hstart⟩ := hskip left₁ (by omega)
            (fun u hu => hrest u (hleft₁.subset hu)) tokens c₁ hc₁
          have hlength : left₂.length < (t :: left).length := by
            cases left₁ with
            | nil => exact Nat.lt_succ_of_le (hleft₂.length_le.trans (Nat.zero_le _))
            | cons => exact Nat.lt_of_lt_of_le (hlength₂ (List.cons_ne_nil _ _)) hlength₁
          obtain ⟨c', hc', hprogram⟩ := hnext hlength (hleft₂.trans hleft₁) hc₂
          refine ⟨c', hc', ?_⟩
          show (skip tokens c₁).bind _ = _
          rw [hskipped]
          show (Parser.program x skip turns tokens c₂).bind _ = _
          have hall : ((t :: left).foldl Reader.read .start).finish last.line = _ := hfinish
          rw [hprogram, hall, hstart, Reader.finish_after_error]
          rfl

end Programs

/-! ## How many errors there are -/

namespace Reader

def Mode.pending : Mode → Nat
  | .skipping => 1
  | .reading _ _ => 0

/-- There are at most `n` errors, and one more while the reader skips to a semicolon. -/
def Bounded (n : Nat) (r : Reader) : Prop := r.errors.length ≤ n + r.mode.pending

def semicolons (ts : List Token) : Nat := ts.countP (·.kind == .mark .semicolon)

theorem Bounded.read {n : Nat} {r : Reader} (h : r.Bounded n) (t : Token) :
    (r.read t).Bounded (n + semicolons [t]) := by
  obtain ⟨mode, expressions, errors⟩ := r
  have hcount : semicolons [t] = if t.kind = .mark .semicolon then 1 else 0 := by
    simp [semicolons, List.countP_cons]
  unfold Bounded at h ⊢
  rw [hcount]
  unfold Reader.read
  cases mode with
  | skipping =>
    dsimp only
    by_cases ht : t.kind = .mark .semicolon
    · simp only [ht, if_true]
      exact h
    · simp only [ht, if_false]
      exact h
  | reading await frames =>
    have h : errors.length ≤ n := h
    cases hmove : Move.onToken await frames t with
    | go | emit | skip =>
      simp only [hmove, Mode.pending]
      show errors.length ≤ _
      omega
    | fail cause =>
      simp only [hmove, List.length_cons]
      by_cases ht : t.kind = .mark .semicolon
      · simp only [ht, if_true]
        show errors.length + 1 ≤ n + 1 + 0
        omega
      · simp only [ht, if_false]
        show errors.length + 1 ≤ n + 0 + 1
        omega

theorem Bounded.foldl {n : Nat} {r : Reader} (h : r.Bounded n) (ts : List Token) :
    (ts.foldl Reader.read r).Bounded (n + semicolons ts) := by
  induction ts generalizing r n with
  | nil => exact h
  | cons t ts ih =>
    have hsum : n + semicolons (t :: ts) = n + semicolons [t] + semicolons ts := by
      simp only [semicolons, List.countP_cons, List.countP_nil]
      omega
    rw [hsum]
    exact ih (h.read t)

theorem Bounded.finish {n : Nat} {r : Reader} (h : r.Bounded n) (l : Nat) :
    (r.finish l).errors.length ≤ n + 1 := by
  obtain ⟨mode, expressions, errors⟩ := r
  unfold Bounded at h
  cases mode with
  | skipping =>
    show (errors.reverse).length ≤ _
    rw [List.length_reverse]
    exact h
  | reading await frames =>
    simp only [Reader.finish, List.length_reverse, List.length_append]
    have h : errors.length ≤ n := h
    split
    · simp
      omega
    · simp
      omega

end Reader

/-! ## All tokens -/

namespace Expr

theorem exists_text {ts : List Token} (h : ∃ t ∈ ts, t.kind = .endOfText) :
    ∃ text last after, ts = text ++ last :: after ∧ last.kind = .endOfText ∧
      ∀ t ∈ text, t.kind ≠ .endOfText := by
  induction ts with
  | nil =>
    obtain ⟨t, ht, -⟩ := h
    exact nomatch ht
  | cons t ts ih =>
    by_cases ht : t.kind = .endOfText
    · exact ⟨[], t, ts, rfl, ht, nofun⟩
    · obtain ⟨text, last, after, rfl, hlast, htext⟩ := ih (by simpa [ht] using h)
      exact ⟨t :: text, last, after, rfl, hlast, List.forall_mem_cons.2 ⟨ht, htext⟩⟩

theorem mem_ended (tokens : List Token) : ∃ t ∈ ended tokens, t.kind = .endOfText := by
  unfold ended
  split
  · rename_i h
    obtain ⟨t, ht, hkind⟩ := Option.map_eq_some_iff.1 h
    exact ⟨t, List.mem_of_getLast? ht, hkind⟩
  · exact ⟨_, List.mem_append_right _ List.mem_cons_self, rfl⟩

theorem parse_text {text : List Token} (htext : ∀ t ∈ text, t.kind ≠ .endOfText) {last : Token}
    (hlast : last.kind = .endOfText) (after : List Token) :
    parse (text ++ last :: after) = (text.foldl Reader.read .start).finish last.line := by
  have hne : ∀ t ∈ text, (t.kind != .endOfText) = true := fun t ht => bne_iff_ne.2 (htext t ht)
  have hfind : (text ++ last :: after).find? (·.kind == .endOfText) = some last := by
    rw [List.find?_append, find?_endOfText htext, List.find?_cons]
    simp only [hlast]
    rfl
  have htake : (text ++ last :: after).takeWhile (·.kind != .endOfText) = text := by
    rw [List.takeWhile_append_of_pos hne, List.takeWhile_cons, hlast]
    exact List.append_nil text
  unfold parse endLine
  rw [hfind, htake]

theorem parse_ended (tokens : List Token) : parse (ended tokens) = parse tokens := by
  unfold ended
  split
  · rfl
  · by_cases hmem : ∃ t ∈ tokens, t.kind = .endOfText
    · obtain ⟨text, last, after, rfl, hlast, htext⟩ := exists_text hmem
      rw [List.append_assoc, List.cons_append, parse_text htext hlast, parse_text htext hlast]
    · have hall : ∀ t ∈ tokens, t.kind ≠ .endOfText := fun t ht hkind => hmem ⟨t, ht, hkind⟩
      rw [parse_tokens hall, parse_unended hall, endLine, find?_endOfText hall]

theorem ended_concat (tokens : List Token) (l : Nat) :
    ended (tokens ++ [.endOfText l]) = tokens ++ [.endOfText l] := by
  unfold ended
  rw [List.getLast?_concat]
  exact if_pos rfl

/-- **Recursive descent is reading**, with more turns than there are tokens before the end. -/
theorem descend_eq {tokens text : List Token} {last : Token} {after : List Token}
    (hended : ended tokens = text ++ last :: after) (hlast : last.kind = .endOfText)
    (htext : ∀ t ∈ text, t.kind ≠ .endOfText) {turns : Nat} (hturns : text.length < turns) :
    descend turns tokens = .done (parse tokens) (.at text.length) := by
  have hstart : Stands (ended tokens) ⟨0, []⟩ (text ++ last :: after) := ⟨[], hended, rfl⟩
  obtain ⟨c, ⟨before, hbefore, rfl⟩, hprogram⟩ := program_eq hlast
    (readsOne_expression hlast turns) (skips_synchronize hlast turns) turns hturns hturns htext
    hstart
  obtain rfl : before = text := List.append_cancel_right (hbefore.symm.trans hended)
  rw [descend, hprogram, ← parse_ended tokens, hended, parse_text htext hlast]

/-- **Reading by recursive descent is safe and ends.** Let `text` be the tokens before the first end
`last` of the text. With more turns than there are tokens in `text`, reading gives the same as
`Expr.parse`. The cursor has then gone from the first token to `last`, one token at a time and no
further. What was read depends on `text` and the line of `last` alone; if the tokens do not end with
the end of the text, they are read as if it stood there, on the line of the last token; and there is
at most one error more than there are semicolons in `text`. -/
theorem descend_total (tokens : List Token) :
    ∃ text last after, ended tokens = text ++ last :: after ∧ last.kind = .endOfText ∧
      (∀ t ∈ text, t.kind ≠ .endOfText) ∧
      (∀ turns, text.length < turns →
        descend turns tokens = .done (parse tokens) (.at text.length)) ∧
      (∀ turns last' after', text.length < turns → last'.kind = .endOfText →
        last'.line = last.line →
        descend turns (text ++ last' :: after') = descend turns tokens) ∧
      (tokens.getLast?.map (·.kind) ≠ some .endOfText → ∀ turns, descend turns tokens =
        descend turns (tokens ++ [.endOfText ((tokens.getLast?.map (·.line)).getD 1)])) ∧
      (parse tokens).errors.length ≤ 1 + text.countP (·.kind == .mark .semicolon) := by
  obtain ⟨text, last, after, hended, hlast, htext⟩ := exists_text (mem_ended tokens)
  have hparse : parse tokens = (text.foldl Reader.read .start).finish last.line := by
    rw [← parse_ended tokens, hended, parse_text htext hlast]
  refine ⟨text, last, after, hended, hlast, htext, fun turns => descend_eq hended hlast htext,
    fun turns last' after' hturns hlast' hline => ?_, fun hopen turns => ?_, ?_⟩
  · obtain ⟨after'', hended'⟩ : ∃ after'', ended (text ++ last' :: after') =
        text ++ last' :: after'' := by
      unfold ended
      split
      · exact ⟨after', rfl⟩
      · exact ⟨after' ++ [_], by rw [List.append_assoc, List.cons_append]⟩
    rw [descend_eq hended' hlast' htext hturns, descend_eq hended hlast htext hturns,
      parse_text htext hlast', hparse, hline]
  · unfold descend
    rw [ended_concat, ended, if_neg hopen]
  · have hstart : Reader.start.Bounded 0 := Nat.le_refl 0
    have hbound := (hstart.foldl text).finish last.line
    rw [hparse, Nat.add_comm]
    rw [Nat.zero_add] at hbound
    exact hbound

end Expr

end MiniLisp
