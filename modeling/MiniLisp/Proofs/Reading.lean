import Mathlib.Data.List.TakeWhile
import MiniLisp.Expr.Read
import MiniLisp.Proofs.Alike

/-!
# Reading token by token

The reader only adds to what it has read, and looks at a line only to report it.

* `Reader.foldl_following` : what was read before is kept, and does not matter to what is read next;
* `Reader.start_of_no_errors` : if there is no error, then nothing is unfinished;
* `Expr.parse_append` : tokens that are read without an error, followed by others;
* `Expr.parse_moved` : the same tokens on other lines.
-/

namespace MiniLisp

open List

/-! ## The end of the text -/

theorem Expr.find?_endOfText {ts : List Token} (hts : ∀ t ∈ ts, t.kind ≠ .endOfText) :
    ts.find? (·.kind == .endOfText) = none := by
  rw [List.find?_eq_none]
  intro t ht
  rw [beq_iff_eq]
  exact hts t ht

/-- Tokens are read up to the end of the text, which gives its line to what is missing there. -/
theorem Expr.parse_tokens {ts : List Token} (hts : ∀ t ∈ ts, t.kind ≠ .endOfText) (l : Nat) :
    parse (ts ++ [.endOfText l]) = (ts.foldl Reader.read .start).finish l := by
  have hne : ∀ t ∈ ts, (t.kind != .endOfText) = true := fun t ht => bne_iff_ne.2 (hts t ht)
  have htake : (ts ++ [Token.endOfText l]).takeWhile (·.kind != .endOfText) = ts := by
    rw [List.takeWhile_append_of_pos hne]
    exact List.append_nil ts
  have hfind : (ts ++ [Token.endOfText l]).find? (·.kind == .endOfText) = some (.endOfText l) := by
    rw [List.find?_append, find?_endOfText hts]
    rfl
  have hend : endLine (ts ++ [.endOfText l]) = l := by
    unfold endLine
    rw [hfind]
    rfl
  rw [parse, htake, hend]

/-- Tokens without one for the end of the text are all read, and end on the line of the last one. -/
theorem Expr.parse_unended {ts : List Token} (hts : ∀ t ∈ ts, t.kind ≠ .endOfText) :
    parse ts = (ts.foldl Reader.read .start).finish (endLine ts) := by
  have hne : ∀ t ∈ ts, (t.kind != .endOfText) = true := fun t ht => bne_iff_ne.2 (hts t ht)
  rw [parse, List.takeWhile_eq_self_iff.2 hne]

namespace Reader

/-! ## What was read before -/

/-- The reader, with expressions and errors that were read before. -/
def following (xs : List Expr) (errs : List SyntaxError) (r : Reader) : Reader :=
  ⟨r.mode, r.expressions ++ xs, r.errors ++ errs⟩

theorem read_following (xs : List Expr) (errs : List SyntaxError) (r : Reader) (t : Token) :
    (r.following xs errs).read t = (r.read t).following xs errs := by
  obtain ⟨mode, expressions, errors⟩ := r
  cases mode with
  | skipping =>
    show (if _ then _ else _) = following xs errs (if _ then _ else _)
    split <;> rfl
  | reading await frames =>
    simp only [following, read]
    cases Move.onToken await frames t <;> rfl

theorem foldl_following (xs : List Expr) (errs : List SyntaxError) (ts : List Token) (r : Reader) :
    ts.foldl read (r.following xs errs) = (ts.foldl read r).following xs errs := by
  induction ts generalizing r with
  | nil => rfl
  | cons t ts ih => rw [List.foldl_cons, List.foldl_cons, read_following, ih]

theorem finish_following (xs : List Expr) (errs : List SyntaxError) (r : Reader) (l : Nat) :
    (r.following xs errs).finish l =
      ⟨xs.reverse ++ (r.finish l).expressions, errs.reverse ++ (r.finish l).errors⟩ := by
  simp only [finish, following, List.reverse_append, List.append_assoc]

/-! ## No errors -/

/-- Tokens are skipped only after an error. -/
def Settled (r : Reader) : Prop := r.mode = .skipping → r.errors ≠ []

theorem settled_start : start.Settled := by
  intro h
  cases h

theorem settled_read {r : Reader} (h : r.Settled) (t : Token) : (r.read t).Settled := by
  unfold read
  split
  · split
    · exact fun he => nomatch he
    · exact h
  · rename_i await frames hmode
    cases Move.onToken await frames t with
    | go => exact fun he => nomatch he
    | emit => exact fun he => nomatch he
    | skip => exact h
    | fail => exact fun _ => List.cons_ne_nil _ _

theorem settled_foldl {r : Reader} (h : r.Settled) (ts : List Token) :
    (ts.foldl read r).Settled := by
  induction ts generalizing r with
  | nil => exact h
  | cons t ts ih => exact ih (settled_read h t)

theorem missing?_eq_none {await : Await} {frames : List Frame}
    (h : await.missing? frames = none) : await = .item ∧ frames = [] := by
  cases await with
  | item =>
    cases frames with
    | nil => exact ⟨rfl, rfl⟩
    | cons frame outer => cases frame <;> exact nomatch h
  | definition | functionName | parameterList | parameters | definitionEnd => exact nomatch h

theorem start_of_no_errors {r : Reader} (hr : r.Settled) {l : Nat}
    (h : (r.finish l).errors = []) : r = ⟨.start, r.expressions, []⟩ := by
  obtain ⟨mode, expressions, errors⟩ := r
  have hnil := List.reverse_eq_nil_iff.1 h
  obtain ⟨hmissing, rfl⟩ := List.append_eq_nil_iff.1 hnil
  cases mode with
  | skipping => exact absurd rfl (hr rfl)
  | reading await frames =>
    dsimp only at hmissing
    split at hmissing
    · rename_i hnone
      obtain ⟨rfl, rfl⟩ := missing?_eq_none hnone
      rfl
    · exact nomatch hmissing

end Reader

/-- **Tokens after tokens that are read without an error** are read as if they stood alone. -/
theorem Expr.parse_append {ts us : List Token} (hts : ∀ t ∈ ts, t.kind ≠ .endOfText)
    (hus : ∀ t ∈ us, t.kind ≠ .endOfText) {l : Nat}
    (h : (parse (ts ++ [.endOfText l])).errors = []) (l' : Nat) :
    parse (ts ++ us ++ [.endOfText l']) =
      ⟨(parse (ts ++ [.endOfText l])).expressions ++ (parse (us ++ [.endOfText l'])).expressions,
        (parse (us ++ [.endOfText l'])).errors⟩ := by
  have hall : ∀ t ∈ ts ++ us, t.kind ≠ .endOfText := List.forall_mem_append.2 ⟨hts, hus⟩
  rw [parse_tokens hts] at h
  have hsettled : (ts.foldl Reader.read .start).Settled :=
    Reader.settled_foldl Reader.settled_start ts
  have hstart := Reader.start_of_no_errors hsettled h
  rw [parse_tokens hall, parse_tokens hts, parse_tokens hus, List.foldl_append, hstart]
  show (us.foldl Reader.read (Reader.start.following _ [])).finish l' = _
  rw [Reader.foldl_following, Reader.finish_following]
  rfl

/-! ## Other lines -/

variable {line : Nat → Nat → Prop}

/-- Errors that differ in their lines only, which are related by `line`. -/
structure SyntaxError.Moved (line : Nat → Nat → Prop) (e e' : SyntaxError) : Prop where
  line : line e.line e'.line
  location : e'.location = e.location
  cause : e'.cause = e.cause

inductive Frame.Moved (line : Nat → Nat → Prop) : Frame → Frame → Prop
  | opened : Moved line .opened .opened
  | call {t t' : Token} {xs xs' : List Expr} (ht : t.Moved line t')
      (hxs : Forall₂ (Expr.Alike (Token.Moved line)) xs xs') :
      Moved line (.call t xs) (.call t' xs')
  | list {x x' : Expr} {xs xs' : List Expr} (hx : Expr.Alike (Token.Moved line) x x')
      (hxs : Forall₂ (Expr.Alike (Token.Moved line)) xs xs') :
      Moved line (.list x xs) (.list x' xs')
  | body {t t' : Token} {ps ps' : List Token} (ht : t.Moved line t')
      (hps : Forall₂ (Token.Moved line) ps ps') : Moved line (.body t ps) (.body t' ps')

inductive Await.Moved (line : Nat → Nat → Prop) : Await → Await → Prop
  | item : Moved line .item .item
  | definition : Moved line .definition .definition
  | functionName : Moved line .functionName .functionName
  | parameterList {t t' : Token} (ht : t.Moved line t') :
      Moved line (.parameterList t) (.parameterList t')
  | parameters {t t' : Token} {ps ps' : List Token} (ht : t.Moved line t')
      (hps : Forall₂ (Token.Moved line) ps ps') :
      Moved line (.parameters t ps) (.parameters t' ps')
  | definitionEnd {t t' : Token} {ps ps' : List Token} {x x' : Expr} (ht : t.Moved line t')
      (hps : Forall₂ (Token.Moved line) ps ps') (hx : Expr.Alike (Token.Moved line) x x') :
      Moved line (.definitionEnd t ps x) (.definitionEnd t' ps' x')

inductive Move.Moved (line : Nat → Nat → Prop) : Move → Move → Prop
  | go {await await' : Await} {frames frames' : List Frame} (ha : await.Moved line await')
      (hf : Forall₂ (Frame.Moved line) frames frames') :
      Moved line (.go await frames) (.go await' frames')
  | emit {e e' : Expr} (he : Expr.Alike (Token.Moved line) e e') : Moved line (.emit e) (.emit e')
  | skip : Moved line .skip .skip
  | fail (cause : SyntaxError.Cause) : Moved line (.fail cause) (.fail cause)

/-- Readers that have read the same tokens on other lines. -/
structure Reader.Moved (line : Nat → Nat → Prop) (r r' : Reader) : Prop where
  mode : (r.mode = .skipping ∧ r'.mode = .skipping) ∨ ∃ await await' frames frames',
    r.mode = .reading await frames ∧ r'.mode = .reading await' frames' ∧
      Await.Moved line await await' ∧ Forall₂ (Frame.Moved line) frames frames'
  expressions : Forall₂ (Expr.Alike (Token.Moved line)) r.expressions r'.expressions
  errors : Forall₂ (SyntaxError.Moved line) r.errors r'.errors

theorem SyntaxError.moved_atToken {t t' : Token} (h : t.Moved line t') (cause : Cause) :
    (atToken t cause).Moved line (atToken t' cause) := by
  refine ⟨h.line, ?_, rfl⟩
  show Location.ofToken t' = Location.ofToken t
  unfold Location.ofToken
  rw [h.kind, h.lexeme]

theorem Expr.ofToken_moved {t t' : Token} (h : t.Moved line t') :
    (∃ e e', ofToken t = .ok e ∧ ofToken t' = .ok e' ∧ Alike (Token.Moved line) e e') ∨
      ∃ cause, ofToken t = .error cause ∧ ofToken t' = .error cause := by
  unfold ofToken
  rw [h.kind, h.literal?]
  split
  · exact .inl ⟨_, _, rfl, rfl, .keyword h .nil⟩
  · exact .inl ⟨_, _, rfl, rfl, .operator h .nil⟩
  · cases t.literal? with
    | none => exact .inr ⟨_, rfl, rfl⟩
    | some value => exact .inl ⟨_, _, rfl, rfl, .atom value h⟩
  · cases t.literal? with
    | none => exact .inr ⟨_, rfl, rfl⟩
    | some value => exact .inl ⟨_, _, rfl, rfl, .atom value h⟩
  · exact .inl ⟨_, _, rfl, rfl, .symbol h⟩
  · exact .inr ⟨_, rfl, rfl⟩

theorem Frame.moved_ofHead {e e' : Expr} (he : Expr.Alike (Token.Moved line) e e')
    {outer outer' : List Frame} (h : Forall₂ (Frame.Moved line) outer outer') :
    (ofHead e outer).Moved line (ofHead e' outer') := by
  cases he with
  | symbol ht => exact .go .item (.cons (.call ht .nil) h)
  | keyword ht hxs =>
    unfold ofHead
    dsimp only
    rw [ht.kind]
    split
    · exact .go .definition h
    · exact .go .item (.cons (.list (.keyword ht hxs) .nil) h)
  | atom value ht => exact .go .item (.cons (.list (.atom value ht) .nil) h)
  | operator ht hxs => exact .go .item (.cons (.list (.operator ht hxs) .nil) h)
  | list hx hxs => exact .go .item (.cons (.list (.list hx hxs) .nil) h)
  | data label hx hxs => exact .go .item (.cons (.list (.data label hx hxs) .nil) h)
  | define label ht hps hx => exact .go .item (.cons (.list (.define label ht hps hx) .nil) h)
  | call hx ht hxs => exact .go .item (.cons (.list (.call hx ht hxs) .nil) h)

theorem Frame.moved_complete {e e' : Expr} (he : Expr.Alike (Token.Moved line) e e')
    {frames frames' : List Frame} (h : Forall₂ (Frame.Moved line) frames frames') :
    (complete e frames).Moved line (complete e' frames') := by
  cases h with
  | nil => exact .emit he
  | cons hframe h =>
    cases hframe with
    | opened => exact moved_ofHead he h
    | call ht hxs => exact .go .item (.cons (.call ht (.cons he hxs)) h)
    | list hx hxs => exact .go .item (.cons (.list hx (.cons he hxs)) h)
    | body ht hps => exact .go (.definitionEnd ht hps he) h

theorem Frame.moved_close {frames frames' : List Frame}
    (h : Forall₂ (Frame.Moved line) frames frames') :
    (close frames).Moved line (close frames') := by
  cases h with
  | nil => exact .fail _
  | cons hframe h =>
    cases hframe with
    | opened | body => exact .fail _
    | call ht hxs => exact moved_complete (.call (.symbol ht) ht (forall₂_reverse_iff.2 hxs)) h
    | list hx hxs => exact moved_complete (.list hx (forall₂_reverse_iff.2 hxs)) h

theorem Move.moved_onItem {frames frames' : List Frame}
    (h : Forall₂ (Frame.Moved line) frames frames') {t t' : Token} (ht : t.Moved line t') :
    (onItem frames t).Moved line (onItem frames' t') := by
  unfold onItem
  rw [ht.kind]
  split
  · exact .go .item (.cons .opened h)
  · exact Frame.moved_close h
  · cases h with
    | nil => exact .skip
    | cons => exact .fail _
  · rcases Expr.ofToken_moved ht with ⟨e, e', hok, hok', he⟩ | ⟨cause, herror, herror'⟩
    · rw [hok, hok']
      exact Frame.moved_complete he h
    · rw [herror, herror']
      exact .fail cause

theorem Move.moved_onToken {await await' : Await} (ha : await.Moved line await')
    {frames frames' : List Frame} (hf : Forall₂ (Frame.Moved line) frames frames') {t t' : Token}
    (ht : t.Moved line t') : (onToken await frames t).Moved line (onToken await' frames' t') := by
  cases ha with
  | item => exact moved_onItem hf ht
  | definition =>
    simp only [onToken, ht.kind]
    split
    · exact .go .functionName hf
    · exact .go (.parameterList ht) hf
    · exact .fail _
  | functionName =>
    simp only [onToken, ht.kind]
    split
    · exact .go (.parameters ht .nil) hf
    · exact .fail _
  | parameterList hname =>
    simp only [onToken, ht.kind]
    split
    · exact .go (.parameters hname .nil) hf
    · exact .fail _
  | parameters hname hps =>
    simp only [onToken, ht.kind]
    split
    · exact .go .item (.cons (.body hname (forall₂_reverse_iff.2 hps)) hf)
    · exact .go (.parameters hname (.cons ht hps)) hf
    · exact .fail _
  | definitionEnd hname hps hx =>
    simp only [onToken, ht.kind]
    split
    · exact Frame.moved_complete (.define 0 hname hps hx) hf
    · exact .fail _

namespace Reader.Moved

variable {r r' : Reader}

theorem start : Reader.start.Moved line .start :=
  ⟨.inr ⟨_, _, _, _, rfl, rfl, .item, .nil⟩, .nil, .nil⟩

theorem read (h : r.Moved line r') {t t' : Token} (ht : t.Moved line t') :
    (r.read t).Moved line (r'.read t') := by
  obtain ⟨mode, expressions, errors⟩ := r
  obtain ⟨mode', expressions', errors'⟩ := r'
  obtain ⟨hmode, hexpressions, herrors⟩ := h
  have hstart : Reader.start.Moved line .start := start
  rcases hmode with ⟨rfl, rfl⟩ | ⟨await, await', frames, frames', rfl, rfl, ha, hf⟩
  · simp only [Reader.read, ht.kind]
    split
    · exact ⟨hstart.mode, hexpressions, herrors⟩
    · exact ⟨.inl ⟨rfl, rfl⟩, hexpressions, herrors⟩
  · have hmove := Move.moved_onToken ha hf ht
    simp only [Reader.read]
    generalize Move.onToken await frames t = move at hmove
    generalize Move.onToken await' frames' t' = move' at hmove
    cases hmove with
    | go ha hf => exact ⟨.inr ⟨_, _, _, _, rfl, rfl, ha, hf⟩, hexpressions, herrors⟩
    | emit he => exact ⟨hstart.mode, .cons he hexpressions, herrors⟩
    | skip => exact ⟨.inr ⟨_, _, _, _, rfl, rfl, ha, hf⟩, hexpressions, herrors⟩
    | fail cause =>
      refine ⟨?_, hexpressions, .cons (SyntaxError.moved_atToken ht cause) herrors⟩
      dsimp only
      rw [ht.kind]
      split
      · exact hstart.mode
      · exact .inl ⟨rfl, rfl⟩

theorem foldl (h : r.Moved line r') {ts ts' : List Token}
    (hts : Forall₂ (Token.Moved line) ts ts') :
    (ts.foldl Reader.read r).Moved line (ts'.foldl Reader.read r') := by
  induction hts generalizing r r' with
  | nil => exact h
  | cons ht _ ih => exact ih (h.read ht)

theorem missing? {await await' : Await} (ha : await.Moved line await') {frames frames' : List Frame}
    (hf : Forall₂ (Frame.Moved line) frames frames') :
    await'.missing? frames' = await.missing? frames := by
  cases ha with
  | item =>
    cases hf with
    | nil => rfl
    | cons hframe => cases hframe <;> rfl
  | definition | functionName | parameterList | parameters | definitionEnd => rfl

theorem finish (h : r.Moved line r') {l l' : Nat} (hl : line l l') :
    Forall₂ (Expr.Alike (Token.Moved line)) (r.finish l).expressions (r'.finish l').expressions ∧
      Forall₂ (SyntaxError.Moved line) (r.finish l).errors (r'.finish l').errors := by
  refine ⟨forall₂_reverse_iff.2 h.expressions, forall₂_reverse_iff.2 ?_⟩
  rcases h.mode with ⟨hmode, hmode'⟩ | ⟨await, await', frames, frames', hmode, hmode', ha, hf⟩
  · rw [hmode, hmode']
    exact h.errors
  · rw [hmode, hmode']
    dsimp only
    rw [missing? ha hf]
    cases await.missing? frames with
    | none => exact h.errors
    | some what => exact .cons ⟨hl, rfl, rfl⟩ h.errors

end Reader.Moved

/-- **Tokens on other lines are read as the same expressions**, and give the same errors. -/
theorem Expr.parse_moved {ts ts' : List Token} (hts : ∀ t ∈ ts, t.kind ≠ .endOfText)
    (hts' : ∀ t ∈ ts', t.kind ≠ .endOfText) (h : Forall₂ (Token.Moved line) ts ts') {l l' : Nat}
    (hl : line l l') :
    Forall₂ (Alike (Token.Moved line)) (parse (ts ++ [.endOfText l])).expressions
        (parse (ts' ++ [.endOfText l'])).expressions ∧
      Forall₂ (SyntaxError.Moved line) (parse (ts ++ [.endOfText l])).errors
        (parse (ts' ++ [.endOfText l'])).errors := by
  rw [parse_tokens hts, parse_tokens hts']
  exact (Reader.Moved.start.foldl h).finish hl

end MiniLisp
