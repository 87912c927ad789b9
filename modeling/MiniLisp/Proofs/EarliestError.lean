import MiniLisp.Proofs.Recovery

/-!
# The earliest error

The first error is reported at the earliest token at which it can be known. As long as there is no
error, what is unfinished can be finished: the innermost form with a few tokens that depend on what
it waits for, and every form around it with one parenthesis. And an error, once reported, stays.

* `Viable` : tokens that are the start of tokens without an error;
* `Await.completion` : tokens that finish all unfinished forms (`Reader.read_completion`);
* `Reader.errors_suffix` : errors stay, whatever is read after them;
* `Reader.first_failure` : the token at which the first error is reported;
* `Expr.parse_earliest` : the theorem.
-/

namespace MiniLisp

/-- Are the tokens the start of tokens that are read without an error? -/
def Viable (ts : List Token) : Prop :=
  ∃ us, (∀ u ∈ us, u.kind ≠ .endOfText) ∧ (Expr.parse (ts ++ us)).errors = []

/-! ## Finishing what is unfinished -/

def Mark.token (m : Mark) : Token := ⟨.mark m, String.singleton m.char, none, 1⟩

namespace Await

def anyName : Token := ⟨.symbol, "f", none, 1⟩

def lastItem : List Token := [Mark.token (.operator .plus), Mark.token .rightParen]

def closing (await : Await) (frames : List Frame) : List Token :=
  match await with
  | .item =>
    match frames with
    | [] => []
    | .opened :: _ => lastItem
    | .body _ _ :: _ => lastItem
    | .call _ _ :: _ => [Mark.token .rightParen]
    | .list _ _ :: _ => [Mark.token .rightParen]
  | .definition => anyName :: Mark.token .leftParen :: Mark.token .rightParen :: lastItem
  | .functionName => anyName :: Mark.token .rightParen :: lastItem
  | .parameterList _ => Mark.token .leftParen :: Mark.token .rightParen :: lastItem
  | .parameters _ _ => Mark.token .rightParen :: lastItem
  | .definitionEnd _ _ _ => [Mark.token .rightParen]

def around (await : Await) (frames : List Frame) : List Frame :=
  match await with
  | .item => frames.tail
  | _ => frames

def completion (await : Await) (frames : List Frame) : List Token :=
  await.closing frames ++
    List.replicate (await.around frames).length (Mark.token .rightParen)

theorem completion_kind (await : Await) (frames : List Frame) :
    ∀ t ∈ await.completion frames, t.kind ≠ .endOfText := by
  have hclosing : ∀ t ∈ await.closing frames, t.kind ≠ .endOfText := by
    unfold closing
    split
    · split <;> simp [lastItem, Mark.token]
    all_goals simp [lastItem, anyName, Mark.token]
  intro t ht
  rcases List.mem_append.1 ht with ht | ht
  · exact hclosing t ht
  · rw [List.eq_of_mem_replicate ht]
    exact nofun

end Await

namespace Reader

variable (xs : List Expr) (errs : List SyntaxError)

/-- A list or a call needs nothing but its end, also if it is the head of another list. -/
theorem read_ends {e : Expr} (he : e.HeadsList) (frames : List Frame) : ∃ xs',
    (List.replicate frames.length (Mark.token .rightParen)).foldl read
      (accept ⟨.reading .item frames, xs, errs⟩ e) = ⟨.start, xs', errs⟩ := by
  induction frames generalizing e with
  | nil => exact ⟨e :: xs, rfl⟩
  | cons frame outer ih =>
    rw [List.length_cons, List.replicate_succ, List.foldl_cons]
    cases frame with
    | opened =>
      have hhead : Frame.complete e (.opened :: outer) = .go .item (.list e [] :: outer) :=
        Frame.ofHead_of_headsList he outer
      rw [accept_go _ _ _ _ hhead, read_listEnd _ _ _ rfl]
      exact ih trivial
    | call name args =>
      rw [accept_go _ _ _ _ rfl, read_callEnd _ _ _ rfl]
      exact ih trivial
    | list head tail =>
      rw [accept_go _ _ _ _ rfl, read_listEnd _ _ _ rfl]
      exact ih trivial
    | body name params =>
      rw [accept_go _ _ _ _ rfl, read_definitionEnd _ _ _ rfl]
      exact ih trivial

theorem read_lastItem_body (outer : List Frame) (name : Token) (params : List Token) :
    ∃ e : Expr, e.HeadsList ∧
      Await.lastItem.foldl read ⟨.reading .item (.body name params :: outer), xs, errs⟩ =
        accept ⟨.reading .item outer, xs, errs⟩ e :=
  ⟨.define 0 name params (.operator (Mark.token (.operator .plus)) []), trivial,
    read_definitionEnd outer xs errs rfl name params _⟩

/-- The innermost unfinished form becomes an expression that can stand anywhere. -/
theorem read_closing {await : Await} {frames : List Frame} (h : await.missing? frames ≠ none) :
    ∃ e : Expr, e.HeadsList ∧
      (await.closing frames).foldl read ⟨.reading await frames, xs, errs⟩ =
        accept ⟨.reading .item (await.around frames), xs, errs⟩ e := by
  cases await with
  | item =>
    cases frames with
    | nil => exact absurd rfl h
    | cons frame outer =>
      cases frame with
      | opened =>
        refine ⟨.list (.operator (Mark.token (.operator .plus)) []) [], trivial, ?_⟩
        exact read_listEnd outer xs errs rfl _ []
      | call name args =>
        refine ⟨.call (.symbol name) name args.reverse, trivial, ?_⟩
        exact read_callEnd outer xs errs rfl name args
      | list head tail =>
        refine ⟨.list head tail.reverse, trivial, ?_⟩
        exact read_listEnd outer xs errs rfl head tail
      | body name params => exact read_lastItem_body xs errs outer name params
  | definition => exact read_lastItem_body xs errs frames Await.anyName []
  | functionName => exact read_lastItem_body xs errs frames Await.anyName []
  | parameterList name => exact read_lastItem_body xs errs frames name []
  | parameters name params => exact read_lastItem_body xs errs frames name params.reverse
  | definitionEnd name params body =>
    refine ⟨.define 0 name params body, trivial, ?_⟩
    exact read_definitionEnd frames xs errs rfl name params body

/-- **What is unfinished can be finished.** -/
theorem read_completion (await : Await) (frames : List Frame) : ∃ xs',
    (await.completion frames).foldl read ⟨.reading await frames, xs, errs⟩ =
      ⟨.start, xs', errs⟩ := by
  by_cases h : await.missing? frames = none
  · obtain ⟨rfl, rfl⟩ := missing?_eq_none h
    exact ⟨xs, rfl⟩
  · obtain ⟨e, he, hclosing⟩ := read_closing xs errs h
    unfold Await.completion
    rw [List.foldl_append, hclosing]
    exact read_ends xs errs he _

end Reader

/-! ## Errors stay -/

theorem Reader.errors_suffix (r : Reader) (ts : List Token) :
    r.errors <:+ (ts.foldl read r).errors := by
  have hread : r = Reader.following r.expressions r.errors ⟨r.mode, [], []⟩ := by
    simp [following]
  rw [hread, foldl_following]
  exact List.suffix_append _ _

/-- The tokens up to the first one that does not fit, if there is one. -/
theorem Reader.first_failure {r : Reader} (hsettled : r.Settled) (hr : r.errors = [])
    (ts : List Token) :
    (ts.foldl read r).errors = [] ∨ ∃ before t after cause, ts = before ++ t :: after ∧
      (before.foldl read r).errors = [] ∧
      ((before ++ [t]).foldl read r).errors = [SyntaxError.atToken t cause] := by
  induction ts generalizing r with
  | nil => exact .inl hr
  | cons t ts ih =>
    have hstep : (r.read t).errors = [] ∨
        ∃ cause, (r.read t).errors = [SyntaxError.atToken t cause] := by
      unfold read
      split
      · rename_i hmode
        exact absurd hr (hsettled hmode)
      · cases Move.onToken _ _ t <;> simp [hr]
    rcases hstep with hnone | ⟨cause, hfails⟩
    · rcases ih (settled_read hsettled t) hnone with h | ⟨before, u, after, cause, rfl, h, hfails⟩
      · exact .inl h
      · exact .inr ⟨t :: before, u, after, cause, rfl, h, hfails⟩
    · exact .inr ⟨[], t, ts, cause, rfl, hr, hfails⟩

namespace Expr

variable {ts : List Token} (hts : ∀ t ∈ ts, t.kind ≠ .endOfText)
include hts

/-- Tokens without an error so far can be continued to tokens without an error. -/
theorem viable_of_no_errors (h : (ts.foldl Reader.read .start).errors = []) : Viable ts := by
  have hsettled := Reader.settled_foldl Reader.settled_start ts
  cases hmode : (ts.foldl Reader.read .start).mode with
  | skipping => exact absurd h (hsettled hmode)
  | reading await frames =>
    obtain ⟨xs, hread⟩ := Reader.read_completion (ts.foldl Reader.read .start).expressions
      (ts.foldl Reader.read .start).errors await frames
    have hkind := await.completion_kind frames
    refine ⟨await.completion frames, hkind, ?_⟩
    rw [← hmode, h] at hread
    have hfold : (ts ++ await.completion frames).foldl Reader.read .start = ⟨.start, xs, []⟩ := by
      rw [List.foldl_append, ← hread, ← h]
    rw [parse_unended (List.forall_mem_append.2 ⟨hts, hkind⟩), hfold]
    rfl

theorem errors_of_errors (h : (ts.foldl Reader.read .start).errors ≠ []) (us : List Token) :
    (parse (ts ++ us)).errors ≠ [] := by
  have hne : ∀ t ∈ ts, (t.kind != .endOfText) = true := fun t ht => bne_iff_ne.2 (hts t ht)
  obtain ⟨later, hlater⟩ := (ts.foldl Reader.read .start).errors_suffix
    (us.takeWhile (·.kind != .endOfText))
  unfold parse
  rw [List.takeWhile_append_of_pos hne, List.foldl_append]
  simp [Reader.finish, ← hlater, h]

end Expr

/-- Without an error before the end, there is none or the one for what is missing there. -/
theorem Reader.finish_errors_of_none {r : Reader} (hr : r.errors = []) (line : Nat) :
    (r.finish line).errors = [] ∨
      ∃ what, (r.finish line).errors = [⟨line, .atEnd, .expected what⟩] := by
  unfold finish
  dsimp only
  rw [hr]
  split
  · exact .inl rfl
  · split
    · exact .inl rfl
    · exact .inr ⟨_, rfl⟩

theorem Reader.finish_errors_of_suffix {r : Reader} {x e : SyntaxError} {es : List SyntaxError}
    (hr : [x] <:+ r.errors) {line : Nat} (h : (r.finish line).errors = e :: es) : e = x := by
  obtain ⟨later, hlater⟩ := hr
  simp only [finish, ← hlater, ← List.append_assoc, List.reverse_append, List.reverse_singleton,
    List.singleton_append] at h
  exact (List.cons.inj h).1.symm

/-- Is `e` the first error, reported at position `p` of the tokens? -/
def Reader.ReportsAt (ts : List Token) (p : Nat) (e : SyntaxError) : Prop :=
  ((ts.take p).foldl read .start).errors = [] ∧ ((ts.take (p + 1)).foldl read .start).errors = [e]

/-- **The first error is reported at the earliest token.** If it is reported at a token, then the
tokens before this one are the start of tokens without an error, and with this one they are not,
whatever follows. If it is reported at the end, then it is the only error, and the tokens are the
start of tokens without one. -/
theorem Expr.parse_earliest {ts : List Token} (hts : ∀ t ∈ ts, t.kind ≠ .endOfText)
    {e : SyntaxError} {es : List SyntaxError} (h : (parse ts).errors = e :: es) :
    (∃ (p : Nat) (t : Token), ts[p]? = some t ∧ Reader.ReportsAt ts p e ∧ e.line = t.line ∧
      e.location = .at t.lexeme ∧ Viable (ts.take p) ∧
      ∀ us, (parse (ts.take (p + 1) ++ us)).errors ≠ []) ∨
    e.line = endLine ts ∧ e.location = .atEnd ∧ (parse ts).errors = [e] ∧ Viable ts := by
  rcases Reader.first_failure Reader.settled_start rfl ts with hnone |
    ⟨before, t, after, cause, rfl, hbefore, hfails⟩
  · right
    have hviable := viable_of_no_errors hts hnone
    rw [parse_unended hts] at h ⊢
    rcases Reader.finish_errors_of_none hnone (endLine ts) with hclean | ⟨what, hend⟩
    · rw [hclean] at h
      exact nomatch h
    · rw [hend] at h
      obtain ⟨rfl, rfl⟩ := List.cons.inj h
      exact ⟨rfl, rfl, hend, hviable⟩
  · left
    rw [parse_unended hts] at h
    rw [List.append_cons] at h hts
    have hboth : ∀ u ∈ before ++ [t], u.kind ≠ .endOfText :=
      fun u hu => hts u (List.mem_append_left after hu)
    have hsuffix := ((before ++ [t]).foldl Reader.read .start).errors_suffix after
    rw [hfails, ← List.foldl_append] at hsuffix
    obtain rfl : e = .atToken t cause := Reader.finish_errors_of_suffix hsuffix h
    have htake : (before ++ t :: after).take (before.length + 1) = before ++ [t] := by
      rw [List.append_cons, List.take_left' (by simp)]
    refine ⟨before.length, t, by simp, ⟨?_, ?_⟩, rfl, if_neg (hboth t (by simp)), ?_, ?_⟩
    · rwa [List.take_left]
    · rwa [htake]
    · rw [List.take_left]
      exact viable_of_no_errors (fun u hu => hboth u (List.mem_append_left _ hu)) hbefore
    · intro us
      rw [htake]
      apply errors_of_errors hboth
      rw [hfails]
      exact List.cons_ne_nil _ _

/-- A definition with two bodies fails at the second one: up to the first one it could be finished,
and with the second one it cannot. -/
theorem Expr.parse_earliest_body :
    let ts := tokensFrom 1 "(define (f x)\n 7 8)\n)"
    (parse ts).errors = [⟨2, .at "8", .expected .definitionEnd⟩] ∧ Viable (ts.take 7) ∧
      ∀ us, (parse (ts.take 8 ++ us)).errors ≠ [] := by
  intro ts
  have herrors : (parse ts).errors = [⟨2, .at "8", .expected .definitionEnd⟩] := by decide +kernel
  have hposition : ∀ p < ts.length, ts[p]?.map (·.lexeme) = some "8" → p = 7 := by decide +kernel
  refine ⟨herrors, ?_⟩
  rcases parse_earliest (tokensFrom_kind 1 _) herrors with
    ⟨p, t, hp, -, -, hlexeme, hviable, hfails⟩ | ⟨-, hend, -⟩
  · obtain ⟨hlt, -⟩ := List.getElem?_eq_some_iff.1 hp
    have hsecond : ts[p]?.map (·.lexeme) = some "8" := by
      rw [hp]
      exact congrArg some (Location.at.inj hlexeme).symm
    obtain rfl := hposition p hlt hsecond
    exact ⟨hviable, hfails⟩
  · exact nomatch hend

end MiniLisp
