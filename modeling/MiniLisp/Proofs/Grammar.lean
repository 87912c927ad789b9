import MiniLisp.Expr.Read

/-!
# The grammar

`Spells` says which tokens spell which expressions, without a reader. The reader agrees with it in
both directions.

* `Spells` : tokens that spell a sequence of expressions;
* `Opens`, `Awaits` : the tokens of the forms that are unfinished;
* `Move.onToken_follows` : what a token does follows from the tokens of the unfinished forms;
* `Reader.forall_errors` : errors are reported at the tokens that are read;
* `Expr.parse_spells` : every expression that is read is spelled by consecutive tokens;
* `Spells.read` : tokens that spell expressions are read as these, whatever was read before.
-/

namespace MiniLisp

/-! ## Derivations -/

/-- Can the expression be the head of a list? A symbol makes a call, and `define` a definition. -/
def Expr.HeadsList : Expr → Prop
  | .symbol _ => False
  | .keyword t _ => t.kind ≠ .keyword .define
  | _ => True

/-- Tokens that name a function and its parameters; a definition can do so in two ways. -/
inductive Header (name : Token) (params : List Token) : List Token → Prop
  | together {lp rp : Token} (hlp : lp.kind = .mark .leftParen) (hname : name.kind = .symbol)
      (hparams : ∀ p ∈ params, p.kind = .symbol) (hrp : rp.kind = .mark .rightParen) :
      Header name params (lp :: name :: (params ++ [rp]))
  | apart {lp rp : Token} (hname : name.kind = .symbol) (hlp : lp.kind = .mark .leftParen)
      (hparams : ∀ p ∈ params, p.kind = .symbol) (hrp : rp.kind = .mark .rightParen) :
      Header name params (name :: lp :: (params ++ [rp]))

/-- Tokens that spell expressions, one after the other. -/
inductive Spells : List Token → List Expr → Prop
  | nil : Spells [] []
  | token {t : Token} {e : Expr} {ts : List Token} {es : List Expr} (ht : Expr.ofToken t = .ok e)
      (h : Spells ts es) : Spells (t :: ts) (e :: es)
  | call {lp name rp : Token} {as ts : List Token} {args es : List Expr}
      (hlp : lp.kind = .mark .leftParen) (hname : name.kind = .symbol) (hargs : Spells as args)
      (hrp : rp.kind = .mark .rightParen) (h : Spells ts es) :
      Spells (lp :: name :: (as ++ rp :: ts)) (.call (.symbol name) name args :: es)
  | define {lp kw name rp : Token} {params hs bs ts : List Token} {body : Expr} {es : List Expr}
      (hlp : lp.kind = .mark .leftParen) (hkw : kw.kind = .keyword .define)
      (hheader : Header name params hs) (hbody : Spells bs [body])
      (hrp : rp.kind = .mark .rightParen) (h : Spells ts es) :
      Spells (lp :: kw :: (hs ++ (bs ++ rp :: ts))) (.define 0 name params body :: es)
  | list {lp rp : Token} {hs tls ts : List Token} {head : Expr} {tail es : List Expr}
      (hlp : lp.kind = .mark .leftParen) (hhead : Spells hs [head]) (hplain : head.HeadsList)
      (htail : Spells tls tail) (hrp : rp.kind = .mark .rightParen) (h : Spells ts es) :
      Spells (lp :: (hs ++ (tls ++ rp :: ts))) (.list head tail :: es)

namespace Spells

theorem append {ts us : List Token} {es fs : List Expr} (h : Spells ts es) (hus : Spells us fs) :
    Spells (ts ++ us) (es ++ fs) := by
  induction h with
  | nil => exact hus
  | token ht _ ih => exact .token ht ih
  | call hlp hname hargs hrp _ _ ih =>
    have := Spells.call hlp hname hargs hrp ih
    simpa only [List.cons_append, List.append_assoc] using this
  | define hlp hkw hheader hbody hrp _ _ ih =>
    have := Spells.define hlp hkw hheader hbody hrp ih
    simpa only [List.cons_append, List.append_assoc] using this
  | list hlp hhead hplain htail hrp _ _ _ ih =>
    have := Spells.list hlp hhead hplain htail hrp ih
    simpa only [List.cons_append, List.append_assoc] using this

theorem eq_nil {ts : List Token} (h : Spells ts []) : ts = [] := by
  cases h
  rfl

/-- One more expression, where the expressions read so far are kept last first. -/
theorem push {ts us : List Token} {es : List Expr} {e : Expr} (h : Spells ts es.reverse)
    (he : Spells us [e]) : Spells (ts ++ us) (e :: es).reverse := by
  rw [List.reverse_cons]
  exact h.append he

end Spells

theorem Expr.ofToken_cases {t : Token} {e : Expr} (h : ofToken t = .ok e) :
    (∃ k, t.kind = .keyword k ∧ e = .keyword t []) ∨
      (∃ op, t.kind = .mark (.operator op) ∧ e = .operator t []) ∨
      ((t.kind = .number ∨ t.kind = .string) ∧ ∃ value, t.literal? = some value ∧
        e = .atom value t) ∨
      (t.kind = .symbol ∧ e = .symbol t) := by
  unfold ofToken at h
  split at h
  · rename_i k hk
    cases h
    exact .inl ⟨k, hk, rfl⟩
  · rename_i op hk
    cases h
    exact .inr (.inl ⟨op, hk, rfl⟩)
  · rename_i hk
    split at h
    · rename_i value hvalue
      cases h
      exact .inr (.inr (.inl ⟨.inl hk, value, hvalue, rfl⟩))
    · exact nomatch h
  · rename_i hk
    split at h
    · rename_i value hvalue
      cases h
      exact .inr (.inr (.inl ⟨.inr hk, value, hvalue, rfl⟩))
    · exact nomatch h
  · rename_i hk
    cases h
    exact .inr (.inr (.inr ⟨hk, rfl⟩))
  · exact nomatch h

theorem Spells.symbol {us : List Token} {name : Token} (h : Spells us [.symbol name]) :
    us = [name] ∧ name.kind = .symbol := by
  cases h with
  | token ht h =>
    obtain rfl := h.eq_nil
    rcases Expr.ofToken_cases ht with ⟨_, _, he⟩ | ⟨_, _, he⟩ | ⟨_, _, _, he⟩ | ⟨hk, he⟩
    · exact nomatch he
    · exact nomatch he
    · exact nomatch he
    · cases he
      exact ⟨rfl, hk⟩

theorem Spells.keyword {us : List Token} {t : Token} {xs : List Expr}
    (h : Spells us [.keyword t xs]) : us = [t] := by
  cases h with
  | token ht h =>
    obtain rfl := h.eq_nil
    rcases Expr.ofToken_cases ht with ⟨_, _, he⟩ | ⟨_, _, he⟩ | ⟨_, _, _, he⟩ | ⟨_, he⟩
    · cases he
      rfl
    · exact nomatch he
    · exact nomatch he
    · exact nomatch he

/-! ## Unfinished forms -/

/-- The tokens of the unfinished forms and of what is complete inside them, outermost first. -/
inductive Opens : List Frame → List Token → Prop
  | nil : Opens [] []
  | opened {outer : List Frame} {ts : List Token} {lp : Token} (h : Opens outer ts)
      (hlp : lp.kind = .mark .leftParen) : Opens (.opened :: outer) (ts ++ [lp])
  | call {outer : List Frame} {ts as : List Token} {lp name : Token} {args : List Expr}
      (h : Opens outer ts) (hlp : lp.kind = .mark .leftParen) (hname : name.kind = .symbol)
      (hargs : Spells as args.reverse) : Opens (.call name args :: outer) (ts ++ lp :: name :: as)
  | list {outer : List Frame} {ts hs tls : List Token} {lp : Token} {head : Expr}
      {tail : List Expr} (h : Opens outer ts) (hlp : lp.kind = .mark .leftParen)
      (hhead : Spells hs [head]) (hplain : head.HeadsList) (htail : Spells tls tail.reverse) :
      Opens (.list head tail :: outer) (ts ++ lp :: (hs ++ tls))
  | body {outer : List Frame} {ts hs params : List Token} {lp kw name : Token}
      (h : Opens outer ts) (hlp : lp.kind = .mark .leftParen) (hkw : kw.kind = .keyword .define)
      (hheader : Header name params hs) : Opens (.body name params :: outer) (ts ++ lp :: kw :: hs)

inductive Awaits : Await → List Frame → List Token → Prop
  | item {frames : List Frame} {ts : List Token} (h : Opens frames ts) : Awaits .item frames ts
  | definition {outer : List Frame} {ts : List Token} {lp kw : Token} (h : Opens outer ts)
      (hlp : lp.kind = .mark .leftParen) (hkw : kw.kind = .keyword .define) :
      Awaits .definition outer (ts ++ [lp, kw])
  | functionName {outer : List Frame} {ts : List Token} {lp kw lp' : Token} (h : Opens outer ts)
      (hlp : lp.kind = .mark .leftParen) (hkw : kw.kind = .keyword .define)
      (hlp' : lp'.kind = .mark .leftParen) : Awaits .functionName outer (ts ++ [lp, kw, lp'])
  | parameterList {outer : List Frame} {ts : List Token} {lp kw name : Token} (h : Opens outer ts)
      (hlp : lp.kind = .mark .leftParen) (hkw : kw.kind = .keyword .define)
      (hname : name.kind = .symbol) : Awaits (.parameterList name) outer (ts ++ [lp, kw, name])
  | together {outer : List Frame} {ts params : List Token} {lp kw lp' name : Token}
      (h : Opens outer ts) (hlp : lp.kind = .mark .leftParen) (hkw : kw.kind = .keyword .define)
      (hlp' : lp'.kind = .mark .leftParen) (hname : name.kind = .symbol)
      (hparams : ∀ p ∈ params, p.kind = .symbol) :
      Awaits (.parameters name params) outer (ts ++ lp :: kw :: lp' :: name :: params.reverse)
  | apart {outer : List Frame} {ts params : List Token} {lp kw lp' name : Token}
      (h : Opens outer ts) (hlp : lp.kind = .mark .leftParen) (hkw : kw.kind = .keyword .define)
      (hname : name.kind = .symbol) (hlp' : lp'.kind = .mark .leftParen)
      (hparams : ∀ p ∈ params, p.kind = .symbol) :
      Awaits (.parameters name params) outer (ts ++ lp :: kw :: name :: lp' :: params.reverse)
  | definitionEnd {outer : List Frame} {ts hs bs params : List Token} {lp kw name : Token}
      {body : Expr} (h : Opens outer ts) (hlp : lp.kind = .mark .leftParen)
      (hkw : kw.kind = .keyword .define) (hheader : Header name params hs)
      (hbody : Spells bs [body]) :
      Awaits (.definitionEnd name params body) outer (ts ++ lp :: kw :: (hs ++ bs))

/-- Is this what the tokens `ts`, of the unfinished forms and the last one, lead to? -/
def Move.Follows (ts : List Token) : Move → Prop
  | .go await frames => Awaits await frames ts
  | .emit e => Spells ts [e]
  | .skip => ∃ t, ts = [t] ∧ t.kind = .mark .semicolon
  | .fail _ => True

/-! ## Soundness -/

theorem Frame.complete_follows {frames : List Frame} {ts us : List Token} {e : Expr}
    (h : Opens frames ts) (he : Spells us [e]) : (complete e frames).Follows (ts ++ us) := by
  cases h with
  | nil => exact he
  | call h hlp hname hargs =>
    show Awaits .item _ _
    rw [List.append_assoc, List.cons_append, List.cons_append]
    exact .item (.call h hlp hname (hargs.push he))
  | list h hlp hhead hplain htail =>
    show Awaits .item _ _
    rw [List.append_assoc, List.cons_append, List.append_assoc]
    exact .item (.list h hlp hhead hplain (htail.push he))
  | body h hlp hkw hheader =>
    show Awaits (.definitionEnd _ _ _) _ _
    rw [List.append_assoc, List.cons_append, List.cons_append]
    exact .definitionEnd h hlp hkw hheader he
  | @opened outer ts lp h hlp =>
    show (ofHead e outer).Follows (ts ++ [lp] ++ us)
    rw [List.append_assoc, List.singleton_append]
    have plain (hplain : e.HeadsList) : Awaits .item (.list e [] :: outer) (ts ++ lp :: us) := by
      have hlist : Opens (.list e [] :: outer) (ts ++ lp :: (us ++ [])) :=
        .list h hlp he hplain .nil
      rw [List.append_nil] at hlist
      exact .item hlist
    cases e with
    | symbol name =>
      obtain ⟨rfl, hname⟩ := he.symbol
      have hcall : Opens (.call name [] :: outer) (ts ++ [lp, name]) := .call h hlp hname .nil
      exact Awaits.item hcall
    | keyword t xs =>
      show (if t.kind = .keyword .define then Move.go .definition outer
        else .go .item (.list (.keyword t xs) [] :: outer)).Follows _
      split
      · rename_i hdefine
        obtain rfl := he.keyword
        exact Awaits.definition h hlp hdefine
      · rename_i hdefine
        exact plain hdefine
    | atom | operator | list | data | define | call => exact plain trivial

theorem Frame.close_follows {frames : List Frame} {ts : List Token} {rp : Token}
    (h : Opens frames ts) (hrp : rp.kind = .mark .rightParen) :
    (close frames).Follows (ts ++ [rp]) := by
  cases h with
  | nil | opened | body => trivial
  | call h hlp hname hargs =>
    show (complete _ _).Follows _
    rw [List.append_assoc, List.cons_append, List.cons_append]
    exact complete_follows h (.call hlp hname hargs hrp .nil)
  | list h hlp hhead hplain htail =>
    show (complete _ _).Follows _
    rw [List.append_assoc, List.cons_append, List.append_assoc]
    exact complete_follows h (.list hlp hhead hplain htail hrp .nil)

theorem Move.onItem_follows {frames : List Frame} {ts : List Token} (h : Opens frames ts)
    (t : Token) : (onItem frames t).Follows (ts ++ [t]) := by
  unfold onItem
  split
  · rename_i hk
    exact .item (.opened h hk)
  · rename_i hk
    exact Frame.close_follows h hk
  · rename_i hk
    cases h with
    | nil => exact ⟨t, rfl, hk⟩
    | opened | call | list | body => trivial
  · split
    · rename_i e he
      exact Frame.complete_follows h (.token he .nil)
    · trivial

/-- **A token does what the tokens of the unfinished forms allow it to do.** -/
theorem Move.onToken_follows {await : Await} {frames : List Frame} {ts : List Token}
    (h : Awaits await frames ts) (t : Token) : (onToken await frames t).Follows (ts ++ [t]) := by
  cases h with
  | item h => exact onItem_follows h t
  | definition h hlp hkw =>
    rw [List.append_assoc]
    simp only [onToken]
    split
    · rename_i hk
      exact Awaits.functionName h hlp hkw hk
    · rename_i hk
      exact Awaits.parameterList h hlp hkw hk
    · trivial
  | functionName h hlp hkw hlp' =>
    rw [List.append_assoc]
    simp only [onToken]
    split
    · rename_i hk
      show Awaits (.parameters t []) frames _
      exact .together h hlp hkw hlp' hk fun _ hp => nomatch hp
    · trivial
  | parameterList h hlp hkw hname =>
    rw [List.append_assoc]
    simp only [onToken]
    split
    · rename_i hk
      show Awaits (.parameters _ []) frames _
      exact .apart h hlp hkw hname hk fun _ hp => nomatch hp
    · trivial
  | together h hlp hkw hlp' hname hparams =>
    rw [List.append_assoc]
    simp only [onToken]
    split
    · rename_i hk
      have hparams := fun p hp => hparams p (List.mem_reverse.1 hp)
      exact Awaits.item (.body h hlp hkw (.together hlp' hname hparams hk))
    · rename_i hk
      have := Awaits.together h hlp hkw hlp' hname (List.forall_mem_cons.2 ⟨hk, hparams⟩)
      rw [List.reverse_cons] at this
      exact this
    · trivial
  | apart h hlp hkw hname hlp' hparams =>
    rw [List.append_assoc]
    simp only [onToken]
    split
    · rename_i hk
      have hparams := fun p hp => hparams p (List.mem_reverse.1 hp)
      exact Awaits.item (.body h hlp hkw (.apart hname hlp' hparams hk))
    · rename_i hk
      have := Awaits.apart h hlp hkw hname hlp' (List.forall_mem_cons.2 ⟨hk, hparams⟩)
      rw [List.reverse_cons] at this
      exact this
    · trivial
  | definitionEnd h hlp hkw hheader hbody =>
    rw [List.append_assoc, List.cons_append, List.cons_append, List.append_assoc]
    simp only [onToken]
    split
    · rename_i hk
      exact Frame.complete_follows h (.define hlp hkw hheader hbody hk .nil)
    · trivial

/-- What was read is spelled by the tokens: each expression by consecutive ones, and the unfinished
forms by the last ones. -/
structure Reader.Sound (r : Reader) (ts : List Token) : Prop where
  expressions : ∀ e ∈ r.expressions, ∃ us, us <:+: ts ∧ Spells us [e]
  mode : ∀ await frames, r.mode = .reading await frames → ∃ us, us <:+ ts ∧ Awaits await frames us

theorem Reader.sound_start : start.Sound [] where
  expressions := fun _ he => nomatch he
  mode := by
    intro await frames h
    cases h
    exact ⟨[], List.suffix_refl _, .item .nil⟩

theorem Reader.Sound.read {r : Reader} {ts : List Token} (h : r.Sound ts) (t : Token) :
    (r.read t).Sound (ts ++ [t]) := by
  have kept : ∀ e ∈ r.expressions, ∃ us, us <:+: ts ++ [t] ∧ Spells us [e] := by
    intro e he
    obtain ⟨us, hus, hspells⟩ := h.expressions e he
    exact ⟨us, hus.trans (List.prefix_append ts [t]).isInfix, hspells⟩
  have atStart : ∀ await frames, Mode.start = .reading await frames →
      ∃ us, us <:+ ts ++ [t] ∧ Awaits await frames us := by
    intro await frames he
    cases he
    exact ⟨[], List.nil_suffix, .item .nil⟩
  unfold Reader.read
  split
  · split
    · exact ⟨kept, atStart⟩
    · rename_i hmode _
      exact ⟨kept, fun await frames he => nomatch hmode.symm.trans he⟩
  · rename_i await frames hmode
    obtain ⟨us, hus, hawaits⟩ := h.mode await frames hmode
    have hsuffix : us ++ [t] <:+ ts ++ [t] := by
      obtain ⟨before, rfl⟩ := hus
      exact ⟨before, by rw [List.append_assoc]⟩
    have hfollows := Move.onToken_follows hawaits t
    generalize Move.onToken await frames t = move at hfollows
    cases move with
    | go await' frames' =>
      refine ⟨kept, ?_⟩
      intro await frames he
      cases he
      exact ⟨_, hsuffix, hfollows⟩
    | emit e =>
      exact ⟨List.forall_mem_cons.2 ⟨⟨_, hsuffix.isInfix, hfollows⟩, kept⟩, atStart⟩
    | skip =>
      refine ⟨kept, ?_⟩
      intro await' frames' he
      obtain ⟨u, hu, -⟩ := hfollows
      obtain rfl : us = [] := List.eq_nil_of_length_eq_zero (by simpa using congrArg List.length hu)
      cases hmode.symm.trans he
      exact ⟨[], List.nil_suffix, hawaits⟩
    | fail cause =>
      refine ⟨kept, ?_⟩
      intro await' frames' he
      have he : (if t.kind = .mark .semicolon then Mode.start else .skipping) =
          .reading await' frames' := he
      split at he
      · exact atStart _ _ he
      · exact nomatch he

theorem Reader.Sound.foldl {r : Reader} {ts : List Token} (h : r.Sound ts) (us : List Token) :
    (us.foldl Reader.read r).Sound (ts ++ us) := by
  induction us generalizing r ts with
  | nil => rwa [List.append_nil]
  | cons u us ih =>
    have := ih (h.read u)
    rwa [List.append_assoc] at this

theorem Reader.forall_errors {P : SyntaxError → Prop} {ts : List Token}
    (hts : ∀ t ∈ ts, ∀ cause, P (.atToken t cause)) {r : Reader} (hr : ∀ e ∈ r.errors, P e) :
    ∀ e ∈ (ts.foldl read r).errors, P e := by
  induction ts generalizing r with
  | nil => exact hr
  | cons t ts ih =>
    obtain ⟨ht, hts⟩ := List.forall_mem_cons.1 hts
    refine ih hts ?_
    unfold read
    split
    · split <;> exact hr
    · split
      · exact hr
      · exact hr
      · exact hr
      · exact List.forall_mem_cons.2 ⟨ht _, hr⟩

/-- **Every expression that is read is spelled by consecutive tokens**, also if others are not. -/
theorem Expr.parse_spells {tokens : List Token} {e : Expr} (he : e ∈ (parse tokens).expressions) :
    ∃ us, us <:+: tokens.takeWhile (·.kind != .endOfText) ∧ Spells us [e] :=
  (Reader.sound_start.foldl _).expressions e (List.mem_reverse.1 he)

/-! ## Completeness -/

theorem Move.onItem_of_ofToken {t : Token} {e : Expr} (h : Expr.ofToken t = .ok e)
    (frames : List Frame) : onItem frames t = Frame.complete e frames := by
  unfold onItem
  rcases Expr.ofToken_cases h with ⟨k, hk, -⟩ | ⟨op, hk, -⟩ | ⟨hk | hk, -⟩ | ⟨hk, -⟩ <;>
    rw [hk, h]

theorem Frame.complete_cases (e : Expr) (frames : List Frame) :
    (∃ await frames', complete e frames = .go await frames') ∨
      ∃ e', complete e frames = .emit e' := by
  cases frames with
  | nil => exact .inr ⟨e, rfl⟩
  | cons frame outer =>
    cases frame with
    | call | list | body => exact .inl ⟨_, _, rfl⟩
    | opened =>
      refine .inl ?_
      show ∃ await frames', ofHead e outer = .go await frames'
      unfold ofHead
      split
      · exact ⟨_, _, rfl⟩
      · split <;> exact ⟨_, _, rfl⟩
      · exact ⟨_, _, rfl⟩

theorem Frame.ofHead_of_headsList {head : Expr} (h : head.HeadsList) (outer : List Frame) :
    ofHead head outer = .go .item (.list head [] :: outer) := by
  cases head with
  | symbol => exact h.elim
  | keyword t xs => exact if_neg h
  | atom | operator | list | data | define | call => rfl

def Frame.InSequence : List Frame → Prop
  | [] => True
  | .call _ _ :: _ => True
  | .list _ _ :: _ => True
  | _ => False

namespace Reader

def accept (r : Reader) (e : Expr) : Reader :=
  match r.mode with
  | .reading .item frames =>
    match Frame.complete e frames with
    | .go await frames => { r with mode := .reading await frames }
    | .emit e => { r with mode := .start, expressions := e :: r.expressions }
    | _ => r
  | _ => r

variable (frames outer : List Frame) (xs : List Expr) (errs : List SyntaxError)

theorem read_go {await await' : Await} {t : Token}
    (h : Move.onToken await outer t = .go await' frames) :
    read ⟨.reading await outer, xs, errs⟩ t = ⟨.reading await' frames, xs, errs⟩ := by
  simp only [read, h]

theorem accept_go {await : Await} {e : Expr} (h : Frame.complete e outer = .go await frames) :
    accept ⟨.reading .item outer, xs, errs⟩ e = ⟨.reading await frames, xs, errs⟩ := by
  simp only [accept, h]

theorem read_leftParen {lp : Token} (hlp : lp.kind = .mark .leftParen) :
    read ⟨.reading .item frames, xs, errs⟩ lp = ⟨.reading .item (.opened :: frames), xs, errs⟩ :=
  read_go _ _ _ _ (by simp only [Move.onToken, Move.onItem, hlp])

theorem read_of_complete {await : Await} {t : Token} {e : Expr}
    (h : Move.onToken await outer t = Frame.complete e frames) :
    read ⟨.reading await outer, xs, errs⟩ t = accept ⟨.reading .item frames, xs, errs⟩ e := by
  rcases Frame.complete_cases e frames with ⟨_, _, hcomplete⟩ | ⟨_, hcomplete⟩ <;>
    simp only [read, accept, h, hcomplete]

theorem read_token {t : Token} {e : Expr} (h : Expr.ofToken t = .ok e) :
    read ⟨.reading .item frames, xs, errs⟩ t = accept ⟨.reading .item frames, xs, errs⟩ e :=
  read_of_complete _ _ _ _ (Move.onItem_of_ofToken h frames)

theorem read_callEnd {rp : Token} (hrp : rp.kind = .mark .rightParen) (name : Token)
    (args : List Expr) :
    read ⟨.reading .item (.call name args :: frames), xs, errs⟩ rp =
      accept ⟨.reading .item frames, xs, errs⟩ (.call (.symbol name) name args.reverse) := by
  refine read_of_complete _ _ _ _ ?_
  simp only [Move.onToken, Move.onItem, hrp]
  rfl

theorem read_listEnd {rp : Token} (hrp : rp.kind = .mark .rightParen) (head : Expr)
    (tail : List Expr) :
    read ⟨.reading .item (.list head tail :: frames), xs, errs⟩ rp =
      accept ⟨.reading .item frames, xs, errs⟩ (.list head tail.reverse) := by
  refine read_of_complete _ _ _ _ ?_
  simp only [Move.onToken, Move.onItem, hrp]
  rfl

theorem read_definitionEnd {rp : Token} (hrp : rp.kind = .mark .rightParen) (name : Token)
    (params : List Token) (body : Expr) :
    read ⟨.reading (.definitionEnd name params body) frames, xs, errs⟩ rp =
      accept ⟨.reading .item frames, xs, errs⟩ (.define 0 name params body) := by
  refine read_of_complete _ _ _ _ ?_
  simp only [Move.onToken, hrp]

theorem read_params {params : List Token} (h : ∀ p ∈ params, p.kind = .symbol) (name : Token)
    (ps : List Token) :
    params.foldl read ⟨.reading (.parameters name ps) outer, xs, errs⟩ =
      ⟨.reading (.parameters name (params.reverse ++ ps)) outer, xs, errs⟩ := by
  induction params generalizing ps with
  | nil => rfl
  | cons p params ih =>
    obtain ⟨hp, h⟩ := List.forall_mem_cons.1 h
    have hread : read ⟨.reading (.parameters name ps) outer, xs, errs⟩ p =
        ⟨.reading (.parameters name (p :: ps)) outer, xs, errs⟩ :=
      read_go _ _ _ _ (by simp only [Move.onToken, hp])
    rw [List.foldl_cons, hread, ih h, List.reverse_cons, List.append_assoc]
    rfl

theorem read_header {name : Token} {params hs : List Token} (h : Header name params hs) :
    hs.foldl read ⟨.reading .definition outer, xs, errs⟩ =
      ⟨.reading .item (.body name params :: outer), xs, errs⟩ := by
  have hend {rp : Token} (hrp : rp.kind = .mark .rightParen) :
      read ⟨.reading (.parameters name params.reverse) outer, xs, errs⟩ rp =
        ⟨.reading .item (.body name params :: outer), xs, errs⟩ :=
    read_go _ _ _ _ (by simp only [Move.onToken, hrp, List.reverse_reverse])
  cases h with
  | @together lp rp hlp hname hparams hrp =>
    have hopen : read ⟨.reading .definition outer, xs, errs⟩ lp =
        ⟨.reading .functionName outer, xs, errs⟩ :=
      read_go _ _ _ _ (by simp only [Move.onToken, hlp])
    have hread : read ⟨.reading .functionName outer, xs, errs⟩ name =
        ⟨.reading (.parameters name []) outer, xs, errs⟩ :=
      read_go _ _ _ _ (by simp only [Move.onToken, hname])
    rw [List.foldl_cons, hopen, List.foldl_cons, hread, List.foldl_append,
      read_params _ _ _ hparams, List.append_nil, List.foldl_cons, hend hrp]
    rfl
  | @apart lp rp hname hlp hparams hrp =>
    have hread : read ⟨.reading .definition outer, xs, errs⟩ name =
        ⟨.reading (.parameterList name) outer, xs, errs⟩ :=
      read_go _ _ _ _ (by simp only [Move.onToken, hname])
    have hopen : read ⟨.reading (.parameterList name) outer, xs, errs⟩ lp =
        ⟨.reading (.parameters name []) outer, xs, errs⟩ :=
      read_go _ _ _ _ (by simp only [Move.onToken, hlp])
    rw [List.foldl_cons, hread, List.foldl_cons, hopen, List.foldl_append,
      read_params _ _ _ hparams, List.append_nil, List.foldl_cons, hend hrp]
    rfl

/-! ### Expressions in sequence -/

theorem accept_inSequence (h : Frame.InSequence frames) (e : Expr) : ∃ frames' xs',
    Frame.InSequence frames' ∧
      accept ⟨.reading .item frames, xs, errs⟩ e = ⟨.reading .item frames', xs', errs⟩ := by
  cases frames with
  | nil => exact ⟨[], e :: xs, trivial, rfl⟩
  | cons frame outer =>
    cases frame with
    | call name args => exact ⟨.call name (e :: args) :: outer, xs, trivial, rfl⟩
    | list head tail => exact ⟨.list head (e :: tail) :: outer, xs, trivial, rfl⟩
    | opened | body => exact h.elim

theorem accept_args (name : Token) (es args : List Expr) :
    es.foldl accept ⟨.reading .item (.call name args :: outer), xs, errs⟩ =
      ⟨.reading .item (.call name (es.reverse ++ args) :: outer), xs, errs⟩ := by
  induction es generalizing args with
  | nil => rfl
  | cons e es ih =>
    rw [List.foldl_cons, List.reverse_cons, List.append_assoc]
    exact ih (e :: args)

theorem accept_elements (head : Expr) (es tail : List Expr) :
    es.foldl accept ⟨.reading .item (.list head tail :: outer), xs, errs⟩ =
      ⟨.reading .item (.list head (es.reverse ++ tail) :: outer), xs, errs⟩ := by
  induction es generalizing tail with
  | nil => rfl
  | cons e es ih =>
    rw [List.foldl_cons, List.reverse_cons, List.append_assoc]
    exact ih (e :: tail)

theorem accept_all (es : List Expr) :
    es.foldl accept ⟨.start, xs, errs⟩ = ⟨.start, es.reverse ++ xs, errs⟩ := by
  induction es generalizing xs with
  | nil => rfl
  | cons e es ih =>
    rw [List.foldl_cons, List.reverse_cons, List.append_assoc]
    exact ih (e :: xs)

end Reader

/-- Are the tokens read as the expressions, wherever these fit? -/
def Reads (ts : List Token) (es : List Expr) : Prop :=
  ∀ frames xs errs, es.length ≤ 1 ∨ Frame.InSequence frames →
    ts.foldl Reader.read ⟨.reading .item frames, xs, errs⟩ =
      es.foldl Reader.accept ⟨.reading .item frames, xs, errs⟩

theorem Reads.after {ts : List Token} {es : List Expr} (h : Spells ts es) (hreads : Reads ts es)
    {e : Expr} {frames : List Frame} (hfits : (e :: es).length ≤ 1 ∨ Frame.InSequence frames)
    (xs : List Expr) (errs : List SyntaxError) :
    ts.foldl Reader.read (Reader.accept ⟨.reading .item frames, xs, errs⟩ e) =
      es.foldl Reader.accept (Reader.accept ⟨.reading .item frames, xs, errs⟩ e) := by
  rcases hfits with hlength | hsequence
  · have hzero : es.length = 0 := Nat.le_zero.1 (Nat.le_of_succ_le_succ hlength)
    obtain rfl := List.eq_nil_of_length_eq_zero hzero
    rw [h.eq_nil]
    rfl
  · obtain ⟨frames', xs', hsequence', haccept⟩ :=
      Reader.accept_inSequence frames xs errs hsequence e
    rw [haccept]
    exact hreads frames' xs' errs (.inr hsequence')

/-- **Tokens that spell expressions are read as these expressions.** -/
theorem Spells.reads {ts : List Token} {es : List Expr} (h : Spells ts es) : Reads ts es := by
  induction h with
  | nil => exact fun _ _ _ _ => rfl
  | token ht h ih =>
    intro frames xs errs hfits
    rw [List.foldl_cons, List.foldl_cons, Reader.read_token _ _ _ ht]
    exact ih.after h hfits xs errs
  | @call lp name rp as ts args es hlp hname hargs hrp h ihargs ih =>
    intro frames xs errs hfits
    have hcallee : Reader.read ⟨.reading .item (.opened :: frames), xs, errs⟩ name =
        ⟨.reading .item (.call name [] :: frames), xs, errs⟩ := by
      rw [Reader.read_token (e := .symbol name) _ _ _ (by unfold Expr.ofToken; rw [hname])]
      exact Reader.accept_go _ _ _ _ rfl
    have hread : as.foldl Reader.read ⟨.reading .item (.call name [] :: frames), xs, errs⟩ =
        ⟨.reading .item (.call name args.reverse :: frames), xs, errs⟩ := by
      rw [ihargs (.call name [] :: frames) _ _ (.inr trivial), Reader.accept_args, List.append_nil]
    have hend := Reader.read_callEnd frames xs errs hrp name args.reverse
    rw [List.reverse_reverse] at hend
    rw [List.foldl_cons, Reader.read_leftParen _ _ _ hlp, List.foldl_cons, hcallee,
      List.foldl_append, hread, List.foldl_cons, hend]
    exact ih.after h hfits xs errs
  | @define lp kw name rp params hs bs ts body es hlp hkw hheader hbody hrp h ihbody ih =>
    intro frames xs errs hfits
    have hkeyword : Reader.read ⟨.reading .item (.opened :: frames), xs, errs⟩ kw =
        ⟨.reading .definition frames, xs, errs⟩ := by
      rw [Reader.read_token (e := .keyword kw []) _ _ _ (by unfold Expr.ofToken; rw [hkw])]
      exact Reader.accept_go _ _ _ _ (if_pos hkw)
    have hread : bs.foldl Reader.read ⟨.reading .item (.body name params :: frames), xs, errs⟩ =
        ⟨.reading (.definitionEnd name params body) frames, xs, errs⟩ :=
      ihbody _ _ _ (.inl (Nat.le_refl 1))
    have hend := Reader.read_definitionEnd frames xs errs hrp name params body
    rw [List.foldl_cons, Reader.read_leftParen _ _ _ hlp, List.foldl_cons, hkeyword,
      List.foldl_append, Reader.read_header _ _ _ hheader, List.foldl_append, hread,
      List.foldl_cons, hend]
    exact ih.after h hfits xs errs
  | @list lp rp hs tls ts head tail es hlp hhead hplain htail hrp h ihhead ihtail ih =>
    intro frames xs errs hfits
    have hlist : hs.foldl Reader.read ⟨.reading .item (.opened :: frames), xs, errs⟩ =
        ⟨.reading .item (.list head [] :: frames), xs, errs⟩ := by
      rw [ihhead _ _ _ (.inl (Nat.le_refl 1))]
      exact Reader.accept_go _ _ _ _ (Frame.ofHead_of_headsList hplain frames)
    have hread : tls.foldl Reader.read ⟨.reading .item (.list head [] :: frames), xs, errs⟩ =
        ⟨.reading .item (.list head tail.reverse :: frames), xs, errs⟩ := by
      rw [ihtail (.list head [] :: frames) _ _ (.inr trivial), Reader.accept_elements,
        List.append_nil]
    have hend := Reader.read_listEnd frames xs errs hrp head tail.reverse
    rw [List.reverse_reverse] at hend
    rw [List.foldl_cons, Reader.read_leftParen _ _ _ hlp, List.foldl_append, hlist,
      List.foldl_append, hread, List.foldl_cons, hend]
    exact ih.after h hfits xs errs

/-- Tokens that spell expressions are read without an error, outside all forms. -/
theorem Spells.read_start {ts : List Token} {es : List Expr} (h : Spells ts es) :
    ts.foldl Reader.read .start = ⟨.start, es.reverse, []⟩ := by
  have hall := Reader.accept_all [] [] es
  rw [List.append_nil] at hall
  exact (h.reads [] [] [] (.inr trivial)).trans hall

end MiniLisp
