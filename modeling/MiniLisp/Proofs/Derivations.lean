import MiniLisp.Proofs.Grammar
import MiniLisp.Proofs.Reading
import MiniLisp.Proofs.Scanning

/-!
# Derivations

The whole grammar, with its derivations as data: a derivation holds every token, parentheses and
semicolons included, in the place that the grammar gives to it. Tokens are read without an error
exactly if they have a derivation, and they have at most one.

* `Form`, `Form.Derives` : how one expression is written;
* `Derivation`, `Derivation.Derives` : how a program is written, with its semicolons;
* `Form.Derives.spells`, `Spells.forms` : the forms that derive expressions are what spells them;
* `Form.Derives.unique` : no form of an expression starts another one;
* `Derivation.Derives.read` : the tokens of a derivation are read as what it derives;
* `Reader.read_step` : what one token does to the reader;
* `Reader.Exact` : all that was read without an error has a derivation;
* `Expr.parse_iff_derives` : the theorem.

That two derivations of the same tokens derive the same expressions is read off the reader, which
has one answer. An expression keeps all its tokens but the parentheses, so that little is left to
compare in two forms of one expression.
-/

namespace MiniLisp

open List

/-! ## The grammar -/

/-- How an expression is written: its tokens, in the places that they have in it. A definition can
be written in two ways. -/
inductive Form where
  | token (t : Token)
  | call (lp name : Token) (args : List Form) (rp : Token)
  /-- `(define (name params...) body)` -/
  | defineTogether (lp kw lp' name : Token) (params : List Token) (rp' : Token) (body : Form)
      (rp : Token)
  /-- `(define name (params...) body)` -/
  | defineApart (lp kw name lp' : Token) (params : List Token) (rp' : Token) (body : Form)
      (rp : Token)
  | list (lp : Token) (head : Form) (tail : List Form) (rp : Token)

namespace Form

mutual

def tokens : Form → List Token
  | token t => [t]
  | call lp name args rp => lp :: name :: (tokensAll args ++ [rp])
  | defineTogether lp kw lp' name params rp' body rp =>
    lp :: kw :: lp' :: name :: (params ++ rp' :: (body.tokens ++ [rp]))
  | defineApart lp kw name lp' params rp' body rp =>
    lp :: kw :: name :: lp' :: (params ++ rp' :: (body.tokens ++ [rp]))
  | list lp head tail rp => lp :: (head.tokens ++ (tokensAll tail ++ [rp]))

def tokensAll : List Form → List Token
  | [] => []
  | f :: fs => f.tokens ++ tokensAll fs

end

/-- The grammar of expressions. -/
inductive Derives : Form → Expr → Prop
  | keyword {t : Token} {k : Keyword} (hk : t.kind = .keyword k) :
      Derives (.token t) (.keyword t [])
  | operator {t : Token} {op : Operator} (hk : t.kind = .mark (.operator op)) :
      Derives (.token t) (.operator t [])
  | atom {t : Token} {value : Literal} (hk : t.kind = .number ∨ t.kind = .string)
      (hvalue : t.literal? = some value) : Derives (.token t) (.atom value t)
  | symbol {t : Token} (hk : t.kind = .symbol) : Derives (.token t) (.symbol t)
  | call {lp name rp : Token} {fs : List Form} {args : List Expr}
      (hlp : lp.kind = .mark .leftParen) (hname : name.kind = .symbol)
      (hargs : Forall₂ Derives fs args) (hrp : rp.kind = .mark .rightParen) :
      Derives (.call lp name fs rp) (.call (.symbol name) name args)
  | defineTogether {lp kw lp' name rp' rp : Token} {params : List Token} {f : Form} {body : Expr}
      (hlp : lp.kind = .mark .leftParen) (hkw : kw.kind = .keyword .define)
      (hlp' : lp'.kind = .mark .leftParen) (hname : name.kind = .symbol)
      (hparams : ∀ p ∈ params, p.kind = .symbol) (hrp' : rp'.kind = .mark .rightParen)
      (hbody : Derives f body) (hrp : rp.kind = .mark .rightParen) :
      Derives (.defineTogether lp kw lp' name params rp' f rp) (.define 0 name params body)
  | defineApart {lp kw name lp' rp' rp : Token} {params : List Token} {f : Form} {body : Expr}
      (hlp : lp.kind = .mark .leftParen) (hkw : kw.kind = .keyword .define)
      (hname : name.kind = .symbol) (hlp' : lp'.kind = .mark .leftParen)
      (hparams : ∀ p ∈ params, p.kind = .symbol) (hrp' : rp'.kind = .mark .rightParen)
      (hbody : Derives f body) (hrp : rp.kind = .mark .rightParen) :
      Derives (.defineApart lp kw name lp' params rp' f rp) (.define 0 name params body)
  | list {lp rp : Token} {f : Form} {fs : List Form} {head : Expr} {tail : List Expr}
      (hlp : lp.kind = .mark .leftParen) (hhead : Derives f head) (hplain : head.HeadsList)
      (htail : Forall₂ Derives fs tail) (hrp : rp.kind = .mark .rightParen) :
      Derives (.list lp f fs rp) (.list head tail)

/-- Induction on forms and what they derive, with a hypothesis for every form of a list. -/
theorem Derives.induct {P : Form → Expr → Prop} {f : Form} {e : Expr} (h : f.Derives e)
    (token : ∀ t e, (Form.token t).Derives e → P (.token t) e)
    (call : ∀ lp name fs rp args, lp.kind = .mark .leftParen → name.kind = .symbol →
      Forall₂ P fs args → rp.kind = .mark .rightParen →
      P (.call lp name fs rp) (.call (.symbol name) name args))
    (defineTogether : ∀ lp kw lp' name params rp' f rp body, lp.kind = .mark .leftParen →
      kw.kind = .keyword .define → lp'.kind = .mark .leftParen → name.kind = .symbol →
      (∀ p ∈ params, p.kind = .symbol) → rp'.kind = .mark .rightParen → P f body →
      rp.kind = .mark .rightParen →
      P (.defineTogether lp kw lp' name params rp' f rp) (.define 0 name params body))
    (defineApart : ∀ lp kw name lp' params rp' f rp body, lp.kind = .mark .leftParen →
      kw.kind = .keyword .define → name.kind = .symbol → lp'.kind = .mark .leftParen →
      (∀ p ∈ params, p.kind = .symbol) → rp'.kind = .mark .rightParen → P f body →
      rp.kind = .mark .rightParen →
      P (.defineApart lp kw name lp' params rp' f rp) (.define 0 name params body))
    (list : ∀ lp f fs rp head tail, lp.kind = .mark .leftParen → P f head → head.HeadsList →
      Forall₂ P fs tail → rp.kind = .mark .rightParen →
      P (.list lp f fs rp) (.list head tail)) :
    P f e :=
  @Derives.rec (fun f e _ => P f e) (fun fs es _ => Forall₂ P fs es)
    (fun hk => token _ _ (.keyword hk)) (fun hk => token _ _ (.operator hk))
    (fun hk hvalue => token _ _ (.atom hk hvalue)) (fun hk => token _ _ (.symbol hk))
    (fun hlp hname _ hrp ihs => call _ _ _ _ _ hlp hname ihs hrp)
    (fun hlp hkw hlp' hname hparams hrp' _ hrp ih =>
      defineTogether _ _ _ _ _ _ _ _ _ hlp hkw hlp' hname hparams hrp' ih hrp)
    (fun hlp hkw hname hlp' hparams hrp' _ hrp ih =>
      defineApart _ _ _ _ _ _ _ _ _ hlp hkw hname hlp' hparams hrp' ih hrp)
    (fun hlp _ hplain _ hrp ih ihs => list _ _ _ _ _ _ hlp ih hplain ihs hrp)
    .nil (fun _ _ ih ihs => .cons ih ihs) f e h

end Form

/-- What a program is made of, outside all forms. -/
inductive Part where
  | semicolon (t : Token)
  | form (f : Form)

/-- How a program is written. -/
abbrev Derivation := List Part

def Part.tokens : Part → List Token
  | semicolon t => [t]
  | form f => f.tokens

namespace Derivation

def tokens (d : Derivation) : List Token := d.flatMap Part.tokens

/-- The grammar of programs: semicolons may stand between expressions, before and after them. -/
inductive Derives : Derivation → List Expr → Prop
  | nil : Derives [] []
  | semicolon {t : Token} {d : Derivation} {es : List Expr} (ht : t.kind = .mark .semicolon)
      (h : Derives d es) : Derives (.semicolon t :: d) es
  | form {f : Form} {e : Expr} {d : Derivation} {es : List Expr} (hf : f.Derives e)
      (h : Derives d es) : Derives (.form f :: d) (e :: es)

theorem Derives.append {d d' : Derivation} {es es' : List Expr} (h : d.Derives es)
    (h' : d'.Derives es') : Derives (d ++ d') (es ++ es') := by
  induction h with
  | nil => exact h'
  | semicolon ht _ ih => exact .semicolon ht ih
  | form hf _ ih => exact .form hf ih

end Derivation

/-! ## Forms and what spells them -/

theorem Expr.ofToken_of_derives {t : Token} {e : Expr} (h : (Form.token t).Derives e) :
    ofToken t = .ok e := by
  unfold ofToken
  cases h with
  | keyword hk => rw [hk]
  | operator hk => rw [hk]
  | atom hk hvalue =>
    rcases hk with hk | hk
    · simp only [hk, hvalue]
    · simp only [hk, hvalue]
  | symbol hk => rw [hk]

theorem Form.derives_of_ofToken {t : Token} {e : Expr} (h : Expr.ofToken t = .ok e) :
    (Form.token t).Derives e := by
  rcases Expr.ofToken_cases h with ⟨k, hk, rfl⟩ | ⟨op, hk, rfl⟩ | ⟨hk, value, hvalue, rfl⟩ |
    ⟨hk, rfl⟩
  · exact .keyword hk
  · exact .operator hk
  · exact .atom hk hvalue
  · exact .symbol hk

namespace Form

theorem spells_tokensAll {fs : List Form} {es : List Expr}
    (h : Forall₂ (fun f e => Spells f.tokens [e]) fs es) : Spells (tokensAll fs) es := by
  induction h with
  | nil => exact .nil
  | cons hf _ ih => exact hf.append ih

theorem Derives.spells {f : Form} {e : Expr} (h : f.Derives e) : Spells f.tokens [e] := by
  refine h.induct (P := fun f e => Spells f.tokens [e]) ?token ?call ?defineTogether ?defineApart
    ?list
  case token => exact fun t e h => .token (Expr.ofToken_of_derives h) .nil
  case call =>
    intro lp name fs rp args hlp hname ihs hrp
    exact .call hlp hname (spells_tokensAll ihs) hrp .nil
  case defineTogether =>
    intro lp kw lp' name params rp' f rp body hlp hkw hlp' hname hparams hrp' ih hrp
    have hheader : Header name params _ := .together hlp' hname hparams hrp'
    have hdefine := Spells.define hlp hkw hheader ih hrp .nil
    simpa only [tokens, List.cons_append, List.append_assoc, List.nil_append] using hdefine
  case defineApart =>
    intro lp kw name lp' params rp' f rp body hlp hkw hname hlp' hparams hrp' ih hrp
    have hheader : Header name params _ := .apart hname hlp' hparams hrp'
    have hdefine := Spells.define hlp hkw hheader ih hrp .nil
    simpa only [tokens, List.cons_append, List.append_assoc, List.nil_append] using hdefine
  case list =>
    intro lp f fs rp head tail hlp ih hplain ihs hrp
    exact .list hlp ih hplain (spells_tokensAll ihs) hrp .nil

end Form

/-- Tokens that spell expressions are the tokens of forms that derive them. -/
theorem Spells.forms {ts : List Token} {es : List Expr} (h : Spells ts es) :
    ∃ fs, Forall₂ Form.Derives fs es ∧ Form.tokensAll fs = ts := by
  induction h with
  | nil => exact ⟨[], .nil, rfl⟩
  | token ht _ ih =>
    obtain ⟨fs, hfs, rfl⟩ := ih
    exact ⟨.token _ :: fs, .cons (Form.derives_of_ofToken ht) hfs, rfl⟩
  | @call lp name rp as ts args es hlp hname _ hrp _ ihargs ih =>
    obtain ⟨gs, hgs, rfl⟩ := ihargs
    obtain ⟨fs, hfs, rfl⟩ := ih
    refine ⟨.call lp name gs rp :: fs, .cons (.call hlp hname hgs hrp) hfs, ?_⟩
    simp only [Form.tokensAll, Form.tokens, List.cons_append, List.append_assoc, List.nil_append]
  | @define lp kw name rp params hs bs ts body es hlp hkw hheader _ hrp _ ihbody ih =>
    obtain ⟨gs, hgs, rfl⟩ := ihbody
    obtain ⟨g, _, hg, hnil, rfl⟩ := forall₂_cons_right_iff.1 hgs
    obtain rfl := forall₂_nil_right_iff.1 hnil
    obtain ⟨fs, hfs, rfl⟩ := ih
    cases hheader with
    | @together lp' rp' hlp' hname hparams hrp' =>
      refine ⟨.defineTogether lp kw lp' name params rp' g rp :: fs,
        .cons (.defineTogether hlp hkw hlp' hname hparams hrp' hg hrp) hfs, ?_⟩
      simp only [Form.tokensAll, Form.tokens, List.cons_append, List.append_assoc,
        List.nil_append, List.append_nil]
    | @apart lp' rp' hname hlp' hparams hrp' =>
      refine ⟨.defineApart lp kw name lp' params rp' g rp :: fs,
        .cons (.defineApart hlp hkw hname hlp' hparams hrp' hg hrp) hfs, ?_⟩
      simp only [Form.tokensAll, Form.tokens, List.cons_append, List.append_assoc,
        List.nil_append, List.append_nil]
  | @list lp rp hs tls ts head tail es hlp _ hplain _ hrp _ ihhead ihtail ih =>
    obtain ⟨gs, hgs, rfl⟩ := ihhead
    obtain ⟨g, _, hg, hnil, rfl⟩ := forall₂_cons_right_iff.1 hgs
    obtain rfl := forall₂_nil_right_iff.1 hnil
    obtain ⟨ks, hks, rfl⟩ := ihtail
    obtain ⟨fs, hfs, rfl⟩ := ih
    refine ⟨.list lp g ks rp :: fs, .cons (.list hlp hg hplain hks hrp) hfs, ?_⟩
    simp only [Form.tokensAll, Form.tokens, List.cons_append, List.append_assoc, List.nil_append,
      List.append_nil]

/-! ## Unambiguity -/

namespace Form

/-- Is the form the only one of `e` that a text can start with? -/
def Unique (f : Form) (e : Expr) : Prop :=
  ∀ (g : Form) (r r' : List Token), g.Derives e → f.tokens ++ r = g.tokens ++ r' →
    f = g ∧ r = r'

theorem eq_of_tokensAll {fs : List Form} {es : List Expr} (h : Forall₂ Unique fs es)
    {gs : List Form} (hgs : Forall₂ Derives gs es) {r r' : List Token}
    (htokens : tokensAll fs ++ r = tokensAll gs ++ r') : fs = gs ∧ r = r' := by
  induction h generalizing gs with
  | nil =>
    obtain rfl := forall₂_nil_right_iff.1 hgs
    exact ⟨rfl, htokens⟩
  | @cons f e fs es hf _ ih =>
    obtain ⟨g, ks, hg, hks, rfl⟩ := forall₂_cons_right_iff.1 hgs
    rw [tokensAll, tokensAll, List.append_assoc, List.append_assoc] at htokens
    obtain ⟨rfl, hrest⟩ := hf g _ _ hg htokens
    obtain ⟨rfl, hr⟩ := ih hks hrest
    exact ⟨rfl, hr⟩

/-- **No form of an expression starts another form of it.** -/
theorem Derives.unique {f : Form} {e : Expr} (h : f.Derives e) : f.Unique e := by
  refine h.induct ?token ?call ?defineTogether ?defineApart ?list
  case token =>
    intro t e h g r r' hg htokens
    cases h <;> cases hg <;> exact ⟨rfl, (List.cons.inj htokens).2⟩
  case call =>
    intro lp name fs rp args _ _ ihs _ g r r' hg htokens
    cases hg with
    | call _ _ hgs _ =>
      simp only [tokens, List.cons_append, List.append_assoc, List.nil_append,
        List.cons.injEq, true_and] at htokens
      obtain ⟨rfl, htokens⟩ := htokens
      obtain ⟨rfl, hend⟩ := eq_of_tokensAll ihs hgs htokens
      cases hend
      exact ⟨rfl, rfl⟩
  case defineTogether =>
    intro lp kw lp' name params rp' f rp body _ _ hlp' _ _ _ ih _ g r r' hg htokens
    cases hg with
    | defineTogether _ _ _ _ _ _ hg _ =>
      simp only [tokens, List.cons_append, List.append_assoc, List.nil_append,
        List.cons.injEq, true_and, List.append_cancel_left_eq] at htokens
      obtain ⟨rfl, rfl, rfl, rfl, htokens⟩ := htokens
      obtain ⟨rfl, hend⟩ := ih _ _ _ hg htokens
      cases hend
      exact ⟨rfl, rfl⟩
    | defineApart _ _ hname =>
      -- the third token is a parenthesis in one and the name in the other
      simp only [tokens, List.cons_append, List.cons.injEq] at htokens
      obtain ⟨-, -, rfl, -⟩ := htokens
      exact nomatch hlp'.symm.trans hname
  case defineApart =>
    intro lp kw name lp' params rp' f rp body _ _ hname _ _ _ ih _ g r r' hg htokens
    cases hg with
    | defineTogether _ _ hlp' =>
      simp only [tokens, List.cons_append, List.cons.injEq] at htokens
      obtain ⟨-, -, rfl, -⟩ := htokens
      exact nomatch hlp'.symm.trans hname
    | defineApart _ _ _ _ _ _ hg _ =>
      simp only [tokens, List.cons_append, List.append_assoc, List.nil_append,
        List.cons.injEq, true_and, List.append_cancel_left_eq] at htokens
      obtain ⟨rfl, rfl, rfl, rfl, htokens⟩ := htokens
      obtain ⟨rfl, hend⟩ := ih _ _ _ hg htokens
      cases hend
      exact ⟨rfl, rfl⟩
  case list =>
    intro lp f fs rp head tail _ ih _ ihs _ g r r' hg htokens
    cases hg with
    | list _ hg _ hgs _ =>
      simp only [tokens, List.cons_append, List.append_assoc, List.nil_append,
        List.cons.injEq] at htokens
      obtain ⟨rfl, htokens⟩ := htokens
      obtain ⟨rfl, htail⟩ := ih _ _ _ hg htokens
      obtain ⟨rfl, hend⟩ := eq_of_tokensAll ihs hgs htail
      cases hend
      exact ⟨rfl, rfl⟩

end Form

theorem Form.Derives.head {f : Form} {e : Expr} (h : f.Derives e) :
    ∃ t ts, f.tokens = t :: ts ∧ t.kind ≠ .mark .semicolon := by
  have hne {t : Token} {k : Kind} (hk : t.kind = k) (hne : k ≠ .mark .semicolon) :
      t.kind ≠ .mark .semicolon := fun hs => hne (hk.symm.trans hs)
  cases h with
  | keyword hk => exact ⟨_, _, rfl, hne hk nofun⟩
  | operator hk => exact ⟨_, _, rfl, hne hk nofun⟩
  | atom hk => exact ⟨_, _, rfl, hk.elim (hne · nofun) (hne · nofun)⟩
  | symbol hk => exact ⟨_, _, rfl, hne hk nofun⟩
  | call hlp | defineTogether hlp | defineApart hlp | list hlp => exact ⟨_, _, rfl, hne hlp nofun⟩

namespace Derivation

/-- A derivation of a program is the only one with its tokens and its expressions. -/
theorem Derives.unique_of_eq {d : Derivation} {es : List Expr} (h : d.Derives es)
    {d' : Derivation} (h' : d'.Derives es) (htokens : d.tokens = d'.tokens) : d = d' := by
  induction h generalizing d' with
  | nil =>
    cases h' with
    | nil => rfl
    | semicolon => exact nomatch htokens
  | @semicolon t d es ht h ih =>
    cases h' with
    | nil => exact nomatch htokens
    | @semicolon u d' _ hu h' =>
      obtain ⟨rfl, hrest⟩ := List.cons.inj htokens
      rw [ih h' hrest]
    | @form f e d' _ hf h' =>
      obtain ⟨u, us, hus, hne⟩ := hf.head
      simp only [tokens, List.flatMap_cons, Part.tokens, hus, List.cons_append,
        List.nil_append] at htokens
      obtain ⟨rfl, -⟩ := List.cons.inj htokens
      exact absurd ht hne
  | @form f e d es hf h ih =>
    cases h' with
    | @semicolon u d' _ hu h' =>
      obtain ⟨t, ts, hts, hne⟩ := hf.head
      simp only [tokens, List.flatMap_cons, Part.tokens, hts, List.cons_append,
        List.nil_append] at htokens
      obtain ⟨rfl, -⟩ := List.cons.inj htokens
      exact absurd hu hne
    | @form g _ d' _ hg h' =>
      obtain ⟨rfl, hrest⟩ := hf.unique g _ _ hg htokens
      rw [ih h' hrest]

/-! ## Reading derivations -/

/-- The tokens of a derivation are read as what it derives, whatever was read before. -/
theorem Derives.read {d : Derivation} {es : List Expr} (h : d.Derives es) (xs : List Expr)
    (errs : List SyntaxError) :
    d.tokens.foldl Reader.read ⟨.start, xs, errs⟩ = ⟨.start, es.reverse ++ xs, errs⟩ := by
  induction h generalizing xs with
  | nil => rfl
  | @semicolon t d es ht _ ih =>
    have hskip : Reader.read ⟨.start, xs, errs⟩ t = ⟨.start, xs, errs⟩ := by
      simp only [Reader.read, Reader.Mode.start, Move.onToken, Move.onItem, ht, List.isEmpty_nil,
        if_true]
    rw [tokens, List.flatMap_cons, List.foldl_append]
    show List.foldl Reader.read (Reader.read ⟨.start, xs, errs⟩ t) _ = _
    rw [hskip]
    exact ih xs
  | @form f e d es hf _ ih =>
    have hread : f.tokens.foldl Reader.read ⟨.start, xs, errs⟩ = ⟨.start, e :: xs, errs⟩ :=
      hf.spells.reads [] xs errs (.inr trivial)
    rw [tokens, List.flatMap_cons, List.foldl_append]
    show List.foldl Reader.read (f.tokens.foldl Reader.read ⟨.start, xs, errs⟩) _ = _
    rw [hread, List.reverse_cons, List.append_assoc]
    exact ih (e :: xs)

theorem Derives.parse {d : Derivation} {es : List Expr} (h : d.Derives es)
    (hd : ∀ t ∈ d.tokens, t.kind ≠ .endOfText) : Expr.parse d.tokens = ⟨es, []⟩ := by
  have hread := h.read [] []
  rw [List.append_nil] at hread
  rw [Expr.parse_unended hd, Reader.start, hread]
  show (⟨es.reverse.reverse, []⟩ : Parse) = _
  rw [List.reverse_reverse]

end Derivation

/-! ## Deriving what was read -/

theorem Awaits.eq_nil {us : List Token} (h : Awaits .item [] us) : us = [] := by
  cases h with
  | item h =>
    cases h
    rfl

theorem Awaits.eq_start {await : Await} {frames : List Frame} (h : Awaits await frames []) :
    await = .item ∧ frames = [] := by
  generalize hus : ([] : List Token) = us at h
  cases h with
  | item h =>
    cases h with
    | nil => exact ⟨rfl, rfl⟩
    | opened | call | list | body => simp at hus
  | definition | functionName | parameterList | together | apart | definitionEnd => simp at hus

namespace Reader

/-- The reader after token `t`, where `us` are the tokens of the unfinished forms and `xs` and
`errs` the expressions and errors from before. -/
inductive Step (us : List Token) (t : Token) (xs : List Expr) (errs : List SyntaxError) :
    Reader → Prop
  | go {await : Await} {frames : List Frame} (h : Awaits await frames (us ++ [t])) :
      Step us t xs errs ⟨.reading await frames, xs, errs⟩
  | emit {e : Expr} (h : Spells (us ++ [t]) [e]) : Step us t xs errs ⟨.start, e :: xs, errs⟩
  | skip (hus : us = []) (ht : t.kind = .mark .semicolon) : Step us t xs errs ⟨.start, xs, errs⟩
  | fail (cause : SyntaxError.Cause) :
      Step us t xs errs ⟨if t.kind = .mark .semicolon then .start else .skipping, xs,
        SyntaxError.atToken t cause :: errs⟩

theorem read_step {await : Await} {frames : List Frame} {us : List Token}
    (h : Awaits await frames us) (t : Token) (xs : List Expr) (errs : List SyntaxError) :
    Step us t xs errs (read ⟨.reading await frames, xs, errs⟩ t) := by
  have hfollows := Move.onToken_follows h t
  simp only [read]
  generalize Move.onToken await frames t = move at hfollows
  cases move with
  | go await' frames' => exact .go hfollows
  | emit e => exact .emit hfollows
  | fail cause => exact .fail cause
  | skip =>
    obtain ⟨u, hu, hsemicolon⟩ := hfollows
    have hus : us = [] := List.eq_nil_of_length_eq_zero (by simpa using congrArg List.length hu)
    subst hus
    cases hu
    obtain ⟨rfl, rfl⟩ := h.eq_start
    exact .skip rfl hsemicolon

end Reader

/-- If there is no error, then the tokens are those of a derivation of the expressions, followed by
those of the unfinished forms. -/
def Reader.Exact (r : Reader) (ts : List Token) : Prop :=
  r.errors = [] → ∃ (d : Derivation) (us : List Token) (await : Await) (frames : List Frame),
    d.Derives r.expressions.reverse ∧ ts = d.tokens ++ us ∧ r.mode = .reading await frames ∧
      Awaits await frames us

theorem Derivation.Derives.push {d : Derivation} {es : List Expr} (h : d.Derives es.reverse)
    {us : List Token} {e : Expr} (he : Spells us [e]) :
    ∃ d' : Derivation, d'.Derives (e :: es).reverse ∧ d'.tokens = d.tokens ++ us := by
  obtain ⟨fs, hfs, rfl⟩ := he.forms
  obtain ⟨f, _, hf, hnil, rfl⟩ := forall₂_cons_right_iff.1 hfs
  obtain rfl := forall₂_nil_right_iff.1 hnil
  refine ⟨d ++ [.form f], ?_, ?_⟩
  · rw [List.reverse_cons]
    exact h.append (.form hf .nil)
  · simp only [tokens, List.flatMap_append, List.flatMap_singleton, Part.tokens, Form.tokensAll,
      List.append_nil]

namespace Reader.Exact

theorem start : Reader.start.Exact [] := fun _ => ⟨[], [], _, _, .nil, rfl, rfl, .item .nil⟩

theorem read {r : Reader} {ts : List Token} (h : r.Exact ts) (t : Token) :
    (r.read t).Exact (ts ++ [t]) := by
  intro herrors
  obtain ⟨mode, xs, errs⟩ := r
  cases mode with
  | skipping =>
    have hbefore : errs = [] := by
      unfold Reader.read at herrors
      dsimp only at herrors
      split at herrors <;> exact herrors
    obtain ⟨-, -, await, frames, -, -, hmode, -⟩ := h hbefore
    exact nomatch hmode
  | reading await frames =>
    cases errs with
    | cons =>
      unfold Reader.read at herrors
      dsimp only at herrors
      split at herrors <;> exact nomatch herrors
    | nil =>
      obtain ⟨d, us, _, _, hd, rfl, hmode, hus⟩ := h rfl
      cases hmode
      have hstep := read_step hus t xs []
      generalize Reader.read ⟨.reading await frames, xs, []⟩ t = after at hstep herrors
      cases hstep with
      | @go await' frames' h => exact ⟨d, us ++ [t], _, _, hd, List.append_assoc .., rfl, h⟩
      | emit he =>
        obtain ⟨d', hd', htokens⟩ := hd.push he
        refine ⟨d', [], _, _, hd', ?_, rfl, .item .nil⟩
        rw [htokens, List.append_nil, List.append_assoc]
      | skip hnil ht =>
        subst hnil
        refine ⟨d ++ [.semicolon t], [], _, _, ?_, ?_, rfl, .item .nil⟩
        · have := hd.append (.semicolon ht .nil)
          rwa [List.append_nil] at this
        · simp only [Derivation.tokens, List.flatMap_append, List.flatMap_singleton, Part.tokens,
            List.append_nil]
      | fail cause => exact nomatch herrors

theorem foldl {r : Reader} {ts : List Token} (h : r.Exact ts) (us : List Token) :
    (us.foldl Reader.read r).Exact (ts ++ us) := by
  induction us generalizing r ts with
  | nil => rwa [List.append_nil]
  | cons u us ih =>
    have := ih (h.read u)
    rwa [List.append_assoc] at this

end Reader.Exact

theorem Expr.derives_of_parse {ts : List Token} (hts : ∀ t ∈ ts, t.kind ≠ .endOfText)
    {es : List Expr} (h : parse ts = ⟨es, []⟩) :
    ∃ d : Derivation, d.tokens = ts ∧ d.Derives es := by
  rw [parse_unended hts] at h
  have hsettled := Reader.settled_foldl Reader.settled_start ts
  have hexact := Reader.Exact.start.foldl ts
  generalize ts.foldl Reader.read .start = r at h hsettled hexact
  have hexpressions : r.expressions.reverse = es := congrArg Parse.expressions h
  have hstart := Reader.start_of_no_errors hsettled (congrArg Parse.errors h)
  rw [hstart] at hexact
  obtain ⟨d, us, await, frames, hd, htokens, hmode, hus⟩ := hexact rfl
  cases hmode
  obtain rfl := hus.eq_nil
  rw [List.nil_append, List.append_nil] at htokens
  exact ⟨d, htokens.symm, hexpressions ▸ hd⟩

/-- **Tokens are read without an error, as some expressions, exactly if they have a derivation of
these**; and they have at most one derivation. -/
theorem Expr.parse_iff_derives {ts : List Token} (hts : ∀ t ∈ ts, t.kind ≠ .endOfText) :
    (∀ es, parse ts = ⟨es, []⟩ ↔ ∃ d : Derivation, d.tokens = ts ∧ d.Derives es) ∧
      ∀ (d d' : Derivation) (es es' : List Expr), d.tokens = ts → d'.tokens = ts →
        d.Derives es → d'.Derives es' → d = d' ∧ es = es' := by
  constructor
  · intro es
    constructor
    · exact derives_of_parse hts
    · rintro ⟨d, rfl, hd⟩
      exact hd.parse hts
  · rintro d d' es es' rfl htokens hd hd'
    have hparse := hd.parse hts
    rw [← htokens, hd'.parse (htokens ▸ hts)] at hparse
    cases hparse
    exact ⟨hd.unique_of_eq hd' htokens.symm, rfl⟩

/-- A definition and a call, with semicolons, have one derivation. -/
theorem Expr.parse_define_then_call :
    let ts := tokensFrom 1 ";(define (f x) (+ x 1)); (f 2)"
    (parse ts).expressions.map Expr.text = ["(define f (x) (+ x 1))", "(f 2)"] ∧
      ∃ d : Derivation, d.tokens = ts ∧ d.Derives (parse ts).expressions ∧
        ∀ (d' : Derivation) (es : List Expr), d'.tokens = ts → d'.Derives es → d = d' := by
  intro ts
  have hclean : (parse ts).errors = [] := by decide +kernel
  have hparse : parse ts = ⟨(parse ts).expressions, []⟩ := by rw [← hclean]
  obtain ⟨hiff, hunique⟩ := parse_iff_derives (tokensFrom_kind 1 ";(define (f x) (+ x 1)); (f 2)")
  obtain ⟨d, htokens, hd⟩ := (hiff _).1 hparse
  refine ⟨by decide +kernel, d, htokens, hd, ?_⟩
  intro d' es htokens' hd'
  exact (hunique d d' _ es htokens htokens' hd hd').1

end MiniLisp
