import MiniLisp.Proofs.Alike
import MiniLisp.Proofs.Grammar
import MiniLisp.Proofs.Scanning

/-!
# Printed texts

A printed text is put together from pieces, each of which is followed by a delimiter: a space, a
line break, or a closing parenthesis. Before a delimiter every piece ends, so the text is cut into
just these pieces.

* `Printed cs ps` : the characters `cs` are cut into the pieces `ps`, without an error;
* `Yields cs Q` : the tokens of these pieces are `Q`, on whatever line they stand;
* `Expr.Prints` : the tokens of a printed expression spell it, up to lines and the spelling of
  numbers;
* `Expr.Prints.spaced`, `Expr.Prints.intercalate` : several expressions;
* `Expr.Prints.call`, `Expr.Prints.define`, `Expr.Prints.list` : the forms.
-/

namespace MiniLisp

open List

def IsDelimiter (c : Char) : Prop := c = ' ' ∨ c = '\n' ∨ c = ')'

/-- A text that is empty or starts with a delimiter. -/
def Delimited (rest : List Char) : Prop := ∀ c ∈ rest.head?, IsDelimiter c

theorem Delimited.append {cs rest : List Char} (hcs : Delimited cs) (hrest : Delimited rest) :
    Delimited (cs ++ rest) := by
  cases cs with
  | nil => exact hrest
  | cons c cs => exact hcs

theorem IsDelimiter.delimited {c : Char} (h : IsDelimiter c) (cs : List Char) :
    Delimited (c :: cs) := by
  intro d hd
  obtain rfl := Option.mem_some_iff.1 hd
  exact h

theorem delimited_nil : Delimited [] := fun _ hc => nomatch hc

def Piece.IsToken : Piece → Prop
  | .comment _ => False
  | .openString _ => False
  | _ => True

theorem Piece.Ends.of_delimited {p : Piece} (hp : p.IsToken) {rest : List Char}
    (h : Delimited rest) : p.Ends rest := by
  have hall : ∀ c, IsDelimiter c → isNumberChar c = false ∧ isWordChar c = false ∧ c ≠ '/' := by
    rintro c (rfl | rfl | rfl) <;> decide +kernel
  cases p with
  | number => exact fun c hc => (hall c (h c hc)).1
  | word => exact fun c hc => (hall c (h c hc)).2.1
  | mark m => exact fun _ hc => (hall '/' (h '/' hc)).2.2 rfl
  | comment | openString => exact hp.elim
  | blank | string | stray => trivial

/-! ## Pieces -/

/-- Before a delimiter, the characters are cut into these pieces, and none is an error. -/
structure Printed (cs : List Char) (ps : List Piece) : Prop where
  text : ps.flatMap Piece.text = cs
  wellCut : ∀ rest, Delimited rest → Piece.WellCut ps rest
  errors : ∀ line, Piece.errors line ps = []

namespace Printed

theorem nil : Printed [] [] := ⟨rfl, fun _ _ => trivial, fun _ => rfl⟩

theorem append {cs ds : List Char} {ps qs : List Piece} (hps : Printed cs ps)
    (hqs : Printed ds qs) (hds : Delimited ds) : Printed (cs ++ ds) (ps ++ qs) where
  text := by
    rw [List.flatMap_append, hps.text, hqs.text]
  wellCut rest hrest := by
    have hdelimited : Delimited (qs.flatMap Piece.text ++ rest) := by
      rw [hqs.text]
      exact hds.append hrest
    exact (hps.wellCut _ hdelimited).append (hqs.wellCut rest hrest)
  errors line := by
    rw [Piece.errors_append, hps.errors, hqs.errors]
    rfl

theorem token {p : Piece} (hp : p.Valid) (htoken : p.IsToken)
    (herror : ∀ line, Piece.errors line [p] = []) : Printed p.text [p] where
  text := List.flatMap_singleton _ _
  wellCut _ hrest := ⟨hp, .of_delimited htoken hrest, trivial⟩
  errors := herror

theorem cons {p : Piece} (hp : p.Valid) (hends : ∀ rest, p.Ends rest)
    (herror : ∀ line, Piece.errors line [p] = []) {cs : List Char} {ps : List Piece}
    (h : Printed cs ps) : Printed (p.text ++ cs) (p :: ps) where
  text := by
    rw [List.flatMap_cons, h.text]
  wellCut rest hrest := ⟨hp, hends _, h.wellCut rest hrest⟩
  errors line := by
    rw [← List.singleton_append, Piece.errors_append, herror, h.errors]
    rfl

theorem opened {cs : List Char} {ps : List Piece} (h : Printed cs ps) :
    Printed ('(' :: cs) (.mark .leftParen :: ps) := by
  have hends : ∀ rest, (Piece.mark .leftParen).Ends rest :=
    fun rest hslash => absurd hslash (by decide)
  exact cons (show (Piece.mark .leftParen).Valid from trivial) hends (fun _ => rfl) h

theorem closed : Printed [')'] [.mark .rightParen] :=
  token (show (Piece.mark .rightParen).Valid from trivial) trivial fun _ => rfl

theorem blank {c : Char} (hc : Text.isBlank c = true) {cs : List Char} {ps : List Piece}
    (h : Printed cs ps) : Printed (c :: cs) (.blank c :: ps) := by
  have hends : ∀ rest, (Piece.blank c).Ends rest := fun _ => trivial
  exact cons (show (Piece.blank c).Valid from hc) hends (fun _ => rfl) h

end Printed

/-! ## Tokens -/

/-- Printed characters whose tokens are `Q`, on whatever line they stand. -/
def Yields (cs : List Char) (Q : List Token → Prop) : Prop :=
  ∃ ps, Printed cs ps ∧ ∀ line, Q (Piece.tokens line ps)

namespace Yields

variable {cs ds : List Char} {Q R : List Token → Prop}

theorem imp (h : Yields cs Q) (hQ : ∀ ts, Q ts → R ts) : Yields cs R := by
  obtain ⟨ps, hps, hts⟩ := h
  exact ⟨ps, hps, fun line => hQ _ (hts line)⟩

theorem nil : Yields [] (· = []) := ⟨[], .nil, fun _ => rfl⟩

theorem append (hcs : Yields cs Q) (hds : Yields ds R) (hdelimited : Delimited ds) :
    Yields (cs ++ ds) fun ts => ∃ us vs, ts = us ++ vs ∧ Q us ∧ R vs := by
  obtain ⟨ps, hps, hQ⟩ := hcs
  obtain ⟨qs, hqs, hR⟩ := hds
  refine ⟨ps ++ qs, hps.append hqs hdelimited, ?_⟩
  intro line
  exact ⟨_, _, Piece.tokens_append line ps qs, hQ _, hR _⟩

theorem blank {c : Char} (hc : Text.isBlank c = true) (h : Yields cs Q) : Yields (c :: cs) Q := by
  obtain ⟨ps, hps, hQ⟩ := h
  exact ⟨.blank c :: ps, hps.blank hc, fun line => hQ _⟩

theorem opened (h : Yields cs Q) :
    Yields ('(' :: cs) fun ts => ∃ lp us, ts = lp :: us ∧ lp.kind = .mark .leftParen ∧ Q us := by
  obtain ⟨ps, hps, hQ⟩ := h
  exact ⟨.mark .leftParen :: ps, hps.opened, fun line => ⟨_, _, rfl, rfl, hQ line⟩⟩

theorem closed : Yields [')'] fun ts => ∃ rp, ts = [rp] ∧ rp.kind = .mark .rightParen :=
  ⟨[.mark .rightParen], .closed, fun _ => ⟨_, rfl, rfl⟩⟩

end Yields

def IsSeparator (c : Char) : Prop := c = ' ' ∨ c = '\n'

theorem IsSeparator.isBlank {c : Char} (h : IsSeparator c) : Text.isBlank c = true := by
  rcases h with rfl | rfl <;> decide +kernel

theorem IsSeparator.delimited {c : Char} (h : IsSeparator c) (cs : List Char) :
    Delimited (c :: cs) := by
  rcases h with rfl | rfl
  · exact IsDelimiter.delimited (.inl rfl) cs
  · exact IsDelimiter.delimited (.inr (.inl rfl)) cs

theorem delimited_closed : Delimited [')'] := IsDelimiter.delimited (.inr (.inr rfl)) []

/-! ## Expressions -/

/-- Tokens that differ in their lines, and in their texts if they are numbers. -/
structure Token.Respelled (t t' : Token) : Prop where
  kind : t'.kind = t.kind
  literal? : t'.literal? = t.literal?
  lexeme : t.kind ≠ .number → t'.lexeme = t.lexeme

theorem Expr.Alike.headsList {e e' : Expr} (h : Alike Token.Respelled e e') (he : e.HeadsList) :
    e'.HeadsList := by
  cases h with
  | symbol => exact he
  | keyword ht =>
    show _ ≠ _
    rw [ht.kind]
    exact he
  | atom | operator | list | data | define | call => trivial

/-- The tokens spell the expressions, up to lines and the spelling of numbers. -/
def SpellsLike (es : List Expr) (ts : List Token) : Prop :=
  ∃ es', Spells ts es' ∧ Forall₂ (Expr.Alike Token.Respelled) es es'

/-- The tokens are one, up to lines and the spelling of numbers. -/
def IsLike (t : Token) (ts : List Token) : Prop := ∃ t', ts = [t'] ∧ t.Respelled t'

theorem SpellsLike.single {e : Expr} {ts : List Token} (h : SpellsLike [e] ts) :
    ∃ e', Spells ts [e'] ∧ Expr.Alike Token.Respelled e e' := by
  obtain ⟨_, hspells, hes⟩ := h
  obtain ⟨e', _, he, hnil, rfl⟩ := forall₂_cons_left_iff.1 hes
  obtain rfl := forall₂_nil_left_iff.1 hnil
  exact ⟨e', hspells, he⟩

theorem SpellsLike.append {es fs : List Expr} {ts us : List Token} (hes : SpellsLike es ts)
    (hfs : SpellsLike fs us) : SpellsLike (es ++ fs) (ts ++ us) := by
  obtain ⟨es', hspells, hes⟩ := hes
  obtain ⟨fs', hspells', hfs⟩ := hfs
  exact ⟨es' ++ fs', hspells.append hspells', rel_append hes hfs⟩

theorem SpellsLike.symbols {ps ts : List Token} (h : SpellsLike (ps.map .symbol) ts) :
    Forall₂ Token.Respelled ps ts ∧ ∀ t ∈ ts, t.kind = .symbol := by
  obtain ⟨es', hspells, hes⟩ := h
  induction ps generalizing ts es' with
  | nil =>
    obtain rfl := forall₂_nil_left_iff.1 hes
    obtain rfl := hspells.eq_nil
    exact ⟨.nil, fun t ht => nomatch ht⟩
  | cons p ps ih =>
    obtain ⟨e', fs', he, hfs, rfl⟩ := forall₂_cons_left_iff.1 hes
    cases he with
    | symbol hp =>
      cases hspells with
      | token htoken hspells =>
        obtain ⟨hrest, hkinds⟩ := ih fs' hspells hfs
        rcases Expr.ofToken_cases htoken with ⟨_, _, he⟩ | ⟨_, _, he⟩ | ⟨_, _, _, he⟩ | ⟨hk, he⟩
        · exact nomatch he
        · exact nomatch he
        · exact nomatch he
        · cases he
          exact ⟨.cons hp hrest, List.forall_mem_cons.2 ⟨hk, hkinds⟩⟩

/-- The printed form of the expression is read as the expression. -/
def Expr.Prints (e : Expr) : Prop := Yields e.text.toList (SpellsLike [e])

namespace Expr.Prints

theorem spaced {es : List Expr} (h : ∀ e ∈ es, e.Prints) :
    Yields (spacedText es).toList (SpellsLike es) ∧ Delimited (spacedText es).toList := by
  induction es with
  | nil =>
    refine ⟨Yields.nil.imp ?_, delimited_nil⟩
    intro ts hts
    rw [hts]
    exact ⟨[], .nil, .nil⟩
  | cons e es ih =>
    obtain ⟨he, hes⟩ := List.forall_mem_cons.1 h
    obtain ⟨hrest, hdelimited⟩ := ih hes
    have htext : (spacedText (e :: es)).toList =
        ' ' :: (e.text.toList ++ (spacedText es).toList) := by
      rw [spacedText, String.toList_append, String.toList_append]
      rfl
    have hspace : IsSeparator ' ' := .inl rfl
    rw [htext]
    refine ⟨((he.append hrest hdelimited).blank hspace.isBlank).imp ?_, hspace.delimited _⟩
    rintro _ ⟨us, vs, rfl, hus, hvs⟩
    exact hus.append hvs

theorem intercalate {sep : Char} (hsep : IsSeparator sep) {es : List Expr}
    (h : ∀ e ∈ es, e.Prints) :
    Yields ((String.singleton sep).intercalate (es.map text)).toList (SpellsLike es) := by
  induction es with
  | nil =>
    refine Yields.nil.imp ?_
    intro ts hts
    rw [hts]
    exact ⟨[], .nil, .nil⟩
  | cons e es ih =>
    obtain ⟨he, hes⟩ := List.forall_mem_cons.1 h
    cases es with
    | nil => exact he
    | cons f es =>
      have htext : ((String.singleton sep).intercalate ((e :: f :: es).map text)).toList =
          e.text.toList ++
            sep :: ((String.singleton sep).intercalate ((f :: es).map text)).toList := by
        rw [List.map_cons, List.map_cons, String.intercalate_cons_cons, String.toList_append,
          String.toList_append, String.toList_singleton, List.append_assoc]
        rfl
      rw [htext]
      refine (he.append ((ih hes).blank hsep.isBlank) (hsep.delimited _)).imp ?_
      rintro _ ⟨us, vs, rfl, hus, hvs⟩
      exact hus.append hvs

theorem call {name : Token} {args : List Expr} (hk : name.kind = .symbol)
    (hname : Yields name.lexeme.toList (IsLike name)) (hargs : ∀ e ∈ args, e.Prints) :
    (Expr.call (.symbol name) name args).Prints := by
  obtain ⟨hargs, hdelimited⟩ := spaced hargs
  have htext : (Expr.call (.symbol name) name args).text.toList =
      '(' :: (name.lexeme.toList ++ ((spacedText args).toList ++ [')'])) := by
    simp [text, String.toList_append]
  unfold Prints
  rw [htext]
  refine (hname.append (hargs.append .closed delimited_closed)
    (hdelimited.append delimited_closed)).opened.imp ?_
  rintro _ ⟨lp, _, rfl, hlp, _, _, rfl, ⟨t, rfl, ht⟩, as, _, rfl, ⟨args', hspells, halike⟩, rp, rfl,
    hrp⟩
  exact ⟨_, .call hlp (ht.kind.trans hk) hspells hrp .nil,
    .cons (.call (.symbol ht) ht halike) .nil⟩

theorem list {head : Expr} {tail : List Expr} (hplain : head.HeadsList) (hhead : head.Prints)
    (htail : ∀ e ∈ tail, e.Prints) : (Expr.list head tail).Prints := by
  obtain ⟨htail, hdelimited⟩ := spaced htail
  have htext : (Expr.list head tail).text.toList =
      '(' :: (head.text.toList ++ ((spacedText tail).toList ++ [')'])) := by
    simp [text, String.toList_append]
  unfold Prints
  rw [htext]
  refine (hhead.append (htail.append .closed delimited_closed)
    (hdelimited.append delimited_closed)).opened.imp ?_
  rintro _ ⟨lp, _, rfl, hlp, hs, _, rfl, hhead, tls, _, rfl, ⟨tail', hspells, halike⟩, rp, rfl, hrp⟩
  obtain ⟨head', hspells', hhead⟩ := hhead.single
  exact ⟨_, .list hlp hspells' (hhead.headsList hplain) hspells hrp .nil,
    .cons (.list hhead halike) .nil⟩

theorem yields_define :
    Yields "define".toList fun ts => ∃ kw, ts = [kw] ∧ kw.kind = .keyword .define := by
  have hvalid : (Piece.word "define".toList).Valid :=
    ⟨'d', "efine".toList, by decide, by decide +kernel, List.all_eq_true.1 (by decide +kernel)⟩
  exact ⟨[.word "define".toList], .token hvalid trivial fun _ => rfl,
    fun line => ⟨⟨.keyword .define, "define", none, line⟩, by rfl, rfl⟩⟩

theorem define {name : Token} {params : List Token} {body : Expr} (hk : name.kind = .symbol)
    (hname : Yields name.lexeme.toList (IsLike name)) (hparams : ∀ p ∈ params, (symbol p).Prints)
    (hbody : body.Prints) : (Expr.define 0 name params body).Prints := by
  have hspace : IsSeparator ' ' := .inl rfl
  have htexts : (params.map symbol).map text = params.map (·.lexeme) := by
    rw [List.map_map]
    rfl
  have hparams : Yields (" ".intercalate (params.map (·.lexeme))).toList
      (SpellsLike (params.map symbol)) := by
    rw [← htexts]
    refine intercalate hspace ?_
    intro e he
    obtain ⟨p, hp, rfl⟩ := List.mem_map.1 he
    exact hparams p hp
  have htext : (Expr.define 0 name params body).text.toList =
      '(' :: ("define".toList ++ ' ' :: (name.lexeme.toList ++ ' ' :: '(' ::
        ((" ".intercalate (params.map (·.lexeme))).toList ++ ([')'] ++ ' ' ::
          (body.text.toList ++ [')']))))) := by
    simp [text, paramsText, String.toList_append]
  have hend := (hbody.append .closed delimited_closed).blank hspace.isBlank
  have hlist := (hparams.append (Yields.closed.append hend (hspace.delimited _))
    (delimited_closed.append (hspace.delimited _))).opened.blank hspace.isBlank
  have hform := (yields_define.append ((hname.append hlist (hspace.delimited _)).blank
    hspace.isBlank) (hspace.delimited _)).opened
  unfold Prints
  rw [htext]
  refine hform.imp ?_
  rintro _ ⟨lp, _, rfl, hlp, _, _, rfl, ⟨kw, rfl, hkw⟩, _, _, rfl, ⟨t, rfl, ht⟩, lp', _, rfl, hlp',
    ps, _, rfl, hps, _, _, rfl, ⟨rp', rfl, hrp'⟩, bs, _, rfl, hbody, rp, rfl, hrp⟩
  obtain ⟨halike, hkinds⟩ := hps.symbols
  obtain ⟨body', hspells, hbody⟩ := hbody.single
  have hheader : Header t ps (t :: lp' :: (ps ++ [rp'])) :=
    .apart (ht.kind.trans hk) hlp' hkinds hrp'
  have hdefine := Spells.define hlp hkw hheader hspells hrp .nil
  rw [List.cons_append, List.cons_append, List.append_assoc] at hdefine
  exact ⟨_, hdefine, .cons (.define 0 ht halike hbody) .nil⟩

end Expr.Prints

end MiniLisp
