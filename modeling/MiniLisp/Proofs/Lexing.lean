import MiniLisp.Proofs.Cutting
import MiniLisp.Token.Scan

/-!
# The lexer reads pieces

Every rule of the lexer reads pieces of one kind and applies to no others, so between two of its
steps the lexer stands where a piece starts. It never fails, and its lexemes are those of the pieces
into which the text is cut.

* `Rule.Reads`, `Rule.Fails` : what a rule does at a place, whatever was before it;
* `Rule.reads_lexeme` : a piece that is a lexeme is read as this;
* `Rule.skip_gap`, `Rule.skip_stop` : what is skipped, and where skipping stops;
* `Rule.lexer_pieces` : the lexer on pieces;
* `lex_eq` : the lexer on a text;
* `slice_eq`, `lineAt_eq` : the characters between two bytes of a text, and the line of a byte.
-/

namespace MiniLisp

open Text

/-! ## Bytes -/

def bytes (cs : List Char) : Nat := (String.ofList cs).utf8ByteSize

theorem bytes_append (cs ds : List Char) : bytes (cs ++ ds) = bytes cs + bytes ds := by
  unfold bytes
  rw [String.ofList_append, String.utf8ByteSize_append]

theorem bytes_pos {cs : List Char} (h : cs ≠ []) : 0 < bytes cs := by
  refine Nat.pos_of_ne_zero fun hzero => h ?_
  exact String.ofList_eq_empty_iff.1 (String.utf8ByteSize_eq_zero_iff.1 hzero)

theorem bytes_cons (c : Char) (cs : List Char) : bytes (c :: cs) = c.utf8Size + bytes cs := by
  have hsingle : bytes [c] = c.utf8Size := String.utf8ByteSize_singleton
  rw [← hsingle, ← bytes_append]
  rfl

theorem takeBytes_append (cs ds : List Char) : takeBytes (bytes cs) (cs ++ ds) = cs := by
  induction cs with
  | nil =>
    cases ds with
    | nil => rfl
    | cons d ds => exact if_neg (Nat.not_le.2 d.utf8Size_pos)
  | cons c cs ih =>
    rw [bytes_cons, List.cons_append, takeBytes, if_pos (Nat.le_add_right _ _),
      Nat.add_sub_cancel_left, ih]

theorem dropBytes_append (cs ds : List Char) : dropBytes (bytes cs) (cs ++ ds) = ds := by
  induction cs with
  | nil =>
    cases ds with
    | nil => rfl
    | cons d ds => exact if_neg (Nat.not_le.2 d.utf8Size_pos)
  | cons c cs ih =>
    rw [bytes_cons, List.cons_append, dropBytes, if_pos (Nat.le_add_right _ _),
      Nat.add_sub_cancel_left, ih]

section Slices

variable {source : String} {before text rest : List Char}
  (h : source.toList = before ++ (text ++ rest))
include h

theorem slice_eq : slice source (bytes before) (bytes (before ++ text)) = String.ofList text := by
  rw [slice, h, dropBytes_append, bytes_append, Nat.add_sub_cancel_left, takeBytes_append]

theorem lineAt_eq : lineAt source (bytes before) = 1 + before.count '\n' := by
  rw [lineAt, h, takeBytes_append]

end Slices

/-! ## Pieces and their lexemes -/

def Piece.lexeme? : Piece → Option Lexeme
  | blank _ => none
  | comment _ => none
  | number text => some (match numberValue? text with
    | some n => .number n
    | none => .invalidNumber)
  | string body => some (.string (String.ofList body))
  | openString _ => some .unterminatedString
  | word text => some (.token (Kind.ofWord (String.ofList text)))
  | mark m => some (.token (.mark m))
  | stray c => some (.unexpected c)

/-- The lexemes among pieces, the first of which starts at byte `offset`. -/
def Span.ofPieces (offset : Nat) : List Piece → List Span
  | [] => []
  | p :: pieces =>
    let stop := offset + p.byteSize
    match p.lexeme? with
    | some lexeme => ⟨offset, stop, lexeme⟩ :: ofPieces stop pieces
    | none => ofPieces stop pieces

/-! ## Rules and what they are built from -/

namespace Rule

variable {α β : Type} {x y : Rule α} {f : α → Rule β} {a : α} {b : β}

@[simp] theorem pure_result? (a : α) (p : Place) : ((pure a : Rule α) p).result? = some (a, p) :=
  rfl

theorem bind_result? (x : Rule α) (f : α → Rule β) (p : Place) :
    ((x >>= f) p).result? = (x p).result?.bind fun r => (f r.1 r.2).result? := by
  show (andThen x f p).result? = _
  unfold andThen
  obtain ⟨_ | ⟨a, q⟩, missed?⟩ := x p <;> rfl

theorem orElse_result? (x y : Rule α) (p : Place) :
    (orElse x y p).result? = (x p).result?.or (y p).result? := by
  unfold orElse
  obtain ⟨_ | r, missed?⟩ := x p <;> rfl

/-- Reads `text` where `rest` follows. -/
def Reads (x : Rule α) (text rest : List Char) (a : α) : Prop :=
  ∀ n, (x ⟨n, text ++ rest⟩).result? = some (a, ⟨n + bytes text, rest⟩)

/-- Does not apply where `rest` follows. -/
def Fails (x : Rule α) (rest : List Char) : Prop := ∀ n, (x ⟨n, rest⟩).result? = none

theorem reads_pure (a : α) (rest : List Char) : (pure a : Rule α).Reads [] rest a := fun _ => rfl

theorem Reads.bind {text more rest : List Char} (hx : x.Reads text (more ++ rest) a)
    (hf : (f a).Reads more rest b) : (x >>= f).Reads (text ++ more) rest b := by
  intro n
  rw [List.append_assoc, bind_result?, hx n, bytes_append, ← Nat.add_assoc]
  exact hf _

theorem Reads.map {text rest : List Char} {g : α → β} (hx : x.Reads text rest a) :
    (x >>= fun a => pure (g a)).Reads text rest (g a) := by
  have h : (x >>= fun a => pure (g a)).Reads (text ++ []) rest (g a) :=
    .bind hx (reads_pure _ rest)
  rwa [List.append_nil] at h

theorem Fails.bind {rest : List Char} (hx : x.Fails rest) : (x >>= f).Fails rest := by
  intro n
  rw [bind_result?, hx n]
  rfl

theorem Reads.bind_fails {text rest : List Char} (hx : x.Reads text rest a)
    (hf : (f a).Fails rest) : (x >>= f).Fails (text ++ rest) := by
  intro n
  rw [bind_result?, hx n]
  exact hf _

theorem Reads.orElse {text rest : List Char} (hx : x.Reads text rest a) :
    (orElse x y).Reads text rest a := by
  intro n
  rw [orElse_result?, hx n]
  rfl

theorem Fails.orElse_reads {text rest : List Char} (hx : x.Fails (text ++ rest))
    (hy : y.Reads text rest a) : (orElse x y).Reads text rest a := by
  intro n
  rw [orElse_result?, hx n]
  exact hy n

theorem Fails.orElse {rest : List Char} (hx : x.Fails rest) (hy : y.Fails rest) :
    (orElse x y).Fails rest := by
  intro n
  rw [orElse_result?, hx n]
  exact hy n

theorem fails_choice_nil (rest : List Char) : (choice ([] : List (Rule α))).Fails rest :=
  fun _ => rfl

section Characters

variable {test : Char → Bool} {c : Char}

theorem reads_satisfy (hc : test c = true) (rest : List Char) :
    (satisfy test).Reads [c] rest c := by
  intro n
  show (if test c then _ else _ : Outcome Char).result? = _
  rw [if_pos hc]
  rfl

theorem fails_satisfy (hc : test c = false) (rest : List Char) :
    (satisfy test).Fails (c :: rest) := by
  intro n
  show (if test c then _ else _ : Outcome Char).result? = _
  rw [hc]
  rfl

theorem fails_satisfy_nil (test : Char → Bool) : (satisfy test).Fails [] := fun _ => rfl

theorem reads_run {cs rest : List Char} (hcs : ∀ c ∈ cs, test c = true)
    (hrest : ∀ c ∈ rest.head?, test c = false) : (run test).Reads cs rest cs := by
  intro n
  obtain ⟨htake, hdrop⟩ := Piece.span_run hcs hrest
  simp only [run, htake, hdrop]
  rfl

end Characters

theorem reads_optional {text rest : List Char} (hx : x.Reads text rest a) :
    (optional x).Reads text rest (some a) := hx.map.orElse

theorem Fails.optional {rest : List Char} (hx : x.Fails rest) :
    (optional x).Reads [] rest none := Fails.orElse_reads hx.bind (reads_pure none rest)

/-! ## Repetitions -/

theorem many_of_none {p : Place} (h : (x p).result? = none) :
    (many x p).result? = some ([], p) := by
  rw [many]
  generalize x p = o at h
  obtain ⟨_ | r, missed?⟩ := o
  · rfl
  · exact nomatch h

theorem many_of_some {p q : Place} (h : (x p).result? = some (a, q))
    (hq : q.rest.length < p.rest.length) :
    (many x p).result? = (many x q).result?.map fun r => (a :: r.1, r.2) := by
  rw [many]
  generalize x p = o at h
  obtain ⟨_ | r, missed?⟩ := o
  · exact nomatch h
  · cases h
    dsimp only
    rw [if_pos hq]

theorem rest_many (x : Rule α) (p : Place) :
    ∃ as q, (many x p).result? = some (as, q) ∧ q.rest.length ≤ p.rest.length := by
  fun_induction many x p with
  | case1 p missed? h => exact ⟨[], p, rfl, Nat.le_refl _⟩
  | case2 p a q missed? h hlt more ih =>
    obtain ⟨as, r, hr, hle⟩ := ih
    refine ⟨a :: as, r, ?_, Nat.le_trans hle hlt.le⟩
    show more.result?.map _ = _
    rw [hr]
    rfl
  | case3 p a q missed? h hlt => exact ⟨[], p, rfl, Nat.le_refl _⟩

/-! ## Gaps -/

def gap : Rule Unit := choice [comment, whitespace]

theorem skip_result? (p : Place) :
    (skip p).result? = (many gap p).result?.map fun r => ((), r.2) := by
  rw [skip, bind_result?]
  show (many gap p).result?.bind _ = _
  cases (many gap p).result? <;> rfl

theorem rest_skip (p : Place) :
    ∃ q, (skip p).result? = some ((), q) ∧ q.rest.length ≤ p.rest.length := by
  obtain ⟨as, q, hq, hle⟩ := rest_many gap p
  refine ⟨q, ?_, hle⟩
  rw [skip_result?, hq]
  rfl

theorem Reads.skip {text rest : List Char} (h : gap.Reads text rest ()) (htext : text ≠ [])
    (n : Nat) : (skip ⟨n, text ++ rest⟩).result? = (skip ⟨n + bytes text, rest⟩).result? := by
  have hlt : rest.length < (text ++ rest).length := by
    have := List.length_pos_iff.2 htext
    rw [List.length_append]
    omega
  rw [skip_result?, skip_result?, many_of_some (h n) hlt, Option.map_map]
  rfl

theorem Fails.skip {rest : List Char} (h : gap.Fails rest) : skip.Reads [] rest () := by
  intro n
  rw [skip_result?, List.nil_append, many_of_none (h n)]
  rfl

theorem fails_comment {c : Char} {rest : List Char} (h : c = '/' → rest.head? ≠ some '/') :
    comment.Fails (c :: rest) := by
  unfold comment
  by_cases hc : c = '/'
  · have hfirst : (satisfy (· == '/')).Reads [c] rest c := reads_satisfy (by simpa using hc) rest
    have hsecond : (satisfy (· == '/')).Fails rest := by
      cases rest with
      | nil => exact fails_satisfy_nil _
      | cons d rest => exact fails_satisfy (by simpa using h hc) rest
    exact hfirst.bind_fails hsecond.bind
  · have hfirst : (satisfy (· == '/')).Fails (c :: rest) := fails_satisfy (by simpa using hc) rest
    exact hfirst.bind

theorem reads_whitespace {c : Char} {cs rest : List Char} (hc : isBlank c = true)
    (hcs : ∀ c ∈ cs, isBlank c = true) (hrest : ∀ c ∈ rest.head?, isBlank c = false) :
    gap.Reads (c :: cs) rest () := by
  have hcomment : comment.Fails (c :: cs ++ rest) :=
    fails_comment fun h => absurd h (ne_of_isBlank hc (by decide))
  have hspace : whitespace.Reads ([c] ++ cs) rest () :=
    (reads_satisfy hc _).bind (reads_run hcs hrest).map
  exact hcomment.orElse_reads hspace.orElse

theorem skip_blank {c : Char} (hc : isBlank c = true) (n : Nat) (rest : List Char) :
    (skip ⟨n, c :: rest⟩).result? = (skip ⟨n + bytes [c], rest⟩).result? := by
  have hrun {d : Char} {tail : List Char} (hd : isBlank d = true) (k : Nat) :
      (skip ⟨k, d :: tail⟩).result? = (skip ⟨k + bytes (d :: tail.takeWhile isBlank),
        tail.dropWhile isBlank⟩).result? := by
    have := (reads_whitespace hd (Piece.takeWhile_all isBlank tail)
      (Piece.head?_dropWhile isBlank tail)).skip (List.cons_ne_nil _ _) k
    rwa [List.cons_append, List.takeWhile_append_dropWhile] at this
  rw [hrun hc]
  cases rest with
  | nil => rfl
  | cons d rest =>
    by_cases hd : isBlank d = true
    · rw [hrun hd, List.takeWhile_cons_of_pos hd, List.dropWhile_cons_of_pos hd, Nat.add_assoc,
        ← bytes_append]
      rfl
    · rw [List.takeWhile_cons_of_neg hd, List.dropWhile_cons_of_neg hd]

theorem skip_comment {body rest : List Char} (hbody : '\n' ∉ body)
    (hrest : ∀ c ∈ rest.head?, c = '\n') (n : Nat) :
    (skip ⟨n, '/' :: '/' :: (body ++ rest)⟩).result? =
      (skip ⟨n + bytes ('/' :: '/' :: body), rest⟩).result? := by
  have hbody' : (run (· != '\n')).Reads body rest body :=
    reads_run (Piece.all_ne_of_notMem hbody) fun c hc => by simp [hrest c hc]
  have hcomment : comment.Reads (['/'] ++ (['/'] ++ body)) rest () :=
    (reads_satisfy rfl _).bind ((reads_satisfy rfl _).bind hbody'.map)
  exact hcomment.orElse.skip (List.cons_ne_nil _ _) n

theorem skip_gap {p : Piece} (hp : p.lexeme? = none) (hvalid : p.Valid) {rest : List Char}
    (hends : p.Ends rest) (n : Nat) :
    (skip ⟨n, p.text ++ rest⟩).result? = (skip ⟨n + bytes p.text, rest⟩).result? := by
  cases p with
  | blank c => exact skip_blank hvalid n rest
  | comment body => exact skip_comment hvalid hends n
  | number | string | openString | word | mark | stray => exact nomatch hp

/-! ## Lexemes -/

theorem fails_mark {m : Mark} {c : Char} (h : m.char ≠ c) (rest : List Char) :
    (mark m).Fails (c :: rest) := by
  have hfirst : (satisfy (· == m.char)).Fails (c :: rest) :=
    fails_satisfy (by simpa using Ne.symm h) rest
  exact hfirst.bind

theorem fails_marks {ms : List Mark} {c : Char} (h : ∀ m ∈ ms, m.char ≠ c) (rest : List Char) :
    (choice (ms.map mark)).Fails (c :: rest) := by
  induction ms with
  | nil => exact fails_choice_nil _
  | cons m ms ih =>
    obtain ⟨hm, hms⟩ := List.forall_mem_cons.1 h
    exact (fails_mark hm rest).orElse (ih hms)

theorem reads_marks {m : Mark} {ms : List Mark} (h : m ∈ ms) (rest : List Char) :
    (choice (ms.map mark)).Reads [m.char] rest (.token (.mark m)) := by
  have hm : (satisfy (· == m.char)).Reads [m.char] rest m.char := reads_satisfy (by simp) rest
  have hmark : (mark m).Reads [m.char] rest (.token (.mark m)) := hm.map
  induction ms with
  | nil => exact nomatch h
  | cons n ms ih =>
    by_cases hn : n = m
    · subst hn
      exact hmark.orElse
    · have hchar : n.char ≠ m.char := by
        intro hchar
        have hspec := n.char_spec.1
        rw [hchar, m.char_spec.1] at hspec
        exact hn (Option.some.inj hspec).symm
      have hmem := (List.mem_cons.1 h).resolve_left (Ne.symm hn)
      exact (fails_mark hchar rest).orElse_reads (ih hmem)

section First

variable {c : Char} (rest : List Char)

theorem fails_number (h : c.isDigit = false) : number.Fails (c :: rest) := by
  unfold number
  exact (fails_satisfy h rest).bind

theorem fails_string (h : c ≠ '"') : string.Fails (c :: rest) := by
  have hfirst : (satisfy (· == '"')).Fails (c :: rest) := fails_satisfy (by simpa using h) rest
  exact hfirst.bind

theorem fails_word (h : isWordStart c = false) : word.Fails (c :: rest) := by
  unfold word
  exact (fails_satisfy h rest).bind

end First

theorem reads_number {c : Char} {cs rest : List Char} (hc : c.isDigit = true)
    (hcs : ∀ d ∈ cs, isNumberChar d = true) (hrest : ∀ d ∈ rest.head?, isNumberChar d = false)
    {lexeme : Lexeme} (h : (Piece.number (c :: cs)).lexeme? = some lexeme) :
    number.Reads (c :: cs) rest lexeme := by
  have hnumber : number.Reads ([c] ++ cs) rest _ :=
    (reads_satisfy hc _).bind (reads_run hcs hrest).map
  rw [← Option.some.inj h]
  exact hnumber

theorem reads_quote (rest : List Char) : (satisfy (· == '"')).Reads ['"'] rest '"' :=
  reads_satisfy rfl rest

theorem reads_string {body : List Char} (hbody : '"' ∉ body) (rest : List Char) :
    string.Reads ('"' :: (body ++ ['"'])) rest (.string (String.ofList body)) := by
  have hrun : (run (· != '"')).Reads body (['"'] ++ rest) body :=
    reads_run (Piece.all_ne_of_notMem hbody) fun c hc => by simp [Option.some.inj hc.symm]
  exact (reads_quote _).bind (hrun.bind (reads_optional (reads_quote rest)).map)

theorem reads_openString {body : List Char} (hbody : '"' ∉ body) :
    string.Reads ('"' :: body) [] .unterminatedString := by
  have hrun : (run (· != '"')).Reads body [] body :=
    reads_run (Piece.all_ne_of_notMem hbody) nofun
  have hend : (optional (satisfy (· == '"'))).Reads [] [] none := (fails_satisfy_nil _).optional
  have h : string.Reads (['"'] ++ (body ++ [])) [] .unterminatedString :=
    (reads_quote _).bind (hrun.bind hend.map)
  rwa [List.append_nil] at h

theorem reads_word {c : Char} {cs rest : List Char} (hc : isWordStart c = true)
    (hcs : ∀ d ∈ cs, isWordChar d = true) (hrest : ∀ d ∈ rest.head?, isWordChar d = false) :
    word.Reads (c :: cs) rest (.token (Kind.ofWord (String.ofList (c :: cs)))) := by
  have h : word.Reads ([c] ++ cs) rest (.token (Kind.ofWord (String.ofList (c :: cs)))) := by
    unfold word
    exact (reads_satisfy hc _).bind (reads_run hcs hrest).map
  exact h

theorem isDigit_of_isWordStart {c : Char} (h : isWordStart c = true) : c.isDigit = false := by
  refine Bool.eq_false_iff.2 fun hdigit => ?_
  rw [isWordStart_of_isDigit hdigit] at h
  exact nomatch h

theorem ne_of_isWordStart {c d : Char} (h : isWordStart c = true) (hd : isWordStart d = false) :
    c ≠ d := by
  rintro rfl
  rw [hd] at h
  exact nomatch h

theorem reads_lexeme {p : Piece} {l : Lexeme} (hp : p.lexeme? = some l) (hvalid : p.Valid)
    {rest : List Char} (hends : p.Ends rest) : lexeme.Reads p.text rest l := by
  unfold lexeme
  cases p with
  | blank | comment => exact nomatch hp
  | number text =>
    obtain ⟨c, cs, rfl, hc, hcs⟩ := hvalid
    exact (reads_number hc hcs hends hp).orElse
  | string body =>
    cases hp
    exact (fails_number _ rfl).orElse_reads (reads_string hvalid rest).orElse
  | openString body =>
    cases hp
    obtain rfl : rest = [] := hends
    exact (fails_number _ rfl).orElse_reads (reads_openString hvalid).orElse
  | word text =>
    obtain ⟨c, cs, rfl, hc, hcs⟩ := hvalid
    cases hp
    have hquote : c ≠ '"' := ne_of_isWordStart hc quote_class.2
    exact (fails_number _ (isDigit_of_isWordStart hc)).orElse_reads
      ((fails_string _ hquote).orElse_reads (reads_word hc hcs hends).orElse)
  | mark m =>
    cases hp
    obtain ⟨-, -, hdigit, hquote, hword⟩ := m.char_spec
    have hmark : anyMark.Reads [m.char] rest (.token (.mark m)) := by
      refine reads_marks ?_ rest
      cases m with
      | operator op => cases op <;> simp
      | leftParen | rightParen | dot | semicolon => simp
    exact (fails_number _ hdigit).orElse_reads ((fails_string _ hquote).orElse_reads
      ((fails_word _ hword).orElse_reads hmark.orElse))
  | stray c =>
    cases hp
    obtain ⟨-, hdigit, hquote, hword, hmark⟩ := hvalid
    have hmarks : anyMark.Fails (c :: rest) := by
      refine fails_marks (fun m _ hchar => ?_) rest
      rw [← hchar, m.char_spec.1] at hmark
      exact nomatch hmark
    have hany : unexpected.Reads [c] rest (.unexpected c) := (reads_satisfy rfl rest).map
    exact (fails_number _ hdigit).orElse_reads ((fails_string _ hquote).orElse_reads
      ((fails_word _ hword).orElse_reads (hmarks.orElse_reads hany.orElse)))

theorem fails_gap {c : Char} {rest : List Char} (hblank : isBlank c = false)
    (hslash : c = '/' → rest.head? ≠ some '/') : gap.Fails (c :: rest) := by
  have hspace : whitespace.Fails (c :: rest) := by
    unfold whitespace
    exact (fails_satisfy hblank rest).bind
  exact (fails_comment hslash).orElse (hspace.orElse (fails_choice_nil _))

theorem skip_stop {p : Piece} {l : Lexeme} (hp : p.lexeme? = some l) (hvalid : p.Valid)
    {rest : List Char} (hends : p.Ends rest) : skip.Reads [] (p.text ++ rest) () := by
  refine Fails.skip ?_
  cases p with
  | blank | comment => exact nomatch hp
  | number text =>
    obtain ⟨c, cs, rfl, hc, -⟩ := hvalid
    refine fails_gap (isBlank_of_isDigit hc) ?_
    rintro rfl
    exact nomatch hc
  | string | openString => exact fails_gap quote_class.1 fun h => absurd h (by decide)
  | word text =>
    obtain ⟨c, cs, rfl, hc, -⟩ := hvalid
    have hblank : isBlank c = false := by
      refine Bool.eq_false_iff.2 fun hblank => ?_
      rw [isWordStart_of_isBlank hblank] at hc
      exact nomatch hc
    exact fails_gap hblank fun h => absurd h (ne_of_isWordStart hc (by decide +kernel))
  | mark m => exact fails_gap m.char_spec.2.1 hends
  | stray c =>
    obtain ⟨hblank, -, -, -, hmark⟩ := hvalid
    refine fails_gap hblank ?_
    rintro rfl
    exact nomatch hmark

/-! ## The lexer -/

def item : Rule Span := do
  let span ← spanned lexeme
  skip
  return span

theorem lexer_result? (p : Place) :
    (lexer p).result? = (skip p).result?.bind fun r => (many item r.2).result?.bind fun s =>
      (atEnd s.2).result?.map fun t => (s.1, t.2) := by
  have hitems (q : Place) :
      ((many item >>= fun spans => atEnd >>= fun _ => pure spans) q).result? =
        (many item q).result?.bind fun s => (atEnd s.2).result?.map fun t => (s.1, t.2) := by
    rw [bind_result?]
    congr 1
    funext s
    rw [bind_result?]
    cases (atEnd s.2).result? <;> rfl
  show ((skip >>= fun _ => many item >>= fun spans => atEnd >>= fun _ => pure spans) p).result? = _
  rw [bind_result?]
  congr 1
  funext r
  exact hitems r.2

theorem item_result? {p q r : Place} {l : Lexeme} (hl : (lexeme p).result? = some (l, q))
    (hskip : (skip q).result? = some ((), r)) :
    (item p).result? = some (⟨p.offset, q.offset, l⟩, r) := by
  have hspanned : (spanned lexeme p).result? = some (⟨p.offset, q.offset, l⟩, q) := by
    unfold spanned
    generalize lexeme p = o at hl
    obtain ⟨_ | s, missed?⟩ := o
    · exact nomatch hl
    · cases hl
      rfl
  rw [item, bind_result?, hspanned, Option.bind_some, bind_result?, hskip]
  rfl

theorem lexer_gap {p q : Place} (h : (skip p).result? = (skip q).result?) :
    (lexer p).result? = (lexer q).result? := by
  rw [lexer_result?, lexer_result?, h]

theorem lexer_lexeme {text rest : List Char} {l : Lexeme} (hl : lexeme.Reads text rest l)
    (hskip : skip.Reads [] (text ++ rest) ()) (htext : text ≠ []) (n : Nat) :
    (lexer ⟨n, text ++ rest⟩).result? = (lexer ⟨n + bytes text, rest⟩).result?.map fun r =>
      (⟨n, n + bytes text, l⟩ :: r.1, r.2) := by
  obtain ⟨q, hq, hle⟩ := rest_skip ⟨n + bytes text, rest⟩
  have hitem := item_result? (hl n) hq
  have hlt : q.rest.length < (text ++ rest).length := by
    have hpos := List.length_pos_iff.2 htext
    dsimp only at hle
    rw [List.length_append]
    omega
  have hstay : (skip ⟨n, text ++ rest⟩).result? = some ((), ⟨n, text ++ rest⟩) := hskip n
  rw [lexer_result?, hstay, Option.bind_some, many_of_some hitem hlt, lexer_result?, hq,
    Option.bind_some]
  cases (many item q).result? with
  | none => rfl
  | some s =>
    obtain ⟨spans, t⟩ := s
    simp only [Option.map_some, Option.bind_some, Option.map_map]
    cases (atEnd t).result? <;> rfl

theorem lexer_nil (n : Nat) : (lexer ⟨n, []⟩).result? = some ([], ⟨n, []⟩) := by
  have hskip : skip.Reads [] [] () := Fails.skip fun _ => rfl
  have hitem : (item ⟨n, []⟩).result? = none := by
    rw [item, bind_result?]
    rfl
  have hstay : (skip ⟨n, []⟩).result? = some ((), ⟨n, []⟩) := hskip n
  rw [lexer_result?, hstay, Option.bind_some, many_of_none hitem]
  rfl

/-- **The lexer reads pieces**, all of them, and gives those that are lexemes. -/
theorem lexer_pieces {ps : List Piece} (h : Piece.WellCut ps []) (n : Nat) :
    (lexer ⟨n, ps.flatMap Piece.text⟩).result? =
      some (Span.ofPieces n ps, ⟨n + bytes (ps.flatMap Piece.text), []⟩) := by
  induction ps generalizing n with
  | nil => exact lexer_nil n
  | cons p ps ih =>
    obtain ⟨hvalid, hends, hps⟩ := h
    rw [List.append_nil] at hends
    have hrest := ih hps (n + bytes p.text)
    rw [List.flatMap_cons, bytes_append, ← Nat.add_assoc, Span.ofPieces]
    cases hp : p.lexeme? with
    | none =>
      rw [lexer_gap (skip_gap hp hvalid hends n), hrest]
      rfl
    | some l =>
      rw [lexer_lexeme (reads_lexeme hp hvalid hends) (skip_stop hp hvalid hends)
        hvalid.text_ne_nil, hrest]
      rfl

end Rule

/-! ## Texts -/

/-- **The lexer never fails**, and its lexemes are those of the pieces of the text. -/
theorem lex_eq (source : String) :
    lex source = ⟨some (Span.ofPieces 0 (Piece.cut source.toList)), []⟩ := by
  have h := Rule.lexer_pieces (Piece.wellCut_cut source.toList) 0
  rw [Piece.cut_text] at h
  unfold lex
  generalize Rule.lexer ⟨0, source.toList⟩ = o at h
  obtain ⟨result?, missed?⟩ := o
  subst h
  rfl

theorem lexemes_eq (source : String) :
    lexemes source = Span.ofPieces 0 (Piece.cut source.toList) := by
  rw [lexemes, lex_eq]
  rfl

end MiniLisp
