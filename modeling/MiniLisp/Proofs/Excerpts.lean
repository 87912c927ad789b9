import MiniLisp.Command.Report
import MiniLisp.Proofs.Blame

/-!
# Excerpts

A diagnostic that names a lexeme shows the line on which that lexeme stands, with the carets under
it.

* `Text.lines_stretch` : on which line a stretch of a text stands;
* `Text.FirstAt`, `Text.find?_firstAt` : the first occurrence of one text in another;
* `Text.marked` : the characters of a row above the carets of the next one;
* `Diagnostic.located` : diagnostics name lexemes of tokens, and their lines;
* `Diagnostic.render_marks` : the theorem.
-/

namespace MiniLisp

open Text

namespace Text

/-! ## Lines -/

theorem lines_cons {c : Char} {rest : List Char} (hc : c ≠ '\n')
    (hpair : c = '\r' → rest.head? ≠ some '\n') :
    ∃ line more, lines (c :: rest) = (c :: line) :: more ∧
      (lines rest = line :: more ∨ lines rest = [] ∧ line = [] ∧ more = []) := by
  have hlines := lines.eq_4 c rest hc fun rest' hreturn hrest => hpair hreturn (hrest ▸ rfl)
  cases hrest : lines rest with
  | nil =>
    rw [hrest] at hlines
    exact ⟨[], [], hlines, .inr ⟨rfl, rfl, rfl⟩⟩
  | cons line more =>
    rw [hrest] at hlines
    exact ⟨line, more, hlines, .inl rfl⟩

theorem subset_of_mem_lines {source line : List Char} (h : line ∈ lines source) :
    line ⊆ source := by
  fun_induction lines source generalizing line with
  | case1 => exact nomatch h
  | case2 source ih =>
    rcases List.mem_cons.1 h with rfl | hmem
    · exact List.nil_subset _
    · exact List.subset_cons_of_subset _ (ih hmem)
  | case3 source ih =>
    rcases List.mem_cons.1 h with rfl | hmem
    · exact List.nil_subset _
    · exact List.subset_cons_of_subset _ (List.subset_cons_of_subset _ (ih hmem))
  | case4 c source hfeed hpair hlines ih =>
    obtain rfl := List.mem_singleton.1 h
    exact List.cons_subset_cons c (List.nil_subset source)
  | case5 c source hfeed hpair first more hlines ih =>
    rw [hlines] at ih
    rcases List.mem_cons.1 h with rfl | hmem
    · exact List.cons_subset_cons c (ih List.mem_cons_self)
    · exact List.subset_cons_of_subset c (ih (List.mem_cons_of_mem first hmem))

section Stretch

variable {text : List Char}

/-- A text starts with a stretch that has no line feed: the first line does too. -/
theorem lines_append (hne : text ≠ []) (hfeed : '\n' ∉ text) (hreturn : text.getLast? ≠ some '\r')
    (rest : List Char) : ∃ r more, lines (text ++ rest) = (text ++ r) :: more := by
  induction text with
  | nil => exact absurd rfl hne
  | cons c text ih =>
    obtain ⟨hc, hfeed⟩ : c ≠ '\n' ∧ '\n' ∉ text := by
      simpa [eq_comm] using hfeed
    by_cases htext : text = []
    · subst htext
      have hc' : c ≠ '\r' := by simpa using hreturn
      have hpair : c = '\r' → rest.head? ≠ some '\n' := fun h => absurd h hc'
      obtain ⟨line, more, hlines, -⟩ := lines_cons hc hpair
      exact ⟨line, more, hlines⟩
    · have hlast : text.getLast? ≠ some '\r' := by
        rwa [List.getLast?_cons_of_ne_nil htext] at hreturn
      obtain ⟨r, more, hrest⟩ := ih htext hfeed hlast
      have hhead : (text ++ rest).head? ≠ some '\n' := by
        rw [List.head?_append_of_ne_nil text htext]
        exact fun h => hfeed (List.mem_of_head? h)
      obtain ⟨line, more', hlines, hcases⟩ := lines_cons hc (fun _ => hhead)
      obtain ⟨rfl, rfl⟩ : line = text ++ r ∧ more' = more := by
        simpa [hrest, eq_comm] using hcases
      exact ⟨r, more', hlines⟩

/-- A character in front that is no line feed leaves every line where it is. -/
theorem lines_cons_getElem? {c : Char} {source line : List Char} {k : Nat} (hc : c ≠ '\n')
    (hline : (lines source)[k]? = some line) :
    ∃ l, (lines (c :: source))[k]? = some (l ++ line) := by
  by_cases hpair : c = '\r' ∧ source.head? = some '\n'
  · obtain ⟨rfl, hhead⟩ := hpair
    obtain ⟨rest, rfl⟩ := List.head?_eq_some_iff.1 hhead
    exact ⟨[], hline⟩
  · have hpair : c = '\r' → source.head? ≠ some '\n' := by simpa using hpair
    obtain ⟨first, more, hlines, hcases⟩ := lines_cons hc hpair
    rcases hcases with hsource | ⟨hsource, -, -⟩
    · rw [hsource] at hline
      rw [hlines]
      cases k with
      | zero => exact ⟨[c], by simpa using hline⟩
      | succ k => exact ⟨[], hline⟩
    · rw [hsource] at hline
      exact nomatch hline

/-- A stretch without a line feed that does not end with a carriage return stands on the line whose
number, from 0, is that of the line feeds before it. -/
theorem lines_stretch (hne : text ≠ []) (hfeed : '\n' ∉ text) (hreturn : text.getLast? ≠ some '\r')
    (before rest : List Char) :
    ∃ l r, (lines (before ++ (text ++ rest)))[before.count '\n']? = some (l ++ (text ++ r)) := by
  induction before with
  | nil =>
    obtain ⟨r, more, hlines⟩ := lines_append hne hfeed hreturn rest
    exact ⟨[], r, by simp [hlines]⟩
  | cons c before ih =>
    obtain ⟨l, r, hline⟩ := ih
    by_cases hc : c = '\n'
    · subst hc
      exact ⟨l, r, by simpa [lines] using hline⟩
    · obtain ⟨l', hline'⟩ := lines_cons_getElem? hc hline
      exact ⟨l' ++ l, r, by simpa [hc] using hline'⟩

end Stretch

/-! ## Occurrences -/

/-- Does the first occurrence of `part` in a text stand after `i` characters? -/
def FirstAt (part text : List Char) (i : Nat) : Prop :=
  part <+: text.drop i ∧ ∀ j < i, ¬ part <+: text.drop j

theorem firstAt_zero {part text : List Char} (h : part <+: text) : FirstAt part text 0 :=
  ⟨h, nofun⟩

theorem FirstAt.cons {part text : List Char} {c : Char} {i : Nat} (hstart : ¬ part <+: c :: text)
    (h : FirstAt part text i) : FirstAt part (c :: text) (i + 1) := by
  refine ⟨h.1, fun j hj => ?_⟩
  cases j with
  | zero => exact hstart
  | succ j => exact h.2 j (by omega)

theorem find?_firstAt {part text : List Char} {k : Nat} (h : part <+: text.drop k) :
    ∃ i, find? part text = some i ∧ FirstAt part text i := by
  induction text generalizing k with
  | nil =>
    obtain rfl : part = [] := by simpa using h
    exact ⟨0, rfl, firstAt_zero List.nil_prefix⟩
  | cons c text ih =>
    by_cases hstart : part <+: c :: text
    · exact ⟨0, if_pos (List.isPrefixOf_iff_prefix.2 hstart), firstAt_zero hstart⟩
    · cases k with
      | zero => exact absurd h hstart
      | succ k =>
        obtain ⟨i, hfind, hfirst⟩ := ih h
        refine ⟨i + 1, ?_, hfirst.cons hstart⟩
        rw [find?, if_neg (mt List.isPrefixOf_iff_prefix.1 hstart), hfind]
        rfl

/-! ## Marks -/

/-- The characters of a row that stand above the carets of the next one. -/
def marked (row marks : List Char) : List Char :=
  ((row.zip marks).filter (·.2 == '^')).map (·.1)

theorem marked_blanks {row blanks : List Char} (h : '^' ∉ blanks) : marked row blanks = [] := by
  have hnone : (row.zip blanks).filter (·.2 == '^') = [] := by
    rw [List.filter_eq_nil_iff]
    rintro ⟨c, mark⟩ hmem hmark
    exact h (beq_iff_eq.1 hmark ▸ (List.of_mem_zip hmem).2)
  rw [marked, hnone]
  rfl

theorem marked_carets (part rest : List Char) :
    marked (part ++ rest) (List.replicate part.length '^') = part := by
  induction part with
  | nil => simp [marked]
  | cons c part ih =>
    rw [marked] at ih
    simp [marked, List.replicate_succ, ih]

/-- Carets after as many blanks as characters stand before `part` mark `part`. -/
theorem marked_append {before part rest blanks : List Char}
    (hlength : before.length = blanks.length) (h : '^' ∉ blanks) :
    marked (before ++ (part ++ rest)) (blanks ++ List.replicate part.length '^') = part := by
  have happend : marked (before ++ (part ++ rest)) (blanks ++ List.replicate part.length '^') =
      marked before blanks ++ marked (part ++ rest) (List.replicate part.length '^') := by
    unfold marked
    rw [List.zip_append hlength, List.filter_append, List.map_append]
  rw [happend, marked_blanks h, marked_carets, List.nil_append]

end Text

/-! ## Tokens on lines -/

theorem Lexeme.Spelled.getLast?_ne_return {lexeme : Lexeme} {text rest : List Char}
    (h : lexeme.Spelled text rest) {s : String} {line : Nat} {t : Token}
    (ht : lexeme.toToken s line = .ok t) : text.getLast? ≠ some '\r' := by
  have hword {c : Char} {cs : List Char} (hc : isWordStart c = true)
      (hcs : ∀ d ∈ cs, isWordChar d = true) : (c :: cs).getLast? ≠ some '\r' := by
    intro hlast
    rcases List.mem_cons.1 (List.mem_of_getLast? hlast) with rfl | hmem
    · exact absurd hc (by decide +kernel)
    · exact absurd (hcs _ hmem) (by decide +kernel)
  cases h with
  | invalidNumber | unterminatedString | unexpected => exact nomatch ht
  | number hc hrun =>
    intro hlast
    rcases List.mem_cons.1 (List.mem_of_getLast? hlast) with rfl | hmem
    · exact absurd hc (by decide)
    · exact absurd (hrun _ hmem) (by decide)
  | string =>
    rw [← List.cons_append, List.getLast?_concat]
    decide
  | @keyword k =>
    obtain ⟨c, cs, hk, hc, hcs⟩ := k.spelling_word
    rw [hk]
    exact hword hc hcs
  | symbol hc hrun => exact hword hc hrun
  | @mark m =>
    rcases m with _ | _ | _ | _ | op
    all_goals first | decide | (cases op <;> decide)

theorem Token.line_getElem? {source : String} {t : Token} (ht : t ∈ tokensFrom 1 source)
    (hfeed : '\n' ∉ t.lexeme.toList) :
    t.lexeme ≠ "" ∧
      ∃ l r, (lines source.toList)[t.line - 1]? = some (l ++ (t.lexeme.toList ++ r)) := by
  obtain ⟨before, text, rest, lexeme, hsource, hspelled, hresult⟩ := stands_of_mem_tokens ht
  obtain ⟨hlexeme, hline⟩ : t.lexeme.toList = text ∧ t.line - 1 = before.count '\n' := by
    cases lexeme with
    | number | string | token =>
      cases hresult
      exact ⟨String.toList_ofList, Nat.add_sub_cancel_left 1 _⟩
    | invalidNumber | unterminatedString | unexpected => exact nomatch hresult
  rw [hlexeme] at hfeed
  rw [hlexeme, hline, hsource]
  refine ⟨?_, lines_stretch hspelled.ne_nil hfeed (hspelled.getLast?_ne_return hresult) before rest⟩
  rintro hempty
  rw [hempty] at hlexeme
  exact hspelled.ne_nil hlexeme.symm

/-! ## Diagnostics and tokens -/

theorem location_of_mem_errorsFrom {line : Nat} {source : String} {e : SyntaxError}
    (he : e ∈ errorsFrom line source) : e.location = .unknown := by
  obtain ⟨r, hr, hre⟩ := List.mem_filterMap.1 he
  obtain ⟨p, -, l, hresult⟩ := Piece.mem_results hr
  obtain ⟨lexeme, -, hlexeme⟩ := Option.map_eq_some_iff.1 hresult
  subst hlexeme
  cases lexeme with
  | token | number | string => exact nomatch hre
  | invalidNumber | unterminatedString | unexpected =>
    cases hre
    rfl

theorem Expr.read_located {source : String} {e : SyntaxError} (he : e ∈ (read source).errors)
    {lexeme : String} (hlocation : e.location = .at lexeme) :
    ∃ t ∈ tokensFrom 1 source, t.line = e.line ∧ t.lexeme = lexeme := by
  rcases List.mem_append.1 he with hscan | hparse
  · rw [scan_eq_scanFrom, scanFrom_eq] at hscan
    rw [location_of_mem_errorsFrom hscan] at hlocation
    exact nomatch hlocation
  · have hread : ∀ e ∈ ((tokensFrom 1 source).foldl Reader.read .start).errors,
        ∃ t ∈ tokensFrom 1 source, ∃ cause, e = SyntaxError.atToken t cause :=
      Reader.forall_errors (fun t ht cause => ⟨t, ht, cause, rfl⟩) nofun
    unfold parse Reader.finish at hparse
    rw [takeWhile_tokens, List.mem_reverse] at hparse
    rcases List.mem_append.1 hparse with hmissing | herror
    · split at hmissing
      · exact nomatch hmissing
      · split at hmissing
        · exact nomatch hmissing
        · obtain rfl := List.mem_singleton.1 hmissing
          exact nomatch hlocation
    · obtain ⟨t, ht, cause, rfl⟩ := hread e herror
      have htoken : (SyntaxError.atToken t cause).location = .at t.lexeme :=
        if_neg (tokensFrom_kind 1 source t ht)
      rw [htoken] at hlocation
      exact ⟨t, ht, rfl, Location.at.inj hlocation⟩

theorem evaluateSource_syntaxErrors {depth : Nat} {source : String} {es : List SyntaxError}
    (h : evaluateSource depth source = .syntaxErrors es) : (Expr.read source).errors = es := by
  unfold evaluateSource at h
  dsimp only at h
  split at h
  · split at h <;> exact nomatch h
  · exact Evaluation.syntaxErrors.inj h

theorem Diagnostic.located {depth : Nat} {source : String} {d : Diagnostic}
    (hd : d ∈ (evaluateSource depth source).diagnostics) {lexeme : String}
    (hlocation : d.location = .at lexeme) :
    ∃ t ∈ tokensFrom 1 source, t.line = d.line ∧ t.lexeme = lexeme := by
  cases heval : evaluateSource depth source with
  | values | exhausted =>
    rw [heval] at hd
    exact nomatch hd
  | syntaxErrors es =>
    rw [heval] at hd
    obtain ⟨e, he, rfl⟩ := List.mem_map.1 hd
    rw [← evaluateSource_syntaxErrors heval] at he
    exact Expr.read_located he hlocation
  | runtimeError e =>
    rw [heval] at hd
    obtain rfl := List.mem_singleton.1 hd
    have hmem := e.token_mem heval
    have htoken : (ofRuntimeError e).location = .at e.token.lexeme :=
      if_neg (tokensFrom_kind 1 source e.token hmem)
    rw [htoken] at hlocation
    exact ⟨e.token, hmem, rfl, Location.at.inj hlocation⟩

/-! ## The excerpt -/

namespace Diagnostic

def gutter (line : Nat) : String := repeated ((toString line).length + 1) ' ' ++ " |"

def margin (line : Nat) : String := padLeft ((toString line).length + 1) (toString line) ++ " | "

theorem length_repeated (n : Nat) (c : Char) : (repeated n c).length = n := by
  rw [repeated, String.length_ofList, List.length_replicate]

/-- The margin is as wide as the gutter and a space, for numbers of any width. -/
theorem length_margin (line : Nat) : (margin line).length = (gutter line ++ " ").length := by
  have hbars : " | ".length = 3 ∧ " |".length = 2 ∧ " ".length = 1 := by decide
  simp only [margin, gutter, padLeft, String.length_append, length_repeated]
  omega

theorem caret_not_mem_blanks (line column : Nat) :
    '^' ∉ (gutter line ++ " " ++ repeated column ' ').toList := by
  simp [gutter, repeated]

section Lexeme

variable {d : Diagnostic} {content : List Char} {lexeme : String} {column : Nat}

theorem column?_at (hne : lexeme ≠ "") (hcolumn : find? lexeme.toList content = some column) :
    column? content (.at lexeme) = some ⟨column, lexeme.length⟩ := by
  have hempty : lexeme.isEmpty = false := by simpa using hne
  simp only [column?, hempty, hcolumn]
  rfl

/-- The excerpt of a line on which a lexeme is found, without colours. -/
theorem excerpt_at (source fileName : String) (hlocation : d.location = .at lexeme)
    (hne : lexeme ≠ "") (hcolumn : find? lexeme.toList content = some column) :
    excerpt ⟨source, fileName, false⟩ d content =
      "  --> " ++ fileName ++ ":" ++ toString d.line ++ ":" ++ toString (column + 1) ++ "\n"
        ++ gutter d.line ++ "\n" ++ (margin d.line ++ String.ofList content) ++ "\n"
        ++ (gutter d.line ++ " " ++ repeated column ' ' ++ repeated lexeme.length '^') ++ "\n"
        ++ gutter d.line ++ "\n" := by
  have hwidth : max lexeme.length 1 = lexeme.length := by
    have : lexeme.length ≠ 0 := by simpa using hne
    omega
  unfold excerpt
  rw [hlocation, column?_at hne hcolumn]
  simp [Style.paint, gutter, margin, String.append_assoc, hwidth]

theorem marked_excerpt (line : Nat) (hne : lexeme ≠ "")
    (hfirst : FirstAt lexeme.toList content column) :
    marked (margin line ++ String.ofList content).toList
      (gutter line ++ " " ++ repeated column ' ' ++ repeated lexeme.length '^').toList =
        lexeme.toList := by
  obtain ⟨rest, hrest⟩ := hfirst.1
  have hcolumn : column ≤ content.length := by
    by_contra hlt
    rw [List.drop_eq_nil_of_le (by omega), List.append_eq_nil_iff] at hrest
    exact hne (String.toList_eq_nil_iff.1 hrest.1)
  have hcontent : content = content.take column ++ (lexeme.toList ++ rest) := by
    rw [hrest, List.take_append_drop]
  have hlength : ((margin line).toList ++ content.take column).length =
      (gutter line ++ " " ++ repeated column ' ').toList.length := by
    have hmargin := length_margin line
    simp only [List.length_append, List.length_take, String.length_toList, String.length_append,
      length_repeated] at hmargin ⊢
    omega
  have hmarked := @marked_append _ lexeme.toList rest _ hlength (caret_not_mem_blanks line column)
  rw [List.append_assoc, ← hcontent] at hmarked
  simpa [repeated, String.length_toList] using hmarked

end Lexeme

/-- **Carets stand under the lexeme** that a diagnostic names, if it takes no more than one line.
The excerpt is that of the line of the diagnostic, its first occurrence of the lexeme is marked, and
the place names the column of that, counted from 1. -/
theorem render_marks {depth : Nat} {source : String} {d : Diagnostic}
    (hd : d ∈ (evaluateSource depth source).diagnostics) {lexeme : String}
    (hlocation : d.location = .at lexeme) (hfeed : '\n' ∉ lexeme.toList) (fileName : String) :
    let view : View := ⟨source, fileName, false⟩
    ∃ content column blanks,
      0 < d.line ∧ (lines source.toList)[d.line - 1]? = some content ∧
      FirstAt lexeme.toList content column ∧
      let row := margin d.line ++ String.ofList content
      let marks := blanks ++ repeated lexeme.length '^'
      marked row.toList marks.toList = lexeme.toList ∧
      blanks.length = (margin d.line).length + column ∧ '^' ∉ blanks.toList ∧
      render view d = header view d
        ++ ("  --> " ++ fileName ++ ":" ++ toString d.line ++ ":" ++ toString (column + 1) ++ "\n"
          ++ gutter d.line ++ "\n" ++ row ++ "\n" ++ marks ++ "\n" ++ gutter d.line ++ "\n")
        ++ String.join (d.notes.map (noteLine view)) := by
  intro view
  obtain ⟨t, ht, hline, rfl⟩ := located hd hlocation
  obtain ⟨hne, l, r, hcontent⟩ := Token.line_getElem? ht hfeed
  obtain ⟨hpos, -⟩ := Token.line_bounds ht
  rw [hline] at hcontent hpos
  have hoccurs : t.lexeme.toList <+: (l ++ (t.lexeme.toList ++ r)).drop l.length := by simp
  obtain ⟨column, hfind, hfirst⟩ := find?_firstAt hoccurs
  refine ⟨_, column, gutter d.line ++ " " ++ repeated column ' ', hpos, hcontent, hfirst, ?_, ?_,
    caret_not_mem_blanks d.line column, ?_⟩
  · exact marked_excerpt d.line hne hfirst
  · rw [String.length_append, length_repeated, length_margin]
  · have hshown : content? view d = some (l ++ (t.lexeme.toList ++ r)) := hcontent
    unfold render
    rw [hshown]
    dsimp only
    rw [excerpt_at source fileName hlocation hne hfind]

/-- The second line of a text with two kinds of line ends, and characters of several bytes before
the lexeme. -/
theorem render_marks_symbol :
    let source := "(set l (1 2))\r\n(cons \"日本\" λλ)\n"
    ∃ d ∈ (evaluateSource 9 source).diagnostics, d.location = .at "λλ" ∧ d.line = 2 ∧
      ∃ content column blanks, (lines source.toList)[1]? = some content ∧
        FirstAt "λλ".toList content column ∧
        marked (margin 2 ++ String.ofList content).toList (blanks ++ repeated 2 '^').toList =
          "λλ".toList := by
  intro source
  let d : Diagnostic :=
    ⟨some "E0201", "Undefined variable 'λλ'.", 2, .at "λλ", []⟩
  have hd : d ∈ (evaluateSource 9 source).diagnostics := by decide +kernel
  obtain ⟨content, column, blanks, -, hcontent, hfirst, hmarked, -⟩ :=
    render_marks hd rfl (by decide) "main.lisp"
  exact ⟨d, hd, rfl, rfl, content, column, blanks, hcontent, hfirst, hmarked⟩

/-- The first of two occurrences is marked. -/
example : render ⟨"(f\n (é ü ü))", "a.lisp", false⟩ ⟨none, "m", 2, .at "ü", []⟩ =
    "error: m\n  --> a.lisp:2:5\n   |\n 2 |  (é ü ü))\n   |     ^\n   |\n" := by
  decide +kernel

end Diagnostic

end MiniLisp
