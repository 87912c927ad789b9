import MiniLisp.Proofs.Bytes
import MiniLisp.Proofs.Cutting

/-!
# Lines of an input

What the lines of a text are, and what a line is without the blanks around it, is said without the
functions that find them. There is one answer for every text, and this is what they find.

* `Text.Lines`, `Text.lines_iff` : the lines of a text, each with its end;
* `Text.Trimmed`, `Text.trimmed_iff` : a text without the blanks at its two ends.
-/

namespace MiniLisp

namespace Text

/-- A text is put together from lines. A line ends with the only line break in it; the last one may
also end with the text, but it is not empty then. -/
inductive Lines : List Char → List (List Char) → Prop
  | nil : Lines [] []
  | last {line : List Char} (hne : line ≠ []) (hline : '\n' ∉ line) : Lines line [line]
  | cons {body rest : List Char} {lines : List (List Char)} (hbody : '\n' ∉ body)
      (h : Lines rest lines) : Lines (body ++ '\n' :: rest) ((body ++ ['\n']) :: lines)

theorem Lines.flatten {text : List Char} {lines : List (List Char)} (h : Lines text lines) :
    lines.flatten = text := by
  induction h with
  | nil => rfl
  | last => exact List.append_nil _
  | cons hbody _ ih => rw [List.flatten_cons, ih, List.append_assoc, List.singleton_append]

theorem Lines.prepend {c : Char} {text : List Char} {line : List Char} {lines : List (List Char)}
    (hc : c ≠ '\n') (h : Lines text (line :: lines)) :
    Lines (c :: text) ((c :: line) :: lines) := by
  cases h with
  | last hne hline =>
    exact .last (List.cons_ne_nil _ _) (List.not_mem_cons_of_ne_of_not_mem hc.symm hline)
  | cons hbody h => exact .cons (List.not_mem_cons_of_ne_of_not_mem hc.symm hbody) h

theorem lines_inclusiveLines (text : List Char) : Lines text (inclusiveLines '\n' text) := by
  induction text with
  | nil => exact .nil
  | cons c text ih =>
    unfold inclusiveLines
    by_cases hc : c = '\n'
    · subst hc
      rw [if_pos rfl]
      exact .cons List.not_mem_nil ih
    · rw [if_neg hc]
      cases hlines : inclusiveLines '\n' text with
      | nil =>
        rw [hlines] at ih
        obtain rfl : [] = text := ih.flatten
        exact .last (List.cons_ne_nil _ _) (by simpa using Ne.symm hc)
      | cons line lines =>
        rw [hlines] at ih
        exact ih.prepend hc

theorem inclusiveLines_body {body : List Char} (hbody : '\n' ∉ body) (rest : List Char) :
    inclusiveLines '\n' (body ++ '\n' :: rest) = (body ++ ['\n']) :: inclusiveLines '\n' rest := by
  have hstop : inclusiveLines '\n' ('\n' :: rest) = ['\n'] :: inclusiveLines '\n' rest :=
    if_pos rfl
  by_cases hnil : body = []
  · subst hnil
    exact hstop
  · rw [inclusiveLines_append _ hnil hbody, hstop]

/-- **There is one way to put a text together from lines.** -/
theorem lines_iff {text : List Char} {lines : List (List Char)} :
    Lines text lines ↔ lines = inclusiveLines '\n' text := by
  constructor
  · intro h
    induction h with
    | nil => rfl
    | last hne hline =>
      have hlast := inclusiveLines_append [] hne hline
      rw [List.append_nil] at hlast
      exact hlast.symm
    | cons hbody _ ih => rw [ih, inclusiveLines_body hbody]
  · rintro rfl
    exact lines_inclusiveLines text

/-- What is left of a text if the blanks at its two ends are left out. -/
structure Trimmed (text trimmed : List Char) : Prop where
  around : ∃ before after, text = before ++ (trimmed ++ after) ∧
    (∀ c ∈ before, isBlank c = true) ∧ ∀ c ∈ after, isBlank c = true
  first : ∀ c ∈ trimmed.head?, isBlank c = false
  last : ∀ c ∈ trimmed.getLast?, isBlank c = false

theorem dropWhile_blanks {before text : List Char} (hbefore : ∀ c ∈ before, isBlank c = true)
    (htext : ∀ c ∈ text.head?, isBlank c = false) :
    (before ++ text).dropWhile isBlank = text := (Piece.span_run hbefore htext).2

theorem trimmed_trim (text : List Char) : Trimmed text (trim text) := by
  have hstart := List.takeWhile_append_dropWhile (p := isBlank) (l := text)
  generalize hdrop : text.dropWhile isBlank = start at hstart
  have hend := List.takeWhile_append_dropWhile (p := isBlank) (l := start.reverse)
  have htrim : trim text = (start.reverse.dropWhile isBlank).reverse := by rw [trim, hdrop]
  have hall : start = trim text ++ (start.reverse.takeWhile isBlank).reverse := by
    rw [htrim, ← List.reverse_append, hend, List.reverse_reverse]
  refine ⟨⟨text.takeWhile isBlank, (start.reverse.takeWhile isBlank).reverse, ?_,
    Piece.takeWhile_all isBlank text, ?_⟩, ?_, ?_⟩
  · rw [← hall, hstart]
  · intro c hc
    exact Piece.takeWhile_all isBlank _ c (List.mem_reverse.1 hc)
  · intro c hc
    have hhead : c ∈ start.head? := by
      rw [hall, List.head?_append, Option.mem_def.1 hc]
      rfl
    rw [← hdrop] at hhead
    exact Piece.head?_dropWhile isBlank text c hhead
  · intro c hc
    rw [htrim, List.getLast?_reverse] at hc
    exact Piece.head?_dropWhile isBlank _ c hc

/-- **There is one way to leave out the blanks at the two ends of a text.** -/
theorem trimmed_iff {text trimmed : List Char} : Trimmed text trimmed ↔ trimmed = trim text := by
  constructor
  · rintro ⟨⟨before, after, rfl, hbefore, hafter⟩, hfirst, hlast⟩
    have hblanks : ∀ c ∈ after.reverse, isBlank c = true := fun c hc =>
      hafter c (List.mem_reverse.1 hc)
    cases trimmed with
    | nil =>
      have hall : ∀ c ∈ before ++ after, isBlank c = true := by
        intro c hc
        exact (List.mem_append.1 hc).elim (hbefore c) (hafter c)
      have hnil : (before ++ after).dropWhile isBlank = [] := by
        have := @dropWhile_blanks (before ++ after) [] hall nofun
        rwa [List.append_nil] at this
      rw [List.nil_append, trim, hnil]
      rfl
    | cons c trimmed =>
      have hstart : (before ++ (c :: trimmed ++ after)).dropWhile isBlank = c :: trimmed ++ after :=
        dropWhile_blanks hbefore hfirst
      have hend : (c :: trimmed ++ after).reverse.dropWhile isBlank = (c :: trimmed).reverse := by
        rw [List.reverse_append]
        refine dropWhile_blanks hblanks ?_
        rwa [List.head?_reverse]
      rw [trim, hstart, hend, List.reverse_reverse]
  · rintro rfl
    exact trimmed_trim text

end Text

end MiniLisp
