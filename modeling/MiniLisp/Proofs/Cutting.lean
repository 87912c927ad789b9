import Mathlib.Data.List.TakeWhile
import MiniLisp.Token.Piece

/-!
# How texts are cut

What `Piece.cut` gives is described without the order in which `Piece.first` tries things: each
piece is of one of the forms of `Piece.Valid`, and what follows it does not make it longer.

* `Piece.Ends` : the text after a piece does not belong to it;
* `Piece.WellCut` : all pieces are valid, and each ends where the next one starts;
* `Piece.wellCut_cut`, `Piece.cut_append` : a text is cut well, and there is only one way to do so;
* `Piece.WellCut.newline` : a line break cuts off what comes after it, except inside a string.
-/

namespace MiniLisp

open Text

/-! ## Classes of characters -/

theorem isDigit_cases {c : Char} (h : c.isDigit = true) :
    c ∈ ['0', '1', '2', '3', '4', '5', '6', '7', '8', '9'] := by
  have hc : 48 ≤ c.toNat ∧ c.toNat ≤ 57 := by
    simpa [Char.isDigit, UInt32.le_iff_toNat_le] using h
  have hn : ∀ n, 48 ≤ n → n ≤ 57 →
      Char.ofNat n ∈ ['0', '1', '2', '3', '4', '5', '6', '7', '8', '9'] := by
    intro n hlo hhi
    have : n = 48 ∨ n = 49 ∨ n = 50 ∨ n = 51 ∨ n = 52 ∨ n = 53 ∨ n = 54 ∨ n = 55 ∨ n = 56 ∨
      n = 57 := by omega
    rcases this with rfl | rfl | rfl | rfl | rfl | rfl | rfl | rfl | rfl | rfl <;> decide
  have := hn c.toNat hc.1 hc.2
  rwa [Char.ofNat_toNat] at this

theorem digit_class {c : Char} (h : c.isDigit = true) :
    isBlank c = false ∧ isWordStart c = false := by
  have hall : ['0', '1', '2', '3', '4', '5', '6', '7', '8', '9'].all
      (fun c => !isBlank c && !isWordStart c) := by
    decide +kernel
  simpa using List.all_eq_true.1 hall c (isDigit_cases h)

theorem isBlank_of_isDigit {c : Char} (h : c.isDigit = true) : isBlank c = false :=
  (digit_class h).1

theorem isWordStart_of_isDigit {c : Char} (h : c.isDigit = true) : isWordStart c = false :=
  (digit_class h).2

theorem Ranges.has_eq_false {p q : Ranges}
    (h : (p.all fun r => q.all fun s => r.2 < s.1 || s.2 < r.1) = true) {c : Char}
    (hc : p.has c = true) : q.has c = false := by
  obtain ⟨r, hr, hrange⟩ := List.any_eq_true.1 hc
  have hrange : r.1 ≤ c.toNat ∧ c.toNat ≤ r.2 := by simpa using hrange
  refine List.any_eq_false.2 fun s hs hmem => ?_
  have hmem : s.1 ≤ c.toNat ∧ c.toNat ≤ s.2 := by simpa using hmem
  have hapart : r.2 < s.1 ∨ s.2 < r.1 := by
    simpa using List.all_eq_true.1 (List.all_eq_true.1 h r hr) s hs
  omega

theorem ne_of_isBlank {c d : Char} (h : isBlank c = true) (hd : isBlank d = false) : c ≠ d := by
  rintro rfl
  rw [hd] at h
  exact nomatch h

theorem isWordChar_of_isBlank {c : Char} (h : isBlank c = true) : isWordChar c = false := by
  have halphabetic : isAlphabetic c = false := Ranges.has_eq_false (by decide +kernel) h
  have hnumeric : isNumeric c = false := Ranges.has_eq_false (by decide +kernel) h
  simp [isWordChar, halphabetic, hnumeric, ne_of_isBlank h (d := '_') (by decide),
    ne_of_isBlank h (d := '?') (by decide)]

theorem isWordStart_of_isBlank {c : Char} (h : isBlank c = true) : isWordStart c = false := by
  have hword := isWordChar_of_isBlank h
  simp only [isWordChar, Bool.or_eq_false_iff] at hword
  obtain ⟨⟨⟨halphabetic, -⟩, hunderscore⟩, -⟩ := hword
  rw [isWordStart, halphabetic, hunderscore, Bool.or_self]

theorem isNumberChar_of_isBlank {c : Char} (h : isBlank c = true) : isNumberChar c = false := by
  have hdigit : c.isDigit = false :=
    Bool.eq_false_iff.2 fun hdigit => ne_of_isBlank h (isBlank_of_isDigit hdigit) rfl
  simp [isNumberChar, hdigit, ne_of_isBlank h (d := '.') (by decide)]

theorem quote_class : isBlank '"' = false ∧ isWordStart '"' = false := by decide +kernel

namespace Mark

theorem char_spec (m : Mark) : ofChar? m.char = some m ∧ isBlank m.char = false ∧
    m.char.isDigit = false ∧ m.char ≠ '"' ∧ isWordStart m.char = false := by
  cases m with
  | operator op => cases op <;> decide +kernel
  | leftParen | rightParen | dot | semicolon => decide +kernel

end Mark

namespace Piece

/-! ## Pieces and what follows them -/

/-- The form of each piece. -/
def Valid : Piece → Prop
  | blank c => isBlank c = true
  | comment body => '\n' ∉ body
  | number text => ∃ c cs, text = c :: cs ∧ c.isDigit = true ∧ ∀ d ∈ cs, isNumberChar d = true
  | string body => '"' ∉ body
  | openString body => '"' ∉ body
  | word text => ∃ c cs, text = c :: cs ∧ isWordStart c = true ∧ ∀ d ∈ cs, isWordChar d = true
  | mark _ => True
  | stray c => isBlank c = false ∧ c.isDigit = false ∧ c ≠ '"' ∧ isWordStart c = false ∧
      Mark.ofChar? c = none

/-- Does the piece end where `rest` starts? A longer piece would take some of `rest`. -/
def Ends (p : Piece) (rest : List Char) : Prop :=
  match p with
  | comment _ => ∀ c ∈ rest.head?, c = '\n'
  | number _ => ∀ c ∈ rest.head?, isNumberChar c = false
  | openString _ => rest = []
  | word _ => ∀ c ∈ rest.head?, isWordChar c = false
  | mark m => m.char = '/' → rest.head? ≠ some '/'
  | _ => True

theorem Valid.text_ne_nil {p : Piece} (h : p.Valid) : p.text ≠ [] := by
  cases p with
  | number | word =>
    obtain ⟨c, cs, rfl, -⟩ := h
    exact List.cons_ne_nil c cs
  | blank | comment | string | openString | mark | stray => exact List.cons_ne_nil _ _

/-- A run of characters of one class, and what is left where the class ends. -/
theorem span_run {q : Char → Bool} {cs rest : List Char} (hcs : ∀ c ∈ cs, q c = true)
    (hrest : ∀ c ∈ rest.head?, q c = false) :
    (cs ++ rest).takeWhile q = cs ∧ (cs ++ rest).dropWhile q = rest := by
  rw [List.takeWhile_append_of_pos hcs, List.dropWhile_append_of_pos hcs]
  cases rest with
  | nil => exact ⟨List.append_nil _, rfl⟩
  | cons c rest =>
    have hc : ¬q c = true := by
      rw [hrest c rfl]
      exact Bool.false_ne_true
    rw [List.takeWhile_cons_of_neg hc, List.dropWhile_cons_of_neg hc]
    exact ⟨List.append_nil _, rfl⟩

theorem head?_dropWhile (q : Char → Bool) (cs : List Char) :
    ∀ c ∈ (cs.dropWhile q).head?, q c = false := by
  intro c hc
  have := List.head?_dropWhile_not q cs
  rw [Option.mem_def.1 hc] at this
  simpa using this

theorem takeWhile_all (q : Char → Bool) (cs : List Char) : ∀ c ∈ cs.takeWhile q, q c = true :=
  fun _ => List.mem_takeWhile_imp

/-! ## The first piece -/

theorem all_ne_of_notMem {c : Char} {cs : List Char} (h : c ∉ cs) :
    ∀ d ∈ cs, (d != c) = true := by
  intro d hd
  rw [bne_iff_ne]
  exact fun e => h (e ▸ hd)

theorem first_comment {body rest : List Char} (hbody : '\n' ∉ body)
    (hrest : ∀ c ∈ rest.head?, c = '\n') :
    first '/' ('/' :: (body ++ rest)) = (comment body, rest) := by
  have hend : ∀ c ∈ rest.head?, (c != '\n') = false := by
    intro c hc
    rw [hrest c hc]
    rfl
  have hslash : isBlank '/' = false := (Mark.char_spec (.operator .slash)).2.1
  obtain ⟨htake, hdrop⟩ := span_run (all_ne_of_notMem hbody) hend
  rw [first, hslash, if_neg Bool.false_ne_true, if_pos ⟨rfl, rfl⟩, List.tail_cons, htake, hdrop]

theorem first_number {c : Char} {cs rest : List Char} (hc : c.isDigit = true)
    (hcs : ∀ d ∈ cs, isNumberChar d = true) (hrest : ∀ d ∈ rest.head?, isNumberChar d = false) :
    first c (cs ++ rest) = (number (c :: cs), rest) := by
  obtain ⟨htake, hdrop⟩ := span_run hcs hrest
  have hslash : ¬(c = '/' ∧ (cs ++ rest).head? = some '/') := by
    rintro ⟨rfl, -⟩
    exact absurd hc (by decide)
  rw [first, isBlank_of_isDigit hc, if_neg Bool.false_ne_true, if_neg hslash, if_pos hc, htake,
    hdrop]

theorem first_string {body : List Char} (hbody : '"' ∉ body) (rest : List Char) :
    first '"' (body ++ '"' :: rest) = (string body, rest) := by
  have hquote : ∀ c ∈ ('"' :: rest).head?, (c != '"') = false := by simp
  obtain ⟨htake, hdrop⟩ := span_run (all_ne_of_notMem hbody) hquote
  rw [first, quote_class.1, if_neg Bool.false_ne_true, if_neg (by simp), if_neg (by decide),
    if_pos rfl, htake, hdrop]

theorem first_openString {body : List Char} (hbody : '"' ∉ body) :
    first '"' body = (openString body, []) := by
  have hdrop : body.dropWhile (· != '"') = [] :=
    List.dropWhile_eq_nil_iff.2 (all_ne_of_notMem hbody)
  rw [first, quote_class.1, if_neg Bool.false_ne_true, if_neg (by simp), if_neg (by decide),
    if_pos rfl, hdrop]

theorem first_word {c : Char} {cs rest : List Char} (hc : isWordStart c = true)
    (hcs : ∀ d ∈ cs, isWordChar d = true) (hrest : ∀ d ∈ rest.head?, isWordChar d = false) :
    first c (cs ++ rest) = (word (c :: cs), rest) := by
  obtain ⟨htake, hdrop⟩ := span_run hcs hrest
  have hblank : ¬isBlank c = true := by
    intro h
    simp [isWordStart_of_isBlank h] at hc
  have hdigit : ¬c.isDigit = true := by
    intro h
    simp [isWordStart_of_isDigit h] at hc
  have hslash : ¬(c = '/' ∧ (cs ++ rest).head? = some '/') := by
    rintro ⟨rfl, -⟩
    have hmark : isWordStart '/' = false := (Mark.char_spec (.operator .slash)).2.2.2.2
    simp [hmark] at hc
  have hquote : c ≠ '"' := by
    rintro rfl
    simp [quote_class.2] at hc
  rw [first, if_neg hblank, if_neg hslash, if_neg hdigit, if_neg hquote, if_pos hc, htake, hdrop]

theorem first_mark {m : Mark} {rest : List Char} (hrest : m.char = '/' → rest.head? ≠ some '/') :
    first m.char rest = (mark m, rest) := by
  obtain ⟨hm, hblank, hdigit, hquote, hword⟩ := m.char_spec
  have hslash : ¬(m.char = '/' ∧ rest.head? = some '/') := fun h => hrest h.1 h.2
  rw [first, hblank, hdigit, hword, if_neg Bool.false_ne_true, if_neg hslash,
    if_neg Bool.false_ne_true, if_neg hquote, if_neg Bool.false_ne_true, hm]

theorem first_stray {c : Char} (hc : (stray c).Valid) (rest : List Char) :
    first c rest = (stray c, rest) := by
  obtain ⟨hblank, hdigit, hquote, hword, hmark⟩ := hc
  have hslash : ¬(c = '/' ∧ rest.head? = some '/') := by
    rintro ⟨rfl, -⟩
    exact absurd hmark (by decide)
  rw [first, hblank, hdigit, hword, if_neg Bool.false_ne_true, if_neg hslash,
    if_neg Bool.false_ne_true, if_neg hquote, if_neg Bool.false_ne_true, hmark]

theorem cut_of_first {c : Char} {tail : List Char} {p : Piece} {rest : List Char}
    (h : first c tail = (p, rest)) : cut (c :: tail) = p :: cut rest := by
  rw [cut, h]

/-- A valid piece is the first one of every text that starts with it, if it ends there. -/
theorem cut_piece {p : Piece} (hp : p.Valid) {rest : List Char} (he : p.Ends rest) :
    cut (p.text ++ rest) = p :: cut rest := by
  cases p with
  | blank c =>
    have hblank : isBlank c = true := hp
    have h : first c rest = (blank c, rest) := by
      rw [first, if_pos hblank]
    exact cut_of_first h
  | comment body => exact cut_of_first (first_comment hp he)
  | number text =>
    obtain ⟨c, cs, rfl, hc, hcs⟩ := hp
    exact cut_of_first (first_number hc hcs he)
  | string body =>
    have htext : (string body).text ++ rest = '"' :: (body ++ '"' :: rest) := by simp [text]
    rw [htext]
    exact cut_of_first (first_string hp rest)
  | openString body =>
    obtain rfl : rest = [] := he
    rw [List.append_nil]
    exact cut_of_first (first_openString hp)
  | word text =>
    obtain ⟨c, cs, rfl, hc, hcs⟩ := hp
    exact cut_of_first (first_word hc hcs he)
  | mark m => exact cut_of_first (first_mark he)
  | stray c => exact cut_of_first (first_stray hp rest)

/-- The first piece of a text is valid, and ends where the rest starts. -/
theorem first_spec (c : Char) (rest : List Char) :
    (first c rest).1.Valid ∧ (first c rest).1.Ends (first c rest).2 := by
  unfold first
  by_cases hblank : isBlank c = true
  · rw [if_pos hblank]
    exact ⟨hblank, trivial⟩
  rw [if_neg hblank]
  by_cases hslash : c = '/' ∧ rest.head? = some '/'
  · rw [if_pos hslash]
    constructor
    · intro h
      simpa using takeWhile_all _ _ _ h
    · intro d hd
      simpa using head?_dropWhile _ _ d hd
  rw [if_neg hslash]
  by_cases hdigit : c.isDigit = true
  · rw [if_pos hdigit]
    exact ⟨⟨c, _, rfl, hdigit, takeWhile_all _ _⟩, head?_dropWhile _ _⟩
  rw [if_neg hdigit]
  by_cases hquote : c = '"'
  · rw [if_pos hquote]
    cases hdrop : rest.dropWhile (· != '"') with
    | nil =>
      have hall := List.dropWhile_eq_nil_iff.1 hdrop
      refine ⟨?_, rfl⟩
      intro hmem
      simpa using hall _ hmem
    | cons =>
      refine ⟨?_, trivial⟩
      intro hmem
      simpa using takeWhile_all _ _ _ hmem
  rw [if_neg hquote]
  by_cases hword : isWordStart c = true
  · rw [if_pos hword]
    exact ⟨⟨c, _, rfl, hword, takeWhile_all _ _⟩, head?_dropWhile _ _⟩
  rw [if_neg hword]
  cases hmark : Mark.ofChar? c with
  | some m =>
    have hchar := Mark.char_of_ofChar? hmark
    refine ⟨trivial, ?_⟩
    intro h hhead
    exact hslash ⟨hchar ▸ h, hhead⟩
  | none =>
    exact ⟨⟨by simpa using hblank, by simpa using hdigit, hquote, by simpa using hword, hmark⟩,
      trivial⟩

/-! ## All pieces -/

/-- Pieces, and after them a text, such that each piece is valid and ends where the next starts. -/
def WellCut : List Piece → List Char → Prop
  | [], _ => True
  | p :: ps, rest => p.Valid ∧ p.Ends (ps.flatMap text ++ rest) ∧ WellCut ps rest

theorem wellCut_cut (source : List Char) : WellCut (cut source) [] := by
  fun_induction cut source with
  | case1 => trivial
  | case2 c rest ih =>
    obtain ⟨hvalid, hends⟩ := first_spec c rest
    refine ⟨hvalid, ?_, ih⟩
    rw [cut_text, List.append_nil]
    exact hends

theorem cut_append {ps : List Piece} {rest : List Char} (h : WellCut ps rest) :
    cut (ps.flatMap text ++ rest) = ps ++ cut rest := by
  induction ps with
  | nil => rfl
  | cons p ps ih =>
    obtain ⟨hvalid, hends, hrest⟩ := h
    rw [List.flatMap_cons, List.append_assoc, cut_piece hvalid hends, ih hrest]
    rfl

theorem cut_flatMap {ps : List Piece} (h : WellCut ps []) : cut (ps.flatMap text) = ps := by
  have := cut_append h
  rwa [List.append_nil, cut, List.append_nil] at this

theorem WellCut.append {ps qs : List Piece} {rest : List Char}
    (hps : WellCut ps (qs.flatMap text ++ rest)) (hqs : WellCut qs rest) :
    WellCut (ps ++ qs) rest := by
  induction ps with
  | nil => exact hqs
  | cons p ps ih =>
    obtain ⟨hvalid, hends, hps⟩ := hps
    refine ⟨hvalid, ?_, ih hps⟩
    show p.Ends ((ps ++ qs).flatMap text ++ rest)
    rw [List.flatMap_append, List.append_assoc]
    exact hends

theorem WellCut.valid {ps : List Piece} {rest : List Char} (h : WellCut ps rest) :
    ∀ p ∈ ps, p.Valid := by
  induction ps with
  | nil => exact fun p hp => nomatch hp
  | cons q ps ih =>
    obtain ⟨hvalid, -, hps⟩ := h
    exact List.forall_mem_cons.2 ⟨hvalid, ih hps⟩

/-! ## Line breaks -/

def isOpenString : Piece → Bool
  | openString _ => true
  | _ => false

theorem Ends.newline {p : Piece} (hopen : p.isOpenString = false) {rest : List Char}
    (h : p.Ends rest) (more : List Char) : p.Ends (rest ++ '\n' :: more) := by
  have hhead : ∀ {P : Char → Prop}, P '\n' → (∀ c ∈ rest.head?, P c) →
      ∀ c ∈ (rest ++ '\n' :: more).head?, P c := by
    intro P hnewline hrest
    cases rest with
    | nil => exact fun c hc => Option.mem_some_iff.1 hc ▸ hnewline
    | cons d rest => exact hrest
  cases p with
  | comment => exact hhead rfl h
  | number => exact hhead (P := (isNumberChar · = false)) (by decide) h
  | openString => exact nomatch hopen
  | word => exact hhead (P := (isWordChar · = false)) (by decide +kernel) h
  | mark m =>
    intro hslash hmore
    exact hhead (P := (· ≠ '/')) (by decide) (fun c hc e => h hslash (e ▸ hc)) '/' hmore rfl
  | blank | string | stray => trivial

/-- **A line break cuts a text in two**, if no string is open there. -/
theorem WellCut.newline {ps : List Piece} (hopen : ∀ p ∈ ps, p.isOpenString = false)
    {rest : List Char} (h : WellCut ps rest) (more : List Char) :
    WellCut ps (rest ++ '\n' :: more) := by
  induction ps with
  | nil => trivial
  | cons p ps ih =>
    obtain ⟨hvalid, hends, hps⟩ := h
    obtain ⟨hp, hopen⟩ := List.forall_mem_cons.1 hopen
    refine ⟨hvalid, ?_, ih hopen hps⟩
    rw [← List.append_assoc]
    exact hends.newline hp more

theorem cut_newline {first : List Char} (hopen : ∀ p ∈ cut first, p.isOpenString = false)
    (second : List Char) :
    cut (first ++ '\n' :: second) = cut first ++ blank '\n' :: cut second := by
  have h := (wellCut_cut first).newline hopen second
  rw [List.nil_append] at h
  have hcut := cut_append h
  rw [cut_text] at hcut
  have hblank : (blank '\n').Valid := (by decide +kernel : isBlank '\n' = true)
  have hends : (blank '\n').Ends second := trivial
  rw [hcut, show '\n' :: second = (blank '\n').text ++ second from rfl, cut_piece hblank hends]

end Piece

end MiniLisp
