import Mathlib.Data.List.Forall2
import MiniLisp.Command.Options
import MiniLisp.Proofs.Scanning

/-!
# Letter case and tokens

Lower-casing looks at a text and not at its tokens, and still makes no token into something else: a
letter becomes a letter, and what is no letter stays. The one exception is the dotted capital I,
whose small form is a letter and a combining dot, which no word can hold.

* `Text.SmallForm.sort` : a letter becomes a letter, the dotted capital apart;
* `Text.Lowers` : a text and its small form, whatever stands around it;
* `Piece.Folded` : a piece and its small form, which is valid and ends where the piece ended;
* `Piece.WellCut.folded`, `Piece.WellCut.stray_mem_cut` : how the small form of a text is cut,
  without and with a dotted capital in its words;
* `scan_normalize` : the tokens stay what they are, if and only if no word has the dotted capital.
-/

namespace MiniLisp

open List

namespace Text

/-! ## Letters and their small forms -/

/-- Does one range of the class hold all code points from `lo` to `hi`? -/
def Ranges.covers (ranges : Ranges) (lo hi : Nat) : Bool :=
  ranges.any fun r => Nat.ble hi r.2 && Nat.ble r.1 lo

theorem Ranges.covers_iff {ranges : Ranges} {lo hi : Nat} :
    ranges.covers lo hi = true ↔ ∃ r ∈ ranges, hi ≤ r.2 ∧ r.1 ≤ lo := by
  simp [covers]

theorem Ranges.has_of_covers {ranges : Ranges} {lo hi : Nat} (h : ranges.covers lo hi = true)
    {c : Char} (hlo : lo ≤ c.toNat) (hhi : c.toNat ≤ hi) : ranges.has c = true := by
  obtain ⟨r, hr, hrhi, hrlo⟩ := covers_iff.1 h
  refine List.any_eq_true.2 ⟨r, hr, ?_⟩
  simp only [Bool.and_eq_true, decide_eq_true_eq]
  omega

/-- The code points of a run of small forms, and those between them, are letters. -/
theorem caseRuns_small : (caseRuns.all fun run =>
    alphabeticRanges.covers run.small (run.small + (run.last - run.first))) = true := by
  decide +kernel

/-- Capitals are letters, and so is all that lies between them in most runs. -/
theorem caseRuns_capital : (caseRuns.all fun run => alphabeticRanges.covers run.first run.last ||
    (List.range' run.first ((run.last - run.first) / run.stride + 1) run.stride).all fun n =>
      alphabeticRanges.covers n n) = true := by
  decide +kernel

theorem caseRuns_stride : (caseRuns.all fun run => Nat.ble 1 run.stride) = true := by
  decide +kernel

theorem alphabeticRanges_valid : (alphabeticRanges.all fun r =>
    Nat.ble r.2 0xd7ff || (Nat.ble 0xe000 r.1 && Nat.ble r.2 0x10ffff)) = true := by
  decide +kernel

theorem isAlphabetic_ofNat {lo hi code : Nat} (h : alphabeticRanges.covers lo hi = true)
    (hlo : lo ≤ code) (hhi : code ≤ hi) : isAlphabetic (Char.ofNat code) = true := by
  have hvalid : code.isValidChar := by
    obtain ⟨r, hr, hrhi, hrlo⟩ := Ranges.covers_iff.1 h
    have := List.all_eq_true.1 alphabeticRanges_valid r hr
    simp only [Bool.or_eq_true, Bool.and_eq_true, Nat.ble_eq] at this
    unfold Nat.isValidChar
    omega
  have hcode : (Char.ofNat code).toNat = code := by
    rw [Char.ofNat, dif_pos hvalid]
    rfl
  exact Ranges.has_of_covers h (by rwa [hcode]) (by rwa [hcode])

theorem CaseRun.small?_eq_some {run : CaseRun} {code small : Nat} :
    run.small? code = some small ↔ (run.first ≤ code ∧ code ≤ run.last ∧
      (code - run.first) % run.stride = 0) ∧ run.small + (code - run.first) = small := by
  simp [small?]

theorem CaseRun.mem_range' {run : CaseRun} (hrun : run ∈ caseRuns) {code : Nat}
    (hfirst : run.first ≤ code) (hlast : code ≤ run.last)
    (hstride : (code - run.first) % run.stride = 0) :
    code ∈ List.range' run.first ((run.last - run.first) / run.stride + 1) run.stride := by
  have hpos : 0 < run.stride := Nat.le_of_ble_eq_true (List.all_eq_true.1 caseRuns_stride run hrun)
  obtain ⟨k, hk⟩ := Nat.dvd_of_mod_eq_zero hstride
  refine List.mem_range'.2 ⟨k, Nat.lt_succ_of_le ((Nat.le_div_iff_mul_le hpos).2 ?_), by omega⟩
  rw [Nat.mul_comm, ← hk]
  omega

theorem isAlphabetic_of_small? {run : CaseRun} (hrun : run ∈ caseRuns) {c : Char} {code : Nat}
    (h : run.small? c.toNat = some code) :
    isAlphabetic c = true ∧ isAlphabetic (Char.ofNat code) = true := by
  obtain ⟨⟨hfirst, hlast, hstride⟩, rfl⟩ := CaseRun.small?_eq_some.1 h
  constructor
  · have hcapital := List.all_eq_true.1 caseRuns_capital run hrun
    rcases Bool.or_eq_true _ _ ▸ hcapital with hcapital | hcapital
    · exact Ranges.has_of_covers hcapital hfirst hlast
    · have hmem := CaseRun.mem_range' hrun hfirst hlast hstride
      exact Ranges.has_of_covers (List.all_eq_true.1 hcapital _ hmem) (Nat.le_refl _)
        (Nat.le_refl _)
  · exact isAlphabetic_ofNat (List.all_eq_true.1 caseRuns_small run hrun) (by omega) (by omega)

/-- What a character can become in lower case, whatever stands around it. -/
def SmallForm (c : Char) (small : List Char) : Prop :=
  small = lowerChar c ∨ c = 'Σ' ∧ small = ['ς']

/-- **The small form of a letter is a letter**, and what is no letter stays as it is; the dotted
capital I is the exception. -/
theorem SmallForm.sort {c : Char} {small : List Char} (h : SmallForm c small) :
    small = [c] ∨ (isAlphabetic c = true ∧ ∃ d, isAlphabetic d = true ∧ small = [d]) ∨
      (c = 'İ' ∧ small = ['i', '\u0307']) := by
  rcases h with rfl | ⟨rfl, rfl⟩
  · unfold lowerChar
    split
    · exact .inr (.inr ⟨‹_›, rfl⟩)
    split
    · rename_i code hcode
      obtain ⟨run, hrun, hsmall⟩ := List.exists_of_findSome?_eq_some hcode
      obtain ⟨hc, hd⟩ := isAlphabetic_of_small? hrun hsmall
      exact .inr (.inl ⟨hc, _, hd, rfl⟩)
    · exact .inl rfl
  · exact .inr (.inl ⟨by decide +kernel, 'ς', by decide +kernel, rfl⟩)

theorem SmallForm.eq_of_isAlphabetic {c : Char} {small : List Char} (h : SmallForm c small)
    (hc : isAlphabetic c = false) : small = [c] := by
  rcases h.sort with h | ⟨halpha, -⟩ | ⟨rfl, -⟩
  · exact h
  · exact absurd (hc.symm.trans halpha) Bool.false_ne_true
  · exact absurd hc (by decide +kernel)

theorem SmallForm.eq_of_dotted {small : List Char} (h : SmallForm 'İ' small) :
    small = ['i', '\u0307'] := by
  rcases h with rfl | ⟨h, -⟩
  · rfl
  · exact absurd h (by decide)

/-- Besides letters, lower case brings up no new character but the combining dot. -/
theorem SmallForm.mem {c d : Char} {small : List Char} (h : SmallForm c small) (hd : d ∈ small) :
    d = c ∨ isAlphabetic d = true ∨ d = '\u0307' := by
  rcases h.sort with rfl | ⟨-, e, he, rfl⟩ | ⟨-, rfl⟩
  · exact .inl (List.mem_singleton.1 hd)
  · exact .inr (.inl (List.mem_singleton.1 hd ▸ he))
  · rcases List.mem_pair.1 hd with rfl | rfl
    · exact .inr (.inl (by decide +kernel))
    · exact .inr (.inr rfl)

/-! ## Texts and their small forms -/

/-- Texts the second of which the first becomes in lower case, whatever stands around it. -/
inductive Lowers : List Char → List Char → Prop
  | nil : Lowers [] []
  | cons {c : Char} {small text text' : List Char} (hc : SmallForm c small)
      (htext : Lowers text text') : Lowers (c :: text) (small ++ text')

theorem lowers_lowerAfter (before text : List Char) : Lowers text (lowerAfter before text) := by
  induction text generalizing before with
  | nil => exact .nil
  | cons c text ih =>
    refine .cons ?_ (ih _)
    split
    · rename_i hsigma
      subst hsigma
      split
      · exact .inr ⟨rfl, rfl⟩
      · exact .inl (by decide +kernel)
    · exact .inl rfl

namespace Lowers

theorem cons_inv {c : Char} {text zs : List Char} (h : Lowers (c :: text) zs) :
    ∃ small text', SmallForm c small ∧ Lowers text text' ∧ zs = small ++ text' := by
  cases h with
  | cons hc htext => exact ⟨_, _, hc, htext, rfl⟩

theorem append_inv {a b zs : List Char} (h : Lowers (a ++ b) zs) :
    ∃ a' b', Lowers a a' ∧ Lowers b b' ∧ zs = a' ++ b' := by
  induction a generalizing zs with
  | nil => exact ⟨[], zs, .nil, h, rfl⟩
  | cons c a ih =>
    obtain ⟨small, zs, hc, htext, rfl⟩ := h.cons_inv
    obtain ⟨a', b', ha, hb, rfl⟩ := ih htext
    exact ⟨small ++ a', b', .cons hc ha, hb, (List.append_assoc ..).symm⟩

theorem append {a a' b b' : List Char} (ha : Lowers a a') (hb : Lowers b b') :
    Lowers (a ++ b) (a' ++ b') := by
  induction ha with
  | nil => exact hb
  | cons hc _ ih =>
    rw [List.append_assoc]
    exact .cons hc ih

theorem eq_of_isAlphabetic {text zs : List Char} (h : Lowers text zs)
    (hall : ∀ c ∈ text, isAlphabetic c = false) : zs = text := by
  induction h with
  | nil => rfl
  | cons hc _ ih =>
    obtain ⟨hfirst, hall⟩ := List.forall_mem_cons.1 hall
    rw [hc.eq_of_isAlphabetic hfirst, ih hall]
    rfl

theorem mem {d : Char} {text zs : List Char} (h : Lowers text zs) (hd : d ∈ zs) :
    d ∈ text ∨ isAlphabetic d = true ∨ d = '\u0307' := by
  induction h with
  | nil => exact nomatch hd
  | cons hc _ ih =>
    rcases List.mem_append.1 hd with hd | hd
    · rcases hc.mem hd with rfl | hnew
      · exact .inl List.mem_cons_self
      · exact .inr hnew
    · exact (ih hd).imp_left (List.mem_cons_of_mem _)

/-- A text starts with the character that it started with before, or with a letter for a letter. -/
theorem head {text zs : List Char} (h : Lowers text zs) {d : Char} (hd : d ∈ zs.head?) :
    d ∈ text.head? ∨ ∃ c ∈ text.head?, isAlphabetic c = true ∧ isAlphabetic d = true := by
  cases h with
  | nil => exact nomatch hd
  | cons hc _ =>
    rcases hc.sort with rfl | ⟨hletter, e, he, rfl⟩ | ⟨rfl, rfl⟩
    · exact .inl hd
    · exact .inr ⟨_, rfl, hletter, Option.mem_some_iff.1 hd ▸ he⟩
    · exact .inr ⟨_, rfl, by decide +kernel, Option.mem_some_iff.1 hd ▸ by decide +kernel⟩

theorem head_forall {text zs : List Char} (h : Lowers text zs) {P : Char → Prop}
    (htext : ∀ c ∈ text.head?, P c)
    (hletter : ∀ {c d}, P c → isAlphabetic c = true → isAlphabetic d = true → P d) :
    ∀ d ∈ zs.head?, P d := by
  intro d hd
  rcases h.head hd with hd | ⟨c, hc, hcalpha, hdalpha⟩
  · exact htext d hd
  · exact hletter (htext c hc) hcalpha hdalpha

theorem count_newline {text zs : List Char} (h : Lowers text zs) :
    zs.count '\n' = text.count '\n' := by
  have letter {c : Char} (hc : isAlphabetic c = true) : [c].count '\n' = 0 := by
    refine List.count_eq_zero.2 fun hmem => ?_
    rw [← List.mem_singleton.1 hmem] at hc
    exact absurd hc (by decide +kernel)
  induction h with
  | nil => rfl
  | @cons c small text zs hc _ ih =>
    have hsmall : small.count '\n' = [c].count '\n' := by
      rcases hc.sort with rfl | ⟨hletter, d, hd, rfl⟩ | ⟨rfl, rfl⟩
      · rfl
      · rw [letter hletter, letter hd]
      · decide
    rw [List.count_append, hsmall, ih, ← List.count_append]
    rfl

end Lowers

/-! ## Words -/

theorem isWordStart_of_isAlphabetic {c : Char} (h : isAlphabetic c = true) :
    isWordStart c = true := by
  unfold isWordStart
  rw [h]
  rfl

theorem isWordChar_of_isAlphabetic {c : Char} (h : isAlphabetic c = true) :
    isWordChar c = true := by
  unfold isWordChar
  rw [h]
  rfl

theorem isAlphabetic_of_isWordStart {c : Char} (h : isWordStart c = false) :
    isAlphabetic c = false := by
  unfold isWordStart at h
  exact (Bool.or_eq_false_iff.1 h).1

theorem isAlphabetic_of_isNumberChar {c : Char} (h : isNumberChar c = true) :
    isAlphabetic c = false := by
  rcases Bool.or_eq_true_iff.1 h with hdigit | hpoint
  · exact isAlphabetic_of_isWordStart (isWordStart_of_isDigit hdigit)
  · rw [beq_iff_eq.1 hpoint]
    decide +kernel

namespace Lowers

theorem word {c : Char} {cs zs : List Char} (h : Lowers (c :: cs) zs)
    (hc : isWordStart c = true) (hcs : ∀ d ∈ cs, isWordChar d = true) (hdot : 'İ' ∉ c :: cs) :
    ∃ d ds, zs = d :: ds ∧ isWordStart d = true ∧ ∀ d ∈ ds, isWordChar d = true := by
  have rest {text zs : List Char} (h : Lowers text zs) (hall : ∀ d ∈ text, isWordChar d = true)
      (hdot : 'İ' ∉ text) : ∀ d ∈ zs, isWordChar d = true := by
    induction h with
    | nil => exact fun d hd => nomatch hd
    | cons hc _ ih =>
      obtain ⟨hfirst, hall⟩ := List.forall_mem_cons.1 hall
      refine List.forall_mem_append.2 ⟨?_, ih hall (List.not_mem_of_not_mem_cons hdot)⟩
      rcases hc.sort with rfl | ⟨-, d, hd, rfl⟩ | ⟨rfl, -⟩
      · exact List.forall_mem_singleton.2 hfirst
      · exact List.forall_mem_singleton.2 (isWordChar_of_isAlphabetic hd)
      · exact absurd rfl (List.ne_of_not_mem_cons hdot)
  obtain ⟨small, zs, hsmall, htext, rfl⟩ := h.cons_inv
  have hzs := rest htext hcs (List.not_mem_of_not_mem_cons hdot)
  rcases hsmall.sort with rfl | ⟨-, d, hd, rfl⟩ | ⟨rfl, -⟩
  · exact ⟨c, zs, rfl, hc, hzs⟩
  · exact ⟨d, zs, rfl, isWordStart_of_isAlphabetic hd, hzs⟩
  · exact absurd rfl (List.ne_of_not_mem_cons hdot)

end Lowers

end Text

open Text

namespace Piece

/-! ## Pieces and their small forms -/

/-- A piece and its small form: of the same sort, and the same piece where there are no letters. -/
inductive Folded : Piece → Piece → Prop
  | same {p : Piece} (h : Lowers p.text p.text) : Folded p p
  | comment {body body' : List Char} (h : Lowers body body') :
      Folded (.comment body) (.comment body')
  | string {body body' : List Char} (h : Lowers body body') : Folded (.string body) (.string body')
  | openString {body body' : List Char} (h : Lowers body body') :
      Folded (.openString body) (.openString body')
  | word {text text' : List Char} (h : Lowers text text') : Folded (.word text) (.word text')

def isDotted : Piece → Bool
  | word text => text.contains 'İ'
  | _ => false

theorem Valid.exists_folded {p : Piece} (hp : p.Valid) {zs : List Char} (h : Lowers p.text zs) :
    ∃ q, p.Folded q ∧ q.text = zs := by
  have fixed (hall : ∀ c ∈ p.text, isAlphabetic c = false) : ∃ q, p.Folded q ∧ q.text = zs :=
    have hzs := h.eq_of_isAlphabetic hall
    ⟨p, .same (hzs ▸ h), hzs.symm⟩
  have opening {quote : List Char} (hquote : quote.all (!isAlphabetic ·) = true) {zs : List Char}
      (h : Lowers quote zs) : zs = quote := h.eq_of_isAlphabetic (by simpa using hquote)
  cases p with
  | blank c =>
    exact fixed (List.forall_mem_singleton.2
      (isAlphabetic_of_isWordStart (isWordStart_of_isBlank hp)))
  | number text =>
    obtain ⟨c, cs, rfl, hc, hcs⟩ := hp
    refine fixed (List.forall_mem_cons.2 ⟨?_, fun d hd => isAlphabetic_of_isNumberChar (hcs d hd)⟩)
    exact isAlphabetic_of_isWordStart (isWordStart_of_isDigit hc)
  | mark m =>
    obtain ⟨-, -, -, -, hword⟩ := m.char_spec
    exact fixed (List.forall_mem_singleton.2 (isAlphabetic_of_isWordStart hword))
  | stray c =>
    obtain ⟨-, -, -, hword, -⟩ := hp
    exact fixed (List.forall_mem_singleton.2 (isAlphabetic_of_isWordStart hword))
  | comment body =>
    obtain ⟨slashes, body', hslashes, hbody, rfl⟩ := Lowers.append_inv (a := ['/', '/']) h
    obtain rfl := opening (by decide +kernel) hslashes
    exact ⟨.comment body', .comment hbody, rfl⟩
  | openString body =>
    obtain ⟨quote, body', hquote, hbody, rfl⟩ := Lowers.append_inv (a := ['"']) h
    obtain rfl := opening (by decide +kernel) hquote
    exact ⟨.openString body', .openString hbody, rfl⟩
  | string body =>
    obtain ⟨quote, zs, hquote, htail, rfl⟩ := Lowers.append_inv (a := ['"']) h
    obtain ⟨body', close, hbody, hclose, rfl⟩ := htail.append_inv
    obtain rfl := opening (by decide +kernel) hquote
    obtain rfl := opening (by decide +kernel) hclose
    exact ⟨.string body', .string hbody, rfl⟩
  | word text => exact ⟨.word zs, .word h, rfl⟩

theorem Folded.valid {p q : Piece} (h : p.Folded q) (hp : p.Valid) (hdot : p.isDotted = false) :
    q.Valid := by
  have new {d : Char} (hd : isAlphabetic d = false) (hdot : d ≠ '\u0307')
      {body body' : List Char} (h : Lowers body body') (hbody : d ∉ body) : d ∉ body' := by
    intro hmem
    rcases h.mem hmem with hmem | halpha | hd
    · exact hbody hmem
    · exact absurd (hd.symm.trans halpha) Bool.false_ne_true
    · exact hdot hd
  cases h with
  | same => exact hp
  | comment h => exact new (by decide +kernel) (by decide) h hp
  | string h => exact new (by decide +kernel) (by decide) h hp
  | openString h => exact new (by decide +kernel) (by decide) h hp
  | word h =>
    obtain ⟨c, cs, rfl, hc, hcs⟩ := hp
    exact h.word hc hcs (by simpa [isDotted] using hdot)

/-- A piece ends where it ended, in front of the small form of what came after it. -/
theorem Ends.lowers {p : Piece} {rest rest' : List Char} (h : p.Ends rest)
    (hrest : Lowers rest rest') : p.Ends rest' := by
  cases p with
  | comment =>
    refine hrest.head_forall h ?_
    rintro c d rfl hc -
    exact absurd hc (by decide +kernel)
  | number =>
    refine hrest.head_forall (P := (isNumberChar · = false)) h fun {c d} _ _ hd => ?_
    rw [← Bool.not_eq_true]
    exact fun hnumber => absurd (isAlphabetic_of_isNumberChar hnumber ▸ hd) Bool.false_ne_true
  | openString =>
    obtain rfl : rest = [] := h
    cases hrest
    rfl
  | word =>
    refine hrest.head_forall (P := (isWordChar · = false)) h fun {c d} hc halpha _ => ?_
    exact absurd (hc.symm.trans (isWordChar_of_isAlphabetic halpha)) Bool.false_ne_true
  | mark m =>
    intro hslash hhead
    have hne : ∀ c ∈ rest.head?, c ≠ '/' := fun c hc e => h hslash (e ▸ hc)
    refine hrest.head_forall hne ?_ '/' hhead rfl
    rintro c d - - hd rfl
    exact absurd hd (by decide +kernel)
  | blank | string | stray => trivial

theorem Folded.ends {p q : Piece} (h : p.Folded q) {rest : List Char} (hp : p.Ends rest) :
    q.Ends rest := by
  cases h with
  | same | comment | openString | word => exact hp
  | string => trivial

theorem cut_lowers {p : Piece} (hp : p.Valid) (hdot : p.isDotted = false) {rest zs : List Char}
    (hends : p.Ends rest) (h : Lowers (p.text ++ rest) zs) :
    ∃ q rest', p.Folded q ∧ Lowers rest rest' ∧ cut zs = q :: cut rest' := by
  obtain ⟨z, rest', hz, hrest, rfl⟩ := h.append_inv
  obtain ⟨q, hq, rfl⟩ := hp.exists_folded hz
  exact ⟨q, rest', hq, hrest, cut_piece (hq.valid hp hdot) (hq.ends (hends.lowers hrest))⟩

/-- **Lower case keeps the cuts**, where no word has the dotted capital I. -/
theorem WellCut.folded {ps : List Piece} (h : WellCut ps []) (hdot : ∀ p ∈ ps, p.isDotted = false)
    {zs : List Char} (hzs : Lowers (ps.flatMap text) zs) : Forall₂ Folded ps (cut zs) := by
  induction ps generalizing zs with
  | nil =>
    cases hzs
    rw [cut]
    exact .nil
  | cons p ps ih =>
    obtain ⟨hvalid, hends, hps⟩ := h
    obtain ⟨hp, hdot⟩ := List.forall_mem_cons.1 hdot
    rw [List.append_nil] at hends
    obtain ⟨q, tail, hq, htail, hcut⟩ := cut_lowers hvalid hp hends hzs
    rw [hcut]
    exact .cons hq (ih hps hdot htail)

theorem valid_before_dot {before after start : List Char}
    (h : (word (before ++ 'İ' :: after)).Valid) (hdot : 'İ' ∉ before)
    (hstart : Lowers before start) : (word (start ++ ['i'])).Valid := by
  obtain ⟨c, cs, htext, hc, hcs⟩ := h
  cases before with
  | nil =>
    cases hstart
    exact ⟨'i', [], rfl, by decide +kernel, fun d hd => nomatch hd⟩
  | cons b before =>
    obtain ⟨rfl, rfl⟩ := List.cons.inj htext
    have hcs := fun d hd => hcs d (List.mem_append_left _ hd)
    obtain ⟨d, ds, rfl, hd, hds⟩ := hstart.word hc hcs hdot
    refine ⟨d, ds ++ ['i'], rfl, hd, List.forall_mem_append.2 ⟨hds, ?_⟩⟩
    exact List.forall_mem_singleton.2 (by decide +kernel)

/-- The combining dot is a piece of its own, and no word goes on with it. -/
theorem cut_dot (tail : List Char) :
    cut ('\u0307' :: tail) = stray '\u0307' :: cut tail ∧
      ∀ text, (word text).Ends ('\u0307' :: tail) := by
  have hstray : (stray '\u0307').Valid := by
    refine ⟨?_, ?_, ?_, ?_, ?_⟩ <;> decide +kernel
  refine ⟨cut_piece (p := stray '\u0307') hstray trivial, fun text d hd => ?_⟩
  rw [← Option.mem_some_iff.1 hd]
  decide +kernel

/-- The small form of a word with the dotted capital I is not one piece: it breaks before the
combining dot. -/
theorem stray_mem_cut_word {text : List Char} (hvalid : (word text).Valid) (hdot : 'İ' ∈ text)
    {rest zs : List Char} (h : Lowers (text ++ rest) zs) : stray '\u0307' ∈ cut zs := by
  obtain ⟨before, after, rfl, hbefore⟩ := List.eq_append_cons_of_mem hdot
  rw [List.append_assoc] at h
  obtain ⟨start, zs, hstart, hzs, rfl⟩ := h.append_inv
  obtain ⟨small, tail, hsmall, -, rfl⟩ := hzs.cons_inv
  obtain rfl := hsmall.eq_of_dotted
  obtain ⟨hcut, hends⟩ := cut_dot tail
  have htext : start ++ (['i', '\u0307'] ++ tail) =
      (word (start ++ ['i'])).text ++ '\u0307' :: tail := by
    simp [Piece.text]
  rw [htext, cut_piece (valid_before_dot hvalid hbefore hstart) (hends _), hcut]
  exact List.mem_cons_of_mem _ List.mem_cons_self

/-- Where a word has the dotted capital I, a combining dot is left over. -/
theorem WellCut.stray_mem_cut {ps : List Piece} (h : WellCut ps [])
    (hdot : ∃ p ∈ ps, p.isDotted = true) {zs : List Char} (hzs : Lowers (ps.flatMap text) zs) :
    stray '\u0307' ∈ cut zs := by
  induction ps generalizing zs with
  | nil =>
    obtain ⟨p, hp, -⟩ := hdot
    exact nomatch hp
  | cons p ps ih =>
    obtain ⟨hvalid, hends, hps⟩ := h
    rw [List.append_nil] at hends
    cases hp : p.isDotted with
    | true =>
      cases p with
      | word text => exact stray_mem_cut_word hvalid (by simpa [isDotted] using hp) hzs
      | blank | comment | number | string | openString | mark | stray => exact nomatch hp
    | false =>
      obtain ⟨q, tail, hq, htail, hcut⟩ := cut_lowers hvalid hp hends hzs
      have hdot : ∃ p ∈ ps, p.isDotted = true := by
        obtain ⟨r, hr, hrdot⟩ := hdot
        rcases List.mem_cons.1 hr with rfl | hr
        · exact absurd (hp.symm.trans hrdot) Bool.false_ne_true
        · exact ⟨r, hr, hrdot⟩
      rw [hcut]
      exact List.mem_cons_of_mem _ (ih hps hdot htail)

end Piece

/-! ## Tokens -/

def Kind.isWord : Kind → Bool
  | symbol => true
  | keyword _ => true
  | _ => false

theorem Kind.isWord_ofWord (text : String) : (ofWord text).isWord = true := by
  unfold ofWord
  split <;> rfl

/-- A token and its small form: on the same line, a word for a word, a string for a string, and else
the same token. -/
structure Token.Folded (t u : Token) : Prop where
  line : u.line = t.line
  lexeme : Lowers t.lexeme.toList u.lexeme.toList
  isWord : u.kind.isWord = t.kind.isWord
  kind : t.kind.isWord = false → u.kind = t.kind
  same : t.kind.isWord = false → t.kind ≠ .string → u = t

/-- A result and its small form: a token and its small form, or the same error. -/
inductive Token.ResultFolded : Except SyntaxError Token → Except SyntaxError Token → Prop
  | token {t u : Token} (h : t.Folded u) : ResultFolded (.ok t) (.ok u)
  | error (e : SyntaxError) : ResultFolded (.error e) (.error e)

theorem Token.Folded.refl {t : Token} (h : Lowers t.lexeme.toList t.lexeme.toList) : t.Folded t :=
  ⟨rfl, h, rfl, fun _ => rfl, fun _ _ => rfl⟩

namespace Piece

theorem Folded.lowers {p q : Piece} (h : p.Folded q) : Lowers p.text q.text := by
  have mark {c : Char} (hc : isAlphabetic c = false) : SmallForm c [c] :=
    .inl ((SmallForm.eq_of_isAlphabetic (.inl rfl) hc).symm)
  cases h with
  | same h => exact h
  | word h => exact h
  | comment h =>
    exact .cons (mark (c := '/') (by decide +kernel))
      (.cons (mark (c := '/') (by decide +kernel)) h)
  | openString h => exact .cons (mark (c := '"') (by decide +kernel)) h
  | string h =>
    exact .cons (mark (c := '"') (by decide +kernel))
      (h.append (.cons (mark (c := '"') (by decide +kernel)) .nil))

theorem Folded.newlines {p q : Piece} (h : p.Folded q) : q.newlines = p.newlines :=
  h.lowers.count_newline

theorem Folded.result {p q : Piece} (h : p.Folded q) (line : Nat) :
    Forall₂ Token.ResultFolded (p.result? line).toList (q.result? line).toList := by
  have hlowers := h.lowers
  cases h with
  | same =>
    cases hresult : p.result? line with
    | none => exact .nil
    | some r =>
      cases r with
      | error e => exact .cons (.error e) .nil
      | ok t =>
        refine .cons (.token (.refl ?_)) .nil
        have hgives := result?_eq_ok_iff.1 hresult
        cases hgives <;> simpa [Piece.text] using hlowers
  | comment => exact .nil
  | openString => exact .cons (.error _) .nil
  | string =>
    refine .cons (.token ⟨rfl, ?_, rfl, fun _ => rfl, fun _ h => absurd rfl h⟩) .nil
    simpa using hlowers
  | @word text text' =>
    have hword : ∀ {P : Prop}, (Kind.ofWord (String.ofList text)).isWord = false → P :=
      fun h => absurd (h.symm.trans (Kind.isWord_ofWord _)) Bool.false_ne_true
    refine .cons (.token ⟨rfl, ?_, ?_, hword, hword⟩) .nil
    · simpa using hlowers
    · exact (Kind.isWord_ofWord _).trans (Kind.isWord_ofWord _).symm

theorem results_folded {ps qs : List Piece} (h : Forall₂ Folded ps qs) (line : Nat) :
    Forall₂ Token.ResultFolded (results line ps) (results line qs) := by
  induction h generalizing line with
  | nil => exact .nil
  | cons hpq _ ih =>
    rw [results, results, hpq.newlines]
    exact rel_append (hpq.result line) (ih _)

theorem tokens_folded {ps qs : List Piece} (h : Forall₂ Folded ps qs) (line : Nat) :
    Forall₂ Token.Folded (tokens line ps) (tokens line qs) := by
  refine rel_filterMap ?_ (results_folded h line)
  intro r r' hr
  cases hr with
  | token ht => exact .some ht
  | error => exact .none

theorem errors_folded {ps qs : List Piece} (h : Forall₂ Folded ps qs) (line : Nat) :
    errors line qs = errors line ps := by
  have herrors : Forall₂ (· = ·) (errors line ps) (errors line qs) := by
    refine rel_filterMap ?_ (results_folded h line)
    intro r r' hr
    cases hr with
    | token => exact .none
    | error => exact .some rfl
  rw [forall₂_eq_eq_eq] at herrors
  exact herrors.symm

theorem word_mem_tokens (line : Nat) {ps : List Piece} {text : List Char} (h : word text ∈ ps) :
    ∃ t ∈ tokens line ps, t.kind.isWord = true ∧ t.lexeme.toList = text := by
  obtain ⟨l, hl⟩ := results_of_mem line h
  have hmem := hl _ (result?_eq_ok_iff.2 (.word text))
  exact ⟨_, List.mem_filterMap.2 ⟨_, hmem, rfl⟩, Kind.isWord_ofWord _, String.toList_ofList⟩

end Piece

/-! ## Texts -/

theorem lowers_normalize (source : String) :
    Lowers source.toList (Options.normalize false source).toList := by
  have htext : (Options.normalize false source).toList = lowerAfter [] source.toList :=
    String.toList_ofList
  rw [htext]
  exact lowers_lowerAfter [] source.toList

theorem newlines_normalize (source : String) :
    newlines (Options.normalize false source) = newlines source :=
  (lowers_normalize source).count_newline

def Scan.Dotless (s : Scan) : Prop :=
  ∀ t ∈ s.tokens, t.kind.isWord = true → 'İ' ∉ t.lexeme.toList

instance (s : Scan) : Decidable s.Dotless :=
  inferInstanceAs (Decidable (∀ t ∈ s.tokens, t.kind.isWord = true → 'İ' ∉ t.lexeme.toList))

theorem dotless_iff (source : String) :
    (scan source).Dotless ↔ ∀ p ∈ Piece.cut source.toList, p.isDotted = false := by
  rw [Scan.Dotless, scan_eq_scanFrom, scanFrom_eq]
  constructor
  · intro h p hp
    cases p with
    | word text =>
      obtain ⟨t, ht, hword, rfl⟩ := Piece.word_mem_tokens 1 hp
      simpa [Piece.isDotted] using h t (List.mem_append_left _ ht) hword
    | blank | comment | number | string | openString | mark | stray => rfl
  · intro h t ht hword
    rcases List.mem_append.1 ht with ht | ht
    · obtain ⟨p, hp, l, hgives⟩ := Piece.mem_tokens ht
      cases hgives with
      | word text => simpa [Piece.isDotted] using h _ hp
      | number | string | mark => exact nomatch hword
    · obtain rfl := List.mem_singleton.1 ht
      exact nomatch hword

/-- Without dotted capitals in words, lower case keeps the tokens, their lines and the errors. -/
theorem scan_normalize_of_dotless {source : String} (h : (scan source).Dotless) :
    (scan (Options.normalize false source)).errors = (scan source).errors ∧
      Forall₂ Token.Folded (scan source).tokens (scan (Options.normalize false source)).tokens := by
  have hlowers := lowers_normalize source
  rw [← Piece.cut_text source.toList] at hlowers
  have hpieces := (Piece.wellCut_cut source.toList).folded ((dotless_iff source).1 h) hlowers
  rw [scan_eq_scanFrom, scan_eq_scanFrom, scanFrom_eq, scanFrom_eq, newlines_normalize]
  refine ⟨Piece.errors_folded hpieces 1, rel_append (Piece.tokens_folded hpieces 1) ?_⟩
  exact .cons (.refl .nil) .nil

/-- A word with the dotted capital I breaks in two, and the combining dot is an error. -/
theorem scan_normalize_of_not_dotless {source : String} (h : ¬(scan source).Dotless) :
    ∃ e ∈ (scan (Options.normalize false source)).errors,
      e.cause = .unexpectedCharacter '\u0307' := by
  have hlowers := lowers_normalize source
  rw [← Piece.cut_text source.toList] at hlowers
  have hdot : ∃ p ∈ Piece.cut source.toList, p.isDotted = true := by
    rw [dotless_iff] at h
    simpa using h
  have hstray := (Piece.wellCut_cut source.toList).stray_mem_cut hdot hlowers
  obtain ⟨l, hl⟩ := Piece.results_of_mem 1 hstray
  rw [scan_eq_scanFrom, scanFrom_eq]
  exact ⟨_, List.mem_filterMap.2 ⟨_, hl _ rfl, rfl⟩, rfl⟩

/-- **Lower case keeps the tokens of a text if and only if no word of it has the dotted capital.**
Then the small text is scanned without errors as well, and token by token it has the same lines, a
word for a word and the same kind for everything else. -/
theorem scan_normalize {source : String} (h : (scan source).errors = []) :
    ((scan (Options.normalize false source)).errors = [] ↔ (scan source).Dotless) ∧
      ((scan source).Dotless → Forall₂ Token.Folded (scan source).tokens
        (scan (Options.normalize false source)).tokens) := by
  refine ⟨⟨fun hsmall => ?_, fun hdot => ?_⟩, fun hdot => (scan_normalize_of_dotless hdot).2⟩
  · by_contra hdot
    obtain ⟨e, he, -⟩ := scan_normalize_of_not_dotless hdot
    rw [hsmall] at he
    exact nomatch he
  · rw [(scan_normalize_of_dotless hdot).1, h]

/-- A final sigma is a letter like any other, and a dotted capital I may stand in a string. -/
theorem scan_normalize_sigma :
    let source := "(SET ΟΔΟΣ \"İ\") // İ"
    (scan source).errors = [] ∧ (scan (Options.normalize false source)).errors = [] ∧
      (scan (Options.normalize false source)).tokens.length = (scan source).tokens.length := by
  intro source
  have herrors : (scan source).errors = [] := by decide +kernel
  have hdot : (scan source).Dotless := by decide +kernel
  obtain ⟨hiff, htokens⟩ := scan_normalize herrors
  exact ⟨herrors, hiff.2 hdot, (htokens hdot).length_eq.symm⟩

/-- The dotted capital I is a word, and its small form is none. -/
theorem scan_normalize_dotted :
    (scan "İ").errors = [] ∧
      (scan (Options.normalize false "İ")).errors =
        [⟨1, .unknown, .unexpectedCharacter '\u0307'⟩] := by
  decide +kernel

end MiniLisp
