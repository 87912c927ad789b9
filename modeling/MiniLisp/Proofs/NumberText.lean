import MiniLisp.Proofs.Numeral
import MiniLisp.Proofs.Rescanning
import MiniLisp.Proofs.ShortestDecimal

/-!
# Printed numbers

A finite number is printed as a numeral, after a minus sign if its sign bit is set. The numeral is
scanned as one token, whose value is the magnitude of the number, and no numeral with fewer
significant digits is read as this magnitude.

* `Positional` : the form of printed numerals, `Positional.scan_eq` : how they are scanned;
* `Decimal.value_chars`, `Decimal.positional_chars` : the characters of a decimal;
* `magnitudeChars_spec` : those of a magnitude;
* `signBit`, `exponentField`, `fractionField` : bit patterns, `magnitude_clearSign` : their
  magnitudes;
* `scan_text_ofBits` : all of the above.
-/

namespace MiniLisp

/-! ## The form of a printed numeral -/

/-- Digits, and after a point, if there is one, more digits, the last of which is not zero. -/
inductive Positional : List Char → Prop
  | whole {ds : List Char} (hne : ds ≠ []) (hds : ∀ c ∈ ds, c.isDigit = true) : Positional ds
  | point {ds fs : List Char} (hne : ds ≠ []) (hds : ∀ c ∈ ds, c.isDigit = true) (hfne : fs ≠ [])
      (hfs : ∀ c ∈ fs, c.isDigit = true) (hlast : fs.getLast hfne ≠ '0') :
      Positional (ds ++ '.' :: fs)

namespace Positional

theorem count_point_of_digits {ds : List Char} (hds : ∀ c ∈ ds, c.isDigit = true) :
    ds.count '.' = 0 := List.count_eq_zero.2 fun hmem => absurd (hds '.' hmem) (by decide)

variable {text : List Char} (h : Positional text)
include h

theorem count_point : text.count '.' ≤ 1 := by
  cases h with
  | whole hne hds => rw [count_point_of_digits hds]; exact Nat.zero_le 1
  | point hne hds hfne hfs hlast =>
    rw [List.count_append, List.count_cons_self, count_point_of_digits hds,
      count_point_of_digits hfs]

theorem numberChars : ∀ c ∈ text, isNumberChar c = true := by
  have hdigits {ds : List Char} (hds : ∀ c ∈ ds, c.isDigit = true) :
      ∀ c ∈ ds, isNumberChar c = true := by
    intro c hc
    rw [isNumberChar, hds c hc, Bool.true_or]
  cases h with
  | whole hne hds => exact hdigits hds
  | point hne hds hfne hfs hlast =>
    exact List.forall_mem_append.2 ⟨hdigits hds, List.forall_mem_cons.2 ⟨rfl, hdigits hfs⟩⟩

theorem valid : (Piece.number text).Valid := by
  obtain ⟨c, cs, htext, hc⟩ : ∃ c cs, text = c :: cs ∧ c.isDigit = true := by
    cases h with
    | whole hne hds =>
      obtain ⟨c, cs, rfl⟩ := List.exists_cons_of_ne_nil hne
      exact ⟨c, cs, rfl, hds c List.mem_cons_self⟩
    | point hne hds hfne hfs hlast =>
      obtain ⟨c, cs, rfl⟩ := List.exists_cons_of_ne_nil hne
      exact ⟨c, _, List.cons_append, hds c List.mem_cons_self⟩
  have hchars := h.numberChars
  rw [htext] at hchars
  exact ⟨c, cs, htext, hc, (List.forall_mem_cons.1 hchars).2⟩

/-- **A numeral is scanned as one token**, and a minus sign before it as another one. -/
theorem scan_eq {n : Binary64} (hvalue : Piece.numberValue? text = some n) (negative : Bool) :
    scan (String.ofList ((if negative then ['-'] else []) ++ text)) =
      ⟨(if negative then [⟨.mark (.operator .minus), "-", none, 1⟩] else []) ++
        [⟨.number, String.ofList text, some (.number n), 1⟩, .endOfText 1], []⟩ := by
  have hends : (Piece.number text).Ends [] := fun c hc => nomatch hc
  have hlines : text.count '\n' = 0 :=
    List.count_eq_zero.2 fun hmem => absurd (h.numberChars '\n' hmem) (by decide)
  have hresults (line : Nat) : Piece.results line [.number text] =
      [.ok ⟨.number, String.ofList text, some (.number n), line⟩] := by
    rw [Piece.results, Piece.result?_eq_ok_iff.2 (.number hvalue)]
    rfl
  cases negative with
  | false =>
    have hcut : Piece.WellCut [.number text] [] := ⟨h.valid, hends, trivial⟩
    have htext : [Piece.number text].flatMap Piece.text = (String.ofList text).toList := by
      rw [List.flatMap_singleton, String.toList_ofList]
      rfl
    show scan (String.ofList text) = _
    rw [scan_of_cut htext hcut, Piece.tokens, Piece.errors, hresults, newlines,
      String.toList_ofList, hlines]
    rfl
  | true =>
    have hcut : Piece.WellCut [.mark (.operator .minus), .number text] [] :=
      ⟨trivial, fun hslash => absurd hslash (by decide), h.valid, hends, trivial⟩
    have htext : [Piece.mark (.operator .minus), .number text].flatMap Piece.text =
        (String.ofList ('-' :: text)).toList := by
      rw [String.toList_ofList, List.flatMap_cons, List.flatMap_singleton]
      rfl
    have hminus : Piece.results 1 [.mark (.operator .minus), .number text] =
        .ok ⟨.mark (.operator .minus), "-", none, 1⟩ :: Piece.results 1 [.number text] := rfl
    show scan (String.ofList ('-' :: text)) = _
    rw [scan_of_cut htext hcut, Piece.tokens, Piece.errors, hminus, hresults, newlines,
      String.toList_ofList, List.count_cons_of_ne (by decide), hlines]
    rfl

end Positional

/-! ## The characters of a decimal -/

namespace Binary64

open Numeral

namespace Decimal

theorem isDigit_toDigits (n : Nat) : ∀ c ∈ Nat.toDigits 10 n, c.isDigit = true := fun _ hc =>
  Nat.isDigit_of_mem_toDigits (by decide) (by decide) hc

theorem isDigit_padded (width n : Nat) : ∀ c ∈ padded width n, c.isDigit = true := by
  refine List.forall_mem_append.2 ⟨fun c hc => ?_, isDigit_toDigits n⟩
  rw [List.eq_of_mem_replicate hc]
  rfl

theorem length_padded {width n : Nat} (hwidth : 0 < width) (hn : n < 10 ^ width) :
    (padded width n).length = width := by
  have hle : (Nat.toDigits 10 n).length ≤ width :=
    (Nat.length_toDigits_le_iff (by decide) hwidth).2 hn
  rw [padded, List.length_append, List.length_replicate, Nat.sub_add_cancel hle]

theorem ofDigits_padded (width n : Nat) : ofDigits (padded width n) = n := by
  rw [padded, ofDigits_append, ofDigits, Nat.ofDigitChars_replicate_zero, ofDigits,
    Nat.ofDigitChars_ten_toDigits, Nat.mul_zero, Nat.mul_zero, Nat.zero_add]

theorem ofDigits_chars (d : Decimal) :
    ofDigits (digits d.chars) = d.coeff * 10 ^ (d.step - 1074) := by
  unfold chars
  split
  · rw [digits_whole (isDigit_toDigits _)]
    exact Nat.ofDigitChars_ten_toDigits
  · rename_i hstep
    have hpos : 0 < 10 ^ (1074 - d.step) := by positivity
    have hlength := length_padded (by omega) (Nat.mod_lt d.coeff hpos)
    dsimp only
    rw [Nat.pow_eq, digits_point (isDigit_toDigits _) (isDigit_padded _ _), ofDigits_append,
      ofDigits_padded, hlength, ofDigits, Nat.ofDigitChars_ten_toDigits, Nat.div_add_mod,
      Nat.sub_eq_zero_of_le (Nat.le_of_not_le hstep), Nat.pow_zero, Nat.mul_one]

theorem places_chars (d : Decimal) : places d.chars = 1074 - d.step := by
  unfold chars
  split
  · rename_i hstep
    rw [places_whole (isDigit_toDigits _), Nat.sub_eq_zero_of_le hstep]
  · have hpos : 0 < 10 ^ (1074 - d.step) := by positivity
    dsimp only
    rw [Nat.pow_eq, places_point (isDigit_toDigits _),
      length_padded (by omega) (Nat.mod_lt d.coeff hpos)]

theorem value_chars (d : Decimal) : Numeral.value d.chars = d.value := by
  rw [Numeral.value, ofDigits_chars, places_chars, Decimal.value, steps,
    div_eq_div_iff (by positivity) (by positivity)]
  have hexponents : d.step - 1074 + 1074 = d.step + (1074 - d.step) := by omega
  push_cast
  rw [mul_assoc, mul_assoc, ← pow_add, ← pow_add, hexponents]

theorem positional_chars {d : Decimal} (hd : d.coeff % 10 ≠ 0) : Positional d.chars := by
  unfold chars
  split
  · exact .whole Nat.toDigits_ne_nil (isDigit_toDigits _)
  · rename_i hstep
    have hplaces : 0 < 1074 - d.step := by omega
    dsimp only
    rw [Nat.pow_eq]
    generalize 1074 - d.step = places at hplaces
    have hpos : 0 < 10 ^ places := by positivity
    have hlength := length_padded hplaces (Nat.mod_lt d.coeff hpos)
    have hne : padded places (d.coeff % 10 ^ places) ≠ [] := by
      refine List.ne_nil_of_length_pos ?_
      rwa [hlength]
    refine .point Nat.toDigits_ne_nil (isDigit_toDigits _) hne (isDigit_padded _ _) ?_
    intro hlast
    apply hd
    have hmod : d.coeff % 10 ^ places % 10 = 0 := by
      rw [← ofDigits_padded places (d.coeff % 10 ^ places), ← List.dropLast_append_getLast hne,
        hlast, ofDigits_concat]
      exact Nat.mul_mod_right 10 _
    rwa [Nat.mod_mod_of_dvd _ (dvd_pow_self 10 hplaces.ne')] at hmod

end Decimal

/-! ## The characters of a magnitude -/

theorem ofRank_of_le {negative : Bool} {rank : Nat} (h : rank ≤ top) :
    ofRank negative rank = .signed negative rank h := by
  unfold ofRank
  congr 1
  exact Nat.min_eq_left h

/-- A numeral that denotes a number nearest to a magnitude is read as this magnitude. -/
theorem read_of_closest {text : List Char} (hpoints : text.count '.' ≤ 1) {rank : Nat}
    (h : Closest Set.univ (Numeral.value text) rank) (hle : rank ≤ top) :
    Piece.numberValue? text = some (.signed false rank hle) := by
  obtain ⟨r, hr, hvalue⟩ := read_eq hpoints
  rw [hvalue, hr.unique h, ofRank_of_le hle]

/-- **A finite magnitude is printed as a numeral, and read back from it.** -/
theorem magnitudeChars_spec {rank : Nat} (h : rank < top) :
    Positional (magnitudeChars rank) ∧
      Piece.numberValue? (magnitudeChars rank) = some (.signed false rank h.le) := by
  unfold magnitudeChars
  by_cases hzero : rank = 0
  · subst hzero
    rw [if_pos rfl]
    have hpositional : Positional ['0'] :=
      .whole (List.cons_ne_nil _ _) (List.forall_mem_singleton.2 rfl)
    refine ⟨hpositional, read_of_closest hpositional.count_point ?_ h.le⟩
    have hvalue : Numeral.value ['0'] = magnitude 0 := by
      rw [magnitude_zero]
      exact zero_div _
    rw [hvalue]
    exact Closest.self 0
  · rw [if_neg hzero, if_neg h.ne]
    have hcoarsest := Decimal.coarsest_shortest (Nat.pos_of_ne_zero hzero)
    have hpositional := Decimal.positional_chars hcoarsest.coeff_mod
    refine ⟨hpositional, read_of_closest hpositional.count_point ?_ h.le⟩
    rw [Decimal.value_chars]
    exact Decimal.rank_eq_iff.1 hcoarsest.rank_eq

/-- **No decimal with fewer significant digits rounds to the magnitude.** -/
theorem length_significant_magnitudeChars_le {rank : Nat} (h : rank < top) (hzero : rank ≠ 0)
    {k n : Nat} {e : Int} (hround : Rounds (k * 10 ^ e) rank) (hk : k < 10 ^ n) :
    (significant (magnitudeChars rank)).length ≤ n := by
  have hcoarsest := Decimal.coarsest_shortest (Nat.pos_of_ne_zero hzero)
  have hchars : magnitudeChars rank = (Decimal.shortest rank).chars := by
    rw [magnitudeChars, if_neg hzero, if_neg h.ne]
  rw [hchars]
  refine length_significant_le (fun c hc => ?_) (Decimal.ofDigits_chars _)
    (hcoarsest.coeff_lt (Nat.pos_of_ne_zero hzero) (hround.of_rounds h) hk)
  exact isDigit_of_mem_digits (Decimal.positional_chars hcoarsest.coeff_mod).numberChars hc

/-- No numeral with fewer significant digits is read as the magnitude. -/
theorem length_significant_magnitudeChars_le_of_read {rank : Nat} (h : rank < top)
    (hzero : rank ≠ 0) {text : List Char} (hchars : ∀ c ∈ text, isNumberChar c = true)
    (hread : Piece.numberValue? text = some (.signed false rank h.le)) :
    (significant (magnitudeChars rank)).length ≤ (significant text).length := by
  obtain ⟨r, hle, hvalue, hround⟩ := read_rounds (Piece.points_of_numberValue? hread)
  rw [hread] at hvalue
  obtain rfl : rank = r := by
    injection hvalue with hvalue
    injection hvalue
  obtain ⟨e, he⟩ := value_eq_significant text
  rw [he] at hround
  refine length_significant_magnitudeChars_le h hzero hround (ofDigits_lt fun c hc => ?_)
  exact isDigit_of_mem_digits hchars (significant_subset text hc)

/-! ## Bit patterns -/

def signBit (bits : UInt64) : Bool := bits.toBitVec.msb

def exponentField (bits : UInt64) : UInt64 := (bits >>> 52) &&& 0x7ff

def fractionField (bits : UInt64) : UInt64 := bits &&& 0xfffffffffffff

/-- Is the exponent field not that of infinity and not-a-number? -/
def IsFinite (bits : UInt64) : Prop := exponentField bits ≠ 0x7ff

instance (bits : UInt64) : Decidable (IsFinite bits) := inferInstanceAs (Decidable (_ ≠ _))

/-- The pattern without its sign, which is that of the absolute value. -/
def clearSign (bits : UInt64) : UInt64 := bits &&& 0x7fffffffffffffff

section Fields

variable (bits : UInt64)

theorem signBit_eq : signBit bits = decide (2 ^ 63 ≤ bits.toNat) := BitVec.msb_eq_decide _

theorem toNat_exponentField : (exponentField bits).toNat = bits.toNat / 2 ^ 52 % 2 ^ 11 := by
  have hmask : (0x7ff : UInt64).toNat = 2 ^ 11 - 1 := by decide
  have hshift : (52 : UInt64).toNat % 64 = 52 := by decide
  rw [exponentField, UInt64.toNat_and, UInt64.toNat_shiftRight, hmask, hshift,
    Nat.and_two_pow_sub_one_eq_mod, Nat.shiftRight_eq_div_pow]

theorem toNat_fractionField : (fractionField bits).toNat = bits.toNat % 2 ^ 52 := by
  have hmask : (0xfffffffffffff : UInt64).toNat = 2 ^ 52 - 1 := by decide
  rw [fractionField, UInt64.toNat_and, hmask, Nat.and_two_pow_sub_one_eq_mod]

theorem toNat_clearSign : (clearSign bits).toNat = bits.toNat % 2 ^ 63 := by
  have hmask : (0x7fffffffffffffff : UInt64).toNat = 2 ^ 63 - 1 := by decide
  rw [clearSign, UInt64.toNat_and, hmask, Nat.and_two_pow_sub_one_eq_mod]

theorem isFinite_iff : IsFinite bits ↔ bits.toNat / 2 ^ 52 % 2 ^ 11 ≠ 2 ^ 11 - 1 := by
  have hmax : (0x7ff : UInt64).toNat = 2 ^ 11 - 1 := by decide
  rw [IsFinite, ne_eq, ← UInt64.toNat_inj, toNat_exponentField, hmax]

/-- The rank is the pattern without its sign, and its magnitude is that of the fields. -/
theorem magnitude_clearSign : magnitude (clearSign bits).toNat =
    if (exponentField bits).toNat = 0 then ((fractionField bits).toNat : Rat) / 2 ^ 1074
    else (2 ^ 52 + ((fractionField bits).toNat : Rat)) * 2 ^ (exponentField bits).toNat /
      2 ^ 1075 := by
  have hrank : (clearSign bits).toNat =
      (exponentField bits).toNat * 2 ^ 52 + (fractionField bits).toNat := by
    rw [toNat_clearSign, toNat_exponentField, toNat_fractionField]
    omega
  have hfraction : (fractionField bits).toNat < 2 ^ 52 := by
    rw [toNat_fractionField]
    exact Nat.mod_lt _ (by decide)
  rw [hrank, magnitude_fields hfraction]

end Fields

section Finite

variable {bits : UInt64} (h : IsFinite bits)
include h

theorem clearSign_lt_top : (clearSign bits).toNat < top := by
  have hfield := (isFinite_iff bits).1 h
  have htop : top = 2047 * 2 ^ 52 := rfl
  rw [toNat_clearSign, htop]
  omega

theorem ofBits_eq :
    ofBits bits = .signed (signBit bits) (clearSign bits).toNat (clearSign_lt_top h).le := by
  have hle : bits.toNat % Nat.pow 2 63 ≤ top := by
    rw [Nat.pow_eq, ← toNat_clearSign]
    exact (clearSign_lt_top h).le
  unfold ofBits
  dsimp only
  rw [dif_pos hle]
  congr 1
  · exact (signBit_eq bits).symm
  · exact (toNat_clearSign bits).symm

theorem ofBits_clearSign :
    ofBits (clearSign bits) = .signed false (clearSign bits).toNat (clearSign_lt_top h).le := by
  have hsmall : (clearSign bits).toNat < 2 ^ 63 := by
    rw [toNat_clearSign]
    exact Nat.mod_lt _ (by decide)
  have hfinite : IsFinite (clearSign bits) := by
    have hfield := (isFinite_iff bits).1 h
    rw [isFinite_iff, toNat_clearSign]
    omega
  have hsign : signBit (clearSign bits) = false := by
    rw [signBit_eq]
    exact decide_eq_false (Nat.not_le.2 hsmall)
  have hclear : clearSign (clearSign bits) = clearSign bits := by
    rw [← UInt64.toNat_inj, toNat_clearSign, Nat.mod_eq_of_lt hsmall]
  rw [ofBits_eq hfinite]
  congr 1
  rw [hclear]

end Finite

theorem ofBits_inj {a b : UInt64} (h : ofBits b ≠ nan) (heq : ofBits a = ofBits b) : a = b := by
  have hlt := a.toNat_lt
  have hlt' := b.toNat_lt
  unfold ofBits at heq h
  simp only [Nat.pow_eq] at heq h
  split at h
  · split at heq
    · injection heq with hsign hrank
      rw [decide_eq_decide] at hsign
      rw [← UInt64.toNat_inj]
      omega
    · exact nomatch heq
  · exact absurd rfl h

/-- **Printed numbers are read back exactly.** The printed form of a finite number is a numeral,
with a minus sign before it exactly if the sign bit is set. It is scanned without an error as these
one or two tokens, and the value of the numeral is the absolute value of the number, of which there
is only one pattern. Its fields say how large it is. If it is not zero, then no decimal with fewer
significant digits rounds to it, and no numeral with fewer significant digits is read as it. -/
theorem scan_text_ofBits (bits : UInt64) (hfinite : IsFinite bits) :
    ∃ numeral : List Char, Positional numeral ∧
      (ofBits bits).text = String.ofList ((if signBit bits then ['-'] else []) ++ numeral) ∧
      scan (ofBits bits).text =
        ⟨(if signBit bits then [⟨.mark (.operator .minus), "-", none, 1⟩] else []) ++
          [⟨.number, String.ofList numeral, some (.number (ofBits (clearSign bits))), 1⟩,
            .endOfText 1], []⟩ ∧
      (∀ b, ofBits b = ofBits (clearSign bits) → b = clearSign bits) ∧
      (magnitude (clearSign bits).toNat =
        if (exponentField bits).toNat = 0 then ((fractionField bits).toNat : Rat) / 2 ^ 1074
        else (2 ^ 52 + ((fractionField bits).toNat : Rat)) * 2 ^ (exponentField bits).toNat /
          2 ^ 1075) ∧
      (clearSign bits ≠ 0 →
        (∀ (k n : Nat) (e : Int), k < 10 ^ n → Rounds (k * 10 ^ e) (clearSign bits).toNat →
          (significant numeral).length ≤ n) ∧
        ∀ text, (∀ c ∈ text, isNumberChar c = true) →
          Piece.numberValue? text = some (ofBits (clearSign bits)) →
          (significant numeral).length ≤ (significant text).length) := by
  have hlt := clearSign_lt_top hfinite
  have habs := ofBits_clearSign hfinite
  obtain ⟨hpositional, hvalue⟩ := magnitudeChars_spec hlt
  have htext : (ofBits bits).text = String.ofList
      ((if signBit bits then ['-'] else []) ++ magnitudeChars (clearSign bits).toNat) := by
    rw [ofBits_eq hfinite]
    cases signBit bits <;> rfl
  refine ⟨_, hpositional, htext, ?_, ?_, magnitude_clearSign bits, fun hne => ?_⟩
  · rw [htext, habs]
    exact hpositional.scan_eq hvalue (signBit bits)
  · intro b
    apply ofBits_inj
    rw [habs]
    exact fun hnan => nomatch hnan
  · have hzero : (clearSign bits).toNat ≠ 0 := fun hzero => hne (UInt64.toNat_inj.1 hzero)
    constructor
    · intro k n e hk hround
      exact length_significant_magnitudeChars_le hlt hzero hround hk
    · intro text hchars hread
      rw [habs] at hread
      exact length_significant_magnitudeChars_le_of_read hlt hzero hchars hread

/-- A tenth is not on the grid. The nearest magnitude below zero is printed with one digit, which
the nearest magnitude is read from. -/
theorem scan_text_ofBits_tenth : IsFinite 0xbfb999999999999a ∧
    (ofBits 0xbfb999999999999a).text = "-0.1" ∧
    scan "-0.1" = ⟨[⟨.mark (.operator .minus), "-", none, 1⟩,
      ⟨.number, "0.1", some (.number (ofBits 0x3fb999999999999a)), 1⟩, .endOfText 1], []⟩ := by
  have hfinite : IsFinite 0xbfb999999999999a := by decide
  obtain ⟨numeral, -, htext, hscan, -⟩ := scan_text_ofBits 0xbfb999999999999a hfinite
  have hprinted : (ofBits 0xbfb999999999999a).text = "-0.1" := by decide +kernel
  have hsign : signBit 0xbfb999999999999a = true := by decide
  have hclear : clearSign 0xbfb999999999999a = 0x3fb999999999999a := by decide
  rw [hprinted, hsign] at htext hscan
  rw [hclear] at hscan
  have hchars : ['-', '0', '.', '1'] = '-' :: numeral := String.ofList_inj.1 htext
  obtain rfl := (List.cons.inj hchars).2
  exact ⟨hfinite, hprinted, hscan⟩

end Binary64

end MiniLisp
