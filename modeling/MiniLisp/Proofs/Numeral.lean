import Mathlib.Data.List.DropRight
import MiniLisp.Proofs.Cutting
import MiniLisp.Proofs.Rounding

/-!
# Numerals

A numeral is a text of digits with at most one point among them. Reading it rounds the number that
it denotes. Zeros at its ends count for the place of the point only: the digits between them
determine the number up to a power of ten, and no number that is the same up to a power of ten has
fewer digits.

* `Numeral.ofDigits` : the natural number that digits denote;
* `Numeral.value` : the number that a numeral denotes, `Numeral.read_rounds` : reading rounds it;
* `Numeral.significant` : the digits between the zeros, `Numeral.value_eq_significant` : what they
  determine, `Numeral.length_significant_le` : how many they are.
-/

namespace MiniLisp.Numeral

/-! ## Digits -/

abbrev ofDigits (ds : List Char) : Nat := Nat.ofDigitChars 10 ds 0

def digit (c : Char) : Nat := c.toNat - '0'.toNat

theorem digit_le {c : Char} (h : c.isDigit = true) : digit c ≤ 9 := by
  have hle : c.toNat ≤ '9'.toNat := (Char.isDigit_iff_toNat.1 h).2
  exact Nat.sub_le_sub_right hle '0'.toNat

theorem digit_pos {c : Char} (h : c.isDigit = true) (hne : c ≠ '0') : 0 < digit c := by
  have hle : '0'.toNat ≤ c.toNat := (Char.isDigit_iff_toNat.1 h).1
  have hne : '0'.toNat ≠ c.toNat := fun heq => hne (Char.toNat_inj.1 heq).symm
  exact Nat.sub_pos_of_lt (Nat.lt_of_le_of_ne hle hne)

theorem ofDigits_append (as bs : List Char) :
    ofDigits (as ++ bs) = 10 ^ bs.length * ofDigits as + ofDigits bs := by
  unfold ofDigits
  rw [Nat.ofDigitChars_append, Nat.ofDigitChars_eq_ofDigitChars_zero]

theorem ofDigits_singleton (c : Char) : ofDigits [c] = digit c := by
  unfold ofDigits
  rw [Nat.ofDigitChars_cons, Nat.ofDigitChars_nil, Nat.mul_zero, Nat.zero_add]
  rfl

theorem ofDigits_concat (ds : List Char) (c : Char) :
    ofDigits (ds ++ [c]) = 10 * ofDigits ds + digit c := by
  rw [ofDigits_append, ofDigits_singleton]
  rfl

theorem ofDigits_cons (c : Char) (cs : List Char) :
    ofDigits (c :: cs) = 10 ^ cs.length * digit c + ofDigits cs := by
  rw [← List.singleton_append, ofDigits_append, ofDigits_singleton]

theorem ofDigits_lt {ds : List Char} (hds : ∀ c ∈ ds, c.isDigit = true) :
    ofDigits ds < 10 ^ ds.length := by
  induction ds with
  | nil => exact Nat.one_pos
  | cons c cs ih =>
    obtain ⟨hc, hcs⟩ := List.forall_mem_cons.1 hds
    have hfirst := Nat.mul_le_mul_left (10 ^ cs.length) (digit_le hc)
    have hrest := ih hcs
    rw [ofDigits_cons, List.length_cons, Nat.pow_succ]
    omega

theorem le_ofDigits {c : Char} (hc : c.isDigit = true) (hne : c ≠ '0') (cs : List Char) :
    10 ^ cs.length ≤ ofDigits (c :: cs) := by
  have hfirst := Nat.mul_le_mul_left (10 ^ cs.length) (digit_pos hc hne)
  rw [ofDigits_cons]
  omega

theorem ofDigits_mod {ds : List Char} (hds : ∀ c ∈ ds, c.isDigit = true) (hne : ds ≠ [])
    (hlast : ds.getLast hne ≠ '0') : ofDigits ds % 10 ≠ 0 := by
  have hc := hds _ (List.getLast_mem hne)
  have hpos := digit_pos hc hlast
  have hle := digit_le hc
  rw [← List.dropLast_append_getLast hne, ofDigits_concat]
  omega

theorem ofDigits_dropWhile (ds : List Char) : ofDigits (ds.dropWhile (· == '0')) = ofDigits ds := by
  induction ds with
  | nil => rfl
  | cons c cs ih =>
    by_cases hc : c = '0'
    · have hzero : digit '0' = 0 := rfl
      rw [List.dropWhile_cons_of_pos (by simp [hc]), ih, ofDigits_cons, hc, hzero, Nat.mul_zero,
        Nat.zero_add]
    · rw [List.dropWhile_cons_of_neg (by simp [hc])]

theorem ofDigits_rdropWhile (ds : List Char) :
    ∃ j, ofDigits ds = ofDigits (ds.rdropWhile (· == '0')) * 10 ^ j := by
  induction ds using List.reverseRecOn with
  | nil => exact ⟨0, rfl⟩
  | append_singleton cs c ih =>
    by_cases hc : c = '0'
    · obtain ⟨j, hj⟩ := ih
      have hzero : digit '0' = 0 := rfl
      refine ⟨j + 1, ?_⟩
      rw [List.rdropWhile_concat_pos _ _ _ (by simp [hc]), hc, ofDigits_concat, hzero,
        Nat.add_zero, Nat.pow_succ', Nat.mul_left_comm, ← hj]
    · refine ⟨0, ?_⟩
      rw [List.rdropWhile_concat_neg _ _ _ (by simp [hc]), Nat.pow_zero, Nat.mul_one]

/-! ## The number that a numeral denotes -/

def digits (text : List Char) : List Char := text.filter (· != '.')

def places (text : List Char) : Nat := (text.dropWhile (· != '.')).length - 1

def value (text : List Char) : Rat := ofDigits (digits text) / 10 ^ places text

theorem ne_point_of_isDigit {c : Char} (h : c.isDigit = true) : (c != '.') = true := by
  rw [bne_iff_ne]
  rintro rfl
  exact absurd h (by decide)

theorem isDigit_of_mem_digits {text : List Char} (h : ∀ c ∈ text, isNumberChar c = true) {c : Char}
    (hc : c ∈ digits text) : c.isDigit = true := by
  obtain ⟨hmem, hne⟩ := List.mem_filter.1 hc
  have hpoint : (c == '.') = false := by simpa using hne
  simpa only [isNumberChar, hpoint, Bool.or_false] using h c hmem

section Forms

variable {ds fs : List Char} (hds : ∀ c ∈ ds, c.isDigit = true)
include hds

theorem digits_whole : digits ds = ds :=
  List.filter_eq_self.2 fun c hc => ne_point_of_isDigit (hds c hc)

theorem places_whole : places ds = 0 := by
  have hdrop : ds.dropWhile (· != '.') = [] :=
    List.dropWhile_eq_nil_iff.2 fun c hc => ne_point_of_isDigit (hds c hc)
  rw [places, hdrop]
  rfl

theorem digits_point (hfs : ∀ c ∈ fs, c.isDigit = true) : digits (ds ++ '.' :: fs) = ds ++ fs := by
  have hpoint : ('.' :: fs).filter (· != '.') = fs.filter (· != '.') := rfl
  rw [digits, List.filter_append, hpoint]
  exact congrArg₂ _ (digits_whole hds) (digits_whole hfs)

theorem places_point : places (ds ++ '.' :: fs) = fs.length := by
  have hdrop : (ds ++ '.' :: fs).dropWhile (· != '.') = '.' :: fs := by
    rw [List.dropWhile_append_of_pos fun c hc => ne_point_of_isDigit (hds c hc)]
    rfl
  rw [places, hdrop]
  rfl

end Forms

theorem read_eq {text : List Char} (hpoints : text.count '.' ≤ 1) :
    ∃ rank, Binary64.Closest Set.univ (value text) rank ∧
      Piece.numberValue? text = some (.ofRank false rank) := by
  obtain ⟨rank, hclosest, hvalue⟩ :=
    Binary64.closest_ofDecimal (ofDigits (digits text)) (places text)
  refine ⟨rank, hclosest, ?_⟩
  rw [← hvalue]
  exact if_pos hpoints

/-- **A numeral is read as the number nearest to the one that it denotes**, of two that are equally
near as the even one, and as infinity from the middle between the largest one and `2 ^ 1024` on. -/
theorem read_rounds {text : List Char} (hpoints : text.count '.' ≤ 1) :
    ∃ rank h, Piece.numberValue? text = some (.signed false rank h) ∧
      Binary64.Rounds (value text) rank := by
  obtain ⟨rank, hclosest, hvalue⟩ := read_eq hpoints
  exact ⟨min rank Binary64.top, Nat.min_le_right _ _, hvalue, hclosest.rounds⟩

/-! ## Significant digits -/

def significant (text : List Char) : List Char :=
  ((digits text).dropWhile (· == '0')).rdropWhile (· == '0')

theorem significant_subset (text : List Char) : significant text ⊆ digits text := fun _ hc =>
  (List.dropWhile_sublist _).subset ((List.rdropWhile_prefix _ _).subset hc)

theorem ofDigits_significant (text : List Char) :
    ∃ j, ofDigits (digits text) = ofDigits (significant text) * 10 ^ j := by
  rw [← ofDigits_dropWhile]
  exact ofDigits_rdropWhile _

/-- The significant digits determine the number up to a power of ten. -/
theorem value_eq_significant (text : List Char) :
    ∃ e : Int, value text = ofDigits (significant text) * 10 ^ e := by
  obtain ⟨j, hj⟩ := ofDigits_significant text
  refine ⟨j - places text, ?_⟩
  rw [value, hj, zpow_sub₀ (by norm_num), zpow_natCast, zpow_natCast, ← mul_div_assoc]
  push_cast
  rfl

theorem significant_ends {text : List Char} {c : Char} {cs : List Char}
    (h : significant text = c :: cs) :
    c ≠ '0' ∧ (c :: cs).getLast (List.cons_ne_nil c cs) ≠ '0' := by
  constructor
  · obtain ⟨rest, hrest⟩ := List.rdropWhile_prefix (· == '0') ((digits text).dropWhile (· == '0'))
    have hhead := Piece.head?_dropWhile (· == '0') (digits text) c
    rw [← hrest] at hhead
    have hfirst : ((significant text) ++ rest).head? = some c := by rw [h, List.cons_append]; rfl
    simpa using hhead hfirst
  · have hlast : ∀ hne, ¬((significant text).getLast hne == '0') = true :=
      List.rdropWhile_last_not (· == '0') _
    rw [h] at hlast
    simpa using hlast (List.cons_ne_nil c cs)

/-- A number without factors of ten is the least one of those that are the same up to a power of
ten. -/
theorem le_of_mul_ten_pow_eq {k l i j : Nat} (hl : l % 10 ≠ 0) (h : k * 10 ^ j = l * 10 ^ i) :
    l ≤ k := by
  by_cases hij : j ≤ i
  · obtain ⟨d, rfl⟩ := Nat.exists_eq_add_of_le hij
    rw [Nat.pow_add, Nat.mul_left_comm, Nat.mul_comm] at h
    rw [Nat.eq_of_mul_eq_mul_left (by positivity) h]
    exact Nat.le_mul_of_pos_right l (by positivity)
  · obtain ⟨d, rfl⟩ := Nat.exists_eq_add_of_lt (Nat.lt_of_not_le hij)
    have hfactor : l * 10 ^ i = k * 10 ^ d * 10 * 10 ^ i := by
      rw [← h]
      ring
    have hten : l = k * 10 ^ d * 10 := Nat.eq_of_mul_eq_mul_right (by positivity) hfactor
    omega

/-- They are no more than the digits of a number that is the same up to a power of ten. -/
theorem length_significant_le {text : List Char} (hdigits : ∀ c ∈ digits text, c.isDigit = true)
    {k j n : Nat} (hvalue : ofDigits (digits text) = k * 10 ^ j) (hk : k < 10 ^ n) :
    (significant text).length ≤ n := by
  obtain ⟨i, hi⟩ := ofDigits_significant text
  have hsubset := significant_subset text
  cases hds : significant text with
  | nil => exact Nat.zero_le n
  | cons c cs =>
    rw [hds] at hi hsubset
    have hcs : ∀ d ∈ c :: cs, d.isDigit = true := fun d hd => hdigits d (hsubset hd)
    obtain ⟨hfirst, hlast⟩ := significant_ends hds
    have hless : ofDigits (c :: cs) ≤ k :=
      le_of_mul_ten_pow_eq (ofDigits_mod hcs _ hlast) (hvalue.symm.trans hi)
    have hle : 10 ^ cs.length ≤ ofDigits (c :: cs) :=
      le_ofDigits (hcs c List.mem_cons_self) hfirst cs
    have hpow : 10 ^ cs.length < 10 ^ n := Nat.lt_of_le_of_lt (hle.trans hless) hk
    exact (Nat.pow_lt_pow_iff_right (by decide)).1 hpow

end MiniLisp.Numeral
