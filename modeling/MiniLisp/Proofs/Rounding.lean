import Mathlib.Algebra.Order.Field.Rat
import Mathlib.Data.Nat.Cast.Order.Field
import Mathlib.Data.Rat.Lemmas
import Mathlib.Tactic.FieldSimp
import Mathlib.Tactic.Linarith
import Mathlib.Tactic.Positivity
import Mathlib.Tactic.Ring
import MiniLisp.Binary64.Decimal

/-!
# Rounding

What `Binary64.nearest` computes by one division is the rank of the magnitude nearest to a quotient,
among all of them, and of two that are equally near it is the even one. That it looks at the
quotient alone, and grows with it, follows from this without another look at the computation.

* `magnitude` : the magnitudes as rational numbers, `magnitude_fields` : what they are in terms of
  an exponent and a fraction;
* `units_add`, `units_strictMono`, `two_pow_dvd_units` : the grid;
* `Closest` : the rank of the magnitude nearest to a number, `Closest.le_of_le` : it grows with the
  number, so that there is at most one;
* `closest_nearest` : it is what `nearest` computes, `closest_ofDecimal` : for a decimal;
* `Rounds` : the same with infinity at the end of the grid.
-/

namespace MiniLisp.Binary64

/-! ## The grid -/

/-- The magnitude of rank `rank`. -/
def magnitude (rank : Nat) : Rat := units rank / 2 ^ 1074

/-- Each rank is in a run `s`, in which the magnitudes are `2 ^ s` steps apart. -/
theorem exists_run (k : Nat) :
    ∃ s m, k = s * 2 ^ 52 + m ∧ m < 2 ^ 53 ∧ (s = 0 ∨ 2 ^ 52 ≤ m) := by
  by_cases hk : k < 2 ^ 53
  · exact ⟨0, k, by omega, hk, .inl rfl⟩
  · refine ⟨k / 2 ^ 52 - 1, k % 2 ^ 52 + 2 ^ 52, ?_, ?_, .inr (by omega)⟩ <;> omega

theorem units_add {s m : Nat} (hm : m ≤ 2 ^ 53) (hs : s = 0 ∨ 2 ^ 52 ≤ m) :
    units (s * 2 ^ 52 + m) = m * 2 ^ s := by
  unfold units
  simp only [Nat.pow_eq]
  by_cases hlow : s * 2 ^ 52 + m < 2 ^ 52
  · obtain rfl : s = 0 := by omega
    rw [if_pos hlow]
    omega
  · rw [if_neg hlow]
    by_cases htop : m = 2 ^ 53
    · have hdiv : (s * 2 ^ 52 + m) / 2 ^ 52 - 1 = s + 1 := by omega
      have hmod : (s * 2 ^ 52 + m) % 2 ^ 52 = 0 := by omega
      rw [hdiv, hmod, htop]
      ring
    · have hdiv : (s * 2 ^ 52 + m) / 2 ^ 52 - 1 = s := by omega
      have hmod : 2 ^ 52 + (s * 2 ^ 52 + m) % 2 ^ 52 = m := by omega
      rw [hdiv, hmod]

theorem units_lt_succ (k : Nat) : units k < units (k + 1) := by
  obtain ⟨s, m, rfl, hm, hs⟩ := exists_run k
  rw [Nat.add_assoc, units_add (by omega) hs, units_add (by omega) (by omega)]
  exact Nat.mul_lt_mul_of_pos_right (Nat.lt_succ_self m) (by positivity)

theorem units_strictMono : StrictMono units := strictMono_nat_of_lt_succ units_lt_succ

theorem units_succ_le {k : Nat} (hk : 0 < k) : units (k + 1) ≤ 2 * units k := by
  obtain ⟨s, m, rfl, hm, hs⟩ := exists_run k
  rw [Nat.add_assoc, units_add (by omega) hs, units_add (by omega) (by omega), ← Nat.mul_assoc]
  refine Nat.mul_le_mul_right _ ?_
  rcases hs with rfl | hs <;> omega

theorem two_pow_dvd_units {s k : Nat} (hk : (s + 1) * 2 ^ 52 ≤ k ∨ s = 0) : 2 ^ s ∣ units k := by
  rcases hk with hk | rfl
  · obtain ⟨s', m, rfl, hm, hs⟩ := exists_run k
    rw [units_add (by omega) hs]
    have hle : s ≤ s' := by omega
    exact Dvd.dvd.mul_left (Nat.pow_dvd_pow 2 hle) m
  · exact Nat.one_dvd _

theorem magnitude_strictMono : StrictMono magnitude := by
  intro k l h
  have hunits : (units k : Rat) < units l := by exact_mod_cast units_strictMono h
  exact div_lt_div_of_pos_right hunits (by positivity)

theorem magnitude_zero : magnitude 0 = 0 := by
  have hzero : units 0 = 0 := rfl
  rw [magnitude, hzero, Nat.cast_zero, zero_div]

/-- The magnitude with exponent field `e` and fraction field `f`: there is a leading one before the
fraction unless the exponent field is zero. -/
theorem magnitude_fields {e f : Nat} (hf : f < 2 ^ 52) : magnitude (e * 2 ^ 52 + f) =
    if e = 0 then (f : Rat) / 2 ^ 1074 else (2 ^ 52 + (f : Rat)) * 2 ^ e / 2 ^ 1075 := by
  unfold magnitude
  by_cases he : e = 0
  · rw [if_pos he, he, units_add (by omega) (.inl rfl), pow_zero, Nat.mul_one]
  · obtain ⟨s, rfl⟩ := Nat.exists_eq_succ_of_ne_zero he
    have hrun : s.succ * 2 ^ 52 + f = s * 2 ^ 52 + (2 ^ 52 + f) := by
      rw [Nat.succ_mul, Nat.add_assoc]
    have hpow : (2 : Rat) ^ 1075 = 2 ^ 1074 * 2 := pow_succ 2 1074
    rw [if_neg he, hrun, units_add (by omega) (.inr (by omega)), hpow, pow_succ (2 : Rat) s,
      ← mul_assoc, mul_div_mul_right _ _ two_ne_zero]
    norm_cast

/-! ## The nearest magnitude -/

section Distance

variable {a b p : Rat} (h : a < b)
include h

/-- Of two numbers the upper one is at least as near exactly from the middle on. -/
theorem upper_near_iff : |p - b| ≤ |p - a| ↔ a + b ≤ 2 * p := by
  rw [← sq_le_sq]
  constructor
  · intro hsq
    by_contra hlt
    have hpos : 0 < (b - a) * (a + b - 2 * p) := mul_pos (by linarith) (by linarith)
    nlinarith
  · intro hmiddle
    have hpos : 0 ≤ (b - a) * (2 * p - (a + b)) := mul_nonneg (by linarith) (by linarith)
    nlinarith

theorem lower_near_iff : |p - a| ≤ |p - b| ↔ 2 * p ≤ a + b := by
  have hmirror := upper_near_iff (p := -p) (neg_lt_neg h)
  rw [neg_sub_neg, neg_sub_neg, abs_sub_comm a, abs_sub_comm b] at hmirror
  rw [hmirror]
  constructor <;> intro hmiddle <;> linarith

end Distance

/-- Among the ranks of `ranks`, `rank` is that of the magnitude nearest to `q`. If there is another
one that is as near, it is the even one of the two. -/
structure Closest (ranks : Set Nat) (q : Rat) (rank : Nat) : Prop where
  mem : rank ∈ ranks
  le : ∀ r ∈ ranks, |q - magnitude rank| ≤ |q - magnitude r|
  even : ∀ r ∈ ranks, r ≠ rank → |q - magnitude rank| = |q - magnitude r| → rank % 2 = 0

namespace Closest

variable {p q : Rat} {k l : Nat}

/-- **The rank grows with the number.** -/
theorem le_of_le (hp : Closest Set.univ p k) (hq : Closest Set.univ q l) (h : p ≤ q) : k ≤ l := by
  by_contra hlt
  have hlt : l < k := Nat.lt_of_not_le hlt
  have hmag := magnitude_strictMono hlt
  have hk := (upper_near_iff hmag).1 (hp.le l trivial)
  have hl := (lower_near_iff hmag).1 (hq.le k trivial)
  have hsame : |p - magnitude k| = |p - magnitude l| :=
    le_antisymm (hp.le l trivial) ((lower_near_iff hmag).2 (by linarith))
  have hsame' : |q - magnitude l| = |q - magnitude k| :=
    le_antisymm (hq.le k trivial) ((upper_near_iff hmag).2 (by linarith))
  have hkeven := hp.even l trivial (by omega) hsame
  have hleven := hq.even k trivial (by omega) hsame'
  -- between two even ranks there is another one, which is nearer
  have hbetween : magnitude (l + 1) < magnitude k := magnitude_strictMono (by omega)
  have hbelow : magnitude l < magnitude (l + 1) := magnitude_strictMono (Nat.lt_succ_self l)
  have hnear := (upper_near_iff hbetween).1 (hp.le (l + 1) trivial)
  linarith

theorem unique (hk : Closest Set.univ p k) (hl : Closest Set.univ p l) : k = l :=
  Nat.le_antisymm (hk.le_of_le hl le_rfl) (hl.le_of_le hk le_rfl)

theorem between {r : Rat} (hp : Closest Set.univ p k) (hr : Closest Set.univ r k)
    (hq : Closest Set.univ q l) (hpq : p ≤ q) (hqr : q ≤ r) : l = k :=
  Nat.le_antisymm (hq.le_of_le hr hqr) (hp.le_of_le hq hpq)

theorem self (k : Nat) : Closest Set.univ (magnitude k) k where
  mem := trivial
  le r _ := by
    rw [sub_self, abs_zero]
    exact abs_nonneg _
  even r _ hr heq := by
    rw [sub_self, abs_zero, eq_comm, abs_eq_zero, sub_eq_zero] at heq
    exact absurd (magnitude_strictMono.injective heq).symm hr

/-- A number that is twice a magnitude or more does not have its rank. -/
theorem lt_two_mul (hp : Closest Set.univ p k) (hk : 0 < k) : p < 2 * magnitude k := by
  by_contra hle
  have hnext : magnitude (k + 1) ≤ 2 * magnitude k := by
    have hunits : (units (k + 1) : Rat) ≤ 2 * units k := by exact_mod_cast units_succ_le hk
    rw [magnitude, magnitude, ← mul_div_assoc]
    exact div_le_div_of_nonneg_right hunits (by positivity)
  have hlt : magnitude k < magnitude (k + 1) := magnitude_strictMono (Nat.lt_succ_self k)
  have hnear := (lower_near_iff hlt).1 (hp.le (k + 1) trivial)
  linarith

end Closest

/-! ## Rounding to a natural number -/

/-- A natural number is at most a half away from what is rounded to it, and even if it is a half
away. -/
theorem abs_sub_roundHalfEven (num : Nat) {den : Nat} (hden : 0 < den) :
    |(num : Rat) / den - roundHalfEven num den| ≤ 1 / 2 ∧
      (|(num : Rat) / den - roundHalfEven num den| = 1 / 2 → roundHalfEven num den % 2 = 0) := by
  have hpos : (0 : Rat) < den := by exact_mod_cast hden
  have hquotient : (num : Rat) / den = (num / den : Nat) + (num % den : Nat) / den := by
    have hdivmod : (num : Rat) = den * (num / den : Nat) + (num % den : Nat) := by
      exact_mod_cast (Nat.div_add_mod num den).symm
    rw [hdivmod, add_div, mul_div_cancel_left₀ _ hpos.ne']
  have hnonneg : (0 : Rat) ≤ (num % den : Nat) / den := by positivity
  have hless : ((num % den : Nat) : Rat) / den < 1 := by
    rw [div_lt_one hpos]
    exact_mod_cast Nat.mod_lt num hden
  unfold roundHalfEven
  dsimp only
  rw [hquotient]
  generalize hfloor : num / den = floor
  rcases lt_trichotomy (2 * (num % den)) den with hlt | heq | hgt
  · have hrest : ((num % den : Nat) : Rat) / den < 1 / 2 := by
      rw [div_lt_div_iff₀ hpos two_pos]
      exact_mod_cast (by omega : num % den * 2 < 1 * den)
    rw [if_neg (by simp; omega), add_sub_cancel_left, abs_of_nonneg hnonneg]
    exact ⟨hrest.le, fun h => absurd h hrest.ne⟩
  · have hrest : ((num % den : Nat) : Rat) / den = 1 / 2 := by
      rw [div_eq_div_iff hpos.ne' two_ne_zero]
      exact_mod_cast (by omega : num % den * 2 = 1 * den)
    rw [hrest, heq]
    by_cases hodd : floor % 2 = 1
    · have hhalf : (floor : Rat) + 1 / 2 - (floor + 1 : Nat) = -(1 / 2) := by
        rw [Nat.cast_add_one]
        ring
      rw [if_pos (by simp [hodd]), hhalf, abs_neg, abs_of_pos one_half_pos]
      exact ⟨le_rfl, fun _ => by omega⟩
    · rw [if_neg (by simp [hodd]), add_sub_cancel_left, abs_of_pos one_half_pos]
      exact ⟨le_rfl, fun _ => by omega⟩
  · have hrest : 1 / 2 < ((num % den : Nat) : Rat) / den := by
      rw [div_lt_div_iff₀ two_pos hpos]
      exact_mod_cast (by omega : 1 * den < num % den * 2)
    rw [if_pos (by simp [hgt]), Nat.cast_add_one, add_sub_add_left_eq_sub, abs_sub_comm,
      abs_of_nonneg (by linarith)]
    exact ⟨by linarith, fun h => by linarith⟩

theorem roundHalfEven_nearest (num : Nat) {den : Nat} (hden : 0 < den) {j : Nat}
    (hj : j ≠ roundHalfEven num den) :
    |(num : Rat) / den - roundHalfEven num den| ≤ |(num : Rat) / den - j| ∧
      (|(num : Rat) / den - roundHalfEven num den| = |(num : Rat) / den - j| →
        roundHalfEven num den % 2 = 0) := by
  obtain ⟨hhalf, heven⟩ := abs_sub_roundHalfEven num hden
  generalize roundHalfEven num den = n at *
  have hone : (1 : Rat) ≤ |(n : Rat) - j| := by
    have hne : (n : Int) - j ≠ 0 := by omega
    exact_mod_cast Int.one_le_abs hne
  have htriangle := abs_sub_le (n : Rat) (num / den) j
  rw [abs_sub_comm (n : Rat) (num / den)] at htriangle
  exact ⟨by linarith, fun h => heven (by linarith)⟩

theorem roundHalfEven_bounds (num den : Nat) :
    num / den ≤ roundHalfEven num den ∧ roundHalfEven num den ≤ num / den + 1 := by
  unfold roundHalfEven
  dsimp only
  split <;> omega

/-! ## Rounding to the grid -/

/-- The run in which the nearest magnitude is: the quotient is in it too, and the rank is found by
rounding the quotient to the steps of the run. -/
theorem nearest_run (num den : Nat) : ∃ s, (s = 0 ∨ 2 ^ 52 * 2 ^ s ≤ num / den) ∧
    nearest num den = s * 2 ^ 52 + roundHalfEven num (den * 2 ^ s) ∧
    roundHalfEven num (den * 2 ^ s) ≤ 2 ^ 53 ∧
    (s = 0 ∨ 2 ^ 52 ≤ roundHalfEven num (den * 2 ^ s)) := by
  generalize hquotient : num / den = quotient
  have hdiv (s : Nat) : num / (den * 2 ^ s) = quotient / 2 ^ s := by
    rw [← Nat.div_div_eq_div_mul, hquotient]
  have hlt : quotient < 2 ^ (quotient.log2 + 1) := Nat.lt_log2_self
  by_cases hlog : quotient.log2 ≤ 52
  · have hbound : quotient < 2 ^ 53 :=
      Nat.lt_of_lt_of_le hlt (Nat.pow_le_pow_right two_pos (by omega))
    have hround := (roundHalfEven_bounds num (den * 2 ^ 0)).2
    have hone : quotient / 2 ^ 0 = quotient := Nat.div_one quotient
    rw [hdiv, hone] at hround
    refine ⟨0, .inl rfl, ?_, by omega, .inl rfl⟩
    simp only [nearest, Nat.pow_eq, hquotient, Nat.sub_eq_zero_of_le hlog]
  · obtain ⟨s, hs⟩ : ∃ s, quotient.log2 = 52 + s := ⟨quotient.log2 - 52, by omega⟩
    have hne : quotient ≠ 0 := by
      rintro rfl
      exact hlog (Nat.zero_le _)
    have hlow : 2 ^ 52 * 2 ^ s ≤ quotient := by
      rw [← pow_add, ← hs]
      exact Nat.log2_self_le hne
    have hhigh : quotient / 2 ^ s < 2 ^ 53 := by
      rw [Nat.div_lt_iff_lt_mul (by positivity), ← pow_add]
      rwa [hs, show 52 + s + 1 = 53 + s by omega] at hlt
    have hbounds := roundHalfEven_bounds num (den * 2 ^ s)
    rw [hdiv] at hbounds
    have hmin : 2 ^ 52 ≤ quotient / 2 ^ s := (Nat.le_div_iff_mul_le (by positivity)).2 hlow
    refine ⟨s, .inr hlow, ?_, by omega, .inr (by omega)⟩
    simp only [nearest, Nat.pow_eq, hquotient, hs, Nat.add_sub_cancel_left]

/-- The magnitudes of other ranks are no nearer to the quotient, and if one of them is as near, then
the rank is even. -/
theorem nearest_units (num : Nat) {den : Nat} (hden : 0 < den) {k : Nat}
    (hk : k ≠ nearest num den) :
    |(num : Rat) / den - units (nearest num den)| ≤ |(num : Rat) / den - units k| ∧
      (|(num : Rat) / den - units (nearest num den)| = |(num : Rat) / den - units k| →
        nearest num den % 2 = 0) := by
  obtain ⟨s, hlow, hrank, hm, hs⟩ := nearest_run num den
  rw [hrank] at hk ⊢
  have hden' : 0 < den * 2 ^ s := by positivity
  have hround := @roundHalfEven_nearest num (den * 2 ^ s) hden'
  generalize roundHalfEven num (den * 2 ^ s) = m at *
  have hpow : (0 : Rat) < 2 ^ s := by positivity
  have hscale (j : Nat) : |(num : Rat) / den - (j * 2 ^ s : Nat)| =
      |(num : Rat) / (den * 2 ^ s : Nat) - j| * 2 ^ s := by
    have hdenpos : (0 : Rat) < den := by exact_mod_cast hden
    rw [← abs_of_pos hpow, ← abs_mul]
    congr 1
    push_cast
    field_simp
  have hunits : units (s * 2 ^ 52 + m) = m * 2 ^ s := units_add hm hs
  have hne : units k ≠ m * 2 ^ s := by
    rw [← hunits]
    exact units_strictMono.injective.ne hk
  by_cases hdvd : 2 ^ s ∣ units k
  · obtain ⟨j, hj⟩ := hdvd
    rw [hj, Nat.mul_comm] at hne
    obtain ⟨hle, heven⟩ := hround (j := j) (by rintro rfl; exact hne rfl)
    rw [hunits, hj, Nat.mul_comm _ j, hscale, hscale]
    refine ⟨mul_le_mul_of_nonneg_right hle hpow.le, fun heq => ?_⟩
    have := heven (mul_right_cancel₀ hpow.ne' heq)
    omega
  · have hs0 : s ≠ 0 := by
      rintro rfl
      exact hdvd (Nat.one_dvd _)
    have hbelow : k < s * 2 ^ 52 + 2 ^ 52 := by
      by_contra hle
      exact hdvd (two_pow_dvd_units (.inl (by omega)))
    have hlt : units k < 2 ^ 52 * 2 ^ s := by
      rw [← units_add (by omega) (.inr le_rfl)]
      exact units_strictMono hbelow
    have hltpow : (units k : Rat) < (2 ^ 52 * 2 ^ s : Nat) := by exact_mod_cast hlt
    have hstart : ((2 ^ 52 * 2 ^ s : Nat) : Rat) ≤ num / den := by
      have hle : ((2 ^ 52 * 2 ^ s : Nat) : Rat) ≤ (num / den : Nat) := by
        exact_mod_cast hlow.resolve_left hs0
      exact hle.trans Nat.cast_div_le
    have hnear : |(num : Rat) / den - (m * 2 ^ s : Nat)| ≤
        |(num : Rat) / den - (2 ^ 52 * 2 ^ s : Nat)| := by
      by_cases heq : 2 ^ 52 = m
      · rw [heq]
      · rw [hscale, hscale]
        exact mul_le_mul_of_nonneg_right (hround heq).1 hpow.le
    rw [hunits]
    generalize ((2 ^ 52 * 2 ^ s : Nat) : Rat) = start at hltpow hstart hnear
    rw [abs_of_nonneg (sub_nonneg.2 hstart)] at hnear
    have hstrict : |(num : Rat) / den - (m * 2 ^ s : Nat)| < |(num : Rat) / den - units k| := by
      rw [abs_of_nonneg (sub_nonneg.2 (hltpow.le.trans hstart))]
      exact hnear.trans_lt (sub_lt_sub_left hltpow _)
    exact ⟨hstrict.le, fun heq => absurd heq hstrict.ne⟩

/-- **`nearest` finds the nearest magnitude.** -/
theorem closest_nearest {q : Rat} {num den : Nat} (hden : 0 < den)
    (hq : (num : Rat) / den = q * 2 ^ 1074) : Closest Set.univ q (nearest num den) := by
  have hpos : (0 : Rat) < 2 ^ 1074 := by positivity
  have hscale (k : Nat) : |q - magnitude k| * 2 ^ 1074 = |(num : Rat) / den - units k| := by
    rw [hq, magnitude, ← abs_of_pos hpos, ← abs_mul, abs_of_pos hpos, sub_mul,
      div_mul_cancel₀ _ hpos.ne']
  refine ⟨trivial, fun k _ => ?_, fun k _ hk heq => ?_⟩
  · by_cases hk : k = nearest num den
    · rw [hk]
    · have hle := (nearest_units num hden hk).1
      rw [← hscale, ← hscale] at hle
      exact le_of_mul_le_mul_right hle hpos
  · refine (nearest_units num hden hk).2 ?_
    rw [← hscale, ← hscale, heq]

theorem closest_ofDecimal (coeff places : Nat) :
    ∃ rank, Closest Set.univ (coeff / 10 ^ places) rank ∧
      ofDecimal coeff places = ofRank false rank := by
  refine ⟨_, ?_, rfl⟩
  have hplaces : 0 < Nat.pow 10 places := Nat.pow_pos (by decide)
  refine closest_nearest hplaces ?_
  generalize 1074 = n
  rw [Nat.cast_mul, Nat.pow_eq, Nat.cast_pow, Nat.pow_eq, Nat.cast_pow, Nat.cast_ofNat,
    Nat.cast_ofNat, div_mul_eq_mul_div]

/-! ## Infinity -/

/-- The rank to which a number is rounded: that of the nearest magnitude, where infinity stands for
`2 ^ 1024`. -/
abbrev Rounds (q : Rat) (rank : Nat) : Prop := Closest (Set.Iic top) q rank

theorem Closest.rounds {q : Rat} {k : Nat} (h : Closest Set.univ q k) : Rounds q (min k top) := by
  by_cases hk : k ≤ top
  · rw [Nat.min_eq_left hk]
    exact ⟨hk, fun r _ => h.le r trivial, fun r _ => h.even r trivial⟩
  · have htop : top < k := Nat.lt_of_not_le hk
    have hmag := magnitude_strictMono htop
    have hbeyond := (upper_near_iff hmag).1 (h.le top trivial)
    rw [Nat.min_eq_right htop.le]
    refine ⟨Set.mem_Iic.2 le_rfl, fun r hr => ?_, fun _ _ _ _ => rfl⟩
    have hle : magnitude r ≤ magnitude top := magnitude_strictMono.monotone hr
    rw [abs_of_nonneg (by linarith), abs_of_nonneg (by linarith)]
    linarith

theorem Closest.of_rounds {q : Rat} {k : Nat} (h : Rounds q k) (hk : k < top) :
    Closest Set.univ q k := by
  have hnear := (lower_near_iff (magnitude_strictMono hk)).1 (h.le top (Set.mem_Iic.2 le_rfl))
  have hbeyond (r : Nat) (hr : top < r) : |q - magnitude k| < |q - magnitude r| := by
    have hmag := magnitude_strictMono hk
    have hmag' := magnitude_strictMono hr
    refine (h.le top (Set.mem_Iic.2 le_rfl)).trans_lt ?_
    rw [abs_sub_comm, abs_sub_comm q, abs_of_pos (by linarith), abs_of_pos (by linarith)]
    linarith
  refine ⟨trivial, fun r _ => ?_, fun r _ hr heq => ?_⟩
  · by_cases hr : r ≤ top
    · exact h.le r hr
    · exact (hbeyond r (Nat.lt_of_not_le hr)).le
  · by_cases hr' : r ≤ top
    · exact h.even r hr' hr heq
    · exact absurd heq (hbeyond r (Nat.lt_of_not_le hr')).ne

end MiniLisp.Binary64
