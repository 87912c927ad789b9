import MiniLisp.Proofs.Rounding

/-!
# The shortest decimal

`Decimal.shortest` finds a decimal that rounds to a magnitude, and there is none with fewer digits.
The grids of powers of ten are searched from a coarse one to the fine ones. On each grid only the
two decimals next to the magnitude have to be tried: what rounds to a magnitude from further away
has them between itself and the magnitude.

* `Decimal.value` : the number that a decimal stands for;
* `Decimal.rank_eq_iff` : `Decimal.rank` rounds this number;
* `Decimal.rank_of_onGrid?`, `Decimal.rank_ne_of_onGrid?_none` : a grid, `Decimal.search_spec` : the
  grids up to a given one, by induction;
* `Decimal.Coarsest`, `Decimal.coarsest_shortest` : the coarsest grid, `Decimal.Coarsest.coeff_lt` :
  it has the fewest digits.
-/

namespace MiniLisp.Binary64.Decimal

/-! ## The number of a decimal -/

/-- The decimal in steps of `10 ^ -1074`. -/
def steps (d : Decimal) : Nat := d.coeff * 10 ^ d.step

def value (d : Decimal) : Rat := d.steps / 10 ^ 1074

theorem value_eq_zpow (d : Decimal) : d.value = d.coeff * 10 ^ ((d.step : Int) - 1074) := by
  have hten : (10 : Rat) ≠ 0 := by norm_num
  have h1074 : (10 : Rat) ^ (1074 : Int) = 10 ^ 1074 := zpow_natCast 10 1074
  rw [value, steps, zpow_sub₀ hten, zpow_natCast, h1074, ← mul_div_assoc]
  push_cast
  rfl

theorem value_le_iff {c d : Decimal} : c.value ≤ d.value ↔ c.steps ≤ d.steps := by
  rw [value, value, div_le_div_iff_of_pos_right (by positivity)]
  exact Nat.cast_le

theorem decimalUnit_pos : 0 < decimalUnit := by decide +kernel

theorem ten_pow_eq : (10 : Rat) ^ 1074 = decimalUnit * 2 ^ 1074 := by
  have hten (n : Nat) : (10 : Rat) ^ n = (5 ^ n : Nat) * 2 ^ n := by
    rw [Nat.cast_pow, ← mul_pow]
    norm_num
  have hunit : decimalUnit = 5 ^ 1074 := by decide +kernel
  rw [hunit]
  exact hten 1074

theorem value_decimalUnits (r : Nat) : (⟨decimalUnits r, 0⟩ : Decimal).value = magnitude r := by
  have hpos : (0 : Rat) < decimalUnit := by exact_mod_cast decimalUnit_pos
  rw [value, steps, decimalUnits, magnitude, ten_pow_eq, pow_zero, Nat.mul_one, Nat.cast_mul,
    mul_comm (units r : Rat), mul_div_mul_left _ _ hpos.ne']

theorem closest_rank (d : Decimal) : Closest Set.univ d.value d.rank := by
  refine closest_nearest decimalUnit_pos ?_
  have hpos : (0 : Rat) < decimalUnit := by exact_mod_cast decimalUnit_pos
  have htwo : (0 : Rat) < 2 ^ 1074 := by positivity
  rw [value, ten_pow_eq, div_mul_eq_mul_div, mul_div_mul_right _ _ htwo.ne']
  rfl

/-- **The rank of a decimal is that of the nearest magnitude.** -/
theorem rank_eq_iff {d : Decimal} {r : Nat} : d.rank = r ↔ Closest Set.univ d.value r := by
  constructor
  · rintro rfl
    exact d.closest_rank
  · exact d.closest_rank.unique

theorem rank_congr {c d : Decimal} (h : c.steps = d.steps) : c.rank = d.rank := by
  rw [rank_eq_iff, value, h]
  exact d.closest_rank

theorem rank_zero (step : Nat) : (⟨0, step⟩ : Decimal).rank = 0 := by
  have hvalue : (⟨0, step⟩ : Decimal).value = magnitude 0 := by
    rw [value, steps, Nat.zero_mul, Nat.cast_zero, zero_div, magnitude_zero]
  rw [rank_eq_iff, hvalue]
  exact Closest.self 0

theorem rank_between {b c d : Decimal} {r : Nat} (hb : b.rank = r) (hd : d.rank = r)
    (hbc : b.steps ≤ c.steps) (hcd : c.steps ≤ d.steps) : c.rank = r :=
  (rank_eq_iff.1 hb).between (rank_eq_iff.1 hd) c.closest_rank (value_le_iff.2 hbc)
    (value_le_iff.2 hcd)

theorem rank_decimalUnits (r : Nat) : (⟨decimalUnits r, 0⟩ : Decimal).rank = r := by
  rw [rank_eq_iff, value_decimalUnits]
  exact Closest.self r

/-- A decimal that is twice a magnitude or more does not have its rank. -/
theorem steps_lt_of_rank_eq {d : Decimal} {r : Nat} (hr : 0 < r) (h : d.rank = r) :
    d.steps < 2 * decimalUnits r := by
  by_contra hle
  have hdouble : (⟨decimalUnits r, 0⟩ : Decimal).steps * 2 ≤ d.steps := by
    rw [steps, pow_zero, Nat.mul_one]
    show decimalUnits r * 2 ≤ d.steps
    omega
  have hlt := (rank_eq_iff.1 h).lt_two_mul hr
  rw [← value_decimalUnits, value, value, ← mul_div_assoc,
    div_lt_div_iff_of_pos_right (by positivity), mul_comm] at hlt
  exact absurd (by exact_mod_cast hlt) (Nat.not_lt.2 hdouble)

/-! ## One grid -/

section Grid

variable {target step : Nat}

theorem rank_of_onGrid? {d : Decimal} (h : onGrid? target step = some d) :
    d.rank = target ∧ d.step = step := by
  unfold onGrid? at h
  dsimp only at h
  split at h
  · rename_i hlower
    split at h
    · rename_i hupper
      cases h
      exact ⟨beq_iff_eq.1 (Bool.and_eq_true_iff.1 hupper).1, rfl⟩
    · cases h
      exact ⟨beq_iff_eq.1 hlower, rfl⟩
  · split at h
    · rename_i hupper
      cases h
      exact ⟨beq_iff_eq.1 hupper, rfl⟩
    · exact nomatch h

/-- If neither of the two decimals next to a magnitude rounds to it, then no decimal of the grid
does. -/
theorem rank_ne_of_onGrid?_none (h : onGrid? target step = none) (m : Nat) :
    (⟨m, step⟩ : Decimal).rank ≠ target := by
  unfold onGrid? at h
  dsimp only at h
  split at h
  · split at h <;> exact nomatch h
  rename_i hlower
  split at h
  · exact nomatch h
  rename_i hupper
  have hgrid : 0 < 10 ^ step := by positivity
  intro hm
  simp only [Nat.pow_eq, beq_iff_eq] at hlower hupper
  generalize hexact : decimalUnits target = exact at *
  have hself : (⟨exact, 0⟩ : Decimal).rank = target := hexact ▸ rank_decimalUnits target
  by_cases hside : m ≤ exact / 10 ^ step
  · refine hlower (rank_between hm hself (Nat.mul_le_mul_right _ hside) ?_)
    exact (Nat.div_mul_le_self exact (10 ^ step)).trans_eq (Nat.mul_one exact).symm
  · refine hupper (rank_between hself hm ?_ (Nat.mul_le_mul_right _ (Nat.lt_of_not_le hside)))
    exact (Nat.mul_one exact).trans_le (Nat.lt_mul_of_div_lt (Nat.lt_succ_self _) hgrid).le

end Grid

/-! ## All grids -/

/-- The search finds a decimal of the coarsest grid that has one: those above are tried before. -/
theorem search_spec (target n : Nat) :
    (search target n).rank = target ∧ (search target n).step ≤ n ∧
      ∀ step, (search target n).step < step → step ≤ n →
        ∀ m, (⟨m, step⟩ : Decimal).rank ≠ target := by
  induction n with
  | zero =>
    refine ⟨rank_decimalUnits target, Nat.le_refl 0, fun step hlt hle => ?_⟩
    exact absurd (Nat.lt_of_lt_of_le hlt hle) (Nat.lt_irrefl 0)
  | succ n ih =>
    unfold search
    cases hgrid : onGrid? target (n + 1) with
    | some d =>
      obtain ⟨hrank, hstep⟩ := rank_of_onGrid? hgrid
      refine ⟨hrank, hstep.le, fun step hlt hle => ?_⟩
      exact absurd (Nat.lt_of_lt_of_le hlt hle) (Nat.not_lt.2 hstep.ge)
    | none =>
      obtain ⟨hrank, hstep, hcoarser⟩ := ih
      refine ⟨hrank, hstep.trans (Nat.le_succ n), fun step hlt hle => ?_⟩
      rcases Nat.le_succ_iff.1 hle with hle | rfl
      · exact hcoarser step hlt hle
      · exact rank_ne_of_onGrid?_none hgrid

theorem lt_ten_pow_stepAbove (n : Nat) : n < 10 ^ stepAbove n := by
  have hlog : n < 2 ^ (n.log2 + 1) := Nat.lt_log2_self
  have htwo : 2 ^ 100000 ≤ 10 ^ 30103 := by decide +kernel
  unfold stepAbove
  generalize n.log2 + 1 = bits at *
  have hbound : (2 ^ bits) ^ 100000 ≤ (10 ^ (bits * 30103 / 100000 + 1)) ^ 100000 := calc
    (2 ^ bits) ^ 100000 = (2 ^ 100000) ^ bits := by rw [← pow_mul, ← pow_mul, Nat.mul_comm]
    _ ≤ (10 ^ 30103) ^ bits := Nat.pow_le_pow_left htwo _
    _ = 10 ^ (30103 * bits) := by rw [← pow_mul]
    _ ≤ 10 ^ ((bits * 30103 / 100000 + 1) * 100000) :=
      Nat.pow_le_pow_right (by decide) (by omega)
    _ = _ := pow_mul _ _ _
  have hne : 100000 ≠ 0 := by decide
  exact hlog.trans_le (le_of_pow_le_pow_left₀ hne (Nat.zero_le _) hbound)

/-- No decimal of a grid that is much coarser than a magnitude rounds to it. -/
theorem rank_ne_of_stepAbove_lt {r step : Nat} (hr : 0 < r)
    (hstep : stepAbove (decimalUnits r) < step) (m : Nat) : (⟨m, step⟩ : Decimal).rank ≠ r := by
  intro hm
  have hlt := steps_lt_of_rank_eq hr hm
  rcases Nat.eq_zero_or_pos m with rfl | hpos
  · rw [rank_zero] at hm
    omega
  · have habove := lt_ten_pow_stepAbove (decimalUnits r)
    have hgrid : 10 * 10 ^ stepAbove (decimalUnits r) ≤ 10 ^ step := by
      rw [← Nat.pow_succ']
      exact Nat.pow_le_pow_right (by decide) hstep
    have hsteps : 10 ^ step ≤ (⟨m, step⟩ : Decimal).steps := Nat.le_mul_of_pos_left _ hpos
    omega

/-- The decimal rounds to the magnitude of rank `r`, and no decimal of a coarser grid does. -/
structure Coarsest (r : Nat) (d : Decimal) : Prop where
  rank_eq : d.rank = r
  rank_ne : ∀ step, d.step < step → ∀ m, (⟨m, step⟩ : Decimal).rank ≠ r

theorem coarsest_shortest {r : Nat} (hr : 0 < r) : Coarsest r (shortest r) := by
  obtain ⟨hrank, -, hcoarser⟩ := search_spec r (stepAbove (decimalUnits r))
  refine ⟨hrank, fun step hlt => ?_⟩
  by_cases hstep : step ≤ stepAbove (decimalUnits r)
  · exact hcoarser step hlt hstep
  · exact rank_ne_of_stepAbove_lt hr (Nat.lt_of_not_le hstep)

namespace Coarsest

variable {r : Nat} {d : Decimal} (hd : Coarsest r d)
include hd

theorem coeff_mod : d.coeff % 10 ≠ 0 := by
  intro hmod
  refine hd.rank_ne (d.step + 1) (Nat.lt_add_one d.step) (d.coeff / 10) ?_
  rw [← hd.rank_eq]
  refine rank_congr ?_
  show d.coeff / 10 * 10 ^ (d.step + 1) = d.coeff * 10 ^ d.step
  rw [Nat.pow_succ', ← Nat.mul_assoc, Nat.div_mul_cancel (Nat.dvd_of_mod_eq_zero hmod)]

/-- **No decimal with fewer digits rounds to the magnitude.** -/
theorem coeff_lt (hr : 0 < r) {k n : Nat} {e : Int} (h : Closest Set.univ (k * 10 ^ e) r)
    (hk : k < 10 ^ n) : d.coeff < 10 ^ n := by
  by_contra hle
  have hle : 10 ^ n ≤ d.coeff := Nat.le_of_not_lt hle
  by_cases hgrid : (d.step : Int) < e + 1074
  · obtain ⟨step, hstep⟩ : ∃ step : Nat, e = step - 1074 := ⟨(e + 1074).toNat, by omega⟩
    refine hd.rank_ne step (by omega) k ?_
    rw [rank_eq_iff, value_eq_zpow, ← hstep]
    exact h
  · have hpower : (k : Rat) * 10 ^ e ≤ (⟨1, n + d.step⟩ : Decimal).value := by
      have hcast : (k : Rat) ≤ 10 ^ n := by exact_mod_cast hk.le
      have hexponent : ((n + d.step : Nat) : Int) - 1074 = n + ((d.step : Int) - 1074) := by omega
      rw [value_eq_zpow, hexponent, zpow_add₀ (by norm_num), zpow_natCast, Nat.cast_one, one_mul]
      refine mul_le_mul hcast ?_ (zpow_nonneg (by norm_num) e) (by positivity)
      exact zpow_le_zpow_right₀ (by norm_num) (by omega)
    have hcoarsest : (⟨1, n + d.step⟩ : Decimal).value ≤ d.value := by
      rw [value_le_iff, steps, steps, Nat.one_mul, Nat.pow_add]
      exact Nat.mul_le_mul_right _ hle
    have hone : (⟨1, n + d.step⟩ : Decimal).rank = r :=
      h.between (rank_eq_iff.1 hd.rank_eq) (closest_rank _) hpower hcoarsest
    rcases Nat.eq_zero_or_pos n with rfl | hn
    · obtain rfl : k = 0 := Nat.lt_one_iff.1 hk
      have hzero : (⟨0, 0⟩ : Decimal).rank = r := by
        rw [rank_eq_iff, value_eq_zpow, Nat.cast_zero, zero_mul]
        rwa [Nat.cast_zero, zero_mul] at h
      rw [rank_zero] at hzero
      omega
    · exact hd.rank_ne _ (by omega) 1 hone

end Coarsest

end MiniLisp.Binary64.Decimal
