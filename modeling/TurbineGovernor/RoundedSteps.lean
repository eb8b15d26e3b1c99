import TurbineGovernor.SingleSums

/-!
# Rounded steps

Rounding to some significant bits moves a value by half a unit in the last
place at most. A step that is added again and again, with a rounding after each
addition, therefore stays near its exact multiples.
-/

namespace RoundedSteps
open CommonTypes SingleOrder SingleSums
open RegulatorAlarms (toFloat toFloat_le)

/-- To `p` significant bits, halves to the even neighbour. -/
def roundTo (p n : Nat) : Nat :=
  let k := n.log2 + 1 - p
  let quotient := n / 2 ^ k
  let rest := n % 2 ^ k
  if 2 * rest < 2 ^ k ∨ (2 * rest = 2 ^ k ∧ quotient % 2 = 0) then quotient * 2 ^ k
  else (quotient + 1) * 2 ^ k

theorem toFloat_eq (n : Nat) : toFloat n = roundTo 24 n := rfl

/-- Less than `2 ^ m` is rounded by half of `2 ^ (m - p)` at most. -/
theorem roundTo_near {p n m : Nat} (hp : 0 < p) (h : n < 2 ^ m) :
    2 * roundTo p n ≤ 2 * n + 2 ^ (m - p) ∧ 2 * n ≤ 2 * roundTo p n + 2 ^ (m - p) := by
  have hlog : n.log2 + 1 - p ≤ m - p := by
    rcases Nat.eq_zero_or_pos n with rfl | hpos
    · rw [Nat.log2_zero]
      omega
    · have := (Nat.log2_lt (by omega)).mpr h
      omega
  have hgrid : 2 ^ (n.log2 + 1 - p) ≤ 2 ^ (m - p) := Nat.pow_le_pow_right Nat.two_pos hlog
  have hpos := Nat.two_pow_pos (n.log2 + 1 - p)
  simp only [roundTo]
  generalize 2 ^ (n.log2 + 1 - p) = c at hgrid hpos
  have hdiv := Nat.div_add_mod n c
  rw [Nat.mul_comm] at hdiv
  have hmod := Nat.mod_lt n hpos
  have hsucc : (n / c + 1) * c = n / c * c + c := Nat.succ_mul _ _
  split <;> omega

theorem grid_dvd_toFloat (n : Nat) : 2 ^ (n.log2 + 1 - 24) ∣ toFloat n := by
  simp only [toFloat_eq, roundTo]
  split <;> exact Nat.dvd_mul_left _ _

/-- A value on its own grid is not changed. -/
theorem toFloat_of_dvd {n : Nat} (h : 2 ^ (n.log2 + 1 - 24) ∣ n) : toFloat n = n := by
  have hpos := Nat.two_pow_pos (n.log2 + 1 - 24)
  rw [toFloat_eq, roundTo]
  simp only [Nat.mod_eq_zero_of_dvd h]
  rw [if_pos (Or.inl (by omega)), Nat.div_mul_cancel h]

/-- Rounding keeps the divisors that are powers of two. -/
theorem two_pow_dvd_toFloat {n k : Nat} (h : 2 ^ k ∣ n) : 2 ^ k ∣ toFloat n := by
  rcases Nat.le_total k (n.log2 + 1 - 24) with hfine | hcoarse
  · exact (Nat.pow_dvd_pow 2 hfine).trans (grid_dvd_toFloat n)
  · rw [toFloat_of_dvd ((Nat.pow_dvd_pow 2 hcoarse).trans h)]
    exact h

/-- A rounded value is on its own grid: on that of the exact one, or it is a power of two. -/
theorem toFloat_on_grid (n : Nat) : 2 ^ ((toFloat n).log2 - 23) ∣ toFloat n := by
  rcases Nat.eq_zero_or_pos n with rfl | hpos
  · decide
  have hlow := two_pow_log2_le_toFloat (n := n) (by omega)
  have hhigh : toFloat n ≤ 2 ^ (n.log2 + 1) := toFloat_le Nat.lt_log2_self
  have hgrid := grid_dvd_toFloat n
  generalize toFloat n = m at hlow hhigh hgrid
  have hm : m ≠ 0 := by
    have := Nat.two_pow_pos n.log2
    omega
  rcases Nat.lt_or_eq_of_le hhigh with hlt | heq
  · have hlog : m.log2 = n.log2 := by
      have hle := (Nat.le_log2 hm).mpr hlow
      have hge := (Nat.log2_lt hm).mpr hlt
      omega
    rw [hlog]
    have hexp : n.log2 - 23 = n.log2 + 1 - 24 := by omega
    rw [hexp]
    exact hgrid
  · rw [heq, Nat.log2_two_pow]
    exact Nat.pow_dvd_pow 2 (by omega)

theorem toFloat_toFloat (n : Nat) : toFloat (toFloat n) = toFloat n := by
  apply toFloat_of_dvd
  have hexp : (toFloat n).log2 + 1 - 24 = (toFloat n).log2 - 23 := by omega
  rw [hexp]
  exact toFloat_on_grid n

/-- What has been rounded once is the same value. -/
theorem ofUnits_toFloat (n : Nat) : ofUnits false (toFloat n : Nat) = ofUnits false (n : Nat) := by
  have hround : SingleSums.round (toFloat n) = SingleSums.round n := by
    simp only [SingleSums.round, toFloat_toFloat]
  rw [ofUnits, ofUnits, Int.natAbs_natCast, Int.natAbs_natCast, hround, if_neg (by simp),
    if_neg (by simp)]

/-- After a rounding to 24 bits the pattern stands for the very same units. -/
theorem units_pattern_toFloat (n : Nat) : units (pattern (toFloat n)) = toFloat n := by
  have hdvd := toFloat_on_grid n
  generalize toFloat n = m at hdvd
  rcases Nat.eq_zero_or_pos m with rfl | hpos
  · decide
  have hm : m ≠ 0 := by omega
  have hself := Nat.log2_self_le hm
  have hlt := Nat.lt_log2_self (n := m)
  simp only [pattern]
  by_cases hsmall : m.log2 ≤ 23
  · have hk : m.log2 - 23 = 0 := by omega
    have hbound : m < 2 ^ 24 := lt_of_lt_of_le hlt (Nat.pow_le_pow_right Nat.two_pos (by omega))
    rw [hk, Nat.zero_mul, Nat.zero_add, pow_zero, Nat.div_one, units, if_pos hbound]
  · obtain ⟨k, hk⟩ : ∃ k, m.log2 - 23 = k + 1 := ⟨m.log2 - 24, by omega⟩
    rw [hk] at hdvd ⊢
    obtain ⟨q, rfl⟩ := hdvd
    rw [Nat.mul_div_cancel_left q (Nat.two_pow_pos _)]
    have hlogeq : (2 ^ (k + 1) * q).log2 = k + 1 + 23 := by omega
    rw [hlogeq] at hself hlt
    have hqlow : 2 ^ 23 ≤ q := by
      rw [Nat.pow_add 2 (k + 1) 23] at hself
      exact Nat.le_of_mul_le_mul_left hself (Nat.two_pow_pos _)
    have hqhigh : q < 2 ^ 24 := by
      rw [Nat.add_assoc (k + 1) 23 1, Nat.pow_add 2 (k + 1) (23 + 1)] at hlt
      exact Nat.lt_of_mul_lt_mul_left hlt
    obtain ⟨p, hp⟩ : ∃ p, p = (k + 1) * 2 ^ 23 + q := ⟨_, rfl⟩
    have hlarge : ¬ p < 2 ^ 24 := by omega
    have hmod : p % 2 ^ 23 = q - 2 ^ 23 := by omega
    have hquot : p / 2 ^ 23 - 1 = k + 1 := by omega
    rw [← hp, units, if_neg hlarge, hmod, hquot, Nat.sub_add_cancel hqlow, Nat.mul_comm]

theorem units_lt {p q : Nat} (h : p < q) : units p < units q := by
  refine lt_of_lt_of_le ?_ (units_mono (Nat.succ_le_of_lt h))
  simp only [units, Nat.succ_eq_add_one]
  by_cases hp : p + 1 < 2 ^ 24
  · rw [if_pos hp, if_pos (by omega)]
    exact Nat.lt_succ_self p
  rw [if_neg hp]
  by_cases hp' : p < 2 ^ 24
  · rw [if_pos hp']
    have hp24 : p + 1 = 2 ^ 24 := by omega
    rw [hp24]
    norm_num
    omega
  rw [if_neg hp']
  have hmod := Nat.mod_lt p (by decide : 0 < 2 ^ 23)
  by_cases hcarry : p % 2 ^ 23 + 1 = 2 ^ 23
  · have hrest : (p + 1) % 2 ^ 23 = 0 := by omega
    have hexp : (p + 1) / 2 ^ 23 - 1 = p / 2 ^ 23 - 1 + 1 := by omega
    rw [hrest, hexp, pow_succ]
    have hpos := Nat.two_pow_pos (p / 2 ^ 23 - 1)
    calc (p % 2 ^ 23 + 2 ^ 23) * 2 ^ (p / 2 ^ 23 - 1)
        < 2 ^ 24 * 2 ^ (p / 2 ^ 23 - 1) := Nat.mul_lt_mul_of_pos_right (by omega) hpos
      _ = (0 + 2 ^ 23) * (2 ^ (p / 2 ^ 23 - 1) * 2) := by ring
  · have hrest : (p + 1) % 2 ^ 23 = p % 2 ^ 23 + 1 := by omega
    have hexp : (p + 1) / 2 ^ 23 - 1 = p / 2 ^ 23 - 1 := by omega
    rw [hrest, hexp]
    exact Nat.mul_lt_mul_of_pos_right (by omega) (Nat.two_pow_pos _)

/-- A finite value without sign, in units. -/
structure HasUnits (x : Single) (u : Nat) : Prop where
  sign : x.msb = false
  finite : magnitude x < inf
  units : units (magnitude x) = u

section HasUnits
variable {x y : Single} {u v : Nat}

theorem HasUnits.isNaN (h : HasUnits x u) : Single.isNaN x = false :=
  (isNaN_false_iff x).mpr h.finite.le

theorem HasUnits.toUnits (h : HasUnits x u) : toUnits x = u := by
  simp only [SingleSums.toUnits, key, h.sign, Bool.false_eq_true, if_false, odd,
    Int.natAbs_natCast, h.units]
  rw [if_neg (by omega)]

theorem HasUnits.lt_iff (hx : HasUnits x u) (hy : HasUnits y v) : lt x y = true ↔ u < v := by
  rw [SingleOrder.lt_iff, hx.isNaN, hy.isNaN, ← hx.units, ← hy.units]
  simp only [key, hx.sign, hy.sign, Bool.false_eq_true, if_false, Int.ofNat_lt, true_and]
  constructor
  · exact units_lt
  · intro h
    by_contra hge
    exact absurd (units_mono (Nat.le_of_not_lt hge)) (Nat.not_le_of_lt h)

/-- A rounded sum below the largest value has the units of its rounding. -/
theorem hasUnits_ofUnits {n : Nat} (small : n < 2 ^ 256) :
    HasUnits (ofUnits false n) (toFloat n) := by
  have hpattern : pattern (toFloat n) ≤ pattern (2 ^ 256) := pattern_mono (toFloat_le small)
  have hinf : pattern (2 ^ 256) < inf := by decide
  have hround : round n = pattern (toFloat n) := min_eq_left (by omega)
  have hsmall : pattern (toFloat n) < 2 ^ 31 := lt_trans (by omega : _ < inf) (by decide)
  have hof : ofUnits false (n : Int) = BitVec.ofNat 32 (pattern (toFloat n)) := by
    rw [ofUnits, if_neg (by simp), Int.natAbs_natCast, hround]
  refine ⟨?_, ?_, ?_⟩
  · rw [hof]
    exact (msb_ofNat hsmall).1
  · rw [hof, (magnitude_ofNat hsmall).1]
    omega
  · rw [hof, (magnitude_ofNat hsmall).1]
    exact units_pattern_toFloat n

end HasUnits

/-- `n` steps of about `c`, each wrong by `e` at most as long as the values are
below a bound. -/
theorem iterate_near {f : Nat → Nat} {c e bound : Nat} (moves : 0 < c)
    (step : ∀ u, u < bound → f u ≤ u + c + e ∧ u + c ≤ f u + e) {n : Nat}
    (small : n * (c + e) ≤ bound) :
    f^[n] 0 ≤ n * (c + e) ∧ n * c ≤ f^[n] 0 + n * e := by
  induction n with
  | zero => simp
  | succ n ih =>
    rw [Nat.succ_mul] at small
    obtain ⟨hup, hdown⟩ := ih (by omega)
    rw [Function.iterate_succ_apply']
    have hstep := step (f^[n] 0) (by omega)
    rw [Nat.succ_mul, Nat.succ_mul, Nat.succ_mul]
    omega

end RoundedSteps
