import Mathlib

/-!
# Affine scales and truncation

A value on one scale is carried to another, cut to an integer there and carried
back. The cut moves it by less than one unit, so that what comes back differs
by less than one step of the scale it came from, and the order of values is
kept.
-/

namespace AffineScales

universe u
variable {K : Type u} [Field K]

/-- The affine map of the interval from `oMin` to `oMax` onto that from `dMin`
to `dMax`. -/
def scale (dMin dMax oMin oMax v : K) : K := (v - oMin) / (oMax - oMin) * (dMax - dMin) + dMin

theorem scale_min (dMin dMax oMin oMax : K) : scale dMin dMax oMin oMax oMin = dMin := by
  rw [scale, sub_self, zero_div, zero_mul, zero_add]

theorem scale_max {oMin oMax : K} (ho : oMin ≠ oMax) (dMin dMax : K) :
    scale dMin dMax oMin oMax oMax = dMax := by
  have hne : oMax - oMin ≠ 0 := sub_ne_zero.mpr (Ne.symm ho)
  rw [scale, div_self hne, one_mul, sub_add_cancel]

theorem scale_sub_scale (dMin dMax oMin oMax v v' : K) :
    scale dMin dMax oMin oMax v - scale dMin dMax oMin oMax v' =
      (v - v') * ((dMax - dMin) / (oMax - oMin)) := by
  simp only [scale]
  ring

/-- Scaling back. -/
theorem scale_scale {dMin dMax oMin oMax : K} (hd : dMin ≠ dMax) (ho : oMin ≠ oMax) (v : K) :
    scale oMin oMax dMin dMax (scale dMin dMax oMin oMax v) = v := by
  have hdne : dMax - dMin ≠ 0 := sub_ne_zero.mpr (Ne.symm hd)
  have hone : oMax - oMin ≠ 0 := sub_ne_zero.mpr (Ne.symm ho)
  simp only [scale]
  rw [add_sub_cancel_right, mul_div_assoc, div_self hdne, mul_one, div_mul_cancel₀ _ hone,
    sub_add_cancel]

section Order
variable [LinearOrder K] [IsStrictOrderedRing K]

theorem scale_mono {dMin dMax oMin oMax : K} (hd : dMin ≤ dMax) (ho : oMin < oMax) :
    Monotone (scale dMin dMax oMin oMax) := by
  intro v v' hle
  have hstep : 0 ≤ (dMax - dMin) / (oMax - oMin) :=
    div_nonneg (sub_nonneg.mpr hd) (sub_nonneg.mpr ho.le)
  rw [← sub_nonneg, scale_sub_scale]
  exact mul_nonneg (sub_nonneg.mpr hle) hstep

theorem scale_mem_Icc {dMin dMax oMin oMax v : K} (hd : dMin ≤ dMax) (ho : oMin < oMax)
    (hv : v ∈ Set.Icc oMin oMax) : scale dMin dMax oMin oMax v ∈ Set.Icc dMin dMax := by
  have hmin := scale_mono hd ho hv.1
  have hmax := scale_mono hd ho hv.2
  rw [scale_min] at hmin
  rw [scale_max ho.ne] at hmax
  exact ⟨hmin, hmax⟩

theorem scale_le_iff {dMin dMax oMin oMax : K} (hd : dMin < dMax) (ho : oMin < oMax) (x v : K) :
    scale dMin dMax oMin oMax x ≤ v ↔ x ≤ scale oMin oMax dMin dMax v := by
  constructor
  · intro h
    have hmono := scale_mono ho.le hd h
    rwa [scale_scale hd.ne ho.ne] at hmono
  · intro h
    have hmono := scale_mono hd.le ho h
    rwa [scale_scale ho.ne hd.ne] at hmono

theorem le_scale_iff {dMin dMax oMin oMax : K} (hd : dMin < dMax) (ho : oMin < oMax) (x v : K) :
    v ≤ scale dMin dMax oMin oMax x ↔ scale oMin oMax dMin dMax v ≤ x :=
  (scale_le_iff ho hd v x).symm

variable [FloorRing K]

def trunc (x : K) : ℤ := if 0 ≤ x then ⌊x⌋ else ⌈x⌉

theorem trunc_intCast (n : ℤ) : trunc (n : K) = n := by
  simp only [trunc]
  split
  · exact Int.floor_intCast n
  · exact Int.ceil_intCast n

omit [IsStrictOrderedRing K] in
theorem trunc_mono : Monotone (trunc : K → ℤ) := by
  intro x y hle
  simp only [trunc]
  by_cases hx : 0 ≤ x
  · rw [if_pos hx, if_pos (hx.trans hle)]
    exact Int.floor_mono hle
  · rw [if_neg hx]
    by_cases hy : 0 ≤ y
    · -- the two sides of zero
      rw [if_pos hy]
      have hceil : ⌈x⌉ ≤ 0 := Int.ceil_le.mpr (by exact_mod_cast (not_le.mp hx).le)
      exact hceil.trans (Int.floor_nonneg.mpr hy)
    · rw [if_neg hy]
      exact Int.ceil_mono hle

theorem abs_trunc_sub_lt (x : K) : |(trunc x : K) - x| < 1 := by
  simp only [trunc]
  split
  · rw [abs_sub_comm, abs_lt]
    have hfloor := Int.floor_le x
    have hlt := Int.lt_floor_add_one x
    constructor <;> linarith
  · rw [abs_lt]
    have hceil := Int.le_ceil x
    have hlt := Int.ceil_lt_add_one x
    constructor <;> linarith

/-- Integer bounds survive the cut. -/
theorem trunc_mem_Icc {lo hi : ℤ} {x : K} (hx : x ∈ Set.Icc (lo : K) hi) :
    trunc x ∈ Set.Icc lo hi := by
  have hlo := trunc_mono hx.1
  have hhi := trunc_mono hx.2
  rw [trunc_intCast] at hlo hhi
  exact ⟨hlo, hhi⟩

/-- A value between `eMin` and `eMax` after it has been an integer on the scale
from `hMin` to `hMax`. -/
def requantised (hMin hMax eMin eMax v : K) : K :=
  scale eMin eMax hMin hMax (trunc (scale hMin hMax eMin eMax v) : K)

theorem requantised_mono {hMin hMax eMin eMax : K} (hh : hMin < hMax) (he : eMin < eMax) :
    Monotone (requantised hMin hMax eMin eMax) := by
  intro v v' hle
  exact scale_mono he.le hh (Int.cast_mono (trunc_mono (scale_mono hh.le he hle)))

theorem abs_requantised_sub_lt {hMin hMax eMin eMax : K} (hh : hMin < hMax) (he : eMin < eMax)
    (v : K) : |requantised hMin hMax eMin eMax v - v| < (eMax - eMin) / (hMax - hMin) := by
  have hstep : 0 < (eMax - eMin) / (hMax - hMin) :=
    div_pos (sub_pos.mpr he) (sub_pos.mpr hh)
  have hback := scale_scale hh.ne he.ne v
  have hdiff : requantised hMin hMax eMin eMax v - v =
      ((trunc (scale hMin hMax eMin eMax v) : K) - scale hMin hMax eMin eMax v) *
        ((eMax - eMin) / (hMax - hMin)) := by
    rw [← scale_sub_scale, hback]
    rfl
  rw [hdiff, abs_mul, abs_of_pos hstep]
  exact mul_lt_of_lt_one_left hstep (abs_trunc_sub_lt _)

/-- The result leaves the interval by less than a step. -/
theorem requantised_mem_Icc {hMin hMax eMin eMax v : K} (hh : hMin < hMax) (he : eMin < eMax)
    (hv : v ∈ Set.Icc eMin eMax) :
    requantised hMin hMax eMin eMax v ∈ Set.Icc (eMin - (eMax - eMin) / (hMax - hMin))
      (eMax + (eMax - eMin) / (hMax - hMin)) := by
  obtain ⟨hlow, hhigh⟩ := abs_lt.mp (abs_requantised_sub_lt hh he v)
  obtain ⟨hmin, hmax⟩ := hv
  constructor <;> linarith

end Order

end AffineScales
