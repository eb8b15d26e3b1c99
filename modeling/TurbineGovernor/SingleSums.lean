import TurbineGovernor.RegulatorAlarms

/-!
# Order and sums of single precision values

The patterns are a sign and a magnitude, so that numbers compare as the
integers that these stand for. A NaN compares with nothing.

A finite value is a whole number of units of 2^-149. A sum is taken exactly in
these units and rounded to 24 significant bits, halves to the even neighbour.
Rounding is monotone, so that a bound on a sum is a bound on its first term.
-/

namespace SingleOrder
open CommonTypes

def magnitude (x : Single) : Nat := (x &&& 0x7fffffff#32).toNat

/-- Zeros of either sign are the same key. -/
def key (x : Single) : Int := if x.msb then -(magnitude x : Int) else (magnitude x : Int)

/-- The comparison `<` on floats. -/
def lt (x y : Single) : Bool := !Single.isNaN x && !Single.isNaN y && decide (key x < key y)

/-- The comparison `<=` on floats. -/
def le (x y : Single) : Bool := !Single.isNaN x && !Single.isNaN y && decide (key x ≤ key y)

theorem lt_iff (x y : Single) :
    lt x y = true ↔ Single.isNaN x = false ∧ Single.isNaN y = false ∧ key x < key y := by
  simp [lt, and_assoc]

theorem le_iff (x y : Single) :
    le x y = true ↔ Single.isNaN x = false ∧ Single.isNaN y = false ∧ key x ≤ key y := by
  simp [le, and_assoc]

theorem le_refl {x : Single} (hx : Single.isNaN x = false) : le x x = true :=
  (le_iff x x).mpr ⟨hx, hx, Int.le_refl _⟩

theorem not_lt {x y : Single} (hx : Single.isNaN x = false) (hy : Single.isNaN y = false) :
    lt x y = false ↔ le y x = true := by
  rw [← Bool.not_eq_true, lt_iff, le_iff]
  constructor
  · intro h
    exact ⟨hy, hx, Int.not_lt.mp (fun hlt => h ⟨hx, hy, hlt⟩)⟩
  · rintro ⟨_, _, hle⟩ ⟨_, _, hlt⟩
    exact absurd hle (Int.not_le.mpr hlt)

end SingleOrder

namespace SingleSums
open CommonTypes SingleOrder
open RegulatorAlarms (toFloat toFloat_le)

/-- The units of a finite pattern without its sign; the exponents 0 and 1 have
the same unit. -/
def units (p : Nat) : Nat :=
  if p < 2 ^ 24 then p else (p % 2 ^ 23 + 2 ^ 23) * 2 ^ (p / 2 ^ 23 - 1)

/-- The pattern of a number of units of 24 significant bits. -/
def pattern (m : Nat) : Nat := (m.log2 - 23) * 2 ^ 23 + m / 2 ^ (m.log2 - 23)

/-- The pattern of infinity. -/
def inf : Nat := 0x7f800000

/-- Rounded units above the largest finite value are infinity. -/
def round (m : Nat) : Nat := min (pattern (toFloat m)) inf

theorem units_mono {p q : Nat} (h : p ≤ q) : units p ≤ units q := by
  simp only [units]
  by_cases hq : q < 2 ^ 24
  · rw [if_pos hq, if_pos (lt_of_le_of_lt h hq)]
    exact h
  · rw [if_neg hq]
    have hqdiv := Nat.div_add_mod q (2 ^ 23)
    have hqmod := Nat.mod_lt q (by decide : 0 < 2 ^ 23)
    obtain ⟨e, he⟩ : ∃ e, q / 2 ^ 23 - 1 = e + 1 := ⟨q / 2 ^ 23 - 2, by omega⟩
    rw [he]
    by_cases hp : p < 2 ^ 24
    · rw [if_pos hp]
      have hpow : 2 ≤ 2 ^ (e + 1) := by
        rw [pow_succ]
        have := Nat.one_le_two_pow (n := e)
        omega
      calc p ≤ 2 ^ 23 * 2 := by omega
        _ ≤ (q % 2 ^ 23 + 2 ^ 23) * 2 ^ (e + 1) := Nat.mul_le_mul (by omega) hpow
    · rw [if_neg hp, ← he]
      have hpmod := Nat.mod_lt p (by decide : 0 < 2 ^ 23)
      have hpdiv := Nat.div_add_mod p (2 ^ 23)
      rcases Nat.lt_or_eq_of_le (Nat.div_le_div_right (c := 2 ^ 23) h) with hlt | heq
      · -- the smaller exponent leaves room for a factor of two
        have hexp : p / 2 ^ 23 - 1 + 1 ≤ q / 2 ^ 23 - 1 := by omega
        calc (p % 2 ^ 23 + 2 ^ 23) * 2 ^ (p / 2 ^ 23 - 1)
            ≤ 2 ^ 24 * 2 ^ (p / 2 ^ 23 - 1) := Nat.mul_le_mul_right _ (by omega)
          _ = 2 ^ 23 * 2 ^ (p / 2 ^ 23 - 1 + 1) := by ring
          _ ≤ (q % 2 ^ 23 + 2 ^ 23) * 2 ^ (q / 2 ^ 23 - 1) :=
            Nat.mul_le_mul (by omega) (Nat.pow_le_pow_right Nat.two_pos hexp)
      · rw [heq]
        exact Nat.mul_le_mul_right _ (by omega)

theorem log2_mono {m n : Nat} (h : m ≤ n) : m.log2 ≤ n.log2 := by
  rcases Nat.eq_zero_or_pos m with rfl | hm
  · rw [Nat.log2_zero]
    exact Nat.zero_le _
  · exact (Nat.le_log2 (by omega)).mpr (le_trans (Nat.log2_self_le (by omega)) h)

theorem pattern_mono {m n : Nat} (h : m ≤ n) : pattern m ≤ pattern n := by
  simp only [pattern]
  rcases Nat.lt_or_eq_of_le (Nat.sub_le_sub_right (log2_mono h) 23) with hlt | heq
  · have hm : m / 2 ^ (m.log2 - 23) < 2 ^ 24 := by
      apply Nat.div_lt_of_lt_mul
      have hself := Nat.lt_log2_self (n := m)
      rw [← Nat.pow_add]
      exact lt_of_lt_of_le hself (Nat.pow_le_pow_right Nat.two_pos (by omega))
    have hn : 2 ^ 23 ≤ n / 2 ^ (n.log2 - 23) := by
      rw [Nat.le_div_iff_mul_le (Nat.two_pow_pos _), ← Nat.pow_add,
        show 23 + (n.log2 - 23) = n.log2 by omega]
      exact Nat.log2_self_le (fun hzero => by simp [hzero] at hlt)
    omega
  · rw [heq]
    exact Nat.add_le_add_left (Nat.div_le_div_right h) _

theorem two_pow_log2_le_toFloat {n : Nat} (hn : n ≠ 0) : 2 ^ n.log2 ≤ toFloat n := by
  have hself := Nat.log2_self_le hn
  have hdown : 2 ^ n.log2 ≤ n / 2 ^ (n.log2 + 1 - 24) * 2 ^ (n.log2 + 1 - 24) := by
    have hsplit : 2 ^ n.log2 = 2 ^ (n.log2 - (n.log2 + 1 - 24)) * 2 ^ (n.log2 + 1 - 24) := by
      rw [← Nat.pow_add]
      congr 1
      omega
    have hquotient : 2 ^ (n.log2 - (n.log2 + 1 - 24)) ≤ n / 2 ^ (n.log2 + 1 - 24) := by
      rw [Nat.le_div_iff_mul_le (Nat.two_pow_pos _), ← hsplit]
      exact hself
    rw [hsplit]
    exact Nat.mul_le_mul_right _ hquotient
  simp only [toFloat]
  split
  · exact hdown
  · exact le_trans hdown (Nat.mul_le_mul_right _ (Nat.le_succ _))

theorem toFloat_mono {m n : Nat} (h : m ≤ n) : toFloat m ≤ toFloat n := by
  rcases Nat.lt_or_eq_of_le (log2_mono h) with hlt | heq
  · have hn : n ≠ 0 := fun hzero => by simp [hzero] at hlt
    calc toFloat m ≤ 2 ^ (m.log2 + 1) := toFloat_le Nat.lt_log2_self
      _ ≤ 2 ^ n.log2 := Nat.pow_le_pow_right Nat.two_pos hlt
      _ ≤ toFloat n := two_pow_log2_le_toFloat hn
  · -- the same grid: the quotients decide, or the rests
    simp only [toFloat, heq]
    generalize 2 ^ (n.log2 + 1 - 24) = c
    have hm := Nat.div_add_mod m c
    have hn := Nat.div_add_mod n c
    rcases Nat.lt_or_eq_of_le (Nat.div_le_div_right (c := c) h) with hquotient | hquotient
    · have hstep := Nat.mul_le_mul_right c (Nat.succ_le_of_lt hquotient)
      have hmc := Nat.mul_le_mul_right c (Nat.le_succ (m / c))
      have hnc := Nat.mul_le_mul_right c (Nat.le_succ (n / c))
      simp only [Nat.succ_eq_add_one] at hstep hmc hnc
      split <;> split <;> omega
    · have hrest : m % c ≤ n % c := by
        rw [hquotient] at hm
        omega
      have hup := Nat.mul_le_mul_right c (Nat.le_succ (n / c))
      rw [hquotient]
      split
      · split
        · exact Nat.le_refl _
        · exact hup
      · rename_i hm'
        rw [if_neg (fun hn' => hm' (by omega))]

theorem round_mono {m n : Nat} (h : m ≤ n) : round m ≤ round n :=
  min_le_min_right inf (pattern_mono (toFloat_mono h))

/-- A function of magnitudes on signed numbers. -/
def odd (f : Nat → Nat) (k : Int) : Int := if k < 0 then -(f k.natAbs : Int) else (f k.natAbs : Int)

theorem odd_mono {f : Nat → Nat} (mono : ∀ {m n}, m ≤ n → f m ≤ f n) {j k : Int} (h : j ≤ k) :
    odd f j ≤ odd f k := by
  simp only [odd]
  split <;> split
  · have hle := mono (m := k.natAbs) (n := j.natAbs) (by omega)
    omega
  · omega
  · omega
  · have hle := mono (m := j.natAbs) (n := k.natAbs) (by omega)
    omega

theorem odd_le {f : Nat → Nat} {b : Nat} (h : ∀ m, f m ≤ b) (k : Int) :
    -(b : Int) ≤ odd f k ∧ odd f k ≤ b := by
  have hb := h k.natAbs
  simp only [odd]
  split <;> omega

def isInf (x : Single) : Bool := decide (magnitude x = inf)

/-- A finite value in units. -/
def toUnits (x : Single) : Int := odd units (key x)

/-- A rounded number of units; a zero keeps its sign apart. -/
def ofUnits (negZero : Bool) (s : Int) : Single :=
  if s < 0 ∨ (s = 0 ∧ negZero) then BitVec.ofNat 32 (2 ^ 31 + round s.natAbs)
  else BitVec.ofNat 32 (round s.natAbs)

/-- The addition of floats. Which NaN a NaN becomes is not modelled. -/
def add (x y : Single) : Single :=
  if Single.isNaN x || Single.isNaN y then 0x7fc00000
  else if isInf x then if isInf y && x != y then 0x7fc00000 else x
  else if isInf y then y
  else ofUnits (x.msb && y.msb) (toUnits x + toUnits y)

/-- The other sign. -/
def neg (x : Single) : Single := x ^^^ 0x80000000#32

def sub (x y : Single) : Single := add x (neg y)

theorem magnitude_eq (x : Single) : magnitude x = x.toNat % 2 ^ 31 := by
  rw [magnitude, BitVec.toNat_and]
  exact Nat.and_two_pow_sub_one_eq_mod x.toNat 31

theorem isNaN_iff (x : Single) : Single.isNaN x = true ↔ inf < magnitude x := by
  simp only [Single.isNaN, decide_eq_true_eq, gt_iff_lt, BitVec.lt_def]
  exact Iff.rfl

theorem isNaN_false_iff (x : Single) : Single.isNaN x = false ↔ magnitude x ≤ inf := by
  rw [← Bool.not_eq_true, isNaN_iff, Nat.not_lt]

theorem natAbs_key (x : Single) : (key x).natAbs = magnitude x := by
  simp only [key]
  split <;> omega

theorem magnitude_ofNat {p : Nat} (hp : p < 2 ^ 31) :
    magnitude (BitVec.ofNat 32 p) = p ∧ magnitude (BitVec.ofNat 32 (2 ^ 31 + p)) = p := by
  rw [magnitude_eq, magnitude_eq, BitVec.toNat_ofNat, BitVec.toNat_ofNat]
  omega

theorem msb_ofNat {p : Nat} (hp : p < 2 ^ 31) :
    (BitVec.ofNat 32 p).msb = false ∧ (BitVec.ofNat 32 (2 ^ 31 + p)).msb = true := by
  rw [BitVec.msb_eq_decide, BitVec.msb_eq_decide, BitVec.toNat_ofNat, BitVec.toNat_ofNat]
  simp only [decide_eq_false_iff_not, decide_eq_true_eq]
  omega

theorem round_le (m : Nat) : round m ≤ inf := min_le_right _ _

theorem key_ofUnits (negZero : Bool) (s : Int) : key (ofUnits negZero s) = odd round s := by
  have hround : round s.natAbs < 2 ^ 31 := lt_of_le_of_lt (round_le _) (by decide)
  have hzero : round 0 = 0 := by decide
  simp only [ofUnits, odd, key]
  split
  · rename_i hsign
    rw [(msb_ofNat hround).2, (magnitude_ofNat hround).2]
    rcases hsign with hneg | ⟨rfl, _⟩
    · rw [if_pos rfl, if_pos hneg]
    · simp [hzero]
  · rename_i hsign
    rw [(msb_ofNat hround).1, (magnitude_ofNat hround).1, if_neg Bool.false_ne_true,
      if_neg (fun hneg => hsign (Or.inl hneg))]

/-- The key of a sum with a finite second term. -/
def addKey (k u : Int) : Int := if k.natAbs = inf then k else odd round (odd units k + u)

theorem addKey_mono {j k : Int} (hj : j.natAbs ≤ inf) (hk : k.natAbs ≤ inf) (h : j ≤ k) (u : Int) :
    addKey j u ≤ addKey k u := by
  have hbound := odd_le round_le
  simp only [addKey]
  split
  · split
    · exact h
    · have hk' := hbound (odd units k + u)
      omega
  · split
    · have hj' := hbound (odd units j + u)
      omega
    · exact odd_mono round_mono (Int.add_le_add_right (odd_mono units_mono h) u)

section Sums
variable {x y c : Single}

theorem key_add (hx : Single.isNaN x = false) (hc : magnitude c < inf) :
    Single.isNaN (add x c) = false ∧ key (add x c) = addKey (key x) (toUnits c) := by
  have hcnan : Single.isNaN c = false := (isNaN_false_iff c).mpr hc.le
  have hcinf : isInf c = false := decide_eq_false hc.ne
  have hadd : add x c =
      if isInf x then x else ofUnits (x.msb && c.msb) (toUnits x + toUnits c) := by
    simp only [add, hx, hcnan, hcinf, Bool.or_false, Bool.false_and, Bool.false_eq_true, if_false]
  rw [hadd, addKey, natAbs_key]
  by_cases hinf : magnitude x = inf
  · rw [isInf, decide_eq_true hinf, if_pos rfl, if_pos hinf]
    exact ⟨hx, rfl⟩
  · rw [isInf, decide_eq_false hinf, if_neg Bool.false_ne_true, if_neg hinf]
    have hkey := key_ofUnits (x.msb && c.msb) (toUnits x + toUnits c)
    refine ⟨?_, hkey⟩
    rw [isNaN_false_iff, ← natAbs_key, hkey]
    have hbound := odd_le round_le (toUnits x + toUnits c)
    omega

theorem isNaN_add (hx : Single.isNaN x = true) (c : Single) : Single.isNaN (add x c) = true := by
  rw [add, hx, Bool.true_or, if_pos rfl]
  decide

theorem add_mono (hc : magnitude c < inf) (h : le x y = true) :
    le (add x c) (add y c) = true := by
  obtain ⟨hx, hy, hkey⟩ := (le_iff x y).mp h
  obtain ⟨hxc, hxkey⟩ := key_add hx hc
  obtain ⟨hyc, hykey⟩ := key_add hy hc
  rw [le_iff, hxkey, hykey]
  refine ⟨hxc, hyc, addKey_mono ?_ ?_ hkey _⟩
  · rw [natAbs_key]
    exact (isNaN_false_iff x).mp hx
  · rw [natAbs_key]
    exact (isNaN_false_iff y).mp hy

theorem le_trans' {x y z : Single} (hxy : le x y = true) (hyz : le y z = true) : le x z = true := by
  rw [le_iff] at *
  exact ⟨hxy.1, hyz.2.1, hxy.2.2.trans hyz.2.2⟩

/-- A lower bound on a sum: the bound on the first term where the sum reaches it
while the value just below misses it. -/
theorem le_add_iff {bound : Single} (least below : Single) (hc : magnitude c < inf)
    (next : key below + 1 = key least) (hbelow : Single.isNaN below = false)
    (hleast : Single.isNaN least = false) (reaches : le bound (add least c) = true)
    (misses : le bound (add below c) = false) (x : Single) :
    le bound (add x c) = true ↔ le least x = true := by
  constructor
  · intro h
    by_contra hless
    have hx : Single.isNaN x = false := by
      by_contra hnan
      have hsum := isNaN_add (Bool.not_eq_false _ ▸ hnan) c
      rw [((le_iff _ _).mp h).2.1] at hsum
      cases hsum
    have hxbelow : le x below = true := by
      rw [le_iff] at hless ⊢
      refine ⟨hx, hbelow, ?_⟩
      by_contra hgt
      exact hless ⟨hleast, hx, by omega⟩
    rw [le_trans' h (add_mono hc hxbelow)] at misses
    cases misses
  · exact fun h => le_trans' reaches (add_mono hc h)

/-- The same for an upper bound. -/
theorem add_le_iff {bound : Single} (greatest above : Single) (hc : magnitude c < inf)
    (next : key greatest + 1 = key above) (habove : Single.isNaN above = false)
    (hgreatest : Single.isNaN greatest = false) (reaches : le (add greatest c) bound = true)
    (misses : le (add above c) bound = false) (x : Single) :
    le (add x c) bound = true ↔ le x greatest = true := by
  constructor
  · intro h
    by_contra hmore
    have hx : Single.isNaN x = false := by
      by_contra hnan
      have hsum := isNaN_add (Bool.not_eq_false _ ▸ hnan) c
      rw [((le_iff _ _).mp h).1] at hsum
      cases hsum
    have hxabove : le above x = true := by
      rw [le_iff] at hmore ⊢
      refine ⟨habove, hx, ?_⟩
      by_contra hlt
      exact hmore ⟨hx, hgreatest, by omega⟩
    rw [le_trans' (add_mono hc hxabove) h] at misses
    cases misses
  · exact fun h => le_trans' (add_mono hc h) reaches

end Sums

example : add 0xc1300000 0x3f800000 = 0xc1200000 := by decide +kernel
example : add 0x42820000 0x3c1374bc = 0x4282049c := by decide +kernel

end SingleSums
