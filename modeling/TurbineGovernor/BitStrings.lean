import Mathlib

/-!
# Words as one bit string

Bit `b` of a list of words of `w` bits is bit `b % w` of word `b / w`, counted
from the most significant one.
-/

namespace BitStrings

variable {w : Nat}

def bit (words : List (BitVec w)) (b : Nat) : Bool := ((words[b / w]?).getD 0).getMsbD (b % w)

theorem bit_of_zero {words : List (BitVec w)} (h : ∀ x ∈ words, x = 0) (b : Nat) :
    bit words b = false := by
  simp only [bit]
  cases hget : words[b / w]? with
  | none => simp
  | some x =>
    rw [h x (List.mem_of_getElem? hget)]
    simp

theorem bit_append_left {words : List (BitVec w)} (rest : List (BitVec w)) {b : Nat}
    (h : b / w < words.length) : bit (words ++ rest) b = bit words b := by
  simp only [bit]
  rw [List.getElem?_append_left h]

/-- The bits determine the words. -/
theorem eq_of_bit {words words' : List (BitVec w)} (length : words.length = words'.length)
    (h : ∀ b, bit words b = bit words' b) : words = words' := by
  apply List.ext_getElem length
  intro i hi hi'
  apply BitVec.eq_of_getMsbD_eq
  intro k hk
  have hbit := h (w * i + k)
  have hword : (w * i + k) / w = i := by
    rw [Nat.mul_add_div (by omega), Nat.div_eq_of_lt hk, Nat.add_zero]
  have hrest : (w * i + k) % w = k := by
    rw [Nat.mul_add_mod, Nat.mod_eq_of_lt hk]
  simp only [bit] at hbit
  rw [hword, hrest, List.getElem?_eq_getElem hi, List.getElem?_eq_getElem hi'] at hbit
  exact hbit

/-- Clearing a mask and setting a value in one word. -/
theorem bit_update (words : List (BitVec w)) (i : Nat) (mask val : BitVec w) (hw : 0 < w)
    (b : Nat) :
    bit (words.modify i (fun x => x &&& ~~~mask ||| val)) b =
      if b / w = i ∧ i < words.length then
        (bit words b && !mask.getMsbD (b % w)) || val.getMsbD (b % w)
      else bit words b := by
  simp only [bit]
  rw [List.getElem?_modify]
  by_cases hi : i = b / w
  · subst hi
    by_cases hlt : b / w < words.length
    · have hbit : b % w < w := Nat.mod_lt b hw
      simp [hlt, hbit]
    · simp [hlt]
  · have hne : ¬ (b / w = i) := fun h => hi h.symm
    simp [hi, hne]

/-- A mask of two neighbouring bits, moved so that its last bit is bit `k`. -/
theorem getMsbD_three_shiftLeft (w k i : Nat) (hk : k < w) (hi : i < w) :
    ((3#w) <<< (w - 1 - k)).getMsbD i = decide (i = k ∨ i + 1 = k) := by
  rw [BitVec.getMsbD_shiftLeft, BitVec.getMsbD_eq_getLsbD, BitVec.getLsbD_ofNat]
  have hthree : (3 : Nat) = 2 ^ 2 - 1 := rfl
  rw [hthree, Nat.testBit_two_pow_sub_one, Bool.eq_iff_iff]
  simp only [Bool.and_eq_true, decide_eq_true_eq]
  omega

/-- A number below four, moved so that its last bit is bit `k`. -/
theorem getMsbD_code_shiftLeft (w k i code : Nat) (hk : k < w) (hi : i < w) (hc : code < 4) :
    ((BitVec.ofNat w code) <<< (w - 1 - k)).getMsbD i =
      if i = k then code.testBit 0 else if i + 1 = k then code.testBit 1 else false := by
  rw [BitVec.getMsbD_shiftLeft, BitVec.getMsbD_eq_getLsbD, BitVec.getLsbD_ofNat]
  by_cases hik : i = k
  · subst hik
    have hpos : i + (w - 1 - i) = w - 1 := by omega
    simp [hpos, show 0 < w by omega]
  by_cases hik' : i + 1 = k
  · have hpos : w - 1 - (i + (w - 1 - k)) = 1 := by omega
    have hin : i + (w - 1 - k) < w := by omega
    simp [hik, hik', hpos, hin, show 1 < w by omega]
  rw [if_neg hik, if_neg hik']
  by_cases hin : i + (w - 1 - k) < w
  · have hbig : 2 ≤ w - 1 - (i + (w - 1 - k)) := by omega
    have hlow : code < 2 ^ (w - 1 - (i + (w - 1 - k))) :=
      lt_of_lt_of_le hc (Nat.pow_le_pow_right Nat.two_pos hbig)
    simp [Nat.testBit_lt_two_pow hlow]
  · simp [hin]

/-- A mask of one bit, moved so that it is bit `k`. -/
theorem getMsbD_one_shiftLeft (w k i : Nat) (hk : k < w) (hi : i < w) :
    ((1#w) <<< (w - 1 - k)).getMsbD i = decide (i = k) := by
  rw [BitVec.getMsbD_shiftLeft, BitVec.getMsbD_eq_getLsbD, BitVec.getLsbD_ofNat]
  have hone : (1 : Nat) = 2 ^ 1 - 1 := rfl
  rw [hone, Nat.testBit_two_pow_sub_one, Bool.eq_iff_iff]
  simp only [Bool.and_eq_true, decide_eq_true_eq]
  omega

/-- A word is tested with a mask of one bit. -/
theorem and_one_shiftLeft_ne_zero (v : BitVec w) (k : Nat) (hk : k < w) :
    v &&& (1#w <<< (w - 1 - k)) ≠ 0 ↔ v.getMsbD k = true := by
  constructor
  · intro hne
    by_contra hbit
    apply hne
    apply BitVec.eq_of_getMsbD_eq
    intro i hi
    rw [BitVec.getMsbD_and, getMsbD_one_shiftLeft w k i hk hi]
    by_cases hik : i = k
    · subst hik
      simpa using hbit
    · simp [hik]
  · intro hbit hzero
    have hk' := congrArg (fun x => x.getMsbD k) hzero
    simp only [BitVec.getMsbD_and, getMsbD_one_shiftLeft w k k hk hk, hbit] at hk'
    simp at hk'

/-- Setting bit `k` in its word. -/
theorem bit_set (words : List (BitVec w)) (k b : Nat) (hw : 0 < w) :
    bit (words.modify (k / w) (fun x => x ||| 1#w <<< (w - 1 - k % w))) b =
      (bit words b || decide (b = k ∧ k / w < words.length)) := by
  have hmod : k % w < w := Nat.mod_lt k hw
  have hbit : b % w < w := Nat.mod_lt b hw
  have hsame : b = k ↔ b / w = k / w ∧ b % w = k % w := by
    constructor
    · rintro rfl
      exact ⟨rfl, rfl⟩
    · rintro ⟨hdiv, hrest⟩
      rw [← Nat.div_add_mod b w, hdiv, hrest, Nat.div_add_mod]
  have hupdate := bit_update words (k / w) 0#w (1#w <<< (w - 1 - k % w)) hw b
  simp only [BitVec.not_zero, BitVec.and_allOnes, BitVec.getMsbD_zero, Bool.not_false,
    Bool.and_true, getMsbD_one_shiftLeft w (k % w) (b % w) hmod hbit] at hupdate
  rw [hupdate]
  by_cases hin : b / w = k / w ∧ k / w < words.length
  · rw [if_pos hin]
    simp [hsame, hin]
  · rw [if_neg hin]
    have hout : ¬ (b = k ∧ k / w < words.length) := by
      rintro ⟨hbk, hlt⟩
      exact hin ⟨(hsame.mp hbk).1, hlt⟩
    simp [hout]

/-- The mask of bit `i`, reached from the first bit by shifts. -/
def pick (w i : Nat) : BitVec w := (1#w <<< (w - 1)) >>> i

theorem pick_shift (w i : Nat) : pick w i >>> 1 = pick w (i + 1) := by
  simp only [pick]
  rw [BitVec.shiftRight_add]

theorem pick_read (v : BitVec w) (i : Nat) (hi : i < w) :
    pick w i &&& v ≠ 0 ↔ v.getMsbD i = true := by
  have hpick : pick w i = 1#w <<< (w - 1 - i) := by
    simp only [pick]
    apply BitVec.eq_of_getLsbD_eq
    intro j hj
    have hone : (1 : Nat) = 2 ^ 1 - 1 := rfl
    rw [BitVec.getLsbD_ushiftRight, BitVec.getLsbD_shiftLeft, BitVec.getLsbD_shiftLeft,
      BitVec.getLsbD_ofNat, BitVec.getLsbD_ofNat, hone, Nat.testBit_two_pow_sub_one,
      Nat.testBit_two_pow_sub_one, Bool.eq_iff_iff]
    simp only [Bool.and_eq_true, Bool.not_eq_true', decide_eq_true_eq, decide_eq_false_iff_not]
    omega
  rw [hpick, BitVec.and_comm]
  exact and_one_shiftLeft_ne_zero v i hi

/-- The mask of the bits `i` and `i + 1`. -/
def window (w i : Nat) : BitVec w := (3#w <<< (w - 2)) >>> i

theorem getLsbD_window (w i j : Nat) (hw : 2 ≤ w) :
    (window w i).getLsbD j = decide (w - 2 ≤ i + j ∧ i + j < w) := by
  simp only [window]
  rw [BitVec.getLsbD_ushiftRight, BitVec.getLsbD_shiftLeft, BitVec.getLsbD_ofNat]
  have hthree : (3 : Nat) = 2 ^ 2 - 1 := rfl
  rw [hthree, Nat.testBit_two_pow_sub_one, Bool.eq_iff_iff]
  simp only [Bool.and_eq_true, Bool.not_eq_true', decide_eq_true_eq, decide_eq_false_iff_not]
  omega

theorem window_shift (w i : Nat) : window w i >>> 2 = window w (i + 2) := by
  simp only [window]
  rw [BitVec.shiftRight_add]

theorem window_read (v : BitVec w) (i : Nat) (hi : i + 1 < w) :
    ((window w i &&& v) >>> (w - 2 - i)).toNat =
      2 * (v.getMsbD i).toNat + (v.getMsbD (i + 1)).toNat := by
  have hmod : ((window w i &&& v) >>> (w - 2 - i)) = (v >>> (w - 2 - i)) &&& 3#w := by
    apply BitVec.eq_of_getLsbD_eq
    intro j hj
    have hthree : (3#w) = BitVec.ofNat w (2 ^ 2 - 1) := rfl
    rw [BitVec.getLsbD_ushiftRight, BitVec.getLsbD_and, BitVec.getLsbD_and,
      BitVec.getLsbD_ushiftRight, getLsbD_window w i _ (by omega), hthree,
      BitVec.getLsbD_ofNat, Nat.testBit_two_pow_sub_one, Bool.and_comm]
    congr 1
    rw [Bool.eq_iff_iff]
    simp only [Bool.and_eq_true, decide_eq_true_eq]
    omega
  have hfour : 3 < 2 ^ w := lt_of_lt_of_le (by decide : 3 < 2 ^ 2)
    (Nat.pow_le_pow_right Nat.two_pos (by omega))
  have hhigh : v.getMsbD i = v.toNat.testBit (w - 2 - i + 1) := by
    rw [BitVec.getMsbD_eq_getLsbD, show w - 1 - i = w - 2 - i + 1 by omega]
    simp [show i < w by omega, BitVec.getLsbD]
  have hlow : v.getMsbD (i + 1) = v.toNat.testBit (w - 2 - i) := by
    rw [BitVec.getMsbD_eq_getLsbD, show w - 1 - (i + 1) = w - 2 - i by omega]
    simp [hi, BitVec.getLsbD]
  rw [hmod, hhigh, hlow, BitVec.toNat_and, BitVec.toNat_ushiftRight, BitVec.toNat_ofNat,
    Nat.mod_eq_of_lt hfour, show 3 = 2 ^ 2 - 1 from rfl, Nat.and_two_pow_sub_one_eq_mod,
    Nat.shiftRight_eq_div_pow, Nat.toNat_testBit, Nat.toNat_testBit, Nat.pow_succ 2 (w - 2 - i),
    ← Nat.div_div_eq_div_mul]
  omega

theorem window_eq_zero (v : BitVec w) (i : Nat) (hi : i + 1 < w) :
    window w i &&& v = 0 ↔ ((window w i &&& v) >>> (w - 2 - i)).toNat = 0 := by
  constructor
  · intro h
    rw [h]
    simp
  · intro h
    apply BitVec.eq_of_getLsbD_eq
    intro j hj
    have hzero : (window w i &&& v) >>> (w - 2 - i) = 0#w :=
      BitVec.eq_of_toNat_eq (by simpa using h)
    rw [BitVec.getLsbD_and, getLsbD_window w i j (by omega)]
    by_cases hin : w - 2 ≤ i + j
    · have hbit := congrArg (fun x => x.getLsbD (j - (w - 2 - i))) hzero
      simp only [BitVec.getLsbD_ushiftRight, BitVec.getLsbD_and] at hbit
      rw [show w - 2 - i + (j - (w - 2 - i)) = j by omega, getLsbD_window w i j (by omega)] at hbit
      simpa using hbit
    · simp [hin]

/-- When each word goes through the `w` numbers that it holds, as far as there
are any, the words go through all numbers in order. -/
theorem foldl_words {V R : Type} {w N : Nat} {words : List V} (turn : R → V × Nat → R)
    (step : R → Nat → R) (enough : N ≤ w * words.length)
    (hturn : ∀ (j : Nat) (v : V) (rep : R), words[j]? = some v →
      turn rep (v, j) = (List.range' (w * j) (min w (N - w * j))).foldl step rep) (rep : R) :
    words.zipIdx.foldl turn rep = (List.range N).foldl step rep := by
  -- the words that remain, behind those already read
  have hrest : ∀ (rest read : List V) (rep : R), words = read ++ rest →
      (rest.zipIdx read.length).foldl turn rep =
        (List.range' (w * read.length) (N - w * read.length)).foldl step rep := by
    intro rest
    induction rest with
    | nil =>
      intro read rep hsplit
      rw [hsplit, List.append_nil] at enough
      rw [Nat.sub_eq_zero_of_le enough]
      rfl
    | cons v rest ih =>
      intro read rep hsplit
      have hv : words[read.length]? = some v := by simp [hsplit]
      have hnext := ih (read ++ [v]) (turn rep (v, read.length)) (by simp [hsplit])
      rw [List.length_append, List.length_singleton, Nat.mul_add, Nat.mul_one] at hnext
      rw [List.zipIdx_cons, List.foldl_cons, hnext, hturn _ v rep hv, ← List.foldl_append]
      congr 1
      by_cases hfull : w * read.length + w ≤ N
      · rw [Nat.min_eq_left (by omega), show N - w * read.length =
          w + (N - (w * read.length + w)) by omega]
        exact List.range'_append_1
      · rw [Nat.min_eq_right (by omega), show N - (w * read.length + w) = 0 by omega]
        exact List.append_nil _
  rw [List.range_eq_range']
  exact hrest words [] rep rfl

end BitStrings
