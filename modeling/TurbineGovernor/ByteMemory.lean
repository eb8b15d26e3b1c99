import TurbineGovernor.ByteOrder

/-!
# Byte addressed memory

A memory is one byte for each address. Its bits are numbered in order, bit `b`
being bit `b % 8` of byte `b / 8`, counted from the most significant one.
-/

namespace ByteMemory
open ByteOrder

abbrev Memory : Type := Nat → Byte

def bitAt (m : Memory) (b : Nat) : Bool := (m (b / 8)).getMsbD (b % 8)

/-- The bytes of `bs` from address `p` on. -/
def store (m : Memory) (p : Nat) (bs : List Byte) : Memory :=
  fun a => if p ≤ a then (bs[a - p]?).getD (m a) else m a

def load (m : Memory) (p n : Nat) : List Byte := (List.range n).map (fun i => m (p + i))

@[simp] theorem length_load (m : Memory) (p n : Nat) : (load m p n).length = n := by
  simp [load]

theorem store_outside (m : Memory) (p : Nat) (bs : List Byte) {a : Nat}
    (h : ¬ (p ≤ a ∧ a < p + bs.length)) : store m p bs a = m a := by
  simp only [store]
  by_cases hp : p ≤ a
  · have hnone : bs[a - p]? = none := List.getElem?_eq_none_iff.mpr (by omega)
    rw [if_pos hp, hnone]
    rfl
  · rw [if_neg hp]

theorem store_inside (m m' : Memory) (p : Nat) (bs : List Byte) {a : Nat}
    (h : p ≤ a ∧ a < p + bs.length) : store m p bs a = store m' p bs a := by
  have hsome : bs[a - p]? = some bs[a - p] := List.getElem?_eq_getElem (by omega)
  simp only [store]
  rw [if_pos h.1, if_pos h.1, hsome]
  rfl

theorem store_singleton (m : Memory) (p : Nat) (x : Byte) : store m p [x] p = x := by
  simp [store]

theorem load_store (m : Memory) (p : Nat) (bs : List Byte) :
    load (store m p bs) p bs.length = bs := by
  apply List.ext_getElem (length_load _ _ _)
  intro i hi hi'
  simp [load, store, hi']

theorem load_congr {m m' : Memory} {p n : Nat} (h : ∀ a, p ≤ a → a < p + n → m a = m' a) :
    load m p n = load m' p n := by
  apply List.map_congr_left
  intro i hi
  have hlt := List.mem_range.mp hi
  exact h (p + i) (Nat.le_add_right p i) (Nat.add_lt_add_left hlt p)

/-- Equal loads have equal bytes. -/
theorem load_inj {m m' : Memory} {p n : Nat} (h : load m p n = load m' p n) {a : Nat} (hlow : p ≤ a)
    (hhigh : a < p + n) : m a = m' a := by
  have hbyte := List.map_inj_left.mp h (a - p) (List.mem_range.mpr (by omega))
  rw [Nat.add_sub_cancel' hlow] at hbyte
  exact hbyte

theorem bitAt_store_outside (m : Memory) (p : Nat) (bs : List Byte) {b : Nat}
    (h : ¬ (p ≤ b / 8 ∧ b / 8 < p + bs.length)) : bitAt (store m p bs) b = bitAt m b :=
  congrArg (fun x => BitVec.getMsbD x (b % 8)) (store_outside m p bs h)

theorem bitAt_store_inside (m m' : Memory) (p : Nat) (bs : List Byte) {b : Nat}
    (h : p ≤ b / 8 ∧ b / 8 < p + bs.length) :
    bitAt (store m p bs) b = bitAt (store m' p bs) b :=
  congrArg (fun x => BitVec.getMsbD x (b % 8)) (store_inside m m' p bs h)

theorem bitAt_store_singleton (m : Memory) {p : Nat} (x : Byte) {b : Nat} (hb : b / 8 = p) :
    bitAt (store m p [x]) b = x.getMsbD (b % 8) := by
  rw [bitAt, hb, store_singleton]

theorem getMsbD_eq_bitAt (m : Memory) (a : Nat) {i : Nat} (hi : i < 8) :
    (m a).getMsbD i = bitAt m (8 * a + i) := by
  rw [bitAt, show (8 * a + i) / 8 = a by omega, show (8 * a + i) % 8 = i by omega]

/-- A byte is the bits in it. -/
theorem byte_congr {m m' : Memory} {a : Nat} (h : ∀ b, b / 8 = a → bitAt m b = bitAt m' b) :
    m a = m' a := by
  apply BitVec.eq_of_getMsbD_eq
  intro i hi
  rw [getMsbD_eq_bitAt m a hi, getMsbD_eq_bitAt m' a hi]
  exact h (8 * a + i) (by omega)

/-- The low `n` bits of a byte. -/
def lowBits (n : Nat) : Byte := BitVec.ofNat 8 (2 ^ n - 1)

theorem getLsbD_lowBits (n j : Nat) (hj : j < 8) : (lowBits n).getLsbD j = decide (j < n) := by
  simp only [lowBits]
  rw [BitVec.getLsbD_ofNat, Nat.testBit_two_pow_sub_one]
  simp [hj]

/-- The field of `n` bits that starts at bit `c` of a byte. -/
theorem getMsbD_field {n c i : Nat} (h : c + n ≤ 8) (hi : i < 8) :
    (lowBits n <<< (8 - c - n)).getMsbD i = decide (c ≤ i ∧ i < c + n) := by
  rw [BitVec.getMsbD_eq_getLsbD, BitVec.getLsbD_shiftLeft, getLsbD_lowBits _ _ (by omega),
    Bool.eq_iff_iff]
  simp only [Bool.and_eq_true, Bool.not_eq_true', decide_eq_true_eq, decide_eq_false_iff_not]
  omega

/-- Reading a field back gives what was put there. -/
theorem field_read (x v : Byte) {n c : Nat} (h : c + n ≤ 8) :
    ((x &&& ~~~(lowBits n <<< (8 - c - n)) ||| (v &&& lowBits n) <<< (8 - c - n)) &&&
      (lowBits n <<< (8 - c - n))) >>> (8 - c - n) = v &&& lowBits n := by
  apply BitVec.eq_of_getLsbD_eq
  intro j hj
  have hlow := getLsbD_lowBits n j hj
  have hmoved : ∀ y : Byte, (y <<< (8 - c - n)).getLsbD (8 - c - n + j) =
      (decide (8 - c - n + j < 8) && y.getLsbD j) := by
    intro y
    rw [BitVec.getLsbD_shiftLeft]
    simp
  rw [BitVec.getLsbD_ushiftRight, BitVec.getLsbD_and, BitVec.getLsbD_or, hmoved, hmoved,
    BitVec.getLsbD_and, hlow]
  by_cases hjn : j < n
  · have hin : 8 - c - n + j < 8 := by omega
    simp [hin, hjn, hlow]
  · simp [hjn, hlow]

/-- A field of one bit. -/
theorem field_single (x : Byte) {i : Nat} (hi : i < 8) :
    (x &&& lowBits 1 <<< (8 - i - 1)) >>> (8 - i - 1) = if x.getMsbD i then 1#8 else 0#8 := by
  have hall : ∀ i < 8, ∀ x : Byte,
      (x &&& lowBits 1 <<< (8 - i - 1)) >>> (8 - i - 1) = if x.getMsbD i then 1#8 else 0#8 := by
    decide +kernel
  exact hall i hi x

theorem toNat_and_lowBits (v : Byte) {n : Nat} (hn : n ≤ 8) :
    (v &&& lowBits n).toNat = v.toNat % 2 ^ n := by
  have hpow : 2 ^ n ≤ 2 ^ 8 := Nat.pow_le_pow_right Nat.two_pos hn
  have hpos : 0 < 2 ^ n := Nat.two_pow_pos n
  simp only [lowBits]
  rw [BitVec.toNat_and, BitVec.toNat_ofNat, Nat.mod_eq_of_lt (by omega),
    Nat.and_two_pow_sub_one_eq_mod]

end ByteMemory
