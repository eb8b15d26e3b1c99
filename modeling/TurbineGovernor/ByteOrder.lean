import Mathlib

/-!
# Integers as bytes in host memory

`image` is the memory image of an unsigned integer on a host whose byte order
is given by a flag, `fromImage` reads it back. `endianCopy` is the pointer walk
of a copy loop that starts at the most significant byte on either kind of host.
-/

namespace ByteOrder

abbrev Byte := BitVec 8

/-- The `n` low bytes, least significant first. -/
def littleBytes : Nat → Nat → List Byte
  | 0, _ => []
  | n + 1, v => BitVec.ofNat 8 v :: littleBytes n (v / 256)

def ofLittle : List Byte → Nat
  | [] => 0
  | b :: bs => b.toNat + 256 * ofLittle bs

@[simp] theorem length_littleBytes (n v : Nat) : (littleBytes n v).length = n := by
  induction n generalizing v with
  | zero => rfl
  | succ n ih => simp [littleBytes, ih]

theorem ofLittle_littleBytes (n v : Nat) : ofLittle (littleBytes n v) = v % 256 ^ n := by
  induction n generalizing v with
  | zero => simp [littleBytes, ofLittle, Nat.mod_one]
  | succ n ih =>
    have split : 256 ^ (n + 1) = 256 * 256 ^ n := by rw [pow_succ, mul_comm]
    rw [littleBytes, ofLittle, ih, BitVec.toNat_ofNat, split, Nat.mod_mul]

theorem ofLittle_lt (bs : List Byte) : ofLittle bs < 256 ^ bs.length := by
  induction bs with
  | nil => simp [ofLittle]
  | cons b bs ih =>
    have hb := b.isLt
    simp only [ofLittle, List.length_cons, pow_succ]
    omega

theorem littleBytes_ofLittle (bs : List Byte) : littleBytes bs.length (ofLittle bs) = bs := by
  induction bs with
  | nil => rfl
  | cons b bs ih =>
    have hb := b.isLt
    have rest : ofLittle (b :: bs) / 256 = ofLittle bs := by
      simp only [ofLittle]
      omega
    have first : BitVec.ofNat 8 (ofLittle (b :: bs)) = b := by
      apply BitVec.eq_of_toNat_eq
      simp only [ofLittle, BitVec.toNat_ofNat]
      omega
    rw [List.length_cons, littleBytes, rest, first, ih]

/-- Memory image of an `n`-byte integer on a little or big endian host. -/
def image (little : Bool) (n v : Nat) : List Byte :=
  if little then littleBytes n v else (littleBytes n v).reverse

def fromImage (little : Bool) (bs : List Byte) : Nat :=
  ofLittle (if little then bs else bs.reverse)

@[simp] theorem length_image (little : Bool) (n v : Nat) : (image little n v).length = n := by
  cases little <;> simp [image]

theorem fromImage_image (little : Bool) (n v : Nat) :
    fromImage little (image little n v) = v % 256 ^ n := by
  cases little <;> simp [fromImage, image, ofLittle_littleBytes]

theorem fromImage_lt (little : Bool) (bs : List Byte) :
    fromImage little bs < 256 ^ bs.length := by
  cases little
  · simpa [fromImage] using ofLittle_lt bs.reverse
  · simpa [fromImage] using ofLittle_lt bs

theorem image_fromImage (little : Bool) (bs : List Byte) :
    image little bs.length (fromImage little bs) = bs := by
  cases little
  · have h := littleBytes_ofLittle bs.reverse
    rw [List.length_reverse] at h
    simp [image, fromImage, h]
  · simpa [image, fromImage] using littleBytes_ofLittle bs

theorem ofNat_fromImage_image (little : Bool) (v : BitVec 32) :
    BitVec.ofNat 32 (fromImage little (image little 4 v.toNat)) = v := by
  have hlt := v.isLt
  rw [fromImage_image, Nat.mod_eq_of_lt (by omega), BitVec.ofNat_toNat, BitVec.setWidth_eq]

theorem image_ofNat_fromImage (little : Bool) {bytes : List Byte} (h : bytes.length = 4) :
    image little 4 (BitVec.ofNat 32 (fromImage little bytes)).toNat = bytes := by
  have hlt := fromImage_lt little bytes
  have hback := image_fromImage little bytes
  rw [h] at hlt hback
  rw [BitVec.toNat_ofNat, Nat.mod_eq_of_lt (by omega), hback]

/-- Byte `i` of the copy comes from position `n-1-i` or `i`: one of the two
pointers walks down on a little endian host, both walk up otherwise. -/
def endianCopy (little : Bool) (n : Nat) (src : List Byte) : List Byte :=
  (List.range n).map (fun i => src.getD (if little then n - 1 - i else i) 0)

theorem endianCopy_eq (little : Bool) (src : List Byte) :
    endianCopy little src.length src = if little then src.reverse else src := by
  apply List.ext_getElem
  · cases little <;> simp [endianCopy]
  · intro i hi _
    have hi' : i < src.length := by simpa [endianCopy] using hi
    have hdown : src.length - 1 - i < src.length := by omega
    cases little
    · simp [endianCopy, List.getD_eq_getElem?_getD, hi']
    · simp [endianCopy, List.getD_eq_getElem?_getD, hdown, List.getElem_reverse]

theorem endianCopy_twice (little : Bool) (src : List Byte) :
    endianCopy little src.length (endianCopy little src.length src) = src := by
  cases little
  · rw [endianCopy_eq false src, if_neg (by decide), endianCopy_eq false src, if_neg (by decide)]
  · have h := endianCopy_eq true src.reverse
    rw [List.length_reverse, if_pos rfl, List.reverse_reverse] at h
    rw [endianCopy_eq true src, if_pos rfl, h]

@[simp] theorem length_endianCopy (little : Bool) (n : Nat) (src : List Byte) :
    (endianCopy little n src).length = n := by
  simp [endianCopy]

/-- On either kind of host the copy has the most significant byte first. -/
theorem endianCopy_image (little : Bool) (n v : Nat) :
    endianCopy little n (image little n v) = (littleBytes n v).reverse := by
  have hcopy := endianCopy_eq little (image little n v)
  rw [length_image] at hcopy
  rw [hcopy]
  cases little <;> simp [image]

theorem fromImage_endianCopy (little : Bool) (src : List Byte) :
    fromImage little (endianCopy little src.length src) = ofLittle src.reverse := by
  rw [endianCopy_eq]
  cases little <;> simp [fromImage]

/-- Numbers of the same size are told apart by their bytes. -/
theorem ofLittle_eq_iff {bs : List Byte} {n v : Nat} (hn : bs.length = n) (hv : v < 256 ^ n) :
    ofLittle bs = v ↔ bs = littleBytes n v := by
  subst hn
  constructor
  · rintro rfl
    exact (littleBytes_ofLittle bs).symm
  · intro h
    rw [h, ofLittle_littleBytes, Nat.mod_eq_of_lt hv]

theorem littleBytes_take (v : Nat) {k n : Nat} (h : k ≤ n) :
    (littleBytes n v).take k = littleBytes k v := by
  induction k generalizing n v with
  | zero => rfl
  | succ k ih =>
    match n, h with
    | n + 1, h =>
      rw [littleBytes, List.take_succ_cons, ih (v / 256) (Nat.le_of_succ_le_succ h)]
      rfl

theorem ofLittle_append_zeros (bs : List Byte) (n : Nat) :
    ofLittle (bs ++ List.replicate n 0#8) = ofLittle bs := by
  induction bs with
  | nil =>
    induction n with
    | zero => rfl
    | succ n ih =>
      rw [List.nil_append, ofLittle] at ih ⊢
      rw [List.replicate_succ, ofLittle, ih]
      rfl
  | cons b bs ih =>
    rw [List.cons_append, ofLittle, ofLittle, ih]

def swapPairs : List Byte → List Byte
  | b0 :: b1 :: bytes => b1 :: b0 :: swapPairs bytes
  | _ => []

theorem swapPairs_append (n : Nat) (xs ys : List Byte) (h : xs.length = 2 * n) :
    swapPairs (xs ++ ys) = swapPairs xs ++ swapPairs ys := by
  induction n generalizing xs with
  | zero =>
    rw [List.length_eq_zero_iff.mp h]
    rfl
  | succ n ih =>
    match xs, h with
    | b0 :: b1 :: rest, h =>
      have hrest := ih rest (by simp only [List.length_cons] at h; omega)
      simp only [List.cons_append, swapPairs, hrest]

theorem swapPairs_reverse (n : Nat) (bytes : List Byte) (h : bytes.length = 2 * n) :
    swapPairs bytes.reverse = (swapPairs bytes).reverse := by
  induction n generalizing bytes with
  | zero =>
    rw [List.length_eq_zero_iff.mp h]
    rfl
  | succ n ih =>
    match bytes, h with
    | b0 :: b1 :: rest, h =>
      have hlen : rest.length = 2 * n := by
        simp only [List.length_cons] at h
        omega
      have hsplit : (b0 :: b1 :: rest).reverse = rest.reverse ++ [b1, b0] := by simp
      rw [hsplit, swapPairs_append n rest.reverse [b1, b0] (by rw [List.length_reverse, hlen]),
        ih rest hlen]
      simp [swapPairs]

/-- The bytes of a number stay when neighbours are swapped exactly when the
two bytes of each of its halves are the same. -/
theorem swapPairs_littleBytes (n v : Nat) :
    swapPairs (littleBytes (2 * n) v) = littleBytes (2 * n) v ↔
      ∀ i < n, BitVec.ofNat 8 (v / 256 ^ (2 * i)) = BitVec.ofNat 8 (v / 256 ^ (2 * i + 1)) := by
  induction n generalizing v with
  | zero => simp [littleBytes, swapPairs]
  | succ n ih =>
    have hsplit : littleBytes (2 * (n + 1)) v =
        BitVec.ofNat 8 v :: BitVec.ofNat 8 (v / 256) :: littleBytes (2 * n) (v / 256 / 256) := by
      rw [show 2 * (n + 1) = 2 * n + 1 + 1 by omega, littleBytes, littleBytes]
    have hshift : ∀ k, v / 256 / 256 / 256 ^ k = v / 256 ^ (k + 2) := by
      intro k
      rw [Nat.div_div_eq_div_mul, Nat.div_div_eq_div_mul]
      congr 1
      ring
    rw [hsplit, swapPairs, List.cons.injEq, List.cons.injEq, ih]
    simp only [hshift]
    constructor
    · rintro ⟨hfirst, _, hrest⟩ i hi
      cases i with
      | zero => simpa using hfirst.symm
      | succ i =>
        have hnext := hrest i (by omega)
        rw [show 2 * (i + 1) = 2 * i + 2 by omega, hnext,
          show 2 * i + 1 + 2 = 2 * i + 2 + 1 by omega]
    · intro hall
      have hfirst : BitVec.ofNat 8 v = BitVec.ofNat 8 (v / 256) := by
        simpa using hall 0 (Nat.succ_pos n)
      refine ⟨hfirst.symm, hfirst, ?_⟩
      intro i hi
      have hnext := hall (i + 1) (by omega)
      rw [show 2 * (i + 1) = 2 * i + 2 by omega] at hnext
      rw [hnext, show 2 * i + 1 + 2 = 2 * i + 2 + 1 by omega]

/-- The bits of a number lie in the bytes of its image, lowest byte first. -/
theorem testBit_ofLittle (bs : List Byte) (i : Nat) :
    (ofLittle bs).testBit i = (bs.getD (i / 8) 0#8).getLsbD (i % 8) := by
  induction bs generalizing i with
  | nil => simp [ofLittle]
  | cons b bs ih =>
    have hpow : b.toNat + 256 * ofLittle bs = 2 ^ 8 * ofLittle bs + b.toNat := by omega
    rw [ofLittle, hpow, Nat.testBit_two_pow_mul_add _ b.isLt]
    split
    · rename_i hlow
      rw [Nat.div_eq_of_lt hlow, Nat.mod_eq_of_lt hlow]
      rfl
    · rename_i hhigh
      have hdiv : i / 8 = (i - 8) / 8 + 1 := by omega
      have hmod : i % 8 = (i - 8) % 8 := by omega
      rw [ih, hdiv, hmod, List.getD_cons_succ]

/-- The number whose bits are given from the highest to the lowest. -/
def ofMsbFirst (n : Nat) (bit : Nat → Bool) : Nat :=
  (List.range n).foldl (fun v k => 2 * v + (bit k).toNat) 0

theorem ofMsbFirst_succ (n : Nat) (bit : Nat → Bool) :
    ofMsbFirst (n + 1) bit = 2 * ofMsbFirst n bit + (bit n).toNat := by
  rw [ofMsbFirst, List.range_succ, List.foldl_append]
  rfl

theorem ofMsbFirst_lt (n : Nat) (bit : Nat → Bool) : ofMsbFirst n bit < 2 ^ n := by
  induction n with
  | zero => exact Nat.one_pos
  | succ n ih =>
    have hbit := Bool.toNat_le (bit n)
    rw [ofMsbFirst_succ, Nat.pow_succ]
    omega

theorem testBit_ofMsbFirst {n k : Nat} (bit : Nat → Bool) (h : k < n) :
    (ofMsbFirst n bit).testBit (n - 1 - k) = bit k := by
  induction n with
  | zero => exact absurd h (Nat.not_lt_zero k)
  | succ n ih =>
    rw [ofMsbFirst_succ]
    by_cases hlast : k = n
    · subst hlast
      rw [Nat.add_sub_cancel, Nat.sub_self, Nat.testBit_zero]
      cases bit k <;> simp
    · have hpos : n + 1 - 1 - k = n - 1 - k + 1 := by omega
      rw [hpos, Nat.testBit_succ, ← ih (by omega)]
      congr 1
      have hbit := Bool.toNat_le (bit n)
      omega

theorem eq_ofMsbFirst_iff {n v : Nat} (hv : v < 2 ^ n) (bit : Nat → Bool) :
    v = ofMsbFirst n bit ↔ ∀ k < n, v.testBit (n - 1 - k) = bit k := by
  constructor
  · intro h k hk
    rw [h, testBit_ofMsbFirst bit hk]
  · intro h
    refine Nat.eq_of_testBit_eq (fun i => ?_)
    by_cases hi : i < n
    · have hpos : n - 1 - (n - 1 - i) = i := by omega
      have hv' := h (n - 1 - i) (by omega)
      have hbits := testBit_ofMsbFirst bit (k := n - 1 - i) (n := n) (by omega)
      rw [hpos] at hv' hbits
      rw [hv', hbits]
    · have hle : 2 ^ n ≤ 2 ^ i := Nat.pow_le_pow_right Nat.two_pos (by omega)
      rw [Nat.testBit_lt_two_pow (lt_of_lt_of_le hv hle),
        Nat.testBit_lt_two_pow (lt_of_lt_of_le (ofMsbFirst_lt n bit) hle)]

end ByteOrder
