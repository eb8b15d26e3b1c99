import TurbineGovernor.EtherDevices

/-!
# The numbers of the bits of a word

The state of an analog device is a bit of a word that is read as a number and
masked; the set bit of a pulse device is addressed as a single bit that many
channels after the word. Single bits count from the highest one of the first
byte, masks from the highest one of the number, which is in the last byte on a
little endian host.
-/

namespace BitNumbering
open CommonTypes ByteOrder ByteMemory ProcessImage ProcessImage.Addr EtherDevices

/-- The test of `getVarQState` for one bit of the word at an address. -/
def bitOfWord (s : EcSlaves) (m : Memory) (addr : IOAddr) (uiBit : BitVec 8) : Bool :=
  (readDevice true s m addr).2 &&& AnalogDev.bitMask ⟨addr, uiBit, uiBit⟩ uiBit ≠ 0

/-- The address that `PulseDev` forms for a bit of the word at an address. -/
def bitAddr (addr : IOAddr) (uiBit : BitVec 8) : IOAddr :=
  { addr with uiChannel := addr.uiChannel + uiBit, uiNumBits := 1 }

def singleBit (s : EcSlaves) (m : Memory) (addr : IOAddr) (uiBit : BitVec 8) : BitVec 32 :=
  (readDevice true s m (bitAddr addr uiBit)).2

/-- Both ways find the same bits, and the word is what the single bits make. -/
structure SameNumbering (s : EcSlaves) (m : Memory) (addr : IOAddr) : Prop where
  bits : ∀ uiBit : BitVec 8, uiBit.toNat < addr.uiNumBits.toNat →
    (bitOfWord s m addr uiBit = true ↔ singleBit s m addr uiBit = 1)
  word : (readDevice true s m addr).2.toNat = ofMsbFirst addr.uiNumBits.toNat
    (fun k => singleBit s m addr (BitVec.ofNat 8 k) = 1)

/-- The bytes of the word are those that its single bits are in, the other way
round; channels after 255 start again at 0. -/
def Mirrored (s : EcSlaves) (m : Memory) (addr : IOAddr) : Prop :=
  ∀ j < addr.uiNumBits.toNat / 8,
    m (s.inputs addr.uiModule + (addr.uiChannel.toNat / 8 + j) % 32) =
      m (firstByte s.inputs addr + (addr.uiNumBits.toNat / 8 - 1 - j))

instance (s : EcSlaves) (m : Memory) (addr : IOAddr) : Decidable (Mirrored s m addr) :=
  Nat.decidableBallLT _ _

theorem and_shiftLeft_ne_zero (x : BitVec 32) {i : Nat} (hi : i < 32) :
    x &&& 1#32 <<< i ≠ 0 ↔ x.getLsbD i = true := by
  rw [← BitVec.twoPow_eq, BitVec.and_twoPow]
  cases x.getLsbD i with
  | true =>
    have hbit := BitVec.getLsbD_twoPow (w := 32) i i
    refine iff_of_true (fun hzero => ?_) rfl
    rw [if_pos rfl] at hzero
    rw [hzero] at hbit
    simp [hi] at hbit
  | false => simp

section Word
variable {s : EcSlaves} (m : Memory) {addr : IOAddr}

theorem word_lt (hvalid : Valid s addr) (h : WholeBytes addr) :
    (readDevice true s m addr).2.toNat < 2 ^ addr.uiNumBits.toNat := by
  obtain ⟨hn, _, hle, _⟩ := h.count
  have hbytes := ofLittle_lt (load m (firstByte s.inputs addr) (addr.uiNumBits.toNat / 8))
  have hpow : 256 ^ (addr.uiNumBits.toNat / 8) = 2 ^ addr.uiNumBits.toNat := by
    have hpow : 256 ^ (addr.uiNumBits.toNat / 8) = 2 ^ (8 * (addr.uiNumBits.toNat / 8)) := by
      rw [Nat.pow_mul]
    rw [hpow, ← hn]
  rw [length_load, hpow] at hbytes
  rw [readDevice_bytes true m hvalid h]
  simp only [fromImage, if_true, BitVec.toNat_ofNat, ofLittle_append_zeros]
  exact lt_of_le_of_lt (Nat.mod_le _ _) hbytes

/-- A bit of the word, by the byte of the image that it is in. -/
theorem testBit_word (hvalid : Valid s addr) (h : WholeBytes addr) {k : Nat}
    (hk : k < addr.uiNumBits.toNat) :
    (readDevice true s m addr).2.toNat.testBit (addr.uiNumBits.toNat - 1 - k) =
      (m (firstByte s.inputs addr + (addr.uiNumBits.toNat / 8 - 1 - k / 8))).getMsbD (k % 8) := by
  obtain ⟨hn, hpos, hle, _⟩ := h.count
  have hbits := ofLittle_lt (load m (firstByte s.inputs addr) (addr.uiNumBits.toNat / 8))
  have hpow : 256 ^ (addr.uiNumBits.toNat / 8) ≤ 256 ^ 4 := Nat.pow_le_pow_right (by decide) hle
  rw [length_load] at hbits
  have hbyte : (addr.uiNumBits.toNat - 1 - k) / 8 = addr.uiNumBits.toNat / 8 - 1 - k / 8 := by omega
  have hbit : (addr.uiNumBits.toNat - 1 - k) % 8 = 8 - 1 - k % 8 := by omega
  have hin : addr.uiNumBits.toNat / 8 - 1 - k / 8 <
      (load m (firstByte s.inputs addr) (addr.uiNumBits.toNat / 8)).length := by
    rw [length_load]
    omega
  rw [readDevice_bytes true m hvalid h]
  simp only [fromImage, if_true, BitVec.toNat_ofNat, ofLittle_append_zeros]
  rw [Nat.mod_eq_of_lt (by omega), testBit_ofLittle, hbyte, hbit,
    List.getD_eq_getElem _ _ hin, BitVec.getMsbD_eq_getLsbD]
  simp only [load, List.getElem_map, List.getElem_range]
  have hlt : k % 8 < 8 := Nat.mod_lt k (by decide)
  simp [hlt]

theorem bitOfWord_eq (hvalid : Valid s addr) (h : WholeBytes addr) {uiBit : BitVec 8}
    (hk : uiBit.toNat < addr.uiNumBits.toNat) :
    bitOfWord s m addr uiBit =
      (m (firstByte s.inputs addr +
        (addr.uiNumBits.toNat / 8 - 1 - uiBit.toNat / 8))).getMsbD (uiBit.toNat % 8) := by
  obtain ⟨hn, hpos, hle, _⟩ := h.count
  have hmask : addr.uiNumBits.toNat - uiBit.toNat - 1 = addr.uiNumBits.toNat - 1 - uiBit.toNat := by
    omega
  rw [← testBit_word m hvalid h hk, Bool.eq_iff_iff, bitOfWord, decide_eq_true_eq,
    AnalogDev.bitMask, hmask]
  exact and_shiftLeft_ne_zero _ (by omega)

theorem singleBit_iff (hvalid : Valid s addr) (haligned : addr.uiChannel.toNat % 8 = 0)
    (uiBit : BitVec 8) :
    singleBit s m addr uiBit = 1 ↔
      (m (s.inputs addr.uiModule + (addr.uiChannel.toNat / 8 + uiBit.toNat / 8) % 32)).getMsbD
        (uiBit.toNat % 8) = true := by
  have hchannel : (bitAddr addr uiBit).uiChannel.toNat =
      (addr.uiChannel.toNat + uiBit.toNat) % 256 := BitVec.toNat_add _ _
  have hbit : bitAt m (firstBit s.inputs (bitAddr addr uiBit)) =
      (m (s.inputs addr.uiModule + (addr.uiChannel.toNat / 8 + uiBit.toNat / 8) % 32)).getMsbD
        (uiBit.toNat % 8) := by
    have hmodule : (bitAddr addr uiBit).uiModule = addr.uiModule := rfl
    rw [getMsbD_eq_bitAt m _ (Nat.mod_lt _ (by decide)), firstBit, hmodule, hchannel]
    congr 1
    omega
  have hvalid' : Valid s (bitAddr addr uiBit) := hvalid
  rw [singleBit, readDevice_bit true m hvalid' rfl, hbit]
  cases (m (s.inputs addr.uiModule + (addr.uiChannel.toNat / 8 + uiBit.toNat / 8) % 32)).getMsbD
    (uiBit.toNat % 8) <;> decide

/-- Bit by bit, the two ways agree exactly when the bytes are mirrored. -/
theorem bits_iff_mirrored (h : WholeBytes addr) :
    (∀ k < addr.uiNumBits.toNat,
      (m (firstByte s.inputs addr + (addr.uiNumBits.toNat / 8 - 1 - k / 8))).getMsbD (k % 8) =
        (m (s.inputs addr.uiModule + (addr.uiChannel.toNat / 8 + k / 8) % 32)).getMsbD (k % 8)) ↔
      Mirrored s m addr := by
  obtain ⟨hn, _, _, _⟩ := h.count
  constructor
  · intro hbits j hj
    apply BitVec.eq_of_getMsbD_eq
    intro i hi
    have hbyte : (8 * j + i) / 8 = j := by omega
    have hbit : (8 * j + i) % 8 = i := by omega
    have hsame := hbits (8 * j + i) (by omega)
    rw [hbyte, hbit] at hsame
    exact hsame.symm
  · intro hmirrored k hk
    rw [hmirrored (k / 8) (by omega)]

end Word

/-- On a little endian host the two ways to number the bits of a word agree
exactly when its bytes are those of the single bits in reverse. -/
theorem same_numbering_iff (s : EcSlaves) (m : Memory) (addr : IOAddr) (hvalid : Valid s addr)
    (h : WholeBytes addr) : SameNumbering s m addr ↔ Mirrored s m addr := by
  obtain ⟨hn, _, hle, _⟩ := h.count
  rw [← bits_iff_mirrored m h]
  constructor
  · intro hsame k hk
    have hnum : (BitVec.ofNat 8 k).toNat = k := by
      rw [BitVec.toNat_ofNat, Nat.mod_eq_of_lt (by omega)]
    have hbit := hsame.bits (BitVec.ofNat 8 k) (by rw [hnum]; exact hk)
    rw [bitOfWord_eq m hvalid h (by rw [hnum]; exact hk), singleBit_iff m hvalid h.2, hnum] at hbit
    exact Bool.eq_iff_iff.mpr hbit
  · intro hbits
    constructor
    · intro uiBit hk
      rw [bitOfWord_eq m hvalid h hk, singleBit_iff m hvalid h.2, hbits uiBit.toNat hk]
    · rw [eq_ofMsbFirst_iff (word_lt m hvalid h)]
      intro k hk
      have hnum : (BitVec.ofNat 8 k).toNat = k := by
        rw [BitVec.toNat_ofNat, Nat.mod_eq_of_lt (by omega)]
      have hsingle := singleBit_iff m hvalid h.2 (BitVec.ofNat 8 k)
      rw [hnum] at hsingle
      rw [testBit_word m hvalid h hk, hbits k hk, Bool.eq_iff_iff, decide_eq_true_eq, hsingle]

/-- Only words of one byte are numbered in one way in every image. -/
theorem one_byte_iff (s : EcSlaves) (addr : IOAddr) (hvalid : Valid s addr) (h : WholeBytes addr) :
    (∀ m, SameNumbering s m addr) ↔ addr.uiNumBits.toNat = 8 := by
  obtain ⟨hn, hpos, _, _⟩ := h.count
  have hchannel := addr.uiChannel.isLt
  have hfirst : s.inputs addr.uiModule + (addr.uiChannel.toNat / 8 + 0) % 32 =
      firstByte s.inputs addr := by
    rw [firstByte]
    omega
  constructor
  · intro hall
    by_contra hne
    -- an image where the first byte of the word differs from the last
    have hsame := (same_numbering_iff s (fun a => if a = firstByte s.inputs addr then 1 else 0) addr
      hvalid h).mp (hall _) 0 hpos
    dsimp only at hsame
    rw [hfirst, if_pos rfl, if_neg (by omega)] at hsame
    exact absurd hsame (by decide)
  · intro height m
    rw [same_numbering_iff s m addr hvalid h]
    intro j hj
    have hzero : j = 0 := by omega
    rw [hzero, hfirst, height]
    rfl

/-- Two bytes from channel 8 on. -/
def statusAddr : IOAddr := { uiModule := 1, uiChannel := 8, uiNumBits := 16 }

theorem equal_bytes_same : SameNumbering oneSlave (fun _ => 0x81#8) statusAddr :=
  (same_numbering_iff oneSlave (fun _ => 0x81#8) statusAddr (by decide) (by decide)).mpr
    (fun _ _ => rfl)

/-- Bit 15 of the word is set in the last bit of the first byte, where the
single bit 15 is in the second one. -/
theorem last_bit_elsewhere :
    bitOfWord oneSlave (fun a => if a = 1 then 1#8 else 0#8) statusAddr 15 = true ∧
      singleBit oneSlave (fun a => if a = 1 then 1#8 else 0#8) statusAddr 15 = 0 ∧
      ¬ SameNumbering oneSlave (fun a => if a = 1 then 1#8 else 0#8) statusAddr := by
  have hword : bitOfWord oneSlave (fun a => if a = 1 then 1#8 else 0#8) statusAddr 15 = true := by
    decide
  have hsingle : singleBit oneSlave (fun a => if a = 1 then 1#8 else 0#8) statusAddr 15 = 0 := by
    decide
  refine ⟨hword, hsingle, fun h => ?_⟩
  have hone := (h.bits 15 (by decide)).mp hword
  rw [hsingle] at hone
  exact absurd hone (by decide)

end BitNumbering
