import TurbineGovernor.CommonTypes
import TurbineGovernor.ByteMemory

/-!
# The codec of the EtherCAT process image

`EthercatDrv` writes and reads a device through two branches, one for a field
inside a byte and one for whole bytes. Fields that cross a byte, fields of
three bytes and whole bytes on a big endian host pass the checks of a branch
that does not transfer them.
-/

namespace ProcessImage
open CommonTypes ByteOrder ByteMemory

/-- What the library knows of the slaves: how many there are and where the
outputs and the inputs of each one begin. -/
structure EcSlaves where
  ec_slavecount : Nat
  outputs : BitVec 8 → Nat
  inputs : BitVec 8 → Nat

/-- Shifts of an `int`. The processor takes the count modulo 32. -/
def shiftLeft (x : Byte) (count : Int) : Byte :=
  (x.setWidth 32 <<< (count % 32).toNat).setWidth 8

def shiftRight (x : Byte) (count : Int) : Byte :=
  (x.setWidth 32 >>> (count % 32).toNat).setWidth 8

def iOffset (addr : IOAddr) : Int :=
  7 - (addr.uiChannel.toNat % 8 : Nat) - ((addr.uiNumBits.toNat : Int) - 1)

/-- The loop that adds up the bits of a mask. -/
def bitMask (uiNumBits : Nat) : Byte :=
  (List.range uiNumBits).foldl (fun mask i => mask + 1#8 <<< i) 0#8

/-- `little` is the byte order of the host, `timedOut` the answer of
`mtWaitingSend` when the caller waits for the exchange. -/
def writeIO (little : Bool) (s : EcSlaves) (m : Memory) (addr : IOAddr) (uiVal : BitVec 32)
    (sync timedOut : Bool) : Bool × Memory :=
  if addr.uiModule.toNat < 1 ∨ addr.uiModule.toNat > s.ec_slavecount then (false, m)
  else
    let pIOByte := s.outputs addr.uiModule + addr.uiChannel.toNat / 8
    if addr.uiNumBits.toNat < 8 ∧ addr.uiNumBits.toNat > 0 then
      let cleanMask := bitMask addr.uiNumBits.toNat
      let maskVal := shiftLeft (uiVal.setWidth 8 &&& cleanMask) (iOffset addr)
      let cleanMask := ~~~shiftLeft cleanMask (iOffset addr)
      (!(sync && timedOut), store m pIOByte [m pIOByte &&& cleanMask ||| maskVal])
    else if addr.uiNumBits.toNat ≥ 8 ∧ addr.uiNumBits.toNat ≤ 32 ∧
        addr.uiNumBits.toNat % 8 = 0 ∧ addr.uiChannel.toNat % 8 = 0 then
      let pValByte := image little 4 uiVal.toNat
      let iNumBytes := addr.uiNumBits.toNat / 8
      let m :=
        if iNumBytes = 1 then store m pIOByte (pValByte.take 1)
        else if iNumBytes = 2 then store m pIOByte (pValByte.take 2)
        else if iNumBytes = 4 then store m pIOByte (pValByte.take 4)
        else m
      (!(sync && timedOut), m)
    else (false, m)

def writeDeviceSync (little : Bool) (s : EcSlaves) (m : Memory) (addr : IOAddr)
    (uiVal : BitVec 32) (timedOut : Bool) : Bool × Memory :=
  writeIO little s m addr uiVal true timedOut

def writeDevice (little : Bool) (s : EcSlaves) (m : Memory) (addr : IOAddr)
    (uiVal : BitVec 32) : Bool × Memory :=
  writeIO little s m addr uiVal false false

/-- The answer and `uiVal`, which is zero unless a branch changes it. -/
def readDevice (little : Bool) (s : EcSlaves) (m : Memory) (addr : IOAddr) : Bool × BitVec 32 :=
  if addr.uiModule.toNat < 1 ∨ addr.uiModule.toNat > s.ec_slavecount then (false, 0)
  else
    let pIOByte := s.inputs addr.uiModule + addr.uiChannel.toNat / 8
    if addr.uiNumBits.toNat < 8 ∧ addr.uiNumBits.toNat > 0 then
      let readMask := shiftLeft (bitMask addr.uiNumBits.toNat) (iOffset addr)
      let readedVal := shiftRight (m pIOByte &&& readMask) (iOffset addr)
      (true, readedVal.setWidth 32)
    else if addr.uiNumBits.toNat ≥ 8 ∧ addr.uiNumBits.toNat ≤ 32 ∧
        addr.uiNumBits.toNat % 8 = 0 ∧ addr.uiChannel.toNat % 8 = 0 then
      let pValByte := image little 4 0
      let iNumBytes := addr.uiNumBits.toNat / 8
      let pValByte :=
        if iNumBytes = 1 then load m pIOByte 1 ++ pValByte.drop 1
        else if iNumBytes = 2 then load m pIOByte 2 ++ pValByte.drop 2
        else if iNumBytes = 4 then load m pIOByte 4 ++ pValByte.drop 4
        else pValByte
      (true, BitVec.ofNat 32 (fromImage little pValByte))
    else (false, 0)

theorem bitMask_eq {n : Nat} (h : n < 8) : bitMask n = lowBits n := by
  have hall : ∀ n < 8, bitMask n = lowBits n := by decide
  exact hall n h

theorem shiftLeft_ofNat (x : Byte) {k : Nat} (h : k < 8) : shiftLeft x k = x <<< k := by
  have hcount : ((k : Int) % 32).toNat = k := by omega
  apply BitVec.eq_of_getLsbD_eq
  intro j hj
  simp only [shiftLeft]
  rw [hcount, BitVec.getLsbD_setWidth, BitVec.getLsbD_shiftLeft, BitVec.getLsbD_setWidth,
    BitVec.getLsbD_shiftLeft, Bool.eq_iff_iff]
  simp only [Bool.and_eq_true, Bool.not_eq_true', decide_eq_true_eq, decide_eq_false_iff_not]
  constructor
  · rintro ⟨_, ⟨_, hk⟩, _, hx⟩
    exact ⟨⟨hj, hk⟩, hx⟩
  · rintro ⟨⟨_, hk⟩, hx⟩
    exact ⟨hj, ⟨by omega, hk⟩, by omega, hx⟩

theorem shiftRight_ofNat (x : Byte) {k : Nat} (h : k < 8) : shiftRight x k = x >>> k := by
  have hcount : ((k : Int) % 32).toNat = k := by omega
  apply BitVec.eq_of_getLsbD_eq
  intro j hj
  simp only [shiftRight]
  rw [hcount, BitVec.getLsbD_setWidth, BitVec.getLsbD_ushiftRight, BitVec.getLsbD_setWidth,
    BitVec.getLsbD_ushiftRight]
  have hlt : k + j < 32 := by omega
  simp [hj, hlt]

/-- A negative count moves every bit out of the byte. -/
theorem shiftLeft_negative (x : Byte) {k : Int} (h : -8 ≤ k) (hneg : k < 0) :
    shiftLeft x k = 0#8 := by
  have hcount : 8 ≤ (k % 32).toNat := by omega
  apply BitVec.eq_of_getLsbD_eq
  intro j hj
  simp only [shiftLeft]
  rw [BitVec.getLsbD_setWidth, BitVec.getLsbD_shiftLeft]
  have hlt : j < (k % 32).toNat := by omega
  simp [hlt]

theorem shiftRight_zero (k : Int) : shiftRight 0#8 k = 0#8 := by
  simp only [shiftRight]
  simp

namespace Addr

def Valid (s : EcSlaves) (addr : IOAddr) : Prop :=
  1 ≤ addr.uiModule.toNat ∧ addr.uiModule.toNat ≤ s.ec_slavecount

/-- A field that lies in one byte. -/
def InByte (addr : IOAddr) : Prop :=
  0 < addr.uiNumBits.toNat ∧ addr.uiNumBits.toNat < 8 ∧
    addr.uiChannel.toNat % 8 + addr.uiNumBits.toNat ≤ 8

/-- A field of less than a byte that ends in the next one. -/
def Crossing (addr : IOAddr) : Prop :=
  0 < addr.uiNumBits.toNat ∧ addr.uiNumBits.toNat < 8 ∧
    8 < addr.uiChannel.toNat % 8 + addr.uiNumBits.toNat

/-- One, two or four whole bytes. -/
def WholeBytes (addr : IOAddr) : Prop :=
  (addr.uiNumBits.toNat = 8 ∨ addr.uiNumBits.toNat = 16 ∨ addr.uiNumBits.toNat = 32) ∧
    addr.uiChannel.toNat % 8 = 0

def ThreeBytes (addr : IOAddr) : Prop :=
  addr.uiNumBits.toNat = 24 ∧ addr.uiChannel.toNat % 8 = 0

instance (s : EcSlaves) (addr : IOAddr) : Decidable (Valid s addr) :=
  inferInstanceAs (Decidable (_ ∧ _))
instance (addr : IOAddr) : Decidable (InByte addr) := inferInstanceAs (Decidable (_ ∧ _ ∧ _))
instance (addr : IOAddr) : Decidable (Crossing addr) := inferInstanceAs (Decidable (_ ∧ _ ∧ _))
instance (addr : IOAddr) : Decidable (WholeBytes addr) := inferInstanceAs (Decidable ((_ ∨ _) ∧ _))
instance (addr : IOAddr) : Decidable (ThreeBytes addr) := inferInstanceAs (Decidable (_ ∧ _))

/-- The byte that a branch starts at. -/
def firstByte (base : BitVec 8 → Nat) (addr : IOAddr) : Nat :=
  base addr.uiModule + addr.uiChannel.toNat / 8

/-- How far a field is from the end of its byte. -/
def offset (addr : IOAddr) : Nat := 8 - addr.uiChannel.toNat % 8 - addr.uiNumBits.toNat

/-- The bits of the memory that an address stands for. -/
def bits (base : BitVec 8 → Nat) (addr : IOAddr) : Finset Nat :=
  Finset.Ico (8 * base addr.uiModule + addr.uiChannel.toNat)
    (8 * base addr.uiModule + addr.uiChannel.toNat + addr.uiNumBits.toNat)

theorem iOffset_field {addr : IOAddr} (h : InByte addr) : iOffset addr = offset addr := by
  obtain ⟨hpos, _, hfits⟩ := h
  simp only [iOffset, offset]
  omega

theorem iOffset_crossing {addr : IOAddr} (h : Crossing addr) :
    -8 ≤ iOffset addr ∧ iOffset addr < 0 := by
  obtain ⟨_, hlt, hcross⟩ := h
  simp only [iOffset]
  omega

theorem mem_bits_field {addr : IOAddr} (h : InByte addr) (base : BitVec 8 → Nat) (b : Nat) :
    b ∈ bits base addr ↔ b / 8 = firstByte base addr ∧
      addr.uiChannel.toNat % 8 ≤ b % 8 ∧
      b % 8 < addr.uiChannel.toNat % 8 + addr.uiNumBits.toNat := by
  obtain ⟨hpos, _, hfits⟩ := h
  simp only [bits, firstByte]
  rw [Finset.mem_Ico]
  omega

theorem mem_bits_bytes {addr : IOAddr} (h : WholeBytes addr) (base : BitVec 8 → Nat) (b : Nat) :
    b ∈ bits base addr ↔ firstByte base addr ≤ b / 8 ∧
      b / 8 < firstByte base addr + addr.uiNumBits.toNat / 8 := by
  obtain ⟨hn, haligned⟩ := h
  simp only [bits, firstByte]
  rw [Finset.mem_Ico]
  omega

/-- Only where its module begins matters for an address. -/
theorem firstByte_congr {base base' : BitVec 8 → Nat} {addr : IOAddr}
    (h : base' addr.uiModule = base addr.uiModule) :
    firstByte base' addr = firstByte base addr := by
  rw [firstByte, h, firstByte]

/-- Whole bytes other than three, by their number. -/
theorem WholeBytes.count {addr : IOAddr} (h : WholeBytes addr) :
    addr.uiNumBits.toNat = 8 * (addr.uiNumBits.toNat / 8) ∧ 0 < addr.uiNumBits.toNat / 8 ∧
      addr.uiNumBits.toNat / 8 ≤ 4 ∧ addr.uiNumBits.toNat / 8 ≠ 3 := by
  have hn := h.1
  omega

theorem WholeBytes.length_take {addr : IOAddr} (h : WholeBytes addr) (little : Bool) (v : Nat) :
    ((image little 4 v).take (addr.uiNumBits.toNat / 8)).length = addr.uiNumBits.toNat / 8 := by
  have hn := h.1
  rw [List.length_take, length_image]
  omega

theorem WholeBytes.load_store {addr : IOAddr} (h : WholeBytes addr) (little : Bool) (v : Nat)
    (m : Memory) (p : Nat) :
    load (store m p ((image little 4 v).take (addr.uiNumBits.toNat / 8))) p
        (addr.uiNumBits.toNat / 8) = (image little 4 v).take (addr.uiNumBits.toNat / 8) := by
  have hloaded := ByteMemory.load_store m p ((image little 4 v).take (addr.uiNumBits.toNat / 8))
  rwa [h.length_take] at hloaded

theorem Valid.module {s : EcSlaves} {addr : IOAddr} (h : Valid s addr) :
    ¬ (addr.uiModule.toNat < 1 ∨ addr.uiModule.toNat > s.ec_slavecount) := by
  simp only [Valid] at h
  omega

end Addr

open Addr

section Calls
variable (little : Bool) (s : EcSlaves) (m : Memory) (addr : IOAddr) (uiVal : BitVec 32)

theorem field_shift (x : Byte) {addr : IOAddr} (h : InByte addr) :
    shiftLeft x (iOffset addr) = x <<< offset addr ∧
      shiftRight x (iOffset addr) = x >>> offset addr := by
  have hoffset : offset addr < 8 := by
    simp only [offset]
    have := h.1
    omega
  rw [iOffset_field h]
  exact ⟨shiftLeft_ofNat x hoffset, shiftRight_ofNat x hoffset⟩

variable {s} {addr}

/-- The branch for less than a byte. -/
theorem writeDevice_short (hvalid : Valid s addr)
    (h : addr.uiNumBits.toNat < 8 ∧ addr.uiNumBits.toNat > 0) :
    writeDevice little s m addr uiVal = (true, store m (firstByte s.outputs addr)
      [m (firstByte s.outputs addr) &&&
          ~~~shiftLeft (lowBits addr.uiNumBits.toNat) (iOffset addr) |||
        shiftLeft (uiVal.setWidth 8 &&& lowBits addr.uiNumBits.toNat) (iOffset addr)]) := by
  unfold writeDevice writeIO
  rw [if_neg hvalid.module]
  dsimp only
  rw [if_pos h, bitMask_eq h.1]
  rfl

theorem readDevice_short (hvalid : Valid s addr)
    (h : addr.uiNumBits.toNat < 8 ∧ addr.uiNumBits.toNat > 0) :
    readDevice little s m addr = (true, (shiftRight (m (firstByte s.inputs addr) &&&
      shiftLeft (lowBits addr.uiNumBits.toNat) (iOffset addr)) (iOffset addr)).setWidth 32) := by
  unfold readDevice
  rw [if_neg hvalid.module]
  dsimp only
  rw [if_pos h, bitMask_eq h.1]
  rfl

/-- The branch for whole bytes, which leaves out three of them. -/
theorem writeDevice_long (hvalid : Valid s addr) (haligned : addr.uiChannel.toNat % 8 = 0) {n : Nat}
    (hn : addr.uiNumBits.toNat = 8 * n) (hpos : 0 < n) (hle : n ≤ 4) :
    writeDevice little s m addr uiVal = (true, if n = 3 then m
      else store m (firstByte s.outputs addr) ((image little 4 uiVal.toNat).take n)) := by
  unfold writeDevice writeIO
  rw [if_neg hvalid.module]
  dsimp only
  rw [if_neg (by omega), if_pos (by omega), hn, Nat.mul_div_cancel_left n (by decide)]
  interval_cases n
  · rfl
  · rfl
  · rfl
  · rfl

theorem readDevice_long (hvalid : Valid s addr) (haligned : addr.uiChannel.toNat % 8 = 0) {n : Nat}
    (hn : addr.uiNumBits.toNat = 8 * n) (hpos : 0 < n) (hle : n ≤ 4) :
    readDevice little s m addr = (true, if n = 3 then 0#32
      else BitVec.ofNat 32 (fromImage little
        (load m (firstByte s.inputs addr) n ++ List.replicate (4 - n) 0#8))) := by
  have hzero : image little 4 0 = List.replicate 4 0#8 := by
    cases little
    · rfl
    · rfl
  unfold readDevice
  rw [if_neg hvalid.module]
  dsimp only
  rw [if_neg (by omega), if_pos (by omega), hn, Nat.mul_div_cancel_left n (by decide), hzero]
  interval_cases n
  · rfl
  · rfl
  · cases little
    · rfl
    · rfl
  · rfl

theorem writeDevice_field (hvalid : Valid s addr) (h : InByte addr) :
    writeDevice little s m addr uiVal = (true, store m (firstByte s.outputs addr)
      [m (firstByte s.outputs addr) &&& ~~~(lowBits addr.uiNumBits.toNat <<< offset addr) |||
        (uiVal.setWidth 8 &&& lowBits addr.uiNumBits.toNat) <<< offset addr]) := by
  rw [writeDevice_short little m uiVal hvalid ⟨h.2.1, h.1⟩, (field_shift _ h).1,
    (field_shift _ h).1]

theorem readDevice_field (hvalid : Valid s addr) (h : InByte addr) :
    readDevice little s m addr = (true, ((m (firstByte s.inputs addr) &&&
      lowBits addr.uiNumBits.toNat <<< offset addr) >>> offset addr).setWidth 32) := by
  rw [readDevice_short little m hvalid ⟨h.2.1, h.1⟩, (field_shift _ h).1, (field_shift _ h).2]

/-- The first bit of an address. -/
def firstBit (base : BitVec 8 → Nat) (addr : IOAddr) : Nat :=
  8 * base addr.uiModule + addr.uiChannel.toNat

theorem inByte_of_one {addr : IOAddr} (h : addr.uiNumBits = 1) : InByte addr := by
  have hone : addr.uiNumBits.toNat = 1 := by
    rw [h]
    rfl
  exact ⟨by omega, by omega, by omega⟩

/-- Reading a single bit. -/
theorem readDevice_bit (hvalid : Valid s addr) (h : addr.uiNumBits = 1) :
    readDevice little s m addr =
      (true, if bitAt m (firstBit s.inputs addr) then 1#32 else 0#32) := by
  have hone : addr.uiNumBits.toNat = 1 := by
    rw [h]
    rfl
  have hbit : (m (firstByte s.inputs addr)).getMsbD (addr.uiChannel.toNat % 8) =
      bitAt m (firstBit s.inputs addr) := by
    rw [getMsbD_eq_bitAt m _ (Nat.mod_lt _ (by decide)), firstByte, firstBit]
    congr 1
    omega
  rw [readDevice_field little m hvalid (inByte_of_one h), offset, hone,
    field_single _ (Nat.mod_lt _ (by decide)), hbit]
  cases bitAt m (firstBit s.inputs addr) <;> rfl

theorem mem_bits_one {addr : IOAddr} (h : addr.uiNumBits = 1) (base : BitVec 8 → Nat) (b : Nat) :
    b ∈ bits base addr ↔ b = firstBit base addr := by
  have hone : addr.uiNumBits.toNat = 1 := by
    rw [h]
    rfl
  rw [bits, Finset.mem_Ico, hone, firstBit]
  omega

theorem store_same (p : Nat) : store m p [m p] = m := by
  funext a
  by_cases ha : a = p
  · subst ha
    exact store_singleton m a _
  · exact store_outside m p [m p] (by simp; omega)

theorem writeDevice_crossing (hvalid : Valid s addr) (h : Crossing addr) :
    writeDevice little s m addr uiVal = (true, m) := by
  obtain ⟨hlow, hneg⟩ := iOffset_crossing h
  rw [writeDevice_short little m uiVal hvalid ⟨h.2.1, h.1⟩, shiftLeft_negative _ hlow hneg,
    shiftLeft_negative _ hlow hneg]
  simp only [BitVec.not_zero, BitVec.and_allOnes, BitVec.or_zero, store_same]

theorem readDevice_crossing (hvalid : Valid s addr) (h : Crossing addr) :
    readDevice little s m addr = (true, 0#32) := by
  obtain ⟨hlow, hneg⟩ := iOffset_crossing h
  rw [readDevice_short little m hvalid ⟨h.2.1, h.1⟩, shiftLeft_negative _ hlow hneg,
    BitVec.and_zero, shiftRight_zero]
  rfl

theorem writeDevice_bytes (hvalid : Valid s addr) (h : WholeBytes addr) :
    writeDevice little s m addr uiVal = (true, store m (firstByte s.outputs addr)
      ((image little 4 uiVal.toNat).take (addr.uiNumBits.toNat / 8))) := by
  obtain ⟨hn, hpos, hle, hthree⟩ := h.count
  rw [writeDevice_long little m uiVal hvalid h.2 hn hpos hle, if_neg hthree]

theorem readDevice_bytes (hvalid : Valid s addr) (h : WholeBytes addr) :
    readDevice little s m addr = (true, BitVec.ofNat 32 (fromImage little
      (load m (firstByte s.inputs addr) (addr.uiNumBits.toNat / 8) ++
        List.replicate (4 - addr.uiNumBits.toNat / 8) 0#8))) := by
  obtain ⟨hn, hpos, hle, hthree⟩ := h.count
  rw [readDevice_long little m hvalid h.2 hn hpos hle, if_neg hthree]

theorem writeDevice_threeBytes (hvalid : Valid s addr) (h : ThreeBytes addr) :
    writeDevice little s m addr uiVal = (true, m) := by
  rw [writeDevice_long little m uiVal hvalid h.2 (n := 3) h.1 (by decide) (by decide), if_pos rfl]

theorem readDevice_threeBytes (hvalid : Valid s addr) (h : ThreeBytes addr) :
    readDevice little s m addr = (true, 0#32) := by
  rw [readDevice_long little m hvalid h.2 (n := 3) h.1 (by decide) (by decide), if_pos rfl]

/-- Every other address is refused by both functions. -/
theorem refused (h : ¬ (Valid s addr ∧ (InByte addr ∨ Crossing addr ∨ WholeBytes addr ∨
    ThreeBytes addr))) :
    writeDevice little s m addr uiVal = (false, m) ∧
      readDevice little s m addr = (false, 0#32) := by
  simp only [Valid, InByte, Crossing, WholeBytes, ThreeBytes] at h
  unfold writeDevice writeIO readDevice
  by_cases hmodule : addr.uiModule.toNat < 1 ∨ addr.uiModule.toNat > s.ec_slavecount
  · rw [if_pos hmodule, if_pos hmodule]
    exact ⟨rfl, rfl⟩
  · rw [if_neg hmodule, if_neg hmodule]
    dsimp only
    rw [if_neg (by omega), if_neg (by omega), if_neg (by omega), if_neg (by omega)]
    exact ⟨rfl, rfl⟩

end Calls

/-- A reading depends on the bits of its address only. -/
theorem readDevice_congr (little : Bool) (s : EcSlaves) {m m' : Memory} (addr : IOAddr)
    (h : ∀ b ∈ bits s.inputs addr, bitAt m b = bitAt m' b) :
    readDevice little s m addr = readDevice little s m' addr := by
  by_cases hkind : Valid s addr ∧
      (InByte addr ∨ Crossing addr ∨ WholeBytes addr ∨ ThreeBytes addr)
  · obtain ⟨hvalid, hfield | hcross | hbytes | hthree⟩ := hkind
    · have hmasked : m (firstByte s.inputs addr) &&&
          lowBits addr.uiNumBits.toNat <<< offset addr = m' (firstByte s.inputs addr) &&&
          lowBits addr.uiNumBits.toNat <<< offset addr := by
        apply BitVec.eq_of_getMsbD_eq
        intro i hi
        rw [BitVec.getMsbD_and, BitVec.getMsbD_and, offset, getMsbD_field hfield.2.2 hi]
        by_cases hin : addr.uiChannel.toNat % 8 ≤ i ∧
            i < addr.uiChannel.toNat % 8 + addr.uiNumBits.toNat
        · rw [getMsbD_eq_bitAt m _ hi, getMsbD_eq_bitAt m' _ hi, h]
          rw [mem_bits_field hfield]
          omega
        · simp only [hin, decide_false, Bool.and_false]
      rw [readDevice_field little m hvalid hfield, readDevice_field little m' hvalid hfield,
        hmasked]
    · rw [readDevice_crossing little m hvalid hcross, readDevice_crossing little m' hvalid hcross]
    · have hload : load m (firstByte s.inputs addr) (addr.uiNumBits.toNat / 8) =
          load m' (firstByte s.inputs addr) (addr.uiNumBits.toNat / 8) := by
        apply load_congr
        intro a hlow hhigh
        apply byte_congr
        intro b hb
        exact h b ((mem_bits_bytes hbytes _ b).mpr (hb ▸ ⟨hlow, hhigh⟩))
      rw [readDevice_bytes little m hvalid hbytes, readDevice_bytes little m' hvalid hbytes, hload]
    · rw [readDevice_threeBytes little m hvalid hthree,
        readDevice_threeBytes little m' hvalid hthree]
  · rw [(refused little m 0 hkind).2, (refused little m' 0 hkind).2]

/-- A bit of a field, by its place in the value that is read. -/
theorem getLsbD_field (x : Byte) {addr : IOAddr} (h : InByte addr) {i : Nat}
    (hlow : addr.uiChannel.toNat % 8 ≤ i)
    (hhigh : i < addr.uiChannel.toNat % 8 + addr.uiNumBits.toNat) :
    (((x &&& lowBits addr.uiNumBits.toNat <<< offset addr) >>> offset addr).setWidth 32).getLsbD
      (7 - i - offset addr) = x.getMsbD i := by
  have hfits := h.2.2
  have hlt8 : i < 8 := by omega
  have hlt32 : 7 - i - offset addr < 32 := by omega
  have hplace : offset addr + (7 - i - offset addr) = 7 - i := by
    simp only [offset]
    omega
  have hin : (lowBits addr.uiNumBits.toNat <<< offset addr).getLsbD (7 - i) = true := by
    have hfield := (getMsbD_field hfits hlt8).trans (decide_eq_true ⟨hlow, hhigh⟩)
    rw [BitVec.getMsbD_eq_getLsbD] at hfield
    exact (Bool.and_eq_true_iff.mp hfield).2
  rw [BitVec.getLsbD_setWidth, BitVec.getLsbD_ushiftRight, hplace, BitVec.getLsbD_and, hin,
    Bool.and_true, BitVec.getMsbD_eq_getLsbD]
  simp [hlt32, hlt8]

theorem bits_of_field (little : Bool) {s : EcSlaves} {m m' : Memory} {addr : IOAddr}
    (hvalid : Valid s addr) (hfield : InByte addr)
    (h : readDevice little s m addr = readDevice little s m' addr) :
    ∀ b ∈ bits s.inputs addr, bitAt m b = bitAt m' b := by
  intro b hb
  obtain ⟨hbyte, hlow, hhigh⟩ := (mem_bits_field hfield _ b).mp hb
  rw [readDevice_field little m hvalid hfield, readDevice_field little m' hvalid hfield] at h
  have hsame := congrArg (fun v => BitVec.getLsbD v (7 - b % 8 - offset addr)) (Prod.mk.inj h).2
  rw [getLsbD_field _ hfield hlow hhigh, getLsbD_field _ hfield hlow hhigh] at hsame
  rw [bitAt, bitAt, hbyte]
  exact hsame

theorem bits_of_bytes (little : Bool) {s : EcSlaves} {m m' : Memory} {addr : IOAddr}
    (hvalid : Valid s addr) (hbytes : WholeBytes addr)
    (h : readDevice little s m addr = readDevice little s m' addr) :
    ∀ b ∈ bits s.inputs addr, bitAt m b = bitAt m' b := by
  have hlen : ∀ m : Memory, (load m (firstByte s.inputs addr) (addr.uiNumBits.toNat / 8) ++
      List.replicate (4 - addr.uiNumBits.toNat / 8) 0#8).length = 4 := by
    intro m
    have hle := hbytes.count.2.2.1
    rw [List.length_append, length_load, List.length_replicate]
    omega
  have hload : load m (firstByte s.inputs addr) (addr.uiNumBits.toNat / 8) =
      load m' (firstByte s.inputs addr) (addr.uiNumBits.toNat / 8) := by
    rw [readDevice_bytes little m hvalid hbytes, readDevice_bytes little m' hvalid hbytes] at h
    have hsame := congrArg (fun v => image little 4 (BitVec.toNat v)) (Prod.mk.inj h).2
    rw [image_ofNat_fromImage little (hlen m), image_ofNat_fromImage little (hlen m')] at hsame
    exact List.append_cancel_right hsame
  intro b hb
  obtain ⟨hge, hlt⟩ := (mem_bits_bytes hbytes _ b).mp hb
  have hbyte := load_inj hload (a := b / 8) hge (by omega)
  rw [bitAt, bitAt, hbyte]

/-- Equal readings of a field or of whole bytes have equal bits. -/
theorem bits_of_readDevice (little : Bool) {s : EcSlaves} {m m' : Memory} {addr : IOAddr}
    (hvalid : Valid s addr) (hkind : InByte addr ∨ WholeBytes addr)
    (h : readDevice little s m addr = readDevice little s m' addr) :
    ∀ b ∈ bits s.inputs addr, bitAt m b = bitAt m' b := by
  rcases hkind with hfield | hbytes
  · exact bits_of_field little hvalid hfield h
  · exact bits_of_bytes little hvalid hbytes h

/-- What a call that returns true is to do: the bits of its address and no
others change, whatever they were, and reading gives the value back. -/
structure Written (little : Bool) (s : EcSlaves) (m : Memory) (addr : IOAddr)
    (uiVal : BitVec 32) (m' : Memory) : Prop where
  frame : ∀ b, b ∉ bits s.outputs addr → bitAt m' b = bitAt m b
  complete : ∀ m₀, ∀ b ∈ bits s.outputs addr,
    bitAt (writeDevice little s m₀ addr uiVal).2 b = bitAt m' b
  readBack : ∀ inputs, inputs addr.uiModule = s.outputs addr.uiModule →
    (readDevice little { s with inputs := inputs } m' addr).1 = true ∧
      (readDevice little { s with inputs := inputs } m' addr).2.toNat =
        uiVal.toNat % 2 ^ addr.uiNumBits.toNat
  apart : ∀ inputs addr', Disjoint (bits s.outputs addr) (bits inputs addr') →
    readDevice little { s with inputs := inputs } m' addr' =
      readDevice little { s with inputs := inputs } m addr'

def Encodes (little : Bool) (s : EcSlaves) (m : Memory) (addr : IOAddr) (uiVal : BitVec 32) :
    Prop :=
  match writeDevice little s m addr uiVal with
  | (true, m') => Written little s m addr uiVal m'
  | (false, m') => m' = m

/-- Addresses that the functions accept and do not transfer. -/
def Misfit (little : Bool) (s : EcSlaves) (addr : IOAddr) : Prop :=
  Valid s addr ∧ (Crossing addr ∨ ThreeBytes addr ∨
    (little = false ∧ WholeBytes addr ∧ addr.uiNumBits.toNat ≠ 32))

instance (little : Bool) (s : EcSlaves) (addr : IOAddr) : Decidable (Misfit little s addr) :=
  inferInstanceAs (Decidable (_ ∧ (_ ∨ _ ∨ (_ ∧ _ ∧ _))))

/-- The readings of other addresses follow from the frame. -/
theorem Written.of_frame {little : Bool} {s : EcSlaves} {m m' : Memory} {addr : IOAddr}
    {uiVal : BitVec 32} (frame : ∀ b, b ∉ bits s.outputs addr → bitAt m' b = bitAt m b)
    (complete : ∀ m₀, ∀ b ∈ bits s.outputs addr,
      bitAt (writeDevice little s m₀ addr uiVal).2 b = bitAt m' b)
    (readBack : ∀ inputs, inputs addr.uiModule = s.outputs addr.uiModule →
      (readDevice little { s with inputs := inputs } m' addr).1 = true ∧
        (readDevice little { s with inputs := inputs } m' addr).2.toNat =
          uiVal.toNat % 2 ^ addr.uiNumBits.toNat) :
    Written little s m addr uiVal m' where
  frame := frame
  complete := complete
  readBack := readBack
  apart := by
    intro inputs addr' hdisjoint
    apply readDevice_congr
    intro b hb
    exact frame b (fun hb' => Finset.disjoint_left.mp hdisjoint hb' hb)

theorem written_field (little : Bool) {s : EcSlaves} (m : Memory) {addr : IOAddr}
    (uiVal : BitVec 32) (hvalid : Valid s addr) (h : InByte addr) :
    Written little s m addr uiVal (writeDevice little s m addr uiVal).2 := by
  have hbit : ∀ m₀ b, b / 8 = firstByte s.outputs addr →
      bitAt (writeDevice little s m₀ addr uiVal).2 b =
        if addr.uiChannel.toNat % 8 ≤ b % 8 ∧
            b % 8 < addr.uiChannel.toNat % 8 + addr.uiNumBits.toNat then
          ((uiVal.setWidth 8 &&& lowBits addr.uiNumBits.toNat) <<< offset addr).getMsbD (b % 8)
        else bitAt m₀ b := by
    intro m₀ b hb
    have hlt : b % 8 < 8 := Nat.mod_lt b (by omega)
    rw [writeDevice_field little m₀ uiVal hvalid h]
    dsimp only
    rw [bitAt_store_singleton m₀ _ hb, offset, BitVec.shiftLeft_and_distrib, BitVec.getMsbD_or,
      BitVec.getMsbD_and, BitVec.getMsbD_and, BitVec.getMsbD_not, getMsbD_field h.2.2 hlt,
      bitAt, hb]
    split
    · rename_i hin
      simp [hin]
    · rename_i hout
      simp [hout, hlt]
  apply Written.of_frame
  · intro b hb
    rw [mem_bits_field h] at hb
    by_cases hbyte : b / 8 = firstByte s.outputs addr
    · rw [hbit m b hbyte, if_neg (fun hin => hb ⟨hbyte, hin⟩)]
    · rw [writeDevice_field little m uiVal hvalid h]
      exact bitAt_store_outside m _ _ (by rw [List.length_singleton]; omega)
  · intro m₀ b hb
    obtain ⟨hbyte, hin⟩ := (mem_bits_field h _ b).mp hb
    rw [hbit m₀ b hbyte, hbit m b hbyte, if_pos hin, if_pos hin]
  · intro inputs hsame
    have hvalue := uiVal.isLt
    have hdvd : 2 ^ addr.uiNumBits.toNat ∣ 2 ^ 8 := Nat.pow_dvd_pow 2 (by have := h.2.1; omega)
    rw [writeDevice_field little m uiVal hvalid h,
      readDevice_field little _ (s := { s with inputs := inputs }) hvalid h]
    dsimp only
    rw [firstByte_congr hsame, store_singleton, offset, field_read _ _ h.2.2]
    refine ⟨rfl, ?_⟩
    rw [BitVec.toNat_setWidth, toNat_and_lowBits _ (by have := h.2.1; omega),
      BitVec.toNat_setWidth, Nat.mod_mod_of_dvd _ hdvd, Nat.mod_eq_of_lt]
    exact lt_of_le_of_lt (Nat.mod_le _ _) hvalue

theorem written_bytes (little : Bool) {s : EcSlaves} (m : Memory) {addr : IOAddr}
    (uiVal : BitVec 32) (hvalid : Valid s addr) (h : WholeBytes addr)
    (hhost : little = true ∨ addr.uiNumBits.toNat = 32) :
    Written little s m addr uiVal (writeDevice little s m addr uiVal).2 := by
  apply Written.of_frame
  · intro b hb
    rw [mem_bits_bytes h] at hb
    rw [writeDevice_bytes little m uiVal hvalid h]
    exact bitAt_store_outside m _ _ (by rw [h.length_take]; exact hb)
  · intro m₀ b hb
    rw [mem_bits_bytes h] at hb
    rw [writeDevice_bytes little m uiVal hvalid h, writeDevice_bytes little m₀ uiVal hvalid h]
    exact bitAt_store_inside m₀ m _ _ (by rw [h.length_take]; exact hb)
  · intro inputs hsame
    have hvalue := uiVal.isLt
    rw [writeDevice_bytes little m uiVal hvalid h,
      readDevice_bytes little _ (s := { s with inputs := inputs }) hvalid h]
    dsimp only
    rw [firstByte_congr hsame, h.load_store, BitVec.toNat_ofNat]
    refine ⟨rfl, ?_⟩
    rcases hhost with rfl | hfull
    · have hbytes : 256 ^ (addr.uiNumBits.toNat / 8) = 2 ^ addr.uiNumBits.toNat := by
        have hpow : 256 ^ (addr.uiNumBits.toNat / 8) = 2 ^ (8 * (addr.uiNumBits.toNat / 8)) := by
          rw [Nat.pow_mul]
        rw [hpow, ← h.count.1]
      simp only [image, fromImage, if_true]
      rw [littleBytes_take _ h.count.2.2.1, ofLittle_append_zeros, ofLittle_littleBytes, hbytes,
        Nat.mod_eq_of_lt]
      exact lt_of_le_of_lt (Nat.mod_le _ _) hvalue
    · have htake : (image little 4 uiVal.toNat).take 4 = image little 4 uiVal.toNat :=
        List.take_of_length_le (by rw [length_image])
      rw [hfull, htake, List.replicate_zero, List.append_nil, fromImage_image,
        Nat.mod_mod_of_dvd _ (by decide)]

/-- The value one does not survive an address that is not transferred. -/
theorem misfit_loses_one {little : Bool} {s : EcSlaves} (m : Memory) {addr : IOAddr}
    (h : Misfit little s addr) :
    (writeDevice little s m addr 1#32).1 = true ∧
      readDevice little { s with inputs := s.outputs } (writeDevice little s m addr 1#32).2 addr =
        (true, 0#32) ∧
      0 < addr.uiNumBits.toNat := by
  obtain ⟨hvalid, hcross | hthree | ⟨rfl, hbytes, hn⟩⟩ := h
  · rw [writeDevice_crossing little m 1#32 hvalid hcross]
    exact ⟨rfl, readDevice_crossing little m (s := { s with inputs := s.outputs }) hvalid hcross,
      hcross.1⟩
  · rw [writeDevice_threeBytes little m 1#32 hvalid hthree]
    exact ⟨rfl, readDevice_threeBytes little m (s := { s with inputs := s.outputs }) hvalid hthree,
      by rw [hthree.1]; decide⟩
  · have hread := readDevice_bytes false (writeDevice false s m addr 1#32).2
      (s := { s with inputs := s.outputs }) hvalid hbytes
    rw [writeDevice_bytes false m 1#32 hvalid hbytes] at hread ⊢
    refine ⟨rfl, hread.trans ?_, ?_⟩
    · dsimp only
      rw [hbytes.load_store]
      obtain ⟨hcase | hcase | hcase, _⟩ := hbytes
      · rw [hcase]
        rfl
      · rw [hcase]
        rfl
      · exact absurd hcase hn
    · have hcases := hbytes.1
      omega

/-- The calls at an address encode every value in every image exactly when the
functions transfer what they accept there. -/
theorem codec_iff (little : Bool) (s : EcSlaves) (addr : IOAddr) :
    (∀ (m : Memory) (uiVal : BitVec 32), Encodes little s m addr uiVal) ↔
      ¬ Misfit little s addr := by
  constructor
  · intro h hmisfit
    obtain ⟨haccepted, hread, hpos⟩ := misfit_loses_one (fun _ => 0#8) hmisfit
    have hone := h (fun _ => 0#8) 1#32
    simp only [Encodes] at hone
    rw [show writeDevice little s (fun _ => 0#8) addr 1#32 =
      (true, (writeDevice little s (fun _ => 0#8) addr 1#32).2) from Prod.ext haccepted rfl] at hone
    have hback := (hone.readBack s.outputs rfl).2
    rw [hread] at hback
    have hmod : 1 % 2 ^ addr.uiNumBits.toNat = 1 :=
      Nat.mod_eq_of_lt (Nat.one_lt_two_pow (by omega))
    simp [hmod] at hback
  · intro hfit m uiVal
    by_cases hkind : Valid s addr ∧
        (InByte addr ∨ Crossing addr ∨ WholeBytes addr ∨ ThreeBytes addr)
    · obtain ⟨hvalid, hfield | hcross | hbytes | hthree⟩ := hkind
      · have hwritten := written_field little m uiVal hvalid hfield
        simp only [Encodes]
        rw [writeDevice_field little m uiVal hvalid hfield] at hwritten ⊢
        exact hwritten
      · exact absurd ⟨hvalid, Or.inl hcross⟩ hfit
      · have hhost : little = true ∨ addr.uiNumBits.toNat = 32 := by
          by_contra hnot
          rw [not_or, Bool.not_eq_true] at hnot
          exact hfit ⟨hvalid, Or.inr (Or.inr ⟨hnot.1, hbytes, hnot.2⟩)⟩
        have hwritten := written_bytes little m uiVal hvalid hbytes hhost
        simp only [Encodes]
        rw [writeDevice_bytes little m uiVal hvalid hbytes] at hwritten ⊢
        exact hwritten
      · exact absurd ⟨hvalid, Or.inr (Or.inl hthree)⟩ hfit
    · simp only [Encodes]
      rw [(refused little m uiVal hkind).1]

/-- One slave whose outputs and inputs begin at the same byte. -/
def oneSlave : EcSlaves := ⟨1, fun _ => 0, fun _ => 0⟩

def threeByteAddr : IOAddr := { uiModule := 1, uiChannel := 0, uiNumBits := 24 }

/-- A value of three bytes is accepted, not written and read as zero. -/
theorem three_bytes_lost :
    writeDevice true oneSlave (fun _ => 0#8) threeByteAddr 5 = (true, fun _ => 0#8) ∧
    readDevice true oneSlave (fun _ => 0#8) threeByteAddr = (true, 0) ∧
    ¬ Encodes true oneSlave (fun _ => 0#8) threeByteAddr 5 := by
  have hwrite : writeDevice true oneSlave (fun _ => 0#8) threeByteAddr 5 =
      (true, fun _ => 0#8) := rfl
  refine ⟨hwrite, rfl, ?_⟩
  intro h
  simp only [Encodes] at h
  rw [hwrite] at h
  exact absurd (h.readBack (fun _ => 0) rfl).2 (by decide)

end ProcessImage
