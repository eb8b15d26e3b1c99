import TurbineGovernor.RegisterMap

/-!
# Hosts with different byte orders

Both programs walk over the bytes of the registers in their own memory. The
library carries each register as a value, so that on hosts of different kinds
the two bytes of every register change places on the way.
-/

namespace HostOrder
open CommonTypes ByteOrder MasterDriver SlaveDriver RegisterMap

/-- The registers of one kind of host in the memory of the other. -/
theorem registerImage_other {little little' : Bool} (other : little ≠ little') (n : Nat)
    (bytes : List Byte) (h : bytes.length = 2 * n) :
    registerImage little' (bytesToRegisters little bytes) = swapPairs bytes := by
  induction n generalizing bytes with
  | zero =>
    rw [List.length_eq_zero_iff.mp h]
    rfl
  | succ n ih =>
    match bytes, h with
    | b0 :: b1 :: rest, h =>
      have hrest := ih rest (by simp only [List.length_cons] at h; omega)
      have hlt : fromImage little [b0, b1] < 2 ^ 16 := by simpa using fromImage_lt little [b0, b1]
      have hpair := image_fromImage little [b0, b1]
      have hswap : image little' 2 (fromImage little [b0, b1]) = [b1, b0] := by
        have hreverse : image little' 2 (fromImage little [b0, b1]) =
            (image little 2 (fromImage little [b0, b1])).reverse := by
          cases little <;> cases little' <;> simp [image] at other ⊢
        rw [hreverse]
        exact congrArg List.reverse hpair
      simp only [registerImage, bytesToRegisters, List.flatMap_cons, swapPairs] at hrest ⊢
      rw [hrest, BitVec.toNat_ofNat, Nat.mod_eq_of_lt hlt, hswap]
      rfl

/-- The copy loop of the slave, the transport and the copy loop of the master. -/
theorem transported_iff (little little' : Bool) (n value : Nat) (hvalue : value < 256 ^ (2 * n)) :
    fromImage little' (endianCopy little' (2 * n) (registerImage little'
      (bytesToRegisters little (endianCopy little (2 * n) (image little (2 * n) value))))) =
        value ↔
      little = little' ∨
        ∀ i < n, BitVec.ofNat 8 (value / 256 ^ (2 * i)) =
          BitVec.ofNat 8 (value / 256 ^ (2 * i + 1)) := by
  by_cases hsame : little = little'
  · subst hsame
    rw [copied_back, Nat.mod_eq_of_lt hvalue]
    simp
  · have hlen : (littleBytes (2 * n) value).reverse.length = 2 * n := by simp
    have hregisters : registerImage little' (bytesToRegisters little
        (endianCopy little (2 * n) (image little (2 * n) value))) =
        (swapPairs (littleBytes (2 * n) value)).reverse := by
      rw [endianCopy_image, registerImage_other hsame n _ hlen,
        swapPairs_reverse n _ (length_littleBytes _ _)]
    have hswapped : (swapPairs (littleBytes (2 * n) value)).length = 2 * n := by
      have himage := congrArg List.length hregisters
      rw [List.length_reverse] at himage
      rw [← himage]
      simp only [registerImage, List.length_flatMap, length_image, List.map_const',
        List.sum_replicate, length_bytesToRegisters little n _ (length_endianCopy little _ _)]
      exact Nat.mul_comm n 2
    have hcopy := fromImage_endianCopy little' (swapPairs (littleBytes (2 * n) value)).reverse
    rw [List.length_reverse, hswapped, List.reverse_reverse] at hcopy
    rw [hregisters, hcopy, ofLittle_eq_iff hswapped hvalue, swapPairs_littleBytes]
    simp [hsame]

/-- Every half of 16 bits has the same byte twice. -/
def SameBytes {w : Nat} (v : BitVec w) : Prop :=
  ∀ i < w / 16, v.extractLsb' (16 * i) 8 = v.extractLsb' (16 * i + 8) 8

instance {w : Nat} (v : BitVec w) : Decidable (SameBytes v) :=
  inferInstanceAs (Decidable (∀ i < w / 16, _))

theorem sameBytes_iff {w : Nat} (v : BitVec w) :
    SameBytes v ↔ ∀ i < w / 16, BitVec.ofNat 8 (v.toNat / 256 ^ (2 * i)) =
      BitVec.ofNat 8 (v.toNat / 256 ^ (2 * i + 1)) := by
  have hbyte : ∀ k, v.extractLsb' (8 * k) 8 = BitVec.ofNat 8 (v.toNat / 256 ^ k) := by
    intro k
    have hpow : 256 ^ k = 2 ^ (8 * k) := by rw [Nat.pow_mul]
    simp only [BitVec.extractLsb']
    rw [Nat.shiftRight_eq_div_pow, hpow]
  simp only [SameBytes]
  refine forall_congr' (fun i => imp_congr_right (fun _ => ?_))
  rw [show 16 * i = 8 * (2 * i) by omega, show 8 * (2 * i) + 8 = 8 * (2 * i + 1) by omega,
    hbyte, hbyte]

/-- The registers of a variable's time. -/
def timeRegisters (s : ModbusSlaveDrv) (uiVar : BitVec 8) : Fin 4 → BitVec 16 :=
  block s.mpMBmapping.tabInputRegisters
    (uiVar.toNat * SlaveDriver.IROFFSET - SlaveDriver.IROFFSET + (s.muiNumROInts * 2).toNat) 4

/-- The registers of an RO int. -/
def intRegisters (s : ModbusSlaveDrv) (addr : IOAddr) : Fin 2 → BitVec 16 :=
  block s.mpMBmapping.tabInputRegisters ((addr.uiChannel.toNat - 1) * 2) 2

theorem getTimeS_setTimeS (s : ModbusSlaveDrv) (little' : Bool) (iTimeS : BitVec 64)
    (uiVar : BitVec 8) :
    getTimeS little' (timeRegisters (s.setTimeS iTimeS uiVar) uiVar) = iTimeS ↔
      s.mbArchLittleEnd = little' ∨ SameBytes iTimeS := by
  have hlt := iTimeS.isLt
  have htransported := transported_iff s.mbArchLittleEnd little' 4 iTimeS.toNat (by omega)
  simp only [timeRegisters, ModbusSlaveDrv.setTimeS, ModbusSlaveDrv.storeInt]
  rw [getTimeS, ofFn_block_store _ _ _ (length_stored s.mbArchLittleEnd 4 iTimeS.toNat),
    sameBytes_iff, ← htransported, ← BitVec.toNat_inj, BitVec.toNat_ofNat, Nat.mod_eq_of_lt]
  have hbound := fromImage_lt little' (endianCopy little' 8 (registerImage little'
    (bytesToRegisters s.mbArchLittleEnd
      (endianCopy s.mbArchLittleEnd 8 (image s.mbArchLittleEnd 8 iTimeS.toNat)))))
  rw [length_endianCopy] at hbound
  omega

theorem getInt_writeRO (s : ModbusSlaveDrv) (little' : Bool) (iVal : BitVec 32) (addr : IOAddr)
    (accepted : (s.writeRO iVal addr).1 = true) :
    getInt little' (intRegisters (s.writeRO iVal addr).2 addr) = iVal ↔
      s.mbArchLittleEnd = little' ∨ SameBytes iVal := by
  have hlt := iVal.isLt
  have htransported := transported_iff s.mbArchLittleEnd little' 2 iVal.toNat (by omega)
  have hstored : (s.writeRO iVal addr).2 = s.storeInt ((addr.uiChannel.toNat - 1) * 2) 4
      iVal.toNat := by
    unfold ModbusSlaveDrv.writeRO at accepted ⊢
    dsimp only at accepted ⊢
    split at accepted
    · cases accepted
    · rename_i hin
      rw [if_neg hin]
  rw [hstored]
  simp only [intRegisters, ModbusSlaveDrv.storeInt]
  rw [getInt, ofFn_block_store _ _ _ (length_stored s.mbArchLittleEnd 2 iVal.toNat),
    sameBytes_iff, ← htransported, ← BitVec.toNat_inj, BitVec.toNat_ofNat, Nat.mod_eq_of_lt]
  have hbound := fromImage_lt little' (endianCopy little' 4 (registerImage little'
    (bytesToRegisters s.mbArchLittleEnd
      (endianCopy s.mbArchLittleEnd 4 (image s.mbArchLittleEnd 4 iVal.toNat)))))
  rw [length_endianCopy] at hbound
  omega

/-- A number arrives exactly when the hosts are of one kind or no register
changes when its bytes do. -/
theorem number_arrives_iff (s : ModbusSlaveDrv) (little' : Bool) :
    (∀ (iTimeS : BitVec 64) (uiVar : BitVec 8),
      getTimeS little' (timeRegisters (s.setTimeS iTimeS uiVar) uiVar) = iTimeS ↔
        s.mbArchLittleEnd = little' ∨ SameBytes iTimeS) ∧
    ∀ (iVal : BitVec 32) (addr : IOAddr), (s.writeRO iVal addr).1 = true →
      (getInt little' (intRegisters (s.writeRO iVal addr).2 addr) = iVal ↔
        s.mbArchLittleEnd = little' ∨ SameBytes iVal) :=
  ⟨getTimeS_setTimeS s little', getInt_writeRO s little'⟩

/-- A slave on a big endian host with one RO int and two variables. -/
def bigSlave : ModbusSlaveDrv := { smallSlave with mbArchLittleEnd := false }

theorem sameHosts_arrive :
    getInt false (intRegisters (bigSlave.writeRO 1 { uiChannel := 1 }).2 { uiChannel := 1 }) = 1 ∧
      getTimeS false (timeRegisters (bigSlave.setTimeS 1234 1) 1) = 1234 :=
  ⟨((number_arrives_iff bigSlave false).2 1 { uiChannel := 1 } (by decide)).mpr (Or.inl rfl),
    ((number_arrives_iff bigSlave false).1 1234 1).mpr (Or.inl rfl)⟩

/-- From a big endian slave a little endian master reads 256 for 1. -/
theorem otherHost_misreads :
    (bigSlave.writeRO 1 { uiChannel := 1 }).1 = true ∧
      getInt true (intRegisters (bigSlave.writeRO 1 { uiChannel := 1 }).2 { uiChannel := 1 }) =
        256 ∧
      getTimeS true (timeRegisters (bigSlave.setTimeS 1234 1) 1) ≠ 1234 := by
  decide

end HostOrder
