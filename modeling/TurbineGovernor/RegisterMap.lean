import TurbineGovernor.SlaveDriver
import TurbineGovernor.MasterDriverSpec

/-!
# The register map shared by master and slave

What the slave's methods put into its tables is what the master decodes from
them. Both programs compute their own offsets; the address lemmas say where in
the tables each request of the master lands.
-/

namespace RegisterMap
open CommonTypes ByteOrder RetryLoops MasterDriver SlaveDriver

variable {L : FloatAbcd}

section Store
variable {A : Type} (tab : Nat → A) (base : Nat) (cells : List A)

theorem store_outside {i : Nat} (h : i < base ∨ base + cells.length ≤ i) :
    store tab base cells i = tab i := by
  simp only [store]
  split
  · rw [List.getElem?_eq_none (by omega), Option.getD_none]
  · rfl

theorem store_inside {i : Nat} (h : i < cells.length) :
    store tab base cells (base + i) = cells[i] := by
  simp only [store]
  rw [if_pos (Nat.le_add_right base i), Nat.add_sub_cancel_left, List.getElem?_eq_getElem h,
    Option.getD_some]

theorem block_store_outside {b n : Nat} (h : b + n ≤ base ∨ base + cells.length ≤ b) :
    block (store tab base cells) b n = block tab b n := by
  funext i
  have hi := i.isLt
  exact store_outside tab base cells (by omega)

theorem ofFn_block_store {n : Nat} (h : cells.length = n) :
    List.ofFn (block (store tab base cells) base n) = cells := by
  apply List.ext_getElem
  · rw [List.length_ofFn, h]
  · intro i _ hi
    rw [List.getElem_ofFn]
    exact store_inside tab base cells hi

end Store

theorem length_bytesToRegisters (little : Bool) (n : Nat) (bytes : List Byte)
    (h : bytes.length = 2 * n) : (bytesToRegisters little bytes).length = n := by
  induction n generalizing bytes with
  | zero => rw [List.length_eq_zero_iff.mp h]; rfl
  | succ n ih =>
    match bytes, h with
    | b0 :: b1 :: rest, h =>
      rw [bytesToRegisters, List.length_cons, ih rest (by simp only [List.length_cons] at h; omega)]

/-- Registers written byte by byte have the written bytes as their memory image. -/
theorem registerImage_bytesToRegisters (little : Bool) (n : Nat) (bytes : List Byte)
    (h : bytes.length = 2 * n) : registerImage little (bytesToRegisters little bytes) = bytes := by
  induction n generalizing bytes with
  | zero => rw [List.length_eq_zero_iff.mp h]; rfl
  | succ n ih =>
    match bytes, h with
    | b0 :: b1 :: rest, h =>
      have hrest := ih rest (by simp only [List.length_cons] at h; omega)
      have hlt : fromImage little [b0, b1] < 2 ^ 16 := by simpa using fromImage_lt little [b0, b1]
      have hpair := image_fromImage little [b0, b1]
      simp only [registerImage, bytesToRegisters, List.flatMap_cons] at hrest ⊢
      rw [hrest, BitVec.toNat_ofNat, Nat.mod_eq_of_lt hlt]
      exact congrArg (· ++ rest) hpair

/-- The copy loop of the slave followed by the copy loop of the master. -/
theorem copied_back (little : Bool) (n value : Nat) :
    fromImage little (endianCopy little (2 * n) (registerImage little (bytesToRegisters little
      (endianCopy little (2 * n) (image little (2 * n) value))))) = value % 256 ^ (2 * n) := by
  have hback := endianCopy_twice little (image little (2 * n) value)
  rw [length_image] at hback
  rw [registerImage_bytesToRegisters little n _ (length_endianCopy little _ _), hback,
    fromImage_image]

/-- The channel is one of the IO variables. -/
def InField (s : ModbusSlaveDrv) (tAddr : IOAddr) : Prop :=
  s.muiNumROInts.toNat < tAddr.uiChannel.toNat ∧
    tAddr.uiChannel.toNat ≤ s.muiNumROInts.toNat + s.muiNumIOVars.toNat

/-- The channel is one of the RO ints. -/
def InRO (s : ModbusSlaveDrv) (tAddr : IOAddr) : Prop :=
  1 ≤ tAddr.uiChannel.toNat ∧ tAddr.uiChannel.toNat ≤ s.muiNumROInts.toNat

/-- Position of a channel among the IO variables. -/
def pos (s : ModbusSlaveDrv) (tAddr : IOAddr) : Nat :=
  tAddr.uiChannel.toNat - s.muiNumROInts.toNat - 1

/-- The tables have the sizes of the counts, which do not overflow. -/
structure Shaped (s : ModbusSlaveDrv) : Prop where
  small : s.muiNumIOVars.toNat * 4 + s.muiNumROInts.toNat * 2 < 2 ^ 31
  bits : s.mpMBmapping.startBits = 1 ∧ s.mpMBmapping.nbBits = s.muiNumIOVars.toNat
  inputBits : s.mpMBmapping.startInputBits = 10001 ∧
    s.mpMBmapping.nbInputBits = s.muiNumIOVars.toNat * 2
  registers : s.mpMBmapping.startRegisters = 40001 ∧
    s.mpMBmapping.nbRegisters = s.muiNumIOVars.toNat * 4
  inputRegisters : s.mpMBmapping.startInputRegisters = 30001 ∧
    s.mpMBmapping.nbInputRegisters = s.muiNumIOVars.toNat * 4 + s.muiNumROInts.toNat * 2

structure Initialised (s : ModbusSlaveDrv) : Prop extends Shaped s where
  state : s.mtDrvState ≠ .unInit

/-- The loop of `initMapping` changes coils only. -/
theorem setForced_loop (vars : List (BitVec 32 × IOAddr)) (s : ModbusSlaveDrv) :
    ∃ tabBits, vars.foldl (fun s var => s.setForced var.2.uiChannel false) s =
      { s with mpMBmapping := { s.mpMBmapping with tabBits := tabBits } } := by
  induction vars generalizing s with
  | nil => exact ⟨s.mpMBmapping.tabBits, rfl⟩
  | cons var vars ih => exact ih (s.setForced var.2.uiChannel false)

theorem newMapping_shaped {s : ModbusSlaveDrv}
    (h : s.muiNumIOVars.toNat * 4 + s.muiNumROInts.toNat * 2 < 2 ^ 31) :
    Shaped { s with mpMBmapping := s.newMapping } := by
  refine ⟨h, ⟨rfl, ?_⟩, ⟨rfl, ?_⟩, ⟨rfl, ?_⟩, ⟨rfl, ?_⟩⟩ <;>
    simp only [ModbusSlaveDrv.newMapping, ModbusMapping.newStartAddress, SlaveDriver.COILOFFSET,
      SlaveDriver.DIOFFSET, SlaveDriver.HROFFSET, SlaveDriver.IROFFSET, BitVec.toNat_add,
      BitVec.toNat_mul, BitVec.ofNat_eq_ofNat, BitVec.toNat_ofNat] <;>
    omega

/-- A successful `init` with counts that do not overflow. -/
theorem init_initialised {s s' : ModbusSlaveDrv} {file : Except String (Option SlaveXml)}
    {newTcp newMap : Bool} {strerror : String}
    (h : s.init file newTcp newMap strerror = (true, s'))
    (hsmall : s'.muiNumIOVars.toNat * 4 + s'.muiNumROInts.toNat * 2 < 2 ^ 31) :
    Initialised s' := by
  unfold ModbusSlaveDrv.init at h
  split at h
  · cases h
  split at h
  · cases h
  · rename_i s1 _
    simp only at h
    split at h
    · cases h
    split at h
    · cases h
    split at h
    · cases h
    obtain ⟨tabBits, htab⟩ := setForced_loop _ _
    rw [ModbusSlaveDrv.initMapping, htab] at h
    obtain rfl := (Prod.mk.inj h).2
    have hshaped := newMapping_shaped (s := s1) hsmall
    exact ⟨⟨hshaped.small, hshaped.bits, hshaped.inputBits, hshaped.registers,
      hshaped.inputRegisters⟩, fun hc => by cases hc⟩

theorem numVar_toNat {s : ModbusSlaveDrv} {tAddr : IOAddr} (h : InField s tAddr) :
    (MasterDriver.numVar s.muiNumROInts tAddr).toNat = pos s tAddr + 1 := by
  obtain ⟨hlo, _⟩ := h
  have hch := tAddr.uiChannel.isLt
  simp only [MasterDriver.numVar, pos, BitVec.toNat_sub, BitVec.toNat_setWidth]
  omega

theorem pos_lt {s : ModbusSlaveDrv} {tAddr : IOAddr} (h : InField s tAddr) :
    pos s tAddr < s.muiNumIOVars.toNat ∧ pos s tAddr + s.muiNumROInts.toNat < 255 := by
  obtain ⟨hlo, hhi⟩ := h
  have hch := tAddr.uiChannel.isLt
  simp only [pos]
  omega

theorem reply_eq {A : Type} {start nb p n : Nat} {tab : Nat → A} {addr : BitVec 32}
    (haddr : addr.toNat = start + p) (hwire : start + p < 2 ^ 16) (hfits : p + n ≤ nb) :
    ModbusMapping.reply start nb tab addr n = some (block tab p n) := by
  have hw : (addr.setWidth 16).toNat = start + p := by
    rw [BitVec.toNat_setWidth, haddr, Nat.mod_eq_of_lt hwire]
  simp only [ModbusMapping.reply]
  simp only [hw, Nat.add_sub_cancel_left]
  rw [if_pos ⟨Nat.le_add_right start p, hfits⟩]

theorem writeReply_eq {A : Type} {start nb p : Nat} {tab : Nat → A} {addr : BitVec 32}
    {cells : List A} (haddr : addr.toNat = start + p) (hwire : start + p < 2 ^ 16)
    (hfits : p + cells.length ≤ nb) :
    ModbusMapping.writeReply start nb tab addr cells = some (store tab p cells) := by
  have hw : (addr.setWidth 16).toNat = start + p := by
    rw [BitVec.toNat_setWidth, haddr, Nat.mod_eq_of_lt hwire]
  simp only [ModbusMapping.writeReply]
  simp only [hw, Nat.add_sub_cancel_left]
  rw [if_pos ⟨Nat.le_add_right start p, hfits⟩]

section Requests
variable {s : ModbusSlaveDrv} {tAddr : IOAddr}

theorem coilAddr_toNat (h : InField s tAddr) :
    (coilAddr (MasterDriver.numVar s.muiNumROInts tAddr)).toNat = 1 + pos s tAddr := by
  have hnum := numVar_toNat h
  obtain ⟨_, hsmall⟩ := pos_lt h
  simp only [coilAddr, MasterDriver.COILADDRESS, MasterDriver.COILOFFSET, BitVec.toNat_add,
    BitVec.toNat_sub, BitVec.toNat_mul, hnum, BitVec.ofNat_eq_ofNat, BitVec.toNat_ofNat]
  omega

theorem hrAddr_toNat (h : InField s tAddr) :
    (hrAddr (MasterDriver.numVar s.muiNumROInts tAddr)).toNat = 40001 + pos s tAddr * 4 := by
  have hnum := numVar_toNat h
  obtain ⟨_, hsmall⟩ := pos_lt h
  simp only [hrAddr, MasterDriver.HRADDRESS, MasterDriver.HROFFSET, BitVec.toNat_add,
    BitVec.toNat_sub, BitVec.toNat_mul, hnum, BitVec.ofNat_eq_ofNat, BitVec.toNat_ofNat]
  omega

theorem reply_registers (hs : Initialised s) (h : InField s tAddr) (n : Nat) (hn : n ≤ 4) :
    s.mpMBmapping.replyRegisters (hrAddr (MasterDriver.numVar s.muiNumROInts tAddr)) n =
      some (block s.mpMBmapping.tabRegisters (pos s tAddr * 4) n) := by
  obtain ⟨hlt, hsmall⟩ := pos_lt h
  simp only [ModbusMapping.replyRegisters]
  rw [hs.registers.1, hs.registers.2]
  exact reply_eq (hrAddr_toNat h) (by omega) (by omega)

theorem reply_inputRegisters (hs : Initialised s) (h : InField s tAddr) :
    s.mpMBmapping.replyInputRegisters
        (irAddr (MasterDriver.numVar s.muiNumROInts tAddr) s.muiNumROInts) 4 =
      some (block s.mpMBmapping.tabInputRegisters
        (pos s tAddr * 4 + s.muiNumROInts.toNat * 2) 4) := by
  have hnum := numVar_toNat h
  obtain ⟨hlt, hsmall⟩ := pos_lt h
  simp only [ModbusMapping.replyInputRegisters]
  rw [hs.inputRegisters.1, hs.inputRegisters.2]
  refine reply_eq ?_ (by omega) (by omega)
  simp only [irAddr, MasterDriver.IRADDRESS, MasterDriver.IROFFSET, BitVec.toNat_add,
    BitVec.toNat_sub, BitVec.toNat_mul, hnum, BitVec.ofNat_eq_ofNat, BitVec.toNat_ofNat]
  omega

theorem reply_inputBits (hs : Initialised s) (h : InField s tAddr) :
    s.mpMBmapping.replyInputBits (diAddr (MasterDriver.numVar s.muiNumROInts tAddr)) 2 =
      some (block s.mpMBmapping.tabInputBits (pos s tAddr * 2) 2) := by
  have hnum := numVar_toNat h
  obtain ⟨hlt, hsmall⟩ := pos_lt h
  simp only [ModbusMapping.replyInputBits]
  rw [hs.inputBits.1, hs.inputBits.2]
  refine reply_eq ?_ (by omega) (by omega)
  simp only [diAddr, MasterDriver.DIADDRESS, MasterDriver.DIOFFSET, BitVec.toNat_add,
    BitVec.toNat_sub, BitVec.toNat_mul, hnum, BitVec.ofNat_eq_ofNat, BitVec.toNat_ofNat]
  omega

theorem reply_bits (hs : Initialised s) (h : InField s tAddr) :
    s.mpMBmapping.replyBits (coilAddr (MasterDriver.numVar s.muiNumROInts tAddr)) 1 =
      some (block s.mpMBmapping.tabBits (pos s tAddr) 1) := by
  obtain ⟨hlt, hsmall⟩ := pos_lt h
  simp only [ModbusMapping.replyBits]
  rw [hs.bits.1, hs.bits.2]
  exact reply_eq (coilAddr_toNat h) (by omega) (by omega)

theorem reply_ro (hs : Initialised s) (h : InRO s tAddr) :
    s.mpMBmapping.replyInputRegisters (roAddr tAddr) 2 =
      some (block s.mpMBmapping.tabInputRegisters ((tAddr.uiChannel.toNat - 1) * 2) 2) := by
  obtain ⟨hlo, hhi⟩ := h
  have hch := tAddr.uiChannel.isLt
  simp only [ModbusMapping.replyInputRegisters]
  rw [hs.inputRegisters.1, hs.inputRegisters.2]
  refine reply_eq ?_ (by omega) (by omega)
  simp only [roAddr, MasterDriver.IRADDRESS, BitVec.toNat_add, BitVec.toNat_sub,
    BitVec.toNat_mul, BitVec.toNat_setWidth, BitVec.ofNat_eq_ofNat, BitVec.toNat_ofNat]
  omega

end Requests

/-- Every answer of the bus is the answer of the slave's tables. -/
structure Serves (m : ModbusMapping) (bus : Bus) : Prop where
  registers : ∀ i a n v, bus.readRegisters i a n = some v → m.replyRegisters a n = some v
  inputRegisters : ∀ i a n v,
    bus.readInputRegisters i a n = some v → m.replyInputRegisters a n = some v
  inputBits : ∀ i a n v, bus.readInputBits i a n = some v → m.replyInputBits a n = some v
  bits : ∀ i a n v, bus.readBits i a n = some v → m.replyBits a n = some v

/-- A bus on which no transfer is lost. -/
def directBus (m : ModbusMapping) : Bus where
  readRegisters _ a n := m.replyRegisters a n
  readInputRegisters _ a n := m.replyInputRegisters a n
  readInputBits _ a n := m.replyInputBits a n
  readBits _ a n := m.replyBits a n
  writeBit _ _ _ := .lost
  writeRegisters _ _ _ := .lost
  strerror := ""

theorem directBus_serves (m : ModbusMapping) : Serves m (directBus m) :=
  ⟨fun _ _ _ _ h => h, fun _ _ _ _ h => h, fun _ _ _ _ h => h, fun _ _ _ _ h => h⟩

/-- What the tables hold for an IO variable, as the master decodes it. -/
def fieldReading (L : FloatAbcd) (s : ModbusSlaveDrv) (tAddr : IOAddr) : FieldReading :=
  let uiVal := fun i => s.mpMBmapping.tabRegisters (pos s tAddr * 4 + i)
  { fTrueVal := L.getFloatAbcd (uiVal 0) (uiVal 1)
    fForcedVal := L.getFloatAbcd (uiVal 2) (uiVal 3)
    iTimeS := getTimeS s.mbArchLittleEnd (block s.mpMBmapping.tabInputRegisters
      (pos s tAddr * 4 + s.muiNumROInts.toNat * 2) 4)
    tqstate := MasterDriver.getQState (block s.mpMBmapping.tabInputBits (pos s tAddr * 2) 2)
    bForced := s.mpMBmapping.tabBits (pos s tAddr) }

/-- What the tables hold for a channel polled as a Modbus variable. -/
def modbusReading (L : FloatAbcd) (s : ModbusSlaveDrv) (tAddr : IOAddr) : ModbusReading :=
  if isROInt s.muiNumROInts tAddr then
    .roInt (getInt s.mbArchLittleEnd
      (block s.mpMBmapping.tabInputRegisters ((tAddr.uiChannel.toNat - 1) * 2) 2))
  else
    let uiVal := fun i => s.mpMBmapping.tabRegisters (pos s tAddr * 4 + i)
    .current (L.getFloatAbcd (uiVal 0) (uiVal 1))

/-- A successful poll of the channel as a field variable yields `r`, and one
that meets no failure is successful. -/
def PollsField (L : FloatAbcd) (s : ModbusSlaveDrv) (tAddr : IOAddr) (r : FieldReading) : Prop :=
  fetchField L s.mbArchLittleEnd s.muiNumROInts (directBus s.mpMBmapping) tAddr = some r ∧
    ∀ bus, Serves s.mpMBmapping bus → ∀ r',
      fetchField L s.mbArchLittleEnd s.muiNumROInts bus tAddr = some r' → r' = r

/-- The same of a poll as a Modbus variable. -/
def PollsModbus (L : FloatAbcd) (s : ModbusSlaveDrv) (tAddr : IOAddr) (r : ModbusReading) :
    Prop :=
  fetchModbus L s.mbArchLittleEnd s.muiNumROInts (directBus s.mpMBmapping) tAddr = some r ∧
    ∀ bus, Serves s.mpMBmapping bus → ∀ r',
      fetchModbus L s.mbArchLittleEnd s.muiNumROInts bus tAddr = some r' → r' = r

section Polls
variable {s : ModbusSlaveDrv} {tAddr : IOAddr}

/-- The transfers that have succeeded so far hold the answers of the tables. -/
def ReadsOk (s : ModbusSlaveDrv) (tAddr : IOAddr) (r : FieldReads) : Prop :=
  (∀ v, r.uiVals = some v → v = block s.mpMBmapping.tabRegisters (pos s tAddr * 4) 4) ∧
  (∀ v, r.uiTS = some v → v = block s.mpMBmapping.tabInputRegisters
    (pos s tAddr * 4 + s.muiNumROInts.toNat * 2) 4) ∧
  (∀ v, r.uiQstate = some v → v = block s.mpMBmapping.tabInputBits (pos s tAddr * 2) 2) ∧
  ∀ v, r.uiForced = some v → v = block s.mpMBmapping.tabBits (pos s tAddr) 1

theorem of_orElse {A : Type} {old new : Option A} {v : A} (h : (old <|> new) = some v) :
    old = some v ∨ new = some v := by
  cases old with
  | none => exact Or.inr h
  | some _ => exact Or.inl h

theorem of_guarded {A : Type} {c : Prop} [Decidable c] {old new : Option A} {v : A}
    (h : (if c then old <|> new else old) = some v) : old = some v ∨ new = some v := by
  split at h
  · exact of_orElse h
  · exact Or.inl h

theorem attempt_ok (hs : Initialised s) (h : InField s tAddr) {bus : Bus}
    (hbus : Serves s.mpMBmapping bus) (n : Nat) (r : FieldReads) (hr : ReadsOk s tAddr r) :
    ReadsOk s tAddr
      (r.attempt bus (MasterDriver.numVar s.muiNumROInts tAddr) s.muiNumROInts n) := by
  obtain ⟨hvals, hts, hq, hforced⟩ := hr
  refine ⟨fun v hv => ?_, fun v hv => ?_, fun v hv => ?_, fun v hv => ?_⟩
  · rcases of_orElse hv with hv | hv
    · exact hvals v hv
    · have := hbus.registers _ _ _ _ hv
      rw [reply_registers hs h 4 le_rfl] at this
      exact (Option.some.inj this).symm
  · rcases of_guarded hv with hv | hv
    · exact hts v hv
    · have := hbus.inputRegisters _ _ _ _ hv
      rw [reply_inputRegisters hs h] at this
      exact (Option.some.inj this).symm
  · rcases of_guarded hv with hv | hv
    · exact hq v hv
    · have := hbus.inputBits _ _ _ _ hv
      rw [reply_inputBits hs h] at this
      exact (Option.some.inj this).symm
  · rcases of_guarded hv with hv | hv
    · exact hforced v hv
    · have := hbus.bits _ _ _ _ hv
      rw [reply_bits hs h] at this
      exact (Option.some.inj this).symm

/-- However many attempts it takes, a successful poll decodes the tables. -/
theorem fetchField_serves (hs : Initialised s) (h : InField s tAddr) {bus : Bus}
    (hbus : Serves s.mpMBmapping bus) {r : FieldReading}
    (hr : fetchField L s.mbArchLittleEnd s.muiNumROInts bus tAddr = some r) :
    r = fieldReading L s tAddr := by
  have hreads : ReadsOk s tAddr (retryLoop (fun _ r => (!FieldReads.complete r, r))
      (FieldReads.attempt bus (MasterDriver.numVar s.muiNumROInts tAddr) s.muiNumROInts)
      MAX_TRANSMISSION_TRYS 0 {}).2 := by
    refine retryLoop_invariant (fun _ _ h => h) (fun n r => attempt_ok hs h hbus n r) _ _ _ ?_
    refine ⟨?_, ?_, ?_, ?_⟩ <;> exact fun v hv => absurd hv (by simp)
  unfold fetchField at hr
  simp only at hr
  split at hr
  · cases hr
  · split at hr
    · rename_i uiVals uiTS uiQstate uiForced heq
      rw [heq] at hreads
      obtain ⟨hvals, hts, hq, hforced⟩ := hreads
      rw [← Option.some.inj hr, hvals _ rfl, hts _ rfl, hq _ rfl, hforced _ rfl]
      rfl
    · cases hr

theorem pollsField_iff (hs : Initialised s) (h : InField s tAddr) (r : FieldReading) :
    PollsField L s tAddr r ↔ r = fieldReading L s tAddr := by
  have hdirect := fetchField_first (L := L) (b := directBus s.mpMBmapping)
    s.mbArchLittleEnd (reply_registers hs h 4 le_rfl) (reply_inputRegisters hs h)
    (reply_inputBits hs h) (reply_bits hs h)
  constructor
  · rintro ⟨hr, _⟩
    exact fetchField_serves hs h (directBus_serves _) hr
  · rintro rfl
    exact ⟨hdirect, fun bus hbus r' hr' => fetchField_serves hs h hbus hr'⟩

theorem isROInt_of_field (h : InField s tAddr) : isROInt s.muiNumROInts tAddr = false := by
  have hch := tAddr.uiChannel.isLt
  simp only [isROInt, decide_eq_false_iff_not, not_and, BitVec.not_le, BitVec.lt_def,
    BitVec.toNat_setWidth]
  intro _
  have := h.1
  omega

theorem isROInt_of_ro (h : InRO s tAddr) : isROInt s.muiNumROInts tAddr = true := by
  have hch := tAddr.uiChannel.isLt
  simp only [isROInt, decide_eq_true_eq, BitVec.le_def, BitVec.toNat_setWidth, BitVec.toNat_ofNat]
  have := h.1
  have := h.2
  omega

theorem readLoop_serves {n : Nat} {transfer : Nat → Option (Fin n → BitVec 16)}
    {w v : Fin n → BitVec 16} (h : ∀ i v, transfer i = some v → v = w)
    (hv : (readLoop transfer).2 = some v) : v = w := by
  have hall : ∀ v, (readLoop transfer).2 = some v → v = w :=
    retryLoop_invariant (P := fun r : Option (Fin n → BitVec 16) => ∀ v, r = some v → v = w)
      (fun i _ _ => h i) (fun _ _ hr => hr) _ _ _ (fun v hv => absurd hv (by simp))
  exact hall v hv

theorem fetchModbus_serves (hs : Initialised s) (h : InField s tAddr ∨ InRO s tAddr) {bus : Bus}
    (hbus : Serves s.mpMBmapping bus) {r : ModbusReading}
    (hr : fetchModbus L s.mbArchLittleEnd s.muiNumROInts bus tAddr = some r) :
    r = modbusReading L s tAddr := by
  simp only [fetchModbus] at hr
  simp only [modbusReading]
  rcases h with h | h
  · rw [isROInt_of_field h] at hr ⊢
    simp only [Bool.false_eq_true, if_false] at hr ⊢
    split at hr
    · cases hr
    · obtain ⟨u, hu, rfl⟩ := Option.map_eq_some_iff.mp hr
      have hserved : u = block s.mpMBmapping.tabRegisters (pos s tAddr * 4) 2 := by
        refine readLoop_serves (fun i v hv => ?_) hu
        have := hbus.registers _ _ _ _ hv
        rw [reply_registers hs h 2 (by omega)] at this
        exact (Option.some.inj this).symm
      rw [hserved]
      rfl
  · rw [isROInt_of_ro h] at hr ⊢
    simp only [if_true] at hr ⊢
    split at hr
    · cases hr
    · obtain ⟨u, hu, rfl⟩ := Option.map_eq_some_iff.mp hr
      rw [readLoop_serves
        (w := block s.mpMBmapping.tabInputRegisters ((tAddr.uiChannel.toNat - 1) * 2) 2) ?_ hu]
      intro i v hv
      have := hbus.inputRegisters _ _ _ _ hv
      rw [reply_ro hs h] at this
      exact (Option.some.inj this).symm

theorem pollsModbus_iff (hs : Initialised s) (h : InField s tAddr ∨ InRO s tAddr)
    (r : ModbusReading) : PollsModbus L s tAddr r ↔ r = modbusReading L s tAddr := by
  have hdirect : fetchModbus L s.mbArchLittleEnd s.muiNumROInts (directBus s.mpMBmapping) tAddr =
      some (modbusReading L s tAddr) := by
    simp only [modbusReading]
    rcases h with h | h
    · have hro := isROInt_of_field h
      rw [fetchModbus_current s.mbArchLittleEnd hro (reply_registers hs h 2 (by omega)), hro]
      rfl
    · have hro := isROInt_of_ro h
      rw [fetchModbus_roInt s.mbArchLittleEnd hro (reply_ro hs h), hro]
      rfl
  constructor
  · rintro ⟨hr, _⟩
    exact fetchModbus_serves hs h (directBus_serves _) hr
  · rintro rfl
    exact ⟨hdirect, fun bus hbus r' hr' => fetchModbus_serves hs h hbus hr'⟩

end Polls

section Methods
variable {s : ModbusSlaveDrv} {tAddr : IOAddr}

theorem slaveNumVar_toNat (h : InField s tAddr) : (s.numVar tAddr).toNat = pos s tAddr + 1 := by
  have hch := tAddr.uiChannel.isLt
  have hlo := h.1
  simp only [ModbusSlaveDrv.numVar, pos, BitVec.toNat_setWidth, BitVec.toNat_sub]
  omega

theorem slaveAccepts (hs : Initialised s) (h : InField s tAddr) :
    ¬ (s.numVar tAddr < 1#8 ∨ (s.numVar tAddr).setWidth 32 > s.muiNumIOVars ∨
      s.mtDrvState = .unInit) := by
  have hnum := slaveNumVar_toNat h
  obtain ⟨hlt, hsmall⟩ := pos_lt h
  rintro (hc | hc | hc)
  · rw [BitVec.lt_def, hnum] at hc
    simp only [BitVec.toNat_ofNat] at hc
    omega
  · rw [gt_iff_lt, BitVec.lt_def, BitVec.toNat_setWidth, hnum] at hc
    omega
  · exact hs.state hc

theorem valAddr_toNat {u : BitVec 8} (hu : 1 ≤ u.toNat) (offset : Nat) (hoff : offset ≤ 4) :
    (ModbusSlaveDrv.valAddr offset u).toNat = (u.toNat - 1) * offset := by
  have hlt := u.isLt
  simp only [ModbusSlaveDrv.valAddr, BitVec.toNat_sub, BitVec.toNat_mul, BitVec.toNat_setWidth,
    BitVec.toNat_ofNat]
  interval_cases offset <;> omega

theorem slaveValAddr (h : InField s tAddr) (offset : Nat) (hoff : offset ≤ 4) :
    (ModbusSlaveDrv.valAddr offset (s.numVar tAddr)).toNat = pos s tAddr * offset := by
  have hnum := slaveNumVar_toNat h
  rw [valAddr_toNat (by omega) offset hoff, hnum, Nat.add_sub_cancel]

/-- A stored integer fills half as many registers as it has bytes. -/
theorem length_stored (little : Bool) (n value : Nat) :
    (bytesToRegisters little
      (endianCopy little (2 * n) (image little (2 * n) value))).length = n :=
  length_bytesToRegisters little n _ (length_endianCopy little _ _)

theorem getTimeS_stored (little : Bool) (tab : Nat → BitVec 16) (base : Nat) (x : BitVec 64) :
    getTimeS little (block (store tab base (bytesToRegisters little
      (endianCopy little 8 (image little 8 x.toNat)))) base 4) = x := by
  have hback := copied_back little 4 x.toNat
  have hx := x.isLt
  apply BitVec.eq_of_toNat_eq
  rw [getTimeS, ofFn_block_store tab base _ (length_stored little 4 x.toNat), BitVec.toNat_ofNat,
    hback]
  omega

theorem getInt_stored (little : Bool) (tab : Nat → BitVec 16) (base : Nat) (x : BitVec 32) :
    getInt little (block (store tab base (bytesToRegisters little
      (endianCopy little 4 (image little 4 x.toNat)))) base 2) = x := by
  have hback := copied_back little 2 x.toNat
  have hx := x.isLt
  apply BitVec.eq_of_toNat_eq
  rw [getInt, ofFn_block_store tab base _ (length_stored little 2 x.toNat), BitVec.toNat_ofNat,
    hback]
  omega

theorem getQState_stored (tab : Nat → Bool) (base : Nat) (q : QuState) :
    MasterDriver.getQState (block (store tab base [q.code.testBit 1, q.code.testBit 0]) base 2) =
      q := by
  have h0 := store_inside tab base [q.code.testBit 1, q.code.testBit 0] (i := 0) (by simp)
  have h1 := store_inside tab base [q.code.testBit 1, q.code.testBit 0] (i := 1) (by simp)
  simp only [MasterDriver.getQState, block, Fin.val_zero, Fin.val_one, h0, h1]
  cases q <;> rfl

theorem getFloat_stored (tab : Nat → BitVec 16) (base n : Nat) (h : 2 ≤ n) (f : Single) :
    L.getFloatAbcd
      (block (store tab base [(L.setFloatAbcd f).1, (L.setFloatAbcd f).2]) base n ⟨0, by omega⟩)
      (block (store tab base [(L.setFloatAbcd f).1, (L.setFloatAbcd f).2]) base n ⟨1, by omega⟩)
      = f := by
  have h0 := store_inside tab base [(L.setFloatAbcd f).1, (L.setFloatAbcd f).2] (i := 0)
    (by simp)
  have h1 := store_inside tab base [(L.setFloatAbcd f).1, (L.setFloatAbcd f).2] (i := 1)
    (by simp)
  simp only [block, h0, h1]
  exact L.get_set f

/-- Storing the value of a variable leaves its forced value alone. -/
theorem getFloat_beside (tab : Nat → BitVec 16) (base : Nat) (f : Single) :
    L.getFloatAbcd
      (block (store tab base [(L.setFloatAbcd f).1, (L.setFloatAbcd f).2]) base 4 2)
      (block (store tab base [(L.setFloatAbcd f).1, (L.setFloatAbcd f).2]) base 4 3) =
    L.getFloatAbcd (tab (base + 2)) (tab (base + 3)) :=
  congrArg₂ _ (store_outside tab base _ (Or.inr (by simp)))
    (store_outside tab base _ (Or.inr (by simp)))

theorem getForced_at {u : BitVec 8} (hu : 1 ≤ u.toNat) :
    s.getForced u = s.mpMBmapping.tabBits (u.toNat - 1) := by
  rw [ModbusSlaveDrv.getForced, valAddr_toNat hu _ (by decide), SlaveDriver.COILOFFSET,
    Nat.mul_one]

theorem getForcedVal_at {u : BitVec 8} (hu : 1 ≤ u.toNat) :
    s.getForcedVal L u = L.getFloatAbcd (s.mpMBmapping.tabRegisters ((u.toNat - 1) * 4 + 2))
      (s.mpMBmapping.tabRegisters ((u.toNat - 1) * 4 + 3)) := by
  have haddr := valAddr_toNat hu SlaveDriver.HROFFSET (by decide)
  have hlt := u.isLt
  have htwo : (ModbusSlaveDrv.valAddr SlaveDriver.HROFFSET u + 2).toNat =
      (u.toNat - 1) * 4 + 2 := by
    rw [BitVec.toNat_add, haddr, SlaveDriver.HROFFSET]
    simp only [BitVec.ofNat_eq_ofNat, BitVec.toNat_ofNat]
    omega
  rw [ModbusSlaveDrv.getForcedVal, htwo]

theorem getForced_eq (h : InField s tAddr) :
    s.getForced (s.numVar tAddr) = s.mpMBmapping.tabBits (pos s tAddr) := by
  have hnum := slaveNumVar_toNat h
  rw [getForced_at (by omega), hnum, Nat.add_sub_cancel]

theorem getForcedVal_eq (h : InField s tAddr) :
    s.getForcedVal L (s.numVar tAddr) =
      L.getFloatAbcd (s.mpMBmapping.tabRegisters (pos s tAddr * 4 + 2))
        (s.mpMBmapping.tabRegisters (pos s tAddr * 4 + 3)) := by
  have hnum := slaveNumVar_toNat h
  rw [getForcedVal_at (by omega), hnum, Nat.add_sub_cancel]

/-- The tables after a successful `updateFieldVar` of the variable at `tAddr`. -/
theorem updateFieldVar_eq (hs : Initialised s) (h : InField s tAddr) {var : IOVar}
    (hfind : s.mFieldVars.lookup var.muiVarId = some tAddr) :
    let var' : IOVar := { var with
      mfForcedVal := s.getForcedVal L (s.numVar tAddr)
      mbForcedVal := s.getForced (s.numVar tAddr) }
    s.updateFieldVar L var = (true, var', { s with mpMBmapping := { s.mpMBmapping with
      tabRegisters := store s.mpMBmapping.tabRegisters (pos s tAddr * 4)
        [(L.setFloatAbcd var.mfTrueVal).1, (L.setFloatAbcd var.mfTrueVal).2]
      tabInputBits := store s.mpMBmapping.tabInputBits (pos s tAddr * 2)
        [var'.getQState.code.testBit 1, var'.getQState.code.testBit 0]
      tabInputRegisters := store s.mpMBmapping.tabInputRegisters
        (pos s tAddr * 4 + s.muiNumROInts.toNat * 2) (bytesToRegisters s.mbArchLittleEnd
          (endianCopy s.mbArchLittleEnd 8 (image s.mbArchLittleEnd 8 var.miTimeS.toNat))) } }) := by
  intro var'
  have hnum := slaveNumVar_toNat h
  have hbits :
      (pos s tAddr + 1) * SlaveDriver.DIOFFSET - SlaveDriver.DIOFFSET = pos s tAddr * 2 := by
    simp only [SlaveDriver.DIOFFSET]; omega
  have hregs :
      (pos s tAddr + 1) * SlaveDriver.IROFFSET - SlaveDriver.IROFFSET = pos s tAddr * 4 := by
    simp only [SlaveDriver.IROFFSET]; omega
  have hints : (s.muiNumROInts * 2).toNat = s.muiNumROInts.toNat * 2 := by
    have hsmall := hs.small
    rw [BitVec.toNat_mul]
    simp only [BitVec.ofNat_eq_ofNat, BitVec.toNat_ofNat]
    omega
  simp only [ModbusSlaveDrv.updateFieldVar]
  rw [hfind]
  simp only [if_neg (slaveAccepts hs h), ModbusSlaveDrv.setCurrentVal, ModbusSlaveDrv.setQState,
    ModbusSlaveDrv.setTimeS, ModbusSlaveDrv.storeInt,
    slaveValAddr h SlaveDriver.HROFFSET (by decide), hnum, hbits, hregs, hints]
  rfl

theorem write_eq (hs : Initialised s) {var : IOVar} (h : InField s var.mtAddr) :
    s.write L var = (true, { s with mpMBmapping := { s.mpMBmapping with
      tabRegisters := store s.mpMBmapping.tabRegisters (pos s var.mtAddr * 4)
        [(L.setFloatAbcd var.mfTrueVal).1, (L.setFloatAbcd var.mfTrueVal).2] } }) := by
  simp only [ModbusSlaveDrv.write, if_neg (slaveAccepts hs h), ModbusSlaveDrv.setCurrentVal,
    slaveValAddr h SlaveDriver.HROFFSET (by decide)]
  rfl

theorem writeRO_eq (hs : Initialised s) (h : InRO s tAddr) (x : BitVec 32) :
    s.writeRO x tAddr = (true, { s with mpMBmapping := { s.mpMBmapping with
      tabInputRegisters := store s.mpMBmapping.tabInputRegisters ((tAddr.uiChannel.toNat - 1) * 2)
        (bytesToRegisters s.mbArchLittleEnd
          (endianCopy s.mbArchLittleEnd 4 (image s.mbArchLittleEnd 4 x.toNat))) } }) := by
  obtain ⟨hlo, hhi⟩ := h
  have hch := tAddr.uiChannel.isLt
  have haccept : ¬ (tAddr.uiChannel < 1#8 ∨ tAddr.uiChannel.setWidth 32 > s.muiNumROInts ∨
      s.mtDrvState = .unInit) := by
    rintro (hc | hc | hc)
    · rw [BitVec.lt_def] at hc
      simp only [BitVec.toNat_ofNat] at hc
      omega
    · rw [gt_iff_lt, BitVec.lt_def, BitVec.toNat_setWidth] at hc
      omega
    · exact hs.state hc
  simp only [ModbusSlaveDrv.writeRO, if_neg haccept, ModbusSlaveDrv.storeInt]

end Methods

section Transport
variable {s : ModbusSlaveDrv}

/-- Polling `d`, as a field variable or as a Modbus variable, gives the same before and after. -/
def SamePolls (L : FloatAbcd) (s s' : ModbusSlaveDrv) (d : IOAddr) : Prop :=
  (InField s d → ∀ r, PollsField L s' d r ↔ PollsField L s d r) ∧
  (InField s d ∨ InRO s d → ∀ r, PollsModbus L s' d r ↔ PollsModbus L s d r)

theorem pos_ne {c d : IOAddr} (hc : InField s c) (hd : InField s d)
    (h : d.uiChannel ≠ c.uiChannel) : pos s d ≠ pos s c := by
  have hne : d.uiChannel.toNat ≠ c.uiChannel.toNat := fun he => h (BitVec.eq_of_toNat_eq he)
  have := hc.1
  have := hd.1
  simp only [pos]
  omega

/-- The cells of one channel are the same in both mappings. -/
structure SameCells (s : ModbusSlaveDrv) (m : ModbusMapping) (d : IOAddr) : Prop where
  registers : block m.tabRegisters (pos s d * 4) 4 =
    block s.mpMBmapping.tabRegisters (pos s d * 4) 4
  inputRegisters : block m.tabInputRegisters (pos s d * 4 + s.muiNumROInts.toNat * 2) 4 =
    block s.mpMBmapping.tabInputRegisters (pos s d * 4 + s.muiNumROInts.toNat * 2) 4
  inputBits : block m.tabInputBits (pos s d * 2) 2 =
    block s.mpMBmapping.tabInputBits (pos s d * 2) 2
  bits : m.tabBits (pos s d) = s.mpMBmapping.tabBits (pos s d)

theorem samePolls_of_cells {m : ModbusMapping} (hs : Initialised s)
    (hs' : Initialised { s with mpMBmapping := m }) (d : IOAddr)
    (hfield : InField s d → SameCells s m d)
    (hro : InRO s d → block m.tabInputRegisters ((d.uiChannel.toNat - 1) * 2) 2 =
      block s.mpMBmapping.tabInputRegisters ((d.uiChannel.toNat - 1) * 2) 2) :
    SamePolls L s { s with mpMBmapping := m } d := by
  refine ⟨fun hd r => ?_, fun hd r => ?_⟩
  · have hcells := hfield hd
    rw [pollsField_iff hs' hd, pollsField_iff hs hd]
    have hregs : ∀ i < 4, m.tabRegisters (pos s d * 4 + i) =
        s.mpMBmapping.tabRegisters (pos s d * 4 + i) := fun i hi =>
      congrFun hcells.registers ⟨i, hi⟩
    have hsame : fieldReading L { s with mpMBmapping := m } d = fieldReading L s d := by
      simp only [fieldReading]
      rw [show pos { s with mpMBmapping := m } d = pos s d from rfl, hregs 0 (by omega),
        hregs 1 (by omega), hregs 2 (by omega), hregs 3 (by omega),
        hcells.inputRegisters, hcells.inputBits, hcells.bits]
    rw [hsame]
  · rw [pollsModbus_iff hs' hd, pollsModbus_iff hs hd]
    have hsame : modbusReading L { s with mpMBmapping := m } d = modbusReading L s d := by
      simp only [modbusReading]
      rcases hd with hd | hd
      · have hregs := (hfield hd).registers
        have h0 : m.tabRegisters (pos s d * 4 + 0) =
            s.mpMBmapping.tabRegisters (pos s d * 4 + 0) := congrFun hregs 0
        have h1 : m.tabRegisters (pos s d * 4 + 1) =
            s.mpMBmapping.tabRegisters (pos s d * 4 + 1) := congrFun hregs 1
        simp only [isROInt_of_field hd, Bool.false_eq_true, if_false]
        rw [show pos { s with mpMBmapping := m } d = pos s d from rfl, h0, h1]
      · simp only [isROInt_of_ro hd, if_true, hro hd]
    rw [hsame]

theorem updateFieldVar_transports (hs : Initialised s) {c : IOAddr} (hc : InField s c)
    {var : IOVar} (hfind : s.mFieldVars.lookup var.muiVarId = some c) :
    ∃ var' s', s.updateFieldVar L var = (true, var', s') ∧ Initialised s' ∧
      PollsField L s' c
        { fTrueVal := var.mfTrueVal, fForcedVal := s.getForcedVal L (s.numVar c)
          iTimeS := var.miTimeS, tqstate := var'.getQState
          bForced := s.getForced (s.numVar c) } ∧
      ∀ d, d.uiChannel ≠ c.uiChannel → SamePolls L s s' d := by
  have heq := updateFieldVar_eq (L := L) hs hc hfind
  have hlen := length_stored s.mbArchLittleEnd 4 var.miTimeS.toNat
  simp only at heq
  refine ⟨_, _, heq, ?hinit, (pollsField_iff ?hinit hc _).mpr ?_, fun d hd =>
    samePolls_of_cells hs ?hinit d (fun hd' => ?_) (fun hro => ?_)⟩
  case hinit =>
    exact ⟨⟨hs.small, hs.bits, hs.inputBits, hs.registers, hs.inputRegisters⟩, hs.state⟩
  · simp only [fieldReading, FieldReading.mk.injEq]
    refine ⟨(getFloat_stored _ _ 4 (by omega) _).symm, ?_, (getTimeS_stored _ _ _ _).symm,
      (getQState_stored _ _ _).symm, getForced_eq hc⟩
    rw [getForcedVal_eq hc]
    exact (getFloat_beside _ _ _).symm
  · have hne := pos_ne hc hd' hd
    refine ⟨block_store_outside _ _ _ ?_, block_store_outside _ _ _ ?_,
      block_store_outside _ _ _ ?_, rfl⟩
    · simp only [List.length_cons, List.length_nil]
      omega
    · rw [hlen]
      omega
    · simp only [List.length_cons, List.length_nil]
      omega
  · refine block_store_outside _ _ _ (Or.inl ?_)
    have := hro.1
    have := hro.2
    omega

theorem write_transports (hs : Initialised s) {var : IOVar} (hc : InField s var.mtAddr) :
    ∃ s', s.write L var = (true, s') ∧ Initialised s' ∧
      (∀ r, PollsField L s var.mtAddr r →
        PollsField L s' var.mtAddr { r with fTrueVal := var.mfTrueVal }) ∧
      ∀ d, d.uiChannel ≠ var.mtAddr.uiChannel → SamePolls L s s' d := by
  refine ⟨_, write_eq hs hc, ?hinit, fun r hr => (pollsField_iff ?hinit hc _).mpr ?_, fun d hd =>
    samePolls_of_cells hs ?hinit d (fun hd' => ?_) (fun _ => rfl)⟩
  case hinit =>
    exact ⟨⟨hs.small, hs.bits, hs.inputBits, hs.registers, hs.inputRegisters⟩, hs.state⟩
  · rw [(pollsField_iff hs hc r).mp hr]
    simp only [fieldReading, FieldReading.mk.injEq]
    exact ⟨(getFloat_stored _ _ 4 (by omega) _).symm, (getFloat_beside _ _ _).symm, rfl, rfl, rfl⟩
  · have hne := pos_ne hc hd' hd
    refine ⟨block_store_outside _ _ _ ?_, rfl, rfl, rfl⟩
    simp only [List.length_cons, List.length_nil]
    omega

theorem writeRO_transports (hs : Initialised s) {c : IOAddr} (hc : InRO s c) (x : BitVec 32) :
    ∃ s', s.writeRO x c = (true, s') ∧ Initialised s' ∧ PollsModbus L s' c (.roInt x) ∧
      ∀ d, d.uiChannel ≠ c.uiChannel → SamePolls L s s' d := by
  have hlen := length_stored s.mbArchLittleEnd 2 x.toNat
  refine ⟨_, writeRO_eq hs hc x, ?hinit, (pollsModbus_iff ?hinit (Or.inr hc) _).mpr ?_,
    fun d hd => samePolls_of_cells hs ?hinit d (fun hd' => ?_) (fun hro => ?_)⟩
  case hinit =>
    exact ⟨⟨hs.small, hs.bits, hs.inputBits, hs.registers, hs.inputRegisters⟩, hs.state⟩
  · simp only [modbusReading, isROInt_of_ro hc, if_true, getInt_stored]
  · refine ⟨rfl, block_store_outside _ _ _ (Or.inr ?_), rfl, rfl⟩
    rw [hlen]
    have := hc.1
    have := hc.2
    omega
  · have hne : d.uiChannel.toNat ≠ c.uiChannel.toNat := fun he => hd (BitVec.eq_of_toNat_eq he)
    apply block_store_outside
    rw [hlen]
    have := hc.1
    have := hro.1
    omega

/-- The slave's methods and the polls of a master on a host with the same byte
order agree on every channel: an update, a write or an RO int is what a poll of
its channel yields, and no poll of another channel changes. -/
theorem register_map_transports (s : ModbusSlaveDrv) (hs : Initialised s) :
    (∀ var c, s.mFieldVars.lookup var.muiVarId = some c → InField s c →
      ∃ var' s', s.updateFieldVar L var = (true, var', s') ∧ Initialised s' ∧
        PollsField L s' c
          { fTrueVal := var.mfTrueVal, fForcedVal := s.getForcedVal L (s.numVar c)
            iTimeS := var.miTimeS, tqstate := var'.getQState
            bForced := s.getForced (s.numVar c) } ∧
        ∀ d, d.uiChannel ≠ c.uiChannel → SamePolls L s s' d) ∧
    (∀ var, InField s var.mtAddr → ∃ s', s.write L var = (true, s') ∧ Initialised s' ∧
      (∀ r, PollsField L s var.mtAddr r →
        PollsField L s' var.mtAddr { r with fTrueVal := var.mfTrueVal }) ∧
      ∀ d, d.uiChannel ≠ var.mtAddr.uiChannel → SamePolls L s s' d) ∧
    ∀ x c, InRO s c → ∃ s', s.writeRO x c = (true, s') ∧ Initialised s' ∧
      PollsModbus L s' c (.roInt x) ∧
      ∀ d, d.uiChannel ≠ c.uiChannel → SamePolls L s s' d :=
  ⟨fun _ _ hfind hc => updateFieldVar_transports hs hc hfind,
    fun _ hc => write_transports hs hc, fun x _ hc => writeRO_transports hs hc x⟩

end Transport

/-- A slave with one RO int and two variables, the second of them a field variable. -/
def smallSlave : ModbusSlaveDrv :=
  { mbArchLittleEnd := true, mFieldVars := [(7, { uiChannel := 3 })], mstrServerIp := "127.0.0.1"
    miPort := 502, muiNumIOVars := 2, muiNumROInts := 1, mpMBCtx := some ("127.0.0.1", 502)
    mpMBmapping := .newStartAddress 1 2 10001 4 40001 8 30001 10
    uiComErrors := 0, mtDrvState := .stopped, mstrLastError := "" }

theorem smallSlave_initialised : Initialised smallSlave :=
  ⟨⟨by decide, by decide, by decide, by decide, by decide⟩, by decide⟩

theorem smallSlave_update :
    ∃ var' s', smallSlave.updateFieldVar floatAbcd
        { muiVarId := 7, miTimeS := 1234, mfTrueVal := 5, mfForcedVal := 0, mtAddr := {}
          mtQState := .overRange, mbForcedVal := false } = (true, var', s') ∧
      PollsField floatAbcd s' { uiChannel := 3 }
        { fTrueVal := 5, fForcedVal := 0, iTimeS := 1234, tqstate := .overRange
          bForced := false } := by
  obtain ⟨var', s', heq, _, hpoll, _⟩ :=
    (register_map_transports (L := floatAbcd) smallSlave smallSlave_initialised).1
      { muiVarId := 7, miTimeS := 1234, mfTrueVal := 5, mfForcedVal := 0, mtAddr := {}
        mtQState := .overRange, mbForcedVal := false } { uiChannel := 3 } (by decide)
      ⟨by decide, by decide⟩
  refine ⟨var', s', heq, ?_⟩
  have hvar : var'.getQState = .overRange := by
    rw [← (Prod.mk.inj (Prod.mk.inj heq).2).1]
    decide
  rw [hvar] at hpoll
  exact hpoll

end RegisterMap
