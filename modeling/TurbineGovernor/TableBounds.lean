import TurbineGovernor.ChannelOwnership
import TurbineGovernor.RegisterMap
import TurbineGovernor.TransitionRuns

/-!
# The bounds of the slave tables

Every helper of the slave computes an index of its own into one of the four
tables, while the ranges are checked by some of its callers only. The cells
that each call uses are written down beside the model, which is shown to use no
others; the sizes of the tables then decide which configurations are safe.
-/

namespace TableBounds
open CommonTypes ByteOrder SlaveDriver SlaveDriver.ModbusSlaveDrv RegisterMap ChannelOwnership
open TransitionRuns

inductive Table where
  | bits
  | inputBits
  | registers
  | inputRegisters
  deriving DecidableEq

/-- The `n` cells of a table from `base` on. -/
structure Cells where
  table : Table
  base : Nat
  n : Nat

def size (m : ModbusMapping) : Table → Nat
  | .bits => m.nbBits
  | .inputBits => m.nbInputBits
  | .registers => m.nbRegisters
  | .inputRegisters => m.nbInputRegisters

def Cells.Inside (c : Cells) (m : ModbusMapping) : Prop := c.base + c.n ≤ size m c.table

instance (c : Cells) (m : ModbusMapping) : Decidable (c.Inside m) := Nat.decLe _ _

def Covered (cells : List Cells) (t : Table) (i : Nat) : Prop :=
  ∃ c ∈ cells, c.table = t ∧ c.base ≤ i ∧ i < c.base + c.n

def SameCell (m m' : ModbusMapping) (i : Nat) : Table → Prop
  | .bits => m.tabBits i = m'.tabBits i
  | .inputBits => m.tabInputBits i = m'.tabInputBits i
  | .registers => m.tabRegisters i = m'.tabRegisters i
  | .inputRegisters => m.tabInputRegisters i = m'.tabInputRegisters i

theorem sameCell_refl (m : ModbusMapping) (i : Nat) (t : Table) : SameCell m m i t := by
  cases t <;> rfl

theorem outside_of_not_covered {cells : List Cells} {c : Cells} (hc : c ∈ cells) {i : Nat}
    (h : ¬ Covered cells c.table i) : i < c.base ∨ c.base + c.n ≤ i := by
  by_contra hin
  exact h ⟨c, hc, rfl, by omega, by omega⟩

def forcedCells (uiVar : BitVec 8) : Cells := ⟨.bits, (valAddr COILOFFSET uiVar).toNat, 1⟩

def currentCells (uiVar : BitVec 8) : Cells := ⟨.registers, (valAddr HROFFSET uiVar).toNat, 2⟩

def forcedValCells (uiVar : BitVec 8) : Cells :=
  ⟨.registers, (valAddr HROFFSET uiVar + 2).toNat, 2⟩

def qStateCells (uiVar : BitVec 8) : Cells :=
  ⟨.inputBits, uiVar.toNat * DIOFFSET - DIOFFSET, 2⟩

def timeCells (s : ModbusSlaveDrv) (uiVar : BitVec 8) : Cells :=
  ⟨.inputRegisters, uiVar.toNat * IROFFSET - IROFFSET + (s.muiNumROInts * 2).toNat, 4⟩

def intCells (uiNumVar : BitVec 8) : Cells := ⟨.inputRegisters, (uiNumVar.toNat - 1) * 2, 2⟩

/-- The calls of the regulator; the state changes when the driver is started,
stopped or closed and when its thread meets an error. -/
inductive Call where
  | read (var : IOVar) (now : BitVec 64)
  | write (var : IOVar)
  | updateFieldVar (var : IOVar)
  | writeRO (iVal : BitVec 32) (addr : IOAddr)
  | setState (tState : DrvState)

def step (L : FloatAbcd) (s : ModbusSlaveDrv) : Call → ModbusSlaveDrv
  | .read _ _ => s
  | .write var => (s.write L var).2
  | .updateFieldVar var => (s.updateFieldVar L var).2.2
  | .writeRO iVal addr => (s.writeRO iVal addr).2
  | .setState tState => { s with mtDrvState := tState }

/-- What the caller gets back. -/
def answer (L : FloatAbcd) (s : ModbusSlaveDrv) : Call → Bool × Option IOVar
  | .read var now => ((s.read L var now).1, some (s.read L var now).2)
  | .write var => ((s.write L var).1, none)
  | .updateFieldVar var => ((s.updateFieldVar L var).1, some (s.updateFieldVar L var).2.1)
  | .writeRO iVal addr => ((s.writeRO iVal addr).1, none)
  | .setState _ => (true, none)

/-- The check of the callers, on the number that they have computed. -/
abbrev Rejects (s : ModbusSlaveDrv) (count : BitVec 32) (uiNumVar : BitVec 8) : Prop :=
  uiNumVar < 1#8 ∨ uiNumVar.setWidth 32 > count ∨ s.mtDrvState = .unInit

def accesses (s : ModbusSlaveDrv) : Call → List Cells
  | .read var _ =>
    if Rejects s s.muiNumIOVars (s.numVar var.mtAddr) then []
    else [currentCells (s.numVar var.mtAddr)]
  | .write var =>
    if Rejects s s.muiNumIOVars (s.numVar var.mtAddr) then []
    else [currentCells (s.numVar var.mtAddr)]
  | .updateFieldVar var =>
    match s.mFieldVars.lookup var.muiVarId with
    | none => []
    | some tAddr =>
      if Rejects s s.muiNumIOVars (s.numVar tAddr) then []
      else [forcedValCells (s.numVar tAddr), forcedCells (s.numVar tAddr),
        currentCells (s.numVar tAddr), qStateCells (s.numVar tAddr), timeCells s (s.numVar tAddr)]
  | .writeRO _ addr =>
    if Rejects s s.muiNumROInts addr.uiChannel then [] else [intCells addr.uiChannel]
  | .setState _ => []

/-- The coils that `initMapping` clears, numbered by the channels themselves. -/
def initAccesses (s : ModbusSlaveDrv) : List Cells :=
  s.mFieldVars.map (fun var => forcedCells var.2.uiChannel)

def InBounds (s : ModbusSlaveDrv) (call : Call) : Prop :=
  ∀ c ∈ accesses s call, c.Inside s.mpMBmapping

section Footprint
variable (L : FloatAbcd) (s : ModbusSlaveDrv)

theorem read_rejected (var : IOVar) (now : BitVec 64)
    (h : Rejects s s.muiNumIOVars (s.numVar var.mtAddr)) : s.read L var now = (false, var) :=
  if_pos h

theorem read_accepted (var : IOVar) (now : BitVec 64)
    (h : ¬ Rejects s s.muiNumIOVars (s.numVar var.mtAddr)) :
    s.read L var now = (true, { var with
      mfTrueVal := s.getCurrentVal L (s.numVar var.mtAddr)
      mtQState := if s.mtDrvState = .comError then .comError else .ok
      miTimeS := now }) :=
  if_neg h

theorem write_rejected (var : IOVar) (h : Rejects s s.muiNumIOVars (s.numVar var.mtAddr)) :
    s.write L var = (false, s) :=
  if_pos h

theorem write_accepted (var : IOVar) (h : ¬ Rejects s s.muiNumIOVars (s.numVar var.mtAddr)) :
    s.write L var = (true, s.setCurrentVal L var.mfTrueVal (s.numVar var.mtAddr)) :=
  if_neg h

theorem updateFieldVar_unknown (var : IOVar) (h : s.mFieldVars.lookup var.muiVarId = none) :
    s.updateFieldVar L var = (false, var, s) := by
  rw [ModbusSlaveDrv.updateFieldVar, h]

theorem updateFieldVar_rejected (var : IOVar) {tAddr : IOAddr}
    (hfind : s.mFieldVars.lookup var.muiVarId = some tAddr)
    (h : Rejects s s.muiNumIOVars (s.numVar tAddr)) :
    s.updateFieldVar L var = (false, var, s) := by
  rw [ModbusSlaveDrv.updateFieldVar, hfind]
  exact if_pos h

/-- What `updateFieldVar` hands back to its caller. -/
def forcedVar (uiNumVar : BitVec 8) (var : IOVar) : IOVar :=
  { var with mfForcedVal := s.getForcedVal L uiNumVar, mbForcedVal := s.getForced uiNumVar }

theorem updateFieldVar_accepted (var : IOVar) {tAddr : IOAddr}
    (hfind : s.mFieldVars.lookup var.muiVarId = some tAddr)
    (h : ¬ Rejects s s.muiNumIOVars (s.numVar tAddr)) :
    s.updateFieldVar L var = (true, forcedVar L s (s.numVar tAddr) var,
      ((s.setCurrentVal L var.mfTrueVal (s.numVar tAddr)).setQState
        (forcedVar L s (s.numVar tAddr) var).getQState (s.numVar tAddr)).setTimeS var.miTimeS
        (s.numVar tAddr)) := by
  rw [ModbusSlaveDrv.updateFieldVar, hfind]
  exact if_neg h

theorem writeRO_rejected (iVal : BitVec 32) (addr : IOAddr)
    (h : Rejects s s.muiNumROInts addr.uiChannel) : s.writeRO iVal addr = (false, s) :=
  if_pos h

theorem writeRO_accepted (iVal : BitVec 32) (addr : IOAddr)
    (h : ¬ Rejects s s.muiNumROInts addr.uiChannel) :
    s.writeRO iVal addr =
      (true, s.storeInt ((addr.uiChannel.toNat - 1) * 2) 4 iVal.toNat) :=
  if_neg h

theorem initMapping_outside (t : Table) (i : Nat) (h : ¬ Covered (initAccesses s) t i) :
    SameCell s.mpMBmapping s.initMapping.mpMBmapping i t := by
  suffices hloop : ∀ (vars : List (BitVec 32 × IOAddr)) (s' : ModbusSlaveDrv),
      ¬ Covered (vars.map (fun var => forcedCells var.2.uiChannel)) t i →
      SameCell s'.mpMBmapping
        (vars.foldl (fun s var => s.setForced var.2.uiChannel false) s').mpMBmapping i t from
    hloop s.mFieldVars s h
  intro vars
  induction vars with
  | nil => exact fun s' _ => sameCell_refl _ i t
  | cons var vars ih =>
    intro s' hnot
    have htail := ih (s'.setForced var.2.uiChannel false)
      (fun ⟨c, hc, hin⟩ => hnot ⟨c, List.mem_cons_of_mem _ hc, hin⟩)
    cases t with
    | bits =>
      have hout := outside_of_not_covered (c := forcedCells var.2.uiChannel) (by simp) hnot
      have hhead : (s'.setForced var.2.uiChannel false).mpMBmapping.tabBits i =
          s'.mpMBmapping.tabBits i := store_outside _ _ _ hout
      exact hhead.symm.trans htail
    | inputBits => exact htail
    | registers => exact htail
    | inputRegisters => exact htail

theorem storeInt_outside (base n value : Nat) {i : Nat} (h : i < base ∨ base + n ≤ i) :
    (s.storeInt base (2 * n) value).mpMBmapping.tabInputRegisters i =
      s.mpMBmapping.tabInputRegisters i := by
  apply store_outside
  rw [length_stored s.mbArchLittleEnd n value]
  exact h

theorem setTimeS_outside (iTimeS : BitVec 64) (uiVar : BitVec 8) {i : Nat}
    (h : i < (timeCells s uiVar).base ∨ (timeCells s uiVar).base + 4 ≤ i) :
    (s.setTimeS iTimeS uiVar).mpMBmapping.tabInputRegisters i = s.mpMBmapping.tabInputRegisters i :=
  storeInt_outside s _ 4 _ h

theorem updateFieldVar_outside (var : IOVar) (t : Table) (i : Nat)
    (h : ¬ Covered (accesses s (.updateFieldVar var)) t i) :
    SameCell s.mpMBmapping (s.updateFieldVar L var).2.2.mpMBmapping i t := by
  cases hfind : s.mFieldVars.lookup var.muiVarId with
  | none =>
    rw [updateFieldVar_unknown L s var hfind]
    exact sameCell_refl _ i t
  | some tAddr =>
    by_cases hr : Rejects s s.muiNumIOVars (s.numVar tAddr)
    · rw [updateFieldVar_rejected L s var hfind hr]
      exact sameCell_refl _ i t
    · simp only [accesses, hfind] at h
      rw [if_neg hr] at h
      rw [updateFieldVar_accepted L s var hfind hr]
      cases t with
      | bits => rfl
      | inputBits =>
        have hout := outside_of_not_covered (c := qStateCells (s.numVar tAddr)) (by simp) h
        exact (store_outside _ _ _ hout).symm
      | registers =>
        have hout := outside_of_not_covered (c := currentCells (s.numVar tAddr)) (by simp) h
        exact (store_outside _ _ _ hout).symm
      | inputRegisters =>
        have hout := outside_of_not_covered (c := timeCells s (s.numVar tAddr)) (by simp) h
        have hkept := setTimeS_outside ((s.setCurrentVal L var.mfTrueVal (s.numVar tAddr)).setQState
          (forcedVar L s (s.numVar tAddr) var).getQState (s.numVar tAddr)) var.miTimeS
          (s.numVar tAddr) hout
        exact hkept.symm

/-- A call leaves every cell alone that is not among its own. -/
theorem step_outside (call : Call) (t : Table) (i : Nat) (h : ¬ Covered (accesses s call) t i) :
    SameCell s.mpMBmapping (step L s call).mpMBmapping i t := by
  cases call with
  | read var now => exact sameCell_refl _ i t
  | setState tState => exact sameCell_refl _ i t
  | write var =>
    by_cases hr : Rejects s s.muiNumIOVars (s.numVar var.mtAddr)
    · rw [step, write_rejected L s var hr]
      exact sameCell_refl _ i t
    · rw [accesses, if_neg hr] at h
      rw [step, write_accepted L s var hr]
      cases t with
      | registers =>
        exact (store_outside _ _ _ (outside_of_not_covered (List.mem_singleton.mpr rfl) h)).symm
      | bits => rfl
      | inputBits => rfl
      | inputRegisters => rfl
  | updateFieldVar var => exact updateFieldVar_outside L s var t i h
  | writeRO iVal addr =>
    by_cases hr : Rejects s s.muiNumROInts addr.uiChannel
    · rw [step, writeRO_rejected s iVal addr hr]
      exact sameCell_refl _ i t
    · rw [accesses, if_neg hr] at h
      rw [step, writeRO_accepted s iVal addr hr]
      cases t with
      | inputRegisters =>
        have hout := outside_of_not_covered (List.mem_singleton.mpr rfl) h
        exact (storeInt_outside s _ 2 _ hout).symm
      | bits => rfl
      | inputBits => rfl
      | registers => rfl

/-- What a call answers depends on its own cells only. -/
theorem answer_congr (call : Call) (m : ModbusMapping)
    (h : ∀ t i, Covered (accesses s call) t i → SameCell s.mpMBmapping m i t) :
    answer L { s with mpMBmapping := m } call = answer L s call := by
  have hcell : ∀ c ∈ accesses s call, ∀ i < c.n, SameCell s.mpMBmapping m (c.base + i) c.table :=
    fun c hc i hi => h c.table (c.base + i) ⟨c, hc, rfl, by omega, by omega⟩
  cases call with
  | read var now =>
    by_cases hr : Rejects s s.muiNumIOVars (s.numVar var.mtAddr)
    · rw [answer, answer, read_rejected L s var now hr,
        read_rejected L { s with mpMBmapping := m } var now hr]
    · rw [accesses, if_neg hr] at hcell
      have hcells := hcell _ (List.mem_singleton.mpr rfl)
      have hval : ModbusSlaveDrv.getCurrentVal L { s with mpMBmapping := m } (s.numVar var.mtAddr) =
          ModbusSlaveDrv.getCurrentVal L s (s.numVar var.mtAddr) :=
        (congrArg₂ L.getFloatAbcd (hcells 0 Nat.two_pos) (hcells 1 Nat.one_lt_two)).symm
      rw [answer, answer, read_accepted L s var now hr,
        read_accepted L { s with mpMBmapping := m } var now hr, ← hval]
      rfl
  | write var =>
    by_cases hr : Rejects s s.muiNumIOVars (s.numVar var.mtAddr)
    · rw [answer, answer, write_rejected L s var hr,
        write_rejected L { s with mpMBmapping := m } var hr]
    · rw [answer, answer, write_accepted L s var hr,
        write_accepted L { s with mpMBmapping := m } var hr]
  | updateFieldVar var =>
    cases hfind : s.mFieldVars.lookup var.muiVarId with
    | none =>
      rw [answer, answer, updateFieldVar_unknown L s var hfind,
        updateFieldVar_unknown L { s with mpMBmapping := m } var hfind]
    | some tAddr =>
      by_cases hr : Rejects s s.muiNumIOVars (s.numVar tAddr)
      · rw [answer, answer, updateFieldVar_rejected L s var hfind hr,
          updateFieldVar_rejected L { s with mpMBmapping := m } var hfind hr]
      · simp only [accesses, hfind] at hcell
        rw [if_neg hr] at hcell
        have hforced : ({ s with mpMBmapping := m } : ModbusSlaveDrv).getForced (s.numVar tAddr) =
            s.getForced (s.numVar tAddr) :=
          (hcell (forcedCells (s.numVar tAddr)) (by simp) 0 Nat.one_pos).symm
        have hcells := hcell (forcedValCells (s.numVar tAddr)) (by simp)
        have hval : ModbusSlaveDrv.getForcedVal L { s with mpMBmapping := m } (s.numVar tAddr) =
            ModbusSlaveDrv.getForcedVal L s (s.numVar tAddr) :=
          (congrArg₂ L.getFloatAbcd (hcells 0 Nat.two_pos) (hcells 1 Nat.one_lt_two)).symm
        rw [answer, answer, updateFieldVar_accepted L s var hfind hr,
          updateFieldVar_accepted L { s with mpMBmapping := m } var hfind hr, forcedVar, forcedVar,
          ← hval, ← hforced]
        rfl
  | writeRO iVal addr =>
    by_cases hr : Rejects s s.muiNumROInts addr.uiChannel
    · rw [answer, answer, writeRO_rejected s iVal addr hr,
        writeRO_rejected { s with mpMBmapping := m } iVal addr hr]
    · rw [answer, answer, writeRO_accepted s iVal addr hr,
        writeRO_accepted { s with mpMBmapping := m } iVal addr hr]
  | setState tState => rfl

end Footprint

section Sizes
variable (c : ModbusSlaveDrv)

theorem toNat_doubled (v : BitVec 32) : (v * 2).toNat = v.toNat * 2 % 2 ^ 32 := by
  rw [BitVec.toNat_mul]
  rfl

/-- The sizes that are asked for, in the 32 bits of the counts. -/
theorem size_newMapping (t : Table) :
    size c.newMapping t = match t with
      | .bits => c.muiNumIOVars.toNat
      | .inputBits => c.muiNumIOVars.toNat * 2 % 2 ^ 32
      | .registers => c.muiNumIOVars.toNat * 4 % 2 ^ 32
      | .inputRegisters => (c.muiNumIOVars.toNat * 4 + c.muiNumROInts.toNat * 2) % 2 ^ 32 := by
  have hlt := c.muiNumIOVars.isLt
  cases t <;>
    simp only [size, newMapping, ModbusMapping.newStartAddress, COILOFFSET, DIOFFSET, HROFFSET,
      IROFFSET, BitVec.toNat_add, BitVec.toNat_mul, BitVec.ofNat_eq_ofNat, BitVec.toNat_ofNat] <;>
    omega

/-- The driver `s` runs on the configuration of `c`. -/
structure Serving (s : ModbusSlaveDrv) : Prop where
  ioVars : s.muiNumIOVars = c.muiNumIOVars
  roInts : s.muiNumROInts = c.muiNumROInts
  fieldVars : s.mFieldVars = c.mFieldVars
  sizes : ∀ t, size s.mpMBmapping t = size c.newMapping t

variable {c}

theorem Serving.withTables {s : ModbusSlaveDrv} (h : Serving c s) {m : ModbusMapping}
    (same : ∀ t, size m t = size s.mpMBmapping t) : Serving c { s with mpMBmapping := m } :=
  ⟨h.ioVars, h.roInts, h.fieldVars, fun t => (same t).trans (h.sizes t)⟩

theorem Serving.setCurrentVal {s : ModbusSlaveDrv} (h : Serving c s) (L : FloatAbcd)
    (fVal : Single) (uiVar : BitVec 8) : Serving c (s.setCurrentVal L fVal uiVar) :=
  h.withTables (fun t => by cases t <;> rfl)

theorem Serving.setQState {s : ModbusSlaveDrv} (h : Serving c s) (tState : QuState)
    (uiVar : BitVec 8) : Serving c (s.setQState tState uiVar) :=
  h.withTables (fun t => by cases t <;> rfl)

theorem Serving.storeInt {s : ModbusSlaveDrv} (h : Serving c s) (base n value : Nat) :
    Serving c (s.storeInt base n value) :=
  h.withTables (fun t => by cases t <;> rfl)

/-- A call changes the content of the tables at most. -/
theorem Serving.step {s : ModbusSlaveDrv} (h : Serving c s) (L : FloatAbcd) (call : Call) :
    Serving c (step L s call) := by
  cases call with
  | read var now => exact h
  | setState tState => exact ⟨h.ioVars, h.roInts, h.fieldVars, h.sizes⟩
  | write var =>
    by_cases hr : Rejects s s.muiNumIOVars (s.numVar var.mtAddr)
    · rw [TableBounds.step, write_rejected L s var hr]
      exact h
    · rw [TableBounds.step, write_accepted L s var hr]
      exact h.setCurrentVal L _ _
  | updateFieldVar var =>
    cases hfind : s.mFieldVars.lookup var.muiVarId with
    | none =>
      rw [TableBounds.step, updateFieldVar_unknown L s var hfind]
      exact h
    | some tAddr =>
      by_cases hr : Rejects s s.muiNumIOVars (s.numVar tAddr)
      · rw [TableBounds.step, updateFieldVar_rejected L s var hfind hr]
        exact h
      · rw [TableBounds.step, updateFieldVar_accepted L s var hfind hr]
        exact ((h.setCurrentVal L _ _).setQState _ _).storeInt _ _ _
  | writeRO iVal addr =>
    by_cases hr : Rejects s s.muiNumROInts addr.uiChannel
    · rw [TableBounds.step, writeRO_rejected s iVal addr hr]
      exact h
    · rw [TableBounds.step, writeRO_accepted s iVal addr hr]
      exact h.storeInt _ _ _

/-- What an accepted `init` leaves behind. -/
theorem init_serving {s : ModbusSlaveDrv} {file : Except String (Option SlaveXml)}
    {newTcp newMap : Bool} {strerror : String}
    (accepted : (s.init file newTcp newMap strerror).1 = true) :
    Serving (s.loadXMLConfig file).2 (s.init file newTcp newMap strerror).2 ∧
      (s.init file newTcp newMap strerror).2.mtDrvState = .stopped := by
  simp only [ModbusSlaveDrv.init] at accepted ⊢
  split at accepted
  · cases accepted
  rename_i huninit
  rw [if_neg huninit]
  cases hload : s.loadXMLConfig file with
  | mk bOk c =>
    rw [hload] at accepted
    cases bOk with
    | false => cases accepted
    | true =>
      simp only at accepted ⊢
      split at accepted
      · cases accepted
      rename_i hsome
      rw [if_neg hsome]
      split at accepted
      · cases accepted
      rename_i htcp
      rw [if_neg htcp]
      split at accepted
      · cases accepted
      rename_i hmap
      rw [if_neg hmap]
      refine ⟨?_, rfl⟩
      obtain ⟨tabBits, htab⟩ := setForced_loop _ _
      rw [ModbusSlaveDrv.initMapping, htab]
      exact ⟨rfl, rfl, rfl, fun t => by cases t <;> rfl⟩

end Sizes

/-- The coil that `initMapping` clears for a channel; channel 0 wraps in 16 bits. -/
def CoilFits (c : ModbusSlaveDrv) (uiChannel : BitVec 8) : Prop :=
  if uiChannel = 0 then 2 ^ 16 ≤ c.muiNumIOVars.toNat else uiChannel.toNat ≤ c.muiNumIOVars.toNat

instance (c : ModbusSlaveDrv) (uiChannel : BitVec 8) : Decidable (CoilFits c uiChannel) :=
  if h : uiChannel = 0 then decidable_of_iff (2 ^ 16 ≤ c.muiNumIOVars.toNat) (by
    rw [CoilFits, if_pos h])
  else decidable_of_iff (uiChannel.toNat ≤ c.muiNumIOVars.toNat) (by rw [CoilFits, if_neg h])

/-- The first condition is the one that matters; the others can only fail when
the sizes overflow 32 bits. -/
structure Fits (c : ModbusSlaveDrv) : Prop where
  coils : ∀ var ∈ c.mFieldVars, CoilFits c var.2.uiChannel
  registers : min 255 c.muiNumIOVars.toNat * 4 ≤ c.muiNumIOVars.toNat * 4 % 2 ^ 32
  ints : min 255 c.muiNumROInts.toNat * 2 ≤
    (c.muiNumIOVars.toNat * 4 + c.muiNumROInts.toNat * 2) % 2 ^ 32
  times : ∀ uiVarID tAddr, c.mFieldVars.lookup uiVarID = some tAddr → InRange c (c.numVar tAddr) →
    (c.numVar tAddr).toNat * 4 + c.muiNumROInts.toNat * 2 % 2 ^ 32 ≤
      (c.muiNumIOVars.toNat * 4 + c.muiNumROInts.toNat * 2) % 2 ^ 32

theorem fits_iff_of_small {c : ModbusSlaveDrv}
    (h : c.muiNumIOVars.toNat * 4 + c.muiNumROInts.toNat * 2 < 2 ^ 32) :
    Fits c ↔ ∀ var ∈ c.mFieldVars, CoilFits c var.2.uiChannel := by
  constructor
  · exact fun fits => fits.coils
  · intro coils
    refine ⟨coils, by omega, by omega, fun uiVarID tAddr _ hin => ?_⟩
    have hle := hin.2
    omega

theorem coilFits_iff (c : ModbusSlaveDrv) (uiChannel : BitVec 8) :
    CoilFits c uiChannel ↔ (forcedCells uiChannel).Inside c.newMapping := by
  have hsize := size_newMapping c .bits
  rw [Cells.Inside, forcedCells, hsize, CoilFits]
  split
  · rename_i hzero
    have hwrap : (valAddr COILOFFSET uiChannel).toNat = 65535 := by
      rw [hzero]
      decide
    rw [hwrap]
    exact Iff.rfl
  · rename_i hne
    have hpos : 1 ≤ uiChannel.toNat := by
      have hnat : uiChannel.toNat ≠ (0#8).toNat := fun heq => hne (BitVec.eq_of_toNat_eq heq)
      simp only [BitVec.toNat_ofNat] at hnat
      omega
    rw [valAddr_toNat hpos COILOFFSET (by decide)]
    simp only [COILOFFSET]
    omega

section Accepted
variable {s : ModbusSlaveDrv} {count : BitVec 32} {uiNumVar : BitVec 8}

theorem range_of_accepted (h : ¬ Rejects s count uiNumVar) :
    1 ≤ uiNumVar.toNat ∧ uiNumVar.toNat ≤ count.toNat := by
  have hwide : (uiNumVar.setWidth 32).toNat = uiNumVar.toNat := by
    rw [BitVec.toNat_setWidth, Nat.mod_eq_of_lt (by omega)]
  have hone : (1#8).toNat = 1 := rfl
  simp only [Rejects, gt_iff_lt, BitVec.lt_def, hwide, hone, not_or] at h
  omega

theorem accepted_of_range (hinit : s.mtDrvState ≠ .unInit) (hpos : 1 ≤ uiNumVar.toNat)
    (hle : uiNumVar.toNat ≤ count.toNat) : ¬ Rejects s count uiNumVar := by
  have hwide : (uiNumVar.setWidth 32).toNat = uiNumVar.toNat := by
    rw [BitVec.toNat_setWidth, Nat.mod_eq_of_lt (by omega)]
  have hone : (1#8).toNat = 1 := rfl
  simp only [Rejects, gt_iff_lt, BitVec.lt_def, hwide, hone, not_or]
  exact ⟨by omega, by omega, hinit⟩

end Accepted

/-- Every number is the one of some channel. -/
theorem numVar_surjective (s : ModbusSlaveDrv) (uiNumVar : BitVec 8) :
    ∃ tAddr : IOAddr, s.numVar tAddr = uiNumVar := by
  refine ⟨{ uiChannel := uiNumVar + s.muiNumROInts.setWidth 8 }, BitVec.eq_of_toNat_eq ?_⟩
  have hints := s.muiNumROInts.isLt
  have hnum := uiNumVar.isLt
  rw [toNat_numVar, BitVec.toNat_add, BitVec.toNat_setWidth]
  omega

section Configuration
variable {c s : ModbusSlaveDrv}

theorem currentCells_inside (h : Serving c s) {uiVar : BitVec 8} (hpos : 1 ≤ uiVar.toNat) :
    (currentCells uiVar).Inside s.mpMBmapping ↔
      uiVar.toNat * 4 ≤ c.muiNumIOVars.toNat * 4 % 2 ^ 32 := by
  have hsize := (h.sizes .registers).trans (size_newMapping c .registers)
  rw [Cells.Inside, currentCells, hsize, valAddr_toNat hpos HROFFSET (by decide)]
  simp only [HROFFSET]
  omega

theorem timeCells_inside (h : Serving c s) {uiVar : BitVec 8} (hpos : 1 ≤ uiVar.toNat) :
    (timeCells s uiVar).Inside s.mpMBmapping ↔
      uiVar.toNat * 4 + c.muiNumROInts.toNat * 2 % 2 ^ 32 ≤
        (c.muiNumIOVars.toNat * 4 + c.muiNumROInts.toNat * 2) % 2 ^ 32 := by
  have hsize := (h.sizes .inputRegisters).trans (size_newMapping c .inputRegisters)
  rw [Cells.Inside, timeCells, hsize, h.roInts, toNat_doubled]
  simp only [IROFFSET]
  omega

theorem intCells_inside (h : Serving c s) {uiNumVar : BitVec 8} (hpos : 1 ≤ uiNumVar.toNat) :
    (intCells uiNumVar).Inside s.mpMBmapping ↔
      uiNumVar.toNat * 2 ≤ (c.muiNumIOVars.toNat * 4 + c.muiNumROInts.toNat * 2) % 2 ^ 32 := by
  have hsize := (h.sizes .inputRegisters).trans (size_newMapping c .inputRegisters)
  rw [Cells.Inside, intCells, hsize]
  dsimp only
  omega

theorem registers_fit (fits : Fits c) {uiVar : BitVec 8}
    (hle : uiVar.toNat ≤ c.muiNumIOVars.toNat) :
    uiVar.toNat * 4 ≤ c.muiNumIOVars.toNat * 4 % 2 ^ 32 := by
  have hregisters := fits.registers
  have hlt := uiVar.isLt
  omega

/-- The other cells of a variable are inside when its registers and its time are. -/
theorem field_inBounds (h : Serving c s) (fits : Fits c) {uiVarID : BitVec 32} {tAddr : IOAddr}
    (hfind : s.mFieldVars.lookup uiVarID = some tAddr)
    (hr : ¬ Rejects s s.muiNumIOVars (s.numVar tAddr)) :
    ∀ a ∈ [forcedValCells (s.numVar tAddr), forcedCells (s.numVar tAddr),
      currentCells (s.numVar tAddr), qStateCells (s.numVar tAddr), timeCells s (s.numVar tAddr)],
      a.Inside s.mpMBmapping := by
  obtain ⟨hpos, hle⟩ := range_of_accepted hr
  rw [h.ioVars] at hle
  have hsame : s.numVar tAddr = c.numVar tAddr := by
    rw [numVar, numVar, h.roInts]
  have hregs := registers_fit fits hle
  have hlt := c.muiNumIOVars.isLt
  have hbyte := (s.numVar tAddr).isLt
  simp only [List.forall_mem_cons]
  refine ⟨?_, ?_, ?_, ?_, ?_, fun a ha => absurd ha (List.not_mem_nil)⟩
  · have hbase := valAddr_toNat hpos HROFFSET (by decide)
    have hsize := (h.sizes .registers).trans (size_newMapping c .registers)
    have htwo : (valAddr HROFFSET (s.numVar tAddr) + 2).toNat =
        ((s.numVar tAddr).toNat - 1) * 4 + 2 := by
      rw [BitVec.toNat_add, hbase, HROFFSET]
      simp only [BitVec.ofNat_eq_ofNat, BitVec.toNat_ofNat]
      omega
    rw [Cells.Inside, forcedValCells, hsize, htwo]
    dsimp only
    omega
  · have hsize := (h.sizes .bits).trans (size_newMapping c .bits)
    rw [Cells.Inside, forcedCells, hsize, valAddr_toNat hpos COILOFFSET (by decide)]
    simp only [COILOFFSET]
    omega
  · exact (currentCells_inside h hpos).mpr hregs
  · have hsize := (h.sizes .inputBits).trans (size_newMapping c .inputBits)
    rw [Cells.Inside, qStateCells, hsize]
    simp only [DIOFFSET]
    omega
  · rw [timeCells_inside h hpos, hsame]
    exact fits.times uiVarID tAddr (h.fieldVars ▸ hfind) ⟨hsame ▸ hpos, hsame ▸ hle⟩

theorem inBounds_of_fits (h : Serving c s) (fits : Fits c) (call : Call) : InBounds s call := by
  cases call with
  | read var now =>
    intro a ha
    rw [accesses] at ha
    split at ha
    · cases ha
    · rename_i hr
      obtain ⟨hpos, hle⟩ := range_of_accepted hr
      rw [List.mem_singleton.mp ha, currentCells_inside h hpos]
      exact registers_fit fits (h.ioVars ▸ hle)
  | write var =>
    intro a ha
    rw [accesses] at ha
    split at ha
    · cases ha
    · rename_i hr
      obtain ⟨hpos, hle⟩ := range_of_accepted hr
      rw [List.mem_singleton.mp ha, currentCells_inside h hpos]
      exact registers_fit fits (h.ioVars ▸ hle)
  | updateFieldVar var =>
    intro a ha
    rw [accesses] at ha
    split at ha
    · cases ha
    · rename_i tAddr hfind
      split at ha
      · cases ha
      · rename_i hr
        exact field_inBounds h fits hfind hr a ha
  | writeRO iVal addr =>
    intro a ha
    rw [accesses] at ha
    split at ha
    · cases ha
    · rename_i hr
      obtain ⟨hpos, hle⟩ := range_of_accepted hr
      have hints := fits.ints
      have hbyte := addr.uiChannel.isLt
      rw [h.roInts] at hle
      rw [List.mem_singleton.mp ha, intCells_inside h hpos]
      omega
  | setState tState => exact fun a ha => absurd ha (List.not_mem_nil)

/-- A variable with the given number and channel. -/
def varAt (uiVarID : BitVec 32) (tAddr : IOAddr) : IOVar :=
  { muiVarId := uiVarID, miTimeS := 0, mfTrueVal := 0, mfForcedVal := 0, mtAddr := tAddr
    mtQState := .ok, mbForcedVal := false }

/-- The largest number that a count and the 8 bits of a channel allow. -/
theorem exists_largest (count : BitVec 32) (hpos : count ≠ 0) :
    ∃ uiNumVar : BitVec 8, uiNumVar.toNat = min 255 count.toNat ∧ 1 ≤ uiNumVar.toNat := by
  have hcount : count.toNat ≠ 0 := fun hzero => hpos (BitVec.eq_of_toNat_eq hzero)
  have hnum : (BitVec.ofNat 8 (min 255 count.toNat)).toNat = min 255 count.toNat := by
    rw [BitVec.toNat_ofNat, Nat.mod_eq_of_lt (by omega)]
  exact ⟨BitVec.ofNat 8 (min 255 count.toNat), hnum, by omega⟩

theorem fits_of_inBounds (h : Serving c s) (hinit : s.mtDrvState ≠ .unInit)
    (coils : ∀ a ∈ initAccesses c, a.Inside c.newMapping) (calls : ∀ call, InBounds s call) :
    Fits c := by
  constructor
  · intro var hvar
    exact (coilFits_iff c var.2.uiChannel).mpr (coils _ (List.mem_map_of_mem hvar))
  · by_cases hzero : c.muiNumIOVars = 0
    · rw [hzero]
      decide
    · obtain ⟨uiNumVar, hmin, hpos⟩ := exists_largest c.muiNumIOVars hzero
      obtain ⟨tAddr, hnum⟩ := numVar_surjective s uiNumVar
      have hle : uiNumVar.toNat ≤ s.muiNumIOVars.toNat := by
        rw [h.ioVars]
        omega
      have haccepted : ¬ Rejects s s.muiNumIOVars (s.numVar tAddr) := by
        rw [hnum]
        exact accepted_of_range hinit hpos hle
      have hin := calls (.write (varAt 0 tAddr)) (currentCells uiNumVar) (by
        rw [accesses, varAt, if_neg haccepted, hnum]
        exact List.mem_singleton.mpr rfl)
      rw [← hmin]
      exact (currentCells_inside h hpos).mp hin
  · by_cases hzero : c.muiNumROInts = 0
    · rw [hzero]
      exact Nat.zero_le _
    · obtain ⟨uiNumVar, hmin, hpos⟩ := exists_largest c.muiNumROInts hzero
      have hle : uiNumVar.toNat ≤ s.muiNumROInts.toNat := by
        rw [h.roInts]
        omega
      have hin := calls (.writeRO 0 { uiChannel := uiNumVar }) (intCells uiNumVar) (by
        rw [accesses, if_neg (accepted_of_range hinit hpos hle)]
        exact List.mem_singleton.mpr rfl)
      rw [← hmin]
      exact (intCells_inside h hpos).mp hin
  · intro uiVarID tAddr hfind ⟨hpos, hle⟩
    have hsame : s.numVar tAddr = c.numVar tAddr := by
      rw [numVar, numVar, h.roInts]
    rw [← hsame] at hpos hle ⊢
    have haccepted : ¬ Rejects s s.muiNumIOVars (s.numVar tAddr) :=
      accepted_of_range hinit hpos (h.ioVars.symm ▸ hle)
    have hlookup : s.mFieldVars.lookup (varAt uiVarID tAddr).muiVarId = some tAddr :=
      h.fieldVars.symm ▸ hfind
    have hin := calls (.updateFieldVar (varAt uiVarID tAddr)) (timeCells s (s.numVar tAddr)) (by
      simp only [accesses, hlookup]
      rw [if_neg haccepted]
      simp)
    exact (timeCells_inside h hpos).mp hin

end Configuration

/-- An accepted configuration is safe, for `init` and for all calls after it in
any order, exactly when its coils, registers and times fit the tables. -/
theorem tables_in_bounds_iff (L : FloatAbcd) (s : ModbusSlaveDrv)
    (file : Except String (Option SlaveXml)) (newTcp newMap : Bool) (strerror : String)
    (accepted : (s.init file newTcp newMap strerror).1 = true) :
    ((∀ a ∈ initAccesses (s.loadXMLConfig file).2,
        a.Inside (s.loadXMLConfig file).2.newMapping) ∧
      ∀ calls, Along (step L) InBounds (s.init file newTcp newMap strerror).2 calls) ↔
    Fits (s.loadXMLConfig file).2 := by
  obtain ⟨hserving, hstate⟩ := init_serving accepted
  constructor
  · rintro ⟨coils, along⟩
    have hinit : (s.init file newTcp newMap strerror).2.mtDrvState ≠ .unInit := by
      rw [hstate]
      decide
    exact fits_of_inBounds hserving hinit coils (fun call => (along [call]).1)
  · intro fits
    constructor
    · intro a ha
      obtain ⟨var, hvar, rfl⟩ := List.mem_map.mp ha
      exact (coilFits_iff _ var.2.uiChannel).mp (fits.coils var hvar)
    · intro calls
      have hiff : Along (step L) InBounds (s.init file newTcp newMap strerror).2 calls ↔
          Along (step L) (fun _ _ => True) (s.init file newTcp newMap strerror).2 calls :=
        along_congr (P := Serving (s.loadXMLConfig file).2)
          (fun s' call h => iff_true_intro (inBounds_of_fits h fits call))
          (fun s' call h _ => h.step L call) hserving calls
      exact hiff.mpr (along_of_forall (C := fun _ => True) _ (fun _ _ => trivial))

/-- A driver that has just been constructed. -/
def unInitSlave : ModbusSlaveDrv :=
  { mbArchLittleEnd := true, mFieldVars := [], mstrServerIp := "", miPort := 0, muiNumIOVars := 0
    muiNumROInts := 0, mpMBCtx := none, mpMBmapping := .newStartAddress 0 0 0 0 0 0 0 0
    uiComErrors := 0, mtDrvState := .unInit, mstrLastError := "" }

def fieldVarXml (id : BitVec 32) (ch : BitVec 8) : FieldVarXml :=
  { id := some id, addrs := [{ head := some 0, mod := some 0, ch := some ch, prec := some 0 }] }

/-- Five RO ints and 146 variables, the last field variable on channel 141. -/
def shippedXml : SlaveXml :=
  { ip := some "192.168.1.43", port := some (-1), numROInts := some 5, numIOVars := some 146
    fieldVars := [[fieldVarXml 1000000017 139, fieldVarXml 1000000018 140,
      fieldVarXml 1000000019 141, fieldVarXml 1000000013 135, fieldVarXml 1000000007 129,
      fieldVarXml 1000000006 128, fieldVarXml 1000000005 127, fieldVarXml 1000000004 126,
      fieldVarXml 1000000003 125, fieldVarXml 1000000002 124]] }

theorem shipped_tables_in_bounds :
    (∀ a ∈ initAccesses (unInitSlave.loadXMLConfig (.ok (some shippedXml))).2,
        a.Inside (unInitSlave.loadXMLConfig (.ok (some shippedXml))).2.newMapping) ∧
      ∀ calls, Along (step floatAbcd) InBounds
        (unInitSlave.init (.ok (some shippedXml)) true true "").2 calls := by
  have hfits : Fits (unInitSlave.loadXMLConfig (.ok (some shippedXml))).2 :=
    (fits_iff_of_small (by decide)).mpr (by decide)
  exact (tables_in_bounds_iff floatAbcd unInitSlave (.ok (some shippedXml)) true true ""
    (by decide)).mpr hfits

/-- One RO int and one variable, which is on channel 2 then. -/
def lastXml : SlaveXml :=
  { ip := some "127.0.0.1", port := some (-1), numROInts := some 1, numIOVars := some 1
    fieldVars := [[fieldVarXml 7 2]] }

/-- `init` accepts the file and clears the second entry of a table with one. -/
theorem lastVariable_past_end :
    (unInitSlave.init (.ok (some lastXml)) true true "").1 = true ∧
      ¬ ((∀ a ∈ initAccesses (unInitSlave.loadXMLConfig (.ok (some lastXml))).2,
          a.Inside (unInitSlave.loadXMLConfig (.ok (some lastXml))).2.newMapping) ∧
        ∀ calls, Along (step floatAbcd) InBounds
          (unInitSlave.init (.ok (some lastXml)) true true "").2 calls) := by
  refine ⟨by decide, fun ⟨coils, _⟩ => ?_⟩
  exact absurd (coils (forcedCells 2) (List.mem_map.mpr ⟨(7, { uiChannel := 2 }), by decide, rfl⟩))
    (by decide)

end TableBounds
