import TurbineGovernor.KeyedTables
import TurbineGovernor.ProcessImage

/-!
# The devices of the EtherCAT driver

Each class of device keeps a flag and a state of its own and reports to the
driver's table of errors when they change. Whatever the class does, the entry
of the device in the table stays its state, or nothing while it is `OK`.
-/

namespace EtherDevices
open CommonTypes KeyedTables ByteMemory ProcessImage

abbrev VarErrors : Type := List (IOAddr × QuState)

structure StatusWord where
  tAddr : IOAddr
  uiUnderRangeBit : BitVec 8
  uiOverRangeBit : BitVec 8
  deriving DecidableEq

def StatusWord.StatusWordOk (stByte : StatusWord) : Bool :=
  decide (stByte.tAddr.uiNumBits.toNat > 0 ∧ stByte.tAddr.uiNumBits.toNat ≤ 32 ∧
    stByte.tAddr.uiNumBits.toNat % 8 = 0 ∧ stByte.tAddr.uiNumBits.toNat ≠ 24 ∧
    (stByte.uiUnderRangeBit.toNat : Int) ≤ stByte.tAddr.uiNumBits.toNat - 1 ∧
    (stByte.uiOverRangeBit.toNat : Int) ≤ stByte.tAddr.uiNumBits.toNat - 1)

/-- The measurement of a digital device. The duration is kept in ticks of the
clock; it and the time stamp are only set by the first pulse. -/
structure DigitalDev where
  miPulseMeasureOpt : Int
  mtPulseStartTime : Int := 0
  mtPulseEndTime : Int := 0
  mdPulseDur : Option Int := none
  miPulseTimeS : Option Int := none
  deriving DecidableEq

/-- The class of a device with the fields that its `updateDevice` uses. -/
inductive DeviceClass where
  | digitalDev (dev : DigitalDev)
  | analogDev (mtStatusW : StatusWord)
  | pulseDev
  deriving DecidableEq

structure EtherDevice where
  devClass : DeviceClass
  mbInError : Bool := false
  mtLastQState : QuState := .ok
  deriving DecidableEq

/-- What the factory makes of the XML of a device. -/
inductive DeviceCnf where
  | digitalDev (iPulseMeasureOpt : Int)
  | analogDev (status : StatusWord)
  | pulseDev
  deriving DecidableEq

/-- What a call of `updateDevice` reads of the driver, the host and the clocks. -/
structure Surroundings where
  little : Bool
  slaves : EcSlaves
  image : Memory
  mModuleErrors : Finset (BitVec 8)
  steadyNow : Int
  msSinceEpoch : Int

namespace Surroundings

def isModuleOk (s : Surroundings) (addr : IOAddr) : Bool := decide (addr.uiModule ∉ s.mModuleErrors)

def readDevice (s : Surroundings) (addr : IOAddr) : Bool × BitVec 32 :=
  ProcessImage.readDevice s.little s.slaves s.image addr

end Surroundings

def newVarError (mVarErrors : VarErrors) (addr : IOAddr) (eState : QuState) : VarErrors :=
  assignKey mVarErrors addr eState

def clearVarError (mVarErrors : VarErrors) (addr : IOAddr) : VarErrors := eraseKey mVarErrors addr

namespace EtherDevice

def create : DeviceCnf → EtherDevice
  | .digitalDev iPulseMeasureOpt =>
    { devClass := .digitalDev { miPulseMeasureOpt :=
        if iPulseMeasureOpt < -1 then -1 else if iPulseMeasureOpt > 1 then 1
        else iPulseMeasureOpt } }
  | .analogDev status => { devClass := .analogDev status }
  | .pulseDev => { devClass := .pulseDev }

def getCurrentQState (dev : EtherDevice) : QuState := dev.mtLastQState

/-- What digital and pulse devices do about the state of their module. -/
def updateModuleState (s : Surroundings) (addr : IOAddr) (dev : EtherDevice)
    (mVarErrors : VarErrors) : EtherDevice × VarErrors :=
  if !s.isModuleOk addr then
    ({ dev with mbInError := true, mtLastQState := .comError },
      if !dev.mbInError then newVarError mVarErrors addr .comError else mVarErrors)
  else if dev.mbInError then
    ({ dev with mbInError := false, mtLastQState := .ok }, clearVarError mVarErrors addr)
  else (dev, mVarErrors)

end EtherDevice

/-- The measurement that follows when the module is well. -/
def DigitalDev.measure (s : Surroundings) (addr : IOAddr) (dev : DigitalDev) : DigitalDev :=
  if dev.miPulseMeasureOpt = -1 then dev
  else
    let (ok, readedVal) := s.readDevice addr
    if !ok then dev
    else if dev.mtPulseEndTime ≥ dev.mtPulseStartTime ∧
        dev.miPulseMeasureOpt = (readedVal.setWidth 8).toInt then
      { dev with mtPulseStartTime := s.steadyNow }
    else if dev.mtPulseStartTime > dev.mtPulseEndTime ∧
        dev.miPulseMeasureOpt ≠ (readedVal.setWidth 8).toInt then
      { dev with
        mtPulseEndTime := s.steadyNow
        mdPulseDur := some (s.steadyNow - dev.mtPulseStartTime)
        miPulseTimeS := some s.msSinceEpoch }
    else dev

def DigitalDev.updateDevice (s : Surroundings) (addr : IOAddr) (digital : DigitalDev)
    (dev : EtherDevice) (mVarErrors : VarErrors) : EtherDevice × VarErrors :=
  let (dev, mVarErrors) := dev.updateModuleState s addr mVarErrors
  if !s.isModuleOk addr then (dev, mVarErrors)
  else ({ dev with devClass := .digitalDev (digital.measure s addr) }, mVarErrors)

def PulseDev.updateDevice (s : Surroundings) (addr : IOAddr) (dev : EtherDevice)
    (mVarErrors : VarErrors) : EtherDevice × VarErrors :=
  dev.updateModuleState s addr mVarErrors

namespace AnalogDev

def bitMask (stWord : StatusWord) (uiBit : BitVec 8) : BitVec 32 :=
  1#32 <<< (stWord.tAddr.uiNumBits.toNat - uiBit.toNat - 1)

def getVarQState (s : Surroundings) (stWord : StatusWord) : QuState :=
  if !stWord.StatusWordOk then .comError
  else
    let (ok, statusWord) := s.readDevice stWord.tAddr
    if !ok then .comError
    else if statusWord &&& bitMask stWord stWord.uiUnderRangeBit ≠ 0 then .underRange
    else if statusWord &&& bitMask stWord stWord.uiOverRangeBit ≠ 0 then .overRange
    else .ok

def currState (s : Surroundings) (addr : IOAddr) (mtStatusW : StatusWord) : QuState :=
  if !s.isModuleOk addr then .comError else getVarQState s mtStatusW

def updateDevice (s : Surroundings) (addr : IOAddr) (mtStatusW : StatusWord) (dev : EtherDevice)
    (mVarErrors : VarErrors) : EtherDevice × VarErrors :=
  let currState := currState s addr mtStatusW
  if currState ≠ .ok then
    ({ dev with mbInError := true, mtLastQState := currState },
      if dev.mbInError then
        if dev.mtLastQState ≠ currState then newVarError mVarErrors addr currState else mVarErrors
      else newVarError mVarErrors addr currState)
  else if dev.mbInError then
    ({ dev with mbInError := false, mtLastQState := .ok }, clearVarError mVarErrors addr)
  else (dev, mVarErrors)

end AnalogDev

/-- The virtual call. -/
def EtherDevice.updateDevice (s : Surroundings) (addr : IOAddr) (dev : EtherDevice)
    (mVarErrors : VarErrors) : EtherDevice × VarErrors :=
  match dev.devClass with
  | .digitalDev digital => DigitalDev.updateDevice s addr digital dev mVarErrors
  | .analogDev mtStatusW => AnalogDev.updateDevice s addr mtStatusW dev mVarErrors
  | .pulseDev => PulseDev.updateDevice s addr dev mVarErrors

/-- The flag says that the state is not `OK`; only analog devices know other
errors than that of the module. -/
structure EtherDevice.Coherent (dev : EtherDevice) : Prop where
  flag : dev.mbInError = true ↔ dev.mtLastQState ≠ .ok
  states : (∀ mtStatusW, dev.devClass ≠ .analogDev mtStatusW) →
    dev.mtLastQState = .ok ∨ dev.mtLastQState = .comError

/-- The entry of a device in the table. -/
def EtherDevice.entry (dev : EtherDevice) : Option QuState :=
  if dev.getCurrentQState = .ok then none else some dev.getCurrentQState

theorem coherent_create (cnf : DeviceCnf) : (EtherDevice.create cnf).Coherent := by
  cases cnf <;> exact ⟨by simp [EtherDevice.create], fun _ => Or.inl rfl⟩

theorem entry_create (cnf : DeviceCnf) : (EtherDevice.create cnf).entry = none := by
  cases cnf <;> rfl

/-- The device is coherent and the table has its entry; the entries of the
others are those of the table before. -/
structure Tracked (addr : IOAddr) (mVarErrors : VarErrors) (r : EtherDevice × VarErrors) :
    Prop where
  coherent : r.1.Coherent
  entry : r.2.lookup addr = r.1.entry
  others : ∀ addr', addr' ≠ addr → r.2.lookup addr' = mVarErrors.lookup addr'

section Device
variable {addr : IOAddr} {dev : EtherDevice} {mVarErrors : VarErrors}

theorem tracked_updateModuleState (s : Surroundings) (hdev : dev.Coherent)
    (hclass : ∀ mtStatusW, dev.devClass ≠ .analogDev mtStatusW)
    (hentry : mVarErrors.lookup addr = dev.entry) :
    Tracked addr mVarErrors (dev.updateModuleState s addr mVarErrors) := by
  simp only [EtherDevice.updateModuleState, newVarError, clearVarError]
  split
  · constructor
    · exact ⟨by simp, fun _ => Or.inr rfl⟩
    · by_cases herr : dev.mbInError = true
      · have hstate := (hdev.states hclass).resolve_left (hdev.flag.mp herr)
        simp [herr, hentry, EtherDevice.entry, EtherDevice.getCurrentQState, hstate]
      · simp [herr, lookup_assignKey, EtherDevice.entry, EtherDevice.getCurrentQState]
    · intro addr' hne
      dsimp only
      split
      · rw [lookup_assignKey, if_neg hne]
      · rfl
  · split
    · constructor
      · exact ⟨by simp, fun _ => Or.inl rfl⟩
      · simp [lookup_eraseKey, EtherDevice.entry, EtherDevice.getCurrentQState]
      · intro addr' hne
        dsimp only
        rw [lookup_eraseKey, if_neg hne]
    · exact ⟨hdev, hentry, fun _ _ => rfl⟩

theorem devClass_updateModuleState (s : Surroundings) :
    (dev.updateModuleState s addr mVarErrors).1.devClass = dev.devClass := by
  simp only [EtherDevice.updateModuleState]
  split
  · rfl
  split
  · rfl
  · rfl

theorem tracked_analogDev (s : Surroundings) (mtStatusW : StatusWord) (hdev : dev.Coherent)
    (hclass : dev.devClass = .analogDev mtStatusW)
    (hentry : mVarErrors.lookup addr = dev.entry) :
    Tracked addr mVarErrors (AnalogDev.updateDevice s addr mtStatusW dev mVarErrors) := by
  unfold AnalogDev.updateDevice newVarError clearVarError
  generalize AnalogDev.currState s addr mtStatusW = currState
  dsimp only
  split
  · rename_i hstate
    constructor
    · exact ⟨iff_of_true rfl hstate, fun h => absurd hclass (h mtStatusW)⟩
    · have hentry' : ({ dev with mbInError := true, mtLastQState := currState } :
          EtherDevice).entry = some currState := if_neg hstate
      rw [hentry']
      split
      · rename_i herr
        split
        · rw [lookup_assignKey, if_pos rfl]
        · rename_i hsame
          have hold : dev.entry = some dev.mtLastQState := if_neg (hdev.flag.mp herr)
          rw [hentry, hold, not_not.mp hsame]
      · rw [lookup_assignKey, if_pos rfl]
    · intro addr' hne
      dsimp only
      split
      · split
        · rw [lookup_assignKey, if_neg hne]
        · rfl
      · rw [lookup_assignKey, if_neg hne]
  · split
    · constructor
      · exact ⟨by simp, fun _ => Or.inl rfl⟩
      · simp [lookup_eraseKey, EtherDevice.entry, EtherDevice.getCurrentQState]
      · intro addr' hne
        dsimp only
        rw [lookup_eraseKey, if_neg hne]
    · exact ⟨hdev, hentry, fun _ _ => rfl⟩

/-- Every class keeps its entry in step with its state. -/
theorem tracked_updateDevice (s : Surroundings) (hdev : dev.Coherent)
    (hentry : mVarErrors.lookup addr = dev.entry) :
    Tracked addr mVarErrors (dev.updateDevice s addr mVarErrors) := by
  simp only [EtherDevice.updateDevice]
  cases hclass : dev.devClass with
  | digitalDev digital =>
    have h := tracked_updateModuleState s hdev (fun _ => by rw [hclass]; simp) hentry
    dsimp only
    unfold DigitalDev.updateDevice
    dsimp only
    split
    · exact h
    · refine ⟨⟨h.coherent.flag, fun _ => ?_⟩, h.entry, h.others⟩
      apply h.coherent.states
      intro mtStatusW
      rw [devClass_updateModuleState, hclass]
      simp
  | analogDev mtStatusW => exact tracked_analogDev s mtStatusW hdev hclass hentry
  | pulseDev => exact tracked_updateModuleState s hdev (fun _ => by rw [hclass]; simp) hentry

end Device

/-- The loop of `updateDevices`: the devices share the table of errors. -/
def updateAll (s : Surroundings) :
    List (IOAddr × EtherDevice) → VarErrors → List (IOAddr × EtherDevice) × VarErrors
  | [], mVarErrors => ([], mVarErrors)
  | (addr, dev) :: mDevices, mVarErrors =>
    let (dev, mVarErrors) := dev.updateDevice s addr mVarErrors
    let (mDevices, mVarErrors) := updateAll s mDevices mVarErrors
    ((addr, dev) :: mDevices, mVarErrors)

/-- The table of errors has the entry of every device and no other. -/
structure Booked (mDevices : List (IOAddr × EtherDevice)) (mVarErrors : VarErrors) : Prop where
  unique : UniqueKeys mDevices
  coherent : ∀ it ∈ mDevices, it.2.Coherent
  entry : ∀ it ∈ mDevices, mVarErrors.lookup it.1 = it.2.entry
  others : ∀ addr, addr ∉ mDevices.map Prod.fst → mVarErrors.lookup addr = none

theorem keys_updateAll (s : Surroundings) (mDevices : List (IOAddr × EtherDevice))
    (mVarErrors : VarErrors) :
    (updateAll s mDevices mVarErrors).1.map Prod.fst = mDevices.map Prod.fst := by
  induction mDevices generalizing mVarErrors with
  | nil => rfl
  | cons it mDevices ih =>
    simp only [updateAll, List.map_cons, ih]

/-- The entries of the devices that the loop has yet to visit. -/
theorem Tracked.entries_rest {first : IOAddr} {dev : EtherDevice}
    {mDevices : List (IOAddr × EtherDevice)} {mVarErrors : VarErrors} {r : EtherDevice × VarErrors}
    (h : Tracked first mVarErrors r) (hunique : UniqueKeys ((first, dev) :: mDevices))
    (hentry : ∀ it ∈ (first, dev) :: mDevices, mVarErrors.lookup it.1 = it.2.entry) :
    ∀ it ∈ mDevices, r.2.lookup it.1 = it.2.entry := by
  intro it hit
  have hne : it.1 ≠ first := by
    intro heq
    have hmem : it.1 ∈ mDevices.map Prod.fst := List.mem_map_of_mem (f := Prod.fst) hit
    rw [heq] at hmem
    exact (List.nodup_cons.mp hunique).1 hmem
  rw [h.others it.1 hne]
  exact hentry it (List.mem_cons_of_mem _ hit)

/-- The loop leaves the entries of other addresses alone. -/
theorem updateAll_others (s : Surroundings) {mDevices : List (IOAddr × EtherDevice)}
    {mVarErrors : VarErrors} (hcoherent : ∀ it ∈ mDevices, it.2.Coherent)
    (hunique : UniqueKeys mDevices) (hentry : ∀ it ∈ mDevices, mVarErrors.lookup it.1 = it.2.entry)
    (addr : IOAddr) (haddr : addr ∉ mDevices.map Prod.fst) :
    (updateAll s mDevices mVarErrors).2.lookup addr = mVarErrors.lookup addr := by
  induction mDevices generalizing mVarErrors with
  | nil => rfl
  | cons it mDevices ih =>
    obtain ⟨first, dev⟩ := it
    rw [List.map_cons, List.mem_cons, not_or] at haddr
    have hrest := (List.nodup_cons.mp hunique).2
    have htracked := tracked_updateDevice s (hcoherent (first, dev) List.mem_cons_self)
      (hentry (first, dev) List.mem_cons_self)
    simp only [updateAll]
    rw [ih (fun it hit => hcoherent it (List.mem_cons_of_mem _ hit)) hrest
      (htracked.entries_rest hunique hentry) haddr.2]
    exact htracked.others addr haddr.1

theorem updateAll_entries (s : Surroundings) {mDevices : List (IOAddr × EtherDevice)}
    {mVarErrors : VarErrors} (hcoherent : ∀ it ∈ mDevices, it.2.Coherent)
    (hunique : UniqueKeys mDevices)
    (hentry : ∀ it ∈ mDevices, mVarErrors.lookup it.1 = it.2.entry) :
    ∀ it ∈ (updateAll s mDevices mVarErrors).1,
      it.2.Coherent ∧ (updateAll s mDevices mVarErrors).2.lookup it.1 = it.2.entry := by
  induction mDevices generalizing mVarErrors with
  | nil =>
    intro it hit
    cases hit
  | cons it mDevices ih =>
    obtain ⟨first, dev⟩ := it
    obtain ⟨hnot, hrest⟩ := List.nodup_cons.mp hunique
    have htracked := tracked_updateDevice s (hcoherent (first, dev) List.mem_cons_self)
      (hentry (first, dev) List.mem_cons_self)
    have hcoherent' : ∀ it ∈ mDevices, it.2.Coherent :=
      fun it hit => hcoherent it (List.mem_cons_of_mem _ hit)
    have hentry' := htracked.entries_rest hunique hentry
    intro it hit
    simp only [updateAll, List.mem_cons] at hit ⊢
    rcases hit with rfl | hit
    · refine ⟨htracked.coherent, ?_⟩
      rw [updateAll_others s hcoherent' hrest hentry' first hnot]
      exact htracked.entry
    · exact ih hcoherent' hrest hentry' it hit

theorem Booked.updateAll {mDevices : List (IOAddr × EtherDevice)} {mVarErrors : VarErrors}
    (h : Booked mDevices mVarErrors) (s : Surroundings) :
    Booked (updateAll s mDevices mVarErrors).1 (updateAll s mDevices mVarErrors).2 := by
  have hentries := updateAll_entries s h.coherent h.unique h.entry
  constructor
  · simp only [UniqueKeys]
    rw [keys_updateAll]
    exact h.unique
  · exact fun it hit => (hentries it hit).1
  · exact fun it hit => (hentries it hit).2
  · intro addr haddr
    rw [keys_updateAll] at haddr
    rw [updateAll_others s h.coherent h.unique h.entry addr haddr]
    exact h.others addr haddr

/-- The entries are the states of the devices that are not `OK`. -/
theorem Booked.lookup_iff {mDevices : List (IOAddr × EtherDevice)} {mVarErrors : VarErrors}
    (h : Booked mDevices mVarErrors) (addr : IOAddr) (eState : QuState) :
    mVarErrors.lookup addr = some eState ↔
      ∃ dev, (addr, dev) ∈ mDevices ∧ dev.getCurrentQState = eState ∧ eState ≠ .ok := by
  constructor
  · intro hlookup
    have hmem : addr ∈ mDevices.map Prod.fst := by
      by_contra hnot
      rw [h.others addr hnot] at hlookup
      cases hlookup
    obtain ⟨⟨_, dev⟩, hdev, rfl⟩ := List.mem_map.mp hmem
    have hentry := h.entry _ hdev
    rw [hlookup, EtherDevice.entry] at hentry
    split at hentry
    · cases hentry
    · rename_i hstate
      obtain rfl := Option.some.inj hentry
      exact ⟨dev, hdev, rfl, hstate⟩
  · rintro ⟨dev, hdev, rfl, hstate⟩
    rw [h.entry _ hdev, EtherDevice.entry, if_neg hstate]

end EtherDevices
