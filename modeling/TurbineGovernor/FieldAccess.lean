import TurbineGovernor.DeviceValues
import TurbineGovernor.ErrorBookkeeping

/-!
# The field driver as the scan sees it

`EthercatDrv` behind the interface `IOFieldDrv`: `read`, `write` and
`updateQState` find the device of an address and call its class. The state that
they give a variable and the error that `getVarErrors` reports for it come from
different members.
-/

namespace FieldAccess
open CommonTypes KeyedTables ByteMemory ProcessImage EtherDevices EthercatDriver DeviceValues
open TransitionRuns ErrorBookkeeping

/-- The members that `read` and `write` use besides those of `EtherDevice`. A
class has its own of them. -/
structure Members where
  mtBitRepr : BitRepr
  uiNumBits : BitVec 8
  mtControlB : ControlWord

section Classes
variable (little : Bool) (s : EcSlaves) (m : Memory)

/-- The last pulse that the device has measured goes to the variable too. -/
def DigitalDev.read (digital : EtherDevices.DigitalDev) (dev : EtherDevice) (var : IOVar)
    (now : BitVec 64) : Bool × IOVar :=
  let (ok, readedVal) := readDevice little s m var.mtAddr
  if !ok then (false, var)
  else
    let var := { var.setCurrentVal (if readedVal > 0 then 1 else 0) with miTimeS := now }
    let var := var.setPulseInfo digital.mdPulseDur digital.miPulseTimeS
    (true, { var with mtQState := dev.mtLastQState })

def DigitalDev.write (var : IOVar) : Bool × Memory :=
  writeDevice little s m var.mtAddr (if var.getCurrentVal > 0 then 1 else 0)

def PulseDev.read (dev : EtherDevice) (var : IOVar) (now : BitVec 64) : Bool × IOVar :=
  let (ok, uiReadedVal) := readDevice little s m var.mtAddr
  if !ok then (false, var)
  else (true, { var.setCurrentVal
      (convertBytes little uiReadedVal .unsigned var.mtAddr.uiNumBits) with
    miTimeS := now, mtQState := dev.mtLastQState })

/-- The object of an analog device. -/
def analogDev (mtStatusW : StatusWord) (members : Members) (dev : EtherDevice) : AnalogDev :=
  { AnalogDev.new mtStatusW members.mtBitRepr members.uiNumBits with
    mtLastQState := dev.mtLastQState }

/-- The virtual call. -/
def EtherDevice.read (members : Members) (dev : EtherDevice) (var : IOVar) (now : BitVec 64) :
    Bool × IOVar :=
  match dev.devClass with
  | .digitalDev digital => DigitalDev.read little s m digital dev var now
  | .analogDev mtStatusW => (analogDev mtStatusW members dev).read little s m var now
  | .pulseDev => PulseDev.read little s m dev var now

/-- `setTimedOut` and `resetTimedOut` say how the waits of a pulse device end. -/
def EtherDevice.write (members : Members) (dev : EtherDevice) (var : IOVar)
    (setTimedOut resetTimedOut : Bool) : Bool × Memory :=
  match dev.devClass with
  | .digitalDev _ => DigitalDev.write little s m var
  | .analogDev mtStatusW => (analogDev mtStatusW members dev).write little s m var
  | .pulseDev =>
    DeviceValues.PulseDev.write little s m members.mtControlB var setTimedOut resetTimedOut

end Classes

/-- The driver with the process image and the members of its devices. -/
structure FieldBus where
  drv : EthercatDrv
  members : IOAddr → Members
  mcIOmap : Memory

namespace FieldBus
variable (little : Bool) (b : FieldBus)

def read (var : IOVar) (now : BitVec 64) : Bool × IOVar :=
  if b.drv.mtDrvState = .unInit then (false, var)
  else match b.drv.mDevices.lookup var.mtAddr with
    | none => (false, var)
    | some dev =>
      match EtherDevice.read little b.drv.slaves b.mcIOmap (b.members var.mtAddr) dev var now with
      | (false, var) => (false, var)
      | (true, var) =>
        (true, if b.drv.mtDrvState = .comError then { var with mtQState := .comError } else var)

def write (var : IOVar) (setTimedOut resetTimedOut : Bool) : Bool × Memory :=
  if b.drv.mtDrvState = .unInit then (false, b.mcIOmap)
  else match b.drv.mDevices.lookup var.mtAddr with
    | none => (false, b.mcIOmap)
    | some dev => EtherDevice.write little b.drv.slaves b.mcIOmap (b.members var.mtAddr) dev var
        setTimedOut resetTimedOut

def updateQState (var : IOVar) : IOVar :=
  if b.drv.mtDrvState = .unInit then var
  else match b.drv.mDevices.lookup var.mtAddr with
    | none => var
    | some dev =>
      if b.drv.mtDrvState = .comError then { var with mtQState := .comError }
      else { var with mtQState := dev.getCurrentQState }

def getVarErrors : VarErrors := b.drv.mVarErrors

end FieldBus

/-- The operations of the driver and the writes of the scan. A new configuration
comes with the members of its devices and a new process image. -/
inductive Op where
  | init (file : Except String (Option FieldDriverXml)) (scan : BusScan)
      (members : IOAddr → Members) (image : Memory)
  | start
  | stop
  | close
  | exchange (x : Exchange)
  | write (var : IOVar) (setTimedOut resetTimedOut : Bool)

/-- The driver thread waits while the driver is stopped. -/
def idle (d : EthercatDrv) : Bool := decide (d.mtDrvState = .stopped ∨ d.mtDrvState = .unInit)

def step (little : Bool) (b : FieldBus) : Op → FieldBus
  | .init file scan members image =>
    if b.drv.mtDrvState ≠ .unInit then { b with drv := (b.drv.init file scan).2 }
    else ⟨(b.drv.init file scan).2, members, image⟩
  | .start => { b with drv := b.drv.start.2 }
  | .stop => { b with drv := b.drv.stop.2 }
  | .close => { b with drv := b.drv.close.2 }
  | .exchange x =>
    { b with
      drv := b.drv.driverLoop little x
      mcIOmap := if idle b.drv then b.mcIOmap else x.image }
  | .write var setTimedOut resetTimedOut =>
    { b with mcIOmap := (b.write little var setTimedOut resetTimedOut).2 }

/-- What a run does to the driver. -/
def drvOps (ops : List Op) : List EthercatDriver.Op :=
  ops.filterMap (fun op => match op with
    | .init file scan _ _ => some (.init file scan)
    | .start => some .start
    | .stop => some .stop
    | .close => some .close
    | .exchange x => some (.exchange x)
    | .write _ _ _ => none)

theorem drv_run (little : Bool) (b : FieldBus) (ops : List Op) :
    (run (step little) b ops).drv = run (EthercatDrv.step little) b.drv (drvOps ops) := by
  induction ops generalizing b with
  | nil => rfl
  | cons op ops ih =>
    rw [run_cons, ih]
    cases op with
    | init file scan members image =>
      simp only [step]
      split <;> rfl
    | _ => rfl

section Quality
variable {little : Bool} {b : FieldBus} {var : IOVar} {now : BitVec 64}

/-- The pulse of a variable after a read: a digital device has its own. -/
def EtherDevice.pulseInfo (dev : EtherDevice) (var : IOVar) : Option Int × Option Int :=
  match dev.devClass with
  | .digitalDev digital => (digital.mdPulseDur, digital.miPulseTimeS)
  | _ => (var.mdPulseDur, var.miPulseTimeS)

/-- A class reads nothing, or sets value, time, pulse and its own state. -/
theorem device_read (s : EcSlaves) (m : Memory) (members : Members) (dev : EtherDevice) :
    EtherDevice.read little s m members dev var now = (false, var) ∨
      ∃ fCurrentVal, EtherDevice.read little s m members dev var now =
        (true, { var with
          mfTrueVal := fCurrentVal, miTimeS := now
          mdPulseDur := (EtherDevice.pulseInfo dev var).1
          miPulseTimeS := (EtherDevice.pulseInfo dev var).2
          mtQState := dev.mtLastQState }) := by
  unfold EtherDevice.read EtherDevice.pulseInfo
  cases dev.devClass with
  | digitalDev digital =>
    simp only [DigitalDev.read]
    split
    · exact Or.inl rfl
    · exact Or.inr ⟨_, rfl⟩
  | analogDev mtStatusW =>
    simp only [AnalogDev.read]
    split
    · exact Or.inl rfl
    split
    · exact Or.inl rfl
    · exact Or.inr ⟨_, rfl⟩
  | pulseDev =>
    simp only [PulseDev.read]
    split
    · exact Or.inl rfl
    · exact Or.inr ⟨_, rfl⟩

/-- What a read leaves of the pulse: that of the digital device of its address, or
what was there. -/
def FieldBus.pulseInfo (b : FieldBus) (var : IOVar) : Option Int × Option Int :=
  match b.drv.mDevices.lookup var.mtAddr with
  | some dev => EtherDevice.pulseInfo dev var
  | none => (var.mdPulseDur, var.miPulseTimeS)

/-- The state of the variables of an address, by the errors that are reported. -/
def FieldBus.qState (b : FieldBus) (addr : IOAddr) : QuState :=
  if b.drv.mtDrvState = .comError then .comError else (b.getVarErrors.lookup addr).getD .ok

/-- While the books are in order the device's state is the reported error. -/
theorem qState_of_device (inOrder : InOrder b.drv) (hinit : b.drv.mtDrvState ≠ .unInit)
    {addr : IOAddr} {dev : EtherDevice} (hdev : b.drv.mDevices.lookup addr = some dev)
    (hcom : b.drv.mtDrvState ≠ .comError) : dev.mtLastQState = b.qState addr := by
  have hentry := (inOrder.booked hinit).entry (addr, dev) (mem_of_lookup hdev)
  rw [FieldBus.qState, if_neg hcom, FieldBus.getVarErrors, hentry, EtherDevice.entry]
  split
  · assumption
  · rfl

theorem read_spec (inOrder : InOrder b.drv) :
    b.read little var now = (false, var) ∨
      ∃ fCurrentVal, b.read little var now = (true, { var with
        mfTrueVal := fCurrentVal, miTimeS := now
        mdPulseDur := (b.pulseInfo var).1, miPulseTimeS := (b.pulseInfo var).2
        mtQState := b.qState var.mtAddr }) := by
  unfold FieldBus.read
  split
  · exact Or.inl rfl
  · rename_i hinit
    cases hdev : b.drv.mDevices.lookup var.mtAddr with
    | none => exact Or.inl rfl
    | some dev =>
      have hdevice := @device_read little var now b.drv.slaves b.mcIOmap (b.members var.mtAddr) dev
      rcases hdevice with hread | ⟨fCurrentVal, hread⟩
      · left
        simp only [hread]
      · right
        refine ⟨fCurrentVal, ?_⟩
        simp only [hread, FieldBus.pulseInfo, hdev]
        by_cases hcom : b.drv.mtDrvState = .comError
        · rw [if_pos hcom, FieldBus.qState, if_pos hcom]
        · rw [if_neg hcom, qState_of_device inOrder hinit hdev hcom]

theorem updateQState_spec (inOrder : InOrder b.drv) (hinit : b.drv.mtDrvState ≠ .unInit) :
    b.updateQState var =
      if var.mtAddr ∈ b.drv.mDevices.map Prod.fst then { var with mtQState := b.qState var.mtAddr }
      else var := by
  unfold FieldBus.updateQState
  rw [if_neg hinit]
  cases hdev : b.drv.mDevices.lookup var.mtAddr with
  | none =>
    have hnot : var.mtAddr ∉ b.drv.mDevices.map Prod.fst := by
      rw [← lookup_isSome_iff, hdev]
      exact Bool.false_ne_true
    rw [if_neg hnot]
  | some dev =>
    have hmem : var.mtAddr ∈ b.drv.mDevices.map Prod.fst := by
      rw [← lookup_isSome_iff, hdev]
      rfl
    rw [if_pos hmem]
    by_cases hcom : b.drv.mtDrvState = .comError
    · simp only [if_pos hcom, FieldBus.qState]
    · simp only [if_neg hcom, EtherDevice.getCurrentQState,
        qState_of_device inOrder hinit hdev hcom]

end Quality

/-- The driver and its image when the program starts. -/
def fresh (ec_slavecount : Fin EC_MAXSLAVE) (members : IOAddr → Members) : FieldBus :=
  ⟨.fresh ec_slavecount, members, fun _ => 0⟩

theorem inOrder_run (little : Bool) (ec_slavecount : Fin EC_MAXSLAVE) (members : IOAddr → Members)
    {ops : List Op}
    (clean : Along (EthercatDrv.step little) StartsClean (.fresh ec_slavecount) (drvOps ops)) :
    InOrder (run (step little) (fresh ec_slavecount members) ops).drv := by
  rw [drv_run]
  refine run_invariant (fun d op h hop => h.step little hop) ?_ clean
  exact ⟨fun _ => rfl, fun hne => absurd rfl hne, fun hne => absurd rfl hne⟩

/-- In every run whose configurations start without errors, a variable that the
scan reads or updates gets the error that `getVarErrors` reports for its
address, `OK` when there is none, and `ComError` while the bus is down. Nothing
else of it changes but value, time and, where the device is digital, the pulse,
which becomes the last one measured; and nothing at all in a failed read. -/
theorem states_reported (little : Bool) (ec_slavecount : Fin EC_MAXSLAVE)
    (members : IOAddr → Members) {ops : List Op}
    (clean : Along (EthercatDrv.step little) StartsClean (.fresh ec_slavecount) (drvOps ops))
    (var : IOVar) (now : BitVec 64) :
    ((run (step little) (fresh ec_slavecount members) ops).read little var now = (false, var) ∨
      ∃ fCurrentVal, (run (step little) (fresh ec_slavecount members) ops).read little var now =
        (true, { var with
          mfTrueVal := fCurrentVal, miTimeS := now
          mdPulseDur :=
            ((run (step little) (fresh ec_slavecount members) ops).pulseInfo var).1
          miPulseTimeS :=
            ((run (step little) (fresh ec_slavecount members) ops).pulseInfo var).2
          mtQState :=
            (run (step little) (fresh ec_slavecount members) ops).qState var.mtAddr })) ∧
    ((run (step little) (fresh ec_slavecount members) ops).drv.mtDrvState ≠ .unInit →
      (run (step little) (fresh ec_slavecount members) ops).updateQState var =
        if var.mtAddr ∈
            (run (step little) (fresh ec_slavecount members) ops).drv.mDevices.map Prod.fst then
          { var with
            mtQState := (run (step little) (fresh ec_slavecount members) ops).qState var.mtAddr }
        else var) :=
  have inOrder := inOrder_run little ec_slavecount members clean
  ⟨read_spec inOrder, updateQState_spec inOrder⟩

def lampOps : List Op :=
  [.init lampFile twoSlaves (fun _ => ⟨.unsigned, 8, ⟨{}, 0⟩⟩) (fun _ => 0), .start,
    .exchange
      { iWorkCount := 1
        slave := fun i => ⟨if i = 1 then EC_STATE_NONE else EC_STATE_OPERATIONAL, (false, 0), 0,
          false⟩
        image := fun _ => 0x80
        steadyNow := 0
        msSinceEpoch := 0 }]

def lampVar : IOVar := ⟨0, 0, 0, 0, 1, 0, 1, lampAddr, none, none, .ok, false⟩

/-- One of two modules is lost, so that the driver is not in `COMError` itself. -/
theorem lamp_in_error :
    (run (step true) (fresh ⟨0, by decide⟩ (fun _ => ⟨.unsigned, 8, ⟨{}, 0⟩⟩))
        lampOps).updateQState lampVar = { lampVar with mtQState := .comError } ∧
      (run (step true) (fresh ⟨0, by decide⟩ (fun _ => ⟨.unsigned, 8, ⟨{}, 0⟩⟩))
        lampOps).drv.mtDrvState = .varError := by
  have hclean : Along (EthercatDrv.step true) StartsClean (.fresh ⟨0, by decide⟩)
      (drvOps lampOps) := ⟨fun _ => ⟨rfl, rfl⟩, trivial, trivial, trivial⟩
  obtain ⟨_, hupdate⟩ := states_reported true ⟨0, by decide⟩
    (fun _ => ⟨.unsigned, 8, ⟨{}, 0⟩⟩) hclean lampVar 0
  refine ⟨(hupdate (by decide)).trans ?_, by decide⟩
  rw [if_pos (by decide), show FieldBus.qState _ lampVar.mtAddr = .comError by decide]

end FieldAccess
