import TurbineGovernor.EtherDevices
import TurbineGovernor.TransitionRuns

/-!
# The EtherCAT driver of the regulator

One definition for each method of `EthercatDrv`; what the network, the library
and the clocks answer is an argument. Within one configuration the two sets of
errors are those of its modules and devices. Nothing empties them when a
configuration is closed.
-/

namespace EthercatDriver
open CommonTypes KeyedTables ByteMemory ProcessImage EtherDevices TransitionRuns

def EC_MAXSLAVE : Nat := 200
def EC_STATE_NONE : BitVec 16 := 0x00
def EC_STATE_SAFE_OP : BitVec 16 := 0x04
def EC_STATE_OPERATIONAL : BitVec 16 := 0x08
def EC_STATE_ACK : BitVec 16 := 0x10
def EC_STATE_ERROR : BitVec 16 := 0x10
def SLAVE_SYNC_TRYS : Nat := 2

/-- A vector of bytes as an unchecked index meets it: its size, the memory from its
first entry on, which goes on past its end, and the indices that have been used. -/
structure ByteVector where
  size : Nat
  entry : Nat → BitVec 8
  used : Finset Nat

namespace ByteVector

/-- A new vector of zeros, with `memory` past its end. -/
def zeros (size : Nat) (memory : Nat → BitVec 8) : ByteVector :=
  ⟨size, fun i => if i < size then 0 else memory i, ∅⟩

def set (v : ByteVector) (i : Nat) (b : BitVec 8) : ByteVector :=
  { v with
    entry := fun j => if j = i then b else v.entry j
    used := insert i v.used }

/-- One byte assigned at several indices, in any order. -/
def setAll (v : ByteVector) (indices : Finset Nat) (b : BitVec 8) : ByteVector :=
  { v with
    entry := fun j => if j ∈ indices then b else v.entry j
    used := v.used ∪ indices }

end ByteVector

/-- The fields of `EthercatDrv` and what it uses of the library's tables.
`errorCalls` counts the calls of `mferrorCallB`. -/
structure EthercatDrv where
  mDevices : List (IOAddr × EtherDevice)
  mVarErrors : VarErrors
  mModuleErrors : Finset (BitVec 8)
  mSlavesComTrys : ByteVector
  mtDrvState : DrvState
  mstrLastError : String
  mstrIfname : String
  ec_slavecount : Fin EC_MAXSLAVE
  outputs : BitVec 8 → Nat
  inputs : BitVec 8 → Nat
  outputsWKC : BitVec 16
  inputsWKC : BitVec 16
  islost : Nat → Bool
  errorCalls : Nat

/-- What the library answers about one slave in a check. -/
structure SlaveAnswer where
  state : BitVec 16
  reconfigured : Bool × BitVec 16
  checked : BitVec 16
  recovered : Bool

/-- One exchange: the work counter, the slaves, the image and the clocks after it. -/
structure Exchange where
  iWorkCount : Int
  slave : Nat → SlaveAnswer
  image : Memory
  steadyNow : Int
  msSinceEpoch : Int

/-- What the library finds and answers during `init`, and the memory in which
`init` makes the vector of the tries. -/
structure BusScan where
  interfaceOk : Bool
  configured : Bool
  ec_slavecount : Fin EC_MAXSLAVE
  outputs : BitVec 8 → Nat
  inputs : BitVec 8 → Nat
  outputsWKC : BitVec 16
  inputsWKC : BitVec 16
  islost : Nat → Bool
  safeOp : Bool
  operational : Bool
  memory : Nat → BitVec 8

/-- The children of the root. A variable is what the factory makes of its
address and type, nothing when one of them is missing or refused. -/
inductive XmlChild where
  | slaveConfig
  | vars (vars : List (Option (IOAddr × DeviceCnf)))
  | other

structure FieldDriverXml where
  ifname : String
  children : List XmlChild

/-- What the branches of a check leave: the error flag, the state and `islost`
of the slave, and whether its tries were counted. -/
structure SlaveCheck where
  bSlaveError : Bool
  state : BitVec 16
  islost : Bool
  counted : Bool

def examine (comTrys : BitVec 8) (islost : Bool) (a : SlaveAnswer) : SlaveCheck :=
  if a.state = EC_STATE_SAFE_OP + EC_STATE_ERROR then
    ⟨decide (comTrys.toNat ≥ SLAVE_SYNC_TRYS), EC_STATE_SAFE_OP + EC_STATE_ACK, islost, true⟩
  else if a.state = EC_STATE_SAFE_OP then
    ⟨decide (comTrys.toNat ≥ SLAVE_SYNC_TRYS), EC_STATE_OPERATIONAL, islost, true⟩
  else if a.state > EC_STATE_NONE then
    ⟨true, a.reconfigured.2, if a.reconfigured.1 then false else islost, false⟩
  else if !islost then
    ⟨true, a.checked, if a.checked = EC_STATE_NONE then true else islost, false⟩
  else ⟨true, a.state, islost, false⟩

namespace EthercatDrv

def slaves (d : EthercatDrv) : EcSlaves := ⟨d.ec_slavecount, d.outputs, d.inputs⟩

/-- One pass of the loop of `checkSlavesWKC`. -/
def checkSlave (d : EthercatDrv) (iSlave : Nat) (a : SlaveAnswer) : EthercatDrv :=
  if a.state ≠ EC_STATE_OPERATIONAL then
    let comTrys := d.mSlavesComTrys.entry iSlave
    let check := examine comTrys (d.islost iSlave) a
    { d with
      mSlavesComTrys :=
        if check.counted then d.mSlavesComTrys.set iSlave (comTrys + 1) else d.mSlavesComTrys
      mModuleErrors :=
        if check.bSlaveError then insert (BitVec.ofNat 8 iSlave) d.mModuleErrors
        else d.mModuleErrors
      islost := fun i =>
        if i = iSlave then check.islost && decide (check.state = EC_STATE_NONE) && !a.recovered
        else d.islost i }
  else
    { d with
      mModuleErrors := d.mModuleErrors.erase (BitVec.ofNat 8 iSlave)
      mSlavesComTrys := d.mSlavesComTrys.set iSlave 0 }

def checkSlavesWKC (d : EthercatDrv) (x : Exchange) : EthercatDrv :=
  if x.iWorkCount < d.outputsWKC.toNat * 2 + d.inputsWKC.toNat then
    (List.range d.ec_slavecount).foldl (fun d i => d.checkSlave (i + 1) (x.slave (i + 1))) d
  else
    { d with
      mSlavesComTrys := d.mSlavesComTrys.setAll (d.mModuleErrors.image BitVec.toNat) 0
      mModuleErrors := ∅ }

def updateDevices (little : Bool) (d : EthercatDrv) (x : Exchange) : EthercatDrv :=
  let r := updateAll ⟨little, d.slaves, x.image, d.mModuleErrors, x.steadyNow, x.msSinceEpoch⟩
    d.mDevices d.mVarErrors
  { d with mDevices := r.1, mVarErrors := r.2 }

/-- Entering an error state notifies, staying in it does not. -/
def enterError (d : EthercatDrv) (state : DrvState) : EthercatDrv :=
  { d with
    mtDrvState := state
    errorCalls := if d.mtDrvState ≠ state then d.errorCalls + 1 else d.errorCalls }

/-- One turn of the loop. A driver that is stopped or not initialised waits. -/
def driverLoop (little : Bool) (d : EthercatDrv) (x : Exchange) : EthercatDrv :=
  if d.mtDrvState = .stopped ∨ d.mtDrvState = .unInit then d
  else
    let d := d.checkSlavesWKC x
    if d.mModuleErrors.card = d.ec_slavecount then d.enterError .comError
    else
      let d := d.updateDevices little x
      if d.mModuleErrors ≠ ∅ ∨ d.mVarErrors ≠ [] then d.enterError .varError
      else { d with mtDrvState := .running }

def eraseDrvConfig (d : EthercatDrv) : EthercatDrv := { d with mDevices := [] }

def close (d : EthercatDrv) : Bool × EthercatDrv :=
  if d.mtDrvState = .unInit then (true, d)
  else (true, eraseDrvConfig { d with mtDrvState := .unInit })

def start (d : EthercatDrv) : Bool × EthercatDrv :=
  if d.mtDrvState = .unInit then (false, d)
  else if d.mtDrvState = .stopped then (true, { d with mtDrvState := .running })
  else (true, d)

def stop (d : EthercatDrv) : Bool × EthercatDrv :=
  if d.mtDrvState = .unInit then (false, d) else (true, { d with mtDrvState := .stopped })

end EthercatDrv

def readXMLVars : List (Option (IOAddr × DeviceCnf)) → List (IOAddr × EtherDevice) →
    Bool × List (IOAddr × EtherDevice)
  | [], mDevices => (true, mDevices)
  | none :: _, _ => (false, [])
  | some (newAddr, cnf) :: vars, mDevices =>
    readXMLVars vars (insertKey mDevices newAddr (EtherDevice.create cnf))

/-- The loop over the children. The configuration of the slaves has no content
that is read. -/
def readXMLChildren (bSlaveCnf bVars : Bool) : List XmlChild → List (IOAddr × EtherDevice) →
    Bool × List (IOAddr × EtherDevice)
  | [], mDevices => (true, mDevices)
  | child :: children, mDevices =>
    if bSlaveCnf && bVars then (true, mDevices)
    else match child with
      | .slaveConfig => readXMLChildren true bVars children mDevices
      | .vars vars =>
        if bVars then readXMLChildren bSlaveCnf bVars children mDevices
        else match readXMLVars vars mDevices with
          | (true, mDevices) => readXMLChildren bSlaveCnf true children mDevices
          | (false, mDevices) => (false, mDevices)
      | .other => readXMLChildren bSlaveCnf bVars children mDevices

namespace EthercatDrv

/-- `file` is what the XML library makes of the file: an error text, a document
without a `FieldDriver` root, or its contents. -/
def loadXMLConfig (d : EthercatDrv) (file : Except String (Option FieldDriverXml)) :
    Bool × EthercatDrv :=
  match file with
  | .error text => (false, { d with mstrLastError := text })
  | .ok none => (false, d)
  | .ok (some root) =>
    let (bOk, mDevices) := readXMLChildren false false root.children d.mDevices
    (bOk, { d with mstrIfname := root.ifname, mDevices := mDevices })

/-- The part of `init` that talks to the library. -/
def initSoem (d : EthercatDrv) (scan : BusScan) : Bool × EthercatDrv :=
  if !scan.interfaceOk then (false, { d with mstrLastError := "Interfaz de red invalida" })
  else if !scan.configured then
    (false, { d with
      ec_slavecount := scan.ec_slavecount
      mstrLastError := "No se pudieron configurar los esclavos, ec_config_init" })
  else
    let d := { d with
      ec_slavecount := scan.ec_slavecount, outputs := scan.outputs, inputs := scan.inputs
      outputsWKC := scan.outputsWKC, inputsWKC := scan.inputsWKC, islost := scan.islost }
    if !scan.safeOp then
      (false, { d with
        mstrLastError := "Los esclavos no pudieron cambiar a modo seguro operacional." })
    else if !scan.operational then
      (false, { d with mstrLastError := "Los esclavos no pudieron cambiar a modo operacional." })
    else (true, d)

def init (d : EthercatDrv) (file : Except String (Option FieldDriverXml)) (scan : BusScan) :
    Bool × EthercatDrv :=
  if d.mtDrvState ≠ .unInit then (false, { d with mstrLastError := "Driver ya inicializado" })
  else match d.loadXMLConfig file with
    | (false, d) => (false, { d with mstrLastError := "Error en archivo de configuracion" })
    | (true, d) =>
      match d.initSoem scan with
      | (false, d) => (false, d.eraseDrvConfig)
      | (true, d) =>
        (true, { d with
          mSlavesComTrys := .zeros d.ec_slavecount scan.memory, mtDrvState := .stopped })

/-- The state after the constructor, with the library as it is then. -/
def fresh (ec_slavecount : Fin EC_MAXSLAVE) : EthercatDrv where
  mDevices := []
  mVarErrors := []
  mModuleErrors := ∅
  mSlavesComTrys := .zeros 0 (fun _ => 0)
  mtDrvState := .unInit
  mstrLastError := ""
  mstrIfname := ""
  ec_slavecount := ec_slavecount
  outputs := fun _ => 0
  inputs := fun _ => 0
  outputsWKC := 0
  inputsWKC := 0
  islost := fun _ => false
  errorCalls := 0

end EthercatDrv

inductive Op where
  | init (file : Except String (Option FieldDriverXml)) (scan : BusScan)
  | start
  | stop
  | close
  | exchange (x : Exchange)

def EthercatDrv.step (little : Bool) (d : EthercatDrv) : Op → EthercatDrv
  | .init file scan => (d.init file scan).2
  | .start => d.start.2
  | .stop => d.stop.2
  | .close => d.close.2
  | .exchange x => d.driverLoop little x

end EthercatDriver
