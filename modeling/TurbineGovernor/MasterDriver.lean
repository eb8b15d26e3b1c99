import TurbineGovernor.CommonTypes
import TurbineGovernor.TransitionRuns
import TurbineGovernor.PriorityQueues
import TurbineGovernor.ByteOrder
import TurbineGovernor.Loops

/-!
# The Modbus master driver of the HMI

One definition for each method of `ModbusMasterDrv`. A step is what one thread
does while it holds `mtDrvStateMutex`; what the outside answers in it (clocks,
`modbus_connect`, every transfer) is an argument. The mapping of writes,
successes and expiries to callbacks is kept in the log `calls`. Sleeping and
waiting have no effect on the state and are left out.
-/

namespace MasterDriver
open CommonTypes PriorityQueues RetryLoops

def DIOFFSET : BitVec 32 := 2
def DIADDRESS : BitVec 32 := 10001
def COILOFFSET : BitVec 32 := 1
def COILADDRESS : BitVec 32 := 1
def IRADDRESS : BitVec 32 := 30001
def IROFFSET : BitVec 32 := 4
def HRADDRESS : BitVec 32 := 40001
def HROFFSET : BitVec 32 := 4
def MAX_TRANSMISSION_TRYS : Nat := 3
def MAX_COM_ERROR_TRYS : Nat := 3
def DELAY_BETWEEN_READS : Int := 10
def DELAY_BETWEEN_WRITES : Int := 20
def MODBUS_TCP_DEFAULT_PORT : Int := 502

/-- `new FieldData()` zero-initialises all but the change detection flag. -/
structure FieldData where
  miTimeS : BitVec 64 := 0
  mfTrueVal : Single := 0
  mfForcedVal : Single := 0
  mtQState : QuState := .ok
  mbForced : Bool := false
  mbForceChangeDetection : Bool := true
  deriving DecidableEq

structure ModbusData where
  miTimeS : BitVec 64 := 0
  mfCurrentVal : Single := 0
  muiCurrentVal : BitVec 32 := 0
  mtQState : QuState := .ok
  mbForceChangeDetection : Bool := true
  deriving DecidableEq

/-- A pending request. `id` is the number of the `write` or `force` call that
made it and stands for the address of the heap object. -/
structure WriteReq where
  id : Nat
  mtAddr : IOAddr
  mbForce : Bool
  mbForcedVal : Bool
  mfWriteVal : Single
  mtWriteTimeOut : BitVec 32
  mTimeS : Int
  deriving DecidableEq

namespace WriteReq

/-- `WriteReq::operator<`, the comparator of the pending queue. -/
def Less (wr1 wr2 : WriteReq) : Prop := wr1.mtWriteTimeOut.toNat < wr2.mtWriteTimeOut.toNat

instance (wr1 wr2 : WriteReq) : Decidable (Less wr1 wr2) := Nat.decLt _ _

/-- A pending queue with a fixed rule for requests with equal timeouts. -/
def Queue (older : Bool) : Type := SortedQueue (fun wr : WriteReq => wr.mtWriteTimeOut.toNat) older

instance (older : Bool) : PriorityQueue (Queue older) WriteReq Less :=
  inferInstanceAs (PriorityQueue
    (SortedQueue (fun wr : WriteReq => wr.mtWriteTimeOut.toNat) older) WriteReq
    (fun wr1 wr2 => wr1.mtWriteTimeOut.toNat < wr2.mtWriteTimeOut.toNat))

end WriteReq

/-- Answer to a writing transfer: the slave may perform a request whose
response never reaches the master. -/
inductive Transfer where
  | lost
  | unanswered
  | done
  deriving DecidableEq, Repr

namespace Transfer

def performed : Transfer → Bool
  | lost => false
  | unanswered => true
  | done => true

/-- What the library call reports to the driver. -/
def succeeded : Transfer → Bool
  | done => true
  | _ => false

theorem performed_of_succeeded {t : Transfer} (h : t.succeeded = true) : t.performed = true := by
  cases t
  · cases h
  · rfl
  · rfl

end Transfer

/-- The other end of the connection during one call, asked for attempt number,
address and, when writing, value. `none` is a failed transfer. -/
structure Bus where
  readRegisters : Nat → BitVec 32 → (n : Nat) → Option (Fin n → BitVec 16)
  readInputRegisters : Nat → BitVec 32 → (n : Nat) → Option (Fin n → BitVec 16)
  readInputBits : Nat → BitVec 32 → (n : Nat) → Option (Fin n → Bool)
  readBits : Nat → BitVec 32 → (n : Nat) → Option (Fin n → Bool)
  writeBit : Nat → BitVec 32 → Bool → Transfer
  writeRegisters : Nat → BitVec 32 → BitVec 16 × BitVec 16 → Transfer
  strerror : String

/-- What the outside answers during one call or one turn of `driverLoop`. -/
structure Env where
  /-- `high_resolution_clock`, in milliseconds. -/
  timePoint : Int
  /-- `getMsSinceEpoch()`. -/
  msSinceEpoch : Int
  connects : Bool
  bus : Bus

/-- What the driver does to the outside, in order. -/
inductive Call where
  | accepted (writeReq : WriteReq)
  | refused (id : Nat)
  | transmit (id : Nat)
  | writeSuccess (id : Nat) (tAddr : IOAddr)
  | writeTimeOut (id : Nat) (tAddr : IOAddr)
  | comError
  | recoveredFromError
  deriving DecidableEq

/-- The fields of `ModbusMasterDrv`. An iterator is a position in its table,
`end()` is the length. `destroyed` says that the destructor has returned. -/
structure ModbusMasterDrv (Q : Type) where
  mbArchLittleEnd : Bool
  mFieldVars : List (IOAddr × FieldData)
  mModbusVars : List (IOAddr × ModbusData)
  mFieldIt : Nat
  mModbusIt : Nat
  mPendingWrites : Q
  musChangedVars : Finset IOAddr
  mstrServerIp : String
  miPort : Int
  muiNumIOVars : BitVec 32
  muiNumROInts : BitVec 32
  mpMBCtx : Option (String × Int)
  bConnected : Bool
  uiComErrors : Nat
  mbDrvEnd : Bool
  mtDrvState : DrvState
  mstrLastError : String
  mMillisToWriteCycle : Int
  mMillisToReadCycle : Int
  mLastTimePoint : Int
  mbInWriteCycle : Bool
  mbInReadCycle : Bool
  destroyed : Bool
  nextCall : Nat
  calls : List Call

/-- The registers as they lie in the memory of the host. -/
def registerImage (little : Bool) (uiRegs : List (BitVec 16)) : List ByteOrder.Byte :=
  uiRegs.flatMap (fun r => ByteOrder.image little 2 r.toNat)

def getTimeS (mbArchLittleEnd : Bool) (uiTS : Fin 4 → BitVec 16) : BitVec 64 :=
  BitVec.ofNat 64 (ByteOrder.fromImage mbArchLittleEnd
    (ByteOrder.endianCopy mbArchLittleEnd 8
      (registerImage mbArchLittleEnd (List.ofFn uiTS))))

def getInt (mbArchLittleEnd : Bool) (uiInt : Fin 2 → BitVec 16) : BitVec 32 :=
  BitVec.ofNat 32 (ByteOrder.fromImage mbArchLittleEnd
    (ByteOrder.endianCopy mbArchLittleEnd 4
      (registerImage mbArchLittleEnd (List.ofFn uiInt))))

/-- The input with index 0 is the high bit. -/
def getQState (uiQstate : Fin 2 → Bool) : QuState :=
  QuState.ofCode ((uiQstate 0).toNat * 2 ||| (uiQstate 1).toNat)

/-- Number of a channel in the tables, which start after the RO ints. -/
def numVar (muiNumROInts : BitVec 32) (tAddr : IOAddr) : BitVec 32 :=
  tAddr.uiChannel.setWidth 32 - muiNumROInts

def hrAddr (uiNumVar : BitVec 32) : BitVec 32 := HRADDRESS + ((uiNumVar * HROFFSET) - HROFFSET)

def irAddr (uiNumVar muiNumROInts : BitVec 32) : BitVec 32 :=
  IRADDRESS + ((uiNumVar * IROFFSET) - IROFFSET) + muiNumROInts * 2

def diAddr (uiNumVar : BitVec 32) : BitVec 32 := DIADDRESS + ((uiNumVar * DIOFFSET) - DIOFFSET)

def coilAddr (uiNumVar : BitVec 32) : BitVec 32 :=
  COILADDRESS + ((uiNumVar * COILOFFSET) - COILOFFSET)

def roAddr (tAddr : IOAddr) : BitVec 32 := IRADDRESS + ((tAddr.uiChannel.setWidth 32 - 1) * 2)

variable (L : FloatAbcd)

/-- The transfers of a field variable that have succeeded so far. -/
structure FieldReads where
  uiVals : Option (Fin 4 → BitVec 16) := none
  uiTS : Option (Fin 4 → BitVec 16) := none
  uiQstate : Option (Fin 2 → Bool) := none
  uiForced : Option (Fin 1 → Bool) := none

namespace FieldReads

def complete (r : FieldReads) : Bool :=
  r.uiVals.isSome && r.uiTS.isSome && r.uiQstate.isSome && r.uiForced.isSome

/-- One pass of the loop body: a transfer is made when all before it have
succeeded and it has not. -/
def attempt (bus : Bus) (uiNumVar muiNumROInts : BitVec 32) (n : Nat) (r : FieldReads) :
    FieldReads :=
  let vals := r.uiVals <|> bus.readRegisters n (hrAddr uiNumVar) 4
  let ts := if vals.isSome then
    r.uiTS <|> bus.readInputRegisters n (irAddr uiNumVar muiNumROInts) 4 else r.uiTS
  let qstate := if vals.isSome && ts.isSome then
    r.uiQstate <|> bus.readInputBits n (diAddr uiNumVar) 2 else r.uiQstate
  let forced := if vals.isSome && ts.isSome && qstate.isSome then
    r.uiForced <|> bus.readBits n (coilAddr uiNumVar) 1 else r.uiForced
  ⟨vals, ts, qstate, forced⟩

end FieldReads

/-- The decoded answers of a successful poll of a field variable. -/
structure FieldReading where
  fTrueVal : Single
  fForcedVal : Single
  iTimeS : BitVec 64
  tqstate : QuState
  bForced : Bool
  deriving DecidableEq

/-- The transfers and the decoding of `processRead(IOAddr, FieldData*)`. -/
def fetchField (little : Bool) (muiNumROInts : BitVec 32) (bus : Bus) (tAddr : IOAddr) :
    Option FieldReading :=
  let uiNumVar := numVar muiNumROInts tAddr
  let (iNumTrys, r) := retryLoop (fun _ r => (!FieldReads.complete r, r))
    (FieldReads.attempt bus uiNumVar muiNumROInts) MAX_TRANSMISSION_TRYS 0 {}
  if iNumTrys ≥ MAX_TRANSMISSION_TRYS + 1 then none
  else match r with
    | ⟨some uiVals, some uiTS, some uiQstate, some uiForced⟩ => some
      { fTrueVal := L.getFloatAbcd (uiVals 0) (uiVals 1)
        fForcedVal := L.getFloatAbcd (uiVals 2) (uiVals 3)
        iTimeS := getTimeS little uiTS
        tqstate := getQState uiQstate
        bForced := uiForced 0 }
    | _ => none

def fieldChanged (p : FieldData) (r : FieldReading) : Bool :=
  p.mbForceChangeDetection || Single.ne r.fTrueVal p.mfTrueVal ||
    Single.ne p.mfForcedVal r.fForcedVal || decide (r.tqstate ≠ p.mtQState) ||
    decide (p.mbForced ≠ r.bForced)

def storeField (p : FieldData) (r : FieldReading) : FieldData :=
  { p with
    mfTrueVal := r.fTrueVal, mfForcedVal := r.fForcedVal, miTimeS := r.iTimeS
    mtQState := r.tqstate, mbForced := r.bForced }

/-- The answer to a poll of a Modbus variable: an RO int or a float. -/
inductive ModbusReading where
  | roInt (uiCurrentVal : BitVec 32)
  | current (fCurrentVal : Single)
  deriving DecidableEq

def isROInt (muiNumROInts : BitVec 32) (tAddr : IOAddr) : Bool :=
  decide (1#32 ≤ tAddr.uiChannel.setWidth 32 ∧ tAddr.uiChannel.setWidth 32 ≤ muiNumROInts)

/-- The transfer is made in the condition of the loop, so that a success of the
last attempt leaves the counter at the bound. -/
def readLoop {n : Nat} (transfer : Nat → Option (Fin n → BitVec 16)) :
    Nat × Option (Fin n → BitVec 16) :=
  retryLoop (fun i _ => ((transfer i).isNone, transfer i)) (fun _ r => r)
    MAX_TRANSMISSION_TRYS 0 none

/-- The transfers and the decoding of `processRead(IOAddr, ModbusData*)`. -/
def fetchModbus (little : Bool) (muiNumROInts : BitVec 32) (bus : Bus) (tAddr : IOAddr) :
    Option ModbusReading :=
  if isROInt muiNumROInts tAddr then
    let (iNumTrys, uiROInt) := readLoop (fun i => bus.readInputRegisters i (roAddr tAddr) 2)
    if iNumTrys ≥ MAX_TRANSMISSION_TRYS + 1 then none
    else uiROInt.map (fun u => .roInt (getInt little u))
  else
    let varAddr := hrAddr (numVar muiNumROInts tAddr)
    let (iNumTrys, uiCurrentVal) := readLoop (fun i => bus.readRegisters i varAddr 2)
    if iNumTrys ≥ MAX_TRANSMISSION_TRYS + 1 then none
    else uiCurrentVal.map (fun u => .current (L.getFloatAbcd (u 0) (u 1)))

def modbusChanged (p : ModbusData) : ModbusReading → Bool
  | .roInt uiCurrentVal => p.mbForceChangeDetection || decide (uiCurrentVal ≠ p.muiCurrentVal) ||
      decide (p.mtQState ≠ .ok)
  | .current fCurrentVal => p.mbForceChangeDetection || Single.ne p.mfCurrentVal fCurrentVal ||
      decide (p.mtQState ≠ .ok)

def storeModbus (p : ModbusData) (now : Int) : ModbusReading → ModbusData
  | .roInt uiCurrentVal =>
    { p with muiCurrentVal := uiCurrentVal, miTimeS := BitVec.ofInt 64 now, mtQState := .ok }
  | .current fCurrentVal =>
    { p with mfCurrentVal := fCurrentVal, miTimeS := BitVec.ofInt 64 now, mtQState := .ok }

namespace ModbusMasterDrv
variable {Q : Type}

/-- The critical section of `mtChagesSetMutex` for the variable at the iterator. -/
def markField (d : ModbusMasterDrv Q) (tAddr : IOAddr) (p : FieldData) : ModbusMasterDrv Q :=
  { d with
    musChangedVars := insert tAddr d.musChangedVars
    mFieldVars := d.mFieldVars.set d.mFieldIt (tAddr, { p with mbForceChangeDetection := false }) }

def markModbus (d : ModbusMasterDrv Q) (tAddr : IOAddr) (p : ModbusData) : ModbusMasterDrv Q :=
  { d with
    musChangedVars := insert tAddr d.musChangedVars
    mModbusVars :=
      d.mModbusVars.set d.mModbusIt (tAddr, { p with mbForceChangeDetection := false }) }

/-- The critical section of `mtIOMapMutex` for the variable at the iterator. -/
def putField (d : ModbusMasterDrv Q) (r : FieldReading) : ModbusMasterDrv Q :=
  { d with mFieldVars := d.mFieldVars.modify d.mFieldIt (fun v => (v.1, storeField v.2 r)) }

def putModbus (d : ModbusMasterDrv Q) (now : Int) (r : ModbusReading) : ModbusMasterDrv Q :=
  { d with mModbusVars := d.mModbusVars.modify d.mModbusIt (fun v => (v.1, storeModbus v.2 now r)) }

/-- `processRead` of the field variable at the iterator. -/
def processReadField (d : ModbusMasterDrv Q) (env : Env) (tAddr : IOAddr) (pFieldVar : FieldData) :
    Bool × ModbusMasterDrv Q :=
  match fetchField L d.mbArchLittleEnd d.muiNumROInts env.bus tAddr with
  | none => (false, { d with mstrLastError := env.bus.strerror })
  | some r =>
    let d := if fieldChanged pFieldVar r then d.markField tAddr pFieldVar else d
    (true, d.putField r)

/-- `processRead` of the Modbus variable at the iterator. -/
def processReadModbus (d : ModbusMasterDrv Q) (env : Env) (tAddr : IOAddr) (pMBVar : ModbusData) :
    Bool × ModbusMasterDrv Q :=
  match fetchModbus L d.mbArchLittleEnd d.muiNumROInts env.bus tAddr with
  | none => (false, { d with mstrLastError := env.bus.strerror })
  | some r =>
    let d := if modbusChanged pMBVar r then d.markModbus tAddr pMBVar else d
    (true, d.putModbus env.msSinceEpoch r)

/-- The part of `processNextRead` after both `if`s. -/
def endOfCycle (d : ModbusMasterDrv Q) : Bool × ModbusMasterDrv Q :=
  if d.mFieldIt = d.mFieldVars.length ∧ d.mModbusIt = d.mModbusVars.length then
    let d := { d with
      mbInReadCycle := false, mMillisToReadCycle := DELAY_BETWEEN_READS
      mFieldIt := 0, mModbusIt := 0 }
    if d.mFieldIt = d.mFieldVars.length ∧ d.mModbusIt = d.mModbusVars.length then (true, d)
    else (false, d)
  else (false, d)

def processNextRead (d : ModbusMasterDrv Q) (env : Env) : Bool × ModbusMasterDrv Q :=
  match d.mFieldVars[d.mFieldIt]? with
  | some (tAddr, pFieldVar) =>
    match d.processReadField L env tAddr pFieldVar with
    | (true, d) => (true, { d with mFieldIt := d.mFieldIt + 1 })
    | (false, d) => d.endOfCycle
  | none =>
    match d.mModbusVars[d.mModbusIt]? with
    | some (tAddr, pMBVar) =>
      match d.processReadModbus L env tAddr pMBVar with
      | (true, d) => (true, { d with mModbusIt := d.mModbusIt + 1 })
      | (false, d) => d.endOfCycle
    | none => d.endOfCycle

end ModbusMasterDrv

/-- Which of the two transfers of a request have succeeded or are not needed. -/
structure WriteProgress where
  bForced : Bool
  bWriteVal : Bool
  deriving DecidableEq

def WriteProgress.unfinished (p : WriteProgress) : Bool := !p.bForced || !p.bWriteVal

namespace WriteReq

def expired (iTimeS : Int) (wr : WriteReq) : Bool :=
  decide (iTimeS - wr.mTimeS > wr.mtWriteTimeOut.toNat)

/-- A plain write needs no coil, the end of a force needs no value. -/
def initialProgress (wr : WriteReq) : WriteProgress :=
  ⟨!wr.mbForce, wr.mbForce && !wr.mbForcedVal⟩

def uiAddr (muiNumROInts : BitVec 32) (wr : WriteReq) : BitVec 16 :=
  (hrAddr (numVar muiNumROInts wr.mtAddr)).setWidth 16 + (if wr.mbForce then 2 else 0)

/-- One pass of the loop body of `processNextWrite`: the coil first, then the value. -/
def attempt (bus : Bus) (muiNumROInts : BitVec 32) (wr : WriteReq) (n : Nat)
    (p : WriteProgress) : WriteProgress :=
  let bForced := if p.bForced then true else
    (bus.writeBit n (coilAddr (numVar muiNumROInts wr.mtAddr)) wr.mbForcedVal).succeeded
  let bWriteVal := if bForced && !p.bWriteVal then
    (bus.writeRegisters n ((wr.uiAddr muiNumROInts).setWidth 32)
      (L.setFloatAbcd wr.mfWriteVal)).succeeded else p.bWriteVal
  ⟨bForced, bWriteVal⟩

end WriteReq

namespace ModbusMasterDrv
variable {Q : Type}

def log (d : ModbusMasterDrv Q) (c : Call) : ModbusMasterDrv Q :=
  { d with calls := d.calls ++ [c] }

section Pending
variable [PriorityQueue Q WriteReq WriteReq.Less]

/-- The loop of `cleanWriteRequests`; the bound is the number of requests. -/
def cleanLoop (bAll : Bool) (iTimeS : Int) : Nat → ModbusMasterDrv Q → ModbusMasterDrv Q
  | 0, d => d
  | left + 1, d =>
    match PriorityQueue.top d.mPendingWrites with
    | none => d
    | some writeReq =>
      if writeReq.expired iTimeS || bAll then
        cleanLoop bAll iTimeS left
          (log { d with mPendingWrites := PriorityQueue.pop d.mPendingWrites }
            (.writeTimeOut writeReq.id writeReq.mtAddr))
      else d

def cleanWriteRequests (d : ModbusMasterDrv Q) (iTimeS : Int) (bAll : Bool := false) :
    ModbusMasterDrv Q :=
  cleanLoop bAll iTimeS (PriorityQueue.elems d.mPendingWrites).card d

/-- The transfers of the request at the top and what follows from them. -/
def transmit (d : ModbusMasterDrv Q) (env : Env) (writeReq : WriteReq) :
    Bool × ModbusMasterDrv Q :=
  let (iNumTrys, _) := retryLoop (fun _ p => (WriteProgress.unfinished p, p))
    (writeReq.attempt L env.bus d.muiNumROInts) MAX_TRANSMISSION_TRYS 0
    writeReq.initialProgress
  let d := d.log (.transmit writeReq.id)
  if iNumTrys ≥ MAX_TRANSMISSION_TRYS + 1 then
    (false, { d with mstrLastError := env.bus.strerror })
  else
    (true, log { d with mPendingWrites := PriorityQueue.pop d.mPendingWrites }
      (.writeSuccess writeReq.id writeReq.mtAddr))

def processNextWrite (d : ModbusMasterDrv Q) (env : Env) : Bool × ModbusMasterDrv Q :=
  let d := d.cleanWriteRequests env.msSinceEpoch
  match PriorityQueue.top d.mPendingWrites with
  | none => (true, d)
  | some writeReq => d.transmit L env writeReq

/-- The common part of `write` and `force`. -/
def submit (d : ModbusMasterDrv Q) (writeReq : WriteReq) : Bool × ModbusMasterDrv Q :=
  let uiNumVar := writeReq.mtAddr.uiChannel.setWidth 32
  let writeReq := { writeReq with id := d.nextCall }
  let d := { d with nextCall := d.nextCall + 1 }
  if uiNumVar ≤ d.muiNumROInts ∨ uiNumVar > d.muiNumIOVars + d.muiNumROInts then
    (false, d.log (.refused writeReq.id))
  else if d.mtDrvState ≠ .stopped ∧ d.mtDrvState ≠ .unInit then
    (true, log { d with mPendingWrites := PriorityQueue.push d.mPendingWrites writeReq }
      (.accepted writeReq))
  else (false, d.log (.refused writeReq.id))

def write (d : ModbusMasterDrv Q) (fVal : Single) (tAddr : IOAddr) (tWriteTimeOut : BitVec 32)
    (now : Int) : Bool × ModbusMasterDrv Q :=
  d.submit { id := 0, mtAddr := tAddr, mbForce := false, mbForcedVal := false
             mfWriteVal := fVal, mtWriteTimeOut := tWriteTimeOut, mTimeS := now }

def force (d : ModbusMasterDrv Q) (fVal : Single) (tAddr : IOAddr) (bForceBitVal : Bool)
    (tWriteTimeOut : BitVec 32) (now : Int) : Bool × ModbusMasterDrv Q :=
  d.submit { id := 0, mtAddr := tAddr, mbForce := true, mbForcedVal := bForceBitVal
             mfWriteVal := fVal, mtWriteTimeOut := tWriteTimeOut, mTimeS := now }

end Pending

def createConnection (d : ModbusMasterDrv Q) (env : Env) : Bool × ModbusMasterDrv Q :=
  if d.bConnected then (true, d)
  else if env.connects then (true, { d with bConnected := true, uiComErrors := 0 })
  else (false, { d with mstrLastError := env.bus.strerror })

def closeConnection (d : ModbusMasterDrv Q) : ModbusMasterDrv Q :=
  if d.bConnected then { d with bConnected := false } else d

/-- The clock arithmetic at the start of a turn: which cycles are due. -/
def updateCycles (d : ModbusMasterDrv Q) (currentTimePoint : Int) : ModbusMasterDrv Q :=
  let elapsed := currentTimePoint - d.mLastTimePoint
  { d with
    mLastTimePoint := currentTimePoint
    mMillisToWriteCycle :=
      if d.mbInWriteCycle then d.mMillisToWriteCycle else d.mMillisToWriteCycle - elapsed
    mbInWriteCycle := d.mbInWriteCycle || decide (d.mMillisToWriteCycle - elapsed ≤ 0)
    mMillisToReadCycle :=
      if d.mbInReadCycle then d.mMillisToReadCycle else d.mMillisToReadCycle - elapsed
    mbInReadCycle := d.mbInReadCycle || decide (d.mMillisToReadCycle - elapsed ≤ 0) }

section Loop
variable [PriorityQueue Q WriteReq WriteReq.Less]

/-- What a connected and running driver does once the cycles are updated. -/
def serveCycle (d : ModbusMasterDrv Q) (env : Env) : Bool × ModbusMasterDrv Q :=
  if d.mbInWriteCycle then
    match PriorityQueue.top d.mPendingWrites with
    | none =>
      (true, { d with mbInWriteCycle := false, mMillisToWriteCycle := DELAY_BETWEEN_WRITES })
    | some _ => d.processNextWrite L env
  else if d.mbInReadCycle then d.processNextRead L env
  else (true, d)

def runningTurn (d : ModbusMasterDrv Q) (env : Env) : ModbusMasterDrv Q :=
  if d.bConnected then
    match (d.updateCycles env.timePoint).serveCycle L env with
    | (true, d) => d
    | (false, d) => { d with mtDrvState := .comError }
  else
    match d.createConnection env with
    | (true, d) => d
    | (false, d) => { d with mtDrvState := .comError }

def comErrorTurn (d : ModbusMasterDrv Q) (env : Env) : ModbusMasterDrv Q :=
  if d.bConnected then d.closeConnection
  else
    match d.createConnection env with
    | (true, d) => log { d with mtDrvState := .running } .recoveredFromError
    | (false, d) =>
      let d := if d.uiComErrors = 0 then d.log .comError else d
      let d := { d with uiComErrors := min (d.uiComErrors + 1) MAX_COM_ERROR_TRYS }
      d.cleanWriteRequests env.msSinceEpoch

/-- One turn of the loop. A driver that is stopped or not initialised waits. -/
def driverLoop (d : ModbusMasterDrv Q) (env : Env) : ModbusMasterDrv Q :=
  match d.mtDrvState with
  | .stopped => d
  | .unInit => d
  | .running => d.runningTurn L env
  | .comError => d.comErrorTurn env
  | .varError => { d with mtDrvState := .comError }

end Loop

def eraseDrvConfig (d : ModbusMasterDrv Q) : ModbusMasterDrv Q :=
  { d with mpMBCtx := none, mFieldVars := [], mModbusVars := [], mFieldIt := 0, mModbusIt := 0
           muiNumIOVars := 0, muiNumROInts := 0, uiComErrors := 0 }

end ModbusMasterDrv

/-- The attributes of the `MasterDriver` element, the numbers after `atoi`. -/
structure MasterXml where
  ip : Option String
  port : Option Int
  numROInts : Option (BitVec 32)
  numIOVars : Option (BitVec 32)

/-- `insert` into an `unordered_map`: a present key keeps its value. -/
def insertVar {D : Type} (vars : List (IOAddr × D)) (addr : IOAddr) (new : D) :
    List (IOAddr × D) :=
  if addr ∈ vars.map Prod.fst then vars else vars ++ [(addr, new)]

namespace ModbusMasterDrv
variable {Q : Type}

/-- Attributes are stored as they are found; the first missing one ends the reading. -/
def readXMLConfig (d : ModbusMasterDrv Q) (root : MasterXml) : Bool × ModbusMasterDrv Q :=
  match root.ip with
  | none => (false, d)
  | some ip =>
    let d := { d with mstrServerIp := ip }
    match root.port with
    | none => (false, d)
    | some port =>
      let d := { d with miPort := port }
      match root.numROInts with
      | none => (false, d)
      | some numROInts =>
        let d := { d with muiNumROInts := numROInts }
        match root.numIOVars with
        | none => (false, d)
        | some numIOVars => (true, { d with muiNumIOVars := numIOVars })

/-- `file` is what the XML library makes of the file: an error text, a document
without a `MasterDriver` root, or its attributes. -/
def loadXMLConfig (d : ModbusMasterDrv Q) (file : Except String (Option MasterXml)) :
    Bool × ModbusMasterDrv Q :=
  match file with
  | .error text => (false, { d with mstrLastError := text })
  | .ok none => (false, d)
  | .ok (some root) => d.readXMLConfig root

/-- The tables to poll, restricted to the channels of the configured map. -/
def insertVars (d : ModbusMasterDrv Q) (slaveVarsToUpdate fieldVarsToUpdate : List IOAddr) :
    ModbusMasterDrv Q :=
  let total := d.muiNumIOVars + d.muiNumROInts
  { d with
    mModbusVars := slaveVarsToUpdate.foldl (fun vars addr =>
      if addr.uiChannel.setWidth 32 < 1#32 ∨ addr.uiChannel.setWidth 32 > total then vars
      else insertVar vars addr {}) d.mModbusVars
    mFieldVars := fieldVarsToUpdate.foldl (fun vars addr =>
      if addr.uiChannel.setWidth 32 ≤ d.muiNumROInts ∨ addr.uiChannel.setWidth 32 > total then vars
      else insertVar vars addr {}) d.mFieldVars }

def init (d : ModbusMasterDrv Q) (file : Except String (Option MasterXml))
    (slaveVarsToUpdate fieldVarsToUpdate : List IOAddr) (newTcp : Bool) (strerror : String) :
    Bool × ModbusMasterDrv Q :=
  if d.mtDrvState ≠ .unInit then (false, { d with mstrLastError := "Driver ya inicializado" })
  else match d.loadXMLConfig file with
    | (false, d) => (false, d)
    | (true, d) =>
      let d := { d with miPort := if d.miPort = -1 then MODBUS_TCP_DEFAULT_PORT else d.miPort }
      if d.muiNumIOVars + d.muiNumROInts < 1#32 then
        (false, { d with
          mstrLastError := "El driver necesita al menos una variable en su mapa" })
      else
        let d := d.insertVars slaveVarsToUpdate fieldVarsToUpdate
        if newTcp then
          (true, { d with
            mpMBCtx := some (d.mstrServerIp, d.miPort), mtDrvState := .stopped, uiComErrors := 0
            mFieldIt := 0, mModbusIt := 0 })
        else
          (false, { d with
            mpMBCtx := none, mstrLastError := strerror, mFieldVars := [], mModbusVars := [] })

def start (d : ModbusMasterDrv Q) (now : Int) : Bool × ModbusMasterDrv Q :=
  if d.mtDrvState = .unInit then (false, d)
  else if d.mtDrvState = .stopped then
    (true, { d with mtDrvState := .running, mLastTimePoint := now
                    mMillisToWriteCycle := 0, mMillisToReadCycle := 0 })
  else (true, d)

def getChangedVars (d : ModbusMasterDrv Q) : Finset IOAddr × ModbusMasterDrv Q :=
  (d.musChangedVars, { d with musChangedVars := ∅ })

section Interface
variable [PriorityQueue Q WriteReq WriteReq.Less]

def stop (d : ModbusMasterDrv Q) (now : Int) : Bool × ModbusMasterDrv Q :=
  if d.mtDrvState = .unInit then (true, d)
  else if d.mtDrvState = .stopped then (true, d)
  else
    let d := (d.cleanWriteRequests now true).closeConnection
    (true, { d with mtDrvState := .stopped, uiComErrors := 0 })

def close (d : ModbusMasterDrv Q) (now : Int) : Bool × ModbusMasterDrv Q :=
  if d.mtDrvState = .unInit then (true, d)
  else
    let d := { d with mtDrvState := .unInit }
    (true, (d.cleanWriteRequests now true).closeConnection.eraseDrvConfig)

/-- The destructor after the driver thread has been joined. -/
def finishDestructor (d : ModbusMasterDrv Q) (now : Int) : ModbusMasterDrv Q :=
  let d := (d.cleanWriteRequests now true).closeConnection.eraseDrvConfig
  { d with destroyed := true }

/-- The state after the constructor. -/
def fresh (mbArchLittleEnd : Bool) : ModbusMasterDrv Q where
  mbArchLittleEnd := mbArchLittleEnd
  mFieldVars := []
  mModbusVars := []
  mFieldIt := 0
  mModbusIt := 0
  mPendingWrites := PriorityQueue.empty
  musChangedVars := ∅
  mstrServerIp := ""
  miPort := 0
  muiNumIOVars := 0
  muiNumROInts := 0
  mpMBCtx := none
  bConnected := false
  uiComErrors := 0
  mbDrvEnd := false
  mtDrvState := .unInit
  mstrLastError := ""
  mMillisToWriteCycle := 0
  mMillisToReadCycle := 0
  mLastTimePoint := 0
  mbInWriteCycle := false
  mbInReadCycle := false
  destroyed := false
  nextCall := 0
  calls := []

end Interface

end ModbusMasterDrv

/-- Calls of the interface, turns of the driver thread and the two halves of
the destructor, between which the thread may finish a turn it has begun. -/
inductive Op where
  | init (file : Except String (Option MasterXml))
      (slaveVarsToUpdate fieldVarsToUpdate : List IOAddr) (newTcp : Bool) (strerror : String)
  | start (now : Int)
  | stop (now : Int)
  | close (now : Int)
  | write (fVal : Single) (tAddr : IOAddr) (tWriteTimeOut : BitVec 32) (now : Int)
  | force (fVal : Single) (tAddr : IOAddr) (bForceBitVal : Bool) (tWriteTimeOut : BitVec 32)
      (now : Int)
  | getChangedVars
  | turn (env : Env)
  | beginDestructor
  | finishDestructor (now : Int)

namespace ModbusMasterDrv
variable {Q : Type} [PriorityQueue Q WriteReq WriteReq.Less]

/-- No method is called on an object whose destructor has begun. -/
def step (d : ModbusMasterDrv Q) : Op → ModbusMasterDrv Q
  | .init file slaveVars fieldVars newTcp strerror =>
    if d.mbDrvEnd then d else (d.init file slaveVars fieldVars newTcp strerror).2
  | .start now => if d.mbDrvEnd then d else (d.start now).2
  | .stop now => if d.mbDrvEnd then d else (d.stop now).2
  | .close now => if d.mbDrvEnd then d else (d.close now).2
  | .write fVal tAddr tWriteTimeOut now =>
    if d.mbDrvEnd then d else (d.write fVal tAddr tWriteTimeOut now).2
  | .force fVal tAddr bForceBitVal tWriteTimeOut now =>
    if d.mbDrvEnd then d else (d.force fVal tAddr bForceBitVal tWriteTimeOut now).2
  | .getChangedVars => if d.mbDrvEnd then d else d.getChangedVars.2
  | .turn env => if d.destroyed then d else d.driverLoop L env
  | .beginDestructor => { d with mbDrvEnd := true }
  | .finishDestructor now => if d.mbDrvEnd ∧ ¬ d.destroyed then d.finishDestructor now else d

end ModbusMasterDrv

end MasterDriver
