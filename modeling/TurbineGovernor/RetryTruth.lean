import TurbineGovernor.WriteOrder
import TurbineGovernor.TransferChains
import TurbineGovernor.SlaveSockets

/-!
# What the retry loops report

Four loops repeat Modbus transfers: the two reads and the write of the master,
the reply of the slave. Where the transfers are made in the body of the loop,
success in the last permitted pass is taken for exhaustion; where they are made
in the test, the report is right; where the counter is looked at after the
transfer, one attempt too many is made and its success is not counted.
-/

namespace RetryTruth
open CommonTypes PriorityQueues RetryLoops TransferChains TransitionRuns MasterDriver SlaveSockets

variable {L : FloatAbcd} {Q : Type}

inductive FieldTransfer where
  | vals
  | ts
  | qstate
  | forced
  deriving DecidableEq

def fieldTransfers : List FieldTransfer := [.vals, .ts, .qstate, .forced]

section Field
variable (bus : Bus) (uiNumVar muiNumROInts : BitVec 32)

/-- Whether a transfer succeeds when it is made in the given pass. -/
def fieldOutcome (n : Nat) : FieldTransfer → Bool
  | .vals => (bus.readRegisters n (hrAddr uiNumVar) 4).isSome
  | .ts => (bus.readInputRegisters n (irAddr uiNumVar muiNumROInts) 4).isSome
  | .qstate => (bus.readInputBits n (diAddr uiNumVar) 2).isSome
  | .forced => (bus.readBits n (coilAddr uiNumVar) 1).isSome

/-- The transfers made in one pass of the loop body, from its conditions. -/
def fieldTried (n : Nat) (r : FieldReads) : List (FieldTransfer × Bool) :=
  let after := r.attempt bus uiNumVar muiNumROInts n
  (if r.uiVals.isNone then [(.vals, after.uiVals.isSome)] else []) ++
  (if after.uiVals.isSome && r.uiTS.isNone then [(.ts, after.uiTS.isSome)] else []) ++
  (if after.uiVals.isSome && after.uiTS.isSome && r.uiQstate.isNone then
    [(.qstate, after.uiQstate.isSome)] else []) ++
  (if after.uiVals.isSome && after.uiTS.isSome && after.uiQstate.isSome && r.uiForced.isNone then
    [(.forced, after.uiForced.isSome)] else [])

/-- The loop of `processRead(IOAddr, FieldData*)`. -/
def fieldLoop : Nat × FieldReads :=
  retryLoop (fun _ r => (!FieldReads.complete r, r)) (FieldReads.attempt bus uiNumVar muiNumROInts)
    MasterDriver.MAX_TRANSMISSION_TRYS 0 {}

/-- The attempts of the whole loop. -/
def fieldLog : List (FieldTransfer × Bool) :=
  retryLog (fun _ r => (!FieldReads.complete r, r)) (FieldReads.attempt bus uiNumVar muiNumROInts)
    (fieldTried bus uiNumVar muiNumROInts) MasterDriver.MAX_TRANSMISSION_TRYS 0 {}

/-- What has been read goes with what is missing. -/
inductive FieldShape : FieldReads → List FieldTransfer → Prop
  | start : FieldShape {} [.vals, .ts, .qstate, .forced]
  | vals (v) : FieldShape { uiVals := some v } [.ts, .qstate, .forced]
  | ts (v t) : FieldShape { uiVals := some v, uiTS := some t } [.qstate, .forced]
  | qstate (v t q) : FieldShape { uiVals := some v, uiTS := some t, uiQstate := some q } [.forced]
  | forced (v t q f) : FieldShape ⟨some v, some t, some q, some f⟩ []

variable {bus uiNumVar muiNumROInts}

theorem FieldShape.complete_iff {r : FieldReads} {ts : List FieldTransfer} (h : FieldShape r ts) :
    (!r.complete) = !ts.isEmpty := by
  cases h <;> rfl

/-- A pass of the loop body is a pass over the missing transfers. -/
theorem FieldShape.pass {r : FieldReads} {ts : List FieldTransfer} (h : FieldShape r ts) (n : Nat) :
    FieldShape (r.attempt bus uiNumVar muiNumROInts n)
      (ts.dropWhile (fieldOutcome bus uiNumVar muiNumROInts n)) ∧
    fieldTried bus uiNumVar muiNumROInts n r =
      tried (fieldOutcome bus uiNumVar muiNumROInts n) ts := by
  cases hvals : bus.readRegisters n (hrAddr uiNumVar) 4 <;>
  cases hts : bus.readInputRegisters n (irAddr uiNumVar muiNumROInts) 4 <;>
  cases hqstate : bus.readInputBits n (diAddr uiNumVar) 2 <;>
  cases hforced : bus.readBits n (coilAddr uiNumVar) 1 <;>
  cases h <;>
  simp [FieldReads.attempt, fieldTried, tried, fieldOutcome, List.dropWhile, hvals, hts, hqstate,
    hforced] <;>
  constructor

/-- The loop of the source is the chain loop over the four transfers. -/
theorem fieldLoop_spec (bus : Bus) (uiNumVar muiNumROInts : BitVec 32) :
    (fieldLoop bus uiNumVar muiNumROInts).1 =
      (chainLoop (fieldOutcome bus uiNumVar muiNumROInts) MasterDriver.MAX_TRANSMISSION_TRYS 0
        fieldTransfers).1 ∧
    FieldShape (fieldLoop bus uiNumVar muiNumROInts).2
      (chainLoop (fieldOutcome bus uiNumVar muiNumROInts) MasterDriver.MAX_TRANSMISSION_TRYS 0
        fieldTransfers).2 ∧
    fieldLog bus uiNumVar muiNumROInts =
      chainLog (fieldOutcome bus uiNumVar muiNumROInts) MasterDriver.MAX_TRANSMISSION_TRYS 0
        fieldTransfers :=
  retryLoop_related (R := FieldShape) (fun n _ _ h => (h.pass n).2)
    (fun _ _ _ h => ⟨h.complete_iff, h⟩) (fun n _ _ h => (h.pass n).1) _ 0 .start

theorem fetchField_loop (little : Bool) (muiNumROInts : BitVec 32) (bus : Bus) (tAddr : IOAddr) :
    fetchField L little muiNumROInts bus tAddr =
      if (fieldLoop bus (numVar muiNumROInts tAddr) muiNumROInts).1 ≥
        MasterDriver.MAX_TRANSMISSION_TRYS + 1 then none
      else match (fieldLoop bus (numVar muiNumROInts tAddr) muiNumROInts).2 with
        | ⟨some uiVals, some uiTS, some uiQstate, some uiForced⟩ => some
          { fTrueVal := L.getFloatAbcd (uiVals 0) (uiVals 1)
            fForcedVal := L.getFloatAbcd (uiVals 2) (uiVals 3)
            iTimeS := getTimeS little uiTS
            tqstate := getQState uiQstate
            bForced := uiForced 0 }
        | _ => none := rfl

/-- The loop reports success when the counter is within the bound. -/
theorem fetchField_isSome_iff (little : Bool) (muiNumROInts : BitVec 32) (bus : Bus)
    (tAddr : IOAddr) :
    (fetchField L little muiNumROInts bus tAddr).isSome = true ↔
      (chainLoop (fieldOutcome bus (numVar muiNumROInts tAddr) muiNumROInts)
        MasterDriver.MAX_TRANSMISSION_TRYS 0 fieldTransfers).1 ≤
      MasterDriver.MAX_TRANSMISSION_TRYS := by
  obtain ⟨hcount, hshape, _⟩ := fieldLoop_spec bus (numVar muiNumROInts tAddr) muiNumROInts
  have hdone : (chainLoop (fieldOutcome bus (numVar muiNumROInts tAddr) muiNumROInts)
      MasterDriver.MAX_TRANSMISSION_TRYS 0 fieldTransfers).1 ≤
      MasterDriver.MAX_TRANSMISSION_TRYS →
      (chainLoop (fieldOutcome bus (numVar muiNumROInts tAddr) muiNumROInts)
        MasterDriver.MAX_TRANSMISSION_TRYS 0 fieldTransfers).2 = [] := chainLoop_done (by decide)
  rw [fetchField_loop, ← hcount]
  rw [← hcount] at hdone
  by_cases hlate : (fieldLoop bus (numVar muiNumROInts tAddr) muiNumROInts).1 ≥
      MasterDriver.MAX_TRANSMISSION_TRYS + 1
  · rw [if_pos hlate]
    simp only [Option.isSome_none, Bool.false_eq_true, false_iff]
    omega
  · have hle := Nat.lt_succ_iff.mp (not_le.mp hlate)
    rw [if_neg hlate]
    rw [hdone hle] at hshape
    generalize (fieldLoop bus (numVar muiNumROInts tAddr) muiNumROInts).2 = r at hshape
    cases hshape with
    | forced v t q f => simpa using hle

end Field

section Driver
variable (d : ModbusMasterDrv Q) (env : Env)

/-- `processRead(IOAddr, FieldData*)` tells the truth unless the last permitted
pass completes the four transfers. -/
theorem readField_truthful_iff (tAddr : IOAddr) (p : FieldData) :
    Truthful fieldTransfers MasterDriver.MAX_TRANSMISSION_TRYS
        (fieldLog env.bus (numVar d.muiNumROInts tAddr) d.muiNumROInts)
        ((d.processReadField L env tAddr p).1 = true) ↔
      ¬ CompletedLast (fieldOutcome env.bus (numVar d.muiNumROInts tAddr) d.muiNumROInts)
        MasterDriver.MAX_TRANSMISSION_TRYS fieldTransfers := by
  have hreport : (d.processReadField L env tAddr p).1 = true ↔
      (fetchField L d.mbArchLittleEnd d.muiNumROInts env.bus tAddr).isSome = true := by
    rcases d.processReadField_cases (L := L) env tAddr p with
      ⟨hnone, heq⟩ | ⟨r, vars, changed, hsome, _, heq⟩
    · rw [heq, hnone]
      simp
    · rw [heq, hsome]
      simp
  rw [hreport, fetchField_isSome_iff, (fieldLoop_spec _ _ _).2.2]
  exact chain_truthful_iff _ (by decide) (by decide)

/-- The transfer in the test of the loop of `processRead(IOAddr, ModbusData*)`. -/
def modbusTransfer (bus : Bus) (muiNumROInts : BitVec 32) (tAddr : IOAddr) (n : Nat) :
    Option (Fin 2 → BitVec 16) :=
  if isROInt muiNumROInts tAddr then bus.readInputRegisters n (roAddr tAddr) 2
  else bus.readRegisters n (hrAddr (numVar muiNumROInts tAddr)) 2

def modbusLog (bus : Bus) (muiNumROInts : BitVec 32) (tAddr : IOAddr) : List (Unit × Bool) :=
  testLog (modbusTransfer bus muiNumROInts tAddr) MasterDriver.MAX_TRANSMISSION_TRYS 0 none

theorem readLoop_report {A : Type} (transfer : Nat → Option (Fin 2 → BitVec 16))
    (decode : (Fin 2 → BitVec 16) → A) :
    (if (readLoop transfer).1 ≥ MasterDriver.MAX_TRANSMISSION_TRYS + 1 then none
      else (readLoop transfer).2.map decode).isSome = true ↔
    (testLoop transfer MasterDriver.MAX_TRANSMISSION_TRYS 0 none).1 ≤
      MasterDriver.MAX_TRANSMISSION_TRYS := by
  obtain ⟨hcount, hend⟩ := testLoop_spec transfer MasterDriver.MAX_TRANSMISSION_TRYS 0 none
  rw [Nat.zero_add] at hcount
  change (if (testLoop transfer MasterDriver.MAX_TRANSMISSION_TRYS 0 none).1 ≥
    MasterDriver.MAX_TRANSMISSION_TRYS + 1 then none
    else (testLoop transfer MasterDriver.MAX_TRANSMISSION_TRYS 0 none).2.map decode).isSome =
      true ↔ _
  by_cases hlate : (testLoop transfer MasterDriver.MAX_TRANSMISSION_TRYS 0 none).1 ≥
      MasterDriver.MAX_TRANSMISSION_TRYS + 1
  · rw [if_pos hlate]
    simp only [Option.isSome_none, Bool.false_eq_true, false_iff]
    omega
  · have hle := Nat.lt_succ_iff.mp (not_le.mp hlate)
    rw [if_neg hlate, Option.isSome_map, hend (hcount.mp hle)]
    exact ⟨fun _ => hle, fun _ => rfl⟩

theorem fetchModbus_isSome_iff (little : Bool) (muiNumROInts : BitVec 32) (bus : Bus)
    (tAddr : IOAddr) :
    (fetchModbus L little muiNumROInts bus tAddr).isSome = true ↔
      (testLoop (modbusTransfer bus muiNumROInts tAddr) MasterDriver.MAX_TRANSMISSION_TRYS 0
        none).1 ≤ MasterDriver.MAX_TRANSMISSION_TRYS := by
  simp only [fetchModbus]
  by_cases hro : isROInt muiNumROInts tAddr = true
  · have htransfer : modbusTransfer bus muiNumROInts tAddr =
        fun i => bus.readInputRegisters i (roAddr tAddr) 2 := by
      funext i
      rw [modbusTransfer, if_pos hro]
    rw [if_pos hro, htransfer]
    exact readLoop_report (fun i => bus.readInputRegisters i (roAddr tAddr) 2)
      (fun u => ModbusReading.roInt (getInt little u))
  · have htransfer : modbusTransfer bus muiNumROInts tAddr =
        fun i => bus.readRegisters i (hrAddr (numVar muiNumROInts tAddr)) 2 := by
      funext i
      rw [modbusTransfer, if_neg hro]
    rw [if_neg hro, htransfer]
    exact readLoop_report (fun i => bus.readRegisters i (hrAddr (numVar muiNumROInts tAddr)) 2)
      (fun u => ModbusReading.current (L.getFloatAbcd (u 0) (u 1)))

/-- `processRead(IOAddr, ModbusData*)` always tells the truth. -/
theorem readModbus_truthful (tAddr : IOAddr) (p : ModbusData) :
    Truthful [()] MasterDriver.MAX_TRANSMISSION_TRYS
      (modbusLog env.bus d.muiNumROInts tAddr) ((d.processReadModbus L env tAddr p).1 = true) := by
  have hreport : (d.processReadModbus L env tAddr p).1 = true ↔
      (fetchModbus L d.mbArchLittleEnd d.muiNumROInts env.bus tAddr).isSome = true := by
    rcases d.processReadModbus_cases (L := L) env tAddr p with
      ⟨hnone, heq⟩ | ⟨r, vars, changed, hsome, _, heq⟩
    · rw [heq, hnone]
      simp
    · rw [heq, hsome]
      simp
  rw [hreport, fetchModbus_isSome_iff]
  exact test_truthful _ _

end Driver

inductive WriteTransfer where
  | coil
  | value
  deriving DecidableEq

/-- The transfers that are left of a request. -/
def writeMissing (p : WriteProgress) : List WriteTransfer :=
  (if p.bForced then [] else [.coil]) ++ (if p.bWriteVal then [] else [.value])

theorem unfinished_iff (p : WriteProgress) : p.unfinished = !(writeMissing p).isEmpty := by
  obtain ⟨bForced, bWriteVal⟩ := p
  cases bForced <;> cases bWriteVal <;> rfl

section Write
variable (L) (bus : Bus) (muiNumROInts : BitVec 32) (wr : WriteReq)

/-- Whether the slave acknowledges a transfer made in the given pass. -/
def writeOutcome (n : Nat) : WriteTransfer → Bool
  | .coil =>
    (bus.writeBit n (coilAddr (numVar muiNumROInts wr.mtAddr)) wr.mbForcedVal).succeeded
  | .value =>
    (bus.writeRegisters n ((wr.uiAddr muiNumROInts).setWidth 32)
      (L.setFloatAbcd wr.mfWriteVal)).succeeded

/-- The transfers made in one pass of the loop body, from its conditions. -/
def writeTried (n : Nat) (p : WriteProgress) : List (WriteTransfer × Bool) :=
  let after := wr.attempt L bus muiNumROInts n p
  (if p.bForced then [] else [(.coil, after.bForced)]) ++
  (if after.bForced && !p.bWriteVal then [(.value, after.bWriteVal)] else [])

/-- The loop of `processNextWrite`. -/
def writeLoop : Nat × WriteProgress :=
  retryLoop (fun _ p => (WriteProgress.unfinished p, p)) (wr.attempt L bus muiNumROInts)
    MasterDriver.MAX_TRANSMISSION_TRYS 0 wr.initialProgress

/-- The attempts of the whole loop. -/
def writeLog : List (WriteTransfer × Bool) :=
  retryLog (fun _ p => (WriteProgress.unfinished p, p)) (wr.attempt L bus muiNumROInts)
    (writeTried L bus muiNumROInts wr) MasterDriver.MAX_TRANSMISSION_TRYS 0 wr.initialProgress

theorem writeMissing_pass (n : Nat) (p : WriteProgress) :
    writeMissing (wr.attempt L bus muiNumROInts n p) =
      (writeMissing p).dropWhile (writeOutcome L bus muiNumROInts wr n) ∧
    writeTried L bus muiNumROInts wr n p =
      tried (writeOutcome L bus muiNumROInts wr n) (writeMissing p) := by
  obtain ⟨bForced, bWriteVal⟩ := p
  cases hcoil : (bus.writeBit n (coilAddr (numVar muiNumROInts wr.mtAddr))
    wr.mbForcedVal).succeeded <;>
  cases hvalue : (bus.writeRegisters n ((wr.uiAddr muiNumROInts).setWidth 32)
    (L.setFloatAbcd wr.mfWriteVal)).succeeded <;>
  cases bForced <;> cases bWriteVal <;>
  simp [writeMissing, writeTried, WriteReq.attempt, writeOutcome, tried, List.dropWhile, hcoil,
    hvalue]

/-- The loop of the source is the chain loop over the transfers it needs. -/
theorem writeLoop_spec :
    (writeLoop L bus muiNumROInts wr).1 =
      (chainLoop (writeOutcome L bus muiNumROInts wr) MasterDriver.MAX_TRANSMISSION_TRYS 0
        (writeMissing wr.initialProgress)).1 ∧
    writeMissing (writeLoop L bus muiNumROInts wr).2 =
      (chainLoop (writeOutcome L bus muiNumROInts wr) MasterDriver.MAX_TRANSMISSION_TRYS 0
        (writeMissing wr.initialProgress)).2 ∧
    writeLog L bus muiNumROInts wr =
      chainLog (writeOutcome L bus muiNumROInts wr) MasterDriver.MAX_TRANSMISSION_TRYS 0
        (writeMissing wr.initialProgress) :=
  retryLoop_related (R := fun p ts => writeMissing p = ts)
    (fun n p _ h => h ▸ (writeMissing_pass L bus muiNumROInts wr n p).2)
    (fun _ p _ h => ⟨h ▸ unfinished_iff p, h⟩)
    (fun n p _ h => h ▸ (writeMissing_pass L bus muiNumROInts wr n p).1) _ 0 rfl

end Write

section Pending
variable [PriorityQueue Q WriteReq WriteReq.Less] (d : ModbusMasterDrv Q) (env : Env)

/-- The request that `processNextWrite` transmits, if one is left after expiry. -/
def nextWrite : Option WriteReq :=
  PriorityQueue.top (d.cleanWriteRequests env.msSinceEpoch).mPendingWrites

/-- What the request needs: a plain write no coil, the end of a force no value. -/
def neededWrites : List WriteTransfer :=
  match nextWrite d env with
  | none => []
  | some writeReq => writeMissing writeReq.initialProgress

def nextWriteOutcome (L : FloatAbcd) (n : Nat) (t : WriteTransfer) : Bool :=
  match nextWrite d env with
  | none => false
  | some writeReq => writeOutcome L env.bus d.muiNumROInts writeReq n t

def nextWriteLog (L : FloatAbcd) : List (WriteTransfer × Bool) :=
  match nextWrite d env with
  | none => []
  | some writeReq => writeLog L env.bus d.muiNumROInts writeReq

theorem transmit_report (d : ModbusMasterDrv Q) (writeReq : WriteReq) :
    (d.transmit L env writeReq).1 = true ↔
      (chainLoop (writeOutcome L env.bus d.muiNumROInts writeReq)
        MasterDriver.MAX_TRANSMISSION_TRYS 0 (writeMissing writeReq.initialProgress)).1 ≤
      MasterDriver.MAX_TRANSMISSION_TRYS := by
  rw [← (writeLoop_spec L env.bus d.muiNumROInts writeReq).1]
  unfold ModbusMasterDrv.transmit writeLoop
  simp only
  split
  · rename_i hlate
    simp only [Bool.false_eq_true, false_iff]
    omega
  · rename_i hlate
    simp only [true_iff]
    omega

theorem writeMissing_distinct (p : WriteProgress) : (writeMissing p).Nodup := by
  obtain ⟨bForced, bWriteVal⟩ := p
  cases bForced <;> cases bWriteVal <;> decide

/-- `processNextWrite` tells the truth unless the last permitted pass completes
the request. -/
theorem nextWrite_truthful_iff :
    Truthful (neededWrites d env) MasterDriver.MAX_TRANSMISSION_TRYS (nextWriteLog d env L)
        ((d.processNextWrite L env).1 = true) ↔
      ¬ CompletedLast (nextWriteOutcome d env L) MasterDriver.MAX_TRANSMISSION_TRYS
        (neededWrites d env) := by
  obtain ⟨q, gone, hclean, _⟩ := d.cleanWriteRequests_spec env.msSinceEpoch false
  have hROInts : (d.cleanWriteRequests env.msSinceEpoch).muiNumROInts = d.muiNumROInts := by
    rw [hclean]
  simp only [ModbusMasterDrv.processNextWrite]
  cases hnext : nextWrite d env with
  | none =>
    have hneeded : neededWrites d env = [] := by rw [neededWrites, hnext]
    have hlog : nextWriteLog d env L = [] := by rw [nextWriteLog, hnext]
    simp only [nextWrite] at hnext
    simp only [hneeded, hlog, hnext]
    constructor
    · rintro _ ⟨_, hlate⟩
      exact hlate (missing_nil _ _ _)
    · intro _
      exact ⟨fun t => by simp, by simp⟩
  | some writeReq =>
    have hneeded : neededWrites d env = writeMissing writeReq.initialProgress := by
      rw [neededWrites, hnext]
    have hlog : nextWriteLog d env L = writeLog L env.bus d.muiNumROInts writeReq := by
      rw [nextWriteLog, hnext]
    have houtcome : nextWriteOutcome d env L =
        writeOutcome L env.bus d.muiNumROInts writeReq := by
      funext n t
      rw [nextWriteOutcome, hnext]
    simp only [nextWrite] at hnext
    simp only [hnext]
    rw [transmit_report, hROInts, hneeded, hlog, houtcome,
      (writeLoop_spec L env.bus d.muiNumROInts writeReq).2.2]
    exact chain_truthful_iff _ (by decide) (writeMissing_distinct _)

end Pending

section Reply
variable (s : Sockets) (a : Answers) (iMasterSock : Nat)

/-- The attempts of the reply loop of `processPendingRequests`. -/
def replyLog : List (Unit × Bool) := (Sockets.replies a iMasterSock).2.map (fun sent => ((), sent))

theorem replyLoop_eq (reply : Nat → Bool) (left n : Nat) :
    (replyLoop reply left n).1 = uncountedLoop reply left n ∧
    (replyLoop reply left n).2.map (fun sent => ((), sent)) = uncountedLog reply left n := by
  induction left generalizing n with
  | zero =>
    cases h : reply n with
    | true => simp [replyLoop, uncountedLoop, uncountedLog, h]
    | false => simp [replyLoop, uncountedLoop, uncountedLog, h]
  | succ left ih =>
    cases h : reply n with
    | true => simp [replyLoop, uncountedLoop, uncountedLog, h]
    | false =>
      obtain ⟨hcount, hlog⟩ := ih (n + 1)
      simp [replyLoop, uncountedLoop, uncountedLog, h, hcount, hlog]

variable {s a iMasterSock}

/-- A master with a request is kept exactly when the counter stays below its bound. -/
theorem kept_iff (registered : iMasterSock ∈ s.mtRefset) (request : 0 < a.receive iMasterSock) :
    iMasterSock ∈ (s.serveMaster a iMasterSock).mtRefset ↔
      uncountedLoop (a.reply iMasterSock) SlaveSockets.MAX_TRANSMISSION_TRYS 0 <
        SlaveSockets.MAX_TRANSMISSION_TRYS := by
  have hcount := (replyLoop_eq (a.reply iMasterSock) SlaveSockets.MAX_TRANSMISSION_TRYS 0).1
  have hreceived : a.receive iMasterSock ≠ -1 := by omega
  unfold Sockets.serveMaster Sockets.replies
  rw [if_pos request, ← hcount]
  simp only [hreceived, false_or]
  split
  · rename_i hlate
    simp only [Sockets.dropMaster, Finset.mem_erase, ne_eq, not_true_eq_false, false_and,
      false_iff, not_lt]
    exact hlate
  · rename_i hearly
    exact ⟨fun _ => not_le.mp hearly, fun _ => registered⟩

theorem replyLog_eq (request : 0 < a.receive iMasterSock) :
    replyLog a iMasterSock =
      uncountedLog (a.reply iMasterSock) SlaveSockets.MAX_TRANSMISSION_TRYS 0 := by
  rw [replyLog, Sockets.replies, if_pos request]
  exact (replyLoop_eq _ _ _).2

end Reply

section All
variable [PriorityQueue Q WriteReq WriteReq.Less]

/-- The loops with the transfers in their body are wrong exactly when the last
permitted pass completes the transfers, the loop with the transfer in its test
is never wrong. The reply loop exceeds its bound when all counted attempts fail;
granted that attempt, it is wrong exactly when that attempt succeeds. -/
theorem retries_truthful_iff (d : ModbusMasterDrv Q) (env : Env)
    (tAddr tMBAddr : IOAddr) (pFieldVar : FieldData) (pMBVar : ModbusData)
    (s : Sockets) (a : Answers) (iMasterSock : Nat)
    (registered : iMasterSock ∈ s.mtRefset) (request : 0 < a.receive iMasterSock) :
    (Truthful fieldTransfers MasterDriver.MAX_TRANSMISSION_TRYS
        (fieldLog env.bus (numVar d.muiNumROInts tAddr) d.muiNumROInts)
        ((d.processReadField L env tAddr pFieldVar).1 = true) ↔
      ¬ CompletedLast (fieldOutcome env.bus (numVar d.muiNumROInts tAddr) d.muiNumROInts)
        MasterDriver.MAX_TRANSMISSION_TRYS fieldTransfers) ∧
    Truthful [()] MasterDriver.MAX_TRANSMISSION_TRYS (modbusLog env.bus d.muiNumROInts tMBAddr)
      ((d.processReadModbus L env tMBAddr pMBVar).1 = true) ∧
    (Truthful (neededWrites d env) MasterDriver.MAX_TRANSMISSION_TRYS (nextWriteLog d env L)
        ((d.processNextWrite L env).1 = true) ↔
      ¬ CompletedLast (nextWriteOutcome d env L) MasterDriver.MAX_TRANSMISSION_TRYS
        (neededWrites d env)) ∧
    (Truthful [()] SlaveSockets.MAX_TRANSMISSION_TRYS (replyLog a iMasterSock)
        (iMasterSock ∈ (s.serveMaster a iMasterSock).mtRefset) ↔
      ∃ i < SlaveSockets.MAX_TRANSMISSION_TRYS, a.reply iMasterSock i = true) ∧
    (Truthful [()] (SlaveSockets.MAX_TRANSMISSION_TRYS + 1) (replyLog a iMasterSock)
        (iMasterSock ∈ (s.serveMaster a iMasterSock).mtRefset) ↔
      ¬ ((∀ i < SlaveSockets.MAX_TRANSMISSION_TRYS, a.reply iMasterSock i = false) ∧
        a.reply iMasterSock SlaveSockets.MAX_TRANSMISSION_TRYS = true)) := by
  refine ⟨readField_truthful_iff d env tAddr pFieldVar, readModbus_truthful d env tMBAddr pMBVar,
    nextWrite_truthful_iff d env, ?_, ?_⟩
  · rw [replyLog_eq request, kept_iff registered request]
    exact uncounted_truthful_iff _ _
  · rw [replyLog_eq request, kept_iff registered request]
    exact uncounted_truthful_succ_iff _ _

end All

/-- The registers can be read and written in the third pass only. -/
def lateEnv : Env :=
  { MasterPolling.healthyEnv 0 with
    bus := { (MasterPolling.healthyEnv 0).bus with
      readRegisters := fun n _ _ => if n = 2 then some (fun _ => 0) else none
      writeRegisters := fun n _ _ => if n = 2 then .done else .lost } }

def oneWrite : ModbusMasterDrv (WriteReq.Queue true) :=
  run (WriteOrder.queueStep floatAbcd) WriteOrder.started [.write 1 { uiChannel := 1 } 1000 0]

/-- A master on descriptor 4 of a server on descriptor 3. -/
def oneMaster : Sockets where
  miServerSock := some 3
  mtRefset := {3, 4}
  mtReadset := {4}
  miFdmax := 4
  muiNumConnections := 1
  calls := []

/-- Only the fourth attempt to answer a request of 12 bytes succeeds. -/
def lateReply : Answers where
  accept := none
  receive _ := 12
  reply _ n := n == 3

/-- The field variable has been read and the write acknowledged, but both are
reported as failed; the master has its answer and is disconnected. -/
theorem late_success_not_reported :
    ¬ Truthful fieldTransfers MasterDriver.MAX_TRANSMISSION_TRYS (fieldLog lateEnv.bus 1 0)
      ((oneWrite.processReadField floatAbcd lateEnv { uiChannel := 1 } {}).1 = true) ∧
    ¬ Truthful (neededWrites oneWrite lateEnv) MasterDriver.MAX_TRANSMISSION_TRYS
      (nextWriteLog oneWrite lateEnv floatAbcd)
      ((oneWrite.processNextWrite floatAbcd lateEnv).1 = true) ∧
    ¬ Truthful [()] (SlaveSockets.MAX_TRANSMISSION_TRYS + 1) (replyLog lateReply 4)
      (4 ∈ (oneMaster.serveMaster lateReply 4).mtRefset) := by
  refine ⟨fun h => ?_, fun h => ?_, fun h => ?_⟩
  · exact absurd (h.honest.mpr (by decide)) (by decide)
  · exact absurd (h.honest.mpr (by decide)) (by decide)
  · exact absurd (h.honest.mpr (by decide)) (by decide)

theorem late_success_cases :
    (∃ i < SlaveSockets.MAX_TRANSMISSION_TRYS, lateReply.reply 4 i = true) ↔
      Truthful [()] SlaveSockets.MAX_TRANSMISSION_TRYS (replyLog lateReply 4)
        (4 ∈ (oneMaster.serveMaster lateReply 4).mtRefset) :=
  (retries_truthful_iff (L := floatAbcd) oneWrite lateEnv { uiChannel := 1 } { uiChannel := 1 } {}
    {} oneMaster lateReply 4 (by decide) (by decide)).2.2.2.1.symm

end RetryTruth
