import TurbineGovernor.RegisterMap

/-!
# Forcing as the regulator sees it

`processNextWrite` taken apart into its transfers, between which the slave may
scan its variables. A force writes the coil first and the value afterwards, so
a scan in between sees the flag with what the register held before.
-/

namespace ForceTransfer
open CommonTypes PriorityQueues RetryLoops TransitionRuns MasterDriver SlaveDriver RegisterMap

variable {L : FloatAbcd}

/-- A call of `processNextWrite` in progress: the request at the top, the number
of finished passes of the loop body and what has succeeded. -/
structure Job where
  writeReq : WriteReq
  iNumTrys : Nat
  progress : WriteProgress

namespace Job

def start (writeReq : WriteReq) : Job := ⟨writeReq, 0, writeReq.initialProgress⟩

def isOver (j : Job) : Bool := decide (MAX_TRANSMISSION_TRYS ≤ j.iNumTrys) || !j.progress.unfinished

/-- The answer to the next transfer: the coil as long as it is missing, else the
value. A pass ends with a failure or when nothing is missing after it. -/
def advance (j : Job) (ok : Bool) : Job :=
  if !j.progress.bForced then
    if ok && !j.progress.bWriteVal then { j with progress.bForced := true }
    else { j with progress.bForced := ok, iNumTrys := j.iNumTrys + 1 }
  else { j with progress.bWriteVal := ok, iNumTrys := j.iNumTrys + 1 }

def answer (L : FloatAbcd) (bus : Bus) (muiNumROInts : BitVec 32) (j : Job) : Transfer :=
  if !j.progress.bForced then
    bus.writeBit j.iNumTrys (coilAddr (MasterDriver.numVar muiNumROInts j.writeReq.mtAddr))
      j.writeReq.mbForcedVal
  else
    bus.writeRegisters j.iNumTrys ((j.writeReq.uiAddr muiNumROInts).setWidth 32)
      (L.setFloatAbcd j.writeReq.mfWriteVal)

/-- The job after at most `n` more transfers on a bus. -/
def complete (L : FloatAbcd) (bus : Bus) (muiNumROInts : BitVec 32) : Nat → Job → Job
  | 0, j => j
  | n + 1, j =>
    if j.isOver then j
    else complete L bus muiNumROInts n (j.advance (j.answer L bus muiNumROInts).succeeded)

end Job

/-- What `processNextWrite` does after the loop. -/
def finish {Q : Type} [PriorityQueue Q WriteReq WriteReq.Less] (d : ModbusMasterDrv Q) (j : Job)
    (strerror : String) : Bool × ModbusMasterDrv Q :=
  let d := d.log (.transmit j.writeReq.id)
  if j.iNumTrys ≥ MAX_TRANSMISSION_TRYS then (false, { d with mstrLastError := strerror })
  else
    (true, ModbusMasterDrv.log { d with mPendingWrites := PriorityQueue.pop d.mPendingWrites }
      (.writeSuccess j.writeReq.id j.writeReq.mtAddr))

section Refinement
variable (L : FloatAbcd) (bus : Bus) (muiNumROInts : BitVec 32)

theorem complete_over {j : Job} (h : j.isOver = true) (n : Nat) :
    j.complete L bus muiNumROInts n = j := by
  cases n with
  | zero => rfl
  | succ n => rw [Job.complete, if_pos h]

theorem complete_step {j : Job} (h : j.isOver = false) (n : Nat) :
    j.complete L bus muiNumROInts (n + 1) =
      (j.advance (j.answer L bus muiNumROInts).succeeded).complete L bus muiNumROInts n := by
  rw [Job.complete, if_neg (ne_true_of_eq_false h)]

/-- Two transfers are enough for one pass of the loop body. -/
theorem complete_pass (wr : WriteReq) {n : Nat} {p : WriteProgress}
    (hn : n < MAX_TRANSMISSION_TRYS) (hp : p.unfinished = true) (left : Nat) :
    ∃ used, used ≤ 2 ∧ (Job.mk wr n p).complete L bus muiNumROInts (left + used) =
      (Job.mk wr (n + 1) (wr.attempt L bus muiNumROInts n p)).complete L bus muiNumROInts
        left := by
  have running : ∀ q : WriteProgress, q.unfinished = true → (Job.mk wr n q).isOver = false := by
    intro q hq
    simp [Job.isOver, hq, hn]
  obtain ⟨bForced, bWriteVal⟩ := p
  cases bForced with
  | true =>
    refine ⟨1, by omega, ?_⟩
    have hval : bWriteVal = false := by simpa [WriteProgress.unfinished] using hp
    subst hval
    rw [complete_step L bus muiNumROInts (running _ hp)]
    simp [Job.advance, Job.answer, WriteReq.attempt]
  | false =>
    cases hcoil : (bus.writeBit n (coilAddr (MasterDriver.numVar muiNumROInts wr.mtAddr))
        wr.mbForcedVal).succeeded with
    | false =>
      refine ⟨1, by omega, ?_⟩
      rw [complete_step L bus muiNumROInts (running _ hp)]
      simp [Job.advance, Job.answer, WriteReq.attempt, hcoil]
    | true =>
      cases bWriteVal with
      | true =>
        refine ⟨1, by omega, ?_⟩
        rw [complete_step L bus muiNumROInts (running _ hp)]
        simp [Job.advance, Job.answer, WriteReq.attempt, hcoil]
      | false =>
        refine ⟨2, by omega, ?_⟩
        rw [complete_step L bus muiNumROInts (running _ hp)]
        have hmid : (Job.mk wr n ⟨false, false⟩).advance
            ((Job.mk wr n ⟨false, false⟩).answer L bus muiNumROInts).succeeded =
            Job.mk wr n ⟨true, false⟩ := by
          simp [Job.advance, Job.answer, hcoil]
        rw [hmid, complete_step L bus muiNumROInts (running _ rfl)]
        simp [Job.advance, Job.answer, WriteReq.attempt, hcoil]

/-- More transfers than needed change nothing. -/
theorem complete_more {j : Job} {n : Nat} (h : (j.complete L bus muiNumROInts n).isOver = true)
    (extra : Nat) :
    j.complete L bus muiNumROInts (n + extra) = j.complete L bus muiNumROInts n := by
  induction n generalizing j with
  | zero => exact complete_over L bus muiNumROInts h _
  | succ n ih =>
    rw [Nat.add_right_comm]
    by_cases hover : j.isOver = true
    · rw [complete_over L bus muiNumROInts hover, complete_over L bus muiNumROInts hover]
    · have hover' := eq_false_of_ne_true hover
      rw [complete_step L bus muiNumROInts hover'] at h ⊢
      rw [complete_step L bus muiNumROInts hover']
      exact ih h

/-- The transfers one by one end as the retry loop of the source does. -/
theorem complete_eq_retryLoop (wr : WriteReq) (left : Nat) {n : Nat} (p : WriteProgress)
    (hn : n + left = MAX_TRANSMISSION_TRYS) :
    ((Job.mk wr n p).complete L bus muiNumROInts (2 * left)).isOver = true ∧
    retryLoop (fun _ p => (WriteProgress.unfinished p, p)) (wr.attempt L bus muiNumROInts) left
      n p = (((Job.mk wr n p).complete L bus muiNumROInts (2 * left)).iNumTrys + 1,
        ((Job.mk wr n p).complete L bus muiNumROInts (2 * left)).progress) := by
  induction left generalizing n p with
  | zero =>
    have hover : (Job.mk wr n p).isOver = true := by
      simp only [Job.isOver, Bool.or_eq_true, decide_eq_true_eq]
      exact Or.inl (by omega)
    exact ⟨hover, rfl⟩
  | succ left ih =>
    by_cases hp : p.unfinished = true
    · obtain ⟨used, hused, hpass⟩ := complete_pass L bus muiNumROInts wr
        (by omega : n < MAX_TRANSMISSION_TRYS) hp (2 * left)
      obtain ⟨hover, hloop⟩ := ih (wr.attempt L bus muiNumROInts n p)
        (by omega : n + 1 + left = MAX_TRANSMISSION_TRYS)
      have hmore := complete_more L bus muiNumROInts (hpass ▸ hover) (2 - used)
      rw [show 2 * left + used + (2 - used) = 2 * (left + 1) by omega, hpass] at hmore
      rw [hmore]
      refine ⟨hover, ?_⟩
      rw [retryLoop_step (t := p) _ (by rw [hp])]
      exact hloop
    · have hp' := eq_false_of_ne_true hp
      have hover : (Job.mk wr n p).isOver = true := by simp [Job.isOver, hp']
      rw [complete_over L bus muiNumROInts hover]
      exact ⟨hover, retryLoop_stop _ (by rw [hp']) _⟩

theorem advance_writeReq (j : Job) (ok : Bool) : (j.advance ok).writeReq = j.writeReq := by
  simp only [Job.advance]
  split
  · split <;> rfl
  · rfl

theorem complete_writeReq (n : Nat) (j : Job) :
    (j.complete L bus muiNumROInts n).writeReq = j.writeReq := by
  induction n generalizing j with
  | zero => rfl
  | succ n ih =>
    simp only [Job.complete]
    split
    · rfl
    · rw [ih, advance_writeReq]

end Refinement

/-- `processNextWrite` is a job run to its end without anything in between. -/
theorem transmit_eq_finish {Q : Type} [PriorityQueue Q WriteReq WriteReq.Less]
    (d : ModbusMasterDrv Q) (env : Env) (wr : WriteReq) :
    d.transmit L env wr =
      finish d ((Job.start wr).complete L env.bus d.muiNumROInts 6) env.bus.strerror := by
  obtain ⟨_, hloop⟩ := complete_eq_retryLoop L env.bus d.muiNumROInts wr 3
    (n := 0) wr.initialProgress rfl
  have hreq := complete_writeReq L env.bus d.muiNumROInts 6 (Job.start wr)
  simp only [ModbusMasterDrv.transmit, finish]
  rw [MAX_TRANSMISSION_TRYS, hloop, hreq]
  simp only [Job.start, ge_iff_le, Nat.add_le_add_iff_right]

/-- The requests of a channel, in the order of the list. -/
def forces (flagged : List WriteReq) (tAddr : IOAddr) : List WriteReq :=
  flagged.filter (fun wr => wr.mtAddr.uiChannel = tAddr.uiChannel)

/-- The master with its call of `processNextWrite` in progress and the slave.
Ghosts: `flagged` holds the force(..., true) requests whose flag write has been
performed, the latest first; `before` what the forced registers of a channel
held at the last such write, until a value is written there. -/
structure System (Q : Type) where
  master : ModbusMasterDrv Q
  job : Option Job
  slave : ModbusSlaveDrv
  flagged : List WriteReq
  before : BitVec 8 → Option Single

/-- Steps of the GUI, of the driver thread and of the regulator. The thread
drops requests when a reconnection fails, `stop` flushes them, and both change
the state of the driver. -/
inductive Label where
  | write (fVal : Single) (tAddr : IOAddr) (tWriteTimeOut : BitVec 32) (now : Int)
  | force (fVal : Single) (tAddr : IOAddr) (bForceBitVal : Bool) (tWriteTimeOut : BitVec 32)
      (now : Int)
  | enter (mtDrvState : DrvState)
  | clean (iTimeS : Int) (bAll : Bool)
  | beginWrite (iTimeS : Int)
  | transfer (answer : Transfer) (strerror : String)
  | scan (var : IOVar)

namespace System
variable {Q : Type}

def forcedVal (L : FloatAbcd) (s : System Q) (tAddr : IOAddr) : Single :=
  s.slave.getForcedVal L (s.slave.numVar tAddr)

/-- The slave performs the transfer that the job is at. -/
def perform (L : FloatAbcd) (s : System Q) (j : Job) : System Q :=
  let wr := j.writeReq
  if !j.progress.bForced then
    match s.slave.mpMBmapping.writeBit
        (coilAddr (MasterDriver.numVar s.master.muiNumROInts wr.mtAddr)) wr.mbForcedVal with
    | none => s
    | some m =>
      { s with
        slave := { s.slave with mpMBmapping := m }
        flagged := if wr.mbForcedVal then wr :: s.flagged else s.flagged
        before := if wr.mbForcedVal then
            Function.update s.before wr.mtAddr.uiChannel (some (s.forcedVal L wr.mtAddr))
          else s.before }
  else
    match s.slave.mpMBmapping.writeRegisters ((wr.uiAddr s.master.muiNumROInts).setWidth 32)
        (L.setFloatAbcd wr.mfWriteVal) with
    | none => s
    | some m =>
      { s with
        slave := { s.slave with mpMBmapping := m }
        before := if wr.mbForce then Function.update s.before wr.mtAddr.uiChannel none
          else s.before }

section Steps
variable [PriorityQueue Q WriteReq WriteReq.Less]

/-- One transfer, and the end of the call if it was the last one. -/
def transfer (L : FloatAbcd) (s : System Q) (j : Job) (answer : Transfer) (strerror : String) :
    System Q :=
  let s := if answer.performed then s.perform L j else s
  let j := j.advance answer.succeeded
  if j.isOver then { s with master := (finish s.master j strerror).2, job := none }
  else { s with job := some j }

/-- The state mutex is held while a call of `processNextWrite` is in progress:
the master does nothing else then. -/
def step (L : FloatAbcd) (s : System Q) (l : Label) : System Q :=
  match l, s.job with
  | .scan var, _ => { s with slave := (s.slave.updateFieldVar L var).2.2 }
  | .transfer answer strerror, some j => s.transfer L j answer strerror
  | .write fVal tAddr tWriteTimeOut now, none =>
    { s with master := (s.master.write fVal tAddr tWriteTimeOut now).2 }
  | .force fVal tAddr bForceBitVal tWriteTimeOut now, none =>
    { s with master := (s.master.force fVal tAddr bForceBitVal tWriteTimeOut now).2 }
  | .enter mtDrvState, none => { s with master := { s.master with mtDrvState := mtDrvState } }
  | .clean iTimeS bAll, none => { s with master := s.master.cleanWriteRequests iTimeS bAll }
  | .beginWrite iTimeS, none =>
    let d := s.master.cleanWriteRequests iTimeS
    { s with master := d, job := (PriorityQueue.top d.mPendingWrites).map Job.start }
  | _, _ => s

/-- No request yet, all coils off, and both programs configured with the same counts. -/
structure Initial (s : System Q) : Prop where
  initialised : Initialised s.slave
  roInts : s.master.muiNumROInts = s.slave.muiNumROInts
  ioVars : s.master.muiNumIOVars = s.slave.muiNumIOVars
  pending : PriorityQueue.elems s.master.mPendingWrites = 0
  job : s.job = none
  coils : ∀ p, s.slave.mpMBmapping.tabBits p = false
  flagged : s.flagged = []

end Steps

end System

section Tables
variable {Q : Type} {s : System Q}

theorem pos_injective {c d : IOAddr} (hc : InField s.slave c) (hd : InField s.slave d)
    (h : pos s.slave c = pos s.slave d) : c.uiChannel = d.uiChannel := by
  by_contra hne
  exact pos_ne hd hc hne h

theorem pos_congr (sl : ModbusSlaveDrv) {c d : IOAddr} (h : c.uiChannel = d.uiChannel) :
    pos sl c = pos sl d := by
  simp only [pos]
  rw [h]

/-- A job is at a transfer that its request needs. A force whose coil has
succeeded sets the flag, and its request is the last one to have set it. -/
structure JobOk (s : System Q) (j : Job) : Prop where
  inField : InField s.slave j.writeReq.mtAddr
  running : j.isOver = false
  plain : j.writeReq.mbForce = false → j.progress.bForced = true
  value : j.progress.bForced = false → j.progress.bWriteVal = !j.writeReq.mbForcedVal
  flag : j.writeReq.mbForce = true → j.progress.bForced = true →
    (forces s.flagged j.writeReq.mtAddr).head? = some j.writeReq

/-- Coils are set by flagged requests only. Where one is set, the forced
registers hold the value of the last flagged request or what they held before. -/
structure TablesOk (L : FloatAbcd) (s : System Q) : Prop where
  initialised : Initialised s.slave
  roInts : s.master.muiNumROInts = s.slave.muiNumROInts
  ioVars : s.master.muiNumIOVars = s.slave.muiNumIOVars
  flagged : ∀ wr ∈ s.flagged,
    wr.mbForce = true ∧ wr.mbForcedVal = true ∧ InField s.slave wr.mtAddr
  owner : ∀ p, s.slave.mpMBmapping.tabBits p = true →
    ∃ wr ∈ s.flagged, pos s.slave wr.mtAddr = p
  content : ∀ tAddr, InField s.slave tAddr →
    s.slave.mpMBmapping.tabBits (pos s.slave tAddr) = true →
    ∃ wr, (forces s.flagged tAddr).head? = some wr ∧
      s.forcedVal L tAddr = (s.before tAddr.uiChannel).getD wr.mfWriteVal

theorem store_one {A : Type} (tab : Nat → A) (base : Nat) (x : A) (i : Nat) :
    store tab base [x] i = if i = base then x else tab i := by
  by_cases h : i = base
  · rw [if_pos h, h]
    exact store_inside tab base [x] (i := 0) (by simp)
  · rw [if_neg h]
    exact store_outside tab base [x] (by simp only [List.length_cons, List.length_nil]; omega)

theorem forces_cons_same {wr : WriteReq} {tAddr : IOAddr} (flagged : List WriteReq)
    (h : wr.mtAddr.uiChannel = tAddr.uiChannel) :
    forces (wr :: flagged) tAddr = wr :: forces flagged tAddr :=
  List.filter_cons_of_pos (by simpa using h)

theorem forces_cons_other {wr : WriteReq} {tAddr : IOAddr} (flagged : List WriteReq)
    (h : wr.mtAddr.uiChannel ≠ tAddr.uiChannel) :
    forces (wr :: flagged) tAddr = forces flagged tAddr :=
  List.filter_cons_of_neg (by simpa using h)

/-- The state when the flag of a request is in its coil. -/
def afterCoil (L : FloatAbcd) (s : System Q) (wr : WriteReq) : System Q :=
  { s with
    slave := { s.slave with mpMBmapping := { s.slave.mpMBmapping with
      tabBits := store s.slave.mpMBmapping.tabBits (pos s.slave wr.mtAddr) [wr.mbForcedVal] } }
    flagged := if wr.mbForcedVal then wr :: s.flagged else s.flagged
    before := if wr.mbForcedVal then
        Function.update s.before wr.mtAddr.uiChannel (some (s.forcedVal L wr.mtAddr))
      else s.before }

/-- The first register that the value of a request goes to. -/
def valueBase (s : System Q) (wr : WriteReq) : Nat :=
  pos s.slave wr.mtAddr * 4 + if wr.mbForce then 2 else 0

/-- The state when the value of a request is in its registers. -/
def afterValue (L : FloatAbcd) (s : System Q) (wr : WriteReq) : System Q :=
  { s with
    slave := { s.slave with mpMBmapping := { s.slave.mpMBmapping with
      tabRegisters := store s.slave.mpMBmapping.tabRegisters (valueBase s wr)
        [(L.setFloatAbcd wr.mfWriteVal).1, (L.setFloatAbcd wr.mfWriteVal).2] } }
    before := if wr.mbForce then Function.update s.before wr.mtAddr.uiChannel none
      else s.before }

/-- The flag transfer of a job. -/
theorem perform_coil (hs : TablesOk L s) {j : Job} (hj : JobOk s j)
    (hcoil : j.progress.bForced = false) : s.perform L j = afterCoil L s j.writeReq := by
  have hreply : s.slave.mpMBmapping.writeBit
      (coilAddr (MasterDriver.numVar s.slave.muiNumROInts j.writeReq.mtAddr))
      j.writeReq.mbForcedVal = some { s.slave.mpMBmapping with
        tabBits := store s.slave.mpMBmapping.tabBits (pos s.slave j.writeReq.mtAddr)
          [j.writeReq.mbForcedVal] } := by
    obtain ⟨hlt, hsmall⟩ := pos_lt hj.inField
    unfold ModbusMapping.writeBit
    rw [hs.initialised.bits.1, hs.initialised.bits.2,
      writeReply_eq (coilAddr_toNat hj.inField) (by omega)
        (by simp only [List.length_cons, List.length_nil]; omega), Option.map_some]
    rw [← hs.initialised.bits.1, ← hs.initialised.bits.2]
  simp only [System.perform, hcoil, Bool.not_false, if_true, hs.roInts, hreply, afterCoil]

/-- The value transfer of a job. -/
theorem perform_value (hs : TablesOk L s) {j : Job} (hj : JobOk s j)
    (hcoil : j.progress.bForced = true) : s.perform L j = afterValue L s j.writeReq := by
  have hreply : s.slave.mpMBmapping.writeRegisters
      ((j.writeReq.uiAddr s.slave.muiNumROInts).setWidth 32)
      (L.setFloatAbcd j.writeReq.mfWriteVal) = some { s.slave.mpMBmapping with
        tabRegisters := store s.slave.mpMBmapping.tabRegisters (valueBase s j.writeReq)
          [(L.setFloatAbcd j.writeReq.mfWriteVal).1,
            (L.setFloatAbcd j.writeReq.mfWriteVal).2] } := by
    obtain ⟨hlt, hsmall⟩ := pos_lt hj.inField
    have hhr := hrAddr_toNat hj.inField
    have haddr : ((j.writeReq.uiAddr s.slave.muiNumROInts).setWidth 32).toNat =
        40001 + valueBase s j.writeReq := by
      simp only [WriteReq.uiAddr, valueBase, BitVec.toNat_setWidth, BitVec.toNat_add, hhr]
      split <;> simp only [BitVec.ofNat_eq_ofNat, BitVec.toNat_ofNat] <;> omega
    have hbase : valueBase s j.writeReq + 2 ≤ pos s.slave j.writeReq.mtAddr * 4 + 4 := by
      simp only [valueBase]
      split <;> omega
    unfold ModbusMapping.writeRegisters
    rw [hs.initialised.registers.1, hs.initialised.registers.2,
      writeReply_eq haddr (by omega)
        (by simp only [List.length_cons, List.length_nil]; omega), Option.map_some]
    rw [← hs.initialised.registers.1, ← hs.initialised.registers.2]
  simp only [System.perform, hcoil, Bool.not_true, Bool.false_eq_true, if_false, hs.roInts,
    hreply, afterValue]

theorem afterCoil_flagged (hs : TablesOk L s) {wr : WriteReq} (hforce : wr.mbForce = true)
    (hin : InField s.slave wr.mtAddr) {r : WriteReq} (hr : r ∈ (afterCoil L s wr).flagged) :
    r.mbForce = true ∧ r.mbForcedVal = true ∧ InField s.slave r.mtAddr := by
  cases hflag : wr.mbForcedVal with
  | false =>
    simp only [afterCoil, hflag, Bool.false_eq_true, if_false] at hr
    exact hs.flagged r hr
  | true =>
    simp only [afterCoil, hflag, if_true] at hr
    rcases List.mem_cons.mp hr with rfl | hr
    · exact ⟨hforce, hflag, hin⟩
    · exact hs.flagged r hr

theorem afterCoil_owner (hs : TablesOk L s) {wr : WriteReq} {p : Nat}
    (hp : (afterCoil L s wr).slave.mpMBmapping.tabBits p = true) :
    ∃ r ∈ (afterCoil L s wr).flagged, pos s.slave r.mtAddr = p := by
  simp only [afterCoil, store_one] at hp ⊢
  split at hp
  · rename_i heq
    simp only [hp, if_true]
    exact ⟨wr, List.mem_cons_self, heq.symm⟩
  · obtain ⟨r, hr, hpos⟩ := hs.owner p hp
    refine ⟨r, ?_, hpos⟩
    split
    · exact List.mem_cons_of_mem _ hr
    · exact hr

/-- The coil of the request itself: its flag is on and it is the last one. -/
theorem afterCoil_own {wr : WriteReq} {tAddr : IOAddr}
    (hch : wr.mtAddr.uiChannel = tAddr.uiChannel)
    (hp : (afterCoil L s wr).slave.mpMBmapping.tabBits (pos s.slave tAddr) = true) :
    (forces (afterCoil L s wr).flagged tAddr).head? = some wr ∧
      (afterCoil L s wr).forcedVal L tAddr =
        ((afterCoil L s wr).before tAddr.uiChannel).getD wr.mfWriteVal := by
  have hpos := pos_congr s.slave hch.symm
  have hflag : wr.mbForcedVal = true := by
    simp only [afterCoil, store_one] at hp
    rw [← hp]
    exact (if_pos hpos).symm
  constructor
  · simp only [afterCoil, hflag, if_true, forces_cons_same s.flagged hch, List.head?_cons]
  · simp only [afterCoil, hflag, if_true, hch, Function.update_self, Option.getD_some]
    simp only [System.forcedVal, ModbusSlaveDrv.getForcedVal, ModbusSlaveDrv.numVar, hch]

/-- The coils of other channels, their requests and values are not touched. -/
theorem afterCoil_other {wr : WriteReq} {tAddr : IOAddr} (hin : InField s.slave wr.mtAddr)
    (hin' : InField s.slave tAddr) (hch : wr.mtAddr.uiChannel ≠ tAddr.uiChannel) :
    (afterCoil L s wr).slave.mpMBmapping.tabBits (pos s.slave tAddr) =
        s.slave.mpMBmapping.tabBits (pos s.slave tAddr) ∧
      forces (afterCoil L s wr).flagged tAddr = forces s.flagged tAddr ∧
      (afterCoil L s wr).before tAddr.uiChannel = s.before tAddr.uiChannel := by
  have hpos : pos s.slave tAddr ≠ pos s.slave wr.mtAddr :=
    fun he => hch (pos_injective hin hin' he.symm)
  refine ⟨?_, ?_, ?_⟩
  · simp only [afterCoil, store_one]
    exact if_neg hpos
  · simp only [afterCoil]
    split
    · exact forces_cons_other s.flagged hch
    · rfl
  · simp only [afterCoil]
    split
    · exact Function.update_of_ne (Ne.symm hch) _ _
    · rfl

theorem coil_tablesOk (hs : TablesOk L s) {j : Job} (hj : JobOk s j)
    (hcoil : j.progress.bForced = false) : TablesOk L (s.perform L j) := by
  have hforce : j.writeReq.mbForce = true := by
    by_contra hne
    rw [hj.plain (eq_false_of_ne_true hne)] at hcoil
    cases hcoil
  have hi := hs.initialised
  rw [perform_coil hs hj hcoil]
  refine ⟨⟨⟨hi.small, hi.bits, hi.inputBits, hi.registers, hi.inputRegisters⟩, hi.state⟩,
    hs.roInts, hs.ioVars, fun r hr => afterCoil_flagged hs hforce hj.inField hr,
    fun p hp => afterCoil_owner hs hp, ?_⟩
  intro tAddr (hin : InField s.slave tAddr) hp
  by_cases hch : j.writeReq.mtAddr.uiChannel = tAddr.uiChannel
  · exact ⟨j.writeReq, afterCoil_own hch hp⟩
  · obtain ⟨hbit, hforces, hbefore⟩ := afterCoil_other (L := L) hj.inField hin hch
    obtain ⟨wr, hhead, hval⟩ := hs.content tAddr hin (hbit.symm.trans hp)
    refine ⟨wr, ?_, ?_⟩
    · rw [hforces]
      exact hhead
    · rw [hbefore]
      exact hval

theorem getForcedVal_withMapping {sl : ModbusSlaveDrv} {tAddr : IOAddr} (m : ModbusMapping)
    (h : InField sl tAddr) :
    ModbusSlaveDrv.getForcedVal L { sl with mpMBmapping := m } (sl.numVar tAddr) =
      L.getFloatAbcd (m.tabRegisters (pos sl tAddr * 4 + 2))
        (m.tabRegisters (pos sl tAddr * 4 + 3)) :=
  getForcedVal_eq (s := { sl with mpMBmapping := m }) h

/-- The value of a force is the forced value of its channel. -/
theorem afterValue_own {wr : WriteReq} {tAddr : IOAddr} (hin : InField s.slave tAddr)
    (hforce : wr.mbForce = true) (hch : wr.mtAddr.uiChannel = tAddr.uiChannel) :
    (afterValue L s wr).forcedVal L tAddr = wr.mfWriteVal ∧
      (afterValue L s wr).before tAddr.uiChannel = none := by
  constructor
  · refine (getForcedVal_withMapping _ hin).trans ?_
    simp only [valueBase, hforce, if_true]
    rw [← pos_congr s.slave hch]
    exact getFloat_stored _ _ 2 le_rfl _
  · simp only [afterValue, hforce, if_true, hch, Function.update_self]

/-- A plain write and the value of another channel leave the forced registers alone. -/
theorem afterValue_other {wr : WriteReq} {tAddr : IOAddr} (hin : InField s.slave wr.mtAddr)
    (hin' : InField s.slave tAddr)
    (hown : ¬ (wr.mbForce = true ∧ wr.mtAddr.uiChannel = tAddr.uiChannel)) :
    (afterValue L s wr).forcedVal L tAddr = s.forcedVal L tAddr ∧
      (afterValue L s wr).before tAddr.uiChannel = s.before tAddr.uiChannel := by
  constructor
  · have hapart : pos s.slave tAddr * 4 + 3 < valueBase s wr ∨
        valueBase s wr + 2 ≤ pos s.slave tAddr * 4 + 2 := by
      simp only [valueBase]
      by_cases hch : wr.mtAddr.uiChannel = tAddr.uiChannel
      · have hforce : wr.mbForce = false := eq_false_of_ne_true (fun hf => hown ⟨hf, hch⟩)
        have hpos := pos_congr s.slave hch
        simp only [hforce, Bool.false_eq_true, if_false]
        omega
      · have hpos := pos_ne hin hin' (Ne.symm hch)
        split <;> omega
    refine (getForcedVal_withMapping _ hin').trans ?_
    rw [System.forcedVal, getForcedVal_eq hin']
    exact congrArg₂ _
      (store_outside _ _ _ (by simp only [List.length_cons, List.length_nil]; omega))
      (store_outside _ _ _ (by simp only [List.length_cons, List.length_nil]; omega))
  · simp only [afterValue]
    split
    · rename_i hforce
      exact Function.update_of_ne (fun he => hown ⟨hforce, he.symm⟩) _ _
    · rfl

theorem value_tablesOk (hs : TablesOk L s) {j : Job} (hj : JobOk s j)
    (hcoil : j.progress.bForced = true) : TablesOk L (s.perform L j) := by
  have hi := hs.initialised
  rw [perform_value hs hj hcoil]
  refine ⟨⟨⟨hi.small, hi.bits, hi.inputBits, hi.registers, hi.inputRegisters⟩, hi.state⟩,
    hs.roInts, hs.ioVars, hs.flagged, hs.owner, ?_⟩
  intro tAddr (hin : InField s.slave tAddr) hp
  obtain ⟨wr, hhead, hval⟩ := hs.content tAddr hin hp
  refine ⟨wr, hhead, ?_⟩
  by_cases hown : j.writeReq.mbForce = true ∧ j.writeReq.mtAddr.uiChannel = tAddr.uiChannel
  · obtain ⟨hforce, hch⟩ := hown
    have hlast := hj.flag hforce hcoil
    have hwr : wr = j.writeReq := by
      have hsame : forces s.flagged tAddr = forces s.flagged j.writeReq.mtAddr := by
        simp only [forces, hch]
      rw [hsame, hlast] at hhead
      exact (Option.some.inj hhead).symm
    obtain ⟨hforced, hbefore⟩ := afterValue_own (L := L) hin hforce hch
    rw [hforced, hbefore, hwr]
    rfl
  · obtain ⟨hforced, hbefore⟩ := afterValue_other (L := L) hj.inField hin hown
    rw [hforced, hbefore]
    exact hval

theorem perform_tablesOk (hs : TablesOk L s) {j : Job} (hj : JobOk s j) :
    TablesOk L (s.perform L j) := by
  cases hcoil : j.progress.bForced with
  | false => exact coil_tablesOk hs hj hcoil
  | true => exact value_tablesOk hs hj hcoil

theorem perform_frame (hs : TablesOk L s) {j : Job} (hj : JobOk s j) :
    (s.perform L j).master = s.master ∧
    (s.perform L j).slave.muiNumROInts = s.slave.muiNumROInts ∧
    (s.perform L j).slave.muiNumIOVars = s.slave.muiNumIOVars := by
  cases hcoil : j.progress.bForced with
  | false =>
    rw [perform_coil hs hj hcoil]
    exact ⟨rfl, rfl, rfl⟩
  | true =>
    rw [perform_value hs hj hcoil]
    exact ⟨rfl, rfl, rfl⟩

/-- A performed coil makes a request that sets the flag the last one; the value
transfer leaves the record of flagged requests alone. -/
theorem perform_flagged (hs : TablesOk L s) {j : Job} (hj : JobOk s j) :
    (s.perform L j).flagged =
      if j.progress.bForced = false ∧ j.writeReq.mbForcedVal = true
      then j.writeReq :: s.flagged else s.flagged := by
  cases hcoil : j.progress.bForced with
  | false =>
    rw [perform_coil hs hj hcoil]
    simp [afterCoil]
  | true =>
    rw [perform_value hs hj hcoil]
    simp [afterValue]

theorem start_jobOk {wr : WriteReq} (h : InField s.slave wr.mtAddr) : JobOk s (Job.start wr) where
  inField := h
  running := by
    cases hforce : wr.mbForce <;> cases hflag : wr.mbForcedVal <;>
      simp [Job.isOver, Job.start, WriteReq.initialProgress, WriteProgress.unfinished, hforce,
        hflag, MAX_TRANSMISSION_TRYS]
  plain := by simp [Job.start, WriteReq.initialProgress]
  value := by
    intro hcoil
    have hforce : wr.mbForce = true := by
      simpa [Job.start, WriteReq.initialProgress] using hcoil
    simp [Job.start, WriteReq.initialProgress, hforce]
  flag := by
    intro hforce hcoil
    simp only [Job.start, WriteReq.initialProgress] at hforce hcoil
    rw [hforce] at hcoil
    cases hcoil

/-- A job goes on with its request, unless the transfer was the last one. -/
theorem advance_jobOk (hs : TablesOk L s) {j : Job} (hj : JobOk s j) (answer : Transfer)
    {s' : System Q} (hs' : s' = if answer.performed then s.perform L j else s)
    (hover : (j.advance answer.succeeded).isOver = false) :
    JobOk s' (j.advance answer.succeeded) := by
  have hreq := advance_writeReq j answer.succeeded
  have hfield : InField s'.slave j.writeReq.mtAddr := by
    rw [hs']
    split
    · obtain ⟨_, hro, hio⟩ := perform_frame hs hj
      rw [InField, hro, hio]
      exact hj.inField
    · exact hj.inField
  cases hcoil : j.progress.bForced with
  | true =>
    have hadv : (j.advance answer.succeeded).progress.bForced = true := by
      simp only [Job.advance, hcoil, Bool.not_true, Bool.false_eq_true, if_false]
    refine ⟨by rw [hreq]; exact hfield, hover, fun _ => hadv, fun hc => ?_, fun hforce _ => ?_⟩
    · rw [hadv] at hc
      cases hc
    · have hsame : s'.flagged = s.flagged := by
        rw [hs']
        split
        · rw [perform_flagged hs hj, if_neg (fun hc => by rw [hcoil] at hc; cases hc.1)]
        · rfl
      rw [hreq] at hforce ⊢
      rw [hsame]
      exact hj.flag hforce hcoil
  | false =>
    have hforce : j.writeReq.mbForce = true := by
      by_contra hne
      rw [hj.plain (eq_false_of_ne_true hne)] at hcoil
      cases hcoil
    have hval := hj.value hcoil
    refine ⟨by rw [hreq]; exact hfield, hover, fun hplain => ?_, fun hc => ?_, fun _ hc => ?_⟩
    · rw [hreq, hforce] at hplain
      cases hplain
    · rw [hreq, ← hval]
      simp only [Job.advance, hcoil, Bool.not_false, if_true] at hc ⊢
      by_cases hok : (answer.succeeded && !j.progress.bWriteVal) = true
      · rw [if_pos hok] at hc
        cases hc
      · rw [if_neg hok]
    · have hok : answer.succeeded = true := by
        simp only [Job.advance, hcoil, Bool.not_false, if_true] at hc
        split at hc
        · rename_i hok
          exact (Bool.and_eq_true _ _ ▸ hok).1
        · exact hc
      have hflag : j.writeReq.mbForcedVal = true := by
        by_contra hne
        rw [eq_false_of_ne_true hne, Bool.not_false] at hval
        simp [Job.isOver, Job.advance, hcoil, hok, hval, WriteProgress.unfinished] at hover
      rw [hreq, hs', if_pos (Transfer.performed_of_succeeded hok), perform_flagged hs hj,
        if_pos ⟨hcoil, hflag⟩, forces_cons_same _ rfl, List.head?_cons]

/-- A scan never changes coils or forced registers. -/
theorem scan_frame (sl : ModbusSlaveDrv) (var : IOVar) :
    ∃ m : ModbusMapping, (sl.updateFieldVar L var).2.2 = { sl with mpMBmapping := m } ∧
      (Initialised sl → Initialised { sl with mpMBmapping := m }) ∧
      m.tabBits = sl.mpMBmapping.tabBits ∧
      ∀ p, m.tabRegisters (p * 4 + 2) = sl.mpMBmapping.tabRegisters (p * 4 + 2) ∧
        m.tabRegisters (p * 4 + 3) = sl.mpMBmapping.tabRegisters (p * 4 + 3) := by
  unfold ModbusSlaveDrv.updateFieldVar
  split
  · exact ⟨sl.mpMBmapping, rfl, id, rfl, fun _ => ⟨rfl, rfl⟩⟩
  · rename_i tAddr _
    simp only
    split
    · exact ⟨sl.mpMBmapping, rfl, id, rfl, fun _ => ⟨rfl, rfl⟩⟩
    · rename_i haccept
      have hu : 1 ≤ (sl.numVar tAddr).toNat := by
        by_contra hlt
        refine haccept (Or.inl ?_)
        rw [BitVec.lt_def, BitVec.toNat_ofNat]
        omega
      have hbase := valAddr_toNat hu 4 le_rfl
      simp only [ModbusSlaveDrv.setTimeS, ModbusSlaveDrv.storeInt, ModbusSlaveDrv.setQState,
        ModbusSlaveDrv.setCurrentVal, SlaveDriver.HROFFSET, hbase]
      refine ⟨_, rfl, ?_, rfl, ?_⟩
      · intro hi
        exact ⟨⟨hi.small, hi.bits, hi.inputBits, hi.registers, hi.inputRegisters⟩, hi.state⟩
      · intro p
        exact ⟨store_outside _ _ _ (by simp only [List.length_cons, List.length_nil]; omega),
          store_outside _ _ _ (by simp only [List.length_cons, List.length_nil]; omega)⟩

theorem scan_tablesOk (hs : TablesOk L s) (var : IOVar) :
    TablesOk L { s with slave := (s.slave.updateFieldVar L var).2.2 } := by
  obtain ⟨m, heq, hi, hbits, hregs⟩ := scan_frame (L := L) s.slave var
  rw [heq]
  refine ⟨hi hs.initialised, hs.roInts, hs.ioVars, hs.flagged, fun p hp => ?_, ?_⟩
  · exact hs.owner p (hbits ▸ hp)
  · intro tAddr (hin : InField s.slave tAddr) hp
    obtain ⟨wr, hhead, hval⟩ := hs.content tAddr hin (hbits ▸ hp)
    refine ⟨wr, hhead, ?_⟩
    rw [System.forcedVal, getForcedVal_eq hin] at hval
    refine (getForcedVal_withMapping m hin).trans ?_
    obtain ⟨h2, h3⟩ := hregs (pos s.slave tAddr)
    rw [h2, h3]
    exact hval

/-- A variable whose flag is seen is one that has been forced. -/
theorem coil_inField (hs : TablesOk L s) {tAddr : IOAddr}
    (hcoil : s.slave.getForced (s.slave.numVar tAddr) = true) : InField s.slave tAddr := by
  have hch := tAddr.uiChannel.isLt
  have hnum : (s.slave.numVar tAddr).toNat =
      (2 ^ 32 - s.slave.muiNumROInts.toNat + tAddr.uiChannel.toNat) % 2 ^ 32 % 2 ^ 8 := by
    simp only [ModbusSlaveDrv.numVar, BitVec.toNat_setWidth, BitVec.toNat_sub]
    omega
  by_cases hu : 1 ≤ (s.slave.numVar tAddr).toNat
  · rw [getForced_at hu] at hcoil
    obtain ⟨wr, hwr, hpos⟩ := hs.owner _ hcoil
    obtain ⟨hlo, hhi⟩ := (hs.flagged wr hwr).2.2
    have hwrch := wr.mtAddr.uiChannel.isLt
    simp only [pos] at hpos
    have hsame : tAddr.uiChannel.toNat = wr.mtAddr.uiChannel.toNat := by omega
    rw [InField, hsame]
    exact ⟨hlo, hhi⟩
  · have hwrap : (ModbusSlaveDrv.valAddr SlaveDriver.COILOFFSET (s.slave.numVar tAddr)).toNat =
        65535 := by
      have hzero : s.slave.numVar tAddr = 0#8 := BitVec.eq_of_toNat_eq (by
        rw [BitVec.toNat_ofNat]
        omega)
      rw [hzero]
      rfl
    rw [ModbusSlaveDrv.getForced, hwrap] at hcoil
    obtain ⟨wr, hwr, hpos⟩ := hs.owner _ hcoil
    have := pos_lt (hs.flagged wr hwr).2.2
    omega

/-- The forced value that a scan loads under a set flag satisfies `R`, given the
flagged requests of the variable. -/
def LoadsForced (L : FloatAbcd) (R : List WriteReq → Single → Prop) (s : System Q) :
    Label → Prop
  | .scan var => ∀ tAddr var' slave', s.slave.mFieldVars.lookup var.muiVarId = some tAddr →
      s.slave.updateFieldVar L var = (true, var', slave') → var'.mbForcedVal = true →
      R (forces s.flagged tAddr) var'.mfForcedVal
  | _ => True

/-- A scan that meets a set flag does not come between the flag write and the
value write of a force, unless what the registers held before satisfies `R`. -/
def Settled (R : List WriteReq → Single → Prop) (s : System Q) : Label → Prop
  | .scan var => ∀ tAddr, s.slave.mFieldVars.lookup var.muiVarId = some tAddr →
      s.slave.getForced (s.slave.numVar tAddr) = true →
      s.before tAddr.uiChannel = none ∨
        ∃ f, s.before tAddr.uiChannel = some f ∧ R (forces s.flagged tAddr) f
  | _ => True

/-- Both descriptions agree when the value of the last request satisfies `R`. -/
theorem loadsForced_iff_settled (hs : TablesOk L s) {R : List WriteReq → Single → Prop}
    (hlast : ∀ wr wrs, wrs.head? = some wr → R wrs wr.mfWriteVal) (l : Label) :
    LoadsForced L R s l ↔ Settled R s l := by
  cases l with
  | scan var =>
    constructor
    · intro h tAddr hfind hcoil
      have hin := coil_inField hs hcoil
      have hload := h tAddr _ _ hfind (updateFieldVar_eq hs.initialised hin hfind) hcoil
      obtain ⟨wr, _, hval⟩ := hs.content tAddr hin (getForced_eq hin ▸ hcoil)
      cases hbefore : s.before tAddr.uiChannel with
      | none => exact Or.inl rfl
      | some f =>
        refine Or.inr ⟨f, rfl, ?_⟩
        rw [hbefore, Option.getD_some] at hval
        exact hval ▸ hload
    · intro h tAddr var' slave' hfind heq hflag
      have hforced : var'.mfForcedVal = s.slave.getForcedVal L (s.slave.numVar tAddr) ∧
          var'.mbForcedVal = s.slave.getForced (s.slave.numVar tAddr) := by
        simp only [ModbusSlaveDrv.updateFieldVar, hfind] at heq
        split at heq
        · cases heq
        · obtain ⟨_, rfl, _⟩ := Prod.mk.inj heq |>.imp_right Prod.mk.inj
          exact ⟨rfl, rfl⟩
      obtain ⟨hload, hcoil⟩ := hforced
      rw [hcoil] at hflag
      have hin := coil_inField hs hflag
      obtain ⟨wr, hhead, hval⟩ := hs.content tAddr hin (getForced_eq hin ▸ hflag)
      rw [hload]
      rw [System.forcedVal] at hval
      rcases h tAddr hfind hflag with hnone | ⟨f, hsome, hf⟩
      · rw [hval, hnone]
        exact hlast wr _ hhead
      · rw [hval, hsome]
        exact hf
  | _ => exact Iff.rfl

end Tables

section Runs
variable {Q : Type} [PriorityQueue Q WriteReq WriteReq.Less] {s : System Q}

structure Inv (L : FloatAbcd) (s : System Q) : Prop extends TablesOk L s where
  pending : ∀ wr ∈ PriorityQueue.elems s.master.mPendingWrites, InField s.slave wr.mtAddr
  job : ∀ j, s.job = some j →
    PriorityQueue.top s.master.mPendingWrites = some j.writeReq ∧ JobOk s j

theorem System.Initial.inv (h : s.Initial) : Inv L s where
  initialised := h.initialised
  roInts := h.roInts
  ioVars := h.ioVars
  flagged := by simp [h.flagged]
  owner p hp := by simp [h.coils p] at hp
  content tAddr _ hp := by simp [h.coils] at hp
  pending := by simp [h.pending]
  job := by simp [h.job]

/-- The master accepts requests for IO variables of the slave only. -/
theorem submit_inField (h : Inv L s) (wr : WriteReq) :
    ∀ wr' ∈ PriorityQueue.elems (s.master.submit wr).2.mPendingWrites,
      InField s.slave wr'.mtAddr := by
  intro wr' hmem
  unfold ModbusMasterDrv.submit at hmem
  simp only at hmem
  split at hmem
  · exact h.pending wr' hmem
  · rename_i hguard
    split at hmem
    · simp only [ModbusMasterDrv.log, PriorityQueue.elems_push, Multiset.mem_cons] at hmem
      rcases hmem with rfl | hmem
      · have hsmall := h.initialised.small
        have hch := wr.mtAddr.uiChannel.isLt
        rw [h.roInts, h.ioVars, not_or, gt_iff_lt, BitVec.not_le, BitVec.not_lt, BitVec.lt_def,
          BitVec.le_def, BitVec.toNat_setWidth, BitVec.toNat_add] at hguard
        simp only [InField]
        omega
      · exact h.pending wr' hmem
    · exact h.pending wr' hmem

theorem submit_inv (h : Inv L s) (wr : WriteReq) :
    Inv L { s with master := (s.master.submit wr).2, job := none } := by
  have hcounts : (s.master.submit wr).2.muiNumROInts = s.master.muiNumROInts ∧
      (s.master.submit wr).2.muiNumIOVars = s.master.muiNumIOVars := by
    rcases s.master.submit_cases wr with heq | ⟨_, _, heq⟩ <;> rw [heq] <;> exact ⟨rfl, rfl⟩
  refine ⟨⟨h.initialised, hcounts.1.trans h.roInts, hcounts.2.trans h.ioVars, h.flagged, h.owner,
    h.content⟩, submit_inField h wr, fun j hj => ?_⟩
  cases hj

/-- Requests only disappear when the queue is cleaned. -/
theorem clean_inv (h : Inv L s) (iTimeS : Int) (bAll : Bool) :
    Inv L { s with master := s.master.cleanWriteRequests iTimeS bAll, job := none } := by
  obtain ⟨q, gone, heq, helems, _⟩ := s.master.cleanWriteRequests_spec iTimeS bAll
  rw [heq]
  refine ⟨⟨h.initialised, h.roInts, h.ioVars, h.flagged, h.owner, h.content⟩, fun wr hwr => ?_,
    fun j hj => ?_⟩
  · apply h.pending wr
    rw [helems]
    exact Multiset.mem_add.mpr (Or.inr hwr)
  · cases hj

theorem beginWrite_inv (h : Inv L s) (hjob : s.job = none) (iTimeS : Int) :
    Inv L (s.step L (.beginWrite iTimeS)) := by
  have hclean := clean_inv h iTimeS false
  simp only [System.step, hjob]
  refine ⟨⟨hclean.initialised, hclean.roInts, hclean.ioVars, hclean.flagged, hclean.owner,
    hclean.content⟩, hclean.pending, fun j hj => ?_⟩
  obtain ⟨wr, htop, rfl⟩ := Option.map_eq_some_iff.mp hj
  exact ⟨htop, start_jobOk (hclean.pending wr (mem_of_top htop))⟩

/-- The request of a finished call is the only one that may leave the queue. -/
theorem finish_frame (d : ModbusMasterDrv Q) (j : Job) (strerror : String) :
    (finish d j strerror).2.muiNumROInts = d.muiNumROInts ∧
    (finish d j strerror).2.muiNumIOVars = d.muiNumIOVars ∧
    ((finish d j strerror).2.mPendingWrites = d.mPendingWrites ∨
      (finish d j strerror).2.mPendingWrites = PriorityQueue.pop d.mPendingWrites) := by
  unfold finish
  simp only
  split
  · exact ⟨rfl, rfl, Or.inl rfl⟩
  · exact ⟨rfl, rfl, Or.inr rfl⟩

theorem transfer_inv (h : Inv L s) {j : Job} (hj : s.job = some j) (answer : Transfer)
    (strerror : String) : Inv L (s.transfer L j answer strerror) := by
  obtain ⟨htop, hjob⟩ := h.job j hj
  obtain ⟨s', hs'⟩ : ∃ s', s' = if answer.performed then s.perform L j else s := ⟨_, rfl⟩
  have htables : TablesOk L s' := by
    rw [hs']
    split
    · exact perform_tablesOk h.toTablesOk hjob
    · exact h.toTablesOk
  obtain ⟨hmaster, hro, hio⟩ : s'.master = s.master ∧
      s'.slave.muiNumROInts = s.slave.muiNumROInts ∧
      s'.slave.muiNumIOVars = s.slave.muiNumIOVars := by
    rw [hs']
    split
    · exact perform_frame h.toTablesOk hjob
    · exact ⟨rfl, rfl, rfl⟩
  have hpending : ∀ wr ∈ PriorityQueue.elems s'.master.mPendingWrites,
      InField s'.slave wr.mtAddr := by
    intro wr hwr
    rw [InField, hro, hio]
    exact h.pending wr (hmaster ▸ hwr)
  simp only [System.transfer]
  simp only [← hs']
  by_cases hover : (j.advance answer.succeeded).isOver = true
  · rw [if_pos hover]
    obtain ⟨hfro, hfio, hqueue⟩ := finish_frame s'.master (j.advance answer.succeeded) strerror
    refine ⟨⟨htables.initialised, hfro.trans htables.roInts, hfio.trans htables.ioVars,
      htables.flagged, htables.owner, htables.content⟩, fun wr hwr => ?_, fun _ hc => by cases hc⟩
    rcases hqueue with hqueue | hqueue
    · exact hpending wr (hqueue ▸ hwr)
    · rw [hqueue, hmaster] at hwr
      exact hpending wr (hmaster ▸ mem_of_mem_pop htop hwr)
  · rw [if_neg hover]
    refine ⟨⟨htables.initialised, htables.roInts, htables.ioVars, htables.flagged, htables.owner,
      htables.content⟩, hpending, fun j' hj' => ?_⟩
    obtain rfl := Option.some.inj hj'
    have hok := advance_jobOk h.toTablesOk hjob answer hs' (eq_false_of_ne_true hover)
    refine ⟨?_, hok.inField, hok.running, hok.plain, hok.value, hok.flag⟩
    rw [advance_writeReq, hmaster]
    exact htop

theorem scan_inv (h : Inv L s) (var : IOVar) :
    Inv L { s with slave := (s.slave.updateFieldVar L var).2.2 } := by
  have htables := scan_tablesOk h.toTablesOk var
  obtain ⟨m, heq, _⟩ := scan_frame (L := L) s.slave var
  rw [heq] at htables ⊢
  refine ⟨htables, h.pending, fun j hj => ?_⟩
  obtain ⟨htop, hjob⟩ := h.job j hj
  exact ⟨htop, hjob.inField, hjob.running, hjob.plain, hjob.value, hjob.flag⟩

theorem step_inv (s : System Q) (l : Label) (h : Inv L s) : Inv L (s.step L l) := by
  cases hjob : s.job with
  | some j =>
    cases l with
    | scan var => exact scan_inv h var
    | transfer answer strerror =>
      simp only [System.step, hjob]
      exact transfer_inv h hjob answer strerror
    | _ =>
      simp only [System.step, hjob]
      exact h
  | none =>
    cases l with
    | scan var => exact scan_inv h var
    | transfer answer strerror =>
      simp only [System.step, hjob]
      exact h
    | write fVal tAddr tWriteTimeOut now =>
      simp only [System.step, hjob]
      exact submit_inv h _
    | force fVal tAddr bForceBitVal tWriteTimeOut now =>
      simp only [System.step, hjob]
      exact submit_inv h _
    | enter mtDrvState =>
      simp only [System.step, hjob]
      refine ⟨⟨h.initialised, h.roInts, h.ioVars, h.flagged, h.owner, h.content⟩, h.pending,
        fun j hj => ?_⟩
      cases hj
    | clean iTimeS bAll =>
      simp only [System.step, hjob]
      exact clean_inv h iTimeS bAll
    | beginWrite iTimeS => exact beginWrite_inv h hjob iTimeS

/-- The value of some force(..., true) request whose flag write has been performed. -/
def OfAnyForce (wrs : List WriteReq) (f : Single) : Prop := ∃ wr ∈ wrs, wr.mfWriteVal = f

/-- The value of the last such request. -/
def OfLastForce (wrs : List WriteReq) (f : Single) : Prop :=
  ∃ wr, wrs.head? = some wr ∧ wr.mfWriteVal = f

/-- A regulator that sees the flag of a variable loads the value of a flagged
request, of any one or of the last, in exactly the runs in which no scan comes
between the two transfers while the registers hold something else. -/
theorem forced_value_iff {s : System Q} (h : s.Initial) (ls : List Label) :
    (Along (System.step L) (LoadsForced L OfAnyForce) s ls ↔
      Along (System.step L) (Settled OfAnyForce) s ls) ∧
    (Along (System.step L) (LoadsForced L OfLastForce) s ls ↔
      Along (System.step L) (Settled OfLastForce) s ls) := by
  have agree : ∀ R : List WriteReq → Single → Prop,
      (∀ wr wrs, wrs.head? = some wr → R wrs wr.mfWriteVal) →
      (Along (System.step L) (LoadsForced L R) s ls ↔
        Along (System.step L) (Settled R) s ls) :=
    fun R hlast => along_congr
      (fun _ l hs => loadsForced_iff_settled hs.toTablesOk hlast l)
      (fun s l hs _ => step_inv s l hs)
      (h.inv (L := L)) ls
  refine ⟨agree OfAnyForce fun wr wrs hhead => ?_, agree OfLastForce fun wr wrs hhead => ?_⟩
  · exact ⟨wr, List.mem_of_mem_head? hhead, rfl⟩
  · exact ⟨wr, hhead, rfl⟩

end Runs

/-- A running master with the configuration of `smallSlave`, and that slave. -/
def smallSystem : System (WriteReq.Queue true) where
  master := { ModbusMasterDrv.fresh true with
    muiNumIOVars := 2, muiNumROInts := 1, mtDrvState := .running, bConnected := true }
  job := none
  slave := smallSlave
  flagged := []
  before _ := none

theorem smallSystem_initial : smallSystem.Initial :=
  ⟨smallSlave_initialised, rfl, rfl, rfl, rfl, fun _ => rfl, rfl⟩

/-- The field variable of `smallSlave`, forced to 5.0. -/
def forceFive : Label := .force 0x40a00000 { uiChannel := 3 } true 1000 0

def scanSeven : Label := .scan
  { muiVarId := 7, miTimeS := 0, mfTrueVal := 0, mfForcedVal := 0, mtAddr := {}, mtQState := .ok
    mbForcedVal := false }

/-- The scan after both transfers loads 5.0. -/
theorem scan_after_transfers :
    Along (System.step floatAbcd) (LoadsForced floatAbcd OfLastForce) smallSystem
      [forceFive, .beginWrite 0, .transfer .done "", .transfer .done "", scanSeven] := by
  refine (forced_value_iff (L := floatAbcd) smallSystem_initial _).2.mpr
    ⟨trivial, trivial, trivial, trivial, ?_, trivial⟩
  intro tAddr hfind _
  obtain rfl : ({ uiChannel := 3 } : IOAddr) = tAddr := Option.some.inj hfind
  exact Or.inl (by decide)

/-- The scan between the transfers loads what the registers held from the start. -/
theorem scan_between_transfers :
    smallSystem.Initial ∧ (∀ p, smallSystem.slave.mpMBmapping.tabRegisters p = 0) ∧
    ¬ Along (System.step floatAbcd) (LoadsForced floatAbcd OfAnyForce) smallSystem
      [forceFive, .beginWrite 0, .transfer .done "", scanSeven] := by
  refine ⟨smallSystem_initial, fun _ => rfl, fun h => ?_⟩
  obtain ⟨wr, hwr, hval⟩ := h.2.2.2.1 { uiChannel := 3 } _ _ rfl rfl (by decide)
  revert wr
  decide

end ForceTransfer
