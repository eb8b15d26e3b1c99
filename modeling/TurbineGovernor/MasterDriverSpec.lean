import TurbineGovernor.MasterDriver

/-!
# What each operation of the master driver can do

One lemma for each method: the fields it may change and what it appends to the
log. The invariants of the driver are derived from these lemmas alone.
-/

namespace MasterDriver
open CommonTypes PriorityQueues RetryLoops TransitionRuns

variable {L : FloatAbcd} {Q : Type}

/-- The callback of an expired or flushed request. -/
def WriteReq.timeOutCall (wr : WriteReq) : Call := .writeTimeOut wr.id wr.mtAddr

/-- State, connection and counters are the same: what serving a cycle leaves alone. -/
structure SameMode (d d' : ModbusMasterDrv Q) : Prop where
  nextCall : d'.nextCall = d.nextCall
  state : d'.mtDrvState = d.mtDrvState
  connected : d'.bConnected = d.bConnected
  drvEnd : d'.mbDrvEnd = d.mbDrvEnd
  destroyed : d'.destroyed = d.destroyed

/-- Requests and log are the same too: what polling leaves alone. -/
structure SameRequests (d d' : ModbusMasterDrv Q) : Prop extends SameMode d d' where
  pending : d'.mPendingWrites = d.mPendingWrites
  calls : d'.calls = d.calls

theorem SameMode.trans {d d' d'' : ModbusMasterDrv Q} (h : SameMode d d') (h' : SameMode d' d'') :
    SameMode d d'' where
  nextCall := h'.nextCall.trans h.nextCall
  state := h'.state.trans h.state
  connected := h'.connected.trans h.connected
  drvEnd := h'.drvEnd.trans h.drvEnd
  destroyed := h'.destroyed.trans h.destroyed

theorem SameRequests.refl (d : ModbusMasterDrv Q) : SameRequests d d :=
  ⟨⟨rfl, rfl, rfl, rfl, rfl⟩, rfl, rfl⟩

theorem SameRequests.trans {d d' d'' : ModbusMasterDrv Q} (h : SameRequests d d')
    (h' : SameRequests d' d'') : SameRequests d d'' where
  toSameMode := h.toSameMode.trans h'.toSameMode
  pending := h'.pending.trans h.pending
  calls := h'.calls.trans h.calls

/-- The tables have the same variables to poll. -/
structure SameTables (d d' : ModbusMasterDrv Q) : Prop where
  field : d'.mFieldVars.length = d.mFieldVars.length
  modbus : d'.mModbusVars.length = d.mModbusVars.length

/-- Neither iterator is past the end of its table. -/
def IteratorsOk (d : ModbusMasterDrv Q) : Prop :=
  d.mFieldIt ≤ d.mFieldVars.length ∧ d.mModbusIt ≤ d.mModbusVars.length

/-- Both iterators are at the end although there is something to poll. -/
def AtCycleEnd (d : ModbusMasterDrv Q) : Prop :=
  d.mFieldIt = d.mFieldVars.length ∧ d.mModbusIt = d.mModbusVars.length ∧
    ¬ (d.mFieldVars = [] ∧ d.mModbusVars = [])

instance (d : ModbusMasterDrv Q) : Decidable (AtCycleEnd d) :=
  inferInstanceAs (Decidable (_ ∧ _ ∧ ¬ (_ ∧ _)))

/-- What a poll of a field variable decodes when every transfer succeeds at once. -/
theorem fetchField_first {b : Bus} {muiNumROInts : BitVec 32} {tAddr : IOAddr} (little : Bool)
    {v t : Fin 4 → BitVec 16} {q : Fin 2 → Bool} {f : Fin 1 → Bool}
    (hv : b.readRegisters 0 (hrAddr (numVar muiNumROInts tAddr)) 4 = some v)
    (ht : b.readInputRegisters 0 (irAddr (numVar muiNumROInts tAddr) muiNumROInts) 4 = some t)
    (hq : b.readInputBits 0 (diAddr (numVar muiNumROInts tAddr)) 2 = some q)
    (hf : b.readBits 0 (coilAddr (numVar muiNumROInts tAddr)) 1 = some f) :
    fetchField L little muiNumROInts b tAddr = some
      { fTrueVal := L.getFloatAbcd (v 0) (v 1), fForcedVal := L.getFloatAbcd (v 2) (v 3)
        iTimeS := getTimeS little t, tqstate := getQState q, bForced := f 0 } := by
  have first : FieldReads.attempt b (numVar muiNumROInts tAddr) muiNumROInts 0 {} =
      ⟨some v, some t, some q, some f⟩ := by
    simp [FieldReads.attempt, hv, ht, hq, hf]
  have loop : retryLoop (fun _ r => (!FieldReads.complete r, r))
      (FieldReads.attempt b (numVar muiNumROInts tAddr) muiNumROInts)
      MAX_TRANSMISSION_TRYS 0 {} = (2, ⟨some v, some t, some q, some f⟩) := by
    rw [MAX_TRANSMISSION_TRYS, retryLoop_step _ (t := {}) rfl, first]
    exact retryLoop_stop _ rfl _
  simp only [fetchField, loop]
  simp [MAX_TRANSMISSION_TRYS]

theorem readLoop_first {n : Nat} {transfer : Nat → Option (Fin n → BitVec 16)}
    (h : (transfer 0).isSome) : readLoop transfer = (1, transfer 0) := by
  obtain ⟨v, hv⟩ := Option.isSome_iff_exists.mp h
  rw [readLoop, MAX_TRANSMISSION_TRYS]
  exact retryLoop_stop _ (by simp [hv]) _

theorem fetchModbus_roInt {bus : Bus} {muiNumROInts : BitVec 32} {tAddr : IOAddr}
    (little : Bool) {u : Fin 2 → BitVec 16} (hro : isROInt muiNumROInts tAddr = true)
    (hu : bus.readInputRegisters 0 (roAddr tAddr) 2 = some u) :
    fetchModbus L little muiNumROInts bus tAddr = some (.roInt (getInt little u)) := by
  have loop : readLoop (fun i => bus.readInputRegisters i (roAddr tAddr) 2) = (1, some u) := by
    rw [readLoop_first (by rw [hu]; rfl), hu]
  simp [fetchModbus, hro, loop, MAX_TRANSMISSION_TRYS]

theorem fetchModbus_current {bus : Bus} {muiNumROInts : BitVec 32} {tAddr : IOAddr}
    (little : Bool) {u : Fin 2 → BitVec 16} (hro : isROInt muiNumROInts tAddr = false)
    (hu : bus.readRegisters 0 (hrAddr (numVar muiNumROInts tAddr)) 2 = some u) :
    fetchModbus L little muiNumROInts bus tAddr =
      some (.current (L.getFloatAbcd (u 0) (u 1))) := by
  have loop : readLoop (fun i => bus.readRegisters i (hrAddr (numVar muiNumROInts tAddr)) 2) =
      (1, some u) := by
    rw [readLoop_first (by rw [hu]; rfl), hu]
  simp [fetchModbus, hro, loop, MAX_TRANSMISSION_TRYS]

namespace ModbusMasterDrv

theorem processReadField_cases (d : ModbusMasterDrv Q) (env : Env) (tAddr : IOAddr)
    (p : FieldData) :
    (fetchField L d.mbArchLittleEnd d.muiNumROInts env.bus tAddr = none ∧
      d.processReadField L env tAddr p = (false, { d with mstrLastError := env.bus.strerror })) ∨
    ∃ r vars changed, fetchField L d.mbArchLittleEnd d.muiNumROInts env.bus tAddr = some r ∧
      vars.length = d.mFieldVars.length ∧
      d.processReadField L env tAddr p =
        (true, { d with mFieldVars := vars, musChangedVars := changed }) := by
  cases h : fetchField L d.mbArchLittleEnd d.muiNumROInts env.bus tAddr with
  | none => exact Or.inl ⟨rfl, by simp only [processReadField, h]⟩
  | some r =>
    refine Or.inr ⟨r, ?_⟩
    by_cases hc : fieldChanged p r = true
    · refine ⟨((d.markField tAddr p).putField r).mFieldVars, insert tAddr d.musChangedVars,
        rfl, by simp [putField, markField], ?_⟩
      simp only [processReadField, h, hc, if_true]
      rfl
    · refine ⟨(d.putField r).mFieldVars, d.musChangedVars, rfl, by simp [putField], ?_⟩
      simp only [processReadField, h, if_neg hc]
      rfl

theorem processReadModbus_cases (d : ModbusMasterDrv Q) (env : Env) (tAddr : IOAddr)
    (p : ModbusData) :
    (fetchModbus L d.mbArchLittleEnd d.muiNumROInts env.bus tAddr = none ∧
      d.processReadModbus L env tAddr p =
        (false, { d with mstrLastError := env.bus.strerror })) ∨
    ∃ r vars changed, fetchModbus L d.mbArchLittleEnd d.muiNumROInts env.bus tAddr = some r ∧
      vars.length = d.mModbusVars.length ∧
      d.processReadModbus L env tAddr p =
        (true, { d with mModbusVars := vars, musChangedVars := changed }) := by
  cases h : fetchModbus L d.mbArchLittleEnd d.muiNumROInts env.bus tAddr with
  | none => exact Or.inl ⟨rfl, by simp only [processReadModbus, h]⟩
  | some r =>
    refine Or.inr ⟨r, ?_⟩
    by_cases hc : modbusChanged p r = true
    · refine ⟨((d.markModbus tAddr p).putModbus env.msSinceEpoch r).mModbusVars,
        insert tAddr d.musChangedVars, rfl, by simp [putModbus, markModbus], ?_⟩
      simp only [processReadModbus, h, hc, if_true]
      rfl
    · refine ⟨(d.putModbus env.msSinceEpoch r).mModbusVars, d.musChangedVars, rfl,
        by simp [putModbus], ?_⟩
      simp only [processReadModbus, h, if_neg hc]
      rfl

/-- At the end of a cycle both iterators return to the beginning, and the answer
is false unless there is nothing to poll. -/
theorem endOfCycle_at_end (d : ModbusMasterDrv Q)
    (h : d.mFieldIt = d.mFieldVars.length ∧ d.mModbusIt = d.mModbusVars.length) :
    d.endOfCycle = (!decide (AtCycleEnd d), { d with
      mbInReadCycle := false, mMillisToReadCycle := DELAY_BETWEEN_READS
      mFieldIt := 0, mModbusIt := 0 }) := by
  have hiff : (0 = d.mFieldVars.length ∧ 0 = d.mModbusVars.length) ↔ ¬ AtCycleEnd d := by
    simp only [AtCycleEnd, h, true_and, not_not, eq_comm (a := 0), List.length_eq_zero_iff]
  simp only [endOfCycle]
  rw [if_pos h]
  by_cases hend : AtCycleEnd d
  · simp only [if_neg (fun hc => hiff.mp hc hend), hend, decide_true, Bool.not_true]
  · simp only [if_pos (hiff.mpr hend), hend, decide_false, Bool.not_false]

theorem endOfCycle_not_at_end (d : ModbusMasterDrv Q)
    (h : ¬ (d.mFieldIt = d.mFieldVars.length ∧ d.mModbusIt = d.mModbusVars.length)) :
    d.endOfCycle = (false, d) := by
  simp only [endOfCycle]
  rw [if_neg h]

/-- The transfers of the variable that is next in the cycle failed. -/
def FetchFails (L : FloatAbcd) (d : ModbusMasterDrv Q) (env : Env) : Prop :=
  (∃ tAddr p, d.mFieldVars[d.mFieldIt]? = some (tAddr, p) ∧
    fetchField L d.mbArchLittleEnd d.muiNumROInts env.bus tAddr = none) ∨
  (d.mFieldVars[d.mFieldIt]? = none ∧ ∃ tAddr p, d.mModbusVars[d.mModbusIt]? = some (tAddr, p) ∧
    fetchModbus L d.mbArchLittleEnd d.muiNumROInts env.bus tAddr = none)

/-- The four outcomes of a polling call: a field variable read, a Modbus
variable read, a failed read, the end of the cycle. -/
theorem processNextRead_cases (d : ModbusMasterDrv Q) (env : Env) (hok : IteratorsOk d) :
    (d.mFieldIt < d.mFieldVars.length ∧ ∃ vars changed, vars.length = d.mFieldVars.length ∧
      d.processNextRead L env = (true, { d with
        mFieldVars := vars, musChangedVars := changed, mFieldIt := d.mFieldIt + 1 })) ∨
    (d.mModbusIt < d.mModbusVars.length ∧ ∃ vars changed, vars.length = d.mModbusVars.length ∧
      d.processNextRead L env = (true, { d with
        mModbusVars := vars, musChangedVars := changed, mModbusIt := d.mModbusIt + 1 })) ∨
    (FetchFails L d env ∧ ¬ AtCycleEnd d ∧
      d.processNextRead L env = (false, { d with mstrLastError := env.bus.strerror })) ∨
    (d.mFieldIt = d.mFieldVars.length ∧ d.mModbusIt = d.mModbusVars.length ∧
      d.processNextRead L env = (!decide (AtCycleEnd d), { d with
        mbInReadCycle := false, mMillisToReadCycle := DELAY_BETWEEN_READS
        mFieldIt := 0, mModbusIt := 0 })) := by
  cases hfield : d.mFieldVars[d.mFieldIt]? with
  | some v =>
    obtain ⟨tAddr, p⟩ := v
    have hlt := (List.getElem?_eq_some_iff.mp hfield).1
    have hne : d.mFieldIt ≠ d.mFieldVars.length := Nat.ne_of_lt hlt
    rcases d.processReadField_cases (L := L) env tAddr p with
      ⟨hfail, h⟩ | ⟨r, vars, changed, _, hlen, h⟩
    · refine Or.inr (Or.inr (Or.inl ⟨Or.inl ⟨tAddr, p, hfield, hfail⟩, fun he => hne he.1, ?_⟩))
      simp only [processNextRead, hfield, h]
      exact endOfCycle_not_at_end _ (fun he => hne he.1)
    · refine Or.inl ⟨hlt, vars, changed, hlen, ?_⟩
      simp only [processNextRead, hfield, h]
  | none =>
    have hend : d.mFieldIt = d.mFieldVars.length :=
      Nat.le_antisymm hok.1 (List.getElem?_eq_none_iff.mp hfield)
    cases hmodbus : d.mModbusVars[d.mModbusIt]? with
    | some v =>
      obtain ⟨tAddr, p⟩ := v
      have hlt := (List.getElem?_eq_some_iff.mp hmodbus).1
      have hne : d.mModbusIt ≠ d.mModbusVars.length := Nat.ne_of_lt hlt
      rcases d.processReadModbus_cases (L := L) env tAddr p with
        ⟨hfail, h⟩ | ⟨r, vars, changed, _, hlen, h⟩
      · refine Or.inr (Or.inr (Or.inl
          ⟨Or.inr ⟨hfield, tAddr, p, hmodbus, hfail⟩, fun he => hne he.2.1, ?_⟩))
        simp only [processNextRead, hfield, hmodbus, h]
        exact endOfCycle_not_at_end _ (fun he => hne he.2)
      · refine Or.inr (Or.inl ⟨hlt, vars, changed, hlen, ?_⟩)
        simp only [processNextRead, hfield, hmodbus, h]
    | none =>
      have hend' : d.mModbusIt = d.mModbusVars.length :=
        Nat.le_antisymm hok.2 (List.getElem?_eq_none_iff.mp hmodbus)
      refine Or.inr (Or.inr (Or.inr ⟨hend, hend', ?_⟩))
      simp only [processNextRead, hfield, hmodbus]
      exact endOfCycle_at_end d ⟨hend, hend'⟩

theorem processNextRead_frame (d : ModbusMasterDrv Q) (env : Env) (hok : IteratorsOk d) :
    SameRequests d (d.processNextRead L env).2 ∧ SameTables d (d.processNextRead L env).2 ∧
    IteratorsOk (d.processNextRead L env).2 := by
  rcases d.processNextRead_cases (L := L) env hok with
    ⟨hlt, vars, changed, hlen, h⟩ | ⟨hlt, vars, changed, hlen, h⟩ | ⟨_, _, h⟩ | ⟨_, _, h⟩
  · rw [h]
    exact ⟨⟨⟨rfl, rfl, rfl, rfl, rfl⟩, rfl, rfl⟩, ⟨hlen, rfl⟩,
      by rw [IteratorsOk, hlen]; exact ⟨hlt, hok.2⟩⟩
  · rw [h]
    exact ⟨⟨⟨rfl, rfl, rfl, rfl, rfl⟩, rfl, rfl⟩, ⟨rfl, hlen⟩,
      by rw [IteratorsOk, hlen]; exact ⟨hok.1, hlt⟩⟩
  · rw [h]
    exact ⟨⟨⟨rfl, rfl, rfl, rfl, rfl⟩, rfl, rfl⟩, ⟨rfl, rfl⟩, hok⟩
  · rw [h]
    exact ⟨⟨⟨rfl, rfl, rfl, rfl, rfl⟩, rfl, rfl⟩, ⟨rfl, rfl⟩, Nat.zero_le _, Nat.zero_le _⟩

section Pending
variable [PriorityQueue Q WriteReq WriteReq.Less]

/-- The loop takes requests off the queue, each one expired or flushed, and
calls `mfWriteTimeOut` for each in that order. -/
theorem cleanLoop_spec (bAll : Bool) (iTimeS : Int) (left : Nat) (d : ModbusMasterDrv Q) :
    ∃ (q : Q) (gone : List WriteReq), cleanLoop bAll iTimeS left d =
        { d with mPendingWrites := q, calls := d.calls ++ gone.map WriteReq.timeOutCall } ∧
      PriorityQueue.elems d.mPendingWrites = (gone : Multiset WriteReq) + PriorityQueue.elems q ∧
      (∀ r ∈ gone, r.expired iTimeS = true ∨ bAll = true) ∧
      ((PriorityQueue.elems d.mPendingWrites).card ≤ left → bAll = true →
        PriorityQueue.elems q = 0) := by
  induction left generalizing d with
  | zero =>
    refine ⟨d.mPendingWrites, [], by simp [cleanLoop], by simp, by simp, ?_⟩
    intro hcard _
    exact Multiset.card_eq_zero.mp (Nat.le_zero.mp hcard)
  | succ left ih =>
    cases htop : PriorityQueue.top d.mPendingWrites with
    | none =>
      refine ⟨d.mPendingWrites, [], by simp [cleanLoop, htop], by simp, by simp, ?_⟩
      intro _ _
      exact (PriorityQueue.top_eq_none _).mp htop
    | some wr =>
      by_cases hgo : (wr.expired iTimeS || bAll) = true
      · obtain ⟨q, gone, heq, helems, hexp, hall⟩ :=
          ih (log { d with mPendingWrites := PriorityQueue.pop d.mPendingWrites }
            (.writeTimeOut wr.id wr.mtAddr))
        refine ⟨q, wr :: gone, ?_, ?_, ?_, ?_⟩
        · simp only [cleanLoop, htop, hgo, if_true, heq]
          simp [log, WriteReq.timeOutCall]
        · rw [PriorityQueue.elems_pop _ _ htop, ← Multiset.cons_coe, Multiset.cons_add]
          exact congrArg (wr ::ₘ ·) helems
        · intro r hr
          rcases List.mem_cons.mp hr with rfl | hr
          · exact (Bool.or_eq_true _ _).mp hgo
          · exact hexp r hr
        · intro hcard hb
          have hpop := card_pop htop
          exact hall (by simp only [log]; omega) hb
      · refine ⟨d.mPendingWrites, [], by simp [cleanLoop, htop, hgo], by simp, by simp, ?_⟩
        intro _ hb
        exact absurd (by simp [hb]) hgo

theorem cleanWriteRequests_spec (d : ModbusMasterDrv Q) (iTimeS : Int) (bAll : Bool) :
    ∃ (q : Q) (gone : List WriteReq), d.cleanWriteRequests iTimeS bAll =
        { d with mPendingWrites := q, calls := d.calls ++ gone.map WriteReq.timeOutCall } ∧
      PriorityQueue.elems d.mPendingWrites = (gone : Multiset WriteReq) + PriorityQueue.elems q ∧
      (∀ r ∈ gone, r.expired iTimeS = true ∨ bAll = true) ∧
      (bAll = true → PriorityQueue.elems q = 0) := by
  obtain ⟨q, gone, heq, helems, hexp, hall⟩ :=
    cleanLoop_spec bAll iTimeS (PriorityQueue.elems d.mPendingWrites).card d
  exact ⟨q, gone, heq, helems, hexp, hall le_rfl⟩

theorem transmit_cases (d : ModbusMasterDrv Q) (env : Env) (wr : WriteReq) :
    d.transmit L env wr = (false,
      { d with calls := d.calls ++ [.transmit wr.id], mstrLastError := env.bus.strerror }) ∨
    d.transmit L env wr = (true,
      { d with mPendingWrites := PriorityQueue.pop d.mPendingWrites
               calls := d.calls ++ [.transmit wr.id, .writeSuccess wr.id wr.mtAddr] }) := by
  unfold transmit
  simp only
  split
  · exact Or.inl rfl
  · apply Or.inr
    simp [log]

theorem processNextWrite_cases (d : ModbusMasterDrv Q) (env : Env) :
    ∃ (q : Q) (gone : List WriteReq), d.cleanWriteRequests env.msSinceEpoch =
        { d with mPendingWrites := q, calls := d.calls ++ gone.map WriteReq.timeOutCall } ∧
      PriorityQueue.elems d.mPendingWrites = (gone : Multiset WriteReq) + PriorityQueue.elems q ∧
      (∀ r ∈ gone, r.expired env.msSinceEpoch = true) ∧
      ((PriorityQueue.top q = none ∧ d.processNextWrite L env = (true,
          { d with mPendingWrites := q, calls := d.calls ++ gone.map WriteReq.timeOutCall })) ∨
        ∃ wr, PriorityQueue.top q = some wr ∧
          (d.processNextWrite L env = (false, { d with
              mPendingWrites := q
              calls := d.calls ++ gone.map WriteReq.timeOutCall ++ [.transmit wr.id]
              mstrLastError := env.bus.strerror }) ∨
            d.processNextWrite L env = (true, { d with
              mPendingWrites := PriorityQueue.pop q
              calls := d.calls ++ gone.map WriteReq.timeOutCall ++
                [.transmit wr.id, .writeSuccess wr.id wr.mtAddr] }))) := by
  obtain ⟨q, gone, heq, helems, hexp, _⟩ := d.cleanWriteRequests_spec env.msSinceEpoch false
  refine ⟨q, gone, heq, helems, fun r hr => (hexp r hr).resolve_right Bool.false_ne_true, ?_⟩
  unfold processNextWrite
  rw [heq]
  cases htop : PriorityQueue.top q with
  | none => exact Or.inl ⟨rfl, by simp only [htop]⟩
  | some wr =>
    refine Or.inr ⟨wr, rfl, ?_⟩
    simp only [htop]
    exact transmit_cases _ env wr

theorem processNextWrite_frame (d : ModbusMasterDrv Q) (env : Env) (hok : IteratorsOk d) :
    SameMode d (d.processNextWrite L env).2 ∧ SameTables d (d.processNextWrite L env).2 ∧
    IteratorsOk (d.processNextWrite L env).2 := by
  obtain ⟨q, gone, _, _, _, ⟨_, h⟩ | ⟨wr, _, h | h⟩⟩ := d.processNextWrite_cases (L := L) env
  all_goals
    rw [h]
    exact ⟨⟨rfl, rfl, rfl, rfl, rfl⟩, ⟨rfl, rfl⟩, hok⟩

/-- A request is refused without a trace but the log entry, or it is pushed. -/
theorem submit_cases (d : ModbusMasterDrv Q) (wr : WriteReq) :
    d.submit wr = (false,
      { d with nextCall := d.nextCall + 1, calls := d.calls ++ [.refused d.nextCall] }) ∨
    (d.mtDrvState ≠ .stopped ∧ d.mtDrvState ≠ .unInit ∧
      d.submit wr = (true,
        { d with
          nextCall := d.nextCall + 1
          mPendingWrites := PriorityQueue.push d.mPendingWrites { wr with id := d.nextCall }
          calls := d.calls ++ [.accepted { wr with id := d.nextCall }] })) := by
  unfold submit
  simp only
  split
  · exact Or.inl rfl
  · split
    · rename_i hstate
      exact Or.inr ⟨hstate.1, hstate.2, rfl⟩
    · exact Or.inl rfl

theorem submit_tables (d : ModbusMasterDrv Q) (wr : WriteReq) : SameTables d (d.submit wr).2 := by
  rcases d.submit_cases wr with heq | ⟨_, _, heq⟩
  · rw [heq]
    exact ⟨rfl, rfl⟩
  · rw [heq]
    exact ⟨rfl, rfl⟩

/-- What serving a cycle never touches. -/
theorem serveCycle_frame (d : ModbusMasterDrv Q) (env : Env) (hok : IteratorsOk d) :
    SameMode d (d.serveCycle L env).2 ∧ SameTables d (d.serveCycle L env).2 ∧
    IteratorsOk (d.serveCycle L env).2 := by
  simp only [serveCycle]
  split
  · split
    · exact ⟨⟨rfl, rfl, rfl, rfl, rfl⟩, ⟨rfl, rfl⟩, hok⟩
    · exact d.processNextWrite_frame env hok
  · split
    · obtain ⟨hsame, htables, hok'⟩ := d.processNextRead_frame (L := L) env hok
      exact ⟨hsame.toSameMode, htables, hok'⟩
    · exact ⟨⟨rfl, rfl, rfl, rfl, rfl⟩, ⟨rfl, rfl⟩, hok⟩

end Pending

theorem closeConnection_eq (d : ModbusMasterDrv Q) :
    d.closeConnection = { d with bConnected := false } := by
  simp only [closeConnection]
  split
  · rfl
  · rename_i h
    cases d
    simp_all

/-- Reading the file only stores configuration values and an error text. -/
theorem loadXMLConfig_frame (d : ModbusMasterDrv Q) (file : Except String (Option MasterXml)) :
    SameRequests d (d.loadXMLConfig file).2 ∧
    (d.loadXMLConfig file).2.mFieldVars = d.mFieldVars ∧
    (d.loadXMLConfig file).2.mModbusVars = d.mModbusVars ∧
    (d.loadXMLConfig file).2.mFieldIt = d.mFieldIt ∧
    (d.loadXMLConfig file).2.mModbusIt = d.mModbusIt := by
  simp only [loadXMLConfig]
  split
  · exact ⟨⟨⟨rfl, rfl, rfl, rfl, rfl⟩, rfl, rfl⟩, rfl, rfl, rfl, rfl⟩
  · exact ⟨.refl d, rfl, rfl, rfl, rfl⟩
  · unfold readXMLConfig
    split
    · exact ⟨.refl d, rfl, rfl, rfl, rfl⟩
    simp only
    split
    · exact ⟨⟨⟨rfl, rfl, rfl, rfl, rfl⟩, rfl, rfl⟩, rfl, rfl, rfl, rfl⟩
    split
    · exact ⟨⟨⟨rfl, rfl, rfl, rfl, rfl⟩, rfl, rfl⟩, rfl, rfl, rfl, rfl⟩
    split <;> exact ⟨⟨⟨rfl, rfl, rfl, rfl, rfl⟩, rfl, rfl⟩, rfl, rfl, rfl, rfl⟩

/-- A failed `init` leaves the iterators where they are, and the tables too
unless the driver was not initialised; a successful one ends stopped with both
iterators at the beginning. -/
theorem init_cases (d : ModbusMasterDrv Q) (file : Except String (Option MasterXml))
    (slaveVars fieldVars : List IOAddr) (newTcp : Bool) (strerror : String) :
    ∃ ok d', d.init file slaveVars fieldVars newTcp strerror = (ok, d') ∧
      ((SameRequests d d' ∧ d'.mFieldIt = d.mFieldIt ∧ d'.mModbusIt = d.mModbusIt ∧
          (d.mtDrvState = .unInit ∨
            d'.mFieldVars = d.mFieldVars ∧ d'.mModbusVars = d.mModbusVars)) ∨
        (d.mtDrvState = .unInit ∧ SameRequests { d with mtDrvState := .stopped } d' ∧
          d'.mFieldIt = 0 ∧ d'.mModbusIt = 0)) := by
  by_cases hstate : d.mtDrvState = .unInit
  · have hload := d.loadXMLConfig_frame file
    simp only [init]
    rw [if_neg (not_not.mpr hstate)]
    cases hcfg : d.loadXMLConfig file with
    | mk ok d1 =>
      rw [hcfg] at hload
      obtain ⟨hsame, hfield, hmodbus, hfieldIt, hmodbusIt⟩ := hload
      cases ok with
      | false => exact ⟨_, _, rfl, Or.inl ⟨hsame, hfieldIt, hmodbusIt, Or.inl hstate⟩⟩
      | true =>
        simp only
        split
        · exact ⟨_, _, rfl, Or.inl ⟨hsame.trans ⟨⟨rfl, rfl, rfl, rfl, rfl⟩, rfl, rfl⟩,
            hfieldIt, hmodbusIt, Or.inl hstate⟩⟩
        split
        · refine ⟨_, _, rfl, Or.inr ⟨hstate, ?_, rfl, rfl⟩⟩
          exact ⟨⟨hsame.nextCall, rfl, hsame.connected, hsame.drvEnd, hsame.destroyed⟩,
            hsame.pending, hsame.calls⟩
        · exact ⟨_, _, rfl, Or.inl ⟨hsame.trans ⟨⟨rfl, rfl, rfl, rfl, rfl⟩, rfl, rfl⟩,
            hfieldIt, hmodbusIt, Or.inl hstate⟩⟩
  · refine ⟨false, { d with mstrLastError := "Driver ya inicializado" }, ?_, Or.inl
      ⟨⟨⟨rfl, rfl, rfl, rfl, rfl⟩, rfl, rfl⟩, rfl, rfl, Or.inr ⟨rfl, rfl⟩⟩⟩
    simp only [init]
    rw [if_pos hstate]

theorem mem_keys_insertAll {D : Type} (skipped : IOAddr → Prop) [DecidablePred skipped] (new : D)
    (addrs : List IOAddr) (vars : List (IOAddr × D)) (tAddr : IOAddr) :
    tAddr ∈ (addrs.foldl (fun vars addr =>
        if skipped addr then vars else insertVar vars addr new) vars).map Prod.fst ↔
      tAddr ∈ vars.map Prod.fst ∨ (tAddr ∈ addrs ∧ ¬ skipped tAddr) := by
  induction addrs generalizing vars with
  | nil => simp
  | cons addr addrs ih =>
    have hone : tAddr ∈ (insertVar vars addr new).map Prod.fst ↔
        tAddr ∈ vars.map Prod.fst ∨ tAddr = addr := by
      simp only [insertVar]
      split
      · rename_i hmem
        constructor
        · exact Or.inl
        · rintro (h | rfl)
          · exact h
          · exact hmem
      · simp
    rw [List.foldl_cons, ih]
    by_cases hskip : skipped addr
    · rw [if_pos hskip, List.mem_cons]
      constructor
      · rintro (h | ⟨hmem, hnot⟩)
        · exact Or.inl h
        · exact Or.inr ⟨Or.inr hmem, hnot⟩
      · rintro (h | ⟨rfl | hmem, hnot⟩)
        · exact Or.inl h
        · exact absurd hskip hnot
        · exact Or.inr ⟨hmem, hnot⟩
    · rw [if_neg hskip, hone, List.mem_cons]
      constructor
      · rintro ((h | rfl) | ⟨hmem, hnot⟩)
        · exact Or.inl h
        · exact Or.inr ⟨Or.inl rfl, hskip⟩
        · exact Or.inr ⟨Or.inr hmem, hnot⟩
      · rintro (h | ⟨rfl | hmem, hnot⟩)
        · exact Or.inl (Or.inl h)
        · exact Or.inl (Or.inr rfl)
        · exact Or.inr ⟨hmem, hnot⟩

/-- The addresses that the driver polls, as naturals: channels out of range are
left out. -/
theorem mem_insertVars (d : ModbusMasterDrv Q) (slaveVars fieldVars : List IOAddr)
    (tAddr : IOAddr) :
    (tAddr ∈ (d.insertVars slaveVars fieldVars).mModbusVars.map Prod.fst ↔
      tAddr ∈ d.mModbusVars.map Prod.fst ∨ (tAddr ∈ slaveVars ∧
        1 ≤ tAddr.uiChannel.toNat ∧
        tAddr.uiChannel.toNat ≤ (d.muiNumIOVars + d.muiNumROInts).toNat)) ∧
    (tAddr ∈ (d.insertVars slaveVars fieldVars).mFieldVars.map Prod.fst ↔
      tAddr ∈ d.mFieldVars.map Prod.fst ∨ (tAddr ∈ fieldVars ∧
        d.muiNumROInts.toNat < tAddr.uiChannel.toNat ∧
        tAddr.uiChannel.toNat ≤ (d.muiNumIOVars + d.muiNumROInts).toNat)) := by
  have hwide : (tAddr.uiChannel.setWidth 32).toNat = tAddr.uiChannel.toNat := by
    rw [BitVec.toNat_setWidth, Nat.mod_eq_of_lt (by omega)]
  have hone : (1#32).toNat = 1 := rfl
  constructor
  · refine (mem_keys_insertAll (fun addr => addr.uiChannel.setWidth 32 < 1#32 ∨
      addr.uiChannel.setWidth 32 > d.muiNumIOVars + d.muiNumROInts) _ slaveVars d.mModbusVars
      tAddr).trans ?_
    refine or_congr Iff.rfl (and_congr Iff.rfl ?_)
    rw [not_or, gt_iff_lt, BitVec.lt_def, BitVec.lt_def, hwide, hone]
    omega
  · refine (mem_keys_insertAll (fun addr => addr.uiChannel.setWidth 32 ≤ d.muiNumROInts ∨
      addr.uiChannel.setWidth 32 > d.muiNumIOVars + d.muiNumROInts) _ fieldVars d.mFieldVars
      tAddr).trans ?_
    refine or_congr Iff.rfl (and_congr Iff.rfl ?_)
    rw [not_or, gt_iff_lt, BitVec.lt_def, BitVec.le_def, hwide]
    omega

section Loop
variable [PriorityQueue Q WriteReq WriteReq.Less]

/-- Log entries that concern no request. -/
def ConnectionCall (c : Call) : Prop := c = .comError ∨ c = .recoveredFromError

/-- A turn waits, serves a cycle, changes the connection or the state only, or
fails to reconnect and then drops expired requests. -/
theorem driverLoop_cases (d : ModbusMasterDrv Q) (env : Env) :
    ((d.mtDrvState = .stopped ∨ d.mtDrvState = .unInit) ∧ d.driverLoop L env = d) ∨
    (d.mtDrvState = .running ∧ d.bConnected = true ∧ d.driverLoop L env =
      { ((d.updateCycles env.timePoint).serveCycle L env).2 with
        mtDrvState :=
          if ((d.updateCycles env.timePoint).serveCycle L env).1 = true
          then ((d.updateCycles env.timePoint).serveCycle L env).2.mtDrvState
          else .comError }) ∨
    (¬ (d.mtDrvState = .running ∧ d.bConnected = true) ∧
      ∃ st conn errors text extra, (st = .running ∨ st = .comError) ∧
        (∀ c ∈ extra, ConnectionCall c) ∧ d.driverLoop L env =
        { d with mtDrvState := st, bConnected := conn, uiComErrors := errors
                 mstrLastError := text, calls := d.calls ++ extra }) ∨
    (d.mtDrvState = .comError ∧ ∃ errors text extra, (∀ c ∈ extra, ConnectionCall c) ∧
      d.driverLoop L env = cleanWriteRequests
        { d with uiComErrors := errors, mstrLastError := text, calls := d.calls ++ extra }
        env.msSinceEpoch) := by
  cases hstate : d.mtDrvState with
  | stopped => exact Or.inl ⟨Or.inl rfl, by simp only [driverLoop, hstate]⟩
  | unInit => exact Or.inl ⟨Or.inr rfl, by simp only [driverLoop, hstate]⟩
  | running =>
    cases hconn : d.bConnected with
    | true =>
      refine Or.inr (Or.inl ⟨rfl, rfl, ?_⟩)
      simp only [driverLoop, hstate, runningTurn, hconn, if_true]
      cases hserve : (d.updateCycles env.timePoint).serveCycle L env with
      | mk ok d' =>
        cases ok with
        | true => rfl
        | false => rfl
    | false =>
      refine Or.inr (Or.inr (Or.inl ?_))
      cases hc : env.connects with
      | true =>
        refine ⟨by simp, .running, true, 0, d.mstrLastError, [], Or.inl rfl, by simp, ?_⟩
        simp [driverLoop, hstate, runningTurn, createConnection, hconn, hc]
      | false =>
        refine ⟨by simp, .comError, false, d.uiComErrors, env.bus.strerror, [], Or.inr rfl,
          by simp, ?_⟩
        simp [driverLoop, hstate, runningTurn, createConnection, hconn, hc]
  | comError =>
    cases hconn : d.bConnected with
    | true =>
      refine Or.inr (Or.inr (Or.inl
        ⟨by simp, .comError, false, d.uiComErrors, d.mstrLastError, [], Or.inr rfl, by simp, ?_⟩))
      simp [driverLoop, hstate, comErrorTurn, closeConnection, hconn]
    | false =>
      cases hc : env.connects with
      | true =>
        refine Or.inr (Or.inr (Or.inl ⟨by simp, .running, true, 0, d.mstrLastError,
          [.recoveredFromError], Or.inl rfl, by simp [ConnectionCall], ?_⟩))
        simp [driverLoop, hstate, comErrorTurn, createConnection, hconn, hc, log]
      | false =>
        refine Or.inr (Or.inr (Or.inr ⟨rfl, min (d.uiComErrors + 1) MAX_COM_ERROR_TRYS,
          env.bus.strerror, if d.uiComErrors = 0 then [.comError] else [], ?_, ?_⟩))
        · intro c hcall
          split at hcall
          · exact Or.inl (List.mem_singleton.mp hcall)
          · cases hcall
        · simp only [driverLoop, hstate, comErrorTurn, createConnection, hconn, hc,
            Bool.false_eq_true, if_false]
          split
          · rfl
          · simp
  | varError =>
    refine Or.inr (Or.inr (Or.inl ⟨by simp, .comError, d.bConnected, d.uiComErrors,
      d.mstrLastError, [], Or.inr rfl, by simp, ?_⟩))
    simp [driverLoop, hstate]

/-- The driver thread never initialises, stops or closes the driver. -/
theorem driverLoop_frame (d : ModbusMasterDrv Q) (env : Env) (hok : IteratorsOk d) :
    IteratorsOk (d.driverLoop L env) ∧
    (d.driverLoop L env).destroyed = d.destroyed ∧
    (d.driverLoop L env).mbDrvEnd = d.mbDrvEnd ∧
    ((d.driverLoop L env).mtDrvState = .stopped ∨ (d.driverLoop L env).mtDrvState = .unInit →
      d.driverLoop L env = d) := by
  rcases d.driverLoop_cases (L := L) env with
    ⟨_, h⟩ | ⟨hstate, _, h⟩ | ⟨_, st, _, _, _, _, hst, _, h⟩ | ⟨hstate, errors, text, extra, _, h⟩
  · rw [h]
    exact ⟨hok, rfl, rfl, fun _ => rfl⟩
  · obtain ⟨hsame, _, hok'⟩ :=
      (d.updateCycles env.timePoint).serveCycle_frame (L := L) env hok
    have hrun := hsame.state.trans hstate
    rw [h]
    refine ⟨hok', hsame.destroyed, hsame.drvEnd, fun hidle => ?_⟩
    simp only [hrun] at hidle
    split at hidle <;> rcases hidle with hidle | hidle <;> cases hidle
  · rw [h]
    refine ⟨hok, rfl, rfl, fun hidle => ?_⟩
    rcases hst with rfl | rfl <;> rcases hidle with hidle | hidle <;> cases hidle
  · obtain ⟨q, gone, heq, _⟩ := cleanWriteRequests_spec { d with
      uiComErrors := errors, mstrLastError := text, calls := d.calls ++ extra }
      env.msSinceEpoch false
    rw [h, heq]
    refine ⟨hok, rfl, rfl, fun hidle => ?_⟩
    simp only [hstate] at hidle
    rcases hidle with hidle | hidle <;> cases hidle

end Loop

/-- What holds of the iterators and the flags in every reachable state. -/
structure WellFormed (d : ModbusMasterDrv Q) : Prop where
  iterators : IteratorsOk d
  unInit : d.mtDrvState = .unInit → d.mFieldIt = 0 ∧ d.mModbusIt = 0
  destroyed : d.destroyed = true → d.mbDrvEnd = true ∧ d.bConnected = false

theorem WellFormed.init {d : ModbusMasterDrv Q} (h : WellFormed d)
    (file : Except String (Option MasterXml)) (slaveVars fieldVars : List IOAddr) (newTcp : Bool)
    (strerror : String) : WellFormed (d.init file slaveVars fieldVars newTcp strerror).2 := by
  obtain ⟨ok, d', heq, hcases⟩ := d.init_cases file slaveVars fieldVars newTcp strerror
  rw [heq]
  rcases hcases with ⟨hsame, hf, hm, htables⟩ | ⟨hun, hsame, hf, hm⟩
  · refine ⟨?_, fun hun => ?_, fun hd => ?_⟩
    · rcases htables with hun | ⟨hfield, hmodbus⟩
      · obtain ⟨hf0, hm0⟩ := h.unInit hun
        rw [IteratorsOk, hf, hm, hf0, hm0]
        exact ⟨Nat.zero_le _, Nat.zero_le _⟩
      · rw [IteratorsOk, hf, hm, hfield, hmodbus]
        exact h.iterators
    · rw [hf, hm]
      exact h.unInit (hsame.state ▸ hun)
    · rw [hsame.drvEnd, hsame.connected]
      exact h.destroyed (hsame.destroyed ▸ hd)
  · refine ⟨?_, fun _ => ⟨hf, hm⟩, fun hd => ?_⟩
    · rw [IteratorsOk, hf, hm]
      exact ⟨Nat.zero_le _, Nat.zero_le _⟩
    · rw [hsame.drvEnd, hsame.connected]
      exact h.destroyed (hsame.destroyed ▸ hd)

theorem guarded {P : ModbusMasterDrv Q → Prop} {c : Prop} [Decidable c]
    {d d' : ModbusMasterDrv Q} (h : P d) (h' : ¬ c → P d') : P (if c then d else d') := by
  split
  · exact h
  · rename_i hc
    exact h' hc

section Invariant
variable [PriorityQueue Q WriteReq WriteReq.Less]

/-- A property that every method and every turn of the thread keeps. -/
structure Kept (L : FloatAbcd) (P : ModbusMasterDrv Q → Prop) : Prop where
  init : ∀ d file slaveVars fieldVars newTcp strerror, P d →
    P (d.init file slaveVars fieldVars newTcp strerror).2
  start : ∀ d now, P d → P (d.start now).2
  stop : ∀ d now, P d → P (d.stop now).2
  close : ∀ d now, P d → P (d.close now).2
  submit : ∀ d wr, P d → d.mbDrvEnd = false → P (d.submit wr).2
  getChangedVars : ∀ d, P d → P d.getChangedVars.2
  driverLoop : ∀ d env, P d → d.destroyed = false → P (d.driverLoop L env)
  beginDestructor : ∀ d, P d → P { d with mbDrvEnd := true }
  finishDestructor : ∀ d now, P d → d.mbDrvEnd = true → P (d.finishDestructor now)

namespace Kept

theorem step {P : ModbusMasterDrv Q → Prop} (kept : Kept L P) (d : ModbusMasterDrv Q)
    (op : Op) (h : P d) : P (d.step L op) := by
  cases op with
  | init file slaveVars fieldVars newTcp strerror =>
    exact guarded h (fun _ => kept.init d file slaveVars fieldVars newTcp strerror h)
  | start now => exact guarded h (fun _ => kept.start d now h)
  | stop now => exact guarded h (fun _ => kept.stop d now h)
  | close now => exact guarded h (fun _ => kept.close d now h)
  | write fVal tAddr tWriteTimeOut now =>
    exact guarded h (fun hend => kept.submit d _ h (eq_false_of_ne_true hend))
  | force fVal tAddr bForceBitVal tWriteTimeOut now =>
    exact guarded h (fun hend => kept.submit d _ h (eq_false_of_ne_true hend))
  | getChangedVars => exact guarded h (fun _ => kept.getChangedVars d h)
  | turn env => exact guarded h (fun hd => kept.driverLoop d env h (eq_false_of_ne_true hd))
  | beginDestructor => exact kept.beginDestructor d h
  | finishDestructor now =>
    simp only [ModbusMasterDrv.step]
    split
    · rename_i hend
      exact kept.finishDestructor d now h hend.1
    · exact h

theorem run {P : ModbusMasterDrv Q → Prop} (kept : Kept L P) {le : Bool} (initial : P (fresh le))
    (ops : List Op) : P (run (ModbusMasterDrv.step L) (fresh le) ops) :=
  run_invariant' kept.step initial ops

end Kept

theorem WellFormed.driverLoop {d : ModbusMasterDrv Q} (h : WellFormed d)
    (hd : d.destroyed = false) (env : Env) : WellFormed (d.driverLoop L env) := by
  obtain ⟨hok, hdestroyed, _, hidle⟩ := d.driverLoop_frame (L := L) env h.iterators
  refine ⟨hok, fun hstate => ?_, fun hd' => ?_⟩
  · have hsame := hidle (Or.inr hstate)
    rw [hsame] at hstate ⊢
    exact h.unInit hstate
  · rw [hdestroyed, hd] at hd'
    cases hd'

theorem wellFormed_kept : Kept L (WellFormed : ModbusMasterDrv Q → Prop) where
  init _ file slaveVars fieldVars newTcp strerror h :=
    h.init file slaveVars fieldVars newTcp strerror
  start d now h := by
    simp only [ModbusMasterDrv.start]
    split
    · exact h
    split
    · exact ⟨h.iterators, (fun hun => by cases hun), h.destroyed⟩
    · exact h
  stop d now h := by
    simp only [ModbusMasterDrv.stop]
    split
    · exact h
    split
    · exact h
    · obtain ⟨q, gone, heq, _⟩ := d.cleanWriteRequests_spec now true
      rw [heq, closeConnection_eq]
      exact ⟨h.iterators, (fun hun => by cases hun), fun hd => ⟨(h.destroyed hd).1, rfl⟩⟩
  close d now h := by
    simp only [ModbusMasterDrv.close]
    split
    · exact h
    · obtain ⟨q, gone, heq, _⟩ :=
        cleanWriteRequests_spec { d with mtDrvState := .unInit } now true
      simp only [heq, closeConnection_eq]
      exact ⟨⟨le_rfl, le_rfl⟩, fun _ => ⟨rfl, rfl⟩, fun hd => ⟨(h.destroyed hd).1, rfl⟩⟩
  submit d wr h _ := by
    rcases d.submit_cases wr with heq | ⟨_, _, heq⟩
    · rw [heq]
      exact ⟨h.iterators, h.unInit, h.destroyed⟩
    · rw [heq]
      exact ⟨h.iterators, h.unInit, h.destroyed⟩
  getChangedVars d h := ⟨h.iterators, h.unInit, h.destroyed⟩
  driverLoop d env h hd := h.driverLoop hd env
  beginDestructor d h := ⟨h.iterators, h.unInit, fun hd => ⟨rfl, (h.destroyed hd).2⟩⟩
  finishDestructor d now h hend := by
    obtain ⟨q, gone, heq, _⟩ := d.cleanWriteRequests_spec now true
    simp only [ModbusMasterDrv.finishDestructor]
    rw [heq, closeConnection_eq]
    exact ⟨⟨le_rfl, le_rfl⟩, fun _ => ⟨rfl, rfl⟩, fun _ => ⟨hend, rfl⟩⟩

theorem run_wellFormed (le : Bool) (ops : List Op) :
    WellFormed (run (ModbusMasterDrv.step L) (fresh le : ModbusMasterDrv Q) ops) :=
  wellFormed_kept.run ⟨⟨le_rfl, le_rfl⟩, fun _ => ⟨rfl, rfl⟩, fun h => by cases h⟩ ops

end Invariant

end ModbusMasterDrv

end MasterDriver
