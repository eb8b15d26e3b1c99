import TurbineGovernor.MasterDriverSpec

/-!
# Polling over undisturbed connections

While every transfer succeeds at once, the only thing that can take a connected
and running driver to `COMError` is the polling call that finishes a cycle: it
answers false whenever there is a variable to poll.
-/

namespace MasterPolling
open CommonTypes PriorityQueues RetryLoops TransitionRuns MasterDriver

variable {L : FloatAbcd} {Q : Type}

/-- Every call of the library succeeds on its first attempt. -/
structure Healthy (env : Env) : Prop where
  connects : env.connects = true
  readRegisters : ∀ i a n, (env.bus.readRegisters i a n).isSome
  readInputRegisters : ∀ i a n, (env.bus.readInputRegisters i a n).isSome
  readInputBits : ∀ i a n, (env.bus.readInputBits i a n).isSome
  readBits : ∀ i a n, (env.bus.readBits i a n).isSome
  writeBit : ∀ i a b, env.bus.writeBit i a b = .done
  writeRegisters : ∀ i a v, env.bus.writeRegisters i a v = .done

/-- A step of a run without failures in which nobody stops, closes or destroys
the driver. -/
def Undisturbed : Op → Prop
  | .turn env => Healthy env
  | .stop _ => False
  | .close _ => False
  | .beginDestructor => False
  | .finishDestructor _ => False
  | _ => True

/-- Connected and running. -/
def Polling (d : ModbusMasterDrv Q) : Prop := d.mtDrvState = .running ∧ d.bConnected = true

/-- The step is a turn that polls, with both iterators at the end of tables that
are not both empty. -/
def ClosesCycle (d : ModbusMasterDrv Q) : Op → Prop
  | .turn env => (d.updateCycles env.timePoint).mbInWriteCycle = false ∧
      (d.updateCycles env.timePoint).mbInReadCycle = true ∧ AtCycleEnd d
  | _ => False

theorem fetchField_healthy {env : Env} (h : Healthy env) (little : Bool)
    (muiNumROInts : BitVec 32) (tAddr : IOAddr) :
    ∃ r, fetchField L little muiNumROInts env.bus tAddr = some r := by
  let uiNumVar := numVar muiNumROInts tAddr
  obtain ⟨v, hv⟩ := Option.isSome_iff_exists.mp (h.readRegisters 0 (hrAddr uiNumVar) 4)
  obtain ⟨t, ht⟩ := Option.isSome_iff_exists.mp
    (h.readInputRegisters 0 (irAddr uiNumVar muiNumROInts) 4)
  obtain ⟨q, hq⟩ := Option.isSome_iff_exists.mp (h.readInputBits 0 (diAddr uiNumVar) 2)
  obtain ⟨f, hf⟩ := Option.isSome_iff_exists.mp (h.readBits 0 (coilAddr uiNumVar) 1)
  exact ⟨_, fetchField_first little hv ht hq hf⟩

theorem fetchModbus_healthy {env : Env} (h : Healthy env) (little : Bool)
    (muiNumROInts : BitVec 32) (tAddr : IOAddr) :
    ∃ r, fetchModbus L little muiNumROInts env.bus tAddr = some r := by
  cases hro : isROInt muiNumROInts tAddr with
  | true =>
    obtain ⟨u, hu⟩ := Option.isSome_iff_exists.mp (h.readInputRegisters 0 (roAddr tAddr) 2)
    exact ⟨_, fetchModbus_roInt little hro hu⟩
  | false =>
    obtain ⟨u, hu⟩ := Option.isSome_iff_exists.mp
      (h.readRegisters 0 (hrAddr (numVar muiNumROInts tAddr)) 2)
    exact ⟨_, fetchModbus_current little hro hu⟩

theorem not_fetchFails {env : Env} (h : Healthy env) (d : ModbusMasterDrv Q) :
    ¬ ModbusMasterDrv.FetchFails L d env := by
  rintro (⟨tAddr, _, _, hfail⟩ | ⟨_, tAddr, _, _, hfail⟩)
  · obtain ⟨r, hr⟩ := fetchField_healthy (L := L) h d.mbArchLittleEnd d.muiNumROInts tAddr
    rw [hr] at hfail
    cases hfail
  · obtain ⟨r, hr⟩ := fetchModbus_healthy (L := L) h d.mbArchLittleEnd d.muiNumROInts tAddr
    rw [hr] at hfail
    cases hfail

/-- Over a healthy connection a polling call fails exactly at the end of a cycle. -/
theorem nextRead_true_iff {env : Env} (h : Healthy env) {d : ModbusMasterDrv Q}
    (hok : IteratorsOk d) : (d.processNextRead L env).1 = true ↔ ¬ AtCycleEnd d := by
  rcases d.processNextRead_cases (L := L) env hok with
    ⟨hlt, _, _, _, heq⟩ | ⟨hlt, _, _, _, heq⟩ | ⟨hfail, _, _⟩ | ⟨_, _, heq⟩
  · have hne : ¬ AtCycleEnd d := fun he => Nat.ne_of_lt hlt he.1
    simp [heq, hne]
  · have hne : ¬ AtCycleEnd d := fun he => Nat.ne_of_lt hlt he.2.1
    simp [heq, hne]
  · exact absurd hfail (not_fetchFails h d)
  · simp [heq]

/-- A polling call that answers false had a failing transfer, unless it closes a cycle. -/
theorem false_only_on_failure_iff {d : ModbusMasterDrv Q} (hok : IteratorsOk d) (env : Env) :
    ((d.processNextRead L env).1 = false → d.FetchFails L env) ↔ ¬ AtCycleEnd d := by
  rcases d.processNextRead_cases (L := L) env hok with
    ⟨hlt, _, _, _, heq⟩ | ⟨hlt, _, _, _, heq⟩ | ⟨hfail, hnot, _⟩ | ⟨hf, hm, heq⟩
  · rw [heq]
    exact ⟨fun _ he => Nat.ne_of_lt hlt he.1, fun _ h => by cases h⟩
  · rw [heq]
    exact ⟨fun _ he => Nat.ne_of_lt hlt he.2.1, fun _ h => by cases h⟩
  · exact ⟨fun _ => hnot, fun _ _ => hfail⟩
  · have hnot : ¬ d.FetchFails L env := by
      rintro (⟨_, _, hget, _⟩ | ⟨_, _, _, hget, _⟩)
      · rw [hf, List.getElem?_length] at hget
        cases hget
      · rw [hm, List.getElem?_length] at hget
        cases hget
    rw [heq]
    constructor
    · intro h he
      exact hnot (h (by simp [he]))
    · intro he h
      simp [he] at h

/-- A transfer that succeeds at once leaves nothing to retry. -/
theorem attempt_healthy {env : Env} (h : Healthy env) (muiNumROInts : BitVec 32)
    (wr : WriteReq) (n : Nat) (p : WriteProgress) :
    (wr.attempt L env.bus muiNumROInts n p).unfinished = false := by
  cases hf : p.bForced <;> cases hw : p.bWriteVal <;>
    simp [WriteReq.attempt, WriteProgress.unfinished, hf, hw, h.writeBit, h.writeRegisters,
      Transfer.succeeded]

theorem Polling.ne_comError {d : ModbusMasterDrv Q} (h : Polling d) : d.mtDrvState ≠ .comError := by
  rw [h.1]
  exact fun hc => by cases hc

theorem live_of_polling {d : ModbusMasterDrv Q} (hwf : d.WellFormed) (hpoll : Polling d) :
    d.destroyed = false := by
  by_contra hd
  have := (hwf.destroyed (eq_true_of_ne_false hd)).2
  rw [hpoll.2] at this
  cases this

section Steps
variable [PriorityQueue Q WriteReq WriteReq.Less]

theorem transmit_healthy {env : Env} (h : Healthy env) (d : ModbusMasterDrv Q) (wr : WriteReq) :
    (d.transmit L env wr).1 = true := by
  have count : (retryLoop (fun _ p => (WriteProgress.unfinished p, p))
      (wr.attempt L env.bus d.muiNumROInts) MAX_TRANSMISSION_TRYS 0
      wr.initialProgress).1 ≤ 2 := by
    rw [MAX_TRANSMISSION_TRYS]
    cases hu : wr.initialProgress.unfinished with
    | false => rw [retryLoop_stop (t := wr.initialProgress) _ (by rw [hu])]; omega
    | true =>
      rw [retryLoop_step (t := wr.initialProgress) _ (by rw [hu]),
        retryLoop_stop (t := wr.attempt L env.bus d.muiNumROInts 0 wr.initialProgress) _
          (by rw [attempt_healthy h])]
  have below : ¬ (retryLoop (fun _ p => (WriteProgress.unfinished p, p))
      (wr.attempt L env.bus d.muiNumROInts) MAX_TRANSMISSION_TRYS 0
      wr.initialProgress).1 ≥ MAX_TRANSMISSION_TRYS + 1 := by
    simp only [MAX_TRANSMISSION_TRYS] at count ⊢
    omega
  simp only [ModbusMasterDrv.transmit, if_neg below]

theorem nextWrite_healthy {env : Env} (h : Healthy env) (d : ModbusMasterDrv Q) :
    ∃ (q : Q) (calls : List Call), d.processNextWrite L env =
        (true, { d with mPendingWrites := q, calls := calls }) ∧
      (PriorityQueue.top d.mPendingWrites ≠ none →
        (PriorityQueue.elems q).card < (PriorityQueue.elems d.mPendingWrites).card) := by
  obtain ⟨q, gone, heq, helems, _, _⟩ := d.cleanWriteRequests_spec env.msSinceEpoch false
  have hcard : (PriorityQueue.elems d.mPendingWrites).card =
      gone.length + (PriorityQueue.elems q).card := by
    rw [helems, Multiset.card_add, Multiset.coe_card]
  unfold ModbusMasterDrv.processNextWrite
  rw [heq]
  cases htop : PriorityQueue.top q with
  | none =>
    refine ⟨q, d.calls ++ gone.map WriteReq.timeOutCall, by simp only [htop], ?_⟩
    intro hne
    have hzero := (PriorityQueue.top_eq_none q).mp htop
    have hpos : (PriorityQueue.elems d.mPendingWrites).card ≠ 0 := by
      rw [Ne, Multiset.card_eq_zero, ← PriorityQueue.top_eq_none]
      exact hne
    rw [hzero, Multiset.card_zero]
    omega
  | some wr =>
    simp only [htop]
    have hok := transmit_healthy (L := L) h { d with
      mPendingWrites := q, calls := d.calls ++ gone.map WriteReq.timeOutCall } wr
    rcases ModbusMasterDrv.transmit_cases (L := L) { d with
      mPendingWrites := q, calls := d.calls ++ gone.map WriteReq.timeOutCall } env wr with
      heq' | heq'
    · rw [heq'] at hok
      cases hok
    · refine ⟨_, _, heq', ?_⟩
      intro _
      have := card_pop htop
      simp only
      omega

/-- Over a healthy connection the only failing cycle is a polling call at the end. -/
theorem serveCycle_healthy {env : Env} (h : Healthy env) {d : ModbusMasterDrv Q}
    (hok : IteratorsOk d) : (d.serveCycle L env).1 = true ↔
      ¬ (d.mbInWriteCycle = false ∧ d.mbInReadCycle = true ∧ AtCycleEnd d) := by
  simp only [ModbusMasterDrv.serveCycle]
  cases hw : d.mbInWriteCycle with
  | true =>
    cases htop : PriorityQueue.top d.mPendingWrites with
    | none => simp
    | some wr =>
      obtain ⟨q, calls, heq, _⟩ := nextWrite_healthy (L := L) h d
      simp [heq]
  | false =>
    cases hr : d.mbInReadCycle with
    | false => simp
    | true =>
      simp only [Bool.false_eq_true, if_false, if_true, true_and]
      exact nextRead_true_iff h hok

/-- A turn of a connected and running driver serves a cycle. -/
theorem turn_polling {d : ModbusMasterDrv Q} (hwf : d.WellFormed) (hpoll : Polling d)
    (env : Env) : d.step L (.turn env) =
      { ((d.updateCycles env.timePoint).serveCycle L env).2 with
        mtDrvState :=
          if ((d.updateCycles env.timePoint).serveCycle L env).1 = true then .running
          else .comError } := by
  obtain ⟨hsame, _⟩ :=
    (d.updateCycles env.timePoint).serveCycle_frame (L := L) env hwf.iterators
  have hrun := hsame.state.trans hpoll.1
  simp only [ModbusMasterDrv.step, live_of_polling hwf hpoll, Bool.false_eq_true, if_false]
  rcases d.driverLoop_cases (L := L) env with
    ⟨hst, _⟩ | ⟨_, _, heq⟩ | ⟨hnot, _⟩ | ⟨hst, _⟩
  · rw [hpoll.1] at hst
    rcases hst with hst | hst <;> cases hst
  · rw [heq, hrun]
  · exact absurd hpoll hnot
  · rw [hpoll.1] at hst
    cases hst

/-- Over a healthy connection a turn keeps the connection, and it ends in
`COMError` exactly when it closes a read cycle. -/
theorem turn_healthy {env : Env} (h : Healthy env) {d : ModbusMasterDrv Q}
    (hwf : d.WellFormed) (hpoll : Polling d) :
    (d.step L (.turn env)).bConnected = true ∧
    ((d.step L (.turn env)).mtDrvState = .running ∧ ¬ ClosesCycle d (.turn env) ∨
      (d.step L (.turn env)).mtDrvState = .comError ∧ ClosesCycle d (.turn env)) := by
  have hserve := serveCycle_healthy (L := L) h
    (d := d.updateCycles env.timePoint) hwf.iterators
  obtain ⟨hsame, _⟩ :=
    (d.updateCycles env.timePoint).serveCycle_frame (L := L) env hwf.iterators
  rw [turn_polling hwf hpoll]
  refine ⟨hsame.connected.trans hpoll.2, ?_⟩
  by_cases hok : ((d.updateCycles env.timePoint).serveCycle L env).1 = true
  · exact Or.inl ⟨if_pos hok, hserve.mp hok⟩
  · exact Or.inr ⟨if_neg hok, not_not.mp (fun hc => hok (hserve.mpr hc))⟩

theorem submit_polling {d : ModbusMasterDrv Q} (hpoll : Polling d) (wr : WriteReq) :
    Polling (d.submit wr).2 := by
  rcases d.submit_cases wr with heq | ⟨_, _, heq⟩
  · rw [heq]
    exact hpoll
  · rw [heq]
    exact hpoll

/-- Calls of the interface that do not stop the driver leave a polling driver so. -/
theorem call_polling {d : ModbusMasterDrv Q} (hpoll : Polling d) {op : Op}
    (hund : Undisturbed op) (hcall : ∀ env, op ≠ .turn env) : Polling (d.step L op) := by
  cases op with
  | turn env => exact absurd rfl (hcall env)
  | stop now => exact hund.elim
  | close now => exact hund.elim
  | beginDestructor => exact hund.elim
  | finishDestructor now => exact hund.elim
  | getChangedVars => exact ModbusMasterDrv.guarded hpoll (fun _ => hpoll)
  | write fVal tAddr tWriteTimeOut now =>
    exact ModbusMasterDrv.guarded hpoll (fun _ => submit_polling hpoll _)
  | force fVal tAddr bForceBitVal tWriteTimeOut now =>
    exact ModbusMasterDrv.guarded hpoll (fun _ => submit_polling hpoll _)
  | start now =>
    refine ModbusMasterDrv.guarded hpoll (fun _ => ?_)
    simp [ModbusMasterDrv.start, hpoll.1, hpoll]
  | init file slaveVars fieldVars newTcp strerror =>
    refine ModbusMasterDrv.guarded hpoll (fun _ => ?_)
    have hne : d.mtDrvState ≠ .unInit := by rw [hpoll.1]; exact fun h => by cases h
    simp only [ModbusMasterDrv.init]
    rw [if_pos hne]
    exact hpoll

theorem undisturbed_step {d : ModbusMasterDrv Q} (hwf : d.WellFormed) (hpoll : Polling d)
    {op : Op} (hund : Undisturbed op) :
    (d.step L op).bConnected = true ∧
    ((d.step L op).mtDrvState = .running ∧ ¬ ClosesCycle d op ∨
      (d.step L op).mtDrvState = .comError ∧ ClosesCycle d op) := by
  by_cases hturn : ∃ env, op = .turn env
  · obtain ⟨env, rfl⟩ := hturn
    exact turn_healthy hund hwf hpoll
  · have hcall := call_polling (L := L) hpoll hund (fun env h => hturn ⟨env, h⟩)
    refine ⟨hcall.2, Or.inl ⟨hcall.1, fun hc => ?_⟩⟩
    cases op with
    | turn env => exact hturn ⟨env, rfl⟩
    | _ => exact hc

/-- In no state of the run has the driver failed or lost its connection. -/
def NeverFails (L : FloatAbcd) (d : ModbusMasterDrv Q) (ops : List Op) : Prop :=
  ∀ n, (run (ModbusMasterDrv.step L) d (ops.take n)).mtDrvState ≠ .comError ∧
    (run (ModbusMasterDrv.step L) d (ops.take n)).bConnected = true

theorem neverFails_cons (d : ModbusMasterDrv Q) (op : Op) (ops : List Op) :
    NeverFails L d (op :: ops) ↔
      (d.mtDrvState ≠ .comError ∧ d.bConnected = true) ∧ NeverFails L (d.step L op) ops := by
  constructor
  · intro h
    exact ⟨h 0, fun n => h (n + 1)⟩
  · rintro ⟨h0, h⟩ n
    cases n with
    | zero => exact h0
    | succ n => exact h n

/-- A run without failures keeps the driver running exactly as far as no turn
closes a read cycle. -/
theorem neverFails_iff {d : ModbusMasterDrv Q} (hwf : d.WellFormed) (hpoll : Polling d)
    {ops : List Op} (hund : ∀ op ∈ ops, Undisturbed op) :
    NeverFails L d ops ↔
      Along (ModbusMasterDrv.step L) (fun d op => ¬ ClosesCycle d op) d ops := by
  induction ops generalizing d with
  | nil =>
    refine ⟨fun _ => trivial, fun _ n => ?_⟩
    rw [List.take_nil]
    exact ⟨hpoll.ne_comError, hpoll.2⟩
  | cons op ops ih =>
    have hrest := fun o ho => hund o (List.mem_cons_of_mem op ho)
    obtain ⟨hconn, hstep⟩ :=
      undisturbed_step (L := L) hwf hpoll (hund op List.mem_cons_self)
    rw [neverFails_cons, along_cons]
    rcases hstep with ⟨hstate, hc⟩ | ⟨hstate, hc⟩
    · rw [ih (ModbusMasterDrv.wellFormed_kept.step d op hwf) ⟨hstate, hconn⟩ hrest]
      exact ⟨fun h => ⟨hc, h.2⟩, fun h => ⟨⟨hpoll.ne_comError, hpoll.2⟩, h.2⟩⟩
    · refine ⟨fun h => absurd hstate (h.2 0).1, fun h => absurd hc h.1⟩

/-- Answers of a connection without failures, at a given time. -/
def healthyEnv (timePoint : Int) : Env where
  timePoint := timePoint
  msSinceEpoch := 0
  connects := true
  bus :=
    { readRegisters := fun _ _ _ => some (fun _ => 0)
      readInputRegisters := fun _ _ _ => some (fun _ => 0)
      readInputBits := fun _ _ _ => some (fun _ => false)
      readBits := fun _ _ _ => some (fun _ => false)
      writeBit := fun _ _ _ => .done
      writeRegisters := fun _ _ _ => .done
      strerror := "" }

theorem healthyEnv_healthy (timePoint : Int) : Healthy (healthyEnv timePoint) :=
  ⟨rfl, fun _ _ _ => rfl, fun _ _ _ => rfl, fun _ _ _ => rfl, fun _ _ _ => rfl,
    fun _ _ _ => rfl, fun _ _ _ => rfl⟩

/-- The next turn that takes no time reads. -/
structure ReadsNext (d : ModbusMasterDrv Q) : Prop where
  notWriting : d.mbInWriteCycle = false
  writeLater : 0 < d.mMillisToWriteCycle
  reading : d.mbInReadCycle = true

/-- Some run without failures ends in `COMError` or without connection. -/
def CanFail (L : FloatAbcd) (d : ModbusMasterDrv Q) : Prop :=
  ∃ ops, (∀ op ∈ ops, Undisturbed op) ∧ ¬ NeverFails L d ops

theorem canFail_of_run {d : ModbusMasterDrv Q} {ops : List Op}
    (hund : ∀ op ∈ ops, Undisturbed op)
    (h : CanFail L (run (ModbusMasterDrv.step L) d ops)) : CanFail L d := by
  obtain ⟨rest, hrest, hfail⟩ := h
  refine ⟨ops ++ rest, ?_, fun hc => hfail (fun n => ?_)⟩
  · intro op hop
    rcases List.mem_append.mp hop with hop | hop
    · exact hund op hop
    · exact hrest op hop
  · have := hc (ops.length + n)
    rwa [List.take_length_add_append, run_append] at this

/-- Turns that come late enough transmit everything that is pending. -/
theorem drain (n : Nat) {d : ModbusMasterDrv Q} (hwf : d.WellFormed) (hpoll : Polling d)
    (hcard : (PriorityQueue.elems d.mPendingWrites).card < n) :
    ∃ ops, (∀ op ∈ ops, Undisturbed op) ∧ Polling (run (ModbusMasterDrv.step L) d ops) ∧
      ReadsNext (run (ModbusMasterDrv.step L) d ops) ∧
      SameTables d (run (ModbusMasterDrv.step L) d ops) := by
  induction n generalizing d with
  | zero => exact absurd hcard (Nat.not_lt_zero _)
  | succ n ih =>
    -- at this time both cycles are due
    let env := healthyEnv (d.mLastTimePoint + max d.mMillisToWriteCycle d.mMillisToReadCycle)
    have hund : Undisturbed (.turn env) := healthyEnv_healthy _
    have hwrite : (d.updateCycles env.timePoint).mbInWriteCycle = true := by
      simp [ModbusMasterDrv.updateCycles, env, healthyEnv]
    have hread : (d.updateCycles env.timePoint).mbInReadCycle = true := by
      simp [ModbusMasterDrv.updateCycles, env, healthyEnv]
    have hturn := turn_polling (L := L) hwf hpoll env
    cases htop : PriorityQueue.top d.mPendingWrites with
    | none =>
      have hserve : (d.updateCycles env.timePoint).serveCycle L env = (true,
          { d.updateCycles env.timePoint with
            mbInWriteCycle := false, mMillisToWriteCycle := DELAY_BETWEEN_WRITES }) := by
        simp only [ModbusMasterDrv.serveCycle]
        rw [if_pos hwrite]
        simp only [show (d.updateCycles env.timePoint).mPendingWrites = d.mPendingWrites from rfl,
          htop]
      refine ⟨[.turn env], by simpa using hund, ?_⟩
      rw [run_cons, run_nil, hturn, hserve]
      exact ⟨⟨rfl, hpoll.2⟩, ⟨rfl, Int.natCast_pos.mpr (by decide : 0 < 20), hread⟩, ⟨rfl, rfl⟩⟩
    | some wr =>
      obtain ⟨q, calls, heq, hless⟩ :=
        nextWrite_healthy (L := L) (healthyEnv_healthy _) (d.updateCycles env.timePoint)
      have hserve : (d.updateCycles env.timePoint).serveCycle L env = (true,
          { d.updateCycles env.timePoint with mPendingWrites := q, calls := calls }) := by
        simp only [ModbusMasterDrv.serveCycle]
        rw [if_pos hwrite]
        simp only [show (d.updateCycles env.timePoint).mPendingWrites = d.mPendingWrites from rfl,
          htop]
        exact heq
      have hcard' : (PriorityQueue.elems q).card < n := by
        have := hless (by rw [show (d.updateCycles env.timePoint).mPendingWrites =
          d.mPendingWrites from rfl, htop]; exact Option.some_ne_none wr)
        exact Nat.lt_of_lt_of_le this (Nat.le_of_lt_succ hcard)
      have hwf' := ModbusMasterDrv.wellFormed_kept.step (L := L) d (.turn env) hwf
      rw [hturn, hserve] at hwf'
      obtain ⟨ops, hops, hpoll', hnext, htables⟩ := ih hwf' ⟨rfl, hpoll.2⟩ hcard'
      refine ⟨.turn env :: ops, ?_, ?_⟩
      · intro op hop
        rcases List.mem_cons.mp hop with rfl | hop
        · exact hund
        · exact hops op hop
      · rw [run_cons, hturn, hserve]
        exact ⟨hpoll', hnext, ⟨htables.field, htables.modbus⟩⟩

/-- Turns that take no time read variable after variable up to the end. -/
theorem read_to_end (n : Nat) {d : ModbusMasterDrv Q} (hwf : d.WellFormed) (hpoll : Polling d)
    (hnext : ReadsNext d) (hvars : ¬ (d.mFieldVars = [] ∧ d.mModbusVars = []))
    (hleft : d.mFieldVars.length - d.mFieldIt + (d.mModbusVars.length - d.mModbusIt) < n) :
    CanFail L d := by
  induction n generalizing d with
  | zero => exact absurd hleft (Nat.not_lt_zero _)
  | succ n ih =>
    let env := healthyEnv d.mLastTimePoint
    have hund : ∀ op ∈ [Op.turn env], Undisturbed op := by
      intro op hop
      rw [List.mem_singleton.mp hop]
      exact healthyEnv_healthy d.mLastTimePoint
    have hwrite : (d.updateCycles env.timePoint).mbInWriteCycle = false := by
      simp [ModbusMasterDrv.updateCycles, env, healthyEnv, hnext.notWriting, hnext.writeLater]
    have hread : (d.updateCycles env.timePoint).mbInReadCycle = true := by
      simp [ModbusMasterDrv.updateCycles, hnext.reading]
    have hlater : 0 < (d.updateCycles env.timePoint).mMillisToWriteCycle := by
      simp [ModbusMasterDrv.updateCycles, env, healthyEnv, hnext.writeLater]
    by_cases hend : AtCycleEnd d
    · refine ⟨[.turn env], hund, ?_⟩
      rw [neverFails_iff hwf hpoll hund, along_cons]
      exact fun h => h.1 ⟨hwrite, hread, hend⟩
    have hserve : (d.updateCycles env.timePoint).serveCycle L env =
        (d.updateCycles env.timePoint).processNextRead L env := by
      simp only [ModbusMasterDrv.serveCycle]
      rw [hwrite, hread]
      rfl
    have hturn := turn_polling (L := L) hwf hpoll env
    have hwf' := ModbusMasterDrv.wellFormed_kept.step (L := L) d (.turn env) hwf
    rw [hserve] at hturn
    apply canFail_of_run hund
    rw [run_cons, run_nil]
    rcases (d.updateCycles env.timePoint).processNextRead_cases (L := L) env
        hwf.iterators with
      ⟨hlt, vars, changed, hlen, heq⟩ | ⟨hlt, vars, changed, hlen, heq⟩ | ⟨hfail, _, _⟩ |
      ⟨hf, hm, _⟩
    · have hlt' : d.mFieldIt < d.mFieldVars.length := hlt
      have hlen' : vars.length = d.mFieldVars.length := hlen
      rw [hturn, heq] at hwf' ⊢
      refine ih hwf' ⟨rfl, hpoll.2⟩ ⟨hwrite, hlater, hread⟩ ?_ ?_
      · rintro ⟨hnil, _⟩
        have hnil' : vars = [] := hnil
        rw [hnil', List.length_nil] at hlen'
        omega
      · show vars.length - (d.mFieldIt + 1) + (d.mModbusVars.length - d.mModbusIt) < n
        omega
    · have hlt' : d.mModbusIt < d.mModbusVars.length := hlt
      have hlen' : vars.length = d.mModbusVars.length := hlen
      rw [hturn, heq] at hwf' ⊢
      refine ih hwf' ⟨rfl, hpoll.2⟩ ⟨hwrite, hlater, hread⟩ ?_ ?_
      · rintro ⟨_, hnil⟩
        have hnil' : vars = [] := hnil
        rw [hnil', List.length_nil] at hlen'
        omega
      · show d.mFieldVars.length - d.mFieldIt + (vars.length - (d.mModbusIt + 1)) < n
        omega
    · exact absurd hfail (not_fetchFails (healthyEnv_healthy _) _)
    · exact absurd ⟨hf, hm, hvars⟩ hend

theorem canFail_of_vars {d : ModbusMasterDrv Q} (hwf : d.WellFormed) (hpoll : Polling d)
    (hvars : ¬ (d.mFieldVars = [] ∧ d.mModbusVars = [])) : CanFail L d := by
  obtain ⟨ops, hund, hpoll', hnext, htables⟩ :=
    drain (L := L) _ hwf hpoll (Nat.lt_succ_self _)
  refine canFail_of_run hund (read_to_end _ ?_ hpoll' hnext ?_ (Nat.lt_succ_self _))
  · exact run_invariant' (ModbusMasterDrv.wellFormed_kept.step) hwf ops
  · rintro ⟨hf, hm⟩
    refine hvars ⟨List.length_eq_zero_iff.mp ?_, List.length_eq_zero_iff.mp ?_⟩
    · rw [← htables.field, hf, List.length_nil]
    · rw [← htables.modbus, hm, List.length_nil]

theorem undisturbed_tables {d : ModbusMasterDrv Q} (hwf : d.WellFormed) (hpoll : Polling d)
    {op : Op} (hund : Undisturbed op) : SameTables d (d.step L op) := by
  cases op with
  | turn env =>
    obtain ⟨_, htables, _⟩ :=
      (d.updateCycles env.timePoint).serveCycle_frame (L := L) env hwf.iterators
    rw [turn_polling hwf hpoll]
    exact ⟨htables.field, htables.modbus⟩
  | stop now => exact hund.elim
  | close now => exact hund.elim
  | beginDestructor => exact hund.elim
  | finishDestructor now => exact hund.elim
  | getChangedVars =>
    exact ModbusMasterDrv.guarded (P := SameTables d) ⟨rfl, rfl⟩ (fun _ => ⟨rfl, rfl⟩)
  | write fVal tAddr tWriteTimeOut now =>
    exact ModbusMasterDrv.guarded (P := SameTables d) ⟨rfl, rfl⟩ (fun _ => d.submit_tables _)
  | force fVal tAddr bForceBitVal tWriteTimeOut now =>
    exact ModbusMasterDrv.guarded (P := SameTables d) ⟨rfl, rfl⟩ (fun _ => d.submit_tables _)
  | start now =>
    refine ModbusMasterDrv.guarded (P := SameTables d) ⟨rfl, rfl⟩ (fun _ => ?_)
    simp only [ModbusMasterDrv.start, hpoll.1]
    exact ⟨rfl, rfl⟩
  | init file slaveVars fieldVars newTcp strerror =>
    refine ModbusMasterDrv.guarded (P := SameTables d) ⟨rfl, rfl⟩ (fun _ => ?_)
    have hne : d.mtDrvState ≠ .unInit := by rw [hpoll.1]; exact fun h => by cases h
    simp only [ModbusMasterDrv.init]
    rw [if_pos hne]
    exact ⟨rfl, rfl⟩

/-- A driver with nothing to poll never fails without a failure. -/
theorem neverFails_of_no_vars {d : ModbusMasterDrv Q} (hwf : d.WellFormed) (hpoll : Polling d)
    (hf : d.mFieldVars = []) (hm : d.mModbusVars = []) {ops : List Op}
    (hund : ∀ op ∈ ops, Undisturbed op) : NeverFails L d ops := by
  rw [neverFails_iff hwf hpoll hund]
  induction ops generalizing d with
  | nil => trivial
  | cons op ops ih =>
    have hop := hund op List.mem_cons_self
    have hnot : ¬ ClosesCycle d op := by
      intro hc
      cases op with
      | turn env => exact hc.2.2.2.2 ⟨hf, hm⟩
      | _ => exact hc
    have hstep := undisturbed_step (L := L) hwf hpoll hop
    have htables := undisturbed_tables (L := L) hwf hpoll hop
    have hpoll' : Polling (d.step L op) :=
      ⟨(hstep.2.resolve_right (fun h => hnot h.2)).1, hstep.1⟩
    refine ⟨hnot, ih (ModbusMasterDrv.wellFormed_kept.step d op hwf) hpoll' ?_ ?_
      (fun o ho => hund o (List.mem_cons_of_mem op ho))⟩
    · exact List.length_eq_zero_iff.mp (by rw [htables.field, hf, List.length_nil])
    · exact List.length_eq_zero_iff.mp (by rw [htables.modbus, hm, List.length_nil])

/-- A connected and running driver survives runs without failures exactly as
far as no turn closes a read cycle, hence all of them only when it has nothing
to poll; a call of `processNextRead` blames the bus wrongly exactly at the end
of a cycle. -/
theorem survives_iff_no_cycle_closed (le : Bool) (before : List Op)
    (hpoll : Polling (run (ModbusMasterDrv.step L) (ModbusMasterDrv.fresh le : ModbusMasterDrv Q)
      before)) :
    let d := run (ModbusMasterDrv.step L) (ModbusMasterDrv.fresh le : ModbusMasterDrv Q) before
    (∀ ops, (∀ op ∈ ops, Undisturbed op) →
      (NeverFails L d ops ↔
        Along (ModbusMasterDrv.step L) (fun d op => ¬ ClosesCycle d op) d ops)) ∧
    ((∀ ops, (∀ op ∈ ops, Undisturbed op) → NeverFails L d ops) ↔
      d.mFieldVars = [] ∧ d.mModbusVars = []) ∧
    ∀ env, ((d.processNextRead L env).1 = false → d.FetchFails L env) ↔ ¬ AtCycleEnd d := by
  intro d
  have hwf : d.WellFormed := ModbusMasterDrv.run_wellFormed le before
  refine ⟨fun ops hund => neverFails_iff hwf hpoll hund, ⟨fun h => ?_, fun h ops hund => ?_⟩,
    fun env => false_only_on_failure_iff hwf.iterators env⟩
  · by_contra hvars
    obtain ⟨ops, hund, hfail⟩ := canFail_of_vars (L := L) hwf hpoll hvars
    exact hfail (h ops hund)
  · exact neverFails_of_no_vars hwf hpoll h.1 h.2 hund

end Steps

def oneVarStart : List Op :=
  [.init (.ok (some ⟨some "127.0.0.1", some 502, some 0, some 1⟩)) []
      [{ uiChannel := 1 }] true "",
    .start 0, .turn (healthyEnv 0)]

def oneVarCycle : List Op := [.turn (healthyEnv 1), .turn (healthyEnv 2), .turn (healthyEnv 3)]

theorem oneVarCycle_undisturbed : ∀ op ∈ oneVarCycle, Undisturbed op := by
  intro op hop
  simp only [oneVarCycle, List.mem_cons, List.not_mem_nil, or_false] at hop
  rcases hop with rfl | rfl | rfl <;> exact healthyEnv_healthy _

theorem oneVarStart_polling : Polling (run (ModbusMasterDrv.step floatAbcd)
    (ModbusMasterDrv.fresh true : ModbusMasterDrv (WriteReq.Queue true)) oneVarStart) :=
  ⟨by decide, by decide⟩

/-- With one configured variable and no failure the first cycle ends in `COMError`. -/
theorem first_cycle_fails :
    Polling (run (ModbusMasterDrv.step floatAbcd)
      (ModbusMasterDrv.fresh true : ModbusMasterDrv (WriteReq.Queue true)) oneVarStart) ∧
    (∀ op ∈ oneVarCycle, Undisturbed op) ∧
    ¬ NeverFails floatAbcd (run (ModbusMasterDrv.step floatAbcd)
      (ModbusMasterDrv.fresh true : ModbusMasterDrv (WriteReq.Queue true)) oneVarStart)
      oneVarCycle := by
  refine ⟨oneVarStart_polling, oneVarCycle_undisturbed, fun h => (h 3).1 ?_⟩
  decide

theorem oneVar_survives_iff :
    (∀ ops, (∀ op ∈ ops, Undisturbed op) → NeverFails floatAbcd
      (run (ModbusMasterDrv.step floatAbcd)
        (ModbusMasterDrv.fresh true : ModbusMasterDrv (WriteReq.Queue true)) oneVarStart) ops) ↔
    (run (ModbusMasterDrv.step floatAbcd)
      (ModbusMasterDrv.fresh true : ModbusMasterDrv (WriteReq.Queue true))
        oneVarStart).mFieldVars = [] ∧
    (run (ModbusMasterDrv.step floatAbcd)
      (ModbusMasterDrv.fresh true : ModbusMasterDrv (WriteReq.Queue true))
        oneVarStart).mModbusVars = [] :=
  (survives_iff_no_cycle_closed true oneVarStart oneVarStart_polling).2.1

end MasterPolling
