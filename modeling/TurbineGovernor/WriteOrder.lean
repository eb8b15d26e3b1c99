import TurbineGovernor.MasterPolling

/-!
# The order in which writes are transmitted

The pending queue is ordered by the time-outs of the requests. While none of
them expires, a request is transmitted only when no outstanding one has a
longer time-out; the order of acceptance is followed as far as the oldest
request always has the longest one.
-/

namespace WriteOrder
open CommonTypes PriorityQueues TransitionRuns MasterDriver

variable {L : FloatAbcd} {Q : Type} [PriorityQueue Q WriteReq WriteReq.Less]

/-- Calls of the interface and `processNextWrite` steps of the driver thread. -/
inductive QueueOp where
  | write (fVal : Single) (tAddr : IOAddr) (tWriteTimeOut : BitVec 32) (now : Int)
  | force (fVal : Single) (tAddr : IOAddr) (bForceBitVal : Bool) (tWriteTimeOut : BitVec 32)
      (now : Int)
  | nextWrite (env : Env)

def queueStep (L : FloatAbcd) (d : ModbusMasterDrv Q) : QueueOp → ModbusMasterDrv Q
  | .write fVal tAddr tWriteTimeOut now => (d.write fVal tAddr tWriteTimeOut now).2
  | .force fVal tAddr bForceBitVal tWriteTimeOut now =>
    (d.force fVal tAddr bForceBitVal tWriteTimeOut now).2
  | .nextWrite env => (d.processNextWrite L env).2

/-- No pending request has expired when the driver thread looks at the queue. -/
def NoExpiry (d : ModbusMasterDrv Q) : QueueOp → Prop
  | .nextWrite env =>
    ∀ wr ∈ PriorityQueue.elems d.mPendingWrites, wr.expired env.msSinceEpoch = false
  | _ => True

/-- When the driver thread looks at the queue, the oldest request waits longest. -/
def OldestLongest (d : ModbusMasterDrv Q) : QueueOp → Prop
  | .nextWrite _ =>
    ∀ oldest ∈ PriorityQueue.elems d.mPendingWrites,
      (∀ wr ∈ PriorityQueue.elems d.mPendingWrites, oldest.id ≤ wr.id) →
      ∀ wr ∈ PriorityQueue.elems d.mPendingWrites, wr ≠ oldest → WriteReq.Less wr oldest
  | _ => True

instance (d : ModbusMasterDrv Q) : (op : QueueOp) → Decidable (NoExpiry d op)
  | .nextWrite env => inferInstanceAs (Decidable
      (∀ wr ∈ PriorityQueue.elems d.mPendingWrites, wr.expired env.msSinceEpoch = false))
  | .write _ _ _ _ => isTrue trivial
  | .force _ _ _ _ _ => isTrue trivial

instance (d : ModbusMasterDrv Q) : (op : QueueOp) → Decidable (OldestLongest d op)
  | .nextWrite _ => inferInstanceAs (Decidable
      (∀ oldest ∈ PriorityQueue.elems d.mPendingWrites,
        (∀ wr ∈ PriorityQueue.elems d.mPendingWrites, oldest.id ≤ wr.id) →
        ∀ wr ∈ PriorityQueue.elems d.mPendingWrites, wr ≠ oldest → WriteReq.Less wr oldest))
  | .write _ _ _ _ => isTrue trivial
  | .force _ _ _ _ _ => isTrue trivial

/-- Accepted, and no transfer of it has succeeded yet. -/
def Outstanding (log : List Call) (wr : WriteReq) : Prop :=
  .accepted wr ∈ log ∧ ∀ tAddr, .writeSuccess wr.id tAddr ∉ log

/-- `R` holds of every transmission and the log before it. -/
def AtTransmit (R : List Call → Nat → Prop) (log : List Call) : Prop :=
  ∀ before id after, log = before ++ .transmit id :: after → R before id

/-- Every transmitted request is the oldest outstanding one. -/
def InAcceptanceOrder : List Call → Prop :=
  AtTransmit (fun before id => ∀ wr, Outstanding before wr → id ≤ wr.id)

/-- Every transmitted request is outstanding and no outstanding one has a longer time-out. -/
def ByTimeOut : List Call → Prop :=
  AtTransmit (fun before id => ∃ wr, Outstanding before wr ∧ wr.id = id ∧
    ∀ other, Outstanding before other → ¬ WriteReq.Less wr other)

theorem atTransmit_nil (R : List Call → Nat → Prop) : AtTransmit R [] := by
  intro before id after h
  exact absurd h.symm (List.append_ne_nil_of_right_ne_nil _ (List.cons_ne_nil _ _))

theorem atTransmit_snoc {R : List Call → Nat → Prop} {log : List Call} {c : Call}
    (h : AtTransmit R log) (hc : ∀ id, c = .transmit id → R log id) :
    AtTransmit R (log ++ [c]) := by
  intro before id after heq
  rcases List.eq_nil_or_concat after with rfl | ⟨after', c', rfl⟩
  · obtain ⟨rfl, hc'⟩ := List.append_inj' heq rfl
    exact hc id (List.singleton_inj.mp hc')
  · rw [List.concat_eq_append, ← List.cons_append, ← List.append_assoc] at heq
    exact h before id after' (List.append_inj' heq rfl).1

theorem outstanding_snoc_accepted {log : List Call} {wr : WriteReq} (other : WriteReq)
    (hnew : ∀ tAddr, .writeSuccess wr.id tAddr ∉ log) :
    Outstanding (log ++ [.accepted wr]) other ↔ other = wr ∨ Outstanding log other := by
  simp only [Outstanding, List.mem_append, List.mem_singleton, Call.accepted.injEq, reduceCtorEq,
    or_false]
  constructor
  · rintro ⟨h | rfl, hs⟩
    · exact Or.inr ⟨h, hs⟩
    · exact Or.inl rfl
  · rintro (rfl | ⟨h, hs⟩)
    · exact ⟨Or.inr rfl, hnew⟩
    · exact ⟨Or.inl h, hs⟩

theorem outstanding_snoc_other {log : List Call} {c : Call} (other : WriteReq)
    (ha : ∀ wr, c ≠ .accepted wr) (hs : ∀ id tAddr, c ≠ .writeSuccess id tAddr) :
    Outstanding (log ++ [c]) other ↔ Outstanding log other := by
  simp only [Outstanding, List.mem_append, List.mem_singleton]
  constructor
  · rintro ⟨h, hs'⟩
    exact ⟨h.resolve_right (fun h => ha other h.symm), fun tAddr hm => hs' tAddr (Or.inl hm)⟩
  · rintro ⟨h, hs'⟩
    exact ⟨Or.inl h, fun tAddr hm => hm.elim (hs' tAddr) (fun h => hs _ _ h.symm)⟩

theorem outstanding_snoc_success {log : List Call} (id : Nat) (tAddr : IOAddr)
    (other : WriteReq) :
    Outstanding (log ++ [.writeSuccess id tAddr]) other ↔
      Outstanding log other ∧ other.id ≠ id := by
  simp only [Outstanding, List.mem_append, List.mem_singleton, reduceCtorEq, or_false,
    Call.writeSuccess.injEq, not_or, not_and]
  constructor
  · rintro ⟨h, hs⟩
    exact ⟨⟨h, fun a => (hs a).1⟩, fun hid => (hs tAddr).2 hid rfl⟩
  · rintro ⟨⟨h, hs⟩, hne⟩
    exact ⟨h, fun a => ⟨hs a, fun hid => absurd hid hne⟩⟩

/-- `log` is what the driver has logged since `start`, and the queue holds the
outstanding requests of it. -/
structure Tracks (start : List Call) (log : List Call) (d : ModbusMasterDrv Q) : Prop where
  calls : d.calls = start ++ log
  pending : ∀ wr, wr ∈ PriorityQueue.elems d.mPendingWrites ↔ Outstanding log wr
  accepted : ∀ wr, .accepted wr ∈ log → wr.id < d.nextCall
  succeeded : ∀ id tAddr, .writeSuccess id tAddr ∈ log → id < d.nextCall
  unique : ∀ wr wr', .accepted wr ∈ log → .accepted wr' ∈ log → wr.id = wr'.id → wr = wr'
  nodup : (PriorityQueue.elems d.mPendingWrites).Nodup

theorem tracks_start {d : ModbusMasterDrv Q} (h : PriorityQueue.elems d.mPendingWrites = 0) :
    Tracks d.calls [] d where
  calls := (List.append_nil _).symm
  pending wr := by simp [h, Outstanding]
  accepted wr hwr := by cases hwr
  succeeded id tAddr hs := by cases hs
  unique wr wr' hwr := by cases hwr
  nodup := by simp [h]

theorem submit_tracks {start log : List Call} {d : ModbusMasterDrv Q} (h : Tracks start log d)
    (req : WriteReq) :
    ∃ c, Tracks start (log ++ [c]) (d.submit req).2 ∧ ∀ id, c ≠ .transmit id := by
  rcases d.submit_cases req with heq | ⟨_, _, heq⟩
  · refine ⟨.refused d.nextCall, ?_, fun id hc => by cases hc⟩
    rw [heq]
    refine ⟨by simp [h.calls], fun wr => ?_, fun wr hwr => ?_, fun id tAddr hs => ?_,
      fun wr wr' hwr hwr' => ?_, h.nodup⟩
    · rw [outstanding_snoc_other wr (fun _ hc => by cases hc) (fun _ _ hc => by cases hc)]
      exact h.pending wr
    · simp only [List.mem_append, List.mem_singleton, reduceCtorEq, or_false] at hwr
      exact Nat.lt_succ_of_lt (h.accepted wr hwr)
    · simp only [List.mem_append, List.mem_singleton, reduceCtorEq, or_false] at hs
      exact Nat.lt_succ_of_lt (h.succeeded id tAddr hs)
    · simp only [List.mem_append, List.mem_singleton, reduceCtorEq, or_false] at hwr hwr'
      exact h.unique wr wr' hwr hwr'
  · let wr : WriteReq := { req with id := d.nextCall }
    have hnew : ∀ tAddr, .writeSuccess wr.id tAddr ∉ log :=
      fun tAddr hs => Nat.lt_irrefl _ (h.succeeded _ _ hs)
    refine ⟨.accepted wr, ?_, fun id hc => by cases hc⟩
    rw [heq]
    refine ⟨by simp [h.calls, wr], fun other => ?_, fun other hother => ?_, fun id tAddr hs => ?_,
      fun other other' ho ho' hid => ?_, ?_⟩
    · rw [outstanding_snoc_accepted other hnew, ← h.pending other, PriorityQueue.elems_push,
        Multiset.mem_cons]
    · simp only [List.mem_append, List.mem_singleton, Call.accepted.injEq] at hother
      rcases hother with hother | rfl
      · exact Nat.lt_succ_of_lt (h.accepted other hother)
      · exact Nat.lt_succ_self _
    · simp only [List.mem_append, List.mem_singleton, reduceCtorEq, or_false] at hs
      exact Nat.lt_succ_of_lt (h.succeeded id tAddr hs)
    · simp only [List.mem_append, List.mem_singleton, Call.accepted.injEq] at ho ho'
      rcases ho with ho | rfl <;> rcases ho' with ho' | rfl
      · exact h.unique other other' ho ho' hid
      · exact absurd (h.accepted other ho) (by rw [hid]; exact Nat.lt_irrefl _)
      · exact absurd (h.accepted other' ho') (by rw [← hid]; exact Nat.lt_irrefl _)
      · rfl
    · rw [PriorityQueue.elems_push, Multiset.nodup_cons]
      refine ⟨fun hmem => ?_, h.nodup⟩
      exact Nat.lt_irrefl _ (h.accepted _ ((h.pending _).mp hmem).1)

/-- A transmission that fails leaves the queue as it is. -/
theorem Tracks.transmit {start log : List Call} {d d' : ModbusMasterDrv Q}
    (h : Tracks start log d) (id : Nat) (hnext : d'.nextCall = d.nextCall)
    (helems : PriorityQueue.elems d'.mPendingWrites = PriorityQueue.elems d.mPendingWrites)
    (hcalls : d'.calls = d.calls ++ [.transmit id]) : Tracks start (log ++ [.transmit id]) d' where
  calls := by rw [hcalls, h.calls, List.append_assoc]
  pending wr := by
    rw [outstanding_snoc_other wr (fun _ hc => by cases hc) (fun _ _ hc => by cases hc), helems]
    exact h.pending wr
  accepted wr hwr := by
    simp only [List.mem_append, List.mem_singleton, reduceCtorEq, or_false] at hwr
    exact hnext ▸ h.accepted wr hwr
  succeeded id tAddr hs := by
    simp only [List.mem_append, List.mem_singleton, reduceCtorEq, or_false] at hs
    exact hnext ▸ h.succeeded id tAddr hs
  unique wr wr' hwr hwr' := by
    simp only [List.mem_append, List.mem_singleton, reduceCtorEq, or_false] at hwr hwr'
    exact h.unique wr wr' hwr hwr'
  nodup := by rw [helems]; exact h.nodup

/-- A successful one takes exactly the transmitted request off the queue. -/
theorem Tracks.success {start log : List Call} {d d' : ModbusMasterDrv Q}
    (h : Tracks start log d) {wr : WriteReq} (htop : PriorityQueue.top d.mPendingWrites = some wr)
    (hnext : d'.nextCall = d.nextCall)
    (hpending : d'.mPendingWrites = PriorityQueue.pop d.mPendingWrites)
    (hcalls : d'.calls = d.calls ++ [.writeSuccess wr.id wr.mtAddr]) :
    Tracks start (log ++ [.writeSuccess wr.id wr.mtAddr]) d' := by
  have hnodup := h.nodup
  rw [PriorityQueue.elems_pop _ _ htop, Multiset.nodup_cons] at hnodup
  have hwr := (h.pending wr).mp (mem_of_top htop)
  refine ⟨by rw [hcalls, h.calls, List.append_assoc], fun other => ?_, fun other ho => ?_,
    fun id tAddr hs => ?_, fun other other' ho ho' => ?_, by rw [hpending]; exact hnodup.2⟩
  · rw [outstanding_snoc_success, ← h.pending other, hpending, PriorityQueue.elems_pop _ _ htop,
      Multiset.mem_cons]
    constructor
    · intro hmem
      refine ⟨Or.inr hmem, fun hid => hnodup.1 ?_⟩
      have ho := (h.pending other).mp (mem_of_mem_pop htop hmem)
      exact h.unique other wr ho.1 hwr.1 hid ▸ hmem
    · rintro ⟨rfl | hmem, hne⟩
      · exact absurd rfl hne
      · exact hmem
  · simp only [List.mem_append, List.mem_singleton, reduceCtorEq, or_false] at ho
    exact hnext ▸ h.accepted other ho
  · simp only [List.mem_append, List.mem_singleton, Call.writeSuccess.injEq] at hs
    rw [hnext]
    rcases hs with hs | ⟨rfl, _⟩
    · exact h.succeeded id tAddr hs
    · exact h.accepted wr hwr.1
  · simp only [List.mem_append, List.mem_singleton, reduceCtorEq, or_false] at ho ho'
    exact h.unique other other' ho ho'

/-- The queue from which `processNextWrite` transmits: nothing has expired. -/
theorem nextWrite_cases {d : ModbusMasterDrv Q} {env : Env}
    (hexp : NoExpiry d (.nextWrite env)) :
    ∃ q, PriorityQueue.elems q = PriorityQueue.elems d.mPendingWrites ∧
      ((PriorityQueue.top q = none ∧
          (d.processNextWrite L env).2 = { d with mPendingWrites := q }) ∨
        ∃ wr, PriorityQueue.top q = some wr ∧
          ((d.processNextWrite L env).2 = { d with
              mPendingWrites := q, calls := d.calls ++ [.transmit wr.id]
              mstrLastError := env.bus.strerror } ∨
            (d.processNextWrite L env).2 = { d with
              mPendingWrites := PriorityQueue.pop q
              calls := d.calls ++ [.transmit wr.id] ++ [.writeSuccess wr.id wr.mtAddr] })) := by
  obtain ⟨q, gone, _, helems, hgone, hcases⟩ := d.processNextWrite_cases (L := L) env
  have hnil : gone = [] := by
    cases gone with
    | nil => rfl
    | cons wr gone =>
      have hmem : wr ∈ PriorityQueue.elems d.mPendingWrites := by
        rw [helems]
        exact Multiset.mem_add.mpr (Or.inl List.mem_cons_self)
      have := hgone wr List.mem_cons_self
      rw [hexp wr hmem] at this
      cases this
  subst hnil
  refine ⟨q, by rw [helems, Multiset.coe_nil, zero_add], ?_⟩
  simp only [List.map_nil, List.append_nil] at hcases
  rcases hcases with ⟨htop, h⟩ | ⟨wr, htop, h | h⟩
  · exact Or.inl ⟨htop, by rw [h]⟩
  · exact Or.inr ⟨wr, htop, Or.inl (by rw [h])⟩
  · exact Or.inr ⟨wr, htop, Or.inr (by rw [h, List.append_assoc]; rfl)⟩

/-- One step: the log grows, and if a request is transmitted it is the one at the
top of a queue of exactly the outstanding requests. -/
theorem queueStep_tracks {start log : List Call} {d : ModbusMasterDrv Q} (h : Tracks start log d)
    {op : QueueOp} (hexp : NoExpiry d op) :
    ∃ log', Tracks start log' (queueStep L d op) ∧ ∀ R : List Call → Nat → Prop,
      (∀ env wr, op = .nextWrite env → wr ∈ PriorityQueue.elems d.mPendingWrites →
        (∀ other ∈ PriorityQueue.elems d.mPendingWrites, ¬ WriteReq.Less wr other) →
        R log wr.id) → AtTransmit R log → AtTransmit R log' := by
  cases op with
  | write fVal tAddr tWriteTimeOut now =>
    obtain ⟨c, htracks, hc⟩ := submit_tracks h _
    exact ⟨_, htracks, fun R _ hR => atTransmit_snoc hR (fun id hid => absurd hid (hc id))⟩
  | force fVal tAddr bForceBitVal tWriteTimeOut now =>
    obtain ⟨c, htracks, hc⟩ := submit_tracks h _
    exact ⟨_, htracks, fun R _ hR => atTransmit_snoc hR (fun id hid => absurd hid (hc id))⟩
  | nextWrite env =>
    obtain ⟨q, helems, ⟨_, heq⟩ | ⟨wr, htop, heq⟩⟩ := nextWrite_cases (L := L) hexp
    · refine ⟨log, ?_, fun R _ hR => hR⟩
      rw [queueStep, heq]
      exact ⟨h.calls, fun wr => by rw [helems]; exact h.pending wr, h.accepted, h.succeeded,
        h.unique, by rw [helems]; exact h.nodup⟩
    · have hsent : Tracks start (log ++ [.transmit wr.id])
          { d with mPendingWrites := q, calls := d.calls ++ [.transmit wr.id] } :=
        h.transmit wr.id rfl helems rfl
      have htransmit : ∀ R : List Call → Nat → Prop,
          (∀ e w, QueueOp.nextWrite env = .nextWrite e →
            w ∈ PriorityQueue.elems d.mPendingWrites →
            (∀ other ∈ PriorityQueue.elems d.mPendingWrites, ¬ WriteReq.Less w other) →
            R log w.id) → AtTransmit R log → AtTransmit R (log ++ [.transmit wr.id]) := by
        intro R hstep hR
        refine atTransmit_snoc hR (fun id hid => ?_)
        rw [← Call.transmit.inj hid]
        refine hstep env wr rfl (helems ▸ mem_of_top htop) (fun other hother => ?_)
        exact PriorityQueue.top_greatest q wr htop other (helems ▸ hother)
      rcases heq with heq | heq
      · refine ⟨_, ?_, htransmit⟩
        rw [queueStep, heq]
        exact ⟨hsent.calls, hsent.pending, hsent.accepted, hsent.succeeded, hsent.unique,
          hsent.nodup⟩
      · have hdone : Tracks start (log ++ [.transmit wr.id] ++ [.writeSuccess wr.id wr.mtAddr])
            { d with
              mPendingWrites := PriorityQueue.pop q
              calls := d.calls ++ [.transmit wr.id] ++ [.writeSuccess wr.id wr.mtAddr] } :=
          hsent.success htop rfl rfl rfl
        refine ⟨_, ?_, fun R hstep hR => atTransmit_snoc (c := .writeSuccess wr.id wr.mtAddr)
          (htransmit R hstep hR) (fun id hid => by cases hid)⟩
        rw [queueStep, heq]
        exact hdone

theorem oldest_of_greatest {d : ModbusMasterDrv Q} {env : Env} {wr : WriteReq}
    (holdest : OldestLongest d (.nextWrite env))
    (hwr : wr ∈ PriorityQueue.elems d.mPendingWrites)
    (hgreatest : ∀ other ∈ PriorityQueue.elems d.mPendingWrites, ¬ WriteReq.Less wr other) :
    ∀ other ∈ PriorityQueue.elems d.mPendingWrites, wr.id ≤ other.id := by
  obtain ⟨oldest, hmem, hmin⟩ := Finset.exists_min_image
    (PriorityQueue.elems d.mPendingWrites).toFinset WriteReq.id
    ⟨wr, Multiset.mem_toFinset.mpr hwr⟩
  have hmem' := Multiset.mem_toFinset.mp hmem
  have hmin' : ∀ other ∈ PriorityQueue.elems d.mPendingWrites, oldest.id ≤ other.id :=
    fun other ho => hmin other (Multiset.mem_toFinset.mpr ho)
  have heq : wr = oldest := by
    by_contra hne
    exact hgreatest oldest hmem' (holdest oldest hmem' hmin' wr hwr hne)
  exact heq ▸ hmin'

theorem run_tracks {start log : List Call} {d : ModbusMasterDrv Q} (h : Tracks start log d)
    {ops : List QueueOp} (hexp : Along (queueStep L) NoExpiry d ops) :
    ∃ log', Tracks start log' (run (queueStep L) d ops) ∧
      (ByTimeOut log → ByTimeOut log') ∧
      (Along (queueStep L) OldestLongest d ops → InAcceptanceOrder log →
        InAcceptanceOrder log') := by
  induction ops generalizing d log with
  | nil => exact ⟨log, h, id, fun _ => id⟩
  | cons op ops ih =>
    obtain ⟨mid, hmid, hR⟩ := queueStep_tracks (L := L) h hexp.1
    obtain ⟨log', hlog', hby, hin⟩ := ih hmid hexp.2
    refine ⟨log', hlog', fun hlog => hby (hR _ ?_ hlog), fun holdest hlog =>
      hin holdest.2 (hR _ ?_ hlog)⟩
    · intro env wr _ hwr hgreatest
      exact ⟨wr, (h.pending wr).mp hwr, rfl,
        fun other ho => hgreatest other ((h.pending other).mpr ho)⟩
    · intro env wr hop hwr hgreatest other ho
      have hlongest := holdest.1
      rw [hop] at hlongest
      exact oldest_of_greatest hlongest hwr hgreatest other ((h.pending other).mpr ho)

/-- Whatever the tie rule of the queue, the log of a run without expiry follows
the time-outs: each transmitted request is outstanding and no outstanding one
has a longer time-out. So a request with a longer time-out than one accepted
after it is done before that one, and the order of acceptance is followed when
the oldest request always has the longest time-out. -/
theorem transmitted_by_timeOut (d : ModbusMasterDrv Q)
    (hempty : PriorityQueue.elems d.mPendingWrites = 0) (ops : List QueueOp)
    (hexp : Along (queueStep L) NoExpiry d ops) :
    ∃ log, (run (queueStep L) d ops).calls = d.calls ++ log ∧
      (∀ wr, Outstanding log wr ↔
        wr ∈ PriorityQueue.elems (run (queueStep L) d ops).mPendingWrites) ∧
      ByTimeOut log ∧
      (∀ before later after, log = before ++ .transmit later.id :: after →
        .accepted later ∈ before → ∀ wr, .accepted wr ∈ before → WriteReq.Less later wr →
        ∃ tAddr, .writeSuccess wr.id tAddr ∈ before) ∧
      (Along (queueStep L) OldestLongest d ops → InAcceptanceOrder log) := by
  obtain ⟨log, htracks, hby, hin⟩ := run_tracks (tracks_start hempty) hexp
  have hlog : ByTimeOut log := hby (atTransmit_nil _)
  refine ⟨log, htracks.calls, fun wr => (htracks.pending wr).symm, hlog, ?_,
    fun holdest => hin holdest (atTransmit_nil _)⟩
  intro before later after heq hlater wr hwr hless
  obtain ⟨sent, hsent, hid, hgreatest⟩ := hlog before later.id after heq
  have hsame : sent = later := by
    refine htracks.unique sent later ?_ ?_ hid
    · rw [heq]
      exact List.mem_append_left _ hsent.1
    · rw [heq]
      exact List.mem_append_left _ hlater
  by_contra hnone
  exact hgreatest wr ⟨hwr, fun tAddr hs => hnone ⟨tAddr, hs⟩⟩ (hsame ▸ hless)

def started : ModbusMasterDrv (WriteReq.Queue true) :=
  run (ModbusMasterDrv.step floatAbcd) (ModbusMasterDrv.fresh true)
    [.init (.ok (some ⟨some "127.0.0.1", some 502, some 0, some 1⟩)) [] [] true "", .start 0]

def setPoint (id : Nat) (fVal : Single) (tWriteTimeOut : BitVec 32) : WriteReq :=
  { id := id, mtAddr := { uiChannel := 1 }, mbForce := false, mbForcedVal := false
    mfWriteVal := fVal, mtWriteTimeOut := tWriteTimeOut, mTimeS := 0 }

def twoWrites (first second : BitVec 32) : List QueueOp :=
  [.write 1 { uiChannel := 1 } first 0, .write 2 { uiChannel := 1 } second 0,
    .nextWrite (MasterPolling.healthyEnv 0), .nextWrite (MasterPolling.healthyEnv 0)]

/-- The second set point has the longer time-out, so it is transmitted first and
the slave ends with the first one. -/
theorem later_set_point_first :
    Along (queueStep floatAbcd) NoExpiry started (twoWrites 10 20) ∧
    (run (queueStep floatAbcd) started (twoWrites 10 20)).calls = started.calls ++
      [.accepted (setPoint 0 1 10), .accepted (setPoint 1 2 20),
        .transmit 1, .writeSuccess 1 { uiChannel := 1 },
        .transmit 0, .writeSuccess 0 { uiChannel := 1 }] ∧
    ¬ InAcceptanceOrder
      [.accepted (setPoint 0 1 10), .accepted (setPoint 1 2 20),
        .transmit 1, .writeSuccess 1 { uiChannel := 1 },
        .transmit 0, .writeSuccess 0 { uiChannel := 1 }] := by
  refine ⟨by decide, by decide, fun h => ?_⟩
  have := h [.accepted (setPoint 0 1 10), .accepted (setPoint 1 2 20)] 1 _ rfl (setPoint 0 1 10)
    ⟨by decide, by simp⟩
  exact absurd this (by decide)

theorem longer_set_point_first :
    ∃ log, (run (queueStep floatAbcd) started (twoWrites 20 10)).calls = started.calls ++ log ∧
      InAcceptanceOrder log := by
  obtain ⟨log, hcalls, _, _, _, horder⟩ :=
    transmitted_by_timeOut (L := floatAbcd) started (by decide) (twoWrites 20 10) (by decide)
  exact ⟨log, hcalls, horder (by decide)⟩

end WriteOrder
