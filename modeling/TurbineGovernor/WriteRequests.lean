import TurbineGovernor.MasterDriverSpec

/-!
# Accounting for write requests

The log of the driver says what became of every call of `write` and `force`. A
request that was accepted is pending or completed, never both and never twice;
a driver that is idle has no pending request.
-/

namespace WriteRequests
open CommonTypes PriorityQueues TransitionRuns MasterDriver

variable {L : FloatAbcd} {Q : Type}

def accepts (i : Nat) : Call → Bool
  | .accepted writeReq => decide (writeReq.id = i)
  | _ => false

def refuses (i : Nat) : Call → Bool
  | .refused id => decide (id = i)
  | _ => false

/-- The entry is one of the two callbacks of request `i`. -/
def completes (i : Nat) : Call → Bool
  | .writeSuccess id _ => decide (id = i)
  | .writeTimeOut id _ => decide (id = i)
  | _ => false

def accepted (i : Nat) (calls : List Call) : Nat := calls.countP (accepts i)
def refused (i : Nat) (calls : List Call) : Nat := calls.countP (refuses i)
def completions (i : Nat) (calls : List Call) : Nat := calls.countP (completes i)

section Counts
variable (i : Nat) (calls extra : List Call)

theorem accepted_append : accepted i (calls ++ extra) = accepted i calls + accepted i extra :=
  List.countP_append

theorem refused_append : refused i (calls ++ extra) = refused i calls + refused i extra :=
  List.countP_append

theorem completions_append :
    completions i (calls ++ extra) = completions i calls + completions i extra :=
  List.countP_append

theorem accepted_timeOuts (gone : List WriteReq) :
    accepted i (gone.map WriteReq.timeOutCall) = 0 := by
  induction gone with
  | nil => rfl
  | cons wr gone ih => simp [accepted, accepts, WriteReq.timeOutCall]

theorem refused_timeOuts (gone : List WriteReq) :
    refused i (gone.map WriteReq.timeOutCall) = 0 := by
  induction gone with
  | nil => rfl
  | cons wr gone ih => simp [refused, refuses, WriteReq.timeOutCall]

theorem completions_timeOuts (gone : List WriteReq) :
    completions i (gone.map WriteReq.timeOutCall) = gone.countP (fun wr => wr.id = i) := by
  induction gone with
  | nil => rfl
  | cons wr gone ih =>
    simp only [completions] at ih
    simp only [completions, List.map_cons, List.countP_cons, ih]
    rfl

/-- Entries about the connection concern no request. -/
theorem counts_connection {extra : List Call}
    (h : ∀ c ∈ extra, ModbusMasterDrv.ConnectionCall c) :
    accepted i extra = 0 ∧ refused i extra = 0 ∧ completions i extra = 0 := by
  simp only [accepted, refused, completions, List.countP_eq_zero]
  refine ⟨fun c hc => ?_, fun c hc => ?_, fun c hc => ?_⟩ <;>
    rcases h c hc with rfl | rfl <;> exact Bool.false_ne_true

end Counts

section Pending
variable [PriorityQueue Q WriteReq WriteReq.Less]

/-- How often request `i` is in the queue. -/
def pending (i : Nat) (q : Q) : Nat := (PriorityQueue.elems q).countP (fun wr => wr.id = i)

theorem pending_push (i : Nat) (q : Q) (wr : WriteReq) :
    pending i (PriorityQueue.push q wr) = pending i q + if wr.id = i then 1 else 0 := by
  rw [pending, PriorityQueue.elems_push, Multiset.countP_cons]
  rfl

theorem pending_top {q : Q} {wr : WriteReq} (h : PriorityQueue.top q = some wr) (i : Nat) :
    pending i q = pending i (PriorityQueue.pop q) + if wr.id = i then 1 else 0 := by
  rw [pending, PriorityQueue.elems_pop q wr h, Multiset.countP_cons]
  rfl

theorem pending_split {q q' : Q} {gone : List WriteReq}
    (h : PriorityQueue.elems q = (gone : Multiset WriteReq) + PriorityQueue.elems q') (i : Nat) :
    pending i q = gone.countP (fun wr => wr.id = i) + pending i q' := by
  rw [pending, h, Multiset.countP_add, Multiset.coe_countP]
  rfl

/-- The step answers no call and completes exactly what leaves the queue. -/
structure Settles (d d' : ModbusMasterDrv Q) : Prop where
  nextCall : d'.nextCall = d.nextCall
  accepted : ∀ i, accepted i d'.calls = accepted i d.calls
  refused : ∀ i, refused i d'.calls = refused i d.calls
  balance : ∀ i, pending i d'.mPendingWrites + completions i d'.calls =
    pending i d.mPendingWrites + completions i d.calls
  keeps : ∀ wr ∈ PriorityQueue.elems d'.mPendingWrites, wr ∈ PriorityQueue.elems d.mPendingWrites
  logs : ∃ extra, d'.calls = d.calls ++ extra

theorem Settles.trans {d d' d'' : ModbusMasterDrv Q} (h : Settles d d') (h' : Settles d' d'') :
    Settles d d'' where
  nextCall := h'.nextCall.trans h.nextCall
  accepted i := (h'.accepted i).trans (h.accepted i)
  refused i := (h'.refused i).trans (h.refused i)
  balance i := (h'.balance i).trans (h.balance i)
  keeps wr hwr := h.keeps wr (h'.keeps wr hwr)
  logs := by
    obtain ⟨extra, hextra⟩ := h.logs
    obtain ⟨extra', hextra'⟩ := h'.logs
    exact ⟨extra ++ extra', by rw [hextra', hextra, List.append_assoc]⟩

theorem Settles.of_same {d d' : ModbusMasterDrv Q} (hnext : d'.nextCall = d.nextCall)
    (hpending : d'.mPendingWrites = d.mPendingWrites) (hcalls : d'.calls = d.calls) :
    Settles d d' where
  nextCall := hnext
  accepted i := by rw [hcalls]
  refused i := by rw [hcalls]
  balance i := by rw [hcalls, hpending]
  keeps wr hwr := by rwa [hpending] at hwr
  logs := ⟨[], by rw [hcalls, List.append_nil]⟩

theorem settles_clean {d d' : ModbusMasterDrv Q} {gone : List WriteReq}
    (hnext : d'.nextCall = d.nextCall)
    (hcalls : d'.calls = d.calls ++ gone.map WriteReq.timeOutCall)
    (helems : PriorityQueue.elems d.mPendingWrites =
      (gone : Multiset WriteReq) + PriorityQueue.elems d'.mPendingWrites) : Settles d d' where
  nextCall := hnext
  accepted i := by rw [hcalls, accepted_append, accepted_timeOuts, Nat.add_zero]
  refused i := by rw [hcalls, refused_append, refused_timeOuts, Nat.add_zero]
  balance i := by
    rw [hcalls, completions_append, completions_timeOuts, pending_split helems]
    omega
  keeps wr hwr := by
    rw [helems]
    exact Multiset.mem_add.mpr (Or.inr hwr)
  logs := ⟨_, hcalls⟩

theorem settles_nextWrite (d : ModbusMasterDrv Q) (env : Env) :
    Settles d (d.processNextWrite L env).2 := by
  obtain ⟨q, gone, _, helems, _, hcases⟩ := d.processNextWrite_cases (L := L) env
  have hclean : Settles d { d with
      mPendingWrites := q, calls := d.calls ++ gone.map WriteReq.timeOutCall } :=
    settles_clean rfl rfl helems
  rcases hcases with ⟨_, h⟩ | ⟨wr, htop, h | h⟩
  · rw [h]
    exact hclean
  · rw [h]
    refine hclean.trans ⟨rfl, fun i => ?_, fun i => ?_, fun i => ?_, fun _ hwr => hwr, _, rfl⟩
    · rw [accepted_append]
      rfl
    · rw [refused_append]
      rfl
    · rw [completions_append]
      rfl
  · rw [h]
    refine hclean.trans ⟨rfl, fun i => ?_, fun i => ?_, fun i => ?_,
      fun _ hwr => mem_of_mem_pop htop hwr, _, rfl⟩
    · rw [accepted_append]
      rfl
    · rw [refused_append]
      rfl
    · simp only [completions_append, pending_top htop i]
      simp only [completions, completes, List.countP_cons, List.countP_nil]
      simp only [Bool.false_eq_true, if_false, decide_eq_true_eq]
      omega

theorem settles_serveCycle (d : ModbusMasterDrv Q) (env : Env) (hok : IteratorsOk d) :
    Settles d (d.serveCycle L env).2 := by
  simp only [ModbusMasterDrv.serveCycle]
  split
  · split
    · exact .of_same rfl rfl rfl
    · exact settles_nextWrite d env
  · split
    · obtain ⟨hsame, _, _⟩ := d.processNextRead_frame (L := L) env hok
      exact .of_same hsame.nextCall hsame.pending hsame.calls
    · exact .of_same rfl rfl rfl

theorem settles_connection {d d' : ModbusMasterDrv Q} {extra : List Call}
    (hextra : ∀ c ∈ extra, ModbusMasterDrv.ConnectionCall c)
    (hnext : d'.nextCall = d.nextCall) (hpending : d'.mPendingWrites = d.mPendingWrites)
    (hcalls : d'.calls = d.calls ++ extra) : Settles d d' where
  nextCall := hnext
  accepted i := by rw [hcalls, accepted_append, (counts_connection i hextra).1, Nat.add_zero]
  refused i := by rw [hcalls, refused_append, (counts_connection i hextra).2.1, Nat.add_zero]
  balance i := by
    rw [hcalls, completions_append, (counts_connection i hextra).2.2, Nat.add_zero, hpending]
  keeps wr hwr := by rwa [hpending] at hwr
  logs := ⟨extra, hcalls⟩

theorem settles_driverLoop (d : ModbusMasterDrv Q) (env : Env) (hok : IteratorsOk d) :
    Settles d (d.driverLoop L env) := by
  rcases d.driverLoop_cases (L := L) env with
    ⟨_, h⟩ | ⟨_, _, h⟩ | ⟨_, _, _, _, _, _, _, hextra, h⟩ | ⟨_, errors, text, extra, hextra, h⟩
  · rw [h]
    exact .of_same rfl rfl rfl
  · rw [h]
    have := settles_serveCycle (L := L) (d.updateCycles env.timePoint) env hok
    exact ⟨this.nextCall, this.accepted, this.refused, this.balance, this.keeps, this.logs⟩
  · rw [h]
    exact settles_connection hextra rfl rfl rfl
  · obtain ⟨q, gone, heq, helems, _⟩ := ModbusMasterDrv.cleanWriteRequests_spec { d with
      uiComErrors := errors, mstrLastError := text, calls := d.calls ++ extra }
      env.msSinceEpoch false
    have hconn : Settles d { d with
        uiComErrors := errors, mstrLastError := text, calls := d.calls ++ extra } :=
      settles_connection hextra rfl rfl rfl
    rw [h, heq]
    exact hconn.trans (settles_clean rfl rfl helems)

/-- No request is pending while the driver cannot serve it. -/
def Idle (d : ModbusMasterDrv Q) : Prop :=
  d.mtDrvState = .stopped ∨ d.mtDrvState = .unInit ∨ d.destroyed = true

/-- The account of every call made so far. -/
structure Accounted (d : ModbusMasterDrv Q) : Prop where
  wellFormed : d.WellFormed
  answered : ∀ i, accepted i d.calls + refused i d.calls = if i < d.nextCall then 1 else 0
  balance : ∀ i, pending i d.mPendingWrites + completions i d.calls = accepted i d.calls
  idle : Idle d → PriorityQueue.elems d.mPendingWrites = 0
  logged : ∀ wr ∈ PriorityQueue.elems d.mPendingWrites, .accepted wr ∈ d.calls

theorem Accounted.settle {d d' : ModbusMasterDrv Q} (h : Accounted d) (hs : Settles d d')
    (hwf : d'.WellFormed) (hidle : Idle d' → PriorityQueue.elems d'.mPendingWrites = 0) :
    Accounted d' where
  wellFormed := hwf
  answered i := by rw [hs.accepted, hs.refused, hs.nextCall]; exact h.answered i
  balance i := by rw [hs.balance, hs.accepted]; exact h.balance i
  idle := hidle
  logged wr hwr := by
    obtain ⟨extra, hextra⟩ := hs.logs
    rw [hextra]
    exact List.mem_append_left extra (h.logged wr (hs.keeps wr hwr))

theorem accounted_fresh (le : Bool) :
    Accounted (ModbusMasterDrv.fresh le : ModbusMasterDrv Q) where
  wellFormed := ModbusMasterDrv.run_wellFormed (L := floatAbcd) le []
  answered i := by simp [ModbusMasterDrv.fresh, accepted, refused]
  balance i := by simp [ModbusMasterDrv.fresh, pending, completions, accepted]
  idle _ := by simp [ModbusMasterDrv.fresh]
  logged wr hwr := by simp [ModbusMasterDrv.fresh] at hwr

theorem accounted_submit {d : ModbusMasterDrv Q} (h : Accounted d) (wr : WriteReq)
    (hend : d.mbDrvEnd = false) : Accounted (d.submit wr).2 := by
  have hwf : (d.submit wr).2.WellFormed :=
    (ModbusMasterDrv.wellFormed_kept (L := floatAbcd)).submit d wr h.wellFormed hend
  rcases d.submit_cases wr with heq | ⟨hstopped, hun, heq⟩
  · rw [heq] at hwf ⊢
    refine ⟨hwf, fun i => ?_, fun i => ?_, h.idle,
      fun r hr => List.mem_append_left _ (h.logged r hr)⟩
    · have := h.answered i
      simp only [accepted_append, refused_append]
      simp only [accepted, refused, accepts, refuses, List.countP_singleton]
      simp only [accepted, refused] at this
      by_cases hi : d.nextCall = i <;> simp [hi] <;> split_ifs at this ⊢ <;> omega
    · have := h.balance i
      simp only [accepted_append, completions_append]
      simpa [accepted, completions, accepts, completes] using this
  · rw [heq] at hwf ⊢
    refine ⟨hwf, fun i => ?_, fun i => ?_, fun hidle => ?_, fun r hr => ?_⟩
    · have := h.answered i
      simp only [accepted_append, refused_append]
      simp only [accepted, refused, accepts, refuses, List.countP_singleton]
      simp only [accepted, refused] at this
      by_cases hi : d.nextCall = i <;> simp [hi] <;> split_ifs at this ⊢ <;> omega
    · have := h.balance i
      simp only [accepted_append, completions_append, pending_push]
      simp only [accepted, completions, accepts, completes, List.countP_singleton] at this ⊢
      by_cases hi : d.nextCall = i <;> simp [hi] <;> omega
    · rcases hidle with hidle | hidle | hidle
      · exact absurd hidle hstopped
      · exact absurd hidle hun
      · have := (h.wellFormed.destroyed hidle).1
        rw [hend] at this
        cases this
    · rw [PriorityQueue.elems_push] at hr
      rcases Multiset.mem_cons.mp hr with rfl | hr
      · exact List.mem_append_right _ (List.mem_singleton.mpr rfl)
      · exact List.mem_append_left _ (h.logged r hr)

theorem accounted_init {d : ModbusMasterDrv Q} (h : Accounted d)
    (file : Except String (Option MasterXml)) (slaveVars fieldVars : List IOAddr) (newTcp : Bool)
    (strerror : String) : Accounted (d.init file slaveVars fieldVars newTcp strerror).2 := by
  have hwf := h.wellFormed.init file slaveVars fieldVars newTcp strerror
  obtain ⟨ok, d', heq, hcases⟩ := d.init_cases file slaveVars fieldVars newTcp strerror
  rw [heq] at hwf ⊢
  rcases hcases with ⟨hsame, _⟩ | ⟨hun, hsame, _⟩
  · refine h.settle (.of_same hsame.nextCall hsame.pending hsame.calls) hwf (fun hidle => ?_)
    rw [Idle, hsame.state, hsame.destroyed] at hidle
    rw [hsame.pending]
    exact h.idle hidle
  · refine h.settle (.of_same hsame.nextCall hsame.pending hsame.calls) hwf (fun _ => ?_)
    rw [hsame.pending]
    exact h.idle (Or.inr (Or.inl hun))

theorem accounted_driverLoop {d : ModbusMasterDrv Q} (h : Accounted d)
    (hd : d.destroyed = false) (env : Env) : Accounted (d.driverLoop L env) := by
  refine h.settle (settles_driverLoop d env h.wellFormed.iterators)
    (h.wellFormed.driverLoop hd env) (fun hidle => ?_)
  obtain ⟨_, hdestroyed, _, hsame⟩ := d.driverLoop_frame (L := L) env h.wellFormed.iterators
  rw [Idle, hdestroyed, hd, ← or_assoc, or_iff_left Bool.false_ne_true] at hidle
  have heq := hsame hidle
  rw [heq] at hidle ⊢
  rcases hidle with hidle | hidle
  · exact h.idle (Or.inl hidle)
  · exact h.idle (Or.inr (Or.inl hidle))

/-- Flushing the queue leaves nothing pending. -/
theorem accounted_flush {d d' : ModbusMasterDrv Q} (h : Accounted d) (hwf : d'.WellFormed)
    {q : Q} {gone : List WriteReq} (hnext : d'.nextCall = d.nextCall)
    (hpending : d'.mPendingWrites = q)
    (hcalls : d'.calls = d.calls ++ gone.map WriteReq.timeOutCall)
    (helems : PriorityQueue.elems d.mPendingWrites =
      (gone : Multiset WriteReq) + PriorityQueue.elems q)
    (hempty : PriorityQueue.elems q = 0) : Accounted d' := by
  subst hpending
  exact h.settle (settles_clean hnext hcalls helems) hwf (fun _ => hempty)

theorem accounted_kept :
    ModbusMasterDrv.Kept L (Accounted : ModbusMasterDrv Q → Prop) where
  init _ file slaveVars fieldVars newTcp strerror h :=
    accounted_init h file slaveVars fieldVars newTcp strerror
  start d now h := by
    have hwf := (ModbusMasterDrv.wellFormed_kept (L := L)).start d now h.wellFormed
    revert hwf
    simp only [ModbusMasterDrv.start]
    split
    · exact fun _ => h
    split
    · intro hwf
      refine h.settle (.of_same rfl rfl rfl) hwf (fun hidle => ?_)
      rcases hidle with hidle | hidle | hidle
      · cases hidle
      · cases hidle
      · exact h.idle (Or.inr (Or.inr hidle))
    · exact fun _ => h
  stop d now h := by
    have hwf := (ModbusMasterDrv.wellFormed_kept (L := L)).stop d now h.wellFormed
    revert hwf
    simp only [ModbusMasterDrv.stop]
    split
    · exact fun _ => h
    split
    · exact fun _ => h
    · obtain ⟨q, gone, heq, helems, _, hempty⟩ := d.cleanWriteRequests_spec now true
      rw [heq, ModbusMasterDrv.closeConnection_eq]
      exact fun hwf => accounted_flush h hwf rfl rfl rfl helems (hempty rfl)
  close d now h := by
    have hwf := (ModbusMasterDrv.wellFormed_kept (L := L)).close d now h.wellFormed
    revert hwf
    simp only [ModbusMasterDrv.close]
    split
    · exact fun _ => h
    · obtain ⟨q, gone, heq, helems, _, hempty⟩ :=
        ModbusMasterDrv.cleanWriteRequests_spec { d with mtDrvState := .unInit } now true
      simp only [heq, ModbusMasterDrv.closeConnection_eq]
      exact fun hwf => accounted_flush h hwf rfl rfl rfl helems (hempty rfl)
  submit d wr h hend := accounted_submit h wr hend
  getChangedVars d h := h.settle (.of_same rfl rfl rfl)
    ((ModbusMasterDrv.wellFormed_kept (L := L)).getChangedVars d h.wellFormed) h.idle
  driverLoop d env h hd := accounted_driverLoop h hd env
  beginDestructor d h := h.settle (.of_same rfl rfl rfl)
    ((ModbusMasterDrv.wellFormed_kept (L := L)).beginDestructor d h.wellFormed) h.idle
  finishDestructor d now h hend := by
    have hwf :=
      (ModbusMasterDrv.wellFormed_kept (L := L)).finishDestructor d now h.wellFormed hend
    revert hwf
    simp only [ModbusMasterDrv.finishDestructor]
    obtain ⟨q, gone, heq, helems, _, hempty⟩ := d.cleanWriteRequests_spec now true
    rw [heq, ModbusMasterDrv.closeConnection_eq]
    exact fun hwf => accounted_flush h hwf rfl rfl rfl helems (hempty rfl)

theorem run_accounted (le : Bool) (ops : List Op) :
    Accounted (run (ModbusMasterDrv.step L)
      (ModbusMasterDrv.fresh le : ModbusMasterDrv Q) ops) :=
  accounted_kept.run (accounted_fresh le) ops

theorem accepted_pos_iff (i : Nat) (calls : List Call) :
    0 < accepted i calls ↔ ∃ wr : WriteReq, wr.id = i ∧ .accepted wr ∈ calls := by
  rw [accepted, List.countP_pos_iff]
  constructor
  · rintro ⟨c, hc, ha⟩
    cases c with
    | accepted wr => exact ⟨wr, of_decide_eq_true ha, hc⟩
    | _ => cases ha
  · rintro ⟨wr, rfl, hc⟩
    exact ⟨_, hc, decide_eq_true rfl⟩

theorem refused_pos_iff (i : Nat) (calls : List Call) :
    0 < refused i calls ↔ .refused i ∈ calls := by
  rw [refused, List.countP_pos_iff]
  constructor
  · rintro ⟨c, hc, hr⟩
    cases c with
    | refused id => exact of_decide_eq_true hr ▸ hc
    | _ => cases hr
  · intro hc
    exact ⟨_, hc, decide_eq_true rfl⟩

theorem Accounted.accepted_eq_one {d : ModbusMasterDrv Q} (h : Accounted d) {wr : WriteReq}
    (hwr : .accepted wr ∈ d.calls) : accepted wr.id d.calls = 1 := by
  have hpos := (accepted_pos_iff wr.id d.calls).mpr ⟨wr, rfl, hwr⟩
  have := h.answered wr.id
  split_ifs at this <;> omega

theorem eq_of_countP_one {A : Type} {p : A → Bool} {as : List A} (h : as.countP p = 1) {a b : A}
    (ha : a ∈ as) (hb : b ∈ as) (hpa : p a = true) (hpb : p b = true) : a = b := by
  rw [List.countP_eq_length_filter] at h
  obtain ⟨c, hc⟩ := List.length_eq_one_iff.mp h
  have ha' := List.mem_filter.mpr ⟨ha, hpa⟩
  have hb' := List.mem_filter.mpr ⟨hb, hpb⟩
  rw [hc] at ha' hb'
  rw [List.mem_singleton.mp ha', List.mem_singleton.mp hb']

/-- A call is answered once, so an identifier stands for one request only. -/
theorem Accounted.accepted_unique {d : ModbusMasterDrv Q} (h : Accounted d) {wr wr' : WriteReq}
    (hwr : .accepted wr ∈ d.calls) (hwr' : .accepted wr' ∈ d.calls) (hid : wr'.id = wr.id) :
    wr' = wr :=
  Call.accepted.inj (eq_of_countP_one (h.accepted_eq_one hwr) hwr' hwr
    (decide_eq_true hid) (decide_eq_true rfl))

theorem Accounted.pending_iff {d : ModbusMasterDrv Q} (h : Accounted d) {wr : WriteReq}
    (hwr : .accepted wr ∈ d.calls) :
    wr ∈ PriorityQueue.elems d.mPendingWrites ↔ completions wr.id d.calls = 0 := by
  have hbalance := h.balance wr.id
  rw [h.accepted_eq_one hwr] at hbalance
  constructor
  · intro hmem
    have : 0 < pending wr.id d.mPendingWrites := Multiset.countP_pos.mpr ⟨wr, hmem, rfl⟩
    omega
  · intro hzero
    have : 0 < pending wr.id d.mPendingWrites := by omega
    obtain ⟨wr', hmem, hid⟩ := Multiset.countP_pos.mp this
    exact h.accepted_unique hwr (h.logged wr' hmem) hid ▸ hmem

/-- What a call of `write` or `force` returns is what the log says of it. -/
theorem submit_logs (d : ModbusMasterDrv Q) (wr : WriteReq) :
    ((d.submit wr).1 = true →
      (d.submit wr).2.calls = d.calls ++ [.accepted { wr with id := d.nextCall }]) ∧
    ((d.submit wr).1 = false → (d.submit wr).2.calls = d.calls ++ [.refused d.nextCall]) := by
  rcases d.submit_cases wr with heq | ⟨_, _, heq⟩
  · rw [heq]
    exact ⟨(fun h => by cases h), fun _ => rfl⟩
  · rw [heq]
    exact ⟨fun _ => rfl, (fun h => by cases h)⟩

/-- A call of `stop`, `close` or the destructor that the object still accepts. -/
def Ends (d : ModbusMasterDrv Q) : Op → Prop
  | .stop _ => d.mbDrvEnd = false
  | .close _ => d.mbDrvEnd = false
  | .finishDestructor _ => d.mbDrvEnd = true
  | _ => False

theorem stop_idle (d : ModbusMasterDrv Q) (now : Int) : Idle (d.stop now).2 := by
  simp only [ModbusMasterDrv.stop]
  split
  · rename_i hun
    exact Or.inr (Or.inl hun)
  split
  · rename_i hstopped
    exact Or.inl hstopped
  · exact Or.inl rfl

theorem close_idle (d : ModbusMasterDrv Q) (now : Int) : Idle (d.close now).2 := by
  simp only [ModbusMasterDrv.close]
  split
  · rename_i hun
    exact Or.inr (Or.inl hun)
  · obtain ⟨q, gone, heq, _⟩ :=
      ModbusMasterDrv.cleanWriteRequests_spec { d with mtDrvState := .unInit } now true
    simp only [heq, ModbusMasterDrv.closeConnection_eq]
    exact Or.inr (Or.inl rfl)

theorem idle_of_ends {d : ModbusMasterDrv Q} {op : Op} (h : Ends d op) :
    Idle (d.step L op) := by
  cases op with
  | stop now =>
    rw [show d.step L (.stop now) = (d.stop now).2 from if_neg (ne_true_of_eq_false h)]
    exact stop_idle d now
  | close now =>
    rw [show d.step L (.close now) = (d.close now).2 from if_neg (ne_true_of_eq_false h)]
    exact close_idle d now
  | finishDestructor now =>
    simp only [ModbusMasterDrv.step]
    split
    · exact Or.inr (Or.inr rfl)
    · rename_i hd
      by_contra hidle
      exact hd ⟨h, fun hdestroyed => hidle (Or.inr (Or.inr hdestroyed))⟩
  | _ => exact h.elim

/-- Every accepted request gets at most one of its two callbacks and is pending
exactly while it has had none, and every refused one gets none; once `stop`,
`close` or the destructor has returned every accepted request has had one. -/
theorem completed_exactly_once (le : Bool) (ops : List Op) :
    let d := run (ModbusMasterDrv.step L) (ModbusMasterDrv.fresh le : ModbusMasterDrv Q) ops
    (∀ wr, ((d.submit wr).1 = true →
        (d.submit wr).2.calls = d.calls ++ [.accepted { wr with id := d.nextCall }]) ∧
      ((d.submit wr).1 = false → (d.submit wr).2.calls = d.calls ++ [.refused d.nextCall])) ∧
    (∀ wr, .accepted wr ∈ d.calls → completions wr.id d.calls ≤ 1 ∧
      (wr ∈ PriorityQueue.elems d.mPendingWrites ↔ completions wr.id d.calls = 0)) ∧
    (∀ i, .refused i ∈ d.calls → completions i d.calls = 0) ∧
    ∀ op, Ends d op → ∀ wr, .accepted wr ∈ (d.step L op).calls →
      completions wr.id (d.step L op).calls = 1 := by
  intro d
  have h : Accounted d := run_accounted le ops
  refine ⟨submit_logs d, fun wr hwr => ⟨?_, h.pending_iff hwr⟩, fun i hi => ?_,
    fun op hop wr hwr => ?_⟩
  · have := h.balance wr.id
    rw [h.accepted_eq_one hwr] at this
    omega
  · have hanswered := h.answered i
    have hbalance := h.balance i
    have hpos := (refused_pos_iff i d.calls).mpr hi
    split_ifs at hanswered <;> omega
  · have h' : Accounted (d.step L op) := accounted_kept.step d op h
    have hbalance := h'.balance wr.id
    have hempty := h'.idle (idle_of_ends hop)
    rw [h'.accepted_eq_one hwr, pending, hempty, Multiset.countP_zero] at hbalance
    omega

end Pending

def oneWriteStart : List Op :=
  [.init (.ok (some ⟨some "127.0.0.1", some 502, some 0, some 1⟩)) [] [] true "", .start 0,
    .write 0 { uiChannel := 1 } 1000 0]

theorem stop_completes_write :
    completions 0 (ModbusMasterDrv.step floatAbcd (run (ModbusMasterDrv.step floatAbcd)
      (ModbusMasterDrv.fresh true : ModbusMasterDrv (WriteReq.Queue true)) oneWriteStart)
        (.stop 5)).calls = 1 :=
  (completed_exactly_once true oneWriteStart).2.2.2 (.stop 5) (show (_ : Bool) = false by decide)
    { id := 0, mtAddr := { uiChannel := 1 }, mbForce := false, mbForcedVal := false
      mfWriteVal := 0, mtWriteTimeOut := 1000, mTimeS := 0 } (by decide)

end WriteRequests
