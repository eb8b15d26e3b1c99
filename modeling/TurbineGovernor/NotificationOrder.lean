import TurbineGovernor.MasterPolling

/-!
# Error and recovery notifications

Only an attempt to reconnect in `COMError` notifies, a failed one only when it
finds the counter at zero. A watch remembers whether the last attempt failed;
the two callbacks take turns exactly when no attempt connects unless the last
one failed, and none fails at a zero counter if the last one did.
-/

namespace NotificationOrder
open CommonTypes PriorityQueues MasterDriver TransitionRuns

section Turns
universe u
variable {α : Type u} (a b : α)

/-- A prefix of `a, b, a, b, …`. -/
def TakeTurns (cs : List α) : Prop := ∃ n, cs <+: (List.replicate n [a, b]).flatten

/-- The call whose turn it is after `n` calls. -/
def inTurn (n : ℕ) : α := if n % 2 = 0 then a else b

theorem getElem?_turns (n i : ℕ) :
    (List.replicate n [a, b]).flatten[i]? = if i < 2 * n then some (inTurn a b i) else none := by
  induction n generalizing i with
  | zero => simp
  | succ n ih =>
    match i with
    | 0 => simp [List.replicate_succ, inTurn]
    | 1 =>
      have hlt : 1 < 2 * (n + 1) := by omega
      simp [List.replicate_succ, inTurn, hlt]
    | i + 2 =>
      have hturn : inTurn a b (i + 2) = inTurn a b i := by simp [inTurn]
      have hlt : i + 2 < 2 * (n + 1) ↔ i < 2 * n := by omega
      rw [List.replicate_succ, List.flatten_cons, hturn]
      simp only [hlt, ← ih i]
      rfl

theorem takeTurns_iff (cs : List α) :
    TakeTurns a b cs ↔ ∀ i c, cs[i]? = some c → c = inTurn a b i := by
  constructor
  · rintro ⟨n, rest, h⟩ i c hc
    have hi : i < cs.length := (List.getElem?_eq_some_iff.mp hc).1
    have hget := getElem?_turns a b n i
    rw [← h, List.getElem?_append_left hi, hc] at hget
    split at hget
    · exact Option.some.inj hget
    · cases hget
  · intro h
    refine ⟨cs.length, List.prefix_iff_getElem?.mpr ?_⟩
    intro i hi
    have hget := h i cs[i] (List.getElem?_eq_getElem hi)
    rw [getElem?_turns, if_pos (by omega), ← hget]

theorem takeTurns_nil : TakeTurns a b [] := ⟨0, List.nil_prefix⟩

theorem takeTurns_snoc (cs : List α) (c : α) :
    TakeTurns a b (cs ++ [c]) ↔ TakeTurns a b cs ∧ c = inTurn a b cs.length := by
  simp only [takeTurns_iff]
  constructor
  · intro h
    refine ⟨fun i c' hc => h i c' ?_, h cs.length c (by simp)⟩
    rw [List.getElem?_append_left (List.getElem?_eq_some_iff.mp hc).1, hc]
  · rintro ⟨h, hlast⟩ i c' hc
    rcases Nat.lt_trichotomy i cs.length with hi | hi | hi
    · rw [List.getElem?_append_left hi] at hc
      exact h i c' hc
    · subst hi
      rw [List.getElem?_concat_length] at hc
      rw [← Option.some.inj hc]
      exact hlast
    · have hlen := (List.getElem?_eq_some_iff.mp hc).1
      rw [List.length_append, List.length_singleton] at hlen
      omega

end Turns

variable {L : FloatAbcd} {Q : Type}

instance (c : Call) : Decidable (ModbusMasterDrv.ConnectionCall c) :=
  inferInstanceAs (Decidable (_ ∨ _))

/-- The calls of `mfComErrorCallB` and `mfRecoveredFromErrorCallB`, in order. -/
def notifications (calls : List Call) : List Call :=
  calls.filter (fun c => decide (ModbusMasterDrv.ConnectionCall c))

@[simp] theorem notifications_append (cs cs' : List Call) :
    notifications (cs ++ cs') = notifications cs ++ notifications cs' := List.filter_append ..

@[simp] theorem notifications_timeOuts (gone : List WriteReq) :
    notifications (gone.map WriteReq.timeOutCall) = [] := by
  apply List.filter_eq_nil_iff.mpr
  intro c hc
  obtain ⟨wr, _, rfl⟩ := List.mem_map.mp hc
  simp [ModbusMasterDrv.ConnectionCall, WriteReq.timeOutCall]

/-- The answer to the attempt to reconnect that a step makes in `COMError`. -/
def attempt (d : ModbusMasterDrv Q) : Op → Option Bool
  | .turn env =>
    if d.destroyed = false ∧ d.mtDrvState = .comError ∧ d.bConnected = false then
      some env.connects
    else none
  | _ => none

def notified (d : ModbusMasterDrv Q) (op : Op) : List Call :=
  match attempt d op with
  | some true => [.recoveredFromError]
  | some false => if d.uiComErrors = 0 then [.comError] else []
  | none => []

/-- What a step that makes no attempt leaves alone. -/
structure Quiet (d d' : ModbusMasterDrv Q) : Prop where
  notifications : notifications d'.calls = notifications d.calls
  counter : d'.uiComErrors = d.uiComErrors ∨ d'.uiComErrors = 0

theorem Quiet.refl (d : ModbusMasterDrv Q) : Quiet d d := ⟨rfl, Or.inl rfl⟩

theorem quiet_init (d : ModbusMasterDrv Q) (file : Except String (Option MasterXml))
    (slaveVars fieldVars : List IOAddr) (newTcp : Bool) (strerror : String) :
    Quiet d (d.init file slaveVars fieldVars newTcp strerror).2 := by
  constructor
  · obtain ⟨ok, d', heq, ⟨hsame, _⟩ | ⟨_, hsame, _⟩⟩ :=
      d.init_cases file slaveVars fieldVars newTcp strerror
    · rw [heq, hsame.calls]
    · rw [heq, hsame.calls]
  · have hload : (d.loadXMLConfig file).2.uiComErrors = d.uiComErrors := by
      simp only [ModbusMasterDrv.loadXMLConfig]
      split
      · rfl
      · rfl
      · simp only [ModbusMasterDrv.readXMLConfig]
        repeat' split
        all_goals rfl
    unfold ModbusMasterDrv.init
    split
    · exact Or.inl rfl
    split
    · rename_i hcfg
      rw [hcfg] at hload
      exact Or.inl hload
    · rename_i hcfg
      rw [hcfg] at hload
      dsimp only
      split
      · exact Or.inl hload
      split
      · exact Or.inr rfl
      · exact Or.inl hload

section Steps
variable [PriorityQueue Q WriteReq WriteReq.Less]

theorem quiet_cleanWriteRequests (d : ModbusMasterDrv Q) (iTimeS : Int) (bAll : Bool) :
    Quiet d (d.cleanWriteRequests iTimeS bAll) := by
  obtain ⟨q, gone, heq, _⟩ := d.cleanWriteRequests_spec iTimeS bAll
  rw [heq]
  exact ⟨by simp, Or.inl rfl⟩

theorem quiet_submit (d : ModbusMasterDrv Q) (wr : WriteReq) : Quiet d (d.submit wr).2 := by
  rcases d.submit_cases wr with heq | ⟨_, _, heq⟩
  · rw [heq]
    exact ⟨by simp [notifications, ModbusMasterDrv.ConnectionCall], Or.inl rfl⟩
  · rw [heq]
    exact ⟨by simp [notifications, ModbusMasterDrv.ConnectionCall], Or.inl rfl⟩

/-- Serving a cycle only answers requests and polls. -/
theorem quiet_serveCycle (d : ModbusMasterDrv Q) (env : Env)
    (hok : IteratorsOk d) : Quiet d (d.serveCycle L env).2 := by
  simp only [ModbusMasterDrv.serveCycle]
  split
  · split
    · exact ⟨rfl, Or.inl rfl⟩
    · obtain ⟨q, gone, _, _, _, ⟨_, h⟩ | ⟨wr, _, h | h⟩⟩ := d.processNextWrite_cases (L := L) env
      all_goals
        rw [h]
        exact ⟨by simp [notifications, ModbusMasterDrv.ConnectionCall, WriteReq.timeOutCall],
          Or.inl rfl⟩
  · split
    · refine ⟨congrArg notifications (d.processNextRead_frame (L := L) env hok).1.calls, ?_⟩
      rcases d.processNextRead_cases (L := L) env hok with
        ⟨_, _, _, _, h⟩ | ⟨_, _, _, _, h⟩ | ⟨_, _, h⟩ | ⟨_, _, h⟩
      all_goals
        rw [h]
        exact Or.inl rfl
    · exact .refl d

/-- Turns that make no attempt to reconnect in `COMError`. -/
theorem quiet_driverLoop (d : ModbusMasterDrv Q) (env : Env)
    (hok : IteratorsOk d)
    (hno : ¬ (d.mtDrvState = .comError ∧ d.bConnected = false)) :
    Quiet d (d.driverLoop L env) := by
  cases hstate : d.mtDrvState with
  | stopped =>
    simp only [ModbusMasterDrv.driverLoop, hstate]
    exact .refl d
  | unInit =>
    simp only [ModbusMasterDrv.driverLoop, hstate]
    exact .refl d
  | running =>
    cases hconn : d.bConnected with
    | true =>
      have hserve := quiet_serveCycle (L := L) (d.updateCycles env.timePoint) env hok
      simp only [ModbusMasterDrv.driverLoop, hstate, ModbusMasterDrv.runningTurn, hconn, if_true]
      split
      · rename_i h
        rw [h] at hserve
        exact ⟨hserve.notifications, hserve.counter⟩
      · rename_i h
        rw [h] at hserve
        exact ⟨hserve.notifications, hserve.counter⟩
    | false =>
      cases hc : env.connects with
      | true =>
        simp only [ModbusMasterDrv.driverLoop, hstate, ModbusMasterDrv.runningTurn, hconn,
          ModbusMasterDrv.createConnection, hc]
        exact ⟨rfl, Or.inr rfl⟩
      | false =>
        simp only [ModbusMasterDrv.driverLoop, hstate, ModbusMasterDrv.runningTurn, hconn,
          ModbusMasterDrv.createConnection, hc]
        exact ⟨rfl, Or.inl rfl⟩
  | comError =>
    have hconn : d.bConnected = true := by
      cases hconn : d.bConnected with
      | true => rfl
      | false => exact absurd ⟨hstate, hconn⟩ hno
    simp only [ModbusMasterDrv.driverLoop, hstate, ModbusMasterDrv.comErrorTurn, hconn, if_true,
      ModbusMasterDrv.closeConnection_eq]
    exact ⟨rfl, Or.inl rfl⟩
  | varError =>
    simp only [ModbusMasterDrv.driverLoop, hstate]
    exact ⟨rfl, Or.inl rfl⟩

theorem quiet_step {d : ModbusMasterDrv Q} (hok : IteratorsOk d) (op : Op)
    (hno : attempt d op = none) : Quiet d (d.step L op) := by
  cases op with
  | init file slaveVars fieldVars newTcp strerror =>
    exact ModbusMasterDrv.guarded (.refl d)
      (fun _ => quiet_init d file slaveVars fieldVars newTcp strerror)
  | start now =>
    refine ModbusMasterDrv.guarded (.refl d) (fun _ => ?_)
    simp only [ModbusMasterDrv.start]
    repeat' split
    all_goals exact ⟨rfl, Or.inl rfl⟩
  | stop now =>
    refine ModbusMasterDrv.guarded (.refl d) (fun _ => ?_)
    have hclean := quiet_cleanWriteRequests d now true
    simp only [ModbusMasterDrv.stop]
    split
    · exact .refl d
    split
    · exact .refl d
    · rw [ModbusMasterDrv.closeConnection_eq]
      exact ⟨hclean.notifications, Or.inr rfl⟩
  | close now =>
    refine ModbusMasterDrv.guarded (.refl d) (fun _ => ?_)
    have hclean := quiet_cleanWriteRequests { d with mtDrvState := .unInit } now true
    simp only [ModbusMasterDrv.close]
    split
    · exact .refl d
    · simp only [ModbusMasterDrv.closeConnection_eq]
      exact ⟨hclean.notifications, Or.inr rfl⟩
  | write fVal tAddr tWriteTimeOut now =>
    exact ModbusMasterDrv.guarded (.refl d) (fun _ => quiet_submit d _)
  | force fVal tAddr bForceBitVal tWriteTimeOut now =>
    exact ModbusMasterDrv.guarded (.refl d) (fun _ => quiet_submit d _)
  | getChangedVars => exact ModbusMasterDrv.guarded (.refl d) (fun _ => ⟨rfl, Or.inl rfl⟩)
  | turn env =>
    refine ModbusMasterDrv.guarded (.refl d) (fun hd => quiet_driverLoop d env hok ?_)
    intro herror
    simp [attempt, hd, herror.1, herror.2] at hno
  | beginDestructor => exact ⟨rfl, Or.inl rfl⟩
  | finishDestructor now =>
    have hclean := quiet_cleanWriteRequests d now true
    simp only [ModbusMasterDrv.step]
    split
    · simp only [ModbusMasterDrv.finishDestructor]
      rw [ModbusMasterDrv.closeConnection_eq]
      exact ⟨hclean.notifications, Or.inr rfl⟩
    · exact .refl d

theorem comErrorTurn_connects {d : ModbusMasterDrv Q} {env : Env} (hconn : d.bConnected = false)
    (hc : env.connects = true) : d.comErrorTurn env =
      { d with bConnected := true, uiComErrors := 0, mtDrvState := .running
               calls := d.calls ++ [.recoveredFromError] } := by
  simp [ModbusMasterDrv.comErrorTurn, ModbusMasterDrv.createConnection, hconn, hc,
    ModbusMasterDrv.log]

theorem comErrorTurn_fails {d : ModbusMasterDrv Q} {env : Env} (hconn : d.bConnected = false)
    (hc : env.connects = false) : d.comErrorTurn env = ModbusMasterDrv.cleanWriteRequests
      { d with mstrLastError := env.bus.strerror
               uiComErrors := min (d.uiComErrors + 1) MAX_COM_ERROR_TRYS
               calls := d.calls ++ if d.uiComErrors = 0 then [.comError] else [] }
      env.msSinceEpoch := by
  by_cases hzero : d.uiComErrors = 0
  · simp [ModbusMasterDrv.comErrorTurn, ModbusMasterDrv.createConnection, hconn, hc, hzero,
      ModbusMasterDrv.log]
  · simp [ModbusMasterDrv.comErrorTurn, ModbusMasterDrv.createConnection, hconn, hc, hzero]

/-- An attempt notifies the recovery, or the failure that finds the counter at zero. -/
theorem attempt_step {d : ModbusMasterDrv Q} {op : Op} {connects : Bool}
    (h : attempt d op = some connects) :
    notifications (d.step L op).calls = notifications d.calls ++ notified d op ∧
      ((d.step L op).uiComErrors = 0 ↔ connects = true) := by
  have hnotified : notified d op = if connects = true then [.recoveredFromError] else
      if d.uiComErrors = 0 then [.comError] else [] := by
    simp only [notified]
    rw [h]
    cases connects
    · rfl
    · rfl
  rw [hnotified]
  cases op with
  | turn env =>
    simp only [attempt] at h
    split at h
    · rename_i hcond
      obtain ⟨hd, hstate, hconn⟩ := hcond
      have hc : env.connects = connects := Option.some.inj h
      have hturn : d.step L (.turn env) = d.comErrorTurn env := by
        simp only [ModbusMasterDrv.step, hd, Bool.false_eq_true, if_false,
          ModbusMasterDrv.driverLoop, hstate]
      rw [hturn]
      cases connects with
      | true =>
        rw [comErrorTurn_connects hconn hc]
        exact ⟨by simp [notifications, ModbusMasterDrv.ConnectionCall], by simp⟩
      | false =>
        rw [comErrorTurn_fails hconn hc]
        obtain ⟨q, gone, heq, _⟩ := ModbusMasterDrv.cleanWriteRequests_spec
          { d with mstrLastError := env.bus.strerror
                   uiComErrors := min (d.uiComErrors + 1) MAX_COM_ERROR_TRYS
                   calls := d.calls ++ if d.uiComErrors = 0 then [.comError] else [] }
          env.msSinceEpoch false
        rw [heq]
        constructor
        · simp only [notifications_append, notifications_timeOuts, List.append_nil,
            Bool.false_eq_true, if_false]
          split
          · rfl
          · rfl
        · simp [MAX_COM_ERROR_TRYS]
    · cases h
  | _ => cases h

/-- The driver, and whether its last attempt to reconnect in `COMError` failed. -/
def watch (L : FloatAbcd) (s : ModbusMasterDrv Q × Bool) (op : Op) : ModbusMasterDrv Q × Bool :=
  (s.1.step L op, match attempt s.1 op with
    | some connects => !connects
    | none => s.2)

/-- An attempt connects only after one that failed; an attempt that finds the
counter at zero fails only after one that connected, or as the first. -/
def Orderly (s : ModbusMasterDrv Q × Bool) (op : Op) : Prop :=
  match attempt s.1 op with
  | some true => s.2 = true
  | some false => s.1.uiComErrors = 0 → s.2 = false
  | none => True

instance (s : ModbusMasterDrv Q × Bool) (op : Op) : Decidable (Orderly s op) := by
  simp only [Orderly]
  split <;> infer_instance

/-- The calls up to here alternate, the last one is an error exactly when the
last attempt failed, and a counter above zero is one of such an error. -/
structure Watched (s : ModbusMasterDrv Q × Bool) : Prop where
  wellFormed : s.1.WellFormed
  turns : TakeTurns .comError .recoveredFromError (notifications s.1.calls)
  failing : s.2 = true ↔ (notifications s.1.calls).length % 2 = 1
  counted : s.1.uiComErrors ≠ 0 → s.2 = true

theorem inTurn_error {n : ℕ} : Call.comError = inTurn Call.comError .recoveredFromError n ↔
    ¬ n % 2 = 1 := by
  simp only [inTurn]
  split
  · simp [*]
  · rename_i h
    simp
    omega

theorem inTurn_recovered {n : ℕ} :
    Call.recoveredFromError = inTurn Call.comError .recoveredFromError n ↔ n % 2 = 1 := by
  simp only [inTurn]
  split
  · simp [*]
  · rename_i h
    simp
    omega

/-- Under the invariant a step is orderly exactly when the calls still alternate after it. -/
theorem orderly_iff {s : ModbusMasterDrv Q × Bool} (h : Watched s) (op : Op) :
    TakeTurns .comError .recoveredFromError (notifications (s.1.step L op).calls) ↔
      Orderly s op := by
  have hfailing := h.failing
  cases hattempt : attempt s.1 op with
  | none =>
    rw [(quiet_step h.wellFormed.iterators op hattempt).notifications]
    simp only [Orderly, hattempt, iff_true]
    exact h.turns
  | some connects =>
    rw [(attempt_step hattempt).1]
    cases connects with
    | true =>
      simp only [notified, Orderly, hattempt]
      rw [takeTurns_snoc, inTurn_recovered, hfailing]
      exact and_iff_right h.turns
    | false =>
      simp only [notified, Orderly, hattempt]
      by_cases hzero : s.1.uiComErrors = 0
      · rw [if_pos hzero, takeTurns_snoc, inTurn_error, ← hfailing, Bool.not_eq_true]
        simp only [hzero, true_imp_iff]
        exact and_iff_right h.turns
      · rw [if_neg hzero, List.append_nil]
        simp only [hzero, false_imp_iff, iff_true]
        exact h.turns

theorem Watched.step {s : ModbusMasterDrv Q × Bool} (h : Watched s) (op : Op)
    (horderly : Orderly s op) : Watched (watch L s op) := by
  have hturns := (orderly_iff (L := L) h op).mpr horderly
  have hfailing := h.failing
  refine ⟨ModbusMasterDrv.wellFormed_kept.step s.1 op h.wellFormed, hturns, ?_, ?_⟩
  · cases hattempt : attempt s.1 op with
    | none =>
      simp only [watch, hattempt]
      rw [(quiet_step h.wellFormed.iterators op hattempt).notifications]
      exact hfailing
    | some connects =>
      simp only [watch, hattempt]
      rw [(attempt_step hattempt).1]
      cases connects with
      | true =>
        simp only [Orderly, hattempt] at horderly
        have hodd := hfailing.mp horderly
        simp only [notified, hattempt, List.length_append, List.length_singleton]
        simp
        omega
      | false =>
        simp only [Orderly, hattempt] at horderly
        by_cases hzero : s.1.uiComErrors = 0
        · have heven : ¬ (notifications s.1.calls).length % 2 = 1 := by
            rw [← hfailing, horderly hzero]
            exact Bool.false_ne_true
          simp only [notified, hattempt, if_pos hzero, List.length_append, List.length_singleton]
          simp
          omega
        · have hodd := hfailing.mp (h.counted hzero)
          simp only [notified, hattempt, if_neg hzero, List.append_nil]
          simpa using hodd
  · intro hcount
    cases hattempt : attempt s.1 op with
    | none =>
      simp only [watch, hattempt] at hcount ⊢
      rcases (quiet_step (L := L) h.wellFormed.iterators op hattempt).counter with hsame | hzero
      · exact h.counted (hsame ▸ hcount)
      · exact absurd hzero hcount
    | some connects =>
      simp only [watch, hattempt] at hcount ⊢
      cases connects with
      | true => exact absurd ((attempt_step hattempt).2.mpr rfl) hcount
      | false => rfl

theorem watched_fresh (le : Bool) :
    Watched ((ModbusMasterDrv.fresh le : ModbusMasterDrv Q), false) := by
  refine ⟨ModbusMasterDrv.run_wellFormed (L := floatAbcd) le [], takeTurns_nil _ _, ?_, ?_⟩
  · simp [ModbusMasterDrv.fresh, notifications]
  · intro h
    exact absurd rfl h

/-- In every run the error and the recovery notifications alternate in every
state reached exactly when every step of it is orderly. -/
theorem notifications_alternate_iff (le : Bool) (ops : List Op) :
    Along (ModbusMasterDrv.step L) (fun (d : ModbusMasterDrv Q) op =>
        TakeTurns .comError .recoveredFromError (notifications (d.step L op).calls))
        (ModbusMasterDrv.fresh le) ops ↔
      Along (watch L) Orderly ((ModbusMasterDrv.fresh le : ModbusMasterDrv Q), false) ops := by
  refine along_simulation (R := fun d s => d = s.1 ∧ Watched s) ?_ ?_
    ⟨rfl, watched_fresh le⟩ ops
  · rintro _ s op ⟨rfl, h⟩
    exact orderly_iff h op
  · rintro _ s op ⟨rfl, h⟩ horderly
    exact ⟨rfl, h.step op horderly⟩

end Steps

def setUp : List Op :=
  [.init (.ok (some ⟨some "127.0.0.1", some 502, some 0, some 1⟩)) [] [] true "", .start 0]

def connecting (connects : Bool) : Op :=
  .turn { MasterPolling.healthyEnv 0 with connects := connects }

/-- The calls of a run of the set up driver. -/
def notificationsOf (ops : List Op) : List Call :=
  notifications (run (ModbusMasterDrv.step floatAbcd)
    (ModbusMasterDrv.fresh true : ModbusMasterDrv (WriteReq.Queue true)) (setUp ++ ops)).calls

/-- An outage shorter than a turn is only notified as over; a stop in an outage
lets its error be notified twice. -/
theorem outages_out_of_order :
    notificationsOf [connecting false, connecting true] = [.recoveredFromError] ∧
    ¬ TakeTurns Call.comError .recoveredFromError
      (notificationsOf [connecting false, connecting true]) ∧
    notificationsOf [connecting false, connecting false, .stop 0, .start 0, connecting false,
      connecting false] = [.comError, .comError] ∧
    ¬ TakeTurns Call.comError .recoveredFromError
      (notificationsOf [connecting false, connecting false, .stop 0, .start 0, connecting false,
        connecting false]) := by
  have hfirst : notificationsOf [connecting false, connecting true] = [.recoveredFromError] := by
    decide
  have hsecond : notificationsOf [connecting false, connecting false, .stop 0, .start 0,
      connecting false, connecting false] = [.comError, .comError] := by
    decide
  refine ⟨hfirst, ?_, hsecond, ?_⟩
  · rw [hfirst, takeTurns_iff]
    intro h
    exact absurd (h 0 _ rfl) (by decide)
  · rw [hsecond, takeTurns_iff]
    intro h
    exact absurd (h 1 _ rfl) (by decide)

end NotificationOrder
