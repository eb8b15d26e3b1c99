import TurbineGovernor.HmiImage

/-!
# The button write protocol

An address that receives only button writes is idle, being pressed or being
released. The phase is spread over two maps, a queue and the driver's pending
requests; what other addresses do leaves all four alone.
-/

namespace ButtonProtocol
open CommonTypes TransitionRuns HmiImage

/-- Calls of the GUI, callbacks of the driver and changes of its state. -/
inductive Label where
  | writeVarAsButton (varID : BitVec 32) (val ok : Bool)
  | writeVar (varID : BitVec 32) (val : Single) (ok : Bool)
  | forceVar (varID : BitVec 32) (forceVal : Single) (forceBit ok : Bool)
  | updateImage (oks : List Bool)
  | succeed (w : DriverWrite)
  | expire (w : DriverWrite)
  | start
  | stop (order : List DriverWrite)
  | connection (up : Bool)

/-- A callback runs for a pending request only, `stop` runs those of all. -/
def step (s : RegImage) : Label → RegImage
  | .writeVarAsButton varID val ok => (s.writeVarAsButton varID val ok).2
  | .writeVar varID val ok => (s.writeVar varID val ok).2
  | .forceVar varID forceVal forceBit ok => (s.forceVar varID forceVal forceBit ok).2
  | .updateImage oks => s.updateImage oks
  | .succeed w => if w ∈ s.pending then s.succeed w else s
  | .expire w => if w ∈ s.pending then s.expire w else s
  | .start => s.start
  | .stop order => if (order : Multiset DriverWrite) = s.pending then s.stop order else s
  | .connection up =>
    if s.mtDrvState = .running ∨ s.mtDrvState = .comError then
      { s with mtDrvState := if up then .running else .comError }
    else s

/-- The address receives no write but button writes. -/
def NoPlainWrite (a : IOAddr) (s : RegImage) : Label → Prop
  | .writeVar varID _ _ => ∀ var, s.vars.mumSlaveVars.lookup varID = some var → var.mtAddr ≠ a
  | .forceVar varID _ _ _ => ∀ var, s.vars.mumFieldVars.lookup varID = some var → var.mtAddr ≠ a
  | _ => True

inductive Phase where
  | idle
  | pressing (v : Bool)
  | releasing (v : Bool)
  deriving DecidableEq

def queuedAt (s : RegImage) (a : IOAddr) : List (IOAddr × Bool) :=
  s.mqUncompletedButtonWrites.filter (fun e => e.1 = a)

def pendingAt (s : RegImage) (a : IOAddr) : Multiset DriverWrite :=
  s.pending.filter (fun w => w.tAddr = a)

/-- Where the writes of an address are in each phase. -/
def InPhase (s : RegImage) (a : IOAddr) : Phase → Prop
  | .idle => s.mumButtonWrites a = none ∧ s.mumButtonWritesToClean a = none ∧
      queuedAt s a = [] ∧ pendingAt s a = 0
  | .pressing v => s.mumButtonWrites a = some v ∧ s.mumButtonWritesToClean a = none ∧
      queuedAt s a = [] ∧ pendingAt s a = {buttonWrite a v}
  | .releasing v => s.mumButtonWrites a = none ∧ s.mumButtonWritesToClean a = some v ∧
      (queuedAt s a = [(a, v)] ∧ pendingAt s a = 0 ∨
        queuedAt s a = [] ∧ pendingAt s a = {buttonWrite a v})

/-- The maps decide the phase. -/
theorem inPhase_unique {s : RegImage} {a : IOAddr} {p q : Phase} (hp : InPhase s a p)
    (hq : InPhase s a q) : p = q := by
  cases p <;> cases q <;> obtain ⟨hp1, hp2, _⟩ := hp <;> obtain ⟨hq1, hq2, _⟩ := hq <;>
    rw [hp1] at hq1 <;> rw [hp2] at hq2 <;> simp_all

/-- Nothing that concerns the address has changed. -/
structure SameAt (a : IOAddr) (s s' : RegImage) : Prop where
  vars : s'.vars = s.vars
  press : s'.mumButtonWrites a = s.mumButtonWrites a
  clean : s'.mumButtonWritesToClean a = s.mumButtonWritesToClean a
  queued : queuedAt s' a = queuedAt s a
  pending : pendingAt s' a = pendingAt s a

theorem SameAt.refl (a : IOAddr) (s : RegImage) : SameAt a s s := ⟨rfl, rfl, rfl, rfl, rfl⟩

theorem SameAt.inPhase {a : IOAddr} {s s' : RegImage} (h : SameAt a s s') {p : Phase}
    (hp : InPhase s a p) : InPhase s' a p := by
  cases p <;> simp only [InPhase, h.press, h.clean, h.queued, h.pending] <;> exact hp

/-- An address in a phase; one whose writes are recorded belongs to a variable. -/
structure Ok (a : IOAddr) (p : Phase) (s : RegImage) : Prop where
  phase : InPhase s a p
  known : p ≠ .idle → (s.vars.mumVars.lookup a).isSome

theorem SameAt.ok {a : IOAddr} {s s' : RegImage} (h : SameAt a s s') {p : Phase}
    (hp : Ok a p s) : Ok a p s' :=
  ⟨h.inPhase hp.phase, fun hne => h.vars ▸ hp.known hne⟩

section Operations
variable {s : RegImage} {a : IOAddr} {p : Phase}

theorem pendingAt_cons_other {s : RegImage} {w : DriverWrite} (h : w.tAddr ≠ a) :
    pendingAt { s with pending := w ::ₘ s.pending } a = pendingAt s a :=
  Multiset.filter_cons_of_neg _ h

theorem pendingAt_cons_same {s : RegImage} {w : DriverWrite} (h : w.tAddr = a) :
    pendingAt { s with pending := w ::ₘ s.pending } a = w ::ₘ pendingAt s a :=
  Multiset.filter_cons_of_pos _ h

theorem pendingAt_erase_other {w : DriverWrite} (hw : w ∈ s.pending) (h : w.tAddr ≠ a) :
    (s.pending.erase w).filter (fun w => w.tAddr = a) = pendingAt s a := by
  obtain ⟨rest, hrest⟩ := Multiset.exists_cons_of_mem hw
  rw [pendingAt, hrest, Multiset.erase_cons_head,
    Multiset.filter_cons_of_neg (p := fun w : DriverWrite => w.tAddr = a) _ h]

/-- A pending request of an address is the one that its phase knows of. -/
theorem pendingAt_single {w w' : DriverWrite} (hw : w ∈ s.pending) (h : w.tAddr = a)
    (hp : pendingAt s a = {w'}) :
    w = w' ∧ (s.pending.erase w).filter (fun w => w.tAddr = a) = 0 := by
  obtain ⟨rest, hrest⟩ := Multiset.exists_cons_of_mem hw
  rw [pendingAt, hrest,
    Multiset.filter_cons_of_pos (p := fun w : DriverWrite => w.tAddr = a) _ h] at hp
  obtain ⟨rfl, hzero⟩ := Multiset.cons_eq_cons.mp
    (hp : w ::ₘ _ = w' ::ₘ 0) |>.resolve_right (fun hc => by
      obtain ⟨_, _, _, hc⟩ := hc
      exact Multiset.cons_ne_zero hc.symm)
  refine ⟨rfl, ?_⟩
  rw [hrest, Multiset.erase_cons_head, hzero]

theorem not_pendingAt_zero {w : DriverWrite} (hw : w ∈ s.pending) (h : w.tAddr = a) :
    pendingAt s a ≠ 0 := by
  intro hzero
  have hmem : w ∈ pendingAt s a := Multiset.mem_filter.mpr ⟨hw, h⟩
  rw [hzero] at hmem
  exact Multiset.notMem_zero w hmem

theorem request_cases (s : RegImage) (w : DriverWrite) (ok : Bool) :
    s.request w ok = (false, s) ∨
    s.request w ok = (true, { s with pending := w ::ₘ s.pending }) := by
  simp only [RegImage.request]
  split
  · exact Or.inr rfl
  · exact Or.inl rfl

theorem request_other (s : RegImage) {w : DriverWrite} (h : w.tAddr ≠ a) (ok : Bool) :
    SameAt a s (s.request w ok).2 := by
  rcases request_cases s w ok with heq | heq
  · rw [heq]
    exact .refl a s
  · rw [heq]
    exact ⟨rfl, rfl, rfl, rfl, pendingAt_cons_other h⟩

theorem writeVar_other (s : RegImage) {varID : BitVec 32} (val : Single) (ok : Bool)
    (h : ∀ var, s.vars.mumSlaveVars.lookup varID = some var → var.mtAddr ≠ a) :
    SameAt a s (s.writeVar varID val ok).2 := by
  simp only [RegImage.writeVar]
  split
  · exact .refl a s
  · rename_i var hvar
    exact request_other s (h var hvar) ok

theorem forceVar_other (s : RegImage) {varID : BitVec 32} (forceVal : Single) (forceBit ok : Bool)
    (h : ∀ var, s.vars.mumFieldVars.lookup varID = some var → var.mtAddr ≠ a) :
    SameAt a s (s.forceVar varID forceVal forceBit ok).2 := by
  simp only [RegImage.forceVar]
  split
  · exact .refl a s
  · rename_i var hvar
    exact request_other s (h var hvar) ok

theorem driverWriteTimeOut_other (s : RegImage) {b : IOAddr} (h : b ≠ a) :
    SameAt a s (s.driverWriteTimeOut b) := by
  simp only [RegImage.driverWriteTimeOut]
  split
  · exact .refl a s
  split
  · exact ⟨rfl, Function.update_of_ne (Ne.symm h) _ _, rfl, rfl, rfl⟩
  split
  · refine ⟨rfl, rfl, rfl, ?_, rfl⟩
    simp [queuedAt, h]
  · exact ⟨rfl, rfl, rfl, rfl, rfl⟩

theorem driverWriteSuccess_other (s : RegImage) {b : IOAddr} (h : b ≠ a) :
    SameAt a s (s.driverWriteSuccess b) := by
  simp only [RegImage.driverWriteSuccess]
  split
  · refine ⟨rfl, Function.update_of_ne (Ne.symm h) _ _, Function.update_of_ne (Ne.symm h) _ _,
      ?_, rfl⟩
    simp [queuedAt, h]
  split
  · exact ⟨rfl, rfl, Function.update_of_ne (Ne.symm h) _ _, rfl, rfl⟩
  · exact .refl a s

theorem succeed_other {w : DriverWrite} (hw : w ∈ s.pending) (h : w.tAddr ≠ a) :
    SameAt a s (s.succeed w) := by
  have hsame : SameAt a s (if w.onSuccess then s.driverWriteSuccess w.tAddr else s) := by
    split
    · exact driverWriteSuccess_other s h
    · exact .refl a s
  exact ⟨hsame.vars, hsame.press, hsame.clean, hsame.queued, pendingAt_erase_other hw h⟩

theorem expire_other {w : DriverWrite} (hw : w ∈ s.pending) (h : w.tAddr ≠ a) :
    SameAt a s (s.expire w) := by
  have hsame := driverWriteTimeOut_other s h
  exact ⟨hsame.vars, hsame.press, hsame.clean, hsame.queued, pendingAt_erase_other hw h⟩

/-- A successful press schedules the release. -/
theorem succeed_pressing {v : Bool} (h : Ok a (.pressing v) s) {w : DriverWrite}
    (hw : w ∈ s.pending) (ha : w.tAddr = a) : Ok a (.releasing (!v)) (s.succeed w) := by
  obtain ⟨hpress, hclean, hqueued, hpending⟩ := h.phase
  obtain ⟨rfl, hrest⟩ := pendingAt_single hw ha hpending
  have hstep : s.succeed (buttonWrite a v) = { s with
      pending := s.pending.erase (buttonWrite a v)
      mumButtonWrites := Function.update s.mumButtonWrites a none
      mumButtonWritesToClean := Function.update s.mumButtonWritesToClean a (some !v)
      mqUncompletedButtonWrites := s.mqUncompletedButtonWrites ++ [(a, !v)] } := by
    simp only [RegImage.succeed, buttonWrite, if_true, RegImage.driverWriteSuccess, hpress]
  rw [hstep]
  refine ⟨⟨Function.update_self _ _ _, Function.update_self _ _ _, Or.inl ⟨?_, hrest⟩⟩,
    fun _ => h.known (fun hc => by cases hc)⟩
  rw [queuedAt, List.filter_append]
  rw [queuedAt] at hqueued
  simp [hqueued]

/-- A successful release ends it. -/
theorem succeed_releasing {v : Bool} (h : Ok a (.releasing v) s) {w : DriverWrite}
    (hw : w ∈ s.pending) (ha : w.tAddr = a) : Ok a .idle (s.succeed w) := by
  obtain ⟨hpress, hclean, ⟨_, hzero⟩ | ⟨hqueued, hpending⟩⟩ := h.phase
  · exact absurd hzero (not_pendingAt_zero hw ha)
  obtain ⟨rfl, hrest⟩ := pendingAt_single hw ha hpending
  have hstep : s.succeed (buttonWrite a v) = { s with
      pending := s.pending.erase (buttonWrite a v)
      mumButtonWritesToClean := Function.update s.mumButtonWritesToClean a none } := by
    simp only [RegImage.succeed, buttonWrite, if_true, RegImage.driverWriteSuccess, hpress, hclean]
  rw [hstep]
  exact ⟨⟨hpress, Function.update_self _ _ _, hqueued, hrest⟩, fun hc => absurd rfl hc⟩

/-- An expired press is over, an expired release is queued again. -/
theorem expire_pressing {v : Bool} (h : Ok a (.pressing v) s) {w : DriverWrite}
    (hw : w ∈ s.pending) (ha : w.tAddr = a) : Ok a .idle (s.expire w) := by
  obtain ⟨hpress, hclean, hqueued, hpending⟩ := h.phase
  obtain ⟨rfl, hrest⟩ := pendingAt_single hw ha hpending
  obtain ⟨var, hvar⟩ := Option.isSome_iff_exists.mp (h.known (fun hc => by cases hc))
  have hstep : s.expire (buttonWrite a v) = { s with
      pending := s.pending.erase (buttonWrite a v)
      mumButtonWrites := Function.update s.mumButtonWrites a none
      writeErrors := s.writeErrors ++ [var.muiVarId] } := by
    simp only [RegImage.expire, buttonWrite, RegImage.driverWriteTimeOut, hvar, hpress]
  rw [hstep]
  exact ⟨⟨Function.update_self _ _ _, hclean, hqueued, hrest⟩, fun hc => absurd rfl hc⟩

theorem expire_releasing {v : Bool} (h : Ok a (.releasing v) s) {w : DriverWrite}
    (hw : w ∈ s.pending) (ha : w.tAddr = a) : Ok a (.releasing v) (s.expire w) := by
  have hknown := h.known (fun hc => by cases hc)
  obtain ⟨hpress, hclean, ⟨_, hzero⟩ | ⟨hqueued, hpending⟩⟩ := h.phase
  · exact absurd hzero (not_pendingAt_zero hw ha)
  obtain ⟨rfl, hrest⟩ := pendingAt_single hw ha hpending
  obtain ⟨var, hvar⟩ := Option.isSome_iff_exists.mp hknown
  have hstep : s.expire (buttonWrite a v) = { s with
      pending := s.pending.erase (buttonWrite a v)
      mqUncompletedButtonWrites := s.mqUncompletedButtonWrites ++ [(a, v)] } := by
    simp only [RegImage.expire, buttonWrite, RegImage.driverWriteTimeOut, hvar, hpress, hclean]
  rw [hstep]
  refine ⟨⟨hpress, hclean, Or.inl ⟨?_, hrest⟩⟩, fun _ => hknown⟩
  rw [queuedAt, List.filter_append]
  rw [queuedAt] at hqueued
  simp [hqueued]

/-- While an address is not idle a press of it is refused. -/
theorem writeVarAsButton_refused (h : InPhase s a p) (hp : p ≠ .idle) {varID : BitVec 32}
    {var : RegVar} (hvar : s.vars.mumSlaveVars.lookup varID = some var) (ha : var.mtAddr = a)
    (val ok : Bool) : s.writeVarAsButton varID val ok = (false, s) := by
  have hbusy : ¬ (s.mumButtonWritesToClean a = none ∧ s.mumButtonWrites a = none) := by
    rintro ⟨hclean, hpress⟩
    cases p with
    | idle => exact hp rfl
    | pressing v => exact absurd (hpress ▸ h.1) (by simp)
    | releasing v => exact absurd (hclean ▸ h.2.1) (by simp)
  simp only [RegImage.writeVarAsButton, hvar, ha, if_neg hbusy]

theorem writeVarAsButton_idle (h : Ok a .idle s) {varID : BitVec 32} {var : RegVar}
    (hvar : s.vars.mumSlaveVars.lookup varID = some var) (ha : var.mtAddr = a) (val ok : Bool) :
    Ok a .idle (s.writeVarAsButton varID val ok).2 ∨
    Ok a (.pressing val) (s.writeVarAsButton varID val ok).2 := by
  obtain ⟨hpress, hclean, hqueued, hpending⟩ := h.phase
  simp only [RegImage.writeVarAsButton, hvar, ha, hclean, hpress, and_self, if_true]
  rcases request_cases { s with mumButtonWrites := Function.update s.mumButtonWrites a (some val) }
    (buttonWrite a val) ok with heq | heq
  · rw [heq]
    exact Or.inl ⟨⟨Function.update_self _ _ _, hclean, hqueued, hpending⟩, fun hc => absurd rfl hc⟩
  · rw [heq]
    refine Or.inr ⟨⟨Function.update_self _ _ _, hclean, hqueued, ?_⟩, fun _ => ?_⟩
    · exact (pendingAt_cons_same rfl).trans (congrArg (buttonWrite a val ::ₘ ·) hpending)
    · exact ha ▸ s.vars.known varID var hvar

theorem writeVarAsButton_other (s : RegImage) {varID : BitVec 32} {var : RegVar}
    (hvar : s.vars.mumSlaveVars.lookup varID = some var) (ha : var.mtAddr ≠ a) (val ok : Bool) :
    SameAt a s (s.writeVarAsButton varID val ok).2 := by
  simp only [RegImage.writeVarAsButton, hvar]
  split
  · have hkeep : ∀ o : Option Bool,
        Function.update s.mumButtonWrites var.mtAddr o a = s.mumButtonWrites a :=
      fun _ => Function.update_of_ne (Ne.symm ha) _ _
    rcases request_cases
      { s with mumButtonWrites := Function.update s.mumButtonWrites var.mtAddr (some val) }
      (buttonWrite var.mtAddr val) ok with heq | heq
    · rw [heq]
      refine ⟨rfl, ?_, rfl, rfl, rfl⟩
      exact (Function.update_of_ne (Ne.symm ha) _ _).trans (hkeep _)
    · rw [heq]
      exact ⟨rfl, hkeep _, rfl, rfl, pendingAt_cons_other ha⟩
  · exact .refl a s

/-- Handing the queued release of an address to the driver leaves it in its phase. -/
theorem processUncompletedWrites_ok (oks : List Bool) {s : RegImage} (h : Ok a p s) :
    Ok a p (s.processUncompletedWrites oks) := by
  induction oks generalizing s with
  | nil => exact h
  | cons ok oks ih =>
    simp only [RegImage.processUncompletedWrites]
    split
    · exact h
    · rename_i butWrite rest hqueue
      obtain ⟨b, v⟩ := butWrite
      rcases request_cases s (buttonWrite b v) ok with heq | heq
      · rw [heq]
        exact h
      rw [heq]
      apply ih
      by_cases hb : b = a
      · subst hb
        have hfilter : queuedAt s b =
            (b, v) :: rest.filter (fun e => e.1 = b) := by
          rw [queuedAt, hqueue]
          exact List.filter_cons_of_pos (by simp)
        cases p with
        | idle => exact absurd (hfilter.symm.trans h.phase.2.2.1) (by simp)
        | pressing v' => exact absurd (hfilter.symm.trans h.phase.2.2.1) (by simp)
        | releasing v' =>
          obtain ⟨hpress, hclean, ⟨hqueued, hpending⟩ | ⟨hqueued, _⟩⟩ := h.phase
          · obtain ⟨hhead, htail⟩ := List.cons.inj (hfilter.symm.trans hqueued)
            obtain rfl := (Prod.mk.inj hhead).2
            refine ⟨⟨hpress, hclean, Or.inr ⟨htail, ?_⟩⟩, h.known⟩
            exact (pendingAt_cons_same rfl).trans (congrArg (buttonWrite b v ::ₘ ·) hpending)
          · exact absurd (hfilter.symm.trans hqueued) (by simp)
      · have hsame : SameAt a s { s with
            pending := buttonWrite b v ::ₘ s.pending, mqUncompletedButtonWrites := rest } := by
          refine ⟨rfl, rfl, rfl, ?_, pendingAt_cons_other hb⟩
          simp [queuedAt, hqueue, hb]
        exact hsame.ok h

/-- An expiry changes the phase of an address only when it is the end of a press. -/
theorem expire_ok (h : Ok a p s) {w : DriverWrite} (hw : w ∈ s.pending) :
    Ok a p (s.expire w) ∨ (∃ v, p = .pressing v) ∧ Ok a .idle (s.expire w) := by
  by_cases ha : w.tAddr = a
  · cases p with
    | idle => exact absurd h.phase.2.2.2 (not_pendingAt_zero hw ha)
    | pressing v => exact Or.inr ⟨⟨v, rfl⟩, expire_pressing h hw ha⟩
    | releasing v => exact Or.inl (expire_releasing h hw ha)
  · exact Or.inl ((expire_other hw ha).ok h)

theorem expires_ok {order : List DriverWrite} (horder : (order : Multiset DriverWrite) ≤ s.pending)
    (h : Ok a p s) :
    Ok a p (order.foldl RegImage.expire s) ∨
      (∃ v, p = .pressing v) ∧ Ok a .idle (order.foldl RegImage.expire s) := by
  induction order generalizing s p with
  | nil => exact Or.inl h
  | cons w order ih =>
    have hw : w ∈ s.pending := Multiset.mem_of_le horder (by simp)
    have hrest : (order : Multiset DriverWrite) ≤ (s.expire w).pending := by
      have hle := Multiset.erase_le_erase w horder
      rw [← Multiset.cons_coe, Multiset.erase_cons_head] at hle
      exact hle
    rcases expire_ok h hw with hstay | ⟨hpressing, hidle⟩
    · exact ih hrest hstay
    · rcases ih hrest hidle with hidle | ⟨⟨v, hv⟩, _⟩
      · exact Or.inr ⟨hpressing, hidle⟩
      · cases hv

theorem stop_ok {order : List DriverWrite} (horder : (order : Multiset DriverWrite) = s.pending)
    (h : Ok a p s) :
    Ok a p (s.stop order) ∨ (∃ v, p = .pressing v) ∧ Ok a .idle (s.stop order) := by
  simp only [RegImage.stop]
  split
  · exact Or.inl h
  · rcases expires_ok (le_of_eq horder) h with hstay | ⟨hpressing, hidle⟩
    · exact Or.inl ⟨hstay.phase, hstay.known⟩
    · exact Or.inr ⟨hpressing, ⟨hidle.phase, hidle.known⟩⟩

end Operations

section Runs
variable {s : RegImage} {a : IOAddr} {p : Phase}

/-- The success of a pending write of the address. -/
def Succeeds (a : IOAddr) (s : RegImage) (l : Label) : Prop :=
  ∃ w ∈ s.pending, w.tAddr = a ∧ l = .succeed w

theorem not_succeeds {l : Label} (h : ∀ w, l ≠ .succeed w) : ¬ Succeeds a s l := by
  rintro ⟨w, _, _, hl⟩
  exact h w hl

/-- How one step moves an address from phase to phase: a press begins when it is
idle, ends in a release when it succeeds and in nothing otherwise, and a release
ends with its success only. -/
inductive Moves (a : IOAddr) (s : RegImage) (l : Label) : Phase → Phase → Prop
  | stays {p : Phase} (h : p = .idle ∨ ¬ Succeeds a s l) : Moves a s l p p
  | presses (v : Bool) : Moves a s l .idle (.pressing v)
  | dropped {v : Bool} (h : ¬ Succeeds a s l) : Moves a s l (.pressing v) .idle
  | pressed {v : Bool} (h : Succeeds a s l) : Moves a s l (.pressing v) (.releasing (!v))
  | released {v : Bool} (h : Succeeds a s l) : Moves a s l (.releasing v) .idle

/-- A step that is no success of the address and leaves its phase. -/
theorem stays_ok {l : Label} (hno : ¬ Succeeds a s l) (h : Ok a p (step s l)) :
    ∃ p', Moves a s l p p' ∧ Ok a p' (step s l) :=
  ⟨p, .stays (Or.inr hno), h⟩

theorem drops_ok {l : Label} (hno : ¬ Succeeds a s l)
    (h : Ok a p (step s l) ∨ (∃ v, p = .pressing v) ∧ Ok a .idle (step s l)) :
    ∃ p', Moves a s l p p' ∧ Ok a p' (step s l) := by
  rcases h with hstay | ⟨⟨v, rfl⟩, hidle⟩
  · exact stays_ok hno hstay
  · exact ⟨.idle, .dropped hno, hidle⟩

theorem writeVarAsButton_moves (h : Ok a p s) (varID : BitVec 32) (val ok : Bool) :
    ∃ p', Moves a s (.writeVarAsButton varID val ok) p p' ∧
      Ok a p' (step s (.writeVarAsButton varID val ok)) := by
  have hno : ¬ Succeeds a s (.writeVarAsButton varID val ok) :=
    not_succeeds (fun w hc => by cases hc)
  cases hvar : s.vars.mumSlaveVars.lookup varID with
  | none =>
    apply stays_ok hno
    simp only [step, RegImage.writeVarAsButton, hvar]
    exact h
  | some var =>
    by_cases ha : var.mtAddr = a
    · by_cases hp : p = .idle
      · subst hp
        rcases writeVarAsButton_idle h hvar ha val ok with hidle | hpress
        · exact ⟨.idle, .stays (Or.inl rfl), hidle⟩
        · exact ⟨.pressing val, .presses val, hpress⟩
      · apply stays_ok hno
        simp only [step, writeVarAsButton_refused h.phase hp hvar ha val ok]
        exact h
    · exact stays_ok hno ((writeVarAsButton_other s hvar ha val ok).ok h)

theorem succeed_moves (h : Ok a p s) (w : DriverWrite) :
    ∃ p', Moves a s (.succeed w) p p' ∧ Ok a p' (step s (.succeed w)) := by
  by_cases hown : w ∈ s.pending ∧ w.tAddr = a
  · obtain ⟨hw, ha⟩ := hown
    have hsucc : Succeeds a s (.succeed w) := ⟨w, hw, ha, rfl⟩
    simp only [step, if_pos hw]
    cases p with
    | idle => exact absurd h.phase.2.2.2 (not_pendingAt_zero hw ha)
    | pressing v => exact ⟨.releasing (!v), .pressed hsucc, succeed_pressing h hw ha⟩
    | releasing v => exact ⟨.idle, .released hsucc, succeed_releasing h hw ha⟩
  · have hno : ¬ Succeeds a s (.succeed w) := by
      rintro ⟨w', hw', ha', hc⟩
      cases hc
      exact hown ⟨hw', ha'⟩
    apply stays_ok hno
    simp only [step]
    split
    · rename_i hw
      exact (succeed_other hw (fun ha => hown ⟨hw, ha⟩)).ok h
    · exact h

theorem step_ok (h : Ok a p s) (l : Label) (hl : NoPlainWrite a s l) :
    ∃ p', Moves a s l p p' ∧ Ok a p' (step s l) := by
  cases l with
  | writeVarAsButton varID val ok => exact writeVarAsButton_moves h varID val ok
  | writeVar varID val ok =>
    exact stays_ok (not_succeeds (fun w hc => by cases hc)) ((writeVar_other s val ok hl).ok h)
  | forceVar varID forceVal forceBit ok =>
    exact stays_ok (not_succeeds (fun w hc => by cases hc))
      ((forceVar_other s forceVal forceBit ok hl).ok h)
  | updateImage oks =>
    apply stays_ok (not_succeeds (fun w hc => by cases hc))
    simp only [step, RegImage.updateImage]
    split
    · exact h
    · exact processUncompletedWrites_ok oks h
  | succeed w => exact succeed_moves h w
  | expire w =>
    apply drops_ok (not_succeeds (fun w hc => by cases hc))
    simp only [step]
    split
    · rename_i hw
      exact expire_ok h hw
    · exact Or.inl h
  | start =>
    apply stays_ok (not_succeeds (fun w hc => by cases hc))
    simp only [step, RegImage.start]
    split
    · exact ⟨h.phase, h.known⟩
    · exact h
  | stop order =>
    apply drops_ok (not_succeeds (fun w hc => by cases hc))
    simp only [step]
    split
    · rename_i horder
      exact stop_ok horder h
    · exact Or.inl h
  | connection up =>
    apply stays_ok (not_succeeds (fun w hc => by cases hc))
    simp only [step]
    split
    · exact ⟨h.phase, h.known⟩
    · exact h

/-- Nothing has been written yet. -/
structure Initial (s : RegImage) : Prop where
  pending : s.pending = 0
  press : s.mumButtonWrites = fun _ => none
  clean : s.mumButtonWritesToClean = fun _ => none
  queued : s.mqUncompletedButtonWrites = []

theorem Initial.ok (h : Initial s) (a : IOAddr) : Ok a .idle s where
  phase := by
    refine ⟨by rw [h.press], by rw [h.clean], ?_, ?_⟩
    · rw [queuedAt, h.queued]
      rfl
    · rw [pendingAt, h.pending]
      exact Multiset.filter_zero _
  known hne := absurd rfl hne

theorem run_ok (h : Initial s) {ls : List Label} (hls : Along step (NoPlainWrite a) s ls) :
    ∃ p, Ok a p (run step s ls) := by
  refine run_invariant (P := fun s => ∃ p, Ok a p s) (fun s l ⟨p, hp⟩ hl => ?_) ⟨_, h.ok a⟩ hls
  obtain ⟨p', _, hp'⟩ := step_ok hp l hl
  exact ⟨p', hp'⟩

/-- A release stays scheduled through every run in which it does not succeed. -/
theorem releasing_stays {v : Bool} (h : Ok a (.releasing v) s) {ls : List Label}
    (hls : Along step (fun s l => NoPlainWrite a s l ∧ ¬ Succeeds a s l) s ls) :
    Ok a (.releasing v) (run step s ls) := by
  refine run_invariant (P := Ok a (.releasing v)) (fun s l hs hl => ?_) h hls
  obtain ⟨p', hmoves, hp'⟩ := step_ok hs l hl.1
  cases hmoves with
  | stays _ => exact hp'
  | released hsucc => exact absurd hsucc hl.2

/-- In every reachable state an address that receives only button writes is in
exactly one phase. The success of a press schedules the release, which stays
scheduled until it succeeds, and meanwhile a press of the address is refused. -/
theorem button_protocol (h : Initial s) {ls : List Label}
    (hls : Along step (NoPlainWrite a) s ls) :
    (∃! p, InPhase (run step s ls) a p) ∧
    (∀ v l, InPhase (run step s ls) a (.pressing v) → Succeeds a (run step s ls) l →
      InPhase (run step s (ls ++ [l])) a (.releasing (!v))) ∧
    (∀ v ms, InPhase (run step s ls) a (.releasing v) →
      Along step (fun s l => NoPlainWrite a s l ∧ ¬ Succeeds a s l) (run step s ls) ms →
      InPhase (run step s (ls ++ ms)) a (.releasing v)) ∧
    (∀ varID var val ok, ¬ InPhase (run step s ls) a .idle →
      (run step s ls).vars.mumSlaveVars.lookup varID = some var → var.mtAddr = a →
      (run step s ls).writeVarAsButton varID val ok = (false, run step s ls)) := by
  obtain ⟨p, hp⟩ := run_ok h hls
  refine ⟨⟨p, hp.phase, fun q hq => inPhase_unique hq hp.phase⟩, ?_, ?_, ?_⟩
  · rintro v l hv ⟨w, hw, ha, rfl⟩
    obtain rfl := inPhase_unique hp.phase hv
    rw [run_snoc]
    simp only [step, if_pos hw]
    exact (succeed_pressing hp hw ha).phase
  · intro v ms hv hms
    obtain rfl := inPhase_unique hp.phase hv
    rw [run_append]
    exact (releasing_stays hp hms).phase
  · intro varID var val ok hbusy hvar ha
    have hne : p ≠ .idle := fun hc => hbusy (hc ▸ hp.phase)
    exact writeVarAsButton_refused hp.phase hne hvar ha val ok

end Runs

/-- A running driver and one slave variable. -/
def oneButton : RegImage where
  vars := (RegVars.empty.parseXmlVar ∅ ∅ ⟨1, .R, .RW, { uiChannel := 5 }⟩).1
  mtDrvState := .running
  pending := 0
  mumButtonWrites _ := none
  mumButtonWritesToClean _ := none
  mqUncompletedButtonWrites := []
  writeErrors := []

theorem oneButton_releases :
    InPhase (run step oneButton ([.writeVarAsButton 1 true true] ++
      [.succeed (buttonWrite { uiChannel := 5 } true)])) { uiChannel := 5 } (.releasing false) :=
  (button_protocol (a := { uiChannel := 5 }) (s := oneButton) ⟨rfl, rfl, rfl, rfl⟩
    (show Along step (NoPlainWrite { uiChannel := 5 }) oneButton [.writeVarAsButton 1 true true]
      from ⟨trivial, trivial⟩)).2.1 true _
    ⟨by decide, by decide, by decide, by decide⟩ ⟨_, by decide, rfl, rfl⟩

end ButtonProtocol
