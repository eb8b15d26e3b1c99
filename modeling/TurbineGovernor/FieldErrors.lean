import TurbineGovernor.RegulatorAlarms
import TurbineGovernor.TransitionRuns

/-!
# How fresh the recorded field errors are

The field driver moves between its states while the scan calls
`checkDriverErrors`. What the manager has recorded is compared with the
driver's errors after each check. A watch, which sees the driver and the checks
but not the manager, tells exactly which runs keep the two together.
-/

namespace FieldErrors
open CommonTypes KeyedTables RegulatorAlarms TransitionRuns

abbrev VarErrors := List (IOAddr × QuState)

inductive Event where
  | comError (mVarErrors : VarErrors)
  | varError (mVarErrors : VarErrors)
  | running (mVarErrors : VarErrors)
  | slaveState (state : DrvState)
  | slaveFailed
  | checkDriverErrors

structure Regulator where
  img : IOImage
  alarms : AlarmManager

namespace Regulator

def setFieldDrv (r : Regulator) (state : DrvState) (mVarErrors : VarErrors) : Regulator :=
  { r with img := { r.img with fieldDrvState := state, mVarErrors := mVarErrors } }

/-- The step to a state is the pair of the assignment and the call of
`driverFailed`, which the driver makes when it comes from another state. -/
def enter (r : Regulator) (state : DrvState) (mVarErrors : VarErrors) : Regulator :=
  if r.img.fieldDrvState ≠ state then
    { r.setFieldDrv state mVarErrors with alarms := r.alarms.driverFailed }
  else r.setFieldDrv state mVarErrors

end Regulator

section Machine
variable (c : Config)

def step (r : Regulator) : Event → Regulator
  | .comError mVarErrors => r.enter .comError mVarErrors
  | .varError mVarErrors => r.enter .varError mVarErrors
  | .running mVarErrors => r.setFieldDrv .running mVarErrors
  | .slaveState state => { r with img := { r.img with slaveDrvState := state } }
  | .slaveFailed => { r with alarms := r.alarms.driverFailed }
  | .checkDriverErrors => { r with alarms := r.alarms.checkDriverErrors c r.img }

/-- The end of a turn of `EthercatDrv::driverLoop`: `updateDevices`, which
leaves `mVarErrors`, is not reached when all modules have failed. -/
def driverLoop (ec_slavecount moduleErrors : Nat) (mVarErrors : VarErrors) (r : Regulator) :
    Regulator :=
  if moduleErrors = ec_slavecount then r.enter .comError r.img.mVarErrors
  else if moduleErrors ≠ 0 ∨ mVarErrors ≠ [] then r.enter .varError mVarErrors
  else r.setFieldDrv .running mVarErrors

theorem driverLoop_eq_step (ec_slavecount moduleErrors : Nat) (mVarErrors : VarErrors)
    (r : Regulator) : ∃ e, driverLoop ec_slavecount moduleErrors mVarErrors r = step c r e := by
  simp only [driverLoop]
  split
  · exact ⟨.comError r.img.mVarErrors, rfl⟩
  split
  · exact ⟨.varError mVarErrors, rfl⟩
  · exact ⟨.running mVarErrors, rfl⟩

/-- What a check is to leave behind. -/
def Fresh (r : Regulator) : Event → Prop
  | .checkDriverErrors =>
    let after := (step c r .checkDriverErrors).alarms
    match r.img.fieldDrvState with
    | .varError => ∀ id, after.mMLastFldErrors.lookup id = (translated r.img).lookup id
    | .running => after.mMLastFldErrors = [] ∧ ∀ word ∈ after.mpuiFieldQStates, word = 0
    | _ => True
  | _ => True

/-- The errors at the last check in `VarError`, until they are forgotten, and
whether a check would look at the driver. -/
structure Watch where
  img : IOImage
  seen : List (BitVec 32 × QuState)
  notified : Bool

def Watch.enter (w : Watch) (state : DrvState) (mVarErrors : VarErrors) : Watch where
  img := { w.img with fieldDrvState := state, mVarErrors := mVarErrors }
  seen := w.seen
  notified := w.notified || decide (w.img.fieldDrvState ≠ state)

def watchStep (w : Watch) : Event → Watch
  | .comError mVarErrors => w.enter .comError mVarErrors
  | .varError mVarErrors => w.enter .varError mVarErrors
  | .running mVarErrors =>
    { w with img := { w.img with fieldDrvState := .running, mVarErrors := mVarErrors } }
  | .slaveState state => { w with img := { w.img with slaveDrvState := state } }
  | .slaveFailed => { w with notified := true }
  | .checkDriverErrors =>
    match w.img.fieldDrvState with
    | .varError => { w with seen := translated w.img, notified := true }
    | .comError => { w with notified := false }
    | _ => { w with seen := if w.notified then [] else w.seen, notified := false }

/-- At a check in `VarError` every error seen before is still there, with the
same state; at a check in `Running` errors seen before are still notified. -/
def NothingMissed (w : Watch) : Event → Prop
  | .checkDriverErrors =>
    match w.img.fieldDrvState with
    | .varError => ∀ id q, w.seen.lookup id = some q → (translated w.img).lookup id = some q
    | .running => w.notified = true ∨ w.seen = []
    | _ => True
  | _ => True

structure Watched (r : Regulator) (w : Watch) : Prop where
  img : r.img = w.img
  notified : r.alarms.mbWithErrors = w.notified
  seen : ∀ id, r.alarms.mMLastFldErrors.lookup id = w.seen.lookup id
  zero : r.alarms.mMLastFldErrors = [] → ∀ word ∈ r.alarms.mpuiFieldQStates, word = 0
  looking : r.img.fieldDrvState = .varError → r.alarms.mbWithErrors = true

theorem watched_enter {r : Regulator} {w : Watch} (h : Watched r w) (state : DrvState)
    (mVarErrors : VarErrors) : Watched (r.enter state mVarErrors) (w.enter state mVarErrors) := by
  obtain ⟨himg, hnotified, hseen, hzero, hlooking⟩ := h
  simp only [Regulator.enter, Watch.enter]
  rw [← himg, ← hnotified]
  by_cases hstate : r.img.fieldDrvState = state
  · rw [if_neg (fun hne => hne hstate)]
    refine ⟨rfl, ?_, hseen, hzero, ?_⟩
    · simp [Regulator.setFieldDrv, hstate]
    · rintro rfl
      exact hlooking hstate
  · rw [if_pos hstate]
    refine ⟨rfl, ?_, hseen, hzero, fun _ => rfl⟩
    simp [AlarmManager.driverFailed, hstate]

/-- A check in `VarError` adds the driver's errors to what was seen before. -/
theorem check_varError {r : Regulator} {w : Watch} (h : Watched r w)
    (hstate : r.img.fieldDrvState = .varError) :
    let after := (step c r .checkDriverErrors).alarms
    after.mbWithErrors = true ∧
      (∀ id, after.mMLastFldErrors.lookup id =
        (w.seen.lookup id).or ((translated w.img).lookup id)) ∧
      (after.mMLastFldErrors = [] → ∀ word ∈ after.mpuiFieldQStates, word = 0) := by
  obtain ⟨himg, _, hseen, hzero, hlooking⟩ := h
  intro after
  have hparts : fieldPart after = _ := fieldPart_checkDriverErrors c r.alarms r.img
  rw [if_pos (hlooking hstate), if_neg (by rw [hstate]; decide), if_pos hstate] at hparts
  obtain ⟨hflag, hwords, herrors⟩ := parts_of hparts
  refine ⟨hflag, ?_, ?_⟩
  · intro id
    rw [herrors, lookup_getFldErrors, hseen, himg]
  · intro hempty
    rw [herrors] at hempty
    have hbefore : r.alarms.mMLastFldErrors = [] := by
      rw [eq_nil_iff_lookup]
      intro id
      have hnone := (eq_nil_iff_lookup _).mp hempty id
      rw [lookup_getFldErrors, Option.or_eq_none_iff] at hnone
      exact hnone.1
    rw [hwords, hempty]
    exact hzero hbefore

/-- A check in `COMError` drops the flag and leaves the errors. -/
theorem check_comError {r : Regulator} (hstate : r.img.fieldDrvState = .comError) :
    let after := (step c r .checkDriverErrors).alarms
    after.mbWithErrors = false ∧ after.mMLastFldErrors = r.alarms.mMLastFldErrors ∧
      after.mpuiFieldQStates = r.alarms.mpuiFieldQStates := by
  intro after
  have hparts : fieldPart after = _ := fieldPart_checkDriverErrors c r.alarms r.img
  by_cases hflag : r.alarms.mbWithErrors = true
  · rw [if_pos hflag, if_pos hstate] at hparts
    obtain ⟨hflag', hwords, herrors⟩ := parts_of hparts
    exact ⟨hflag', herrors, hwords⟩
  · rw [if_neg hflag] at hparts
    obtain ⟨hflag', hwords, herrors⟩ := parts_of hparts
    exact ⟨hflag'.trans (by simpa using hflag), herrors, hwords⟩

/-- A check without an error forgets the errors, if it looks at the driver. -/
theorem check_otherwise {r : Regulator} {w : Watch} (h : Watched r w)
    (hvar : r.img.fieldDrvState ≠ .varError) (hcom : r.img.fieldDrvState ≠ .comError) :
    let after := (step c r .checkDriverErrors).alarms
    after.mbWithErrors = false ∧
      after.mMLastFldErrors = (if w.notified = true then [] else r.alarms.mMLastFldErrors) ∧
      (after.mMLastFldErrors = [] → ∀ word ∈ after.mpuiFieldQStates, word = 0) := by
  obtain ⟨_, hnotified, _, hzero, _⟩ := h
  intro after
  have hparts : fieldPart after = _ := fieldPart_checkDriverErrors c r.alarms r.img
  rw [← hnotified]
  by_cases hflag : r.alarms.mbWithErrors = true
  · rw [if_pos hflag, if_neg hcom, if_neg hvar] at hparts
    obtain ⟨hflag', hwords, herrors⟩ := parts_of hparts
    refine ⟨hflag', by rw [if_pos hflag, herrors], ?_⟩
    rintro -
    rw [hwords]
    split
    · rename_i hempty
      exact hzero (List.isEmpty_iff.mp hempty)
    · simp
  · rw [if_neg hflag] at hparts
    obtain ⟨hflag', hwords, herrors⟩ := parts_of hparts
    refine ⟨hflag'.trans (by simpa using hflag), by rw [if_neg hflag, herrors], ?_⟩
    rw [herrors, hwords]
    exact hzero

theorem watched_check {r : Regulator} {w : Watch} (h : Watched r w)
    (met : NothingMissed w .checkDriverErrors) :
    Watched (step c r .checkDriverErrors) (watchStep w .checkDriverErrors) := by
  have himg := h.img
  by_cases hvar : r.img.fieldDrvState = .varError
  · obtain ⟨hflag, hlookup, hzero⟩ := check_varError c h hvar
    rw [himg] at hvar
    simp only [NothingMissed, hvar] at met
    have hwatch : watchStep w .checkDriverErrors =
        { w with seen := translated w.img, notified := true } := by
      simp [watchStep, hvar]
    rw [hwatch]
    refine ⟨himg, hflag, ?_, hzero, fun _ => hflag⟩
    intro id
    rw [hlookup]
    cases hid : w.seen.lookup id with
    | none => rfl
    | some q => exact (met id q hid).symm
  by_cases hcom : r.img.fieldDrvState = .comError
  · obtain ⟨hflag, herrors, hwords⟩ := check_comError c hcom
    have hwatch : watchStep w .checkDriverErrors = { w with notified := false } := by
      rw [himg] at hcom
      simp [watchStep, hcom]
    rw [hwatch]
    refine ⟨himg, hflag, ?_, ?_, fun hstate => absurd hstate hvar⟩
    · intro id
      rw [herrors]
      exact h.seen id
    · rw [herrors, hwords]
      exact h.zero
  · obtain ⟨hflag, herrors, hzero⟩ := check_otherwise c h hvar hcom
    have hwatch : watchStep w .checkDriverErrors =
        { w with seen := if w.notified then [] else w.seen, notified := false } := by
      rw [himg] at hvar hcom
      unfold watchStep
      cases hstate : w.img.fieldDrvState with
      | varError => exact absurd hstate hvar
      | comError => exact absurd hstate hcom
      | running => rfl
      | stopped => rfl
      | unInit => rfl
    rw [hwatch]
    refine ⟨himg, hflag, ?_, hzero, fun hstate => absurd hstate hvar⟩
    intro id
    rw [herrors]
    by_cases hnotified : w.notified = true
    · simp [hnotified]
    · simpa [hnotified] using h.seen id

/-- Every step keeps the manager under the watch, as long as nothing is missed. -/
theorem watched_step {r : Regulator} {w : Watch} (h : Watched r w) (e : Event)
    (met : NothingMissed w e) : Watched (step c r e) (watchStep w e) := by
  have himg := h.img
  cases e with
  | comError mVarErrors => exact watched_enter h .comError mVarErrors
  | varError mVarErrors => exact watched_enter h .varError mVarErrors
  | running mVarErrors =>
    refine ⟨?_, h.notified, h.seen, h.zero, ?_⟩
    · simp [step, watchStep, Regulator.setFieldDrv, himg]
    · intro hstate
      cases hstate
  | slaveState state =>
    refine ⟨?_, h.notified, h.seen, h.zero, h.looking⟩
    simp [step, watchStep, himg]
  | slaveFailed => exact ⟨himg, rfl, h.seen, h.zero, fun _ => rfl⟩
  | checkDriverErrors => exact watched_check c h met

/-- Under the watch, a check leaves fresh errors exactly when nothing is missed. -/
theorem fresh_iff_nothingMissed {r : Regulator} {w : Watch} (h : Watched r w) (e : Event) :
    Fresh c r e ↔ NothingMissed w e := by
  cases e with
  | comError mVarErrors => exact Iff.rfl
  | varError mVarErrors => exact Iff.rfl
  | running mVarErrors => exact Iff.rfl
  | slaveState state => exact Iff.rfl
  | slaveFailed => exact Iff.rfl
  | checkDriverErrors =>
    have himg := h.img
    simp only [Fresh, NothingMissed]
    cases hstate : r.img.fieldDrvState with
    | varError =>
      obtain ⟨_, hlookup, _⟩ := check_varError c h hstate
      rw [himg] at hstate
      simp only [hlookup, himg, hstate]
      constructor
      · intro hfresh id q hid
        rw [← hfresh id, hid]
        rfl
      · intro hmet id
        cases hid : w.seen.lookup id with
        | none => rfl
        | some q => exact (hmet id q hid).symm
    | running =>
      obtain ⟨_, herrors, hzero⟩ := check_otherwise c h (by rw [hstate]; decide)
        (by rw [hstate]; decide)
      rw [himg] at hstate
      simp only [hstate]
      have hempty : r.alarms.mMLastFldErrors = [] ↔ w.seen = [] := by
        simp only [eq_nil_iff_lookup, h.seen]
      constructor
      · rintro ⟨hnil, _⟩
        by_cases hnotified : w.notified = true
        · exact Or.inl hnotified
        · rw [herrors, if_neg hnotified] at hnil
          exact Or.inr (hempty.mp hnil)
      · intro hmet
        have hnil : (step c r .checkDriverErrors).alarms.mMLastFldErrors = [] := by
          rw [herrors]
          by_cases hnotified : w.notified = true
          · exact if_pos hnotified
          · rw [if_neg hnotified]
            exact hempty.mpr (hmet.resolve_left hnotified)
        exact ⟨hnil, hzero hnil⟩
    | comError =>
      rw [himg] at hstate
      simp only [hstate]
    | stopped =>
      rw [himg] at hstate
      simp only [hstate]
    | unInit =>
      rw [himg] at hstate
      simp only [hstate]

/-- A run from zeroed words and no recorded errors leaves fresh errors at every
check exactly when the watch misses nothing. -/
theorem errors_fresh_iff (r : Regulator) (running : r.img.fieldDrvState = .running)
    (zeroed : ∀ word ∈ r.alarms.mpuiFieldQStates, word = 0)
    (empty : r.alarms.mMLastFldErrors = []) (events : List Event) :
    Along (step c) (Fresh c) r events ↔
      Along watchStep NothingMissed ⟨r.img, [], r.alarms.mbWithErrors⟩ events := by
  have hstart : Watched r ⟨r.img, [], r.alarms.mbWithErrors⟩ := by
    refine ⟨rfl, rfl, ?_, fun _ => zeroed, ?_⟩
    · intro id
      rw [empty]
    · rw [running]
      intro hstate
      cases hstate
  exact along_simulation (R := Watched) (fun _ _ e h => fresh_iff_nothingMissed c h e)
    (fun _ _ e h met => watched_step c h e met) hstart events

end Machine

def a1 : IOAddr := ⟨0, 1, 0, 16⟩
def a2 : IOAddr := ⟨0, 1, 2, 16⟩

/-- A regulator with zeroed memory, whose inputs 1 and 2 are known by address. -/
def twoInputs : Regulator where
  img := ⟨.running, .running, [], [(a1, 1), (a2, 2)]⟩
  alarms := AlarmManager.construct Config.regulator (fun _ => 0) (fun _ => 0)

/-- An error that comes and goes between checks in both states is followed. -/
theorem oneError_followed : Along (step Config.regulator) (Fresh Config.regulator) twoInputs
    [.varError [(a1, .overRange)], .checkDriverErrors,
      .varError [(a1, .overRange), (a2, .comError)], .checkDriverErrors,
      .running [], .checkDriverErrors] := by
  refine (errors_fresh_iff Config.regulator twoInputs rfl
    (by simp [twoInputs, AlarmManager.construct]) rfl _).mpr ?_
  refine ⟨trivial, ?_, trivial, ?_, trivial, Or.inl rfl, trivial⟩
  · intro id q hid
    cases hid
  · intro id q hid
    obtain ⟨rfl, rfl⟩ : id = 1 ∧ q = .overRange := by
      have hmem := mem_of_lookup hid
      simpa [watchStep, Watch.enter, translated, twoInputs, a1] using hmem
    rfl

/-- A variable that recovers while another one stays in error is kept; so is
every error when the driver is only checked in `COMError` before it recovers. -/
theorem recovered_error_kept :
    ¬ Along (step Config.regulator) (Fresh Config.regulator) twoInputs
      [.varError [(a1, .overRange), (a2, .underRange)], .checkDriverErrors,
        .varError [(a1, .overRange)], .checkDriverErrors] ∧
    ¬ Along (step Config.regulator) (Fresh Config.regulator) twoInputs
      [.varError [(a1, .overRange)], .checkDriverErrors,
        .comError [(a1, .overRange)], .checkDriverErrors, .running [], .checkDriverErrors] := by
  constructor
  · rintro ⟨_, _, _, hfresh, _⟩
    exact absurd (hfresh 2) (by decide)
  · rintro ⟨_, _, _, _, _, hfresh, _⟩
    exact absurd hfresh.1 (by decide)

end FieldErrors
