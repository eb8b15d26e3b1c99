import TurbineGovernor.LogicAlarms

/-!
# The scan loop of the regulator

The four phases of the loop of `main`, as far as they concern the alarms, with
the threads of the two drivers moving between them. Any order of the phases is
a run of the machine; `scan` is the order of the loop.
-/

namespace ScanLoop
open CommonTypes BitStrings RegulatorAlarms TransitionRuns LogicAlarms

/-- A driver's new state and its call of `driverFailed` are events of their own. -/
inductive Event where
  | fieldDrv (state : DrvState) (mVarErrors : List (IOAddr × QuState))
  | slaveDrv (state : DrvState)
  | driverFailed
  | updateInputs (trip alrep : Single)
  | checkDriverErrors
  | updateControl
  | updateOutputs
  | isAlarmSet (uiError : BitVec 32)

/-- One turn of the loop, with the values that it reads of `HMSM_REG_TRIP` and
`HMSM_REG_ALREP`. -/
def scan (trip alrep : Single) : List Event :=
  [.updateInputs trip alrep, .checkDriverErrors, .updateControl, .updateOutputs]

structure Regulator where
  img : IOImage
  trip : Single
  alrep : Single
  alarms : AlarmManager

section Machine
variable (c : Config)

/-- 1.0 as a pattern. -/
def one : Single := 0x3f800000#32

/-- The alarm part of `Control::updateControl`. -/
def updateControl (trip alrep : Single) (al : AlarmManager) : AlarmManager :=
  if Single.eq trip 0#32 then al.setAlarm c AL_TRIPEXT
  else if Single.eq alrep one then al.clearAlarms
  else al

/-- The calls of `writeRO`, with their channels. -/
def updateOutputs (al : AlarmManager) : List (BitVec 8 × BitVec 32) :=
  al.mpuiLogicErrors.zipIdx.map (fun it => (BitVec.ofNat 8 (it.2 + 1), it.1)) ++
    al.mpuiFieldQStates.zipIdx.map
      (fun it => (BitVec.ofNat 8 (it.2 + 1 + c.muiNumLogicErrorInts), it.1))

def step (r : Regulator) : Event → Regulator
  | .fieldDrv state mVarErrors =>
    { r with img := { r.img with fieldDrvState := state, mVarErrors := mVarErrors } }
  | .slaveDrv state => { r with img := { r.img with slaveDrvState := state } }
  | .driverFailed => { r with alarms := r.alarms.driverFailed }
  | .updateInputs trip alrep => { r with trip := trip, alrep := alrep }
  | .checkDriverErrors => { r with alarms := r.alarms.checkDriverErrors c r.img }
  | .updateControl => { r with alarms := updateControl c r.trip r.alrep r.alarms }
  | .updateOutputs => r
  | .isAlarmSet _ => r

/-- The regulator when the loop starts, with any memory in its arrays. -/
def start (img : IOImage) (logicMemory fieldMemory : Nat → BitVec 32) : Regulator where
  img := img
  trip := one
  alrep := 0#32
  alarms := AlarmManager.construct c logicMemory fieldMemory

theorem updateOutputs_words (al : AlarmManager) :
    (updateOutputs c al).map Prod.snd = al.mpuiLogicErrors ++ al.mpuiFieldQStates := by
  have hwords : ∀ (words : List (BitVec 32)) (channel : Nat → BitVec 8),
      (words.zipIdx.map (fun it => (channel it.2, it.1))).map Prod.snd = words := by
    intro words channel
    rw [List.map_map]
    exact List.zipIdx_map_fst 0 words
  simp only [updateOutputs]
  rw [List.map_append, hwords _ (fun i => BitVec.ofNat 8 (i + 1)),
    hwords _ (fun i => BitVec.ofNat 8 (i + 1 + c.muiNumLogicErrorInts))]

/-- The bit of an alarm in the words that the calls publish. -/
def published (calls : List (BitVec 8 × BitVec 32)) (uiError : BitVec 32) : Bool :=
  bit (calls.map Prod.snd) uiError.toNat

theorem published_updateOutputs {al : AlarmManager} {uiError : BitVec 32}
    (h : uiError.toNat / 32 < al.mpuiLogicErrors.length) :
    published (updateOutputs c al) uiError = bit al.mpuiLogicErrors uiError.toNat := by
  rw [published, updateOutputs_words, bit_append_left _ h]

@[simp] theorem length_updateControl (trip alrep : Single) (al : AlarmManager) :
    (updateControl c trip alrep al).mpuiLogicErrors.length = al.mpuiLogicErrors.length := by
  simp only [updateControl]
  split
  · exact length_setAlarm c al AL_TRIPEXT
  split
  · exact length_clearAlarms al
  · rfl

theorem fieldPart_updateControl (trip alrep : Single) (al : AlarmManager) :
    fieldPart (updateControl c trip alrep al) = fieldPart al := by
  simp only [updateControl]
  split
  · obtain ⟨words, past, hwords⟩ := setAlarm_logic c al AL_TRIPEXT
    rw [hwords]
    rfl
  split
  · rfl
  · rfl

/-- The reset of the alarms, which a trip keeps from acting. -/
def Resets (trip alrep : Single) : Prop := Single.eq trip 0#32 = false ∧ Single.eq alrep one = true

instance (trip alrep : Single) : Decidable (Resets trip alrep) :=
  inferInstanceAs (Decidable (_ ∧ _))

theorem bit_updateControl (trip alrep : Single) (al : AlarmManager) (b : Nat) :
    bit (updateControl c trip alrep al).mpuiLogicErrors b = true ↔
      ¬ Resets trip alrep ∧
        (bit al.mpuiLogicErrors b = true ∨
          (Single.eq trip 0#32 = true ∧ b / 32 < al.mpuiLogicErrors.length ∧
            ∃ e ∈ raised c AL_TRIPEXT, e.toNat = b)) := by
  simp only [updateControl, Resets]
  by_cases htrip : Single.eq trip 0#32 = true
  · rw [if_pos htrip, bit_setAlarm]
    simp [htrip]
  · rw [if_neg htrip]
    by_cases hreset : Single.eq alrep one = true
    · rw [if_pos hreset, bit_of_zero (by simp [AlarmManager.clearAlarms])]
      simp [htrip, hreset]
    · rw [if_neg hreset]
      simp [htrip, hreset]

end Machine

end ScanLoop
