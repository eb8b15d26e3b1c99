import TurbineGovernor.ForceOverride
import TurbineGovernor.RoundedSteps
import TurbineGovernor.SetPoints

/-!
# The loop of the regulator

`main` calls the image, the alarm manager and the control in turn, while the
drivers and the masters work in threads of their own. Each call is a label, so
that any order of the calls and of what happens between them is a run.
-/

namespace RegulatorLoop
open CommonTypes SlaveDriver TransitionRuns RegulatorImage RegulatorImage.IOImage
open SingleOrder SingleSums RoundedSteps
open SetPoints (Arithmetic Assignment assign trueVal)
open RegulatorAlarms (AlarmManager)

/-- 0.009 as a `double`, in units. -/
def speedStep : Nat := 0x126e978d4fdf3b * 2 ^ 90

/-- `currentSpeed += 0.009`: the sum is a `double`, what is stored a `float`. -/
def addSpeed (currentSpeed : Single) : Single :=
  if Single.isNaN currentSpeed then 0x7fc00000
  else if isInf currentSpeed then currentSpeed
  else ofUnits false (odd (roundTo 53) (toUnits currentSpeed + speedStep))

/-- The conversion of an `int` to a `float`. -/
def ofInt (n : Int) : Single := ofUnits false (n * 2 ^ 149)

def machine : Arithmetic := ⟨addSpeed, ofInt⟩

/-- The objects of `main`. -/
structure Loop where
  img : IOImage
  slave : ModbusSlaveDrv
  alMan : AlarmManager
  iState : Int

inductive Label where
  | updateInputs (field : FieldDrv) (now : BitVec 64)
  | checkDriverErrors (fieldDrvState : DrvState) (mVarErrors : List (IOAddr × QuState))
  | updateControl
  | updateOutputs
  | driverFailed
  | setState (tState : DrvState)
  | request (tables : ModbusMapping)

/-- The image as the alarm manager uses it. -/
def alarmView (r : Loop) (fieldDrvState : DrvState) (mVarErrors : List (IOAddr × QuState)) :
    RegulatorAlarms.IOImage where
  fieldDrvState := fieldDrvState
  slaveDrvState := r.slave.mtDrvState
  mVarErrors := mVarErrors
  mMFieldAddrIndex := r.img.mMFieldAddrIndex.filterMap
    (fun it => (r.img.var it.2).map (fun var => (it.1, var.muiVarId)))

variable (L : FloatAbcd)

def step (r : Loop) : Label → Loop
  | .updateInputs field now =>
    { r with
      img := (r.img.updateInputs L field now r.slave).1
      slave := (r.img.updateInputs L field now r.slave).2 }
  | .checkDriverErrors fieldDrvState mVarErrors =>
    { r with
      alMan := r.alMan.checkDriverErrors .regulator (alarmView r fieldDrvState mVarErrors) }
  | .updateControl =>
    let control := SetPoints.updateControl machine r.img r.iState r.alMan
    { r with img := control.2.1.foldl assign r.img, iState := control.1, alMan := control.2.2 }
  | .updateOutputs =>
    { r with
      img := (r.img.updateOutputs L (some r.alMan) r.slave).1
      slave := (r.img.updateOutputs L (some r.alMan) r.slave).2.1 }
  | .driverFailed => { r with alMan := r.alMan.driverFailed }
  | .setState tState => { r with slave := { r.slave with mtDrvState := tState } }
  | .request tables => { r with slave := { r.slave with mpMBmapping := tables } }

/-- One turn of the loop. -/
def scan (field : FieldDrv) (now : BitVec 64) (fieldDrvState : DrvState)
    (mVarErrors : List (IOAddr × QuState)) : List Label :=
  [.updateInputs field now, .checkDriverErrors fieldDrvState mVarErrors, .updateControl,
    .updateOutputs]

/-- The regulator when the loop starts. -/
def startLoop (memory : BitVec 32 → IOVar) (slave : ModbusSlaveDrv) (alMan : AlarmManager) :
    Loop where
  img := (construct.init L memory slave).1
  slave := (construct.init L memory slave).2
  alMan := alMan
  iState := 0

def IsOutput (uiID : BitVec 32) : Prop :=
  (placeOf uiID).region = .fieldOut ∨ (placeOf uiID).region = .slaveOut

theorem trueVal_eq {img : IOImage} (uiID : BitVec 32) :
    trueVal img uiID = (((img.vars (placeOf uiID).region).map
      (Option.map IOVar.mfTrueVal))[(placeOf uiID).index]?).join := by
  rw [trueVal, atID, IOImage.var, List.getElem?_map]
  cases (img.vars (placeOf uiID).region)[(placeOf uiID).index]? <;> rfl

theorem trueVal_congr {img img' : IOImage} {uiID : BitVec 32}
    (same : (img'.vars (placeOf uiID).region).map (Option.map IOVar.mfTrueVal) =
      (img.vars (placeOf uiID).region).map (Option.map IOVar.mfTrueVal)) :
    trueVal img' uiID = trueVal img uiID := by
  rw [trueVal_eq, trueVal_eq, same]

theorem forEach_same {S : Type} {body : IOVar → S → IOVar × S}
    (same : ∀ var s, (body var s).1 = var) (vars : List (Option IOVar)) (s : S) :
    (forEach body vars s).1 = vars := by
  induction vars generalizing s with
  | nil => rfl
  | cons slot vars ih =>
    cases slot with
    | none => exact congrArg (none :: ·) (ih s)
    | some var =>
      simp only [forEach]
      rw [same, ih]

/-- The slave reads its outputs only. -/
theorem slaveOut_step (r : Loop) {l : Label} (h : l ≠ .updateControl) :
    (step L r l).img.mSlaveOut = r.img.mSlaveOut := by
  cases l with
  | updateControl => exact absurd rfl h
  | updateOutputs => exact forEach_same (fun _ _ => rfl) _ _
  | updateInputs field now => rfl
  | checkDriverErrors fieldDrvState mVarErrors => rfl
  | driverFailed => rfl
  | setState tState => rfl
  | request tables => rfl

/-- The phases of input and output keep the true values of the outputs. -/
theorem trueVal_step (r : Loop) {l : Label} (h : l ≠ .updateControl) {uiID : BitVec 32}
    (output : IsOutput uiID) :
    trueVal (step L r l).img uiID = trueVal r.img uiID := by
  apply trueVal_congr
  rcases output with hregion | hregion <;> rw [hregion]
  · cases l with
    | updateControl => exact absurd rfl h
    | updateInputs field now =>
      have hkept : ∀ (var : IOVar) (slave : ModbusSlaveDrv),
          ((field.updateVar var, slave) : IOVar × ModbusSlaveDrv).1.mfTrueVal = var.mfTrueVal := by
        intro var slave
        simp only [FieldDrv.updateVar]
        split <;> rfl
      exact forEach_view hkept _ _
    | updateOutputs => exact forEach_view (ForceOverride.outputField_kept L) _ _
    | checkDriverErrors fieldDrvState mVarErrors => rfl
    | driverFailed => rfl
    | setState tState => rfl
    | request tables => rfl
  · exact congrArg _ (slaveOut_step L r h)

/-- A variable that is not forced is read as it was set. -/
def Unforced (img : IOImage) (uiID : BitVec 32) : Prop :=
  ∀ var, img.atID uiID = some var → var.mbForcedVal = false

theorem value_eq {img : IOImage} {uiID : BitVec 32} (unforced : Unforced img uiID) {v : Single}
    (h : trueVal img uiID = some v) : SetPoints.value img uiID = v := by
  obtain ⟨var, hvar, rfl⟩ := Option.map_eq_some_iff.mp h
  rw [SetPoints.value, hvar]
  simp only [Option.map_some, Option.getD_some, RegulatorImage.getCurrentVal, unforced var hvar,
    Bool.false_eq_true, if_false]

/-- The last value of an assignment list. -/
def assigned (as : List Assignment) (uiID : BitVec 32) (v₀ : Single) : Single :=
  as.foldl (fun v a => if a.1 = uiID then a.2 else v) v₀

theorem trueVal_assign {img : IOImage} {uiID : BitVec 32} {v : Single}
    (h : trueVal img uiID = some v) (a : Assignment) :
    trueVal (assign img a) uiID = some (if a.1 = uiID then a.2 else v) := by
  simp only [trueVal, atID, assign] at h ⊢
  rw [var_modifyID]
  by_cases hid : a.1 = uiID
  · obtain ⟨var, hvar, rfl⟩ := Option.map_eq_some_iff.mp h
    rw [if_pos (congrArg placeOf hid), if_pos hid, hvar]
    rfl
  · rw [if_neg (fun heq => hid (placeOf_injective heq)), if_neg hid]
    exact h

theorem trueVal_assigned (as : List Assignment) {img : IOImage} {uiID : BitVec 32} {v : Single}
    (h : trueVal img uiID = some v) :
    trueVal (as.foldl assign img) uiID = some (assigned as uiID v) := by
  induction as generalizing img v with
  | nil => exact h
  | cons a as ih => exact ih (trueVal_assign h a)

theorem unforced_assign {img : IOImage} {uiID : BitVec 32} (unforced : Unforced img uiID)
    (a : Assignment) : Unforced (assign img a) uiID := by
  intro var hvar
  simp only [atID, assign] at hvar
  rw [var_modifyID] at hvar
  split at hvar
  · obtain ⟨var₀, hvar₀, rfl⟩ := Option.map_eq_some_iff.mp hvar
    exact unforced var₀ hvar₀
  · exact unforced var hvar

/-- An output of the slave is never forced. -/
theorem unforced_step (r : Loop) (l : Label) {uiID : BitVec 32}
    (slaveOut : (placeOf uiID).region = .slaveOut) (unforced : Unforced r.img uiID) :
    Unforced (step L r l).img uiID := by
  by_cases h : l = .updateControl
  · subst h
    exact List.foldlRecOn (motive := fun img : IOImage => Unforced img uiID) _ _ unforced
      (fun img hforced a _ => unforced_assign hforced a)
  · intro var hvar
    apply unforced var
    rw [atID, IOImage.var, slaveOut] at hvar ⊢
    rw [vars, slaveOut_step L r h] at hvar
    exact hvar

/-- The variable that `init` makes of an entry. -/
def newVar (memory : BitVec 32 → IOVar) (c : BitVec 32 × BitVec 8 × Single) : IOVar :=
  RegulatorImage.setCurrentVal c.2.2 (newIOVar (memory c.1) c.1 { uiChannel := c.2.1 })

theorem var_store_self {img : IOImage} (var : IOVar)
    (room : (placeOf var.muiVarId).index < (img.vars (placeOf var.muiVarId).region).length) :
    (img.store var).var (placeOf var.muiVarId) = some var := by
  rw [IOImage.var, IOImage.store, vars_setVars, if_pos rfl, List.getElem?_set_self room]
  rfl

theorem var_store_other {img : IOImage} (var : IOVar) {p : Place} (h : placeOf var.muiVarId ≠ p) :
    (img.store var).var p = img.var p := by
  rw [IOImage.var, IOImage.var, IOImage.store, vars_setVars]
  split
  · rename_i hregion
    have hindex : (placeOf var.muiVarId).index ≠ p.index :=
      fun heq => h (Place.ext hregion.symm heq)
    rw [List.getElem?_set_ne hindex, hregion]
  · rfl

theorem atID_created {memory : BitVec 32 → IOVar} {cs : List (BitVec 32 × BitVec 8 × Single)}
    (distinct : (cs.map Prod.fst).Nodup) {r : IOImage × ModbusSlaveDrv}
    {c : BitVec 32 × BitVec 8 × Single} (h : c ∈ cs)
    (room : (placeOf c.1).index < (r.1.vars (placeOf c.1).region).length) :
    (cs.foldl (create L memory) r).1.atID c.1 = some (newVar memory c) := by
  have hkeep : ∀ (cs : List (BitVec 32 × BitVec 8 × Single)) (r : IOImage × ModbusSlaveDrv),
      c.1 ∉ cs.map Prod.fst → (cs.foldl (create L memory) r).1.atID c.1 = r.1.atID c.1 := by
    intro cs
    induction cs with
    | nil => exact fun _ _ => rfl
    | cons c' cs ih =>
      intro r hnot
      rw [List.map_cons, List.mem_cons, not_or] at hnot
      rw [List.foldl_cons, ih _ hnot.2]
      exact var_store_other (newVar memory c')
        (fun heq => hnot.1 (placeOf_injective heq).symm)
  induction cs generalizing r with
  | nil => cases h
  | cons c' cs ih =>
    rw [List.map_cons, List.nodup_cons] at distinct
    rw [List.foldl_cons]
    rcases List.mem_cons.mp h with rfl | hrest
    · rw [hkeep cs _ distinct.1]
      exact var_store_self (newVar memory c) room
    · exact ih distinct.2 hrest ((length_store _ _).symm ▸ room)

theorem created_distinct : (created.map Prod.fst).Nodup := by
  simp only [created, List.map_cons, List.map_nil]
  decide +kernel

theorem atID_init (memory : BitVec 32 → IOVar) (slave : ModbusSlaveDrv)
    {c : BitVec 32 × BitVec 8 × Single} (h : c ∈ created) :
    (construct.init L memory slave).1.atID c.1 = some (newVar memory c) := by
  apply atID_created L created_distinct h
  have hroom := created_room c.1 (List.mem_map_of_mem h)
  cases hregion : (placeOf c.1).region <;>
  · rw [hregion] at hroom
    exact hroom.trans_eq (List.length_replicate).symm

theorem trueVal_init (memory : BitVec 32 → IOVar) (slave : ModbusSlaveDrv) (alMan : AlarmManager)
    {c : BitVec 32 × BitVec 8 × Single} (h : c ∈ created) :
    trueVal (startLoop L memory slave alMan).img c.1 = some c.2.2 := by
  rw [trueVal, startLoop, atID_init L memory slave h]
  rfl

end RegulatorLoop
