import TurbineGovernor.RegulatorImage
import TurbineGovernor.SingleSums
import TurbineGovernor.StartUp

/-!
# The set points of the control

`Control::updateControl` and its state machine. A scan is described by what it
assigns, in order; no variable is read after it is assigned in the same scan.
The power set point follows its remote value on a confirmation only, the
opening set point in every scan of its mode.
-/

namespace SetPoints
open CommonTypes SlaveDriver TransitionRuns RegulatorImage RegulatorImage.IOImage SingleOrder
open RegulatorAlarms (AlarmManager)
open StartUp (SE_REG_F1 SE_REG_F2 SE_REG_F3 ZC_REG_SSP ZC_REG_PWSP ZC_REG_OPSP ZR_REG_PWSP
  ZR_REG_OPSP)

def HMSM_REG_STR : BitVec 32 := 2000000000
def HMSM_REG_TRIP : BitVec 32 := 2000000003
def HMSM_REG_ALREP : BitVec 32 := 2000000004
def HMSM_REG_SPOK : BitVec 32 := 2000000008
def HMSM_REG_PWREG : BitVec 32 := 2000000009
def HMSM_REG_OPREG : BitVec 32 := 2000000010
def SAH_TUR_OVS : BitVec 32 := 1000000002
def SAHH_TUR_OVS : BitVec 32 := 1000000003
def SIS_TUR_SYNC : BitVec 32 := 1000000004
def SIS_TUR_EXC : BitVec 32 := 1000000005
def SIS_TUR_BRK : BitVec 32 := 1000000006
def SIS_TUR_N0 : BitVec 32 := 1000000007
def Y_REG_STATE : BitVec 32 := 3000000000

/-- What the control needs of the machine's arithmetic. -/
structure Arithmetic where
  /-- `currentSpeed += 0.009`, rounded to a `float` again. -/
  addSpeed : Single → Single
  ofInt : Int → Single

abbrev Assignment := BitVec 32 × Single

/-- The conversion of a comparison to `float`. -/
def ofBool (b : Bool) : Single := if b then ScanLoop.one else 0

/-- `io[uiID].getCurrentVal()`, for the variables that `init` creates. -/
def value (io : IOImage) (uiID : BitVec 32) : Single :=
  ((io.atID uiID).map getCurrentVal).getD 0

/-- `io[uiID].getCurrentVal() == 1`. -/
def isOne (io : IOImage) (uiID : BitVec 32) : Bool := Single.eq (value io uiID) ScanLoop.one

section Control
variable (A : Arithmetic) (io : IOImage)

/-- What follows from the speed in the states 1 and 4. The patterns are those of
0.5, 10, 50, 59, 60, 62, 70 and 65. -/
def runUpAt (currentSpeed : Single) (iState : Int) : Int × List Assignment :=
  let synchronised := lt 0x426c0000 currentSpeed
  let assigned : List Assignment :=
    [(SE_REG_F1, currentSpeed), (SE_REG_F2, currentSpeed), (SE_REG_F3, currentSpeed),
      (SIS_TUR_N0, ofBool (lt currentSpeed 0x3f000000)),
      (SIS_TUR_BRK, ofBool (lt currentSpeed 0x41200000)),
      (SIS_TUR_EXC, ofBool (lt 0x42480000 currentSpeed)),
      (SIS_TUR_SYNC, ofBool synchronised)] ++
    (if synchronised then [(ZC_REG_SSP, 0x42700000)] else []) ++
    [(SAH_TUR_OVS, ofBool (!lt 0x42780000 currentSpeed)),
      (SAHH_TUR_OVS, ofBool (!lt 0x428c0000 currentSpeed))]
  if lt 0x42820000 currentSpeed then (6, assigned ++ [(ZC_REG_PWSP, 0x42480000)])
  else (if synchronised then 4 else iState, assigned)

/-- The speed runs up and starts again above 80. -/
def runUp (iState : Int) : Int × List Assignment :=
  let currentSpeed := A.addSpeed (value io SE_REG_F1)
  runUpAt (if lt 0x42a00000 currentSpeed then 0 else currentSpeed) iState

/-- Regulation of the power. -/
def regulatePower : Int × List Assignment :=
  if isOne io HMSM_REG_OPREG then (7, [])
  else if isOne io HMSM_REG_SPOK then (6, [(ZC_REG_PWSP, value io ZR_REG_PWSP)])
  else (6, [])

/-- Regulation of the opening. -/
def regulateOpening : Int × List Assignment :=
  if isOne io HMSM_REG_PWREG then (6, [])
  else (7, [(ZC_REG_OPSP, value io ZR_REG_OPSP)])

/-- The part of a scan that depends on the state. -/
def regulate (iState : Int) : Int × List Assignment :=
  if iState = 1 ∨ iState = 4 then runUp A io iState
  else if iState = 6 then regulatePower io
  else if iState = 7 then regulateOpening io
  else (iState, [])

/-- The next state, the assignments and the alarms. -/
def updateControl (iState : Int) (alMan : AlarmManager) :
    Int × List Assignment × AlarmManager :=
  let iState := if iState = 0 ∧ isOne io HMSM_REG_STR then 1 else iState
  let alMan := ScanLoop.updateControl .regulator (value io HMSM_REG_TRIP) (value io HMSM_REG_ALREP)
    alMan
  let regulated := regulate A io iState
  (regulated.1, regulated.2 ++ [(Y_REG_STATE, A.ofInt regulated.1)], alMan)

end Control

def assign (io : IOImage) (a : Assignment) : IOImage := io.modifyID a.1 (setCurrentVal a.2)

structure Regulator where
  io : IOImage
  iState : Int
  alMan : AlarmManager

/-- What has happened to the variables, wherever they are, since the last scan. -/
abbrev Inputs := Place → IOVar → IOVar

def refreshVars (f : Nat → IOVar → IOVar) (vars : List (Option IOVar)) : List (Option IOVar) :=
  vars.mapIdx (fun i slot => slot.map (f i))

def refresh (io : IOImage) (inputs : Inputs) : IOImage :=
  { io with
    mFieldIn := refreshVars (fun i => inputs ⟨.fieldIn, i⟩) io.mFieldIn
    mFieldOut := refreshVars (fun i => inputs ⟨.fieldOut, i⟩) io.mFieldOut
    mSlaveIn := refreshVars (fun i => inputs ⟨.slaveIn, i⟩) io.mSlaveIn
    mSlaveOut := refreshVars (fun i => inputs ⟨.slaveOut, i⟩) io.mSlaveOut }

variable (A : Arithmetic)

/-- What the control does in a scan that finds the given inputs. -/
def control (r : Regulator) (inputs : Inputs) : Int × List Assignment × AlarmManager :=
  updateControl A (refresh r.io inputs) r.iState r.alMan

def scan (r : Regulator) (inputs : Inputs) : Regulator where
  io := (control A r inputs).2.1.foldl assign (refresh r.io inputs)
  iState := (control A r inputs).1
  alMan := (control A r inputs).2.2

/-- The regulator when the loop starts. -/
def startLoop (L : FloatAbcd) (memory : BitVec 32 → IOVar) (slave : ModbusSlaveDrv)
    (alMan : AlarmManager) : Regulator :=
  ⟨(construct.init L memory slave).1, 0, alMan⟩

def trueVal (io : IOImage) (uiID : BitVec 32) : Option Single := (io.atID uiID).map IOVar.mfTrueVal

/-- A set point is assigned on a confirmation in its mode only. -/
structure NeedsConfirmation (r : Regulator) (inputs : Inputs) : Prop where
  powerAssigned : ∀ v, (ZC_REG_PWSP, v) ∈ (control A r inputs).2.1 →
    (r.iState = 6 ∧ isOne (refresh r.io inputs) HMSM_REG_SPOK ∧
      v = value (refresh r.io inputs) ZR_REG_PWSP) ∨
    (r.iState ≠ 6 ∧ (control A r inputs).1 = 6 ∧ v = 0x42480000)
  openingAssigned : ∀ v, (ZC_REG_OPSP, v) ∈ (control A r inputs).2.1 →
    r.iState = 7 ∧ isOne (refresh r.io inputs) HMSM_REG_SPOK ∧
      v = value (refresh r.io inputs) ZR_REG_OPSP
  powerKept : (∀ v, (ZC_REG_PWSP, v) ∉ (control A r inputs).2.1) →
    trueVal (scan A r inputs).io ZC_REG_PWSP = trueVal (refresh r.io inputs) ZC_REG_PWSP
  openingKept : (∀ v, (ZC_REG_OPSP, v) ∉ (control A r inputs).2.1) →
    trueVal (scan A r inputs).io ZC_REG_OPSP = trueVal (refresh r.io inputs) ZC_REG_OPSP

/-- The opening is regulated, stays so and has no confirmation. -/
def Unconfirmed (r : Regulator) (inputs : Inputs) : Prop :=
  r.iState = 7 ∧ isOne (refresh r.io inputs) HMSM_REG_PWREG = false ∧
    isOne (refresh r.io inputs) HMSM_REG_SPOK = false

section Scan
variable {A} {io : IOImage} {iState : Int} {alMan : AlarmManager} {v : Single}

theorem power_mem_runUpAt {currentSpeed : Single}
    (h : (ZC_REG_PWSP, v) ∈ (runUpAt currentSpeed iState).2) :
    (runUpAt currentSpeed iState).1 = 6 ∧ v = 0x42480000 := by
  simp only [runUpAt] at h ⊢
  by_cases hpower : lt 0x42820000 currentSpeed = true
  · rw [if_pos hpower] at h ⊢
    cases lt 0x426c0000 currentSpeed <;>
    · simp [ZC_REG_PWSP, SE_REG_F1, SE_REG_F2, SE_REG_F3, SIS_TUR_N0, SIS_TUR_BRK, SIS_TUR_EXC,
        SIS_TUR_SYNC, ZC_REG_SSP, SAH_TUR_OVS, SAHH_TUR_OVS] at h
      exact ⟨rfl, h⟩
  · rw [if_neg hpower] at h
    cases lt 0x426c0000 currentSpeed <;>
    · simp [ZC_REG_PWSP, SE_REG_F1, SE_REG_F2, SE_REG_F3, SIS_TUR_N0, SIS_TUR_BRK, SIS_TUR_EXC,
        SIS_TUR_SYNC, ZC_REG_SSP, SAH_TUR_OVS, SAHH_TUR_OVS] at h

theorem opening_notMem_runUpAt (currentSpeed : Single) :
    (ZC_REG_OPSP, v) ∉ (runUpAt currentSpeed iState).2 := by
  simp only [runUpAt]
  by_cases hpower : lt 0x42820000 currentSpeed = true
  · rw [if_pos hpower]
    cases lt 0x426c0000 currentSpeed <;>
      simp [ZC_REG_OPSP, ZC_REG_PWSP, SE_REG_F1, SE_REG_F2, SE_REG_F3, SIS_TUR_N0, SIS_TUR_BRK,
        SIS_TUR_EXC, SIS_TUR_SYNC, ZC_REG_SSP, SAH_TUR_OVS, SAHH_TUR_OVS]
  · rw [if_neg hpower]
    cases lt 0x426c0000 currentSpeed <;>
      simp [ZC_REG_OPSP, SE_REG_F1, SE_REG_F2, SE_REG_F3, SIS_TUR_N0, SIS_TUR_BRK,
        SIS_TUR_EXC, SIS_TUR_SYNC, ZC_REG_SSP, SAH_TUR_OVS, SAHH_TUR_OVS]

theorem power_mem_regulate (h : (ZC_REG_PWSP, v) ∈ (regulate A io iState).2) :
    (iState = 6 ∧ isOne io HMSM_REG_SPOK ∧ v = value io ZR_REG_PWSP) ∨
      (iState ≠ 6 ∧ (regulate A io iState).1 = 6 ∧ v = 0x42480000) := by
  simp only [regulate] at h ⊢
  by_cases hrun : iState = 1 ∨ iState = 4
  · rw [if_pos hrun] at h ⊢
    exact Or.inr ⟨by omega, power_mem_runUpAt h⟩
  rw [if_neg hrun] at h ⊢
  by_cases hpower : iState = 6
  · rw [if_pos hpower] at h
    simp only [regulatePower] at h
    split at h
    · cases h
    split at h
    · rename_i hspok
      exact Or.inl ⟨hpower, hspok, (Prod.mk.inj (List.mem_singleton.mp h)).2⟩
    · cases h
  rw [if_neg hpower] at h
  by_cases hopening : iState = 7
  · rw [if_pos hopening] at h
    simp only [regulateOpening] at h
    split at h
    · cases h
    · simp [ZC_REG_PWSP, ZC_REG_OPSP] at h
  · rw [if_neg hopening] at h
    cases h

/-- The opening set point is assigned whatever `HMSM_REG_SPOK` reads. -/
theorem opening_mem_regulate : (ZC_REG_OPSP, v) ∈ (regulate A io iState).2 ↔
    iState = 7 ∧ isOne io HMSM_REG_PWREG = false ∧ v = value io ZR_REG_OPSP := by
  simp only [regulate]
  by_cases hrun : iState = 1 ∨ iState = 4
  · rw [if_pos hrun]
    have hnot : (ZC_REG_OPSP, v) ∉ (runUp A io iState).2 := opening_notMem_runUpAt _
    exact ⟨fun h => absurd h hnot, fun h => by omega⟩
  rw [if_neg hrun]
  by_cases hpower : iState = 6
  · rw [if_pos hpower]
    simp only [regulatePower]
    have hne : ¬ iState = 7 := by omega
    split
    · simp [hne]
    split
    · simp [hne, ZC_REG_PWSP, ZC_REG_OPSP]
    · simp [hne]
  rw [if_neg hpower]
  by_cases hopening : iState = 7
  · rw [if_pos hopening]
    simp only [regulateOpening]
    split
    · rename_i hpwreg
      simp [hpwreg]
    · rename_i hpwreg
      simp [hopening, hpwreg]
  · rw [if_neg hopening]
    simp [hopening]

/-- The state in which a scan regulates; only the start is anticipated. -/
theorem started_iff (b : Bool) (n : Int) (h0 : n ≠ 0) (h1 : n ≠ 1) :
    (if iState = 0 ∧ b then 1 else iState) = n ↔ iState = n := by
  split <;> omega

theorem mem_updateControl {uiID : BitVec 32} (h : uiID ≠ Y_REG_STATE) :
    (uiID, v) ∈ (updateControl A io iState alMan).2.1 ↔
      (uiID, v) ∈ (regulate A io (if iState = 0 ∧ isOne io HMSM_REG_STR then 1 else iState)).2 := by
  simp only [updateControl]
  rw [List.mem_append, List.mem_singleton]
  constructor
  · rintro (hreg | hstate)
    · exact hreg
    · exact absurd (Prod.mk.inj hstate).1 h
  · exact Or.inl

theorem foldl_assign_other {p : Place} {as : List Assignment} (h : ∀ a ∈ as, placeOf a.1 ≠ p)
    (io : IOImage) : (as.foldl assign io).var p = io.var p := by
  induction as generalizing io with
  | nil => rfl
  | cons a as ih =>
    rw [List.foldl_cons, ih (fun a' ha' => h a' (List.mem_cons_of_mem a ha')), assign, var_modifyID,
      if_neg (h a List.mem_cons_self)]

/-- What is not assigned keeps its true value. -/
theorem trueVal_kept {uiID : BitVec 32} {as : List Assignment} (h : ∀ v, (uiID, v) ∉ as)
    (io : IOImage) : trueVal (as.foldl assign io) uiID = trueVal io uiID := by
  have hplaces : ∀ a ∈ as, placeOf a.1 ≠ placeOf uiID := by
    intro a ha heq
    exact h a.2 (placeOf_injective heq ▸ ha)
  rw [trueVal, trueVal, atID, atID, foldl_assign_other hplaces]

theorem needsConfirmation_iff (r : Regulator) (inputs : Inputs) :
    NeedsConfirmation A r inputs ↔ ¬ Unconfirmed r inputs := by
  constructor
  · rintro law ⟨hstate, hpwreg, hspok⟩
    have hmem :
        (ZC_REG_OPSP, value (refresh r.io inputs) ZR_REG_OPSP) ∈ (control A r inputs).2.1 := by
      rw [control, mem_updateControl (by decide), opening_mem_regulate]
      exact ⟨(started_iff _ 7 (by decide) (by decide)).mpr hstate, hpwreg, rfl⟩
    have hconfirmed := (law.openingAssigned _ hmem).2.1
    rw [hspok] at hconfirmed
    cases hconfirmed
  · intro confirmed
    refine ⟨fun v hmem => ?_, fun v hmem => ?_, fun h => trueVal_kept h _,
      fun h => trueVal_kept h _⟩
    · rw [control, mem_updateControl (by decide)] at hmem
      rcases power_mem_regulate hmem with ⟨hstate, hrest⟩ | ⟨hstate, hrest⟩
      · exact Or.inl ⟨(started_iff _ 6 (by decide) (by decide)).mp hstate, hrest⟩
      · exact Or.inr ⟨mt (started_iff _ 6 (by decide) (by decide)).mpr hstate, hrest⟩
    · rw [control, mem_updateControl (by decide), opening_mem_regulate] at hmem
      obtain ⟨hstate, hpwreg, hv⟩ := hmem
      have hseven := (started_iff _ 7 (by decide) (by decide)).mp hstate
      refine ⟨hseven, ?_, hv⟩
      by_contra hspok
      exact confirmed ⟨hseven, hpwreg, Bool.not_eq_true _ ▸ hspok⟩

end Scan

/-- The law holds in all scans of a run exactly when no scan regulates the
opening without a confirmation. -/
theorem setPoints_confirmed_iff (L : FloatAbcd) (memory : BitVec 32 → IOVar)
    (slave : ModbusSlaveDrv) (alMan : AlarmManager) (scans : List Inputs) :
    Along (scan A) (NeedsConfirmation A) (startLoop L memory slave alMan) scans ↔
      Along (scan A) (fun r inputs => ¬ Unconfirmed r inputs) (startLoop L memory slave alMan)
        scans :=
  along_congr (P := fun _ => True) (fun r inputs _ => needsConfirmation_iff r inputs)
    (fun _ _ _ _ => trivial) trivial scans

/-- The sum rounded at the one speed of the run. -/
def nearSpeed : Arithmetic where
  addSpeed x := if x = 0x42820000 then 0x4282049c else x
  ofInt n := if n = 6 then 0x40c00000 else if n = 7 then 0x40e00000 else 0

/-- Given true values; the other variables stay. -/
def inputsOf (vals : List (BitVec 32 × Single)) : Inputs := fun p var =>
  match vals.find? (fun v => placeOf v.1 = p) with
  | none => var
  | some v => setCurrentVal v.2 var

/-- The start at a speed of 65, the change to opening and a scan in which only
the remote set point is new. -/
def unconfirmedRun : List Inputs :=
  [inputsOf [(HMSM_REG_STR, ScanLoop.one), (SE_REG_F1, 0x42820000)],
    inputsOf [(HMSM_REG_OPREG, ScanLoop.one)],
    inputsOf [(HMSM_REG_OPREG, 0), (ZR_REG_OPSP, 0x41c80000)]]

theorem opening_without_confirmation :
    ¬ Along (scan nearSpeed) (NeedsConfirmation nearSpeed)
      (startLoop floatAbcd (fun id => TableBounds.varAt id {}) TableBounds.unInitSlave
        ⟨false, [], [], [], fun _ => 0⟩) unconfirmedRun := by
  rintro ⟨_, _, law, _⟩
  exact (needsConfirmation_iff _ _).mp law ⟨by decide +kernel, by decide +kernel, by decide +kernel⟩

end SetPoints
