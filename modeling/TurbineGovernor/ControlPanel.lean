import TurbineGovernor.SetPoints
import TurbineGovernor.SingleSums
import TurbineGovernor.ViewParts

/-!
# The control panel of the HMI

`ControlWdg` enables its buttons by the mode and the state that it was last told
of, and takes the limits of the set point from the register image. Texts with
numbers are kept as the values that are formatted.
-/

namespace ControlPanel
open CommonTypes SingleOrder SingleSums TransitionRuns SpinBoxes HmiImage
open StartUp (SE_REG_F1 SE_REG_F2 SE_REG_F3 ZC_REG_SSP ZC_REG_PWSP ZC_REG_OPSP ZR_REG_PWSP
  ZR_REG_OPSP)
open SetPoints (HMSM_REG_STR HMSM_REG_TRIP HMSM_REG_SPOK HMSM_REG_PWREG HMSM_REG_OPREG SAH_TUR_OVS
  SAHH_TUR_OVS SIS_TUR_SYNC SIS_TUR_EXC SIS_TUR_BRK SIS_TUR_N0 Y_REG_STATE)

def ZSC_GEN_LB : BitVec 32 := 5
def ZSC_GEN_GB : BitVec 32 := 6
def JE_GEN_P1 : BitVec 32 := 22
def JE_GEN_P2 : BitVec 32 := 23
def HMSM_REG_STP : BitVec 32 := 2000000001
def HMSM_REG_UNL : BitVec 32 := 2000000002
def Y_REG_LOC : BitVec 32 := 1000000013

/-- The fields of a `RegVar` with its range; units are not used here. -/
structure Egu where
  mfEguMin : Single
  mfEguMax : Single

/-- The ranges of the variables of the slave and of the field. -/
structure Ranges where
  slave : BitVec 32 → Egu
  field : BitVec 32 → Egu

/-- What `RegImage::init` sets: from 0 to 60, 5000 and 100. The other ranges are
what the memory holds. -/
def Ranges.init (memory : Ranges) : Ranges where
  slave uiID :=
    if uiID = SE_REG_F1 ∨ uiID = SE_REG_F2 ∨ uiID = SE_REG_F3 then ⟨0, 0x42700000⟩
    else if uiID = ZR_REG_PWSP then ⟨0, 0x459c4000⟩
    else if uiID = ZR_REG_OPSP then ⟨0, 0x42c80000⟩
    else memory.slave uiID
  field := memory.field

/-- The register image as the widgets ask it for limits. -/
structure RangedImage where
  vars : RegVars
  ranges : Ranges

namespace RangedImage
variable (img : RangedImage)

def range (varID : BitVec 32) : Option Egu :=
  match img.vars.mumSlaveVars.lookup varID with
  | some _ => some (img.ranges.slave varID)
  | none => (img.vars.mumFieldVars.lookup varID).map (fun _ => img.ranges.field varID)

def getVarMin (varID : BitVec 32) : Single := ((img.range varID).map Egu.mfEguMin).getD 0

def getVarMax (varID : BitVec 32) : Single := ((img.range varID).map Egu.mfEguMax).getD 0

end RangedImage

/-- `(int) fVal`; a value out of range has none. -/
def toInt (fVal : Single) : Int := (toUnits fVal).tdiv (2 ^ 149)

def flagOf (fVal : Single) : Bool := decide (toInt fVal ≠ 0)

def toUnsigned (fVal : Single) : BitVec 32 := BitVec.ofInt 32 (toInt fVal)

/-- A box with two decimals counts hundredths. -/
def hundredths (fVal : Single) : Int := (toUnits fVal * 100 + 2 ^ 148) / 2 ^ 149

/-- `sp->value()` as a `float`. -/
def ofHundredths (n : Int) : Single := ofUnits false (n * 2 ^ 149 / 100)

theorem key_ofHundredths_mono {m n : Int} (h : m ≤ n) :
    key (ofHundredths m) ≤ key (ofHundredths n) := by
  rw [ofHundredths, ofHundredths, key_ofUnits, key_ofUnits]
  apply odd_mono round_mono
  apply Int.ediv_le_ediv (by decide)
  exact mul_le_mul_of_nonneg_right h (by positivity)

theorem isNaN_ofHundredths (n : Int) : Single.isNaN (ofHundredths n) = false := by
  rw [isNaN_false_iff, ← natAbs_key, ofHundredths, key_ofUnits]
  have hbound := odd_le round_le (n * 2 ^ 149 / 100)
  generalize odd SingleSums.round (n * 2 ^ 149 / 100) = k at hbound ⊢
  omega

/-- A number between two bounds of the box is between them as a `float`. -/
theorem le_ofHundredths {m n : Int} (h : m ≤ n) : le (ofHundredths m) (ofHundredths n) = true :=
  (le_iff _ _).mpr ⟨isNaN_ofHundredths m, isNaN_ofHundredths n, key_ofHundredths_mono h⟩

/-- The buttons and the box that are enabled and disabled. -/
inductive Control where
  | cmdStart
  | cmdStop
  | cmdTrip
  | cmdUnl
  | cmdRegTypeP
  | cmdRegTypeA
  | spSPIn
  | cmdSendSP
  deriving DecidableEq

inductive Indicator where
  | lbIndN0
  | lbIndBr
  | lbIndExc
  | lbIndSync
  | lbIndLovs
  | lbIndHovs
  | lbIndLineB
  | lbIndGenB
  | lbIndLoc
  | lbIndRem
  deriving DecidableEq

/-- The states of the enumeration that are compared with. -/
def RegVacio : BitVec 32 := 4
def RegIsla : BitVec 32 := 5
def RegPotencia : BitVec 32 := 6
def RegApertura : BitVec 32 := 7

/-- `bApertura` says which of the two exclusive buttons is checked, `txtSP` is
the set point shown with the variable of its units, and `lbInd` is the property
`state` of a label, if it has been changed. -/
structure ControlWdg where
  mtLastRegSt : BitVec 32
  mbRegInLoc : Bool
  mfLastFrecSP : Single
  mfLastPWSP : Single
  mfLastOPSP : Single
  spSPIn : SpinBox Int
  enabled : Control → Bool
  bApertura : Bool
  txtState : String
  txtSP : Option (BitVec 32 × Single)
  lbInd : Indicator → Option String
  dpl : BitVec 32 → Option Single

/-- The members that the constructor leaves to the memory. -/
structure Memory where
  mtLastRegSt : BitVec 32
  mbRegInLoc : Bool
  mfLastFrecSP : Single
  mfLastPWSP : Single
  mfLastOPSP : Single

/-- A call of the image. -/
inductive Request where
  | writeVar (varID : BitVec 32) (val : Single)
  | writeVarAsButton (varID : BitVec 32) (val : Bool)
  deriving DecidableEq

/-- The indicator of a variable and its property when the value is set or not. -/
def indicator (uiID : BitVec 32) : Option (Indicator × String × String) :=
  if uiID = SIS_TUR_N0 then some (.lbIndN0, "on", "no")
  else if uiID = SIS_TUR_BRK then some (.lbIndBr, "on", "no")
  else if uiID = SIS_TUR_EXC then some (.lbIndExc, "on", "no")
  else if uiID = SIS_TUR_SYNC then some (.lbIndSync, "on", "no")
  else if uiID = SAH_TUR_OVS then some (.lbIndLovs, "no", "off")
  else if uiID = SAHH_TUR_OVS then some (.lbIndHovs, "no", "off")
  else if uiID = ZSC_GEN_LB then some (.lbIndLineB, "on", "off")
  else if uiID = ZSC_GEN_GB then some (.lbIndGenB, "on", "off")
  else none

def stateText (st : BitVec 32) : String :=
  if st = 0 then "Parado"
  else if st = 1 then "Arrancando"
  else if st = 2 then "Parando"
  else if st = 3 then "Descargando"
  else if st = RegVacio then "Reg.Vacio"
  else if st = RegIsla then "Reg.Isla"
  else if st = RegPotencia then "Reg.Potencia"
  else if st = RegApertura then "Reg.Apertura"
  else "NULL"

namespace ControlWdg

/-- Everything is enabled at first, and the box has the range of a new one. -/
def construct (memory : Memory) : ControlWdg where
  mtLastRegSt := memory.mtLastRegSt
  mbRegInLoc := memory.mbRegInLoc
  mfLastFrecSP := memory.mfLastFrecSP
  mfLastPWSP := memory.mfLastPWSP
  mfLastOPSP := memory.mfLastOPSP
  spSPIn := .upTo 9999
  enabled _ := true
  bApertura := false
  txtState := "Parado"
  txtSP := none
  lbInd _ := none
  dpl _ := none

variable (img : RangedImage) (w : ControlWdg)

def setEnabled (control : Control) (bEnable : Bool) : ControlWdg :=
  { w with enabled := Function.update w.enabled control bEnable }

def changeLabelProperty (label : Indicator) (strPrVal : String) : ControlWdg :=
  { w with lbInd := Function.update w.lbInd label (some strPrVal) }

def enableControlButtons (bEnable : Bool) : ControlWdg :=
  (((w.setEnabled .cmdStart bEnable).setEnabled .cmdStop bEnable).setEnabled .cmdTrip
    bEnable).setEnabled .cmdUnl bEnable

def updateSPDisplayTxt : ControlWdg :=
  { w with txtSP :=
      if w.mtLastRegSt < 4 then none
      else if w.mtLastRegSt = RegVacio ∨ w.mtLastRegSt = RegIsla then
        some (ZC_REG_SSP, w.mfLastFrecSP)
      else if w.mtLastRegSt = RegPotencia then some (ZC_REG_PWSP, w.mfLastPWSP)
      else some (ZC_REG_OPSP, w.mfLastOPSP) }

/-- The variable whose limits the box takes. -/
def spVarID : BitVec 32 := if w.mtLastRegSt = RegApertura then ZR_REG_OPSP else ZR_REG_PWSP

def updateSPState : ControlWdg :=
  let enableSPSend := decide (w.mtLastRegSt > 5) && !w.mbRegInLoc
  let w := (w.setEnabled .spSPIn enableSPSend).setEnabled .cmdSendSP enableSPSend
  if enableSPSend then
    { w with spSPIn := (w.spSPIn.setLimits (hundredths (img.getVarMin w.spVarID))
        (hundredths (img.getVarMax w.spVarID))).setValue (hundredths (img.getVarMin w.spVarID)) }
  else w

/-- A checked button of the group cannot be unchecked, and checking one
unchecks the other. -/
def updateRegChangeButtons : ControlWdg :=
  let bEnable := !w.mbRegInLoc && decide (w.mtLastRegSt > 5)
  let w := (w.setEnabled .cmdRegTypeA bEnable).setEnabled .cmdRegTypeP bEnable
  if !w.mbRegInLoc then
    let w := if w.mtLastRegSt ≠ RegPotencia then { w with bApertura := true } else w
    if w.mtLastRegSt ≠ RegApertura then { w with bApertura := false } else w
  else w

def setRegState (st : BitVec 32) : ControlWdg :=
  let w := { w with mtLastRegSt := st, txtState := stateText st }
  ((w.updateSPState img).updateSPDisplayTxt).updateRegChangeButtons

/-- The labels of the mode. -/
def showRegInLoc (bCurrVal : Bool) : ControlWdg :=
  if bCurrVal then (w.changeLabelProperty .lbIndLoc "on").changeLabelProperty .lbIndRem "no"
  else (w.changeLabelProperty .lbIndLoc "no").changeLabelProperty .lbIndRem "on"

def setRegInLoc (bCurrVal : Bool) : ControlWdg :=
  let w := { w.showRegInLoc bCurrVal with mbRegInLoc := bCurrVal }
  ((w.updateSPState img).updateRegChangeButtons).enableControlButtons (!bCurrVal)

def varChanged (uiID : BitVec 32) (fCurrVal : Single) : ControlWdg :=
  let bCurrVal := flagOf fCurrVal
  if uiID = Y_REG_STATE then w.setRegState img (toUnsigned fCurrVal)
  else if uiID = Y_REG_LOC then w.setRegInLoc img bCurrVal
  else if uiID = ZC_REG_PWSP then { w with mfLastPWSP := fCurrVal }.updateSPDisplayTxt
  else if uiID = ZC_REG_OPSP then { w with mfLastOPSP := fCurrVal }.updateSPDisplayTxt
  else if uiID = ZC_REG_SSP then { w with mfLastFrecSP := fCurrVal }.updateSPDisplayTxt
  else if uiID = JE_GEN_P1 ∨ uiID = JE_GEN_P2 ∨ uiID = SE_REG_F1 ∨ uiID = SE_REG_F2 ∨
      uiID = SE_REG_F3 then
    { w with dpl := Function.update w.dpl uiID (some fCurrVal) }
  else match indicator uiID with
    | some (label, strSet, strClear) =>
      w.changeLabelProperty label (if bCurrVal then strSet else strClear)
    | none => w

/-- The calls of a slot; `accepted` is the answer to the set point. -/
def clicked (accepted : Bool) : Control → List Request
  | .cmdStart => [.writeVarAsButton HMSM_REG_STR true]
  | .cmdStop => [.writeVarAsButton HMSM_REG_STP true]
  | .cmdTrip => [.writeVarAsButton HMSM_REG_TRIP false]
  | .cmdUnl => [.writeVarAsButton HMSM_REG_UNL true]
  | .cmdRegTypeP => [.writeVarAsButton HMSM_REG_PWREG true]
  | .cmdRegTypeA => [.writeVarAsButton HMSM_REG_OPREG true]
  | .spSPIn => []
  | .cmdSendSP =>
    .writeVar (if w.mtLastRegSt = RegPotencia then ZR_REG_PWSP else ZR_REG_OPSP)
        (ofHundredths w.spSPIn.value) ::
      if accepted then [.writeVarAsButton HMSM_REG_SPOK true] else []

/-- What a click on a control changes; only the two exclusive buttons can be checked. -/
def check : Control → ControlWdg
  | .cmdRegTypeP => { w with bApertura := false }
  | .cmdRegTypeA => { w with bApertura := true }
  | _ => w

end ControlWdg

/-- A signal of the image, a click or an edit of the box. -/
inductive Event where
  | varChanged (uiID : BitVec 32) (fCurrVal : Single)
  | click (control : Control)
  | edit (val : Int)

namespace ControlWdg
variable (img : RangedImage) (w : ControlWdg)

/-- Disabled controls have no clicks, and a disabled box no edits. -/
def step (w : ControlWdg) : Event → ControlWdg
  | .varChanged uiID fCurrVal => w.varChanged img uiID fCurrVal
  | .click control => if w.enabled control then w.check control else w
  | .edit val => if w.enabled .spSPIn then { w with spSPIn := w.spSPIn.setValue val } else w

def requests (accepted : Bool) : Event → List Request
  | .click control => if w.enabled control then w.clicked accepted control else []
  | _ => []

end ControlWdg

/-- The buttons that only depend on the mode. -/
def Control.IsOrder (control : Control) : Prop :=
  control = .cmdStart ∨ control = .cmdStop ∨ control = .cmdTrip ∨ control = .cmdUnl

instance : DecidablePred Control.IsOrder := fun control =>
  inferInstanceAs (Decidable (control = .cmdStart ∨ _))

/-- The orders are for a regulator that is not in local mode, the rest is for
one that also regulates power or opening. -/
def permitted (st : BitVec 32) (bRegInLoc : Bool) (control : Control) : Bool :=
  !bRegInLoc && (decide control.IsOrder || decide (st > 5))

/-- The box has the limits of its variable. -/
def InLimits (img : RangedImage) (w : ControlWdg) : Prop :=
  w.spSPIn.minimum = min (hundredths (img.getVarMin w.spVarID))
      (hundredths (img.getVarMax w.spVarID)) ∧
    w.spSPIn.maximum = hundredths (img.getVarMax w.spVarID)

/-- The panel of a regulator whose mode has been shown. -/
structure Settled (img : RangedImage) (w : ControlWdg) : Prop where
  enabled : ∀ control, w.enabled control = permitted w.mtLastRegSt w.mbRegInLoc control
  range : permitted w.mtLastRegSt w.mbRegInLoc .spSPIn = true → InLimits img w

namespace ControlWdg

section Updates
variable (img : RangedImage) (w : ControlWdg)

/-- What both reports do: the members stay, the controls that depend on the state
are set, and the box has its limits if it is enabled. -/
structure Refreshed (w w' : ControlWdg) : Prop where
  state : w'.mtLastRegSt = w.mtLastRegSt
  place : w'.mbRegInLoc = w.mbRegInLoc
  text : w'.txtState = w.txtState
  enabled : ∀ control, w'.enabled control =
    if control.IsOrder then w.enabled control else permitted w.mtLastRegSt w.mbRegInLoc control
  range : permitted w.mtLastRegSt w.mbRegInLoc .spSPIn = true → InLimits img w'

theorem updateSPState_refreshes (control : Control) :
    (w.updateSPState img).mtLastRegSt = w.mtLastRegSt ∧
      (w.updateSPState img).mbRegInLoc = w.mbRegInLoc ∧
      (w.updateSPState img).txtState = w.txtState ∧
      (w.updateSPState img).enabled control =
        (if control = .spSPIn ∨ control = .cmdSendSP then
          permitted w.mtLastRegSt w.mbRegInLoc .spSPIn else w.enabled control) ∧
      (permitted w.mtLastRegSt w.mbRegInLoc .spSPIn = true →
        InLimits img (w.updateSPState img)) := by
  have hsend : (decide (w.mtLastRegSt > 5) && !w.mbRegInLoc) =
      permitted w.mtLastRegSt w.mbRegInLoc .spSPIn := Bool.and_comm _ _
  unfold updateSPState
  simp only [hsend]
  cases hpermitted : permitted w.mtLastRegSt w.mbRegInLoc .spSPIn with
  | true =>
    refine ⟨rfl, rfl, rfl, ?_, fun _ => ?_⟩
    · cases control <;> simp [setEnabled]
    · exact ⟨SpinBox.setLimits_minimum _ _ _, SpinBox.setLimits_maximum _ _ _⟩
  | false =>
    refine ⟨rfl, rfl, rfl, ?_, fun hfalse => by cases hfalse⟩
    cases control <;> simp [setEnabled]

theorem updateRegChangeButtons_refreshes (control : Control) :
    w.updateRegChangeButtons.mtLastRegSt = w.mtLastRegSt ∧
      w.updateRegChangeButtons.mbRegInLoc = w.mbRegInLoc ∧
      w.updateRegChangeButtons.txtState = w.txtState ∧
      w.updateRegChangeButtons.spSPIn = w.spSPIn ∧
      w.updateRegChangeButtons.enabled control =
        if control = .cmdRegTypeA ∨ control = .cmdRegTypeP then
          permitted w.mtLastRegSt w.mbRegInLoc .spSPIn
        else w.enabled control := by
  obtain ⟨bApertura, heq⟩ : ∃ bApertura, w.updateRegChangeButtons =
      { (w.setEnabled .cmdRegTypeA (permitted w.mtLastRegSt w.mbRegInLoc .spSPIn)).setEnabled
          .cmdRegTypeP (permitted w.mtLastRegSt w.mbRegInLoc .spSPIn) with
        bApertura := bApertura } := by
    unfold updateRegChangeButtons
    dsimp only
    split
    · split
      · split <;> exact ⟨_, rfl⟩
      · split <;> exact ⟨_, rfl⟩
    · exact ⟨_, rfl⟩
  rw [heq]
  refine ⟨rfl, rfl, rfl, rfl, ?_⟩
  cases control <;> simp [setEnabled]

/-- The text of the set point may change in between. -/
theorem refreshed (txtSP : Option (BitVec 32 × Single)) :
    Refreshed img w { w.updateSPState img with txtSP := txtSP }.updateRegChangeButtons := by
  have hsp := updateSPState_refreshes img w
  have hreg := updateRegChangeButtons_refreshes { w.updateSPState img with txtSP := txtSP }
  obtain ⟨hstate, hplace, htext, _, hrange⟩ := hsp .spSPIn
  obtain ⟨hstate', hplace', htext', hbox, _⟩ := hreg .spSPIn
  refine ⟨hstate'.trans hstate, hplace'.trans hplace, htext'.trans htext, ?_, ?_⟩
  · intro control
    have hcontrol := (hreg control).2.2.2.2
    rw [hcontrol]
    dsimp only
    rw [(hsp control).2.2.2.1, hstate, hplace]
    cases control <;> simp [Control.IsOrder, permitted]
  · intro hpermitted
    have hvar := hrange hpermitted
    simp only [InLimits, spVarID, hbox, hstate'] at hvar ⊢
    exact hvar

theorem setRegState_refreshed (st : BitVec 32) :
    Refreshed img { w with mtLastRegSt := st, txtState := stateText st } (w.setRegState img st) :=
  refreshed img _ _

theorem setRegInLoc_refreshed (bCurrVal : Bool) : ∃ lbInd v,
    Refreshed img { w with lbInd := lbInd, mbRegInLoc := bCurrVal } v ∧
      w.setRegInLoc img bCurrVal = v.enableControlButtons (!bCurrVal) := by
  obtain ⟨lbInd, heq⟩ : ∃ lbInd, w.showRegInLoc bCurrVal = { w with lbInd := lbInd } := by
    unfold showRegInLoc
    split <;> exact ⟨_, rfl⟩
  unfold setRegInLoc
  rw [heq]
  exact ⟨lbInd, _, refreshed img _ _, rfl⟩

end Updates

section Reports
variable {img : RangedImage} {w : ControlWdg}

/-- From the first report of the mode on the panel is settled. -/
theorem settled_setRegInLoc (img : RangedImage) (w : ControlWdg) (bCurrVal : Bool) :
    Settled img (w.setRegInLoc img bCurrVal) := by
  obtain ⟨lbInd, v, hrefreshed, heq⟩ := setRegInLoc_refreshed img w bCurrVal
  rw [heq]
  refine ⟨fun control => ?_, fun hpermitted => ?_⟩
  · have henabled := hrefreshed.enabled control
    have hplace := hrefreshed.place
    have hstate := hrefreshed.state
    dsimp only at henabled hplace hstate
    cases control <;>
      simp_all [enableControlButtons, setEnabled, Control.IsOrder, permitted]
  · apply hrefreshed.range
    rw [← hrefreshed.state, ← hrefreshed.place]
    exact hpermitted

theorem settled_setRegState (h : Settled img w) (st : BitVec 32) :
    Settled img (w.setRegState img st) := by
  have hrefreshed := setRegState_refreshed img w st
  refine ⟨fun control => ?_, fun hpermitted => ?_⟩
  · rw [hrefreshed.enabled, hrefreshed.state, hrefreshed.place]
    dsimp only
    split
    · rename_i horder
      rw [h.enabled]
      simp only [permitted, horder, decide_true, Bool.true_or]
    · rfl
  · apply hrefreshed.range
    rw [← hrefreshed.state, ← hrefreshed.place]
    exact hpermitted

/-- What a report of another variable leaves alone. -/
structure Quiet (w w' : ControlWdg) : Prop where
  state : w'.mtLastRegSt = w.mtLastRegSt
  place : w'.mbRegInLoc = w.mbRegInLoc
  text : w'.txtState = w.txtState
  enabled : w'.enabled = w.enabled
  minimum : w'.spSPIn.minimum = w.spSPIn.minimum
  maximum : w'.spSPIn.maximum = w.spSPIn.maximum

theorem Quiet.settled {w' : ControlWdg} (h : Settled img w) (quiet : Quiet w w') :
    Settled img w' := by
  refine ⟨fun control => ?_, fun hpermitted => ?_⟩
  · rw [quiet.enabled, quiet.state, quiet.place]
    exact h.enabled control
  · rw [quiet.state, quiet.place] at hpermitted
    have hrange := h.range hpermitted
    simp only [InLimits, spVarID, quiet.minimum, quiet.maximum, quiet.state] at hrange ⊢
    exact hrange

theorem varChanged_quiet (img : RangedImage) (w : ControlWdg) {uiID : BitVec 32} (fCurrVal : Single)
    (hstate : uiID ≠ Y_REG_STATE) (hplace : uiID ≠ Y_REG_LOC) :
    Quiet w (w.varChanged img uiID fCurrVal) := by
  unfold varChanged
  dsimp only
  rw [if_neg hstate, if_neg hplace]
  split
  · exact ⟨rfl, rfl, rfl, rfl, rfl, rfl⟩
  split
  · exact ⟨rfl, rfl, rfl, rfl, rfl, rfl⟩
  split
  · exact ⟨rfl, rfl, rfl, rfl, rfl, rfl⟩
  split
  · exact ⟨rfl, rfl, rfl, rfl, rfl, rfl⟩
  split
  · exact ⟨rfl, rfl, rfl, rfl, rfl, rfl⟩
  · exact ⟨rfl, rfl, rfl, rfl, rfl, rfl⟩

/-- The members that the panel takes over from a report. -/
theorem varChanged_members (img : RangedImage) (w : ControlWdg) (uiID : BitVec 32)
    (fCurrVal : Single) :
    (w.varChanged img uiID fCurrVal).mtLastRegSt =
        (if uiID = Y_REG_STATE then toUnsigned fCurrVal else w.mtLastRegSt) ∧
      (w.varChanged img uiID fCurrVal).mbRegInLoc =
        (if uiID = Y_REG_LOC then flagOf fCurrVal else w.mbRegInLoc) ∧
      (w.varChanged img uiID fCurrVal).txtState =
        if uiID = Y_REG_STATE then stateText (toUnsigned fCurrVal) else w.txtState := by
  have hdistinct : Y_REG_STATE ≠ Y_REG_LOC := by decide
  by_cases hstate : uiID = Y_REG_STATE
  · subst hstate
    have hrefreshed := setRegState_refreshed img w (toUnsigned fCurrVal)
    rw [varChanged, if_pos rfl, if_pos rfl, if_neg hdistinct, if_pos rfl]
    exact ⟨hrefreshed.state, hrefreshed.place, hrefreshed.text⟩
  by_cases hplace : uiID = Y_REG_LOC
  · subst hplace
    obtain ⟨lbInd, v, hrefreshed, heq⟩ := setRegInLoc_refreshed img w (flagOf fCurrVal)
    rw [varChanged, if_neg hstate, if_pos rfl, if_neg hstate, if_pos rfl, if_neg hstate, heq]
    exact ⟨hrefreshed.state, hrefreshed.place, hrefreshed.text⟩
  · have hquiet := varChanged_quiet img w fCurrVal hstate hplace
    rw [if_neg hstate, if_neg hplace, if_neg hstate]
    exact ⟨hquiet.state, hquiet.place, hquiet.text⟩

/-- Clicks and edits leave what the panel knows alone. -/
theorem step_quiet (img : RangedImage) (w : ControlWdg) {e : Event}
    (h : ∀ uiID fCurrVal, e ≠ .varChanged uiID fCurrVal) : Quiet w (w.step img e) := by
  cases e with
  | varChanged uiID fCurrVal => exact absurd rfl (h uiID fCurrVal)
  | click control =>
    simp only [step]
    split
    · cases control <;> exact ⟨rfl, rfl, rfl, rfl, rfl, rfl⟩
    · exact ⟨rfl, rfl, rfl, rfl, rfl, rfl⟩
  | edit val =>
    simp only [step]
    split <;> exact ⟨rfl, rfl, rfl, rfl, rfl, rfl⟩

theorem settled_step (h : Settled img w) (e : Event) : Settled img (w.step img e) := by
  cases e with
  | varChanged uiID fCurrVal =>
    simp only [step]
    by_cases hstate : uiID = Y_REG_STATE
    · rw [varChanged, if_pos hstate]
      exact settled_setRegState h _
    by_cases hplace : uiID = Y_REG_LOC
    · rw [varChanged, if_neg hstate, if_pos hplace]
      exact settled_setRegInLoc img w _
    · exact (varChanged_quiet img w fCurrVal hstate hplace).settled h
  | click control => exact (step_quiet img w (by simp)).settled h
  | edit val => exact (step_quiet img w (by simp)).settled h

/-- What a click on a settled panel asks of the image. -/
theorem requests_settled (h : Settled img w) (accepted : Bool) (control : Control) :
    w.requests accepted (.click control) =
      if permitted w.mtLastRegSt w.mbRegInLoc control then w.clicked accepted control else [] := by
  rw [requests, h.enabled]

end Reports

end ControlWdg

end ControlPanel
