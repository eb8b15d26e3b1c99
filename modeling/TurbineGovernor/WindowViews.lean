import TurbineGovernor.PidTable
import TurbineGovernor.ManualSpeed
import TurbineGovernor.ViewParts

/-!
# What the window shows of the variables

Each page of the window is told of every reported variable and shows some of
them. What a page shows of a variable stays until that variable is reported
again, whatever the operator does in between.
-/

namespace WindowViews
open CommonTypes ReportedViews SpinBoxes
open ControlPanel (ControlWdg RangedImage Indicator indicator flagOf toUnsigned stateText RegVacio
  RegIsla RegPotencia RegApertura JE_GEN_P1 JE_GEN_P2 Y_REG_LOC ZSC_GEN_LB ZSC_GEN_GB)
open StartUp (SE_REG_F1 SE_REG_F2 SE_REG_F3 ZC_REG_SSP ZC_REG_PWSP ZC_REG_OPSP)
open SetPoints (Y_REG_STATE SAH_TUR_OVS SAHH_TUR_OVS SIS_TUR_SYNC SIS_TUR_EXC SIS_TUR_BRK
  SIS_TUR_N0)
open ManualSpeed (PositionCtrlWdg Y_REG_AUTO)
open PidTable (ControlOptWdg Param Datum pidID MODEL_PIDS C_REG_OPLIMIT)

def Z_WGT_INY1 : BitVec 32 := 29
def Z_PAD_INY2 : BitVec 32 := 30
def ZRC_REG_WGT_INY1 : BitVec 32 := 2000000060
def ZRC_REG_PAD_INY2 : BitVec 32 := 2000000061

/-- `PositionCtrlWdg` with its texts. -/
structure PositionView where
  wdg : PositionCtrlWdg
  lbTitle : String
  txtOp : Option Single
  txtVel : Option Single

namespace PositionView

def construct (strTitle : String) (uiReadID uiWriteID : BitVec 32) (memory : Single) :
    PositionView :=
  ⟨.construct uiReadID uiWriteID memory, strTitle, none, none⟩

variable (w : PositionView)

def varChanged (uiID : BitVec 32) (fCurrentVal : Single) : PositionView :=
  { w with
    wdg := w.wdg.varChanged uiID fCurrentVal
    txtOp := if uiID = w.wdg.muiReadID then some fCurrentVal else w.txtOp
    txtVel :=
      if uiID = w.wdg.muiReadID then w.txtVel
      else if uiID = w.wdg.muiWriteID then some fCurrentVal
      else w.txtVel }

end PositionView

inductive TurbType where
  | Francis
  | Kaplan
  | Pelton

/-- `getTurbineType` and `getNoPeltonInyec` of the image. -/
def turbineType : TurbType := .Pelton
def noPeltonInyec : Nat := 6

/-- The views in their order; `memory` is that of their last speeds. -/
def createPositionWdgs (memory : Nat → Single) : TurbType → List PositionView
  | .Francis => [.construct "DISTRIBUIDOR" Z_WGT_INY1 ZRC_REG_WGT_INY1 (memory 0)]
  | .Kaplan =>
    [.construct "DISTRIBUIDOR" Z_WGT_INY1 ZRC_REG_WGT_INY1 (memory 0),
      .construct "ÁLABES" Z_PAD_INY2 ZRC_REG_PAD_INY2 (memory 1)]
  | .Pelton => (List.range noPeltonInyec).map (fun i =>
      .construct ("INYECTOR " ++ toString (i + 1)) (Z_WGT_INY1 + BitVec.ofNat 32 i)
        (ZRC_REG_WGT_INY1 + BitVec.ofNat 32 i) (memory i))

/-- The labels are for the automatic and the manual mode. -/
structure TurbineViewWdg where
  vWdgs : List PositionView
  lbIndAuto : Option String
  lbIndMan : Option String

namespace TurbineViewWdg

def construct (memory : Nat → Single) : TurbineViewWdg :=
  ⟨createPositionWdgs memory turbineType, none, none⟩

variable (w : TurbineViewWdg)

/-- The widgets of the positions are connected by themselves; 1.0 is a pattern. -/
def varChanged (uiID : BitVec 32) (fCurrentVal : Single) : TurbineViewWdg where
  vWdgs := w.vWdgs.map (·.varChanged uiID fCurrentVal)
  lbIndAuto :=
    if uiID = Y_REG_AUTO then some (if Single.eq fCurrentVal 0x3f800000 then "on" else "no")
    else w.lbIndAuto
  lbIndMan :=
    if uiID = Y_REG_AUTO then some (if Single.eq fCurrentVal 0x3f800000 then "no" else "on")
    else w.lbIndMan

end TurbineViewWdg

/-- The variables with a plot. -/
def IsMeasure (uiID : BitVec 32) : Prop :=
  uiID = JE_GEN_P1 ∨ uiID = JE_GEN_P2 ∨ uiID = SE_REG_F1 ∨ uiID = SE_REG_F2 ∨ uiID = SE_REG_F3

instance : DecidablePred IsMeasure := fun uiID =>
  inferInstanceAs (Decidable (uiID = JE_GEN_P1 ∨ _))

/-- What the measurers of the plots read; a missing entry is zero. -/
structure TendencyWdg where
  mumLastMeasures : BitVec 32 → Single

namespace TendencyWdg

def construct : TendencyWdg := ⟨fun _ => 0⟩

def varChanged (w : TendencyWdg) (uiID : BitVec 32) (fCurrentVal : Single) : TendencyWdg :=
  if IsMeasure uiID then ⟨Function.update w.mumLastMeasures uiID fCurrentVal⟩ else w

end TendencyWdg

section Panel
variable (img : RangedImage) (w : ControlWdg)

/-- The set point of the state, with the variable of its units. -/
def spText : Option (BitVec 32 × Single) := w.updateSPDisplayTxt.txtSP

/-- The variables that the shown set point depends on. -/
def IsSetPoint (uiID : BitVec 32) : Prop :=
  uiID = Y_REG_STATE ∨ uiID = ZC_REG_PWSP ∨ uiID = ZC_REG_OPSP ∨ uiID = ZC_REG_SSP

instance : DecidablePred IsSetPoint := fun uiID =>
  inferInstanceAs (Decidable (uiID = Y_REG_STATE ∨ _))

/-- The same is displayed, apart from the state. -/
structure SameDisplay (w w' : ControlWdg) : Prop where
  power : w'.mfLastPWSP = w.mfLastPWSP
  opening : w'.mfLastOPSP = w.mfLastOPSP
  frequency : w'.mfLastFrecSP = w.mfLastFrecSP
  setPoint : w'.txtSP = w.txtSP
  labels : w'.lbInd = w.lbInd
  measures : w'.dpl = w.dpl

theorem SameDisplay.trans {w w' w'' : ControlWdg} (h : SameDisplay w w') (h' : SameDisplay w' w'') :
    SameDisplay w w'' :=
  ⟨h'.power.trans h.power, h'.opening.trans h.opening, h'.frequency.trans h.frequency,
    h'.setPoint.trans h.setPoint, h'.labels.trans h.labels, h'.measures.trans h.measures⟩

theorem sameDisplay_updateSPState : SameDisplay w (w.updateSPState img) := by
  simp only [ControlWdg.updateSPState]
  split <;> exact ⟨rfl, rfl, rfl, rfl, rfl, rfl⟩

theorem sameDisplay_updateRegChangeButtons : SameDisplay w w.updateRegChangeButtons := by
  simp only [ControlWdg.updateRegChangeButtons]
  split
  · split
    · split <;> exact ⟨rfl, rfl, rfl, rfl, rfl, rfl⟩
    · split <;> exact ⟨rfl, rfl, rfl, rfl, rfl, rfl⟩
  · exact ⟨rfl, rfl, rfl, rfl, rfl, rfl⟩

theorem sameDisplay_step {e : ControlPanel.Event}
    (h : ∀ uiID fCurrVal, e ≠ .varChanged uiID fCurrVal) : SameDisplay w (w.step img e) := by
  cases e with
  | varChanged uiID fCurrVal => exact absurd rfl (h uiID fCurrVal)
  | click control =>
    simp only [ControlWdg.step]
    split
    · cases control <;> exact ⟨rfl, rfl, rfl, rfl, rfl, rfl⟩
    · exact ⟨rfl, rfl, rfl, rfl, rfl, rfl⟩
  | edit val =>
    simp only [ControlWdg.step]
    split <;> exact ⟨rfl, rfl, rfl, rfl, rfl, rfl⟩

/-- What a report changes of the displays. -/
structure Displayed (uiID : BitVec 32) (fCurrVal : Single) (w w' : ControlWdg) : Prop where
  power : w'.mfLastPWSP = if uiID = ZC_REG_PWSP then fCurrVal else w.mfLastPWSP
  opening : w'.mfLastOPSP = if uiID = ZC_REG_OPSP then fCurrVal else w.mfLastOPSP
  frequency : w'.mfLastFrecSP = if uiID = ZC_REG_SSP then fCurrVal else w.mfLastFrecSP
  setPoint : w'.txtSP = if IsSetPoint uiID then spText w' else w.txtSP
  labels : w'.lbInd = if uiID = Y_REG_LOC then (w.showRegInLoc (flagOf fCurrVal)).lbInd
    else match indicator uiID with
      | some (label, strSet, strClear) =>
        Function.update w.lbInd label (some (if flagOf fCurrVal then strSet else strClear))
      | none => w.lbInd
  measures : w'.dpl =
    if IsMeasure uiID then Function.update w.dpl uiID (some fCurrVal) else w.dpl

theorem spText_congr {w w' : ControlWdg} (state : w'.mtLastRegSt = w.mtLastRegSt)
    (power : w'.mfLastPWSP = w.mfLastPWSP) (opening : w'.mfLastOPSP = w.mfLastOPSP)
    (frequency : w'.mfLastFrecSP = w.mfLastFrecSP) : spText w' = spText w := by
  simp only [spText, ControlWdg.updateSPDisplayTxt, state, power, opening, frequency]

theorem indicator_cases {uiID : BitVec 32} {p : Indicator × String × String}
    (h : indicator uiID = some p) : uiID ≠ Y_REG_STATE ∧ uiID ≠ Y_REG_LOC ∧
      uiID ≠ ZC_REG_PWSP ∧ uiID ≠ ZC_REG_OPSP ∧ uiID ≠ ZC_REG_SSP ∧ ¬ IsMeasure uiID := by
  have hnone : ∀ id, indicator id = none → uiID ≠ id := by
    rintro id hid rfl
    rw [hid] at h
    cases h
  refine ⟨hnone _ rfl, hnone _ rfl, hnone _ rfl, hnone _ rfl, hnone _ rfl, ?_⟩
  rintro (heq | heq | heq | heq | heq)
  all_goals exact hnone _ rfl heq

theorem displayed_setRegState (fCurrVal : Single) :
    Displayed Y_REG_STATE fCurrVal w (w.varChanged img Y_REG_STATE fCurrVal) := by
  have hchanged : w.varChanged img Y_REG_STATE fCurrVal =
      w.setRegState img (toUnsigned fCurrVal) := by
    rw [ControlWdg.varChanged, if_pos rfl]
  have hset : IsSetPoint Y_REG_STATE := Or.inl rfl
  rw [hchanged, ControlWdg.setRegState]
  generalize hw : ({ w with
    mtLastRegSt := toUnsigned fCurrVal, txtState := stateText (toUnsigned fCurrVal) } :
      ControlWdg) = v
  have hsame := sameDisplay_updateSPState img v
  have hstate := (ControlWdg.updateSPState_refreshes img v .spSPIn).1
  generalize v.updateSPState img = v' at hsame hstate
  have hbuttons := sameDisplay_updateRegChangeButtons v'.updateSPDisplayTxt
  have hstate' := (ControlWdg.updateRegChangeButtons_refreshes v'.updateSPDisplayTxt .spSPIn).1
  generalize v'.updateSPDisplayTxt.updateRegChangeButtons = v'' at hbuttons hstate'
  have hindicator : indicator Y_REG_STATE = none := rfl
  subst hw
  refine ⟨hbuttons.power.trans hsame.power, hbuttons.opening.trans hsame.opening,
    hbuttons.frequency.trans hsame.frequency, ?_, ?_, ?_⟩
  · rw [if_pos hset, hbuttons.setPoint,
      spText_congr hstate' hbuttons.power hbuttons.opening hbuttons.frequency]
    rfl
  · rw [if_neg (by decide), hindicator]
    exact hbuttons.labels.trans hsame.labels
  · rw [if_neg (by decide)]
    exact hbuttons.measures.trans hsame.measures

theorem displayed_setRegInLoc (fCurrVal : Single) :
    Displayed Y_REG_LOC fCurrVal w (w.varChanged img Y_REG_LOC fCurrVal) := by
  have hchanged : w.varChanged img Y_REG_LOC fCurrVal = w.setRegInLoc img (flagOf fCurrVal) := by
    rw [ControlWdg.varChanged, if_neg (by decide), if_pos rfl]
  rw [hchanged, ControlWdg.setRegInLoc]
  obtain ⟨lbInd, heq⟩ : ∃ lbInd, w.showRegInLoc (flagOf fCurrVal) = { w with lbInd := lbInd } := by
    unfold ControlWdg.showRegInLoc
    split <;> exact ⟨_, rfl⟩
  rw [heq]
  generalize hw : ({ { w with lbInd := lbInd } with mbRegInLoc := flagOf fCurrVal } :
    ControlWdg) = v
  have hsame := (sameDisplay_updateSPState img v).trans
    (sameDisplay_updateRegChangeButtons (v.updateSPState img))
  generalize (v.updateSPState img).updateRegChangeButtons = v' at hsame
  subst hw
  refine ⟨hsame.power, hsame.opening, hsame.frequency, ?_, ?_, ?_⟩
  · rw [if_neg (by decide)]
    exact hsame.setPoint
  · rw [if_pos rfl, heq]
    exact hsame.labels
  · rw [if_neg (by decide)]
    exact hsame.measures

theorem varChanged_displayed (uiID : BitVec 32) (fCurrVal : Single) :
    Displayed uiID fCurrVal w (w.varChanged img uiID fCurrVal) := by
  by_cases hstate : uiID = Y_REG_STATE
  · rw [hstate]
    exact displayed_setRegState img w fCurrVal
  by_cases hplace : uiID = Y_REG_LOC
  · rw [hplace]
    exact displayed_setRegInLoc img w fCurrVal
  unfold ControlWdg.varChanged
  dsimp only
  rw [if_neg hstate, if_neg hplace]
  by_cases hpower : uiID = ZC_REG_PWSP
  · subst hpower
    exact ⟨rfl, rfl, rfl, rfl, rfl, rfl⟩
  by_cases hopening : uiID = ZC_REG_OPSP
  · subst hopening
    exact ⟨rfl, rfl, rfl, rfl, rfl, rfl⟩
  by_cases hfrequency : uiID = ZC_REG_SSP
  · subst hfrequency
    exact ⟨rfl, rfl, rfl, rfl, rfl, rfl⟩
  rw [if_neg hpower, if_neg hopening, if_neg hfrequency]
  have hset : ¬ IsSetPoint uiID := fun h => by
    rcases h with h | h | h | h
    · exact hstate h
    · exact hpower h
    · exact hopening h
    · exact hfrequency h
  by_cases hmeasure : IsMeasure uiID
  · have hindicator : indicator uiID = none := by
      cases hcase : indicator uiID with
      | none => rfl
      | some p => exact absurd hmeasure (indicator_cases hcase).2.2.2.2.2
    rw [if_pos (show _ ∨ _ from hmeasure)]
    refine ⟨(if_neg hpower).symm, (if_neg hopening).symm, (if_neg hfrequency).symm,
      (if_neg hset).symm, ?_, (if_pos hmeasure).symm⟩
    rw [if_neg hplace, hindicator]
  · rw [if_neg (show ¬ (_ ∨ _) from hmeasure)]
    cases hindicator : indicator uiID with
    | none =>
      refine ⟨(if_neg hpower).symm, (if_neg hopening).symm, (if_neg hfrequency).symm,
        (if_neg hset).symm, ?_, (if_neg hmeasure).symm⟩
      rw [if_neg hplace, hindicator]
    | some p =>
      refine ⟨(if_neg hpower).symm, (if_neg hopening).symm, (if_neg hfrequency).symm,
        (if_neg hset).symm, ?_, (if_neg hmeasure).symm⟩
      rw [if_neg hplace, hindicator]
      rfl

end Panel

/-- The variable of a label. -/
def labelID : Indicator → BitVec 32
  | .lbIndN0 => SIS_TUR_N0
  | .lbIndBr => SIS_TUR_BRK
  | .lbIndExc => SIS_TUR_EXC
  | .lbIndSync => SIS_TUR_SYNC
  | .lbIndLovs => SAH_TUR_OVS
  | .lbIndHovs => SAHH_TUR_OVS
  | .lbIndLineB => ZSC_GEN_LB
  | .lbIndGenB => ZSC_GEN_GB
  | .lbIndLoc => Y_REG_LOC
  | .lbIndRem => Y_REG_LOC

/-- The property of a label by the value of its variable. -/
def labelText (bCurrVal : Bool) : Indicator → String
  | .lbIndN0 | .lbIndBr | .lbIndExc | .lbIndSync | .lbIndLoc => if bCurrVal then "on" else "no"
  | .lbIndLovs | .lbIndHovs => if bCurrVal then "no" else "off"
  | .lbIndLineB | .lbIndGenB => if bCurrVal then "on" else "off"
  | .lbIndRem => if bCurrVal then "no" else "on"

theorem labelID_of_indicator {uiID : BitVec 32} {p : Indicator × String × String}
    (h : indicator uiID = some p) : uiID = labelID p.1 := by
  unfold indicator at h
  repeat'
    split at h
    · cases h
      assumption
  cases h

theorem indicator_labelID {label : Indicator} (h : labelID label ≠ Y_REG_LOC) :
    ∃ strSet strClear, indicator (labelID label) = some (label, strSet, strClear) ∧
      ∀ bCurrVal : Bool, (if bCurrVal then strSet else strClear) = labelText bCurrVal label := by
  cases label with
  | lbIndLoc => exact absurd rfl h
  | lbIndRem => exact absurd rfl h
  | _ => exact ⟨_, _, rfl, fun _ => rfl⟩

theorem label_set (img : RangedImage) (w : ControlWdg) (label : Indicator) (fCurrVal : Single) :
    (w.varChanged img (labelID label) fCurrVal).lbInd label =
      some (labelText (flagOf fCurrVal) label) := by
  rw [(varChanged_displayed img w (labelID label) fCurrVal).labels]
  by_cases hplace : labelID label = Y_REG_LOC
  · rw [if_pos hplace, ControlWdg.showRegInLoc]
    cases label with
    | lbIndLoc => split <;> simp_all [ControlWdg.changeLabelProperty, labelText]
    | lbIndRem => split <;> simp_all [ControlWdg.changeLabelProperty, labelText]
    | _ => cases hplace
  · obtain ⟨strSet, strClear, hindicator, htext⟩ := indicator_labelID hplace
    rw [if_neg hplace, hindicator]
    exact (Function.update_self _ _ _).trans (congrArg some (htext _))

theorem label_frame (img : RangedImage) (w : ControlWdg) {uiID : BitVec 32} {label : Indicator}
    (hne : uiID ≠ labelID label) (fCurrVal : Single) :
    (w.varChanged img uiID fCurrVal).lbInd label = w.lbInd label := by
  rw [(varChanged_displayed img w uiID fCurrVal).labels]
  by_cases hplace : uiID = Y_REG_LOC
  · have hloc : label ≠ .lbIndLoc := fun heq => hne (by rw [hplace, heq]; rfl)
    have hrem : label ≠ .lbIndRem := fun heq => hne (by rw [hplace, heq]; rfl)
    rw [if_pos hplace, ControlWdg.showRegInLoc]
    split <;> simp only [ControlWdg.changeLabelProperty, Function.update_of_ne hloc,
      Function.update_of_ne hrem]
  · rw [if_neg hplace]
    cases hindicator : indicator uiID with
    | none => rfl
    | some p =>
      refine Function.update_of_ne (fun heq => hne ?_) _ _
      rw [heq]
      exact labelID_of_indicator hindicator

/-- What the panel shows of a variable. -/
def ShowsControl (w : ControlWdg) (uiID : BitVec 32) (fVal : Single) : Prop :=
  (uiID = Y_REG_STATE →
    (w.mtLastRegSt, w.txtState) = (toUnsigned fVal, stateText (toUnsigned fVal))) ∧
  (uiID = Y_REG_LOC → w.mbRegInLoc = flagOf fVal) ∧
  (uiID = ZC_REG_PWSP → w.mfLastPWSP = fVal) ∧
  (uiID = ZC_REG_OPSP → w.mfLastOPSP = fVal) ∧
  (uiID = ZC_REG_SSP → w.mfLastFrecSP = fVal) ∧
  (IsSetPoint uiID → w.txtSP = spText w) ∧
  (∀ id, IsMeasure id → uiID = id → w.dpl id = some fVal) ∧
  ∀ label, uiID = labelID label → w.lbInd label = some (labelText (flagOf fVal) label)

theorem control_follows (img : RangedImage) :
    Follows (fun w uiID fVal => w.varChanged img uiID fVal) ShowsControl := by
  refine (Follows.slot (fun w : ControlWdg => (w.mtLastRegSt, w.txtState)) _
      (fun fVal => (toUnsigned fVal, stateText (toUnsigned fVal))) ?_ ?_).and <|
    (Follows.slot (fun w : ControlWdg => w.mbRegInLoc) _ flagOf ?_ ?_).and <|
    (Follows.slot (fun w : ControlWdg => w.mfLastPWSP) _ id ?_ ?_).and <|
    (Follows.slot (fun w : ControlWdg => w.mfLastOPSP) _ id ?_ ?_).and <|
    (Follows.slot (fun w : ControlWdg => w.mfLastFrecSP) _ id ?_ ?_).and <|
    (Follows.since (P := fun w : ControlWdg => w.txtSP = spText w) IsSetPoint ?_ ?_).and <|
    (Follows.all (fun id => Follows.when (fun hid =>
      Follows.slot (fun w : ControlWdg => w.dpl id) id some ?_ ?_))).and <|
    Follows.all (fun label => Follows.slot (fun w : ControlWdg => w.lbInd label) _
      (fun fVal => some (labelText (flagOf fVal) label)) ?_ ?_)
  · intro w fVal
    obtain ⟨hstate, _, htext⟩ := ControlWdg.varChanged_members img w Y_REG_STATE fVal
    rw [hstate, htext, if_pos rfl, if_pos rfl]
  · intro w uiID fVal hne
    obtain ⟨hstate, _, htext⟩ := ControlWdg.varChanged_members img w uiID fVal
    rw [hstate, htext, if_neg hne, if_neg hne]
  · intro w fVal
    exact (ControlWdg.varChanged_members img w Y_REG_LOC fVal).2.1.trans (if_pos rfl)
  · intro w uiID fVal hne
    exact (ControlWdg.varChanged_members img w uiID fVal).2.1.trans (if_neg hne)
  · intro w fVal
    exact (varChanged_displayed img w ZC_REG_PWSP fVal).power.trans (if_pos rfl)
  · intro w uiID fVal hne
    exact (varChanged_displayed img w uiID fVal).power.trans (if_neg hne)
  · intro w fVal
    exact (varChanged_displayed img w ZC_REG_OPSP fVal).opening.trans (if_pos rfl)
  · intro w uiID fVal hne
    exact (varChanged_displayed img w uiID fVal).opening.trans (if_neg hne)
  · intro w fVal
    exact (varChanged_displayed img w ZC_REG_SSP fVal).frequency.trans (if_pos rfl)
  · intro w uiID fVal hne
    exact (varChanged_displayed img w uiID fVal).frequency.trans (if_neg hne)
  · intro w uiID fVal hset
    exact (varChanged_displayed img w uiID fVal).setPoint.trans (if_pos hset)
  · intro w uiID fVal hshown
    have hdisplayed := varChanged_displayed img w uiID fVal
    by_cases hset : IsSetPoint uiID
    · exact hdisplayed.setPoint.trans (if_pos hset)
    · simp only [IsSetPoint, not_or] at hset
      obtain ⟨hstate, hpower, hopening, hfrequency⟩ := hset
      rw [hdisplayed.setPoint, if_neg (by simp [IsSetPoint, hstate, hpower, hopening, hfrequency]),
        hshown]
      refine (spText_congr ?_ ?_ ?_ ?_).symm
      · exact (ControlWdg.varChanged_members img w uiID fVal).1.trans (if_neg hstate)
      · exact hdisplayed.power.trans (if_neg hpower)
      · exact hdisplayed.opening.trans (if_neg hopening)
      · exact hdisplayed.frequency.trans (if_neg hfrequency)
  · intro w fVal
    rw [(varChanged_displayed img w id fVal).measures, if_pos hid, Function.update_self]
  · intro w uiID fVal hne
    rw [(varChanged_displayed img w uiID fVal).measures]
    split
    · exact Function.update_of_ne (Ne.symm hne) _ _
    · rfl
  · exact fun w fVal => label_set img w label fVal
  · exact fun w uiID fVal hne => label_frame img w hne fVal

/-- What a cell shows of a value that has been stored. -/
def shownDatum (fVal : Single) : Param → Datum
  | .st => .scan (toUnsigned fVal)
  | _ => .value fVal

/-- What the page of the parameters shows of a variable. -/
def ShowsOptions (w : ControlOptWdg) (uiID : BitVec 32) (fVal : Single) : Prop :=
  (∀ row : Nat, row < MODEL_PIDS → ∀ p : Param, uiID = pidID row p →
    w.cells row (p.number + 2) = some (shownDatum fVal p)) ∧
  (uiID = C_REG_OPLIMIT → w.txtOpLim = some fVal)

theorem cell_set (w : ControlOptWdg) {row : Nat} (hrow : row < MODEL_PIDS) (p : Param)
    (fVal : Single) :
    (w.varChanged (pidID row p) fVal).cells row (p.number + 2) = some (shownDatum fVal p) := by
  simp only [ControlOptWdg.varChanged, PidTable.varChanged_pidID w.mpTableModel hrow p, if_true]
  cases p <;>
    simp [PidTable.PIDTableModel.data, PidTable.PIDInfo.store, Param.number, shownDatum]

theorem cell_frame (w : ControlOptWdg) {row : Nat} {p : Param} {uiID : BitVec 32}
    (hne : uiID ≠ pidID row p) (fVal : Single) :
    (w.varChanged uiID fVal).cells row (p.number + 2) = w.cells row (p.number + 2) := by
  simp only [ControlOptWdg.varChanged]
  refine if_neg (fun hcell => hne ?_)
  rcases PidTable.pidID_cases uiID with ⟨row', hrow', q, rfl⟩ | hother
  · rw [PidTable.varChanged_pidID w.mpTableModel hrow' q] at hcell
    obtain ⟨rfl, hnumber⟩ := Prod.mk.inj (Option.some.inj hcell)
    rw [← PidTable.ofNumber_number p, ← PidTable.ofNumber_number q, Nat.add_right_cancel hnumber]
  · rw [PidTable.varChanged_other w.mpTableModel hother] at hcell
    cases hcell

theorem options_follow :
    Follows (fun (w : ControlOptWdg) uiID fVal => w.varChanged uiID fVal) ShowsOptions := by
  refine (Follows.all (fun row => Follows.when (fun hrow => Follows.all (fun p =>
      Follows.slot (fun w : ControlOptWdg => w.cells row (p.number + 2)) _
        (fun fVal => some (shownDatum fVal p)) ?_ ?_)))).and
    (Follows.slot (fun w : ControlOptWdg => w.txtOpLim) _ some ?_ ?_)
  · exact fun w fVal => cell_set w hrow p fVal
  · exact fun w uiID fVal hne => cell_frame w hne fVal
  · intro w fVal
    simp only [ControlOptWdg.varChanged, if_true]
  · intro w uiID fVal hne
    simp only [ControlOptWdg.varChanged, if_neg hne]

/-- What a position shows of a variable; the earlier comparison wins. -/
def ShowsPosition (w : PositionView) (uiID : BitVec 32) (fVal : Single) : Prop :=
  (uiID = w.wdg.muiReadID → w.txtOp = some fVal) ∧
  (uiID ≠ w.wdg.muiReadID → uiID = w.wdg.muiWriteID →
    w.txtVel = some fVal ∧ w.wdg.mfLastSpeedVal = fVal) ∧
  (uiID ≠ w.wdg.muiReadID → uiID ≠ w.wdg.muiWriteID → uiID = Y_REG_AUTO →
    w.wdg.mbManual = Single.eq fVal 0)

theorem position_follows :
    Follows (fun (w : PositionView) uiID fVal => w.varChanged uiID fVal) ShowsPosition := by
  have hids : ∀ (w : PositionView) uiID fVal,
      (w.varChanged uiID fVal).wdg.muiReadID = w.wdg.muiReadID ∧
      (w.varChanged uiID fVal).wdg.muiWriteID = w.wdg.muiWriteID := by
    intro w uiID fVal
    simp only [PositionView.varChanged, PositionCtrlWdg.varChanged, PositionCtrlWdg.setManual]
    split
    · exact ⟨rfl, rfl⟩
    split
    · exact ⟨rfl, rfl⟩
    split <;> exact ⟨rfl, rfl⟩
  constructor
  · intro w uiID fVal
    simp only [ShowsPosition, hids]
    refine ⟨fun hread => if_pos hread, fun hread hwrite => ⟨?_, ?_⟩, fun hread hwrite hauto => ?_⟩
    · exact (if_neg hread).trans (if_pos hwrite)
    · simp only [PositionView.varChanged, PositionCtrlWdg.varChanged, if_neg hread, if_pos hwrite]
    · simp only [PositionView.varChanged, PositionCtrlWdg.varChanged, if_neg hread, if_neg hwrite,
        if_pos hauto, PositionCtrlWdg.setManual]
  · rintro w uiID fVal ⟨hop, hvel, hmanual⟩ uiID' hne fVal'
    simp only [ShowsPosition, hids]
    refine ⟨fun hread => ?_, fun hread hwrite => ⟨?_, ?_⟩, fun hread hwrite hauto => ?_⟩
    · exact (if_neg (fun heq => hne (heq.trans hread.symm))).trans (hop hread)
    · simp only [PositionView.varChanged]
      split
      · exact (hvel hread hwrite).1
      · rw [if_neg (fun heq => hne (heq.trans hwrite.symm))]
        exact (hvel hread hwrite).1
    · simp only [PositionView.varChanged, PositionCtrlWdg.varChanged]
      split
      · exact (hvel hread hwrite).2
      · rw [if_neg (fun heq => hne (heq.trans hwrite.symm))]
        split <;> exact (hvel hread hwrite).2
    · simp only [PositionView.varChanged, PositionCtrlWdg.varChanged]
      split
      · exact hmanual hread hwrite hauto
      split
      · exact hmanual hread hwrite hauto
      · rw [if_neg (fun heq => hne (heq.trans hauto.symm))]
        exact hmanual hread hwrite hauto

/-- What the page of the turbine shows of a variable. -/
def ShowsTurbine (w : TurbineViewWdg) (uiID : BitVec 32) (fVal : Single) : Prop :=
  (∀ position ∈ w.vWdgs, ShowsPosition position uiID fVal) ∧
  (uiID = Y_REG_AUTO → (w.lbIndAuto, w.lbIndMan) =
    if Single.eq fVal 0x3f800000 then (some "on", some "no") else (some "no", some "on"))

theorem turbine_follows :
    Follows (fun (w : TurbineViewWdg) uiID fVal => w.varChanged uiID fVal) ShowsTurbine := by
  refine (position_follows.map.part TurbineViewWdg.vWdgs (fun _ _ _ => rfl)).and
    (Follows.slot (fun w : TurbineViewWdg => (w.lbIndAuto, w.lbIndMan)) _ _ ?_ ?_)
  · intro w fVal
    simp only [TurbineViewWdg.varChanged, if_true]
    split <;> rfl
  · intro w uiID fVal hne
    simp only [TurbineViewWdg.varChanged, if_neg hne]

def ShowsTendency (w : TendencyWdg) (uiID : BitVec 32) (fVal : Single) : Prop :=
  ∀ id, IsMeasure id → uiID = id → w.mumLastMeasures id = fVal

theorem tendency_follows :
    Follows (fun (w : TendencyWdg) uiID fVal => w.varChanged uiID fVal) ShowsTendency := by
  refine Follows.all (fun id => Follows.when (fun hid =>
    Follows.slot (fun w : TendencyWdg => w.mumLastMeasures id) _ (fun fVal => fVal) ?_ ?_))
  · intro w fVal
    simp only [TendencyWdg.varChanged, if_pos hid, Function.update_self]
  · intro w uiID fVal hne
    simp only [TendencyWdg.varChanged]
    split
    · exact Function.update_of_ne (Ne.symm hne) _ _
    · rfl

/-- The pages that are told of the variables. -/
structure Views where
  control : ControlWdg
  options : ControlOptWdg
  turbine : TurbineViewWdg
  tendency : TendencyWdg

/-- What the operator does with a page, apart from what is only asked of the image. -/
inductive Action where
  | click (control : ControlPanel.Control)
  | edit (val : Int)
  | selectionChanged (index : Option Nat)
  | editParam (p : Param) (val : Int)
  | editOpLim (val : Int)

namespace Views

/-- What the constructors leave to the memory. -/
structure Memory where
  control : ControlPanel.Memory
  mDataModel : Nat → PidTable.PIDInfo
  positions : Nat → Single

def construct (img : RangedImage) (memory : Memory) : Views where
  control := .construct memory.control
  options := .construct img memory.mDataModel
  turbine := .construct memory.positions
  tendency := .construct

variable (img : RangedImage) (w : Views)

def varChanged (uiID : BitVec 32) (fCurrVal : Single) : Views where
  control := w.control.varChanged img uiID fCurrVal
  options := w.options.varChanged uiID fCurrVal
  turbine := w.turbine.varChanged uiID fCurrVal
  tendency := w.tendency.varChanged uiID fCurrVal

def act : Action → Views
  | .click control => { w with control := w.control.step img (.click control) }
  | .edit val => { w with control := w.control.step img (.edit val) }
  | .selectionChanged index => { w with options := w.options.step img (.selectionChanged index) }
  | .editParam p val => { w with options := w.options.step img (.edit p val) }
  | .editOpLim val => { w with options := w.options.step img (.editOpLim val) }

/-- What the window shows of a variable. -/
def Shows (uiID : BitVec 32) (fVal : Single) : Prop :=
  ShowsControl w.control uiID fVal ∧ ShowsOptions w.options uiID fVal ∧
    ShowsTurbine w.turbine uiID fVal ∧ ShowsTendency w.tendency uiID fVal

end Views

theorem views_follow (img : RangedImage) :
    Follows (fun w uiID fVal => Views.varChanged img w uiID fVal) Views.Shows :=
  ((control_follows img).part Views.control (fun _ _ _ => rfl)).and <|
    (options_follow.part Views.options (fun _ _ _ => rfl)).and <|
    (turbine_follows.part Views.turbine (fun _ _ _ => rfl)).and
    (tendency_follows.part Views.tendency (fun _ _ _ => rfl))

/-- The operator does not change what is shown. -/
theorem act_shows (img : RangedImage) {w : Views} {uiID : BitVec 32} {fVal : Single}
    (h : w.Shows uiID fVal) (action : Action) : (w.act img action).Shows uiID fVal := by
  obtain ⟨hcontrol, hoptions, hturbine, htendency⟩ := h
  have hpanel : ∀ e : ControlPanel.Event, (∀ id val, e ≠ .varChanged id val) →
      ShowsControl (w.control.step img e) uiID fVal := by
    intro e he
    have hquiet := ControlWdg.step_quiet img w.control he
    have hsame := sameDisplay_step img w.control he
    have htext : spText (w.control.step img e) = spText w.control :=
      spText_congr hquiet.state hsame.power hsame.opening hsame.frequency
    simp only [ShowsControl, hquiet.state, hquiet.text, hquiet.place, hsame.power, hsame.opening,
      hsame.frequency, hsame.setPoint, hsame.labels, hsame.measures, htext]
    exact hcontrol
  cases action with
  | click control => exact ⟨hpanel _ (fun _ _ => nofun), hoptions, hturbine, htendency⟩
  | edit val => exact ⟨hpanel _ (fun _ _ => nofun), hoptions, hturbine, htendency⟩
  | selectionChanged index =>
    refine ⟨hcontrol, ?_, hturbine, htendency⟩
    simp only [Views.act, ControlOptWdg.step, ControlOptWdg.selectionChanged]
    split
    · exact hoptions
    · split <;> exact hoptions
  | editParam p val =>
    refine ⟨hcontrol, ?_, hturbine, htendency⟩
    simp only [Views.act, ControlOptWdg.step]
    split <;> exact hoptions
  | editOpLim val => exact ⟨hcontrol, hoptions, hturbine, htendency⟩

end WindowViews
