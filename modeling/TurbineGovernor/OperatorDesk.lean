import TurbineGovernor.ControlPanel
import TurbineGovernor.StartUp

/-!
# The operator in front of the HMI

The panel is told of the variables by the signals of `RegImage`, and the window
with it is shown when all polled variables have been reported. From then on what
the operator can ask for follows from the last reports of two variables.
-/

namespace OperatorDesk
open CommonTypes TransitionRuns MasterDriver HmiImage ChangeNotification WordLayout StartUp
  ControlPanel
open PriorityQueues (PriorityQueue)
open SetPoints (HMSM_REG_STR HMSM_REG_TRIP HMSM_REG_SPOK HMSM_REG_PWREG HMSM_REG_OPREG Y_REG_STATE)

variable {Q : Type}

/-- `VarImage::getCurrentVal`. -/
def getCurrentVal (var : VarImage) : Single :=
  if var.mbForcedVal then var.mfForcedVal.getD 0 else var.mfTrueVal

/-- The signal that `updateImage` emits when it reads a variable. -/
def reported (s : System Q) : ChangeNotification.Label → Option Signal
  | .read tAddr =>
    if tAddr ∈ s.toRead then
      (s.recordAt s.driver tAddr).map (fun rec => rec.signal s.driver.mtDrvState tAddr)
    else none
  | _ => none

/-- The image of the HMI and the panel connected to it. -/
structure Desk (Q : Type) where
  hmi : Hmi Q
  panel : ControlWdg

/-- The window is shown by `allVarsUpdated`. -/
def Desk.shown (d : Desk Q) : Bool := decide (d.hmi.allVarsUpdated ≠ 0)

inductive Event where
  | image (l : ChangeNotification.Label)
  | click (control : Control)
  | edit (val : Int)

def receive (img : RangedImage) (w : ControlWdg) : Option Signal → ControlWdg
  | some (.varChanged var) => w.step img (.varChanged var.muiVarId (getCurrentVal var))
  | _ => w

/-- The variable is reported to the panel before it is counted. -/
def step (img : RangedImage) (d : Desk Q) : Event → Desk Q
  | .image l => ⟨d.hmi.step l, receive img d.panel (reported d.hmi.system l)⟩
  | .click control =>
    if d.shown then { d with panel := d.panel.step img (.click control) } else d
  | .edit val => if d.shown then { d with panel := d.panel.step img (.edit val) } else d

/-- The calls of the image in a click; `accepted` is its answer to a set point. -/
def requests (d : Desk Q) (accepted : Bool) (control : Control) : List Request :=
  if d.shown then d.panel.requests accepted (.click control) else []

/-- What the widgets read of the image: the ranges of `init` over `memory`. -/
def imageOf (memory : Ranges) (h : Hmi Q) : RangedImage := ⟨h.system.image.vars, Ranges.init memory⟩

/-- One address of the file has the variable, is polled, and is no RO int. -/
structure Declared (p : Parsed) (uiID : BitVec 32) (tAddr : IOAddr) : Prop where
  polled : tAddr ∈ p.slaveVarsToUpdate ∪ p.fieldVarsToUpdate
  unique : ∀ a var, p.vars.mumVars.lookup a = some var → (var.muiVarId = uiID ↔ a = tAddr)
  high : counts.total < tAddr.uiChannel.toNat

section Signals
variable {p : Parsed} {s : System Q} {uiID : BitVec 32} {tAddr a : IOAddr}

/-- What is emitted for a declared variable, and nowhere else with its ID. -/
theorem signal_declared (declared : Declared p uiID tAddr)
    (image : s.image = ⟨p.vars, BitVec.ofNat 32 counts.total⟩) (mtDrvState : DrvState)
    {rec : Record}
    (hrec : s.recordAt s.driver a = some rec) :
    (∀ var, rec.signal mtDrvState a = .varChanged var → (var.muiVarId = uiID ↔ a = tAddr)) ∧
      (a = tAddr → ∃ var, rec.signal mtDrvState a = .varChanged var) := by
  simp only [System.recordAt, record, image, isROInt_iff] at hrec
  split at hrec
  · rename_i hlow
    obtain ⟨data, _, rfl⟩ := Option.map_eq_some_iff.mp hrec
    refine ⟨fun var heq => (by cases heq), fun heq => ?_⟩
    have hhigh := declared.high
    rw [← heq] at hhigh
    omega
  · split at hrec
    · cases hrec
    · rename_i regVar hvar
      have hid := declared.unique a regVar hvar
      split at hrec
      · obtain rfl := Option.some.inj hrec
        refine ⟨fun var heq => ?_, fun _ => ⟨_, rfl⟩⟩
        rw [← Signal.varChanged.inj heq]
        exact hid
      · obtain ⟨data, _, rfl⟩ := Option.map_eq_some_iff.mp hrec
        refine ⟨fun var heq => ?_, fun _ => ⟨_, rfl⟩⟩
        rw [← Signal.varChanged.inj heq]
        exact hid

end Signals

section Steps
variable (h : Hmi Q)

theorem newVarUpdated_keeps (tAddr : IOAddr) :
    (h.newVarUpdated tAddr).system = h.system ∧ (h.newVarUpdated tAddr).reported = h.reported := by
  unfold Hmi.newVarUpdated
  split
  · exact ⟨rfl, rfl⟩
  · split <;> exact ⟨rfl, rfl⟩

/-- A step reports nothing, or one variable that it also counts and keeps as the
last signal of its address. -/
theorem step_cases (l : ChangeNotification.Label) :
    (reported h.system l = none ∧ (h.step l).system.emitted = h.system.emitted ∧
      (h.step l).reported = h.reported) ∨
    ∃ a rec, h.system.recordAt h.system.driver a = some rec ∧
      reported h.system l = some (rec.signal h.system.driver.mtDrvState a) ∧
      (h.step l).system.emitted = Function.update h.system.emitted a
        (some (rec.signal h.system.driver.mtDrvState a)) ∧
      (h.step l).reported = insert a h.reported := by
  cases l with
  | read tAddr =>
    by_cases hmem : tAddr ∈ h.system.toRead
    · cases hrec : h.system.recordAt h.system.driver tAddr with
      | none =>
        left
        simp [reported, Hmi.step, System.step, hmem, hrec]
      | some rec =>
        right
        have hread : h.step (.read tAddr) = { h with
            system := h.system.step (.read tAddr)
            reported := insert tAddr h.reported }.newVarUpdated tAddr := by
          simp [Hmi.step, hmem, hrec]
        obtain ⟨hsystem, hreported⟩ := newVarUpdated_keeps { h with
          system := h.system.step (.read tAddr), reported := insert tAddr h.reported } tAddr
        refine ⟨tAddr, rec, hrec, ?_, ?_, ?_⟩
        · simp only [reported, if_pos hmem, hrec, Option.map_some]
        · rw [hread, hsystem]
          simp only [System.step, if_pos hmem, hrec]
        · rw [hread, hreported]
    · left
      simp [reported, Hmi.step, System.step, hmem]
  | pollField i r =>
    left
    refine ⟨rfl, ?_, rfl⟩
    simp only [Hmi.step, System.step]
    split <;> rfl
  | pollModbus i r now =>
    left
    refine ⟨rfl, ?_, rfl⟩
    simp only [Hmi.step, System.step]
    split <;> rfl
  | store => exact Or.inl ⟨rfl, rfl, rfl⟩
  | enter mtDrvState =>
    left
    refine ⟨rfl, ?_, rfl⟩
    simp only [Hmi.step, System.step]
    split <;> rfl
  | updateImage =>
    left
    refine ⟨rfl, ?_, rfl⟩
    simp only [Hmi.step, System.step]
    split
    · split <;> rfl
    · rfl
  | getChangedVars =>
    left
    refine ⟨rfl, ?_, rfl⟩
    simp only [Hmi.step, System.step]
    split <;> rfl
  | endUpdate =>
    left
    refine ⟨rfl, ?_, rfl⟩
    simp only [Hmi.step, System.step]
    split
    · split <;> rfl
    · rfl

end Steps

/-- Once the two variables have been reported the panel holds their last values. -/
structure Informed (img : RangedImage) (h₀ : Hmi Q) (stateAddr locAddr : IOAddr) (d : Desk Q) :
    Prop where
  counting : Counting h₀ d.hmi
  state : stateAddr ∈ d.hmi.reported → ∃ var,
    d.hmi.system.emitted stateAddr = some (.varChanged var) ∧
      d.panel.mtLastRegSt = toUnsigned (getCurrentVal var) ∧
      d.panel.txtState = stateText (toUnsigned (getCurrentVal var))
  place : locAddr ∈ d.hmi.reported → ∃ var,
    d.hmi.system.emitted locAddr = some (.varChanged var) ∧
      d.panel.mbRegInLoc = flagOf (getCurrentVal var) ∧ Settled img d.panel

section Run
variable {img : RangedImage} {p : Parsed} {NumROInts NumIOVars : BitVec 32} {h₀ : Hmi Q}
  {stateAddr locAddr : IOAddr} {d : Desk Q}

theorem Informed.panel (informed : Informed img h₀ stateAddr locAddr d) {panel : ControlWdg}
    (quiet : ControlWdg.Quiet d.panel panel) :
    Informed img h₀ stateAddr locAddr { d with panel := panel } := by
  refine ⟨informed.counting, fun hmem => ?_, fun hmem => ?_⟩
  · obtain ⟨var, hemitted, hstate, htext⟩ := informed.state hmem
    exact ⟨var, hemitted, quiet.state.trans hstate, quiet.text.trans htext⟩
  · obtain ⟨var, hemitted, hplace, hsettled⟩ := informed.place hmem
    exact ⟨var, hemitted, quiet.place.trans hplace, quiet.settled hsettled⟩

/-- A report reaches the panel. -/
theorem Informed.read (informed : Informed img h₀ stateAddr locAddr d)
    (state : Declared p Y_REG_STATE stateAddr) (place : Declared p Y_REG_LOC locAddr)
    (image : h₀.system.image = ⟨p.vars, BitVec.ofNat 32 counts.total⟩)
    (l : ChangeNotification.Label) :
    Informed img h₀ stateAddr locAddr (step img d (.image l)) := by
  have hcounting := informed.counting.step l
  have himage := informed.counting.tables.image.trans image
  rcases step_cases d.hmi l with
    ⟨hnone, hemitted, hreported⟩ | ⟨a, rec, hrec, hsome, hemitted, hreported⟩
  · refine ⟨hcounting, fun hmem => ?_, fun hmem => ?_⟩
    · simp only [step, hnone, receive, hemitted, hreported] at hmem ⊢
      exact informed.state hmem
    · simp only [step, hnone, receive, hemitted, hreported] at hmem ⊢
      exact informed.place hmem
  · have hstate := signal_declared state himage d.hmi.system.driver.mtDrvState hrec
    have hplace := signal_declared place himage d.hmi.system.driver.mtDrvState hrec
    generalize rec.signal d.hmi.system.driver.mtDrvState a = g at hsome hemitted hstate hplace
    refine ⟨hcounting, fun hmem => ?_, fun hmem => ?_⟩
    · simp only [step, hsome, hemitted, hreported, Finset.mem_insert] at hmem ⊢
      cases g with
      | roIntChanged val intID =>
        have hne : stateAddr ≠ a := by
          intro heq
          obtain ⟨var, hvar⟩ := hstate.2 heq.symm
          cases hvar
        rw [Function.update_of_ne hne]
        exact informed.state (hmem.resolve_left hne)
      | varChanged var =>
        have hmembers := ControlWdg.varChanged_members img d.panel var.muiVarId (getCurrentVal var)
        simp only [receive, ControlWdg.step, hmembers.1, hmembers.2.2]
        by_cases heq : a = stateAddr
        · rw [heq, Function.update_self, if_pos ((hstate.1 var rfl).mpr heq)]
          exact ⟨var, rfl, rfl, by rw [if_pos ((hstate.1 var rfl).mpr heq)]⟩
        · rw [Function.update_of_ne (Ne.symm heq),
            if_neg (fun hid => heq ((hstate.1 var rfl).mp hid)),
            if_neg (fun hid => heq ((hstate.1 var rfl).mp hid))]
          exact informed.state (hmem.resolve_left (Ne.symm heq))
    · simp only [step, hsome, hemitted, hreported, Finset.mem_insert] at hmem ⊢
      cases g with
      | roIntChanged val intID =>
        have hne : locAddr ≠ a := by
          intro heq
          obtain ⟨var, hvar⟩ := hplace.2 heq.symm
          cases hvar
        rw [Function.update_of_ne hne]
        exact informed.place (hmem.resolve_left hne)
      | varChanged var =>
        have hmembers := ControlWdg.varChanged_members img d.panel var.muiVarId (getCurrentVal var)
        simp only [receive]
        by_cases heq : a = locAddr
        · have hid := (hplace.1 var rfl).mpr heq
          rw [heq, Function.update_self]
          refine ⟨var, rfl, ?_, ?_⟩
          · simp only [ControlWdg.step, hmembers.2.1, if_pos hid]
          · simp only [ControlWdg.step, hid]
            exact ControlWdg.settled_setRegInLoc img d.panel _
        · obtain ⟨var', hemitted', hplace', hsettled⟩ :=
            informed.place (hmem.resolve_left (Ne.symm heq))
          rw [Function.update_of_ne (Ne.symm heq)]
          refine ⟨var', hemitted', ?_, ControlWdg.settled_step hsettled _⟩
          simp only [ControlWdg.step, hmembers.2.1,
            if_neg (fun hid => heq ((hplace.1 var rfl).mp hid))]
          exact hplace'

theorem Informed.step (informed : Informed img h₀ stateAddr locAddr d)
    (state : Declared p Y_REG_STATE stateAddr) (place : Declared p Y_REG_LOC locAddr)
    (image : h₀.system.image = ⟨p.vars, BitVec.ofNat 32 counts.total⟩) (e : Event) :
    Informed img h₀ stateAddr locAddr (step img d e) := by
  cases e with
  | image l => exact informed.read state place image l
  | click control =>
    simp only [OperatorDesk.step]
    split
    · exact informed.panel (ControlWdg.step_quiet img d.panel (by simp))
    · exact informed
  | edit val =>
    simp only [OperatorDesk.step]
    split
    · exact informed.panel (ControlWdg.step_quiet img d.panel (by simp))
    · exact informed

theorem hmi_run (img : RangedImage) (d : Desk Q) (es : List Event) :
    ∃ ls, (run (OperatorDesk.step img) d es).hmi = run Hmi.step d.hmi ls := by
  induction es generalizing d with
  | nil => exact ⟨[], rfl⟩
  | cons e es ih =>
    obtain ⟨ls, hls⟩ := ih (OperatorDesk.step img d e)
    cases e with
    | image l => exact ⟨l :: ls, hls⟩
    | click control =>
      refine ⟨ls, hls.trans ?_⟩
      simp only [OperatorDesk.step]
      split <;> rfl
    | edit val =>
      refine ⟨ls, hls.trans ?_⟩
      simp only [OperatorDesk.step]
      split <;> rfl

end Run

/-- The upper limits of the two set points, 5000 and 100. -/
def limit (st : BitVec 32) : Single := if st = RegApertura then 0x42c80000 else 0x459c4000

/-- What the operator can ask for after the reports of a state and a mode: the
orders of a remote regulator, and the rest in states above 5. The set point is
that of the power in state 6 and of the opening else; its limits are those of the
opening in state 7 and of the power else. -/
structure Guarded (d : Desk Q) (st : BitVec 32) (bRegInLoc : Bool) : Prop where
  text : d.panel.txtState = stateText st
  silent : ∀ accepted control, permitted st bRegInLoc control = false →
    requests d accepted control = []
  orders : bRegInLoc = false → ∀ accepted,
    requests d accepted .cmdStart = [.writeVarAsButton HMSM_REG_STR true] ∧
    requests d accepted .cmdStop = [.writeVarAsButton HMSM_REG_STP true] ∧
    requests d accepted .cmdTrip = [.writeVarAsButton HMSM_REG_TRIP false] ∧
    requests d accepted .cmdUnl = [.writeVarAsButton HMSM_REG_UNL true]
  modes : bRegInLoc = false → st > 5 → ∀ accepted,
    requests d accepted .cmdRegTypeP = [.writeVarAsButton HMSM_REG_PWREG true] ∧
    requests d accepted .cmdRegTypeA = [.writeVarAsButton HMSM_REG_OPREG true]
  setPoint : bRegInLoc = false → st > 5 → ∀ accepted, ∃ val,
    requests d accepted .cmdSendSP =
      .writeVar (if st = RegPotencia then ZR_REG_PWSP else ZR_REG_OPSP) val ::
        (if accepted then [.writeVarAsButton HMSM_REG_SPOK true] else []) ∧
    SingleOrder.le 0 val = true ∧ SingleOrder.le val (limit st) = true

section Limits
variable {p : Parsed} {h : Hmi Q} {d : Desk Q}

theorem setPoint_range (ranges : Ranges) (image : h.system.image.vars = p.vars)
    (hset : p.hasSetPoints = true) (st : BitVec 32) :
    (imageOf ranges h).getVarMin (if st = RegApertura then ZR_REG_OPSP else ZR_REG_PWSP) = 0 ∧
      (imageOf ranges h).getVarMax (if st = RegApertura then ZR_REG_OPSP else ZR_REG_PWSP) =
        limit st := by
  simp only [Parsed.hasSetPoints, Bool.and_eq_true, List.all_cons] at hset
  obtain ⟨power, hpower⟩ := Option.isSome_iff_exists.mp hset.1.2.2.2.1
  obtain ⟨opening, hopening⟩ := Option.isSome_iff_exists.mp hset.1.2.2.2.2.1
  simp only [RangedImage.getVarMin, RangedImage.getVarMax, RangedImage.range, imageOf, image, limit]
  by_cases hst : st = RegApertura
  · simp only [if_pos hst, hopening]
    exact ⟨rfl, rfl⟩
  · simp only [if_neg hst, hpower]
    exact ⟨rfl, rfl⟩

theorem limit_hundredths (st : BitVec 32) : hundredths 0 = 0 ∧ 0 ≤ hundredths (limit st) ∧
    ofHundredths 0 = 0 ∧ ofHundredths (hundredths (limit st)) = limit st := by
  simp only [limit]
  split <;> decide +kernel

/-- A settled panel asks for what the last reports permit. -/
theorem guarded_of_settled (ranges : Ranges) (image : h.system.image.vars = p.vars)
    (hset : p.hasSetPoints = true) (hshown : d.shown = true)
    (hsettled : Settled (imageOf ranges h) d.panel)
    (htext : d.panel.txtState = stateText d.panel.mtLastRegSt) :
    Guarded d d.panel.mtLastRegSt d.panel.mbRegInLoc := by
  have hrequests : ∀ accepted control, requests d accepted control =
      if permitted d.panel.mtLastRegSt d.panel.mbRegInLoc control then
        d.panel.clicked accepted control else [] := by
    intro accepted control
    rw [requests, if_pos hshown, ControlWdg.requests_settled hsettled]
  have horder : ∀ control : Control, control.IsOrder → d.panel.mbRegInLoc = false →
      permitted d.panel.mtLastRegSt d.panel.mbRegInLoc control = true := by
    intro control hcontrol hremote
    rw [permitted, hremote, decide_eq_true hcontrol]
    rfl
  have hregulates : ∀ control, d.panel.mbRegInLoc = false → d.panel.mtLastRegSt > 5 →
      permitted d.panel.mtLastRegSt d.panel.mbRegInLoc control = true := by
    intro control hremote hstate
    rw [permitted, hremote, decide_eq_true hstate, Bool.or_true]
    rfl
  refine ⟨htext, ?_, ?_, ?_, ?_⟩
  · intro accepted control hdenied
    rw [hrequests, hdenied]
    rfl
  · intro hremote accepted
    rw [hrequests, hrequests, hrequests, hrequests, horder .cmdStart (by decide) hremote,
      horder .cmdStop (by decide) hremote, horder .cmdTrip (by decide) hremote,
      horder .cmdUnl (by decide) hremote]
    exact ⟨rfl, rfl, rfl, rfl⟩
  · intro hremote hstate accepted
    rw [hrequests, hrequests, hregulates _ hremote hstate, hregulates _ hremote hstate]
    exact ⟨rfl, rfl⟩
  · intro hremote hstate accepted
    obtain ⟨hmin, hmax⟩ := hsettled.range (hregulates _ hremote hstate)
    obtain ⟨hlow, hhigh⟩ := setPoint_range ranges image hset d.panel.mtLastRegSt
    rw [ControlWdg.spVarID, hlow, hhigh] at hmin
    rw [ControlWdg.spVarID, hhigh] at hmax
    obtain ⟨hzero, hpos, hfirst, hlast⟩ := limit_hundredths d.panel.mtLastRegSt
    rw [hzero, min_eq_left hpos] at hmin
    refine ⟨ofHundredths d.panel.spSPIn.value, ?_, ?_, ?_⟩
    · rw [hrequests, hregulates _ hremote hstate]
      rfl
    · have hvalue := le_ofHundredths (hmin ▸ d.panel.spSPIn.low)
      rwa [hfirst] at hvalue
    · have hvalue := le_ofHundredths (hmax ▸ d.panel.spSPIn.high)
      rwa [hlast] at hvalue

end Limits

section Result
variable [PriorityQueue Q WriteReq WriteReq.Less]

theorem init_hasSetPoints {little : Bool} {regIOInfo : Option (List Token)}
    {masterDrvConfig : Except String (Option MasterXml)} {slaveVars fieldVars : List IOAddr}
    {newTcp : Bool} {strerror : String} {h : Hmi Q}
    (hinit : init little regIOInfo masterDrvConfig slaveVars fieldVars newTcp strerror = some h)
    {p : Parsed} (hparse : parseRegIOInfo regIOInfo = some p) : p.hasSetPoints = true := by
  simp only [init, hparse] at hinit
  split at hinit
  · rename_i hsets
    exact hsets.1
  · cases hinit

/-- In every run from a successful `init`, whatever the memory of the panel: when
the window is shown the panel asks for what the last reports of the state and
of the mode permit, and for nothing else. -/
theorem operator_guarded {little : Bool} {regIOInfo : Option (List Token)} {ip : String}
    {port : Int} {NumROInts NumIOVars : BitVec 32} {slaveVars fieldVars : List IOAddr}
    {newTcp : Bool} {strerror : String} {h : Hmi Q}
    (hinit : init little regIOInfo
      (.ok (some ⟨some ip, some port, some NumROInts, some NumIOVars⟩)) slaveVars fieldVars newTcp
      strerror = some h)
    {p : Parsed} (hparse : parseRegIOInfo regIOInfo = some p) {stateAddr locAddr : IOAddr}
    (state : Declared p Y_REG_STATE stateAddr) (place : Declared p Y_REG_LOC locAddr)
    (ranges : Ranges) (memory : Memory) (es : List Event)
    (hshown : (run (step (imageOf ranges h)) ⟨h, .construct memory⟩ es).shown = true) :
    ∃ stateVar locVar,
      (run (step (imageOf ranges h)) ⟨h, .construct memory⟩ es).hmi.system.emitted stateAddr =
        some (.varChanged stateVar) ∧
      (run (step (imageOf ranges h)) ⟨h, .construct memory⟩ es).hmi.system.emitted locAddr =
        some (.varChanged locVar) ∧
      Guarded (run (step (imageOf ranges h)) ⟨h, .construct memory⟩ es)
        (toUnsigned (getCurrentVal stateVar)) (flagOf (getCurrentVal locVar)) := by
  obtain ⟨p', hparse', hinitial⟩ := init_initial hinit
  obtain rfl := Option.some.inj (hparse'.symm.trans hparse)
  have hset := init_hasSetPoints hinit hparse
  have himage := hinitial.image
  have hinformed : Informed (imageOf ranges h) h stateAddr locAddr
      (run (step (imageOf ranges h)) ⟨h, .construct memory⟩ es) := by
    refine run_invariant' (fun _ e hd => hd.step state place himage e) ?_ es
    refine ⟨hinitial.counting [], fun hmem => ?_, fun hmem => ?_⟩
    · rw [hinitial.unreported] at hmem
      exact absurd hmem (Finset.notMem_empty _)
    · rw [hinitial.unreported] at hmem
      exact absurd hmem (Finset.notMem_empty _)
  obtain ⟨ls, hls⟩ := hmi_run (imageOf ranges h) ⟨h, .construct memory⟩ es
  generalize run (step (imageOf ranges h)) ⟨h, .construct memory⟩ es = d at hshown hinformed hls ⊢
  have hcomplete := hinitial.complete ls (by rw [← hls]; exact of_decide_eq_true hshown)
  have hmapped := hinitial.awaited_iff.mp hcomplete.2.symm
  have hreported : ∀ tAddr ∈ p'.slaveVarsToUpdate ∪ p'.fieldVarsToUpdate,
      tAddr ∈ d.hmi.reported := by
    intro tAddr hmem
    rw [hls]
    apply hcomplete.1
    rw [hinitial.mem_polled]
    rcases Finset.mem_union.mp hmem with hslave | hfield
    · have hmem' : tAddr ∈ p'.usSlaveVarsToUpdate := Finset.mem_union_left _ hslave
      exact Or.inl ⟨hmem', hmapped.slave tAddr hmem'⟩
    · obtain ⟨hlow, _, hhigh⟩ := hmapped.field tAddr hfield
      exact Or.inr ⟨hfield, hlow, hhigh⟩
  obtain ⟨stateVar, hstateVar, hstate, htext⟩ := hinformed.state (hreported _ state.polled)
  obtain ⟨locVar, hlocVar, hplace, hsettled⟩ := hinformed.place (hreported _ place.polled)
  have hguarded := guarded_of_settled ranges (congrArg ChangeNotification.Image.vars himage) hset
    hshown hsettled (htext.trans (congrArg stateText hstate.symm))
  rw [hstate, hplace] at hguarded
  exact ⟨stateVar, locVar, hstateVar, hlocVar, hguarded⟩

end Result

/-- The variables with set points, the state and the mode. -/
def panelFile : List Token :=
  setPointsFile 12 ++ [(Y_REG_STATE, Fr.R, 13#8), (Y_REG_LOC, Fr.F, 14#8)].flatMap
    (fun v => [.var (some (v.1, some v.2.1)), .other, .remAddr (some (0, 0, v.2.2)),
      .hmi (some (some .RW)), .other])

def panelInit : Option (Hmi (WriteReq.Queue true)) :=
  init true (some panelFile) (.ok (some ⟨some "192.168.1.34", some (-1), some 4, some 10⟩))
    (channelAddr 13 :: (List.range' 1 9).map channelAddr)
    (channelAddr 14 :: (List.range' 10 3).map channelAddr) true ""

theorem panel_parses : (parseRegIOInfo (some panelFile)).isSome = true := by
  decide +kernel

theorem panel_initialised : panelInit.isSome = true := by
  decide +kernel

/-- State 6 and mode 0 are polled and read with all other variables. -/
def panelLabels : List ChangeNotification.Label :=
  [.enter .running, .pollModbus 0 (.current 0x40c00000) 0, .store] ++
    (List.range' 1 9).flatMap (fun i => [.pollModbus i (.roInt 1) 0, .store]) ++
    (List.range 4).flatMap (fun i => [.pollField i ⟨0, 0, 1000, .ok, false⟩, .store]) ++
    [.updateImage, .getChangedVars] ++ (List.range' 1 14).map (fun i => .read (channelAddr i))

/-- The desk after these events, whose panel began as if the regulator were in local mode. -/
def panelDesk : Desk (WriteReq.Queue true) :=
  run (step (imageOf ⟨fun _ => ⟨0, 0⟩, fun _ => ⟨0, 0⟩⟩ (panelInit.get panel_initialised)))
    ⟨panelInit.get panel_initialised, .construct ⟨0, true, 0, 0, 0⟩⟩ (panelLabels.map .image)

/-- The value of the last signal of an address. -/
def lastVal (d : Desk (WriteReq.Queue true)) (tAddr : IOAddr) : Option Single :=
  match d.hmi.system.emitted tAddr with
  | some (.varChanged var) => some (getCurrentVal var)
  | _ => none

theorem declared_of {p : Parsed} {uiID : BitVec 32} (tAddr : IOAddr)
    (polled : tAddr ∈ p.slaveVarsToUpdate ∪ p.fieldVarsToUpdate)
    (entries : ∀ it ∈ p.vars.mumVars, it.2.muiVarId = uiID ↔ it.1 = tAddr)
    (high : counts.total < tAddr.uiChannel.toNat) : Declared p uiID tAddr :=
  ⟨polled, fun a var hvar => entries (a, var) (KeyedTables.mem_of_lookup hvar), high⟩

theorem set_point_sent : ∃ val, requests panelDesk true .cmdSendSP =
      [.writeVar ZR_REG_PWSP val, .writeVarAsButton HMSM_REG_SPOK true] ∧
    SingleOrder.le 0 val = true ∧ SingleOrder.le val 0x459c4000 = true := by
  have hshown : panelDesk.shown = true := by decide +kernel
  obtain ⟨stateVar, locVar, hstate, hloc, hguarded⟩ := operator_guarded
    (Option.some_get panel_initialised).symm (Option.some_get panel_parses).symm
    (declared_of (channelAddr 13) (by decide +kernel) (by decide +kernel) (by decide))
    (declared_of (channelAddr 14) (by decide +kernel) (by decide +kernel) (by decide))
    ⟨fun _ => ⟨0, 0⟩, fun _ => ⟨0, 0⟩⟩ ⟨0, true, 0, 0, 0⟩ (panelLabels.map .image) hshown
  have hsix : lastVal panelDesk (channelAddr 13) = some 0x40c00000 := by decide +kernel
  have hzero : lastVal panelDesk (channelAddr 14) = some 0 := by decide +kernel
  rw [lastVal, panelDesk, hstate] at hsix
  rw [lastVal, panelDesk, hloc] at hzero
  rw [Option.some.inj hsix, Option.some.inj hzero] at hguarded
  have hcast : toUnsigned 0x40c00000 = 6 ∧ flagOf 0 = false := by decide +kernel
  rw [hcast.1, hcast.2] at hguarded
  exact hguarded.setPoint rfl (by decide) true

end OperatorDesk
