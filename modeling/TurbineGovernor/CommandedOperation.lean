import TurbineGovernor.CommandDelivery
import TurbineGovernor.RunUp

/-!
# Operation on command

The loop of the regulator with one master: requests, transfers that fail or
succeed and phases of scans in any order. What each scan of the control makes of
the turbine follows from the writes performed before its phase of input, and
from nothing else that the master and the field do.
-/

namespace CommandedOperation
open CommonTypes PriorityQueues MasterDriver SlaveDriver RegisterMap TransitionRuns
open RegulatorImage hiding Label step System
open RegulatorImage.IOImage RegulatorLoop SingleSums RunUp SetPoints
open SetPoints hiding startLoop scan trueVal control
open RegulatorLoop hiding Label step scan
open CommandDelivery (Plant Delivered Ready commands plantAfter start)
open RegulatorAlarms (AlarmManager)
open StartUp (SE_REG_F1)

/-- The value of a command after the writes: the last one, or that of `init`. -/
def commanded (written : BitVec 8 → Option Single) (uiID : BitVec 32) : Single :=
  match commands.lookup uiID with
  | some (uiChannel, fVal) => (written uiChannel).getD fVal
  | none => 0

/-- The scans since the start, and whether the opening is regulated instead of
the power. -/
structure Operation where
  scans : Nat
  opening : Bool

def isCommanded (heard : BitVec 32 → Single) (uiID : BitVec 32) : Bool :=
  Single.eq (heard uiID) ScanLoop.one

/-- A scan that has heard the commands; the regulation begins in scan `g`. -/
def Operation.scan (g : Nat) (o : Operation) (heard : BitVec 32 → Single) : Operation where
  scans := if o.scans = 0 ∧ isCommanded heard HMSM_REG_STR = false then 0 else o.scans + 1
  opening :=
    if o.scans < g then false
    else if o.opening then !isCommanded heard HMSM_REG_PWREG
    else isCommanded heard HMSM_REG_OPREG

/-- The state that belongs to it, when the turbine is synchronised in scan `s`. -/
def Operation.state (s g : Nat) (o : Operation) : Int :=
  if o.scans = 0 then 0
  else if o.scans < s then 1
  else if o.scans < g then 4
  else if o.opening then 7
  else 6

/-- The operation after scans that have heard these commands. -/
def operation (g : Nat) (heard : List (BitVec 32 → Single)) : Operation :=
  heard.foldl (Operation.scan g) ⟨0, false⟩

variable {Q : Type}

/-- The plant with the control. Ghost: `heard` holds the commands as they were
written before the last phase of input, `scanned` those of each scan of the
control. -/
structure Station (Q : Type) where
  plant : Plant Q
  alMan : AlarmManager
  iState : Int
  heard : BitVec 32 → Single
  scanned : List (BitVec 32 → Single)

inductive Label where
  | link (l : ForceTransfer.Label)
  | regulator (l : RegulatorLoop.Label)

/-- The phases scan the variables and the transfers change the tables. -/
def Label.Proper : Label → Prop
  | .link (.scan _) => False
  | .regulator (.request _) => False
  | .regulator (.setState tState) => tState ≠ .unInit
  | _ => True

def Station.loop (st : Station Q) : Loop :=
  ⟨st.plant.img, st.plant.link.slave, st.alMan, st.iState⟩

section Machine
variable [PriorityQueue Q WriteReq WriteReq.Less] (L : FloatAbcd)

def step (st : Station Q) : Label → Station Q
  | .link l => { st with plant := CommandDelivery.step L st.plant (.link l) }
  | .regulator l =>
    let r := RegulatorLoop.step L st.loop l
    { plant := { st.plant with img := r.img, link := { st.plant.link with slave := r.slave } }
      alMan := r.alMan
      iState := r.iState
      heard := match l with
        | .updateInputs _ _ => commanded st.plant.written
        | _ => st.heard
      scanned := match l with
        | .updateControl => st.scanned ++ [st.heard]
        | _ => st.scanned }

/-- The station when the loop of the regulator starts. -/
def startStation (memory : BitVec 32 → IOVar) (master : ModbusMasterDrv Q) (slave : ModbusSlaveDrv)
    (alMan : AlarmManager) : Station Q where
  plant := start master (construct.init L memory slave)
  alMan := alMan
  iState := 0
  heard := commanded (fun _ => none)
  scanned := []

end Machine

theorem loop_start (L : FloatAbcd) (memory : BitVec 32 → IOVar) (master : ModbusMasterDrv Q)
    (slave : ModbusSlaveDrv) (alMan : AlarmManager) :
    (startStation L memory master slave alMan).loop =
      RegulatorLoop.startLoop L memory slave alMan := by
  simp only [Station.loop, startStation, start, RegulatorLoop.startLoop]

theorem commands_unique : KeyedTables.UniqueKeys commands :=
  created_distinct.sublist (List.Sublist.map Prod.fst List.filter_sublist)

theorem commanded_eq (written : BitVec 8 → Option Single) {c : BitVec 32 × BitVec 8 × Single}
    (hc : c ∈ commands) : commanded written c.1 = (written c.2.1).getD c.2.2 := by
  rw [commanded, (KeyedTables.mem_iff_lookup commands_unique c.1 c.2).mp hc]

theorem slaveIn_of_command {c : BitVec 32 × BitVec 8 × Single} (hc : c ∈ commands) :
    (placeOf c.1).region = .slaveIn := of_decide_eq_true (List.mem_filter.mp hc).2

theorem mem_commands : ∀ uiID ∈ [HMSM_REG_STR, HMSM_REG_PWREG, HMSM_REG_OPREG],
    ∃ c ∈ commands, c.1 = uiID := by
  simp only [List.forall_mem_cons]
  rw [CommandDelivery.commands_eq]
  exact ⟨⟨_, @List.mem_of_getElem? _ _ 0 _ rfl, rfl⟩, ⟨_, @List.mem_of_getElem? _ _ 4 _ rfl, rfl⟩,
    ⟨_, @List.mem_of_getElem? _ _ 5 _ rfl, rfl⟩, fun _ h => absurd h List.not_mem_nil⟩

/-- The control assigns outputs only. -/
theorem assigned_region (A : Arithmetic) (img : IOImage) (iState : Int) (alMan : AlarmManager) :
    ∀ a ∈ (updateControl A img iState alMan).2.1, (placeOf a.1).region ≠ .slaveIn := by
  have hrunUp : ∀ (x : Single) (i : Int), ∀ a ∈ (runUpAt x i).2,
      (placeOf a.1).region ≠ .slaveIn := by
    intro x i
    simp only [runUpAt]
    cases SingleOrder.lt 0x42820000 x <;> cases SingleOrder.lt 0x426c0000 x <;>
      simp only [Bool.false_eq_true, if_true, if_false, List.append_nil, List.nil_append,
        List.cons_append, List.forall_mem_cons, List.not_mem_nil, false_imp_iff, implies_true,
        and_true] <;> decide
  have hregulate : ∀ i, ∀ a ∈ (regulate A img i).2, (placeOf a.1).region ≠ .slaveIn := by
    intro i a ha
    simp only [regulate, regulatePower, regulateOpening] at ha
    split at ha
    · exact hrunUp _ _ a ha
    split at ha
    · split at ha
      · cases ha
      split at ha
      · rw [List.mem_singleton.mp ha]
        exact fun h => Region.noConfusion h
      · cases ha
    split at ha
    · split at ha
      · cases ha
      · rw [List.mem_singleton.mp ha]
        exact fun h => Region.noConfusion h
    · cases ha
  intro a ha
  rcases List.mem_append.mp ha with hreg | hstate
  · exact hregulate _ a hreg
  · rw [List.mem_singleton.mp hstate]
    exact fun h => Region.noConfusion h

section Phases
variable {L : FloatAbcd} {memory : BitVec 32 → IOVar} {master : ModbusMasterDrv Q}
  {slave : ModbusSlaveDrv} [PriorityQueue Q WriteReq WriteReq.Less]

/-- A phase of input reads the commands as they have been written. -/
theorem value_input (ready : Ready master slave) {p : Plant Q}
    (delivered : Delivered L (start master (construct.init L memory slave)) p)
    {c : BitVec 32 × BitVec 8 × Single} (hc : c ∈ commands) (field : FieldDrv) (now : BitVec 64) :
    value (p.img.updateInputs L field now p.link.slave).1 c.1 = commanded p.written c.1 := by
  have hcreated := (List.mem_filter.mp hc).1
  have hvar := atID_init L memory slave hcreated
  have hreserved := CommandDelivery.start_reserved L memory ready hc
  have hcell := CommandDelivery.cell_init L memory ready.initialised hcreated (ready.mapped c hc)
  rw [commanded_eq p.written hc]
  generalize construct.init L memory slave = r at hvar hreserved hcell delivered ⊢
  have hvalue := CommandDelivery.input_of_delivered delivered (slaveIn_of_command hc) hvar rfl
    hreserved field now
  exact hvalue.trans (congrArg _ hcell)

theorem value_init {c : BitVec 32 × BitVec 8 × Single} (hc : c ∈ commands) :
    value (construct.init L memory slave).1 c.1 = commanded (fun _ => none) c.1 := by
  rw [value, atID_init L memory slave (List.mem_filter.mp hc).1, commanded_eq _ hc]
  rfl

theorem unforced_init : Unforced (construct.init L memory slave).1 SE_REG_F1 := by
  intro var hvar
  have hcreated := atID_init L memory slave (c := (SE_REG_F1, 149, 0))
    (by simp [created, SE_REG_F1])
  obtain rfl := Option.some.inj (hvar.symm.trans hcreated)
  rfl

theorem delivered_start (ready : Ready master slave) :
    Delivered L (start master (construct.init L memory slave))
      (start master (construct.init L memory slave)) := by
  have hinitial := CommandDelivery.start_initial L memory ready
  generalize construct.init L memory slave = r at hinitial ⊢
  exact CommandDelivery.delivered_run hinitial (fun _ => rfl)
    (fun l (h : l ∈ []) => absurd h List.not_mem_nil)

/-- The assignments of a scan leave the plant otherwise as it is. -/
theorem delivered_assign {p₀ p : Plant Q} (delivered : Delivered L p₀ p) (as : List Assignment) :
    Delivered L p₀ { p with img := as.foldl assign p.img } := by
  induction as generalizing p with
  | nil => exact delivered
  | cons a as ih =>
    exact ih (CommandDelivery.delivered_step
      (l := .regulator (.setCurrentVal a.1 a.2)) delivered trivial)

/-- The other phases of the loop are phases of the plant. -/
theorem delivered_phase {p₀ : Plant Q} {st : Station Q} (delivered : Delivered L p₀ st.plant)
    {l : RegulatorLoop.Label} (proper : (Label.regulator l).Proper) :
    Delivered L p₀ (step L st (.regulator l)).plant := by
  cases l with
  | updateInputs field now =>
    exact CommandDelivery.delivered_step (l := .regulator (.updateInputs field now)) delivered
      trivial
  | checkDriverErrors fieldDrvState mVarErrors => exact delivered
  | updateControl => exact delivered_assign delivered _
  | updateOutputs =>
    exact CommandDelivery.delivered_step (l := .regulator (.updateOutputs (some st.alMan)))
      delivered
      trivial
  | driverFailed => exact delivered
  | setState tState =>
    exact CommandDelivery.delivered_step (l := .regulator (.setState tState)) delivered proper
  | request tables => exact proper.elim

/-- What the control has heard stays in the image until the next phase of input. -/
theorem value_phase (st : Station Q) {l : RegulatorLoop.Label}
    (h : ∀ field now, l ≠ .updateInputs field now) {c : BitVec 32 × BitVec 8 × Single}
    (hc : c ∈ commands) :
    value (step L st (.regulator l)).plant.img c.1 = value st.plant.img c.1 := by
  have hregion := slaveIn_of_command hc
  cases l with
  | updateInputs field now => exact absurd rfl (h field now)
  | updateControl =>
    have hother := foldl_assign_other (p := placeOf c.1)
      (fun a ha heq => assigned_region machine st.plant.img st.iState st.alMan a ha
        (heq ▸ hregion)) st.plant.img
    rw [value, value, atID, atID, ← hother]
    rfl
  | updateOutputs =>
    rw [value, value, atID, atID, IOImage.var, IOImage.var, hregion]
    rfl
  | checkDriverErrors fieldDrvState mVarErrors => rfl
  | driverFailed => rfl
  | setState tState => rfl
  | request tables => rfl

theorem regulate_runUp_ne (A : Arithmetic) (img : IOImage) {i : Int} (h : i = 1 ∨ i = 4) :
    (regulate A img i).1 ≠ 7 := by
  have hspeed : ∀ x : Single, (runUpAt x i).1 ≠ 7 := by
    intro x
    rw [(runsUp_runUpAt x i).state]
    split
    · decide
    split
    · decide
    · omega
  rw [regulate, if_pos h]
  exact hspeed _

/-- The modes change on command. -/
theorem regulate_mode (A : Arithmetic) (img : IOImage) (opening : Bool) :
    (regulate A img (if opening then 7 else 6)).1 =
      if (if opening then !isOne img HMSM_REG_PWREG else isOne img HMSM_REG_OPREG) then 7
      else 6 := by
  cases opening with
  | true =>
    have hregulate : regulate A img 7 = regulateOpening img := rfl
    rw [if_pos rfl, if_pos rfl, hregulate, regulateOpening]
    cases isOne img HMSM_REG_PWREG <;> rfl
  | false =>
    have hregulate : regulate A img 6 = regulatePower img := rfl
    rw [if_neg Bool.false_ne_true, if_neg Bool.false_ne_true, hregulate, regulatePower]
    cases isOne img HMSM_REG_OPREG
    · simp only [Bool.false_eq_true, if_false]
      split <;> rfl
    · rfl

end Phases

/-- What holds between the steps: the commands that the image has are those that
have been heard, and the operation is where they have brought it. -/
structure Commanded [PriorityQueue Q WriteReq WriteReq.Less] (L : FloatAbcd) (s g : Nat)
    (p₀ : Plant Q) (st : Station Q) : Prop where
  delivered : Delivered L p₀ st.plant
  unforced : Unforced st.plant.img SE_REG_F1
  heard : ∀ c ∈ commands, value st.plant.img c.1 = st.heard c.1
  table : Timetable s g st.loop (operation g st.scanned).scans
  state : st.iState = (operation g st.scanned).state s g

section Runs
variable [PriorityQueue Q WriteReq WriteReq.Less] {L : FloatAbcd} {s g : Nat} {p₀ : Plant Q}
  {st : Station Q}

theorem isOne_heard (commanded : Commanded L s g p₀ st) : ∀ uiID ∈ [HMSM_REG_STR, HMSM_REG_PWREG,
    HMSM_REG_OPREG], isOne st.plant.img uiID = isCommanded st.heard uiID := by
  intro uiID huiID
  obtain ⟨c, hc, rfl⟩ := mem_commands uiID huiID
  rw [isOne, commanded.heard c hc, isCommanded]

theorem operation_snoc (heard : List (BitVec 32 → Single)) (last : BitVec 32 → Single) :
    operation g (heard ++ [last]) = (operation g heard).scan g last := List.foldl_append

/-- The next state of a scan is that of the commanded operation. -/
theorem state_control (hpassed : Passed s g) (commanded : Commanded L s g p₀ st)
    (table : Timetable s g (RegulatorLoop.step L st.loop .updateControl)
      ((operation g st.scanned).scan g st.heard).scans) :
    (RegulatorLoop.step L st.loop .updateControl).iState =
      ((operation g st.scanned).scan g st.heard).state s g := by
  obtain ⟨hspos, hsg⟩ := hpassed.ordered
  have hstate := commanded.state
  have hbefore := commanded.table
  generalize operation g st.scanned = o at table hstate hbefore ⊢
  rw [Operation.state]
  by_cases hzero : (o.scan g st.heard).scans = 0
  · rw [if_pos hzero, table.idle hzero]
  rw [if_neg hzero]
  by_cases hrun : (o.scan g st.heard).scans < s
  · rw [if_pos hrun, table.runningUp (Nat.pos_of_ne_zero hzero) hrun]
  rw [if_neg hrun]
  by_cases hsync : (o.scan g st.heard).scans < g
  · rw [if_pos hsync, table.synchronised (Nat.le_of_not_lt hrun) hsync]
  rw [if_neg hsync]
  have hnext : (o.scan g st.heard).scans = o.scans + 1 := by
    simp only [Operation.scan] at hzero ⊢
    split
    · rename_i hidle
      rw [if_pos hidle] at hzero
      exact absurd rfl hzero
    · rfl
  have hne : o.scans ≠ 0 := by omega
  have hmode : (o.scan g st.heard).opening = if o.scans < g then false
      else if o.opening then !isCommanded st.heard HMSM_REG_PWREG
      else isCommanded st.heard HMSM_REG_OPREG := rfl
  rw [Operation.state, if_neg hne] at hstate
  by_cases hreach : o.scans < g
  · -- the scan that reaches the regulation regulates the power
    rw [hmode, if_pos hreach]
    have hrunning : st.iState = 1 ∨ st.iState = 4 := by
      rw [if_pos hreach] at hstate
      by_cases hs : o.scans < s
      · exact Or.inl (by rw [hstate, if_pos hs])
      · exact Or.inr (by rw [hstate, if_neg hs])
    have hstarted : startedState st.loop = st.iState := by
      rw [startedState, if_neg]
      · rfl
      · rintro ⟨hidle, _⟩
        have hloop : st.loop.iState = st.iState := rfl
        omega
    have hnot : (RegulatorLoop.step L st.loop .updateControl).iState ≠ 7 := by
      rw [iState_control, hstarted]
      exact regulate_runUp_ne machine _ hrunning
    rcases table.regulating (Nat.le_of_not_lt hsync) with hsix | hseven
    · rw [hsix]
      rfl
    · exact absurd hseven hnot
  · rw [hmode, if_neg hreach]
    rw [if_neg (by omega), if_neg hreach] at hstate
    have hstarted : startedState st.loop = if o.opening then 7 else 6 := by
      rw [startedState, if_neg]
      · exact hstate
      · rintro ⟨hidle, _⟩
        have hloop : st.loop.iState = st.iState := rfl
        rw [hloop, hstate] at hidle
        split at hidle <;> omega
    rw [iState_control, hstarted, regulate_mode]
    have hpower := isOne_heard commanded HMSM_REG_PWREG (by simp)
    have hopening := isOne_heard commanded HMSM_REG_OPREG (by simp)
    rw [Station.loop, hpower, hopening]

theorem Commanded.control (hpassed : Passed s g) (commanded : Commanded L s g p₀ st) :
    Commanded L s g p₀ (step L st (.regulator .updateControl)) := by
  obtain ⟨hadvances, htable⟩ :=
    timetable_control (L := L) hpassed commanded.table commanded.unforced
  have hstart := isOne_heard commanded HMSM_REG_STR (by simp)
  have htable' : Timetable s g (RegulatorLoop.step L st.loop .updateControl)
      ((operation g st.scanned).scan g st.heard).scans := by
    rw [Advances] at hadvances
    rw [hadvances] at htable
    rw [Operation.scan, ← hstart]
    exact htable
  refine ⟨delivered_phase commanded.delivered trivial, ?_, ?_, ?_, ?_⟩
  · exact unforced_step L st.loop .updateControl rfl commanded.unforced
  · intro c hc
    rw [value_phase st (fun _ _ h => RegulatorLoop.Label.noConfusion h) hc]
    exact commanded.heard c hc
  · simp only [step, operation_snoc]
    exact htable'
  · simp only [step, operation_snoc]
    exact state_control hpassed commanded htable'

/-- All other steps leave the operation as it is. -/
theorem Commanded.step {memory : BitVec 32 → IOVar} {master : ModbusMasterDrv Q}
    {slave : ModbusSlaveDrv} (ready : Ready master slave) (hpassed : Passed s g)
    (commanded : Commanded L s g (start master (construct.init L memory slave)) st) {l : Label}
    (proper : l.Proper) :
    Commanded L s g (start master (construct.init L memory slave)) (step L st l) := by
  cases l with
  | link l =>
    have hscan : ∀ var, l ≠ .scan var := by
      rintro var rfl
      exact proper
    exact ⟨CommandDelivery.delivered_link commanded.delivered l hscan, commanded.unforced,
      commanded.heard, ⟨commanded.table.idle, commanded.table.runningUp,
        commanded.table.synchronised, commanded.table.regulating, commanded.table.speeds,
        commanded.table.indicated, commanded.table.notTripped, commanded.table.setPoint,
        commanded.table.shown⟩, commanded.state⟩
  | regulator l =>
    by_cases hcontrol : l = .updateControl
    · subst hcontrol
      exact commanded.control hpassed
    have hdelivered := delivered_phase commanded.delivered proper
    have hunforced : Unforced (RegulatorLoop.step L st.loop l).img SE_REG_F1 :=
      unforced_step L st.loop l rfl commanded.unforced
    have htable := timetable_other (L := L) commanded.table hcontrol
    have hscanned : (CommandedOperation.step L st (.regulator l)).scanned = st.scanned := by
      cases l with
      | updateControl => exact absurd rfl hcontrol
      | _ => rfl
    have hstate : (CommandedOperation.step L st (.regulator l)).iState = st.iState := by
      cases l with
      | updateControl => exact absurd rfl hcontrol
      | _ => rfl
    refine ⟨hdelivered, hunforced, ?_, by rw [hscanned]; exact htable,
      by rw [hstate, hscanned]; exact commanded.state⟩
    intro c hc
    cases l with
    | updateInputs field now => exact value_input ready commanded.delivered hc field now
    | _ =>
      rw [value_phase st (fun _ _ h => RegulatorLoop.Label.noConfusion h) hc]
      exact commanded.heard c hc

end Runs

/-- In every run of the regulator with a master that fits the state, the speeds, the
indicators and the set point of the speed are those of the operation that the
performed writes have commanded, and the control has each command as it was last
written before the phase of input. -/
theorem operated_on_command [PriorityQueue Q WriteReq WriteReq.Less] :
    ∃ s g, (6553 ≤ s ∧ s ≤ 6559) ∧ (7220 ≤ g ∧ g ≤ 7226) ∧
      ∀ (L : FloatAbcd) (memory : BitVec 32 → IOVar) (master : ModbusMasterDrv Q)
        (slave : ModbusSlaveDrv) (alMan : AlarmManager), Ready master slave →
        ∀ ls : List Label, (∀ l ∈ ls, l.Proper) →
          Timetable s g (run (step L) (startStation L memory master slave alMan) ls).loop
              (operation g
                (run (step L) (startStation L memory master slave alMan) ls).scanned).scans ∧
            (run (step L) (startStation L memory master slave alMan) ls).iState =
              (operation g (run (step L) (startStation L memory master slave alMan)
                ls).scanned).state s g ∧
            ∀ c ∈ commands,
              value (run (step L) (startStation L memory master slave alMan) ls).plant.img c.1 =
                (run (step L) (startStation L memory master slave alMan) ls).heard c.1 := by
  obtain ⟨s, g, hs, hg, hpassed⟩ := exists_passed
  refine ⟨s, g, hs, hg, ?_⟩
  intro L memory master slave alMan ready ls proper
  have hstart : Commanded L s g (start master (construct.init L memory slave))
      (startStation L memory master slave alMan) := by
    refine ⟨delivered_start ready, unforced_init, fun c hc => value_init hc, ?_, rfl⟩
    rw [loop_start]
    exact timetable_initial hpassed memory slave alMan
  have hrun := run_invariant (C := fun _ (l : Label) => l.Proper)
    (P := Commanded L s g (start master (construct.init L memory slave)))
    (fun _ _ commanded hl => commanded.step ready hpassed hl) hstart (along_of_forall _ proper)
  exact ⟨hrun.table, hrun.state, hrun.heard⟩

/-- The button is written; the next scan hears it. -/
def pressAndScan : List Label :=
  [.regulator .updateControl, .link (.write ScanLoop.one { uiChannel := 39 } 1000 0),
    .link (.beginWrite 0), .link (.transfer .done ""),
    .regulator (.updateInputs ⟨fun _ => none, fun _ => none⟩ 7), .regulator .updateControl]

def shippedStation : Station (WriteReq.Queue true) :=
  startStation floatAbcd (fun id => TableBounds.varAt id {}) CommandDelivery.shippedMaster
    ForceOverride.shippedSlave ⟨false, [0], [0], [], fun _ => 0⟩

/-- The scan before the button leaves the regulator stopped, the one after it
starts the turbine. -/
theorem started_on_command : (run (step floatAbcd) shippedStation pressAndScan).iState = 1 := by
  have hproper : ∀ l ∈ pressAndScan, l.Proper := by
    simp only [pressAndScan, List.forall_mem_cons, Label.Proper, List.not_mem_nil, false_imp_iff,
      implies_true, and_self]
  obtain ⟨s, g, ⟨hs, _⟩, ⟨hg, _⟩, hall⟩ := @operated_on_command (WriteReq.Queue true) _
  have hstate := (hall floatAbcd (fun id => TableBounds.varAt id {}) CommandDelivery.shippedMaster
    ForceOverride.shippedSlave ⟨false, [0], [0], [], fun _ => 0⟩ CommandDelivery.shipped_ready
      pressAndScan
    hproper).2.1
  have hscanned : (run (step floatAbcd) shippedStation pressAndScan).scanned =
      [commanded (fun _ => none),
        commanded (Function.update (fun _ => none) 39 (some ScanLoop.one))] := rfl
  have hregulating : 0 < g := by omega
  have hrunning : 1 < s := by omega
  have hfirst : (⟨0, false⟩ : Operation).scan g (commanded (fun _ => none)) = ⟨0, false⟩ := by
    rw [Operation.scan, if_pos ⟨rfl, rfl⟩, if_pos hregulating]
  have hsecond : (⟨0, false⟩ : Operation).scan g
      (commanded (Function.update (fun _ => none) 39 (some ScanLoop.one))) = ⟨1, false⟩ := by
    rw [Operation.scan, if_neg (fun h => Bool.noConfusion h.2), if_pos hregulating]
  rw [shippedStation] at hscanned
  rw [hscanned, operation, List.foldl_cons, hfirst, List.foldl_cons, hsecond, List.foldl_nil,
    Operation.state, if_neg (by decide), if_pos hrunning] at hstate
  exact hstate

end CommandedOperation
