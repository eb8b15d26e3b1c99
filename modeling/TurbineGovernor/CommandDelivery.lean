import TurbineGovernor.ForceTransfer
import TurbineGovernor.PublishedImage
import TurbineGovernor.RegulatorLoop

/-!
# Delivery of commands

The buttons and set points of a master reach the control through registers
that the regulator only reads. Whatever requests, failing transfers and phases
of scans come in between, a phase of input finds in each of them what the last
performed write has put there, or the first value of `init`.
-/

namespace CommandDelivery
open CommonTypes PriorityQueues MasterDriver SlaveDriver SlaveDriver.ModbusSlaveDrv RegisterMap
open TransitionRuns ForceTransfer PublishedImage
open RegulatorImage hiding Label step System
open RegulatorImage.IOImage ForceOverride
open RegulatorAlarms (AlarmManager)
open TableBounds (Rejects range_of_accepted read_accepted write_rejected write_accepted
  updateFieldVar_unknown updateFieldVar_rejected updateFieldVar_accepted)

variable {Q : Type} (L : FloatAbcd)

/-- Master and slave with the image of the regulator. Ghost: `written` holds by
channel the value of the last write that has been performed, forces apart. -/
structure Plant (Q : Type) where
  link : ForceTransfer.System Q
  img : IOImage
  written : BitVec 8 → Option Single

inductive Label where
  | link (l : ForceTransfer.Label)
  | regulator (l : RegulatorImage.Label)

/-- The phases scan the variables and the transfers change the tables. -/
def Label.Proper : Label → Prop
  | .link (.scan _) => False
  | .regulator (.request _) => False
  | .regulator (.setState tState) => tState ≠ .unInit
  | _ => True

/-- The write whose value a step puts into the tables. -/
def performedWrite (s : ForceTransfer.System Q) (l : ForceTransfer.Label) : Option WriteReq :=
  match l, s.job with
  | .transfer answer _, some j =>
    if answer.performed && !j.writeReq.mbForce then some j.writeReq else none
  | _, _ => none

def record (written : BitVec 8 → Option Single) : Option WriteReq → BitVec 8 → Option Single
  | none => written
  | some wr => Function.update written wr.mtAddr.uiChannel (some wr.mfWriteVal)

section Steps
variable [PriorityQueue Q WriteReq WriteReq.Less]

def step (p : Plant Q) : Label → Plant Q
  | .link l =>
    { p with link := p.link.step L l, written := record p.written (performedWrite p.link l) }
  | .regulator l =>
    let s := RegulatorImage.step L ⟨p.img, p.link.slave⟩ l
    { p with img := s.img, link := { p.link with slave := s.slave } }

end Steps

/-- What a slave input of the channel is read as. -/
def cell (s : ModbusSlaveDrv) (c : IOAddr) : Single := s.getCurrentVal L (s.numVar c)

section Cells
variable {L} {s s' : ModbusSlaveDrv} {c : IOAddr}

theorem cell_eq (h : InField s c) : cell L s c =
    L.getFloatAbcd (s.mpMBmapping.tabRegisters (pos s c * 4))
      (s.mpMBmapping.tabRegisters (pos s c * 4 + 1)) := by
  rw [cell, ModbusSlaveDrv.getCurrentVal, slaveValAddr h SlaveDriver.HROFFSET (by decide)]
  rfl

/-- The number of a channel is its distance from the RO ints. -/
theorem numVar_injective {c d : IOAddr} (h : s.numVar c = s.numVar d) :
    c.uiChannel = d.uiChannel := by
  have hc := c.uiChannel.isLt
  have hd := d.uiChannel.isLt
  have heq := congrArg BitVec.toNat h
  simp only [ModbusSlaveDrv.numVar, BitVec.toNat_setWidth, BitVec.toNat_sub] at heq
  apply BitVec.eq_of_toNat_eq
  omega

/-- A call that stays away from the channel. -/
def Avoids (s : ModbusSlaveDrv) (c : IOAddr) : Publication → Prop
  | .write var => var.mtAddr.uiChannel ≠ c.uiChannel
  | .updateFieldVar var => ∀ d, s.mFieldVars.lookup var.muiVarId = some d →
      d.uiChannel ≠ c.uiChannel
  | .writeRO _ => True

theorem avoids_congr (steady : Steady s s') (call : Publication) :
    Avoids s' c call ↔ Avoids s c call := by
  cases call with
  | write var => exact Iff.rfl
  | updateFieldVar var => rw [Avoids, Avoids, steady.fieldVars]
  | writeRO it => exact Iff.rfl

theorem cell_setCurrentVal (hc : InField s c) (fVal : Single) {d : IOAddr}
    (haccepted : ¬ Rejects s s.muiNumIOVars (s.numVar d)) (hne : d.uiChannel ≠ c.uiChannel) :
    cell L (s.setCurrentVal L fVal (s.numVar d)) c = cell L s c := by
  have hnum := slaveNumVar_toNat hc
  have hpos : 1 ≤ (s.numVar c).toNat := by omega
  exact getCurrentVal_other L s fVal (range_of_accepted haccepted).1 hpos
    (fun heq => hne (numVar_injective heq))

theorem publish_steady (s : ModbusSlaveDrv) (call : Publication) : Steady s (publish L s call) := by
  cases call with
  | write var => exact steady_write L s var
  | updateFieldVar var => exact steady_updateFieldVar L s var
  | writeRO it => exact steady_writeRO s it.2 { uiChannel := it.1 }

theorem publish_initialised (hs : Initialised s) (call : Publication) :
    Initialised (publish L s call) := by
  cases call with
  | write var =>
    rw [publish]
    by_cases hr : Rejects s s.muiNumIOVars (s.numVar var.mtAddr)
    · rw [write_rejected L s var hr]
      exact hs
    · rw [write_accepted L s var hr]
      exact ⟨⟨hs.small, hs.bits, hs.inputBits, hs.registers, hs.inputRegisters⟩, hs.state⟩
  | updateFieldVar var =>
    obtain ⟨m, heq, hi, _⟩ := scan_frame (L := L) s var
    rw [publish, heq]
    exact hi hs
  | writeRO it =>
    rw [publish]
    by_cases hr : Rejects s s.muiNumROInts it.1
    · rw [TableBounds.writeRO_rejected s it.2 { uiChannel := it.1 } hr]
      exact hs
    · rw [TableBounds.writeRO_accepted s it.2 { uiChannel := it.1 } hr]
      exact ⟨⟨hs.small, hs.bits, hs.inputBits, hs.registers, hs.inputRegisters⟩, hs.state⟩

theorem cell_publish (hc : InField s c) {call : Publication} (avoids : Avoids s c call) :
    cell L (publish L s call) c = cell L s c := by
  cases call with
  | write var =>
    rw [publish]
    by_cases hr : Rejects s s.muiNumIOVars (s.numVar var.mtAddr)
    · rw [write_rejected L s var hr]
    · rw [write_accepted L s var hr]
      exact cell_setCurrentVal hc _ hr avoids
  | updateFieldVar var =>
    rw [publish]
    cases hfind : s.mFieldVars.lookup var.muiVarId with
    | none => rw [updateFieldVar_unknown L s var hfind]
    | some d =>
      by_cases hr : Rejects s s.muiNumIOVars (s.numVar d)
      · rw [updateFieldVar_rejected L s var hfind hr]
      · rw [updateFieldVar_accepted L s var hfind hr]
        exact (getCurrentVal_setTimeS L _ _ _ _ _).trans
          (cell_setCurrentVal hc _ hr (avoids d hfind))
  | writeRO it =>
    rw [publish]
    by_cases hr : Rejects s s.muiNumROInts it.1
    · rw [TableBounds.writeRO_rejected s it.2 { uiChannel := it.1 } hr]
    · rw [TableBounds.writeRO_accepted s it.2 { uiChannel := it.1 } hr]
      rfl

/-- What a phase keeps of the slave while its calls stay away from a channel. -/
theorem calls_kept (hs : Initialised s) (calls : List Publication) :
    Steady s (calls.foldl (publish L) s) ∧ Initialised (calls.foldl (publish L) s) ∧
      ∀ c, InField s c → (∀ call ∈ calls, Avoids s c call) →
        cell L (calls.foldl (publish L) s) c = cell L s c := by
  induction calls generalizing s with
  | nil => exact ⟨.refl s, hs, fun _ _ _ => rfl⟩
  | cons call calls ih =>
    have hfirst := publish_steady (L := L) s call
    obtain ⟨hsteady, hi, hcell⟩ := ih (publish_initialised (L := L) hs call)
    refine ⟨hfirst.trans hsteady, hi, ?_⟩
    intro c hc avoids
    have hc' := (inField_iff hfirst c).mpr hc
    have hrest : ∀ call' ∈ calls, Avoids (publish L s call) c call' := fun call' hcall' =>
      (avoids_congr hfirst call').mpr (avoids call' (List.mem_cons_of_mem _ hcall'))
    exact (hcell c hc' hrest).trans (cell_publish hc (avoids call List.mem_cons_self))

end Cells

section Transfers
variable {L} {s : ForceTransfer.System Q}

theorem perform_fieldVars (hs : TablesOk L s) {j : Job} (hj : JobOk s j) :
    (s.perform L j).slave.mFieldVars = s.slave.mFieldVars := by
  cases hcoil : j.progress.bForced with
  | false =>
    rw [perform_coil hs hj hcoil]
    rfl
  | true =>
    rw [perform_value hs hj hcoil]
    rfl

/-- A transfer changes the registers of a command as a plain write to its
channel only. -/
theorem cell_perform (hs : TablesOk L s) {j : Job} (hj : JobOk s j) {c : IOAddr}
    (hc : InField s.slave c) : cell L (s.perform L j).slave c =
      if j.writeReq.mbForce = false ∧ j.writeReq.mtAddr.uiChannel = c.uiChannel then
        j.writeReq.mfWriteVal
      else cell L s.slave c := by
  have hc' : InField (s.perform L j).slave c := by
    obtain ⟨_, hro, hio⟩ := perform_frame hs hj
    rw [InField, hro, hio]
    exact hc
  cases hcoil : j.progress.bForced with
  | false =>
    have hforce : ¬ j.writeReq.mbForce = false := by
      intro hplain
      rw [hj.plain hplain] at hcoil
      cases hcoil
    rw [if_neg (fun h => hforce h.1), perform_coil hs hj hcoil]
    rfl
  | true =>
    rw [perform_value hs hj hcoil] at hc' ⊢
    have hpos : pos (afterValue L s j.writeReq).slave c = pos s.slave c := rfl
    rw [cell_eq hc', hpos]
    by_cases hown : j.writeReq.mbForce = false ∧ j.writeReq.mtAddr.uiChannel = c.uiChannel
    · obtain ⟨hplain, hch⟩ := hown
      rw [if_pos ⟨hplain, hch⟩]
      have hbase : valueBase s j.writeReq = pos s.slave c * 4 := by
        simp only [valueBase, hplain, Bool.false_eq_true, if_false]
        rw [pos_congr s.slave hch, Nat.add_zero]
      have hstored := getFloat_stored (L := L) s.slave.mpMBmapping.tabRegisters
        (pos s.slave c * 4) 2 le_rfl j.writeReq.mfWriteVal
      rw [← hbase] at hstored
      simp only [afterValue]
      exact hbase ▸ hstored
    · rw [if_neg hown, cell_eq hc]
      have hapart : pos s.slave c * 4 + 1 < valueBase s j.writeReq ∨
          valueBase s j.writeReq + 2 ≤ pos s.slave c * 4 := by
        simp only [valueBase]
        by_cases hch : j.writeReq.mtAddr.uiChannel = c.uiChannel
        · have hforce : j.writeReq.mbForce = true := by
            by_contra hplain
            exact hown ⟨eq_false_of_ne_true hplain, hch⟩
          rw [if_pos hforce, pos_congr s.slave hch]
          omega
        · have hne := pos_ne hj.inField hc (Ne.symm hch)
          split <;> omega
      exact congrArg₂ _
        (store_outside _ _ _ (by simp only [List.length_cons, List.length_nil]; omega))
        (store_outside _ _ _ (by simp only [List.length_cons, List.length_nil]; omega))

variable [PriorityQueue Q WriteReq WriteReq.Less]

/-- What a step of the master leaves in the tables. -/
theorem link_slave (l : ForceTransfer.Label) (hscan : ∀ var, l ≠ .scan var) :
    ((s.step L l).slave = s.slave ∧ performedWrite s l = none) ∨
      ∃ j, s.job = some j ∧ (s.step L l).slave = (s.perform L j).slave ∧
        performedWrite s l = if j.writeReq.mbForce = false then some j.writeReq else none := by
  cases l with
  | scan var => exact absurd rfl (hscan var)
  | transfer answer strerror =>
    cases hjob : s.job with
    | none =>
      left
      simp only [System.step, performedWrite, hjob]
      trivial
    | some j =>
      simp only [System.step, System.transfer, performedWrite, hjob]
      cases hperformed : answer.performed with
      | false =>
        left
        constructor
        · split <;> rfl
        · rfl
      | true =>
        right
        refine ⟨j, rfl, ?_, ?_⟩
        · split <;> rfl
        · cases j.writeReq.mbForce <;> rfl
  | _ =>
    left
    cases hjob : s.job <;> simp only [System.step, performedWrite, hjob] <;> trivial

end Transfers

section Phases
variable {L} {s : ForceTransfer.System Q} [PriorityQueue Q WriteReq WriteReq.Less]

/-- The regulator may change all of the tables but the master's cells. -/
theorem slave_inv (h : Inv L s) {slave : ModbusSlaveDrv} (same : SameForcing s.slave slave)
    (hro : slave.muiNumROInts = s.slave.muiNumROInts)
    (hio : slave.muiNumIOVars = s.slave.muiNumIOVars) (hi : Initialised slave) :
    Inv L { s with slave := slave } := by
  have hfield : ∀ c, InField slave c ↔ InField s.slave c := by
    intro c
    rw [InField, InField, hro, hio]
  have hpos : ∀ c, pos slave c = pos s.slave c := by
    intro c
    rw [pos, pos, hro]
  refine ⟨⟨hi, h.roInts.trans hro.symm, h.ioVars.trans hio.symm, ?_, ?_, ?_⟩, ?_, ?_⟩
  · intro wr hwr
    obtain ⟨hforce, hflag, hin⟩ := h.flagged wr hwr
    exact ⟨hforce, hflag, (hfield _).mpr hin⟩
  · intro p hp
    obtain ⟨wr, hwr, hown⟩ := h.owner p (same.coils ▸ hp)
    exact ⟨wr, hwr, (hpos _).trans hown⟩
  · intro tAddr (hin : InField slave tAddr) hp
    have hin' := (hfield tAddr).mp hin
    obtain ⟨wr, hhead, hval⟩ := h.content tAddr hin' (hpos tAddr ▸ same.coils ▸ hp)
    refine ⟨wr, hhead, Eq.trans ?_ hval⟩
    simp only [System.forcedVal]
    rw [getForcedVal_eq hin, getForcedVal_eq hin', hpos, same.values _ (by omega),
      same.values _ (by omega)]
  · intro wr hwr
    exact (hfield _).mpr (h.pending wr hwr)
  · intro j hj
    obtain ⟨htop, hjob⟩ := h.job j hj
    exact ⟨htop, (hfield _).mpr hjob.inField, hjob.running, hjob.plain, hjob.value, hjob.flag⟩

/-- The channels that the phases publish on stay away from a command. -/
structure Reserved (slave : ModbusSlaveDrv) (img : IOImage) (c : IOAddr) : Prop where
  inField : InField slave c
  fields : ∀ it ∈ slave.mFieldVars, it.2.uiChannel ≠ c.uiChannel
  outputs : ∀ var ∈ img.mSlaveOut.reduceOption, var.mtAddr.uiChannel ≠ c.uiChannel

theorem mem_of_lookup {vars : List (BitVec 32 × IOAddr)} {uiVarId : BitVec 32} {d : IOAddr}
    (h : vars.lookup uiVarId = some d) : ∃ it ∈ vars, it.2 = d := by
  obtain ⟨before, after, hsplit, _⟩ := List.lookup_eq_some_iff.mp h
  exact ⟨(uiVarId, d), hsplit ▸ List.mem_append_right _ List.mem_cons_self, rfl⟩

theorem Reserved.avoids_fields {slave : ModbusSlaveDrv} {img : IOImage} {c : IOAddr}
    (h : Reserved slave img c) (var : IOVar) : Avoids slave c (.updateFieldVar var) := by
  intro d hfind
  obtain ⟨it, hit, rfl⟩ := mem_of_lookup hfind
  exact h.fields it hit

/-- The loop over the field inputs as the list of its calls. -/
def inputs (img : IOImage) (field : FieldDrv) : List Publication :=
  img.mFieldIn.reduceOption.map (fun var => .updateFieldVar (field.readVar var))

theorem updateInputs_publishes (img : IOImage) (field : FieldDrv) (now : BitVec 64)
    (slave : ModbusSlaveDrv) :
    (img.updateInputs L field now slave).2 = (inputs img field).foldl (publish L) slave := by
  have hrest : ∀ (body : ModbusSlaveDrv → IOVar → IOVar) (vars : List (Option IOVar))
      (slave : ModbusSlaveDrv),
      (forEach (fun var slave => (body slave var, slave)) vars slave).2 = slave := by
    intro body vars slave
    exact forEach_kept (P := (· = slave)) (fun _ _ h => h) vars rfl
  simp only [IOImage.updateInputs, inputs, List.foldl_map]
  rw [hrest (fun _ => field.updateVar), hrest (fun slave var => (slave.read L var now).2),
    forEach_snd]
  rfl

/-- The output phase of a regulator that may have no alarms to publish. -/
def outputCalls (img : IOImage) : Option AlarmManager → List Publication
  | none => img.mSlaveOut.reduceOption.map .write ++ img.mFieldOut.reduceOption.map .updateFieldVar
  | some alMan => outputs img alMan

theorem updateOutputs_calls (img : IOImage) (alMan : Option AlarmManager)
    (slave : ModbusSlaveDrv) :
    (img.updateOutputs L alMan slave).2.1 = (outputCalls img alMan).foldl (publish L) slave := by
  cases alMan with
  | some alMan => exact updateOutputs_publishes L img alMan slave
  | none =>
    simp only [IOImage.updateOutputs, writeAlarms, outputCalls, forEach_snd, List.foldl_append,
      List.foldl_map, outputFields_slave]
    rfl

/-- What a phase keeps of the slave. -/
structure Keeps (L : FloatAbcd) (img : IOImage) (slave slave' : ModbusSlaveDrv) : Prop where
  forcing : SameForcing slave slave'
  roInts : slave'.muiNumROInts = slave.muiNumROInts
  ioVars : slave'.muiNumIOVars = slave.muiNumIOVars
  fieldVars : slave'.mFieldVars = slave.mFieldVars
  initialised : Initialised slave'
  cells : ∀ c, Reserved slave img c → cell L slave' c = cell L slave c

theorem calls_keep {img : IOImage} {slave : ModbusSlaveDrv} (hs : Initialised slave)
    {calls : List Publication}
    (avoid : ∀ c, Reserved slave img c → ∀ call ∈ calls, Avoids slave c call) :
    Keeps L img slave (calls.foldl (publish L) slave) := by
  obtain ⟨hsteady, hi, hcell⟩ := calls_kept (L := L) hs calls
  exact ⟨hsteady.toSameForcing, hsteady.roInts, hsteady.ioVars, hsteady.fieldVars, hi,
    fun c hc => hcell c hc.inField (avoid c hc)⟩

theorem outputCalls_avoid {img : IOImage} {slave : ModbusSlaveDrv} {c : IOAddr}
    (hc : Reserved slave img c) (alMan : Option AlarmManager) :
    ∀ call ∈ outputCalls img alMan, Avoids slave c call := by
  have hvalues : ∀ call ∈ img.mSlaveOut.reduceOption.map Publication.write ++
      img.mFieldOut.reduceOption.map .updateFieldVar, Avoids slave c call := by
    intro call hcall
    rcases List.mem_append.mp hcall with h | h
    · obtain ⟨var, hvar, rfl⟩ := List.mem_map.mp h
      exact hc.outputs var hvar
    · obtain ⟨var, _, rfl⟩ := List.mem_map.mp h
      exact hc.avoids_fields var
  intro call hcall
  cases alMan with
  | none => exact hvalues call hcall
  | some alMan =>
    rw [outputCalls, outputs, ← List.append_assoc] at hcall
    rcases List.mem_append.mp hcall with h | h
    · exact hvalues call h
    · obtain ⟨it, _, rfl⟩ := List.mem_map.mp h
      trivial

theorem phase_keeps {img : IOImage} {slave : ModbusSlaveDrv} (hs : Initialised slave)
    {l : RegulatorImage.Label} (proper : (Label.regulator l).Proper) :
    Keeps L img slave (RegulatorImage.step L ⟨img, slave⟩ l).slave := by
  cases l with
  | updateInputs field now =>
    rw [RegulatorImage.step, updateInputs_publishes]
    apply calls_keep hs
    intro c hc call hcall
    obtain ⟨var, _, rfl⟩ := List.mem_map.mp hcall
    exact hc.avoids_fields _
  | updateOutputs alMan =>
    rw [RegulatorImage.step, updateOutputs_calls]
    exact calls_keep hs (fun c hc => outputCalls_avoid hc alMan)
  | setCurrentVal uiID fCurrentVal => exact ⟨.refl slave, rfl, rfl, rfl, hs, fun _ _ => rfl⟩
  | setState tState =>
    exact ⟨⟨rfl, fun _ _ => rfl⟩, rfl, rfl, rfl,
      ⟨⟨hs.small, hs.bits, hs.inputBits, hs.registers, hs.inputRegisters⟩, proper⟩,
      fun _ _ => rfl⟩
  | request tables => exact proper.elim

/-- What stays of the variables that the slave driver serves. -/
def served (var : IOVar) : IOAddr × Bool := (var.mtAddr, var.mbForcedVal)

structure SameServed (img img' : IOImage) : Prop where
  slaveIn : img'.mSlaveIn.map (Option.map served) = img.mSlaveIn.map (Option.map served)
  slaveOut : img'.mSlaveOut.map (Option.map served) = img.mSlaveOut.map (Option.map served)

theorem served_read (s : ModbusSlaveDrv) (var : IOVar) (now : BitVec 64) :
    served (s.read L var now).2 = served var := by
  simp only [ModbusSlaveDrv.read]
  split <;> rfl

theorem modify_served (vars : List (Option IOVar)) (i : Nat) (fCurrentVal : Single) :
    (vars.modify i (Option.map (RegulatorImage.setCurrentVal fCurrentVal))).map
      (Option.map served) =
      vars.map (Option.map served) := by
  apply List.ext_getElem?
  intro k
  rw [List.getElem?_map, List.getElem?_map, List.getElem?_modify]
  cases vars[k]? with
  | none => rfl
  | some slot => cases slot <;> split <;> rfl

theorem phase_served (img : IOImage) (slave : ModbusSlaveDrv) (l : RegulatorImage.Label) :
    SameServed img (RegulatorImage.step L ⟨img, slave⟩ l).img := by
  cases l with
  | updateInputs field now => exact ⟨forEach_view (fun var s => served_read s var now) _ _, rfl⟩
  | updateOutputs alMan => exact ⟨rfl, congrArg _ (RegulatorLoop.forEach_same (fun _ _ => rfl) _ _)⟩
  | setCurrentVal uiID fCurrentVal =>
    simp only [RegulatorImage.step, modifyID]
    rcases placeOf uiID with ⟨region, index⟩
    cases region with
    | fieldIn => exact ⟨rfl, rfl⟩
    | fieldOut => exact ⟨rfl, rfl⟩
    | slaveIn => exact ⟨modify_served _ _ _, rfl⟩
    | slaveOut => exact ⟨rfl, modify_served _ _ _⟩
  | setState tState => exact ⟨rfl, rfl⟩
  | request tables => exact ⟨rfl, rfl⟩

/-- What a run keeps of the plant that it starts from; the commands hold what has
been written last. -/
structure Delivered (L : FloatAbcd) (p₀ p : Plant Q) : Prop where
  inv : Inv L p.link
  roInts : p.link.slave.muiNumROInts = p₀.link.slave.muiNumROInts
  ioVars : p.link.slave.muiNumIOVars = p₀.link.slave.muiNumIOVars
  fieldVars : p.link.slave.mFieldVars = p₀.link.slave.mFieldVars
  served : SameServed p₀.img p.img
  cells : ∀ c, Reserved p₀.link.slave p₀.img c →
    cell L p.link.slave c = (p.written c.uiChannel).getD (cell L p₀.link.slave c)

theorem SameServed.trans {img img' img'' : IOImage} (h : SameServed img img')
    (h' : SameServed img' img'') : SameServed img img'' :=
  ⟨h'.slaveIn.trans h.slaveIn, h'.slaveOut.trans h.slaveOut⟩

theorem SameServed.output {img img' : IOImage} (h : SameServed img img') {var : IOVar}
    (hvar : var ∈ img'.mSlaveOut.reduceOption) :
    ∃ var₀ ∈ img.mSlaveOut.reduceOption, var₀.mtAddr = var.mtAddr := by
  have hmem := List.mem_map_of_mem (f := Option.map CommandDelivery.served)
    (List.reduceOption_mem_iff.mp hvar)
  rw [h.slaveOut] at hmem
  obtain ⟨slot, hslot, heq⟩ := List.mem_map.mp hmem
  obtain ⟨var₀, rfl, hserved⟩ := Option.map_eq_some_iff.mp heq
  exact ⟨var₀, List.reduceOption_mem_iff.mpr hslot, congrArg Prod.fst hserved⟩

variable {p₀ p : Plant Q}

theorem Delivered.reserved (h : Delivered L p₀ p) {c : IOAddr}
    (hc : Reserved p₀.link.slave p₀.img c) : Reserved p.link.slave p.img c where
  inField := by
    rw [InField, h.roInts, h.ioVars]
    exact hc.inField
  fields := by
    rw [h.fieldVars]
    exact hc.fields
  outputs := by
    intro var hvar
    obtain ⟨var₀, hvar₀, heq⟩ := h.served.output hvar
    rw [← heq]
    exact hc.outputs var₀ hvar₀

theorem record_getD (written : BitVec 8 → Option Single) (wr : WriteReq) (uiChannel : BitVec 8)
    (v : Single) : (record written (some wr) uiChannel).getD v =
      if wr.mtAddr.uiChannel = uiChannel then wr.mfWriteVal else (written uiChannel).getD v := by
  rw [record]
  by_cases hch : wr.mtAddr.uiChannel = uiChannel
  · rw [if_pos hch, ← hch, Function.update_self, Option.getD_some]
  · rw [if_neg hch, Function.update_of_ne (Ne.symm hch)]

theorem delivered_link (h : Delivered L p₀ p) (l : ForceTransfer.Label)
    (hscan : ∀ var, l ≠ .scan var) : Delivered L p₀ (step L p (.link l)) := by
  have hinv := step_inv p.link l h.inv
  rcases link_slave (L := L) (s := p.link) l hscan with
    ⟨hslave, hnone⟩ | ⟨j, hjob, hslave, hwritten⟩
  · refine ⟨hinv, ?_, ?_, ?_, h.served, ?_⟩
    all_goals simp only [step, hslave, hnone, record]
    · exact h.roInts
    · exact h.ioVars
    · exact h.fieldVars
    · exact h.cells
  · obtain ⟨_, hok⟩ := h.inv.job j hjob
    obtain ⟨_, hro, hio⟩ := perform_frame h.inv.toTablesOk hok
    refine ⟨hinv, ?_, ?_, ?_, h.served, ?_⟩
    all_goals simp only [step, hslave]
    · exact hro.trans h.roInts
    · exact hio.trans h.ioVars
    · exact (perform_fieldVars h.inv.toTablesOk hok).trans h.fieldVars
    · intro c hc
      rw [cell_perform h.inv.toTablesOk hok (h.reserved hc).inField, hwritten, h.cells c hc]
      by_cases hplain : j.writeReq.mbForce = false
      · rw [if_pos hplain, record_getD]
        simp only [hplain, true_and]
      · rw [if_neg hplain, if_neg (fun hown => hplain hown.1)]
        rfl

theorem delivered_regulator (h : Delivered L p₀ p) {l : RegulatorImage.Label}
    (proper : (Label.regulator l).Proper) : Delivered L p₀ (step L p (.regulator l)) := by
  have hkeeps : Keeps L p.img p.link.slave _ := phase_keeps h.inv.initialised proper
  refine ⟨slave_inv h.inv hkeeps.forcing hkeeps.roInts hkeeps.ioVars hkeeps.initialised,
    hkeeps.roInts.trans h.roInts, hkeeps.ioVars.trans h.ioVars,
    hkeeps.fieldVars.trans h.fieldVars, h.served.trans (phase_served p.img p.link.slave l), ?_⟩
  intro c hc
  exact (hkeeps.cells c (h.reserved hc)).trans (h.cells c hc)

theorem delivered_step (h : Delivered L p₀ p) {l : Label} (proper : l.Proper) :
    Delivered L p₀ (step L p l) := by
  cases l with
  | link l =>
    apply delivered_link h l
    rintro var rfl
    exact proper.elim
  | regulator l => exact delivered_regulator h proper

theorem delivered_run (hinitial : p₀.link.Initial) (hwritten : ∀ c, p₀.written c = none)
    {ls : List Label} (proper : ∀ l ∈ ls, l.Proper) : Delivered L p₀ (run (step L) p₀ ls) := by
  apply run_invariant (C := fun _ l => l.Proper) (P := Delivered L p₀)
    (fun p l h hl => delivered_step h hl) ?_ (along_of_forall p₀ proper)
  refine ⟨hinitial.inv, rfl, rfl, rfl, ⟨rfl, rfl⟩, ?_⟩
  intro c _
  rw [hwritten, Option.getD_none]

theorem slaveIn_read (img : IOImage) (field : FieldDrv) (now : BitVec 64)
    (slave : ModbusSlaveDrv) : (img.updateInputs L field now slave).1.mSlaveIn =
      img.mSlaveIn.map (Option.map fun var =>
        (((inputs img field).foldl (publish L) slave).read L var now).2) := by
  have hmap : ∀ (vars : List (Option IOVar)) (slave : ModbusSlaveDrv),
      (forEach (fun var slave => ((slave.read L var now).2, slave)) vars slave).1 =
        vars.map (Option.map fun var => (slave.read L var now).2) := by
    intro vars slave
    induction vars with
    | nil => rfl
    | cons slot vars ih =>
      cases slot with
      | none => exact congrArg (none :: ·) ih
      | some var => exact congrArg (_ :: ·) ih
  simp only [IOImage.updateInputs, inputs, List.foldl_map]
  rw [hmap, forEach_snd]
  rfl

theorem read_command {slave : ModbusSlaveDrv} (hs : Initialised slave) {var : IOVar}
    (hc : InField slave var.mtAddr) (unforced : var.mbForcedVal = false) (now : BitVec 64) :
    RegulatorImage.getCurrentVal (slave.read L var now).2 = cell L slave var.mtAddr := by
  rw [read_accepted L slave var now (slaveAccepts hs hc)]
  simp only [RegulatorImage.getCurrentVal, unforced, Bool.false_eq_true, if_false]
  rfl

/-- Where a run meets the variable of a command, a phase of input reads its cell. -/
theorem input_of_delivered (h : Delivered L p₀ p) {uiID : BitVec 32} {var : IOVar}
    (hregion : (placeOf uiID).region = .slaveIn) (hvar : p₀.img.atID uiID = some var)
    (unforced : var.mbForcedVal = false) (hc : Reserved p₀.link.slave p₀.img var.mtAddr)
    (field : FieldDrv) (now : BitVec 64) :
    SetPoints.value (p.img.updateInputs L field now p.link.slave).1 uiID =
      (p.written var.mtAddr.uiChannel).getD (cell L p₀.link.slave var.mtAddr) := by
  have hin : ∀ img : IOImage, img.atID uiID = (img.mSlaveIn[(placeOf uiID).index]?).join := by
    intro img
    rw [atID, IOImage.var, hregion]
    rfl
  -- the variable is still there
  have hsame := congrArg (fun vars : List (Option (IOAddr × Bool)) =>
    (vars[(placeOf uiID).index]?).join) h.served.slaveIn
  rw [hin] at hvar
  simp only [List.getElem?_map] at hsame
  obtain ⟨var', hvar', hserved⟩ : ∃ var', (p.img.mSlaveIn[(placeOf uiID).index]?).join = some var' ∧
      served var' = served var := by
    cases hslot₀ : p₀.img.mSlaveIn[(placeOf uiID).index]? with
    | none =>
      rw [hslot₀] at hvar
      cases hvar
    | some slot₀ =>
      rw [hslot₀, Option.join_some] at hvar
      subst hvar
      rw [hslot₀] at hsame
      cases hslot : p.img.mSlaveIn[(placeOf uiID).index]? with
      | none =>
        rw [hslot] at hsame
        cases hsame
      | some slot =>
        rw [hslot] at hsame
        obtain ⟨var', rfl, heq⟩ := Option.map_eq_some_iff.mp hsame
        exact ⟨var', rfl, heq⟩
  obtain ⟨haddr, hforced⟩ := Prod.mk.inj hserved
  have hkeeps : Keeps L p.img p.link.slave _ :=
    phase_keeps (l := .updateInputs field now) h.inv.initialised trivial
  rw [RegulatorImage.step, updateInputs_publishes] at hkeeps
  have hreserved := h.reserved hc
  have hfield : InField ((inputs p.img field).foldl (publish L) p.link.slave) var'.mtAddr := by
    rw [InField, hkeeps.roInts, hkeeps.ioVars, haddr]
    exact hreserved.inField
  have hread : (p.img.updateInputs L field now p.link.slave).1.atID uiID =
      some (((inputs p.img field).foldl (publish L) p.link.slave).read L var' now).2 := by
    rw [hin, slaveIn_read, List.getElem?_map]
    cases hslot : p.img.mSlaveIn[(placeOf uiID).index]? with
    | none =>
      rw [hslot] at hvar'
      cases hvar'
    | some slot =>
      rw [hslot, Option.join_some] at hvar'
      subst hvar'
      rfl
  rw [SetPoints.value, hread, Option.map_some, Option.getD_some,
    read_command hkeeps.initialised hfield (hforced.trans unforced), haddr,
    hkeeps.cells _ hreserved, h.cells _ hc]

end Phases

/-- The plant when the loop of the regulator starts with what `init` has left. -/
def start (master : ModbusMasterDrv Q) (r : IOImage × ModbusSlaveDrv) : Plant Q where
  link := ⟨master, none, r.2, [], fun _ => none⟩
  img := r.1
  written _ := none

/-- The entries of the commands among those that `init` creates. -/
def commands : List (BitVec 32 × BitVec 8 × Single) :=
  created.filter (fun c => (placeOf c.1).region = .slaveIn)

/-- No request and no coil yet, both programs with the same counts, and the
channels of the commands kept free of field variables. -/
structure Ready [PriorityQueue Q WriteReq WriteReq.Less] (master : ModbusMasterDrv Q)
    (slave : ModbusSlaveDrv) : Prop where
  initialised : Initialised slave
  roInts : master.muiNumROInts = slave.muiNumROInts
  ioVars : master.muiNumIOVars = slave.muiNumIOVars
  pending : PriorityQueue.elems master.mPendingWrites = 0
  coils : ∀ p, slave.mpMBmapping.tabBits p = false
  mapped : ∀ c ∈ commands, InField slave { uiChannel := c.2.1 }
  free : ∀ c ∈ commands, ∀ it ∈ slave.mFieldVars, it.2.uiChannel ≠ c.2.1

section Init
variable (memory : BitVec 32 → IOVar) {slave : ModbusSlaveDrv}

theorem channels_distinct : (created.map (fun c => c.2.1)).Nodup := by
  simp only [created, List.map_cons, List.map_nil]
  decide +kernel

theorem init_publishes (cs : List (BitVec 32 × BitVec 8 × Single)) (r : IOImage × ModbusSlaveDrv) :
    (cs.foldl (create L memory) r).2 =
      (cs.map (fun c => Publication.write (RegulatorLoop.newVar memory c))).foldl
        (publish L) r.2 := by
  induction cs generalizing r with
  | nil => rfl
  | cons c cs ih => exact ih _

/-- The last call on a channel is the one that is read. -/
theorem cell_written {s : ModbusSlaveDrv} (hs : Initialised s) (before after : List Publication)
    {var : IOVar} (hc : InField s var.mtAddr)
    (avoid : ∀ call ∈ after, Avoids s var.mtAddr call) :
    cell L ((before ++ .write var :: after).foldl (publish L) s) var.mtAddr = var.mfTrueVal := by
  rw [List.foldl_append, List.foldl_cons]
  obtain ⟨hbefore, hs', _⟩ := calls_kept (L := L) hs before
  generalize before.foldl (publish L) s = s' at hbefore hs' ⊢
  have hc' := (inField_iff hbefore _).mpr hc
  have hwrite := publish_steady (L := L) s' (.write var)
  have hsteady := hbefore.trans hwrite
  obtain ⟨_, _, hkept⟩ := calls_kept (publish_initialised (L := L) hs' (.write var)) after
  rw [hkept var.mtAddr ((inField_iff hsteady _).mpr hc)
    (fun call hcall => (avoids_congr hsteady call).mpr (avoid call hcall))]
  rw [publish, write_accepted L s' var (slaveAccepts hs' hc')]
  exact getCurrentVal_setCurrentVal L s' _ _

theorem init_keeps (hs : Initialised slave) : Steady slave (construct.init L memory slave).2 ∧
    Initialised (construct.init L memory slave).2 := by
  rw [IOImage.init, init_publishes]
  obtain ⟨hsteady, hi, _⟩ := calls_kept (L := L) hs
    (created.map (fun c => Publication.write (RegulatorLoop.newVar memory c)))
  exact ⟨hsteady, hi⟩

theorem cell_init (hs : Initialised slave) {c : BitVec 32 × BitVec 8 × Single} (h : c ∈ created)
    (hc : InField slave { uiChannel := c.2.1 }) :
    cell L (construct.init L memory slave).2 { uiChannel := c.2.1 } = c.2.2 := by
  obtain ⟨before, after, hsplit⟩ := List.append_of_mem h
  have hdistinct := channels_distinct
  rw [hsplit, List.map_append, List.map_cons] at hdistinct
  have hafter := (List.nodup_cons.mp hdistinct.of_append_right).1
  rw [IOImage.init, init_publishes, hsplit, List.map_append, List.map_cons]
  apply cell_written L hs _ _ hc
  intro call hcall
  obtain ⟨c', hc', rfl⟩ := List.mem_map.mp hcall
  intro (heq : c'.2.1 = c.2.1)
  exact hafter (heq ▸ List.mem_map_of_mem hc')

theorem length_created (cs : List (BitVec 32 × BitVec 8 × Single)) (r : IOImage × ModbusSlaveDrv)
    (region : Region) :
    ((cs.foldl (create L memory) r).1.vars region).length = (r.1.vars region).length := by
  induction cs generalizing r with
  | nil => rfl
  | cons c cs ih =>
    rw [List.foldl_cons, ih]
    exact length_store _ region

theorem slaveOut_init {var : IOVar}
    (h : var ∈ (construct.init L memory slave).1.mSlaveOut.reduceOption) :
    ∃ c ∈ created, (placeOf c.1).region = .slaveOut ∧ var.mtAddr.uiChannel = c.2.1 := by
  obtain ⟨i, hi⟩ := List.mem_iff_getElem?.mp (List.reduceOption_mem_iff.mp h)
  have hlt : i < 4 := by
    have hbound := (List.getElem?_eq_some_iff.mp hi).1
    have hlength := length_created L memory created
      ({ construct with
        mFieldIn := List.replicate FLD_IN_VARS none
        mSlaveIn := List.replicate SLV_IN_VARS none
        mSlaveOut := List.replicate SLV_OUT_VARS none
        mFieldOut := List.replicate FLD_OUT_VARS none }, slave) .slaveOut
    exact hbound.trans_eq hlength
  have hcreated : ∀ c ∈ created, placeOf c.1 = ⟨.slaveOut, i⟩ →
      ∃ c ∈ created, (placeOf c.1).region = .slaveOut ∧ var.mtAddr.uiChannel = c.2.1 := by
    intro c hc hplace
    have hvar := RegulatorLoop.atID_init L memory slave hc
    rw [atID, hplace, IOImage.var, IOImage.vars, hi] at hvar
    obtain rfl := Option.some.inj hvar
    exact ⟨c, hc, congrArg Place.region hplace, rfl⟩
  interval_cases i
  · exact hcreated (3000000000, 148, 0) (by simp [created]) (by decide)
  · exact hcreated (3000000001, 149, 0) (by simp [created]) (by decide)
  · exact hcreated (3000000002, 150, 0) (by simp [created]) (by decide)
  · exact hcreated (3000000003, 151, 0) (by simp [created]) (by decide)

variable [PriorityQueue Q WriteReq WriteReq.Less] {master : ModbusMasterDrv Q}

theorem start_initial (ready : Ready master slave) :
    (start master (construct.init L memory slave)).link.Initial := by
  obtain ⟨hsteady, hi⟩ := init_keeps L memory ready.initialised
  generalize construct.init L memory slave = r at hsteady hi ⊢
  refine ⟨hi, ready.roInts.trans hsteady.roInts.symm, ready.ioVars.trans hsteady.ioVars.symm,
    ready.pending, rfl, fun p => ?_, rfl⟩
  exact (congrFun hsteady.coils p).trans (ready.coils p)

theorem start_reserved (ready : Ready master slave) {c : BitVec 32 × BitVec 8 × Single}
    (hc : c ∈ commands) : Reserved (construct.init L memory slave).2
      (construct.init L memory slave).1 { uiChannel := c.2.1 } := by
  obtain ⟨hsteady, _⟩ := init_keeps L memory ready.initialised
  obtain ⟨hcreated, hregion⟩ := List.mem_filter.mp hc
  refine ⟨(inField_iff hsteady _).mpr (ready.mapped c hc), ?_, ?_⟩
  · intro it hit
    exact ready.free c hc it (hsteady.fieldVars ▸ hit)
  · intro var hvar heq
    obtain ⟨c', hc', hregion', hch⟩ := slaveOut_init L memory hvar
    have hsame := List.inj_on_of_nodup_map channels_distinct hcreated hc' (heq.symm.trans hch)
    rw [← hsame, of_decide_eq_true hregion] at hregion'
    cases hregion'

end Init

section Delivery
variable [PriorityQueue Q WriteReq WriteReq.Less]

/-- The plant after a run of the started regulator and its master. -/
def plantAfter (memory : BitVec 32 → IOVar) (master : ModbusMasterDrv Q) (slave : ModbusSlaveDrv)
    (ls : List Label) : Plant Q :=
  run (step L) (start master (construct.init L memory slave)) ls

/-- In every run of a master and a regulator that fit a phase of input gives the
control, for each command, the value of the last performed write, or what `init`
has set; a transfer that succeeds makes its value the last one. -/
theorem commands_delivered (memory : BitVec 32 → IOVar) {master : ModbusMasterDrv Q}
    {slave : ModbusSlaveDrv} (ready : Ready master slave) {ls : List Label}
    (proper : ∀ l ∈ ls, l.Proper) :
    (∀ c ∈ commands, ∀ field now,
      SetPoints.value ((plantAfter L memory master slave ls).img.updateInputs L field now
        (plantAfter L memory master slave ls).link.slave).1 c.1 =
          ((plantAfter L memory master slave ls).written c.2.1).getD c.2.2) ∧
      ∀ j answer strerror, (plantAfter L memory master slave ls).link.job = some j →
        j.writeReq.mbForce = false → answer.succeeded = true →
        (step L (plantAfter L memory master slave ls) (.link (.transfer answer strerror))).written
          j.writeReq.mtAddr.uiChannel = some j.writeReq.mfWriteVal := by
  constructor
  · intro c hc field now
    obtain ⟨hcreated, hregion⟩ := List.mem_filter.mp hc
    have hvar := RegulatorLoop.atID_init L memory slave hcreated
    have hreserved := start_reserved L memory ready hc
    have hcell := cell_init L memory ready.initialised hcreated (ready.mapped c hc)
    have hinitial := start_initial L memory ready
    simp only [plantAfter]
    generalize construct.init L memory slave = r at hvar hreserved hcell hinitial ⊢
    have hrun := delivered_run (L := L) hinitial (fun _ => rfl) proper
    have hvalue := input_of_delivered hrun (of_decide_eq_true hregion) hvar rfl hreserved field now
    exact hvalue.trans (congrArg _ hcell)
  · intro j answer strerror hjob hplain hok
    have hperformed := Transfer.performed_of_succeeded hok
    simp only [step, performedWrite, hjob, hperformed, hplain, Bool.not_false, Bool.and_self,
      if_true, record, Function.update_self]

end Delivery

theorem commands_eq : commands =
    [(2000000000, 39, 0), (2000000003, 42, ScanLoop.one), (2000000004, 43, 0), (2000000008, 47, 0),
      (2000000009, 48, 0), (2000000010, 49, 0), (2000000012, 68, 0), (2000000013, 69, 0)] := by
  rfl

/-- A running master with the shipped counts. -/
def shippedMaster : ModbusMasterDrv (WriteReq.Queue true) :=
  { ModbusMasterDrv.fresh true with
    muiNumIOVars := 146, muiNumROInts := 5, mtDrvState := .running, bConnected := true }

/-- The loop of `initMapping` clears coils that are clear already. -/
theorem setForced_clear (vars : List (BitVec 32 × IOAddr)) {s : ModbusSlaveDrv}
    (h : ∀ p, s.mpMBmapping.tabBits p = false) (p : Nat) :
    (vars.foldl (fun s var => s.setForced var.2.uiChannel false) s).mpMBmapping.tabBits p =
      false := by
  induction vars generalizing s with
  | nil => exact h p
  | cons var vars ih =>
    apply ih
    intro p'
    simp only [setForced, store_one]
    split
    · rfl
    · exact h p'

theorem shipped_ready : Ready shippedMaster shippedSlave where
  initialised := by
    have haccepted : (TableBounds.unInitSlave.init (.ok (some TableBounds.shippedXml)) true true
        "").1 = true := by decide
    exact init_initialised (Prod.ext haccepted rfl) (by decide)
  roInts := by decide
  ioVars := by decide
  pending := rfl
  coils p := setForced_clear _ (fun _ => rfl) p
  mapped := by
    have hro : shippedSlave.muiNumROInts = 5 := by decide
    have hio : shippedSlave.muiNumIOVars = 146 := by decide
    simp only [commands_eq, List.forall_mem_cons, List.not_mem_nil, false_imp_iff, implies_true,
      InField, hro, hio]
    decide
  free := by
    have hvars : shippedSlave.mFieldVars.map (fun it => it.2.uiChannel) =
        [139, 140, 141, 135, 129, 128, 127, 126, 125, 124] := by decide
    have hfree : ∀ c ∈ commands,
        c.2.1 ∉ shippedSlave.mFieldVars.map (fun it => it.2.uiChannel) := by
      rw [hvars]
      simp only [commands_eq, List.forall_mem_cons, List.not_mem_nil, false_imp_iff, implies_true]
      decide
    intro c hc it hit heq
    apply hfree c hc
    rw [← heq]
    exact List.mem_map_of_mem hit

/-- The button is written while the regulator is in the middle of a scan. -/
def pressStart : List Label :=
  [.link (.write ScanLoop.one { uiChannel := 39 } 1000 0), .regulator (.updateOutputs none),
    .link (.beginWrite 0), .regulator (.setCurrentVal 1000000019 0x42700000#32),
    .link (.transfer .done "")]

theorem start_pressed :
    SetPoints.value ((plantAfter floatAbcd (fun id => TableBounds.varAt id {}) shippedMaster
      shippedSlave pressStart).img.updateInputs floatAbcd ⟨fun _ => none, fun _ => none⟩ 7
      (plantAfter floatAbcd (fun id => TableBounds.varAt id {}) shippedMaster shippedSlave
        pressStart).link.slave).1 2000000000 = ScanLoop.one := by
  have hproper : ∀ l ∈ pressStart, l.Proper := by
    simp only [pressStart, List.forall_mem_cons, Label.Proper, List.not_mem_nil, false_imp_iff,
      implies_true, and_self]
  have hwritten : (plantAfter floatAbcd (fun id => TableBounds.varAt id {}) shippedMaster
      shippedSlave pressStart).written 39 = some ScanLoop.one := by
    rfl
  have hvalue := (commands_delivered floatAbcd (fun id => TableBounds.varAt id {}) shipped_ready
    hproper).1 (2000000000, 39, 0) (commands_eq ▸ List.mem_cons_self)
    ⟨fun _ => none, fun _ => none⟩ 7
  rw [hwritten] at hvalue
  exact hvalue

end CommandDelivery
