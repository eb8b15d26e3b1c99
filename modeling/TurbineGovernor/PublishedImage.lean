import TurbineGovernor.Loops
import TurbineGovernor.ForceOverride
import TurbineGovernor.RegisterMap

/-!
# The published image

In its output phase the regulator publishes the outputs of the slave, those of
the field and the words of the alarms, each through its own call of the slave
driver. With a channel for each of them every poll that follows finds the whole
image.
-/

namespace PublishedImage
open CommonTypes SlaveDriver SlaveDriver.ModbusSlaveDrv MasterDriver RegisterMap DisjointUpdates
open RegulatorImage hiding Label step
open RegulatorImage.IOImage ForceOverride
open RegulatorAlarms (AlarmManager)

variable (L : FloatAbcd)

/-- A call that publishes something. -/
inductive Publication where
  | write (var : IOVar)
  | updateFieldVar (var : IOVar)
  | writeRO (it : BitVec 8 × BitVec 32)

def publish (s : ModbusSlaveDrv) : Publication → ModbusSlaveDrv
  | .write var => (s.write L var).2
  | .updateFieldVar var => (s.updateFieldVar L var).2.2
  | .writeRO it => (s.writeRO it.2 { uiChannel := it.1 }).2

/-- The output phase as the list of its calls. -/
def outputs (img : IOImage) (alMan : AlarmManager) : List Publication :=
  img.mSlaveOut.reduceOption.map .write ++
    (img.mFieldOut.reduceOption.map .updateFieldVar ++
      (ScanLoop.updateOutputs .regulator alMan).map .writeRO)

theorem forEach_snd {S : Type} {body : IOVar → S → IOVar × S} (vars : List (Option IOVar)) (s : S) :
    (forEach body vars s).2 = vars.reduceOption.foldl (fun s var => (body var s).2) s := by
  induction vars generalizing s with
  | nil => rfl
  | cons slot vars ih =>
    cases slot with
    | none => exact ih s
    | some var => exact ih (body var s).2

/-- The log of the calls of the field driver does not act on the slave. -/
theorem outputFields_slave (vars : List IOVar) (r : ModbusSlaveDrv × List FieldWrite) :
    (vars.foldl (fun r var => (outputField L var r).2) r).1 =
      vars.foldl (fun s var => (s.updateFieldVar L var).2.2) r.1 := by
  induction vars generalizing r with
  | nil => rfl
  | cons var vars ih => exact ih _

theorem updateOutputs_publishes (img : IOImage) (alMan : AlarmManager) (slave : ModbusSlaveDrv) :
    (img.updateOutputs L (some alMan) slave).2.1 =
      (outputs img alMan).foldl (publish L) slave := by
  simp only [IOImage.updateOutputs, writeAlarms, outputs, forEach_snd, List.foldl_append,
    List.foldl_map, outputFields_slave]
  rfl

section Wiring
variable (s₀ : ModbusSlaveDrv)

/-- The channel that a call writes to. -/
def channelOf : Publication → BitVec 8
  | .write var => var.mtAddr.uiChannel
  | .updateFieldVar var => ((s₀.mFieldVars.lookup var.muiVarId).getD {}).uiChannel
  | .writeRO it => it.1

/-- The map has the channel. -/
def Mapped : Publication → Prop
  | .write var => InField s₀ var.mtAddr
  | .updateFieldVar var => ∃ c, s₀.mFieldVars.lookup var.muiVarId = some c ∧ InField s₀ c
  | .writeRO it => InRO s₀ { uiChannel := it.1 }

/-- The slave and what it publishes fit: each call has a channel of its own. -/
structure Wired (calls : List Publication) : Prop where
  initialised : Initialised s₀
  mapped : ∀ call ∈ calls, Mapped s₀ call
  distinct : (calls.map (channelOf s₀)).Nodup

/-- The masters see the same on a channel. -/
def SameChannel (uiChannel : BitVec 8) (s s' : ModbusSlaveDrv) : Prop :=
  ∀ d : IOAddr, d.uiChannel = uiChannel →
    (InField s₀ d → ∀ r, PollsField L s' d r ↔ PollsField L s d r) ∧
      (InField s₀ d ∨ InRO s₀ d → ∀ r, PollsModbus L s' d r ↔ PollsModbus L s d r)

variable {L s₀} {s : ModbusSlaveDrv}

theorem inField_iff (steady : Steady s₀ s) (d : IOAddr) : InField s d ↔ InField s₀ d := by
  rw [InField, InField, steady.roInts, steady.ioVars]

theorem inRO_iff (steady : Steady s₀ s) (d : IOAddr) : InRO s d ↔ InRO s₀ d := by
  rw [InRO, InRO, steady.roInts]

theorem sameChannel_of_polls (steady : Steady s₀ s) {s' : ModbusSlaveDrv} {uiChannel : BitVec 8}
    (same : ∀ d : IOAddr, d.uiChannel = uiChannel → SamePolls L s s' d) :
    SameChannel L s₀ uiChannel s s' := by
  intro d hd
  obtain ⟨hfield, hmodbus⟩ := same d hd
  rw [inField_iff steady, inRO_iff steady] at hmodbus
  rw [inField_iff steady] at hfield
  exact ⟨hfield, hmodbus⟩

/-- The calls keep to their channels. -/
theorem publish_local : Local (channelOf s₀) (publish L) (fun s => Initialised s ∧ Steady s₀ s)
    (Mapped s₀) (SameChannel L s₀) where
  keeps s call mapped := by
    rintro ⟨hs, steady⟩
    cases call with
    | write var =>
      obtain ⟨s', hwrite, hs', _⟩ :=
        write_transports (L := L) hs ((inField_iff steady _).mpr mapped)
      have hsteady := steady.trans (steady_write L s var)
      rw [publish]
      rw [hwrite] at hsteady ⊢
      exact ⟨hs', hsteady⟩
    | updateFieldVar var =>
      obtain ⟨c, hfind, hc⟩ := mapped
      obtain ⟨var', s', hupdate, hs', _⟩ := updateFieldVar_transports (L := L) hs
        ((inField_iff steady c).mpr hc) (steady.fieldVars ▸ hfind)
      have hsteady := steady.trans (steady_updateFieldVar L s var)
      rw [publish]
      rw [hupdate] at hsteady ⊢
      exact ⟨hs', hsteady⟩
    | writeRO it =>
      obtain ⟨s', hwrite, hs', _⟩ := writeRO_transports (L := L) hs
        ((inRO_iff steady _).mpr mapped) it.2
      have hsteady := steady.trans (steady_writeRO s it.2 { uiChannel := it.1 })
      rw [publish]
      rw [hwrite] at hsteady ⊢
      exact ⟨hs', hsteady⟩
  other s call k mapped := by
    rintro ⟨hs, steady⟩ hne
    apply sameChannel_of_polls steady
    intro d hd
    cases call with
    | write var =>
      obtain ⟨s', hwrite, _, _, hother⟩ := write_transports (L := L) hs
        ((inField_iff steady _).mpr mapped)
      rw [publish, hwrite]
      exact hother d (fun heq => hne (heq.symm.trans hd))
    | updateFieldVar var =>
      obtain ⟨c, hfind, hc⟩ := mapped
      obtain ⟨var', s', hupdate, _, _, hother⟩ := updateFieldVar_transports (L := L) hs
        ((inField_iff steady c).mpr hc) (steady.fieldVars ▸ hfind)
      rw [publish, hupdate]
      simp only [channelOf, hfind, Option.getD_some] at hne
      exact hother d (fun heq => hne (heq.symm.trans hd))
    | writeRO it =>
      obtain ⟨s', hwrite, _, _, hother⟩ := writeRO_transports (L := L) hs
        ((inRO_iff steady _).mpr mapped) it.2
      rw [publish, hwrite]
      exact hother d (fun heq => hne (heq.symm.trans hd))
  refl k s d _ := ⟨fun _ _ => Iff.rfl, fun _ _ => Iff.rfl⟩
  trans k s s' s'' h h' d hd :=
    ⟨fun hfield r => ((h' d hd).1 hfield r).trans ((h d hd).1 hfield r),
      fun hmodbus r => ((h' d hd).2 hmodbus r).trans ((h d hd).2 hmodbus r)⟩

end Wiring

/-- The reading of a field variable whose cells of the masters are those of `s₀`. -/
def published (s₀ : ModbusSlaveDrv) (c : IOAddr) (var : IOVar) : FieldReading where
  fTrueVal := var.mfTrueVal
  fForcedVal := s₀.getForcedVal L (s₀.numVar c)
  iTimeS := var.miTimeS
  tqstate := if s₀.getForced (s₀.numVar c) then .ok else var.mtQState
  bForced := s₀.getForced (s₀.numVar c)

/-- What a call makes the masters see on its channel. -/
def Shows (s₀ s : ModbusSlaveDrv) : Publication → Prop
  | .write var => PollsModbus L s var.mtAddr (.current var.mfTrueVal)
  | .updateFieldVar var => ∀ c, s₀.mFieldVars.lookup var.muiVarId = some c →
      PollsField L s c (published L s₀ c var)
  | .writeRO it => PollsModbus L s { uiChannel := it.1 } (.roInt it.2)

section Shows
variable {L} {s₀ s : ModbusSlaveDrv}

theorem numVar_congr (steady : Steady s₀ s) (c : IOAddr) : s.numVar c = s₀.numVar c := by
  rw [ModbusSlaveDrv.numVar, ModbusSlaveDrv.numVar, steady.roInts]

theorem forced_congr (steady : Steady s₀ s) (uiNumVar : BitVec 8) :
    s.getForced uiNumVar = s₀.getForced uiNumVar ∧
      s.getForcedVal L uiNumVar = s₀.getForcedVal L uiNumVar := by
  obtain ⟨hbase, hsmall⟩ := valAddr_hr uiNumVar
  have htwo : (valAddr SlaveDriver.HROFFSET uiNumVar + 2).toNat =
      (valAddr SlaveDriver.HROFFSET uiNumVar).toNat + 2 := by
    rw [BitVec.toNat_add]
    simp only [BitVec.ofNat_eq_ofNat, BitVec.toNat_ofNat]
    omega
  have hfirst := steady.values (valAddr SlaveDriver.HROFFSET uiNumVar + 2).toNat (by omega)
  have hsecond := steady.values ((valAddr SlaveDriver.HROFFSET uiNumVar + 2).toNat + 1) (by omega)
  exact ⟨congrFun steady.coils _, congrArg₂ L.getFloatAbcd hfirst hsecond⟩

/-- The value of a channel is the same polled as either kind of variable. -/
theorem modbusReading_field {c : IOAddr} (hc : InField s c) :
    modbusReading L s c = .current (fieldReading L s c).fTrueVal := by
  simp only [modbusReading, fieldReading, isROInt_of_field hc, Bool.false_eq_true, if_false]

theorem shows_publish (hs : Initialised s) (steady : Steady s₀ s) {call : Publication}
    (mapped : Mapped s₀ call) : Shows L s₀ (publish L s call) call := by
  cases call with
  | write var =>
    have hc := (inField_iff steady _).mpr mapped
    obtain ⟨s', hwrite, hs', hpolls, _⟩ := write_transports (L := L) hs hc
    have hsteady := steady.trans (steady_write L s var)
    have hread := hpolls _ ((pollsField_iff hs hc _).mpr rfl)
    rw [Shows, publish]
    rw [hwrite] at hsteady ⊢
    have hc' := (inField_iff hsteady _).mpr mapped
    rw [pollsField_iff hs' hc'] at hread
    rw [pollsModbus_iff hs' (Or.inl hc'), modbusReading_field hc', ← hread]
  | updateFieldVar var =>
    obtain ⟨c, hfind, hc⟩ := mapped
    intro c' hfind'
    obtain rfl := Option.some.inj (hfind.symm.trans hfind')
    obtain ⟨var', s', hupdate, hs', hpoll, _⟩ := updateFieldVar_transports (L := L) hs
      ((inField_iff steady c).mpr hc) (steady.fieldVars ▸ hfind)
    obtain ⟨hforced, hforcedVal⟩ := forced_congr (L := L) steady (s₀.numVar c)
    rw [numVar_congr steady, hforced, hforcedVal] at hpoll
    have hvar : var' = { var with
        mfForcedVal := s₀.getForcedVal L (s₀.numVar c)
        mbForcedVal := s₀.getForced (s₀.numVar c) } := by
      have heq := updateFieldVar_eq (L := L) hs ((inField_iff steady c).mpr hc)
        (steady.fieldVars ▸ hfind)
      rw [numVar_congr steady, hforced, hforcedVal, hupdate] at heq
      exact (Prod.mk.inj (Prod.mk.inj heq).2).1
    rw [publish, hupdate]
    have hstate : var'.getQState = (published L s₀ c var).tqstate := by
      rw [hvar]
      rfl
    rw [hstate] at hpoll
    exact hpoll
  | writeRO it =>
    obtain ⟨s', hwrite, _, hpoll, _⟩ := writeRO_transports (L := L) hs
      ((inRO_iff steady _).mpr mapped) it.2
    rw [Shows, publish, hwrite]
    exact hpoll

/-- What is seen on its channel is all that a call shows. -/
theorem Shows.same {s' : ModbusSlaveDrv} {call : Publication} (mapped : Mapped s₀ call)
    (same : SameChannel L s₀ (channelOf s₀ call) s s') (h : Shows L s₀ s call) :
    Shows L s₀ s' call := by
  cases call with
  | write var => exact ((same var.mtAddr rfl).2 (Or.inl mapped) _).mpr h
  | updateFieldVar var =>
    intro c hfind
    obtain ⟨c', hfind', hc⟩ := mapped
    obtain rfl := Option.some.inj (hfind'.symm.trans hfind)
    refine ((same c' ?_).1 hc _).mpr (h c' hfind)
    simp only [channelOf, hfind, Option.getD_some]
  | writeRO it => exact ((same { uiChannel := it.1 } rfl).2 (Or.inr mapped) _).mpr h

/-- After any list of calls with channels of their own each call is seen, and
the other channels are as before. -/
theorem calls_shown {calls : List Publication} (wired : Wired s₀ calls) :
    Initialised (calls.foldl (publish L) s₀) ∧
      (∀ call ∈ calls, Shows L s₀ (calls.foldl (publish L) s₀) call) ∧
      ∀ uiChannel ∉ calls.map (channelOf s₀),
        SameChannel L s₀ uiChannel s₀ (calls.foldl (publish L) s₀) := by
  have hstart : Initialised s₀ ∧ Steady s₀ s₀ := ⟨wired.initialised, .refl s₀⟩
  refine ⟨(publish_local.foldl_keeps wired.mapped hstart).1, ?_, ?_⟩
  · intro call hcall
    have hmapped := wired.mapped call hcall
    obtain ⟨s, ⟨hs, steady⟩, _, same⟩ :=
      publish_local.foldl_each wired.mapped hstart wired.distinct hcall
    exact (shows_publish hs steady hmapped).same hmapped same
  · intro uiChannel hapart
    exact publish_local.foldl_other wired.mapped hstart hapart

end Shows

theorem output_published {s : ModbusSlaveDrv} {img : IOImage} {alMan : AlarmManager}
    (wired : Wired s (outputs img alMan)) :
    Initialised (img.updateOutputs L (some alMan) s).2.1 ∧
      (∀ var ∈ img.mSlaveOut.reduceOption,
        PollsModbus L (img.updateOutputs L (some alMan) s).2.1 var.mtAddr
          (.current var.mfTrueVal)) ∧
      (∀ var ∈ img.mFieldOut.reduceOption, ∀ c, s.mFieldVars.lookup var.muiVarId = some c →
        PollsField L (img.updateOutputs L (some alMan) s).2.1 c (published L s c var)) ∧
      (∀ it ∈ ScanLoop.updateOutputs .regulator alMan,
        PollsModbus L (img.updateOutputs L (some alMan) s).2.1 { uiChannel := it.1 }
          (.roInt it.2)) ∧
      ∀ uiChannel ∉ (outputs img alMan).map (channelOf s),
        SameChannel L s uiChannel s (img.updateOutputs L (some alMan) s).2.1 := by
  obtain ⟨hinit, hshown, hother⟩ := calls_shown (L := L) wired
  rw [updateOutputs_publishes]
  refine ⟨hinit, ?_, ?_, ?_, hother⟩
  · intro var hvar
    exact hshown (.write var) (by simp [outputs, hvar])
  · intro var hvar
    exact hshown (.updateFieldVar var) (by simp [outputs, hvar])
  · rintro ⟨uiChannel, uiVal⟩ hit
    exact hshown (.writeRO (uiChannel, uiVal)) (by simp [outputs, hit])

/-- The same as readings of the tables that the phase leaves. -/
theorem readings_published {s s' : ModbusSlaveDrv} {img : IOImage} {alMan : AlarmManager}
    (wired : Wired s (outputs img alMan))
    (phase : s' = (img.updateOutputs L (some alMan) s).2.1) :
    (∀ var ∈ img.mSlaveOut.reduceOption, modbusReading L s' var.mtAddr = .current var.mfTrueVal) ∧
      (∀ var ∈ img.mFieldOut.reduceOption, ∀ c, s.mFieldVars.lookup var.muiVarId = some c →
        fieldReading L s' c = published L s c var) ∧
      ∀ it ∈ ScanLoop.updateOutputs .regulator alMan,
        modbusReading L s' { uiChannel := it.1 } = .roInt it.2 := by
  have steady : Steady s s' := by
    rw [phase]
    exact ((slaveOuts_steady L img s).trans (outputs_steady L img.mFieldOut _ [])).trans
      (steady_writeAlarms _ (some alMan))
  obtain ⟨hinit, hslave, hfield, hro, _⟩ := output_published (L := L) wired
  rw [← phase] at hinit hslave hfield hro
  have hmapped := wired.mapped
  refine ⟨?_, ?_, ?_⟩
  · intro var hvar
    have hc : InField s' var.mtAddr :=
      (inField_iff steady _).mpr (hmapped (.write var) (by simp [outputs, hvar]))
    exact ((pollsModbus_iff hinit (Or.inl hc) _).mp (hslave var hvar)).symm
  · intro var hvar c hfind
    obtain ⟨c', hfind', hc'⟩ := hmapped (.updateFieldVar var) (by simp [outputs, hvar])
    obtain rfl := Option.some.inj (hfind'.symm.trans hfind)
    exact ((pollsField_iff hinit ((inField_iff steady _).mpr hc') _).mp
      (hfield var hvar c' hfind)).symm
  · rintro ⟨uiChannel, uiVal⟩ hit
    have hc : InRO s' { uiChannel := uiChannel } :=
      (inRO_iff steady _).mpr (hmapped (.writeRO (uiChannel, uiVal)) (by simp [outputs, hit]))
    exact ((pollsModbus_iff hinit (Or.inr hc) _).mp (hro _ hit)).symm

end PublishedImage
