import TurbineGovernor.ScanLoop

/-!
# Alarms of the communications

The check that consumes the notification of a driver in `COMError` raises its
alarm and drops the flag, so that a later reset of the alarms is final while
the driver stays where it is. A watch over the events tells exactly when the
words published miss an alarm.
-/

namespace CommAlarms
open CommonTypes BitStrings RegulatorAlarms TransitionRuns LogicAlarms ScanLoop

section Machine
variable (c : Config)

/-- The regulator, and whether a check has consumed a notification since the
driver is in `COMError`. -/
structure Observed where
  reg : Regulator
  fieldConsumed : Bool
  slaveConsumed : Bool

def observe (s : Observed) (e : Event) : Observed :=
  let reg := step c s.reg e
  match e with
  | .fieldDrv state _ => ⟨reg, s.fieldConsumed && decide (state = .comError), s.slaveConsumed⟩
  | .slaveDrv state => ⟨reg, s.fieldConsumed, s.slaveConsumed && decide (state = .comError)⟩
  | .checkDriverErrors =>
    let consumes := fun state : DrvState => s.reg.alarms.mbWithErrors && decide (state = .comError)
    ⟨reg, s.fieldConsumed || consumes s.reg.img.fieldDrvState,
      s.slaveConsumed || consumes s.reg.img.slaveDrvState⟩
  | _ => ⟨reg, s.fieldConsumed, s.slaveConsumed⟩

/-- What the outputs are to publish. -/
def Announced (s : Observed) : Event → Prop
  | .updateOutputs =>
    (s.fieldConsumed = true → published (updateOutputs c s.reg.alarms) AL_FIELDCOM = true) ∧
      (s.slaveConsumed = true → published (updateOutputs c s.reg.alarms) AL_MASTERCOM = true)
  | _ => True

instance (s : Observed) (e : Event) : Decidable (Announced c s e) := by
  cases e <;> unfold Announced <;> infer_instance

/-- A stay in `COMError`: not noticed yet, noticed, or noticed and reset since. -/
inductive Stay where
  | unnoticed
  | raised
  | reset
  deriving DecidableEq, Repr

namespace Stay

def move (stay : Stay) (state : DrvState) : Stay := if state = .comError then stay else unnoticed

def check (stay : Stay) (notified : Bool) (state : DrvState) : Stay :=
  if notified = true ∧ state = .comError then raised else stay

def control (stay : Stay) (trip alrep : Single) : Stay :=
  if Resets trip alrep ∧ stay = raised then reset else stay

end Stay

structure Watch where
  fieldDrv : DrvState
  slaveDrv : DrvState
  notified : Bool
  trip : Single
  alrep : Single
  field : Stay
  slave : Stay

def watchStep (w : Watch) : Event → Watch
  | .fieldDrv state _ => { w with fieldDrv := state, field := w.field.move state }
  | .slaveDrv state => { w with slaveDrv := state, slave := w.slave.move state }
  | .driverFailed => { w with notified := true }
  | .updateInputs trip alrep => { w with trip := trip, alrep := alrep }
  | .checkDriverErrors =>
    { w with
        field := w.field.check w.notified w.fieldDrv
        slave := w.slave.check w.notified w.slaveDrv
        notified := w.notified && decide (w.fieldDrv = .varError) }
  | .updateControl =>
    { w with field := w.field.control w.trip w.alrep, slave := w.slave.control w.trip w.alrep }
  | .updateOutputs => w
  | .isAlarmSet _ => w

/-- No outputs in a stay whose alarm has been reset. -/
def NotReset (w : Watch) : Event → Prop
  | .updateOutputs => w.field ≠ .reset ∧ w.slave ≠ .reset
  | _ => True

/-- A stay, as the consumed notification and the bit of the alarm show it. -/
structure Tracks (stay : Stay) (consumed : Bool) (bitSet : Prop) : Prop where
  consumed : consumed = true ↔ stay ≠ .unnoticed
  raised : stay = .raised → bitSet
  reset : stay = .reset → ¬ bitSet

theorem tracks_iff {stay : Stay} {consumed : Bool} {bitSet : Prop}
    (h : Tracks stay consumed bitSet) : (consumed = true → bitSet) ↔ stay ≠ .reset := by
  rw [h.consumed]
  cases stay with
  | unnoticed => simp
  | raised => simp [h.raised rfl]
  | reset => simp [h.reset rfl]

theorem tracks_move {stay : Stay} {consumed : Bool} {bitSet : Prop}
    (h : Tracks stay consumed bitSet) (state : DrvState) :
    Tracks (stay.move state) (consumed && decide (state = .comError)) bitSet := by
  simp only [Stay.move]
  by_cases hstate : state = .comError
  · rw [if_pos hstate]
    simpa [hstate] using h
  · rw [if_neg hstate]
    constructor
    · simp [hstate]
    · intro hraised
      cases hraised
    · intro hreset
      cases hreset

theorem tracks_check {stay : Stay} {consumed : Bool} {bitSet bitSet' : Prop}
    (h : Tracks stay consumed bitSet) (notified : Bool) (state : DrvState)
    (effect : bitSet' ↔ bitSet ∨ (notified = true ∧ state = .comError)) :
    Tracks (stay.check notified state) (consumed || (notified && decide (state = .comError)))
      bitSet' := by
  simp only [Stay.check]
  by_cases hnoticed : notified = true ∧ state = .comError
  · rw [if_pos hnoticed]
    constructor
    · simp [hnoticed]
    · intro _
      exact effect.mpr (Or.inr hnoticed)
    · intro hreset
      cases hreset
  · have hsame : bitSet' ↔ bitSet := by
      rw [effect]
      simp [hnoticed]
    have hflag : (notified && decide (state = .comError)) = false := by
      simpa using hnoticed
    rw [if_neg hnoticed, hflag, Bool.or_false]
    exact ⟨h.consumed, fun hraised => hsame.mpr (h.raised hraised),
      fun hreset hbit => h.reset hreset (hsame.mp hbit)⟩

theorem tracks_control {stay : Stay} {consumed : Bool} {bitSet bitSet' : Prop}
    (h : Tracks stay consumed bitSet) (trip alrep : Single)
    (effect : bitSet' ↔ ¬ Resets trip alrep ∧ bitSet) :
    Tracks (stay.control trip alrep) consumed bitSet' := by
  simp only [Stay.control]
  by_cases hresets : Resets trip alrep
  · have hoff : ¬ bitSet' := fun hbit => (effect.mp hbit).1 hresets
    by_cases hstay : stay = .raised
    · rw [if_pos ⟨hresets, hstay⟩]
      constructor
      · rw [h.consumed, hstay]
        simp
      · intro hraised
        cases hraised
      · exact fun _ => hoff
    · rw [if_neg (fun hboth => hstay hboth.2)]
      exact ⟨h.consumed, fun hraised => absurd hraised hstay, fun _ => hoff⟩
  · have hsame : bitSet' ↔ bitSet := by
      rw [effect]
      simp [hresets]
    rw [if_neg (fun hboth => hresets hboth.1)]
    exact ⟨h.consumed, fun hraised => hsame.mpr (h.raised hraised),
      fun hreset hbit => h.reset hreset (hsame.mp hbit)⟩

structure Watched (s : Observed) (w : Watch) : Prop where
  fieldDrv : s.reg.img.fieldDrvState = w.fieldDrv
  slaveDrv : s.reg.img.slaveDrvState = w.slaveDrv
  notified : s.reg.alarms.mbWithErrors = w.notified
  trip : s.reg.trip = w.trip
  alrep : s.reg.alrep = w.alrep
  length : s.reg.alarms.mpuiLogicErrors.length = c.muiNumLogicErrorInts
  field : Tracks w.field s.fieldConsumed
    (bit s.reg.alarms.mpuiLogicErrors AL_FIELDCOM.toNat = true)
  slave : Tracks w.slave s.slaveConsumed
    (bit s.reg.alarms.mpuiLogicErrors AL_MASTERCOM.toNat = true)

/-- An alarm that no other one implies is raised on its own account only. -/
theorem mem_raised_iff {e uiError : BitVec 32} (hmayor : e ≠ AL_MAYOR) (hint : e ≠ AL_TRIPINT)
    (hminor : e ≠ AL_MINOR) :
    e ∈ raised c uiError ↔ uiError.toNat < c.NUM_ALARMS ∧ e = uiError := by
  simp only [raised]
  simp [hmayor, hint, hminor]

variable {c} (hnum : AL_MASTERCOM.toNat < c.NUM_ALARMS) (allocated : Allocated c)
include hnum

theorem fieldCom_noticed (withErrors : Bool) (img : IOImage) :
    AL_FIELDCOM ∈ noticed c withErrors img ↔
      withErrors = true ∧ img.fieldDrvState = .comError := by
  have hin : AL_FIELDCOM.toNat < c.NUM_ALARMS := lt_trans (by decide) hnum
  simp only [noticed]
  simp only [Set.mem_ofPred_eq, mem_raised_iff c (show AL_FIELDCOM ≠ AL_MAYOR by decide)
    (show AL_FIELDCOM ≠ AL_TRIPINT by decide) (show AL_FIELDCOM ≠ AL_MINOR by decide),
    show AL_FIELDCOM ≠ AL_MASTERCOM by decide, show AL_FIELDCOM ≠ AL_FIELDVARS by decide, hin,
    and_false, and_true, or_false, false_or]

theorem masterCom_noticed (withErrors : Bool) (img : IOImage) :
    AL_MASTERCOM ∈ noticed c withErrors img ↔
      withErrors = true ∧ img.slaveDrvState = .comError := by
  simp only [noticed]
  simp only [Set.mem_ofPred_eq, mem_raised_iff c (show AL_MASTERCOM ≠ AL_MAYOR by decide)
    (show AL_MASTERCOM ≠ AL_TRIPINT by decide) (show AL_MASTERCOM ≠ AL_MINOR by decide),
    show AL_MASTERCOM ≠ AL_FIELDCOM by decide, show AL_MASTERCOM ≠ AL_FIELDVARS by decide, hnum,
    and_false, and_true, or_false]

include allocated

/-- The alarms of the two drivers have their bits. -/
theorem alarm_word {e : BitVec 32} (he : e.toNat ≤ AL_MASTERCOM.toNat) :
    e.toNat / 32 < c.muiNumLogicErrorInts := by
  simp only [Allocated] at allocated
  omega

theorem bit_check {al : AlarmManager} (img : IOImage)
    (length : al.mpuiLogicErrors.length = c.muiNumLogicErrorInts) {e : BitVec 32}
    (he : e.toNat ≤ AL_MASTERCOM.toNat) :
    bit (al.checkDriverErrors c img).mpuiLogicErrors e.toNat = true ↔
      bit al.mpuiLogicErrors e.toNat = true ∨ e ∈ noticed c al.mbWithErrors img := by
  have hword := alarm_word hnum allocated he
  rw [bit_checkDriverErrors, length]
  constructor
  · rintro (hbit | ⟨_, e', he', heq⟩)
    · exact Or.inl hbit
    · rw [BitVec.toNat_inj] at heq
      exact Or.inr (heq ▸ he')
  · rintro (hbit | hnoticed)
    · exact Or.inl hbit
    · exact Or.inr ⟨hword, e, hnoticed, rfl⟩

omit hnum allocated in
/-- The control does not raise an alarm of the communications. -/
theorem bit_control {e : BitVec 32} (hown : ∀ b, e ∈ raised c b → e = b) (htrip : e ≠ AL_TRIPEXT)
    (trip alrep : Single) (al : AlarmManager) :
    bit (updateControl c trip alrep al).mpuiLogicErrors e.toNat = true ↔
      ¬ Resets trip alrep ∧ bit al.mpuiLogicErrors e.toNat = true := by
  rw [bit_updateControl]
  have hnone : ¬ ∃ e' ∈ raised c AL_TRIPEXT, e'.toNat = e.toNat := by
    rintro ⟨e', he', heq⟩
    rw [BitVec.toNat_inj] at heq
    exact htrip (hown AL_TRIPEXT (heq ▸ he'))
  simp only [hnone, and_false, or_false]

theorem watched_check {s : Observed} {w : Watch} (h : Watched c s w) :
    Watched c (observe c s .checkDriverErrors) (watchStep w .checkDriverErrors) := by
  obtain ⟨hfieldDrv, hslaveDrv, hnotified, htrip, halrep, hlength, hfield, hslave⟩ := h
  have hfieldBit :=
    (bit_check hnum allocated s.reg.img hlength (e := AL_FIELDCOM) (by decide)).trans
    (or_congr Iff.rfl (fieldCom_noticed hnum s.reg.alarms.mbWithErrors s.reg.img))
  have hslaveBit := (bit_check hnum allocated s.reg.img hlength (e := AL_MASTERCOM) le_rfl).trans
    (or_congr Iff.rfl (masterCom_noticed hnum s.reg.alarms.mbWithErrors s.reg.img))
  have hflag : (s.reg.alarms.checkDriverErrors c s.reg.img).mbWithErrors =
      (w.notified && decide (w.fieldDrv = .varError)) := by
    have hparts := fieldPart_checkDriverErrors c s.reg.alarms s.reg.img
    rw [hnotified, hfieldDrv] at hparts
    cases hwith : w.notified with
    | false =>
      rw [hwith, if_neg (by decide)] at hparts
      rw [(parts_of hparts).1, hnotified, hwith]
      rfl
    | true =>
      rw [hwith, if_pos rfl] at hparts
      by_cases hcom : w.fieldDrv = .comError
      · rw [if_pos hcom] at hparts
        rw [(parts_of hparts).1, hcom]
        rfl
      rw [if_neg hcom] at hparts
      by_cases hvar : w.fieldDrv = .varError
      · rw [if_pos hvar] at hparts
        rw [(parts_of hparts).1, hvar]
        rfl
      · rw [if_neg hvar] at hparts
        rw [(parts_of hparts).1]
        simp [hvar]
  rw [hnotified, hfieldDrv] at hfieldBit
  rw [hnotified, hslaveDrv] at hslaveBit
  constructor
  · exact hfieldDrv
  · exact hslaveDrv
  · exact hflag
  · exact htrip
  · exact halrep
  · exact (length_checkDriverErrors c s.reg.alarms s.reg.img).trans hlength
  · have hnext := tracks_check hfield w.notified w.fieldDrv hfieldBit
    rw [← hnotified, ← hfieldDrv] at hnext
    simpa only [observe, watchStep, step, hnotified, hfieldDrv] using hnext
  · have hnext := tracks_check hslave w.notified w.slaveDrv hslaveBit
    rw [← hnotified, ← hslaveDrv] at hnext
    simpa only [observe, watchStep, step, hnotified, hslaveDrv] using hnext

omit hnum allocated in
theorem watched_control {s : Observed} {w : Watch} (h : Watched c s w) :
    Watched c (observe c s .updateControl) (watchStep w .updateControl) := by
  obtain ⟨hfieldDrv, hslaveDrv, hnotified, htrip, halrep, hlength, hfield, hslave⟩ := h
  have hfieldBit := bit_control (c := c) (e := AL_FIELDCOM)
    (fun _ hb => ((mem_raised_iff c (by decide) (by decide) (by decide)).mp hb).2) (by decide)
    s.reg.trip s.reg.alrep s.reg.alarms
  have hslaveBit := bit_control (c := c) (e := AL_MASTERCOM)
    (fun _ hb => ((mem_raised_iff c (by decide) (by decide) (by decide)).mp hb).2) (by decide)
    s.reg.trip s.reg.alrep s.reg.alarms
  have hflag := (parts_of (fieldPart_updateControl c s.reg.trip s.reg.alrep s.reg.alarms)).1
  constructor
  · exact hfieldDrv
  · exact hslaveDrv
  · exact hflag.trans hnotified
  · exact htrip
  · exact halrep
  · exact (length_updateControl c s.reg.trip s.reg.alrep s.reg.alarms).trans hlength
  · have hnext := tracks_control hfield s.reg.trip s.reg.alrep hfieldBit
    simpa only [observe, watchStep, step, htrip, halrep] using hnext
  · have hnext := tracks_control hslave s.reg.trip s.reg.alrep hslaveBit
    simpa only [observe, watchStep, step, htrip, halrep] using hnext

theorem watched_step {s : Observed} {w : Watch} (h : Watched c s w) (e : Event) :
    Watched c (observe c s e) (watchStep w e) := by
  cases e with
  | fieldDrv state mVarErrors =>
    exact ⟨rfl, h.slaveDrv, h.notified, h.trip, h.alrep, h.length, tracks_move h.field state,
      h.slave⟩
  | slaveDrv state =>
    exact ⟨h.fieldDrv, rfl, h.notified, h.trip, h.alrep, h.length, h.field,
      tracks_move h.slave state⟩
  | driverFailed =>
    exact ⟨h.fieldDrv, h.slaveDrv, rfl, h.trip, h.alrep, h.length, h.field, h.slave⟩
  | updateInputs trip alrep =>
    exact ⟨h.fieldDrv, h.slaveDrv, h.notified, rfl, rfl, h.length, h.field, h.slave⟩
  | checkDriverErrors => exact watched_check hnum allocated h
  | updateControl => exact watched_control h
  | updateOutputs => exact h
  | isAlarmSet uiError => exact h

theorem announced_iff_notReset {s : Observed} {w : Watch} (h : Watched c s w) (e : Event) :
    Announced c s e ↔ NotReset w e := by
  cases e with
  | fieldDrv state mVarErrors => exact Iff.rfl
  | slaveDrv state => exact Iff.rfl
  | driverFailed => exact Iff.rfl
  | updateInputs trip alrep => exact Iff.rfl
  | checkDriverErrors => exact Iff.rfl
  | updateControl => exact Iff.rfl
  | updateOutputs =>
    have hfield := alarm_word hnum allocated (e := AL_FIELDCOM) (by decide)
    have hslave := alarm_word hnum allocated (e := AL_MASTERCOM) le_rfl
    rw [← h.length] at hfield hslave
    simp only [Announced, NotReset]
    rw [published_updateOutputs c hfield, published_updateOutputs c hslave]
    exact and_congr (tracks_iff h.field) (tracks_iff h.slave)
  | isAlarmSet uiError => exact Iff.rfl

omit hnum allocated in
theorem watched_start (img : IOImage) (logicMemory fieldMemory : Nat → BitVec 32) :
    Watched c ⟨start c img logicMemory fieldMemory, false, false⟩
      ⟨img.fieldDrvState, img.slaveDrvState, false, one, 0#32, .unnoticed, .unnoticed⟩ := by
  have hunnoticed : ∀ bitSet : Prop, Tracks .unnoticed false bitSet := by
    intro bitSet
    constructor
    · simp
    · intro hraised
      cases hraised
    · intro hreset
      cases hreset
  constructor
  · rfl
  · rfl
  · rfl
  · rfl
  · rfl
  · simp [start, AlarmManager.construct]
  · exact hunnoticed _
  · exact hunnoticed _

theorem along_announced_iff (img : IOImage) (logicMemory fieldMemory : Nat → BitVec 32)
    (events : List Event) :
    Along (observe c) (Announced c) ⟨start c img logicMemory fieldMemory, false, false⟩ events ↔
      Along watchStep NotReset
        ⟨img.fieldDrvState, img.slaveDrvState, false, one, 0#32, .unnoticed, .unnoticed⟩ events :=
  along_simulation (R := Watched c)
    (fun _ _ e h => announced_iff_notReset hnum allocated h e)
    (fun _ _ e h _ => watched_step hnum allocated h e)
    (watched_start img logicMemory fieldMemory) events

end Machine

/-- The alarms of the communications are published in every scan exactly when
no outputs come between a reset and the next consumed notification of the
same stay. -/
theorem commAlarms_announced_iff (img : IOImage) (logicMemory fieldMemory : Nat → BitVec 32)
    (events : List Event) :
    Along (observe Config.regulator) (Announced Config.regulator)
        ⟨start Config.regulator img logicMemory fieldMemory, false, false⟩ events ↔
      Along watchStep NotReset
        ⟨img.fieldDrvState, img.slaveDrvState, false, one, 0#32, .unnoticed, .unnoticed⟩ events :=
  along_announced_iff (by decide) (allocated_of_le Config.regulator (by decide)) img logicMemory
    fieldMemory events

/-- The field driver fails; the alarms are not reset, then they are. -/
theorem reset_loses_fieldCom :
    let s : Observed :=
      ⟨start Config.regulator ⟨.running, .running, [], []⟩ (fun _ => 0) (fun _ => 0), false, false⟩
    let failure : List Event := [.fieldDrv .comError [], .driverFailed]
    Along (observe Config.regulator) (Announced Config.regulator) s
        (failure ++ scan one 0#32 ++ scan one 0#32) ∧
      ¬ Along (observe Config.regulator) (Announced Config.regulator) s
        (failure ++ scan one 0#32 ++ scan one one ++ scan one 0#32) := by
  decide

end CommAlarms
