import TurbineGovernor.ScanLoop

/-!
# The initial contents of the arrays

The constructor leaves its arrays as the heap has them. Two regulators that
differ in nothing else run side by side; a watch collects what the run has
assigned so far, and tells exactly when the difference shows.
-/

namespace InitialMemory
open CommonTypes BitStrings RegulatorAlarms TransitionRuns LogicAlarms ScanLoop

section Machine
variable (c : Config)

/-- The same event in both runs. -/
def both (p : Regulator × Regulator) (e : Event) : Regulator × Regulator :=
  (step c p.1 e, step c p.2 e)

/-- What the outside sees is the same. -/
def Same (p : Regulator × Regulator) : Event → Prop
  | .updateOutputs => updateOutputs c p.1.alarms = updateOutputs c p.2.alarms
  | .isAlarmSet uiError =>
    p.1.alarms.isAlarmSet c uiError = p.2.alarms.isAlarmSet c uiError
  | _ => True

instance (p : Regulator × Regulator) : (e : Event) → Decidable (Same c p e)
  | .updateOutputs => inferInstanceAs (Decidable (_ = _))
  | .isAlarmSet _ => inferInstanceAs (Decidable (_ = _))
  | .fieldDrv _ _ => isTrue trivial
  | .slaveDrv _ => isTrue trivial
  | .driverFailed => isTrue trivial
  | .updateInputs _ _ => isTrue trivial
  | .checkDriverErrors => isTrue trivial
  | .updateControl => isTrue trivial

/-- What the events have assigned: bits of the logic words, and whether the
words of the variables have been written. -/
structure Watch where
  img : IOImage
  trip : Single
  alrep : Single
  withErrors : Bool
  lastFldErrors : List (BitVec 32 × QuState)
  logic : Set Nat
  fields : Prop

def numbers (alarms : Set (BitVec 32)) : Set Nat := {b | ∃ e ∈ alarms, e.toNat = b}

def Watch.check (w : Watch) : Watch :=
  let errors := w.img.getFldErrors w.lastFldErrors
  if w.withErrors then
    let w := { w with logic := w.logic ∪ numbers (noticed c true w.img) }
    if w.img.fieldDrvState = .comError then { w with withErrors := false }
    else if w.img.fieldDrvState = .varError then
      { w with lastFldErrors := errors, fields := w.fields ∨ errors ≠ [] }
    else
      { w with
          withErrors := false
          lastFldErrors := []
          fields := w.fields ∨ w.lastFldErrors ≠ [] }
  else w

def Watch.control (w : Watch) : Watch :=
  if Single.eq w.trip 0#32 then { w with logic := w.logic ∪ numbers (raised c AL_TRIPEXT) }
  else if Single.eq w.alrep one then { w with logic := Set.univ }
  else w

def watchStep (w : Watch) : Event → Watch
  | .fieldDrv state mVarErrors =>
    { w with img := { w.img with fieldDrvState := state, mVarErrors := mVarErrors } }
  | .slaveDrv state => { w with img := { w.img with slaveDrvState := state } }
  | .driverFailed => { w with withErrors := true }
  | .updateInputs trip alrep => { w with trip := trip, alrep := alrep }
  | .checkDriverErrors => w.check c
  | .updateControl => w.control c
  | .updateOutputs => w
  | .isAlarmSet _ => w

/-- The contents of the heap behind the two arrays. -/
structure Memory where
  logic : Nat → BitVec 32
  field : Nat → BitVec 32

def Memory.bit (m : Memory) (b : Nat) : Bool := (m.logic (b / 32)).getMsbD (b % 32)

/-- What is published or asked has been assigned, or the two memories have the
same there. -/
def Determined (m m' : Memory) (w : Watch) : Event → Prop
  | .updateOutputs =>
    (∀ b < 32 * c.muiNumLogicErrorInts, b ∈ w.logic ∨ m.bit b = m'.bit b) ∧
      (w.fields ∨ ∀ i < c.muiNumFieldQStatesInts, m.field i = m'.field i)
  | .isAlarmSet uiError =>
    uiError.toNat < c.NUM_ALARMS → uiError.toNat < 32 * c.muiNumLogicErrorInts →
      uiError.toNat ∈ w.logic ∨ m.bit uiError.toNat = m'.bit uiError.toNat
  | _ => True

/-- What one of the two runs has in common with the watch. -/
structure Follows (r : Regulator) (w : Watch) : Prop where
  img : r.img = w.img
  trip : r.trip = w.trip
  alrep : r.alrep = w.alrep
  withErrors : r.alarms.mbWithErrors = w.withErrors
  lastFldErrors : r.alarms.mMLastFldErrors = w.lastFldErrors
  length : r.alarms.mpuiLogicErrors.length = c.muiNumLogicErrorInts

structure Watched (m m' : Memory) (p : Regulator × Regulator) (w : Watch) : Prop where
  left : Follows c p.1 w
  right : Follows c p.2 w
  logic : ∀ b < 32 * c.muiNumLogicErrorInts,
    bit p.1.alarms.mpuiLogicErrors b = bit p.2.alarms.mpuiLogicErrors b ↔
      b ∈ w.logic ∨ m.bit b = m'.bit b
  fields : p.1.alarms.mpuiFieldQStates = p.2.alarms.mpuiFieldQStates ↔
    w.fields ∨ ∀ i < c.muiNumFieldQStatesInts, m.field i = m'.field i
  lengths : p.1.alarms.mpuiFieldQStates.length = p.2.alarms.mpuiFieldQStates.length

variable {c}

/-- Setting the same bits on both sides. -/
theorem eq_after_set {x y x' y' : Bool} {assigned : Prop} (hx : x' = true ↔ x = true ∨ assigned)
    (hy : y' = true ↔ y = true ∨ assigned) : x' = y' ↔ assigned ∨ x = y := by
  rw [Bool.eq_iff_iff, hx, hy]
  by_cases h : assigned
  · simp [h]
  · simp only [h, or_false, false_or]
    exact Bool.eq_iff_iff.symm

theorem follows_check {r : Regulator} {w : Watch} (h : Follows c r w) :
    Follows c (step c r .checkDriverErrors) (w.check c) := by
  obtain ⟨himg, htrip, halrep, hwith, hlast, hlength⟩ := h
  have hparts : fieldPart (step c r .checkDriverErrors).alarms = _ :=
    fieldPart_checkDriverErrors c r.alarms r.img
  have hlen := (length_checkDriverErrors c r.alarms r.img).trans hlength
  rw [himg, hwith, hlast] at hparts
  simp only [Watch.check]
  cases hflag : w.withErrors with
  | false =>
    rw [hflag, if_neg (by decide)] at hparts
    obtain ⟨hwith', _, hlast'⟩ := parts_of hparts
    exact ⟨himg, htrip, halrep, hwith'.trans hwith, hlast'.trans hlast, hlen⟩
  | true =>
    rw [hflag, if_pos rfl] at hparts
    simp only [if_true]
    by_cases hcom : w.img.fieldDrvState = .comError
    · rw [if_pos hcom] at hparts ⊢
      obtain ⟨hwith', _, hlast'⟩ := parts_of hparts
      exact ⟨himg, htrip, halrep, hwith', hlast', hlen⟩
    rw [if_neg hcom] at hparts ⊢
    by_cases hvar : w.img.fieldDrvState = .varError
    · rw [if_pos hvar] at hparts ⊢
      obtain ⟨hwith', _, hlast'⟩ := parts_of hparts
      exact ⟨himg, htrip, halrep, hwith', hlast', hlen⟩
    · rw [if_neg hvar] at hparts ⊢
      obtain ⟨hwith', _, hlast'⟩ := parts_of hparts
      exact ⟨himg, htrip, halrep, hwith', hlast', hlen⟩

theorem check_logic (w : Watch) :
    (w.check c).logic = if w.withErrors = true then w.logic ∪ numbers (noticed c true w.img)
      else w.logic := by
  unfold Watch.check
  split
  · dsimp only
    split
    · rfl
    split
    · rfl
    · rfl
  · rfl

theorem bit_check {r : Regulator} {w : Watch} (h : Follows c r w) {b : Nat}
    (hb : b < 32 * c.muiNumLogicErrorInts) :
    bit (step c r .checkDriverErrors).alarms.mpuiLogicErrors b = true ↔
      bit r.alarms.mpuiLogicErrors b = true ∨
        (w.withErrors = true ∧ b ∈ numbers (noticed c true w.img)) := by
  have hword : b / 32 < r.alarms.mpuiLogicErrors.length := by
    rw [h.length]
    omega
  have hnoticed : ∀ e, e ∈ noticed c r.alarms.mbWithErrors r.img ↔
      w.withErrors = true ∧ e ∈ noticed c true w.img := by
    intro e
    rw [h.withErrors, h.img]
    simp only [noticed]
    simp
  refine (bit_checkDriverErrors c r.alarms r.img b).trans ?_
  simp only [numbers]
  simp only [hword, true_and, hnoticed, Set.mem_ofPred_eq, and_assoc, exists_and_left]

/-- What a check writes into the words of the variables does not depend on
what they held. -/
theorem fields_check {m m' : Memory} {p : Regulator × Regulator} {w : Watch}
    (h : Watched c m m' p w) :
    let q := both c p .checkDriverErrors
    (q.1.alarms.mpuiFieldQStates = q.2.alarms.mpuiFieldQStates ↔
      (w.check c).fields ∨ ∀ i < c.muiNumFieldQStatesInts, m.field i = m'.field i) ∧
    q.1.alarms.mpuiFieldQStates.length = q.2.alarms.mpuiFieldQStates.length := by
  intro q
  obtain ⟨hleft, hright, _, hfields, hlengths⟩ := h
  have hparts : fieldPart q.1.alarms = _ := fieldPart_checkDriverErrors c p.1.alarms p.1.img
  have hparts' : fieldPart q.2.alarms = _ := fieldPart_checkDriverErrors c p.2.alarms p.2.img
  rw [hleft.img, hleft.withErrors, hleft.lastFldErrors] at hparts
  rw [hright.img, hright.withErrors, hright.lastFldErrors] at hparts'
  have hzero : p.1.alarms.mpuiFieldQStates.map (fun _ => (0 : BitVec 32)) =
      p.2.alarms.mpuiFieldQStates.map (fun _ => (0 : BitVec 32)) := by
    rw [List.map_const', List.map_const', hlengths]
  -- either both keep their words or both write the same ones
  have hcases : (q.1.alarms.mpuiFieldQStates = p.1.alarms.mpuiFieldQStates ∧
        q.2.alarms.mpuiFieldQStates = p.2.alarms.mpuiFieldQStates ∧
        ((w.check c).fields ↔ w.fields)) ∨
      (q.1.alarms.mpuiFieldQStates = q.2.alarms.mpuiFieldQStates ∧ (w.check c).fields) := by
    simp only [Watch.check]
    cases hflag : w.withErrors with
    | false =>
      rw [hflag, if_neg (by decide)] at hparts hparts'
      exact Or.inl ⟨(parts_of hparts).2.1, (parts_of hparts').2.1, Iff.rfl⟩
    | true =>
      rw [hflag, if_pos rfl] at hparts hparts'
      simp only [if_true]
      by_cases hcom : w.img.fieldDrvState = .comError
      · rw [if_pos hcom] at hparts hparts' ⊢
        exact Or.inl ⟨(parts_of hparts).2.1, (parts_of hparts').2.1, Iff.rfl⟩
      rw [if_neg hcom] at hparts hparts' ⊢
      by_cases hvar : w.img.fieldDrvState = .varError
      · rw [if_pos hvar] at hparts hparts' ⊢
        have hwords := (parts_of hparts).2.1
        have hwords' := (parts_of hparts').2.1
        by_cases hnil : w.img.getFldErrors w.lastFldErrors = []
        · rw [hnil] at hwords hwords'
          exact Or.inl ⟨hwords, hwords', by simp [hnil]⟩
        · have hempty : (w.img.getFldErrors w.lastFldErrors).isEmpty = false := by
            simpa using hnil
          rw [hempty, if_neg (by decide)] at hwords hwords'
          rw [hzero] at hwords
          exact Or.inr ⟨hwords.trans hwords'.symm, Or.inr hnil⟩
      · rw [if_neg hvar] at hparts hparts' ⊢
        have hwords := (parts_of hparts).2.1
        have hwords' := (parts_of hparts').2.1
        by_cases hnil : w.lastFldErrors = []
        · rw [hnil] at hwords hwords'
          exact Or.inl ⟨hwords, hwords', by simp [hnil]⟩
        · have hempty : w.lastFldErrors.isEmpty = false := by
            simpa using hnil
          rw [hempty, if_neg (by decide)] at hwords hwords'
          rw [hzero] at hwords
          exact Or.inr ⟨hwords.trans hwords'.symm, Or.inr hnil⟩
  rcases hcases with ⟨hwords, hwords', hkept⟩ | ⟨hsame, hassigned⟩
  · rw [hwords, hwords', hkept]
    exact ⟨hfields, hlengths⟩
  · exact ⟨iff_of_true hsame (Or.inl hassigned), congrArg List.length hsame⟩

theorem watched_check {m m' : Memory} {p : Regulator × Regulator} {w : Watch}
    (h : Watched c m m' p w) : Watched c m m' (both c p .checkDriverErrors) (w.check c) := by
  obtain ⟨hfields, hlengths⟩ := fields_check h
  refine ⟨follows_check h.left, follows_check h.right, ?_, hfields, hlengths⟩
  intro b hb
  refine (eq_after_set (bit_check h.left hb) (bit_check h.right hb)).trans ?_
  rw [h.logic b hb, check_logic]
  by_cases hwith : w.withErrors = true
  · simp only [hwith, true_and, if_true]
    exact or_left_comm.trans or_assoc.symm
  · simp [hwith]

theorem follows_control {r : Regulator} {w : Watch} (h : Follows c r w) :
    Follows c (step c r .updateControl) (w.control c) := by
  have hparts := fieldPart_updateControl c r.trip r.alrep r.alarms
  obtain ⟨hwith, _, hlast⟩ := parts_of hparts
  have hlen := (length_updateControl c r.trip r.alrep r.alarms).trans h.length
  have hkept : ∀ logic : Set Nat, Follows c (step c r .updateControl) { w with logic := logic } :=
    fun _ => ⟨h.img, h.trip, h.alrep, hwith.trans h.withErrors, hlast.trans h.lastFldErrors, hlen⟩
  simp only [Watch.control]
  split
  · exact hkept _
  split
  · exact hkept _
  · exact hkept w.logic

theorem watched_control {m m' : Memory} {p : Regulator × Regulator} {w : Watch}
    (h : Watched c m m' p w) : Watched c m m' (both c p .updateControl) (w.control c) := by
  have hwords := (parts_of (fieldPart_updateControl c p.1.trip p.1.alrep p.1.alarms)).2.1
  have hwords' := (parts_of (fieldPart_updateControl c p.2.trip p.2.alrep p.2.alarms)).2.1
  have hfieldsKept : (w.control c).fields ↔ w.fields := by
    simp only [Watch.control]
    split
    · rfl
    split
    · rfl
    · rfl
  refine ⟨follows_control h.left, follows_control h.right, ?_, ?_, ?_⟩
  · intro b hb
    have hword : b / 32 < p.1.alarms.mpuiLogicErrors.length := by
      rw [h.left.length]
      omega
    have hword' : b / 32 < p.2.alarms.mpuiLogicErrors.length := by
      rw [h.right.length]
      omega
    have hbit : bit (both c p .updateControl).1.alarms.mpuiLogicErrors b = true ↔ _ :=
      bit_updateControl c p.1.trip p.1.alrep p.1.alarms b
    have hbit' : bit (both c p .updateControl).2.alarms.mpuiLogicErrors b = true ↔ _ :=
      bit_updateControl c p.2.trip p.2.alrep p.2.alarms b
    rw [h.left.trip, h.left.alrep, Resets] at hbit
    rw [h.right.trip, h.right.alrep, Resets] at hbit'
    have hlogic := h.logic b hb
    simp only [Watch.control]
    by_cases htrip : Single.eq w.trip 0#32 = true
    · rw [if_pos htrip]
      simp only [htrip, hword, Bool.true_eq_false, false_and, not_false_eq_true, true_and] at hbit
      simp only [htrip, hword', Bool.true_eq_false, false_and, not_false_eq_true, true_and] at hbit'
      refine (eq_after_set hbit hbit').trans ?_
      rw [hlogic]
      exact or_left_comm.trans or_assoc.symm
    rw [if_neg htrip]
    have hfalse : Single.eq w.trip 0#32 = false := by simpa using htrip
    by_cases hreset : Single.eq w.alrep one = true
    · rw [if_pos hreset]
      simp only [hfalse, hreset, true_and, not_true_eq_false, false_and] at hbit hbit'
      refine iff_of_true ?_ (Or.inl (Set.mem_univ b))
      exact Bool.eq_iff_iff.mpr
        (iff_of_false (fun hset => hbit.mp hset) (fun hset => hbit'.mp hset))
    · rw [if_neg hreset]
      simp only [hfalse, hreset, Bool.false_eq_true, and_false, not_false_eq_true, true_and,
        false_and, or_false] at hbit hbit'
      exact (Bool.eq_iff_iff.trans ((iff_congr hbit hbit').trans Bool.eq_iff_iff.symm)).trans hlogic
  · rw [hfieldsKept, ← h.fields]
    exact Eq.congr hwords hwords'
  · exact (congrArg List.length hwords).trans (h.lengths.trans (congrArg List.length hwords').symm)

theorem follows_step {r : Regulator} {w : Watch} (h : Follows c r w) (e : Event) :
    Follows c (step c r e) (watchStep c w e) := by
  cases e with
  | fieldDrv state mVarErrors =>
    refine ⟨?_, h.trip, h.alrep, h.withErrors, h.lastFldErrors, h.length⟩
    simp [step, watchStep, h.img]
  | slaveDrv state =>
    refine ⟨?_, h.trip, h.alrep, h.withErrors, h.lastFldErrors, h.length⟩
    simp [step, watchStep, h.img]
  | driverFailed => exact ⟨h.img, h.trip, h.alrep, rfl, h.lastFldErrors, h.length⟩
  | updateInputs trip alrep => exact ⟨h.img, rfl, rfl, h.withErrors, h.lastFldErrors, h.length⟩
  | checkDriverErrors => exact follows_check h
  | updateControl => exact follows_control h
  | updateOutputs => exact h
  | isAlarmSet uiError => exact h

theorem watched_step {m m' : Memory} {p : Regulator × Regulator} {w : Watch}
    (h : Watched c m m' p w) (e : Event) : Watched c m m' (both c p e) (watchStep c w e) := by
  have hleft := follows_step h.left e
  have hright := follows_step h.right e
  cases e with
  | fieldDrv state mVarErrors => exact ⟨hleft, hright, h.logic, h.fields, h.lengths⟩
  | slaveDrv state => exact ⟨hleft, hright, h.logic, h.fields, h.lengths⟩
  | driverFailed => exact ⟨hleft, hright, h.logic, h.fields, h.lengths⟩
  | updateInputs trip alrep => exact ⟨hleft, hright, h.logic, h.fields, h.lengths⟩
  | checkDriverErrors => exact watched_check h
  | updateControl => exact watched_control h
  | updateOutputs => exact h
  | isAlarmSet uiError => exact h

/-- The same calls are made exactly when both groups of words are the same. -/
theorem updateOutputs_eq_iff {al al' : AlarmManager}
    (length : al.mpuiLogicErrors.length = al'.mpuiLogicErrors.length) :
    updateOutputs c al = updateOutputs c al' ↔
      al.mpuiLogicErrors = al'.mpuiLogicErrors ∧ al.mpuiFieldQStates = al'.mpuiFieldQStates := by
  constructor
  · intro hcalls
    have hwords := congrArg (List.map Prod.snd) hcalls
    rw [updateOutputs_words, updateOutputs_words] at hwords
    exact List.append_inj hwords length
  · rintro ⟨hlogic, hfield⟩
    simp only [updateOutputs]
    rw [hlogic, hfield]

theorem same_iff_determined (allocated : Allocated c) {m m' : Memory} {p : Regulator × Regulator}
    {w : Watch} (h : Watched c m m' p w) (e : Event) : Same c p e ↔ Determined c m m' w e := by
  cases e with
  | fieldDrv state mVarErrors => exact Iff.rfl
  | slaveDrv state => exact Iff.rfl
  | driverFailed => exact Iff.rfl
  | updateInputs trip alrep => exact Iff.rfl
  | checkDriverErrors => exact Iff.rfl
  | updateControl => exact Iff.rfl
  | updateOutputs =>
    have hlengths := h.left.length.trans h.right.length.symm
    simp only [Same, Determined]
    rw [updateOutputs_eq_iff hlengths, h.fields]
    refine and_congr ?_ Iff.rfl
    constructor
    · intro hwords b hb
      exact (h.logic b hb).mp (by rw [hwords])
    · intro hbits
      apply eq_of_bit hlengths
      intro b
      by_cases hb : b < 32 * c.muiNumLogicErrorInts
      · exact (h.logic b hb).mpr (hbits b hb)
      · have hleft := h.left.length
        have hright := h.right.length
        simp only [bit]
        rw [List.getElem?_eq_none (by omega), List.getElem?_eq_none (by omega)]
  | isAlarmSet uiError =>
    have hleft := h.left.length
    have hright := h.right.length
    simp only [Same, Determined]
    rw [Bool.eq_iff_iff, isAlarmSet_iff, isAlarmSet_iff]
    by_cases hnum : uiError.toNat < c.NUM_ALARMS
    · have hb : uiError.toNat < 32 * c.muiNumLogicErrorInts := lt_of_lt_of_le hnum allocated
      rw [alarmBit_eq (by omega), alarmBit_eq (by omega)]
      simp only [hnum, hb, true_and, true_implies]
      exact Bool.eq_iff_iff.symm.trans (h.logic uiError.toNat hb)
    · simp [hnum]

theorem watched_start (img : IOImage) (m m' : Memory) :
    Watched c m m' (start c img m.logic m.field, start c img m'.logic m'.field)
      ⟨img, one, 0#32, false, [], ∅, False⟩ := by
  have hbit : ∀ m : Memory, ∀ b < 32 * c.muiNumLogicErrorInts,
      bit (start c img m.logic m.field).alarms.mpuiLogicErrors b = m.bit b := by
    intro m b hb
    simp only [start, AlarmManager.construct, Memory.bit, BitStrings.bit]
    simp only [List.getElem?_map]
    rw [List.getElem?_range (by omega)]
    rfl
  have hfollows : ∀ m : Memory, Follows c (start c img m.logic m.field)
      ⟨img, one, 0#32, false, [], ∅, False⟩ := by
    intro m
    refine ⟨rfl, rfl, rfl, rfl, rfl, ?_⟩
    simp [start, AlarmManager.construct]
  refine ⟨hfollows m, hfollows m', ?_, ?_, ?_⟩
  · intro b hb
    rw [hbit m b hb, hbit m' b hb]
    simp
  · simp [start, AlarmManager.construct]
  · simp [start, AlarmManager.construct]

end Machine

/-- Two runs of the regulator with the same events show the same words and
answers exactly when what they show is assigned by then or the same in the two
memories. -/
theorem initialMemory_unseen_iff (img : IOImage) (m m' : Memory) (events : List Event) :
    Along (both Config.regulator) (Same Config.regulator)
        (start Config.regulator img m.logic m.field, start Config.regulator img m'.logic m'.field)
        events ↔
      Along (watchStep Config.regulator) (Determined Config.regulator m m')
        ⟨img, one, 0#32, false, [], ∅, False⟩ events :=
  along_simulation (R := Watched Config.regulator m m')
    (fun _ _ e h =>
      same_iff_determined (allocated_of_le Config.regulator (by decide)) h e)
    (fun _ _ e h _ => watched_step h e) (watched_start img m m') events

def zeros : Memory := ⟨fun _ => 0, fun _ => 0⟩
def ones : Memory := ⟨fun _ => 0xffffffff, fun _ => 0xffffffff⟩

/-- The first scan already shows the heap; a reset hides it in the logic words,
the words of the variables stay as they were. -/
theorem firstScan_shows_memory :
    let p := (start Config.regulator ⟨.running, .running, [], []⟩ zeros.logic zeros.field,
      start Config.regulator ⟨.running, .running, [], []⟩ ones.logic ones.field)
    ¬ Along (both Config.regulator) (Same Config.regulator) p (scan one 0#32) ∧
      ¬ Along (both Config.regulator) (Same Config.regulator) p [.isAlarmSet AL_FIELDCOM] ∧
      ¬ Along (both Config.regulator) (Same Config.regulator) p (scan one one) ∧
      Along (both Config.regulator) (Same Config.regulator) p
        [.updateInputs one one, .checkDriverErrors, .updateControl, .isAlarmSet AL_FIELDCOM] := by
  decide

end InitialMemory
