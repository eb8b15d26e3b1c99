import TurbineGovernor.RegulatorAlarms
import TurbineGovernor.TransitionRuns

/-!
# The logic alarms as a set

The bits of `mpuiLogicErrors` stand for a set of alarm numbers. The set is
kept by every sequence of the manager's operations exactly when the
constructor has allocated a bit for every alarm, which the `float` quotient
guarantees up to 2 ^ 24 alarms.
-/

namespace LogicAlarms
open BitStrings RegulatorAlarms TransitionRuns

inductive Op where
  | setAlarm (uiError : BitVec 32)
  | clearAlarms
  | isAlarmSet (uiError : BitVec 32)

section Machine
variable (c : Config)

/-- An alarm with those that it implies. -/
def raised (uiError : BitVec 32) : Set (BitVec 32) :=
  {e | uiError.toNat < c.NUM_ALARMS ∧
    (e = uiError ∨
      (c.mpuiAlarmLevels uiError = 1 ∧
        (e = AL_MAYOR ∨ (uiError ≠ AL_TRIPEXT ∧ e = AL_TRIPINT))) ∨
      (c.mpuiAlarmLevels uiError ≠ 1 ∧ e = AL_MINOR))}

/-- The constructor has allocated a bit for every alarm. -/
def Allocated : Prop := c.NUM_ALARMS ≤ 32 * c.muiNumLogicErrorInts

theorem allocated_of_le (few : c.NUM_ALARMS ≤ 2 ^ 24) : Allocated c := by
  simp only [Allocated, Config.muiNumLogicErrorInts]
  rw [numInts_of_le few]
  omega

theorem uiMask_eq (uiError : BitVec 32) :
    AlarmManager.uiMask uiError = 1#32 <<< (32 - 1 - uiError.toNat % 32) := by
  have hshift : (31 - uiError % 32).toNat = 32 - 1 - uiError.toNat % 32 := by
    rw [BitVec.toNat_sub, BitVec.toNat_umod]
    have hlt : uiError.toNat % (32 : BitVec 32).toNat < 32 := Nat.mod_lt _ (by decide)
    change (2 ^ 32 - uiError.toNat % 32 + 31) % 2 ^ 32 = _
    omega
  simp only [AlarmManager.uiMask, shl]
  rw [hshift, Nat.mod_eq_of_lt (by omega)]

theorem word_of (uiError : BitVec 32) : (uiError / 32).toNat = uiError.toNat / 32 :=
  BitVec.toNat_udiv

/-- The bit of an alarm, in the words or past them. -/
def alarmBit (al : AlarmManager) (b : Nat) : Bool := (al.logicError (b / 32)).getMsbD (b % 32)

theorem alarmBit_eq {al : AlarmManager} {b : Nat} (h : b / 32 < al.mpuiLogicErrors.length) :
    alarmBit al b = bit al.mpuiLogicErrors b := by
  rw [alarmBit, AlarmManager.logicError, bit, List.getElem?_eq_getElem h, Option.getD_some,
    Option.getD_some]

theorem isAlarmSet_iff (al : AlarmManager) (uiError : BitVec 32) :
    al.isAlarmSet c uiError = true ↔
      uiError.toNat < c.NUM_ALARMS ∧ alarmBit al uiError.toNat = true := by
  have hlt : uiError.toNat % 32 < 32 := Nat.mod_lt _ (by decide)
  simp only [AlarmManager.isAlarmSet, alarmBit]
  by_cases hnum : c.NUM_ALARMS ≤ uiError.toNat
  · rw [if_pos hnum]
    constructor
    · intro h
      cases h
    · rintro ⟨hin, _⟩
      omega
  · rw [if_neg hnum, decide_eq_true_iff, word_of, uiMask_eq,
      ← and_one_shiftLeft_ne_zero _ _ hlt]
    constructor
    · intro hpos
      refine ⟨by omega, ?_⟩
      intro hzero
      rw [hzero] at hpos
      exact absurd hpos (by decide)
    · rintro ⟨_, hne⟩
      apply BitVec.lt_def.mpr
      exact Nat.pos_of_ne_zero (fun hzero => hne (BitVec.eq_of_toNat_eq hzero))

theorem words_setAlarmBit (al : AlarmManager) (uiError : BitVec 32) :
    (al.setAlarmBit uiError).mpuiLogicErrors =
      al.mpuiLogicErrors.modify (uiError / 32).toNat
        (fun word => word ||| AlarmManager.uiMask uiError) := by
  apply List.ext_getElem?
  intro j
  simp only [AlarmManager.setAlarmBit, AlarmManager.setLogicError, AlarmManager.logicError]
  rw [List.getElem?_modify, List.getElem?_set]
  split
  · rename_i hword
    subst hword
    by_cases hin : (uiError / 32).toNat < al.mpuiLogicErrors.length
    · rw [if_pos hin, List.getElem?_eq_getElem hin]
      rfl
    · rw [if_neg hin, List.getElem?_eq_none (by omega)]
      rfl
  · exact (id_map _).symm

theorem bit_setAlarmBit (al : AlarmManager) (uiError : BitVec 32) (b : Nat) :
    bit (al.setAlarmBit uiError).mpuiLogicErrors b =
      (bit al.mpuiLogicErrors b ||
        decide (b = uiError.toNat ∧ uiError.toNat / 32 < al.mpuiLogicErrors.length)) := by
  rw [words_setAlarmBit, word_of, uiMask_eq]
  exact bit_set al.mpuiLogicErrors uiError.toNat b (by decide)

@[simp] theorem length_setAlarmBit (al : AlarmManager) (uiError : BitVec 32) :
    (al.setAlarmBit uiError).mpuiLogicErrors.length = al.mpuiLogicErrors.length :=
  List.length_set

@[simp] theorem length_setAlarm (al : AlarmManager) (uiError : BitVec 32) :
    (al.setAlarm c uiError).mpuiLogicErrors.length = al.mpuiLogicErrors.length := by
  simp only [AlarmManager.setAlarm]
  split
  · rfl
  split
  · split <;> simp
  · simp

@[simp] theorem length_clearAlarms (al : AlarmManager) :
    al.clearAlarms.mpuiLogicErrors.length = al.mpuiLogicErrors.length :=
  List.length_map _

/-- Setting an alarm sets the bits of the alarms that it raises, as far as
there are words. -/
theorem bit_setAlarm (al : AlarmManager) (uiError : BitVec 32) (b : Nat) :
    bit (al.setAlarm c uiError).mpuiLogicErrors b = true ↔
      bit al.mpuiLogicErrors b = true ∨
        (b / 32 < al.mpuiLogicErrors.length ∧ ∃ e ∈ raised c uiError, e.toNat = b) := by
  have hone : ∀ (al : AlarmManager) (e : BitVec 32),
      bit (al.setAlarmBit e).mpuiLogicErrors b = true ↔
        bit al.mpuiLogicErrors b = true ∨
          (b / 32 < al.mpuiLogicErrors.length ∧ e.toNat = b) := by
    intro al e
    rw [bit_setAlarmBit, Bool.or_eq_true, decide_eq_true_iff]
    constructor
    · rintro (hbit | ⟨rfl, hin⟩)
      · exact Or.inl hbit
      · exact Or.inr ⟨hin, rfl⟩
    · rintro (hbit | ⟨hin, rfl⟩)
      · exact Or.inl hbit
      · exact Or.inr ⟨rfl, hin⟩
  simp only [AlarmManager.setAlarm]
  by_cases hnum : c.NUM_ALARMS ≤ uiError.toNat
  · simp [raised, hnum]
  have hin : uiError.toNat < c.NUM_ALARMS := by omega
  rw [if_neg hnum]
  by_cases hlevel : c.mpuiAlarmLevels uiError = 1
  · by_cases htrip : AL_TRIPEXT ≠ uiError
    · have hraised : raised c uiError = {uiError, AL_MAYOR, AL_TRIPINT} := by
        ext e
        simp [raised, hin, hlevel, htrip.symm]
      simp only [if_pos hlevel, if_pos htrip, hone, length_setAlarmBit, hraised,
        Set.mem_insert_iff, Set.mem_singleton_iff, exists_eq_or_imp, exists_eq_left, and_or_left,
        or_assoc]
    · have hraised : raised c uiError = {uiError, AL_MAYOR} := by
        obtain rfl : AL_TRIPEXT = uiError := not_not.mp htrip
        ext e
        simp [raised, hin, hlevel]
      simp only [if_pos hlevel, if_neg htrip, hone, length_setAlarmBit, hraised,
        Set.mem_insert_iff, Set.mem_singleton_iff, exists_eq_or_imp, exists_eq_left, and_or_left,
        or_assoc]
  · have hraised : raised c uiError = {uiError, AL_MINOR} := by
      ext e
      simp only [raised, Set.mem_ofPred_eq, Set.mem_insert_iff, Set.mem_singleton_iff, hin, hlevel,
        ne_eq, not_false_eq_true, true_and, false_and, false_or]
    simp only [if_neg hlevel, hone, length_setAlarmBit, hraised, Set.mem_insert_iff,
      Set.mem_singleton_iff, exists_eq_or_imp, exists_eq_left, and_or_left, or_assoc]

/-- The alarms that a check of the drivers raises. -/
def noticed (withErrors : Bool) (img : IOImage) : Set (BitVec 32) :=
  {e | withErrors = true ∧
    ((img.slaveDrvState = .comError ∧ e ∈ raised c AL_MASTERCOM) ∨
      (img.fieldDrvState = .comError ∧ e ∈ raised c AL_FIELDCOM) ∨
      (img.fieldDrvState = .varError ∧ e ∈ raised c AL_FIELDVARS))}

/-- A check, as far as the logic alarms go. -/
theorem checkDriverErrors_logic (al : AlarmManager) (img : IOImage) (b : Nat) :
    (al.checkDriverErrors c img).mpuiLogicErrors.length = al.mpuiLogicErrors.length ∧
      (bit (al.checkDriverErrors c img).mpuiLogicErrors b = true ↔
        bit al.mpuiLogicErrors b = true ∨
          (b / 32 < al.mpuiLogicErrors.length ∧
            ∃ e ∈ noticed c al.mbWithErrors img, e.toNat = b)) := by
  have hclear : ∀ al : AlarmManager, al.clearFldStates.mpuiLogicErrors = al.mpuiLogicErrors :=
    fun _ => rfl
  have hset : ∀ al : AlarmManager, (al.setFldStates c).mpuiLogicErrors = al.mpuiLogicErrors :=
    fun _ => rfl
  simp only [noticed, AlarmManager.checkDriverErrors]
  by_cases hwith : al.mbWithErrors = true
  · simp only [hwith, if_true, true_and, Set.mem_ofPred_eq]
    by_cases hslave : img.slaveDrvState = .comError
    · simp only [hslave, if_true, true_and]
      cases hfield : img.fieldDrvState with
      | comError => simp [bit_setAlarm, or_and_right, exists_or, and_or_left, or_assoc]
      | varError =>
        simp only [reduceCtorEq, if_false, if_true]
        split <;> simp [hclear, hset, bit_setAlarm, or_and_right, exists_or, and_or_left, or_assoc]
      | running => simp only [reduceCtorEq, if_false]; split <;> simp [hclear, bit_setAlarm]
      | stopped => simp only [reduceCtorEq, if_false]; split <;> simp [hclear, bit_setAlarm]
      | unInit => simp only [reduceCtorEq, if_false]; split <;> simp [hclear, bit_setAlarm]
    · simp only [hslave, if_false, false_and, false_or]
      cases hfield : img.fieldDrvState with
      | comError => simp [bit_setAlarm]
      | varError =>
        simp only [reduceCtorEq, if_false, if_true]
        split <;> simp [hclear, hset, bit_setAlarm]
      | running => simp only [reduceCtorEq, if_false]; split <;> simp [hclear]
      | stopped => simp only [reduceCtorEq, if_false]; split <;> simp [hclear]
      | unInit => simp only [reduceCtorEq, if_false]; split <;> simp [hclear]
  · simp [hwith]

@[simp] theorem length_checkDriverErrors (al : AlarmManager) (img : IOImage) :
    (al.checkDriverErrors c img).mpuiLogicErrors.length = al.mpuiLogicErrors.length :=
  (checkDriverErrors_logic c al img 0).1

theorem bit_checkDriverErrors (al : AlarmManager) (img : IOImage) (b : Nat) :
    bit (al.checkDriverErrors c img).mpuiLogicErrors b = true ↔
      bit al.mpuiLogicErrors b = true ∨
        (b / 32 < al.mpuiLogicErrors.length ∧
          ∃ e ∈ noticed c al.mbWithErrors img, e.toNat = b) :=
  (checkDriverErrors_logic c al img b).2

structure Holds (al : AlarmManager) (alarms : Set (BitVec 32)) : Prop where
  length : al.mpuiLogicErrors.length = c.muiNumLogicErrorInts
  bits : ∀ e : BitVec 32, bit al.mpuiLogicErrors e.toNat = true ↔ e ∈ alarms

variable {c}

end Machine

end LogicAlarms
