import TurbineGovernor.CommonTypes
import TurbineGovernor.KeyedTables
import TurbineGovernor.BitStrings

/-!
# The alarm manager of the regulator

Logic alarms are bits of `mpuiLogicErrors`, the quality states of the field
variables pairs of bits of `mpuiFieldQStates`. Shift counts are taken modulo
32, as the shift instructions do; the language leaves larger ones undefined,
and `setFldStates` has them from the second word on.
-/

namespace RegulatorAlarms
open CommonTypes KeyedTables BitStrings

def FLD_IN_LOW_RANGE : BitVec 32 := 0
def FLD_IN_HIGH_RANGE : BitVec 32 := 999999999
def FLD_OUT_LOW_RANGE : BitVec 32 := 1000000000
def FLD_OUT_HIGH_RANGE : BitVec 32 := 1999999999

def AL_TRIPEXT : BitVec 32 := 0
def AL_TRIPINT : BitVec 32 := 1
def AL_MAYOR : BitVec 32 := 2
def AL_MINOR : BitVec 32 := 3
def AL_FIELDCOM : BitVec 32 := 4
def AL_FIELDVARS : BitVec 32 := 5
def AL_MASTERCOM : BitVec 32 := 6

/-- The conversion of an integer to `float`: to 24 significant bits, halves to
the even neighbour. -/
def toFloat (n : Nat) : Nat :=
  let k := n.log2 + 1 - 24
  let quotient := n / 2 ^ k
  let rest := n % 2 ^ k
  if 2 * rest < 2 ^ k ∨ (2 * rest = 2 ^ k ∧ quotient % 2 = 0) then quotient * 2 ^ k
  else (quotient + 1) * 2 ^ k

/-- `ceil(n / (float) 32)`; the division by a power of two is exact. -/
def numInts (n : Nat) : Nat := (toFloat n + 31) / 32

theorem toFloat_of_le {n : Nat} (h : n ≤ 2 ^ 24) : toFloat n = n := by
  simp only [toFloat]
  rcases Nat.lt_or_eq_of_le h with hlt | rfl
  · have hlog : n.log2 + 1 - 24 = 0 := by
      rcases Nat.eq_zero_or_pos n with rfl | hpos
      · rfl
      · have := (Nat.log2_lt (by omega)).mpr hlt
        omega
    rw [hlog]
    simp [Nat.mod_one]
  · decide

theorem numInts_of_le {n : Nat} (h : n ≤ 2 ^ 24) : numInts n = (n + 31) / 32 := by
  rw [numInts, toFloat_of_le h]

/-- Rounding does not leave a range that ends at a power of two. -/
theorem toFloat_le {n m : Nat} (h : n < 2 ^ m) : toFloat n ≤ 2 ^ m := by
  unfold toFloat
  have hlog : n.log2 + 1 - 24 ≤ m := by
    rcases Nat.eq_zero_or_pos n with rfl | hpos
    · simp [Nat.log2_zero]
    · have := (Nat.log2_lt (by omega)).mpr h
      omega
  generalize n.log2 + 1 - 24 = k at hlog
  have hsplit : 2 ^ m = 2 ^ k * 2 ^ (m - k) := by
    rw [← Nat.pow_add, Nat.add_sub_cancel' hlog]
  have hquotient : n / 2 ^ k < 2 ^ (m - k) := Nat.div_lt_of_lt_mul (hsplit ▸ h)
  have hup : (n / 2 ^ k + 1) * 2 ^ k ≤ 2 ^ m := by
    rw [hsplit, Nat.mul_comm]
    exact Nat.mul_le_mul_left _ hquotient
  dsimp only
  split
  · exact le_trans (Nat.mul_le_mul_right _ (Nat.le_succ _)) hup
  · exact hup

theorem le_toFloat {n : Nat} (h : 2 ^ 24 ≤ n) : 2 ^ 24 ≤ toFloat n := by
  unfold toFloat
  have hlog : 24 ≤ n.log2 := (Nat.le_log2 (by omega)).mpr h
  have hself : 2 ^ n.log2 ≤ n := Nat.log2_self_le (by omega)
  have hsplit : 2 ^ n.log2 = 2 ^ (n.log2 + 1 - 24) * 2 ^ 23 := by
    rw [← Nat.pow_add]
    congr 1
    omega
  have hk : 1 ≤ n.log2 + 1 - 24 := by omega
  generalize n.log2 + 1 - 24 = k at hsplit hk
  have hquotient : 2 ^ 23 ≤ n / 2 ^ k := by
    apply (Nat.le_div_iff_mul_le (Nat.two_pow_pos k)).mpr
    rw [Nat.mul_comm, ← hsplit]
    exact hself
  have htwo : 2 ≤ 2 ^ k := le_trans (by decide : 2 ≤ 2 ^ 1) (Nat.pow_le_pow_right Nat.two_pos hk)
  have hdown : 2 ^ 24 ≤ n / 2 ^ k * 2 ^ k :=
    le_trans (by decide : 2 ^ 24 ≤ 2 ^ 23 * 2) (Nat.mul_le_mul hquotient htwo)
  dsimp only
  split
  · exact hdown
  · exact le_trans hdown (Nat.mul_le_mul_right _ (Nat.le_succ _))

/-- Few words are counted exactly. -/
theorem numInts_of_few {n : Nat} (h : numInts n < 2 ^ 19) : numInts n = (n + 31) / 32 := by
  by_cases hn : n ≤ 2 ^ 24
  · exact numInts_of_le hn
  · have hfloat := le_toFloat (n := n) (by omega)
    simp only [numInts] at h
    omega

/-- The macros of `Alarms.h` and `RegIDS.h`. The number of alarms is an `int`;
up to `vars_fit` the words of the variables are counted exactly. -/
structure Config where
  NUM_ALARMS : Nat
  ALARM_LEVELS : List (BitVec 8)
  FLD_IN_VARS : Nat
  FLD_OUT_VARS : Nat
  alarms_int : NUM_ALARMS < 2 ^ 31
  vars_fit : (FLD_IN_VARS + FLD_OUT_VARS) * 2 ≤ 2 ^ 24

namespace Config

def regulator : Config where
  NUM_ALARMS := 21
  ALARM_LEVELS := [1, 1, 1, 0, 1, 0, 0, 1, 0, 1, 1, 1, 0, 0, 0, 1, 1, 1, 1, 1, 1]
  FLD_IN_VARS := 35
  FLD_OUT_VARS := 26
  alarms_int := by decide
  vars_fit := by decide

variable (c : Config)

def muiNumLogicErrorInts : Nat := numInts c.NUM_ALARMS

def muiNumFieldQStatesInts : Nat := numInts ((c.FLD_IN_VARS + c.FLD_OUT_VARS) * 2)

theorem muiNumFieldQStatesInts_eq :
    c.muiNumFieldQStatesInts = ((c.FLD_IN_VARS + c.FLD_OUT_VARS) * 2 + 31) / 32 :=
  numInts_of_le c.vars_fit

/-- The array is initialised from the list; missing elements are zero. -/
def mpuiAlarmLevels (uiError : BitVec 32) : BitVec 8 := (c.ALARM_LEVELS[uiError.toNat]?).getD 0

end Config

/-- `x << n` on 32 bits. -/
def shl (x n : BitVec 32) : BitVec 32 := x <<< (n.toNat % 32)

/-- The drivers' states and errors, and the address index of the image, whose
variables are known by their IDs. -/
structure IOImage where
  fieldDrvState : DrvState
  slaveDrvState : DrvState
  mVarErrors : List (IOAddr × QuState)
  mMFieldAddrIndex : List (IOAddr × BitVec 32)

/-- `mErrors` is not cleared before the insertions. -/
def IOImage.getFldErrors (img : IOImage) (mErrors : List (BitVec 32 × QuState)) :
    List (BitVec 32 × QuState) :=
  img.mVarErrors.foldl (fun mErrors it =>
    match img.mMFieldAddrIndex.lookup it.1 with
    | some id => insertKey mErrors id it.2
    | none => mErrors) mErrors

/-- `pastLogicErrors` is the memory after the last word of `mpuiLogicErrors`, which a
manager with too few words writes and reads. Nothing reads what lies after
`mpuiFieldQStates`. -/
structure AlarmManager where
  mbWithErrors : Bool
  mpuiLogicErrors : List (BitVec 32)
  mpuiFieldQStates : List (BitVec 32)
  mMLastFldErrors : List (BitVec 32 × QuState)
  pastLogicErrors : Nat → BitVec 32

namespace AlarmManager
variable (c : Config) (al : AlarmManager)

/-- The constructor; the arrays come from the heap as they are. -/
def construct (logicMemory fieldMemory : Nat → BitVec 32) : AlarmManager where
  mbWithErrors := false
  mpuiLogicErrors := (List.range c.muiNumLogicErrorInts).map logicMemory
  mpuiFieldQStates := (List.range c.muiNumFieldQStatesInts).map fieldMemory
  mMLastFldErrors := []
  pastLogicErrors := fun i => logicMemory (c.muiNumLogicErrorInts + i)

def driverFailed : AlarmManager := { al with mbWithErrors := true }

def clearFldStates : AlarmManager :=
  { al with mpuiFieldQStates := al.mpuiFieldQStates.map (fun _ => 0) }

/-- The first of a variable's bits; `none` for an ID of no field variable. -/
def uiStartBit (id : BitVec 32) : Option (BitVec 32) :=
  if FLD_IN_LOW_RANGE ≤ id ∧ id ≤ FLD_IN_HIGH_RANGE then
    some ((id - FLD_IN_LOW_RANGE) * 2)
  else if FLD_OUT_LOW_RANGE ≤ id ∧ id ≤ FLD_OUT_HIGH_RANGE then
    some ((id - FLD_OUT_LOW_RANGE + BitVec.ofNat 32 c.FLD_IN_VARS) * 2)
  else none

def setFldState (mpuiFieldQStates : List (BitVec 32)) (it : BitVec 32 × QuState) :
    List (BitVec 32) :=
  match uiStartBit c it.1 with
  | none => mpuiFieldQStates
  | some uiStartBit =>
    mpuiFieldQStates.modify (uiStartBit / 32).toNat (fun word =>
      word &&& ~~~(shl 3#32 (31 - uiStartBit)) |||
        shl (BitVec.ofNat 32 it.2.code) (31 - uiStartBit))

/-- The map is iterated in the order of the list. -/
def setFldStates : AlarmManager :=
  { al with mpuiFieldQStates := al.mMLastFldErrors.foldl (setFldState c) al.mpuiFieldQStates }

def clearAlarms : AlarmManager :=
  { al with mpuiLogicErrors := al.mpuiLogicErrors.map (fun _ => 0) }

def uiMask (uiError : BitVec 32) : BitVec 32 := shl 1#32 (31 - uiError % 32)

/-- `mpuiLogicErrors[i]`, also past the end. -/
def logicError (i : Nat) : BitVec 32 :=
  (al.mpuiLogicErrors[i]?).getD (al.pastLogicErrors (i - al.mpuiLogicErrors.length))

def setLogicError (i : Nat) (word : BitVec 32) : AlarmManager :=
  { al with
      mpuiLogicErrors := al.mpuiLogicErrors.set i word
      pastLogicErrors := fun j =>
        if al.mpuiLogicErrors.length + j = i then word else al.pastLogicErrors j }

def isAlarmSet (uiError : BitVec 32) : Bool :=
  if c.NUM_ALARMS ≤ uiError.toNat then false
  else decide (al.logicError (uiError / 32).toNat &&& uiMask uiError > 0)

def setAlarmBit (uiError : BitVec 32) : AlarmManager :=
  al.setLogicError (uiError / 32).toNat (al.logicError (uiError / 32).toNat ||| uiMask uiError)

def setAlarm (uiError : BitVec 32) : AlarmManager :=
  if c.NUM_ALARMS ≤ uiError.toNat then al
  else
    let al := al.setAlarmBit uiError
    if c.mpuiAlarmLevels uiError = 1 then
      let al := al.setAlarmBit AL_MAYOR
      if AL_TRIPEXT ≠ uiError then al.setAlarmBit AL_TRIPINT else al
    else al.setAlarmBit AL_MINOR

def checkDriverErrors (img : IOImage) : AlarmManager :=
  if al.mbWithErrors then
    let al := { al with mbWithErrors := false }
    let fldState := img.fieldDrvState
    let slvState := img.slaveDrvState
    let al := if slvState = .comError then al.setAlarm c AL_MASTERCOM else al
    if fldState = .comError then al.setAlarm c AL_FIELDCOM
    else if fldState = .varError then
      let al := { al with mbWithErrors := true }
      let al := al.setAlarm c AL_FIELDVARS
      let al := { al with mMLastFldErrors := img.getFldErrors al.mMLastFldErrors }
      if al.mMLastFldErrors.isEmpty then al else al.clearFldStates.setFldStates c
    else
      if al.mMLastFldErrors.isEmpty then al
      else { al with mMLastFldErrors := [] }.clearFldStates
  else al

end AlarmManager

/-- The manager without its logic alarms. -/
def fieldPart (al : AlarmManager) : Bool × List (BitVec 32) × List (BitVec 32 × QuState) :=
  (al.mbWithErrors, al.mpuiFieldQStates, al.mMLastFldErrors)

theorem parts_of {al : AlarmManager} {withErrors : Bool} {words : List (BitVec 32)}
    {errors : List (BitVec 32 × QuState)} (h : fieldPart al = (withErrors, words, errors)) :
    al.mbWithErrors = withErrors ∧ al.mpuiFieldQStates = words ∧ al.mMLastFldErrors = errors := by
  obtain ⟨hflag, hrest⟩ := Prod.mk.inj h
  exact ⟨hflag, Prod.mk.inj hrest⟩

theorem setAlarm_logic (c : Config) (al : AlarmManager) (uiError : BitVec 32) :
    ∃ words past, al.setAlarm c uiError =
      { al with mpuiLogicErrors := words, pastLogicErrors := past } := by
  simp only [AlarmManager.setAlarm, AlarmManager.setAlarmBit, AlarmManager.setLogicError]
  split
  · exact ⟨_, _, rfl⟩
  split
  · split <;> exact ⟨_, _, rfl⟩
  · exact ⟨_, _, rfl⟩

/-- A check, as far as the states of the variables go. -/
theorem fieldPart_checkDriverErrors (c : Config) (al : AlarmManager) (img : IOImage) :
    fieldPart (al.checkDriverErrors c img) =
      if al.mbWithErrors then
        if img.fieldDrvState = .comError then
          (false, al.mpuiFieldQStates, al.mMLastFldErrors)
        else if img.fieldDrvState = .varError then
          let errors := img.getFldErrors al.mMLastFldErrors
          (true,
            if errors.isEmpty then al.mpuiFieldQStates
            else errors.foldl (AlarmManager.setFldState c) (al.mpuiFieldQStates.map (fun _ => 0)),
            errors)
        else
          (false,
            if al.mMLastFldErrors.isEmpty then al.mpuiFieldQStates
            else al.mpuiFieldQStates.map (fun _ => 0),
            [])
      else fieldPart al := by
  simp only [AlarmManager.checkDriverErrors]
  by_cases hflag : al.mbWithErrors = true
  · rw [if_pos hflag, if_pos hflag]
    have hslave : ∃ words past,
        (if img.slaveDrvState = .comError then
          { al with mbWithErrors := false }.setAlarm c AL_MASTERCOM
        else { al with mbWithErrors := false }) =
        { al with
            mbWithErrors := false, mpuiLogicErrors := words, pastLogicErrors := past } := by
      split
      · exact setAlarm_logic c _ AL_MASTERCOM
      · exact ⟨_, _, rfl⟩
    obtain ⟨words, past, hwords⟩ := hslave
    simp only [hwords]
    by_cases hcom : img.fieldDrvState = .comError
    · obtain ⟨words', past', hwords'⟩ := setAlarm_logic c
        { al with mbWithErrors := false, mpuiLogicErrors := words, pastLogicErrors := past }
        AL_FIELDCOM
      rw [if_pos hcom, if_pos hcom, hwords']
      rfl
    rw [if_neg hcom, if_neg hcom]
    by_cases hvar : img.fieldDrvState = .varError
    · obtain ⟨words', past', hwords'⟩ := setAlarm_logic c
        { al with mbWithErrors := true, mpuiLogicErrors := words, pastLogicErrors := past }
        AL_FIELDVARS
      rw [if_pos hvar, if_pos hvar]
      simp only [hwords']
      by_cases hempty : (img.getFldErrors al.mMLastFldErrors).isEmpty = true
      · rw [if_pos hempty, if_pos hempty]
        rfl
      · rw [if_neg hempty, if_neg hempty]
        rfl
    · rw [if_neg hvar, if_neg hvar]
      by_cases hempty : al.mMLastFldErrors.isEmpty = true
      · have hnil : al.mMLastFldErrors = [] := List.isEmpty_iff.mp hempty
        rw [if_pos hempty, if_pos hempty, fieldPart, hnil]
      · rw [if_neg hempty, if_neg hempty]
        rfl
  · rw [if_neg hflag, if_neg hflag]

/-- The driver's errors in their order, without those of unknown addresses. -/
def translated (img : IOImage) : List (BitVec 32 × QuState) :=
  img.mVarErrors.filterMap
    (fun it => (img.mMFieldAddrIndex.lookup it.1).map (fun id => (id, it.2)))

theorem lookup_getFldErrors (img : IOImage) (mErrors : List (BitVec 32 × QuState))
    (id : BitVec 32) :
    (img.getFldErrors mErrors).lookup id = (mErrors.lookup id).or ((translated img).lookup id) := by
  rw [← lookup_insertAll]
  congr 1
  simp only [IOImage.getFldErrors, translated]
  induction img.mVarErrors generalizing mErrors with
  | nil => rfl
  | cons it its ih =>
    rw [List.foldl_cons, ih, List.filterMap_cons]
    cases img.mMFieldAddrIndex.lookup it.1 <;> rfl

end RegulatorAlarms
