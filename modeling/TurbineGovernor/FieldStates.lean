import TurbineGovernor.RegulatorAlarms
import TurbineGovernor.AlarmsWidget

/-!
# The quality states of the field variables

`setFldStates` of the regulator writes what `appendFieldStRep` of the HMI reads.
The writer puts the low bit of a state where the reader expects the high one.
-/

namespace FieldStates
open CommonTypes KeyedTables BitStrings RegulatorAlarms AlarmsWidget

section Numbers
variable (c : Config)

/-- The ID of a configured field variable. -/
def FieldId (id : BitVec 32) : Prop :=
  id.toNat < c.FLD_IN_VARS ∨
    (1000000000 ≤ id.toNat ∧ id.toNat < 1000000000 + c.FLD_OUT_VARS)

/-- The ID of the variable with number `n`. -/
def idOf (n : Nat) : BitVec 32 := varID c (BitVec.ofNat 32 n)

theorem idOf_toNat {n : Nat} (hn : n ≤ c.FLD_IN_VARS + c.FLD_OUT_VARS) :
    (idOf c n).toNat = if n < c.FLD_IN_VARS then n else 1000000000 + (n - c.FLD_IN_VARS) := by
  have hfit := c.vars_fit
  simp only [idOf, varID, FLD_IN_LOW_RANGE, FLD_OUT_LOW_RANGE]
  have hlt : BitVec.ofNat 32 n < BitVec.ofNat 32 c.FLD_IN_VARS ↔ n < c.FLD_IN_VARS := by
    rw [BitVec.lt_def, BitVec.toNat_ofNat, BitVec.toNat_ofNat]
    omega
  by_cases h : n < c.FLD_IN_VARS
  · rw [if_pos (hlt.mpr h), if_pos h]
    simp
    omega
  · rw [if_neg (fun h' => h (hlt.mp h')), if_neg h]
    simp only [BitVec.toNat_sub, BitVec.toNat_add, BitVec.toNat_ofNat, BitVec.reduceToNat]
    omega

theorem uiStartBit_idOf {n : Nat} (hn : n ≤ c.FLD_IN_VARS + c.FLD_OUT_VARS) :
    AlarmManager.uiStartBit c (idOf c n) = some (BitVec.ofNat 32 (2 * n)) := by
  have hfit := c.vars_fit
  have hid := idOf_toNat c hn
  unfold AlarmManager.uiStartBit FLD_IN_LOW_RANGE FLD_IN_HIGH_RANGE FLD_OUT_LOW_RANGE
    FLD_OUT_HIGH_RANGE
  by_cases h : n < c.FLD_IN_VARS
  · rw [if_pos h] at hid
    rw [if_pos (by simp only [BitVec.le_def, BitVec.reduceToNat]; omega)]
    congr 1
    apply BitVec.eq_of_toNat_eq
    simp only [BitVec.toNat_mul, BitVec.toNat_sub, BitVec.toNat_ofNat, BitVec.reduceToNat, hid]
    omega
  · rw [if_neg h] at hid
    rw [if_neg (by simp only [BitVec.le_def, BitVec.reduceToNat]; omega),
      if_pos (by simp only [BitVec.le_def, BitVec.reduceToNat]; omega)]
    congr 1
    apply BitVec.eq_of_toNat_eq
    simp only [BitVec.toNat_mul, BitVec.toNat_add, BitVec.toNat_sub, BitVec.toNat_ofNat,
      BitVec.reduceToNat, hid]
    omega

theorem idOf_inj {n n' : Nat} (hn : n ≤ c.FLD_IN_VARS + c.FLD_OUT_VARS)
    (hn' : n' ≤ c.FLD_IN_VARS + c.FLD_OUT_VARS) : idOf c n = idOf c n' ↔ n = n' := by
  constructor
  · intro h
    have hid := idOf_toNat c hn
    rw [h, idOf_toNat c hn'] at hid
    have hfit := c.vars_fit
    split at hid <;> split at hid <;> omega
  · rintro rfl
    rfl

theorem fieldId_iff (id : BitVec 32) :
    FieldId c id ↔ ∃ n < c.FLD_IN_VARS + c.FLD_OUT_VARS, id = idOf c n := by
  have hfit := c.vars_fit
  constructor
  · rintro (h | ⟨hlow, hhigh⟩)
    · refine ⟨id.toNat, by omega, BitVec.eq_of_toNat_eq ?_⟩
      rw [idOf_toNat c (by omega), if_pos h]
    · refine ⟨c.FLD_IN_VARS + (id.toNat - 1000000000), by omega, BitVec.eq_of_toNat_eq ?_⟩
      rw [idOf_toNat c (by omega), if_neg (by omega)]
      omega
  · rintro ⟨n, hn, rfl⟩
    simp only [FieldId]
    rw [idOf_toNat c (by omega)]
    split <;> omega

end Numbers

def lowBit (q : QuState) : Bool := q.code.testBit 0

def highBit (q : QuState) : Bool := q.code.testBit 1

/-- The shift by the complement of a start bit, as the processor takes it. -/
theorem shl_startBit (x : BitVec 32) (s : Nat) :
    shl x (31 - BitVec.ofNat 32 s) = x <<< (32 - 1 - s % 32) := by
  have hcount : (31 - BitVec.ofNat 32 s).toNat % 32 = 32 - 1 - s % 32 := by
    simp only [BitVec.toNat_sub, BitVec.toNat_ofNat, BitVec.reduceToNat]
    omega
  rw [shl, hcount]

section Writer
variable (c : Config)

theorem setFldState_length (words : List (BitVec 32)) (it : BitVec 32 × QuState) :
    (AlarmManager.setFldState c words it).length = words.length := by
  simp only [AlarmManager.setFldState]
  cases AlarmManager.uiStartBit c it.1 with
  | none => rfl
  | some s => simp

theorem setFldStates_length (words : List (BitVec 32)) (m : List (BitVec 32 × QuState)) :
    (m.foldl (AlarmManager.setFldState c) words).length = words.length := by
  induction m generalizing words with
  | nil => rfl
  | cons it m ih => rw [List.foldl_cons, ih, setFldState_length]

/-- What a state puts into bit `b` of its variable: the bit before the start bit
is lost where a word begins. -/
def bitOf (b : Nat) (q : QuState) : Option Bool :=
  if b % 2 = 0 then some (lowBit q)
  else if (b + 1) % 32 ≠ 0 then some (highBit q)
  else none

/-- Bit `b` is only touched by the variable with number `(b + 1) / 2`. -/
theorem bit_setFldState {words : List (BitVec 32)} (hlen : words.length = c.muiNumFieldQStatesInts)
    {n : Nat} (hn : n < c.FLD_IN_VARS + c.FLD_OUT_VARS) (q : QuState) (b : Nat) :
    bit (AlarmManager.setFldState c words (idOf c n, q)) b =
      if (b + 1) / 2 = n then (bitOf b q).getD (bit words b) else bit words b := by
  have hfit := c.vars_fit
  rw [c.muiNumFieldQStatesInts_eq] at hlen
  have hword : (BitVec.ofNat 32 (2 * n) / 32).toNat = 2 * n / 32 := by
    simp only [BitVec.toNat_udiv, BitVec.toNat_ofNat, BitVec.reduceToNat]
    omega
  simp only [AlarmManager.setFldState, bitOf]
  rw [uiStartBit_idOf c (by omega)]
  simp only [hword, shl_startBit]
  rw [bit_update _ _ _ _ (by decide)]
  have hk : 2 * n % 32 < 32 := Nat.mod_lt _ (by decide)
  have hb : b % 32 < 32 := Nat.mod_lt _ (by decide)
  by_cases hsame : b / 32 = 2 * n / 32
  · rw [if_pos ⟨hsame, by omega⟩, getMsbD_three_shiftLeft 32 _ _ hk hb,
      getMsbD_code_shiftLeft 32 _ _ _ hk hb q.code_lt]
    by_cases hlow : b = 2 * n
    · subst hlow
      simp [lowBit, show (2 * n + 1) / 2 = n by omega]
    by_cases hhigh : b + 1 = 2 * n
    · have hne : b % 32 ≠ 2 * n % 32 := by omega
      have hsucc : b % 32 + 1 = 2 * n % 32 := by omega
      have hodd : b % 2 ≠ 0 := by omega
      have hinside : 2 * n % 32 ≠ 0 := by omega
      simp [hhigh, hsucc, hne, hodd, hinside, highBit]
    · have hne : b % 32 ≠ 2 * n % 32 := by omega
      have hsucc : b % 32 + 1 ≠ 2 * n % 32 := by omega
      have howner : (b + 1) / 2 ≠ n := by omega
      simp [howner, hsucc, hne]
  · rw [if_neg (fun h => hsame h.1)]
    by_cases howner : (b + 1) / 2 = n
    · have hodd : b % 2 ≠ 0 := fun h => hsame (by rw [← howner]; congr 1; omega)
      have hedge : (b + 1) % 32 = 0 := by omega
      simp [howner, hodd, hedge]
    · rw [if_neg howner]

/-- Every key of the map is the ID of a configured variable. -/
def FieldKeys (m : List (BitVec 32 × QuState)) : Prop := ∀ it ∈ m, FieldId c it.1

/-- The bits after the loop, in any order of the map's entries. -/
theorem bit_setFldStates {words : List (BitVec 32)}
    (hlen : words.length = c.muiNumFieldQStatesInts) {m : List (BitVec 32 × QuState)}
    (unique : UniqueKeys m) (keys : FieldKeys c m) {b : Nat}
    (hb : (b + 1) / 2 ≤ c.FLD_IN_VARS + c.FLD_OUT_VARS) :
    bit (m.foldl (AlarmManager.setFldState c) words) b =
      ((m.lookup (idOf c ((b + 1) / 2))).bind (bitOf b)).getD (bit words b) := by
  induction m generalizing words with
  | nil => rfl
  | cons it m ih =>
    obtain ⟨id, q⟩ := it
    obtain ⟨hnot, hrest⟩ := List.nodup_cons.mp unique
    obtain ⟨n, hn, rfl⟩ := (fieldId_iff c id).mp (keys (id, q) List.mem_cons_self)
    rw [List.foldl_cons, ih ((setFldState_length c words _).trans hlen) hrest
      (fun it hit => keys it (List.mem_cons_of_mem _ hit)), bit_setFldState c hlen hn,
      List.lookup_cons]
    by_cases howner : (b + 1) / 2 = n
    · subst howner
      rw [lookup_eq_none_of_notMem hnot]
      simp
    · have hne : (idOf c ((b + 1) / 2) == idOf c n) = false := by
        rw [beq_eq_false_iff_ne, ne_eq, idOf_inj c hb (by omega)]
        exact howner
      rw [hne, if_neg howner]

end Writer

section Codec
variable (c : Config)

/-- The state of the variable with number `n`; a variable that is not in the map
has no error. -/
def stateOf (m : List (BitVec 32 × QuState)) (n : Nat) : QuState :=
  (m.lookup (idOf c n)).getD .ok

theorem stateOf_last {m : List (BitVec 32 × QuState)} (keys : FieldKeys c m) :
    stateOf c m (c.FLD_IN_VARS + c.FLD_OUT_VARS) = .ok := by
  simp only [stateOf]
  rw [lookup_eq_none_of_notMem]
  · rfl
  rintro hkey
  obtain ⟨it, hit, heq⟩ := List.mem_map.mp hkey
  obtain ⟨n, hn, hid⟩ := (fieldId_iff c it.1).mp (keys it hit)
  have hlast := (idOf_inj c (by omega) le_rfl).mp (hid.symm.trans heq)
  omega

/-- The words of a manager that starts from cleared ones. -/
def fieldWords (al : AlarmManager) : List (BitVec 32) :=
  (al.clearFldStates.setFldStates c).mpuiFieldQStates

theorem fieldWords_length {al : AlarmManager}
    (hlen : al.mpuiFieldQStates.length = c.muiNumFieldQStatesInts) :
    (fieldWords c al).length = c.muiNumFieldQStatesInts := by
  simp only [fieldWords, AlarmManager.setFldStates, AlarmManager.clearFldStates]
  rw [setFldStates_length, List.length_map, hlen]

/-- The reader sees the low bit of a state as the high one, and as the low one the
high bit of the state of the next variable. -/
theorem readCode_fieldWords {al : AlarmManager}
    (hlen : al.mpuiFieldQStates.length = c.muiNumFieldQStatesInts)
    (unique : UniqueKeys al.mMLastFldErrors) (keys : FieldKeys c al.mMLastFldErrors) {n : Nat}
    (hn : n < c.FLD_IN_VARS + c.FLD_OUT_VARS) :
    readCode (fieldWords c al) n =
      2 * (lowBit (stateOf c al.mMLastFldErrors n)).toNat +
        if (2 * n + 2) % 32 = 0 then 0
        else (highBit (stateOf c al.mMLastFldErrors (n + 1))).toNat := by
  have hclear : ∀ b, bit al.clearFldStates.mpuiFieldQStates b = false := by
    apply bit_of_zero
    simp [AlarmManager.clearFldStates]
  have hlen' : al.clearFldStates.mpuiFieldQStates.length = c.muiNumFieldQStatesInts := by
    simp [AlarmManager.clearFldStates, hlen]
  have hwords : ∀ b, (b + 1) / 2 ≤ c.FLD_IN_VARS + c.FLD_OUT_VARS →
      bit (fieldWords c al) b =
        ((al.mMLastFldErrors.lookup (idOf c ((b + 1) / 2))).bind (bitOf b)).getD false := by
    intro b hb
    rw [← hclear b]
    exact bit_setFldStates c hlen' unique keys hb
  simp only [readCode, stateOf]
  rw [hwords (2 * n) (by omega), hwords (2 * n + 1) (by omega),
    show (2 * n + 1) / 2 = n by omega, show (2 * n + 1 + 1) / 2 = n + 1 by omega]
  have heven : 2 * n % 2 = 0 := by omega
  have hodd : (2 * n + 1) % 2 ≠ 0 := by omega
  congr 1
  · cases al.mMLastFldErrors.lookup (idOf c n) with
    | none => rfl
    | some q => simp [bitOf]
  · by_cases hedge : (2 * n + 2) % 32 = 0
    · have hnone : bitOf (2 * n + 1) = fun _ => none := by
        funext q
        simp only [bitOf]
        rw [if_neg hodd, if_neg (fun h => h hedge)]
      rw [if_pos hedge, hnone]
      cases al.mMLastFldErrors.lookup (idOf c (n + 1)) <;> rfl
    · have hsome : bitOf (2 * n + 1) = fun q => some (highBit q) := by
        funext q
        simp only [bitOf]
        rw [if_neg hodd, if_pos hedge]
      rw [if_neg hedge, hsome]
      cases al.mMLastFldErrors.lookup (idOf c (n + 1)) <;> rfl

/-- The display reports the variables in error, each with its state. -/
def ReportsErrors (words : List (BitVec 32)) (m : List (BitVec 32 × QuState)) : Prop :=
  (genFieldStReport c appendEntry words []).Perm (m.filter (fun it => it.2 ≠ .ok))

theorem mem_report {words : List (BitVec 32)} (hlen : words.length = c.muiNumFieldQStatesInts)
    {n : Nat} (hn : n < c.FLD_IN_VARS + c.FLD_OUT_VARS) (q : QuState) :
    (idOf c n, q) ∈ genFieldStReport c appendEntry words [] ↔
      readCode words n ≠ 0 ∧ q = QuState.ofCode (readCode words n) := by
  rw [entries_eq c hlen, List.mem_filterMap]
  constructor
  · rintro ⟨n', hn', hrep⟩
    simp only [reported] at hrep
    split at hrep
    · rename_i hcode
      obtain ⟨hid, hq⟩ := Prod.mk.inj (Option.some.inj hrep)
      have hsame := (idOf_inj c (by have := List.mem_range.mp hn'; omega) (by omega)).mp hid
      subst hsame
      exact ⟨hcode, hq.symm⟩
    · cases hrep
  · rintro ⟨hcode, rfl⟩
    exact ⟨n, List.mem_range.mpr hn, if_pos hcode⟩

/-- A right report has read the state of every variable. -/
theorem readCode_of_reportsErrors {words : List (BitVec 32)}
    (hlen : words.length = c.muiNumFieldQStatesInts) {m : List (BitVec 32 × QuState)}
    (unique : UniqueKeys m) (right : ReportsErrors c words m) {n : Nat}
    (hn : n < c.FLD_IN_VARS + c.FLD_OUT_VARS) : readCode words n = (stateOf c m n).code := by
  have hmem : ∀ q, (readCode words n ≠ 0 ∧ q = QuState.ofCode (readCode words n)) ↔
      (m.lookup (idOf c n) = some q ∧ q ≠ .ok) := by
    intro q
    rw [← mem_report c hlen hn, right.mem_iff, List.mem_filter, mem_iff_lookup unique]
    simp
  have hfour : readCode words n < 4 := by
    simp only [readCode]
    have h₁ := Bool.toNat_le (bit words (2 * n))
    have h₂ := Bool.toNat_le (bit words (2 * n + 1))
    omega
  by_cases hcode : readCode words n = 0
  · have hok : stateOf c m n = .ok := by
      simp only [stateOf]
      cases hlook : m.lookup (idOf c n) with
      | none => rfl
      | some q =>
        by_contra hq
        exact ((hmem q).mpr ⟨hlook, hq⟩).1 hcode
    rw [hcode, hok]
    rfl
  · have hlook := ((hmem _).mp ⟨hcode, rfl⟩).1
    simp only [stateOf]
    rw [hlook, Option.getD_some]
    generalize readCode words n = r at hfour
    interval_cases r <;> rfl

/-- From right codes and the neighbours' bits, downwards from the last variable. -/
theorem stateOf_ok {al : AlarmManager}
    (hlen : al.mpuiFieldQStates.length = c.muiNumFieldQStatesInts)
    (unique : UniqueKeys al.mMLastFldErrors) (keys : FieldKeys c al.mMLastFldErrors)
    (right : ReportsErrors c (fieldWords c al) al.mMLastFldErrors) (k n : Nat)
    (hk : n + k = c.FLD_IN_VARS + c.FLD_OUT_VARS) : stateOf c al.mMLastFldErrors n = .ok := by
  induction k generalizing n with
  | zero =>
    rw [show n = c.FLD_IN_VARS + c.FLD_OUT_VARS by omega]
    exact stateOf_last c keys
  | succ k ih =>
    have hnext := ih (n + 1) (by omega)
    have hread := readCode_of_reportsErrors c (fieldWords_length c hlen) unique right
      (n := n) (by omega)
    rw [readCode_fieldWords c hlen unique keys (by omega), hnext] at hread
    have hzero : (if (2 * n + 2) % 32 = 0 then 0 else (highBit .ok).toNat) = 0 := by
      split <;> rfl
    rw [hzero] at hread
    revert hread
    cases stateOf c al.mMLastFldErrors n <;> decide

/-- The display is right exactly when there is nothing to report. -/
theorem reportsErrors_iff (al : AlarmManager)
    (hlen : al.mpuiFieldQStates.length = c.muiNumFieldQStatesInts)
    (unique : UniqueKeys al.mMLastFldErrors) (keys : FieldKeys c al.mMLastFldErrors) :
    ReportsErrors c (fieldWords c al) al.mMLastFldErrors ↔
      ∀ it ∈ al.mMLastFldErrors, it.2 = .ok := by
  constructor
  · rintro right ⟨id, q⟩ hit
    obtain ⟨n, hn, rfl⟩ := (fieldId_iff c id).mp (keys (id, q) hit)
    have hok := stateOf_ok c hlen unique keys right (c.FLD_IN_VARS + c.FLD_OUT_VARS - n) n
      (by omega)
    rw [stateOf, (mem_iff_lookup unique _ _).mp hit] at hok
    exact hok
  · intro hok
    have hstate : ∀ n, stateOf c al.mMLastFldErrors n = .ok := by
      intro n
      simp only [stateOf]
      cases hlook : al.mMLastFldErrors.lookup (idOf c n) with
      | none => rfl
      | some q => exact hok _ (mem_of_lookup hlook)
    have hread : ∀ n < c.FLD_IN_VARS + c.FLD_OUT_VARS, readCode (fieldWords c al) n = 0 := by
      intro n hn
      rw [readCode_fieldWords c hlen unique keys hn, hstate, hstate]
      split <;> rfl
    simp only [ReportsErrors]
    rw [entries_eq c (fieldWords_length c hlen)]
    have hnone : (List.range (c.FLD_IN_VARS + c.FLD_OUT_VARS)).filterMap
        (reported c (fieldWords c al)) = [] := by
      rw [List.filterMap_eq_nil_iff]
      intro n hn
      exact if_neg (fun h => h (hread n (List.mem_range.mp hn)))
    have hfilter : al.mMLastFldErrors.filter (fun it => it.2 ≠ .ok) = [] := by
      rw [List.filter_eq_nil_iff]
      intro it hit
      simp [hok it hit]
    rw [hnone, hfilter]

end Codec

/-- The manager with the constructor's words and the given errors. -/
def withErrors (m : List (BitVec 32 × QuState)) : AlarmManager :=
  { AlarmManager.construct Config.regulator (fun _ => 0) (fun _ => 0) with mMLastFldErrors := m }

/-- An input and an output in different words. -/
theorem twoErrors_misreported :
    ¬ ReportsErrors Config.regulator
      (fieldWords Config.regulator (withErrors [(3, .comError), (1000000004, .overRange)]))
      [(3, .comError), (1000000004, .overRange)] :=
  fun right => absurd
    ((reportsErrors_iff Config.regulator (withErrors [(3, .comError), (1000000004, .overRange)])
      rfl (by unfold UniqueKeys; decide) (by unfold FieldKeys FieldId; decide)).mp right)
    (by decide)

/-- The variable with ID 1 above its range is shown below it. -/
theorem overRange_shown_underRange :
    genFieldStReport Config.regulator appendEntry
        (fieldWords Config.regulator (withErrors [(1, .overRange)])) [] = [(1, .underRange)] ∧
      ¬ ReportsErrors Config.regulator
        (fieldWords Config.regulator (withErrors [(1, .overRange)])) [(1, .overRange)] := by
  have hreport : genFieldStReport Config.regulator appendEntry
      (fieldWords Config.regulator (withErrors [(1, .overRange)])) [] = [(1, .underRange)] := by
    decide
  refine ⟨hreport, ?_⟩
  simp only [ReportsErrors]
  rw [hreport]
  decide

end FieldStates
