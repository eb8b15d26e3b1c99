import TurbineGovernor.AlarmsWidget
import TurbineGovernor.LogicDisplay
import TurbineGovernor.WordLayout
import TurbineGovernor.ViewParts

/-!
# The alarm page of the HMI

`AlarmsWdg` keeps the words of both groups, with the numbers of words that
`RegImage` has computed. Each word that arrives adds what is new in it to the
log, without date and time here, and the list of what is active is made anew.
-/

namespace AlarmsDisplay
open CommonTypes BitStrings RegulatorAlarms AlarmsWidget LogicDisplay WordLayout
open TransitionRuns ReportedViews

/-- A line of the log: an alarm or the state of a variable. -/
inductive LogLine where
  | alarm (i : Nat)
  | signal (varID : BitVec 32) (qState : QuState)
  deriving DecidableEq

/-- The descriptions of `Alarms.h` and of the variables. -/
structure Texts where
  mStrLogicErrors : Nat → String
  getVarTag : BitVec 32 → String
  getVarDesc : BitVec 32 → String

/-- The paragraphs of the display of active alarms. -/
def updateAlarmsDisplay (strLogicErrors strFieldSt : String) : List String :=
  if strLogicErrors = "" ∧ strFieldSt = "" then
    ["<p style=\"color:green\">:: La regulación funciona correctamente</p>"]
  else
    (if strLogicErrors ≠ "" then
      ["<pre style=\"color:red\">:: Alarmas:\n" ++ strLogicErrors ++ "</pre>", "<p></p>"]
    else []) ++
    if strFieldSt ≠ "" then
      ["<pre style=\"color:red\">:: Fallos en señales:\n" ++ strFieldSt ++ "</pre>"]
    else []

section Widget
variable (c : Config)

/-- `getNumLogicErrorInts` and `getNumFieldStInts` of the image. -/
def words : Counts := regImage c.NUM_ALARMS c.FLD_IN_VARS c.FLD_OUT_VARS

structure AlarmsWdg where
  mpLogicErrors : List (BitVec 32)
  mpFieldSt : List (BitVec 32)
  txtEditLastAl : List LogLine
  txtEditActive : List String
  logicLength : mpLogicErrors.length = (words c).muiNumLogicErrorInts
  fieldLength : mpFieldSt.length = (words c).muiNumFieldQStatesInts

/-- A state that is new in the word, and not `OK`. -/
def newState (uiVal oldInt : BitVec 32) (s : AlarmsWidget.Scan (List LogLine)) (i : Nat) :
    AlarmsWidget.Scan (List LogLine) :=
  let newQuState := s.mask &&& uiVal
  let oldQuState := s.mask &&& oldInt
  { mask := s.mask >>> NUM_QUSTATE_BITS
    varOffset := s.varOffset + 1
    strRep :=
      if newQuState ≠ 0 ∧ newQuState ≠ oldQuState then
        s.strRep ++ [.signal (varID c s.varOffset)
          (QuState.ofCode (newQuState >>> (32 - NUM_QUSTATE_BITS - i)).toNat)]
      else s.strRep }

namespace AlarmsWdg

/-- The arrays come from the heap as they are. -/
def construct (logicMemory fieldMemory : Nat → BitVec 32) : AlarmsWdg c where
  mpLogicErrors := (List.range (words c).muiNumLogicErrorInts).map logicMemory
  mpFieldSt := (List.range (words c).muiNumFieldQStatesInts).map fieldMemory
  txtEditLastAl := []
  txtEditActive := []
  logicLength := by simp
  fieldLength := by simp

variable {c} (t : Texts) (w : AlarmsWdg c)

def active : List String :=
  updateAlarmsDisplay (genLogicErrorsReport c (appendAlarm t.mStrLogicErrors) w.mpLogicErrors "")
    (genFieldStReport c (appendLine t.getVarTag t.getVarDesc) w.mpFieldSt "")

/-- The lines of the log for a word of alarms. -/
def newAlarms (uiVal intID : BitVec 32) : List LogLine :=
  let idx := intID - 1
  let oldInt := (w.mpLogicErrors[idx.toNat]?).getD 0
  let newErrors := (uiVal ^^^ oldInt) &&& ~~~oldInt
  scanWord c (fun log i => log ++ [.alarm i]) newErrors idx []

/-- The lines of the log for a word of states. -/
def newStates (uiVal intID : BitVec 32) : List LogLine :=
  let idx := intID - 1 - BitVec.ofNat 32 (words c).muiNumLogicErrorInts
  let oldInt := (w.mpFieldSt[idx.toNat]?).getD 0
  let mask := QUSTATE_MASK <<< (32 - NUM_QUSTATE_BITS)
  let bitOffset := 32 * idx
  let varOffset := bitOffset / BitVec.ofNat 32 NUM_QUSTATE_BITS
  let iStopBit := min 32
    (BitVec.ofNat 32 ((c.FLD_IN_VARS + c.FLD_OUT_VARS) * NUM_QUSTATE_BITS) - bitOffset).toNat
  ((List.range' 0 ((iStopBit + 1) / 2) NUM_QUSTATE_BITS).foldl (newState c uiVal oldInt)
    ⟨mask, varOffset, []⟩).strRep

def logicErrorIntChanged (uiVal intID : BitVec 32) : AlarmsWdg c :=
  { w with
    mpLogicErrors := w.mpLogicErrors.set (intID - 1).toNat uiVal
    txtEditLastAl := w.txtEditLastAl ++ w.newAlarms uiVal intID
    logicLength := by rw [List.length_set, w.logicLength] }

def fieldStIntChanged (uiVal intID : BitVec 32) : AlarmsWdg c :=
  { w with
    mpFieldSt :=
      w.mpFieldSt.set (intID - 1 - BitVec.ofNat 32 (words c).muiNumLogicErrorInts).toNat uiVal
    txtEditLastAl := w.txtEditLastAl ++ w.newStates uiVal intID
    fieldLength := by rw [List.length_set, w.fieldLength] }

def roIntChanged (uiVal intID : BitVec 32) : AlarmsWdg c :=
  if intID > 0 then
    if intID.toNat ≤ (words c).muiNumLogicErrorInts then
      let w := w.logicErrorIntChanged uiVal intID
      { w with txtEditActive := w.active t }
    else if intID.toNat ≤ (words c).muiNumFieldQStatesInts + (words c).muiNumLogicErrorInts then
      let w := w.fieldStIntChanged uiVal intID
      { w with txtEditActive := w.active t }
    else w
  else w

end AlarmsWdg

end Widget

/-- The number in the bits `2 * k` and `2 * k + 1` of a word. -/
def stateCode (v : BitVec 32) (k : Nat) : Nat :=
  2 * (v.getMsbD (2 * k)).toNat + (v.getMsbD (2 * k + 1)).toNat

theorem same_state (u v : BitVec 32) {k : Nat} (hk : k < 16) :
    window 32 (2 * k) &&& v = window 32 (2 * k) &&& u ↔ stateCode v k = stateCode u k := by
  have hzero := window_eq_zero (v ^^^ u) (2 * k) (by omega)
  have hxor : window 32 (2 * k) &&& (v ^^^ u) =
      (window 32 (2 * k) &&& v) ^^^ (window 32 (2 * k) &&& u) := by
    apply BitVec.eq_of_getLsbD_eq
    intro i _
    simp only [BitVec.getLsbD_and, BitVec.getLsbD_xor, Bool.and_xor_distrib_left]
  rw [window_read _ _ (by omega), BitVec.getMsbD_xor, BitVec.getMsbD_xor, hxor] at hzero
  rw [← BitVec.xor_eq_zero_iff]
  refine hzero.trans ?_
  simp only [stateCode]
  cases v.getMsbD (2 * k) <;> cases v.getMsbD (2 * k + 1) <;> cases u.getMsbD (2 * k) <;>
    cases u.getMsbD (2 * k + 1) <;> decide

section Words
variable {c : Config}

theorem logicInts_le : (words c).muiNumLogicErrorInts ≤ 2 ^ 26 := numInts_le

/-- The integer division leaves no word that is not full. -/
theorem fieldInts_full :
    16 * (words c).muiNumFieldQStatesInts ≤ c.FLD_IN_VARS + c.FLD_OUT_VARS := by
  simp only [words, regImage]
  omega

theorem fieldInts_le : (words c).muiNumFieldQStatesInts ≤ 2 ^ 19 := by
  have hfit := c.vars_fit
  have hfull := fieldInts_full (c := c)
  omega

theorem logicIndex {i : Nat} (hi : i < (words c).muiNumLogicErrorInts) :
    BitVec.ofNat 32 (i + 1) - 1 = BitVec.ofNat 32 i ∧ (BitVec.ofNat 32 i).toNat = i :=
  index_of hi

theorem fieldIndex {j : Nat} (hj : j < (words c).muiNumFieldQStatesInts) :
    BitVec.ofNat 32 (j + 1 + (words c).muiNumLogicErrorInts) - 1 -
        BitVec.ofNat 32 (words c).muiNumLogicErrorInts = BitVec.ofNat 32 j ∧
      (BitVec.ofNat 32 j).toNat = j := by
  have hfield := fieldInts_le (c := c)
  constructor
  · rw [Nat.add_right_comm, BitVec.ofNat_add, BitVec.ofNat_add]
    have hone : BitVec.ofNat 32 1 = 1 := rfl
    rw [hone, BitVec.add_sub_cancel, BitVec.add_sub_cancel]
  · rw [BitVec.toNat_ofNat]
    omega

/-- The alarms of word `j` that a new value brings. -/
def comeIn (c : Config) (j : Nat) (u v : BitVec 32) : List LogLine :=
  ((List.range' (32 * j) (min (32 * j + 32) c.NUM_ALARMS - 32 * j)).filter
    (fun e => !u.getMsbD (e - 32 * j) && v.getMsbD (e - 32 * j))).map LogLine.alarm

theorem newAlarms_eq (w : AlarmsWdg c) {j : Nat} (hj : j < (words c).muiNumLogicErrorInts)
    (v : BitVec 32) : w.newAlarms v (BitVec.ofNat 32 (j + 1)) =
      comeIn c j ((w.mpLogicErrors[j]?).getD 0) v := by
  obtain ⟨hindex, hnat⟩ := logicIndex hj
  simp only [AlarmsWdg.newAlarms]
  simp only [hindex, hnat]
  generalize (w.mpLogicErrors[j]?).getD 0 = u
  rw [scanWord_eq _ _ hj, List.foldl_append_eq_append, List.nil_append, comeIn, ← List.flatMap_def,
    ← List.map_eq_flatMap]
  congr 1
  apply List.filter_congr
  intro e he
  rw [List.mem_range'_1] at he
  have hlt : e - 32 * j < 32 := by omega
  rw [BitVec.getMsbD_and, BitVec.getMsbD_xor, BitVec.getMsbD_not]
  cases u.getMsbD (e - 32 * j) <;> cases v.getMsbD (e - 32 * j) <;> simp [hlt]

/-- The line of variable `16 * j + k`, the `k`-th of its word. -/
def newSignal (c : Config) (j : Nat) (u v : BitVec 32) (k : Nat) : Option LogLine :=
  if stateCode v k ≠ 0 ∧ stateCode v k ≠ stateCode u k then
    some (.signal (varID c (BitVec.ofNat 32 (16 * j + k))) (QuState.ofCode (stateCode v k)))
  else none

theorem newState_loop (u v : BitVec 32) (j n k : Nat) (log : List LogLine) (fits : k + n ≤ 16) :
    (List.range' (2 * k) n 2).foldl (newState c v u)
        ⟨window 32 (2 * k), BitVec.ofNat 32 (16 * j + k), log⟩ =
      ⟨window 32 (2 * (k + n)), BitVec.ofNat 32 (16 * j + (k + n)),
        log ++ (List.range' k n).filterMap (newSignal c j u v)⟩ := by
  induction n generalizing k log with
  | zero => simp
  | succ n ih =>
    have hread : ((window 32 (2 * k) &&& v) >>> (32 - 2 - 2 * k)).toNat = stateCode v k :=
      window_read v (2 * k) (by omega)
    have hnew : (window 32 (2 * k) &&& v ≠ 0 ∧
          window 32 (2 * k) &&& v ≠ window 32 (2 * k) &&& u) ↔
        (stateCode v k ≠ 0 ∧ stateCode v k ≠ stateCode u k) := by
      rw [ne_eq, ne_eq, window_eq_zero v (2 * k) (by omega), hread,
        same_state u v (by omega)]
    have hturn : newState c v u ⟨window 32 (2 * k), BitVec.ofNat 32 (16 * j + k), log⟩ (2 * k) =
        ⟨window 32 (2 * (k + 1)), BitVec.ofNat 32 (16 * j + (k + 1)),
          log ++ (newSignal c j u v k).toList⟩ := by
      simp only [newState, NUM_QUSTATE_BITS, window_shift, hread, newSignal]
      rw [← Nat.add_assoc, BitVec.ofNat_add (16 * j + k)]
      by_cases hchanged : stateCode v k ≠ 0 ∧ stateCode v k ≠ stateCode u k
      · rw [if_pos hchanged, if_pos (hnew.mpr hchanged)]
        rfl
      · rw [if_neg hchanged, if_neg (fun h => hchanged (hnew.mp h)), Option.toList_none,
          List.append_nil]
        rfl
    rw [List.range'_succ, List.foldl_cons, hturn, show 2 * k + 2 = 2 * (k + 1) by omega,
      ih (k + 1) _ (by omega), show k + 1 + n = k + (n + 1) by omega, List.range'_succ,
      List.filterMap_cons, List.append_assoc]
    cases newSignal c j u v k <;> rfl

/-- The variables of word `j` whose state a new value changes to an error. -/
def changeIn (c : Config) (j : Nat) (u v : BitVec 32) : List LogLine :=
  (List.range 16).filterMap (newSignal c j u v)

theorem newStates_eq (w : AlarmsWdg c) {j : Nat} (hj : j < (words c).muiNumFieldQStatesInts)
    (v : BitVec 32) :
    w.newStates v (BitVec.ofNat 32 (j + 1 + (words c).muiNumLogicErrorInts)) =
      changeIn c j ((w.mpFieldSt[j]?).getD 0) v := by
  obtain ⟨hindex, hnat⟩ := fieldIndex hj
  have hfull := fieldInts_full (c := c)
  have hfit := c.vars_fit
  have hoffset : (32 : BitVec 32) * BitVec.ofNat 32 j = BitVec.ofNat 32 (32 * j) := by
    rw [BitVec.ofNat_mul]
    rfl
  have hvar : BitVec.ofNat 32 (32 * j) / BitVec.ofNat 32 2 = BitVec.ofNat 32 (16 * j + 0) := by
    apply BitVec.eq_of_toNat_eq
    rw [BitVec.toNat_udiv, BitVec.toNat_ofNat, BitVec.toNat_ofNat, BitVec.toNat_ofNat,
      Nat.mod_eq_of_lt (show 2 < 2 ^ 32 by decide)]
    omega
  have hstop : (BitVec.ofNat 32 ((c.FLD_IN_VARS + c.FLD_OUT_VARS) * 2) -
      BitVec.ofNat 32 (32 * j)).toNat = (c.FLD_IN_VARS + c.FLD_OUT_VARS) * 2 - 32 * j := by
    rw [BitVec.toNat_sub, BitVec.toNat_ofNat, BitVec.toNat_ofNat]
    omega
  simp only [AlarmsWdg.newStates, NUM_QUSTATE_BITS, QUSTATE_MASK]
  simp only [hindex, hnat, hoffset, hvar, hstop]
  have hmask : (3 : BitVec 32) <<< (32 - 2) = window 32 (2 * 0) := rfl
  rw [hmask, show (min 32 ((c.FLD_IN_VARS + c.FLD_OUT_VARS) * 2 - 32 * j) + 1) / 2 = 16 by omega]
  have hloop := newState_loop (c := c) ((w.mpFieldSt[j]?).getD 0) v j 16 0 [] (by omega)
  rw [changeIn, List.range_eq_range']
  exact congrArg AlarmsWidget.Scan.strRep hloop

end Words

section Numbers
variable (c : Config)

/-- The word is one of the page's. -/
def Kept : Word → Prop
  | .logic i => i < (words c).muiNumLogicErrorInts
  | .field j => j < (words c).muiNumFieldQStatesInts

def intIDOf : Word → BitVec 32
  | .logic i => BitVec.ofNat 32 (i + 1)
  | .field j => BitVec.ofNat 32 (j + 1 + (words c).muiNumLogicErrorInts)

/-- The lines that a new value of a word adds. -/
def news (u v : BitVec 32) : Word → List LogLine
  | .logic i => comeIn c i u v
  | .field j => changeIn c j u v

variable {c}

def AlarmsWdg.held (w : AlarmsWdg c) : Word → BitVec 32
  | .logic i => (w.mpLogicErrors[i]?).getD 0
  | .field j => (w.mpFieldSt[j]?).getD 0

theorem toNat_intIDOf {word : Word} (hword : Kept c word) :
    (intIDOf c word).toNat = match word with
      | .logic i => i + 1
      | .field j => j + 1 + (words c).muiNumLogicErrorInts := by
  have hlogic := logicInts_le (c := c)
  have hfield := fieldInts_le (c := c)
  cases word with
  | logic i =>
    have hi : i < (words c).muiNumLogicErrorInts := hword
    exact BitVec.toNat_ofNat .. |>.trans (Nat.mod_eq_of_lt (by omega))
  | field j =>
    have hj : j < (words c).muiNumFieldQStatesInts := hword
    exact BitVec.toNat_ofNat .. |>.trans (Nat.mod_eq_of_lt (by omega))

/-- An integer is one of the words or none of the page's. -/
theorem intID_cases (intID : BitVec 32) : (∃ word, Kept c word ∧ intID = intIDOf c word) ∨
    intID.toNat = 0 ∨
      (words c).muiNumFieldQStatesInts + (words c).muiNumLogicErrorInts < intID.toNat := by
  rcases Nat.eq_zero_or_pos intID.toNat with hzero | hpos
  · exact Or.inr (Or.inl hzero)
  by_cases hlogic : intID.toNat ≤ (words c).muiNumLogicErrorInts
  · refine Or.inl ⟨.logic (intID.toNat - 1), Nat.sub_one_lt_of_le hpos hlogic, ?_⟩
    rw [intIDOf, Nat.sub_add_cancel hpos, BitVec.ofNat_toNat, BitVec.setWidth_eq]
  by_cases hfield : intID.toNat ≤
      (words c).muiNumFieldQStatesInts + (words c).muiNumLogicErrorInts
  · refine Or.inl ⟨.field (intID.toNat - 1 - (words c).muiNumLogicErrorInts), ?_, ?_⟩
    · simp only [Kept]
      omega
    · rw [intIDOf, show intID.toNat - 1 - (words c).muiNumLogicErrorInts + 1 +
        (words c).muiNumLogicErrorInts = intID.toNat by omega, BitVec.ofNat_toNat,
        BitVec.setWidth_eq]
  · exact Or.inr (Or.inr (by omega))

/-- A value of a word is stored, its news are logged, and the display is that of
the words as they are then. -/
theorem roIntChanged_word (t : Texts) (w : AlarmsWdg c) {word : Word} (hword : Kept c word)
    (v : BitVec 32) :
    (∀ word', (w.roIntChanged t v (intIDOf c word)).held word' =
      if word' = word then v else w.held word') ∧
    (w.roIntChanged t v (intIDOf c word)).txtEditLastAl =
      w.txtEditLastAl ++ news c (w.held word) v word ∧
    (w.roIntChanged t v (intIDOf c word)).txtEditActive =
      (w.roIntChanged t v (intIDOf c word)).active t := by
  have hnat := toNat_intIDOf hword
  cases word with
  | logic i =>
    have hi : i < (words c).muiNumLogicErrorInts := hword
    obtain ⟨hindex, hsame⟩ := logicIndex hi
    have hpos : intIDOf c (.logic i) > 0 := BitVec.lt_def.mpr (by rw [hnat]; exact Nat.succ_pos i)
    have hlogic : (intIDOf c (.logic i)).toNat ≤ (words c).muiNumLogicErrorInts := by
      rw [hnat]
      exact hi
    rw [AlarmsWdg.roIntChanged, if_pos hpos, if_pos hlogic]
    refine ⟨fun word' => ?_, ?_, rfl⟩
    · cases word' with
      | logic i' =>
        simp only [AlarmsWdg.held, AlarmsWdg.logicErrorIntChanged, intIDOf, hindex, hsame,
          Word.logic.injEq]
        by_cases hii : i' = i
        · rw [if_pos hii, hii, List.getElem?_set_self (by rw [w.logicLength]; exact hi),
            Option.getD_some]
        · rw [if_neg hii, List.getElem?_set_ne (Ne.symm hii)]
      | field j' => rfl
    · exact congrArg (w.txtEditLastAl ++ ·) (newAlarms_eq w hi v)
  | field j =>
    have hj : j < (words c).muiNumFieldQStatesInts := hword
    obtain ⟨hindex, hsame⟩ := fieldIndex hj
    have hpos : intIDOf c (.field j) > 0 := BitVec.lt_def.mpr (by
      rw [hnat]
      exact Nat.succ_pos _ |>.trans_le (Nat.le_add_right _ _))
    have hlogic : ¬ (intIDOf c (.field j)).toNat ≤ (words c).muiNumLogicErrorInts := by
      rw [hnat]
      dsimp only
      omega
    have hfield : (intIDOf c (.field j)).toNat ≤
        (words c).muiNumFieldQStatesInts + (words c).muiNumLogicErrorInts := by
      rw [hnat]
      dsimp only
      omega
    rw [AlarmsWdg.roIntChanged, if_pos hpos, if_neg hlogic, if_pos hfield]
    refine ⟨fun word' => ?_, ?_, rfl⟩
    · cases word' with
      | logic i' => rfl
      | field j' =>
        simp only [AlarmsWdg.held, AlarmsWdg.fieldStIntChanged, intIDOf, hindex, hsame,
          Word.field.injEq]
        by_cases hjj : j' = j
        · rw [if_pos hjj, hjj, List.getElem?_set_self (by rw [w.fieldLength]; exact hj),
            Option.getD_some]
        · rw [if_neg hjj, List.getElem?_set_ne (Ne.symm hjj)]
    · exact congrArg (w.txtEditLastAl ++ ·) (newStates_eq w hj v)

theorem roIntChanged_other (t : Texts) (w : AlarmsWdg c) {intID : BitVec 32}
    (h : intID.toNat = 0 ∨
      (words c).muiNumFieldQStatesInts + (words c).muiNumLogicErrorInts < intID.toNat)
    (v : BitVec 32) : w.roIntChanged t v intID = w := by
  rw [AlarmsWdg.roIntChanged]
  rcases h with hzero | hlarge
  · rw [if_neg (fun hpos => by have := BitVec.lt_def.mp hpos; simp at this; omega)]
  · split
    · rw [if_neg (by omega), if_neg (by omega)]
    · rfl

/-- What the page shows of a word. -/
def ShowsWord (t : Texts) (w : AlarmsWdg c) (intID uiVal : BitVec 32) : Prop :=
  (∀ word, Kept c word → intID = intIDOf c word → w.held word = uiVal) ∧
    ((∃ word, Kept c word ∧ intID = intIDOf c word) → w.txtEditActive = w.active t)

theorem words_follow (t : Texts) :
    Follows (fun (w : AlarmsWdg c) intID uiVal => w.roIntChanged t uiVal intID) (ShowsWord t) := by
  refine (Follows.all (fun word => Follows.when (fun hword =>
      Follows.slot (fun w : AlarmsWdg c => w.held word) _ id ?_ ?_))).and
    (Follows.since (P := fun w : AlarmsWdg c => w.txtEditActive = w.active t)
      (fun intID => ∃ word, Kept c word ∧ intID = intIDOf c word) ?_ ?_)
  · intro w v
    exact ((roIntChanged_word t w hword v).1 word).trans (if_pos rfl)
  · intro w intID v hne
    rcases intID_cases (c := c) intID with ⟨word', hword', rfl⟩ | hother
    · exact ((roIntChanged_word t w hword' v).1 word).trans
        (if_neg (fun heq => hne (by rw [heq])))
    · rw [roIntChanged_other t w hother]
  · rintro w _ v ⟨word, hword, rfl⟩
    exact (roIntChanged_word t w hword v).2.2
  · intro w intID v hactive
    rcases intID_cases (c := c) intID with ⟨word', hword', rfl⟩ | hother
    · exact (roIntChanged_word t w hword' v).2.2
    · rw [roIntChanged_other t w hother]
      exact hactive

end Numbers

section Page
variable (c : Config)

/-- The alarms whose bits are set, in the order of their numbers. -/
def setAlarms (held : Word → BitVec 32) : List Nat :=
  (List.range c.NUM_ALARMS).filter (fun e => (held (.logic (e / 32))).getMsbD (e % 32))

def errorState (held : Word → BitVec 32) (n : Nat) : Option (BitVec 32 × QuState) :=
  if stateCode (held (.field (n / 16))) (n % 16) ≠ 0 then
    some (varID c (BitVec.ofNat 32 n),
      QuState.ofCode (stateCode (held (.field (n / 16))) (n % 16)))
  else none

/-- The variables of the words that the page has, as far as they are in error. -/
def errorStates (held : Word → BitVec 32) : List (BitVec 32 × QuState) :=
  (List.range (16 * (words c).muiNumFieldQStatesInts)).filterMap (errorState c held)

/-- The display of alarms and states. -/
def activeText (t : Texts) (held : Word → BitVec 32) : List String :=
  updateAlarmsDisplay ((setAlarms c held).foldl (appendAlarm t.mStrLogicErrors) "")
    ((errorStates c held).foldl
      (fun strRep it => appendLine t.getVarTag t.getVarDesc strRep it.1 it.2) "")

/-- A signal, the integer before its number. -/
abbrev RoInt := BitVec 32 × BitVec 32

def receive (t : Texts) (w : AlarmsWdg c) (it : RoInt) : AlarmsWdg c := w.roIntChanged t it.1 it.2

def take (held : Word → BitVec 32) (it : RoInt) : Word → BitVec 32 :=
  match (words c).roIntChanged it.2 with
  | some word => Function.update held word it.1
  | none => held

variable {c}

theorem readCode_held (w : AlarmsWdg c) (n : Nat) :
    readCode w.mpFieldSt n = stateCode (w.held (.field (n / 16))) (n % 16) := by
  simp only [readCode, bit, stateCode, AlarmsWdg.held]
  rw [show 2 * n / 32 = n / 16 by omega, show (2 * n + 1) / 32 = n / 16 by omega,
    show 2 * n % 32 = 2 * (n % 16) by omega, show (2 * n + 1) % 32 = 2 * (n % 16) + 1 by omega]

/-- The report of words that are all full. -/
theorem genFieldStReport_full {R : Type} (line : R → BitVec 32 → QuState → R)
    (held : List (BitVec 32)) (full : 16 * held.length ≤ c.FLD_IN_VARS + c.FLD_OUT_VARS) (rep : R) :
    genFieldStReport c line held rep =
      (List.range (16 * held.length)).foldl (reportVar c line held) rep := by
  refine foldl_words (w := 16) _ (reportVar c line held) le_rfl (fun j v rep hv => ?_) rep
  have hlt : j < held.length := (List.getElem?_eq_some_iff.mp hv).1
  rw [appendFieldStRep_eq c line hv (by omega), Nat.min_eq_left (by omega),
    Nat.min_eq_left (by omega)]

theorem active_eq (allocated : LogicAlarms.Allocated c) (t : Texts) (w : AlarmsWdg c) :
    w.active t = activeText c t w.held := by
  have hfull := fieldInts_full (c := c)
  have hreported : reported c w.mpFieldSt = errorState c w.held := by
    funext n
    rw [reported, errorState, readCode_held]
  rw [AlarmsWdg.active, genLogicErrorsReport_eq allocated w.logicLength,
    genFieldStReport_full _ _ (by rw [w.fieldLength]; exact hfull), foldl_reportVar, hreported,
    w.fieldLength]
  rfl

end Page

def numbered : Texts := ⟨toString, fun varID => toString varID.toNat, fun _ => "señal"⟩

end AlarmsDisplay
