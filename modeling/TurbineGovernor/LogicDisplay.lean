import TurbineGovernor.LogicAlarms

/-!
# The logic alarms on the display

`AlarmsWdg` compares each word that arrives with the one before and prints a
line for every alarm that has come; a line of the log is kept as the number of
its alarm. A snapshot arrives as calls of `roIntChanged` in any order, with no
need to repeat the words that have not changed.
-/

namespace LogicDisplay
open BitStrings RegulatorAlarms TransitionRuns LogicAlarms

section Loops
variable {R : Type} (c : Config) (line : R → Nat → R)

/-- What the loops carry from one alarm to the next. -/
structure Scan (R : Type) where
  mask : BitVec 32
  rep : R

def scanTurn (uiVal : BitVec 32) (s : Scan R) (i : Nat) : Scan R where
  mask := s.mask >>> 1
  rep := if s.mask &&& uiVal ≠ 0 then line s.rep i else s.rep

/-- The loop over the alarms of one word. -/
def scanWord (uiVal idx : BitVec 32) (rep : R) : R :=
  let offset := 32#32 * idx
  let mask := 1#32 <<< 31
  let iStopBit := min (offset + 32).toNat c.NUM_ALARMS
  ((List.range' offset.toNat (iStopBit - offset.toNat)).foldl (scanTurn line uiVal) ⟨mask, rep⟩).rep

def appendLogicErrorsRep (uiVal uiIdx : BitVec 32) (strRep : R) : R :=
  scanWord c line uiVal uiIdx strRep

/-- The loop of `genLogicErrorsReport`, from an empty report. -/
def genLogicErrorsReport (mpLogicErrors : List (BitVec 32)) (strRep : R) : R :=
  mpLogicErrors.zipIdx.foldl
    (fun strRep it => appendLogicErrorsRep c line it.1 (BitVec.ofNat 32 it.2) strRep) strRep

end Loops

/-- The line of an alarm in the report. -/
def appendAlarm (mStrLogicErrors : Nat → String) (strRep : String) (i : Nat) : String :=
  strRep ++ "\t" ++ mStrLogicErrors i ++ "\n"

structure Display where
  mpLogicErrors : List (BitVec 32)
  log : List Nat

namespace Display
variable (c : Config) (d : Display)

def logicErrorIntChanged (val intID : BitVec 32) : Display :=
  let idx := intID - 1
  let oldInt := (d.mpLogicErrors[idx.toNat]?).getD 0
  let newErrors := (val ^^^ oldInt) &&& ~~~oldInt
  { mpLogicErrors := d.mpLogicErrors.set idx.toNat val
    log := scanWord c (fun log i => log ++ [i]) newErrors idx d.log }

/-- The other integers belong to the states of the variables. -/
def roIntChanged (val intID : BitVec 32) : Display :=
  if intID > 0 then
    if intID.toNat ≤ c.muiNumLogicErrorInts then d.logicErrorIntChanged c val intID else d
  else d

end Display

/-- The words of one scan, and the numbers of those that are delivered. -/
structure Snapshot where
  words : List (BitVec 32)
  delivered : List (BitVec 32)

section Snapshots
variable (c : Config)

def receive (d : Display) (s : Snapshot) : Display :=
  s.delivered.foldl
    (fun d intID => d.roIntChanged c ((s.words[(intID - 1).toNat]?).getD 0) intID) d

/-- Every word that has changed is delivered. -/
def Delivers (old : List (BitVec 32)) (s : Snapshot) : Prop :=
  s.words.length = c.muiNumLogicErrorInts ∧
    ∀ i < c.muiNumLogicErrorInts, s.words[i]? ≠ old[i]? → BitVec.ofNat 32 (i + 1) ∈ s.delivered

end Snapshots

section Words
variable {c : Config}

theorem numInts_le : c.muiNumLogicErrorInts ≤ 2 ^ 26 := by
  have hfloat := toFloat_le c.alarms_int
  simp only [Config.muiNumLogicErrorInts, numInts]
  omega

theorem scan_loop {R : Type} (line : R → Nat → R) (v : BitVec 32) (offset n k : Nat) (rep : R)
    (fits : k + n ≤ 32) :
    (List.range' (offset + k) n).foldl (scanTurn line v) ⟨pick 32 k, rep⟩ =
      ⟨pick 32 (k + n),
        ((List.range' (offset + k) n).filter
          (fun e => v.getMsbD (e - offset))).foldl line rep⟩ := by
  induction n generalizing k rep with
  | zero => rfl
  | succ n ih =>
    have hread := pick_read v k (by omega)
    have hturn : scanTurn line v ⟨pick 32 k, rep⟩ (offset + k) =
        ⟨pick 32 (k + 1), if v.getMsbD k = true then line rep (offset + k) else rep⟩ := by
      simp only [scanTurn, pick_shift, hread]
    rw [List.range'_succ, List.foldl_cons, hturn, Nat.add_assoc offset k 1, ih (k + 1) _ (by omega),
      List.filter_cons, Nat.add_sub_cancel_left, show k + 1 + n = k + (n + 1) by omega]
    split <;> rfl

/-- A word goes through the alarms that it holds, as far as there are any. -/
theorem scanWord_eq {R : Type} (line : R → Nat → R) (v : BitVec 32) {j : Nat}
    (hj : j < c.muiNumLogicErrorInts) (rep : R) :
    scanWord c line v (BitVec.ofNat 32 j) rep =
      ((List.range' (32 * j) (min (32 * j + 32) c.NUM_ALARMS - 32 * j)).filter
        (fun e => v.getMsbD (e - 32 * j))).foldl line rep := by
  have hints := numInts_le (c := c)
  have hoffset : 32#32 * BitVec.ofNat 32 j = BitVec.ofNat 32 (32 * j) := by
    rw [BitVec.ofNat_mul]
  have hstart : (BitVec.ofNat 32 (32 * j)).toNat = 32 * j := by
    rw [BitVec.toNat_ofNat]
    omega
  have hend : (BitVec.ofNat 32 (32 * j) + 32).toNat = 32 * j + 32 := by
    rw [BitVec.toNat_add, hstart]
    change (32 * j + 32) % 2 ^ 32 = _
    omega
  simp only [scanWord]
  simp only [hoffset, hstart, hend]
  have hloop := scan_loop line v (32 * j) (min (32 * j + 32) c.NUM_ALARMS - 32 * j) 0 rep (by omega)
  exact congrArg Scan.rep hloop

/-- The report goes through all alarms in the order of their numbers. -/
theorem genLogicErrorsReport_eq (allocated : Allocated c) {words : List (BitVec 32)}
    (length : words.length = c.muiNumLogicErrorInts) {R : Type} (line : R → Nat → R) (rep : R) :
    genLogicErrorsReport c line words rep =
      ((List.range c.NUM_ALARMS).filter (bit words)).foldl line rep := by
  rw [List.foldl_filter]
  refine foldl_words (w := 32) _ (fun rep e => if bit words e = true then line rep e else rep)
    (by rw [length]; exact allocated) (fun j v rep hv => ?_) rep
  have hlt : j < words.length := (List.getElem?_eq_some_iff.mp hv).1
  have hbits : (List.range' (32 * j) (min (32 * j + 32) c.NUM_ALARMS - 32 * j)).filter
        (fun e => v.getMsbD (e - 32 * j)) =
      (List.range' (32 * j) (min (32 * j + 32) c.NUM_ALARMS - 32 * j)).filter (bit words) := by
    apply List.filter_congr
    intro e he
    rw [List.mem_range'_1] at he
    simp only [bit]
    rw [show e / 32 = j by omega, show e % 32 = e - 32 * j by omega, hv]
    rfl
  rw [appendLogicErrorsRep, scanWord_eq line v (by omega), hbits, List.foldl_filter,
    show min (32 * j + 32) c.NUM_ALARMS - 32 * j = min 32 (c.NUM_ALARMS - 32 * j) by omega]

theorem index_of {j : Nat} (hj : j < c.muiNumLogicErrorInts) :
    BitVec.ofNat 32 (j + 1) - 1 = BitVec.ofNat 32 j ∧ (BitVec.ofNat 32 j).toNat = j := by
  have hints := numInts_le (c := c)
  constructor
  · rw [BitVec.ofNat_add]
    exact BitVec.add_sub_cancel _ _
  · rw [BitVec.toNat_ofNat]
    omega

end Words

end LogicDisplay
