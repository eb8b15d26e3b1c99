import TurbineGovernor.RegulatorAlarms

/-!
# The alarm display of the HMI

`AlarmsWdg` reads the words of quality states back. What a loop does with a
variable that it finds in error is a parameter: the display appends a line of
text, the proofs collect the variable and its state.
-/

namespace AlarmsWidget
open CommonTypes BitStrings RegulatorAlarms

def NUM_QUSTATE_BITS : Nat := 2
def QUSTATE_MASK : BitVec 32 := 3

def qualityStateToString : QuState → String
  | .ok => "OK"
  | .overRange => "OverRange"
  | .underRange => "UnderRange"
  | .comError => "Perdida de conexión"

/-- The line of a variable, with the tag and description of its `RegVar`. -/
def appendLine (getVarTag getVarDesc : BitVec 32 → String) (strRep : String) (varID : BitVec 32)
    (qstate : QuState) : String :=
  strRep ++ "\t" ++ "[" ++ getVarTag varID ++ "-" ++ getVarDesc varID ++ "]: " ++
    qualityStateToString qstate ++ "\n"

/-- Collects instead of printing. -/
def appendEntry (rep : List (BitVec 32 × QuState)) (varID : BitVec 32) (qstate : QuState) :
    List (BitVec 32 × QuState) :=
  rep ++ [(varID, qstate)]

section Report
variable {R : Type} (c : Config) (line : R → BitVec 32 → QuState → R)

def varID (varOffset : BitVec 32) : BitVec 32 :=
  if varOffset < BitVec.ofNat 32 c.FLD_IN_VARS then FLD_IN_LOW_RANGE + varOffset
  else FLD_OUT_LOW_RANGE + varOffset - BitVec.ofNat 32 c.FLD_IN_VARS

/-- What the loop of `appendFieldStRep` carries from one turn to the next. -/
structure Scan (R : Type) where
  mask : BitVec 32
  varOffset : BitVec 32
  strRep : R

def scanTurn (uiVal : BitVec 32) (s : Scan R) (i : Nat) : Scan R :=
  let quState := s.mask &&& uiVal
  { mask := s.mask >>> NUM_QUSTATE_BITS
    varOffset := s.varOffset + 1
    strRep :=
      if quState ≠ 0 then
        line s.strRep (varID c s.varOffset)
          (QuState.ofCode (quState >>> (32 - NUM_QUSTATE_BITS - i)).toNat)
      else s.strRep }

/-- `i` steps by two up to `iStopBit`. -/
def appendFieldStRep (uiVal uiIdx : BitVec 32) (strRep : R) : R :=
  let mask := QUSTATE_MASK <<< (32 - NUM_QUSTATE_BITS)
  let bitOffset := 32 * uiIdx
  let varOffset := bitOffset / BitVec.ofNat 32 NUM_QUSTATE_BITS
  let iStopBit := min 32
    (BitVec.ofNat 32 ((c.FLD_IN_VARS + c.FLD_OUT_VARS) * NUM_QUSTATE_BITS) - bitOffset).toNat
  ((List.range' 0 ((iStopBit + 1) / 2) NUM_QUSTATE_BITS).foldl (scanTurn c line uiVal)
    ⟨mask, varOffset, strRep⟩).strRep

/-- The loop of `genFieldStReport`, from an empty report. -/
def genFieldStReport (mpFieldSt : List (BitVec 32)) (strRep : R) : R :=
  mpFieldSt.zipIdx.foldl
    (fun strRep it => appendFieldStRep c line it.1 (BitVec.ofNat 32 it.2) strRep) strRep

/-- The number in the bits `2 * n` and `2 * n + 1`. -/
def readCode (words : List (BitVec 32)) (n : Nat) : Nat :=
  2 * (bit words (2 * n)).toNat + (bit words (2 * n + 1)).toNat

/-- One variable's part of the report. -/
def reportVar (words : List (BitVec 32)) (rep : R) (n : Nat) : R :=
  if readCode words n ≠ 0 then
    line rep (varID c (BitVec.ofNat 32 n)) (QuState.ofCode (readCode words n))
  else rep

theorem scan_loop {words : List (BitVec 32)} {j : Nat} {v : BitVec 32} (hv : words[j]? = some v)
    (n k : Nat) (rep : R) (fits : k + n ≤ 16) :
    (List.range' (2 * k) n 2).foldl (scanTurn c line v)
        ⟨window 32 (2 * k), BitVec.ofNat 32 (16 * j + k), rep⟩ =
      ⟨window 32 (2 * (k + n)), BitVec.ofNat 32 (16 * j + (k + n)),
        (List.range' (16 * j + k) n).foldl (reportVar c line words) rep⟩ := by
  induction n generalizing k rep with
  | zero => rfl
  | succ n ih =>
    have hcode : ((window 32 (2 * k) &&& v) >>> (32 - 2 - 2 * k)).toNat =
        readCode words (16 * j + k) := by
      rw [window_read v (2 * k) (by omega)]
      simp only [readCode, bit]
      rw [show 2 * (16 * j + k) / 32 = j by omega, show (2 * (16 * j + k) + 1) / 32 = j by omega,
        show 2 * (16 * j + k) % 32 = 2 * k by omega,
        show (2 * (16 * j + k) + 1) % 32 = 2 * k + 1 by omega, hv]
      rfl
    have hzero := window_eq_zero v (2 * k) (by omega)
    rw [hcode] at hzero
    have hturn : scanTurn c line v ⟨window 32 (2 * k), BitVec.ofNat 32 (16 * j + k), rep⟩ (2 * k) =
        ⟨window 32 (2 * (k + 1)), BitVec.ofNat 32 (16 * j + (k + 1)),
          reportVar c line words rep (16 * j + k)⟩ := by
      simp only [scanTurn, reportVar, NUM_QUSTATE_BITS]
      simp only [window_shift, hcode, ne_eq, hzero]
      rw [show 2 * k + 2 = 2 * (k + 1) by omega, ← Nat.add_assoc, BitVec.ofNat_add (16 * j + k)]
      rfl
    rw [List.range'_succ, List.range'_succ, List.foldl_cons, List.foldl_cons, hturn,
      show 2 * k + 2 = 2 * (k + 1) by omega, ih (k + 1) _ (by omega),
      show k + 1 + n = k + (n + 1) by omega, Nat.add_assoc (16 * j) k 1]

/-- A word reports the sixteen variables it holds, as far as there are any. -/
theorem appendFieldStRep_eq {words : List (BitVec 32)} {j : Nat} {v : BitVec 32}
    (hv : words[j]? = some v) (hj : 16 * j < c.FLD_IN_VARS + c.FLD_OUT_VARS) (rep : R) :
    appendFieldStRep c line v (BitVec.ofNat 32 j) rep =
      (List.range' (16 * j) (min 16 (c.FLD_IN_VARS + c.FLD_OUT_VARS - 16 * j))).foldl
        (reportVar c line words) rep := by
  have hfit := c.vars_fit
  have hoffset : (32 : BitVec 32) * BitVec.ofNat 32 j = BitVec.ofNat 32 (32 * j) := by
    rw [BitVec.ofNat_mul]
    rfl
  have hvar : BitVec.ofNat 32 (32 * j) / BitVec.ofNat 32 2 = BitVec.ofNat 32 (16 * j + 0) := by
    apply BitVec.eq_of_toNat_eq
    rw [BitVec.toNat_udiv, BitVec.toNat_ofNat, BitVec.toNat_ofNat, BitVec.toNat_ofNat,
      Nat.mod_eq_of_lt (show 2 < 2 ^ 32 by decide)]
    omega
  have hstop : (BitVec.ofNat 32 ((c.FLD_IN_VARS + c.FLD_OUT_VARS) * 2) -
      BitVec.ofNat 32 (32 * j)).toNat = (c.FLD_IN_VARS + c.FLD_OUT_VARS) * 2 - 32 * j := by
    rw [BitVec.toNat_sub, BitVec.toNat_ofNat, BitVec.toNat_ofNat]
    omega
  simp only [appendFieldStRep, NUM_QUSTATE_BITS, QUSTATE_MASK]
  simp only [hoffset, hvar, hstop]
  have hmask : (3 : BitVec 32) <<< (32 - 2) = window 32 (2 * 0) := rfl
  rw [hmask, show (min 32 ((c.FLD_IN_VARS + c.FLD_OUT_VARS) * 2 - 32 * j) + 1) / 2 =
    min 16 (c.FLD_IN_VARS + c.FLD_OUT_VARS - 16 * j) by omega]
  have hloop := scan_loop c line hv (min 16 (c.FLD_IN_VARS + c.FLD_OUT_VARS - 16 * j)) 0 rep
    (by omega)
  exact congrArg Scan.strRep hloop

/-- The report goes through all variables in the order of their numbers. -/
theorem genFieldStReport_eq {words : List (BitVec 32)}
    (hlen : words.length = c.muiNumFieldQStatesInts) (rep : R) :
    genFieldStReport c line words rep =
      (List.range (c.FLD_IN_VARS + c.FLD_OUT_VARS)).foldl (reportVar c line words) rep := by
  rw [c.muiNumFieldQStatesInts_eq] at hlen
  refine foldl_words (w := 16) _ (reportVar c line words) (by omega) (fun j v rep hv => ?_) rep
  have hlt : j < words.length := (List.getElem?_eq_some_iff.mp hv).1
  exact appendFieldStRep_eq c line hv (by omega) rep

/-- The variable with number `n` and its state, when it is reported. -/
def reported (words : List (BitVec 32)) (n : Nat) : Option (BitVec 32 × QuState) :=
  if readCode words n ≠ 0 then
    some (varID c (BitVec.ofNat 32 n), QuState.ofCode (readCode words n))
  else none

theorem foldl_reportVar (words : List (BitVec 32)) (ns : List Nat) (rep : R) :
    ns.foldl (reportVar c line words) rep =
      (ns.filterMap (reported c words)).foldl (fun rep it => line rep it.1 it.2) rep := by
  induction ns generalizing rep with
  | nil => rfl
  | cons n ns ih =>
    rw [List.foldl_cons, ih, List.filterMap_cons]
    simp only [reportVar]
    by_cases hcode : readCode words n ≠ 0
    · rw [if_pos hcode, show reported c words n = some _ from if_pos hcode, List.foldl_cons]
    · rw [if_neg hcode, show reported c words n = none from if_neg hcode]

end Report

/-- The collected report, which every other report follows. -/
theorem entries_eq (c : Config) {words : List (BitVec 32)}
    (hlen : words.length = c.muiNumFieldQStatesInts) :
    genFieldStReport c appendEntry words [] =
      (List.range (c.FLD_IN_VARS + c.FLD_OUT_VARS)).filterMap (reported c words) := by
  rw [genFieldStReport_eq c appendEntry hlen, foldl_reportVar]
  simp only [appendEntry]
  rw [List.foldl_append_eq_append, ← List.flatMap_def, List.flatMap_singleton', List.nil_append]

/-- The text of the display is made of the lines of the collected variables. -/
theorem genFieldStReport_lines (c : Config) {words : List (BitVec 32)}
    (hlen : words.length = c.muiNumFieldQStatesInts) (getVarTag getVarDesc : BitVec 32 → String)
    (strRep : String) :
    genFieldStReport c (appendLine getVarTag getVarDesc) words strRep =
      (genFieldStReport c appendEntry words []).foldl
        (fun strRep it => appendLine getVarTag getVarDesc strRep it.1 it.2) strRep := by
  rw [entries_eq c hlen, genFieldStReport_eq c _ hlen, foldl_reportVar]

end AlarmsWidget
