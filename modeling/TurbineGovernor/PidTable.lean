import TurbineGovernor.ControlPanel
import TurbineGovernor.RoundedSteps

/-!
# The table of the PID parameters

`PIDTableModel` keeps the parameters of nine controllers by their IDs, and
`ControlOptWdg` edits those of a selected row: it writes the parameters whose
box differs from the table.
-/

namespace PidTable
open CommonTypes SingleOrder SingleSums RoundedSteps TransitionRuns SpinBoxes ControlPanel

def C_REG_PID1_KP : BitVec 32 := 2000000014
def C_REG_PID9_DB : BitVec 32 := 2000000058
def C_REG_OPLIMIT : BitVec 32 := 2000000059
def MODEL_PIDS : Nat := 9

/-- In the order of their IDs and columns. -/
inductive Param where
  | kp
  | ki
  | kd
  | st
  | db
  deriving DecidableEq

namespace Param

def all : List Param := [kp, ki, kd, st, db]

def number : Param → Nat
  | kp => 0
  | ki => 1
  | kd => 2
  | st => 3
  | db => 4

def ofNumber : Nat → Param
  | 0 => kp
  | 1 => ki
  | 2 => kd
  | 3 => st
  | _ => db

/-- `C_REG_PID1_KP` to `C_REG_PID1_DB`. -/
def startID (p : Param) : BitVec 32 := C_REG_PID1_KP + BitVec.ofNat 32 p.number

/-- The count of a box: a whole number for the time of the scan, hundredths else. -/
def count (fVal : Single) : Param → Int
  | st => toInt fVal
  | _ => hundredths fVal

/-- `sp->value()` as the `float` that is compared and written. -/
def ofCount (n : Int) : Param → Single
  | st => ofUnits false (n * 2 ^ 149)
  | _ => ofHundredths n

end Param

structure PIDInfo where
  fKp : Single
  fKi : Single
  fKd : Single
  fDB : Single
  uiScanT : BitVec 32

namespace PIDInfo
variable (info : PIDInfo)

/-- A parameter as the `float` that is compared; the integer is converted. -/
def value : Param → Single
  | .kp => info.fKp
  | .ki => info.fKi
  | .kd => info.fKd
  | .st => ofUnits false (info.uiScanT.toNat * 2 ^ 149)
  | .db => info.fDB

/-- What `setValue` gets. -/
def counted : Param → Int
  | .kp => hundredths info.fKp
  | .ki => hundredths info.fKi
  | .kd => hundredths info.fKd
  | .st => info.uiScanT.toInt
  | .db => hundredths info.fDB

def store (fCurrVal : Single) : Param → PIDInfo
  | .kp => { info with fKp := fCurrVal }
  | .ki => { info with fKi := fCurrVal }
  | .kd => { info with fKd := fCurrVal }
  | .st => { info with uiScanT := toUnsigned fCurrVal }
  | .db => { info with fDB := fCurrVal }

end PIDInfo

structure PIDTableModel where
  mDataModel : Nat → PIDInfo

/-- What a cell shows, before it is formatted. -/
inductive Datum where
  | number (n : Nat)
  | domain (n : Nat)
  | value (fVal : Single)
  | scan (uiScanT : BitVec 32)
  deriving DecidableEq

namespace PIDTableModel
variable (m : PIDTableModel)

/-- `data` in the role of the display. -/
def data (row column : Nat) : Option Datum :=
  match column with
  | 0 => some (.number (row + 1))
  | 1 => some (.domain row)
  | 2 => some (.value (m.mDataModel row).fKp)
  | 3 => some (.value (m.mDataModel row).fKi)
  | 4 => some (.value (m.mDataModel row).fKd)
  | 5 => some (.scan (m.mDataModel row).uiScanT)
  | 6 => some (.value (m.mDataModel row).fDB)
  | _ => none

/-- The model and the cell of the signal `dataChanged`. -/
def varChanged (uiID : BitVec 32) (fCurrVal : Single) : PIDTableModel × Option (Nat × Nat) :=
  if C_REG_PID1_KP ≤ uiID ∧ uiID ≤ C_REG_PID9_DB then
    let iPid := (uiID - C_REG_PID1_KP).toNat / 5
    let iVal := (uiID - C_REG_PID1_KP).toNat % 5
    if iPid < MODEL_PIDS then
      ({ mDataModel := Function.update m.mDataModel iPid
          ((m.mDataModel iPid).store fCurrVal (Param.ofNumber iVal)) }, some (iPid, iVal + 2))
    else (m, none)
  else (m, none)

def getPIDInfo (row : Nat) : Option PIDInfo :=
  if row < MODEL_PIDS then some (m.mDataModel row) else none

end PIDTableModel

/-- The pointer to the selected parameters is their row. `cells` is what the view
has painted: it asks for a cell again when the model announces a change. -/
structure ControlOptWdg where
  mpTableModel : PIDTableModel
  cells : Nat → Nat → Option Datum
  mpSelectedPIDInfo : Option Nat
  miSelectedRow : Int
  pidLabel : Option Int
  frSelection : Bool
  sp : Param → SpinBox Int
  spOpLim : SpinBox Int
  txtOpLim : Option Single

inductive Event where
  | varChanged (uiID : BitVec 32) (fCurrVal : Single)
  | selectionChanged (index : Option Nat)
  | edit (p : Param) (val : Int)
  | editOpLim (val : Int)

/-- The ID of a parameter in a row. -/
def pidID (row : Int) (p : Param) : BitVec 32 := p.startID + BitVec.ofInt 32 (row * 5)

/-- A box with one decimal counts tenths. -/
def tenths (fVal : Single) : Int := (toUnits fVal * 10 + 2 ^ 148) / 2 ^ 149

namespace ControlOptWdg

/-- The range of a new box; `mDataModel` is what the memory holds. -/
def construct (img : RangedImage) (mDataModel : Nat → PIDInfo) : ControlOptWdg where
  mpTableModel := ⟨mDataModel⟩
  cells := (PIDTableModel.mk mDataModel).data
  mpSelectedPIDInfo := none
  miSelectedRow := -1
  pidLabel := none
  frSelection := false
  sp
    | .st => .upTo 99
    | _ => .upTo 9999
  spOpLim := (SpinBox.upTo 999).setLimits
    (tenths (img.getVarMin C_REG_OPLIMIT)) (tenths (img.getVarMax C_REG_OPLIMIT))
  txtOpLim := none

variable (img : RangedImage) (w : ControlOptWdg)

/-- The value is set before the limits of the row. -/
def updateSelectionFrame (row : Nat) (info : PIDInfo) (p : Param) : SpinBox Int :=
  ((w.sp p).setValue (info.counted p)).setLimits (p.count (img.getVarMin (pidID row p)))
    (p.count (img.getVarMax (pidID row p)))

def selectionChanged (index : Option Nat) : ControlOptWdg :=
  match index with
  | none => { w with frSelection := false, mpSelectedPIDInfo := none }
  | some row =>
    match w.mpTableModel.getPIDInfo row with
    | none => { w with mpSelectedPIDInfo := none }
    | some info =>
      { w with
        mpSelectedPIDInfo := some row
        miSelectedRow := row
        pidLabel := some (row + 1)
        sp := w.updateSelectionFrame img row info
        frSelection := true }

/-- The table and the text of the limit; the view paints an announced cell anew. -/
def varChanged (uiID : BitVec 32) (fCurrVal : Single) : ControlOptWdg :=
  let changed := w.mpTableModel.varChanged uiID fCurrVal
  { w with
    mpTableModel := changed.1
    cells := fun row column =>
      if changed.2 = some (row, column) then changed.1.data row column else w.cells row column
    txtOpLim := if uiID = C_REG_OPLIMIT then some fCurrVal else w.txtOpLim }

def updatePIDVal (info : PIDInfo) (p : Param) : List Request :=
  if Single.ne (info.value p) (p.ofCount (w.sp p).value) then
    [.writeVar (pidID w.miSelectedRow p) (p.ofCount (w.sp p).value)]
  else []

def sendPID : List Request :=
  match w.mpSelectedPIDInfo with
  | none => []
  | some row => Param.all.flatMap (w.updatePIDVal (w.mpTableModel.mDataModel row))

/-- The boxes of the parameters can be edited while their frame is visible. -/
def step (w : ControlOptWdg) : Event → ControlOptWdg
  | .varChanged uiID fCurrVal => w.varChanged uiID fCurrVal
  | .selectionChanged index => w.selectionChanged img index
  | .edit p val =>
    if w.frSelection then { w with sp := Function.update w.sp p ((w.sp p).setValue val) } else w
  | .editOpLim val => { w with spOpLim := w.spOpLim.setValue val }

/-- The widget after some events. -/
def after (mDataModel : Nat → PIDInfo) (es : List Event) : ControlOptWdg :=
  run (step img) (.construct img mDataModel) es

end ControlOptWdg

theorem ofNumber_number (p : Param) : Param.ofNumber p.number = p := by
  cases p <;> rfl

theorem number_lt (p : Param) : p.number < 5 := by
  cases p <;> decide

theorem number_ofNumber {n : Nat} (h : n < 5) : (Param.ofNumber n).number = n := by
  interval_cases n <;> rfl

theorem toNat_pidID {row : Nat} (hrow : row < MODEL_PIDS) (p : Param) :
    (pidID row p).toNat = 2000000014 + (row * 5 + p.number) := by
  have hnumber := number_lt p
  unfold MODEL_PIDS at hrow
  have hrow' : ((row : Int) * 5) = ((row * 5 : Nat) : Int) := by push_cast; rfl
  have hstart : C_REG_PID1_KP.toNat = 2000000014 := by decide
  rw [pidID, Param.startID, hrow', BitVec.ofInt_natCast, BitVec.toNat_add, BitVec.toNat_add, hstart,
    BitVec.toNat_ofNat, BitVec.toNat_ofNat]
  omega

theorem pidID_inj {row row' : Nat} (hrow : row < MODEL_PIDS) (hrow' : row' < MODEL_PIDS)
    {p p' : Param} (h : pidID row p = pidID row' p') : row = row' ∧ p = p' := by
  have hnat := congrArg BitVec.toNat h
  rw [toNat_pidID hrow, toNat_pidID hrow'] at hnat
  have hp := number_lt p
  have hp' := number_lt p'
  refine ⟨by omega, ?_⟩
  rw [← ofNumber_number p, ← ofNumber_number p']
  congr 1
  omega

/-- The IDs of the range are those of the rows. -/
theorem exists_pidID {uiID : BitVec 32} (h : C_REG_PID1_KP ≤ uiID ∧ uiID ≤ C_REG_PID9_DB) :
    (uiID - C_REG_PID1_KP).toNat / 5 < MODEL_PIDS ∧
      pidID ((uiID - C_REG_PID1_KP).toNat / 5 : Nat)
        (Param.ofNumber ((uiID - C_REG_PID1_KP).toNat % 5)) = uiID := by
  have hlow : 2000000014 ≤ uiID.toNat := h.1
  have hhigh : uiID.toNat ≤ 2000000058 := h.2
  have hstart : C_REG_PID1_KP.toNat = 2000000014 := by decide
  have hsub : (uiID - C_REG_PID1_KP).toNat = uiID.toNat - 2000000014 := by
    rw [BitVec.toNat_sub_of_le h.1, hstart]
  have hrow : (uiID - C_REG_PID1_KP).toNat / 5 < MODEL_PIDS := by
    rw [hsub]
    unfold MODEL_PIDS
    omega
  refine ⟨hrow, BitVec.eq_of_toNat_eq ?_⟩
  rw [toNat_pidID hrow, number_ofNumber (Nat.mod_lt _ (by decide)), hsub]
  omega

/-- A report stores its value where its ID is, and announces that cell. -/
theorem varChanged_pidID (m : PIDTableModel) {row : Nat} (hrow : row < MODEL_PIDS) (p : Param)
    (fCurrVal : Single) : m.varChanged (pidID row p) fCurrVal =
      ({ mDataModel := Function.update m.mDataModel row ((m.mDataModel row).store fCurrVal p) },
        some (row, p.number + 2)) := by
  have hnat := toNat_pidID hrow p
  have hp := number_lt p
  have hstart : C_REG_PID1_KP.toNat = 2000000014 := by decide
  have hend : C_REG_PID9_DB.toNat = 2000000058 := by decide
  have hlow : C_REG_PID1_KP ≤ pidID row p := by
    rw [BitVec.le_def, hstart, hnat]
    omega
  have hhigh : pidID row p ≤ C_REG_PID9_DB := by
    rw [BitVec.le_def, hend, hnat]
    unfold MODEL_PIDS at hrow
    omega
  have hsub : (pidID row p - C_REG_PID1_KP).toNat = row * 5 + p.number := by
    rw [BitVec.toNat_sub_of_le hlow, hstart, hnat]
    omega
  have hdiv : (row * 5 + p.number) / 5 = row := by omega
  have hmod : (row * 5 + p.number) % 5 = p.number := by omega
  rw [PIDTableModel.varChanged, if_pos ⟨hlow, hhigh⟩]
  simp only [hsub, hdiv, hmod, ofNumber_number, if_pos hrow]

theorem varChanged_other (m : PIDTableModel) {uiID : BitVec 32}
    (h : ∀ row < MODEL_PIDS, ∀ p, uiID ≠ pidID row p) (fCurrVal : Single) :
    m.varChanged uiID fCurrVal = (m, none) := by
  rw [PIDTableModel.varChanged, if_neg]
  intro hrange
  obtain ⟨hrow, heq⟩ := exists_pidID hrange
  exact h _ hrow _ heq.symm

/-- Either a parameter of a row is reported or something else. -/
theorem pidID_cases (uiID : BitVec 32) : (∃ row < MODEL_PIDS, ∃ p, uiID = pidID row p) ∨
    ∀ row < MODEL_PIDS, ∀ p, uiID ≠ pidID row p := by
  by_cases h : ∃ row < MODEL_PIDS, ∃ p, uiID = pidID row p
  · exact Or.inl h
  · refine Or.inr (fun row hrow p heq => h ⟨row, hrow, p, heq⟩)

/-- A parameter as it is compared after a value has been stored. -/
def stored (fCurrVal : Single) : Param → Single
  | .st => ofUnits false ((toUnsigned fCurrVal).toNat * 2 ^ 149)
  | _ => fCurrVal

theorem value_store (info : PIDInfo) (fCurrVal : Single) (p q : Param) :
    (info.store fCurrVal p).value q = if q = p then stored fCurrVal p else info.value q := by
  cases p <;> cases q <;> simp only [PIDInfo.store, PIDInfo.value, stored, reduceCtorEq, if_true,
    if_false]

theorem value_varChanged (m : PIDTableModel) (uiID : BitVec 32) (fCurrVal : Single) {row : Nat}
    (hrow : row < MODEL_PIDS) (p : Param) :
    ((m.varChanged uiID fCurrVal).1.mDataModel row).value p =
      if uiID = pidID row p then stored fCurrVal p else (m.mDataModel row).value p := by
  rcases pidID_cases uiID with ⟨row', hrow', q, rfl⟩ | hother
  · rw [varChanged_pidID m hrow' q]
    dsimp only
    by_cases hsame : row = row'
    · subst hsame
      rw [Function.update_self, value_store]
      by_cases hpq : p = q
      · rw [hpq, if_pos rfl, if_pos rfl]
      · rw [if_neg hpq, if_neg (fun heq => hpq (pidID_inj hrow hrow heq).2.symm)]
    · rw [Function.update_of_ne hsame, if_neg (fun heq => hsame (pidID_inj hrow' hrow heq).1.symm)]
  · rw [varChanged_other m hother, if_neg (hother row hrow p)]

/-- The view shows the model, and the boxes have the limits of the selected row
and of the opening. -/
structure Fitted (img : RangedImage) (w : ControlOptWdg) : Prop where
  painted : ∀ row column, w.cells row column = w.mpTableModel.data row column
  selected : ∀ row, w.mpSelectedPIDInfo = some row → row < MODEL_PIDS ∧ w.miSelectedRow = row ∧
    ∀ p, (w.sp p).minimum = min (p.count (img.getVarMin (pidID row p)))
        (p.count (img.getVarMax (pidID row p))) ∧
      (w.sp p).maximum = p.count (img.getVarMax (pidID row p))
  limit : w.spOpLim.minimum = min (tenths (img.getVarMin C_REG_OPLIMIT))
      (tenths (img.getVarMax C_REG_OPLIMIT)) ∧
    w.spOpLim.maximum = tenths (img.getVarMax C_REG_OPLIMIT)

section Widget
variable {img : RangedImage} {w : ControlOptWdg}

theorem mem_sendPID (w : ControlOptWdg) (request : Request) :
    request ∈ w.sendPID ↔ ∃ row p, w.mpSelectedPIDInfo = some row ∧
      request = .writeVar (pidID w.miSelectedRow p) (p.ofCount (w.sp p).value) ∧
      Single.ne ((w.mpTableModel.mDataModel row).value p) (p.ofCount (w.sp p).value) = true := by
  unfold ControlOptWdg.sendPID
  cases w.mpSelectedPIDInfo with
  | none => simp
  | some row =>
    simp only [List.mem_flatMap, ControlOptWdg.updatePIDVal, Option.some.injEq]
    constructor
    · rintro ⟨p, _, hmem⟩
      split at hmem
      · rename_i hne
        exact ⟨row, p, rfl, List.mem_singleton.mp hmem, hne⟩
      · cases hmem
    · rintro ⟨_, p, rfl, rfl, hne⟩
      refine ⟨p, ?_, by rw [if_pos hne]; exact List.mem_singleton_self _⟩
      cases p <;> decide

end Widget

/-- A whole number stays one in the `float`, and that comes back as it was. -/
theorem stored_whole {n : Int} (hpos : 0 ≤ n) (hsmall : n < 2 ^ 31) :
    stored (Param.st.ofCount n) .st = Param.st.ofCount n := by
  obtain ⟨m, rfl⟩ := Int.eq_ofNat_of_zero_le hpos
  have hm : m < 2 ^ 31 := by omega
  have hlt : m * 2 ^ 149 < 2 ^ 180 := by
    calc m * 2 ^ 149 < 2 ^ 31 * 2 ^ 149 := Nat.mul_lt_mul_of_pos_right hm (Nat.two_pow_pos _)
      _ = 2 ^ 180 := by rw [← pow_add]
  obtain ⟨q, hq⟩ := two_pow_dvd_toFloat (Nat.dvd_mul_left (2 ^ 149) m)
  have hqle : q ≤ 2 ^ 31 := by
    have hle := RegulatorAlarms.toFloat_le hlt
    rw [hq, show (2 : Nat) ^ 180 = 2 ^ 149 * 2 ^ 31 by rw [← pow_add]] at hle
    exact Nat.le_of_mul_le_mul_left hle (Nat.two_pow_pos _)
  have hcast : ∀ k : Nat, ((k : Int) * 2 ^ 149) = ((k * 2 ^ 149 : Nat) : Int) := by
    intro k
    push_cast
    rfl
  have hunits := (hasUnits_ofUnits (hlt.trans (Nat.pow_lt_pow_right (by decide)
    (by decide : 180 < 256)))).toUnits
  have hint : toInt (Param.st.ofCount m) = q := by
    rw [Param.ofCount, toInt, hcast, hunits, hq, Nat.mul_comm, ← hcast]
    exact Int.mul_tdiv_cancel _ (by decide)
  have hword : (toUnsigned (Param.st.ofCount m)).toNat = q := by
    rw [toUnsigned, hint, BitVec.ofInt_natCast, BitVec.toNat_ofNat]
    omega
  rw [stored, hword, Param.ofCount, hcast m, hcast q, Nat.mul_comm, ← hq, ofUnits_toFloat]

theorem ne_self {fVal : Single} (h : Single.isNaN fVal = false) : Single.ne fVal fVal = false := by
  simp [Single.ne, Single.eq, h]

/-- A box value compares equal with what the table makes of it. -/
theorem stored_settles (p : Param) {n : Int} (hst : p = .st → 0 ≤ n ∧ n < 2 ^ 31) :
    Single.ne (stored (p.ofCount n) p) (p.ofCount n) = false := by
  cases p with
  | st =>
    obtain ⟨hpos, hsmall⟩ := hst rfl
    rw [stored_whole hpos hsmall]
    apply ne_self
    rw [isNaN_false_iff, ← natAbs_key, Param.ofCount, key_ofUnits]
    have hbound := odd_le round_le (n * 2 ^ 149)
    generalize odd SingleSums.round (n * 2 ^ 149) = k at hbound ⊢
    omega
  | kp => exact ne_self (isNaN_ofHundredths n)
  | ki => exact ne_self (isNaN_ofHundredths n)
  | kd => exact ne_self (isNaN_ofHundredths n)
  | db => exact ne_self (isNaN_ofHundredths n)

/-- Reports that answer what has been sent: of the parameters of the row only
the ones written come back, and each of them does. -/
structure Answers (w : ControlOptWdg) (row : Nat) (es : List Event) : Prop where
  only : ∀ e ∈ es, ∃ uiID val, e = .varChanged uiID val ∧
    (Request.writeVar uiID val ∈ w.sendPID ∨ ∀ p, uiID ≠ pidID row p)
  each : ∀ uiID val, Request.writeVar uiID val ∈ w.sendPID → .varChanged uiID val ∈ es

section Answers
variable {img : RangedImage} {w : ControlOptWdg} {row : Nat}

/-- A parameter of the row has the value sent as soon as it has come back, and
is as it was until then. -/
theorem value_answered (h : Fitted img w) (hrow : w.mpSelectedPIDInfo = some row) {es : List Event}
    (only : ∀ e ∈ es, ∃ uiID val, e = .varChanged uiID val ∧
      (Request.writeVar uiID val ∈ w.sendPID ∨ ∀ p, uiID ≠ pidID row p))
    (p : Param) (v : ControlOptWdg) :
    (((run (ControlOptWdg.step img) v es).mpTableModel.mDataModel row).value p =
        stored (p.ofCount (w.sp p).value) p ∧
      Single.ne ((w.mpTableModel.mDataModel row).value p) (p.ofCount (w.sp p).value) = true) ∨
    (((run (ControlOptWdg.step img) v es).mpTableModel.mDataModel row).value p =
        (v.mpTableModel.mDataModel row).value p ∧
      ∀ val, .varChanged (pidID row p) val ∉ es) := by
  obtain ⟨hlt, hselected, _⟩ := h.selected row hrow
  induction es generalizing v with
  | nil => exact Or.inr ⟨rfl, fun _ => List.not_mem_nil⟩
  | cons e es ih =>
    obtain ⟨uiID, val, rfl, hsent⟩ := only _ List.mem_cons_self
    have hstep : (((v.step img (.varChanged uiID val)).mpTableModel.mDataModel row).value p) =
        if uiID = pidID row p then stored val p else (v.mpTableModel.mDataModel row).value p :=
      value_varChanged v.mpTableModel uiID val hlt p
    rcases ih (fun e he => only e (List.mem_cons_of_mem _ he)) (v.step img (.varChanged uiID val))
      with hlater | ⟨hsame, hnone⟩
    · exact Or.inl hlater
    · by_cases heq : uiID = pidID row p
      · left
        rcases hsent with hsent | hother
        · obtain ⟨row', q, hrow', hrequest, hne⟩ := (mem_sendPID w _).mp hsent
          obtain ⟨hid, hval⟩ := Request.writeVar.inj hrequest
          obtain rfl := Option.some.inj (hrow'.symm.trans hrow)
          rw [hselected, heq] at hid
          obtain rfl := (pidID_inj hlt hlt hid).2
          rw [if_pos heq] at hstep
          exact ⟨hsame.trans (hstep.trans (by rw [hval])), hne⟩
        · exact absurd heq (hother p)
      · right
        rw [if_neg heq] at hstep
        refine ⟨hsame.trans hstep, fun val' hmem => ?_⟩
        rcases List.mem_cons.mp hmem with hhead | htail
        · exact heq (Event.varChanged.inj hhead).1.symm
        · exact hnone val' htail

/-- Once every write has come back a parameter is the value of its box; the
unsigned time of the scan cannot be a negative one. -/
theorem settled (h : Fitted img w) (hrow : w.mpSelectedPIDInfo = some row) {es : List Event}
    (answers : Answers w row es) (p : Param)
    (hst : p = .st → 0 ≤ (w.sp p).value ∧ (w.sp p).value < 2 ^ 31) :
    Single.ne (((run (ControlOptWdg.step img) w es).mpTableModel.mDataModel row).value p)
      (p.ofCount (w.sp p).value) = false := by
  obtain ⟨_, hselected, _⟩ := h.selected row hrow
  rcases value_answered h hrow answers.only p w with ⟨hstored, _⟩ | ⟨hsame, hnone⟩
  · rw [hstored]
    exact stored_settles p hst
  · rw [hsame]
    by_contra hne
    rw [Bool.not_eq_false] at hne
    have hsent : Request.writeVar (pidID row p) (p.ofCount (w.sp p).value) ∈ w.sendPID :=
      (mem_sendPID w _).mpr ⟨row, p, hrow, by rw [hselected], hne⟩
    exact hnone _ (answers.each _ _ hsent)

end Answers

section FirstPid

end FirstPid

end PidTable
