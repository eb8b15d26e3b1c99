import TurbineGovernor.SingleSums
import TurbineGovernor.TransitionRuns

/-!
# Manual servo commands

`PositionCtrlWdg` writes the last speed that it was told of, plus or minus a
step. Each button limits the side that it moves to, so that the value written
is in range as long as the last speed is not too far out on the other side.
-/

namespace ManualSpeed
open CommonTypes SingleOrder SingleSums TransitionRuns

def Y_REG_AUTO : BitVec 32 := 1000000010

/-- The widget without its texts. -/
structure PositionCtrlWdg where
  muiReadID : BitVec 32
  muiWriteID : BitVec 32
  mbManual : Bool
  mfMinLimit : Single
  mfMaxLimit : Single
  mfLastSpeedVal : Single
  deriving DecidableEq

/-- A signal of the image or of a button. -/
inductive Event where
  | varChanged (uiID : BitVec 32) (fCurrentVal : Single)
  | more
  | mMore
  | less
  | lLess
  | stop

namespace PositionCtrlWdg

/-- The limits are -10 and 10; `mfLastSpeedVal` is what the memory holds. -/
def construct (uiReadID uiWriteID : BitVec 32) (memory : Single) : PositionCtrlWdg where
  muiReadID := uiReadID
  muiWriteID := uiWriteID
  mbManual := false
  mfMinLimit := 0xc1200000
  mfMaxLimit := 0x41200000
  mfLastSpeedVal := memory

variable (w : PositionCtrlWdg)

def setManual (bManual : Bool) : PositionCtrlWdg := { w with mbManual := bManual }

def varChanged (uiID : BitVec 32) (fCurrentVal : Single) : PositionCtrlWdg :=
  if uiID = w.muiReadID then w
  else if uiID = w.muiWriteID then { w with mfLastSpeedVal := fCurrentVal }
  else if uiID = Y_REG_AUTO then w.setManual (Single.eq fCurrentVal 0)
  else w

/-- `on_cmdMore_clicked` and `on_cmdMMore_clicked`. -/
def raise (fStep : Single) : Single :=
  let fWriteVal := add w.mfLastSpeedVal fStep
  if lt w.mfMaxLimit fWriteVal then w.mfMaxLimit else fWriteVal

/-- `on_cmdLess_clicked` and `on_cmdLLess_clicked`. -/
def lower (fStep : Single) : Single :=
  let fWriteVal := sub w.mfLastSpeedVal fStep
  if lt fWriteVal w.mfMinLimit then w.mfMinLimit else fWriteVal

/-- The value that the slot of a button passes to `writeVar`; 1 and 5 as patterns. -/
def clicked : Event → Option Single
  | .varChanged _ _ => none
  | .more => some (w.raise 0x3f800000)
  | .mMore => some (w.raise 0x40a00000)
  | .less => some (w.lower 0x3f800000)
  | .lLess => some (w.lower 0x40a00000)
  | .stop => some 0

/-- A disabled button has no clicks. -/
def written (e : Event) : Option Single := if w.mbManual then w.clicked e else none

def step (w : PositionCtrlWdg) : Event → PositionCtrlWdg
  | .varChanged uiID fCurrentVal => w.varChanged uiID fCurrentVal
  | _ => w

end PositionCtrlWdg

open PositionCtrlWdg

/-- What the event writes lies between the limits; a NaN does not. -/
def InRange (w : PositionCtrlWdg) (e : Event) : Prop :=
  ∀ fVal, w.written e = some fVal → le w.mfMinLimit fVal = true ∧ le fVal w.mfMaxLimit = true

/-- The last speed is far enough from the limit that the button does not check:
-11, -15, 11 and 15. -/
def Near (w : PositionCtrlWdg) (e : Event) : Prop :=
  w.mbManual = true → match e with
    | .varChanged _ _ => True
    | .more => le 0xc1300000 w.mfLastSpeedVal = true
    | .mMore => le 0xc1700000 w.mfLastSpeedVal = true
    | .less => le w.mfLastSpeedVal 0x41300000 = true
    | .lLess => le w.mfLastSpeedVal 0x41700000 = true
    | .stop => True

structure Limits (w : PositionCtrlWdg) : Prop where
  low : w.mfMinLimit = 0xc1200000
  high : w.mfMaxLimit = 0x41200000

/-- A value that is limited above only. -/
theorem limited_above {low high fVal : Single} (hrange : le low high = true) :
    (le low (if lt high fVal then high else fVal) = true ∧
      le (if lt high fVal then high else fVal) high = true) ↔ le low fVal = true := by
  obtain ⟨hlow, hhigh, hkey⟩ := (le_iff low high).mp hrange
  by_cases habove : lt high fVal = true
  · rw [if_pos habove]
    obtain ⟨_, hval, hgreater⟩ := (lt_iff high fVal).mp habove
    constructor
    · exact fun _ => (le_iff low fVal).mpr ⟨hlow, hval, by omega⟩
    · exact fun _ => ⟨hrange, le_refl hhigh⟩
  · rw [if_neg habove]
    constructor
    · exact And.left
    · intro hle
      exact ⟨hle, (not_lt hhigh ((le_iff low fVal).mp hle).2.1).mp (Bool.not_eq_true _ ▸ habove)⟩

/-- The same below. -/
theorem limited_below {low high fVal : Single} (hrange : le low high = true) :
    (le low (if lt fVal low then low else fVal) = true ∧
      le (if lt fVal low then low else fVal) high = true) ↔ le fVal high = true := by
  obtain ⟨hlow, hhigh, hkey⟩ := (le_iff low high).mp hrange
  by_cases hbelow : lt fVal low = true
  · rw [if_pos hbelow]
    obtain ⟨hval, _, hless⟩ := (lt_iff fVal low).mp hbelow
    constructor
    · exact fun _ => (le_iff fVal high).mpr ⟨hval, hhigh, by omega⟩
    · exact fun _ => ⟨le_refl hlow, hrange⟩
  · rw [if_neg hbelow]
    constructor
    · exact And.right
    · intro hle
      exact ⟨(not_lt ((le_iff fVal high).mp hle).1 hlow).mp (Bool.not_eq_true _ ▸ hbelow), hle⟩

theorem add_one_iff (x : Single) :
    le 0xc1200000 (add x 0x3f800000) = true ↔ le 0xc1300000 x = true :=
  le_add_iff 0xc1300000 0xc1300001 (by decide) (by decide) (by decide) (by decide)
    (by decide +kernel) (by decide +kernel) x

theorem add_five_iff (x : Single) :
    le 0xc1200000 (add x 0x40a00000) = true ↔ le 0xc1700000 x = true :=
  le_add_iff 0xc1700000 0xc1700001 (by decide) (by decide) (by decide) (by decide)
    (by decide +kernel) (by decide +kernel) x

theorem sub_one_iff (x : Single) :
    le (sub x 0x3f800000) 0x41200000 = true ↔ le x 0x41300000 = true :=
  add_le_iff 0x41300000 0x41300001 (by decide) (by decide) (by decide) (by decide)
    (by decide +kernel) (by decide +kernel) x

theorem sub_five_iff (x : Single) :
    le (sub x 0x40a00000) 0x41200000 = true ↔ le x 0x41700000 = true :=
  add_le_iff 0x41700000 0x41700001 (by decide) (by decide) (by decide) (by decide)
    (by decide +kernel) (by decide +kernel) x

section Click
variable {w : PositionCtrlWdg}

theorem inRange_written {e : Event} {fVal : Single} (hmanual : w.mbManual = true)
    (hclick : w.clicked e = some fVal) :
    InRange w e ↔ le w.mfMinLimit fVal = true ∧ le fVal w.mfMaxLimit = true := by
  rw [InRange, written, if_pos hmanual, hclick]
  constructor
  · exact fun h => h fVal rfl
  · intro h fVal' heq
    rw [← Option.some.inj heq]
    exact h

theorem raise_iff (limits : Limits w) (fStep : Single) :
    (le w.mfMinLimit (w.raise fStep) = true ∧ le (w.raise fStep) w.mfMaxLimit = true) ↔
      le 0xc1200000 (add w.mfLastSpeedVal fStep) = true := by
  rw [raise, limits.low, limits.high]
  exact limited_above (by decide)

theorem lower_iff (limits : Limits w) (fStep : Single) :
    (le w.mfMinLimit (w.lower fStep) = true ∧ le (w.lower fStep) w.mfMaxLimit = true) ↔
      le (sub w.mfLastSpeedVal fStep) 0x41200000 = true := by
  rw [lower, limits.low, limits.high]
  exact limited_below (by decide)

theorem inRange_iff_near (limits : Limits w) (e : Event) : InRange w e ↔ Near w e := by
  by_cases hmanual : w.mbManual = true
  · cases e with
    | varChanged uiID fCurrentVal =>
      exact ⟨fun _ _ => trivial, fun _ fVal h => by rw [written, if_pos hmanual] at h; cases h⟩
    | more =>
      rw [inRange_written hmanual rfl, raise_iff limits, add_one_iff]
      exact ⟨fun h _ => h, fun h => h hmanual⟩
    | mMore =>
      rw [inRange_written hmanual rfl, raise_iff limits, add_five_iff]
      exact ⟨fun h _ => h, fun h => h hmanual⟩
    | less =>
      rw [inRange_written hmanual rfl, lower_iff limits, sub_one_iff]
      exact ⟨fun h _ => h, fun h => h hmanual⟩
    | lLess =>
      rw [inRange_written hmanual rfl, lower_iff limits, sub_five_iff]
      exact ⟨fun h _ => h, fun h => h hmanual⟩
    | stop =>
      rw [inRange_written hmanual rfl, limits.low, limits.high]
      exact ⟨fun _ _ => trivial, fun _ => by decide⟩
  · refine ⟨fun _ h => absurd h hmanual, fun _ fVal h => ?_⟩
    rw [written, if_neg hmanual] at h
    cases h

theorem Limits.step (limits : Limits w) (e : Event) : Limits (w.step e) := by
  cases e with
  | varChanged uiID fCurrentVal =>
    simp only [PositionCtrlWdg.step, PositionCtrlWdg.varChanged]
    split
    · exact limits
    split
    · exact ⟨limits.low, limits.high⟩
    split
    · exact ⟨limits.low, limits.high⟩
    · exact limits
  | more => exact limits
  | mMore => exact limits
  | less => exact limits
  | lLess => exact limits
  | stop => exact limits

end Click

/-- All commands of a run are in range exactly when the last speed is near at
every click. -/
theorem commands_in_range_iff (uiReadID uiWriteID : BitVec 32) (memory : Single) (es : List Event) :
    Along step InRange (construct uiReadID uiWriteID memory) es ↔
      Along step Near (construct uiReadID uiWriteID memory) es :=
  along_congr (P := Limits) (fun _ e limits => inRange_iff_near limits e)
    (fun _ e limits _ => limits.step e) ⟨rfl, rfl⟩ es

/-- The distributor's widget is told of -100, of manual mode, and clicked. -/
def farBelow : List Event := [.varChanged 2000000060 0xc2c80000, .varChanged Y_REG_AUTO 0, .more]

theorem command_below_range : ¬ Along step InRange (construct 29 2000000060 0) farBelow := by
  rintro ⟨_, _, law, _⟩
  have hrange := law 0xc2c60000 (by decide +kernel)
  exact absurd hrange.1 (by decide)

end ManualSpeed
