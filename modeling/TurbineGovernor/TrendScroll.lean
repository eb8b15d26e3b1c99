import TurbineGovernor.CommonTypes
import TurbineGovernor.TransitionRuns

/-!
# The scrolling of the trend plots

A timer event of `RTPlotWdg` moves the plot by one tick when the buffer has a
whole interval after the points that are skipped, and takes the new samples off
these points otherwise. The first sample painted should stay at the instant
that the axis starts at.
-/

namespace TrendScroll
open CommonTypes TransitionRuns

/-- A `Measure` of `RTMeasurer`. -/
structure Measure where
  lBuffer : List Single
  uBufferSize : BitVec 32
  uTotalMeasures : BitVec 32

/-- The slot of the timer. -/
def Measure.take (m : Measure) (f : Single) : Measure :=
  let lBuffer := m.lBuffer ++ [f]
  { m with
    lBuffer := if m.uBufferSize.toNat < lBuffer.length then lBuffer.tail else lBuffer
    uTotalMeasures := m.uTotalMeasures + 1 }

/-- The last samples are buffered, as many as there is room for. -/
theorem measure_buffered (uBufferSize : BitVec 32) (fs : List Single) :
    fs.foldl Measure.take ⟨[], uBufferSize, 0⟩ =
      ⟨fs.drop (fs.length - uBufferSize.toNat), uBufferSize, BitVec.ofNat 32 fs.length⟩ := by
  induction fs using List.reverseRecOn with
  | nil => simp
  | append_singleton fs f ih =>
    rw [List.foldl_append, ih, List.foldl_cons, List.foldl_nil, Measure.take]
    simp only [List.length_append, List.length_drop, List.length_singleton]
    have htotal : BitVec.ofNat 32 fs.length + 1 = BitVec.ofNat 32 (fs.length + 1) :=
      (BitVec.ofNat_add fs.length 1).symm
    rw [htotal]
    by_cases hfull : uBufferSize.toNat ≤ fs.length
    · -- a full buffer loses its first sample
      have hdrop : fs.length + 1 - uBufferSize.toNat = fs.length - uBufferSize.toNat + 1 := by omega
      rw [if_pos (by omega), hdrop, ← List.drop_append_of_le_length (by omega), List.tail_drop]
    · have hnone : fs.length - uBufferSize.toNat = 0 := by omega
      have hnone' : fs.length + 1 - uBufferSize.toNat = 0 := by omega
      rw [if_neg (by omega), hnone, hnone', List.drop_zero, List.drop_zero]

/-- What `timerEvent` uses of the widget: `uPoints` is the number of points per
tick, which it computes from the configuration in every event, and `ticks`
counts the advances of `mfStartInstant`. -/
structure RTPlotWdg where
  muiMaxBuffSize : BitVec 32
  uPoints : BitVec 32
  muiPointsTillMove : BitVec 32
  muiTotalMeasures : BitVec 32
  ticks : Nat
  deriving DecidableEq

namespace RTPlotWdg

def construct (muiMaxBuffSize uPoints : BitVec 32) : RTPlotWdg := ⟨muiMaxBuffSize, uPoints, 0, 0, 0⟩

def timerEvent (w : RTPlotWdg) (uTotalMeasures uBuffSize : BitVec 32) : RTPlotWdg :=
  if w.muiMaxBuffSize ≤ uBuffSize - w.muiPointsTillMove then
    { w with muiPointsTillMove := w.uPoints, ticks := w.ticks + 1 }
  else
    { w with
      muiPointsTillMove :=
        if w.muiMaxBuffSize ≤ w.muiTotalMeasures then
          w.muiPointsTillMove - (uTotalMeasures - w.muiTotalMeasures)
        else w.muiPointsTillMove
      muiTotalMeasures := uTotalMeasures }

end RTPlotWdg

/-- The widget with the total of its last event. -/
structure Plot where
  wdg : RTPlotWdg
  uTotal : BitVec 32

namespace Plot

/-- The samples that are buffered of a total. -/
def buffered (s : Plot) (uTotal : BitVec 32) : BitVec 32 :=
  if uTotal ≤ s.wdg.muiMaxBuffSize then uTotal else s.wdg.muiMaxBuffSize

def step (s : Plot) (uTotal : BitVec 32) : Plot :=
  ⟨s.wdg.timerEvent uTotal (s.buffered uTotal), uTotal⟩

/-- The index of the first sample that is painted, among all that were taken. -/
def firstPainted (s : Plot) : Nat :=
  s.uTotal.toNat - (s.buffered s.uTotal).toNat + s.wdg.muiPointsTillMove.toNat

end Plot

open RTPlotWdg Plot

/-- After the event the plot starts where its axis does. -/
def InStep (s : Plot) (uTotal : BitVec 32) : Prop :=
  (s.step uTotal).wdg.muiPointsTillMove ≤ (s.step uTotal).wdg.uPoints ∧
    (s.step uTotal).firstPainted = s.wdg.uPoints.toNat * (s.step uTotal).wdg.ticks

/-- The samples come at a pace that the event can follow: a tick meets exactly
the sample that it is due at, any other event no more samples than are still to
be skipped, and none while the old total is from before the first full buffer. -/
def Paced (s : Plot) (uTotal : BitVec 32) : Prop :=
  if s.wdg.muiMaxBuffSize ≤ s.buffered uTotal - s.wdg.muiPointsTillMove then
    uTotal.toNat = max s.uTotal.toNat s.wdg.muiMaxBuffSize.toNat + s.wdg.muiPointsTillMove.toNat
  else if s.wdg.muiMaxBuffSize ≤ s.wdg.muiTotalMeasures then
    uTotal.toNat ≤ s.uTotal.toNat + s.wdg.muiPointsTillMove.toNat
  else uTotal.toNat ≤ max s.uTotal.toNat s.wdg.muiMaxBuffSize.toNat

/-- What holds after an event that leaves the plot in step. -/
structure Aligned (s : Plot) : Prop where
  bound : s.wdg.muiPointsTillMove.toNat ≤ s.wdg.uPoints.toNat
  first : s.firstPainted = s.wdg.uPoints.toNat * s.wdg.ticks
  filling : s.uTotal.toNat < s.wdg.muiMaxBuffSize.toNat → s.wdg.muiPointsTillMove.toNat = 0
  seen : s.wdg.muiTotalMeasures.toNat ≤ s.uTotal.toNat
  known : s.wdg.muiPointsTillMove.toNat ≤ s.wdg.muiMaxBuffSize.toNat →
    s.wdg.muiTotalMeasures.toNat = s.uTotal.toNat ∨
      s.wdg.muiTotalMeasures.toNat < s.wdg.muiMaxBuffSize.toNat

theorem toNat_buffered (s : Plot) (uTotal : BitVec 32) :
    (s.buffered uTotal).toNat = min uTotal.toNat s.wdg.muiMaxBuffSize.toNat := by
  simp only [buffered, BitVec.le_def]
  split <;> omega

theorem aligned_construct (muiMaxBuffSize uPoints : BitVec 32) :
    Aligned ⟨construct muiMaxBuffSize uPoints, 0⟩ := by
  refine ⟨Nat.zero_le _, ?_, fun _ => rfl, Nat.le_refl _, fun _ => Or.inl rfl⟩
  simp only [firstPainted, toNat_buffered]
  simp [construct]

section Event
variable {s : Plot} {uTotal : BitVec 32}

/-- The event is a tick. -/
def Ticks (s : Plot) (uTotal : BitVec 32) : Prop :=
  s.wdg.muiMaxBuffSize ≤ s.buffered uTotal - s.wdg.muiPointsTillMove

/-- A tick comes on a full buffer with no points left to skip, or when there are
more of them than the buffer holds and the difference wraps. -/
theorem ticks_iff (aligned : Aligned s) (later : s.uTotal.toNat ≤ uTotal.toNat) :
    Ticks s uTotal ↔ s.wdg.muiMaxBuffSize.toNat ≤ uTotal.toNat ∧
      (s.wdg.muiPointsTillMove.toNat = 0 ∨
        s.wdg.muiMaxBuffSize.toNat < s.wdg.muiPointsTillMove.toNat) := by
  have hbuffered := toNat_buffered s uTotal
  have hfilling := aligned.filling
  have hsize := s.wdg.muiMaxBuffSize.isLt
  have hpoints := s.wdg.muiPointsTillMove.isLt
  rw [Ticks, BitVec.le_def, BitVec.toNat_sub, hbuffered]
  omega

theorem step_tick (h : Ticks s uTotal) :
    s.step uTotal = ⟨{ s.wdg with
      muiPointsTillMove := s.wdg.uPoints, ticks := s.wdg.ticks + 1 }, uTotal⟩ := by
  have hcond : s.wdg.muiMaxBuffSize ≤ s.buffered uTotal - s.wdg.muiPointsTillMove := h
  rw [Plot.step, timerEvent, if_pos hcond]

theorem step_between (h : ¬ Ticks s uTotal) :
    s.step uTotal = ⟨{ s.wdg with
      muiPointsTillMove :=
        if s.wdg.muiMaxBuffSize ≤ s.wdg.muiTotalMeasures then
          s.wdg.muiPointsTillMove - (uTotal - s.wdg.muiTotalMeasures)
        else s.wdg.muiPointsTillMove
      muiTotalMeasures := uTotal }, uTotal⟩ := by
  have hcond : ¬ s.wdg.muiMaxBuffSize ≤ s.buffered uTotal - s.wdg.muiPointsTillMove := h
  rw [Plot.step, timerEvent, if_neg hcond]

theorem inStep_tick_iff (aligned : Aligned s) (h : Ticks s uTotal)
    (later : s.uTotal.toNat ≤ uTotal.toNat) :
    InStep s uTotal ↔ uTotal.toNat =
      max s.uTotal.toNat s.wdg.muiMaxBuffSize.toNat + s.wdg.muiPointsTillMove.toNat := by
  have hticks := (ticks_iff aligned later).mp h
  have hfirst := aligned.first
  have hfilling := aligned.filling
  have hbound := aligned.bound
  simp only [firstPainted, toNat_buffered] at hfirst
  simp only [InStep, step_tick h, firstPainted, toNat_buffered]
  rw [Nat.mul_succ, ← hfirst]
  constructor
  · rintro ⟨_, heq⟩
    omega
  · intro heq
    exact ⟨BitVec.le_refl _, by omega⟩

theorem inStep_between_iff (aligned : Aligned s) (h : ¬ Ticks s uTotal)
    (later : s.uTotal.toNat ≤ uTotal.toNat) :
    InStep s uTotal ↔ if s.wdg.muiMaxBuffSize ≤ s.wdg.muiTotalMeasures then
        uTotal.toNat ≤ s.uTotal.toNat + s.wdg.muiPointsTillMove.toNat
      else uTotal.toNat ≤ max s.uTotal.toNat s.wdg.muiMaxBuffSize.toNat := by
  have hticks := mt (ticks_iff aligned later).mpr h
  have hfirst := aligned.first
  have hfilling := aligned.filling
  have hbound := aligned.bound
  have hseen := aligned.seen
  have hknown := aligned.known
  simp only [firstPainted, toNat_buffered] at hfirst
  simp only [InStep, step_between h, firstPainted, toNat_buffered, BitVec.le_def]
  rw [← hfirst]
  by_cases hold : s.wdg.muiMaxBuffSize.toNat ≤ s.wdg.muiTotalMeasures.toNat
  · -- the old total is the one of the last event, whose samples are taken off
    rw [if_pos hold, if_pos hold, BitVec.toNat_sub, BitVec.toNat_sub]
    have hpoints := s.wdg.muiPointsTillMove.isLt
    have htotal := uTotal.isLt
    omega
  · rw [if_neg hold, if_neg hold]
    omega

theorem inStep_iff_paced (aligned : Aligned s) (later : s.uTotal.toNat ≤ uTotal.toNat) :
    InStep s uTotal ↔ Paced s uTotal := by
  by_cases h : Ticks s uTotal
  · rw [inStep_tick_iff aligned h later]
    exact (Eq.to_iff (if_pos h)).symm
  · rw [inStep_between_iff aligned h later]
    exact (Eq.to_iff (if_neg h)).symm

theorem Aligned.step (aligned : Aligned s) (later : s.uTotal.toNat ≤ uTotal.toNat)
    (inStep : InStep s uTotal) : Aligned (s.step uTotal) := by
  have hfilling := aligned.filling
  have hseen := aligned.seen
  have hknown := aligned.known
  have hbound := aligned.bound
  have hsame : (s.step uTotal).wdg.uPoints = s.wdg.uPoints := by
    by_cases h : Ticks s uTotal
    · rw [step_tick h]
    · rw [step_between h]
  have hfirst : (s.step uTotal).firstPainted =
      (s.step uTotal).wdg.uPoints.toNat * (s.step uTotal).wdg.ticks :=
    inStep.2.trans (by rw [hsame])
  by_cases h : Ticks s uTotal
  · have hticks := (ticks_iff aligned later).mp h
    have hpaced := (inStep_tick_iff aligned h later).mp inStep
    refine ⟨inStep.1, hfirst, ?_, ?_, ?_⟩
    · rw [step_tick h]
      dsimp only
      omega
    · rw [step_tick h]
      exact hseen.trans later
    · rw [step_tick h]
      dsimp only
      omega
  · refine ⟨inStep.1, hfirst, ?_, ?_, ?_⟩
    · rw [step_between h]
      simp only [BitVec.le_def]
      intro hless
      rw [if_neg (by omega)]
      exact hfilling (by omega)
    · rw [step_between h]
    · rw [step_between h]
      exact fun _ => Or.inl rfl

end Event

theorem inStep_along_iff {s : Plot} (aligned : Aligned s) {uTotals : List (BitVec 32)}
    (later : (s.uTotal :: uTotals).Pairwise (· ≤ ·)) :
    Along Plot.step InStep s uTotals ↔ Along Plot.step Paced s uTotals := by
  induction uTotals generalizing s with
  | nil => exact Iff.rfl
  | cons uTotal uTotals ih =>
    obtain ⟨hfirst, hrest⟩ := List.pairwise_cons.mp later
    have hlater := BitVec.le_def.mp (hfirst uTotal List.mem_cons_self)
    rw [along_cons, along_cons, ← inStep_iff_paced aligned hlater]
    exact and_congr_right (fun inStep => ih (aligned.step hlater inStep) hrest)

/-- The trend stays in step over all events exactly when all of them are paced. -/
theorem scrolling_aligned_iff (muiMaxBuffSize uPoints : BitVec 32) {uTotals : List (BitVec 32)}
    (later : uTotals.Pairwise (· ≤ ·)) :
    Along Plot.step InStep ⟨construct muiMaxBuffSize uPoints, 0⟩ uTotals ↔
      Along Plot.step Paced ⟨construct muiMaxBuffSize uPoints, 0⟩ uTotals :=
  inStep_along_iff (aligned_construct muiMaxBuffSize uPoints)
    (List.pairwise_cons.mpr ⟨fun _ _ => BitVec.le_def.mpr (Nat.zero_le _), later⟩)

/-- The plot of the speed buffers 300 samples and has 25 for each tick. Here every
sample meets two events, up to the first tick. -/
theorem speed_in_step :
    Along Plot.step InStep ⟨construct 300 25, 0⟩ [298, 299, 299, 300, 300, 301, 301, 302] :=
  (scrolling_aligned_iff 300 25 (by decide)).mpr (by
    simp only [along_cons, along_nil, Paced]
    decide)

/-- The same plot, with two samples between the events at the first tick. -/
theorem uneven_arrival : ¬ Along Plot.step InStep ⟨construct 300 25, 0⟩ [299, 301] := by
  rintro ⟨_, law, _⟩
  exact absurd law.2 (by decide)

end TrendScroll
