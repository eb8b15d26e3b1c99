import TurbineGovernor.EtherDevices
import TurbineGovernor.MaximalRuns
import TurbineGovernor.TransitionRuns

/-!
# The measurement of digital pulses

A digital device tells whether a pulse is under way from the order of two time
stamps. Over the samples that it reads, at clock times that increase, it
tracks the maximal runs of the level that it measures; errors of the module and
failed reads leave no sample.
-/

namespace PulseMeasure
open CommonTypes ByteMemory ProcessImage ProcessImage.Addr EtherDevices TransitionRuns MaximalRuns

/-- What a call of `updateDevice` reads when it comes to the measurement, and
the clocks at that time. -/
structure Sample where
  readedVal : BitVec 32
  steadyNow : Int
  msSinceEpoch : Int
  deriving DecidableEq

def sampleOf (addr : IOAddr) (s : Surroundings) : Option Sample :=
  if s.isModuleOk addr && (s.readDevice addr).1 then
    some ⟨(s.readDevice addr).2, s.steadyNow, s.msSinceEpoch⟩
  else none

/-- The samples of a sequence of calls. -/
def samples (addr : IOAddr) (calls : List Surroundings) : List Sample :=
  calls.filterMap (sampleOf addr)

/-- The level `iLevel` has been read. -/
def AtLevel (iLevel : Int) (x : Sample) : Bool := decide ((x.readedVal.toNat : Int) = iLevel)

/-- A call of `updateDevice`, with the driver's table of errors. -/
def step (addr : IOAddr) (d : EtherDevice × VarErrors) (s : Surroundings) :
    EtherDevice × VarErrors :=
  d.1.updateDevice s addr d.2

/-- The measurement of a digital device. -/
def measurement (d : EtherDevice × VarErrors) : Option DigitalDev :=
  match d.1.devClass with
  | .digitalDev digital => some digital
  | _ => none

/-- What a sample does to the measurement. -/
def see (digital : DigitalDev) (x : Sample) : DigitalDev :=
  if digital.mtPulseEndTime ≥ digital.mtPulseStartTime ∧
      AtLevel digital.miPulseMeasureOpt x = true then
    { digital with mtPulseStartTime := x.steadyNow }
  else if digital.mtPulseStartTime > digital.mtPulseEndTime ∧
      AtLevel digital.miPulseMeasureOpt x = false then
    { digital with
      mtPulseEndTime := x.steadyNow
      mdPulseDur := some (x.steadyNow - digital.mtPulseStartTime)
      miPulseTimeS := some x.msSinceEpoch }
  else digital

theorem readDevice_one (s : Surroundings) {addr : IOAddr} (hbits : addr.uiNumBits = 1) :
    (s.readDevice addr).2 = 0#32 ∨ (s.readDevice addr).2 = 1#32 := by
  by_cases hvalid : Valid s.slaves addr
  · rw [Surroundings.readDevice, readDevice_bit s.little s.image hvalid hbits]
    cases bitAt s.image (firstBit s.slaves.inputs addr) with
    | false => exact Or.inl rfl
    | true => exact Or.inr rfl
  · left
    rw [Surroundings.readDevice,
      (refused s.little s.image 0 (fun hkind => hvalid hkind.1)).2]

/-- The cast to 8 bits is that of a small number. -/
theorem atLevel_of_cast {readedVal : BitVec 32} (h : readedVal = 0#32 ∨ readedVal = 1#32)
    (iLevel steadyNow msSinceEpoch : Int) :
    AtLevel iLevel ⟨readedVal, steadyNow, msSinceEpoch⟩ =
      decide (iLevel = (readedVal.setWidth 8).toInt) := by
  rcases h with rfl | rfl
  · simp [AtLevel, eq_comm]
  · simp [AtLevel, eq_comm]

theorem measure_eq {s : Surroundings} {addr : IOAddr} (hbits : addr.uiNumBits = 1)
    (hok : s.isModuleOk addr = true) {digital : DigitalDev}
    (hopt : digital.miPulseMeasureOpt ≠ -1) :
    digital.measure s addr = match sampleOf addr s with
      | none => digital
      | some x => see digital x := by
  have hlevel := atLevel_of_cast (readDevice_one s hbits) digital.miPulseMeasureOpt s.steadyNow
    s.msSinceEpoch
  cases hread : s.readDevice addr with
  | mk ok readedVal =>
    rw [hread] at hlevel
    cases ok with
    | false =>
      simp [DigitalDev.measure, hopt, hread, sampleOf]
    | true =>
      simp only [DigitalDev.measure, if_neg hopt, hread, sampleOf, hok, Bool.and_self, if_true,
        Bool.not_true, Bool.false_eq_true, if_false, see, hlevel, decide_eq_true_eq,
        decide_eq_false_iff_not, ne_eq]

theorem measurement_step {addr : IOAddr} (hbits : addr.uiNumBits = 1)
    {d : EtherDevice × VarErrors} {digital : DigitalDev} (hd : measurement d = some digital)
    (hopt : digital.miPulseMeasureOpt ≠ -1) (s : Surroundings) :
    measurement (step addr d s) = some (match sampleOf addr s with
      | none => digital
      | some x => see digital x) := by
  obtain ⟨dev, mVarErrors⟩ := d
  have hclass : dev.devClass = .digitalDev digital := by
    cases hc : dev.devClass with
    | digitalDev other =>
      simp only [measurement, hc] at hd
      rw [Option.some.inj hd]
    | analogDev _ =>
      simp only [measurement, hc] at hd
      cases hd
    | pulseDev =>
      simp only [measurement, hc] at hd
      cases hd
  have hstep : step addr (dev, mVarErrors) s =
      DigitalDev.updateDevice s addr digital dev mVarErrors := by
    simp only [step, EtherDevice.updateDevice, hclass]
  rw [hstep]
  by_cases hok : s.isModuleOk addr = true
  · have hmeasure := measure_eq hbits hok hopt
    simp only [DigitalDev.updateDevice, hok, Bool.not_true, Bool.false_eq_true, if_false,
      measurement, hmeasure]
  · have hbad : s.isModuleOk addr = false := eq_false_of_ne_true hok
    have hkept := @devClass_updateModuleState addr dev mVarErrors s
    simp only [DigitalDev.updateDevice, sampleOf, hbad, Bool.not_false, if_true, Bool.false_and,
      Bool.false_eq_true, if_false, measurement]
    rw [hkept, hclass]

theorem miPulseMeasureOpt_see (digital : DigitalDev) (x : Sample) :
    (see digital x).miPulseMeasureOpt = digital.miPulseMeasureOpt := by
  simp only [see]
  split
  · rfl
  · split <;> rfl

/-- Only samples count. -/
theorem measurement_run {addr : IOAddr} (hbits : addr.uiNumBits = 1)
    {d : EtherDevice × VarErrors} {digital : DigitalDev} (hd : measurement d = some digital)
    (hopt : digital.miPulseMeasureOpt ≠ -1) (calls : List Surroundings) :
    measurement (run (step addr) d calls) = some ((samples addr calls).foldl see digital) := by
  induction calls generalizing d digital with
  | nil => exact hd
  | cons s calls ih =>
    have hstep := measurement_step hbits hd hopt s
    rw [run_cons]
    cases hsample : sampleOf addr s with
    | none =>
      rw [hsample] at hstep
      rw [samples, List.filterMap_cons_none hsample]
      exact ih hstep hopt
    | some x =>
      rw [hsample] at hstep
      rw [samples, List.filterMap_cons_some hsample]
      refine ih hstep ?_
      rw [miPulseMeasureOpt_see]
      exact hopt

/-- The stamps of a device that tracks the runs of `iLevel`. An open run has
begun later than the last completed one was ended. -/
structure Follows (iLevel now : Int) (digital : DigitalDev) (t : Tracker Sample) : Prop where
  option : digital.miPulseMeasureOpt = iLevel
  startPast : digital.mtPulseStartTime ≤ now
  endPast : digital.mtPulseEndTime ≤ now
  phase : match t.first with
    | none => digital.mtPulseEndTime ≥ digital.mtPulseStartTime
    | some first => digital.mtPulseStartTime = first.steadyNow ∧
        digital.mtPulseStartTime > digital.mtPulseEndTime
  duration : digital.mdPulseDur = t.last.map (fun r => r.2.steadyNow - r.1.steadyNow)
  stamp : digital.miPulseTimeS = t.last.map (fun r => r.2.msSinceEpoch)

theorem Follows.see {iLevel now : Int} {digital : DigitalDev} {t : Tracker Sample}
    (h : Follows iLevel now digital t) {x : Sample} (hlater : now < x.steadyNow) :
    Follows iLevel x.steadyNow (PulseMeasure.see digital x) (t.see (AtLevel iLevel) x) := by
  obtain ⟨rfl, hstart, hend, hphase, hdur, hstamp⟩ := h
  by_cases hin : AtLevel digital.miPulseMeasureOpt x = true
  · rw [Tracker.see_in hin]
    cases hfirst : t.first with
    | none =>
      simp only [hfirst] at hphase
      have hsee : PulseMeasure.see digital x = { digital with mtPulseStartTime := x.steadyNow } :=
        if_pos ⟨hphase, hin⟩
      rw [hsee]
      exact ⟨rfl, le_rfl, hend.trans hlater.le, ⟨rfl, lt_of_le_of_lt hend hlater⟩, hdur, hstamp⟩
    | some first =>
      simp only [hfirst] at hphase
      have hsee : PulseMeasure.see digital x = digital := by
        rw [PulseMeasure.see, if_neg (fun hc => absurd hc.1 (not_le_of_gt hphase.2)),
          if_neg (fun hc => by rw [hin] at hc; cases hc.2)]
      rw [hsee]
      exact ⟨rfl, hstart.trans hlater.le, hend.trans hlater.le, hphase, hdur, hstamp⟩
  · have hout : AtLevel digital.miPulseMeasureOpt x = false := eq_false_of_ne_true hin
    cases hfirst : t.first with
    | none =>
      simp only [hfirst] at hphase
      have hsee : PulseMeasure.see digital x = digital := by
        rw [PulseMeasure.see, if_neg (fun hc => hin hc.2),
          if_neg (fun hc => absurd hc.1 (not_lt_of_ge hphase))]
      rw [hsee, Tracker.see_closed hout hfirst]
      refine ⟨rfl, hstart.trans hlater.le, hend.trans hlater.le, ?_, hdur, hstamp⟩
      simp only [hfirst]
      exact hphase
    | some first =>
      simp only [hfirst] at hphase
      have hsee : PulseMeasure.see digital x = { digital with
          mtPulseEndTime := x.steadyNow
          mdPulseDur := some (x.steadyNow - digital.mtPulseStartTime)
          miPulseTimeS := some x.msSinceEpoch } := by
        rw [PulseMeasure.see, if_neg (fun hc => hin hc.2), if_pos ⟨hphase.2, hout⟩]
      rw [hsee, Tracker.see_open hout hfirst]
      refine ⟨rfl, hstart.trans hlater.le, le_rfl, hstart.trans hlater.le, ?_, rfl⟩
      rw [hphase.1]
      rfl

theorem follows_samples {iLevel now : Int} {digital : DigitalDev} {t : Tracker Sample}
    (h : Follows iLevel now digital t) {l : List Sample}
    (clock : (now :: l.map Sample.steadyNow).Pairwise (· < ·)) :
    ∃ now', Follows iLevel now' (l.foldl PulseMeasure.see digital)
      (t.track (AtLevel iLevel) l) := by
  induction l generalizing now digital t with
  | nil => exact ⟨now, h⟩
  | cons x l ih =>
    obtain ⟨hnow, hrest⟩ := List.pairwise_cons.mp clock
    exact ih (h.see (hnow x.steadyNow List.mem_cons_self)) hrest

theorem clock_samples {addr : IOAddr} {calls : List Surroundings} {now : Int}
    (clock : (now :: calls.map Surroundings.steadyNow).Pairwise (· < ·)) :
    (now :: (samples addr calls).map Sample.steadyNow).Pairwise (· < ·) := by
  have hsub : ((samples addr calls).map Sample.steadyNow).Sublist
      (calls.map Surroundings.steadyNow) := by
    induction calls with
    | nil => exact List.Sublist.refl _
    | cons s calls ih =>
      have htail := ih (clock.sublist (List.cons_sublist_cons.mpr (List.sublist_cons_self _ _)))
      cases hsample : sampleOf addr s with
      | none =>
        rw [samples, List.filterMap_cons_none hsample]
        exact htail.trans (List.sublist_cons_self _ _)
      | some x =>
        have htime : x.steadyNow = s.steadyNow := by
          simp only [sampleOf] at hsample
          split at hsample
          · rw [← Option.some.inj hsample]
          · cases hsample
        rw [samples, List.filterMap_cons_some hsample, List.map_cons, List.map_cons, htime]
        exact htail.cons_cons _
  exact clock.sublist (hsub.cons_cons now)

/-- Once a maximal run of the measured level has been ended, the duration and the
stamp are those of the last completed run; a call that skips the measurement or
reads the level again changes neither. -/
theorem last_pulse_measured {iLevel : Int} (hlevel : iLevel = 0 ∨ iLevel = 1) {addr : IOAddr}
    (hbits : addr.uiNumBits = 1) (mVarErrors : VarErrors) {calls : List Surroundings}
    (clock : (0 :: calls.map Surroundings.steadyNow).Pairwise (· < ·)) :
    let start := (EtherDevice.create (.digitalDev iLevel), mVarErrors)
    ∃ digital, measurement (run (step addr) start calls) = some digital ∧
      (∀ before first rest stop after,
        samples addr calls = before ++ (first :: rest) ++ stop :: after →
        (∀ x, before.getLast? = some x → AtLevel iLevel x = false) →
        (∀ x ∈ first :: rest, AtLevel iLevel x = true) → AtLevel iLevel stop = false →
        after.Pairwise (fun x y => AtLevel iLevel x = true → AtLevel iLevel y = true) →
        digital.mdPulseDur = some (stop.steadyNow - first.steadyNow) ∧
        digital.miPulseTimeS = some stop.msSinceEpoch) ∧
      ∀ s, (∀ x, sampleOf addr s = some x → AtLevel iLevel x = true) →
        ∃ digital', measurement (run (step addr) start (calls ++ [s])) = some digital' ∧
          digital'.mdPulseDur = digital.mdPulseDur ∧
          digital'.miPulseTimeS = digital.miPulseTimeS := by
  intro start
  have hcreated : measurement start = some { miPulseMeasureOpt := iLevel } := by
    rcases hlevel with rfl | rfl
    · rfl
    · rfl
  have hopt : iLevel ≠ -1 := by omega
  have hrun := measurement_run hbits hcreated hopt calls
  obtain ⟨now, hfollows⟩ := follows_samples (t := Tracker.start)
    (⟨rfl, le_rfl, le_rfl, le_rfl, rfl, rfl⟩ : Follows iLevel 0 { miPulseMeasureOpt := iLevel } _)
    (@clock_samples addr calls 0 clock)
  refine ⟨_, hrun, ?_, ?_⟩
  · intro before first rest stop after hsplit maximal hin hstop hafter
    have hlast := Tracker.track_completed maximal hin hstop hafter
    rw [← hsplit] at hlast
    refine ⟨hfollows.duration.trans ?_, hfollows.stamp.trans ?_⟩
    · rw [hlast]
      rfl
    · rw [hlast]
      rfl
  · intro s hs
    rw [run_snoc]
    have hopt' : ((samples addr calls).foldl see
        { miPulseMeasureOpt := iLevel }).miPulseMeasureOpt ≠ -1 := by
      rw [hfollows.option]
      exact hopt
    refine ⟨_, measurement_step hbits hrun hopt' s, ?_⟩
    cases hsample : sampleOf addr s with
    | none => exact ⟨rfl, rfl⟩
    | some x =>
      have hx := hs x hsample
      rw [← hfollows.option] at hx
      simp only [see, hx, Bool.true_eq_false, and_false, if_false]
      split
      · exact ⟨rfl, rfl⟩
      · exact ⟨rfl, rfl⟩

/-- An input of module 1 that is read at a given time. -/
def lamp : IOAddr := { uiModule := 1, uiNumBits := 1 }

def lampRead (lit : Bool) (steadyNow : Int) : Surroundings :=
  ⟨true, ⟨1, fun _ => 0, fun _ => 0⟩, fun _ => if lit then 0x80#8 else 0, ∅, steadyNow,
    1000 + steadyNow⟩

theorem lamp_measured : ∃ digital,
    measurement (run (step lamp) (EtherDevice.create (.digitalDev 1), [])
      [lampRead true 5, lampRead true 6, lampRead false 9]) = some digital ∧
    digital.mdPulseDur = some 4 ∧ digital.miPulseTimeS = some 1009 := by
  obtain ⟨digital, hrun, hmeasured, _⟩ := @last_pulse_measured 1 (Or.inr rfl) lamp rfl []
    [lampRead true 5, lampRead true 6, lampRead false 9] (by decide)
  exact ⟨digital, hrun, hmeasured [] ⟨1, 5, 1005⟩ [⟨1, 6, 1006⟩] ⟨0, 9, 1009⟩ [] (by decide)
    (fun x hx => by cases hx) (by decide) rfl List.Pairwise.nil⟩

end PulseMeasure
