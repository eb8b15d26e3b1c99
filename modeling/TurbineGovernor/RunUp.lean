import TurbineGovernor.RegulatorLoop

/-!
# The run-up of the turbine

Once the start command has been read the speed grows by a rounded 0.009 in each
scan of the control. Its timetable is the same in every run: no master, driver
or alarm changes when the turbine is synchronised and when it is regulated.
-/

namespace RunUp
open CommonTypes SlaveDriver TransitionRuns RegulatorImage.IOImage
open RegulatorImage hiding Label step
open SingleOrder SingleSums RoundedSteps RegulatorLoop
open RegulatorAlarms (AlarmManager toFloat)
open SetPoints (Assignment assign trueVal ofBool)
open SetPoints (HMSM_REG_STR SAH_TUR_OVS SAHH_TUR_OVS SIS_TUR_SYNC SIS_TUR_EXC SIS_TUR_BRK
  SIS_TUR_N0 Y_REG_STATE)
open StartUp (SE_REG_F1 SE_REG_F2 SE_REG_F3 ZC_REG_SSP ZC_REG_PWSP ZC_REG_OPSP)

/-- The speed after some scans of run-up. -/
def speedAt (n : Nat) : Single := addSpeed^[n] 0

/-- A scan of run-up in units. -/
def unitsStep (u : Nat) : Nat := toFloat (roundTo 53 (u + speedStep))

/-- Half a unit in the last place of a `float` below 128, and that of a `double`. -/
def stepError : Nat := 2 ^ 131 + 2 ^ 102

theorem unitsStep_near {u : Nat} (h : u < 80 * 2 ^ 149) :
    unitsStep u ≤ u + speedStep + stepError ∧ u + speedStep ≤ unitsStep u + stepError := by
  have hsum : u + speedStep < 81 * 2 ^ 149 := by
    simp only [speedStep]
    omega
  have hdouble := roundTo_near (p := 53) (m := 156) (by decide) (lt_trans hsum (by norm_num))
  have hfloat := roundTo_near (p := 24) (m := 156) (n := roundTo 53 (u + speedStep)) (by decide)
    (by omega)
  simp only [unitsStep, toFloat_eq, stepError]
  omega

theorem hasUnits_addSpeed {x : Single} {u : Nat} (hx : HasUnits x u) (h : u < 80 * 2 ^ 149) :
    HasUnits (addSpeed x) (unitsStep u) := by
  have hnear := unitsStep_near h
  have hdouble := roundTo_near (p := 53) (m := 156) (n := u + speedStep) (by decide)
    (by simp only [speedStep]; omega)
  have hfinite : isInf x = false := decide_eq_false hx.finite.ne
  have hadd : addSpeed x = ofUnits false ((roundTo 53 (u + speedStep) : Nat) : Int) := by
    rw [addSpeed, hx.isNaN, hfinite, if_neg Bool.false_ne_true, if_neg Bool.false_ne_true,
      hx.toUnits, ← Int.natCast_add, odd, if_neg (by omega), Int.natAbs_natCast]
  rw [hadd]
  apply hasUnits_ofUnits
  simp only [speedStep] at hdouble ⊢
  omega

theorem units_speedAt {n : Nat} (h : n ≤ 8000) :
    HasUnits (speedAt n) (unitsStep^[n] 0) ∧
      unitsStep^[n] 0 ≤ n * (speedStep + stepError) ∧
      n * speedStep ≤ unitsStep^[n] 0 + n * stepError := by
  have hsmall : ∀ m ≤ 8000, m * (speedStep + stepError) < 80 * 2 ^ 149 := by
    intro m hm
    exact lt_of_le_of_lt (Nat.mul_le_mul_right _ hm) (by norm_num [speedStep, stepError])
  have hnear : ∀ m ≤ 8000, unitsStep^[m] 0 ≤ m * (speedStep + stepError) ∧
      m * speedStep ≤ unitsStep^[m] 0 + m * stepError :=
    fun m hm => iterate_near (by norm_num [speedStep]) (fun _ => unitsStep_near) (hsmall m hm).le
  refine ⟨?_, hnear n h⟩
  induction n with
  | zero => exact ⟨rfl, by decide, by decide⟩
  | succ n ih =>
    rw [speedAt, Function.iterate_succ_apply', Function.iterate_succ_apply']
    exact hasUnits_addSpeed (ih (by omega))
      (lt_of_le_of_lt (hnear n (by omega)).1 (hsmall n (by omega)))

theorem units_mono_speedAt {m n : Nat} (hmn : m ≤ n) (hn : n ≤ 8000) :
    unitsStep^[m] 0 ≤ unitsStep^[n] 0 := by
  induction n, hmn using Nat.le_induction with
  | base => exact Nat.le_refl _
  | succ n hmn ih =>
    obtain ⟨_, hup, _⟩ := units_speedAt (n := n) (by omega)
    have hsmall : unitsStep^[n] 0 < 80 * 2 ^ 149 :=
      lt_of_le_of_lt (hup.trans (Nat.mul_le_mul_right _ (by omega : n ≤ 8000)))
        (by norm_num [speedStep, stepError])
    have hstep := (unitsStep_near hsmall).2
    rw [Function.iterate_succ_apply']
    have herror : stepError ≤ speedStep := by norm_num [speedStep, stepError]
    have := ih (by omega)
    omega

/-- A limit is passed once, between the scans that the errors allow. -/
theorem passed_once {limit : Single} {t : Nat} (hlimit : HasUnits limit t) (low high : Nat)
    (hlow : low * (speedStep + stepError) ≤ t) (hhigh : t + high * stepError < high * speedStep)
    (hfew : high ≤ 8000) :
    ∃ n, low < n ∧ n ≤ high ∧ ∀ k ≤ 8000, lt limit (speedAt k) = true ↔ n ≤ k := by
  have habove : ∀ k ≤ 8000, lt limit (speedAt k) = true ↔ t < unitsStep^[k] 0 :=
    fun k hk => hlimit.lt_iff (units_speedAt hk).1
  have hpassed : lt limit (speedAt high) = true := by
    rw [habove high hfew]
    have := (units_speedAt hfew).2.2
    omega
  have hexists : ∃ n, lt limit (speedAt n) = true := ⟨high, hpassed⟩
  have hfirst := Nat.find_spec hexists
  have hle : Nat.find hexists ≤ high := Nat.find_min' hexists hpassed
  refine ⟨Nat.find hexists, ?_, hle, ?_⟩
  · by_contra hnot
    rw [habove _ (by omega)] at hfirst
    have hup := (units_speedAt (n := Nat.find hexists) (by omega)).2.1
    have := Nat.mul_le_mul_right (speedStep + stepError) (Nat.le_of_not_lt hnot)
    omega
  · intro k hk
    constructor
    · exact Nat.find_min' hexists
    · intro hfound
      rw [habove _ (by omega)] at hfirst
      rw [habove k hk]
      exact lt_of_lt_of_le hfirst (units_mono_speedAt hfound hk)

variable (L : FloatAbcd)

/-- The number of scans since the start: those that leave the control started. -/
def countStep (p : Loop × Nat) (l : Label) : Loop × Nat :=
  (step L p.1 l, match l with
    | .updateControl => if (step L p.1 .updateControl).iState = 0 then p.2 else p.2 + 1
    | _ => p.2)

/-- The indicators, their first values and their dependence on the speed. -/
def indicators : List (BitVec 32 × Single × (Single → Single)) :=
  [(SIS_TUR_N0, 0, fun v => ofBool (lt v 0x3f000000)),
    (SIS_TUR_BRK, 0, fun v => ofBool (lt v 0x41200000)),
    (SIS_TUR_EXC, 0, fun v => ofBool (lt 0x42480000 v)),
    (SIS_TUR_SYNC, 0, fun v => ofBool (lt 0x426c0000 v)),
    (SAH_TUR_OVS, ScanLoop.one, fun v => ofBool (!lt 0x42780000 v))]

/-- Where the regulator is after `n` scans since the start, when it synchronises
in scan `s` and regulates from scan `g` on. -/
structure Timetable (s g : Nat) (r : Loop) (n : Nat) : Prop where
  idle : n = 0 → r.iState = 0
  runningUp : 0 < n → n < s → r.iState = 1
  synchronised : s ≤ n → n < g → r.iState = 4
  regulating : g ≤ n → r.iState = 6 ∨ r.iState = 7
  speeds : ∀ uiID ∈ [SE_REG_F1, SE_REG_F2, SE_REG_F3],
    trueVal r.img uiID = some (speedAt (min n g))
  indicated : ∀ i ∈ indicators,
    trueVal r.img i.1 = some (if n = 0 then i.2.1 else i.2.2 (speedAt (min n g)))
  /-- The second limit of the speed is never passed. -/
  notTripped : trueVal r.img SAHH_TUR_OVS = some ScanLoop.one
  setPoint : trueVal r.img ZC_REG_SSP = some (if s ≤ n then 0x42700000 else 0)
  shown : trueVal r.img Y_REG_STATE = some (ofInt r.iState)

/-- The limits of 59 and 65 are passed in the scans `s` and `g`; those of 70 and
80 are not. -/
structure Passed (s g : Nat) : Prop where
  synchronised : ∀ k ≤ g, lt 0x426c0000 (speedAt k) = true ↔ s ≤ k
  regulating : ∀ k ≤ g, lt 0x42820000 (speedAt k) = true ↔ g ≤ k
  below : ∀ k ≤ g, lt 0x428c0000 (speedAt k) = false ∧ lt 0x42a00000 (speedAt k) = false
  ordered : 0 < s ∧ s < g

theorem exists_passed : ∃ s g, (6553 ≤ s ∧ s ≤ 6559) ∧ (7220 ≤ g ∧ g ≤ 7226) ∧ Passed s g := by
  have hlimit : ∀ limit : Single, limit.msb = false → magnitude limit < inf →
      HasUnits limit (units (magnitude limit)) := fun _ hsign hfinite => ⟨hsign, hfinite, rfl⟩
  obtain ⟨s, hslow, hshigh, hs⟩ := passed_once
    (hlimit 0x426c0000 (by decide) (by decide)) 6552 6559 (by decide +kernel) (by decide +kernel)
    (by decide)
  obtain ⟨g, hglow, hghigh, hg⟩ := passed_once
    (hlimit 0x42820000 (by decide) (by decide)) 7219 7226 (by decide +kernel) (by decide +kernel)
    (by decide)
  refine ⟨s, g, ⟨hslow, hshigh⟩, ⟨hglow, hghigh⟩, ⟨?_, ?_, ?_, ?_⟩⟩
  · exact fun k hk => hs k (by omega)
  · exact fun k hk => hg k (by omega)
  · intro k hk
    have hup := (units_speedAt (n := k) (by omega)).2.1.trans
      (Nat.mul_le_mul_right (speedStep + stepError) (hk.trans hghigh))
    have hbelow : ∀ limit : Single, limit.msb = false → magnitude limit < inf →
        7226 * (speedStep + stepError) ≤ units (magnitude limit) →
          lt limit (speedAt k) = false := by
      intro limit hsign hfinite hle
      rw [← Bool.not_eq_true, (hlimit limit hsign hfinite).lt_iff (units_speedAt (by omega)).1]
      omega
    exact ⟨hbelow _ (by decide) (by decide) (by decide +kernel),
      hbelow _ (by decide) (by decide) (by decide +kernel)⟩
  · omega

section Control
variable {L} {s g n : Nat} {r : Loop}

theorem timetable_initial (hpassed : Passed s g) (memory : BitVec 32 → IOVar)
    (slave : ModbusSlaveDrv) (alMan : AlarmManager) :
    Timetable s g (startLoop L memory slave alMan) 0 where
  idle _ := rfl
  runningUp h := absurd h (by omega)
  synchronised h := absurd h (by have := hpassed.ordered; omega)
  regulating h := absurd h (by have := hpassed.ordered; omega)
  speeds uiID h := by
    rw [Nat.zero_min]
    simp only [List.mem_cons, List.not_mem_nil, or_false] at h
    rcases h with rfl | rfl | rfl
    · exact trueVal_init L memory slave alMan (c := (SE_REG_F1, 149, 0))
        (by simp [created, SE_REG_F1])
    · exact trueVal_init L memory slave alMan (c := (SE_REG_F2, 150, 0))
        (by simp [created, SE_REG_F2])
    · exact trueVal_init L memory slave alMan (c := (SE_REG_F3, 151, 0))
        (by simp [created, SE_REG_F3])
  indicated i hi := by
    rw [if_pos rfl]
    revert i
    simp only [indicators, List.forall_mem_cons]
    refine ⟨?_, ?_, ?_, ?_, ?_, fun _ h => absurd h List.not_mem_nil⟩
    · exact trueVal_init L memory slave alMan (c := (SIS_TUR_N0, 129, 0))
        (by simp [created, SIS_TUR_N0])
    · exact trueVal_init L memory slave alMan (c := (SIS_TUR_BRK, 128, 0))
        (by simp [created, SIS_TUR_BRK])
    · exact trueVal_init L memory slave alMan (c := (SIS_TUR_EXC, 127, 0))
        (by simp [created, SIS_TUR_EXC])
    · exact trueVal_init L memory slave alMan (c := (SIS_TUR_SYNC, 126, 0))
        (by simp [created, SIS_TUR_SYNC])
    · exact trueVal_init L memory slave alMan (c := (SAH_TUR_OVS, 124, ScanLoop.one))
        (by simp [created, SAH_TUR_OVS])
  notTripped :=
    trueVal_init L memory slave alMan (c := (SAHH_TUR_OVS, 125, ScanLoop.one))
      (by simp [created, SAHH_TUR_OVS])
  setPoint := by
    rw [if_neg (by have := hpassed.ordered; omega)]
    exact trueVal_init L memory slave alMan (c := (ZC_REG_SSP, 141, 0))
      (by simp [created, ZC_REG_SSP])
  shown := by
    have hzero : ofInt 0 = 0 := by decide +kernel
    exact hzero ▸ trueVal_init L memory slave alMan (c := (Y_REG_STATE, 148, 0))
      (by simp [created, Y_REG_STATE])

theorem isOutput_indicator : ∀ i ∈ indicators, IsOutput i.1 := by
  simp only [indicators, List.forall_mem_cons]
  refine ⟨?_, ?_, ?_, ?_, ?_, fun _ h => absurd h List.not_mem_nil⟩ <;> exact Or.inl rfl

theorem ne_indicator : ∀ i ∈ indicators, Y_REG_STATE ≠ i.1 := by
  simp only [indicators, List.forall_mem_cons]
  exact ⟨by decide, by decide, by decide, by decide, by decide,
    fun _ h => absurd h List.not_mem_nil⟩

theorem ne_speed : ∀ uiID ∈ [SE_REG_F1, SE_REG_F2, SE_REG_F3], Y_REG_STATE ≠ uiID := by
  simp only [List.forall_mem_cons]
  exact ⟨by decide, by decide, by decide, fun _ h => absurd h List.not_mem_nil⟩

/-- All other calls leave the outputs alone. -/
theorem timetable_other (table : Timetable s g r n) {l : Label} (h : l ≠ .updateControl) :
    Timetable s g (step L r l) n := by
  have hstate : (step L r l).iState = r.iState := by
    cases l with
    | updateControl => exact absurd rfl h
    | _ => rfl
  have hsame : ∀ uiID, IsOutput uiID → trueVal (step L r l).img uiID = trueVal r.img uiID :=
    fun uiID output => trueVal_step L r h output
  refine ⟨?_, ?_, ?_, ?_, ?_, ?_, ?_, ?_, ?_⟩
  · rw [hstate]; exact table.idle
  · rw [hstate]; exact table.runningUp
  · rw [hstate]; exact table.synchronised
  · rw [hstate]; exact table.regulating
  · intro uiID huiID
    rw [← table.speeds uiID huiID]
    apply hsame
    simp only [List.mem_cons, List.not_mem_nil, or_false] at huiID
    rcases huiID with rfl | rfl | rfl <;> exact Or.inr rfl
  · intro i hi
    rw [hsame _ (isOutput_indicator i hi)]
    exact table.indicated i hi
  · rw [hsame _ (Or.inl rfl)]; exact table.notTripped
  · rw [hsame _ (Or.inl rfl)]; exact table.setPoint
  · rw [hsame _ (Or.inr rfl), hstate]; exact table.shown

/-- The state in which a scan regulates. -/
def startedState (r : Loop) : Int :=
  if r.iState = 0 ∧ SetPoints.isOne r.img HMSM_REG_STR then 1 else r.iState

theorem iState_control (r : Loop) : (step L r .updateControl).iState =
    (SetPoints.regulate machine r.img (startedState r)).1 := rfl

theorem trueVal_control {uiID : BitVec 32} {v : Single} (h : trueVal r.img uiID = some v) :
    trueVal (step L r .updateControl).img uiID =
      some (if Y_REG_STATE = uiID then ofInt (step L r .updateControl).iState
        else assigned (SetPoints.regulate machine r.img (startedState r)).2 uiID v) := by
  have happend : ∀ (as : List Assignment) (w : Single),
      assigned (as ++ [(Y_REG_STATE, w)]) uiID v =
        if Y_REG_STATE = uiID then w else assigned as uiID v :=
    fun as w => List.foldl_append
  rw [← happend]
  exact trueVal_assigned _ h

/-- What a scan of run-up leaves in each variable, and the next state. -/
structure RunsUp (x : Single) (iState : Int) (result : Int × List Assignment) : Prop where
  state : result.1 = if lt 0x42820000 x then 6 else if lt 0x426c0000 x then 4 else iState
  speeds : ∀ uiID ∈ [SE_REG_F1, SE_REG_F2, SE_REG_F3], ∀ v, assigned result.2 uiID v = x
  indicated : ∀ i ∈ indicators, ∀ v, assigned result.2 i.1 v = i.2.2 x
  tripped : ∀ v, assigned result.2 SAHH_TUR_OVS v = ofBool (!lt 0x428c0000 x)
  setPoint : ∀ v, assigned result.2 ZC_REG_SSP v = if lt 0x426c0000 x then 0x42700000 else v

theorem runsUp_runUpAt (x : Single) (iState : Int) :
    RunsUp x iState (SetPoints.runUpAt x iState) := by
  constructor
  · simp only [SetPoints.runUpAt]
    split <;> rfl
  · simp only [List.forall_mem_cons, SetPoints.runUpAt]
    cases lt 0x42820000 x <;> cases lt 0x426c0000 x <;>
      simp [assigned, SE_REG_F1, SE_REG_F2, SE_REG_F3, SIS_TUR_N0, SIS_TUR_BRK, SIS_TUR_EXC,
        SIS_TUR_SYNC, ZC_REG_SSP, SAH_TUR_OVS, SAHH_TUR_OVS, ZC_REG_PWSP]
  · simp only [indicators, List.forall_mem_cons, SetPoints.runUpAt]
    cases lt 0x42820000 x <;> cases lt 0x426c0000 x <;>
      simp [assigned, SE_REG_F1, SE_REG_F2, SE_REG_F3, SIS_TUR_N0, SIS_TUR_BRK, SIS_TUR_EXC,
        SIS_TUR_SYNC, ZC_REG_SSP, SAH_TUR_OVS, SAHH_TUR_OVS, ZC_REG_PWSP]
  · simp only [SetPoints.runUpAt]
    cases lt 0x42820000 x <;> cases lt 0x426c0000 x <;>
      simp [assigned, SE_REG_F1, SE_REG_F2, SE_REG_F3, SIS_TUR_N0, SIS_TUR_BRK, SIS_TUR_EXC,
        SIS_TUR_SYNC, ZC_REG_SSP, SAH_TUR_OVS, SAHH_TUR_OVS, ZC_REG_PWSP]
  · simp only [SetPoints.runUpAt]
    cases lt 0x42820000 x <;> cases lt 0x426c0000 x <;>
      simp [assigned, SE_REG_F1, SE_REG_F2, SE_REG_F3, SIS_TUR_N0, SIS_TUR_BRK, SIS_TUR_EXC,
        SIS_TUR_SYNC, ZC_REG_SSP, SAH_TUR_OVS, SAHH_TUR_OVS, ZC_REG_PWSP]

theorem runUp_eq (hpassed : Passed s g) (table : Timetable s g r n)
    (unforced : Unforced r.img SE_REG_F1) (hn : n < g) (iState : Int) :
    SetPoints.runUp machine r.img iState = SetPoints.runUpAt (speedAt (n + 1)) iState := by
  have hspeed := table.speeds SE_REG_F1 (by simp)
  rw [Nat.min_eq_left hn.le] at hspeed
  have hnext : addSpeed (SetPoints.value r.img SE_REG_F1) = speedAt (n + 1) := by
    rw [value_eq unforced hspeed, speedAt, speedAt, Function.iterate_succ_apply']
  simp only [SetPoints.runUp, machine, hnext, (hpassed.below (n + 1) hn).2, Bool.false_eq_true,
    if_false]

/-- A scan before the regulation raises the speed. -/
theorem timetable_runUp (hpassed : Passed s g) (table : Timetable s g r n)
    (unforced : Unforced r.img SE_REG_F1) (hn : n < g)
    (hstarted : startedState r = if n < s then 1 else 4) :
    (step L r .updateControl).iState ≠ 0 ∧ Timetable s g (step L r .updateControl) (n + 1) := by
  have hregulate : SetPoints.regulate machine r.img (startedState r) =
      SetPoints.runUpAt (speedAt (n + 1)) (startedState r) := by
    rw [SetPoints.regulate, if_pos, runUp_eq hpassed table unforced hn]
    rw [hstarted]
    split
    · exact Or.inl rfl
    · exact Or.inr rfl
  have runs := runsUp_runUpAt (speedAt (n + 1)) (startedState r)
  rw [← hregulate] at runs
  have hstate : (step L r .updateControl).iState =
      if g ≤ n + 1 then 6 else if s ≤ n + 1 then 4 else 1 := by
    rw [iState_control, runs.state, hstarted]
    simp only [hpassed.regulating (n + 1) hn, hpassed.synchronised (n + 1) hn]
    split
    · rfl
    split
    · rfl
    · rw [if_pos (by omega)]
  have hmin : min (n + 1) g = n + 1 := Nat.min_eq_left hn
  obtain ⟨hspos, hsg⟩ := hpassed.ordered
  refine ⟨?_, ⟨?_, ?_, ?_, ?_, ?_, ?_, ?_, ?_, ?_⟩⟩
  · rw [hstate]
    split
    · decide
    split <;> decide
  · intro h
    omega
  · intro _ h
    rw [hstate, if_neg (by omega), if_neg (by omega)]
  · intro h h'
    rw [hstate, if_neg (by omega), if_pos h]
  · intro h
    rw [hstate, if_pos h]
    exact Or.inl rfl
  · intro uiID huiID
    rw [trueVal_control (table.speeds uiID huiID), if_neg (ne_speed uiID huiID),
      runs.speeds uiID huiID, hmin]
  · intro i hi
    rw [trueVal_control (table.indicated i hi), if_neg (ne_indicator i hi), runs.indicated i hi,
      hmin, if_neg (Nat.succ_ne_zero n)]
  · rw [trueVal_control table.notTripped, if_neg (by decide), runs.tripped,
      (hpassed.below (n + 1) hn).1]
    rfl
  · rw [trueVal_control table.setPoint, if_neg (by decide), runs.setPoint]
    simp only [hpassed.synchronised (n + 1) hn]
    by_cases h : s ≤ n + 1
    · rw [if_pos h, if_pos h]
    · rw [if_neg h, if_neg h, if_neg (by omega)]
  · rw [trueVal_control table.shown, if_pos rfl]

/-- Before the start and in the regulation only set points are assigned. -/
theorem regulate_quiet (img : IOImage) {iState : Int} (h : iState = 0 ∨ iState = 6 ∨ iState = 7) :
    (∀ a ∈ (SetPoints.regulate machine img iState).2, a.1 = ZC_REG_PWSP ∨ a.1 = ZC_REG_OPSP) ∧
      ((SetPoints.regulate machine img iState).1 = 0 ↔ iState = 0) ∧
      ((iState = 6 ∨ iState = 7) → (SetPoints.regulate machine img iState).1 = 6 ∨
        (SetPoints.regulate machine img iState).1 = 7) := by
  rcases h with rfl | rfl | rfl
  · exact ⟨fun a ha => absurd ha List.not_mem_nil, Iff.rfl, fun h => absurd h (by decide)⟩
  · have hregulate : SetPoints.regulate machine img 6 = SetPoints.regulatePower img := rfl
    rw [hregulate, SetPoints.regulatePower]
    split
    · exact ⟨fun a ha => absurd ha List.not_mem_nil, by decide, fun _ => Or.inr rfl⟩
    split
    · exact ⟨fun a ha => Or.inl (congrArg Prod.fst (List.mem_singleton.mp ha)), Iff.rfl,
        fun _ => Or.inl rfl⟩
    · exact ⟨fun a ha => absurd ha List.not_mem_nil, by decide, fun _ => Or.inl rfl⟩
  · have hregulate : SetPoints.regulate machine img 7 = SetPoints.regulateOpening img := rfl
    rw [hregulate, SetPoints.regulateOpening]
    split
    · exact ⟨fun a ha => absurd ha List.not_mem_nil, by decide, fun _ => Or.inl rfl⟩
    · exact ⟨fun a ha => Or.inr (congrArg Prod.fst (List.mem_singleton.mp ha)), Iff.rfl,
        fun _ => Or.inr rfl⟩

theorem assigned_other {as : List Assignment} {uiID : BitVec 32} (h : ∀ a ∈ as, a.1 ≠ uiID)
    (v : Single) : assigned as uiID v = v := by
  induction as with
  | nil => rfl
  | cons a as ih =>
    rw [assigned, List.foldl_cons, if_neg (h a List.mem_cons_self)]
    exact ih (fun a' ha' => h a' (List.mem_cons_of_mem a ha'))

/-- The outputs of the timetable are not set points of the regulation. -/
theorem ne_setPoint {uiID : BitVec 32}
    (h : uiID ∈ [SE_REG_F1, SE_REG_F2, SE_REG_F3] ++ ([SAHH_TUR_OVS, ZC_REG_SSP] ++
      indicators.map Prod.fst)) : ZC_REG_PWSP ≠ uiID ∧ ZC_REG_OPSP ≠ uiID := by
  simp only [indicators, List.map_cons, List.map_nil, List.cons_append, List.nil_append,
    List.mem_cons, List.not_mem_nil, or_false] at h
  rcases h with rfl | rfl | rfl | rfl | rfl | rfl | rfl | rfl | rfl | rfl <;> decide

theorem timetable_quiet (hpassed : Passed s g) (table : Timetable s g r n)
    (hstarted : startedState r = r.iState)
    (hquiet : n = 0 ∧ r.iState = 0 ∨ g ≤ n) :
    ((step L r .updateControl).iState = 0 ↔ n = 0) ∧
      Timetable s g (step L r .updateControl) (if n = 0 then 0 else n + 1) := by
  obtain ⟨hspos, hsg⟩ := hpassed.ordered
  have hstates : r.iState = 0 ∨ r.iState = 6 ∨ r.iState = 7 := by
    rcases hquiet with ⟨_, hzero⟩ | hn
    · exact Or.inl hzero
    · exact Or.inr (table.regulating hn)
  obtain ⟨honly, hzero, hregulates⟩ := regulate_quiet r.img hstates
  rw [← hstarted] at honly hzero hregulates
  have hidle : (step L r .updateControl).iState = 0 ↔ n = 0 := by
    rw [iState_control, hzero, hstarted]
    constructor
    · intro h
      rcases hquiet with ⟨hn, _⟩ | hn
      · exact hn
      · have := table.regulating hn
        omega
    · exact table.idle
  have hkept : ∀ uiID v, uiID ∈ [SE_REG_F1, SE_REG_F2, SE_REG_F3] ++ ([SAHH_TUR_OVS, ZC_REG_SSP] ++
      indicators.map Prod.fst) → Y_REG_STATE ≠ uiID → trueVal r.img uiID = some v →
      trueVal (step L r .updateControl).img uiID = some v := by
    intro uiID v hmem hne h
    rw [trueVal_control h, if_neg hne, assigned_other]
    intro a ha heq
    rcases honly a ha with hpower | hopening
    · exact (ne_setPoint hmem).1 (hpower.symm.trans heq)
    · exact (ne_setPoint hmem).2 (hopening.symm.trans heq)
  have hmin : min (if n = 0 then 0 else n + 1) g = min n g := by
    split <;> omega
  refine ⟨hidle, ⟨?_, ?_, ?_, ?_, ?_, ?_, ?_, ?_, ?_⟩⟩
  · intro h
    rw [hidle]
    by_contra hn
    rw [if_neg hn] at h
    omega
  · intro hpos hlt
    split at hpos <;> split at hlt <;> omega
  · intro hle hlt
    split at hle <;> split at hlt <;> omega
  · intro hle
    have hn : n ≠ 0 := by
      rintro rfl
      rw [if_pos rfl] at hle
      omega
    rw [iState_control]
    apply hregulates
    rw [hstarted]
    exact table.regulating (by omega)
  · intro uiID huiID
    rw [hmin]
    exact hkept uiID _ (List.mem_append_left _ huiID) (ne_speed uiID huiID)
      (table.speeds uiID huiID)
  · intro i hi
    rw [hmin]
    have hsame : (if n = 0 then 0 else n + 1) = 0 ↔ n = 0 := by
      split <;> omega
    simp only [hsame]
    exact hkept i.1 _
      (List.mem_append_right _ (List.mem_append_right _ (List.mem_map_of_mem hi)))
      (ne_indicator i hi) (table.indicated i hi)
  · exact hkept _ _ (by simp) (by decide) table.notTripped
  · have hsynchronised : s ≤ (if n = 0 then 0 else n + 1) ↔ s ≤ n := by
      split <;> omega
    simp only [hsynchronised]
    exact hkept _ _ (by simp) (by decide) table.setPoint
  · rw [trueVal_control table.shown, if_pos rfl]

/-- The count goes on with every scan once the start command has been read. -/
def Advances (p : Loop × Nat) : Prop :=
  (countStep L p .updateControl).2 =
    if p.2 = 0 ∧ SetPoints.isOne p.1.img HMSM_REG_STR = false then 0 else p.2 + 1

theorem timetable_control (hpassed : Passed s g) (table : Timetable s g r n)
    (unforced : Unforced r.img SE_REG_F1) :
    Advances (L := L) (r, n) ∧
      Timetable s g (step L r .updateControl) (countStep L (r, n) .updateControl).2 := by
  obtain ⟨hspos, hsg⟩ := hpassed.ordered
  simp only [Advances, countStep]
  by_cases hidle : n = 0 ∧ SetPoints.isOne r.img HMSM_REG_STR = false
  · have hstarted : startedState r = r.iState := by
      rw [startedState, hidle.2, if_neg (by simp)]
    obtain ⟨hzero, hnext⟩ := timetable_quiet (L := L) hpassed table hstarted
      (Or.inl ⟨hidle.1, table.idle hidle.1⟩)
    rw [if_pos hidle, if_pos (hzero.mpr hidle.1)]
    rw [if_pos hidle.1] at hnext
    exact ⟨hidle.1, hidle.1.symm ▸ hnext⟩
  rw [if_neg hidle]
  rcases Nat.lt_or_ge n g with hn | hn
  · have hstarted : startedState r = if n < s then 1 else 4 := by
      rcases Nat.eq_zero_or_pos n with rfl | hpos
      · have hstr : SetPoints.isOne r.img HMSM_REG_STR = true :=
          Bool.not_eq_false _ ▸ fun h => hidle ⟨rfl, h⟩
        rw [startedState, if_pos ⟨table.idle rfl, hstr⟩, if_pos hspos]
      · by_cases hs : n < s
        · rw [startedState, table.runningUp hpos hs, if_pos hs, if_neg (by omega)]
        · rw [startedState, table.synchronised (Nat.le_of_not_lt hs) hn, if_neg hs,
            if_neg (by omega)]
    obtain ⟨hne, hnext⟩ := timetable_runUp (L := L) hpassed table unforced hn hstarted
    rw [if_neg hne]
    exact ⟨rfl, hnext⟩
  · have hne : r.iState ≠ 0 := by
      have := table.regulating hn
      omega
    have hstarted : startedState r = r.iState := by
      rw [startedState, if_neg (fun h => hne h.1)]
    obtain ⟨hzero, hnext⟩ := timetable_quiet (L := L) hpassed table hstarted (Or.inr hn)
    have hpos : n ≠ 0 := by omega
    rw [if_neg (fun h => hpos (hzero.mp h))]
    rw [if_neg hpos] at hnext
    exact ⟨rfl, hnext⟩

theorem timetable_step (hpassed : Passed s g) (p : Loop × Nat) (l : Label)
    (h : Timetable s g p.1 p.2 ∧ Unforced p.1.img SE_REG_F1) :
    Timetable s g (countStep L p l).1 (countStep L p l).2 ∧
      Unforced (countStep L p l).1.img SE_REG_F1 := by
  refine ⟨?_, unforced_step L p.1 l rfl h.2⟩
  by_cases hl : l = .updateControl
  · subst hl
    exact (timetable_control hpassed h.1 h.2).2
  · have hcount : (countStep L p l).2 = p.2 := by
      cases l with
      | updateControl => exact absurd rfl hl
      | _ => rfl
    rw [hcount]
    exact timetable_other h.1 hl

end Control

/-- The turbine is synchronised and regulated in the same scans after the start
in every run: whatever the drivers read and the masters write at any time, the
outputs follow from the number of scans. -/
theorem run_up : ∃ s g, (6553 ≤ s ∧ s ≤ 6559) ∧ (7220 ≤ g ∧ g ≤ 7226) ∧
    ∀ (L : FloatAbcd) (memory : BitVec 32 → IOVar) (slave : ModbusSlaveDrv) (alMan : AlarmManager)
      (ls : List Label),
      Timetable s g (run (countStep L) (startLoop L memory slave alMan, 0) ls).1
          (run (countStep L) (startLoop L memory slave alMan, 0) ls).2 ∧
        Advances (L := L) (run (countStep L) (startLoop L memory slave alMan, 0) ls) := by
  obtain ⟨s, g, hs, hg, hpassed⟩ := exists_passed
  refine ⟨s, g, hs, hg, ?_⟩
  intro L memory slave alMan ls
  have hinv : Timetable s g (run (countStep L) (startLoop L memory slave alMan, 0) ls).1
        (run (countStep L) (startLoop L memory slave alMan, 0) ls).2 ∧
      Unforced (run (countStep L) (startLoop L memory slave alMan, 0) ls).1.img SE_REG_F1 := by
    refine run_invariant' (P := fun p : Loop × Nat => Timetable s g p.1 p.2 ∧
      Unforced p.1.img SE_REG_F1) (fun p l h => ?_)
      ⟨timetable_initial hpassed memory slave alMan, ?_⟩ ls
    · exact timetable_step hpassed p l h
    · intro var hvar
      have hcreated := atID_init L memory slave (c := (SE_REG_F1, 149, 0))
        (by simp [created, SE_REG_F1])
      obtain rfl := Option.some.inj (hvar.symm.trans hcreated)
      rfl
  exact ⟨hinv.1, (timetable_control hpassed hinv.1 hinv.2).1⟩

end RunUp
