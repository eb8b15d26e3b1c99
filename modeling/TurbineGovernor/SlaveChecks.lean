import TurbineGovernor.ErrorBookkeeping
import TurbineGovernor.Loops

/-!
# The checks of the slaves

`checkSlavesWKC` counts for each slave the checks that find it in `SAFE_OP`
before it gives it up. The counters are a vector with one entry for each slave,
indexed by slave numbers that start at 1, so the last slave has its counter in
the memory past the end; a complete exchange clears only the counters of slaves
that have been given up. Both are followed over whole runs of the driver, and
set against what the checks have found of each slave.
-/

namespace SlaveChecks
open CommonTypes EtherDevices EthercatDriver ErrorBookkeeping TransitionRuns IndexedLoops

/-- The check of an incomplete exchange looks at the slaves. -/
def Incomplete (d : EthercatDrv) (x : Exchange) : Prop :=
  x.iWorkCount < d.outputsWKC.toNat * 2 + d.inputsWKC.toNat

instance (d : EthercatDrv) (x : Exchange) : Decidable (Incomplete d x) := Int.decLt _ _

/-- The driver exchanges data with the slaves. -/
def Exchanging (d : EthercatDrv) : Prop := ¬ (d.mtDrvState = .stopped ∨ d.mtDrvState = .unInit)

instance (d : EthercatDrv) : Decidable (Exchanging d) := inferInstanceAs (Decidable (¬ (_ ∨ _)))

/-- The slave is found in `SAFE_OP`, with or without the error flag. -/
def InSafeOp (a : SlaveAnswer) : Prop :=
  a.state = EC_STATE_SAFE_OP + EC_STATE_ERROR ∨ a.state = EC_STATE_SAFE_OP

instance (a : SlaveAnswer) : Decidable (InSafeOp a) :=
  inferInstanceAs (Decidable (_ ∨ _))

theorem InSafeOp.ne_operational {a : SlaveAnswer} (h : InSafeOp a) :
    a.state ≠ EC_STATE_OPERATIONAL := by
  rcases h with hstate | hstate
  · rw [hstate]
    decide
  · rw [hstate]
    decide

/-- A check of this answer uses the counter of the slave. -/
def Touched (a : SlaveAnswer) : Prop := a.state = EC_STATE_OPERATIONAL ∨ InSafeOp a

instance (a : SlaveAnswer) : Decidable (Touched a) := inferInstanceAs (Decidable (_ ∨ _))

/-- The counter of a slave, and whether it is given up. -/
def view (d : EthercatDrv) (iSlave : Nat) : BitVec 8 × Bool :=
  (d.mSlavesComTrys.entry iSlave, decide (BitVec.ofNat 8 iSlave ∈ d.mModuleErrors))

/-- What a check makes of the view of one slave. -/
def checkView (a : SlaveAnswer) (v : BitVec 8 × Bool) : BitVec 8 × Bool :=
  if a.state = EC_STATE_OPERATIONAL then (0, false)
  else if InSafeOp a then (v.1 + 1, v.2 || decide (v.1.toNat ≥ SLAVE_SYNC_TRYS))
  else (v.1, true)

theorem examine_inSafeOp (comTrys : BitVec 8) (islost : Bool) {a : SlaveAnswer}
    (h : InSafeOp a) :
    (examine comTrys islost a).counted = true ∧
    (examine comTrys islost a).bSlaveError = decide (comTrys.toNat ≥ SLAVE_SYNC_TRYS) := by
  simp only [examine]
  split
  · exact ⟨rfl, rfl⟩
  · rename_i hne
    rw [if_pos (h.resolve_left hne)]
    exact ⟨rfl, rfl⟩

theorem examine_other (comTrys : BitVec 8) (islost : Bool) {a : SlaveAnswer}
    (h : ¬ InSafeOp a) :
    (examine comTrys islost a).counted = false ∧
    (examine comTrys islost a).bSlaveError = true := by
  simp only [examine]
  rw [if_neg (fun he => h (Or.inl he)), if_neg (fun he => h (Or.inr he))]
  split
  · exact ⟨rfl, rfl⟩
  · split
    · exact ⟨rfl, rfl⟩
    · exact ⟨rfl, rfl⟩

/-- One pass of the loop, by what it finds. -/
theorem checkSlave_cases (d : EthercatDrv) (iSlave : Nat) (a : SlaveAnswer) :
    (a.state = EC_STATE_OPERATIONAL ∧
      (d.checkSlave iSlave a).mSlavesComTrys = d.mSlavesComTrys.set iSlave 0 ∧
      (d.checkSlave iSlave a).mModuleErrors = d.mModuleErrors.erase (BitVec.ofNat 8 iSlave)) ∨
    (InSafeOp a ∧
      (d.checkSlave iSlave a).mSlavesComTrys =
        d.mSlavesComTrys.set iSlave (d.mSlavesComTrys.entry iSlave + 1) ∧
      (d.checkSlave iSlave a).mModuleErrors =
        if (d.mSlavesComTrys.entry iSlave).toNat ≥ SLAVE_SYNC_TRYS then
          insert (BitVec.ofNat 8 iSlave) d.mModuleErrors
        else d.mModuleErrors) ∨
    (¬ Touched a ∧ (d.checkSlave iSlave a).mSlavesComTrys = d.mSlavesComTrys ∧
      (d.checkSlave iSlave a).mModuleErrors = insert (BitVec.ofNat 8 iSlave) d.mModuleErrors) := by
  simp only [EthercatDrv.checkSlave]
  by_cases hop : a.state = EC_STATE_OPERATIONAL
  · rw [if_neg (not_not.mpr hop)]
    exact Or.inl ⟨hop, rfl, rfl⟩
  · rw [if_pos hop]
    by_cases hsafe : InSafeOp a
    · obtain ⟨hcounted, herror⟩ :=
        examine_inSafeOp (d.mSlavesComTrys.entry iSlave) (d.islost iSlave) hsafe
      refine Or.inr (Or.inl ⟨hsafe, ?_, ?_⟩)
      · simp only [hcounted, if_true]
      · simp only [herror, decide_eq_true_eq]
    · obtain ⟨hcounted, herror⟩ :=
        examine_other (d.mSlavesComTrys.entry iSlave) (d.islost iSlave) hsafe
      refine Or.inr (Or.inr ⟨fun h => h.elim hop hsafe, ?_, ?_⟩)
      · simp only [hcounted, Bool.false_eq_true, if_false]
      · simp only [herror, if_true]

theorem ofNat_inj {i j : Nat} (hi : i < 256) (hj : j < 256)
    (h : BitVec.ofNat 8 i = BitVec.ofNat 8 j) : i = j := by
  have := congrArg BitVec.toNat h
  rwa [BitVec.toNat_ofNat, BitVec.toNat_ofNat, Nat.mod_eq_of_lt hi, Nat.mod_eq_of_lt hj] at this

theorem view_checkSlave (d : EthercatDrv) (iSlave : Nat) (a : SlaveAnswer) :
    view (d.checkSlave iSlave a) iSlave = checkView a (view d iSlave) := by
  rcases checkSlave_cases d iSlave a with ⟨hop, htrys, hmods⟩ | ⟨hsafe, htrys, hmods⟩ |
    ⟨huntouched, htrys, hmods⟩
  · rw [checkView, if_pos hop, view, htrys, hmods]
    simp [ByteVector.set]
  · rw [checkView, if_neg hsafe.ne_operational, if_pos hsafe, view, htrys, hmods]
    by_cases hmany : (d.mSlavesComTrys.entry iSlave).toNat ≥ SLAVE_SYNC_TRYS
    · simp [ByteVector.set, view, hmany]
    · simp [ByteVector.set, view, hmany]
  · rw [checkView, if_neg (fun hop => huntouched (Or.inl hop)),
      if_neg (fun hsafe => huntouched (Or.inr hsafe)), view, htrys, hmods]
    simp [view]

theorem view_checkSlave_other (d : EthercatDrv) (a : SlaveAnswer) {iSlave j : Nat}
    (hi : iSlave < 256) (hj : j < 256) (hne : j ≠ iSlave) :
    view (d.checkSlave iSlave a) j = view d j := by
  have hbyte : BitVec.ofNat 8 j ≠ BitVec.ofNat 8 iSlave := fun h => hne (ofNat_inj hj hi h)
  rcases checkSlave_cases d iSlave a with ⟨_, htrys, hmods⟩ | ⟨_, htrys, hmods⟩ |
    ⟨_, htrys, hmods⟩
  · rw [view, htrys, hmods]
    simp [ByteVector.set, view, hne, hbyte]
  · rw [view, htrys, hmods]
    split
    · simp [ByteVector.set, view, hne, hbyte]
    · simp [ByteVector.set, view, hne]
  · rw [view, htrys, hmods]
    simp [view, hbyte]

theorem size_checkSlave (d : EthercatDrv) (iSlave : Nat) (a : SlaveAnswer) :
    (d.checkSlave iSlave a).mSlavesComTrys.size = d.mSlavesComTrys.size := by
  rcases checkSlave_cases d iSlave a with ⟨_, htrys, _⟩ | ⟨_, htrys, _⟩ | ⟨_, htrys, _⟩
  · rw [htrys]
    rfl
  · rw [htrys]
    rfl
  · rw [htrys]

/-- The indices of one pass. -/
theorem used_checkSlave (d : EthercatDrv) (iSlave : Nat) (a : SlaveAnswer) (j : Nat) :
    j ∈ (d.checkSlave iSlave a).mSlavesComTrys.used ↔
      j ∈ d.mSlavesComTrys.used ∨ j = iSlave ∧ Touched a := by
  rcases checkSlave_cases d iSlave a with ⟨hop, htrys, _⟩ | ⟨hsafe, htrys, _⟩ |
    ⟨huntouched, htrys, _⟩
  · have htouched : Touched a := Or.inl hop
    rw [htrys, and_iff_left htouched, or_comm]
    exact Finset.mem_insert
  · have htouched : Touched a := Or.inr hsafe
    rw [htrys, and_iff_left htouched, or_comm]
    exact Finset.mem_insert
  · rw [htrys]
    exact (or_iff_left (fun h => huntouched h.2)).symm

theorem incomplete_check {d : EthercatDrv} {x : Exchange} (h : Incomplete d x) :
    d.checkSlavesWKC x = (List.range d.ec_slavecount).foldl
      (fun d i => d.checkSlave (i + 1) (x.slave (i + 1))) d := by
  simp only [EthercatDrv.checkSlavesWKC]
  exact if_pos h

theorem complete_check {d : EthercatDrv} {x : Exchange} (h : ¬ Incomplete d x) :
    d.checkSlavesWKC x = { d with
      mSlavesComTrys := d.mSlavesComTrys.setAll (d.mModuleErrors.image BitVec.toNat) 0
      mModuleErrors := ∅ } := by
  simp only [EthercatDrv.checkSlavesWKC]
  exact if_neg h

theorem count_lt (d : EthercatDrv) : (d.ec_slavecount : Nat) < 200 := d.ec_slavecount.isLt

/-- The number is that of a slave on the bus. -/
def OnBus (d : EthercatDrv) (iSlave : Nat) : Prop := 1 ≤ iSlave ∧ iSlave ≤ d.ec_slavecount

instance (d : EthercatDrv) (iSlave : Nat) : Decidable (OnBus d iSlave) :=
  inferInstanceAs (Decidable (_ ∧ _))

theorem onBus_iff {d d' : EthercatDrv} (h : d'.ec_slavecount = d.ec_slavecount) (iSlave : Nat) :
    OnBus d' iSlave ↔ OnBus d iSlave := by
  rw [OnBus, OnBus, h]

/-- An incomplete exchange acts on each slave of the bus separately. -/
theorem view_incomplete {d : EthercatDrv} {x : Exchange} (h : Incomplete d x) {iSlave : Nat}
    (hbyte : iSlave < 256) :
    view (d.checkSlavesWKC x) iSlave =
      if OnBus d iSlave then checkView (x.slave iSlave) (view d iSlave) else view d iSlave := by
  have hcount := count_lt d
  rw [incomplete_check h]
  cases iSlave with
  | zero =>
    rw [if_neg (fun hbus => absurd hbus.1 (by omega))]
    refine foldl_range_invariant (P := fun _ d' => view d' 0 = view d 0) rfl ?_
    intro i hi same
    rw [view_checkSlave_other _ _ (by omega) (by omega) (Nat.succ_ne_zero i).symm]
    exact same
  | succ j =>
    have hloop := foldl_range_view (w := fun d i => view d (i + 1))
      (f := fun i => checkView (x.slave (i + 1)))
      (fun d i _ => view_checkSlave d (i + 1) (x.slave (i + 1)))
      (fun d i j hi hj hne => view_checkSlave_other d (x.slave (i + 1)) (Nat.succ_lt_succ hi)
        (Nat.succ_lt_succ hj) (fun he => hne (Nat.succ.inj he)))
      (show (d.ec_slavecount : Nat) ≤ 255 by omega) d (show j < 255 by omega)
    by_cases hbus : OnBus d (j + 1)
    · rw [if_pos hbus]
      rw [if_pos (Nat.lt_of_succ_le hbus.2)] at hloop
      exact hloop
    · rw [if_neg hbus]
      have hend : ¬ j < (d.ec_slavecount : Nat) := fun hlt => hbus ⟨Nat.succ_pos j, hlt⟩
      rw [if_neg hend] at hloop
      exact hloop

theorem view_complete {d : EthercatDrv} {x : Exchange} (h : ¬ Incomplete d x) {iSlave : Nat}
    (hbyte : iSlave < 256) :
    view (d.checkSlavesWKC x) iSlave =
      (if (view d iSlave).2 then 0 else (view d iSlave).1, false) := by
  have hmem : iSlave ∈ d.mModuleErrors.image BitVec.toNat ↔
      BitVec.ofNat 8 iSlave ∈ d.mModuleErrors := by
    rw [Finset.mem_image]
    constructor
    · rintro ⟨uiModule, hmodule, rfl⟩
      rwa [BitVec.ofNat_toNat, BitVec.setWidth_eq]
    · intro hmodule
      exact ⟨_, hmodule, by rw [BitVec.toNat_ofNat, Nat.mod_eq_of_lt hbyte]⟩
  rw [complete_check h]
  simp only [view, ByteVector.setAll, hmem, decide_eq_true_eq, Finset.notMem_empty, decide_false]

/-- No check changes the size of the vector. -/
theorem size_check (d : EthercatDrv) (x : Exchange) :
    (d.checkSlavesWKC x).mSlavesComTrys.size = d.mSlavesComTrys.size := by
  by_cases h : Incomplete d x
  · rw [incomplete_check h]
    refine foldl_range_kept
      (P := fun d' : EthercatDrv => d'.mSlavesComTrys.size = d.mSlavesComTrys.size) ?_ _ rfl
    intro d' i same
    exact (size_checkSlave d' (i + 1) _).trans same
  · rw [complete_check h]
    rfl

/-- An incomplete exchange uses the numbers of the slaves whose answers ask for it. -/
theorem used_incomplete {d : EthercatDrv} {x : Exchange} (h : Incomplete d x) (iSlave : Nat) :
    iSlave ∈ (d.checkSlavesWKC x).mSlavesComTrys.used ↔
      iSlave ∈ d.mSlavesComTrys.used ∨ OnBus d iSlave ∧ Touched (x.slave iSlave) := by
  rw [incomplete_check h]
  refine foldl_range_invariant (P := fun n (d' : EthercatDrv) => iSlave ∈ d'.mSlavesComTrys.used ↔
    iSlave ∈ d.mSlavesComTrys.used ∨ (1 ≤ iSlave ∧ iSlave ≤ n) ∧ Touched (x.slave iSlave)) ?_ ?_
  · rw [or_iff_left]
    rintro ⟨⟨hpos, hle⟩, _⟩
    omega
  · intro i _ hused
    rw [used_checkSlave, hused]
    by_cases hown : iSlave = i + 1
    · subst hown
      simp
    · have hrange : (1 ≤ iSlave ∧ iSlave ≤ i) ↔ (1 ≤ iSlave ∧ iSlave ≤ i + 1) := by omega
      simp only [hown, false_and, or_false, hrange]

theorem used_complete {d : EthercatDrv} {x : Exchange} (h : ¬ Incomplete d x) (iSlave : Nat) :
    iSlave ∈ (d.checkSlavesWKC x).mSlavesComTrys.used ↔
      iSlave ∈ d.mSlavesComTrys.used ∨ ∃ uiModule ∈ d.mModuleErrors, uiModule.toNat = iSlave := by
  rw [complete_check h]
  simp only [ByteVector.setAll, Finset.mem_union, Finset.mem_image]

/-- An exchange leaves the counters and the module errors as its check does. -/
theorem driverLoop_checks {d : EthercatDrv} (h : Exchanging d) (little : Bool) (x : Exchange) :
    (d.driverLoop little x).mSlavesComTrys = (d.checkSlavesWKC x).mSlavesComTrys ∧
    (d.driverLoop little x).mModuleErrors = (d.checkSlavesWKC x).mModuleErrors ∧
    (d.driverLoop little x).ec_slavecount = d.ec_slavecount := by
  have hcount := (checked_checkSlavesWKC d x).count
  unfold EthercatDrv.driverLoop
  rw [if_neg h]
  dsimp only
  split
  · exact ⟨rfl, rfl, hcount⟩
  · split
    · exact ⟨rfl, rfl, hcount⟩
    · exact ⟨rfl, rfl, hcount⟩

theorem driverLoop_idle {d : EthercatDrv} (h : ¬ Exchanging d) (little : Bool) (x : Exchange) :
    d.driverLoop little x = d := by
  simp only [EthercatDrv.driverLoop]
  exact if_pos (not_not.mp h)

/-- The check of an exchange, as the driver is after it. -/
theorem view_driverLoop {d : EthercatDrv} (h : Exchanging d) (little : Bool) (x : Exchange)
    (iSlave : Nat) : view (d.driverLoop little x) iSlave = view (d.checkSlavesWKC x) iSlave := by
  obtain ⟨htrys, hmods, _⟩ := driverLoop_checks h little x
  rw [view, htrys, hmods]
  rfl

/-- What the parts of `init` leave alone. -/
structure KeepsChecks (d d' : EthercatDrv) : Prop where
  state : d'.mtDrvState = d.mtDrvState
  tries : d'.mSlavesComTrys = d.mSlavesComTrys
  modules : d'.mModuleErrors = d.mModuleErrors

theorem KeepsChecks.trans {d d' d'' : EthercatDrv} (h : KeepsChecks d d')
    (h' : KeepsChecks d' d'') : KeepsChecks d d'' where
  state := h'.state.trans h.state
  tries := h'.tries.trans h.tries
  modules := h'.modules.trans h.modules

theorem loadXMLConfig_keeps (d : EthercatDrv) (file : Except String (Option FieldDriverXml)) :
    KeepsChecks d (d.loadXMLConfig file).2 := by
  simp only [EthercatDrv.loadXMLConfig]
  split
  · exact ⟨rfl, rfl, rfl⟩
  · exact ⟨rfl, rfl, rfl⟩
  · exact ⟨rfl, rfl, rfl⟩

theorem initSoem_keeps (d : EthercatDrv) (scan : BusScan) :
    KeepsChecks d (d.initSoem scan).2 ∧
      ((d.initSoem scan).1 = true → (d.initSoem scan).2.ec_slavecount = scan.ec_slavecount) := by
  simp only [EthercatDrv.initSoem]
  split
  · exact ⟨⟨rfl, rfl, rfl⟩, fun h => by cases h⟩
  · split
    · exact ⟨⟨rfl, rfl, rfl⟩, fun h => by cases h⟩
    · split
      · exact ⟨⟨rfl, rfl, rfl⟩, fun h => by cases h⟩
      · split
        · exact ⟨⟨rfl, rfl, rfl⟩, fun h => by cases h⟩
        · exact ⟨⟨rfl, rfl, rfl⟩, fun _ => rfl⟩

/-- An `init` that fails changes nothing here, one that succeeds makes a vector
with an entry for each slave and keeps the module errors. -/
theorem init_checks (d : EthercatDrv) (file : Except String (Option FieldDriverXml))
    (scan : BusScan) :
    ((d.init file scan).1 = false ∧ KeepsChecks d (d.init file scan).2 ∧
      (d.mtDrvState ≠ .unInit → (d.init file scan).2.ec_slavecount = d.ec_slavecount)) ∨
    ((d.init file scan).1 = true ∧
      (d.init file scan).2.mSlavesComTrys = .zeros scan.ec_slavecount scan.memory ∧
      (d.init file scan).2.mModuleErrors = d.mModuleErrors ∧
      (d.init file scan).2.ec_slavecount = scan.ec_slavecount) := by
  by_cases hun : d.mtDrvState = .unInit
  · have hload := loadXMLConfig_keeps d file
    simp only [EthercatDrv.init]
    rw [if_neg (not_not.mpr hun)]
    split
    · rename_i d' hloaded
      rw [hloaded] at hload
      exact Or.inl ⟨rfl, hload.trans ⟨rfl, rfl, rfl⟩, fun hne => absurd hun hne⟩
    · rename_i d' hloaded
      rw [hloaded] at hload
      obtain ⟨hsoem, hcount⟩ := initSoem_keeps d' scan
      split
      · rename_i d'' hinit
        rw [hinit] at hsoem
        exact Or.inl ⟨rfl, hload.trans (hsoem.trans ⟨rfl, rfl, rfl⟩), fun hne => absurd hun hne⟩
      · rename_i d'' hinit
        rw [hinit] at hsoem hcount
        refine Or.inr ⟨rfl, ?_, (hload.trans hsoem).modules, hcount rfl⟩
        exact congrArg (fun n => ByteVector.zeros n scan.memory) (congrArg Fin.val (hcount rfl))
  · rw [init_refused hun]
    exact Or.inl ⟨rfl, ⟨rfl, rfl, rfl⟩, fun _ => rfl⟩

/-- The other methods, which only change the state. -/
theorem step_keeps (little : Bool) (d : EthercatDrv) {op : Op}
    (hop : op = .start ∨ op = .stop ∨ op = .close) :
    (d.step little op).mSlavesComTrys = d.mSlavesComTrys ∧
    (d.step little op).mModuleErrors = d.mModuleErrors ∧
    (d.step little op).ec_slavecount = d.ec_slavecount ∧
    ((d.step little op).mtDrvState ≠ .unInit → d.mtDrvState ≠ .unInit) := by
  rcases hop with rfl | rfl | rfl
  · simp only [EthercatDrv.step, EthercatDrv.start]
    split
    · exact ⟨rfl, rfl, rfl, id⟩
    · rename_i hinit
      split
      · exact ⟨rfl, rfl, rfl, fun _ => hinit⟩
      · exact ⟨rfl, rfl, rfl, id⟩
  · simp only [EthercatDrv.step, EthercatDrv.stop]
    split
    · exact ⟨rfl, rfl, rfl, id⟩
    · rename_i hinit
      exact ⟨rfl, rfl, rfl, fun _ => hinit⟩
  · simp only [EthercatDrv.step, EthercatDrv.close]
    split
    · exact ⟨rfl, rfl, rfl, id⟩
    · exact ⟨rfl, rfl, rfl, fun hinit => absurd rfl hinit⟩

/-- The vector of an initialised driver has an entry for each number below that
of the last slave. -/
def Sized (d : EthercatDrv) : Prop :=
  d.mtDrvState ≠ .unInit → d.mSlavesComTrys.size = d.ec_slavecount

theorem Sized.step {d : EthercatDrv} (h : Sized d) (little : Bool) (op : Op) :
    Sized (d.step little op) := by
  have quiet : ∀ {op : Op}, op = .start ∨ op = .stop ∨ op = .close → Sized (d.step little op) := by
    intro op hop hinit
    obtain ⟨htrys, _, hcount, hbefore⟩ := step_keeps little d hop
    rw [htrys, hcount]
    exact h (hbefore hinit)
  cases op with
  | start => exact quiet (Or.inl rfl)
  | stop => exact quiet (Or.inr (Or.inl rfl))
  | close => exact quiet (Or.inr (Or.inr rfl))
  | init file scan =>
    intro hinit
    rw [EthercatDrv.step] at hinit ⊢
    rcases init_checks d file scan with ⟨_, hkeeps, hcount⟩ | ⟨_, htrys, _, hcount⟩
    · rw [hkeeps.state] at hinit
      rw [hkeeps.tries, hcount hinit]
      exact h hinit
    · rw [htrys, hcount]
      rfl
  | exchange x =>
    rw [EthercatDrv.step]
    by_cases hex : Exchanging d
    · obtain ⟨htrys, _, hcount⟩ := driverLoop_checks hex little x
      intro _
      rw [htrys, size_check, hcount]
      exact h (fun hun => hex (Or.inr hun))
    · rw [driverLoop_idle hex]
      exact h

/-- What the checks have found of a slave: how often it was in `SAFE_OP` since its
tries were counted anew, what lay in its counter then, and whether it was so too
often or was found in another state. -/
structure Seen where
  left : BitVec 8
  found : Nat
  failed : Bool

namespace Seen

def new : Seen := ⟨0, 0, false⟩

def checked (s : Seen) (a : SlaveAnswer) : Seen :=
  if a.state = EC_STATE_OPERATIONAL then new
  else if InSafeOp a then
    { s with
      found := s.found + 1
      failed := s.failed || decide (SLAVE_SYNC_TRYS < s.found + 1) }
  else { s with failed := true }

/-- `init` counts anew, and leaves the memory where it is no entry of the vector. -/
def initialised (s : Seen) (scan : BusScan) (iSlave : Nat) : Seen :=
  { s with
    left := if iSlave < scan.ec_slavecount then 0 else scan.memory iSlave
    found := 0 }

/-- A complete exchange that only helps slaves that have failed. -/
def recovered (s : Seen) : Seen := if s.failed then new else s

/-- A complete exchange after which every slave is counted anew. -/
def completed (_ : Seen) : Seen := new

/-- The counter and the mark of a slave are what has been found of it. -/
structure Agrees (s : Seen) (v : BitVec 8 × Bool) : Prop where
  failed : v.2 = s.failed
  tries : s.failed = false → v.1.toNat = s.left.toNat + s.found

/-- A check keeps the counter of a slave that nothing but `SAFE_OP` can give up early. -/
theorem Agrees.checked {s : Seen} {v : BitVec 8 × Bool} (h : s.Agrees v) {a : SlaveAnswer}
    (timely : InSafeOp a → s.failed = false → SLAVE_SYNC_TRYS ≤ s.left.toNat + s.found →
      SLAVE_SYNC_TRYS ≤ s.found) : (s.checked a).Agrees (checkView a v) := by
  unfold Seen.checked checkView
  by_cases hop : a.state = EC_STATE_OPERATIONAL
  · rw [if_pos hop, if_pos hop]
    exact ⟨rfl, fun _ => rfl⟩
  · rw [if_neg hop, if_neg hop]
    by_cases hsafe : InSafeOp a
    · rw [if_pos hsafe, if_pos hsafe]
      cases hfailed : s.failed with
      | true =>
        refine ⟨?_, ?_⟩
        · rw [h.failed, hfailed, Bool.true_or, Bool.true_or]
        · simp
      | false =>
        have htries := h.tries hfailed
        have hearly := timely hsafe hfailed
        refine ⟨?_, ?_⟩
        · rw [h.failed, hfailed, Bool.false_or, Bool.false_or, decide_eq_decide, htries]
          omega
        · intro hfew
          have hfew : ¬ SLAVE_SYNC_TRYS < s.found + 1 := of_decide_eq_false hfew
          have hone : (1 : BitVec 8).toNat = 1 := rfl
          simp only [SLAVE_SYNC_TRYS] at hearly hfew
          rw [BitVec.toNat_add, htries, hone]
          dsimp only
          omega
    · rw [if_neg hsafe, if_neg hsafe]
      exact ⟨rfl, fun hfalse => by cases hfalse⟩

end Seen

/-- The driver beside what its checks have found. -/
structure Watched where
  drv : EthercatDrv
  seen : Nat → Seen

namespace Watched

/-- What a check finds; `complete` is what a complete exchange makes of it. -/
def exchange (complete : Seen → Seen) (little : Bool) (w : Watched) (x : Exchange) : Watched where
  drv := w.drv.driverLoop little x
  seen iSlave :=
    if Exchanging w.drv then
      if Incomplete w.drv x then
        if OnBus w.drv iSlave then (w.seen iSlave).checked (x.slave iSlave) else w.seen iSlave
      else complete (w.seen iSlave)
    else w.seen iSlave

def step (complete : Seen → Seen) (little : Bool) (w : Watched) : Op → Watched
  | .init file scan =>
    ⟨(w.drv.init file scan).2, fun iSlave =>
      if (w.drv.init file scan).1 then (w.seen iSlave).initialised scan iSlave
      else w.seen iSlave⟩
  | .exchange x => w.exchange complete little x
  | op => ⟨w.drv.step little op, w.seen⟩

def fresh (ec_slavecount : Fin EC_MAXSLAVE) : Watched :=
  ⟨EthercatDrv.fresh ec_slavecount, fun _ => Seen.new⟩

end Watched

/-- The marks are the failures that have been found, and so are the counters of the
slaves that are `kept`. -/
structure Follows (kept : Nat → Nat → Prop) (w : Watched) : Prop where
  sized : Sized w.drv
  numbers : ∀ iSlave, (w.seen iSlave).failed = true → iSlave < 256
  marks : ∀ iSlave < 256, (view w.drv iSlave).2 = (w.seen iSlave).failed
  left : w.drv.mtDrvState ≠ .unInit → ∀ iSlave < (w.drv.ec_slavecount : Nat),
    (w.seen iSlave).left = 0
  counters : w.drv.mtDrvState ≠ .unInit → ∀ iSlave, OnBus w.drv iSlave →
    kept w.drv.ec_slavecount iSlave → (w.seen iSlave).Agrees (view w.drv iSlave)

section Follows
variable {kept : Nat → Nat → Prop} {complete : Seen → Seen} {w : Watched}

theorem follows_fresh (ec_slavecount : Fin EC_MAXSLAVE) :
    Follows kept (Watched.fresh ec_slavecount) where
  sized := fun hinit => absurd rfl hinit
  numbers := fun _ hfailed => by cases hfailed
  marks := fun _ _ => rfl
  left := fun hinit => absurd rfl hinit
  counters := fun hinit => absurd rfl hinit

theorem Follows.quiet (h : Follows kept w) (little : Bool) {op : Op}
    (hop : op = .start ∨ op = .stop ∨ op = .close) :
    Follows kept ⟨w.drv.step little op, w.seen⟩ := by
  obtain ⟨htrys, hmods, hcount, hbefore⟩ := step_keeps little w.drv hop
  have hview : ∀ iSlave, view (w.drv.step little op) iSlave = view w.drv iSlave := by
    intro iSlave
    rw [view, htrys, hmods]
    rfl
  refine ⟨h.sized.step little op, h.numbers, ?_, ?_, ?_⟩
  · intro iSlave hbyte
    rw [hview]
    exact h.marks iSlave hbyte
  · intro hinit
    rw [hcount]
    exact h.left (hbefore hinit)
  · intro hinit iSlave hbus hkept
    rw [hview]
    rw [hcount] at hkept
    exact h.counters (hbefore hinit) iSlave ((onBus_iff hcount iSlave).mp hbus) hkept

theorem Follows.init (h : Follows kept w) (little : Bool)
    (file : Except String (Option FieldDriverXml)) (scan : BusScan) :
    Follows kept (w.step complete little (.init file scan)) := by
  have hsized := h.sized.step little (.init file scan)
  rcases init_checks w.drv file scan with ⟨hok, hkeeps, hcount⟩ | ⟨hok, htrys, hmods, hcount⟩
  · have hview : ∀ iSlave, view (w.drv.init file scan).2 iSlave = view w.drv iSlave := by
      intro iSlave
      rw [view, hkeeps.tries, hkeeps.modules]
      rfl
    refine ⟨hsized, ?_, ?_, ?_, ?_⟩
    · simp only [Watched.step, hok, Bool.false_eq_true, if_false]
      exact h.numbers
    · simp only [Watched.step, hok, Bool.false_eq_true, if_false, hview]
      exact h.marks
    · simp only [Watched.step, hok, Bool.false_eq_true, if_false, hkeeps.state]
      intro hinit
      rw [hcount hinit]
      exact h.left hinit
    · simp only [Watched.step, hok, Bool.false_eq_true, if_false, hkeeps.state, hview]
      intro hinit iSlave hbus hkept
      rw [hcount hinit] at hkept
      exact h.counters hinit iSlave ((onBus_iff (hcount hinit) iSlave).mp hbus) hkept
  · refine ⟨hsized, ?_, ?_, ?_, ?_⟩
    · simp only [Watched.step, hok, if_true]
      exact h.numbers
    · simp only [Watched.step, hok, if_true, view, hmods]
      exact h.marks
    · simp only [Watched.step, hok, if_true, hcount]
      intro _ iSlave hlt
      exact if_pos hlt
    · simp only [Watched.step, hok, if_true, hcount, view, htrys, hmods, OnBus]
      intro _ iSlave hbus _
      refine ⟨?_, fun _ => ?_⟩
      · have hbyte := scan.ec_slavecount.isLt
        simp only [EC_MAXSLAVE] at hbyte
        exact h.marks iSlave (by omega)
      · simp only [ByteVector.zeros, Seen.initialised, Nat.add_zero]

/-- What is asked of an exchange: it takes no slave that is kept too early, does not
ask for the counter of another, and leaves none standing when it is complete. -/
structure Orderly (kept : Nat → Nat → Prop) (complete : Seen → Seen) (w : Watched)
    (x : Exchange) : Prop where
  timely : Incomplete w.drv x → ∀ iSlave, OnBus w.drv iSlave → kept w.drv.ec_slavecount iSlave →
    InSafeOp (x.slave iSlave) → (w.seen iSlave).failed = false →
    SLAVE_SYNC_TRYS ≤ (w.seen iSlave).left.toNat + (w.seen iSlave).found →
    SLAVE_SYNC_TRYS ≤ (w.seen iSlave).found
  untouched : Incomplete w.drv x → ∀ iSlave, OnBus w.drv iSlave →
    ¬ kept w.drv.ec_slavecount iSlave → ¬ Touched (x.slave iSlave)
  cleared : ¬ Incomplete w.drv x → ∀ iSlave, OnBus w.drv iSlave →
    kept w.drv.ec_slavecount iSlave → (w.seen iSlave).failed = false →
    (complete (w.seen iSlave)).left.toNat + (complete (w.seen iSlave)).found =
      (w.seen iSlave).left.toNat + (w.seen iSlave).found

/-- A complete exchange marks nothing, counts those anew that had failed, and leaves
no more in a counter than there was. -/
structure Clears (complete : Seen → Seen) : Prop where
  failed : ∀ s, (complete s).failed = false
  anew : ∀ s, s.failed = true → complete s = Seen.new
  left : ∀ s, s.left = 0 → (complete s).left = 0

theorem clears_recovered : Clears Seen.recovered where
  failed s := by
    rw [Seen.recovered]
    split
    · rfl
    · rename_i hnot
      exact eq_false_of_ne_true hnot
  anew s hfailed := by rw [Seen.recovered, if_pos hfailed]
  left s hleft := by
    rw [Seen.recovered]
    split
    · rfl
    · exact hleft

theorem clears_completed : Clears Seen.completed := ⟨fun _ => rfl, fun _ _ => rfl, fun _ _ => rfl⟩

theorem Follows.exchange (h : Follows kept w) (clears : Clears complete) (little : Bool)
    {x : Exchange} (orderly : Exchanging w.drv → Orderly kept complete w x) :
    Follows kept (w.exchange complete little x) := by
  have hsized := h.sized.step little (.exchange x)
  by_cases hex : Exchanging w.drv
  · have hinit : w.drv.mtDrvState ≠ .unInit := fun hun => hex (Or.inr hun)
    obtain ⟨_, _, hcount⟩ := driverLoop_checks hex little x
    have hbytes := count_lt w.drv
    by_cases hinc : Incomplete w.drv x
    · -- each slave of the bus is checked, the others are left alone
      have hmark : ∀ iSlave < 256, (checkView (x.slave iSlave) (view w.drv iSlave)).2 =
          ((w.seen iSlave).checked (x.slave iSlave)).failed ∨ ¬ OnBus w.drv iSlave := by
        intro iSlave hbyte
        refine or_iff_not_imp_right.mpr (fun hbus => ?_)
        have hbus := not_not.mp hbus
        by_cases hkept : kept w.drv.ec_slavecount iSlave
        · exact ((h.counters hinit iSlave hbus hkept).checked
            ((orderly hex).timely hinc iSlave hbus hkept)).failed
        · have huntouched := (orderly hex).untouched hinc iSlave hbus hkept
          rw [checkView, Seen.checked, if_neg (fun hop => huntouched (Or.inl hop)),
            if_neg (fun hsafe => huntouched (Or.inr hsafe)),
            if_neg (fun hop => huntouched (Or.inl hop)),
            if_neg (fun hsafe => huntouched (Or.inr hsafe))]
      refine ⟨hsized, ?_, ?_, ?_, ?_⟩
      · simp only [Watched.exchange, if_pos hex, if_pos hinc]
        intro iSlave
        split
        · rename_i hbus
          exact fun _ => by have := hbus.2; omega
        · exact h.numbers iSlave
      · simp only [Watched.exchange, if_pos hex, if_pos hinc, view_driverLoop hex]
        intro iSlave hbyte
        rw [view_incomplete hinc hbyte]
        split
        · rename_i hbus
          exact (hmark iSlave hbyte).resolve_right (not_not.mpr hbus)
        · exact h.marks iSlave hbyte
      · simp only [Watched.exchange, if_pos hex, if_pos hinc, hcount]
        intro _ iSlave hlt
        split
        · rw [Seen.checked]
          split
          · rfl
          · split
            · exact h.left hinit iSlave hlt
            · exact h.left hinit iSlave hlt
        · exact h.left hinit iSlave hlt
      · simp only [Watched.exchange, if_pos hex, if_pos hinc, hcount, view_driverLoop hex,
          onBus_iff hcount]
        intro _ iSlave hbus hkept
        have hbyte : iSlave < 256 := by
          have := hbus.2
          omega
        rw [view_incomplete hinc hbyte, if_pos hbus, if_pos hbus]
        exact (h.counters hinit iSlave hbus hkept).checked
          ((orderly hex).timely hinc iSlave hbus hkept)
    · refine ⟨hsized, ?_, ?_, ?_, ?_⟩
      · simp only [Watched.exchange, if_pos hex, if_neg hinc, clears.failed]
        exact fun _ hfailed => by cases hfailed
      · simp only [Watched.exchange, if_pos hex, if_neg hinc, clears.failed, view_driverLoop hex]
        intro iSlave hbyte
        rw [view_complete hinc hbyte]
      · simp only [Watched.exchange, if_pos hex, if_neg hinc, hcount]
        exact fun _ iSlave hlt => clears.left _ (h.left hinit iSlave hlt)
      · simp only [Watched.exchange, if_pos hex, if_neg hinc, hcount, view_driverLoop hex,
          onBus_iff hcount]
        intro _ iSlave hbus hkept
        have hagrees := h.counters hinit iSlave hbus hkept
        have hbyte : iSlave < 256 := by
          have := hbus.2
          omega
        rw [view_complete hinc hbyte]
        refine ⟨(clears.failed _).symm, fun _ => ?_⟩
        rw [hagrees.failed]
        cases hfailed : (w.seen iSlave).failed with
        | true =>
          rw [clears.anew _ hfailed]
          rfl
        | false =>
          rw [(orderly hex).cleared hinc iSlave hbus hkept hfailed]
          exact hagrees.tries hfailed
  · have hidle : w.exchange complete little x = w := by
      simp only [Watched.exchange, driverLoop_idle hex, if_neg hex]
    rw [hidle]
    exact h

end Follows

/-- Every index used on the vector is within it. -/
def InBounds (d : EthercatDrv) : Prop :=
  ∀ iSlave ∈ d.mSlavesComTrys.used, iSlave < d.mSlavesComTrys.size

instance (d : EthercatDrv) : Decidable (InBounds d) :=
  inferInstanceAs (Decidable (∀ iSlave ∈ _, _))

/-- An incomplete exchange does not find the last slave operational or in `SAFE_OP`,
and when one is complete no slave with a number as high, of this bus or of an
earlier one, has failed since it was last found operational and since the last
complete exchange. -/
def LastUntouched (w : Watched) : Op → Prop
  | .exchange x =>
    Exchanging w.drv →
      (Incomplete w.drv x → 0 < (w.drv.ec_slavecount : Nat) →
        ¬ Touched (x.slave w.drv.ec_slavecount)) ∧
      (¬ Incomplete w.drv x → ∀ iSlave, (w.seen iSlave).failed = true →
        iSlave < w.drv.ec_slavecount)
  | _ => True

/-- The driver and what is watched of it, while all indices are within the vector. -/
structure Watches (d : EthercatDrv) (w : Watched) : Prop where
  drv : w.drv = d
  inBounds : InBounds d
  follows : Follows (fun ec_slavecount iSlave => iSlave < ec_slavecount) w

theorem inBounds_exchange {d : EthercatDrv} {w : Watched} (h : Watches d w) (little : Bool)
    (x : Exchange) : InBounds (d.driverLoop little x) ↔ LastUntouched w (.exchange x) := by
  obtain ⟨rfl, hin, hfollows⟩ := h
  by_cases hex : Exchanging w.drv
  · have hsize := hfollows.sized (fun hun => hex (Or.inr hun))
    obtain ⟨htrys, _, _⟩ := driverLoop_checks hex little x
    simp only [InBounds, LastUntouched, htrys, size_check, hsize, hex, forall_const]
    by_cases hinc : Incomplete w.drv x
    · simp only [hinc, forall_const, not_true_eq_false, false_imp_iff, and_true,
        used_incomplete hinc]
      constructor
      · intro hused hpos htouched
        exact lt_irrefl _ (hused _ (Or.inr ⟨⟨hpos, le_rfl⟩, htouched⟩))
      · rintro hlast iSlave (hbefore | ⟨hbus, htouched⟩)
        · exact hsize ▸ hin iSlave hbefore
        · refine lt_of_le_of_ne hbus.2 (fun heq => ?_)
          exact hlast (heq ▸ hbus.1) (heq ▸ htouched)
    · simp only [hinc, false_imp_iff, true_and, not_false_eq_true, forall_const,
        used_complete hinc]
      constructor
      · intro hused iSlave hfailed
        have hbyte := hfollows.numbers iSlave hfailed
        have hmark := (hfollows.marks iSlave hbyte).trans hfailed
        refine hused iSlave (Or.inr ⟨_, of_decide_eq_true hmark, ?_⟩)
        rw [BitVec.toNat_ofNat, Nat.mod_eq_of_lt hbyte]
      · rintro hbelow iSlave (hbefore | ⟨uiModule, hmodule, rfl⟩)
        · exact hsize ▸ hin iSlave hbefore
        · refine hbelow _ ((hfollows.marks _ uiModule.isLt).symm.trans (decide_eq_true ?_))
          rwa [BitVec.ofNat_toNat, BitVec.setWidth_eq]
  · rw [driverLoop_idle hex]
    exact iff_of_true hin (fun h => absurd h hex)

theorem inBounds_step {d : EthercatDrv} {w : Watched} (h : Watches d w) (little : Bool) (op : Op) :
    InBounds (d.step little op) ↔ LastUntouched w op := by
  have quiet : op = .start ∨ op = .stop ∨ op = .close → InBounds (d.step little op) := by
    intro hop
    rw [InBounds, (step_keeps little d hop).1]
    exact h.inBounds
  cases op with
  | start => exact iff_of_true (quiet (Or.inl rfl)) trivial
  | stop => exact iff_of_true (quiet (Or.inr (Or.inl rfl))) trivial
  | close => exact iff_of_true (quiet (Or.inr (Or.inr rfl))) trivial
  | init file scan =>
    refine iff_of_true ?_ trivial
    rw [EthercatDrv.step, InBounds]
    rcases init_checks d file scan with ⟨_, hkeeps, _⟩ | ⟨_, htrys, _⟩
    · rw [hkeeps.tries]
      exact h.inBounds
    · rw [htrys]
      exact fun iSlave hmem => absurd hmem (Finset.notMem_empty iSlave)
  | exchange x => exact inBounds_exchange h little x

/-- An exchange that leaves the last slave alone is orderly for the others. -/
theorem LastUntouched.orderly {d : EthercatDrv} {w : Watched} (h : Watches d w) {x : Exchange}
    (hlast : LastUntouched w (.exchange x)) (hex : Exchanging w.drv) :
    Orderly (fun ec_slavecount iSlave => iSlave < ec_slavecount) Seen.recovered w x where
  timely _ iSlave _ hlt _ _ := by
    rw [h.follows.left (fun hun => hex (Or.inr hun)) iSlave hlt]
    intro hmany
    simpa using hmany
  untouched hinc iSlave hbus hnot := by
    obtain rfl : iSlave = w.drv.ec_slavecount := le_antisymm hbus.2 (not_lt.mp hnot)
    exact (hlast hex).1 hinc hbus.1
  cleared _ iSlave _ _ hfailed := by rw [Seen.recovered, hfailed, if_neg Bool.false_ne_true]

theorem Watches.step {d : EthercatDrv} {w : Watched} (h : Watches d w) (little : Bool) {op : Op}
    (hlast : LastUntouched w op) :
    Watches (d.step little op) (w.step Seen.recovered little op) := by
  have hin := (inBounds_step h little op).mpr hlast
  have hdrv := h.drv
  cases op with
  | start => exact ⟨hdrv ▸ rfl, hin, h.follows.quiet little (Or.inl rfl)⟩
  | stop => exact ⟨hdrv ▸ rfl, hin, h.follows.quiet little (Or.inr (Or.inl rfl))⟩
  | close => exact ⟨hdrv ▸ rfl, hin, h.follows.quiet little (Or.inr (Or.inr rfl))⟩
  | init file scan => exact ⟨hdrv ▸ rfl, hin, h.follows.init little file scan⟩
  | exchange x =>
    exact ⟨hdrv ▸ rfl, hin, h.follows.exchange clears_recovered little (hlast.orderly h)⟩

/-- The indices used in a run are within the vector exactly when the counter of the
last slave is never asked for. -/
theorem indices_in_bounds_iff (little : Bool) (ec_slavecount : Fin EC_MAXSLAVE) (ops : List Op) :
    Along (EthercatDrv.step little) (fun d op => InBounds (d.step little op))
        (EthercatDrv.fresh ec_slavecount) ops ↔
      Along (Watched.step Seen.recovered little) LastUntouched (Watched.fresh ec_slavecount)
        ops := by
  apply along_simulation (R := Watches)
  · exact fun d w op h => inBounds_step h little op
  · exact fun d w op h hlast => h.step little hlast
  · exact ⟨rfl, fun iSlave hmem => absurd hmem (Finset.notMem_empty iSlave), follows_fresh _⟩

/-- The first slave does not answer, the second and last one is operational. -/
theorem last_slave_past_end :
    ¬ Along (EthercatDrv.step true) (fun d op => InBounds (d.step true op))
      (EthercatDrv.fresh ⟨0, by decide⟩) [.init lampFile twoSlaves, .start, exchanged false] := by
  intro h
  exact absurd (h.2.2.1 2 (by decide)) (by decide)

/-- A slave is given up for `SAFE_OP` only after more than `SLAVE_SYNC_TRYS`
such checks, and a complete exchange leaves every counter at 0. -/
def TriesHonest (w : Watched) : Op → Prop
  | .exchange x =>
    Exchanging w.drv →
      (Incomplete w.drv x → ∀ iSlave, OnBus w.drv iSlave → InSafeOp (x.slave iSlave) →
        BitVec.ofNat 8 iSlave ∉ w.drv.mModuleErrors →
        BitVec.ofNat 8 iSlave ∈ (w.drv.checkSlavesWKC x).mModuleErrors →
        SLAVE_SYNC_TRYS < ((w.seen iSlave).checked (x.slave iSlave)).found) ∧
      (¬ Incomplete w.drv x → ∀ iSlave, OnBus w.drv iSlave →
        (w.drv.checkSlavesWKC x).mSlavesComTrys.entry iSlave = 0)
  | _ => True

/-- A complete exchange comes when every slave has failed or has not been found in
`SAFE_OP` since it was last operational; and what lay in the counter of the last
slave when it was counted anew does not give it up early. -/
def FoundInTime (w : Watched) : Op → Prop
  | .exchange x =>
    Exchanging w.drv →
      (Incomplete w.drv x → ∀ iSlave, OnBus w.drv iSlave → InSafeOp (x.slave iSlave) →
        (w.seen iSlave).failed = false →
        SLAVE_SYNC_TRYS ≤ (w.seen iSlave).left.toNat + (w.seen iSlave).found →
        SLAVE_SYNC_TRYS ≤ (w.seen iSlave).found) ∧
      (¬ Incomplete w.drv x → ∀ iSlave, OnBus w.drv iSlave → (w.seen iSlave).failed = true ∨
        (w.seen iSlave).left = 0 ∧ (w.seen iSlave).found = 0)
  | _ => True

theorem givenUp_iff {d : EthercatDrv} {x : Exchange} (h : Incomplete d x) {iSlave : Nat}
    (hbus : OnBus d iSlave) (hsafe : InSafeOp (x.slave iSlave))
    (hnew : BitVec.ofNat 8 iSlave ∉ d.mModuleErrors) :
    BitVec.ofNat 8 iSlave ∈ (d.checkSlavesWKC x).mModuleErrors ↔
      (d.mSlavesComTrys.entry iSlave).toNat ≥ SLAVE_SYNC_TRYS := by
  have hbyte : iSlave < 256 := by
    have := count_lt d
    have := hbus.2
    omega
  have hview := congrArg Prod.snd (view_incomplete h hbyte)
  rw [if_pos hbus, checkView, if_neg hsafe.ne_operational, if_pos hsafe] at hview
  simp only [view, hnew, decide_false, Bool.false_or, decide_eq_decide] at hview
  exact hview

theorem triesHonest_iff {w : Watched} (h : Follows (fun _ _ => True) w) (op : Op) :
    TriesHonest w op ↔ FoundInTime w op := by
  cases op with
  | exchange x =>
    refine imp_congr_right (fun hex => ?_)
    have hinit : w.drv.mtDrvState ≠ .unInit := fun hun => hex (Or.inr hun)
    have hbytes := count_lt w.drv
    refine and_congr (forall_congr' fun hinc => forall_congr' fun iSlave =>
      forall_congr' fun hbus => ?_) (forall_congr' fun hcomplete => forall_congr' fun iSlave =>
      forall_congr' fun hbus => ?_)
    · have hagrees := h.counters hinit iSlave hbus trivial
      refine imp_congr_right (fun hsafe => ?_)
      have hmark : BitVec.ofNat 8 iSlave ∉ w.drv.mModuleErrors ↔
          (w.seen iSlave).failed = false := by
        rw [← hagrees.failed]
        exact (decide_eq_false_iff_not).symm
      rw [hmark]
      refine imp_congr_right (fun hfailed => ?_)
      rw [givenUp_iff hinc hbus hsafe (hmark.mpr hfailed)]
      have htries := hagrees.tries hfailed
      rw [view] at htries
      rw [htries, Seen.checked, if_neg hsafe.ne_operational, if_pos hsafe]
      exact imp_congr_right (fun _ => Nat.lt_succ_iff)
    · have hagrees := h.counters hinit iSlave hbus trivial
      have hbyte : iSlave < 256 := by
        have := hbus.2
        omega
      have hafter := congrArg Prod.fst (view_complete hcomplete hbyte)
      dsimp only at hafter
      rw [hagrees.failed] at hafter
      rw [show (w.drv.checkSlavesWKC x).mSlavesComTrys.entry iSlave = _ from hafter]
      cases hfailed : (w.seen iSlave).failed with
      | true => simp
      | false =>
        have htries := hagrees.tries hfailed
        simp only [Bool.false_eq_true, if_false, false_or]
        rw [BitVec.toNat_eq, htries, BitVec.toNat_eq]
        exact Nat.add_eq_zero_iff
  | init file scan => exact Iff.rfl
  | start => exact Iff.rfl
  | stop => exact Iff.rfl
  | close => exact Iff.rfl

theorem FoundInTime.orderly {w : Watched} {x : Exchange} (hfound : FoundInTime w (.exchange x))
    (hex : Exchanging w.drv) : Orderly (fun _ _ => True) Seen.completed w x where
  timely hinc iSlave hbus _ := (hfound hex).1 hinc iSlave hbus
  untouched _ _ _ hnot := absurd trivial hnot
  cleared hcomplete iSlave hbus _ hfailed := by
    rcases (hfound hex).2 hcomplete iSlave hbus with hlost | ⟨hleft, hnone⟩
    · rw [hfailed] at hlost
      cases hlost
    · rw [hleft, hnone]
      rfl

theorem Follows.retry {w : Watched} (h : Follows (fun _ _ => True) w) (little : Bool) {op : Op}
    (hfound : FoundInTime w op) :
    Follows (fun _ _ => True) (w.step Seen.completed little op) := by
  cases op with
  | start => exact h.quiet little (Or.inl rfl)
  | stop => exact h.quiet little (Or.inr (Or.inl rfl))
  | close => exact h.quiet little (Or.inr (Or.inr rfl))
  | init file scan => exact h.init little file scan
  | exchange x => exact h.exchange clears_completed little hfound.orderly

/-- The retries of every slave are counted as they should be along a run exactly
when no complete exchange comes after one or two checks that found a slave in
`SAFE_OP`, and the memory past the vector never gives up the last slave early. -/
theorem retries_honest_iff (little : Bool) (ec_slavecount : Fin EC_MAXSLAVE) (ops : List Op) :
    Along (Watched.step Seen.completed little) TriesHonest (Watched.fresh ec_slavecount) ops ↔
      Along (Watched.step Seen.completed little) FoundInTime (Watched.fresh ec_slavecount) ops := by
  apply along_congr (P := Follows (fun _ _ => True))
  · exact fun w op h => triesHonest_iff h op
  · exact fun w op h hfound => h.retry little hfound
  · exact follows_fresh ec_slavecount

/-- The first slave is found in `SAFE_OP` once. -/
def glitch : Op :=
  .exchange
    { iWorkCount := 1
      slave := fun i => ⟨if i = 1 then EC_STATE_SAFE_OP else EC_STATE_OPERATIONAL, (false, 0), 0,
        false⟩
      image := fun _ => 0
      steadyNow := 0
      msSinceEpoch := 0 }

def threeGlitches : List Op :=
  [.init lampFile twoSlaves, .start, glitch, exchanged true, glitch, exchanged true, glitch]

/-- Each time all slaves have answered again, and the third time the first slave
is given up. -/
theorem given_up_after_one_failure :
    1#8 ∈ (run (Watched.step Seen.completed true) (Watched.fresh ⟨0, by decide⟩)
      threeGlitches).drv.mModuleErrors ∧
    ((run (Watched.step Seen.completed true) (Watched.fresh ⟨0, by decide⟩)
      threeGlitches).seen 1).found = 1 ∧
    ¬ Along (Watched.step Seen.completed true) TriesHonest (Watched.fresh ⟨0, by decide⟩)
      threeGlitches := by
  refine ⟨by decide, by decide, fun h => ?_⟩
  exact absurd ((h.2.2.2.2.2.2.1 (by decide)).1 (by decide) 1 (by decide) (by decide) (by decide)
    (by decide)) (by decide)

end SlaveChecks
