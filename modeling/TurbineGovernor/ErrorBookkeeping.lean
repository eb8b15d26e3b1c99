import TurbineGovernor.EthercatDriver

/-!
# Error bookkeeping of the EtherCAT driver

Under one configuration the two sets of errors describe its devices and its
modules after every exchange. They are only wrong when an `init` succeeds while
they still hold the errors of a configuration that was closed.
-/

namespace ErrorBookkeeping
open CommonTypes KeyedTables EtherDevices EthercatDriver TransitionRuns

/-- What every method but an exchange leaves alone. -/
structure SameErrors (d d' : EthercatDrv) : Prop where
  vars : d'.mVarErrors = d.mVarErrors
  modules : d'.mModuleErrors = d.mModuleErrors

/-- The module errors are numbers of slaves. -/
def ModulesOk (d : EthercatDrv) : Prop :=
  ∀ uiModule ∈ d.mModuleErrors, 1 ≤ uiModule.toNat ∧ uiModule.toNat ≤ d.ec_slavecount

/-- What holds between the steps of a driver: nothing is configured before
`init`, and from then on the books are in order. -/
structure InOrder (d : EthercatDrv) : Prop where
  unInit : d.mtDrvState = .unInit → d.mDevices = []
  booked : d.mtDrvState ≠ .unInit → Booked d.mDevices d.mVarErrors
  modules : d.mtDrvState ≠ .unInit → ModulesOk d

/-- What a check of the slaves leaves alone. -/
structure Checked (d d' : EthercatDrv) : Prop where
  devices : d'.mDevices = d.mDevices
  vars : d'.mVarErrors = d.mVarErrors
  state : d'.mtDrvState = d.mtDrvState
  count : d'.ec_slavecount = d.ec_slavecount
  modules : ModulesOk d → ModulesOk d'

theorem Checked.trans {d d' d'' : EthercatDrv} (h : Checked d d') (h' : Checked d' d'') :
    Checked d d'' where
  devices := h'.devices.trans h.devices
  vars := h'.vars.trans h.vars
  state := h'.state.trans h.state
  count := h'.count.trans h.count
  modules := fun hd => h'.modules (h.modules hd)

theorem checked_checkSlave (d : EthercatDrv) {iSlave : Nat} (a : SlaveAnswer)
    (hpos : 1 ≤ iSlave) (hle : iSlave ≤ d.ec_slavecount) : Checked d (d.checkSlave iSlave a) := by
  have hlt := d.ec_slavecount.isLt
  have hbyte : (BitVec.ofNat 8 iSlave).toNat = iSlave := by
    rw [BitVec.toNat_ofNat, Nat.mod_eq_of_lt]
    simp only [EC_MAXSLAVE] at hlt
    omega
  simp only [EthercatDrv.checkSlave]
  split
  · refine ⟨rfl, rfl, rfl, rfl, ?_⟩
    intro hd uiModule hmem
    dsimp only at hmem ⊢
    split at hmem
    · rcases Finset.mem_insert.mp hmem with rfl | hmem
      · rw [hbyte]
        exact ⟨hpos, hle⟩
      · exact hd uiModule hmem
    · exact hd uiModule hmem
  · refine ⟨rfl, rfl, rfl, rfl, ?_⟩
    intro hd uiModule hmem
    exact hd uiModule (Finset.mem_of_mem_erase hmem)

theorem checked_checkSlavesWKC (d : EthercatDrv) (x : Exchange) :
    Checked d (d.checkSlavesWKC x) := by
  simp only [EthercatDrv.checkSlavesWKC]
  split
  · have hloop : ∀ n ≤ (d.ec_slavecount : Nat), Checked d ((List.range n).foldl
        (fun d i => d.checkSlave (i + 1) (x.slave (i + 1))) d) := by
      intro n
      induction n with
      | zero => exact fun _ => ⟨rfl, rfl, rfl, rfl, id⟩
      | succ n ih =>
        intro hn
        have hbefore := ih (Nat.le_of_succ_le hn)
        rw [List.range_succ, List.foldl_append]
        refine hbefore.trans (checked_checkSlave _ _ (Nat.succ_pos n) ?_)
        rw [hbefore.count]
        exact hn
    exact hloop _ le_rfl
  · refine ⟨rfl, rfl, rfl, rfl, ?_⟩
    intro _ uiModule hmem
    exact absurd hmem (Finset.notMem_empty uiModule)

/-- The exchange gets past the check of the modules. -/
def Reaches (d : EthercatDrv) (x : Exchange) : Prop :=
  d.mtDrvState ≠ .stopped ∧ d.mtDrvState ≠ .unInit ∧
    (d.checkSlavesWKC x).mModuleErrors.card ≠ d.ec_slavecount

instance (d : EthercatDrv) (x : Exchange) : Decidable (Reaches d x) :=
  inferInstanceAs (Decidable (_ ∧ _ ∧ _))

/-- The books after an exchange: the errors of the variables are the states of
the devices that are not `OK`, the errors of the modules are slaves, and the
driver runs exactly when there are none. -/
structure Consistent (d : EthercatDrv) : Prop where
  vars : ∀ addr eState, d.mVarErrors.lookup addr = some eState ↔
    ∃ dev, (addr, dev) ∈ d.mDevices ∧ dev.getCurrentQState = eState ∧ eState ≠ .ok
  modules : ModulesOk d
  running : d.mtDrvState = .running ↔ d.mVarErrors = [] ∧ d.mModuleErrors = ∅
  varError : d.mtDrvState = .varError ↔ ¬ (d.mVarErrors = [] ∧ d.mModuleErrors = ∅)

/-- An exchange keeps the books in order, and the driver initialised. -/
theorem InOrder.driverLoop {d : EthercatDrv} (h : InOrder d) (little : Bool) (x : Exchange) :
    InOrder (d.driverLoop little x) ∧ (Reaches d x → Consistent (d.driverLoop little x)) := by
  by_cases hidle : d.mtDrvState = .stopped ∨ d.mtDrvState = .unInit
  · simp only [EthercatDrv.driverLoop]
    rw [if_pos hidle]
    refine ⟨h, fun hreaches => ?_⟩
    rcases hidle with hidle | hidle
    · exact absurd hidle hreaches.1
    · exact absurd hidle hreaches.2.1
  · have hchecked := checked_checkSlavesWKC d x
    have hinit : d.mtDrvState ≠ .unInit := fun hun => hidle (Or.inr hun)
    have hmodules := hchecked.modules (h.modules hinit)
    have hbooked : Booked (d.checkSlavesWKC x).mDevices (d.checkSlavesWKC x).mVarErrors := by
      rw [hchecked.devices, hchecked.vars]
      exact h.booked hinit
    have hupdated := hbooked.updateAll ⟨little, (d.checkSlavesWKC x).slaves, x.image,
      (d.checkSlavesWKC x).mModuleErrors, x.steadyNow, x.msSinceEpoch⟩
    unfold EthercatDrv.driverLoop
    rw [if_neg hidle]
    dsimp only
    split
    · rename_i hall
      refine ⟨⟨(fun hun => by cases hun), fun _ => hbooked, fun _ => hmodules⟩, ?_⟩
      intro hreaches
      rw [hchecked.count] at hall
      exact absurd hall hreaches.2.2
    · split
      · rename_i herrors
        have hnot : ¬ (((d.checkSlavesWKC x).updateDevices little x).mVarErrors = [] ∧
            ((d.checkSlavesWKC x).updateDevices little x).mModuleErrors = ∅) := by
          rintro ⟨hvars, hmods⟩
          rcases herrors with herr | herr
          · exact herr hmods
          · exact herr hvars
        refine ⟨⟨(fun hun => by cases hun), fun _ => hupdated, fun _ => hmodules⟩, fun _ => ?_⟩
        exact ⟨hupdated.lookup_iff, hmodules, iff_of_false (by simp [EthercatDrv.enterError]) hnot,
          iff_of_true rfl hnot⟩
      · rename_i hnone
        have hempty : ((d.checkSlavesWKC x).updateDevices little x).mVarErrors = [] ∧
            ((d.checkSlavesWKC x).updateDevices little x).mModuleErrors = ∅ := by
          rw [not_or, not_not, not_not] at hnone
          exact ⟨hnone.2, hnone.1⟩
        refine ⟨⟨(fun hun => by cases hun), fun _ => hupdated, fun _ => hmodules⟩, fun _ => ?_⟩
        exact ⟨hupdated.lookup_iff, hmodules, iff_of_true rfl hempty,
          iff_of_false (by simp) (not_not.mpr hempty)⟩

/-- Devices as the factory leaves them. -/
structure Created (mDevices : List (IOAddr × EtherDevice)) : Prop where
  unique : UniqueKeys mDevices
  new : ∀ it ∈ mDevices, ∃ cnf, it.2 = EtherDevice.create cnf

theorem created_nil : Created [] := ⟨List.nodup_nil, fun _ hit => by cases hit⟩

theorem Created.booked {mDevices : List (IOAddr × EtherDevice)} (h : Created mDevices) :
    Booked mDevices [] := by
  constructor
  · exact h.unique
  · intro it hit
    obtain ⟨cnf, hcnf⟩ := h.new it hit
    rw [hcnf]
    exact coherent_create cnf
  · intro it hit
    obtain ⟨cnf, hcnf⟩ := h.new it hit
    rw [hcnf, entry_create]
    rfl
  · intro addr _
    rfl

theorem Created.insertKey {mDevices : List (IOAddr × EtherDevice)} (h : Created mDevices)
    (newAddr : IOAddr) (cnf : DeviceCnf) :
    Created (insertKey mDevices newAddr (EtherDevice.create cnf)) := by
  refine ⟨uniqueKeys_insertKey h.unique _ _, ?_⟩
  intro it hit
  simp only [KeyedTables.insertKey] at hit
  split at hit
  · exact h.new it hit
  · rcases List.mem_append.mp hit with hit | hit
    · exact h.new it hit
    · rw [List.mem_singleton.mp hit]
      exact ⟨cnf, rfl⟩

/-- Reading the variables creates devices, or leaves none when it fails. -/
theorem readXMLVars_spec (vars : List (Option (IOAddr × DeviceCnf)))
    {mDevices : List (IOAddr × EtherDevice)} (h : Created mDevices) :
    Created (readXMLVars vars mDevices).2 ∧
      ((readXMLVars vars mDevices).1 = false → (readXMLVars vars mDevices).2 = []) := by
  induction vars generalizing mDevices with
  | nil => exact ⟨h, fun hfalse => by cases hfalse⟩
  | cons it vars ih =>
    match it with
    | none => exact ⟨created_nil, fun _ => rfl⟩
    | some (newAddr, cnf) => exact ih (h.insertKey newAddr cnf)

theorem readXMLChildren_spec (bSlaveCnf bVars : Bool) (children : List XmlChild)
    {mDevices : List (IOAddr × EtherDevice)} (h : Created mDevices) :
    Created (readXMLChildren bSlaveCnf bVars children mDevices).2 ∧
      ((readXMLChildren bSlaveCnf bVars children mDevices).1 = false →
        (readXMLChildren bSlaveCnf bVars children mDevices).2 = []) := by
  induction children generalizing bSlaveCnf bVars mDevices with
  | nil => exact ⟨h, fun hfalse => by cases hfalse⟩
  | cons child children ih =>
    simp only [readXMLChildren]
    split
    · exact ⟨h, fun hfalse => by cases hfalse⟩
    · cases child with
      | slaveConfig => exact ih true bVars h
      | other => exact ih bSlaveCnf bVars h
      | vars vars =>
        dsimp only
        split
        · exact ih bSlaveCnf bVars h
        · have hvars := readXMLVars_spec vars h
          split
          · rename_i hread
            rw [hread] at hvars
            exact ih bSlaveCnf true hvars.1
          · rename_i hread
            rw [hread] at hvars
            exact ⟨hvars.1, hvars.2⟩

/-- The file has a configuration that is read to its end. -/
def readable (file : Except String (Option FieldDriverXml)) : Bool :=
  match file with
  | .ok (some root) => (readXMLChildren false false root.children []).1
  | _ => false

/-- The library finds the slaves and brings them to operation. -/
def operates (scan : BusScan) : Bool :=
  scan.interfaceOk && scan.configured && scan.safeOp && scan.operational

def accepted (file : Except String (Option FieldDriverXml)) (scan : BusScan) : Bool :=
  readable file && operates scan

theorem loadXMLConfig_spec {d : EthercatDrv} (hnone : d.mDevices = [])
    (file : Except String (Option FieldDriverXml)) :
    (d.loadXMLConfig file).1 = readable file ∧ SameErrors d (d.loadXMLConfig file).2 ∧
      (d.loadXMLConfig file).2.mtDrvState = d.mtDrvState ∧
      Created (d.loadXMLConfig file).2.mDevices ∧
      (readable file = false → (d.loadXMLConfig file).2.mDevices = []) := by
  have hcreated : Created d.mDevices := by
    rw [hnone]
    exact created_nil
  match file with
  | .error text => exact ⟨rfl, ⟨rfl, rfl⟩, rfl, hcreated, fun _ => hnone⟩
  | .ok none => exact ⟨rfl, ⟨rfl, rfl⟩, rfl, hcreated, fun _ => hnone⟩
  | .ok (some root) =>
    have hread := readXMLChildren_spec false false root.children created_nil
    unfold EthercatDrv.loadXMLConfig readable
    rw [hnone]
    exact ⟨rfl, ⟨rfl, rfl⟩, rfl, hread.1, hread.2⟩

theorem initSoem_spec (d : EthercatDrv) (scan : BusScan) :
    (d.initSoem scan).1 = operates scan ∧ SameErrors d (d.initSoem scan).2 ∧
      (d.initSoem scan).2.mtDrvState = d.mtDrvState ∧
      (d.initSoem scan).2.mDevices = d.mDevices := by
  simp only [EthercatDrv.initSoem, operates]
  cases scan.interfaceOk with
  | false => exact ⟨rfl, ⟨rfl, rfl⟩, rfl, rfl⟩
  | true =>
    cases scan.configured with
    | false => exact ⟨rfl, ⟨rfl, rfl⟩, rfl, rfl⟩
    | true =>
      cases scan.safeOp with
      | false => exact ⟨rfl, ⟨rfl, rfl⟩, rfl, rfl⟩
      | true =>
        cases scan.operational with
        | false => exact ⟨rfl, ⟨rfl, rfl⟩, rfl, rfl⟩
        | true => exact ⟨rfl, ⟨rfl, rfl⟩, rfl, rfl⟩

/-- An accepted `init` ends stopped with created devices; another one of a
driver that is not initialised leaves it so. Neither touches the errors. -/
theorem init_cases {d : EthercatDrv} (hun : d.mtDrvState = .unInit) (hnone : d.mDevices = [])
    (file : Except String (Option FieldDriverXml)) (scan : BusScan) :
    SameErrors d (d.init file scan).2 ∧ (d.init file scan).1 = accepted file scan ∧
      (accepted file scan = true → (d.init file scan).2.mtDrvState = .stopped ∧
        Created (d.init file scan).2.mDevices) ∧
      (accepted file scan = false → (d.init file scan).2.mtDrvState = .unInit ∧
        (d.init file scan).2.mDevices = []) := by
  obtain ⟨hreadable, hsame, hstate, hcreated, hfailed⟩ := loadXMLConfig_spec hnone file
  simp only [EthercatDrv.init, accepted]
  rw [if_neg (not_not.mpr hun)]
  cases hload : d.loadXMLConfig file with
  | mk bOk d' =>
    rw [hload] at hreadable hsame hstate hcreated hfailed
    dsimp only at hreadable hsame hstate hcreated hfailed ⊢
    cases bOk with
    | false =>
      rw [← hreadable] at hfailed ⊢
      exact ⟨⟨hsame.vars, hsame.modules⟩, rfl, (fun h => by cases h),
        fun _ => ⟨hstate.trans hun, hfailed rfl⟩⟩
    | true =>
      obtain ⟨hoperates, hsame', hstate', hdevices⟩ := initSoem_spec d' scan
      rw [← hreadable, Bool.true_and]
      cases hsoem : d'.initSoem scan with
      | mk bOk d'' =>
        rw [hsoem] at hoperates hsame' hstate' hdevices
        simp only [hsoem]
        dsimp only at hoperates hsame' hstate' hdevices
        have hvars := hsame'.vars.trans hsame.vars
        have hmodules := hsame'.modules.trans hsame.modules
        rw [← hoperates]
        cases bOk with
        | false =>
          exact ⟨⟨hvars, hmodules⟩, rfl, (fun h => by cases h),
            fun _ => ⟨hstate'.trans (hstate.trans hun), rfl⟩⟩
        | true =>
          refine ⟨⟨hvars, hmodules⟩, rfl, fun _ => ⟨rfl, ?_⟩, (fun h => by cases h)⟩
          dsimp only
          rw [hdevices]
          exact hcreated

theorem init_refused {d : EthercatDrv} (hun : d.mtDrvState ≠ .unInit)
    (file : Except String (Option FieldDriverXml)) (scan : BusScan) :
    d.init file scan = (false, { d with mstrLastError := "Driver ya inicializado" }) := by
  simp only [EthercatDrv.init]
  rw [if_pos hun]

/-- What a step is to leave: no error of another configuration after an `init`
that succeeds, consistent books after an exchange. -/
def BooksKept (little : Bool) (d : EthercatDrv) : Op → Prop
  | .init file scan => (d.init file scan).1 = true →
      (d.init file scan).2.mVarErrors = [] ∧ (d.init file scan).2.mModuleErrors = ∅
  | .exchange x => Reaches d x → Consistent (d.driverLoop little x)
  | _ => True

/-- An `init` that will succeed finds no error left over. -/
def StartsClean (d : EthercatDrv) : Op → Prop
  | .init file scan => d.mtDrvState = .unInit ∧ accepted file scan = true →
      d.mVarErrors = [] ∧ d.mModuleErrors = ∅
  | _ => True

theorem booksKept_iff {d : EthercatDrv} (h : InOrder d) (little : Bool) (op : Op) :
    BooksKept little d op ↔ StartsClean d op := by
  cases op with
  | init file scan =>
    by_cases hun : d.mtDrvState = .unInit
    · obtain ⟨hsame, haccepted, _⟩ := init_cases hun (h.unInit hun) file scan
      simp only [BooksKept, StartsClean, hsame.vars, hsame.modules, haccepted, hun, true_and]
    · simp only [BooksKept, StartsClean, init_refused hun, hun, false_and, false_imp_iff,
        Bool.false_eq_true]
  | exchange x => exact iff_of_true (h.driverLoop little x).2 trivial
  | start => exact Iff.rfl
  | stop => exact Iff.rfl
  | close => exact Iff.rfl

theorem InOrder.step {d : EthercatDrv} (h : InOrder d) (little : Bool) {op : Op}
    (hclean : StartsClean d op) : InOrder (d.step little op) := by
  cases op with
  | init file scan =>
    unfold EthercatDrv.step
    dsimp only
    by_cases hun : d.mtDrvState = .unInit
    · obtain ⟨hsame, _, hdone, hfailed⟩ := init_cases hun (h.unInit hun) file scan
      by_cases haccepted : accepted file scan = true
      · obtain ⟨hstopped, hcreated⟩ := hdone haccepted
        obtain ⟨hvars, hmodules⟩ := hclean ⟨hun, haccepted⟩
        refine ⟨fun hun' => ?_, fun _ => ?_, fun _ => ?_⟩
        · rw [hstopped] at hun'
          cases hun'
        · rw [hsame.vars, hvars]
          exact hcreated.booked
        · simp only [ModulesOk]
          rw [hsame.modules, hmodules]
          exact fun uiModule hmem => absurd hmem (Finset.notMem_empty uiModule)
      · obtain ⟨hstate, hdevices⟩ := hfailed (eq_false_of_ne_true haccepted)
        exact ⟨fun _ => hdevices, fun hne => absurd hstate hne, fun hne => absurd hstate hne⟩
    · rw [init_refused hun]
      exact ⟨h.unInit, h.booked, h.modules⟩
  | exchange x => exact (h.driverLoop little x).1
  | start =>
    unfold EthercatDrv.step EthercatDrv.start
    dsimp only
    split
    · exact h
    · rename_i hinit
      split
      · exact ⟨(fun hun => by cases hun), fun _ => h.booked hinit, fun _ => h.modules hinit⟩
      · exact h
  | stop =>
    unfold EthercatDrv.step EthercatDrv.stop
    dsimp only
    split
    · exact h
    · rename_i hinit
      exact ⟨(fun hun => by cases hun), fun _ => h.booked hinit, fun _ => h.modules hinit⟩
  | close =>
    unfold EthercatDrv.step EthercatDrv.close
    dsimp only
    split
    · exact h
    · exact ⟨fun _ => rfl, fun hne => absurd rfl hne, fun hne => absurd rfl hne⟩

/-- Every step of a run leaves the books in order exactly when every `init`
that succeeds in it finds no error left over. -/
theorem errors_booked_iff (little : Bool) (ec_slavecount : Fin EC_MAXSLAVE) (ops : List Op) :
    Along (EthercatDrv.step little) (BooksKept little) (EthercatDrv.fresh ec_slavecount) ops ↔
      Along (EthercatDrv.step little) StartsClean (EthercatDrv.fresh ec_slavecount) ops := by
  apply along_congr (P := InOrder)
  · exact fun d op h => booksKept_iff h little op
  · exact fun d op h hclean => h.step little hclean
  · exact ⟨fun _ => rfl, fun hne => absurd rfl hne, fun hne => absurd rfl hne⟩

def lampAddr : IOAddr := { uiModule := 1, uiChannel := 0, uiNumBits := 1 }

/-- One digital device, in the first of two slaves. -/
def lampFile : Except String (Option FieldDriverXml) :=
  .ok (some ⟨"eth0", [.slaveConfig, .vars [some (lampAddr, .digitalDev (-1))]]⟩)

def twoSlaves : BusScan where
  interfaceOk := true
  configured := true
  ec_slavecount := ⟨2, by decide⟩
  outputs := fun _ => 0
  inputs := fun _ => 0
  outputsWKC := 1
  inputsWKC := 0
  islost := fun _ => false
  safeOp := true
  operational := true
  memory := fun _ => 0

/-- An exchange in which the first slave does not answer, or all do. -/
def exchanged (complete : Bool) : Op :=
  .exchange
    { iWorkCount := if complete then 2 else 1
      slave := fun i => ⟨if i = 1 then EC_STATE_NONE else EC_STATE_OPERATIONAL, (false, 0), 0,
        false⟩
      image := fun _ => 0
      steadyNow := 0
      msSinceEpoch := 0 }

def closedInError : List Op :=
  [.init lampFile twoSlaves, .start, exchanged false, .close, .init lampFile twoSlaves, .start,
    exchanged true]

/-- The device of the second configuration is `OK` and the error of the first
one is still reported for it. -/
theorem error_outlives_close :
    (run (EthercatDrv.step true) (EthercatDrv.fresh ⟨0, by decide⟩) closedInError).mVarErrors =
      [(lampAddr, .comError)] ∧
    (run (EthercatDrv.step true) (EthercatDrv.fresh ⟨0, by decide⟩) closedInError).mDevices =
      [(lampAddr, EtherDevice.create (.digitalDev (-1)))] ∧
    (run (EthercatDrv.step true) (EthercatDrv.fresh ⟨0, by decide⟩) closedInError).mtDrvState =
      .varError ∧
    ¬ Along (EthercatDrv.step true) (BooksKept true) (EthercatDrv.fresh ⟨0, by decide⟩)
      closedInError := by
  have hvars : (run (EthercatDrv.step true) (EthercatDrv.fresh ⟨0, by decide⟩)
      closedInError).mVarErrors = [(lampAddr, .comError)] := by decide
  have hdevices : (run (EthercatDrv.step true) (EthercatDrv.fresh ⟨0, by decide⟩)
      closedInError).mDevices = [(lampAddr, EtherDevice.create (.digitalDev (-1)))] := by decide
  refine ⟨hvars, hdevices, by decide, ?_⟩
  intro h
  have hlast := h.2.2.2.2.2.2.1 (by decide)
  obtain ⟨dev, hdev, hstate, _⟩ := (hlast.vars lampAddr .comError).mp (by
    exact (congrArg (List.lookup lampAddr) hvars).trans rfl)
  have hmem : (lampAddr, dev) ∈ [(lampAddr, EtherDevice.create (.digitalDev (-1)))] :=
    hdevices ▸ hdev
  rw [List.mem_singleton] at hmem
  rw [(Prod.mk.inj hmem).2] at hstate
  cases hstate

end ErrorBookkeeping
