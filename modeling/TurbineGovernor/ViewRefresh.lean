import TurbineGovernor.RefreshedTables
import TurbineGovernor.ShownSignals

/-!
# From the image of the regulator to the window

The regulator publishes an output phase, the driver of the HMI polls the slave,
`updateImage` takes the changes while it does, and the pages are told of them.
When every variable has been polled and the changes have been taken, the window
shows what the regulator has published.
-/

namespace ViewRefresh
open CommonTypes TransitionRuns KeyedTables PriorityQueues MasterDriver SlaveDriver HmiImage
open ChangeNotification WordLayout StartUp RefreshedTables ShownSignals CyclicScans PollingCoverage
open RegisterMap hiding Initialised
open RegulatorAlarms (Config AlarmManager)
open RegulatorImage (IOImage)
open AlarmsDisplay AlarmsWidget WindowViews
open ControlPanel (RangedImage)
open OperatorDesk (getCurrentVal Declared)
open MirroredTables (HoldsField HoldsModbus)

variable {Q : Type}

theorem default_insertAll {D : Type} (skipped : IOAddr → Prop) [DecidablePred skipped] (new : D)
    (addrs : List IOAddr) {vars : List (IOAddr × D)} (h : ∀ it ∈ vars, it.2 = new) :
    ∀ it ∈ addrs.foldl (fun vars addr =>
      if skipped addr then vars else insertVar vars addr new) vars, it.2 = new := by
  induction addrs generalizing vars with
  | nil => exact h
  | cons addr addrs ih =>
    rw [List.foldl_cons]
    apply ih
    split
    · exact h
    · simp only [insertVar]
      split
      · exact h
      · intro it hit
        rcases List.mem_append.mp hit with hold | hnew
        · exact h it hold
        · rw [List.mem_singleton.mp hnew]

section Init
variable [PriorityQueue Q WriteReq WriteReq.Less]

/-- A new driver after a successful `init`. -/
theorem driver_fresh {little : Bool} {ip : String} {port : Int} {NumROInts NumIOVars : BitVec 32}
    {slaveVars fieldVars : List IOAddr} {newTcp : Bool} {strerror : String} {d : ModbusMasterDrv Q}
    (h : (ModbusMasterDrv.fresh little).init
      (.ok (some ⟨some ip, some port, some NumROInts, some NumIOVars⟩)) slaveVars fieldVars newTcp
      strerror = (true, d)) :
    d.mbArchLittleEnd = little ∧ d.muiNumROInts = NumROInts ∧
      (∀ it ∈ d.mFieldVars, it.2 = {}) ∧ ∀ it ∈ d.mModbusVars, it.2 = {} := by
  simp only [ModbusMasterDrv.init, ModbusMasterDrv.fresh, ModbusMasterDrv.loadXMLConfig,
    ModbusMasterDrv.readXMLConfig] at h
  rw [if_neg (not_not.mpr rfl)] at h
  split at h
  · cases h
  split at h
  · obtain rfl := (Prod.mk.inj h).2
    refine ⟨rfl, rfl, ?_, ?_⟩
    · exact default_insertAll (fun addr : IOAddr => addr.uiChannel.setWidth 32 ≤ _ ∨ _) _ _
        (fun it hit => absurd hit List.not_mem_nil)
    · exact default_insertAll (fun addr : IOAddr => addr.uiChannel.setWidth 32 < 1#32 ∨ _) _ _
        (fun it hit => absurd hit List.not_mem_nil)
  · cases h

theorem init_system {little : Bool} {regIOInfo : Option (List Token)} {ip : String} {port : Int}
    {NumROInts NumIOVars : BitVec 32} {slaveVars fieldVars : List IOAddr} {newTcp : Bool}
    {strerror : String} {h : Hmi Q}
    (hinit : init little regIOInfo
      (.ok (some ⟨some ip, some port, some NumROInts, some NumIOVars⟩)) slaveVars fieldVars newTcp
      strerror = some h) :
    ChangeNotification.Initial h.system ∧ (∀ tAddr, h.system.emitted tAddr = none) ∧
      h.system.driver.mbArchLittleEnd = little ∧ h.system.driver.muiNumROInts = NumROInts := by
  simp only [init] at hinit
  cases hparse : parseRegIOInfo regIOInfo with
  | none =>
    rw [hparse] at hinit
    cases hinit
  | some p =>
    simp only [hparse] at hinit
    split at hinit
    · split at hinit
      · cases hinit
      · rename_i d hdriver
        obtain rfl := Option.some.inj hinit
        obtain ⟨hlittle, hroInts, hfield, hmodbus⟩ := driver_fresh hdriver
        have hdistinct := init_distinct (d := (ModbusMasterDrv.fresh little : ModbusMasterDrv Q))
          ⟨List.nodup_nil, List.nodup_nil⟩
          (.ok (some ⟨some ip, some port, some NumROInts, some NumIOVars⟩)) slaveVars fieldVars
          newTcp strerror
        rw [hdriver] at hdistinct
        refine ⟨⟨hdistinct.1, hdistinct.2, ?_, ?_, rfl⟩, fun _ => rfl, hlittle, hroInts⟩
        · intro tAddr data hdata
          have hnew : data = {} := hfield (tAddr, data) (mem_of_lookup hdata)
          rw [hnew]
        · intro tAddr data hdata
          have hnew : data = {} := hmodbus (tAddr, data) (mem_of_lookup hdata)
          rw [hnew]
    · cases hinit

end Init

/-- The slave has the variables of the map that the driver is configured with. -/
theorem connected_init {p : Parsed} {NumROInts NumIOVars : BitVec 32} {h : Hmi Q}
    (hinit : StartUp.Initial p NumROInts NumIOVars h) {slave : ModbusSlaveDrv}
    (little : h.system.driver.mbArchLittleEnd = slave.mbArchLittleEnd)
    (driverInts : h.system.driver.muiNumROInts = NumROInts)
    (roInts : NumROInts = slave.muiNumROInts) (ioVars : NumIOVars = slave.muiNumIOVars) :
    Connected slave h.system := by
  have hlast : ∀ tAddr : IOAddr, tAddr.uiChannel.toNat ≤ (NumIOVars + NumROInts).toNat →
      tAddr.uiChannel.toNat ≤ slave.muiNumROInts.toNat + slave.muiNumIOVars.toNat := by
    intro tAddr hle
    rw [← roInts, ← ioVars]
    rw [BitVec.toNat_add] at hle
    have hmod := Nat.mod_le (NumIOVars.toNat + NumROInts.toNat) (2 ^ 32)
    omega
  refine ⟨little, driverInts.trans roInts, ?_, ?_⟩
  · intro tAddr hmem
    obtain ⟨_, hlow, hhigh⟩ := (hinit.field tAddr).mp hmem
    exact ⟨roInts ▸ hlow, hlast tAddr hhigh⟩
  · intro tAddr hmem
    obtain ⟨_, hlow, hhigh⟩ := (hinit.modbus tAddr).mp hmem
    by_cases hro : tAddr.uiChannel.toNat ≤ slave.muiNumROInts.toNat
    · exact Or.inr ⟨hlow, hro⟩
    · exact Or.inl ⟨not_le.mp hro, hlast tAddr hhigh⟩

section Told
variable (L : FloatAbcd) (slave : ModbusSlaveDrv) (tAddr : IOAddr)

/-- The data of a variable are what the slave holds. -/
def Holds : Record → Prop
  | .roInt p => HoldsModbus (modbusReading L slave tAddr) p
  | .modbus _ p => HoldsModbus (modbusReading L slave tAddr) p
  | .field _ p => HoldsField (fieldReading L slave tAddr) p

/-- All variables have been polled and nothing is left to be read. -/
structure UpToDate (h : Hmi Q) (s : System Q) : Prop where
  tables : SameTables h.system s
  inv : Inv s
  quiet : Quiet s
  current : ∀ item ∈ polled h.system.driver, Current L slave item s

variable {L slave tAddr} {h : Hmi Q} {s : System Q}

/-- Then all data are those of the slave, and have been told. -/
theorem UpToDate.told (upToDate : UpToDate L slave h s) {rec : Record}
    (hrec : s.recordAt s.driver tAddr = some rec) :
    Holds L slave tAddr rec ∧
      ∃ g, s.emitted tAddr = some g ∧ g.Agrees (rec.signal .running tAddr) := by
  obtain ⟨tables, inv, quiet, current⟩ := upToDate
  have hsettled := settled_of_none quiet.inRead
  have hmodbus : ∀ p, s.driver.mModbusVars.lookup tAddr = some p →
      HoldsModbus (modbusReading L slave tAddr) p ∧ p.mbForceChangeDetection = false := by
    intro p hp
    refine current (.modbus tAddr) ?_ p (by rw [hsettled]; exact hp)
    refine List.mem_append_right _ ?_
    have hkey := List.mem_map_of_mem (f := Prod.fst) (mem_of_lookup hp)
    rw [tables.modbus] at hkey
    exact List.mem_map_of_mem hkey
  have hfield : ∀ p, s.driver.mFieldVars.lookup tAddr = some p →
      HoldsField (fieldReading L slave tAddr) p ∧ p.mbForceChangeDetection = false := by
    intro p hp
    refine current (.field tAddr) ?_ p (by rw [hsettled]; exact hp)
    refine List.mem_append_left _ ?_
    have hkey := List.mem_map_of_mem (f := Prod.fst) (mem_of_lookup hp)
    rw [tables.field] at hkey
    exact List.mem_map_of_mem hkey
  have hdata : Holds L slave tAddr rec ∧ rec.mbForceChangeDetection = false := by
    have hcases := hrec
    simp only [System.recordAt, record] at hcases
    split at hcases
    · obtain ⟨p, hp, rfl⟩ := Option.map_eq_some_iff.mp hcases
      exact hmodbus p hp
    split at hcases
    · cases hcases
    split at hcases
    · rename_i p hp
      obtain rfl := Option.some.inj hcases
      exact hmodbus p hp
    · obtain ⟨p, hp, rfl⟩ := Option.map_eq_some_iff.mp hcases
      exact hfield p hp
  exact ⟨hdata.1, quiet.told inv hrec hdata.2⟩

end Told

section Kinds
variable {L : FloatAbcd} {slave : ModbusSlaveDrv} {p : Parsed} {NumROInts NumIOVars : BitVec 32}
  {h : Hmi Q} {s : System Q} {tAddr : IOAddr}

/-- What has been told of a field variable is its forced value when it is forced. -/
def shownVal (r : FieldReading) : Single := if r.bForced then r.fForcedVal else r.fTrueVal

theorem agrees_var {g : Signal} {var : VarImage} (hagrees : g.Agrees (.varChanged var)) :
    ∃ var', g = .varChanged var' ∧ Single.Same (getCurrentVal var') (getCurrentVal var) := by
  cases g with
  | roIntChanged val intID => exact hagrees.elim
  | varChanged var' =>
    obtain ⟨htrue, hforced, _, hflag⟩ := hagrees
    refine ⟨var', rfl, ?_⟩
    rw [getCurrentVal, getCurrentVal, hflag]
    split
    · exact hforced
    · exact htrue

theorem UpToDate.word (upToDate : UpToDate L slave h s)
    (hinit : StartUp.Initial p NumROInts NumIOVars h)
    (hkey : tAddr ∈ h.system.driver.mModbusVars.map Prod.fst)
    (hword : 1 ≤ tAddr.uiChannel.toNat ∧ tAddr.uiChannel.toNat ≤ counts.total)
    {uiVal : BitVec 32} (hread : modbusReading L slave tAddr = .roInt uiVal) :
    ∃ intID, s.emitted tAddr = some (.roIntChanged uiVal intID) := by
  rw [← upToDate.tables.modbus, ← lookup_isSome_iff] at hkey
  obtain ⟨data, hdata⟩ := Option.isSome_iff_exists.mp hkey
  have hrec : s.recordAt s.driver tAddr = some (.roInt data) := by
    simp only [System.recordAt, record, upToDate.tables.image, hinit.image, isROInt_iff]
    rw [if_pos hword, hdata, Option.map_some]
  obtain ⟨⟨now, hstored⟩, g, hg, hagrees⟩ := upToDate.told hrec
  rw [hread] at hstored
  cases g with
  | varChanged var => exact hagrees.elim
  | roIntChanged val intID =>
    have hval : val = data.muiCurrentVal := hagrees
    rw [hval, ← hstored] at hg
    exact ⟨intID, hg⟩

theorem UpToDate.slaveVar (upToDate : UpToDate L slave h s)
    (hinit : StartUp.Initial p NumROInts NumIOVars h)
    (hkey : tAddr ∈ h.system.driver.mModbusVars.map Prod.fst)
    (hhigh : counts.total < tAddr.uiChannel.toNat) {fVal : Single}
    (hread : modbusReading L slave tAddr = .current fVal) :
    ∃ var, s.emitted tAddr = some (.varChanged var) ∧ Single.Same (getCurrentVal var) fVal := by
  have hvar := hinit.known_of_high
    (Finset.mem_union_left _ ((hinit.modbus tAddr).mp hkey).1) hhigh
  rw [← upToDate.tables.modbus, ← lookup_isSome_iff] at hkey
  obtain ⟨data, hdata⟩ := Option.isSome_iff_exists.mp hkey
  obtain ⟨regVar, hregVar⟩ := Option.isSome_iff_exists.mp hvar
  have hrec : s.recordAt s.driver tAddr = some (.modbus regVar.muiVarId data) := by
    simp only [System.recordAt, record, upToDate.tables.image, hinit.image, isROInt_iff, hregVar,
      hdata]
    rw [if_neg (by omega)]
  obtain ⟨⟨now, hstored⟩, g, hg, hagrees⟩ := upToDate.told hrec
  obtain ⟨var, rfl, hsame⟩ := agrees_var hagrees
  refine ⟨var, hg, ?_⟩
  rw [hread] at hstored
  rw [← hstored] at hsame
  exact hsame

theorem UpToDate.fieldVar (upToDate : UpToDate L slave h s)
    (hinit : StartUp.Initial p NumROInts NumIOVars h) (mapped : p.Mapped NumROInts NumIOVars)
    (hmem : tAddr ∈ p.fieldVarsToUpdate) :
    ∃ var, s.emitted tAddr = some (.varChanged var) ∧
      Single.Same (getCurrentVal var) (shownVal (fieldReading L slave tAddr)) := by
  obtain ⟨hlow, hhigh, hlast⟩ := mapped.field tAddr hmem
  have hkey := (hinit.field tAddr).mpr ⟨hmem, hlow, hlast⟩
  have hvar := hinit.known_of_high (Finset.mem_union_right _ hmem) hhigh
  rw [← upToDate.tables.field, ← lookup_isSome_iff] at hkey
  obtain ⟨data, hdata⟩ := Option.isSome_iff_exists.mp hkey
  obtain ⟨regVar, hregVar⟩ := Option.isSome_iff_exists.mp hvar
  have hmodbus : s.driver.mModbusVars.lookup tAddr = none := by
    rw [← Option.not_isSome_iff_eq_none, lookup_isSome_iff, upToDate.tables.modbus]
    intro hslave
    exact Finset.disjoint_left.mp mapped.distinct ((hinit.modbus tAddr).mp hslave).1 hmem
  have hrec : s.recordAt s.driver tAddr = some (.field regVar.muiVarId data) := by
    simp only [System.recordAt, record, upToDate.tables.image, hinit.image, isROInt_iff, hregVar,
      hmodbus, hdata, Option.map_some]
    rw [if_neg (by omega)]
  obtain ⟨hstored, g, hg, hagrees⟩ := upToDate.told hrec
  obtain ⟨var, rfl, hsame⟩ := agrees_var hagrees
  refine ⟨var, hg, ?_⟩
  rw [Holds, HoldsField] at hstored
  rw [← hstored] at hsame
  exact hsame

end Kinds

/-- The driver polls the slave, whose tables stay the same from the end of
`before` on: each variable has been polled by the end of `ls`, with the changes
taken in between or after it, and none read out before it had been stored. -/
structure Refreshed (L : FloatAbcd) (s : System Q) (slave : ModbusSlaveDrv)
    (before ls : List ChangeNotification.Label) : Prop where
  noStale : Along System.step NoStaleRead s (before ++ ls)
  answered : Along System.step (Answered L slave) (run System.step s before) ls
  taken : ∀ item ∈ polled s.driver,
    .take item ∈ trace System.step polls (run System.step s before) ls
  quiet : Quiet (run System.step s (before ++ ls))

/-- The files of the HMI are for the slave of the regulator. -/
structure Fits (p : Parsed) (little : Bool) (NumROInts NumIOVars : BitVec 32)
    (slave : ModbusSlaveDrv) : Prop where
  mapped : p.Mapped NumROInts NumIOVars
  apart : Apart p
  little : little = slave.mbArchLittleEnd
  roInts : NumROInts = slave.muiNumROInts
  ioVars : NumIOVars = slave.muiNumIOVars

theorem Refreshed.current {L : FloatAbcd} {s : System Q} {slave : ModbusSlaveDrv}
    {before ls : List ChangeNotification.Label} (refreshed : Refreshed L s slave before ls)
    (hs : RegisterMap.Initialised slave) (initial : ChangeNotification.Initial s)
    (connected : Connected slave s) :
    Inv (run System.step s (before ++ ls)) ∧
      ∀ item ∈ polled s.driver, Current L slave item (run System.step s (before ++ ls)) := by
  obtain ⟨hbefore, hafter⟩ := along_append.mp refreshed.noStale
  have hinv := run_invariant step_inv initial.inv refreshed.noStale
  have hconnected : Connected slave (run System.step s before) :=
    run_invariant' (fun _ l h => h.step l) connected before
  refine ⟨hinv, fun item hitem => ?_⟩
  rw [run_append]
  refine trace_taken (P := fun s => Inv s ∧ Connected slave s)
    (C := fun s l => NoStaleRead s l ∧ Answered L slave s l) ?_ ?_ ?_
    ⟨run_invariant step_inv initial.inv hbefore, hconnected⟩
    (along_and hafter refreshed.answered) item (refreshed.taken item hitem)
  · exact fun s l hp hc => (step_current hs hp.1 hp.2 hc.2).1
  · exact fun s l hp hc => (step_current hs hp.1 hp.2 hc.2).2
  · exact fun s l hp hc => ⟨step_inv s l hp.1 hc.1, hp.2.step l⟩

/-- The words of the regulator, by the numbers that the page gives them. -/
def wordOf (alMan : AlarmManager) : Word → BitVec 32
  | .logic i => (alMan.mpuiLogicErrors[i]?).getD 0
  | .field j => (alMan.mpuiFieldQStates[j]?).getD 0

/-- Only the words of the page are displayed. -/
theorem activeText_congr {c : Config} (allocated : LogicAlarms.Allocated c) (t : Texts)
    {held held' : Word → BitVec 32} (same : ∀ word, Kept c word → held word = held' word) :
    activeText c t held = activeText c t held' := by
  have halarms : setAlarms c held = setAlarms c held' := by
    apply List.filter_congr
    intro e he
    have hkept : Kept c (.logic (e / 32)) := by
      have hlt := List.mem_range.mp he
      have hall : c.NUM_ALARMS ≤ 32 * (words c).muiNumLogicErrorInts := allocated
      simp only [Kept]
      omega
    rw [same _ hkept]
  have hstates : errorStates c held = errorStates c held' := by
    apply List.filterMap_congr
    intro n hn
    have hkept : Kept c (.field (n / 16)) := by
      have hlt := List.mem_range.mp hn
      simp only [Kept]
      omega
    rw [errorState, errorState, same _ hkept]
  rw [activeText, activeText, halarms, hstates]

/-- Each word of the page is published, on the channel of its number. -/
theorem word_published {alMan : AlarmManager}
    (logic : alMan.mpuiLogicErrors.length = Config.regulator.muiNumLogicErrorInts)
    (field : alMan.mpuiFieldQStates.length = Config.regulator.muiNumFieldQStatesInts)
    {word : Word} (kept : Kept Config.regulator word) :
    ∃ i, 1 ≤ i ∧ i ≤ counts.total ∧ intIDOf Config.regulator word = BitVec.ofNat 32 i ∧
      (BitVec.ofNat 8 i, wordOf alMan word) ∈ ScanLoop.updateOutputs .regulator alMan := by
  have hlogic : (words Config.regulator).muiNumLogicErrorInts = 1 := by decide
  have hfield : (words Config.regulator).muiNumFieldQStatesInts = 3 := by decide
  have htotal : counts.total = 4 := by decide
  have hfour : Config.regulator.muiNumFieldQStatesInts = 4 := by decide
  have hone : Config.regulator.muiNumLogicErrorInts = 1 := by decide
  cases word with
  | logic i =>
    simp only [Kept] at kept
    refine ⟨i + 1, by omega, by omega, rfl, ?_⟩
    refine List.mem_append_left _ (List.mem_map.mpr ⟨(wordOf alMan (.logic i), i), ?_, rfl⟩)
    rw [List.mem_zipIdx_iff_getElem?, wordOf, List.getElem?_eq_getElem (by omega)]
    rfl
  | field j =>
    simp only [Kept] at kept
    refine ⟨j + 1 + 1, by omega, by omega, ?_, ?_⟩
    · rw [intIDOf, hlogic]
    · refine List.mem_append_right _ (List.mem_map.mpr ⟨(wordOf alMan (.field j), j), ?_, ?_⟩)
      · rw [List.mem_zipIdx_iff_getElem?, wordOf, List.getElem?_eq_getElem (by omega)]
        rfl
      · rw [hone]

/-- The window is open and shows the outputs of the slave, those of the field,
the forced value of a variable that is forced, and the alarms. A variable is
shown by the ID that the file of the HMI has for its address. -/
structure ShowsRegulator (L : FloatAbcd) (p : Parsed) (t : Texts) (slave : ModbusSlaveDrv)
    (img : IOImage) (alMan : AlarmManager) (w : Window Q) : Prop where
  shown : w.shown = true
  slaveOut : ∀ var ∈ img.mSlaveOut.reduceOption, var.mtAddr ∈ p.slaveVarsToUpdate →
    ∀ uiID, Declared p uiID var.mtAddr →
      ∃ fVal, Single.Same fVal var.mfTrueVal ∧ w.views.Shows uiID fVal
  fieldOut : ∀ var ∈ img.mFieldOut.reduceOption, ∀ c,
    slave.mFieldVars.lookup var.muiVarId = some c → c ∈ p.fieldVarsToUpdate →
      ∀ uiID, Declared p uiID c → ∃ fVal,
        Single.Same fVal (if slave.getForced (slave.numVar c) then
          slave.getForcedVal L (slave.numVar c) else var.mfTrueVal) ∧ w.views.Shows uiID fVal
  alarms : w.alarms.txtEditActive = activeText Config.regulator t (wordOf alMan)

section Open
variable {L : FloatAbcd} {slave : ModbusSlaveDrv} {p : Parsed} {NumROInts NumIOVars : BitVec 32}
  {t : Texts} {h : Hmi Q} {w : Window Q}

/-- All polled variables have been reported. -/
theorem UpToDate.reported (upToDate : UpToDate L slave h w.hmi.system) (told : Told p t h w)
    (hinit : StartUp.Initial p NumROInts NumIOVars h) (mapped : p.Mapped NumROInts NumIOVars) :
    h.polled ⊆ w.hmi.reported := by
  intro tAddr hmem
  have hreportable : tAddr ∈ w.hmi.reportable := by
    rw [told.counting.tables.reportable]
    refine (hinit.mem_reportable tAddr).mpr ?_
    rcases (hinit.mem_polled tAddr).mp hmem with hmodbus | ⟨hin, hlow, hhigh⟩
    · exact Or.inl hmodbus
    · exact Or.inr ⟨hin, hlow, (mapped.field tAddr hin).2.1, hhigh⟩
  obtain ⟨rec, hrec⟩ := Option.isSome_iff_exists.mp (Finset.mem_filter.mp hreportable).2
  obtain ⟨_, g, hg, _⟩ := upToDate.told hrec
  exact told.reported tAddr (by rw [hg]; exact Option.some_ne_none g)

/-- The page of the alarms has the words of the regulator. -/
theorem UpToDate.alarms (upToDate : UpToDate L slave h w.hmi.system) (told : Told p t h w)
    (hinit : StartUp.Initial p NumROInts NumIOVars h) (mapped : p.Mapped NumROInts NumIOVars)
    {alMan : AlarmManager}
    (logic : alMan.mpuiLogicErrors.length = Config.regulator.muiNumLogicErrorInts)
    (field : alMan.mpuiFieldQStates.length = Config.regulator.muiNumFieldQStatesInts)
    (published : ∀ it ∈ ScanLoop.updateOutputs .regulator alMan,
      modbusReading L slave { uiChannel := it.1 } = .roInt it.2) :
    w.alarms.txtEditActive = activeText Config.regulator t (wordOf alMan) := by
  have hword : ∀ word, Kept Config.regulator word →
      ShowsWord t w.alarms (intIDOf Config.regulator word) (wordOf alMan word) := by
    intro word kept
    obtain ⟨i, hlow, hhigh, hid, hpublished⟩ := word_published logic field kept
    have htotal : counts.total = 4 := by decide
    have hchannel : (channelAddr i).uiChannel.toNat = i := toNat_channelAddr (by omega)
    have hmem : channelAddr i ∈ p.usSlaveVarsToUpdate :=
      Finset.mem_union_right _ (List.mem_toFinset.mpr
        ((mem_usSlaveVarsToUpdate counts _).mpr ⟨i, hlow, hhigh, rfl⟩))
    obtain ⟨intID, hemitted⟩ := upToDate.word hinit
      ((hinit.modbus _).mpr ⟨hmem, mapped.slave _ hmem⟩)
      (by rw [hchannel]; exact ⟨hlow, hhigh⟩) (published _ hpublished)
    rw [hid]
    exact told.words i hlow hhigh _ intID hemitted
  have allocated : LogicAlarms.Allocated Config.regulator :=
    LogicAlarms.allocated_of_le _ (by decide)
  have hfirst : Kept Config.regulator (.logic 0) := by
    rw [Kept]
    decide
  rw [(hword (.logic 0) hfirst).2 ⟨.logic 0, hfirst, rfl⟩, active_eq allocated]
  exact activeText_congr allocated t (fun word kept => (hword word kept).1 word kept rfl)

end Open

section Result
variable [PriorityQueue Q WriteReq WriteReq.Less]

/-- From an output phase of the regulator to the pages of the HMI, if its files
fit the slave: in every run from a successful `init` in which no variable is read
out before its polled value has been stored or in a communication error, with
polls, updates and actions of the operator in any order otherwise, once all
variables have been polled after the phase and their changes taken, the window is
open and shows what the phase has published. -/
theorem regulator_displayed {L : FloatAbcd} {little : Bool} {regIOInfo : Option (List Token)}
    {ip : String} {port : Int} {NumROInts NumIOVars : BitVec 32} {slaveVars fieldVars : List IOAddr}
    {newTcp : Bool} {strerror : String} {h : Hmi Q}
    (hinit : init little regIOInfo
      (.ok (some ⟨some ip, some port, some NumROInts, some NumIOVars⟩)) slaveVars fieldVars newTcp
      strerror = some h)
    {p : Parsed} (hparse : parseRegIOInfo regIOInfo = some p) {slave slave' : ModbusSlaveDrv}
    {img : IOImage} {alMan : AlarmManager}
    (wired : PublishedImage.Wired slave (PublishedImage.outputs img alMan))
    (phase : slave' = (img.updateOutputs L (some alMan) slave).2.1)
    (logic : alMan.mpuiLogicErrors.length = Config.regulator.muiNumLogicErrorInts)
    (field : alMan.mpuiFieldQStates.length = Config.regulator.muiNumFieldQStatesInts)
    (fits : Fits p little NumROInts NumIOVars slave') (ranges : ControlPanel.Ranges)
    (memory : Views.Memory) (logicMemory fieldMemory : Nat → BitVec 32) (t : Texts)
    {before es : List Event}
    (refreshed : Refreshed L h.system slave' (labels before) (labels es)) :
    ShowsRegulator L p t slave img alMan
      (run (step (OperatorDesk.imageOf ranges h) t)
        ⟨h, .construct (OperatorDesk.imageOf ranges h) memory, .construct _ logicMemory fieldMemory⟩
        (before ++ es)) := by
  obtain ⟨p', hparse', hinitial⟩ := init_initial hinit
  obtain rfl := Option.some.inj (hparse'.symm.trans hparse)
  obtain ⟨hfresh, hsilent, hlittle, hroInts⟩ := init_system hinit
  have hs : RegisterMap.Initialised slave' := by
    rw [phase]
    exact (PublishedImage.output_published (L := L) wired).1
  have hconnected := connected_init hinitial (hlittle.trans fits.little) hroInts fits.roInts
    fits.ioVars
  obtain ⟨hslave, hfield, hro⟩ := PublishedImage.readings_published (L := L) wired phase
  -- the pages have been told all that the system has emitted
  have htold : Told _ t _ (run (step (OperatorDesk.imageOf ranges h) t) _ _) :=
    told_run hinitial fits.apart hsilent (.construct (OperatorDesk.imageOf ranges h) memory)
      (.construct _ logicMemory fieldMemory) (before ++ es)
  have hhmi := hmi_run (OperatorDesk.imageOf ranges h) t
    ⟨h, .construct (OperatorDesk.imageOf ranges h) memory, .construct _ logicMemory fieldMemory⟩
    (before ++ es)
  rw [labels_append] at hhmi
  generalize run (step (OperatorDesk.imageOf ranges h) t) _ (before ++ es) = w at htold hhmi ⊢
  have hupToDate : UpToDate L slave' h w.hmi.system := by
    obtain ⟨hinv, hcurrent⟩ := refreshed.current hs hfresh hconnected
    have hquiet := refreshed.quiet
    rw [← system_run, ← hhmi] at hinv hcurrent hquiet
    exact ⟨htold.counting.tables, hinv, hquiet, hcurrent⟩
  refine ⟨?_, ?_, ?_, hupToDate.alarms htold hinitial fits.mapped logic field hro⟩
  · have hreported := hupToDate.reported htold hinitial fits.mapped
    rw [hhmi] at hreported
    rw [Window.shown, hhmi, hinitial.prompt (hinitial.awaited_iff.mpr fits.mapped) _ hreported]
    rfl
  · intro var hvar hmem uiID declared
    have hkey : var.mtAddr ∈ h.system.driver.mModbusVars.map Prod.fst := by
      have hmem' : var.mtAddr ∈ p'.usSlaveVarsToUpdate := Finset.mem_union_left _ hmem
      exact (hinitial.modbus _).mpr ⟨hmem', fits.mapped.slave _ hmem'⟩
    obtain ⟨var', hvar', hsame⟩ :=
      hupToDate.slaveVar hinitial hkey declared.high (hslave var hvar)
    exact ⟨_, hsame, htold.vars uiID _ declared var' hvar'⟩
  · intro var hvar c hfind hmem uiID declared
    obtain ⟨var', hvar', hsame⟩ := hupToDate.fieldVar hinitial fits.mapped hmem
    rw [hfield var hvar c hfind] at hsame
    exact ⟨_, hsame, htold.vars uiID _ declared var' hvar'⟩

end Result

def wideSlave : ModbusSlaveDrv :=
  { mbArchLittleEnd := true, mFieldVars := [(ZC_REG_PWSP, channelAddr 12)]
    mstrServerIp := "127.0.0.1", miPort := 502, muiNumIOVars := 8, muiNumROInts := 5
    mpMBCtx := some ("127.0.0.1", 502)
    mpMBmapping := .newStartAddress 1 8 10001 16 40001 32 30001 42
    uiComErrors := 0, mtDrvState := .stopped, mstrLastError := "" }

/-- 50.0 and 400.0. -/
def wideImage : IOImage :=
  { IOImage.construct with
    mSlaveOut := [some { TableBounds.varAt SE_REG_F1 (channelAddr 6) with mfTrueVal := 0x42480000 }]
    mFieldOut := [some { TableBounds.varAt ZC_REG_PWSP {} with mfTrueVal := 0x43c80000 }] }

def twoErrors : AlarmManager := ⟨false, [0x80000000], [0x40000000, 0, 0, 0], [],
  fun _ => 0⟩

def widePublished : ModbusSlaveDrv :=
  (wideImage.updateOutputs floatAbcd (some twoErrors) wideSlave).2.1

def wideFile : List Token :=
  [(SE_REG_F1, Fr.R, 6#8), (SE_REG_F2, Fr.R, 7#8), (SE_REG_F3, Fr.R, 8#8),
    (ZR_REG_PWSP, Fr.R, 9#8), (ZR_REG_OPSP, Fr.R, 10#8), (ZC_REG_SSP, Fr.F, 11#8),
    (ZC_REG_PWSP, Fr.F, 12#8), (ZC_REG_OPSP, Fr.F, 13#8)].flatMap
      (fun v => [.var (some (v.1, some v.2.1)), .other, .remAddr (some (0, 0, v.2.2)),
        .hmi (some (some .RW)), .other])

def modbusChannels : List Nat := [1, 2, 3, 4, 6, 7, 8, 9, 10]

def fieldChannels : List Nat := [11, 12, 13]

def wideInit : Option (Hmi (WriteReq.Queue true)) :=
  init true (some wideFile) (.ok (some ⟨some "192.168.1.34", some (-1), some 5, some 8⟩))
    (modbusChannels.map channelAddr) (fieldChannels.map channelAddr) true ""

theorem wide_parses : (parseRegIOInfo (some wideFile)).isSome = true := by
  decide +kernel

theorem wide_initialised : wideInit.isSome = true := by
  decide +kernel

/-- The field variables, then those of the slave with an update in between, and
the operator opens no page before the window is shown. -/
def wideEvents : List Event :=
  (fieldChannels.zipIdx.flatMap (fun v =>
      [.pollField v.2 (fieldReading floatAbcd widePublished (channelAddr v.1)), .store])).map
        .image ++
    [.act (.selectionChanged none), .image .updateImage, .image .getChangedVars] ++
    (modbusChannels.zipIdx.flatMap (fun v =>
      [.pollModbus v.2 (modbusReading floatAbcd widePublished (channelAddr v.1)) 0, .store])).map
        .image ++
    (fieldChannels.map (fun i => ChangeNotification.Label.read (channelAddr i))).map .image ++
    [.image .endUpdate, .image .updateImage, .image .getChangedVars] ++
    (modbusChannels.map (fun i => ChangeNotification.Label.read (channelAddr i))).map .image

/-- A running driver outside of `processRead` has nothing stale. -/
def readsSettled {Q : Type} (s : System Q) : ChangeNotification.Label → Bool
  | .read _ => s.inRead.isNone && decide (s.driver.mtDrvState = .running)
  | _ => true

theorem noStale_of_settled {Q : Type} (s : System Q) (l : ChangeNotification.Label)
    (h : readsSettled s l = true) : NoStaleRead s l := by
  cases l with
  | read a =>
    intro _ _ rec rec' hrec hrec' _
    simp only [readsSettled, Bool.and_eq_true, Option.isNone_iff_eq_none, decide_eq_true_eq] at h
    rw [settled_of_none h.1] at hrec'
    obtain rfl := Option.some.inj (hrec.symm.trans hrec')
    rw [h.2]
    exact Signal.agrees_refl _
  | _ => trivial

/-- The answer is that of a bus on which nothing is lost. -/
def readsDirect {Q : Type} (slave : ModbusSlaveDrv) (s : System Q) :
    ChangeNotification.Label → Bool
  | .pollField i r => (s.driver.mFieldVars[i]?).all (fun it =>
      decide (fetchField floatAbcd s.driver.mbArchLittleEnd s.driver.muiNumROInts
        (directBus slave.mpMBmapping) it.1 = some r))
  | .pollModbus i r _ => (s.driver.mModbusVars[i]?).all (fun it =>
      decide (fetchModbus floatAbcd s.driver.mbArchLittleEnd s.driver.muiNumROInts
        (directBus slave.mpMBmapping) it.1 = some r))
  | _ => true

theorem answered_of_direct {Q : Type} {slave : ModbusSlaveDrv} (s : System Q)
    (l : ChangeNotification.Label) (h : readsDirect slave s l = true) :
    Answered floatAbcd slave s l := by
  cases l with
  | pollField i r =>
    intro _ tAddr p hi
    rw [readsDirect, hi] at h
    exact ⟨_, directBus_serves _, of_decide_eq_true h⟩
  | pollModbus i r now =>
    intro _ tAddr p hi
    rw [readsDirect, hi] at h
    exact ⟨_, directBus_serves _, of_decide_eq_true h⟩
  | _ => trivial

theorem wide_wired :
    PublishedImage.Wired wideSlave (PublishedImage.outputs wideImage twoErrors) := by
  have hcalls : PublishedImage.outputs wideImage twoErrors =
      [.write { TableBounds.varAt SE_REG_F1 (channelAddr 6) with mfTrueVal := 0x42480000 },
        .updateFieldVar { TableBounds.varAt ZC_REG_PWSP {} with mfTrueVal := 0x43c80000 },
        .writeRO (1, 0x80000000), .writeRO (2, 0x40000000), .writeRO (3, 0), .writeRO (4, 0),
        .writeRO (5, 0)] := rfl
  refine ⟨⟨⟨by decide, by decide, by decide, by decide, by decide⟩, by decide⟩, ?_, ?_⟩
  · rw [hcalls]
    simp only [List.forall_mem_cons]
    refine ⟨⟨by decide, by decide⟩, ⟨channelAddr 12, by decide, by decide, by decide⟩,
      ⟨by decide, by decide⟩, ⟨by decide, by decide⟩, ⟨by decide, by decide⟩,
      ⟨by decide, by decide⟩, ⟨by decide, by decide⟩, fun _ h => absurd h List.not_mem_nil⟩
  · rw [hcalls]
    decide

theorem wide_fits :
    Fits ((parseRegIOInfo (some wideFile)).get wide_parses) true 5 8 widePublished := by
  refine ⟨⟨by decide +kernel, by decide +kernel, by decide +kernel⟩, ?_, by decide +kernel,
    by decide +kernel, by decide +kernel⟩
  unfold Apart
  decide +kernel

theorem wide_refreshed : Refreshed floatAbcd (wideInit.get wide_initialised).system widePublished
    (labels [.image (.enter .running)]) (labels wideEvents) where
  noStale := along_mono noStale_of_settled (by decide +kernel)
  answered := along_mono answered_of_direct (by decide +kernel)
  taken := by decide +kernel
  quiet := ⟨Option.isNone_iff_eq_none.mp (by decide +kernel), by decide +kernel, by decide +kernel⟩

def wideWindow : Window (WriteReq.Queue true) :=
  run (step (OperatorDesk.imageOf ⟨fun _ => ⟨0, 0⟩, fun _ => ⟨0, 0⟩⟩
      (wideInit.get wide_initialised)) numbered)
    ⟨wideInit.get wide_initialised,
      .construct (OperatorDesk.imageOf ⟨fun _ => ⟨0, 0⟩, fun _ => ⟨0, 0⟩⟩
        (wideInit.get wide_initialised)) ⟨⟨0, true, 0, 0, 0⟩, fun _ => ⟨0, 0, 0, 0, 0⟩, fun _ => 0⟩,
      .construct _ (fun _ => 0) (fun _ => 0)⟩
    ([.image (.enter .running)] ++ wideEvents)

/-- The frequency, the set point of the power and both errors. -/
theorem wide_displayed : wideWindow.shown = true ∧
    (∃ fVal, Single.Same fVal 0x42480000 ∧ wideWindow.views.Shows SE_REG_F1 fVal) ∧
    (∃ fVal, Single.Same fVal 0x43c80000 ∧ wideWindow.views.Shows ZC_REG_PWSP fVal) ∧
    wideWindow.alarms.txtEditActive =
      activeText Config.regulator numbered (wordOf twoErrors) := by
  obtain ⟨hshown, hslave, hfield, halarms⟩ := regulator_displayed
    (Option.some_get wide_initialised).symm (Option.some_get wide_parses).symm wide_wired rfl rfl
    rfl wide_fits ⟨fun _ => ⟨0, 0⟩, fun _ => ⟨0, 0⟩⟩
    ⟨⟨0, true, 0, 0, 0⟩, fun _ => ⟨0, 0, 0, 0, 0⟩, fun _ => 0⟩ (fun _ => 0) (fun _ => 0) numbered
    wide_refreshed
  refine ⟨hshown, ?_, ?_, halarms⟩
  · exact hslave { TableBounds.varAt SE_REG_F1 (channelAddr 6) with mfTrueVal := 0x42480000 }
      (List.mem_singleton_self _) (by decide +kernel) SE_REG_F1
      (OperatorDesk.declared_of (channelAddr 6) (by decide +kernel) (by decide +kernel) (by decide))
  · have hvalue := hfield { TableBounds.varAt ZC_REG_PWSP {} with mfTrueVal := 0x43c80000 }
      (List.mem_singleton_self _) (channelAddr 12) rfl (by decide +kernel) ZC_REG_PWSP
      (OperatorDesk.declared_of (channelAddr 12) (by decide +kernel) (by decide +kernel)
        (by decide))
    have hforced : wideSlave.getForced (wideSlave.numVar (channelAddr 12)) = false := by
      decide +kernel
    rw [hforced] at hvalue
    exact hvalue

end ViewRefresh
