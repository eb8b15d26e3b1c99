import TurbineGovernor.PollingCoverage
import TurbineGovernor.PublishedImage

/-!
# The master's tables mirror the slave

As long as the tables of the slave stay the same, a variable that has been read
holds what they hold, however many reads fail and whatever the HMI asks for. A
round reads every variable, so that after it the master has the whole image of
the regulator.
-/

namespace MirroredTables
open CommonTypes SlaveDriver PriorityQueues KeyedTables TransitionRuns CyclicScans MasterDriver
open RegisterMap hiding Initialised
open PollingCoverage

variable {L : FloatAbcd} {Q : Type}

/-- The values of the tables and what is needed to decode more. -/
structure SameValues (d d' : ModbusMasterDrv Q) : Prop where
  little : d'.mbArchLittleEnd = d.mbArchLittleEnd
  roInts : d'.muiNumROInts = d.muiNumROInts
  field : d'.mFieldVars = d.mFieldVars
  modbus : d'.mModbusVars = d.mModbusVars

theorem SameValues.refl (d : ModbusMasterDrv Q) : SameValues d d := ⟨rfl, rfl, rfl, rfl⟩

theorem SameValues.trans {d d' d'' : ModbusMasterDrv Q} (h : SameValues d d')
    (h' : SameValues d' d'') : SameValues d d'' :=
  ⟨h'.little.trans h.little, h'.roInts.trans h.roInts, h'.field.trans h.field,
    h'.modbus.trans h.modbus⟩

/-- A step takes nothing and stores nothing, or takes the variable at an
iterator and stores the answer of the bus there. -/
inductive Stores (L : FloatAbcd) (bus : Bus) (d d' : ModbusMasterDrv Q)
    (events : List (Event Polled)) : Prop where
  | nothing (same : SameValues d d') (quiet : ∀ e, .take e ∉ events)
  | field (i : Nat) (tAddr : IOAddr) (p p' : FieldData) (r : FieldReading)
      (hit : d.mFieldVars[i]? = some (tAddr, p))
      (read : fetchField L d.mbArchLittleEnd d.muiNumROInts bus tAddr = some r)
      (same : SameValues { d with mFieldVars := d.mFieldVars.set i (tAddr, storeField p' r) } d')
      (taken : events = [.take (.field tAddr)])
  | modbus (i : Nat) (tAddr : IOAddr) (p p' : ModbusData) (now : Int) (r : ModbusReading)
      (hit : d.mModbusVars[i]? = some (tAddr, p))
      (read : fetchModbus L d.mbArchLittleEnd d.muiNumROInts bus tAddr = some r)
      (same : SameValues
        { d with mModbusVars := d.mModbusVars.set i (tAddr, storeModbus p' now r) } d')
      (taken : events = [.take (.modbus tAddr)])

/-- An entry that is marked and then stored is replaced. -/
theorem modify_set {V : Type} (vars : List V) {i : Nat} {v v' : V} (f : V → V)
    (hit : vars[i]? = some v) : (vars.set i v').modify i f = vars.set i (f v') := by
  apply List.ext_getElem?
  intro j
  rw [List.getElem?_modify]
  by_cases hj : i = j
  · subst hj
    have hlt := (List.getElem?_eq_some_iff.mp hit).1
    rw [List.getElem?_set_self hlt, List.getElem?_set_self hlt]
    simp
  · rw [List.getElem?_set_ne hj, List.getElem?_set_ne hj]
    simp [hj]

theorem modify_hit {V : Type} {vars : List V} {i : Nat} {v : V} (f : V → V)
    (hit : vars[i]? = some v) : vars.modify i f = vars.set i (f v) := by
  obtain ⟨hlt, hget⟩ := List.getElem?_eq_some_iff.mp hit
  rw [List.modify_eq_set_getElem?, hit]
  rfl

theorem processReadField_stores (d : ModbusMasterDrv Q) (env : Env) {tAddr : IOAddr}
    {p : FieldData} (hit : d.mFieldVars[d.mFieldIt]? = some (tAddr, p)) :
    ((d.processReadField L env tAddr p).1 = false ∧
        SameValues d (d.processReadField L env tAddr p).2) ∨
      ((d.processReadField L env tAddr p).1 = true ∧
        Stores L env.bus d (d.processReadField L env tAddr p).2 [.take (.field tAddr)]) := by
  cases hread : fetchField L d.mbArchLittleEnd d.muiNumROInts env.bus tAddr with
  | none =>
    simp only [ModbusMasterDrv.processReadField, hread]
    exact Or.inl ⟨trivial, rfl, rfl, rfl, rfl⟩
  | some r =>
    simp only [ModbusMasterDrv.processReadField, hread]
    by_cases hchanged : fieldChanged p r = true
    · rw [if_pos hchanged]
      exact Or.inr ⟨trivial,
        .field d.mFieldIt tAddr p { p with mbForceChangeDetection := false } r hit hread
        ⟨rfl, rfl, modify_set _ _ hit, rfl⟩ rfl⟩
    · rw [if_neg hchanged]
      exact Or.inr ⟨trivial, .field d.mFieldIt tAddr p p r hit hread
        ⟨rfl, rfl, modify_hit _ hit, rfl⟩ rfl⟩

theorem processReadModbus_stores (d : ModbusMasterDrv Q) (env : Env) {tAddr : IOAddr}
    {p : ModbusData} (hit : d.mModbusVars[d.mModbusIt]? = some (tAddr, p)) :
    ((d.processReadModbus L env tAddr p).1 = false ∧
        SameValues d (d.processReadModbus L env tAddr p).2) ∨
      ((d.processReadModbus L env tAddr p).1 = true ∧
        Stores L env.bus d (d.processReadModbus L env tAddr p).2 [.take (.modbus tAddr)]) := by
  cases hread : fetchModbus L d.mbArchLittleEnd d.muiNumROInts env.bus tAddr with
  | none =>
    simp only [ModbusMasterDrv.processReadModbus, hread]
    exact Or.inl ⟨trivial, rfl, rfl, rfl, rfl⟩
  | some r =>
    simp only [ModbusMasterDrv.processReadModbus, hread]
    by_cases hchanged : modbusChanged p r = true
    · rw [if_pos hchanged]
      exact Or.inr ⟨trivial, .modbus d.mModbusIt tAddr p { p with mbForceChangeDetection := false }
        env.msSinceEpoch r hit hread ⟨rfl, rfl, rfl, modify_set _ _ hit⟩ rfl⟩
    · rw [if_neg hchanged]
      exact Or.inr ⟨trivial, .modbus d.mModbusIt tAddr p p env.msSinceEpoch r hit hread
        ⟨rfl, rfl, rfl, modify_hit _ hit⟩ rfl⟩

theorem endOfCycle_values (d : ModbusMasterDrv Q) :
    SameValues d d.endOfCycle.2 ∧ ∀ e, .take e ∉ endEvents d := by
  constructor
  · unfold ModbusMasterDrv.endOfCycle
    split
    · simp only
      split <;> exact ⟨rfl, rfl, rfl, rfl⟩
    · exact .refl d
  · intro e
    simp only [endEvents]
    split <;> simp

theorem Stores.after {bus : Bus} {d d' d'' : ModbusMasterDrv Q} {events : List (Event Polled)}
    (h : Stores L bus d d' events) (same : SameValues d' d'') : Stores L bus d d'' events := by
  cases h with
  | nothing same' quiet => exact .nothing (same'.trans same) quiet
  | field i tAddr p p' r hit read same' taken =>
    exact .field i tAddr p p' r hit read (same'.trans same) taken
  | modbus i tAddr p p' now r hit read same' taken =>
    exact .modbus i tAddr p p' now r hit read (same'.trans same) taken

theorem nextRead_stores (d : ModbusMasterDrv Q) (env : Env) :
    Stores L env.bus d (d.processNextRead L env).2 (nextReadEvents L d env) := by
  simp only [ModbusMasterDrv.processNextRead, nextReadEvents]
  cases hfield : d.mFieldVars[d.mFieldIt]? with
  | some v =>
    obtain ⟨tAddr, p⟩ := v
    simp only
    rcases processReadField_stores (L := L) d env hfield with ⟨hno, same⟩ | ⟨hyes, stores⟩
    · rcases hread : d.processReadField L env tAddr p with ⟨ok, d'⟩
      rw [hread] at hno same
      simp only at hno same
      subst hno
      obtain ⟨hend, hquiet⟩ := endOfCycle_values d'
      exact .nothing (same.trans hend) hquiet
    · rcases hread : d.processReadField L env tAddr p with ⟨ok, d'⟩
      rw [hread] at hyes stores
      simp only at hyes stores
      subst hyes
      exact stores.after ⟨rfl, rfl, rfl, rfl⟩
  | none =>
    simp only
    cases hmodbus : d.mModbusVars[d.mModbusIt]? with
    | none =>
      obtain ⟨hend, hquiet⟩ := endOfCycle_values d
      exact .nothing hend hquiet
    | some v =>
      obtain ⟨tAddr, p⟩ := v
      simp only
      rcases processReadModbus_stores (L := L) d env hmodbus with ⟨hno, same⟩ | ⟨hyes, stores⟩
      · rcases hread : d.processReadModbus L env tAddr p with ⟨ok, d'⟩
        rw [hread] at hno same
        simp only at hno same
        subst hno
        obtain ⟨hend, hquiet⟩ := endOfCycle_values d'
        exact .nothing (same.trans hend) hquiet
      · rcases hread : d.processReadModbus L env tAddr p with ⟨ok, d'⟩
        rw [hread] at hyes stores
        simp only at hyes stores
        subst hyes
        exact stores.after ⟨rfl, rfl, rfl, rfl⟩

section Steps
variable [PriorityQueue Q WriteReq WriteReq.Less]

theorem serveCycle_stores (d : ModbusMasterDrv Q) (env : Env) :
    Stores L env.bus d (d.serveCycle L env).2 (serveEvents L d env) := by
  have quiet : ∀ e : Polled, Event.take e ∉ ([] : List (Event Polled)) :=
    fun e h => absurd h List.not_mem_nil
  simp only [serveEvents, ModbusMasterDrv.serveCycle]
  by_cases hwrite : d.mbInWriteCycle = true
  · rw [if_pos hwrite, if_pos hwrite]
    split
    · exact .nothing ⟨rfl, rfl, rfl, rfl⟩ quiet
    · obtain ⟨q, gone, _, _, _, ⟨_, h⟩ | ⟨wr, _, h | h⟩⟩ := d.processNextWrite_cases (L := L) env
      all_goals
        rw [h]
        exact .nothing ⟨rfl, rfl, rfl, rfl⟩ quiet
  · rw [if_neg hwrite, if_neg hwrite]
    by_cases hread : d.mbInReadCycle = true
    · rw [if_pos hread, if_pos hread]
      exact nextRead_stores d env
    · rw [if_neg hread, if_neg hread]
      exact .nothing (.refl d) quiet

theorem submit_values (d : ModbusMasterDrv Q) (wr : WriteReq) : SameValues d (d.submit wr).2 := by
  rcases d.submit_cases wr with heq | ⟨_, _, heq⟩ <;>
  · rw [heq]
    exact ⟨rfl, rfl, rfl, rfl⟩

theorem turn_stores (d : ModbusMasterDrv Q) (env : Env) :
    Stores L env.bus d (d.driverLoop L env) (turnEvents L d env) := by
  have quiet : ¬ (d.mtDrvState = .running ∧ d.bConnected = true) →
      SameValues d (d.driverLoop L env) →
      Stores L env.bus d (d.driverLoop L env) (turnEvents L d env) := by
    intro hoff same
    rw [turnEvents, if_neg hoff]
    exact .nothing same (fun e h => absurd h List.not_mem_nil)
  rcases d.driverLoop_cases (L := L) env with
    ⟨hidle, heq⟩ | ⟨hrun, hconn, heq⟩ | ⟨hoff, st, conn, errors, text, extra, _, _, heq⟩ |
    ⟨hcom, errors, text, extra, _, heq⟩
  · refine quiet ?_ (by rw [heq]; exact .refl d)
    rintro ⟨hrun, _⟩
    rw [hrun] at hidle
    rcases hidle with hidle | hidle <;> cases hidle
  · rw [turnEvents, if_pos ⟨hrun, hconn⟩, heq]
    have stores := serveCycle_stores (L := L) (d.updateCycles env.timePoint) env
    generalize ((d.updateCycles env.timePoint).serveCycle L env) = served at stores ⊢
    -- the clock arithmetic before and the state after do not concern the tables
    cases stores with
    | nothing same hquiet =>
      exact .nothing ⟨same.little, same.roInts, same.field, same.modbus⟩ hquiet
    | field i tAddr p p' r hit read same taken =>
      exact .field i tAddr p p' r hit read ⟨same.little, same.roInts, same.field, same.modbus⟩ taken
    | modbus i tAddr p p' now r hit read same taken =>
      exact .modbus i tAddr p p' now r hit read
        ⟨same.little, same.roInts, same.field, same.modbus⟩ taken
  · exact quiet hoff (by rw [heq]; exact ⟨rfl, rfl, rfl, rfl⟩)
  · refine quiet (fun hon => by rw [hcom] at hon; cases hon.1) ?_
    obtain ⟨q, gone, hclean, _⟩ := ModbusMasterDrv.cleanWriteRequests_spec { d with
      uiComErrors := errors, mstrLastError := text, calls := d.calls ++ extra }
      env.msSinceEpoch false
    rw [heq, hclean]
    exact ⟨rfl, rfl, rfl, rfl⟩

/-- Only turns of the thread store anything before the driver is closed. -/
theorem step_stores {items : List Polled} {d : ModbusMasterDrv Q}
    (h : PollingCoverage.Initialised items d) {op : Op} (hop : BeforeClose op) :
    (∃ env, op = .turn env ∧ Stores L env.bus d (d.step L op) (events L d op)) ∨
      (SameValues d (d.step L op) ∧ events L d op = []) := by
  have stays : SameValues d d := .refl d
  cases op with
  | turn env =>
    refine Or.inl ⟨env, rfl, ?_⟩
    simp only [events, ModbusMasterDrv.step]
    by_cases hd : d.destroyed = true
    · rw [if_pos hd, if_pos hd]
      exact .nothing stays (fun e h => absurd h List.not_mem_nil)
    · rw [if_neg hd, if_neg hd]
      exact turn_stores d env
  | init file slaveVars fieldVars newTcp strerror =>
    refine Or.inr ⟨ModbusMasterDrv.guarded (P := SameValues d) stays (fun _ => ?_), rfl⟩
    simp only [ModbusMasterDrv.init]
    rw [if_pos h.state]
    exact ⟨rfl, rfl, rfl, rfl⟩
  | start now =>
    refine Or.inr ⟨ModbusMasterDrv.guarded (P := SameValues d) stays (fun _ => ?_), rfl⟩
    simp only [ModbusMasterDrv.start]
    split
    · exact stays
    split <;> exact ⟨rfl, rfl, rfl, rfl⟩
  | stop now =>
    refine Or.inr ⟨ModbusMasterDrv.guarded (P := SameValues d) stays (fun _ => ?_), rfl⟩
    simp only [ModbusMasterDrv.stop]
    split
    · exact stays
    split
    · exact stays
    · obtain ⟨q, gone, heq, _⟩ := d.cleanWriteRequests_spec now true
      rw [heq, ModbusMasterDrv.closeConnection_eq]
      exact ⟨rfl, rfl, rfl, rfl⟩
  | close now => exact hop.elim
  | write fVal tAddr tWriteTimeOut now =>
    refine Or.inr ⟨ModbusMasterDrv.guarded (P := SameValues d) stays (fun _ => ?_), rfl⟩
    exact submit_values d _
  | force fVal tAddr bForceBitVal tWriteTimeOut now =>
    refine Or.inr ⟨ModbusMasterDrv.guarded (P := SameValues d) stays (fun _ => ?_), rfl⟩
    exact submit_values d _
  | getChangedVars =>
    exact Or.inr ⟨ModbusMasterDrv.guarded (P := SameValues d) stays
      (fun _ => ⟨rfl, rfl, rfl, rfl⟩), rfl⟩
  | beginDestructor => exact Or.inr ⟨⟨rfl, rfl, rfl, rfl⟩, rfl⟩
  | finishDestructor now => exact hop.elim

end Steps

def HoldsField (r : FieldReading) (p : FieldData) : Prop := storeField p r = p

def HoldsModbus (r : ModbusReading) (p : ModbusData) : Prop := ∃ now, storeModbus p now r = p

/-- The entry of a variable holds what the tables of the slave hold. -/
def Mirrored (L : FloatAbcd) (s : ModbusSlaveDrv) : Polled → ModbusMasterDrv Q → Prop
  | .field tAddr, d => ∀ p, (tAddr, p) ∈ d.mFieldVars → HoldsField (fieldReading L s tAddr) p
  | .modbus tAddr, d => ∀ p, (tAddr, p) ∈ d.mModbusVars → HoldsModbus (modbusReading L s tAddr) p

/-- The master decodes as the slave encodes, and polls channels of its map. -/
structure Fits (s : ModbusSlaveDrv) (items : List Polled) (d : ModbusMasterDrv Q) : Prop where
  scan : PollingCoverage.Initialised items d
  distinct : DistinctVars d
  little : d.mbArchLittleEnd = s.mbArchLittleEnd
  roInts : d.muiNumROInts = s.muiNumROInts

/-- The channels of the items are those of the slave's map. -/
structure InMap (s : ModbusSlaveDrv) (items : List Polled) : Prop where
  field : ∀ tAddr, .field tAddr ∈ items → InField s tAddr
  modbus : ∀ tAddr, .modbus tAddr ∈ items → InField s tAddr ∨ InRO s tAddr

/-- A step in which the slave answers from these tables. -/
def Answered (s : ModbusSlaveDrv) (op : Op) : Prop :=
  BeforeClose op ∧ ∀ env, op = .turn env → Serves s.mpMBmapping env.bus

/-- A replaced entry is the only one of its key. -/
theorem mem_set_unique {V : Type} {vars : List (IOAddr × V)} (unique : UniqueKeys vars) {i : Nat}
    {a a' : IOAddr} {v v' w : V} (hit : vars[i]? = some (a, v)) (h : (a', v') ∈ vars.set i (a, w)) :
    (a' = a ∧ v' = w) ∨ (a' ≠ a ∧ (a', v') ∈ vars) := by
  obtain ⟨j, hj⟩ := List.mem_iff_getElem?.mp h
  obtain ⟨hi, hgeti⟩ := List.getElem?_eq_some_iff.mp hit
  by_cases hij : i = j
  · subst hij
    rw [List.getElem?_set_self hi] at hj
    obtain ⟨rfl, rfl⟩ := Prod.mk.inj (Option.some.inj hj)
    exact Or.inl ⟨rfl, rfl⟩
  · rw [List.getElem?_set_ne hij] at hj
    refine Or.inr ⟨fun heq => hij ?_, List.mem_iff_getElem?.mpr ⟨j, hj⟩⟩
    have hkeyi : (vars.map Prod.fst)[i]? = some a := by rw [List.getElem?_map, hit]; rfl
    have hkeyj : (vars.map Prod.fst)[j]? = some a := by rw [List.getElem?_map, hj, ← heq]; rfl
    obtain ⟨hlt, hget⟩ := List.getElem?_eq_some_iff.mp hkeyi
    obtain ⟨hlt', hget'⟩ := List.getElem?_eq_some_iff.mp hkeyj
    exact unique.getElem_inj_iff.mp (hget.trans hget'.symm)

theorem mirrored_same {s : ModbusSlaveDrv} {d d' : ModbusMasterDrv Q} (same : SameValues d d')
    {e : Polled} (h : Mirrored L s e d) : Mirrored L s e d' := by
  cases e with
  | field tAddr =>
    intro p hp
    exact h p (same.field ▸ hp)
  | modbus tAddr =>
    intro p hp
    exact h p (same.modbus ▸ hp)

/-- A poll stores what the tables hold and leaves the other entries alone. -/
theorem stores_mirrors {s : ModbusSlaveDrv} (hs : RegisterMap.Initialised s) {items : List Polled}
    (inMap : InMap s items) {d d' : ModbusMasterDrv Q} (fits : Fits s items d) {bus : Bus}
    (serves : Serves s.mpMBmapping bus) {events : List (Event Polled)}
    (stores : Stores L bus d d' events) :
    (∀ e, .take e ∈ events → Mirrored L s e d') ∧ ∀ e, Mirrored L s e d → Mirrored L s e d' := by
  cases stores with
  | nothing same quiet => exact ⟨fun e he => absurd he (quiet e), fun e => mirrored_same same⟩
  | field i tAddr p p' r hit read same taken =>
    have hmem : (tAddr, p) ∈ d.mFieldVars := List.mem_of_getElem? hit
    have hitem : .field tAddr ∈ items := by
      rw [← fits.scan.scanning.tables]
      exact List.mem_append_left _ (List.mem_map_of_mem (List.mem_map_of_mem hmem))
    rw [fits.little, fits.roInts] at read
    obtain rfl := fetchField_serves hs (inMap.field tAddr hitem) serves read
    have hnew : ∀ q, (tAddr, q) ∈ d'.mFieldVars → HoldsField (fieldReading L s tAddr) q := by
      intro q hq
      rw [same.field] at hq
      rcases mem_set_unique fits.distinct.1 hit hq with ⟨_, rfl⟩ | ⟨hne, _⟩
      · rfl
      · exact absurd rfl hne
    subst taken
    refine ⟨?_, ?_⟩
    · intro e he
      obtain rfl := Event.take.inj (List.mem_singleton.mp he)
      exact hnew
    · intro e h
      cases e with
      | modbus tAddr' =>
        intro q hq
        exact h q (same.modbus ▸ hq)
      | field tAddr' =>
        intro q hq
        by_cases heq : tAddr' = tAddr
        · subst heq
          exact hnew q hq
        · rw [same.field] at hq
          rcases mem_set_unique fits.distinct.1 hit hq with ⟨hkey, _⟩ | ⟨_, hold⟩
          · exact absurd hkey heq
          · exact h q hold
  | modbus i tAddr p p' now r hit read same taken =>
    have hmem : (tAddr, p) ∈ d.mModbusVars := List.mem_of_getElem? hit
    have hitem : .modbus tAddr ∈ items := by
      rw [← fits.scan.scanning.tables]
      exact List.mem_append_right _ (List.mem_map_of_mem (List.mem_map_of_mem hmem))
    rw [fits.little, fits.roInts] at read
    obtain rfl := fetchModbus_serves hs (inMap.modbus tAddr hitem) serves read
    have hnew : ∀ q, (tAddr, q) ∈ d'.mModbusVars → HoldsModbus (modbusReading L s tAddr) q := by
      intro q hq
      rw [same.modbus] at hq
      rcases mem_set_unique fits.distinct.2 hit hq with ⟨_, rfl⟩ | ⟨hne, _⟩
      · refine ⟨now, ?_⟩
        cases modbusReading L s tAddr <;> rfl
      · exact absurd rfl hne
    subst taken
    refine ⟨?_, ?_⟩
    · intro e he
      obtain rfl := Event.take.inj (List.mem_singleton.mp he)
      exact hnew
    · intro e h
      cases e with
      | field tAddr' =>
        intro q hq
        exact h q (same.field ▸ hq)
      | modbus tAddr' =>
        intro q hq
        by_cases heq : tAddr' = tAddr
        · subst heq
          exact hnew q hq
        · rw [same.modbus] at hq
          rcases mem_set_unique fits.distinct.2 hit hq with ⟨hkey, _⟩ | ⟨_, hold⟩
          · exact absurd hkey heq
          · exact h q hold

/-- Every entry of the master's tables holds what the slave's tables hold. -/
def Mirrors (L : FloatAbcd) (s : ModbusSlaveDrv) (d : ModbusMasterDrv Q) : Prop :=
  (∀ tAddr p, (tAddr, p) ∈ d.mFieldVars → HoldsField (fieldReading L s tAddr) p) ∧
    ∀ tAddr p, (tAddr, p) ∈ d.mModbusVars → HoldsModbus (modbusReading L s tAddr) p

/-- What the tables of the master show of an image and of the alarms. -/
structure ShowsImage (s : ModbusSlaveDrv) (img : RegulatorImage.IOImage)
    (alMan : RegulatorAlarms.AlarmManager) (d : ModbusMasterDrv Q) : Prop where
  slaveOut : ∀ var ∈ img.mSlaveOut.reduceOption, ∀ p, (var.mtAddr, p) ∈ d.mModbusVars →
    p.mfCurrentVal = var.mfTrueVal ∧ p.mtQState = .ok
  fieldOut : ∀ var ∈ img.mFieldOut.reduceOption, ∀ c, s.mFieldVars.lookup var.muiVarId = some c →
    ∀ p, (c, p) ∈ d.mFieldVars → HoldsField (PublishedImage.published L s c var) p
  alarms : ∀ it ∈ ScanLoop.updateOutputs .regulator alMan, ∀ p,
    (({ uiChannel := it.1 } : IOAddr), p) ∈ d.mModbusVars →
      p.muiCurrentVal = it.2 ∧ p.mtQState = .ok

theorem showsImage_of_mirrors {s s' : ModbusSlaveDrv} {img : RegulatorImage.IOImage}
    {alMan : RegulatorAlarms.AlarmManager}
    (wired : PublishedImage.Wired s (PublishedImage.outputs img alMan))
    (phase : s' = (img.updateOutputs L (some alMan) s).2.1) {d : ModbusMasterDrv Q}
    (mirrors : Mirrors L s' d) : ShowsImage (L := L) s img alMan d := by
  obtain ⟨hslave, hfield, hro⟩ := PublishedImage.readings_published (L := L) wired phase
  refine ⟨?_, ?_, ?_⟩
  · intro var hvar p hp
    obtain ⟨now, hstored⟩ := mirrors.2 _ p hp
    rw [hslave var hvar] at hstored
    exact ⟨(congrArg ModbusData.mfCurrentVal hstored).symm,
      (congrArg ModbusData.mtQState hstored).symm⟩
  · intro var hvar c hfind p hp
    rw [← hfield var hvar c hfind]
    exact mirrors.1 c p hp
  · rintro ⟨uiChannel, uiVal⟩ hit p hp
    obtain ⟨now, hstored⟩ := mirrors.2 _ p hp
    rw [hro _ hit] at hstored
    exact ⟨(congrArg ModbusData.muiCurrentVal hstored).symm,
      (congrArg ModbusData.mtQState hstored).symm⟩

section Runs
variable [PriorityQueue Q WriteReq WriteReq.Less]

theorem step_mirrors {s : ModbusSlaveDrv} (hs : RegisterMap.Initialised s) {items : List Polled}
    (inMap : InMap s items) {d : ModbusMasterDrv Q} (fits : Fits s items d) {op : Op}
    (answered : Answered s op) :
    (∀ e, .take e ∈ events L d op → Mirrored L s e (d.step L op)) ∧
      ∀ e, Mirrored L s e d → Mirrored L s e (d.step L op) := by
  rcases step_stores (L := L) fits.scan answered.1 with ⟨env, hop, stores⟩ | ⟨same, hquiet⟩
  · exact stores_mirrors hs inMap fits (answered.2 env hop) stores
  · rw [hquiet]
    exact ⟨fun e he => absurd he List.not_mem_nil, fun e => mirrored_same same⟩

theorem fits_step {s : ModbusSlaveDrv} {items : List Polled} {d : ModbusMasterDrv Q}
    (fits : Fits s items d) {op : Op} (hop : BeforeClose op) : Fits s items (d.step L op) := by
  have hscan := (step_scans (L := L) fits.scan hop).2
  have hdistinct : DistinctVars (d.step L op) := distinct_kept.step d op fits.distinct
  rcases step_stores (L := L) fits.scan hop with ⟨env, _, stores⟩ | ⟨same, _⟩
  · cases stores with
    | nothing same quiet =>
      exact ⟨hscan, hdistinct, same.little.trans fits.little, same.roInts.trans fits.roInts⟩
    | field i tAddr p p' r hit read same taken =>
      exact ⟨hscan, hdistinct, same.little.trans fits.little, same.roInts.trans fits.roInts⟩
    | modbus i tAddr p p' now r hit read same taken =>
      exact ⟨hscan, hdistinct, same.little.trans fits.little, same.roInts.trans fits.roInts⟩
  · exact ⟨hscan, hdistinct, same.little.trans fits.little, same.roInts.trans fits.roInts⟩

/-- The driver that `init` has left, when it fits the slave. -/
theorem fits_init {le : Bool} {before : List Op} {file : Except String (Option MasterXml)}
    {slaveVars fieldVars : List IOAddr} {newTcp : Bool} {strerror : String} {d : ModbusMasterDrv Q}
    (initialised : (run (ModbusMasterDrv.step L) (ModbusMasterDrv.fresh le) before).init file
      slaveVars fieldVars newTcp strerror = (true, d)) {s : ModbusSlaveDrv}
    (little : d.mbArchLittleEnd = s.mbArchLittleEnd) (roInts : d.muiNumROInts = s.muiNumROInts) :
    Fits s (polled d) d := by
  have hdistinct : DistinctVars d := by
    have hbefore : DistinctVars (run (ModbusMasterDrv.step L)
        (ModbusMasterDrv.fresh le : ModbusMasterDrv Q) before) :=
      distinct_kept.run ⟨List.nodup_nil, List.nodup_nil⟩ before
    have h := init_distinct hbefore file slaveVars fieldVars newTcp strerror
    rw [initialised] at h
    exact h
  have h := init_true (congrArg Prod.fst initialised)
  rw [initialised] at h
  obtain ⟨hstate, hfieldIt, hmodbusIt⟩ := h
  refine ⟨⟨⟨rfl, ?_, Or.inl hmodbusIt⟩, ?_⟩, hdistinct, little, roInts⟩
  · rw [IteratorsOk, hfieldIt, hmodbusIt]
    exact ⟨Nat.zero_le _, Nat.zero_le _⟩
  · rw [hstate]
    exact DrvState.noConfusion

theorem round_of_fits {s : ModbusSlaveDrv} (hs : RegisterMap.Initialised s) {items : List Polled}
    (inMap : InMap s items) {d : ModbusMasterDrv Q} (fits : Fits s items d) {ops : List Op}
    (answered : ∀ op ∈ ops, Answered s op) {first round later : List (Event Polled)}
    (happened : trace (ModbusMasterDrv.step L) (events L) d ops =
      first ++ .wrap :: (round ++ .wrap :: later)) (between : .wrap ∉ round) :
    polled (run (ModbusMasterDrv.step L) d ops) = items ∧
      Mirrors L s (run (ModbusMasterDrv.step L) d ops) := by
  have along : Along (ModbusMasterDrv.step L) (fun _ op => Answered s op) d ops :=
    along_of_forall d answered
  have hscans : Scans items (position d) (trace (ModbusMasterDrv.step L) (events L) d ops)
      (position (run (ModbusMasterDrv.step L) d ops)) :=
    trace_scans (C := fun _ op => Answered s op) (P := Fits s items)
      (fun d op h hop => (step_scans (L := L) h.scan hop.1).1)
      (fun d op h hop => fits_step h hop.1) fits along
  have htaken : ∀ e, .take e ∈ trace (ModbusMasterDrv.step L) (events L) d ops →
      Mirrored L s e (run (ModbusMasterDrv.step L) d ops) :=
    trace_taken (C := fun _ op => Answered s op) (P := Fits s items)
      (fun d op h hop => (step_mirrors hs inMap h hop).1)
      (fun d op h hop => (step_mirrors hs inMap h hop).2)
      (fun d op h hop => fits_step h hop.1) fits along
  -- the second return ends a round over all items
  have hround : round = items.map Event.take := by
    rw [happened] at hscans
    have hsplit : first ++ Event.wrap :: (round ++ Event.wrap :: later) =
        (first ++ [.wrap]) ++ (round ++ .wrap :: later) := by simp
    rw [hsplit] at hscans
    obtain ⟨mid, hfirst, hrest⟩ := hscans.split
    obtain rfl := hfirst.wrap_end
    simpa using hrest.taken_to_wrap between
  have hall : ∀ e ∈ items, Mirrored L s e (run (ModbusMasterDrv.step L) d ops) := by
    intro e he
    apply htaken
    rw [happened, hround]
    simp [he]
  have hend : Fits s items (run (ModbusMasterDrv.step L) d ops) :=
    run_invariant (P := Fits s items) (C := fun _ op => Answered s op)
      (fun d op h hop => fits_step h hop.1) fits along
  have htables := hend.scan.scanning.tables
  refine ⟨htables, ?_, ?_⟩
  · intro tAddr p hp
    refine hall (.field tAddr) ?_ p hp
    rw [← htables]
    exact List.mem_append_left _ (List.mem_map_of_mem (List.mem_map_of_mem hp))
  · intro tAddr p hp
    refine hall (.modbus tAddr) ?_ p hp
    rw [← htables]
    exact List.mem_append_right _ (List.mem_map_of_mem (List.mem_map_of_mem hp))

theorem fits_run {s : ModbusSlaveDrv} {items : List Polled} {d : ModbusMasterDrv Q}
    (fits : Fits s items d) {ops : List Op} (beforeClose : ∀ op ∈ ops, BeforeClose op) :
    Fits s items (run (ModbusMasterDrv.step L) d ops) :=
  run_invariant (P := Fits s items) (C := fun _ op => BeforeClose op)
    (fun _ _ h hop => fits_step h hop) fits (along_of_forall d beforeClose)

/-- The regulator publishes and a master that fits its slave polls: when the
output phase of the regulator is over and nothing changes the tables of the
slave, a round of the master, with whatever failures, stops and requests in
between, ends with the image of the regulator in its tables. -/
theorem round_shows_image {le : Bool} {before : List Op} {file : Except String (Option MasterXml)}
    {slaveVars fieldVars : List IOAddr} {newTcp : Bool} {strerror : String} {d : ModbusMasterDrv Q}
    (initialised : (run (ModbusMasterDrv.step L) (ModbusMasterDrv.fresh le) before).init file
      slaveVars fieldVars newTcp strerror = (true, d))
    {s s' : ModbusSlaveDrv} {img : RegulatorImage.IOImage} {alMan : RegulatorAlarms.AlarmManager}
    (wired : PublishedImage.Wired s (PublishedImage.outputs img alMan))
    (phase : s' = (img.updateOutputs L (some alMan) s).2.1)
    (little : d.mbArchLittleEnd = s'.mbArchLittleEnd) (roInts : d.muiNumROInts = s'.muiNumROInts)
    (inMap : InMap s' (polled d)) {earlier ops : List Op}
    (beforeClose : ∀ op ∈ earlier, BeforeClose op) (answered : ∀ op ∈ ops, Answered s' op)
    {first round later : List (Event Polled)}
    (happened : trace (ModbusMasterDrv.step L) (events L)
      (run (ModbusMasterDrv.step L) d earlier) ops = first ++ .wrap :: (round ++ .wrap :: later))
    (between : .wrap ∉ round) :
    polled (run (ModbusMasterDrv.step L) d (earlier ++ ops)) = polled d ∧
      Mirrors L s' (run (ModbusMasterDrv.step L) d (earlier ++ ops)) ∧
      ShowsImage (L := L) s img alMan (run (ModbusMasterDrv.step L) d (earlier ++ ops)) := by
  have hfits := fits_run (L := L) (fits_init initialised little roInts) beforeClose
  have hs' : RegisterMap.Initialised s' := by
    rw [phase]
    exact (PublishedImage.output_published (L := L) wired).1
  obtain ⟨hpolled, hmirrors⟩ := round_of_fits hs' inMap hfits answered happened between
  rw [run_append]
  exact ⟨hpolled, hmirrors, showsImage_of_mirrors wired phase hmirrors⟩

end Runs

/-- One output of the slave, one of the field and one word of alarms. -/
def smallImage : RegulatorImage.IOImage :=
  { RegulatorImage.IOImage.construct with
    mSlaveOut := [none, some (TableBounds.varAt 3000000001 { uiChannel := 2 })]
    mFieldOut := [some { TableBounds.varAt 7 {} with mfTrueVal := 0x42820000 }] }

def oneAlarm : RegulatorAlarms.AlarmManager := ⟨false, [0x80000000], [], [], fun _ => 0⟩

def publishedSlave : ModbusSlaveDrv :=
  (smallImage.updateOutputs floatAbcd (some oneAlarm) smallSlave).2.1

def threeVars : Bool × ModbusMasterDrv (WriteReq.Queue true) :=
  (ModbusMasterDrv.fresh true).init (.ok (some ⟨some "127.0.0.1", some 502, some 1, some 2⟩))
    [{ uiChannel := 1 }, { uiChannel := 2 }] [{ uiChannel := 3 }] true ""

def polling (timePoint : Int) : Op :=
  .turn { timePoint := timePoint, msSinceEpoch := timePoint, connects := true
          bus := directBus publishedSlave.mpMBmapping }

/-- The first return to the start ends in the state of an error, so that the
master connects again before the second round. -/
def smallPolls : List Op :=
  ([1, 2, 3, 4, 5, 6, 7, 8, 20, 21, 22, 23, 24, 25, 26] : List Int).map polling

def threeReads : List (Event Polled) :=
  [.take (.field { uiChannel := 3 }), .take (.modbus { uiChannel := 1 }),
    .take (.modbus { uiChannel := 2 })]

theorem small_wired :
    PublishedImage.Wired smallSlave (PublishedImage.outputs smallImage oneAlarm) := by
  have hcalls : PublishedImage.outputs smallImage oneAlarm =
      [.write (TableBounds.varAt 3000000001 { uiChannel := 2 }),
        .updateFieldVar { TableBounds.varAt 7 {} with mfTrueVal := 0x42820000 },
        .writeRO (1, 0x80000000)] := rfl
  refine ⟨smallSlave_initialised, ?_, ?_⟩
  · rw [hcalls]
    simp only [List.forall_mem_cons]
    refine ⟨⟨by decide, by decide⟩, ⟨{ uiChannel := 3 }, by decide, by decide, by decide⟩,
      ⟨by decide, by decide⟩, fun _ h => absurd h List.not_mem_nil⟩
  · rw [hcalls]
    decide

theorem small_inMap : InMap publishedSlave (polled threeVars.2) := by
  have hpolled : polled threeVars.2 =
      [.field { uiChannel := 3 }, .modbus { uiChannel := 1 }, .modbus { uiChannel := 2 }] := by
    decide +kernel
  rw [hpolled]
  constructor
  · intro tAddr h
    simp only [List.mem_cons, List.not_mem_nil, or_false, reduceCtorEq, Polled.field.injEq] at h
    subst h
    exact ⟨by decide, by decide⟩
  · intro tAddr h
    simp only [List.mem_cons, List.not_mem_nil, or_false, reduceCtorEq, Polled.modbus.injEq,
      false_or] at h
    rcases h with rfl | rfl
    · exact Or.inr ⟨by decide, by decide⟩
    · exact Or.inl ⟨by decide, by decide⟩

theorem small_image_shown :
    polled (run (ModbusMasterDrv.step floatAbcd) threeVars.2 ([.start 0] ++ smallPolls)) =
        polled threeVars.2 ∧
      Mirrors floatAbcd publishedSlave
        (run (ModbusMasterDrv.step floatAbcd) threeVars.2 ([.start 0] ++ smallPolls)) ∧
      ShowsImage (L := floatAbcd) smallSlave smallImage oneAlarm
        (run (ModbusMasterDrv.step floatAbcd) threeVars.2 ([.start 0] ++ smallPolls)) := by
  have initialised : (run (ModbusMasterDrv.step floatAbcd) (ModbusMasterDrv.fresh true) []).init
      (.ok (some ⟨some "127.0.0.1", some 502, some 1, some 2⟩))
      [{ uiChannel := 1 }, { uiChannel := 2 }] [{ uiChannel := 3 }] true "" =
      (true, threeVars.2) := rfl
  have happened : trace (ModbusMasterDrv.step floatAbcd) (events floatAbcd)
      (run (ModbusMasterDrv.step floatAbcd) threeVars.2 [.start 0]) smallPolls =
      threeReads ++ .wrap :: (threeReads ++ .wrap :: []) := by decide +kernel
  refine round_shows_image initialised small_wired rfl (by decide +kernel) (by decide +kernel)
    small_inMap (fun op hop => ?_) (fun op hop => ?_) happened (by decide)
  · obtain rfl := List.mem_singleton.mp hop
    trivial
  · obtain ⟨timePoint, _, rfl⟩ := List.mem_map.mp hop
    refine ⟨trivial, ?_⟩
    rintro env h
    obtain rfl := Op.turn.inj h
    exact directBus_serves _

end MirroredTables
