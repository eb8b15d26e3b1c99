import TurbineGovernor.MasterPolling
import TurbineGovernor.KeyedTables
import TurbineGovernor.CyclicScans

/-!
# Coverage of the polling cycle

Two iterators say how far the driver thread has read the tables. They are moved
by successful reads and by the end of a cycle only, so they survive failed
reads, lost connections and a stop. Seen from outside, polling is a cyclic scan
of the field variables followed by the Modbus variables.
-/

namespace PollingCoverage
open CommonTypes PriorityQueues KeyedTables TransitionRuns CyclicScans MasterDriver

variable {L : FloatAbcd} {Q : Type}

/-- An entry of one of the two tables; an address may be in both. -/
inductive Polled where
  | field (tAddr : IOAddr)
  | modbus (tAddr : IOAddr)
  deriving DecidableEq

/-- The variables of both tables in the order of the iterators. -/
def polled (d : ModbusMasterDrv Q) : List Polled :=
  (d.mFieldVars.map Prod.fst).map .field ++ (d.mModbusVars.map Prod.fst).map .modbus

/-- How many of them have been read since the last reset. -/
def position (d : ModbusMasterDrv Q) : Nat := d.mFieldIt + d.mModbusIt

def endEvents (d : ModbusMasterDrv Q) : List (Event Polled) :=
  if d.mFieldIt = d.mFieldVars.length ∧ d.mModbusIt = d.mModbusVars.length then [.wrap] else []

/-- The successful read or the reset of `processNextRead`. -/
def nextReadEvents (L : FloatAbcd) (d : ModbusMasterDrv Q) (env : Env) : List (Event Polled) :=
  match d.mFieldVars[d.mFieldIt]? with
  | some (tAddr, pFieldVar) =>
    match d.processReadField L env tAddr pFieldVar with
    | (true, _) => [.take (.field tAddr)]
    | (false, d) => endEvents d
  | none =>
    match d.mModbusVars[d.mModbusIt]? with
    | some (tAddr, pMBVar) =>
      match d.processReadModbus L env tAddr pMBVar with
      | (true, _) => [.take (.modbus tAddr)]
      | (false, d) => endEvents d
    | none => endEvents d

def serveEvents (L : FloatAbcd) (d : ModbusMasterDrv Q) (env : Env) : List (Event Polled) :=
  if d.mbInWriteCycle then []
  else if d.mbInReadCycle then nextReadEvents L d env
  else []

/-- A turn polls only while the driver is running and connected. -/
def turnEvents (L : FloatAbcd) (d : ModbusMasterDrv Q) (env : Env) : List (Event Polled) :=
  if d.mtDrvState = .running ∧ d.bConnected = true then
    serveEvents L (d.updateCycles env.timePoint) env
  else []

def events (L : FloatAbcd) (d : ModbusMasterDrv Q) : Op → List (Event Polled)
  | .turn env => if d.destroyed then [] else turnEvents L d env
  | _ => []

/-- What may happen between a successful `init` and the next `close`. -/
def BeforeClose : Op → Prop
  | .close _ => False
  | .finishDestructor _ => False
  | _ => True

/-- Same variables at the same places. -/
def SameKeys (d d' : ModbusMasterDrv Q) : Prop :=
  d'.mFieldVars.map Prod.fst = d.mFieldVars.map Prod.fst ∧
    d'.mModbusVars.map Prod.fst = d.mModbusVars.map Prod.fst

/-- The iterators are the same too. -/
structure SameScan (d d' : ModbusMasterDrv Q) : Prop where
  field : d'.mFieldVars.map Prod.fst = d.mFieldVars.map Prod.fst
  modbus : d'.mModbusVars.map Prod.fst = d.mModbusVars.map Prod.fst
  fieldIt : d'.mFieldIt = d.mFieldIt
  modbusIt : d'.mModbusIt = d.mModbusIt

theorem SameScan.keys {d d' : ModbusMasterDrv Q} (same : SameScan d d') : SameKeys d d' :=
  ⟨same.field, same.modbus⟩

theorem SameScan.refl (d : ModbusMasterDrv Q) : SameScan d d := ⟨rfl, rfl, rfl, rfl⟩

/-- The second iterator moves only when the first one is at the end. -/
structure Scanning (items : List Polled) (d : ModbusMasterDrv Q) : Prop where
  tables : polled d = items
  iterators : IteratorsOk d
  inOrder : d.mModbusIt = 0 ∨ d.mFieldIt = d.mFieldVars.length

theorem length_of_keys {K V : Type} {m m' : List (K × V)} (h : m'.map Prod.fst = m.map Prod.fst) :
    m'.length = m.length := by
  simpa using congrArg List.length h

theorem Scanning.same {items : List Polled} {d d' : ModbusMasterDrv Q} (h : Scanning items d)
    (same : SameScan d d') : Scanning items d' where
  tables := by
    rw [← h.tables, polled, polled, same.field, same.modbus]
  iterators := by
    rw [IteratorsOk, same.fieldIt, same.modbusIt, length_of_keys same.field,
      length_of_keys same.modbus]
    exact h.iterators
  inOrder := by
    rw [same.fieldIt, same.modbusIt, length_of_keys same.field]
    exact h.inOrder

theorem SameScan.position {d d' : ModbusMasterDrv Q} (same : SameScan d d') :
    position d' = position d := by
  simp only [PollingCoverage.position]
  rw [same.fieldIt, same.modbusIt]

/-- `processRead` stores the answer under the address it has polled. -/
theorem processReadField_same (d : ModbusMasterDrv Q) (env : Env) {tAddr : IOAddr} {p : FieldData}
    (hit : d.mFieldVars[d.mFieldIt]? = some (tAddr, p)) :
    SameScan d (d.processReadField L env tAddr p).2 := by
  simp only [ModbusMasterDrv.processReadField]
  split
  · exact ⟨rfl, rfl, rfl, rfl⟩
  · rename_i r _
    simp only
    split
    · refine ⟨?_, rfl, rfl, rfl⟩
      simp only [ModbusMasterDrv.putField, ModbusMasterDrv.markField]
      rw [keys_modify _ _ (fun p => storeField p r), keys_set hit]
    · exact ⟨keys_modify _ _ (fun p => storeField p r), rfl, rfl, rfl⟩

theorem processReadModbus_same (d : ModbusMasterDrv Q) (env : Env) {tAddr : IOAddr}
    {p : ModbusData} (hit : d.mModbusVars[d.mModbusIt]? = some (tAddr, p)) :
    SameScan d (d.processReadModbus L env tAddr p).2 := by
  simp only [ModbusMasterDrv.processReadModbus]
  split
  · exact ⟨rfl, rfl, rfl, rfl⟩
  · rename_i r _
    simp only
    split
    · refine ⟨rfl, ?_, rfl, rfl⟩
      simp only [ModbusMasterDrv.putModbus, ModbusMasterDrv.markModbus]
      rw [keys_modify _ _ (fun p => storeModbus p env.msSinceEpoch r), keys_set hit]
    · exact ⟨rfl, keys_modify _ _ (fun p => storeModbus p env.msSinceEpoch r), rfl, rfl⟩

theorem endOfCycle_keys (d : ModbusMasterDrv Q) : SameKeys d d.endOfCycle.2 := by
  unfold ModbusMasterDrv.endOfCycle
  split
  · simp only
    split
    · exact ⟨rfl, rfl⟩
    · exact ⟨rfl, rfl⟩
  · exact ⟨rfl, rfl⟩

theorem processNextRead_keys (d : ModbusMasterDrv Q) (env : Env) :
    SameKeys d (d.processNextRead L env).2 := by
  have ends : ∀ d' : ModbusMasterDrv Q, SameScan d d' → SameKeys d d'.endOfCycle.2 := by
    intro d' same
    exact ⟨(endOfCycle_keys d').1.trans same.field, (endOfCycle_keys d').2.trans same.modbus⟩
  simp only [ModbusMasterDrv.processNextRead]
  split
  · rename_i tAddr p hit
    have same := processReadField_same (L := L) d env hit
    split
    · rename_i d' hread
      rw [hread] at same
      exact same.keys
    · rename_i d' hread
      rw [hread] at same
      exact ends d' same
  · split
    · rename_i tAddr p hit
      have same := processReadModbus_same (L := L) d env hit
      split
      · rename_i d' hread
        rw [hread] at same
        exact same.keys
      · rename_i d' hread
        rw [hread] at same
        exact ends d' same
    · exact endOfCycle_keys d

theorem length_polled (d : ModbusMasterDrv Q) :
    (polled d).length = d.mFieldVars.length + d.mModbusVars.length := by
  simp [polled]

theorem polled_field {d : ModbusMasterDrv Q} {tAddr : IOAddr} {p : FieldData}
    (hit : d.mFieldVars[d.mFieldIt]? = some (tAddr, p)) :
    (polled d)[d.mFieldIt]? = some (.field tAddr) := by
  have hlt := (List.getElem?_eq_some_iff.mp hit).1
  simp only [polled]
  rw [List.getElem?_append_left (by simpa using hlt), List.getElem?_map, List.getElem?_map, hit]
  rfl

theorem polled_modbus {d : ModbusMasterDrv Q} {tAddr : IOAddr} {p : ModbusData}
    (hit : d.mModbusVars[d.mModbusIt]? = some (tAddr, p)) :
    (polled d)[d.mFieldVars.length + d.mModbusIt]? = some (.modbus tAddr) := by
  simp only [polled]
  rw [List.getElem?_append_right (by simp), List.length_map, List.length_map,
    Nat.add_sub_cancel_left, List.getElem?_map, List.getElem?_map, hit]
  rfl

theorem endOfCycle_scans {items : List Polled} {d : ModbusMasterDrv Q} (h : Scanning items d) :
    Scans items (position d) (endEvents d) (position d.endOfCycle.2) ∧
    Scanning items d.endOfCycle.2 := by
  by_cases hend : d.mFieldIt = d.mFieldVars.length ∧ d.mModbusIt = d.mModbusVars.length
  · have hpos : position d = items.length := by
      rw [← h.tables, length_polled, position, hend.1, hend.2]
    rw [d.endOfCycle_at_end hend, endEvents, if_pos hend, hpos]
    exact ⟨.one_wrap, h.tables, ⟨Nat.zero_le _, Nat.zero_le _⟩, Or.inl rfl⟩
  · rw [d.endOfCycle_not_at_end hend, endEvents, if_neg hend]
    exact ⟨.pause _, h⟩

theorem endOfCycle_same_scans {items : List Polled} {d d' : ModbusMasterDrv Q}
    (h : Scanning items d) (same : SameScan d d') :
    Scans items (position d) (endEvents d') (position d'.endOfCycle.2) ∧
    Scanning items d'.endOfCycle.2 := by
  rw [← same.position]
  exact endOfCycle_scans (h.same same)

/-- A field variable has been read: the scan takes it. -/
theorem field_scans {items : List Polled} {d d' : ModbusMasterDrv Q} (h : Scanning items d)
    {tAddr : IOAddr} {p : FieldData} (hit : d.mFieldVars[d.mFieldIt]? = some (tAddr, p))
    (same : SameScan d d') :
    Scans items (position d) [.take (.field tAddr)]
      (position { d' with mFieldIt := d'.mFieldIt + 1 }) ∧
    Scanning items { d' with mFieldIt := d'.mFieldIt + 1 } := by
  have hlt := (List.getElem?_eq_some_iff.mp hit).1
  have hmodbus : d.mModbusIt = 0 := h.inOrder.resolve_right (Nat.ne_of_lt hlt)
  have hsame := h.same same
  have hnext : items[position d]? = some (.field tAddr) := by
    rw [← h.tables, position, hmodbus]
    exact polled_field hit
  have hpos : position d + 1 = position { d' with mFieldIt := d'.mFieldIt + 1 } := by
    simp only [position, same.fieldIt, same.modbusIt]
    omega
  rw [← hpos]
  refine ⟨.one_take hnext, hsame.tables, ⟨?_, hsame.iterators.2⟩, Or.inl ?_⟩
  · change d'.mFieldIt + 1 ≤ d'.mFieldVars.length
    rw [same.fieldIt, length_of_keys same.field]
    exact hlt
  · exact same.modbusIt.trans hmodbus

/-- A slave variable has been read, after all field variables. -/
theorem modbus_scans {items : List Polled} {d d' : ModbusMasterDrv Q} (h : Scanning items d)
    (hend : d.mFieldIt = d.mFieldVars.length) {tAddr : IOAddr} {p : ModbusData}
    (hit : d.mModbusVars[d.mModbusIt]? = some (tAddr, p)) (same : SameScan d d') :
    Scans items (position d) [.take (.modbus tAddr)]
      (position { d' with mModbusIt := d'.mModbusIt + 1 }) ∧
    Scanning items { d' with mModbusIt := d'.mModbusIt + 1 } := by
  have hlt := (List.getElem?_eq_some_iff.mp hit).1
  have hsame := h.same same
  have hnext : items[position d]? = some (.modbus tAddr) := by
    rw [← h.tables, position, hend]
    exact polled_modbus hit
  have hpos : position d + 1 = position { d' with mModbusIt := d'.mModbusIt + 1 } := by
    simp only [position, same.fieldIt, same.modbusIt]
    omega
  rw [← hpos]
  refine ⟨.one_take hnext, hsame.tables, ⟨hsame.iterators.1, ?_⟩, Or.inr ?_⟩
  · change d'.mModbusIt + 1 ≤ d'.mModbusVars.length
    rw [same.modbusIt, length_of_keys same.modbus]
    exact hlt
  · change d'.mFieldIt = d'.mFieldVars.length
    rw [same.fieldIt, length_of_keys same.field]
    exact hend

/-- A polling call takes the next variable, returns to the start or pauses. -/
theorem nextRead_scans {items : List Polled} {d : ModbusMasterDrv Q} (h : Scanning items d)
    (env : Env) :
    Scans items (position d) (nextReadEvents L d env) (position (d.processNextRead L env).2) ∧
    Scanning items (d.processNextRead L env).2 := by
  cases hfield : d.mFieldVars[d.mFieldIt]? with
  | some v =>
    obtain ⟨tAddr, p⟩ := v
    have same := processReadField_same (L := L) d env hfield
    cases hread : d.processReadField L env tAddr p with
    | mk ok d' =>
      rw [hread] at same
      cases ok with
      | true =>
        simp only [nextReadEvents, ModbusMasterDrv.processNextRead, hfield, hread]
        exact field_scans h hfield same
      | false =>
        simp only [nextReadEvents, ModbusMasterDrv.processNextRead, hfield, hread]
        exact endOfCycle_same_scans h same
  | none =>
    have hend : d.mFieldIt = d.mFieldVars.length :=
      Nat.le_antisymm h.iterators.1 (List.getElem?_eq_none_iff.mp hfield)
    cases hmodbus : d.mModbusVars[d.mModbusIt]? with
    | some v =>
      obtain ⟨tAddr, p⟩ := v
      have same := processReadModbus_same (L := L) d env hmodbus
      cases hread : d.processReadModbus L env tAddr p with
      | mk ok d' =>
        rw [hread] at same
        cases ok with
        | true =>
          simp only [nextReadEvents, ModbusMasterDrv.processNextRead, hfield, hmodbus, hread]
          exact modbus_scans h hend hmodbus same
        | false =>
          simp only [nextReadEvents, ModbusMasterDrv.processNextRead, hfield, hmodbus, hread]
          exact endOfCycle_same_scans h same
    | none =>
      simp only [nextReadEvents, ModbusMasterDrv.processNextRead, hfield, hmodbus]
      exact endOfCycle_scans h

def DistinctVars (d : ModbusMasterDrv Q) : Prop :=
  UniqueKeys d.mFieldVars ∧ UniqueKeys d.mModbusVars

theorem DistinctVars.same {d d' : ModbusMasterDrv Q} (h : DistinctVars d) (same : SameKeys d d') :
    DistinctVars d' := by
  simp only [DistinctVars, UniqueKeys]
  rw [same.1, same.2]
  exact h

theorem uniqueKeys_insertVar {D : Type} {vars : List (IOAddr × D)} (h : UniqueKeys vars)
    (addr : IOAddr) (new : D) : UniqueKeys (insertVar vars addr new) := by
  simp only [insertVar]
  split
  · exact h
  · rename_i hnew
    rw [UniqueKeys, List.map_append, List.map_singleton]
    refine List.Nodup.append h (List.nodup_singleton addr) ?_
    intro k hk hk'
    obtain rfl := List.mem_singleton.mp hk'
    exact hnew hk

theorem uniqueKeys_insertAll {D : Type} (skipped : IOAddr → Prop) [DecidablePred skipped] (new : D)
    (addrs : List IOAddr) {vars : List (IOAddr × D)} (h : UniqueKeys vars) :
    UniqueKeys (addrs.foldl (fun vars addr =>
      if skipped addr then vars else insertVar vars addr new) vars) := by
  induction addrs generalizing vars with
  | nil => exact h
  | cons addr addrs ih =>
    rw [List.foldl_cons]
    apply ih
    split
    · exact h
    · exact uniqueKeys_insertVar h addr new

theorem distinct_polled {d : ModbusMasterDrv Q} (h : DistinctVars d) : (polled d).Nodup := by
  refine List.Nodup.append ?_ ?_ ?_
  · exact List.Nodup.map (fun a b hab => Polled.field.inj hab) h.1
  · exact List.Nodup.map (fun a b hab => Polled.modbus.inj hab) h.2
  · intro v hfield hmodbus
    obtain ⟨a, _, rfl⟩ := List.mem_map.mp hfield
    obtain ⟨b, _, hb⟩ := List.mem_map.mp hmodbus
    cases hb

/-- A successful `init` leaves the driver stopped with both iterators at the
beginning. -/
theorem init_true {d : ModbusMasterDrv Q} {file : Except String (Option MasterXml)}
    {slaveVars fieldVars : List IOAddr} {newTcp : Bool} {strerror : String}
    (h : (d.init file slaveVars fieldVars newTcp strerror).1 = true) :
    (d.init file slaveVars fieldVars newTcp strerror).2.mtDrvState = .stopped ∧
    (d.init file slaveVars fieldVars newTcp strerror).2.mFieldIt = 0 ∧
    (d.init file slaveVars fieldVars newTcp strerror).2.mModbusIt = 0 := by
  revert h
  unfold ModbusMasterDrv.init
  split
  · exact fun h => by cases h
  · split
    · exact fun h => by cases h
    · simp only
      split
      · exact fun h => by cases h
      split
      · exact fun _ => ⟨rfl, rfl, rfl⟩
      · exact fun h => by cases h

theorem init_distinct {d : ModbusMasterDrv Q} (h : DistinctVars d)
    (file : Except String (Option MasterXml)) (slaveVars fieldVars : List IOAddr) (newTcp : Bool)
    (strerror : String) : DistinctVars (d.init file slaveVars fieldVars newTcp strerror).2 := by
  obtain ⟨_, hfield, hmodbus, _, _⟩ := d.loadXMLConfig_frame file
  have hloaded : DistinctVars (d.loadXMLConfig file).2 := by
    rw [DistinctVars, hfield, hmodbus]
    exact h
  simp only [ModbusMasterDrv.init]
  split
  · exact h
  · cases hload : d.loadXMLConfig file with
    | mk ok loaded =>
      rw [hload] at hloaded
      cases ok with
      | false => exact hloaded
      | true =>
        simp only
        split
        · exact hloaded
        split
        · exact ⟨uniqueKeys_insertAll (fun addr : IOAddr => addr.uiChannel.setWidth 32 ≤ _ ∨ _) _ _
              hloaded.1,
            uniqueKeys_insertAll (fun addr : IOAddr => addr.uiChannel.setWidth 32 < 1#32 ∨ _) _ _
              hloaded.2⟩
        · exact ⟨List.nodup_nil, List.nodup_nil⟩

theorem start_same (d : ModbusMasterDrv Q) (now : Int) : SameScan d (d.start now).2 := by
  simp only [ModbusMasterDrv.start]
  split
  · exact .refl d
  split
  · exact ⟨rfl, rfl, rfl, rfl⟩
  · exact .refl d

/-- The scan of an initialised driver. -/
structure Initialised (items : List Polled) (d : ModbusMasterDrv Q) : Prop where
  scanning : Scanning items d
  state : d.mtDrvState ≠ .unInit

/-- The scan is where it was, and the driver is still initialised. -/
def Pauses (items : List Polled) (d d' : ModbusMasterDrv Q) : Prop :=
  Scans items (position d) [] (position d') ∧ Initialised items d'

theorem Initialised.same {items : List Polled} {d d' : ModbusMasterDrv Q} (h : Initialised items d)
    (same : SameScan d d') (state : d'.mtDrvState ≠ .unInit) : Pauses items d d' := by
  rw [Pauses, same.position]
  exact ⟨.pause _, h.scanning.same same, state⟩

theorem start_pauses {items : List Polled} {d : ModbusMasterDrv Q} (h : Initialised items d)
    (now : Int) : Pauses items d (d.start now).2 := by
  refine h.same (start_same d now) ?_
  simp only [ModbusMasterDrv.start]
  rw [if_neg h.state]
  split
  · exact DrvState.noConfusion
  · exact h.state

section Steps
variable [PriorityQueue Q WriteReq WriteReq.Less]

theorem processNextWrite_same (d : ModbusMasterDrv Q) (env : Env) :
    SameScan d (d.processNextWrite L env).2 := by
  obtain ⟨q, gone, _, _, _, ⟨_, h⟩ | ⟨wr, _, h | h⟩⟩ := d.processNextWrite_cases (L := L) env
  all_goals
    rw [h]
    exact ⟨rfl, rfl, rfl, rfl⟩

theorem serveCycle_scans {items : List Polled} {d : ModbusMasterDrv Q} (h : Scanning items d)
    (env : Env) :
    Scans items (position d) (serveEvents L d env) (position (d.serveCycle L env).2) ∧
    Scanning items (d.serveCycle L env).2 := by
  have pauses : ∀ d' : ModbusMasterDrv Q, SameScan d d' →
      Scans items (position d) [] (position d') ∧ Scanning items d' := by
    intro d' same
    rw [same.position]
    exact ⟨.pause _, h.same same⟩
  simp only [serveEvents, ModbusMasterDrv.serveCycle]
  by_cases hwrite : d.mbInWriteCycle = true
  · rw [if_pos hwrite, if_pos hwrite]
    split
    · exact pauses _ ⟨rfl, rfl, rfl, rfl⟩
    · exact pauses _ (processNextWrite_same d env)
  · rw [if_neg hwrite, if_neg hwrite]
    by_cases hread : d.mbInReadCycle = true
    · rw [if_pos hread, if_pos hread]
      exact nextRead_scans h env
    · rw [if_neg hread, if_neg hread]
      exact pauses _ (.refl d)

/-- A driver in any state scans on: it waits, reconnects or serves a cycle. -/
theorem turn_scans {items : List Polled} {d : ModbusMasterDrv Q} (h : Scanning items d)
    (env : Env) :
    Scans items (position d) (turnEvents L d env) (position (d.driverLoop L env)) ∧
    Scanning items (d.driverLoop L env) := by
  have pauses : ¬ (d.mtDrvState = .running ∧ d.bConnected = true) →
      SameScan d (d.driverLoop L env) →
      Scans items (position d) (turnEvents L d env) (position (d.driverLoop L env)) ∧
      Scanning items (d.driverLoop L env) := by
    intro hoff same
    rw [turnEvents, if_neg hoff, same.position]
    exact ⟨.pause _, h.same same⟩
  rcases d.driverLoop_cases (L := L) env with
    ⟨hidle, heq⟩ | ⟨hrun, hconn, heq⟩ | ⟨hoff, st, conn, errors, text, extra, _, _, heq⟩ |
    ⟨hcom, errors, text, extra, _, heq⟩
  · refine pauses ?_ (by rw [heq]; exact .refl d)
    rintro ⟨hrun, _⟩
    rw [hrun] at hidle
    rcases hidle with hidle | hidle <;> cases hidle
  · have hupdated : SameScan d (d.updateCycles env.timePoint) := ⟨rfl, rfl, rfl, rfl⟩
    obtain ⟨hscans, hkept⟩ := serveCycle_scans (L := L) (h.same hupdated) env
    rw [turnEvents, if_pos ⟨hrun, hconn⟩, heq]
    rw [hupdated.position] at hscans
    exact ⟨hscans, hkept.tables, hkept.iterators, hkept.inOrder⟩
  · exact pauses hoff (by rw [heq]; exact ⟨rfl, rfl, rfl, rfl⟩)
  · refine pauses (fun hon => by rw [hcom] at hon; cases hon.1) ?_
    obtain ⟨q, gone, hclean, _⟩ := ModbusMasterDrv.cleanWriteRequests_spec { d with
      uiComErrors := errors, mstrLastError := text, calls := d.calls ++ extra }
      env.msSinceEpoch false
    rw [heq, hclean]
    exact ⟨rfl, rfl, rfl, rfl⟩

theorem driverLoop_keys (d : ModbusMasterDrv Q) (env : Env) : SameKeys d (d.driverLoop L env) := by
  rcases d.driverLoop_cases (L := L) env with
    ⟨_, heq⟩ | ⟨_, _, heq⟩ | ⟨_, st, conn, errors, text, extra, _, _, heq⟩ |
    ⟨_, errors, text, extra, _, heq⟩
  · rw [heq]
    exact ⟨rfl, rfl⟩
  · rw [heq]
    change SameKeys (d.updateCycles env.timePoint) _
    simp only [ModbusMasterDrv.serveCycle]
    split
    · split
      · exact ⟨rfl, rfl⟩
      · exact (processNextWrite_same (L := L) _ env).keys
    · split
      · exact processNextRead_keys (L := L) _ env
      · exact ⟨rfl, rfl⟩
  · rw [heq]
    exact ⟨rfl, rfl⟩
  · obtain ⟨q, gone, hclean, _⟩ := ModbusMasterDrv.cleanWriteRequests_spec { d with
      uiComErrors := errors, mstrLastError := text, calls := d.calls ++ extra }
      env.msSinceEpoch false
    rw [heq, hclean]
    exact ⟨rfl, rfl⟩

theorem submit_same (d : ModbusMasterDrv Q) (wr : WriteReq) : SameScan d (d.submit wr).2 := by
  rcases d.submit_cases wr with heq | ⟨_, _, heq⟩
  · rw [heq]
    exact ⟨rfl, rfl, rfl, rfl⟩
  · rw [heq]
    exact ⟨rfl, rfl, rfl, rfl⟩

theorem stop_same (d : ModbusMasterDrv Q) (now : Int) : SameScan d (d.stop now).2 := by
  simp only [ModbusMasterDrv.stop]
  split
  · exact .refl d
  split
  · exact .refl d
  · obtain ⟨q, gone, heq, _⟩ := d.cleanWriteRequests_spec now true
    rw [heq, ModbusMasterDrv.closeConnection_eq]
    exact ⟨rfl, rfl, rfl, rfl⟩

theorem submit_pauses {items : List Polled} {d : ModbusMasterDrv Q} (h : Initialised items d)
    (wr : WriteReq) : Pauses items d (d.submit wr).2 := by
  refine h.same (submit_same d wr) ?_
  rcases d.submit_cases wr with heq | ⟨_, hstate, heq⟩
  · rw [heq]
    exact h.state
  · rw [heq]
    exact hstate

theorem stop_pauses {items : List Polled} {d : ModbusMasterDrv Q} (h : Initialised items d)
    (now : Int) : Pauses items d (d.stop now).2 := by
  refine h.same (stop_same d now) ?_
  simp only [ModbusMasterDrv.stop]
  rw [if_neg h.state]
  split
  · exact h.state
  · exact DrvState.noConfusion

/-- Every call of the interface but `close` pauses the scan; a turn of the
thread takes, returns or pauses. -/
theorem step_scans {items : List Polled} {d : ModbusMasterDrv Q} (h : Initialised items d) {op : Op}
    (hop : BeforeClose op) :
    Scans items (position d) (events L d op) (position (d.step L op)) ∧
    Initialised items (d.step L op) := by
  have stays : Pauses items d d := ⟨.pause _, h⟩
  cases op with
  | init file slaveVars fieldVars newTcp strerror =>
    refine ModbusMasterDrv.guarded (P := Pauses items d) stays (fun _ => ?_)
    simp only [ModbusMasterDrv.init]
    rw [if_pos h.state]
    exact h.same ⟨rfl, rfl, rfl, rfl⟩ h.state
  | start now =>
    exact ModbusMasterDrv.guarded (P := Pauses items d) stays (fun _ => start_pauses h now)
  | stop now =>
    exact ModbusMasterDrv.guarded (P := Pauses items d) stays (fun _ => stop_pauses h now)
  | close now => exact hop.elim
  | write fVal tAddr tWriteTimeOut now =>
    exact ModbusMasterDrv.guarded (P := Pauses items d) stays (fun _ => submit_pauses h _)
  | force fVal tAddr bForceBitVal tWriteTimeOut now =>
    exact ModbusMasterDrv.guarded (P := Pauses items d) stays (fun _ => submit_pauses h _)
  | getChangedVars =>
    exact ModbusMasterDrv.guarded (P := Pauses items d) stays
      (fun _ => h.same ⟨rfl, rfl, rfl, rfl⟩ h.state)
  | turn env =>
    simp only [events, ModbusMasterDrv.step]
    by_cases hd : d.destroyed = true
    · rw [if_pos hd, if_pos hd]
      exact stays
    · rw [if_neg hd, if_neg hd]
      obtain ⟨hscans, hkept⟩ := turn_scans (L := L) h.scanning env
      refine ⟨hscans, hkept, fun hun => h.state ?_⟩
      obtain ⟨_, _, _, hidle⟩ := d.driverLoop_frame (L := L) env h.scanning.iterators
      rw [← hidle (Or.inr hun)]
      exact hun
  | beginDestructor => exact h.same ⟨rfl, rfl, rfl, rfl⟩ h.state
  | finishDestructor now => exact hop.elim

theorem distinct_kept : ModbusMasterDrv.Kept L (DistinctVars : ModbusMasterDrv Q → Prop) where
  init _ file slaveVars fieldVars newTcp strerror h :=
    init_distinct h file slaveVars fieldVars newTcp strerror
  start d now h := h.same (start_same d now).keys
  stop d now h := h.same (stop_same d now).keys
  close d now h := by
    simp only [ModbusMasterDrv.close]
    split
    · exact h
    · exact ⟨List.nodup_nil, List.nodup_nil⟩
  submit d wr h _ := h.same (submit_same d wr).keys
  getChangedVars d h := h
  driverLoop d env h _ := h.same (driverLoop_keys d env)
  beginDestructor d h := h
  finishDestructor d now _ _ := ⟨List.nodup_nil, List.nodup_nil⟩

/-- Between two resets, and from `init` to the first one, each variable of both
tables is read once and nothing else is. -/
theorem round_reads_each_once (le : Bool) (before : List Op)
    (file : Except String (Option MasterXml)) (slaveVars fieldVars : List IOAddr) (newTcp : Bool)
    (strerror : String) (d : ModbusMasterDrv Q)
    (initialised : (run (ModbusMasterDrv.step L) (ModbusMasterDrv.fresh le) before).init file
      slaveVars fieldVars newTcp strerror = (true, d))
    (ops : List Op) (beforeClose : ∀ op ∈ ops, BeforeClose op)
    (earlier round later : List (Event Polled))
    (happened : trace (ModbusMasterDrv.step L) (events L) d ops =
      earlier ++ round ++ .wrap :: later)
    (starts : earlier = [] ∨ ∃ first, earlier = first ++ [.wrap]) (between : .wrap ∉ round) :
    (∀ tAddr, round.count (.take (.field tAddr)) =
      if tAddr ∈ d.mFieldVars.map Prod.fst then 1 else 0) ∧
    (∀ tAddr, round.count (.take (.modbus tAddr)) =
      if tAddr ∈ d.mModbusVars.map Prod.fst then 1 else 0) := by
  have hdistinct : DistinctVars d := by
    have hbefore : DistinctVars (run (ModbusMasterDrv.step L)
        (ModbusMasterDrv.fresh le : ModbusMasterDrv Q) before) :=
      distinct_kept.run ⟨List.nodup_nil, List.nodup_nil⟩ before
    have h := init_distinct hbefore file slaveVars fieldVars newTcp strerror
    rw [initialised] at h
    exact h
  obtain ⟨hstate, hfieldIt, hmodbusIt⟩ : d.mtDrvState = .stopped ∧ d.mFieldIt = 0 ∧
      d.mModbusIt = 0 := by
    have h := init_true (congrArg Prod.fst initialised)
    rw [initialised] at h
    exact h
  have hinit : Initialised (polled d) d := by
    refine ⟨⟨rfl, ?_, Or.inl hmodbusIt⟩, ?_⟩
    · rw [IteratorsOk, hfieldIt, hmodbusIt]
      exact ⟨Nat.zero_le _, Nat.zero_le _⟩
    · rw [hstate]
      exact DrvState.noConfusion
  have hscans : Scans (polled d) (position d) (trace (ModbusMasterDrv.step L) (events L) d ops)
      (position (run (ModbusMasterDrv.step L) d ops)) :=
    trace_scans (C := fun _ op => BeforeClose op) (P := Initialised (polled d))
      (fun d op h hop => (step_scans (L := L) h hop).1)
      (fun d op h hop => (step_scans (L := L) h hop).2) hinit (along_of_forall _ beforeClose)
  have hstart : position d = 0 := by
    rw [position, hfieldIt, hmodbusIt]
  rw [happened, hstart] at hscans
  have hround := hscans.round starts between
  have hcount := count_take (distinct_polled hdistinct)
  rw [hround]
  constructor
  · intro tAddr
    rw [hcount]
    exact if_congr (by simp [polled]) rfl rfl
  · intro tAddr
    rw [hcount]
    exact if_congr (by simp [polled]) rfl rfl

end Steps

/-- No transfer of this connection succeeds. -/
def deafEnv (timePoint : Int) : Env :=
  { MasterPolling.healthyEnv timePoint with
    bus := { (MasterPolling.healthyEnv timePoint).bus with readRegisters := fun _ _ _ => none } }

/-- The first round is interrupted by a failed read, the second one by a stop. -/
def twoRounds : List Op :=
  [.start 0, .turn (MasterPolling.healthyEnv 1), .turn (MasterPolling.healthyEnv 2),
    .turn (deafEnv 3), .turn (MasterPolling.healthyEnv 4), .turn (MasterPolling.healthyEnv 5),
    .turn (MasterPolling.healthyEnv 6), .turn (MasterPolling.healthyEnv 7),
    .turn (MasterPolling.healthyEnv 8), .stop 9, .start 50, .turn (MasterPolling.healthyEnv 51),
    .turn (MasterPolling.healthyEnv 52), .turn (MasterPolling.healthyEnv 53),
    .stop 54, .start 55, .turn (MasterPolling.healthyEnv 56), .turn (MasterPolling.healthyEnv 57),
    .turn (MasterPolling.healthyEnv 58), .turn (MasterPolling.healthyEnv 59)]

/-- One address, configured in both tables. -/
def oneInBoth : Bool × ModbusMasterDrv (WriteReq.Queue true) :=
  (ModbusMasterDrv.fresh true).init (.ok (some ⟨some "127.0.0.1", some 502, some 0, some 1⟩))
    [{ uiChannel := 1 }] [{ uiChannel := 1 }] true ""

def oneRound : List (Event Polled) :=
  [.take (.field { uiChannel := 1 }), .take (.modbus { uiChannel := 1 })]

theorem twoRounds_complete :
    trace (ModbusMasterDrv.step floatAbcd) (events floatAbcd) oneInBoth.2 twoRounds =
      (oneRound ++ [.wrap]) ++ oneRound ++ [.wrap] ∧
    (∀ tAddr, oneRound.count (.take (.field tAddr)) =
      if tAddr ∈ oneInBoth.2.mFieldVars.map Prod.fst then 1 else 0) ∧
    (∀ tAddr, oneRound.count (.take (.modbus tAddr)) =
      if tAddr ∈ oneInBoth.2.mModbusVars.map Prod.fst then 1 else 0) := by
  have happened : trace (ModbusMasterDrv.step floatAbcd) (events floatAbcd) oneInBoth.2 twoRounds =
      (oneRound ++ [.wrap]) ++ oneRound ++ [.wrap] := by decide +kernel
  refine ⟨happened, round_reads_each_once (L := floatAbcd) true []
    (.ok (some ⟨some "127.0.0.1", some 502, some 0, some 1⟩)) [{ uiChannel := 1 }]
    [{ uiChannel := 1 }] true "" oneInBoth.2 rfl twoRounds ?_ (oneRound ++ [.wrap]) oneRound []
    happened (Or.inr ⟨oneRound, rfl⟩) (by decide)⟩
  intro op hop
  simp only [twoRounds, List.mem_cons, List.not_mem_nil, or_false] at hop
  rcases hop with rfl | rfl | rfl | rfl | rfl | rfl | rfl | rfl | rfl | rfl | rfl | rfl | rfl |
    rfl | rfl | rfl | rfl | rfl | rfl | rfl <;> trivial

end PollingCoverage
