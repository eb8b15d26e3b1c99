import TurbineGovernor.ChangeNotification
import TurbineGovernor.StartUp
import TurbineGovernor.MirroredTables

/-!
# Tables that are polled while the image reads them

The driver polls the variables of a slave whose tables do not change, and the
image takes the changes at any time in between. A variable that has been polled
has the value of the slave from then on, and the image has been told of it as
soon as nothing is marked and nothing is left to be read.
-/

namespace RefreshedTables
open CommonTypes TransitionRuns KeyedTables MasterDriver SlaveDriver ChangeNotification
open CyclicScans PollingCoverage RegisterMap
open MirroredTables (HoldsField HoldsModbus)

variable {Q : Type}

/-- The variable whose poll begins. -/
def polls (s : System Q) : Label → List (Event Polled)
  | .pollField i _ =>
    match s.inRead, s.driver.mFieldVars[i]? with
    | none, some (tAddr, _) => [.take (.field tAddr)]
    | _, _ => []
  | .pollModbus i _ _ =>
    match s.inRead, s.driver.mModbusVars[i]? with
    | none, some (tAddr, _) => [.take (.modbus tAddr)]
    | _, _ => []
  | _ => []

section Slave
variable (L : FloatAbcd) (slave : ModbusSlaveDrv)

/-- A poll is answered from the tables of the slave. -/
def Answered (s : System Q) : Label → Prop
  | .pollField i r => s.inRead = none → ∀ tAddr p, s.driver.mFieldVars[i]? = some (tAddr, p) →
    ∃ bus, Serves slave.mpMBmapping bus ∧
      fetchField L s.driver.mbArchLittleEnd s.driver.muiNumROInts bus tAddr = some r
  | .pollModbus i r _ => s.inRead = none → ∀ tAddr p, s.driver.mModbusVars[i]? = some (tAddr, p) →
    ∃ bus, Serves slave.mpMBmapping bus ∧
      fetchModbus L s.driver.mbArchLittleEnd s.driver.muiNumROInts bus tAddr = some r
  | _ => True

/-- The entry of a variable, once `processRead` is over, has been polled and
holds what the slave holds. -/
def Current : Polled → System Q → Prop
  | .field tAddr, s => ∀ p, s.settled.mFieldVars.lookup tAddr = some p →
    HoldsField (fieldReading L slave tAddr) p ∧ p.mbForceChangeDetection = false
  | .modbus tAddr, s => ∀ p, s.settled.mModbusVars.lookup tAddr = some p →
    HoldsModbus (modbusReading L slave tAddr) p ∧ p.mbForceChangeDetection = false

/-- The driver decodes as the slave encodes and polls channels of its map. -/
structure Connected (s : System Q) : Prop where
  little : s.driver.mbArchLittleEnd = slave.mbArchLittleEnd
  roInts : s.driver.muiNumROInts = slave.muiNumROInts
  field : ∀ tAddr ∈ s.driver.mFieldVars.map Prod.fst, InField slave tAddr
  modbus : ∀ tAddr ∈ s.driver.mModbusVars.map Prod.fst, InField slave tAddr ∨ InRO slave tAddr

end Slave

section Steps
variable {s : System Q}

/-- Steps other than polls leave the tables as they will be. -/
theorem settled_other (l : Label) (field : ∀ i r, l ≠ .pollField i r)
    (modbus : ∀ i r now, l ≠ .pollModbus i r now) :
    (s.step l).settled.mFieldVars = s.settled.mFieldVars ∧
      (s.step l).settled.mModbusVars = s.settled.mModbusVars := by
  cases l with
  | pollField i r => exact absurd rfl (field i r)
  | pollModbus i r now => exact absurd rfl (modbus i r now)
  | store => exact ⟨rfl, rfl⟩
  | enter mtDrvState =>
    simp only [System.step]
    split
    · exact ⟨rfl, rfl⟩
    · rename_i hnone
      have hnone' : s.inRead = none := by simpa using hnone
      simp only [System.settled, hnone', and_self]
  | updateImage =>
    simp only [System.step]
    split
    · split <;> exact ⟨rfl, rfl⟩
    · exact ⟨rfl, rfl⟩
  | getChangedVars =>
    simp only [System.step]
    split
    · simp only [System.settled]
      cases s.inRead with
      | none => exact ⟨rfl, rfl⟩
      | some reading => cases reading <;> exact ⟨rfl, rfl⟩
    · exact ⟨rfl, rfl⟩
  | read tAddr =>
    simp only [System.step]
    split <;> exact ⟨rfl, rfl⟩
  | endUpdate =>
    simp only [System.step]
    split
    · split <;> exact ⟨rfl, rfl⟩
    · exact ⟨rfl, rfl⟩

/-- A poll stores its answer, marked or not, and nothing else. -/
theorem settled_pollField (h : Inv s) {i : Nat} {tAddr : IOAddr} {p : FieldData} (r : FieldReading)
    (hnone : s.inRead = none) (hi : s.driver.mFieldVars[i]? = some (tAddr, p)) :
    (∀ a, (s.step (.pollField i r)).settled.mFieldVars.lookup a =
      if a = tAddr then some (storeField { p with mbForceChangeDetection := false } r)
      else s.settled.mFieldVars.lookup a) ∧
    (s.step (.pollField i r)).settled.mModbusVars = s.settled.mModbusVars := by
  rw [settled_of_none hnone]
  simp only [System.step, hnone, hi]
  by_cases hc : fieldChanged p r = true
  · rw [if_pos hc]
    refine ⟨fun a => ?_, rfl⟩
    have hset := List.getElem?_set_self (a := (tAddr, { p with mbForceChangeDetection := false }))
      (List.getElem?_eq_some_iff.mp hi).1
    have hlookup := lookup_modify (uniqueKeys_set h.uniqueField hi _) hset
      (fun p => storeField p r) a
    refine hlookup.trans ?_
    rw [lookup_set h.uniqueField hi]
    split <;> rfl
  · rw [if_neg hc]
    have hflag : p.mbForceChangeDetection = false := by
      have hall := eq_false_of_ne_true hc
      simp only [fieldChanged, Bool.or_eq_false_iff] at hall
      exact hall.1.1.1.1
    have hsame : { p with mbForceChangeDetection := false } = p := by rw [← hflag]
    rw [hsame]
    exact ⟨lookup_modify h.uniqueField hi (fun p => storeField p r), rfl⟩

theorem settled_pollModbus (h : Inv s) {i : Nat} {tAddr : IOAddr} {p : ModbusData}
    (r : ModbusReading) (now : Int) (hnone : s.inRead = none)
    (hi : s.driver.mModbusVars[i]? = some (tAddr, p)) :
    (∀ a, (s.step (.pollModbus i r now)).settled.mModbusVars.lookup a =
      if a = tAddr then some (storeModbus { p with mbForceChangeDetection := false } now r)
      else s.settled.mModbusVars.lookup a) ∧
    (s.step (.pollModbus i r now)).settled.mFieldVars = s.settled.mFieldVars := by
  rw [settled_of_none hnone]
  simp only [System.step, hnone, hi]
  by_cases hc : modbusChanged p r = true
  · rw [if_pos hc]
    refine ⟨fun a => ?_, rfl⟩
    have hset := List.getElem?_set_self (a := (tAddr, { p with mbForceChangeDetection := false }))
      (List.getElem?_eq_some_iff.mp hi).1
    have hlookup := lookup_modify (uniqueKeys_set h.uniqueModbus hi _) hset
      (fun p => storeModbus p now r) a
    refine hlookup.trans ?_
    rw [lookup_set h.uniqueModbus hi]
    split <;> rfl
  · rw [if_neg hc]
    have hflag : p.mbForceChangeDetection = false := by
      have hall := eq_false_of_ne_true hc
      cases r <;>
        (simp only [modbusChanged, Bool.or_eq_false_iff] at hall
         exact hall.1.1)
    have hsame : { p with mbForceChangeDetection := false } = p := by rw [← hflag]
    rw [hsame]
    exact ⟨lookup_modify h.uniqueModbus hi (fun p => storeModbus p now r), rfl⟩

/-- A poll that does not begin changes nothing. -/
theorem polls_eq_nil {l : Label} (h : polls s l = []) :
    (∀ i r, l ≠ .pollField i r) ∧ (∀ i r now, l ≠ .pollModbus i r now) ∨ s.step l = s := by
  cases l with
  | pollField i r =>
    refine Or.inr ?_
    simp only [polls] at h
    simp only [System.step]
    split
    · rename_i hnone hi
      rw [hnone, hi] at h
      cases h
    · rfl
  | pollModbus i r now =>
    refine Or.inr ?_
    simp only [polls] at h
    simp only [System.step]
    split
    · rename_i hnone hi
      rw [hnone, hi] at h
      cases h
    · rfl
  | _ => exact Or.inl ⟨fun _ _ h => Label.noConfusion h, fun _ _ _ h => Label.noConfusion h⟩

theorem holds_storeField (p : FieldData) (r : FieldReading) : HoldsField r (storeField p r) := rfl

theorem holds_storeModbus (p : ModbusData) (now : Int) (r : ModbusReading) :
    HoldsModbus r (storeModbus p now r) := by
  refine ⟨now, ?_⟩
  cases r <;> rfl

/-- No step changes how the driver decodes. -/
theorem step_host (s : System Q) (l : Label) :
    (s.step l).driver.mbArchLittleEnd = s.driver.mbArchLittleEnd ∧
      (s.step l).driver.muiNumROInts = s.driver.muiNumROInts := by
  cases l with
  | pollField i r =>
    simp only [System.step]
    split
    · split <;> exact ⟨rfl, rfl⟩
    · exact ⟨rfl, rfl⟩
  | pollModbus i r now =>
    simp only [System.step]
    split
    · split <;> exact ⟨rfl, rfl⟩
    · exact ⟨rfl, rfl⟩
  | store =>
    simp only [System.step, System.settled]
    split
    · exact ⟨rfl, rfl⟩
    · rename_i reading _
      cases reading <;> exact ⟨rfl, rfl⟩
  | enter mtDrvState =>
    simp only [System.step]
    split <;> exact ⟨rfl, rfl⟩
  | updateImage =>
    simp only [System.step]
    split
    · split <;> exact ⟨rfl, rfl⟩
    · exact ⟨rfl, rfl⟩
  | getChangedVars =>
    simp only [System.step]
    split <;> exact ⟨rfl, rfl⟩
  | read tAddr =>
    simp only [System.step]
    split <;> exact ⟨rfl, rfl⟩
  | endUpdate =>
    simp only [System.step]
    split
    · split <;> exact ⟨rfl, rfl⟩
    · exact ⟨rfl, rfl⟩

theorem Connected.step {slave : ModbusSlaveDrv} (connected : Connected slave s) (l : Label) :
    Connected slave (s.step l) := by
  have htables := StartUp.step_tables s l
  obtain ⟨hlittle, hroInts⟩ := step_host s l
  exact ⟨hlittle.trans connected.little, hroInts.trans connected.roInts,
    htables.field ▸ connected.field, htables.modbus ▸ connected.modbus⟩

section Slave
variable {L : FloatAbcd} {slave : ModbusSlaveDrv}

/-- A poll makes its variable current, and no step makes one outdated. -/
theorem step_current (hs : RegisterMap.Initialised slave) (h : Inv s)
    (connected : Connected slave s) {l : Label} (answered : Answered L slave s l) :
    (∀ e, .take e ∈ polls s l → Current L slave e (s.step l)) ∧
      ∀ e, Current L slave e s → Current L slave e (s.step l) := by
  cases hpolls : polls s l with
  | nil =>
    refine ⟨fun e he => absurd he List.not_mem_nil, fun e hcurrent => ?_⟩
    rcases polls_eq_nil hpolls with ⟨hfield, hmodbus⟩ | hsame
    · obtain ⟨hfields, hmodbuses⟩ := settled_other (s := s) l hfield hmodbus
      cases e with
      | field tAddr =>
        simp only [Current, hfields]
        exact hcurrent
      | modbus tAddr =>
        simp only [Current, hmodbuses]
        exact hcurrent
    · rw [hsame]
      exact hcurrent
  | cons event events =>
    rw [← hpolls]
    cases l with
    | pollField i r =>
      cases hnone : s.inRead with
      | some reading => simp [polls, hnone] at hpolls
      | none =>
        cases hi : s.driver.mFieldVars[i]? with
        | none => simp [polls, hnone, hi] at hpolls
        | some it =>
          obtain ⟨tAddr, p⟩ := it
          obtain ⟨bus, hbus, hread⟩ := answered hnone tAddr p hi
          rw [connected.little, connected.roInts] at hread
          have hkey : tAddr ∈ s.driver.mFieldVars.map Prod.fst :=
            List.mem_map_of_mem (List.mem_of_getElem? hi)
          have hr := fetchField_serves hs (connected.field tAddr hkey) hbus hread
          obtain ⟨hlookup, hmodbus⟩ := settled_pollField h r hnone hi
          have hnew : Current L slave (.field tAddr) (s.step (.pollField i r)) := by
            intro q hq
            rw [hlookup, if_pos rfl] at hq
            rw [← Option.some.inj hq, ← hr]
            exact ⟨holds_storeField _ r, rfl⟩
          refine ⟨fun e he => ?_, fun e hcurrent => ?_⟩
          · simp only [polls, hnone, hi, List.mem_singleton, Event.take.injEq] at he
            rw [he]
            exact hnew
          · cases e with
            | field tAddr' =>
              by_cases heq : tAddr' = tAddr
              · rw [heq]
                exact hnew
              · intro q hq
                rw [hlookup, if_neg heq] at hq
                exact hcurrent q hq
            | modbus tAddr' =>
              simp only [Current, hmodbus]
              exact hcurrent
    | pollModbus i r now =>
      cases hnone : s.inRead with
      | some reading => simp [polls, hnone] at hpolls
      | none =>
        cases hi : s.driver.mModbusVars[i]? with
        | none => simp [polls, hnone, hi] at hpolls
        | some it =>
          obtain ⟨tAddr, p⟩ := it
          obtain ⟨bus, hbus, hread⟩ := answered hnone tAddr p hi
          rw [connected.little, connected.roInts] at hread
          have hkey : tAddr ∈ s.driver.mModbusVars.map Prod.fst :=
            List.mem_map_of_mem (List.mem_of_getElem? hi)
          have hr := fetchModbus_serves hs (connected.modbus tAddr hkey) hbus hread
          obtain ⟨hlookup, hfield⟩ := settled_pollModbus h r now hnone hi
          have hnew : Current L slave (.modbus tAddr) (s.step (.pollModbus i r now)) := by
            intro q hq
            rw [hlookup, if_pos rfl] at hq
            rw [← Option.some.inj hq, ← hr]
            refine ⟨holds_storeModbus _ now r, ?_⟩
            cases r <;> rfl
          refine ⟨fun e he => ?_, fun e hcurrent => ?_⟩
          · simp only [polls, hnone, hi, List.mem_singleton, Event.take.injEq] at he
            rw [he]
            exact hnew
          · cases e with
            | field tAddr' =>
              simp only [Current, hfield]
              exact hcurrent
            | modbus tAddr' =>
              by_cases heq : tAddr' = tAddr
              · rw [heq]
                exact hnew
              · intro q hq
                rw [hlookup, if_neg heq] at hq
                exact hcurrent q hq
    | _ => cases hpolls

end Slave

end Steps

/-- No poll and no update is under way, and nothing is marked. -/
structure Quiet (s : System Q) : Prop where
  inRead : s.inRead = none
  toRead : s.toRead = ∅
  unmarked : s.driver.musChangedVars = ∅

section Quiet
variable {s : System Q} {tAddr : IOAddr}

theorem Quiet.told (quiet : Quiet s) (h : Inv s) {rec : Record}
    (hrec : s.recordAt s.driver tAddr = some rec) (hpolled : rec.mbForceChangeDetection = false) :
    ∃ g, s.emitted tAddr = some g ∧ g.Agrees (rec.signal .running tAddr) := by
  rcases h.fresh quiet.inRead tAddr rec hrec hpolled with hmem | hmem | htold
  · rw [quiet.unmarked] at hmem
    exact absurd hmem (Finset.notMem_empty _)
  · rw [quiet.toRead] at hmem
    exact absurd hmem (Finset.notMem_empty _)
  · exact htold

end Quiet

end RefreshedTables
