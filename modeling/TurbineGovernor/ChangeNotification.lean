import TurbineGovernor.MasterDriver
import TurbineGovernor.HmiImage

/-!
# Change notification between the driver and the image

`processRead` marks a changed variable in one critical section and stores its
value in another; `updateImage` takes the marked variables in one and reads
each of them in another. The two threads are interleaved section by section.
-/

namespace ChangeNotification
open CommonTypes TransitionRuns KeyedTables MasterDriver HmiImage

/-- What is emitted of a `VarImage`; a Modbus variable has no forced value. -/
structure VarImage where
  muiVarId : BitVec 32
  miTimeS : BitVec 64
  mfTrueVal : Single
  mfForcedVal : Option Single
  mtQState : QuState
  mbForcedVal : Bool

inductive Signal where
  | roIntChanged (val : BitVec 32) (intID : BitVec 8)
  | varChanged (var : VarImage)

/-- The same value, forced value, quality and forced flag. -/
def Signal.Agrees : Signal → Signal → Prop
  | .roIntChanged val _, .roIntChanged val' _ => val = val'
  | .varChanged v, .varChanged v' => Single.Same v.mfTrueVal v'.mfTrueVal ∧
      Single.Same (v.mfForcedVal.getD 0) (v'.mfForcedVal.getD 0) ∧
      v.mtQState = v'.mtQState ∧ v.mbForcedVal = v'.mbForcedVal
  | _, _ => False

theorem Signal.agrees_refl (g : Signal) : g.Agrees g := by
  cases g with
  | roIntChanged val intID => rfl
  | varChanged v => exact ⟨Or.inl rfl, Or.inl rfl, rfl, rfl⟩

theorem Signal.agrees_trans {g g' g'' : Signal} (h : g.Agrees g') (h' : g'.Agrees g'') :
    g.Agrees g'' := by
  cases g <;> cases g' <;> cases g''
  case roIntChanged.roIntChanged.roIntChanged => exact Eq.trans h h'
  case varChanged.varChanged.varChanged =>
    exact ⟨Single.same_trans h.1 h'.1, Single.same_trans h.2.1 h'.2.1,
      h.2.2.1.trans h'.2.2.1, h.2.2.2.trans h'.2.2.2⟩
  all_goals first | exact h.elim | exact h'.elim

/-- The data that `updateImage` reads for an address, and how. -/
inductive Record where
  | roInt (p : ModbusData)
  | modbus (uiVarId : BitVec 32) (p : ModbusData)
  | field (uiVarId : BitVec 32) (p : FieldData)

namespace Record

def mbForceChangeDetection : Record → Bool
  | roInt p => p.mbForceChangeDetection
  | modbus _ p => p.mbForceChangeDetection
  | field _ p => p.mbForceChangeDetection

/-- The signal for the data, read in a state of the driver. -/
def signal (mtDrvState : DrvState) (tAddr : IOAddr) : Record → Signal
  | roInt p => .roIntChanged p.muiCurrentVal tAddr.uiChannel
  | modbus uiVarId p => .varChanged
    { muiVarId := uiVarId, miTimeS := p.miTimeS, mfTrueVal := p.mfCurrentVal, mfForcedVal := none
      mtQState := if mtDrvState = .comError then .comError else p.mtQState
      mbForcedVal := false }
  | field uiVarId p => .varChanged
    { muiVarId := uiVarId, miTimeS := p.miTimeS, mfTrueVal := p.mfTrueVal
      mfForcedVal := some p.mfForcedVal
      mtQState := if mtDrvState = .comError then .comError else p.mtQState
      mbForcedVal := p.mbForced }

end Record

/-- `ioInts` is the number of integers that the image takes for RO ints. -/
structure Image where
  vars : RegVars
  ioInts : BitVec 32

variable {Q : Type}

/-- The body of the loop of `updateImage` up to the lock: where it will read. -/
def record (img : Image) (mFieldVars : List (IOAddr × FieldData))
    (mModbusVars : List (IOAddr × ModbusData)) (tAddr : IOAddr) : Option Record :=
  if img.ioInts > 0 ∧ tAddr.uiChannel ≥ 1 ∧ tAddr.uiChannel.setWidth 32 ≤ img.ioInts then
    (mModbusVars.lookup tAddr).map .roInt
  else
    match img.vars.mumVars.lookup tAddr with
    | none => none
    | some regVar =>
      match mModbusVars.lookup tAddr with
      | some p => some (.modbus regVar.muiVarId p)
      | none => (mFieldVars.lookup tAddr).map (.field regVar.muiVarId)

/-- A `processRead` between its two critical sections. -/
inductive Reading where
  | field (r : FieldReading)
  | modbus (r : ModbusReading) (now : Int)

/-- `updateImage` before and after it has taken the changed variables. -/
inductive Update where
  | idle
  | started
  | reading (usChanges : Finset IOAddr)

structure System (Q : Type) where
  driver : ModbusMasterDrv Q
  inRead : Option Reading
  image : Image
  update : Update
  emitted : IOAddr → Option Signal

inductive Label where
  | pollField (i : Nat) (r : FieldReading)
  | pollModbus (i : Nat) (r : ModbusReading) (now : Int)
  | store
  | enter (mtDrvState : DrvState)
  | updateImage
  | getChangedVars
  | read (tAddr : IOAddr)
  | endUpdate

namespace System

/-- The end of `processRead`: the second critical section and the next variable. -/
def storeReading (d : ModbusMasterDrv Q) : Reading → ModbusMasterDrv Q
  | .field r => let d := d.putField r; { d with mFieldIt := d.mFieldIt + 1 }
  | .modbus r now => let d := d.putModbus now r; { d with mModbusIt := d.mModbusIt + 1 }

/-- The driver once it has left `processRead`. -/
def settled (s : System Q) : ModbusMasterDrv Q :=
  match s.inRead with
  | none => s.driver
  | some reading => storeReading s.driver reading

def toRead (s : System Q) : Finset IOAddr :=
  match s.update with
  | .reading usChanges => usChanges
  | _ => ∅

def recordAt (s : System Q) (d : ModbusMasterDrv Q) (tAddr : IOAddr) : Option Record :=
  record s.image d.mFieldVars d.mModbusVars tAddr

/-- The driver polls its variables in any order. It changes its state between
two polls only, and neither thread begins anew before it has ended. -/
def step (s : System Q) : Label → System Q
  | .pollField i r =>
    match s.inRead, s.driver.mFieldVars[i]? with
    | none, some (tAddr, p) =>
      let d := { s.driver with mFieldIt := i }
      { s with
        driver := if fieldChanged p r then d.markField tAddr p else d
        inRead := some (.field r) }
    | _, _ => s
  | .pollModbus i r now =>
    match s.inRead, s.driver.mModbusVars[i]? with
    | none, some (tAddr, p) =>
      let d := { s.driver with mModbusIt := i }
      { s with
        driver := if modbusChanged p r then d.markModbus tAddr p else d
        inRead := some (.modbus r now) }
    | _, _ => s
  | .store => { s with driver := s.settled, inRead := none }
  | .enter mtDrvState =>
    if s.inRead.isSome then s else { s with driver := { s.driver with mtDrvState := mtDrvState } }
  | .updateImage =>
    match s.update with
    | .idle => if s.driver.mtDrvState ≠ .running then s else { s with update := .started }
    | _ => s
  | .getChangedVars =>
    match s.update with
    | .started =>
      { s with driver := s.driver.getChangedVars.2, update := .reading s.driver.getChangedVars.1 }
    | _ => s
  | .read tAddr =>
    if tAddr ∈ s.toRead then
      { s with
        update := .reading (s.toRead.erase tAddr)
        emitted := match s.recordAt s.driver tAddr with
          | none => s.emitted
          | some rec => Function.update s.emitted tAddr
            (some (rec.signal s.driver.mtDrvState tAddr)) }
    else s
  | .endUpdate =>
    match s.update with
    | .reading usChanges => if usChanges = ∅ then { s with update := .idle } else s
    | _ => s

end System

section Refinement
variable (L : FloatAbcd) {s : System Q} {env : Env} {tAddr : IOAddr}

/-- Without the other thread in between this is `processNextRead`. -/
theorem pollField_store {p : FieldData} {r : FieldReading} (hs : s.inRead = none)
    (hfield : s.driver.mFieldVars[s.driver.mFieldIt]? = some (tAddr, p))
    (hr : fetchField L s.driver.mbArchLittleEnd s.driver.muiNumROInts env.bus tAddr = some r) :
    ((s.step (.pollField s.driver.mFieldIt r)).step .store).driver =
      (s.driver.processNextRead L env).2 := by
  simp only [System.step, hs, hfield, System.settled, System.storeReading,
    ModbusMasterDrv.processNextRead, ModbusMasterDrv.processReadField, hr]

theorem pollModbus_store {p : ModbusData} {r : ModbusReading} (hs : s.inRead = none)
    (hfield : s.driver.mFieldVars[s.driver.mFieldIt]? = none)
    (hmodbus : s.driver.mModbusVars[s.driver.mModbusIt]? = some (tAddr, p))
    (hr : fetchModbus L s.driver.mbArchLittleEnd s.driver.muiNumROInts env.bus tAddr = some r) :
    ((s.step (.pollModbus s.driver.mModbusIt r env.msSinceEpoch)).step .store).driver =
      (s.driver.processNextRead L env).2 := by
  simp only [System.step, hs, hfield, hmodbus, System.settled, System.storeReading,
    ModbusMasterDrv.processNextRead, ModbusMasterDrv.processReadModbus, hr]

end Refinement

section Records
variable {I : Image} {F F' : List (IOAddr × FieldData)} {M M' : List (IOAddr × ModbusData)}
  {a : IOAddr}

theorem record_congr (hF : F'.lookup a = F.lookup a) (hM : M'.lookup a = M.lookup a) :
    record I F' M' a = record I F M a := by
  simp only [record]
  rw [hF, hM]

/-- A poll that finds no change keeps what the image shows. -/
theorem field_unchanged {p : FieldData} {r : FieldReading} (h : fieldChanged p r = false)
    (uiVarId : BitVec 32) :
    ((Record.field uiVarId p).signal .running a).Agrees
      ((Record.field uiVarId (storeField p r)).signal .running a) := by
  simp only [fieldChanged, Bool.or_eq_false_iff, decide_eq_false_iff_not, not_not] at h
  obtain ⟨⟨⟨⟨_, htrue⟩, hforced⟩, hq⟩, hflag⟩ := h
  exact ⟨Single.same_symm (Single.same_of_not_ne htrue), Single.same_of_not_ne hforced, hq.symm,
    hflag⟩

theorem modbus_unchanged {p : ModbusData} {r : ModbusReading} (h : modbusChanged p r = false)
    (now : Int) (uiVarId : BitVec 32) :
    ((Record.modbus uiVarId p).signal .running a).Agrees
        ((Record.modbus uiVarId (storeModbus p now r)).signal .running a) ∧
      ((Record.roInt p).signal .running a).Agrees
        ((Record.roInt (storeModbus p now r)).signal .running a) := by
  cases r with
  | roInt uiCurrentVal =>
    simp only [modbusChanged, Bool.or_eq_false_iff, decide_eq_false_iff_not, not_not] at h
    obtain ⟨⟨_, hval⟩, hq⟩ := h
    exact ⟨⟨Or.inl rfl, Or.inl rfl, hq, rfl⟩, hval.symm⟩
  | current fCurrentVal =>
    simp only [modbusChanged, Bool.or_eq_false_iff, decide_eq_false_iff_not, not_not] at h
    obtain ⟨⟨_, hval⟩, hq⟩ := h
    exact ⟨⟨Single.same_of_not_ne hval, Or.inl rfl, hq, rfl⟩, rfl⟩

/-- What the image shows for an address whose field data has been overwritten. -/
theorem record_field {p : FieldData} (hold : F.lookup a = some p) (p' : FieldData)
    (hnew : F'.lookup a = some p') :
    record I F' M a = record I F M a ∨
    ∃ uiVarId, record I F M a = some (.field uiVarId p) ∧
      record I F' M a = some (.field uiVarId p') := by
  simp only [record]
  rw [hold, hnew]
  split
  · exact Or.inl rfl
  split
  · exact Or.inl rfl
  · rename_i regVar _
    split
    · exact Or.inl rfl
    · exact Or.inr ⟨regVar.muiVarId, rfl, rfl⟩

theorem record_modbus {p : ModbusData} (hold : M.lookup a = some p) (p' : ModbusData)
    (hnew : M'.lookup a = some p') :
    (record I F M a = none ∧ record I F M' a = none) ∨
    (record I F M a = some (.roInt p) ∧ record I F M' a = some (.roInt p')) ∨
    ∃ uiVarId, record I F M a = some (.modbus uiVarId p) ∧
      record I F M' a = some (.modbus uiVarId p') := by
  simp only [record]
  rw [hold, hnew]
  split
  · exact Or.inr (Or.inl ⟨rfl, rfl⟩)
  split
  · exact Or.inl ⟨rfl, rfl⟩
  · rename_i regVar _
    exact Or.inr (Or.inr ⟨regVar.muiVarId, rfl, rfl⟩)

/-- Where there is something to read. -/
theorem record_isSome_iff (I : Image) (F : List (IOAddr × FieldData))
    (M : List (IOAddr × ModbusData)) (a : IOAddr) :
    (record I F M a).isSome = true ↔
      if I.ioInts > 0 ∧ a.uiChannel ≥ 1 ∧ a.uiChannel.setWidth 32 ≤ I.ioInts then
        (M.lookup a).isSome = true
      else (I.vars.mumVars.lookup a).isSome = true ∧
        ((M.lookup a).isSome = true ∨ (F.lookup a).isSome = true) := by
  simp only [record]
  split
  · rw [Option.isSome_map]
  · cases hvar : I.vars.mumVars.lookup a with
    | none => simp
    | some regVar =>
      cases hM : M.lookup a with
      | none => simp
      | some p => simp

theorem record_isSome (hF : (F'.lookup a).isSome = (F.lookup a).isSome)
    (hM : (M'.lookup a).isSome = (M.lookup a).isSome) :
    (record I F' M' a).isSome = (record I F M a).isSome := by
  rw [Bool.eq_iff_iff, record_isSome_iff, record_isSome_iff, hF, hM]

end Records

section Freshness
variable {s : System Q}

/-- A record that has been polled is marked, still to be read, or shown as it
is. `d` is the driver after the current `processRead`, if there is one. -/
def ShownAt (s : System Q) (d : ModbusMasterDrv Q) : Prop :=
  ∀ a rec, s.recordAt d a = some rec → rec.mbForceChangeDetection = false →
    a ∈ s.driver.musChangedVars ∨ a ∈ s.toRead ∨
      ∃ g, s.emitted a = some g ∧ g.Agrees (rec.signal .running a)

/-- Every variable is shown as it is whenever the driver is outside of `processRead`. -/
def Fresh (s : System Q) : Prop := s.inRead = none → ShownAt s s.driver

/-- No variable is read out while a changed value of it is marked but not yet
stored, or while the driver is in a communication error, unless it has been
marked again or the signal is that of the value stored next. -/
def NoStaleRead (s : System Q) : Label → Prop
  | .read a => a ∈ s.toRead → a ∉ s.driver.musChangedVars → ∀ rec rec',
      s.recordAt s.driver a = some rec → s.recordAt s.settled a = some rec' →
      rec'.mbForceChangeDetection = false →
      (rec.signal s.driver.mtDrvState a).Agrees (rec'.signal .running a)
  | _ => True

structure Inv (s : System Q) : Prop where
  uniqueField : UniqueKeys s.driver.mFieldVars
  uniqueModbus : UniqueKeys s.driver.mModbusVars
  settledField : UniqueKeys s.settled.mFieldVars
  settledModbus : UniqueKeys s.settled.mModbusVars
  shown : ShownAt s s.settled

theorem settled_of_none (h : s.inRead = none) : s.settled = s.driver := by
  simp only [System.settled, h]

theorem Inv.fresh (h : Inv s) : Fresh s := by
  intro hnone
  have hshown := h.shown
  rwa [settled_of_none hnone] at hshown

/-- A poll changes the record of one variable, and marks it or changes nothing of
what is shown. -/
theorem poll_shown (h : Inv s) (hnone : s.inRead = none) {s' : System Q} (b : IOAddr)
    (hupdate : s'.update = s.update) (hemitted : s'.emitted = s.emitted)
    (hchanged : s.driver.musChangedVars ⊆ s'.driver.musChangedVars)
    (hother : ∀ a, a ≠ b → s'.recordAt s'.settled a = s.recordAt s.driver a)
    (hself : b ∈ s'.driver.musChangedVars ∨
      ∀ rec', s'.recordAt s'.settled b = some rec' → ∃ rec, s.recordAt s.driver b = some rec ∧
        rec'.mbForceChangeDetection = rec.mbForceChangeDetection ∧
        (rec.signal .running b).Agrees (rec'.signal .running b)) :
    ShownAt s' s'.settled := by
  have hshown := h.shown
  rw [settled_of_none hnone] at hshown
  have hkeep : ∀ (a : IOAddr) (rec rec' : Record), s.recordAt s.driver a = some rec →
      rec'.mbForceChangeDetection = rec.mbForceChangeDetection →
      (rec.signal .running a).Agrees (rec'.signal .running a) →
      rec'.mbForceChangeDetection = false →
      a ∈ s'.driver.musChangedVars ∨ a ∈ s'.toRead ∨
        ∃ g, s'.emitted a = some g ∧ g.Agrees (rec'.signal .running a) := by
    intro a rec rec' hrec hflag hagrees hpolled
    rcases hshown a rec hrec (hflag ▸ hpolled) with hmem | hmem | ⟨g, hg, hga⟩
    · exact Or.inl (hchanged hmem)
    · refine Or.inr (Or.inl ?_)
      simp only [System.toRead, hupdate]
      exact hmem
    · exact Or.inr (Or.inr ⟨g, by rw [hemitted, hg], Signal.agrees_trans hga hagrees⟩)
  intro a rec' hrec' hpolled
  by_cases hab : a = b
  · subst hab
    rcases hself with hmem | hself
    · exact Or.inl hmem
    · obtain ⟨rec, hrec, hflag, hagrees⟩ := hself rec' hrec'
      exact hkeep a rec rec' hrec hflag hagrees hpolled
  · rw [hother a hab] at hrec'
    exact hkeep a rec' rec' hrec' rfl (Signal.agrees_refl _) hpolled

theorem pollField_inv (h : Inv s) (i : Nat) (r : FieldReading) :
    Inv (s.step (.pollField i r)) := by
  simp only [System.step]
  split
  · rename_i b p hnone hi
    have hold := lookup_of_getElem h.uniqueField hi
    by_cases hc : fieldChanged p r = true
    · rw [if_pos hc]
      have hunique := uniqueKeys_set h.uniqueField hi { p with mbForceChangeDetection := false }
      refine ⟨hunique, h.uniqueModbus, uniqueKeys_modify hunique i (fun p => storeField p r),
        h.uniqueModbus, ?_⟩
      refine poll_shown h hnone b rfl rfl (Finset.subset_insert _ _) (fun a ha => ?_)
        (Or.inl (Finset.mem_insert_self _ _))
      exact record_congr (lookup_modify_set h.uniqueField hi _ (fun p => storeField p r) ha) rfl
    · rw [if_neg hc]
      refine ⟨h.uniqueField, h.uniqueModbus,
        uniqueKeys_modify h.uniqueField i (fun p => storeField p r), h.uniqueModbus, ?_⟩
      have hlookup := lookup_modify h.uniqueField hi (fun p => storeField p r)
      refine poll_shown h hnone b rfl rfl (Finset.Subset.refl _) (fun a ha => ?_)
        (Or.inr (fun rec' hrec' => ?_))
      · exact record_congr ((hlookup a).trans (if_neg ha)) rfl
      · have hnew := (hlookup b).trans (if_pos rfl)
        have hrec : record s.image (s.driver.mFieldVars.modify i
            (fun v => (v.1, storeField v.2 r))) s.driver.mModbusVars b = some rec' := hrec'
        rcases record_field (I := s.image) (M := s.driver.mModbusVars) hold _ hnew with
          heq | ⟨uiVarId, hfrom, hto⟩
        · rw [heq] at hrec
          exact ⟨rec', hrec, rfl, Signal.agrees_refl _⟩
        · rw [hto] at hrec
          obtain rfl := Option.some.inj hrec
          exact ⟨_, hfrom, rfl, field_unchanged (eq_false_of_ne_true hc) uiVarId⟩
  · exact h

theorem pollModbus_inv (h : Inv s) (i : Nat) (r : ModbusReading) (now : Int) :
    Inv (s.step (.pollModbus i r now)) := by
  simp only [System.step]
  split
  · rename_i b p hnone hi
    have hold := lookup_of_getElem h.uniqueModbus hi
    by_cases hc : modbusChanged p r = true
    · rw [if_pos hc]
      have hunique := uniqueKeys_set h.uniqueModbus hi { p with mbForceChangeDetection := false }
      refine ⟨h.uniqueField, hunique, h.uniqueField,
        uniqueKeys_modify hunique i (fun p => storeModbus p now r), ?_⟩
      refine poll_shown h hnone b rfl rfl (Finset.subset_insert _ _) (fun a ha => ?_)
        (Or.inl (Finset.mem_insert_self _ _))
      exact record_congr rfl
        (lookup_modify_set h.uniqueModbus hi _ (fun p => storeModbus p now r) ha)
    · rw [if_neg hc]
      have hsame := modbus_unchanged (a := b) (eq_false_of_ne_true hc) now
      have hflag : (storeModbus p now r).mbForceChangeDetection = p.mbForceChangeDetection := by
        cases r <;> rfl
      refine ⟨h.uniqueField, h.uniqueModbus, h.uniqueField,
        uniqueKeys_modify h.uniqueModbus i (fun p => storeModbus p now r), ?_⟩
      have hlookup := lookup_modify h.uniqueModbus hi (fun p => storeModbus p now r)
      refine poll_shown h hnone b rfl rfl (Finset.Subset.refl _) (fun a ha => ?_)
        (Or.inr (fun rec' hrec' => ?_))
      · exact record_congr rfl ((hlookup a).trans (if_neg ha))
      · have hnew := (hlookup b).trans (if_pos rfl)
        have hrec : record s.image s.driver.mFieldVars (s.driver.mModbusVars.modify i
            (fun v => (v.1, storeModbus v.2 now r))) b = some rec' := hrec'
        rcases record_modbus (I := s.image) (F := s.driver.mFieldVars) hold _ hnew with
          ⟨_, hnone'⟩ | ⟨hfrom, hto⟩ | ⟨uiVarId, hfrom, hto⟩
        · rw [hnone'] at hrec
          cases hrec
        · rw [hto] at hrec
          obtain rfl := Option.some.inj hrec
          exact ⟨_, hfrom, hflag, (hsame 0).2⟩
        · rw [hto] at hrec
          obtain rfl := Option.some.inj hrec
          exact ⟨_, hfrom, hflag, (hsame uiVarId).1⟩
  · exact h

/-- Storing marks nothing and takes no mark away. -/
theorem settled_changed (s : System Q) : s.settled.musChangedVars = s.driver.musChangedVars := by
  simp only [System.settled]
  split
  · rfl
  · rename_i reading _
    cases reading <;> rfl

theorem store_inv (h : Inv s) : Inv (s.step .store) := by
  refine ⟨h.settledField, h.settledModbus, h.settledField, h.settledModbus, ?_⟩
  intro a rec hrec hpolled
  rcases h.shown a rec hrec hpolled with hmem | hshown
  · apply Or.inl
    rw [← settled_changed] at hmem
    exact hmem
  · exact Or.inr hshown

theorem enter_inv (h : Inv s) (mtDrvState : DrvState) : Inv (s.step (.enter mtDrvState)) := by
  simp only [System.step]
  split
  · exact h
  · rename_i hnone
    have hnone' : s.inRead = none := by simpa using hnone
    have hshown := h.shown
    rw [settled_of_none hnone'] at hshown
    have hsettled := settled_of_none (s := { s with
      driver := { s.driver with mtDrvState := mtDrvState } }) hnone'
    refine ⟨h.uniqueField, h.uniqueModbus, ?_, ?_, ?_⟩
    · rw [hsettled]
      exact h.uniqueField
    · rw [hsettled]
      exact h.uniqueModbus
    · rw [hsettled]
      exact hshown

/-- Taking the marked variables makes them the ones to be read. -/
theorem getChangedVars_inv (h : Inv s) : Inv (s.step .getChangedVars) := by
  simp only [System.step]
  split
  · rename_i hupdate
    have htables : ∀ s' : System Q, s' = { s with
          driver := s.driver.getChangedVars.2, update := .reading s.driver.getChangedVars.1 } →
        s'.settled.mFieldVars = s.settled.mFieldVars ∧
        s'.settled.mModbusVars = s.settled.mModbusVars := by
      rintro s' rfl
      simp only [System.settled]
      cases s.inRead with
      | none => exact ⟨rfl, rfl⟩
      | some reading => cases reading <;> exact ⟨rfl, rfl⟩
    obtain ⟨hfield, hmodbus⟩ := htables _ rfl
    refine ⟨h.uniqueField, h.uniqueModbus, hfield ▸ h.settledField, hmodbus ▸ h.settledModbus, ?_⟩
    intro a rec hrec hpolled
    have hrec' : s.recordAt s.settled a = some rec := by
      simp only [System.recordAt, hfield, hmodbus] at hrec
      exact hrec
    rcases h.shown a rec hrec' hpolled with hmem | hmem | hshown
    · exact Or.inr (Or.inl hmem)
    · simp only [System.toRead, hupdate] at hmem
      exact absurd hmem (Finset.notMem_empty a)
    · exact Or.inr (Or.inr hshown)
  · exact h

theorem recordAt_settled {a : IOAddr} {rec' : Record} (h : s.recordAt s.settled a = some rec') :
    ∃ rec, s.recordAt s.driver a = some rec := by
  apply Option.isSome_iff_exists.mp
  have hsome : (s.recordAt s.settled a).isSome = (s.recordAt s.driver a).isSome := by
    simp only [System.settled]
    cases s.inRead with
    | none => rfl
    | some reading =>
      cases reading with
      | field r =>
        exact record_isSome (lookup_modify_isSome s.driver.mFieldVars s.driver.mFieldIt
          (fun p => storeField p r) a) rfl
      | modbus r now =>
        exact record_isSome rfl (lookup_modify_isSome s.driver.mModbusVars s.driver.mModbusIt
          (fun p => storeModbus p now r) a)
  rw [← hsome, h]
  rfl

theorem read_inv {a : IOAddr} (h : Inv s) (hl : NoStaleRead s (.read a)) :
    Inv (s.step (.read a)) := by
  by_cases hmem : a ∈ s.toRead
  · simp only [System.step, if_pos hmem]
    refine ⟨h.uniqueField, h.uniqueModbus, h.settledField, h.settledModbus, ?_⟩
    intro b rec' (hrec' : s.recordAt s.settled b = some rec') hpolled
    by_cases hb : b = a
    · subst hb
      by_cases hmarked : b ∈ s.driver.musChangedVars
      · exact Or.inl hmarked
      · obtain ⟨rec, hrec⟩ := recordAt_settled hrec'
        refine Or.inr (Or.inr ⟨_, ?_, hl hmem hmarked rec rec' hrec hrec' hpolled⟩)
        simp only [hrec, Function.update_self]
    · rcases h.shown b rec' hrec' hpolled with hin | hin | ⟨g, hg, hga⟩
      · exact Or.inl hin
      · exact Or.inr (Or.inl (Finset.mem_erase.mpr ⟨hb, hin⟩))
      · refine Or.inr (Or.inr ⟨g, ?_, hga⟩)
        cases s.recordAt s.driver a with
        | none => exact hg
        | some rec => exact (Function.update_of_ne hb _ _).trans hg
  · simp only [System.step, if_neg hmem]
    exact h

/-- The beginning and the end of an `updateImage`, when nothing is left to be read. -/
theorem update_inv (h : Inv s) (hempty : s.toRead = ∅) (update : Update) :
    Inv { s with update := update } := by
  refine ⟨h.uniqueField, h.uniqueModbus, h.settledField, h.settledModbus, ?_⟩
  intro a rec hrec hpolled
  rcases h.shown a rec hrec hpolled with hmem | hmem | hshown
  · exact Or.inl hmem
  · rw [hempty] at hmem
    exact absurd hmem (Finset.notMem_empty a)
  · exact Or.inr (Or.inr hshown)

theorem step_inv (s : System Q) (l : Label) (h : Inv s) (hl : NoStaleRead s l) :
    Inv (s.step l) := by
  cases l with
  | pollField i r => exact pollField_inv h i r
  | pollModbus i r now => exact pollModbus_inv h i r now
  | store => exact store_inv h
  | enter mtDrvState => exact enter_inv h mtDrvState
  | getChangedVars => exact getChangedVars_inv h
  | read a => exact read_inv h hl
  | updateImage =>
    simp only [System.step]
    split
    · rename_i hidle
      split
      · exact h
      · exact update_inv h (by simp only [System.toRead, hidle]) .started
    · exact h
  | endUpdate =>
    simp only [System.step]
    split
    · rename_i usChanges hreading
      split
      · rename_i hempty
        exact update_inv h (by simp only [System.toRead, hreading, hempty]) .idle
      · exact h
    · exact h

/-- Nothing has been polled, marked or emitted yet. -/
structure Initial (s : System Q) : Prop where
  uniqueField : UniqueKeys s.driver.mFieldVars
  uniqueModbus : UniqueKeys s.driver.mModbusVars
  field : ∀ a p, s.driver.mFieldVars.lookup a = some p → p.mbForceChangeDetection = true
  modbus : ∀ a p, s.driver.mModbusVars.lookup a = some p → p.mbForceChangeDetection = true
  inRead : s.inRead = none

theorem Initial.inv (h : Initial s) : Inv s := by
  have hsettled := settled_of_none h.inRead
  refine ⟨h.uniqueField, h.uniqueModbus, ?_, ?_, ?_⟩
  · rw [hsettled]
    exact h.uniqueField
  · rw [hsettled]
    exact h.uniqueModbus
  · intro a rec hrec hpolled
    rw [hsettled] at hrec
    simp only [System.recordAt, record] at hrec
    split at hrec
    · obtain ⟨p, hp, rfl⟩ := Option.map_eq_some_iff.mp hrec
      exact absurd hpolled (by simp [Record.mbForceChangeDetection, h.modbus a p hp])
    split at hrec
    · cases hrec
    split at hrec
    · rename_i p hp
      obtain rfl := Option.some.inj hrec
      exact absurd hpolled (by simp [Record.mbForceChangeDetection, h.modbus a p hp])
    · obtain ⟨p, hp, rfl⟩ := Option.map_eq_some_iff.mp hrec
      exact absurd hpolled (by simp [Record.mbForceChangeDetection, h.field a p hp])

end Freshness

/-- The poll answer 5.0. -/
def five : FieldReading := ⟨0x40a00000, 0, 1000, .ok, false⟩

end ChangeNotification
