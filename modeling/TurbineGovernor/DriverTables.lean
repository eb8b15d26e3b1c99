import TurbineGovernor.DriverFiles

/-!
# The tables that the drivers read from their files

A table is that of a section when it has one entry for each element, with the
integers that are written. A text that writes a number of its field is read as
it is written; what goes wrong are the other texts, and elements under one key.
-/

namespace DriverTables
open CommonTypes KeyedTables EtherDevices DeviceValues DecimalTexts DriverFiles

section Tables
variable {X K V : Type} (reads : X → Option (K × V)) (before : List (K × V)) (xs : List X)

/-- The table has one entry for each element beside what was there before. -/
def IsTable (table : List (K × V)) : Prop :=
  ∃ es, List.Forall₂ (fun x e => reads x = some e) xs es ∧ (es.map Prod.fst).Nodup ∧
    (∀ e ∈ es, e.1 ∉ before.map Prod.fst) ∧ table.Perm (before ++ es)

/-- An accepted section has become its table; one without a table is rejected and
leaves none. -/
structure Faithful (r : Bool × List (K × V)) : Prop where
  accepted : r.1 = true → IsTable reads before xs r.2
  rejected : (¬ ∃ table, IsTable reads before xs table) → r = (false, [])

/-- Every element can be read, under keys that are distinct and new. -/
structure Legible : Prop where
  readable : ∀ x ∈ xs, (reads x).isSome
  distinct : ((xs.filterMap reads).map Prod.fst).Nodup
  fresh : ∀ e ∈ xs.filterMap reads, e.1 ∉ before.map Prod.fst

variable {reads before xs}

theorem forall₂_reads_iff {es : List (K × V)} :
    List.Forall₂ (fun x e => reads x = some e) xs es ↔
      (∀ x ∈ xs, (reads x).isSome) ∧ es = xs.filterMap reads := by
  induction xs generalizing es with
  | nil => simp
  | cons x xs ih =>
    rw [List.forall_mem_cons, List.forall₂_cons_left_iff]
    constructor
    · rintro ⟨e, es', hx, hrest, rfl⟩
      obtain ⟨hall, rfl⟩ := ih.mp hrest
      exact ⟨⟨by rw [hx]; rfl, hall⟩, (List.filterMap_cons_some hx).symm⟩
    · rintro ⟨⟨hx, hall⟩, rfl⟩
      obtain ⟨e, he⟩ := Option.isSome_iff_exists.mp hx
      exact ⟨e, xs.filterMap reads, he, ih.mpr ⟨hall, rfl⟩, List.filterMap_cons_some he⟩

theorem isTable_iff {table : List (K × V)} :
    IsTable reads before xs table ↔
      Legible reads before xs ∧ table.Perm (before ++ xs.filterMap reads) := by
  constructor
  · rintro ⟨es, hes, hdistinct, hfresh, hperm⟩
    obtain ⟨hall, rfl⟩ := forall₂_reads_iff.mp hes
    exact ⟨⟨hall, hdistinct, hfresh⟩, hperm⟩
  · rintro ⟨h, hperm⟩
    exact ⟨_, forall₂_reads_iff.mpr ⟨h.readable, rfl⟩, h.distinct, h.fresh, hperm⟩

theorem exists_table_iff : (∃ table, IsTable reads before xs table) ↔ Legible reads before xs := by
  constructor
  · rintro ⟨table, h⟩
    exact (isTable_iff.mp h).1
  · intro h
    exact ⟨_, isTable_iff.mpr ⟨h, .rfl⟩⟩

theorem faithful_accepted_iff {table : List (K × V)} :
    Faithful reads before xs (true, table) ↔ IsTable reads before xs table := by
  constructor
  · intro h
    exact h.accepted rfl
  · intro h
    exact ⟨fun _ => h, fun hnone => absurd ⟨table, h⟩ hnone⟩

theorem faithful_rejected (table : List (K × V)) (h : ¬ Legible reads before xs) :
    Faithful reads before xs (false, table) ↔ table = [] := by
  constructor
  · intro hf
    exact (Prod.mk.inj (hf.rejected (fun hex => h (exists_table_iff.mp hex)))).2
  · rintro rfl
    exact ⟨fun hfalse => (by cases hfalse), fun _ => rfl⟩

/-- What the insertions leave is the table when the elements are legible and the
readings are the same. -/
theorem isTable_insertAll [DecidableEq K] {es : List (K × V)} (hlength : es.length = xs.length) :
    IsTable reads before xs (es.foldl (fun m e => insertKey m e.1 e.2) before) ↔
      Legible reads before xs ∧ es.Perm (xs.filterMap reads) := by
  rw [isTable_iff]
  refine and_congr_right (fun h => ?_)
  have hcount : (xs.filterMap reads).length = xs.length :=
    (forall₂_reads_iff.mpr ⟨h.readable, rfl⟩).length_eq.symm
  constructor
  · intro hperm
    have hkept : (es.foldl (fun m e => insertKey m e.1 e.2) before).length =
        before.length + es.length := by
      rw [hperm.length_eq, List.length_append, hcount, hlength]
    rw [insertAll_new ((length_insertAll_iff es before).mp hkept)] at hperm
    exact (List.perm_append_left_iff before).mp hperm
  · intro hperm
    rw [insertAll_new]
    · exact hperm.append_left before
    · refine ⟨(hperm.map Prod.fst).nodup_iff.mpr h.distinct, ?_⟩
      intro e he
      exact h.fresh e (hperm.mem_iff.mp he)

end Tables

/-- A number that one reading finds is the number of the other. -/
structure Agrees (num num' : Numbers) : Prop where
  uint8 : ∀ text v, num.uint8 text = some v → num'.uint8 text = some v
  int : ∀ text v, num.int text = some v → num'.int text = some v

theorem agrees_written (w : LongWidth) : Agrees writtenNumbers (atoiNumbers w) := by
  constructor
  · intro text v h
    obtain ⟨n, hn, rfl⟩ := Option.map_eq_some_iff.mp h
    exact congrArg some (setWidth_atoi hn)
  · intro text n h
    obtain ⟨hn, hrange⟩ := Option.filter_eq_some_iff.mp h
    obtain ⟨hlow, hhigh⟩ := of_decide_eq_true hrange
    exact congrArg some (toInt_atoi hn hlow hhigh)

/-- The attributes of an address, each read on its own. -/
structure ReadsAddr (num : Numbers) (pNode : AddrXml) (addr : IOAddr) : Prop where
  head : pNode.head.bind num.uint8 = some addr.uiHeader
  mod : pNode.mod.bind num.uint8 = some addr.uiModule
  ch : pNode.ch.bind num.uint8 = some addr.uiChannel
  prec : pNode.prec.bind num.uint8 = some addr.uiNumBits

theorem parseXMLAddr_iff (num : Numbers) (pNode : AddrXml) (addr addr' : IOAddr) :
    SlaveDriver.parseXMLAddr (pNode.convert num) addr = (true, addr') ↔
      ReadsAddr num pNode addr' := by
  simp only [SlaveDriver.parseXMLAddr, AddrXml.convert]
  constructor
  · intro h
    cases hhead : pNode.head.bind num.uint8 with
    | none => simp [hhead] at h
    | some head =>
      cases hmod : pNode.mod.bind num.uint8 with
      | none => simp [hhead, hmod] at h
      | some mod =>
        cases hch : pNode.ch.bind num.uint8 with
        | none => simp [hhead, hmod, hch] at h
        | some ch =>
          cases hprec : pNode.prec.bind num.uint8 with
          | none => simp [hhead, hmod, hch, hprec] at h
          | some prec =>
            simp only [hhead, hmod, hch, hprec] at h
            obtain rfl := (Prod.mk.inj h).2
            exact ⟨hhead, hmod, hch, hprec⟩
  · intro h
    simp only [h.head, h.mod, h.ch, h.prec]

theorem parseXMLAddr_eq_some {num : Numbers} {pNode : AddrXml} {addr : IOAddr} :
    parseXMLAddr num pNode = some addr ↔ ReadsAddr num pNode addr := by
  rw [parseXMLAddr, ← parseXMLAddr_iff num pNode {} addr]
  rcases SlaveDriver.parseXMLAddr (pNode.convert num) {} with ⟨_ | _, addr'⟩
  · simp
  · simp

section Agreement
variable {num num' : Numbers} (hnum : Agrees num num')
include hnum

theorem uint8_agrees {text : Option Text} {v : BitVec 8} (h : text.bind num.uint8 = some v) :
    text.bind num'.uint8 = some v := by
  obtain ⟨s, hs, hv⟩ := Option.bind_eq_some_iff.mp h
  exact Option.bind_eq_some_iff.mpr ⟨s, hs, hnum.uint8 s v hv⟩

theorem ReadsAddr.agrees {pNode : AddrXml} {addr : IOAddr} (h : ReadsAddr num pNode addr) :
    ReadsAddr num' pNode addr :=
  ⟨uint8_agrees hnum h.head, uint8_agrees hnum h.mod, uint8_agrees hnum h.ch,
    uint8_agrees hnum h.prec⟩

theorem parseXMLAddr_agrees {pNode : AddrXml} {addr : IOAddr}
    (h : parseXMLAddr num pNode = some addr) : parseXMLAddr num' pNode = some addr :=
  parseXMLAddr_eq_some.mpr (ReadsAddr.agrees hnum (parseXMLAddr_eq_some.mp h))

theorem readStatusWord_agrees {children : List WordChild} {addr : Option IOAddr}
    {uiUnder uiOver : Option (BitVec 8)} {stByte : StatusWord}
    (h : readStatusWord num children addr uiUnder uiOver = some stByte) :
    readStatusWord num' children addr uiUnder uiOver = some stByte := by
  induction children generalizing addr uiUnder uiOver with
  | nil =>
    rcases addr with _ | tAddr
    · cases h
    · rcases uiUnder with _ | under
      · cases h
      · rcases uiOver with _ | bit
        · cases h
        · exact h
  | cons child rest ih =>
    cases child with
    | addr pNode =>
      obtain ⟨tAddr, hread, hrest⟩ := Option.bind_eq_some_iff.mp h
      exact Option.bind_eq_some_iff.mpr ⟨tAddr, parseXMLAddr_agrees hnum hread, ih hrest⟩
    | underRangeBit text =>
      obtain ⟨bit, hread, hrest⟩ := Option.bind_eq_some_iff.mp h
      exact Option.bind_eq_some_iff.mpr ⟨bit, uint8_agrees hnum hread, ih hrest⟩
    | overRangeBit text =>
      obtain ⟨bit, hread, hrest⟩ := Option.bind_eq_some_iff.mp h
      exact Option.bind_eq_some_iff.mpr ⟨bit, uint8_agrees hnum hread, ih hrest⟩
    | setBit text => exact ih h
    | other => exact ih h

theorem readControlWord_agrees {children : List WordChild} {addr : Option IOAddr}
    {setBit : Option (BitVec 8)} {found : Option ControlWord}
    (h : readControlWord num children addr setBit = some found) :
    readControlWord num' children addr setBit = some found := by
  induction children generalizing addr setBit with
  | nil =>
    rcases addr with _ | tAddr
    · exact h
    · rcases setBit with _ | bit
      · exact h
      · exact h
  | cons child rest ih =>
    cases child with
    | addr pNode =>
      obtain ⟨tAddr, hread, hrest⟩ := Option.bind_eq_some_iff.mp h
      exact Option.bind_eq_some_iff.mpr ⟨tAddr, parseXMLAddr_agrees hnum hread, ih hrest⟩
    | setBit text =>
      obtain ⟨bit, hread, hrest⟩ := Option.bind_eq_some_iff.mp h
      exact Option.bind_eq_some_iff.mpr ⟨bit, uint8_agrees hnum hread, ih hrest⟩
    | underRangeBit text => exact ih h
    | overRangeBit text => exact ih h
    | other => exact ih h

theorem readDigitalDev_agrees {params : List ParamXml} {dev : NewDevice}
    (h : readDigitalDev num params = some dev) : readDigitalDev num' params = some dev := by
  induction params with
  | nil => cases h
  | cons param rest ih =>
    cases param with
    | pulseMeasure text =>
      obtain ⟨i, hread, hdev⟩ := Option.map_eq_some_iff.mp h
      obtain ⟨s, hs, hi⟩ := Option.bind_eq_some_iff.mp hread
      exact Option.map_eq_some_iff.mpr
        ⟨i, Option.bind_eq_some_iff.mpr ⟨s, hs, hnum.int s i hi⟩, hdev⟩
    | statusWord children => exact ih h
    | bitRepr type numBits => exact ih h
    | controlWord children => exact ih h
    | other => exact ih h

theorem readAnalogDev_agrees {params : List ParamXml} {stByte : Option StatusWord}
    {repr : Option (BitRepr × BitVec 8)} {dev : NewDevice}
    (h : readAnalogDev num params stByte repr = some dev) :
    readAnalogDev num' params stByte repr = some dev := by
  induction params generalizing stByte repr with
  | nil =>
    rcases stByte with _ | stByte
    · cases h
    · rcases repr with _ | ⟨bitRepr, uiNumBits⟩
      · cases h
      · exact h
  | cons param rest ih =>
    cases param with
    | statusWord children =>
      obtain ⟨word, hread, hrest⟩ := Option.bind_eq_some_iff.mp h
      exact Option.bind_eq_some_iff.mpr ⟨word, readStatusWord_agrees hnum hread, ih hrest⟩
    | bitRepr type numBits =>
      obtain ⟨strBitRepr, htype, hbits⟩ := Option.bind_eq_some_iff.mp h
      obtain ⟨uiNumBits, hread, hrest⟩ := Option.bind_eq_some_iff.mp hbits
      exact Option.bind_eq_some_iff.mpr ⟨strBitRepr, htype,
        Option.bind_eq_some_iff.mpr ⟨uiNumBits, uint8_agrees hnum hread, ih hrest⟩⟩
    | pulseMeasure text => exact ih h
    | controlWord children => exact ih h
    | other => exact ih h

theorem readPulseDev_agrees {params : List ParamXml} {dev : NewDevice}
    (h : readPulseDev num params = some dev) : readPulseDev num' params = some dev := by
  induction params with
  | nil => cases h
  | cons param rest ih =>
    cases param with
    | controlWord children =>
      obtain ⟨found, hread, hrest⟩ := Option.bind_eq_some_iff.mp h
      refine Option.bind_eq_some_iff.mpr ⟨found, readControlWord_agrees hnum hread, ?_⟩
      rcases found with _ | ctrByte
      · exact ih hrest
      · dsimp only at hrest ⊢
        split
        · rename_i hok
          rw [if_pos hok] at hrest
          exact hrest
        · rename_i hbad
          rw [if_neg hbad] at hrest
          exact ih hrest
    | pulseMeasure text => exact ih h
    | statusWord children => exact ih h
    | bitRepr type numBits => exact ih h
    | other => exact ih h

theorem getNewXMLDevice_agrees {pNode : VarTypeXml} {dev : NewDevice}
    (h : getNewXMLDevice num pNode = some dev) : getNewXMLDevice num' pNode = some dev := by
  obtain ⟨strType, htype, hdev⟩ := Option.bind_eq_some_iff.mp h
  refine Option.bind_eq_some_iff.mpr ⟨strType, htype, ?_⟩
  split at hdev
  · rename_i hdigital
    rw [if_pos hdigital]
    exact readDigitalDev_agrees hnum hdev
  · rename_i hdigital
    rw [if_neg hdigital]
    split at hdev
    · rename_i hanalog
      rw [if_pos hanalog]
      exact readAnalogDev_agrees hnum hdev
    · rename_i hanalog
      rw [if_neg hanalog]
      split at hdev
      · rename_i hpulse
        rw [if_pos hpulse]
        exact readPulseDev_agrees hnum hdev
      · cases hdev

theorem readXMLVar_agrees {children : List VarChild} {newAddr : Option IOAddr}
    {dev : Option NewDevice} {e : IOAddr × NewDevice}
    (h : readXMLVar num children newAddr dev = some e) :
    readXMLVar num' children newAddr dev = some e := by
  induction children generalizing newAddr dev with
  | nil =>
    rcases newAddr with _ | newAddr
    · cases h
    · rcases dev with _ | dev
      · cases h
      · exact h
  | cons child rest ih =>
    cases newAddr with
    | none =>
      cases child with
      | addr pNode =>
        obtain ⟨addr, hread, hrest⟩ := Option.bind_eq_some_iff.mp h
        exact Option.bind_eq_some_iff.mpr ⟨addr, parseXMLAddr_agrees hnum hread, ih hrest⟩
      | varType pNode =>
        cases dev with
        | none =>
          obtain ⟨dev, hread, hrest⟩ := Option.bind_eq_some_iff.mp h
          exact Option.bind_eq_some_iff.mpr ⟨dev, getNewXMLDevice_agrees hnum hread, ih hrest⟩
        | some dev => exact ih h
      | other => exact ih h
    | some newAddr =>
      cases dev with
      | some dev => exact h
      | none =>
        cases child with
        | addr pNode => exact ih h
        | varType pNode =>
          obtain ⟨dev, hread, hrest⟩ := Option.bind_eq_some_iff.mp h
          exact Option.bind_eq_some_iff.mpr ⟨dev, getNewXMLDevice_agrees hnum hread, ih hrest⟩
        | other => exact ih h

end Agreement

theorem readXMLVars_eq (w : LongWidth) (vars : List (List VarChild))
    (mDevices : List (IOAddr × NewDevice)) :
    readXMLVars w vars mDevices =
      if ∀ var ∈ vars, (varEntry (atoiNumbers w) var).isSome then
        (true, (vars.filterMap (varEntry (atoiNumbers w))).foldl
          (fun m e => insertKey m e.1 e.2) mDevices)
      else (false, []) := by
  induction vars generalizing mDevices with
  | nil => rfl
  | cons var vars ih =>
    rw [readXMLVars]
    simp only [List.forall_mem_cons]
    cases hvar : varEntry (atoiNumbers w) var with
    | none => rfl
    | some e =>
      rw [List.filterMap_cons_some hvar, List.foldl_cons]
      simp only [Option.isSome_some, true_and]
      exact ih (insertKey mDevices e.1 e.2)

/-- A `Var` is refused, or every number is written as its field holds it and the
addresses are distinct and new. -/
def VarsKept (w : LongWidth) (mDevices : List (IOAddr × NewDevice)) (vars : List (List VarChild)) :
    Prop :=
  (∃ var ∈ vars, varEntry (atoiNumbers w) var = none) ∨
    Legible (varEntry writtenNumbers) mDevices vars

theorem varEntry_agrees (w : LongWidth) {var : List VarChild} {e : IOAddr × NewDevice}
    (h : varEntry writtenNumbers var = some e) : varEntry (atoiNumbers w) var = some e :=
  readXMLVar_agrees (agrees_written w) h

theorem vars_faithful_iff (w : LongWidth) (mDevices : List (IOAddr × NewDevice))
    (vars : List (List VarChild)) :
    Faithful (varEntry writtenNumbers) mDevices vars (readXMLVars w vars mDevices) ↔
      VarsKept w mDevices vars := by
  rw [readXMLVars_eq, VarsKept]
  by_cases hall : ∀ var ∈ vars, (varEntry (atoiNumbers w) var).isSome
  · rw [if_pos hall, faithful_accepted_iff,
      isTable_insertAll (forall₂_reads_iff.mpr ⟨hall, rfl⟩).length_eq.symm]
    constructor
    · rintro ⟨h, _⟩
      exact Or.inr h
    · rintro (⟨var, hvar, hnone⟩ | h)
      · have hsome := hall var hvar
        rw [hnone] at hsome
        cases hsome
      · have hsame : vars.filterMap (varEntry (atoiNumbers w)) =
            vars.filterMap (varEntry writtenNumbers) := by
          refine List.filterMap_congr (fun var hvar => ?_)
          obtain ⟨e, he⟩ := Option.isSome_iff_exists.mp (h.readable var hvar)
          rw [he, varEntry_agrees w he]
        exact ⟨h, .of_eq hsame⟩
  · rw [if_neg hall]
    obtain ⟨var, hvar, hnone⟩ : ∃ var ∈ vars, varEntry (atoiNumbers w) var = none := by
      simpa using hall
    have hillegible : ¬ Legible (varEntry writtenNumbers) mDevices vars := by
      intro h
      obtain ⟨e, he⟩ := Option.isSome_iff_exists.mp (h.readable var hvar)
      rw [varEntry_agrees w he] at hnone
      cases hnone
    exact iff_of_true ((faithful_rejected [] hillegible).mpr rfl) (Or.inl ⟨var, hvar, hnone⟩)

theorem readXMLAddrs_agrees {num num' : Numbers} (hnum : Agrees num num') {addrs : List AddrXml}
    {bAddr bAddr' : Bool} {newAddr newAddr' : IOAddr}
    (h : SlaveDriver.readXMLAddrs (addrs.map (AddrXml.convert num)) bAddr newAddr =
      (true, bAddr', newAddr')) :
    SlaveDriver.readXMLAddrs (addrs.map (AddrXml.convert num')) bAddr newAddr =
      (true, bAddr', newAddr') := by
  induction addrs generalizing bAddr newAddr with
  | nil => exact h
  | cons pNode rest ih =>
    rw [List.map_cons, SlaveDriver.readXMLAddrs] at h ⊢
    rcases hparse : SlaveDriver.parseXMLAddr (pNode.convert num) newAddr with ⟨_ | _, addr⟩
    · rw [hparse] at h
      cases h
    · rw [hparse] at h
      have hreads := ReadsAddr.agrees hnum ((parseXMLAddr_iff num pNode newAddr addr).mp hparse)
      rw [(parseXMLAddr_iff num' pNode newAddr addr).mpr hreads]
      exact ih h

theorem fieldVarEntry_eq_some {num : Numbers} {x : FieldVarXml} {e : BitVec 32 × IOAddr} :
    fieldVarEntry num x = some e ↔ x.id.bind num.uint32 = some e.1 ∧
      SlaveDriver.readXMLAddrs (x.addrs.map (AddrXml.convert num)) false {} =
        (true, true, e.2) := by
  simp only [fieldVarEntry, InitTraces.entry, FieldVarXml.convert]
  cases x.id.bind num.uint32 with
  | none => simp
  | some uiVarID =>
    rcases SlaveDriver.readXMLAddrs (x.addrs.map (AddrXml.convert num)) false {} with
      ⟨_ | _, _ | _, newAddr⟩ <;>
      simp [Prod.ext_iff]

/-- An entry that is written: the text of its ID, and what the code makes of it. -/
theorem fieldVarEntry_written (w : LongWidth) {x : FieldVarXml} {e : BitVec 32 × IOAddr}
    (h : fieldVarEntry writtenNumbers x = some e) :
    ∃ text n, x.id = some text ∧ writtenBelow (2 ^ 32) text = some n ∧ e.1 = BitVec.ofInt 32 n ∧
      fieldVarEntry (atoiNumbers w) x = some (atoi w text, e.2) := by
  obtain ⟨hid, haddrs⟩ := fieldVarEntry_eq_some.mp h
  obtain ⟨text, htext, hmap⟩ := Option.bind_eq_some_iff.mp hid
  obtain ⟨n, hn, he⟩ := Option.map_eq_some_iff.mp hmap
  refine ⟨text, n, htext, hn, he.symm, fieldVarEntry_eq_some.mpr ⟨?_, ?_⟩⟩
  · rw [htext]
    rfl
  · exact readXMLAddrs_agrees (agrees_written w) haddrs

/-- No `FieldVar` offends and the table is one of what is written, with IDs that a
`long` holds; or the first that offends is not without an ID, or nothing stands
in the table when it is met. -/
def FieldVarsKept (w : LongWidth) (mFieldVars : List (BitVec 32 × IOAddr))
    (xs : List FieldVarXml) : Prop :=
  match InitTraces.offending (xs.map (FieldVarXml.convert (atoiNumbers w))) with
  | some x => x.id.isSome ∨
    (mFieldVars = [] ∧ InitTraces.leading (xs.map (FieldVarXml.convert (atoiNumbers w))) = [])
  | none => Legible (fieldVarEntry writtenNumbers) mFieldVars xs ∧
    ∀ x ∈ xs, ∀ text n, x.id = some text → written text = some n → n ≤ w.LONG_MAX

theorem leading_eq (num : Numbers) {xs : List FieldVarXml}
    (h : InitTraces.offending (xs.map (FieldVarXml.convert num)) = none) :
    InitTraces.leading (xs.map (FieldVarXml.convert num)) = xs.filterMap (fieldVarEntry num) := by
  induction xs with
  | nil => rfl
  | cons x xs ih =>
    rw [List.map_cons, InitTraces.offending, List.find?_cons] at h
    rw [List.map_cons, InitTraces.leading, List.filterMap_cons, fieldVarEntry]
    cases hx : InitTraces.entry (x.convert num) with
    | none => simp [hx] at h
    | some e =>
      rw [hx] at h
      exact congrArg (e :: ·) (ih h)

theorem insertAll_eq_nil {vars es : List (BitVec 32 × IOAddr)} :
    InitTraces.insertAll vars es = [] ↔ vars = [] ∧ es = [] := by
  rw [eq_nil_iff_lookup, eq_nil_iff_lookup vars, eq_nil_iff_lookup es, ← forall_and]
  refine forall_congr' (fun k => ?_)
  rw [InitTraces.insertAll, lookup_insertAll, Option.or_eq_none_iff]

/-- When every ID fits a `long`, the readings are the same. -/
theorem fieldVarEntry_fits {w : LongWidth} {x : FieldVarXml} {e : BitVec 32 × IOAddr}
    (h : fieldVarEntry writtenNumbers x = some e)
    (fits : ∀ text n, x.id = some text → written text = some n → n ≤ w.LONG_MAX) :
    fieldVarEntry (atoiNumbers w) x = some e := by
  obtain ⟨text, n, htext, hn, he, hread⟩ := fieldVarEntry_written w h
  obtain ⟨hwritten, hrange⟩ := writtenBelow_eq_some.mp hn
  have hmin : min n w.LONG_MAX = n := min_eq_left (fits text n htext hwritten)
  rw [hread, (atoi_unsigned_iff w hn hrange).mpr hmin, ← he]

/-- An ID that does not fit is read as one that no text of the section writes. -/
theorem fits_of_perm {w : LongWidth} {xs : List FieldVarXml}
    (readable : ∀ x ∈ xs, (fieldVarEntry writtenNumbers x).isSome)
    (hperm : (xs.filterMap (fieldVarEntry (atoiNumbers w))).Perm
      (xs.filterMap (fieldVarEntry writtenNumbers))) :
    ∀ x ∈ xs, ∀ text n, x.id = some text → written text = some n → n ≤ w.LONG_MAX := by
  intro x hx text n htext hwritten
  obtain ⟨e, he⟩ := Option.isSome_iff_exists.mp (readable x hx)
  obtain ⟨text', n', htext', hn', hid, _⟩ := fieldVarEntry_written w he
  obtain rfl := Option.some.inj (htext.symm.trans htext')
  obtain ⟨hwritten', hrange⟩ := writtenBelow_eq_some.mp hn'
  obtain rfl := Option.some.inj (hwritten.symm.trans hwritten')
  -- the entry of `x` is read from some element `y`
  have hmem : e ∈ xs.filterMap (fieldVarEntry (atoiNumbers w)) :=
    hperm.mem_iff.mpr (List.mem_filterMap.mpr ⟨x, hx, he⟩)
  obtain ⟨y, hy, hread⟩ := List.mem_filterMap.mp hmem
  obtain ⟨e', he'⟩ := Option.isSome_iff_exists.mp (readable y hy)
  obtain ⟨texty, m, _, hm, _, hread'⟩ := fieldVarEntry_written w he'
  have hatoi : atoi w texty = e.1 :=
    congrArg Prod.fst (Option.some.inj (hread'.symm.trans hread))
  rw [hid] at hatoi
  have hmin := (atoi_unsigned_iff w hm hrange).mp hatoi
  omega

/-- An element that the driver cannot read is not legible either. -/
theorem not_legible_of_offending {w : LongWidth} (mFieldVars : List (BitVec 32 × IOAddr))
    {xs : List FieldVarXml} {x' : SlaveDriver.FieldVarXml}
    (h : InitTraces.offending (xs.map (FieldVarXml.convert (atoiNumbers w))) = some x') :
    ¬ Legible (fieldVarEntry writtenNumbers) mFieldVars xs := by
  obtain ⟨x, hx, rfl⟩ := List.mem_map.mp (List.mem_of_find?_eq_some h)
  intro hlegible
  obtain ⟨e, he⟩ := Option.isSome_iff_exists.mp (hlegible.readable x hx)
  obtain ⟨text, n, _, _, _, hread⟩ := fieldVarEntry_written w he
  have hnone := List.find?_some h
  rw [fieldVarEntry] at hread
  rw [hread] at hnone
  cases hnone

theorem readable_of_no_offending {w : LongWidth} {xs : List FieldVarXml}
    (h : InitTraces.offending (xs.map (FieldVarXml.convert (atoiNumbers w))) = none) :
    ∀ x ∈ xs, (fieldVarEntry (atoiNumbers w) x).isSome := by
  intro x hx
  have hfind := List.find?_eq_none.mp h _ (List.mem_map_of_mem hx)
  rw [Bool.not_eq_true, Option.isNone_eq_false_iff] at hfind
  exact hfind

theorem fieldVars_faithful_iff (w : LongWidth) (mFieldVars : List (BitVec 32 × IOAddr))
    (xs : List FieldVarXml) :
    Faithful (fieldVarEntry writtenNumbers) mFieldVars xs (readXMLFieldVars w mFieldVars xs) ↔
      FieldVarsKept w mFieldVars xs := by
  rw [readXMLFieldVars, InitTraces.readXMLVars_eq, FieldVarsKept]
  cases hoffending : InitTraces.offending (xs.map (FieldVarXml.convert (atoiNumbers w))) with
  | none =>
    have hall := readable_of_no_offending hoffending
    dsimp only
    rw [leading_eq (atoiNumbers w) hoffending, faithful_accepted_iff, InitTraces.insertAll,
      isTable_insertAll (forall₂_reads_iff.mpr ⟨hall, rfl⟩).length_eq.symm]
    refine and_congr_right (fun h => ⟨fits_of_perm h.readable, fun fits => ?_⟩)
    refine .of_eq (List.filterMap_congr (fun x hx => ?_))
    obtain ⟨e, he⟩ := Option.isSome_iff_exists.mp (h.readable x hx)
    rw [he, fieldVarEntry_fits he (fits x hx)]
  | some x' =>
    have hillegible := not_legible_of_offending mFieldVars hoffending
    dsimp only
    split
    · rename_i hmissing
      rw [faithful_rejected _ hillegible, insertAll_eq_nil]
      constructor
      · exact Or.inr
      · rintro (hid | hnil)
        · rw [Option.isNone_iff_eq_none] at hmissing
          rw [hmissing] at hid
          cases hid
        · exact hnil
    · rename_i hpresent
      refine iff_of_true ((faithful_rejected [] hillegible).mpr rfl) (Or.inl ?_)
      rw [Bool.not_eq_true, Option.isNone_eq_false_iff] at hpresent
      exact hpresent

/-- Both drivers make of a section the table that is written in it, exactly when
the condition of each holds. -/
theorem driver_tables_iff (w : LongWidth) :
    (∀ mDevices vars, Faithful (varEntry writtenNumbers) mDevices vars
        (readXMLVars w vars mDevices) ↔ VarsKept w mDevices vars) ∧
      ∀ mFieldVars xs, Faithful (fieldVarEntry writtenNumbers) mFieldVars xs
        (readXMLFieldVars w mFieldVars xs) ↔ FieldVarsKept w mFieldVars xs :=
  ⟨vars_faithful_iff w, fieldVars_faithful_iff w⟩

/-- An input of channel `ch`, measured as a pulse of level 1. -/
def inputVar (ch : Text) : List VarChild :=
  [.addr ⟨some ['0'], some ['2'], some ch, some ['1']⟩,
    .varType ⟨some "DigitalDev", [.pulseMeasure (some ['1'])]⟩]

def fieldVarOf (id : Option Text) : FieldVarXml :=
  ⟨id, [⟨some ['0'], some ['2'], some ['1'], some ['1']⟩]⟩

theorem channel_reduced_entry_dropped_table_left :
    ¬ Faithful (varEntry writtenNumbers) [] [inputVar ['2', '5', '6']]
        (readXMLVars .bits64 [inputVar ['2', '5', '6']] []) ∧
      ¬ Faithful (fieldVarEntry writtenNumbers) [] [fieldVarOf (some ['7']),
        fieldVarOf (some ['7'])]
        (readXMLFieldVars .bits64 [] [fieldVarOf (some ['7']), fieldVarOf (some ['7'])]) ∧
      ¬ Faithful (fieldVarEntry writtenNumbers) [] [fieldVarOf (some ['7']), fieldVarOf none]
        (readXMLFieldVars .bits64 [] [fieldVarOf (some ['7']), fieldVarOf none]) := by
  refine ⟨?_, ?_, ?_⟩
  · rw [vars_faithful_iff]
    rintro (⟨var, hvar, hnone⟩ | h)
    · rw [List.mem_singleton.mp hvar] at hnone
      revert hnone
      decide
    · have hread := h.readable _ (List.mem_singleton_self _)
      revert hread
      decide
  · rw [fieldVars_faithful_iff]
    rintro ⟨h, _⟩
    have hdistinct := h.distinct
    revert hdistinct
    decide
  · rw [fieldVars_faithful_iff]
    rintro (hid | ⟨_, hleading⟩)
    · cases hid
    · revert hleading
      decide

end DriverTables
