import TurbineGovernor.KeyedTables
import TurbineGovernor.RegisterMap

/-!
# What a failed initialisation leaves

`ModbusSlaveDrv::init` fails at many points, some of which empty the table of
field variables again. What each file does to the table and the counts is
written down beside the driver; a second `init` then inserts into what the
first one has left.
-/

namespace InitTraces
open CommonTypes SlaveDriver SlaveDriver.ModbusSlaveDrv KeyedTables RegisterMap

/-- The entry of a `FieldVar` that is complete. -/
def entry (x : FieldVarXml) : Option (BitVec 32 × IOAddr) :=
  match x.id, readXMLAddrs x.addrs false {} with
  | some uiVarID, (true, true, newAddr) => some (uiVarID, newAddr)
  | _, _ => none

/-- The entries before the first `FieldVar` that is not. -/
def leading : List FieldVarXml → List (BitVec 32 × IOAddr)
  | [] => []
  | x :: rest =>
    match entry x with
    | none => []
    | some e => e :: leading rest

def offending (xs : List FieldVarXml) : Option FieldVarXml := xs.find? (fun x => (entry x).isNone)

def insertAll (vars es : List (BitVec 32 × IOAddr)) : List (BitVec 32 × IOAddr) :=
  es.foldl (fun vars e => insertKey vars e.1 e.2) vars

theorem insert_eq (vars : List (BitVec 32 × IOAddr)) (uiVarID : BitVec 32) (newAddr : IOAddr) :
    (if uiVarID ∈ vars.map Prod.fst then vars else vars ++ [(uiVarID, newAddr)]) =
      insertKey vars uiVarID newAddr := by
  rw [insertKey]
  exact if_congr (lookup_isSome_iff vars uiVarID).symm rfl rfl

theorem readXMLVars_cons (vars : List (BitVec 32 × IOAddr)) (x : FieldVarXml)
    (rest : List FieldVarXml) :
    readXMLVars vars (x :: rest) = match entry x with
      | some e => readXMLVars (insertKey vars e.1 e.2) rest
      | none => if x.id.isNone then (false, vars) else (false, []) := by
  rw [readXMLVars, entry]
  cases x.id with
  | none => rfl
  | some uiVarID =>
    rcases readXMLAddrs x.addrs false {} with ⟨_ | _, _ | _, newAddr⟩ <;>
      simp [insert_eq]

/-- The whole reading: a missing ID keeps what has been inserted. -/
theorem readXMLVars_eq (vars : List (BitVec 32 × IOAddr)) (xs : List FieldVarXml) :
    readXMLVars vars xs = match offending xs with
      | none => (true, insertAll vars (leading xs))
      | some x => if x.id.isNone then (false, insertAll vars (leading xs)) else (false, []) := by
  induction xs generalizing vars with
  | nil => rfl
  | cons x rest ih =>
    rw [readXMLVars_cons, offending, List.find?_cons, leading]
    cases entry x with
    | none => rfl
    | some e => exact ih (insertKey vars e.1 e.2)

theorem readXMLVars_append (vars : List (BitVec 32 × IOAddr)) (xs ys : List FieldVarXml) :
    readXMLVars vars (xs ++ ys) = match readXMLVars vars xs with
      | (true, vars) => readXMLVars vars ys
      | (false, vars) => (false, vars) := by
  induction xs generalizing vars with
  | nil => rfl
  | cons x rest ih =>
    rw [List.cons_append, readXMLVars_cons, readXMLVars_cons]
    cases entry x with
    | none => cases x.id <;> rfl
    | some e => exact ih (insertKey vars e.1 e.2)

/-- The sections are read as one. -/
theorem readXMLSections_eq (vars : List (BitVec 32 × IOAddr)) (sections : List (List FieldVarXml)) :
    readXMLSections vars sections = readXMLVars vars sections.flatten := by
  induction sections generalizing vars with
  | nil => rfl
  | cons xs rest ih =>
    rw [List.flatten_cons, readXMLVars_append, readXMLSections]
    rcases readXMLVars vars xs with ⟨_ | _, vars'⟩
    · rfl
    · exact ih vars'

/-- The arguments of a call, with the answers of the libraries. -/
structure Call where
  file : Except String (Option SlaveXml)
  newTcp : Bool
  newMap : Bool
  strerror : String

/-- What becomes of the table. -/
inductive Fate where
  | untouched
  | cleared
  | filled (es : List (BitVec 32 × IOAddr))

def Fate.table (vars : List (BitVec 32 × IOAddr)) : Fate → List (BitVec 32 × IOAddr)
  | untouched => vars
  | cleared => []
  | filled es => insertAll vars es

namespace Call

/-- The root element, when the file has one with the four attributes. -/
def complete (c : Call) : Option (BitVec 32 × BitVec 32 × List FieldVarXml) :=
  match c.file with
  | .ok (some ⟨some _, some _, some numROInts, some numIOVars, fieldVars⟩) =>
    some (numROInts, numIOVars, fieldVars.flatten)
  | _ => none

/-- A file without an offending element, with variables, and libraries that succeed. -/
def Succeeds (c : Call) : Prop :=
  ∃ numROInts numIOVars xs, c.complete = some (numROInts, numIOVars, xs) ∧ offending xs = none ∧
    ¬ (numIOVars = 0 ∧ numROInts = 0) ∧ c.newTcp ∧ c.newMap

/-- The counts that the file sets. -/
def numROInts (c : Call) : Option (BitVec 32) :=
  match c.file with
  | .ok (some ⟨some _, some _, numROInts, _, _⟩) => numROInts
  | _ => none

def numIOVars (c : Call) : Option (BitVec 32) :=
  match c.file with
  | .ok (some ⟨some _, some _, some _, numIOVars, _⟩) => numIOVars
  | _ => none

/-- Elements without an address and refusals of the libraries empty the table;
a missing ID and a map without variables do not. -/
def fate (c : Call) : Fate :=
  match c.complete with
  | none => .untouched
  | some (numROInts, numIOVars, xs) =>
    match offending xs with
    | some x => if x.id.isNone then .filled (leading xs) else .cleared
    | none =>
      if (numIOVars = 0 ∧ numROInts = 0) ∨ (c.newTcp ∧ c.newMap) then .filled (leading xs)
      else .cleared

end Call

def init (s : ModbusSlaveDrv) (c : Call) : Bool × ModbusSlaveDrv :=
  s.init c.file c.newTcp c.newMap c.strerror

def nullMapping : ModbusMapping := .newStartAddress 0 0 0 0 0 0 0 0

/-- The driver is not initialised. -/
structure Idle (s : ModbusSlaveDrv) : Prop where
  state : s.mtDrvState = .unInit
  mapping : s.mpMBmapping = nullMapping

/-- The outcome of a call, as its arguments tell it. -/
structure Outcome (s : ModbusSlaveDrv) (c : Call) (r : Bool × ModbusSlaveDrv) : Prop where
  result : r.1 = true ↔ c.Succeeds
  fieldVars : r.2.mFieldVars = c.fate.table s.mFieldVars
  roInts : r.2.muiNumROInts = c.numROInts.getD s.muiNumROInts
  ioVars : r.2.muiNumIOVars = c.numIOVars.getD s.muiNumIOVars
  state : r.2.mtDrvState = if r.1 then .stopped else .unInit
  mapping : r.2.mpMBmapping = if r.1 then r.2.newMapping else nullMapping

theorem forced_kept (vars : List (BitVec 32 × IOAddr)) {s : ModbusSlaveDrv}
    (h : s.mpMBmapping = s.newMapping) :
    vars.foldl (fun s var => s.setForced var.2.uiChannel false) s = s := by
  induction vars with
  | nil => rfl
  | cons var vars ih =>
    have hbits : store s.mpMBmapping.tabBits (valAddr COILOFFSET var.2.uiChannel).toNat [false] =
        s.mpMBmapping.tabBits := by
      rw [h]
      funext i
      simp only [store, newMapping, ModbusMapping.newStartAddress]
      split
      · cases hcell : ([false] : List Bool)[i - (valAddr COILOFFSET var.2.uiChannel).toNat]? with
        | none => rfl
        | some b => exact List.mem_singleton.mp (List.mem_of_getElem? hcell)
      · rfl
    have hsame : s.setForced var.2.uiChannel false = s := by
      rw [ModbusSlaveDrv.setForced, hbits]
    rw [List.foldl_cons, hsame]
    exact ih

/-- A new mapping has no coil that `initMapping` could clear. -/
theorem initMapping_new (s : ModbusSlaveDrv) (h : s.mpMBmapping = s.newMapping) :
    s.initMapping = s :=
  forced_kept s.mFieldVars h

/-- A file that is not complete fails before the table. -/
theorem init_incomplete {s : ModbusSlaveDrv} (idle : Idle s) {c : Call} (h : c.complete = none) :
    Outcome s c (init s c) := by
  have hfails : ¬ c.Succeeds := by
    rintro ⟨_, _, _, hcomplete, _⟩
    rw [h] at hcomplete
    cases hcomplete
  have hfate : c.fate = .untouched := by
    rw [Call.fate, h]
  obtain ⟨file, newTcp, newMap, strerror⟩ := c
  have hloaded : ∀ s' : ModbusSlaveDrv, s.loadXMLConfig file = (false, s') →
      init s ⟨file, newTcp, newMap, strerror⟩ =
        (false, { s' with mstrLastError := "Error en archivo de configuracion" }) := by
    intro s' hload
    simp only [init, ModbusSlaveDrv.init]
    rw [if_neg (not_not_intro idle.state), hload]
  rcases file with text | _ | ⟨_ | ip, _ | port, _ | ro, _ | io, fieldVars⟩
  all_goals first
    | rw [hloaded _ rfl]
      exact ⟨iff_of_false Bool.false_ne_true hfails, by rw [hfate]; rfl, rfl, rfl, idle.state,
        idle.mapping⟩
    | cases h

/-- A complete file is read into the table. -/
theorem load_complete (s : ModbusSlaveDrv) (ip : String) (port : Int) (ro io : BitVec 32)
    (fieldVars : List (List FieldVarXml)) :
    s.loadXMLConfig (.ok (some ⟨some ip, some port, some ro, some io, fieldVars⟩)) =
      ((readXMLVars s.mFieldVars fieldVars.flatten).1,
        { s with
          mstrServerIp := ip, miPort := port, muiNumROInts := ro, muiNumIOVars := io
          mFieldVars := (readXMLVars s.mFieldVars fieldVars.flatten).2 }) := by
  simp only [loadXMLConfig, readXMLConfig]
  rw [readXMLSections_eq]

theorem lt_one_iff (v : BitVec 32) : v < 1#32 ↔ v = 0 := by
  rw [BitVec.lt_def]
  constructor
  · intro h
    exact BitVec.eq_of_toNat_eq (Nat.lt_one_iff.mp h)
  · rintro rfl
    decide

/-- The arguments of a call with a complete file. -/
def completeCall (ip : String) (port : Int) (ro io : BitVec 32)
    (fieldVars : List (List FieldVarXml)) (newTcp newMap : Bool) (strerror : String) : Call :=
  ⟨.ok (some ⟨some ip, some port, some ro, some io, fieldVars⟩), newTcp, newMap, strerror⟩

section Complete
variable {s : ModbusSlaveDrv} (idle : Idle s) (ip : String) (port : Int) {ro io : BitVec 32}
  {fieldVars : List (List FieldVarXml)} (newTcp newMap : Bool) (strerror : String)
include idle

theorem init_offending {x : FieldVarXml} (h : offending fieldVars.flatten = some x) :
    Outcome s (completeCall ip port ro io fieldVars newTcp newMap strerror)
      (init s (completeCall ip port ro io fieldVars newTcp newMap strerror)) := by
  have hfails : ¬ (completeCall ip port ro io fieldVars newTcp newMap strerror).Succeeds := by
    rintro ⟨_, _, xs, hcomplete, hnone, _⟩
    obtain rfl := (Prod.mk.inj (Prod.mk.inj (Option.some.inj hcomplete)).2).2
    rw [h] at hnone
    cases hnone
  have hload := load_complete s ip port ro io fieldVars
  rw [readXMLVars_eq, h] at hload
  simp only [init, completeCall, ModbusSlaveDrv.init]
  rw [if_neg (not_not_intro idle.state), hload]
  have hfate : (completeCall ip port ro io fieldVars newTcp newMap strerror).fate =
      if x.id.isNone then .filled (leading fieldVars.flatten) else .cleared := by
    simp only [Call.fate, completeCall, Call.complete]
    rw [h]
  rw [completeCall] at hfate hfails
  by_cases hid : x.id.isNone = true
  · rw [if_pos hid] at hfate
    simp only [if_pos hid]
    exact ⟨iff_of_false Bool.false_ne_true hfails, by rw [hfate]; rfl, rfl, rfl, idle.state,
      idle.mapping⟩
  · rw [if_neg hid] at hfate
    simp only [if_neg hid]
    exact ⟨iff_of_false Bool.false_ne_true hfails, by rw [hfate]; rfl, rfl, rfl, idle.state,
      idle.mapping⟩

theorem init_read (h : offending fieldVars.flatten = none) :
    Outcome s (completeCall ip port ro io fieldVars newTcp newMap strerror)
      (init s (completeCall ip port ro io fieldVars newTcp newMap strerror)) := by
  have hsucceeds : (completeCall ip port ro io fieldVars newTcp newMap strerror).Succeeds ↔
      ¬ (io = 0 ∧ ro = 0) ∧ newTcp ∧ newMap := by
    constructor
    · rintro ⟨ro', io', xs, hcomplete, _, hrest⟩
      obtain ⟨rfl, hpair⟩ := Prod.mk.inj (Option.some.inj hcomplete)
      obtain ⟨rfl, _⟩ := Prod.mk.inj hpair
      exact hrest
    · exact fun hrest => ⟨ro, io, fieldVars.flatten, rfl, h, hrest⟩
  have hfate : (completeCall ip port ro io fieldVars newTcp newMap strerror).fate =
      if (io = 0 ∧ ro = 0) ∨ (newTcp ∧ newMap) then .filled (leading fieldVars.flatten)
      else .cleared := by
    simp only [Call.fate, completeCall, Call.complete, h]
    exact if_congr Iff.rfl rfl rfl
  have hload := load_complete s ip port ro io fieldVars
  rw [readXMLVars_eq, h] at hload
  simp only [init, completeCall, ModbusSlaveDrv.init]
  rw [if_neg (not_not_intro idle.state), hload]
  rw [completeCall] at hfate hsucceeds
  simp only [lt_one_iff]
  by_cases hempty : io = 0 ∧ ro = 0
  · rw [if_pos (Or.inl hempty)] at hfate
    rw [if_pos hempty]
    exact ⟨iff_of_false Bool.false_ne_true (fun hs => (hsucceeds.mp hs).1 hempty),
      by rw [hfate]; rfl, rfl, rfl, idle.state, idle.mapping⟩
  rw [if_neg hempty]
  cases newTcp with
  | false =>
    rw [if_neg (fun hor => hor.elim hempty (fun hlib => Bool.false_ne_true hlib.1))] at hfate
    exact ⟨iff_of_false Bool.false_ne_true (fun hs => Bool.false_ne_true (hsucceeds.mp hs).2.1),
      by rw [hfate]; rfl, rfl, rfl, idle.state, idle.mapping⟩
  | true =>
    cases newMap with
    | false =>
      rw [if_neg (fun hor => hor.elim hempty (fun hlib => Bool.false_ne_true hlib.2))] at hfate
      exact ⟨iff_of_false Bool.false_ne_true (fun hs => Bool.false_ne_true (hsucceeds.mp hs).2.2),
        by rw [hfate]; rfl, rfl, rfl, idle.state, rfl⟩
    | true =>
      rw [if_pos (Or.inr ⟨rfl, rfl⟩)] at hfate
      simp only [not_true, if_false]
      rw [initMapping_new _ rfl]
      exact ⟨iff_of_true rfl (hsucceeds.mpr ⟨hempty, rfl, rfl⟩), by rw [hfate]; rfl, rfl, rfl, rfl,
        rfl⟩

end Complete

theorem init_outcome {s : ModbusSlaveDrv} (idle : Idle s) (c : Call) : Outcome s c (init s c) := by
  cases hcomplete : c.complete with
  | none => exact init_incomplete idle hcomplete
  | some parts =>
    obtain ⟨file, newTcp, newMap, strerror⟩ := c
    rcases file with text | _ | ⟨_ | ip, _ | port, _ | ro, _ | io, fieldVars⟩
    all_goals try cases hcomplete
    cases hoffending : offending fieldVars.flatten with
    | some x => exact init_offending idle ip port newTcp newMap strerror hoffending
    | none => exact init_read idle ip port newTcp newMap strerror hoffending

/-- A driver that has just been constructed; the port and the counts are what the
memory holds. -/
def fresh (memory : ModbusSlaveDrv) : ModbusSlaveDrv :=
  { memory with
    mFieldVars := [], mstrServerIp := "", mpMBCtx := none, mpMBmapping := nullMapping
    mtDrvState := .unInit, mstrLastError := "" }

/-- The tables are compared as maps, whose order does not matter. -/
structure SameOutcome (r r' : Bool × ModbusSlaveDrv) : Prop where
  result : r.1 = r'.1
  fieldVars : ∀ uiVarID, r.2.mFieldVars.lookup uiVarID = r'.2.mFieldVars.lookup uiVarID
  roInts : r.2.muiNumROInts = r'.2.muiNumROInts
  ioVars : r.2.muiNumIOVars = r'.2.muiNumIOVars
  mapping : r.2.mpMBmapping = r'.2.mpMBmapping
  state : r.2.mtDrvState = r'.2.mtDrvState

/-- A count that the first file sets is set again by the second, or is what the
memory held anyway. -/
def CountCovered (first second : Option (BitVec 32)) (memory : BitVec 32) : Prop :=
  second.isSome ∨ first.getD memory = memory

/-- What the first call leaves in the table is emptied by the second, or part of
what the second inserts. -/
def Fate.Covered : Fate → Fate → Prop
  | .filled es, .untouched => es = []
  | .filled es, .filled es' => ∀ uiVarID tAddr, es.lookup uiVarID = some tAddr →
    es'.lookup uiVarID = some tAddr
  | _, _ => True

structure Traceless (memory : ModbusSlaveDrv) (c₁ c₂ : Call) : Prop where
  table : c₁.fate.Covered c₂.fate
  roInts : CountCovered c₁.numROInts c₂.numROInts memory.muiNumROInts
  ioVars : CountCovered c₁.numIOVars c₂.numIOVars memory.muiNumIOVars

theorem getD_covered_iff (first second : Option (BitVec 32)) (memory : BitVec 32) :
    second.getD (first.getD memory) = second.getD memory ↔ CountCovered first second memory := by
  cases second with
  | none => simp [CountCovered]
  | some v => simp [CountCovered]

theorem lookup_table (vars : List (BitVec 32 × IOAddr)) (es : List (BitVec 32 × IOAddr))
    (uiVarID : BitVec 32) :
    ((Fate.filled es).table vars).lookup uiVarID = (vars.lookup uiVarID).or (es.lookup uiVarID) :=
  lookup_insertAll es vars uiVarID

theorem table_covered_iff (f₁ f₂ : Fate) :
    (∀ uiVarID, (f₂.table (f₁.table [])).lookup uiVarID = (f₂.table []).lookup uiVarID) ↔
      f₁.Covered f₂ := by
  cases f₁ with
  | untouched => exact iff_of_true (fun _ => rfl) (by cases f₂ <;> trivial)
  | cleared => exact iff_of_true (fun _ => rfl) (by cases f₂ <;> trivial)
  | filled es =>
    cases f₂ with
    | cleared => exact iff_of_true (fun _ => rfl) trivial
    | untouched =>
      simp only [Fate.table, Fate.Covered]
      constructor
      · intro h
        rw [eq_nil_iff_lookup]
        intro uiVarID
        have hid := h uiVarID
        rwa [insertAll, lookup_insertAll] at hid
      · rintro rfl uiVarID
        rfl
    | filled es' =>
      simp only [lookup_table, Fate.Covered]
      constructor
      · intro h uiVarID tAddr hfirst
        have hid := h uiVarID
        simpa [hfirst] using hid.symm
      · intro h uiVarID
        cases hfirst : es.lookup uiVarID with
        | none => simp
        | some tAddr => simp [h uiVarID tAddr hfirst]

theorem Idle.after {s : ModbusSlaveDrv} (idle : Idle s) {c : Call} (failed : (init s c).1 = false) :
    Idle (init s c).2 := by
  have outcome := init_outcome idle c
  have hstate := outcome.state
  have hmapping := outcome.mapping
  rw [failed] at hstate hmapping
  exact ⟨hstate, hmapping⟩

/-- A call after a failed one ends like the first call of a driver exactly when
the failed one left nothing that the second does not cover. -/
theorem failed_init_traceless_iff (memory : ModbusSlaveDrv) (c₁ c₂ : Call)
    (failed : (init (fresh memory) c₁).1 = false) :
    SameOutcome (init (init (fresh memory) c₁).2 c₂) (init (fresh memory) c₂) ↔
      Traceless memory c₁ c₂ := by
  have idle : Idle (fresh memory) := ⟨rfl, rfl⟩
  have first := init_outcome idle c₁
  have again := init_outcome (idle.after failed) c₂
  have alone := init_outcome idle c₂
  have hresult : (init (init (fresh memory) c₁).2 c₂).1 = (init (fresh memory) c₂).1 :=
    Bool.eq_iff_iff.mpr (again.result.trans alone.result.symm)
  have hfieldVars := again.fieldVars
  have hroInts := again.roInts
  have hioVars := again.ioVars
  rw [first.fieldVars] at hfieldVars
  rw [first.roInts] at hroInts
  rw [first.ioVars] at hioVars
  constructor
  · intro same
    refine ⟨?_, ?_, ?_⟩
    · rw [← table_covered_iff]
      intro uiVarID
      have hid := same.fieldVars uiVarID
      rwa [hfieldVars, alone.fieldVars] at hid
    · rw [← getD_covered_iff]
      exact hroInts.symm.trans (same.roInts.trans alone.roInts)
    · rw [← getD_covered_iff]
      exact hioVars.symm.trans (same.ioVars.trans alone.ioVars)
  · intro traceless
    have hro : (init (init (fresh memory) c₁).2 c₂).2.muiNumROInts =
        (init (fresh memory) c₂).2.muiNumROInts :=
      hroInts.trans (((getD_covered_iff _ _ _).mpr traceless.roInts).trans alone.roInts.symm)
    have hio : (init (init (fresh memory) c₁).2 c₂).2.muiNumIOVars =
        (init (fresh memory) c₂).2.muiNumIOVars :=
      hioVars.trans (((getD_covered_iff _ _ _).mpr traceless.ioVars).trans alone.ioVars.symm)
    refine ⟨hresult, fun uiVarID => ?_, hro, hio, ?_, ?_⟩
    · rw [hfieldVars, alone.fieldVars]
      exact (table_covered_iff c₁.fate c₂.fate).mpr traceless.table uiVarID
    · rw [again.mapping, alone.mapping, hresult, newMapping, newMapping, hro, hio]
    · rw [again.state, alone.state, hresult]

def memory : ModbusSlaveDrv :=
  { mbArchLittleEnd := true, mFieldVars := [], mstrServerIp := "", miPort := 0, muiNumIOVars := 0
    muiNumROInts := 0, mpMBCtx := none, mpMBmapping := nullMapping, uiComErrors := 0
    mtDrvState := .unInit, mstrLastError := "" }

def fieldVar (id : Option (BitVec 32)) (ch : BitVec 8) : FieldVarXml :=
  ⟨id, [⟨some 0, some 0, some ch, some 0⟩]⟩

/-- Five RO ints and 146 variables, with the field variables of a file. -/
def slaveCall (vars : List FieldVarXml) (newTcp : Bool) : Call :=
  completeCall "192.168.1.43" (-1) 5 146 [vars] newTcp true "Address in use"

/-- The library refuses the context, and the same file is read again. -/
theorem refused_context_traceless :
    SameOutcome
        (init (init (fresh memory) (slaveCall [fieldVar (some 1000000017) 139] false)).2
          (slaveCall [fieldVar (some 1000000017) 139] true))
        (init (fresh memory) (slaveCall [fieldVar (some 1000000017) 139] true)) ↔
      Traceless memory (slaveCall [fieldVar (some 1000000017) 139] false)
        (slaveCall [fieldVar (some 1000000017) 139] true) :=
  failed_init_traceless_iff memory _ _ (by decide)

/-- A file whose second variable has no ID, then one where the first variable is
on another channel. -/
theorem missing_id_leaves_variable :
    (init (fresh memory) (slaveCall [fieldVar (some 1000000017) 139, fieldVar none 140] true)).1 =
        false ∧
      ¬ SameOutcome
        (init (init (fresh memory)
          (slaveCall [fieldVar (some 1000000017) 139, fieldVar none 140] true)).2
          (slaveCall [fieldVar (some 1000000017) 140] true))
        (init (fresh memory) (slaveCall [fieldVar (some 1000000017) 140] true)) := by
  refine ⟨by decide, fun same => ?_⟩
  exact absurd (same.fieldVars 1000000017) (by decide)

end InitTraces
