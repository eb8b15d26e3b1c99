import TurbineGovernor.ChangeNotification
import TurbineGovernor.WordLayout

/-!
# The start-up of the HMI

The main window is shown when `RegImage` emits `allVarsUpdated`, once as many
different variables have been reported as `init` has counted. It counts the
variables of the IO information file before the driver leaves out those that
its map does not have.
-/

namespace StartUp
open CommonTypes TransitionRuns KeyedTables PriorityQueues RegulatorAlarms MasterDriver HmiImage
open ChangeNotification WordLayout

/-- A token of the XML reader. A missing attribute, one of several needed, is
`none`, and so is a text that is none of those compared with. -/
inductive Token where
  | var (attributes : Option (BitVec 32 × Option Fr))
  | hmi (use : Option (Option Use))
  | remAddr (attributes : Option (BitVec 8 × BitVec 8 × BitVec 8))
  | other

/-- The variables of `parseXmlVar`. -/
structure VarReading where
  uiId : BitVec 32
  strFr : Fr
  strUse : Option Use := none
  tAddr : IOAddr := {}
  bUseReaded : Bool := false
  bAddrReaded : Bool := false

structure Parsed where
  vars : RegVars
  slaveVarsToUpdate : Finset IOAddr
  fieldVarsToUpdate : Finset IOAddr

namespace VarReading

/-- The body of the loop of `parseXmlVar`. A use that is not known replaces the
text, but the flag stays. -/
def read (v : VarReading) : Token → VarReading
  | .hmi (some strUse) =>
    { v with strUse := strUse, bUseReaded := v.bUseReaded || strUse.isSome }
  | .remAddr (some (uiHeader, uiModule, uiChannel)) =>
    { v with
      tAddr := { uiHeader := uiHeader, uiModule := uiModule, uiChannel := uiChannel }
      bAddrReaded := true }
  | _ => v

/-- The part of `parseXmlVar` after the loop; only `RW` is polled. -/
def finish (v : VarReading) (p : Parsed) : Option Parsed :=
  if v.bUseReaded = true ∧ v.bAddrReaded = true ∧ v.strUse ≠ some .NO then
    let r := p.vars.parseXmlVar p.slaveVarsToUpdate p.fieldVarsToUpdate
      ⟨v.uiId, v.strFr, v.strUse.getD .WO, v.tAddr⟩
    some ⟨r.1, r.2.1, r.2.2⟩
  else none

end VarReading

/-- The loop of `parseRegIOInfo`, or that of `parseXmlVar` for the variable in
hand. The latter takes one more token before it sees that nothing is missing,
and also ends with the file. -/
def readTokens : Option VarReading → Parsed → List Token → Option Parsed
  | none, p, [] => some p
  | some v, p, [] => v.finish p
  | none, p, .var (some (uiId, some strFr)) :: ts =>
    readTokens (some { uiId := uiId, strFr := strFr }) p ts
  | none, _, .var _ :: _ => none
  | none, p, _ :: ts => readTokens none p ts
  | some v, p, t :: ts =>
    if v.bUseReaded && v.bAddrReaded then
      match v.finish p with
      | none => none
      | some p => readTokens none p ts
    else readTokens (some (v.read t)) p ts

/-- There are no tokens of a file that cannot be opened or has other elements
around the variables. -/
def parseRegIOInfo (regIOInfo : Option (List Token)) : Option Parsed :=
  regIOInfo.bind (readTokens none ⟨RegVars.empty, ∅, ∅⟩)

def SE_REG_F1 : BitVec 32 := 3000000001
def SE_REG_F2 : BitVec 32 := 3000000002
def SE_REG_F3 : BitVec 32 := 3000000003
def ZC_REG_SSP : BitVec 32 := 1000000019
def ZC_REG_PWSP : BitVec 32 := 1000000017
def ZC_REG_OPSP : BitVec 32 := 1000000018
def ZR_REG_PWSP : BitVec 32 := 2000000012
def ZR_REG_OPSP : BitVec 32 := 2000000013

/-- The numbers of words, computed by `RegImage::init`. -/
def counts : Counts :=
  regImage Config.regulator.NUM_ALARMS Config.regulator.FLD_IN_VARS Config.regulator.FLD_OUT_VARS

namespace Parsed
variable (p : Parsed)

/-- The units and limits of these variables are set through unchecked pointers. -/
def hasSetPoints : Bool :=
  [SE_REG_F1, SE_REG_F2, SE_REG_F3, ZR_REG_PWSP, ZR_REG_OPSP].all
      (fun id => (p.vars.mumSlaveVars.lookup id).isSome) &&
    [ZC_REG_SSP, ZC_REG_PWSP, ZC_REG_OPSP].all (fun id => (p.vars.mumFieldVars.lookup id).isSome)

def usSlaveVarsToUpdate : Finset IOAddr :=
  p.slaveVarsToUpdate ∪ counts.usSlaveVarsToUpdate.toFinset

end Parsed

/-- `RegImage` with the driver under it. `allVarsUpdated` counts the signals and
`reported` keeps the variables given to `newVarUpdated` since `init`. -/
structure Hmi (Q : Type) where
  system : System Q
  muiVarsToUpdate : BitVec 32
  usLastVarChanges : Option (Finset IOAddr)
  allVarsUpdated : Nat
  reported : Finset IOAddr

variable {Q : Type}

section Init
variable [PriorityQueue Q WriteReq WriteReq.Less]

/-- `RegImage::init` of a new object. The lists are the sets in the order in
which the driver goes through them. Without one of the set points the program
ends. -/
def init (mbArchLittleEnd : Bool) (regIOInfo : Option (List Token))
    (masterDrvConfig : Except String (Option MasterXml)) (slaveVars fieldVars : List IOAddr)
    (newTcp : Bool) (strerror : String) : Option (Hmi Q) :=
  match parseRegIOInfo regIOInfo with
  | none => none
  | some p =>
    if p.hasSetPoints = true ∧ slaveVars.toFinset = p.usSlaveVarsToUpdate ∧
        fieldVars.toFinset = p.fieldVarsToUpdate then
      match (ModbusMasterDrv.fresh mbArchLittleEnd).init masterDrvConfig slaveVars fieldVars newTcp
          strerror with
      | (false, _) => none
      | (true, mMasterDrv) => some
        { system :=
            { driver := mMasterDrv, inRead := none, update := .idle, emitted := fun _ => none
              image := ⟨p.vars, BitVec.ofNat 32 counts.total⟩ }
          muiVarsToUpdate :=
            BitVec.ofNat 32 (p.usSlaveVarsToUpdate.card + p.fieldVarsToUpdate.card)
          usLastVarChanges := some ∅
          allVarsUpdated := 0
          reported := ∅ }
    else none

end Init

namespace Hmi

def newVarUpdated (h : Hmi Q) (tAddr : IOAddr) : Hmi Q :=
  match h.usLastVarChanges with
  | none => h
  | some usLastVarChanges =>
    if (insert tAddr usLastVarChanges).card = h.muiVarsToUpdate.toNat then
      { h with usLastVarChanges := none, allVarsUpdated := h.allVarsUpdated + 1 }
    else { h with usLastVarChanges := some (insert tAddr usLastVarChanges) }

/-- A variable that could be read is reported and counted. -/
def step (h : Hmi Q) (l : Label) : Hmi Q :=
  let h' := { h with system := h.system.step l }
  match l with
  | .read tAddr =>
    if tAddr ∈ h.system.toRead ∧ (h.system.recordAt h.system.driver tAddr).isSome then
      { h' with reported := insert tAddr h.reported }.newVarUpdated tAddr
    else h'
  | _ => h'

/-- The addresses of the tables of the driver. -/
def polled (h : Hmi Q) : Finset IOAddr :=
  (h.system.driver.mModbusVars.map Prod.fst).toFinset ∪
    (h.system.driver.mFieldVars.map Prod.fst).toFinset

/-- The polled addresses that `updateImage` can report. -/
def reportable (h : Hmi Q) : Finset IOAddr :=
  h.polled.filter (fun tAddr => (h.system.recordAt h.system.driver tAddr).isSome = true)

end Hmi

/-- The signal comes once, not before every polled variable has been reported,
and by then, since that many are awaited. -/
structure StartsUp (h : Hmi Q) : Prop where
  once : ∀ ls, (run Hmi.step h ls).allVarsUpdated ≤ 1
  complete : ∀ ls, (run Hmi.step h ls).allVarsUpdated ≠ 0 →
    (run Hmi.step h ls).polled ⊆ (run Hmi.step h ls).reported
  prompt : ∀ ls, (run Hmi.step h ls).polled ⊆ (run Hmi.step h ls).reported →
    (run Hmi.step h ls).allVarsUpdated = 1
  awaited : ∀ ls, (run Hmi.step h ls).muiVarsToUpdate.toNat = (run Hmi.step h ls).reportable.card

namespace Parsed

/-- The map of the driver has every variable of the file and every RO int, none
of them as a variable of the slave and of the field, and no variable of the
field is taken for an RO int. -/
structure Mapped (p : Parsed) (NumROInts NumIOVars : BitVec 32) : Prop where
  slave : ∀ tAddr ∈ p.usSlaveVarsToUpdate, 1 ≤ tAddr.uiChannel.toNat ∧
    tAddr.uiChannel.toNat ≤ (NumIOVars + NumROInts).toNat
  field : ∀ tAddr ∈ p.fieldVarsToUpdate, NumROInts.toNat < tAddr.uiChannel.toNat ∧
    counts.total < tAddr.uiChannel.toNat ∧
    tAddr.uiChannel.toNat ≤ (NumIOVars + NumROInts).toNat
  distinct : Disjoint p.usSlaveVarsToUpdate p.fieldVarsToUpdate

end Parsed

/-- An address to poll has been read attribute by attribute and can be found. -/
def Parsed.Known (p : Parsed) : Prop :=
  ∀ tAddr ∈ p.slaveVarsToUpdate ∪ p.fieldVarsToUpdate,
    tAddr.uiNumBits = 0 ∧ (p.vars.mumVars.lookup tAddr).isSome = true

theorem VarReading.read_numBits {v : VarReading} (hv : v.tAddr.uiNumBits = 0) (t : Token) :
    (v.read t).tAddr.uiNumBits = 0 := by
  simp only [read]
  split
  · exact hv
  · rfl
  · exact hv

theorem VarReading.finish_known {v : VarReading} {p p' : Parsed} (hv : v.tAddr.uiNumBits = 0)
    (hp : p.Known) (h : v.finish p = some p') : p'.Known := by
  have hinserted : ∀ (var : RegVar) (tAddr : IOAddr),
      tAddr = v.tAddr ∨ tAddr ∈ p.slaveVarsToUpdate ∪ p.fieldVarsToUpdate →
      tAddr.uiNumBits = 0 ∧
        ((insertKey p.vars.mumVars v.tAddr var).lookup tAddr).isSome = true := by
    intro var tAddr hmem
    rw [lookup_insertKey]
    rcases hmem with rfl | hmem
    · rw [if_pos rfl]
      exact ⟨hv, rfl⟩
    · refine ⟨(hp tAddr hmem).1, ?_⟩
      split
      · rfl
      · exact (hp tAddr hmem).2
  simp only [finish] at h
  split at h
  · obtain rfl := Option.some.inj h
    intro tAddr hmem
    cases huse : v.strUse.getD .WO with
    | NO =>
      simp only [huse, RegVars.parseXmlVar] at hmem ⊢
      exact hp tAddr hmem
    | WO =>
      cases hfr : v.strFr <;> simp only [huse, hfr, RegVars.parseXmlVar] at hmem ⊢ <;>
        exact hinserted _ tAddr (Or.inr (by simpa using hmem))
    | RW =>
      cases hfr : v.strFr <;> simp only [huse, hfr, RegVars.parseXmlVar, if_true] at hmem ⊢
      · rw [Finset.union_insert] at hmem
        exact hinserted _ tAddr (Finset.mem_insert.mp hmem)
      · rw [Finset.insert_union] at hmem
        exact hinserted _ tAddr (Finset.mem_insert.mp hmem)
  · cases h

theorem readTokens_known {reading : Option VarReading} {p p' : Parsed} {ts : List Token}
    (hreading : ∀ v, reading = some v → v.tAddr.uiNumBits = 0) (hp : p.Known)
    (h : readTokens reading p ts = some p') : p'.Known := by
  induction reading, p, ts using readTokens.induct with
  | case1 p =>
    obtain rfl := Option.some.inj h
    exact hp
  | case2 v p => exact v.finish_known (hreading v rfl) hp h
  | case3 p uiId strFr ts ih =>
    refine ih (fun v hv => ?_) hp h
    obtain rfl := Option.some.inj hv
    rfl
  | case4 p attributes ts hmissing => simp only [readTokens, reduceCtorEq] at h
  | case5 p t ts hvar hvar' ih =>
    refine ih (fun v hv => by cases hv) hp ?_
    rwa [readTokens] at h
    · exact hvar
    · exact hvar'
  | case6 v p t ts hread hno => simp only [readTokens, if_pos hread, hno, reduceCtorEq] at h
  | case7 v p t ts hread p₁ hfinish ih =>
    simp only [readTokens, if_pos hread, hfinish] at h
    exact ih (fun v hv => by cases hv) (v.finish_known (hreading v rfl) hp hfinish) h
  | case8 v p t ts hmissing ih =>
    simp only [readTokens, if_neg hmissing] at h
    refine ih (fun w hw => ?_) hp h
    obtain rfl := Option.some.inj hw
    exact v.read_numBits (hreading v rfl) t

theorem parse_known {regIOInfo : Option (List Token)} {p : Parsed}
    (h : parseRegIOInfo regIOInfo = some p) : p.Known := by
  cases regIOInfo with
  | none => cases h
  | some ts =>
    refine readTokens_known (fun v hv => by cases hv) ?_ h
    intro tAddr hmem
    simp at hmem

/-- Three bytes tell the addresses apart. -/
theorem card_le {addrs : Finset IOAddr} (h : ∀ tAddr ∈ addrs, tAddr.uiNumBits = 0) :
    addrs.card ≤ 2 ^ 24 := by
  have hcode : ∀ a ∈ addrs, a.uiHeader.toNat * 65536 + a.uiModule.toNat * 256 + a.uiChannel.toNat ∈
      Finset.range (2 ^ 24) := by
    intro a _
    rw [Finset.mem_range]
    omega
  have hcard := Finset.card_le_card_of_injOn _ hcode ?_
  · rwa [Finset.card_range] at hcard
  · intro a ha b hb hab
    dsimp only at hab
    have hheader : a.uiHeader = b.uiHeader := BitVec.eq_of_toNat_eq (by omega)
    have hmodule : a.uiModule = b.uiModule := BitVec.eq_of_toNat_eq (by omega)
    have hchannel : a.uiChannel = b.uiChannel := BitVec.eq_of_toNat_eq (by omega)
    have hbits : a.uiNumBits = b.uiNumBits := (h a ha).trans (h b hb).symm
    cases a
    cases b
    simp_all

theorem Parsed.Known.numBits {p : Parsed} (hp : p.Known) :
    (∀ tAddr ∈ p.usSlaveVarsToUpdate, tAddr.uiNumBits = 0) ∧
      ∀ tAddr ∈ p.fieldVarsToUpdate, tAddr.uiNumBits = 0 := by
  constructor
  · intro tAddr hmem
    rcases Finset.mem_union.mp hmem with hmem | hmem
    · exact (hp tAddr (Finset.mem_union_left _ hmem)).1
    · obtain ⟨i, _, _, rfl⟩ := (mem_usSlaveVarsToUpdate counts tAddr).mp (List.mem_toFinset.mp hmem)
      rfl
  · exact fun tAddr hmem => (hp tAddr (Finset.mem_union_right _ hmem)).1

/-- The number of awaited variables fits into its type. -/
theorem Parsed.Known.toNat_card {p : Parsed} (hp : p.Known) :
    (BitVec.ofNat 32 (p.usSlaveVarsToUpdate.card + p.fieldVarsToUpdate.card)).toNat =
      p.usSlaveVarsToUpdate.card + p.fieldVarsToUpdate.card := by
  have hslave := card_le hp.numBits.1
  have hfield := card_le hp.numBits.2
  rw [BitVec.toNat_ofNat]
  omega

/-- What `init` leaves of the two sets, counted before the driver has filtered them. -/
structure Initial (p : Parsed) (NumROInts NumIOVars : BitVec 32) (h : Hmi Q) : Prop where
  known : p.Known
  modbus : ∀ tAddr, tAddr ∈ h.system.driver.mModbusVars.map Prod.fst ↔
    tAddr ∈ p.usSlaveVarsToUpdate ∧ 1 ≤ tAddr.uiChannel.toNat ∧
      tAddr.uiChannel.toNat ≤ (NumIOVars + NumROInts).toNat
  field : ∀ tAddr, tAddr ∈ h.system.driver.mFieldVars.map Prod.fst ↔
    tAddr ∈ p.fieldVarsToUpdate ∧ NumROInts.toNat < tAddr.uiChannel.toNat ∧
      tAddr.uiChannel.toNat ≤ (NumIOVars + NumROInts).toNat
  image : h.system.image = ⟨p.vars, BitVec.ofNat 32 counts.total⟩
  awaited : h.muiVarsToUpdate.toNat = p.usSlaveVarsToUpdate.card + p.fieldVarsToUpdate.card
  waiting : h.usLastVarChanges = some ∅
  silent : h.allVarsUpdated = 0
  unreported : h.reported = ∅

section Init
variable [PriorityQueue Q WriteReq WriteReq.Less]

theorem driver_init {little : Bool} {ip : String} {port : Int} {NumROInts NumIOVars : BitVec 32}
    {slaveVars fieldVars : List IOAddr} {newTcp : Bool} {strerror : String} {d : ModbusMasterDrv Q}
    (h : (ModbusMasterDrv.fresh little).init
      (.ok (some ⟨some ip, some port, some NumROInts, some NumIOVars⟩)) slaveVars fieldVars newTcp
      strerror = (true, d)) :
    d.mModbusVars = (ModbusMasterDrv.insertVars
      { (ModbusMasterDrv.fresh little : ModbusMasterDrv Q) with
        muiNumROInts := NumROInts
        muiNumIOVars := NumIOVars } slaveVars fieldVars).mModbusVars ∧
    d.mFieldVars = (ModbusMasterDrv.insertVars
      { (ModbusMasterDrv.fresh little : ModbusMasterDrv Q) with
        muiNumROInts := NumROInts
        muiNumIOVars := NumIOVars } slaveVars fieldVars).mFieldVars := by
  simp only [ModbusMasterDrv.init, ModbusMasterDrv.fresh, ModbusMasterDrv.loadXMLConfig,
    ModbusMasterDrv.readXMLConfig] at h
  rw [if_neg (not_not.mpr rfl)] at h
  split at h
  · cases h
  split at h
  · obtain rfl := (Prod.mk.inj h).2
    exact ⟨rfl, rfl⟩
  · cases h

theorem init_initial {little : Bool} {regIOInfo : Option (List Token)} {ip : String} {port : Int}
    {NumROInts NumIOVars : BitVec 32} {slaveVars fieldVars : List IOAddr} {newTcp : Bool}
    {strerror : String} {h : Hmi Q}
    (hinit : init little regIOInfo
      (.ok (some ⟨some ip, some port, some NumROInts, some NumIOVars⟩)) slaveVars fieldVars newTcp
      strerror = some h) :
    ∃ p, parseRegIOInfo regIOInfo = some p ∧ Initial p NumROInts NumIOVars h := by
  simp only [init] at hinit
  cases hparse : parseRegIOInfo regIOInfo with
  | none =>
    rw [hparse] at hinit
    cases hinit
  | some p =>
    simp only [hparse] at hinit
    split at hinit
    · rename_i hsets
      obtain ⟨_, hslave, hfield⟩ := hsets
      split at hinit
      · cases hinit
      · rename_i d hdriver
        obtain ⟨hmodbusVars, hfieldVars⟩ := driver_init hdriver
        obtain rfl := Option.some.inj hinit
        have hmem := ModbusMasterDrv.mem_insertVars { (ModbusMasterDrv.fresh little :
          ModbusMasterDrv Q) with muiNumROInts := NumROInts, muiNumIOVars := NumIOVars }
          slaveVars fieldVars
        refine ⟨p, rfl, ?_⟩
        constructor
        · exact parse_known hparse
        · intro tAddr
          dsimp only
          rw [hmodbusVars, (hmem tAddr).1, ← hslave, List.mem_toFinset]
          simp [ModbusMasterDrv.fresh]
        · intro tAddr
          dsimp only
          rw [hfieldVars, (hmem tAddr).2, ← hfield, List.mem_toFinset]
          simp [ModbusMasterDrv.fresh]
        · rfl
        · exact (parse_known hparse).toNat_card
        · rfl
        · rfl
        · rfl
    · cases hinit

end Init

/-- Parts of two sets have as many elements together as both sets only when
nothing is left out and nothing counted twice. -/
theorem card_union_eq_iff {A B S F : Finset IOAddr} (hA : A ⊆ S) (hB : B ⊆ F) :
    (A ∪ B).card = S.card + F.card ↔ A = S ∧ B = F ∧ Disjoint S F := by
  constructor
  · intro hcard
    have hle := Finset.card_union_le A B
    have hleA := Finset.card_le_card hA
    have hleB := Finset.card_le_card hB
    obtain rfl := Finset.eq_of_subset_of_card_le hA (by omega)
    obtain rfl := Finset.eq_of_subset_of_card_le hB (by omega)
    exact ⟨rfl, rfl, Finset.card_union_eq_card_add_card.mp hcard⟩
  · rintro ⟨rfl, rfl, hdisjoint⟩
    exact Finset.card_union_of_disjoint hdisjoint

theorem isROInt_iff (tAddr : IOAddr) :
    (BitVec.ofNat 32 counts.total > 0 ∧ tAddr.uiChannel ≥ 1 ∧
        tAddr.uiChannel.setWidth 32 ≤ BitVec.ofNat 32 counts.total) ↔
      1 ≤ tAddr.uiChannel.toNat ∧ tAddr.uiChannel.toNat ≤ counts.total := by
  have htotal : counts.total = 4 := by decide
  have hone : (1#8).toNat = 1 := rfl
  rw [htotal, ge_iff_le, BitVec.le_def, BitVec.le_def, BitVec.toNat_setWidth,
    Nat.mod_eq_of_lt (by omega)]
  constructor
  · rintro ⟨_, hlow, hhigh⟩
    exact ⟨hlow, hhigh⟩
  · rintro ⟨hlow, hhigh⟩
    exact ⟨by decide, hlow, hhigh⟩

section Reportable
variable {p : Parsed} {NumROInts NumIOVars : BitVec 32} {h : Hmi Q}

theorem Initial.mem_polled (hinit : Initial p NumROInts NumIOVars h) (tAddr : IOAddr) :
    tAddr ∈ h.polled ↔
      (tAddr ∈ p.usSlaveVarsToUpdate ∧ 1 ≤ tAddr.uiChannel.toNat ∧
        tAddr.uiChannel.toNat ≤ (NumIOVars + NumROInts).toNat) ∨
      (tAddr ∈ p.fieldVarsToUpdate ∧ NumROInts.toNat < tAddr.uiChannel.toNat ∧
        tAddr.uiChannel.toNat ≤ (NumIOVars + NumROInts).toNat) := by
  simp only [Hmi.polled]
  rw [Finset.mem_union, List.mem_toFinset, List.mem_toFinset, hinit.modbus, hinit.field]

/-- A variable to poll that is not read as an RO int is one of the file. -/
theorem Initial.known_of_high (hinit : Initial p NumROInts NumIOVars h) {tAddr : IOAddr}
    (hmem : tAddr ∈ p.usSlaveVarsToUpdate ∪ p.fieldVarsToUpdate)
    (hhigh : counts.total < tAddr.uiChannel.toNat) :
    (p.vars.mumVars.lookup tAddr).isSome = true := by
  refine (hinit.known tAddr ?_).2
  rw [Parsed.usSlaveVarsToUpdate, Finset.mem_union, Finset.mem_union, List.mem_toFinset,
    mem_usSlaveVarsToUpdate] at hmem
  rcases hmem with (hmem | ⟨i, _, hi, rfl⟩) | hmem
  · exact Finset.mem_union_left _ hmem
  · have htotal : counts.total = 4 := by decide
    rw [toNat_channelAddr (by omega)] at hhigh
    omega
  · exact Finset.mem_union_right _ hmem

theorem Initial.mem_reportable (hinit : Initial p NumROInts NumIOVars h) (tAddr : IOAddr) :
    tAddr ∈ h.reportable ↔
      (tAddr ∈ p.usSlaveVarsToUpdate ∧ 1 ≤ tAddr.uiChannel.toNat ∧
        tAddr.uiChannel.toNat ≤ (NumIOVars + NumROInts).toNat) ∨
      (tAddr ∈ p.fieldVarsToUpdate ∧ NumROInts.toNat < tAddr.uiChannel.toNat ∧
        counts.total < tAddr.uiChannel.toNat ∧
        tAddr.uiChannel.toNat ≤ (NumIOVars + NumROInts).toNat) := by
  have hmodbus := (lookup_isSome_iff h.system.driver.mModbusVars tAddr).trans (hinit.modbus tAddr)
  have hfield := (lookup_isSome_iff h.system.driver.mFieldVars tAddr).trans (hinit.field tAddr)
  have hrecord := record_isSome_iff h.system.image h.system.driver.mFieldVars
    h.system.driver.mModbusVars tAddr
  rw [hinit.image] at hrecord
  simp only [isROInt_iff, hmodbus, hfield] at hrecord
  unfold Hmi.reportable System.recordAt
  rw [Finset.mem_filter, hinit.mem_polled, hinit.image, hrecord]
  by_cases hlow : 1 ≤ tAddr.uiChannel.toNat ∧ tAddr.uiChannel.toNat ≤ counts.total
  · rw [if_pos hlow]
    constructor
    · rintro ⟨_, hslave⟩
      exact Or.inl hslave
    · rintro (hslave | ⟨_, _, hhigh, _⟩)
      · exact ⟨Or.inl hslave, hslave⟩
      · omega
  · rw [if_neg hlow]
    constructor
    · rintro ⟨hslave | ⟨hmem, hfirst, hlast⟩, _⟩
      · exact Or.inl hslave
      · exact Or.inr ⟨hmem, hfirst, by omega, hlast⟩
    · rintro (⟨hmem, hfirst, hlast⟩ | ⟨hmem, hfirst, hhigh, hlast⟩)
      · exact ⟨Or.inl ⟨hmem, hfirst, hlast⟩,
          hinit.known_of_high (Finset.mem_union_left _ hmem) (by omega),
          Or.inl ⟨hmem, hfirst, hlast⟩⟩
      · exact ⟨Or.inr ⟨hmem, hfirst, hlast⟩,
          hinit.known_of_high (Finset.mem_union_right _ hmem) hhigh,
          Or.inr ⟨hmem, hfirst, hlast⟩⟩

/-- The awaited number is that of the reportable variables for mapped files only. -/
theorem Initial.awaited_iff (hinit : Initial p NumROInts NumIOVars h) :
    h.muiVarsToUpdate.toNat = h.reportable.card ↔ p.Mapped NumROInts NumIOVars := by
  have hparts : h.reportable =
      p.usSlaveVarsToUpdate.filter (fun tAddr => 1 ≤ tAddr.uiChannel.toNat ∧
        tAddr.uiChannel.toNat ≤ (NumIOVars + NumROInts).toNat) ∪
      p.fieldVarsToUpdate.filter (fun tAddr => NumROInts.toNat < tAddr.uiChannel.toNat ∧
        counts.total < tAddr.uiChannel.toNat ∧
        tAddr.uiChannel.toNat ≤ (NumIOVars + NumROInts).toNat) := by
    ext tAddr
    rw [hinit.mem_reportable, Finset.mem_union, Finset.mem_filter, Finset.mem_filter]
  rw [hinit.awaited, hparts, eq_comm,
    card_union_eq_iff (Finset.filter_subset _ _) (Finset.filter_subset _ _),
    Finset.filter_eq_self, Finset.filter_eq_self]
  constructor
  · rintro ⟨hslave, hfield, hdistinct⟩
    exact ⟨hslave, hfield, hdistinct⟩
  · rintro ⟨hslave, hfield, hdistinct⟩
    exact ⟨hslave, hfield, hdistinct⟩

/-- No more variables are polled than awaited. -/
theorem Initial.polled_card_le (hinit : Initial p NumROInts NumIOVars h) :
    h.polled.card ≤ h.muiVarsToUpdate.toNat := by
  rw [hinit.awaited]
  have hsubset : h.polled ⊆ p.usSlaveVarsToUpdate ∪ p.fieldVarsToUpdate := by
    intro tAddr hmem
    rcases (hinit.mem_polled tAddr).mp hmem with ⟨hslave, _⟩ | ⟨hfield, _⟩
    · exact Finset.mem_union_left _ hslave
    · exact Finset.mem_union_right _ hfield
  exact (Finset.card_le_card hsubset).trans (Finset.card_union_le _ _)

/-- The RO ints are always awaited. -/
theorem Initial.awaited_pos (hinit : Initial p NumROInts NumIOVars h) :
    0 < h.muiVarsToUpdate.toNat := by
  rw [hinit.awaited]
  have hword : channelAddr 1 ∈ p.usSlaveVarsToUpdate := by
    refine Finset.mem_union_right _ (List.mem_toFinset.mpr ?_)
    exact (mem_usSlaveVarsToUpdate counts _).mpr ⟨1, le_rfl, by decide, rfl⟩
  have hpos := Finset.card_pos.mpr ⟨_, hword⟩
  omega

end Reportable

/-- The same variables in the tables and the same image. -/
structure SameTables (s s' : System Q) : Prop where
  field : s'.driver.mFieldVars.map Prod.fst = s.driver.mFieldVars.map Prod.fst
  modbus : s'.driver.mModbusVars.map Prod.fst = s.driver.mModbusVars.map Prod.fst
  image : s'.image = s.image

/-- No step adds a variable to a table of the driver or takes one away. -/
theorem step_tables (s : System Q) (l : Label) : SameTables s (s.step l) := by
  cases l with
  | pollField i r =>
    simp only [System.step]
    split
    · rename_i tAddr p _ hi
      split
      · exact ⟨keys_set hi _, rfl, rfl⟩
      · exact ⟨rfl, rfl, rfl⟩
    · exact ⟨rfl, rfl, rfl⟩
  | pollModbus i r now =>
    simp only [System.step]
    split
    · rename_i tAddr p _ hi
      split
      · exact ⟨rfl, keys_set hi _, rfl⟩
      · exact ⟨rfl, rfl, rfl⟩
    · exact ⟨rfl, rfl, rfl⟩
  | store =>
    simp only [System.step]
    simp only [System.settled]
    split
    · exact ⟨rfl, rfl, rfl⟩
    · rename_i reading _
      cases reading with
      | field r => exact ⟨keys_modify _ _ (fun p => storeField p r), rfl, rfl⟩
      | modbus r now => exact ⟨rfl, keys_modify _ _ (fun p => storeModbus p now r), rfl⟩
  | enter mtDrvState =>
    simp only [System.step]
    split <;> exact ⟨rfl, rfl, rfl⟩
  | updateImage =>
    simp only [System.step]
    split
    · split <;> exact ⟨rfl, rfl, rfl⟩
    · exact ⟨rfl, rfl, rfl⟩
  | getChangedVars =>
    simp only [System.step]
    split <;> exact ⟨rfl, rfl, rfl⟩
  | read tAddr =>
    simp only [System.step]
    split <;> exact ⟨rfl, rfl, rfl⟩
  | endUpdate =>
    simp only [System.step]
    split
    · split <;> exact ⟨rfl, rfl, rfl⟩
    · exact ⟨rfl, rfl, rfl⟩

section Tables
variable {h h' : Hmi Q}

theorem SameTables.trans {s s' s'' : System Q} (hsame : SameTables s s')
    (hsame' : SameTables s' s'') : SameTables s s'' :=
  ⟨hsame'.field.trans hsame.field, hsame'.modbus.trans hsame.modbus,
    hsame'.image.trans hsame.image⟩

theorem SameTables.recordAt {s s' : System Q} (hsame : SameTables s s') (tAddr : IOAddr) :
    (s'.recordAt s'.driver tAddr).isSome = (s.recordAt s.driver tAddr).isSome := by
  simp only [System.recordAt]
  rw [hsame.image]
  apply record_isSome
  · rw [Bool.eq_iff_iff, lookup_isSome_iff, lookup_isSome_iff, hsame.field]
  · rw [Bool.eq_iff_iff, lookup_isSome_iff, lookup_isSome_iff, hsame.modbus]

theorem SameTables.polled (hsame : SameTables h.system h'.system) : h'.polled = h.polled := by
  simp only [Hmi.polled]
  rw [hsame.field, hsame.modbus]

theorem SameTables.reportable (hsame : SameTables h.system h'.system) :
    h'.reportable = h.reportable := by
  ext tAddr
  simp only [Hmi.reportable]
  rw [Finset.mem_filter, Finset.mem_filter, hsame.polled, hsame.recordAt]

/-- Only polled variables can be read. -/
theorem mem_reportable_of_record {tAddr : IOAddr}
    (hsome : (h.system.recordAt h.system.driver tAddr).isSome = true) : tAddr ∈ h.reportable := by
  refine Finset.mem_filter.mpr ⟨?_, hsome⟩
  simp only [System.recordAt] at hsome
  simp only [record_isSome_iff, lookup_isSome_iff] at hsome
  simp only [Hmi.polled]
  rw [Finset.mem_union, List.mem_toFinset, List.mem_toFinset]
  split at hsome
  · exact Or.inl hsome
  · exact hsome.2

end Tables

/-- While the signal is awaited the set keeps all reported variables, and there
are never as many as awaited; after it there are. -/
structure Counting (h₀ h : Hmi Q) : Prop where
  tables : SameTables h₀.system h.system
  awaited : h.muiVarsToUpdate = h₀.muiVarsToUpdate
  within : h.reported ⊆ h₀.reportable
  waiting : ∀ us, h.usLastVarChanges = some us →
    us = h.reported ∧ h.allVarsUpdated = 0 ∧ us.card ≠ h.muiVarsToUpdate.toNat
  done : h.usLastVarChanges = none →
    h.allVarsUpdated = 1 ∧ h.muiVarsToUpdate.toNat ≤ h.reported.card

section Counting
variable {h₀ h : Hmi Q}

theorem Counting.system (hinv : Counting h₀ h) (l : Label) :
    Counting h₀ { h with system := h.system.step l } := by
  constructor
  · exact hinv.tables.trans (step_tables h.system l)
  · exact hinv.awaited
  · exact hinv.within
  · exact hinv.waiting
  · exact hinv.done

/-- Counting a reported variable. -/
theorem Counting.newVarUpdated (hinv : Counting h₀ h) {tAddr : IOAddr}
    (hmem : tAddr ∈ h₀.reportable) :
    Counting h₀ ({ h with reported := insert tAddr h.reported }.newVarUpdated tAddr) := by
  have hwithin : insert tAddr h.reported ⊆ h₀.reportable :=
    Finset.insert_subset hmem hinv.within
  unfold Hmi.newVarUpdated
  dsimp only
  cases hus : h.usLastVarChanges with
  | none =>
    obtain ⟨honce, henough⟩ := hinv.done hus
    dsimp only
    refine ⟨hinv.tables, hinv.awaited, hwithin, (fun _ hsome => by cases hsome), fun _ => ?_⟩
    exact ⟨honce, henough.trans (Finset.card_le_card (Finset.subset_insert _ _))⟩
  | some us =>
    obtain ⟨rfl, hzero, _⟩ := hinv.waiting us hus
    dsimp only
    split
    · rename_i hcard
      refine ⟨hinv.tables, hinv.awaited, hwithin, (fun _ hsome => by cases hsome), fun _ => ?_⟩
      exact ⟨by rw [hzero], hcard.ge⟩
    · rename_i hcard
      refine ⟨hinv.tables, hinv.awaited, hwithin, fun us hsome => ?_, (fun hnone => by cases hnone)⟩
      obtain rfl := Option.some.inj hsome
      exact ⟨rfl, hzero, hcard⟩

theorem Counting.step (hinv : Counting h₀ h) (l : Label) : Counting h₀ (h.step l) := by
  have hsystem := hinv.system l
  cases l with
  | read tAddr =>
    unfold Hmi.step
    dsimp only
    split
    · rename_i hread
      apply hsystem.newVarUpdated
      rw [← hinv.tables.reportable]
      exact mem_reportable_of_record hread.2
    · exact hsystem
  | _ => exact hsystem

theorem Initial.counting {p : Parsed} {NumROInts NumIOVars : BitVec 32}
    (hinit : Initial p NumROInts NumIOVars h) (ls : List Label) :
    Counting h (run Hmi.step h ls) := by
  refine run_invariant' (fun _ l hinv => hinv.step l) ?_ ls
  refine ⟨⟨rfl, rfl, rfl⟩, rfl, ?_, ?_, ?_⟩
  · rw [hinit.unreported]
    exact Finset.empty_subset _
  · intro us hus
    obtain rfl := Option.some.inj (hinit.waiting.symm.trans hus)
    refine ⟨hinit.unreported.symm, hinit.silent, ?_⟩
    rw [Finset.card_empty]
    exact hinit.awaited_pos.ne
  · intro hnone
    rw [hinit.waiting] at hnone
    cases hnone

end Counting

section Result
variable {p : Parsed} {NumROInts NumIOVars : BitVec 32} {h : Hmi Q}

/-- Once the signal has been emitted as many variables have been reported as are
awaited, and no more are polled. -/
theorem Initial.complete (hinit : Initial p NumROInts NumIOVars h) (ls : List Label)
    (hemitted : (run Hmi.step h ls).allVarsUpdated ≠ 0) :
    h.polled ⊆ (run Hmi.step h ls).reported ∧ h.reportable.card = h.muiVarsToUpdate.toNat := by
  have hinv := hinit.counting ls
  have hreportable : h.reportable ⊆ h.polled := Finset.filter_subset _ _
  cases hus : (run Hmi.step h ls).usLastVarChanges with
  | some us => exact absurd (hinv.waiting us hus).2.1 hemitted
  | none =>
    have henough := (hinv.done hus).2
    rw [hinv.awaited] at henough
    have hpolled := hinit.polled_card_le
    have hreported := Finset.card_le_card hinv.within
    have hfew := Finset.card_le_card hreportable
    have hall := Finset.eq_of_subset_of_card_le (hinv.within.trans hreportable) (by omega)
    exact ⟨hall.ge, by omega⟩

/-- The main window is never shown when a variable is missing in the map. -/
theorem Initial.never_emitted (hinit : Initial p NumROInts NumIOVars h)
    (hunmapped : ¬ p.Mapped NumROInts NumIOVars) (ls : List Label) :
    (run Hmi.step h ls).allVarsUpdated = 0 := by
  by_contra hemitted
  exact hunmapped (hinit.awaited_iff.mp (hinit.complete ls hemitted).2.symm)

theorem Initial.prompt (hinit : Initial p NumROInts NumIOVars h)
    (hawaited : h.muiVarsToUpdate.toNat = h.reportable.card) (ls : List Label)
    (hreported : h.polled ⊆ (run Hmi.step h ls).reported) :
    (run Hmi.step h ls).allVarsUpdated = 1 := by
  have hinv := hinit.counting ls
  cases hus : (run Hmi.step h ls).usLastVarChanges with
  | none => exact (hinv.done hus).1
  | some us =>
    obtain ⟨rfl, _, hcard⟩ := hinv.waiting us hus
    have hreportable : h.reportable ⊆ h.polled := Finset.filter_subset _ _
    have hall := hinv.within.antisymm (hreportable.trans hreported)
    rw [hinv.awaited, hall, hawaited] at hcard
    exact absurd rfl hcard

theorem Initial.startsUp_iff (hinit : Initial p NumROInts NumIOVars h) :
    StartsUp h ↔ p.Mapped NumROInts NumIOVars := by
  rw [← hinit.awaited_iff]
  constructor
  · intro hstarts
    exact hstarts.awaited []
  · intro hawaited
    constructor
    · intro ls
      have hinv := hinit.counting ls
      cases hus : (run Hmi.step h ls).usLastVarChanges with
      | none => exact (hinv.done hus).1.le
      | some us => exact (hinv.waiting us hus).2.1.trans_le (Nat.zero_le 1)
    · intro ls hemitted
      rw [(hinit.counting ls).tables.polled]
      exact (hinit.complete ls hemitted).1
    · intro ls hreported
      rw [(hinit.counting ls).tables.polled] at hreported
      exact hinit.prompt hawaited ls hreported
    · intro ls
      rw [(hinit.counting ls).awaited, (hinit.counting ls).tables.reportable]
      exact hawaited

end Result

/-- After every successful `init` the signal comes as promised in all runs if
and only if the map of the driver has every variable of the file. -/
theorem window_shown_iff [PriorityQueue Q WriteReq WriteReq.Less] {little : Bool}
    {regIOInfo : Option (List Token)} {ip : String} {port : Int} {NumROInts NumIOVars : BitVec 32}
    {slaveVars fieldVars : List IOAddr} {newTcp : Bool} {strerror : String} {h : Hmi Q}
    (hinit : init little regIOInfo
      (.ok (some ⟨some ip, some port, some NumROInts, some NumIOVars⟩)) slaveVars fieldVars newTcp
      strerror = some h) :
    StartsUp h ↔ ∃ p, parseRegIOInfo regIOInfo = some p ∧ p.Mapped NumROInts NumIOVars := by
  obtain ⟨p, hparse, hinitial⟩ := init_initial hinit
  rw [hinitial.startsUp_iff, hparse]
  constructor
  · exact fun hmapped => ⟨p, rfl, hmapped⟩
  · rintro ⟨_, hsame, hmapped⟩
    rw [Option.some.inj hsame]
    exact hmapped

/-- A file with channels from five on, the last of which is given. -/
def setPointsFile (last : BitVec 8) : List Token :=
  [(SE_REG_F1, Fr.R, 5#8), (SE_REG_F2, Fr.R, 6#8), (SE_REG_F3, Fr.R, 7#8),
    (ZR_REG_PWSP, Fr.R, 8#8), (ZR_REG_OPSP, Fr.R, 9#8), (ZC_REG_SSP, Fr.F, 10#8),
    (ZC_REG_PWSP, Fr.F, 11#8), (ZC_REG_OPSP, Fr.F, last)].flatMap
      (fun v => [.var (some (v.1, some v.2.1)), .other, .remAddr (some (0, 0, v.2.2)),
        .hmi (some (some .RW)), .other])

/-- With four RO ints and eight other variables the last channel of the map is twelve. -/
def setPointsInit (last : BitVec 8) : Option (Hmi (WriteReq.Queue true)) :=
  init true (some (setPointsFile last))
    (.ok (some ⟨some "192.168.1.34", some (-1), some 4, some 8⟩))
    ((List.range' 1 9).map channelAddr) [channelAddr 10, channelAddr 11, ⟨0, 0, last, 0⟩] true ""

theorem inside_parses : (parseRegIOInfo (some (setPointsFile 12))).isSome = true := by
  decide +kernel

theorem inside_initialised : (setPointsInit 12).isSome = true := by
  decide +kernel

theorem inside_starts : StartsUp ((setPointsInit 12).get inside_initialised) := by
  refine (window_shown_iff (Option.some_get inside_initialised).symm).mpr
    ⟨_, (Option.some_get inside_parses).symm, ?_⟩
  constructor
  · decide +kernel
  · decide +kernel
  · decide +kernel

theorem outside_initialised : (setPointsInit 13).isSome = true := by
  decide +kernel

def pollFieldVars : List Label :=
  [.enter .running, .pollField 0 five, .store, .pollField 1 five, .store]

def pollModbusVars : List Label :=
  (List.range 9).flatMap (fun i => [.pollModbus i (.roInt 1) 0, .store])

def readVars : List Label := (List.range' 1 11).map (fun i => .read (channelAddr i))

/-- All eleven polled variables have been polled and reported, a twelfth is awaited. -/
theorem outside_never_starts :
    ((setPointsInit 13).get outside_initialised).muiVarsToUpdate = 12 ∧
      ((setPointsInit 13).get outside_initialised).reportable.card = 11 ∧
      (∀ ls, (run Hmi.step ((setPointsInit 13).get outside_initialised) ls).allVarsUpdated = 0) ∧
      (∃ ls, (run Hmi.step ((setPointsInit 13).get outside_initialised) ls).polled ⊆
        (run Hmi.step ((setPointsInit 13).get outside_initialised) ls).reported) ∧
      ¬ StartsUp ((setPointsInit 13).get outside_initialised) := by
  obtain ⟨p, _, hinitial⟩ := init_initial (Option.some_get outside_initialised).symm
  have hunmapped : ¬ p.Mapped 4 8 := by
    rw [← hinitial.awaited_iff]
    decide +kernel
  refine ⟨?_, ?_, ?_, ?_, ?_⟩
  · decide +kernel
  · decide +kernel
  · exact hinitial.never_emitted hunmapped
  · refine ⟨pollFieldVars ++ pollModbusVars ++ .updateImage :: .getChangedVars :: readVars, ?_⟩
    decide +kernel
  · rw [hinitial.startsUp_iff]
    exact hunmapped

end StartUp
