import TurbineGovernor.ScanLoop
import TurbineGovernor.TableBounds

/-!
# The image of the regulator

The arrays of variables of `IOImage`, the loops over them that each scan makes
and the index of addresses. The field driver is whatever an `IOFieldDrv` may
do to a variable through its setters; the slave driver is the one of the
tables.
-/

namespace RegulatorImage
open CommonTypes ByteOrder SlaveDriver SlaveDriver.ModbusSlaveDrv TransitionRuns
open RegulatorAlarms (FLD_IN_LOW_RANGE FLD_IN_HIGH_RANGE FLD_OUT_LOW_RANGE FLD_OUT_HIGH_RANGE
  AlarmManager)

def SLV_IN_LOW_RANGE : BitVec 32 := 2000000000
def SLV_IN_HIGH_RANGE : BitVec 32 := 2999999999
def SLV_OUT_LOW_RANGE : BitVec 32 := 3000000000

def FLD_IN_VARS : Nat := 35
def FLD_OUT_VARS : Nat := 26
def SLV_IN_VARS : Nat := 66
def SLV_OUT_VARS : Nat := 4

/-- The constructor of `IOVar`; the other fields are what the memory holds. -/
def newIOVar (memory : IOVar) (uiVarId : BitVec 32) (tAddr : IOAddr) : IOVar :=
  { memory with muiVarId := uiVarId, mtAddr := tAddr, mtQState := .ok, mbForcedVal := false }

def getCurrentVal (var : IOVar) : Single :=
  if var.mbForcedVal then var.mfForcedVal else var.mfTrueVal

def setCurrentVal (fCurrentVal : Single) (var : IOVar) : IOVar :=
  { var with mfTrueVal := fCurrentVal }

/-- The four arrays. -/
inductive Region where
  | fieldIn
  | fieldOut
  | slaveIn
  | slaveOut
  deriving DecidableEq

/-- A pointer to a variable of the image is its place in one of the arrays. -/
@[ext]
structure Place where
  region : Region
  index : Nat
  deriving DecidableEq

structure IOImage where
  mFieldIn : List (Option IOVar)
  mFieldOut : List (Option IOVar)
  mSlaveIn : List (Option IOVar)
  mSlaveOut : List (Option IOVar)
  mMFieldAddrIndex : List (IOAddr × Place)

namespace IOImage
variable (img : IOImage)

def vars : Region → List (Option IOVar)
  | .fieldIn => img.mFieldIn
  | .fieldOut => img.mFieldOut
  | .slaveIn => img.mSlaveIn
  | .slaveOut => img.mSlaveOut

def setVars (vars : List (Option IOVar)) : Region → IOImage
  | .fieldIn => { img with mFieldIn := vars }
  | .fieldOut => { img with mFieldOut := vars }
  | .slaveIn => { img with mSlaveIn := vars }
  | .slaveOut => { img with mSlaveOut := vars }

/-- The variable behind a pointer; `none` for a null pointer. -/
def var (p : Place) : Option IOVar := ((img.vars p.region)[p.index]?).join

/-- The place where `at` looks for an ID. -/
def placeOf (uiID : BitVec 32) : Place :=
  if FLD_IN_LOW_RANGE ≤ uiID ∧ uiID ≤ FLD_IN_HIGH_RANGE then
    ⟨.fieldIn, (uiID - FLD_IN_LOW_RANGE).toNat⟩
  else if FLD_OUT_LOW_RANGE ≤ uiID ∧ uiID ≤ FLD_OUT_HIGH_RANGE then
    ⟨.fieldOut, (uiID - FLD_OUT_LOW_RANGE).toNat⟩
  else if SLV_IN_LOW_RANGE ≤ uiID ∧ uiID ≤ SLV_IN_HIGH_RANGE then
    ⟨.slaveIn, (uiID - SLV_IN_LOW_RANGE).toNat⟩
  else ⟨.slaveOut, (uiID - SLV_OUT_LOW_RANGE).toNat⟩

/-- `img.at(uiID)`; what lies behind a null pointer is not modelled. -/
def atID (uiID : BitVec 32) : Option IOVar := img.var (placeOf uiID)

/-- An update of `img.at(uiID)` in its place. -/
def modifyID (uiID : BitVec 32) (f : IOVar → IOVar) : IOImage :=
  img.setVars ((img.vars (placeOf uiID).region).modify (placeOf uiID).index (Option.map f))
    (placeOf uiID).region

/-- A new variable is stored where `at` finds it. -/
def store (var : IOVar) : IOImage :=
  img.setVars ((img.vars (placeOf var.muiVarId).region).set (placeOf var.muiVarId).index (some var))
    (placeOf var.muiVarId).region

/-- A loop over an array that skips null pointers. -/
def forEach {S : Type} (body : IOVar → S → IOVar × S) :
    List (Option IOVar) → S → List (Option IOVar) × S
  | [], s => ([], s)
  | none :: vars, s => (none :: (forEach body vars s).1, (forEach body vars s).2)
  | some var :: vars, s =>
    (some (body var s).1 :: (forEach body vars (body var s).2).1,
      (forEach body vars (body var s).2).2)

end IOImage

/-- What the devices store in a variable. -/
structure Reading where
  fCurrentVal : Single
  iTimeS : BitVec 64
  tState : QuState

/-- A field driver, as far as it changes variables; `none` leaves one alone. -/
structure FieldDrv where
  read : IOVar → Option Reading
  updateQState : IOVar → Option QuState

namespace FieldDrv
variable (drv : FieldDrv)

def readVar (var : IOVar) : IOVar :=
  match drv.read var with
  | none => var
  | some r => { var with mfTrueVal := r.fCurrentVal, miTimeS := r.iTimeS, mtQState := r.tState }

def updateVar (var : IOVar) : IOVar :=
  match drv.updateQState var with
  | none => var
  | some tState => { var with mtQState := tState }

end FieldDrv

/-- A call of the field driver's `write`, with the slave at that time. -/
structure FieldWrite where
  var : IOVar
  slave : ModbusSlaveDrv

namespace IOImage
variable (L : FloatAbcd)

/-- The constructor; the arrays are filled by `init` only. -/
def construct : IOImage := ⟨[], [], [], [], []⟩

/-- The variables that `init` creates, with their channels and first values. -/
def created : List (BitVec 32 × BitVec 8 × Single) :=
  let fOne : Single := ScanLoop.one
  [(2000000000, 39, 0), (2000000003, 42, fOne), (2000000004, 43, 0), (2000000008, 47, 0),
    (2000000009, 48, 0), (2000000010, 49, 0), (2000000012, 68, 0), (2000000013, 69, 0),
    (1000000007, 129, 0), (1000000006, 128, 0), (1000000005, 127, 0), (1000000004, 126, 0),
    (1000000003, 125, fOne), (1000000002, 124, fOne), (1000000013, 135, 0), (1000000017, 139, 0),
    (1000000018, 140, 0), (1000000019, 141, 0), (3000000000, 148, 0), (3000000001, 149, 0),
    (3000000002, 150, 0), (3000000003, 151, 0)]

/-- One variable of `init`: it is created, set, stored and published. -/
def create (memory : BitVec 32 → IOVar) (r : IOImage × ModbusSlaveDrv)
    (c : BitVec 32 × BitVec 8 × Single) : IOImage × ModbusSlaveDrv :=
  let var := setCurrentVal c.2.2 (newIOVar (memory c.1) c.1 { uiChannel := c.2.1 })
  (r.1.store var, (r.2.write L var).2)

def init (img : IOImage) (memory : BitVec 32 → IOVar) (slave : ModbusSlaveDrv) :
    IOImage × ModbusSlaveDrv :=
  created.foldl (create L memory)
    ({ img with
      mFieldIn := List.replicate FLD_IN_VARS none
      mSlaveIn := List.replicate SLV_IN_VARS none
      mSlaveOut := List.replicate SLV_OUT_VARS none
      mFieldOut := List.replicate FLD_OUT_VARS none }, slave)

/-- `now` is the clock that the slave stamps on what it reads. -/
def updateInputs (img : IOImage) (field : FieldDrv) (now : BitVec 64) (slave : ModbusSlaveDrv) :
    IOImage × ModbusSlaveDrv :=
  let fieldIn := forEach (fun var slave => (slave.updateFieldVar L (field.readVar var)).2)
    img.mFieldIn slave
  let slaveIn := forEach (fun var slave => ((slave.read L var now).2, slave)) img.mSlaveIn fieldIn.2
  let fieldOut := forEach (fun var slave => (field.updateVar var, slave)) img.mFieldOut slaveIn.2
  ({ img with mFieldIn := fieldIn.1, mSlaveIn := slaveIn.1, mFieldOut := fieldOut.1 }, fieldOut.2)

/-- The body of the loop over the field outputs. -/
def outputField (var : IOVar) (r : ModbusSlaveDrv × List FieldWrite) :
    IOVar × ModbusSlaveDrv × List FieldWrite :=
  let updated := r.1.updateFieldVar L var
  (updated.2.1, updated.2.2, r.2 ++ [⟨updated.2.1, updated.2.2⟩])

/-- The calls of `writeRO`. -/
def writeAlarms (alMan : Option AlarmManager) (slave : ModbusSlaveDrv) : ModbusSlaveDrv :=
  match alMan with
  | none => slave
  | some al => (ScanLoop.updateOutputs .regulator al).foldl
      (fun slave it => (slave.writeRO it.2 { uiChannel := it.1 }).2) slave

/-- The image, the slave and the calls of the field driver's `write`. -/
def updateOutputs (img : IOImage) (alMan : Option AlarmManager) (slave : ModbusSlaveDrv) :
    IOImage × ModbusSlaveDrv × List FieldWrite :=
  let slaveOut := forEach (fun var slave => (var, (slave.write L var).2)) img.mSlaveOut slave
  let fieldOut := forEach (outputField L) img.mFieldOut (slaveOut.2, [])
  ({ img with mSlaveOut := slaveOut.1, mFieldOut := fieldOut.1 },
    writeAlarms alMan fieldOut.2.1, fieldOut.2.2)

/-- The entries of the driver's map are visited in the order of the list. -/
def getFldErrors (img : IOImage) (mFldErrors : List (IOAddr × QuState))
    (mErrors : List (BitVec 32 × QuState)) : List (BitVec 32 × QuState) :=
  mFldErrors.foldl (fun mErrors it =>
    match (img.mMFieldAddrIndex.lookup it.1).bind img.var with
    | some var => KeyedTables.insertKey mErrors var.muiVarId it.2
    | none => mErrors) mErrors

end IOImage

structure System where
  img : IOImage
  slave : ModbusSlaveDrv

/-- What happens to the image and the slave after `init`: the phases of the
scans, the control's assignments, changes of the slave's state and the requests
of its masters. -/
inductive Label where
  | updateInputs (field : FieldDrv) (now : BitVec 64)
  | setCurrentVal (uiID : BitVec 32) (fCurrentVal : Single)
  | updateOutputs (alMan : Option AlarmManager)
  | setState (tState : DrvState)
  | request (tables : ModbusMapping)

/-- All but the requests are made by the regulator. -/
def Label.OfRegulator : Label → Prop
  | .request _ => False
  | _ => True

variable (L : FloatAbcd)

def step (s : System) : Label → System
  | .updateInputs field now =>
    ⟨(s.img.updateInputs L field now s.slave).1, (s.img.updateInputs L field now s.slave).2⟩
  | .setCurrentVal uiID fCurrentVal =>
    { s with img := s.img.modifyID uiID (setCurrentVal fCurrentVal) }
  | .updateOutputs alMan =>
    ⟨(s.img.updateOutputs L alMan s.slave).1, (s.img.updateOutputs L alMan s.slave).2.1⟩
  | .setState tState => { s with slave := { s.slave with mtDrvState := tState } }
  | .request tables => { s with slave := { s.slave with mpMBmapping := tables } }

namespace IOImage

section Loops
variable {S : Type} {body : IOVar → S → IOVar × S}

theorem forEach_kept {P : S → Prop} (keeps : ∀ var s, P s → P (body var s).2)
    (vars : List (Option IOVar)) {s : S} (h : P s) : P (forEach body vars s).2 := by
  induction vars generalizing s with
  | nil => exact h
  | cons slot vars ih =>
    cases slot with
    | none => exact ih h
    | some var => exact ih (keeps var s h)

theorem forEach_append (vars vars' : List (Option IOVar)) (s : S) :
    forEach body (vars ++ vars') s =
      ((forEach body vars s).1 ++ (forEach body vars' (forEach body vars s).2).1,
        (forEach body vars' (forEach body vars s).2).2) := by
  induction vars generalizing s with
  | nil => rfl
  | cons slot vars ih =>
    cases slot with
    | none =>
      rw [List.cons_append, forEach, ih]
      rfl
    | some var =>
      rw [List.cons_append, forEach, ih]
      rfl

/-- What the body does not change of a variable is found where it was. -/
theorem forEach_view {V : Type} {view : IOVar → V} (same : ∀ var s, view (body var s).1 = view var)
    (vars : List (Option IOVar)) (s : S) :
    (forEach body vars s).1.map (Option.map view) = vars.map (Option.map view) := by
  induction vars generalizing s with
  | nil => rfl
  | cons slot vars ih =>
    cases slot with
    | none => exact congrArg (none :: ·) (ih s)
    | some var =>
      simp only [forEach, List.map_cons, Option.map_some, same]
      rw [ih]

end Loops

def Present (img : IOImage) (p : Place) : Prop := (img.var p).isSome

variable {L} {img : IOImage} {p : Place}

theorem present_iff :
    Present img p ↔ ((img.vars p.region).map Option.isSome)[p.index]? = some true := by
  simp only [Present, IOImage.var]
  rw [List.getElem?_map]
  cases (img.vars p.region)[p.index]? with
  | none => simp
  | some slot => cases slot <;> simp

theorem present_congr {img' : IOImage}
    (same : (img'.vars p.region).map Option.isSome = (img.vars p.region).map Option.isSome) :
    Present img' p ↔ Present img p := by
  rw [present_iff, present_iff, same]

theorem forEach_isSome {S : Type} {body : IOVar → S → IOVar × S} (vars : List (Option IOVar))
    (s : S) :
    (forEach body vars s).1.map Option.isSome = vars.map Option.isSome := by
  induction vars generalizing s with
  | nil => rfl
  | cons slot vars ih =>
    cases slot with
    | none => exact congrArg (false :: ·) (ih s)
    | some var => exact congrArg (true :: ·) (ih (body var s).2)

theorem vars_setVars (vars : List (Option IOVar)) (region region' : Region) :
    (img.setVars vars region).vars region' =
      if region' = region then vars else img.vars region' := by
  cases region <;> cases region' <;> rfl

/-- Every ID has a place of its own. -/
theorem placeOf_injective {uiID uiID' : BitVec 32} (h : placeOf uiID = placeOf uiID') :
    uiID = uiID' := by
  have hcancel : ∀ low : BitVec 32, (uiID - low).toNat = (uiID' - low).toNat → uiID = uiID' := by
    intro low heq
    have hsub := BitVec.eq_of_toNat_eq heq
    bv_omega
  simp only [placeOf] at h
  split_ifs at h
  all_goals
    obtain ⟨hregion, hindex⟩ := Place.mk.inj h
    first
      | exact hcancel _ hindex
      | cases hregion

/-- An update changes what lies at its own place. -/
theorem var_modifyID (uiID : BitVec 32) (f : IOVar → IOVar) :
    (img.modifyID uiID f).var p = if placeOf uiID = p then (img.var p).map f else img.var p := by
  simp only [IOImage.var, modifyID]
  rw [vars_setVars]
  by_cases hplace : placeOf uiID = p
  · subst hplace
    rw [if_pos rfl, if_pos rfl, List.getElem?_modify]
    simp only [if_true]
    cases (img.vars (placeOf uiID).region)[(placeOf uiID).index]? <;> rfl
  · rw [if_neg hplace]
    split
    · rename_i hregion
      have hindex : (placeOf uiID).index ≠ p.index :=
        fun heq => hplace (Place.ext hregion.symm heq)
      rw [List.getElem?_modify, hregion]
      simp only [if_neg hindex]
      exact congrArg Option.join (id_map _)
    · rfl

theorem present_modifyID (uiID : BitVec 32) (f : IOVar → IOVar) :
    Present (img.modifyID uiID f) p ↔ Present img p := by
  rw [Present, Present, var_modifyID]
  split
  · rw [Option.isSome_map]
  · rfl

theorem present_step (s : System) (l : Label) : Present (step L s l).img p ↔ Present s.img p := by
  cases l with
  | setCurrentVal uiID fCurrentVal => exact present_modifyID uiID _
  | setState tState => exact Iff.rfl
  | request tables => exact Iff.rfl
  | updateInputs field now =>
    apply present_congr
    cases p.region with
    | fieldIn => exact forEach_isSome _ _
    | slaveIn => exact forEach_isSome _ _
    | fieldOut => exact forEach_isSome _ _
    | slaveOut => rfl
  | updateOutputs alMan =>
    apply present_congr
    cases p.region with
    | fieldOut => exact forEach_isSome _ _
    | slaveOut => exact forEach_isSome _ _
    | fieldIn => rfl
    | slaveIn => rfl

/-- Nothing but a constructor of the image would change the index. -/
theorem index_step (s : System) (l : Label) :
    (step L s l).img.mMFieldAddrIndex = s.img.mMFieldAddrIndex := by
  cases l with
  | setCurrentVal uiID fCurrentVal =>
    simp only [step, modifyID]
    cases (placeOf uiID).region <;> rfl
  | updateInputs field now => rfl
  | updateOutputs alMan => rfl
  | setState tState => rfl
  | request tables => rfl

theorem length_store (var : IOVar) (region : Region) :
    ((img.store var).vars region).length = (img.vars region).length := by
  rw [store, vars_setVars]
  split
  · rename_i hregion
    rw [List.length_set, hregion]
  · rfl

theorem present_store_self {var : IOVar}
    (room : (placeOf var.muiVarId).index < (img.vars (placeOf var.muiVarId).region).length) :
    Present (img.store var) (placeOf var.muiVarId) := by
  simp only [Present, IOImage.var, store]
  rw [vars_setVars, if_pos rfl, List.getElem?_set_self room]
  rfl

theorem Present.store (h : Present img p) (var : IOVar) : Present (img.store var) p := by
  rw [present_iff] at h ⊢
  rw [IOImage.store, vars_setVars]
  split
  · rename_i hregion
    rw [List.getElem?_map] at h ⊢
    rw [List.getElem?_set, hregion.symm]
    split
    · rename_i hindex
      have hlt : p.index < (img.vars p.region).length := by
        by_contra hge
        rw [List.getElem?_eq_none (by omega)] at h
        cases h
      rw [hindex, if_pos hlt]
      rfl
    · exact h
  · exact h

/-- A variable that is created stays, whatever is created after it. -/
theorem present_created (memory : BitVec 32 → IOVar) {cs : List (BitVec 32 × BitVec 8 × Single)}
    {r : IOImage × ModbusSlaveDrv} {uiID : BitVec 32} (h : uiID ∈ cs.map Prod.fst)
    (room : (placeOf uiID).index < (r.1.vars (placeOf uiID).region).length) :
    Present (cs.foldl (create L memory) r).1 (placeOf uiID) := by
  have hkeep : ∀ (cs : List (BitVec 32 × BitVec 8 × Single)) (r : IOImage × ModbusSlaveDrv),
      Present r.1 (placeOf uiID) → Present (cs.foldl (create L memory) r).1 (placeOf uiID) := by
    intro cs r hr
    exact List.foldlRecOn
      (motive := fun r' : IOImage × ModbusSlaveDrv => Present r'.1 (placeOf uiID))
      cs _ hr (fun r' h' c _ => h'.store _)
  induction cs generalizing r with
  | nil => cases h
  | cons c cs ih =>
    rw [List.foldl_cons]
    rcases List.mem_cons.mp h with rfl | hrest
    · exact hkeep cs _ (@present_store_self r.1
        (setCurrentVal c.2.2 (newIOVar (memory c.1) c.1 { uiChannel := c.2.1 })) room)
    · exact ih hrest ((length_store _ _).symm ▸ room)

/-- The number of variables of an array. -/
def size : Region → Nat
  | .fieldIn => FLD_IN_VARS
  | .fieldOut => FLD_OUT_VARS
  | .slaveIn => SLV_IN_VARS
  | .slaveOut => SLV_OUT_VARS

theorem created_room : ∀ uiID ∈ created.map Prod.fst,
    (placeOf uiID).index < size (placeOf uiID).region := by
  simp only [created, List.map_cons, List.map_nil, List.forall_mem_cons]
  repeat' apply And.intro
  all_goals first
    | exact fun uiID h => absurd h List.not_mem_nil
    | decide

theorem present_init (img : IOImage) (memory : BitVec 32 → IOVar) (slave : ModbusSlaveDrv)
    {uiID : BitVec 32} (h : uiID ∈ created.map Prod.fst) :
    Present (img.init L memory slave).1 (placeOf uiID) := by
  apply present_created memory h
  have hroom := created_room uiID h
  cases hregion : (placeOf uiID).region <;>
  · rw [hregion] at hroom
    exact hroom.trans_eq (List.length_replicate).symm

theorem index_created (memory : BitVec 32 → IOVar) (cs : List (BitVec 32 × BitVec 8 × Single))
    (r : IOImage × ModbusSlaveDrv) :
    (cs.foldl (create L memory) r).1.mMFieldAddrIndex = r.1.mMFieldAddrIndex := by
  apply List.foldlRecOn
    (motive := fun r' : IOImage × ModbusSlaveDrv => r'.1.mMFieldAddrIndex = r.1.mMFieldAddrIndex)
  · rfl
  · intro r' h c _
    rw [← h]
    simp only [create, IOImage.store]
    cases (placeOf _).region <;> rfl

theorem index_init (img : IOImage) (memory : BitVec 32 → IOVar) (slave : ModbusSlaveDrv) :
    (img.init L memory slave).1.mMFieldAddrIndex = img.mMFieldAddrIndex :=
  index_created memory created _

end IOImage

end RegulatorImage
