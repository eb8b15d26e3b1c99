import TurbineGovernor.RegulatorImage

/-!
# The index of addresses

Faults of the field are looked up by address in an index of the image. No
operation of the image inserts into it, `init` included, so that none is ever
delivered.
-/

namespace AddressIndex
open CommonTypes SlaveDriver TransitionRuns RegulatorImage RegulatorImage.IOImage

def Region.OfField : Region → Prop
  | .fieldIn => True
  | .fieldOut => True
  | _ => False

/-- The index holds the place of every field variable and nothing else. -/
structure IndexOk (img : IOImage) : Prop where
  complete : ∀ p var, Region.OfField p.region → img.var p = some var →
    img.mMFieldAddrIndex.lookup var.mtAddr = some p
  sound : ∀ tAddr p, img.mMFieldAddrIndex.lookup tAddr = some p →
    Region.OfField p.region ∧ ∃ var, img.var p = some var ∧ var.mtAddr = tAddr

/-- One entry for each erroneous address that belongs to a field variable. -/
def Delivers (img : IOImage) (mFldErrors : List (IOAddr × QuState)) : Prop :=
  ∀ p var tState, Region.OfField p.region → img.var p = some var →
    mFldErrors.lookup var.mtAddr = some tState →
    (img.getFldErrors mFldErrors []).count (var.muiVarId, tState) = 1

/-- Some field variable has an erroneous address. -/
def Concerned (img : IOImage) (mFldErrors : List (IOAddr × QuState)) : Prop :=
  ∃ p var, Region.OfField p.region ∧ img.var p = some var ∧
    (mFldErrors.lookup var.mtAddr).isSome

theorem getFldErrors_empty {img : IOImage} (h : img.mMFieldAddrIndex = [])
    (mFldErrors : List (IOAddr × QuState)) (mErrors : List (BitVec 32 × QuState)) :
    img.getFldErrors mFldErrors mErrors = mErrors := by
  simp only [getFldErrors, h]
  induction mFldErrors with
  | nil => rfl
  | cons it rest ih => exact ih

theorem delivers_empty {img : IOImage} (h : img.mMFieldAddrIndex = [])
    (mFldErrors : List (IOAddr × QuState)) :
    Delivers img mFldErrors ↔ ¬ Concerned img mFldErrors := by
  constructor
  · rintro delivers ⟨p, var, hfield, hvar, herror⟩
    obtain ⟨tState, hstate⟩ := Option.isSome_iff_exists.mp herror
    have hone := delivers p var tState hfield hvar hstate
    rw [getFldErrors_empty h, List.count_nil] at hone
    cases hone
  · intro unconcerned p var tState hfield hvar hstate
    exact absurd ⟨p, var, hfield, hvar, hstate ▸ rfl⟩ unconcerned

/-- The image and the slave when the scans start. -/
def started (L : FloatAbcd) (memory : BitVec 32 → IOVar) (slave : ModbusSlaveDrv) : System :=
  ⟨(construct.init L memory slave).1, (construct.init L memory slave).2⟩

section Runs
variable (L : FloatAbcd) (memory : BitVec 32 → IOVar) (slave : ModbusSlaveDrv) (ls : List Label)

theorem index_run : (run (step L) (started L memory slave) ls).img.mMFieldAddrIndex = [] :=
  run_invariant' (P := fun s => s.img.mMFieldAddrIndex = []) (fun s l h => (index_step s l).trans h)
    (index_init construct memory slave) ls

/-- The variables that `init` creates are there in every scan. -/
theorem present_run {uiID : BitVec 32} (h : uiID ∈ created.map Prod.fst) :
    Present (run (step L) (started L memory slave) ls).img (placeOf uiID) := by
  have hinit : Present (started L memory slave).img (placeOf uiID) :=
    present_init (L := L) construct memory slave h
  exact run_invariant' (P := fun s => Present s.img (placeOf uiID))
    (fun s l hs => (present_step s l).mpr hs) hinit ls

/-- In no state that is reached after `init` is the index what it should be,
and an error map is delivered only when it concerns no variable. -/
theorem index_never_ok :
    ¬ IndexOk (run (step L) (started L memory slave) ls).img ∧
      (∀ mFldErrors, Delivers (run (step L) (started L memory slave) ls).img mFldErrors ↔
        ¬ Concerned (run (step L) (started L memory slave) ls).img mFldErrors) ∧
      ∃ mFldErrors, ¬ Delivers (run (step L) (started L memory slave) ls).img mFldErrors := by
  have hempty := index_run L memory slave ls
  have hcreated : (1000000007 : BitVec 32) ∈ created.map Prod.fst := by
    simp [created]
  have hpresent := present_run L memory slave ls hcreated
  obtain ⟨var, hvar⟩ := Option.isSome_iff_exists.mp hpresent
  refine ⟨fun ok => ?_, delivers_empty hempty, [(var.mtAddr, .comError)], fun delivers => ?_⟩
  · have hlookup := ok.complete (placeOf 1000000007) var trivial hvar
    rw [hempty] at hlookup
    cases hlookup
  · have hconcerned : Concerned (run (step L) (started L memory slave) ls).img
        [(var.mtAddr, .comError)] :=
      ⟨placeOf 1000000007, var, trivial, hvar, by rw [List.lookup_cons_self]; rfl⟩
    exact (delivers_empty hempty _).mp delivers hconcerned

end Runs

/-- Right after `init`, with an error at the address of the output on channel 129. -/
theorem output_fault_dropped :
    ¬ IndexOk (started floatAbcd (fun id => TableBounds.varAt id {}) TableBounds.unInitSlave).img ∧
      ¬ Delivers (started floatAbcd (fun id => TableBounds.varAt id {})
        TableBounds.unInitSlave).img [({ uiChannel := 129 }, .comError)] := by
  have hvar : ((started floatAbcd (fun id => TableBounds.varAt id {})
      TableBounds.unInitSlave).img.var ⟨.fieldOut, 7⟩) =
      some (TableBounds.varAt 1000000007 { uiChannel := 129 }) := by
    decide +kernel
  constructor
  · intro ok
    have hlookup := ok.complete ⟨.fieldOut, 7⟩ _ trivial hvar
    cases hlookup
  · intro delivers
    have hone := delivers ⟨.fieldOut, 7⟩ _ .comError trivial hvar rfl
    cases hone

end AddressIndex
