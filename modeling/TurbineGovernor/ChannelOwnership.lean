import TurbineGovernor.SlaveDriver
import TurbineGovernor.MasterDriverSpec

/-!
# Which channels belong to variables

The channels after the RO ints are those of the variables. The master compares
before it subtracts, the slave subtracts and cuts the difference to 8 bits
first, so that a channel of an RO int can reach a variable from the other end.
-/

namespace ChannelOwnership
open CommonTypes PriorityQueues MasterDriver SlaveDriver

/-- The range of the variables, as numbers. -/
def Owned (muiNumROInts muiNumIOVars : BitVec 32) (uiChannel : BitVec 8) : Prop :=
  muiNumROInts.toNat < uiChannel.toNat ∧
    uiChannel.toNat ≤ muiNumROInts.toNat + muiNumIOVars.toNat

instance (muiNumROInts muiNumIOVars : BitVec 32) (uiChannel : BitVec 8) :
    Decidable (Owned muiNumROInts muiNumIOVars uiChannel) :=
  inferInstanceAs (Decidable (_ ∧ _))

section Drivers
variable (L : FloatAbcd) {Q : Type} [PriorityQueue Q WriteReq WriteReq.Less]

/-- What the slave driver does with a channel. -/
structure SlaveOwns (s : ModbusSlaveDrv) (owned : Prop) (uiChannel : BitVec 8) : Prop where
  read : ∀ (var : IOVar) (now : BitVec 64), var.mtAddr.uiChannel = uiChannel →
    ((s.read L var now).1 = true ↔ owned) ∧ (¬ owned → (s.read L var now).2 = var)
  write : ∀ var : IOVar, var.mtAddr.uiChannel = uiChannel →
    ((s.write L var).1 = true ↔ owned) ∧ (¬ owned → (s.write L var).2 = s)
  updateFieldVar : ∀ (var : IOVar) (tAddr : IOAddr),
    s.mFieldVars.lookup var.muiVarId = some tAddr → tAddr.uiChannel = uiChannel →
    ((s.updateFieldVar L var).1 = true ↔ owned) ∧
      (¬ owned → (s.updateFieldVar L var).2 = (var, s))

/-- What the master driver does with it. -/
structure MasterOwns (d : ModbusMasterDrv Q) (owned : Prop) (uiChannel : BitVec 8) : Prop where
  write : ∀ (fVal : Single) (tAddr : IOAddr) (tWriteTimeOut : BitVec 32) (now : Int),
    tAddr.uiChannel = uiChannel →
    ((d.write fVal tAddr tWriteTimeOut now).1 = true ↔ owned) ∧
      (¬ owned → (d.write fVal tAddr tWriteTimeOut now).2.mPendingWrites = d.mPendingWrites)
  force : ∀ (fVal : Single) (tAddr : IOAddr) (bForceBitVal : Bool) (tWriteTimeOut : BitVec 32)
    (now : Int), tAddr.uiChannel = uiChannel →
    ((d.force fVal tAddr bForceBitVal tWriteTimeOut now).1 = true ↔ owned) ∧
      (¬ owned → (d.force fVal tAddr bForceBitVal tWriteTimeOut now).2.mPendingWrites =
        d.mPendingWrites)

/-- Both drivers own the same channel, and its slot. -/
structure ChannelAgrees (s : ModbusSlaveDrv) (d : ModbusMasterDrv Q) (uiChannel : BitVec 8) :
    Prop where
  slave : SlaveOwns L s (Owned s.muiNumROInts s.muiNumIOVars uiChannel) uiChannel
  master : MasterOwns d (Owned s.muiNumROInts s.muiNumIOVars uiChannel) uiChannel
  slots : Owned s.muiNumROInts s.muiNumIOVars uiChannel →
    ∀ tAddr : IOAddr, tAddr.uiChannel = uiChannel →
      (s.numVar tAddr).toNat = uiChannel.toNat - s.muiNumROInts.toNat ∧
        (MasterDriver.numVar d.muiNumROInts tAddr).toNat =
          uiChannel.toNat - s.muiNumROInts.toNat

/-- The range check of the slave, on the number that it has computed. -/
def InRange (s : ModbusSlaveDrv) (uiNumVar : BitVec 8) : Prop :=
  1 ≤ uiNumVar.toNat ∧ uiNumVar.toNat ≤ s.muiNumIOVars.toNat

theorem rejects_iff {s : ModbusSlaveDrv} (hinit : s.mtDrvState ≠ .unInit) (uiNumVar : BitVec 8) :
    (uiNumVar < 1#8 ∨ uiNumVar.setWidth 32 > s.muiNumIOVars ∨ s.mtDrvState = .unInit) ↔
      ¬ InRange s uiNumVar := by
  have hwide : (uiNumVar.setWidth 32).toNat = uiNumVar.toNat := by
    rw [BitVec.toNat_setWidth, Nat.mod_eq_of_lt (by omega)]
  have hone : (1#8).toNat = 1 := rfl
  rw [gt_iff_lt, BitVec.lt_def, BitVec.lt_def, hwide, hone]
  simp only [InRange]
  simp only [hinit, or_false]
  omega

theorem slaveOwns {s : ModbusSlaveDrv} (hinit : s.mtDrvState ≠ .unInit) (uiChannel : BitVec 8) :
    SlaveOwns L s (InRange s (s.numVar { uiChannel := uiChannel })) uiChannel := by
  have hnum : ∀ tAddr : IOAddr, tAddr.uiChannel = uiChannel →
      s.numVar tAddr = s.numVar { uiChannel := uiChannel } := by
    rintro tAddr rfl
    rfl
  have hrejects := rejects_iff hinit (s.numVar { uiChannel := uiChannel })
  by_cases hin : InRange s (s.numVar { uiChannel := uiChannel })
  · have hno := fun h => hrejects.mp h hin
    constructor
    · intro var now hch
      simp only [ModbusSlaveDrv.read]
      rw [hnum _ hch, if_neg hno]
      exact ⟨iff_of_true rfl hin, fun hout => absurd hin hout⟩
    · intro var hch
      simp only [ModbusSlaveDrv.write]
      rw [hnum _ hch, if_neg hno]
      exact ⟨iff_of_true rfl hin, fun hout => absurd hin hout⟩
    · intro var tAddr hlookup hch
      simp only [ModbusSlaveDrv.updateFieldVar]
      rw [hlookup]
      simp only [hnum _ hch]
      rw [if_neg hno]
      exact ⟨iff_of_true rfl hin, fun hout => absurd hin hout⟩
  · have hyes := hrejects.mpr hin
    constructor
    · intro var now hch
      simp only [ModbusSlaveDrv.read]
      rw [hnum _ hch, if_pos hyes]
      exact ⟨iff_of_false (fun h => by cases h) hin, fun _ => rfl⟩
    · intro var hch
      simp only [ModbusSlaveDrv.write]
      rw [hnum _ hch, if_pos hyes]
      exact ⟨iff_of_false (fun h => by cases h) hin, fun _ => rfl⟩
    · intro var tAddr hlookup hch
      simp only [ModbusSlaveDrv.updateFieldVar]
      rw [hlookup]
      simp only [hnum _ hch]
      rw [if_pos hyes]
      exact ⟨iff_of_false (fun h => by cases h) hin, fun _ => rfl⟩

/-- The number of a channel, with both truncations. -/
theorem toNat_numVar (s : ModbusSlaveDrv) (tAddr : IOAddr) :
    (s.numVar tAddr).toNat =
      (2 ^ 32 - s.muiNumROInts.toNat + tAddr.uiChannel.toNat) % 2 ^ 32 % 2 ^ 8 := by
  have hwide : (tAddr.uiChannel.setWidth 32).toNat = tAddr.uiChannel.toNat := by
    rw [BitVec.toNat_setWidth, Nat.mod_eq_of_lt (by omega)]
  simp only [ModbusSlaveDrv.numVar]
  rw [BitVec.toNat_setWidth, BitVec.toNat_sub, hwide]

theorem submit_iff {d : ModbusMasterDrv Q} (hstopped : d.mtDrvState ≠ .stopped)
    (hinit : d.mtDrvState ≠ .unInit) (wr : WriteReq) :
    ((d.submit wr).1 = true ↔ d.muiNumROInts.toNat < wr.mtAddr.uiChannel.toNat ∧
      wr.mtAddr.uiChannel.toNat ≤ (d.muiNumIOVars + d.muiNumROInts).toNat) ∧
    ((d.submit wr).1 = false → (d.submit wr).2.mPendingWrites = d.mPendingWrites) := by
  have hwide : (wr.mtAddr.uiChannel.setWidth 32).toNat = wr.mtAddr.uiChannel.toNat := by
    rw [BitVec.toNat_setWidth, Nat.mod_eq_of_lt (by omega)]
  have hrange : (wr.mtAddr.uiChannel.setWidth 32 ≤ d.muiNumROInts ∨
      wr.mtAddr.uiChannel.setWidth 32 > d.muiNumIOVars + d.muiNumROInts) ↔
      ¬ (d.muiNumROInts.toNat < wr.mtAddr.uiChannel.toNat ∧
        wr.mtAddr.uiChannel.toNat ≤ (d.muiNumIOVars + d.muiNumROInts).toNat) := by
    rw [gt_iff_lt, BitVec.le_def, BitVec.lt_def, hwide]
    omega
  unfold ModbusMasterDrv.submit
  simp only
  by_cases hin : d.muiNumROInts.toNat < wr.mtAddr.uiChannel.toNat ∧
      wr.mtAddr.uiChannel.toNat ≤ (d.muiNumIOVars + d.muiNumROInts).toNat
  · rw [if_neg (fun h => hrange.mp h hin), if_pos ⟨hstopped, hinit⟩]
    exact ⟨iff_of_true rfl hin, fun h => by cases h⟩
  · rw [if_pos (hrange.mpr hin)]
    exact ⟨iff_of_false (fun h => by cases h) hin, fun _ => rfl⟩

theorem masterOwns {d : ModbusMasterDrv Q} (hstopped : d.mtDrvState ≠ .stopped)
    (hinit : d.mtDrvState ≠ .unInit) (uiChannel : BitVec 8) :
    MasterOwns d (d.muiNumROInts.toNat < uiChannel.toNat ∧
      uiChannel.toNat ≤ (d.muiNumIOVars + d.muiNumROInts).toNat) uiChannel := by
  constructor
  · rintro fVal tAddr tWriteTimeOut now rfl
    obtain ⟨haccepts, hrejects⟩ := submit_iff hstopped hinit
      { id := 0, mtAddr := tAddr, mbForce := false, mbForcedVal := false
        mfWriteVal := fVal, mtWriteTimeOut := tWriteTimeOut, mTimeS := now }
    refine ⟨haccepts, fun hout => hrejects ?_⟩
    rw [← Bool.not_eq_true, haccepts]
    exact hout
  · rintro fVal tAddr bForceBitVal tWriteTimeOut now rfl
    obtain ⟨haccepts, hrejects⟩ := submit_iff hstopped hinit
      { id := 0, mtAddr := tAddr, mbForce := true, mbForcedVal := bForceBitVal
        mfWriteVal := fVal, mtWriteTimeOut := tWriteTimeOut, mTimeS := now }
    refine ⟨haccepts, fun hout => hrejects ?_⟩
    rw [← Bool.not_eq_true, haccepts]
    exact hout

/-- No channel of an RO int reaches a variable around the end. -/
def NoWrap (muiNumROInts muiNumIOVars : BitVec 32) : Prop :=
  muiNumROInts = 0#32 ∨ muiNumIOVars = 0#32 ∨ muiNumROInts.toNat + muiNumIOVars.toNat ≤ 255

/-- A channel that the slave takes though it belongs to an RO int. -/
theorem taken_of_wrap {s : ModbusSlaveDrv} (hwrap : ¬ NoWrap s.muiNumROInts s.muiNumIOVars) :
    ∃ uiChannel : BitVec 8, InRange s (s.numVar { uiChannel := uiChannel }) ∧
      ¬ Owned s.muiNumROInts s.muiNumIOVars uiChannel := by
  simp only [NoWrap] at hwrap
  have hints : s.muiNumROInts.toNat ≠ 0 := by
    intro h
    exact hwrap (Or.inl (BitVec.eq_of_toNat_eq h))
  have hvars : s.muiNumIOVars.toNat ≠ 0 := by
    intro h
    exact hwrap (Or.inr (Or.inl (BitVec.eq_of_toNat_eq h)))
  have hlarge : 255 < s.muiNumROInts.toNat + s.muiNumIOVars.toNat := by
    by_contra hsmall
    exact hwrap (Or.inr (Or.inr (by omega)))
  have hlt := s.muiNumROInts.isLt
  by_cases hfew : s.muiNumROInts.toNat ≤ 255
  · refine ⟨0#8, ?_, ?_⟩
    · simp only [InRange]
      rw [toNat_numVar]
      dsimp only
      rw [BitVec.toNat_zero]
      omega
    · rintro ⟨hlow, _⟩
      exact absurd hlow (Nat.not_lt_zero _)
  · refine ⟨BitVec.ofNat 8 (s.muiNumROInts.toNat + 1), ?_, ?_⟩
    · simp only [InRange]
      rw [toNat_numVar, BitVec.toNat_ofNat]
      omega
    · simp only [Owned]
      rw [BitVec.toNat_ofNat]
      omega

theorem inRange_iff_owned {s : ModbusSlaveDrv} (hnowrap : NoWrap s.muiNumROInts s.muiNumIOVars)
    (uiChannel : BitVec 8) :
    InRange s (s.numVar { uiChannel := uiChannel }) ↔
      Owned s.muiNumROInts s.muiNumIOVars uiChannel := by
  have hlt := s.muiNumROInts.isLt
  have hch := uiChannel.isLt
  simp only [InRange, Owned]
  rw [toNat_numVar]
  dsimp only
  rcases hnowrap with hzero | hzero | hsum
  · rw [hzero, BitVec.toNat_zero]
    omega
  · rw [hzero, BitVec.toNat_zero]
    omega
  · omega

/-- Both drivers own the same channels exactly when no channel wraps around. -/
theorem channels_agree_iff (s : ModbusSlaveDrv) (d : ModbusMasterDrv Q)
    (hslave : s.mtDrvState ≠ .unInit) (hstopped : d.mtDrvState ≠ .stopped)
    (hmaster : d.mtDrvState ≠ .unInit) (sameInts : d.muiNumROInts = s.muiNumROInts)
    (sameVars : d.muiNumIOVars = s.muiNumIOVars) :
    (∀ uiChannel, ChannelAgrees L s d uiChannel) ↔ NoWrap s.muiNumROInts s.muiNumIOVars := by
  constructor
  · intro hagrees
    by_contra hwrap
    obtain ⟨uiChannel, htaken, hout⟩ := taken_of_wrap hwrap
    let var : IOVar :=
      { muiVarId := 0, miTimeS := 0, mfTrueVal := 0, mfForcedVal := 0
        mtAddr := { uiChannel := uiChannel }, mtQState := .ok, mbForcedVal := false }
    have howns := (slaveOwns L hslave uiChannel).write var rfl
    have hagrees := (hagrees uiChannel).slave.write var rfl
    exact hout (hagrees.1.mp (howns.1.mpr htaken))
  · intro hnowrap uiChannel
    have howned := inRange_iff_owned hnowrap uiChannel
    have hlt := s.muiNumROInts.isLt
    have hch := uiChannel.isLt
    have hmasterRange : (d.muiNumROInts.toNat < uiChannel.toNat ∧
        uiChannel.toNat ≤ (d.muiNumIOVars + d.muiNumROInts).toNat) ↔
        Owned s.muiNumROInts s.muiNumIOVars uiChannel := by
      simp only [Owned]
      rw [sameInts, sameVars, BitVec.toNat_add]
      rcases hnowrap with hzero | hzero | hsum
      · rw [hzero, BitVec.toNat_zero]
        omega
      · rw [hzero, BitVec.toNat_zero]
        omega
      · omega
    constructor
    · rw [← propext howned]
      exact slaveOwns L hslave uiChannel
    · rw [← propext hmasterRange]
      exact masterOwns hstopped hmaster uiChannel
    · rintro ⟨hlow, _⟩ tAddr rfl
      constructor
      · rw [toNat_numVar]
        omega
      · simp only [MasterDriver.numVar]
        rw [sameInts, BitVec.toNat_sub, BitVec.toNat_setWidth]
        omega

end Drivers

/-- Drivers with the given sizes, initialised and started. -/
def slaveWith (muiNumROInts muiNumIOVars : BitVec 32) : ModbusSlaveDrv :=
  { mbArchLittleEnd := true, mFieldVars := [], mstrServerIp := "", miPort := 502
    muiNumIOVars := muiNumIOVars, muiNumROInts := muiNumROInts, mpMBCtx := some ("", 502)
    mpMBmapping := .newStartAddress 1 0 10001 0 40001 0 30001 0
    uiComErrors := 0, mtDrvState := .running, mstrLastError := "" }

def masterWith (muiNumROInts muiNumIOVars : BitVec 32) : ModbusMasterDrv (WriteReq.Queue true) :=
  { ModbusMasterDrv.fresh true with
    muiNumIOVars := muiNumIOVars, muiNumROInts := muiNumROInts, mtDrvState := .running }

/-- Five RO ints and 146 variables, as shipped. -/
theorem shipped_channels_agree :
    NoWrap 5 146 ∧
      ∀ uiChannel, ChannelAgrees floatAbcd (slaveWith 5 146) (masterWith 5 146) uiChannel := by
  have hnowrap : NoWrap 5 146 := Or.inr (Or.inr (by decide))
  exact ⟨hnowrap, (channels_agree_iff floatAbcd (slaveWith 5 146) (masterWith 5 146) (by decide)
    (by decide) (by decide) rfl rfl).mpr hnowrap⟩

def channelFive : IOVar :=
  { muiVarId := 0, miTimeS := 0, mfTrueVal := 0, mfForcedVal := 0, mtAddr := { uiChannel := 5 }
    mtQState := .ok, mbForcedVal := false }

/-- With ten RO ints and 251 variables channel 5 reaches the last variable. -/
theorem channelFive_taken :
    ((slaveWith 10 251).write floatAbcd channelFive).1 = true ∧
      ((slaveWith 10 251).numVar channelFive.mtAddr).toNat = 251 ∧
      ¬ Owned 10 251 5 ∧
      ¬ ∀ uiChannel, ChannelAgrees floatAbcd (slaveWith 10 251) (masterWith 10 251) uiChannel := by
  have htaken : ((slaveWith 10 251).write floatAbcd channelFive).1 = true := rfl
  refine ⟨htaken, by decide, by decide, ?_⟩
  intro hagrees
  have hwrite := (hagrees 5).slave.write channelFive rfl
  exact absurd (hwrite.1.mp htaken) (by decide)

end ChannelOwnership
