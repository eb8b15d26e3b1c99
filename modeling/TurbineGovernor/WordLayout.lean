import TurbineGovernor.ScanLoop
import TurbineGovernor.SlaveDriver
import TurbineGovernor.MasterDriverSpec

/-!
# The numbering of the published words

Both programs compute the number of words of each group for themselves and
number the channels from one, the words of the logic alarms first. A word is
known by its group and its index in the array of the regulator.
-/

namespace WordLayout
open CommonTypes RegulatorAlarms MasterDriver SlaveDriver

inductive Word where
  | logic (i : Nat)
  | field (i : Nat)
  deriving DecidableEq, Repr

/-- The numbers of words of one program. -/
structure Counts where
  muiNumLogicErrorInts : Nat
  muiNumFieldQStatesInts : Nat
  deriving DecidableEq, Repr

section Macros
variable (NUM_ALARMS FLD_IN_VARS FLD_OUT_VARS : Nat)

/-- The constructor of `AlarmManager`. -/
def alarmManager : Counts where
  muiNumLogicErrorInts := numInts NUM_ALARMS
  muiNumFieldQStatesInts := numInts ((FLD_IN_VARS + FLD_OUT_VARS) * 2)

/-- `RegImage::init`, which divides integers before it rounds up. -/
def regImage : Counts where
  muiNumLogicErrorInts := numInts NUM_ALARMS
  muiNumFieldQStatesInts := (FLD_IN_VARS + FLD_OUT_VARS) * 2 / 32

end Macros

/-- An address with a channel only, which has 8 bits. -/
def channelAddr (i : Nat) : IOAddr := { uiChannel := BitVec.ofNat 8 i }

namespace Counts
variable (k : Counts)

def total : Nat := k.muiNumLogicErrorInts + k.muiNumFieldQStatesInts

/-- The calls of `writeRO` in `IOImage::updateOutputs`, with the word of each. -/
def updateOutputs : List (IOAddr × Word) :=
  (List.range k.muiNumLogicErrorInts).map (fun i => (channelAddr (i + 1), .logic i)) ++
    (List.range k.muiNumFieldQStatesInts).map
      (fun i => (channelAddr (i + 1 + k.muiNumLogicErrorInts), .field i))

/-- What `RegImage::init` adds to `usSlaveVarsToUpdate`. -/
def usSlaveVarsToUpdate : List IOAddr := (List.range' 1 k.total).map channelAddr

/-- Where `AlarmsWdg::roIntChanged` takes a word. -/
def roIntChanged (intID : BitVec 32) : Option Word :=
  if intID > 0 then
    if intID.toNat ≤ k.muiNumLogicErrorInts then some (.logic (intID - 1).toNat)
    else if intID.toNat ≤ k.muiNumFieldQStatesInts + k.muiNumLogicErrorInts then
      some (.field ((intID - 1).toNat - k.muiNumLogicErrorInts))
    else none
  else none

end Counts

section Layout
variable {Q : Type} (NUM_ALARMS FLD_IN_VARS FLD_OUT_VARS : Nat)

/-- The words of the regulator and of the HMI correspond one to one through the
two drivers. -/
structure LayoutAgrees (s : ModbusSlaveDrv) (d : ModbusMasterDrv Q) : Prop where
  counts : regImage NUM_ALARMS FLD_IN_VARS FLD_OUT_VARS =
    alarmManager NUM_ALARMS FLD_IN_VARS FLD_OUT_VARS
  written : ∀ n : Nat,
    (∃ call ∈ (alarmManager NUM_ALARMS FLD_IN_VARS FLD_OUT_VARS).updateOutputs,
      (∀ iVal, (s.writeRO iVal call.1).1 = true) ∧ call.1.uiChannel.toNat = n) ↔
    1 ≤ n ∧ n ≤ (alarmManager NUM_ALARMS FLD_IN_VARS FLD_OUT_VARS).total
  polled : ∀ n : Nat,
    (∃ tAddr ∈ (d.insertVars (regImage NUM_ALARMS FLD_IN_VARS FLD_OUT_VARS).usSlaveVarsToUpdate
      []).mModbusVars.map Prod.fst,
        tAddr.uiChannel.setWidth 32 ≤ d.muiNumROInts ∧ tAddr.uiChannel.toNat = n) ↔
    1 ≤ n ∧ n ≤ (alarmManager NUM_ALARMS FLD_IN_VARS FLD_OUT_VARS).total
  routed : ∀ call ∈ (alarmManager NUM_ALARMS FLD_IN_VARS FLD_OUT_VARS).updateOutputs,
    (regImage NUM_ALARMS FLD_IN_VARS FLD_OUT_VARS).roIntChanged
      (call.1.uiChannel.setWidth 32) = some call.2

end Layout

theorem toNat_channelAddr {i : Nat} (h : i ≤ 255) : (channelAddr i).uiChannel.toNat = i := by
  simp only [channelAddr]
  rw [BitVec.toNat_ofNat]
  omega

theorem mem_updateOutputs (k : Counts) (call : IOAddr × Word) :
    call ∈ k.updateOutputs ↔
      (∃ i < k.muiNumLogicErrorInts, call = (channelAddr (i + 1), .logic i)) ∨
        ∃ i < k.muiNumFieldQStatesInts,
          call = (channelAddr (i + 1 + k.muiNumLogicErrorInts), .field i) := by
  simp only [Counts.updateOutputs]
  rw [List.mem_append, List.mem_map, List.mem_map]
  simp only [List.mem_range, eq_comm]

/-- The channels are those of the calls in the scan loop. -/
theorem updateOutputs_channels (c : Config) (al : AlarmManager)
    (logic : al.mpuiLogicErrors.length = c.muiNumLogicErrorInts)
    (field : al.mpuiFieldQStates.length = c.muiNumFieldQStatesInts) :
    (ScanLoop.updateOutputs c al).map Prod.fst =
      (alarmManager c.NUM_ALARMS c.FLD_IN_VARS c.FLD_OUT_VARS).updateOutputs.map
        (fun call => call.1.uiChannel) := by
  have hchannels : ∀ (words : List (BitVec 32)) (channel : Nat → BitVec 8),
      (words.zipIdx.map (fun it => (channel it.2, it.1))).map Prod.fst =
        (List.range words.length).map channel := by
    intro words channel
    rw [List.map_map, List.range_eq_range', ← List.zipIdx_map_snd 0 words, List.map_map]
    rfl
  simp only [ScanLoop.updateOutputs, Counts.updateOutputs]
  rw [List.map_append, hchannels _ (fun i => BitVec.ofNat 8 (i + 1)),
    hchannels _ (fun i => BitVec.ofNat 8 (i + 1 + c.muiNumLogicErrorInts)), logic, field,
    List.map_append, List.map_map, List.map_map]
  rfl

theorem mem_usSlaveVarsToUpdate (k : Counts) (tAddr : IOAddr) :
    tAddr ∈ k.usSlaveVarsToUpdate ↔ ∃ i, 1 ≤ i ∧ i ≤ k.total ∧ tAddr = channelAddr i := by
  simp only [Counts.usSlaveVarsToUpdate]
  rw [List.mem_map]
  constructor
  · rintro ⟨i, hi, rfl⟩
    rw [List.mem_range'_1] at hi
    exact ⟨i, hi.1, by omega, rfl⟩
  · rintro ⟨i, hlow, hhigh, rfl⟩
    exact ⟨i, List.mem_range'_1.mpr (by omega), rfl⟩

/-- The slave takes a word on every channel of an RO int. -/
theorem writeRO_accepts {s : ModbusSlaveDrv} (hinit : s.mtDrvState ≠ .unInit) (iVal : BitVec 32)
    (addr : IOAddr) :
    (s.writeRO iVal addr).1 = true ↔
      1 ≤ addr.uiChannel.toNat ∧ addr.uiChannel.toNat ≤ s.muiNumROInts.toNat := by
  have hlow : addr.uiChannel < 1#8 ↔ addr.uiChannel.toNat < 1 := BitVec.lt_def
  have hhigh : addr.uiChannel.setWidth 32 > s.muiNumROInts ↔
      s.muiNumROInts.toNat < addr.uiChannel.toNat := by
    rw [gt_iff_lt, BitVec.lt_def, BitVec.toNat_setWidth, Nat.mod_eq_of_lt (by omega)]
  unfold ModbusSlaveDrv.writeRO
  dsimp only
  by_cases hin : 1 ≤ addr.uiChannel.toNat ∧ addr.uiChannel.toNat ≤ s.muiNumROInts.toNat
  · have hno : ¬ (addr.uiChannel < 1#8 ∨ addr.uiChannel.setWidth 32 > s.muiNumROInts ∨
        s.mtDrvState = .unInit) := by
      rintro (h | h | h)
      · have := hlow.mp h
        omega
      · have := hhigh.mp h
        omega
      · exact hinit h
    rw [if_neg hno]
    exact iff_of_true rfl hin
  · have hyes : addr.uiChannel < 1#8 ∨ addr.uiChannel.setWidth 32 > s.muiNumROInts ∨
        s.mtDrvState = .unInit := by
      rw [hlow, hhigh]
      omega
    rw [if_pos hyes]
    simp [hin]

section Layout
variable {Q : Type} {NUM_ALARMS FLD_IN_VARS FLD_OUT_VARS : Nat}

/-- With few words, the counts differ by the rounding only. -/
theorem counts_eq_iff (few : (alarmManager NUM_ALARMS FLD_IN_VARS FLD_OUT_VARS).total ≤ 255) :
    regImage NUM_ALARMS FLD_IN_VARS FLD_OUT_VARS =
        alarmManager NUM_ALARMS FLD_IN_VARS FLD_OUT_VARS ↔
      16 ∣ FLD_IN_VARS + FLD_OUT_VARS := by
  unfold Counts.total alarmManager at few
  have hexact := numInts_of_few (n := (FLD_IN_VARS + FLD_OUT_VARS) * 2)
    (by dsimp only at few; omega)
  simp only [regImage, alarmManager]
  rw [Counts.mk.injEq, hexact]
  omega

theorem routed_of_counts {k : Counts} (few : k.total ≤ 255) {call : IOAddr × Word}
    (hcall : call ∈ k.updateOutputs) :
    k.roIntChanged (call.1.uiChannel.setWidth 32) = some call.2 := by
  simp only [Counts.total] at few
  have hid : ∀ i, i + 1 ≤ 255 →
      (channelAddr (i + 1)).uiChannel.setWidth 32 > 0 ∧
      ((channelAddr (i + 1)).uiChannel.setWidth 32).toNat = i + 1 ∧
      ((channelAddr (i + 1)).uiChannel.setWidth 32 - 1).toNat = i := by
    intro i hi
    have hwide : ((channelAddr (i + 1)).uiChannel.setWidth 32).toNat = i + 1 := by
      rw [BitVec.toNat_setWidth, toNat_channelAddr hi]
      omega
    refine ⟨?_, hwide, ?_⟩
    · rw [gt_iff_lt, BitVec.lt_def, hwide]
      exact Nat.succ_pos i
    · rw [BitVec.toNat_sub, hwide]
      change (2 ^ 32 - 1 + (i + 1)) % 2 ^ 32 = i
      omega
  simp only [Counts.roIntChanged]
  rcases (mem_updateOutputs k call).mp hcall with ⟨i, hi, rfl⟩ | ⟨i, hi, rfl⟩
  · obtain ⟨hpos, hnat, hidx⟩ := hid i (by omega)
    rw [if_pos hpos, hnat, hidx, if_pos (by omega)]
  · have hsum : i + 1 + k.muiNumLogicErrorInts = i + k.muiNumLogicErrorInts + 1 := by omega
    obtain ⟨hpos, hnat, hidx⟩ := hid (i + k.muiNumLogicErrorInts) (by omega)
    rw [hsum, if_pos hpos, hnat, hidx, if_neg (by omega), if_pos (by omega),
      Nat.add_sub_cancel]

theorem written_of_few {k : Counts} (few : k.total ≤ 255) {s : ModbusSlaveDrv}
    (hinit : s.mtDrvState ≠ .unInit) (enough : k.total ≤ s.muiNumROInts.toNat) (n : Nat) :
    (∃ call ∈ k.updateOutputs,
      (∀ iVal, (s.writeRO iVal call.1).1 = true) ∧ call.1.uiChannel.toNat = n) ↔
    1 ≤ n ∧ n ≤ k.total := by
  simp only [Counts.total] at few enough ⊢
  constructor
  · rintro ⟨call, hcall, _, rfl⟩
    rcases (mem_updateOutputs k call).mp hcall with ⟨i, hi, rfl⟩ | ⟨i, hi, rfl⟩
    · rw [toNat_channelAddr (by omega)]
      omega
    · rw [toNat_channelAddr (by omega)]
      omega
  · rintro ⟨hlow, hhigh⟩
    have haccepts : ∀ iVal, (s.writeRO iVal (channelAddr n)).1 = true := by
      intro iVal
      rw [writeRO_accepts hinit, toNat_channelAddr (by omega)]
      omega
    have hchannel : (channelAddr n).uiChannel.toNat = n := toNat_channelAddr (by omega)
    by_cases hlogic : n ≤ k.muiNumLogicErrorInts
    · refine ⟨(channelAddr n, .logic (n - 1)), ?_, haccepts, hchannel⟩
      rw [mem_updateOutputs]
      exact Or.inl ⟨n - 1, by omega, by rw [show n - 1 + 1 = n by omega]⟩
    · refine ⟨(channelAddr n, .field (n - 1 - k.muiNumLogicErrorInts)), ?_, haccepts, hchannel⟩
      rw [mem_updateOutputs]
      refine Or.inr ⟨n - 1 - k.muiNumLogicErrorInts, by omega, ?_⟩
      rw [show n - 1 - k.muiNumLogicErrorInts + 1 + k.muiNumLogicErrorInts = n by omega]

theorem polled_of_few {k : Counts} (few : k.total ≤ 255) {d : ModbusMasterDrv Q}
    (empty : d.mModbusVars = []) (enough : k.total ≤ d.muiNumROInts.toNat)
    (fits : k.total ≤ (d.muiNumIOVars + d.muiNumROInts).toNat) (n : Nat) :
    (∃ tAddr ∈ (d.insertVars k.usSlaveVarsToUpdate []).mModbusVars.map Prod.fst,
      tAddr.uiChannel.setWidth 32 ≤ d.muiNumROInts ∧ tAddr.uiChannel.toNat = n) ↔
    1 ≤ n ∧ n ≤ k.total := by
  constructor
  · rintro ⟨tAddr, hmem, _, rfl⟩
    rw [(d.mem_insertVars _ [] tAddr).1, empty] at hmem
    rcases hmem with hmem | ⟨hmem, hlow, _⟩
    · cases hmem
    · obtain ⟨i, hi, hi', rfl⟩ := (mem_usSlaveVarsToUpdate k tAddr).mp hmem
      rw [toNat_channelAddr (by omega)]
      exact ⟨hi, hi'⟩
  · rintro ⟨hlow, hhigh⟩
    have hchannel : (channelAddr n).uiChannel.toNat = n := toNat_channelAddr (by omega)
    refine ⟨channelAddr n, ?_, ?_, hchannel⟩
    · rw [(d.mem_insertVars _ [] (channelAddr n)).1, hchannel]
      refine Or.inr ⟨?_, hlow, by omega⟩
      exact (mem_usSlaveVarsToUpdate k (channelAddr n)).mpr ⟨n, hlow, hhigh, rfl⟩
    · rw [BitVec.le_def, BitVec.toNat_setWidth, hchannel, Nat.mod_eq_of_lt (by omega)]
      omega

end Layout

/-- The two numberings agree exactly when the field words are full and all
channels fit into 8 bits and the map of the HMI. -/
theorem layoutAgrees_iff {Q : Type} (NUM_ALARMS FLD_IN_VARS FLD_OUT_VARS : Nat)
    (s : ModbusSlaveDrv) (d : ModbusMasterDrv Q) (hinit : s.mtDrvState ≠ .unInit)
    (empty : d.mModbusVars = []) (same : d.muiNumROInts = s.muiNumROInts)
    (enough : (alarmManager NUM_ALARMS FLD_IN_VARS FLD_OUT_VARS).total ≤ s.muiNumROInts.toNat) :
    LayoutAgrees NUM_ALARMS FLD_IN_VARS FLD_OUT_VARS s d ↔
      16 ∣ FLD_IN_VARS + FLD_OUT_VARS ∧
        (alarmManager NUM_ALARMS FLD_IN_VARS FLD_OUT_VARS).total ≤ 255 ∧
        (alarmManager NUM_ALARMS FLD_IN_VARS FLD_OUT_VARS).total ≤
          (d.muiNumIOVars + d.muiNumROInts).toNat := by
  constructor
  · rintro ⟨hcounts, hwritten, hpolled, _⟩
    have few : (alarmManager NUM_ALARMS FLD_IN_VARS FLD_OUT_VARS).total ≤ 255 := by
      by_contra hmany
      obtain ⟨call, _, _, hchannel⟩ := (hwritten _).mpr ⟨by omega, le_rfl⟩
      have hlt := call.1.uiChannel.isLt
      omega
    refine ⟨(counts_eq_iff few).mp hcounts, few, ?_⟩
    by_contra hout
    obtain ⟨tAddr, hmem, _, hchannel⟩ := (hpolled _).mpr ⟨by omega, le_rfl⟩
    rw [(d.mem_insertVars _ [] tAddr).1, empty] at hmem
    rcases hmem with hmem | ⟨_, _, hfits⟩
    · cases hmem
    · omega
  · rintro ⟨hfull, few, fits⟩
    have hcounts := (counts_eq_iff few).mpr hfull
    constructor
    · exact hcounts
    · exact written_of_few few hinit enough
    · rw [hcounts]
      exact polled_of_few few empty (by rw [same]; exact enough) fits
    · rw [hcounts]
      intro call hcall
      exact routed_of_counts few hcall

/-- Both drivers with the sizes of the third pair of configuration files. -/
def slaveDrv : ModbusSlaveDrv :=
  { mbArchLittleEnd := true, mFieldVars := [], mstrServerIp := "192.168.1.43", miPort := 502
    muiNumIOVars := 146, muiNumROInts := 5, mpMBCtx := some ("192.168.1.43", 502)
    mpMBmapping := .newStartAddress 1 146 10001 292 40001 584 30001 594
    uiComErrors := 0, mtDrvState := .stopped, mstrLastError := "" }

def masterDrv : ModbusMasterDrv (WriteReq.Queue true) :=
  { ModbusMasterDrv.fresh true with muiNumIOVars := 146, muiNumROInts := 5 }

/-- With 48 variables the words are full. -/
theorem fullWords_agree : LayoutAgrees 21 22 26 slaveDrv masterDrv :=
  (layoutAgrees_iff 21 22 26 slaveDrv masterDrv (by decide) rfl rfl (by decide)).mpr (by decide)

/-- With the 61 variables of the regulator the last word is not read. -/
theorem lastWord_unread :
    (alarmManager 21 35 26).total ≤ slaveDrv.muiNumROInts.toNat ∧
      ¬ LayoutAgrees 21 35 26 slaveDrv masterDrv := by
  refine ⟨by decide, ?_⟩
  intro h
  exact absurd h.counts (by decide)

end WordLayout
