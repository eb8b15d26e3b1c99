import TurbineGovernor.DeviceValues
import TurbineGovernor.TransitionRuns

/-!
# Presetting a pulse counter

`PulseDev::write` stores the value, sets a bit and waits for an exchange, then
resets the bit and waits again. Exchanges come at any time between its critical
sections, each wait ends with an exchange or a time-out, and what the slave
sees of it all are the images that the exchanges transmit.
-/

namespace PulsePreset
open CommonTypes ByteOrder ByteMemory ProcessImage ProcessImage.Addr DeviceValues TransitionRuns

/-- Where the call is: before each of its three writes, in one of its two
waits, or back at its caller. -/
inductive Stage where
  | value
  | set
  | waitSet
  | reset
  | waitReset
  | returned (result : Bool)
  deriving DecidableEq

/-- `sent` are the images that have been transmitted, oldest first. -/
structure Preset where
  image : Memory
  stage : Stage
  sent : List Memory

inductive Label where
  | writer
  | exchange
  | timeOut
  deriving DecidableEq

section Machine
variable (little : Bool) (s : EcSlaves) (control : ControlWord) (var : IOVar)

def writeVal : BitVec 32 := convertFloat little var.getCurrentVal var.mtAddr.uiNumBits

/-- A critical section of the writer: a refused write ends the call. -/
def afterWrite (p : Preset) (next : Stage) : Bool × Memory → Preset
  | (true, m) => { p with image := m, stage := next }
  | (false, m) => { p with image := m, stage := .returned false }

def step (p : Preset) : Label → Preset
  | .writer =>
    match p.stage with
    | .value => afterWrite p .set (writeDevice little s p.image var.mtAddr (writeVal little var))
    | .set => afterWrite p .waitSet
        (writeDeviceSync little s p.image (PulseDev.tSetAddr control) 1 false)
    | .reset => afterWrite p .waitReset
        (writeDeviceSync little s p.image (PulseDev.tSetAddr control) 0 false)
    | _ => p
  | .exchange =>
    { p with
      sent := p.sent ++ [p.image]
      stage := match p.stage with
        | .waitSet => .reset
        | .waitReset => .returned true
        | stage => stage }
  | .timeOut =>
    match p.stage with
    | .waitSet => { p with stage := .returned false }
    | .waitReset => { p with stage := .returned false }
    | _ => p

def start (m : Memory) : Preset := ⟨m, .value, []⟩

theorem writeDeviceSync_eq (m : Memory) (addr : IOAddr) (uiVal : BitVec 32) (timedOut : Bool) :
    writeDeviceSync little s m addr uiVal timedOut =
      ((writeDevice little s m addr uiVal).1 && !timedOut,
        (writeDevice little s m addr uiVal).2) := by
  simp only [writeDeviceSync, writeDevice, writeIO]
  split
  · rfl
  split
  · rfl
  split
  · rfl
  · rfl

/-- What has been done of the sequential call at each stage. -/
def Follows (m₀ : Memory) (p : Preset) : Prop :=
  let value := writeDevice little s m₀ var.mtAddr (writeVal little var)
  let set := writeDevice little s value.2 (PulseDev.tSetAddr control) 1
  let reset := writeDevice little s set.2 (PulseDev.tSetAddr control) 0
  match p.stage with
  | .value => p.image = m₀
  | .set => value.1 = true ∧ p.image = value.2
  | .waitSet => value.1 = true ∧ set.1 = true ∧ p.image = set.2
  | .reset => value.1 = true ∧ set.1 = true ∧ p.image = set.2
  | .waitReset => value.1 = true ∧ set.1 = true ∧ reset.1 = true ∧ p.image = reset.2
  | .returned result => ∃ setTimedOut resetTimedOut,
      PulseDev.write little s m₀ control var setTimedOut resetTimedOut = (result, p.image)

theorem write_eq (m : Memory) (setTimedOut resetTimedOut : Bool) :
    PulseDev.write little s m control var setTimedOut resetTimedOut =
      let value := writeDevice little s m var.mtAddr (writeVal little var)
      let set := writeDevice little s value.2 (PulseDev.tSetAddr control) 1
      let reset := writeDevice little s set.2 (PulseDev.tSetAddr control) 0
      if value.1 = false then (false, value.2)
      else if (set.1 && !setTimedOut) = false then (false, set.2)
      else (reset.1 && !resetTimedOut, reset.2) := by
  unfold PulseDev.write writeVal
  rcases writeDevice little s m var.mtAddr
    (convertFloat little var.getCurrentVal var.mtAddr.uiNumBits) with ⟨_ | _, m₁⟩
  · rfl
  · simp only [writeDeviceSync_eq]
    cases (writeDevice little s m₁ (PulseDev.tSetAddr control) 1).1 && !setTimedOut
    · rfl
    · rfl

theorem follows_exchange {m₀ : Memory} {p : Preset} (h : Follows little s control var m₀ p) :
    Follows little s control var m₀ (step little s control var p .exchange) := by
  obtain ⟨image, stage, sent⟩ := p
  cases stage with
  | value => exact h
  | set => exact h
  | waitSet => exact h
  | reset => exact h
  | waitReset =>
    obtain ⟨hok, hset, hreset, himage⟩ := h
    refine ⟨false, false, ?_⟩
    rw [write_eq]
    simp only [hok, hset, hreset, Bool.not_false, Bool.and_true]
    exact Prod.ext rfl himage.symm
  | returned result => exact h

theorem follows_timeOut {m₀ : Memory} {p : Preset} (h : Follows little s control var m₀ p) :
    Follows little s control var m₀ (step little s control var p .timeOut) := by
  obtain ⟨image, stage, sent⟩ := p
  cases stage with
  | value => exact h
  | set => exact h
  | waitSet =>
    obtain ⟨hok, hset, himage⟩ := h
    refine ⟨true, false, ?_⟩
    rw [write_eq]
    simp only [hok, Bool.not_true, Bool.and_false]
    exact Prod.ext rfl himage.symm
  | reset => exact h
  | waitReset =>
    obtain ⟨hok, hset, hreset, himage⟩ := h
    refine ⟨false, true, ?_⟩
    rw [write_eq]
    simp only [hok, hset, Bool.not_false, Bool.not_true, Bool.and_true, Bool.and_false]
    exact Prod.ext rfl himage.symm
  | returned result => exact h

theorem follows_writer {m₀ : Memory} {p : Preset} (h : Follows little s control var m₀ p) :
    Follows little s control var m₀ (step little s control var p .writer) := by
  obtain ⟨image, stage, sent⟩ := p
  cases stage with
  | value =>
    have himage : image = m₀ := h
    subst himage
    cases hvalue : writeDevice little s image var.mtAddr (writeVal little var) with
    | mk ok m =>
      cases ok with
      | true =>
        simp [Follows, step, hvalue, afterWrite]
      | false =>
        simp only [Follows, step, hvalue, afterWrite, write_eq]
        exact ⟨false, false, rfl⟩
  | set =>
    obtain ⟨hok, himage⟩ := h
    dsimp only at himage
    subst himage
    simp only [Follows, step, writeDeviceSync_eq, Bool.not_false, Bool.and_true]
    cases hset : (writeDevice little s (writeDevice little s m₀ var.mtAddr
      (writeVal little var)).2 (PulseDev.tSetAddr control) 1).1 with
    | true => exact ⟨hok, rfl, rfl⟩
    | false =>
      refine ⟨false, false, ?_⟩
      rw [write_eq]
      simp only [hok, hset]
      rfl
  | waitSet => exact h
  | reset =>
    obtain ⟨hok, hset, himage⟩ := h
    dsimp only at himage
    subst himage
    simp only [Follows, step, writeDeviceSync_eq, Bool.not_false, Bool.and_true]
    cases hreset : (writeDevice little s (writeDevice little s (writeDevice little s m₀
      var.mtAddr (writeVal little var)).2 (PulseDev.tSetAddr control) 1).2
      (PulseDev.tSetAddr control) 0).1 with
    | true => exact ⟨hok, hset, rfl, rfl⟩
    | false =>
      refine ⟨false, false, ?_⟩
      rw [write_eq]
      simp only [hok, hset, hreset]
      rfl
  | waitReset => exact h
  | returned result => exact h

/-- One step of the machine is one step of the sequential call. -/
theorem follows_step {m₀ : Memory} {p : Preset} (h : Follows little s control var m₀ p)
    (l : Label) : Follows little s control var m₀ (step little s control var p l) := by
  cases l with
  | writer => exact follows_writer little s control var h
  | exchange => exact follows_exchange little s control var h
  | timeOut => exact follows_timeOut little s control var h

/-- A call that returns gives what the sequential call gives for some outcome of
the two waits. -/
theorem returned_follows (m₀ : Memory) (ls : List Label) {result : Bool}
    (h : (run (step little s control var) (start m₀) ls).stage = .returned result) :
    ∃ setTimedOut resetTimedOut,
      PulseDev.write little s m₀ control var setTimedOut resetTimedOut =
        (result, (run (step little s control var) (start m₀) ls).image) := by
  have hfollows := run_invariant' (P := Follows little s control var m₀)
    (fun p l hp => follows_step little s control var hp l) (s := start m₀) rfl ls
  rw [Follows, h] at hfollows
  exact hfollows

/-- The set bit in the outputs, read as the driver reads one. -/
def setBit (m : Memory) : BitVec 32 :=
  (readDevice little { s with inputs := s.outputs } m (PulseDev.tSetAddr control)).2

def CarriesVal (m : Memory) : Prop :=
  readDevice little { s with inputs := s.outputs } m var.mtAddr = (true, writeVal little var)

/-- The set bit together with the new value. -/
structure Announces (m : Memory) : Prop where
  bit : setBit little s control m = 1
  value : CarriesVal little s var m

/-- One image with the announcement and a later one without the bit. -/
def Transmitted (sent : List Memory) : Prop :=
  ∃ a b, [a, b].Sublist sent ∧ Announces little s control var a ∧ setBit little s control b = 0

/-- The set bit is one of the value's own bits, and 0 in the value. -/
def Clashes : Prop :=
  firstBit s.outputs (PulseDev.tSetAddr control) ∈ bits s.outputs var.mtAddr ∧
    (InByte var.mtAddr ∨ WholeBytes var.mtAddr) ∧
    bitAt (writeDevice little s (fun _ => 0#8) var.mtAddr (writeVal little var)).2
      (firstBit s.outputs (PulseDev.tSetAddr control)) = false

theorem setBit_eq (hvalid : Valid s (PulseDev.tSetAddr control)) (m : Memory) :
    setBit little s control m =
      if bitAt m (firstBit s.outputs (PulseDev.tSetAddr control)) then 1#32 else 0#32 :=
  congrArg Prod.snd
    (readDevice_bit little m (s := { s with inputs := s.outputs }) hvalid rfl)

theorem setBit_invalid (h : ¬ Valid s (PulseDev.tSetAddr control)) (m : Memory) :
    setBit little s control m = 0 :=
  congrArg Prod.snd (refused little m 0 (s := { s with inputs := s.outputs })
    (fun hkind => h hkind.1)).2

/-- Addresses that are read at all. -/
theorem CarriesVal.kind {m : Memory} (h : CarriesVal little s var m) :
    Valid s var.mtAddr ∧ (InByte var.mtAddr ∨ Crossing var.mtAddr ∨ WholeBytes var.mtAddr ∨
      ThreeBytes var.mtAddr) := by
  by_contra hnot
  have hrefused := (refused little m 0 (s := { s with inputs := s.outputs }) hnot).2
  rw [CarriesVal, hrefused] at h
  cases h

/-- An accepted value is in its place. -/
theorem carriesVal_of_written {m : Memory}
    (h : (writeDevice little s m var.mtAddr (writeVal little var)).1 = true) :
    CarriesVal little s var (writeDevice little s m var.mtAddr (writeVal little var)).2 := by
  have hkind : Valid s var.mtAddr ∧ (InByte var.mtAddr ∨ Crossing var.mtAddr ∨
      WholeBytes var.mtAddr ∨ ThreeBytes var.mtAddr) := by
    by_contra hnot
    rw [(refused little m (writeVal little var) hnot).1] at h
    cases h
  obtain ⟨hvalid, hfield | hcross | hbytes | hthree⟩ := hkind
  · -- widths that are converted to nothing
    have hzero : writeVal little var = 0 := by
      apply convertFloat_other little
      have hlt := hfield.2.1
      omega
    have hback :=
      (written_field little m (writeVal little var) hvalid hfield).readBack s.outputs rfl
    refine Prod.ext hback.1 (BitVec.eq_of_toNat_eq ?_)
    rw [hback.2, hzero]
    exact Nat.zero_mod _
  · have hzero : writeVal little var = 0 := by
      apply convertFloat_other little
      have hlt := hcross.2.1
      omega
    rw [CarriesVal, hzero]
    exact readDevice_crossing little _ (s := { s with inputs := s.outputs }) hvalid hcross
  · exact (readDevice_written little m hvalid hbytes var.getCurrentVal).2 s.outputs rfl
  · have hzero : writeVal little var = 0 := by
      apply convertFloat_other little
      have hbits := hthree.1
      omega
    rw [CarriesVal, hzero]
    exact readDevice_threeBytes little _ (s := { s with inputs := s.outputs }) hvalid hthree

theorem carriesVal_blank (hvalid : Valid s var.mtAddr)
    (hkind : InByte var.mtAddr ∨ WholeBytes var.mtAddr) :
    CarriesVal little s var
      (writeDevice little s (fun _ => 0#8) var.mtAddr (writeVal little var)).2 := by
  apply carriesVal_of_written
  rcases hkind with hfield | hbytes
  · rw [writeDevice_field little _ _ hvalid hfield]
  · rw [writeDevice_bytes little _ _ hvalid hbytes]

/-- The write of the set bit. -/
theorem write_setBit (hvalid : Valid s (PulseDev.tSetAddr control)) (m : Memory)
    (uiVal : BitVec 32) :
    (writeDevice little s m (PulseDev.tSetAddr control) uiVal).1 = true ∧
    (setBit little s control (writeDevice little s m (PulseDev.tSetAddr control) uiVal).2).toNat =
      uiVal.toNat % 2 ∧
    ∀ b, b ≠ firstBit s.outputs (PulseDev.tSetAddr control) →
      bitAt (writeDevice little s m (PulseDev.tSetAddr control) uiVal).2 b = bitAt m b := by
  have hfield : InByte (PulseDev.tSetAddr control) := inByte_of_one rfl
  have hwritten := written_field little m uiVal hvalid hfield
  refine ⟨?_, (hwritten.readBack s.outputs rfl).2, fun b hb => hwritten.frame b ?_⟩
  · rw [writeDevice_field little m uiVal hvalid hfield]
  · rw [mem_bits_one rfl]
    exact hb

/-- A value that clashes is never announced. -/
theorem not_announces_of_clashes (h : Clashes little s control var) (m : Memory) :
    ¬ Announces little s control var m := by
  rintro ⟨hbit, hvalue⟩
  obtain ⟨hin, hkind, hclear⟩ := h
  have hvalid := (CarriesVal.kind little s var hvalue).1
  have hset : Valid s (PulseDev.tSetAddr control) := by
    by_contra hnot
    rw [setBit_invalid little s control hnot] at hbit
    cases hbit
  have hblank := carriesVal_blank little s var hvalid hkind
  have hsame := bits_of_readDevice little (s := { s with inputs := s.outputs }) hvalid hkind
    (hvalue.trans hblank.symm) _ hin
  rw [setBit_eq little s control hset, hsame, hclear] at hbit
  cases hbit

/-- Setting the bit leaves a value alone that does not clash. -/
theorem carriesVal_set (hvalid : Valid s (PulseDev.tSetAddr control))
    (h : ¬ Clashes little s control var) {m : Memory} (hvalue : CarriesVal little s var m) :
    CarriesVal little s var (writeDevice little s m (PulseDev.tSetAddr control) 1).2 := by
  obtain ⟨_, hset, hframe⟩ := write_setBit little s control hvalid m 1
  obtain ⟨hvalid', hkind⟩ := CarriesVal.kind little s var hvalue
  have htransferred : (InByte var.mtAddr ∨ WholeBytes var.mtAddr) →
      CarriesVal little s var (writeDevice little s m (PulseDev.tSetAddr control) 1).2 := by
    intro hkind
    refine (readDevice_congr little { s with inputs := s.outputs } var.mtAddr ?_).trans hvalue
    intro b hb
    by_cases hplace : b = firstBit s.outputs (PulseDev.tSetAddr control)
    · subst hplace
      have hown : bitAt (writeDevice little s (fun _ => 0#8) var.mtAddr (writeVal little var)).2
          (firstBit s.outputs (PulseDev.tSetAddr control)) = true := by
        by_contra hclear
        exact h ⟨hb, hkind, eq_false_of_ne_true hclear⟩
      have hblank := carriesVal_blank little s var hvalid' hkind
      have hsame := bits_of_readDevice little (s := { s with inputs := s.outputs }) hvalid' hkind
        (hvalue.trans hblank.symm) _ hb
      have hone : bitAt (writeDevice little s m (PulseDev.tSetAddr control) 1).2
          (firstBit s.outputs (PulseDev.tSetAddr control)) = true := by
        by_contra hclear
        rw [setBit_eq little s control hvalid, if_neg hclear] at hset
        cases hset
      rw [hone, hsame, hown]
    · exact hframe b hplace
  obtain hfield | hcross | hbytes | hthree := hkind
  · exact htransferred (Or.inl hfield)
  · have hread := fun m => readDevice_crossing little m (s := { s with inputs := s.outputs })
      hvalid' hcross
    exact (hread _).trans ((hread m).symm.trans hvalue)
  · exact htransferred (Or.inr hbytes)
  · have hread := fun m => readDevice_threeBytes little m (s := { s with inputs := s.outputs })
      hvalid' hthree
    exact (hread _).trans ((hread m).symm.trans hvalue)

/-- What a caller relies on when the call is back. -/
def Honest (p : Preset) : Prop :=
  ∀ result, p.stage = .returned result → setBit little s control p.image = 0 ∧
    (result = true → Transmitted little s control var p.sent)

/-- A refused value finds the bit reset, the first wait ends with an exchange,
and the value of a call that succeeds does not clash with the set bit. -/
def Allows (p : Preset) (l : Label) : Prop :=
  match p.stage, l with
  | .value, .writer =>
    (writeDevice little s p.image var.mtAddr (writeVal little var)).1 = false →
      setBit little s control p.image = 0
  | .waitSet, .timeOut => False
  | .waitReset, .exchange => ¬ Clashes little s control var
  | _, _ => True

/-- The bit is set in the image, which carries the value if it can. -/
structure Announcing (m : Memory) : Prop where
  bit : setBit little s control m = 1
  value : ¬ Clashes little s control var → CarriesVal little s var m

/-- What holds at each stage. -/
def Settled (p : Preset) : Prop :=
  match p.stage with
  | .value => True
  | .set => CarriesVal little s var p.image
  | .waitSet => Valid s (PulseDev.tSetAddr control) ∧ Announcing little s control var p.image
  | .reset => Valid s (PulseDev.tSetAddr control) ∧
      ∃ a ∈ p.sent, Announcing little s control var a
  | .waitReset => Valid s (PulseDev.tSetAddr control) ∧ setBit little s control p.image = 0 ∧
      ∃ a ∈ p.sent, Announcing little s control var a
  | .returned result => setBit little s control p.image = 0 ∧
      (result = true → Transmitted little s control var p.sent)

variable {little s control var}

theorem Transmitted.append {sent : List Memory} (h : Transmitted little s control var sent)
    (m : Memory) : Transmitted little s control var (sent ++ [m]) := by
  obtain ⟨a, b, hsub, hbits⟩ := h
  exact ⟨a, b, hsub.trans (List.sublist_append_left sent [m]), hbits⟩

theorem transmitted_snoc {sent : List Memory} {a b : Memory} (ha : a ∈ sent)
    (hannounces : Announces little s control var a) (hb : setBit little s control b = 0) :
    Transmitted little s control var (sent ++ [b]) :=
  ⟨a, b, List.Sublist.append (List.singleton_sublist.mpr ha) (List.Sublist.refl [b]), hannounces,
    hb⟩

theorem honest_of_settled {p : Preset} (h : Settled little s control var p) :
    Honest little s control var p := by
  intro result hstage
  rw [Settled, hstage] at h
  exact h

theorem announcing_set (hvalid : Valid s (PulseDev.tSetAddr control)) {m : Memory}
    (hvalue : CarriesVal little s var m) :
    Announcing little s control var (writeDevice little s m (PulseDev.tSetAddr control) 1).2 :=
  ⟨BitVec.eq_of_toNat_eq (write_setBit little s control hvalid m 1).2.1,
    fun hclash => carriesVal_set little s control var hvalid hclash hvalue⟩

theorem writeDevice_tSetAddr (m : Memory) (uiVal : BitVec 32)
    (h : ¬ Valid s (PulseDev.tSetAddr control)) :
    writeDevice little s m (PulseDev.tSetAddr control) uiVal = (false, m) :=
  (refused little m uiVal (fun hkind => h hkind.1)).1

theorem image_of_refused {m : Memory}
    (h : (writeDevice little s m var.mtAddr (writeVal little var)).1 = false) :
    (writeDevice little s m var.mtAddr (writeVal little var)).2 = m := by
  by_cases hkind : Valid s var.mtAddr ∧ (InByte var.mtAddr ∨ Crossing var.mtAddr ∨
      WholeBytes var.mtAddr ∨ ThreeBytes var.mtAddr)
  · obtain ⟨hvalid, hfield | hcross | hbytes | hthree⟩ := hkind
    · rw [writeDevice_field little m _ hvalid hfield] at h
      cases h
    · rw [writeDevice_crossing little m _ hvalid hcross]
    · rw [writeDevice_bytes little m _ hvalid hbytes] at h
      cases h
    · rw [writeDevice_threeBytes little m _ hvalid hthree]
  · rw [(refused little m _ hkind).1]

/-- The critical sections of the writer. -/
theorem settled_writer {p : Preset} (h : Settled little s control var p)
    (hallows : Allows little s control var p .writer) :
    Settled little s control var (step little s control var p .writer) := by
  obtain ⟨image, stage, sent⟩ := p
  cases stage with
  | value =>
    cases hvalue : writeDevice little s image var.mtAddr (writeVal little var) with
    | mk ok m =>
      cases ok with
      | true =>
        have hcarries := carriesVal_of_written little s var (congrArg Prod.fst hvalue)
        simp only [step, hvalue, afterWrite]
        rw [hvalue] at hcarries
        exact hcarries
      | false =>
        have hsame := image_of_refused (congrArg Prod.fst hvalue)
        rw [hvalue] at hsame
        have hbit := hallows (congrArg Prod.fst hvalue)
        simp only [step, hvalue, afterWrite]
        rw [← hsame] at hbit
        exact ⟨hbit, fun hresult => by cases hresult⟩
  | set =>
    simp only [step, writeDeviceSync_eq, Bool.not_false, Bool.and_true]
    by_cases hvalid : Valid s (PulseDev.tSetAddr control)
    · rw [(write_setBit little s control hvalid image 1).1]
      exact ⟨hvalid, announcing_set hvalid h⟩
    · rw [writeDevice_tSetAddr image 1 hvalid]
      exact ⟨setBit_invalid little s control hvalid image, fun hresult => by cases hresult⟩
  | waitSet => exact h
  | reset =>
    obtain ⟨hvalid, hsent⟩ := h
    obtain ⟨haccepted, hbit, _⟩ := write_setBit little s control hvalid image 0
    simp only [step, writeDeviceSync_eq, Bool.not_false, Bool.and_true]
    rw [haccepted]
    exact ⟨hvalid, BitVec.eq_of_toNat_eq hbit, hsent⟩
  | waitReset => exact h
  | returned result => exact h

theorem settled_exchange {p : Preset} (h : Settled little s control var p)
    (hallows : Allows little s control var p .exchange) :
    Settled little s control var (step little s control var p .exchange) := by
  obtain ⟨image, stage, sent⟩ := p
  cases stage with
  | value => exact trivial
  | set => exact h
  | waitSet =>
    obtain ⟨hvalid, hannouncing⟩ := h
    exact ⟨hvalid, image, List.mem_append_right sent (List.mem_singleton.mpr rfl), hannouncing⟩
  | reset =>
    obtain ⟨hvalid, a, ha, hannouncing⟩ := h
    exact ⟨hvalid, a, List.mem_append_left [image] ha, hannouncing⟩
  | waitReset =>
    obtain ⟨_, hbit, a, ha, hannouncing⟩ := h
    exact ⟨hbit, fun _ =>
      transmitted_snoc ha ⟨hannouncing.bit, hannouncing.value hallows⟩ hbit⟩
  | returned result =>
    obtain ⟨hbit, htransmitted⟩ := h
    exact ⟨hbit, fun hresult => (htransmitted hresult).append image⟩

theorem settled_timeOut {p : Preset} (h : Settled little s control var p)
    (hallows : Allows little s control var p .timeOut) :
    Settled little s control var (step little s control var p .timeOut) := by
  obtain ⟨image, stage, sent⟩ := p
  cases stage with
  | waitSet => exact hallows.elim
  | waitReset => exact ⟨h.2.1, fun hresult => by cases hresult⟩
  | value => exact h
  | set => exact h
  | reset => exact h
  | returned result => exact h

theorem settled_step {p : Preset} (h : Settled little s control var p) (l : Label)
    (hallows : Allows little s control var p l) :
    Settled little s control var (step little s control var p l) := by
  cases l with
  | writer => exact settled_writer h hallows
  | exchange => exact settled_exchange h hallows
  | timeOut => exact settled_timeOut h hallows

/-- An honest step is an allowed one. -/
theorem allows_of_honest {p : Preset} (h : Settled little s control var p) {l : Label}
    (honest : Honest little s control var (step little s control var p l)) :
    Allows little s control var p l := by
  obtain ⟨image, stage, sent⟩ := p
  cases l with
  | writer =>
    cases stage with
    | value =>
      intro hrefused
      have hsame := image_of_refused hrefused
      have hstage : step little s control var ⟨image, .value, sent⟩ .writer =
          ⟨image, .returned false, sent⟩ := by
        rw [step, show writeDevice little s image var.mtAddr (writeVal little var) = (false, image)
          from Prod.ext hrefused hsame]
        rfl
      rw [hstage] at honest
      exact (honest false rfl).1
    | set => exact trivial
    | waitSet => exact trivial
    | reset => exact trivial
    | waitReset => exact trivial
    | returned result => exact trivial
  | exchange =>
    cases stage with
    | waitReset =>
      intro hclash
      obtain ⟨a, b, _, hannounces, _⟩ := (honest true rfl).2 rfl
      exact not_announces_of_clashes little s control var hclash a hannounces
    | value => exact trivial
    | set => exact trivial
    | waitSet => exact trivial
    | reset => exact trivial
    | returned result => exact trivial
  | timeOut =>
    cases stage with
    | waitSet =>
      have hbit := (honest false rfl).1
      have hset := h.2.bit
      dsimp only [step] at hbit
      rw [hset] at hbit
      cases hbit
    | value => exact trivial
    | set => exact trivial
    | reset => exact trivial
    | waitReset => exact trivial
    | returned result => exact trivial

end Machine

/-- In every run, whatever exchanges and time-outs it has, the call keeps its
promises after each step exactly when each step is allowed. -/
theorem preset_honest_iff (little : Bool) (s : EcSlaves) (control : ControlWord) (var : IOVar)
    (m : Memory) (ls : List Label) :
    Along (step little s control var)
        (fun p l => Honest little s control var (step little s control var p l)) (start m) ls ↔
      Along (step little s control var) (Allows little s control var) (start m) ls := by
  apply along_congr (P := Settled little s control var)
  · intro p l h
    exact ⟨allows_of_honest h, fun hallows => honest_of_settled (settled_step h l hallows)⟩
  · exact fun p l h hallows => settled_step h l hallows
  · exact trivial

/-- The counter of module 1 with its set bit in the byte before. -/
def counterWord : ControlWord :=
  { tAddr := { uiModule := 1, uiChannel := 16, uiNumBits := 8 }, uiSetBit := 2 }

def counterVar : IOVar :=
  { miTimeS := 0, mfTrueVal := 50, mfForcedVal := 0, mfEguMin := 0, mfEguMax := 0, mfHWMin := 0
    mfHWMax := 0, mtAddr := { uiModule := 1, uiChannel := 32, uiNumBits := 16 }, mtQState := .ok
    mbForcedVal := false }

/-- No exchange comes during the first wait: the call fails and the bit stays. -/
theorem timeOut_leaves_bit :
    PulseDev.parametersOk counterWord = true ∧
    (run (step true oneSlave counterWord counterVar) (start (fun _ => 0#8))
      [.writer, .writer, .timeOut]).stage = .returned false ∧
    setBit true oneSlave counterWord (run (step true oneSlave counterWord counterVar)
      (start (fun _ => 0#8)) [.writer, .writer, .timeOut]).image = 1 ∧
    ¬ Along (step true oneSlave counterWord counterVar)
      (fun p l => Honest true oneSlave counterWord counterVar
        (step true oneSlave counterWord counterVar p l)) (start (fun _ => 0#8))
      [.writer, .writer, .timeOut] := by
  have hstage : (run (step true oneSlave counterWord counterVar) (start (fun _ => 0#8))
      [.writer, .writer, .timeOut]).stage = .returned false := by decide +kernel
  have hbit : setBit true oneSlave counterWord (run (step true oneSlave counterWord counterVar)
      (start (fun _ => 0#8)) [.writer, .writer, .timeOut]).image = 1 := by decide +kernel
  refine ⟨by decide, hstage, hbit, fun h => ?_⟩
  have hclear := (h.2.2.1 false hstage).1
  exact absurd (hbit.symm.trans hclear) (by decide)

end PulsePreset
