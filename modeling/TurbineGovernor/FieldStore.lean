import TurbineGovernor.FieldAccess
import TurbineGovernor.Loops
import TurbineGovernor.PulsePreset

/-!
# The outputs of the field as a store

To the scan the outputs of the process image are cells, one for each address
that is written. A device puts one value, or three when it presets a counter.
As long as no two cells share a bit, each holds the last value put there, and no
other bit of the outputs changes.
-/

namespace FieldStore
open CommonTypes ByteMemory ProcessImage ProcessImage.Addr EtherDevices EthercatDriver
open DeviceValues TransitionRuns FieldAccess

section Attempts
variable {S S' P : Type}

/-- The first put that fails ends the attempt. -/
def attempt (put : S → P → Bool × S) : S → List P → Bool × S
  | s, [] => (true, s)
  | s, p :: ps =>
    match put s p with
    | (false, s) => (false, s)
    | (true, s) => attempt put s ps

theorem attempt_simulation {put : S → P → Bool × S} {put' : S' → P → Bool × S'}
    {R : S → S' → Prop} {ps : List P}
    (agree : ∀ p ∈ ps, ∀ s s', R s s' → (put s p).1 = (put' s' p).1 ∧ R (put s p).2 (put' s' p).2)
    {s : S} {s' : S'} (h : R s s') :
    (attempt put s ps).1 = (attempt put' s' ps).1 ∧
      R (attempt put s ps).2 (attempt put' s' ps).2 := by
  induction ps generalizing s s' with
  | nil => exact ⟨rfl, h⟩
  | cons p ps ih =>
    obtain ⟨hanswer, hnext⟩ := agree p List.mem_cons_self s s' h
    rcases hput : put s p with ⟨_ | _, t⟩
    · rcases hput' : put' s' p with ⟨_ | _, t'⟩
      · rw [hput, hput'] at hnext
        simp only [attempt, hput, hput']
        exact ⟨trivial, hnext⟩
      · rw [hput, hput'] at hanswer
        cases hanswer
    · rcases hput' : put' s' p with ⟨_ | _, t'⟩
      · rw [hput, hput'] at hanswer
        cases hanswer
      · rw [hput, hput'] at hnext
        simp only [attempt, hput, hput']
        exact ih (fun q hq => agree q (List.mem_cons_of_mem p hq)) hnext

end Attempts

/-- A value for an address, and how the wait for its exchange ends. -/
structure Put where
  addr : IOAddr
  uiVal : BitVec 32
  timedOut : Bool

section Devices
variable (little : Bool) (s : EcSlaves) (m : Memory)

/-- A put into the process image. -/
def putImage (m : Memory) (p : Put) : Bool × Memory :=
  writeDeviceSync little s m p.addr p.uiVal p.timedOut

/-- Nothing when the ranges of an analog variable are empty. -/
def puts (members : Members) (dev : EtherDevice) (var : IOVar) (setTimedOut resetTimedOut : Bool) :
    Option (List Put) :=
  match dev.devClass with
  | .digitalDev _ => some [⟨var.mtAddr, if var.getCurrentVal > 0 then 1 else 0, false⟩]
  | .analogDev _ =>
    if var.mfHWMax ≤ var.mfHWMin ∨ var.mfEguMax ≤ var.mfEguMin then none
    else some [⟨var.mtAddr, convertFloat little (AffineScales.scale var.mfHWMin var.mfHWMax
      var.mfEguMin var.mfEguMax var.getCurrentVal) var.mtAddr.uiNumBits, false⟩]
  | .pulseDev =>
    some [⟨var.mtAddr, convertFloat little var.getCurrentVal var.mtAddr.uiNumBits, false⟩,
      ⟨PulseDev.tSetAddr members.mtControlB, 1, setTimedOut⟩,
      ⟨PulseDev.tSetAddr members.mtControlB, 0, resetTimedOut⟩]

theorem attempt_one (addr : IOAddr) (uiVal : BitVec 32) :
    attempt (putImage little s) m [⟨addr, uiVal, false⟩] = writeDevice little s m addr uiVal := by
  simp only [attempt, putImage, PulsePreset.writeDeviceSync_eq, Bool.not_false, Bool.and_true]
  rcases writeDevice little s m addr uiVal with ⟨_ | _, m⟩
  · rfl
  · rfl

theorem pulse_write (control : ControlWord) (var : IOVar) (setTimedOut resetTimedOut : Bool) :
    DeviceValues.PulseDev.write little s m control var setTimedOut resetTimedOut =
      attempt (putImage little s) m
        [⟨var.mtAddr, convertFloat little var.getCurrentVal var.mtAddr.uiNumBits, false⟩,
          ⟨PulseDev.tSetAddr control, 1, setTimedOut⟩,
          ⟨PulseDev.tSetAddr control, 0, resetTimedOut⟩] := by
  simp only [DeviceValues.PulseDev.write, attempt, putImage]
  rw [PulsePreset.writeDeviceSync_eq little s m var.mtAddr, Bool.not_false, Bool.and_true]
  rcases writeDevice little s m var.mtAddr _ with ⟨_ | _, m⟩
  · rfl
  · dsimp only
    rcases writeDeviceSync little s m _ 1 setTimedOut with ⟨_ | _, m⟩
    · rfl
    · dsimp only
      rcases writeDeviceSync little s m _ 0 resetTimedOut with ⟨_ | _, m⟩
      · rfl
      · rfl

/-- A class writes what it puts. -/
theorem write_eq (members : Members) (dev : EtherDevice) (var : IOVar)
    (setTimedOut resetTimedOut : Bool) :
    EtherDevice.write little s m members dev var setTimedOut resetTimedOut =
      match puts little members dev var setTimedOut resetTimedOut with
      | none => (false, m)
      | some ps => attempt (putImage little s) m ps := by
  unfold EtherDevice.write puts
  cases dev.devClass with
  | digitalDev _ => exact (attempt_one little s m _ _).symm
  | analogDev mtStatusW =>
    simp only [AnalogDev.write]
    split
    · rfl
    · exact (attempt_one little s m _ _).symm
  | pulseDev => exact pulse_write little s m members.mtControlB var setTimedOut resetTimedOut

end Devices

section Store
variable (s : EcSlaves)

/-- Addresses that the driver transfers. -/
def Accepted (addr : IOAddr) : Prop := Valid s addr ∧ (InByte addr ∨ WholeBytes addr)

instance (addr : IOAddr) : Decidable (Accepted s addr) := inferInstanceAs (Decidable (_ ∧ (_ ∨ _)))

/-- A put into the store; a cell keeps the low bits that it has room for. -/
def putCell (store : IOAddr → Nat) (p : Put) : Bool × (IOAddr → Nat) :=
  if Accepted s p.addr then
    (!p.timedOut, Function.update store p.addr (p.uiVal.toNat % 2 ^ p.addr.uiNumBits.toNat))
  else (false, store)

end Store

/-- What the driver would read where it writes. -/
def contents (little : Bool) (s : EcSlaves) (m : Memory) (addr : IOAddr) : Nat :=
  (readDevice little { s with inputs := s.outputs } m addr).2.toNat

/-- The cells of an area of the image: each can be transferred, no two overlap. -/
structure Layout (little : Bool) (s : EcSlaves) (cells : Finset IOAddr) (area : Finset Nat) :
    Prop where
  fit : ∀ c ∈ cells, ¬ Misfit little s c
  apart : ∀ c ∈ cells, ∀ c' ∈ cells, c ≠ c' → Disjoint (bits s.outputs c) (bits s.outputs c')
  inside : ∀ c ∈ cells, bits s.outputs c ⊆ area

/-- The image holds what the store holds, and `m₀` in the rest of the area. -/
structure Represents (little : Bool) (s : EcSlaves) (cells : Finset IOAddr) (area : Finset Nat)
    (m₀ m : Memory) (store : IOAddr → Nat) : Prop where
  held : ∀ c ∈ cells, contents little s m c = store c
  rest : ∀ b ∈ area, (∀ c ∈ cells, b ∉ bits s.outputs c) → bitAt m b = bitAt m₀ b

section Refinement
variable {little : Bool} {s : EcSlaves} {cells : Finset IOAddr} {area : Finset Nat} {m₀ m : Memory}
  {store : IOAddr → Nat}

/-- The bits of the area are all that the store depends on. -/
theorem Represents.congr (layout : Layout little s cells area)
    (represents : Represents little s cells area m₀ m store) {m' : Memory}
    (hsame : ∀ b ∈ area, bitAt m' b = bitAt m b) : Represents little s cells area m₀ m' store where
  held := by
    intro c hc
    have hread : readDevice little { s with inputs := s.outputs } m' c =
        readDevice little { s with inputs := s.outputs } m c :=
      readDevice_congr little _ c (fun b hb => hsame b (layout.inside c hc hb))
    rw [← represents.held c hc, contents, hread, contents]
  rest := fun b hb hfree => (hsame b hb).trans (represents.rest b hb hfree)

theorem writeDevice_accepted (m : Memory) {addr : IOAddr} (uiVal : BitVec 32)
    (haccepted : Accepted s addr) (hfit : ¬ Misfit little s addr) :
    (writeDevice little s m addr uiVal).1 = true ∧
      Written little s m addr uiVal (writeDevice little s m addr uiVal).2 := by
  obtain ⟨hvalid, hfield | hbytes⟩ := haccepted
  · refine ⟨?_, written_field little m uiVal hvalid hfield⟩
    rw [writeDevice_field little m uiVal hvalid hfield]
  · have hhost : little = true ∨ addr.uiNumBits.toNat = 32 := by
      by_contra hnot
      rw [not_or, Bool.not_eq_true] at hnot
      exact hfit ⟨hvalid, Or.inr (Or.inr ⟨hnot.1, hbytes, hnot.2⟩)⟩
    refine ⟨?_, written_bytes little m uiVal hvalid hbytes hhost⟩
    rw [writeDevice_bytes little m uiVal hvalid hbytes]

theorem writeDevice_refused (m : Memory) {addr : IOAddr} (uiVal : BitVec 32)
    (hnot : ¬ Accepted s addr) (hfit : ¬ Misfit little s addr) :
    writeDevice little s m addr uiVal = (false, m) := by
  refine (refused little m uiVal ?_).1
  rintro ⟨hvalid, hfield | hcross | hbytes | hthree⟩
  · exact hnot ⟨hvalid, Or.inl hfield⟩
  · exact hfit ⟨hvalid, Or.inl hcross⟩
  · exact hnot ⟨hvalid, Or.inr hbytes⟩
  · exact hfit ⟨hvalid, Or.inr (Or.inl hthree)⟩

/-- One put, in the image and in the store. -/
theorem Represents.put (layout : Layout little s cells area)
    (represents : Represents little s cells area m₀ m store) {p : Put} (hp : p.addr ∈ cells) :
    (putImage little s m p).1 = (putCell s store p).1 ∧
      Represents little s cells area m₀ (putImage little s m p).2 (putCell s store p).2 := by
  have hfit := layout.fit p.addr hp
  rw [putImage, PulsePreset.writeDeviceSync_eq]
  by_cases haccepted : Accepted s p.addr
  · obtain ⟨hanswer, hwritten⟩ := writeDevice_accepted m p.uiVal haccepted hfit
    rw [putCell, if_pos haccepted]
    refine ⟨by rw [hanswer, Bool.true_and], ?_, ?_⟩
    · intro c hc
      dsimp only
      by_cases hsame : c = p.addr
      · subst hsame
        rw [Function.update_self]
        exact (hwritten.readBack s.outputs rfl).2
      · have hdisjoint := layout.apart p.addr hp c hc (Ne.symm hsame)
        rw [Function.update_of_ne hsame, ← represents.held c hc, contents,
          hwritten.apart s.outputs c hdisjoint, contents]
    · intro b hb hfree
      exact (hwritten.frame b (hfree p.addr hp)).trans (represents.rest b hb hfree)
  · rw [writeDevice_refused m p.uiVal haccepted hfit, putCell, if_neg haccepted]
    exact ⟨rfl, represents⟩

end Refinement

/-- The driver with a store for its outputs. -/
structure StoreBus where
  drv : EthercatDrv
  members : IOAddr → Members
  outputs : IOAddr → Nat

def StoreBus.write (little : Bool) (f : StoreBus) (var : IOVar)
    (setTimedOut resetTimedOut : Bool) : Bool × (IOAddr → Nat) :=
  if f.drv.mtDrvState = .unInit then (false, f.outputs)
  else match f.drv.mDevices.lookup var.mtAddr with
    | none => (false, f.outputs)
    | some dev =>
      match puts little (f.members var.mtAddr) dev var setTimedOut resetTimedOut with
      | none => (false, f.outputs)
      | some ps => attempt (putCell f.drv.slaves) f.outputs ps

/-- Only a write changes the store. A configuration that is in use stays. -/
def storeStep (little : Bool) (f : StoreBus) : FieldAccess.Op → StoreBus
  | .init file scan _ _ => { f with drv := (f.drv.init file scan).2 }
  | .start => { f with drv := f.drv.start.2 }
  | .stop => { f with drv := f.drv.stop.2 }
  | .close => { f with drv := f.drv.close.2 }
  | .exchange x => { f with drv := f.drv.driverLoop little x }
  | .write var setTimedOut resetTimedOut =>
    { f with outputs := (f.write little var setTimedOut resetTimedOut).2 }

/-- A write goes to cells only, that of its variable and that of the set bit. -/
def ToCells (cells : Finset IOAddr) (b : FieldBus) (var : IOVar) : Prop :=
  var.mtAddr ∈ cells ∧
    ((b.drv.mDevices.lookup var.mtAddr).map EtherDevice.devClass = some .pulseDev →
      PulseDev.tSetAddr (b.members var.mtAddr).mtControlB ∈ cells)

/-- The configuration stays, the writes go to cells, and the bus gives the
outputs back as they were sent. -/
def Undisturbed (cells : Finset IOAddr) (area : Finset Nat) (b : FieldBus) : FieldAccess.Op → Prop
  | .init _ _ _ _ => b.drv.mtDrvState ≠ .unInit
  | .exchange x => idle b.drv = false → ∀ bit ∈ area, bitAt x.image bit = bitAt b.mcIOmap bit
  | .write var _ _ => ToCells cells b var
  | _ => True

instance (cells : Finset IOAddr) (area : Finset Nat) (b : FieldBus) (op : FieldAccess.Op) :
    Decidable (Undisturbed cells area b op) :=
  match op with
  | .init _ _ _ _ => inferInstanceAs (Decidable (_ ≠ _))
  | .start => isTrue trivial
  | .stop => isTrue trivial
  | .close => isTrue trivial
  | .exchange _ => inferInstanceAs (Decidable (_ → ∀ bit ∈ area, _ = _))
  | .write _ _ _ => inferInstanceAs (Decidable (_ ∧ (_ → _)))

theorem ToCells.puts {little : Bool} {cells : Finset IOAddr} {b : FieldBus} {var : IOVar}
    (toCells : ToCells cells b var) {dev : EtherDevice}
    (hdev : b.drv.mDevices.lookup var.mtAddr = some dev) {setTimedOut resetTimedOut : Bool}
    {ps : List Put}
    (hputs : puts little (b.members var.mtAddr) dev var setTimedOut resetTimedOut = some ps) :
    ∀ p ∈ ps, p.addr ∈ cells := by
  obtain ⟨haddr, hset⟩ := toCells
  rw [hdev, Option.map_some] at hset
  unfold FieldStore.puts at hputs
  cases hclass : dev.devClass with
  | digitalDev digital =>
    rw [hclass] at hputs
    obtain rfl := Option.some.inj hputs
    intro p hp
    rwa [List.mem_singleton.mp hp]
  | analogDev mtStatusW =>
    rw [hclass] at hputs
    dsimp only at hputs
    split at hputs
    · cases hputs
    · obtain rfl := Option.some.inj hputs
      intro p hp
      rwa [List.mem_singleton.mp hp]
  | pulseDev =>
    rw [hclass] at hputs hset
    obtain rfl := Option.some.inj hputs
    have hbit := hset rfl
    simp only [List.forall_mem_cons]
    exact ⟨haddr, hbit, hbit, fun p hp => absurd hp List.not_mem_nil⟩

theorem slaves_checkSlave (d : EthercatDrv) (iSlave : Nat) (a : SlaveAnswer) :
    (d.checkSlave iSlave a).slaves = d.slaves := by
  unfold EthercatDrv.checkSlave
  split
  · rfl
  · rfl

theorem slaves_checkSlavesWKC (d : EthercatDrv) (x : Exchange) :
    (d.checkSlavesWKC x).slaves = d.slaves := by
  unfold EthercatDrv.checkSlavesWKC
  split
  · exact IndexedLoops.foldl_range_kept (P := fun e : EthercatDrv => e.slaves = d.slaves)
      (fun e i he => (slaves_checkSlave e (i + 1) _).trans he) _ rfl
  · rfl

theorem slaves_driverLoop (little : Bool) (d : EthercatDrv) (x : Exchange) :
    (d.driverLoop little x).slaves = d.slaves := by
  unfold EthercatDrv.driverLoop
  split
  · rfl
  · refine Eq.trans ?_ (slaves_checkSlavesWKC d x)
    dsimp only
    split
    · rfl
    · split
      · rfl
      · rfl

/-- A configuration in use keeps its slaves. -/
theorem slaves_step (little : Bool) {cells : Finset IOAddr} {area : Finset Nat} {b : FieldBus}
    {op : FieldAccess.Op} (h : Undisturbed cells area b op) :
    (step little b op).drv.slaves = b.drv.slaves := by
  cases op with
  | init file scan members image =>
    have hinit : b.drv.mtDrvState ≠ .unInit := h
    simp only [step, EthercatDrv.init, if_pos hinit]
    rfl
  | start =>
    simp only [step, EthercatDrv.start]
    split
    · rfl
    · split
      · rfl
      · rfl
  | stop =>
    simp only [step, EthercatDrv.stop]
    split
    · rfl
    · rfl
  | close =>
    simp only [step, EthercatDrv.close]
    split
    · rfl
    · rfl
  | exchange x => exact slaves_driverLoop little b.drv x
  | write var setTimedOut resetTimedOut => rfl

/-- The driver with its image and the driver with the store. -/
structure Refines (little : Bool) (s : EcSlaves) (cells : Finset IOAddr) (area : Finset Nat)
    (m₀ : Memory) (b : FieldBus) (f : StoreBus) : Prop where
  drv : f.drv = b.drv
  members : f.members = b.members
  slaves : b.drv.slaves = s
  outputs : Represents little s cells area m₀ b.mcIOmap f.outputs

section Runs
variable {little : Bool} {s : EcSlaves} {cells : Finset IOAddr} {area : Finset Nat} {m₀ : Memory}
  {b : FieldBus} {f : StoreBus}

/-- One write, in both. -/
theorem Refines.write (refines : Refines little s cells area m₀ b f)
    (layout : Layout little s cells area) {var : IOVar} {setTimedOut resetTimedOut : Bool}
    (toCells : ToCells cells b var) :
    (b.write little var setTimedOut resetTimedOut).1 =
        (f.write little var setTimedOut resetTimedOut).1 ∧
      Represents little s cells area m₀ (b.write little var setTimedOut resetTimedOut).2
        (f.write little var setTimedOut resetTimedOut).2 := by
  unfold FieldBus.write StoreBus.write
  rw [refines.drv, refines.members]
  split
  · exact ⟨rfl, refines.outputs⟩
  · cases hdev : b.drv.mDevices.lookup var.mtAddr with
    | none => exact ⟨rfl, refines.outputs⟩
    | some dev =>
      simp only [write_eq]
      cases hputs : puts little (b.members var.mtAddr) dev var setTimedOut resetTimedOut with
      | none => exact ⟨rfl, refines.outputs⟩
      | some ps =>
        rw [refines.slaves]
        exact attempt_simulation
          (fun p hp _ _ represents => represents.put layout (toCells.puts hdev hputs p hp))
          refines.outputs

theorem Refines.step (refines : Refines little s cells area m₀ b f)
    (layout : Layout little s cells area) {op : FieldAccess.Op} (h : Undisturbed cells area b op) :
    Refines little s cells area m₀ (step little b op) (storeStep little f op) := by
  have hslaves := (slaves_step little h).trans refines.slaves
  have hdrv := refines.drv
  cases op with
  | init file scan members image =>
    have hinit : b.drv.mtDrvState ≠ .unInit := h
    simp only [FieldAccess.step, if_pos hinit] at hslaves ⊢
    exact ⟨by rw [storeStep, hdrv], refines.members, hslaves, refines.outputs⟩
  | start => exact ⟨by rw [storeStep, hdrv]; rfl, refines.members, hslaves, refines.outputs⟩
  | stop => exact ⟨by rw [storeStep, hdrv]; rfl, refines.members, hslaves, refines.outputs⟩
  | close => exact ⟨by rw [storeStep, hdrv]; rfl, refines.members, hslaves, refines.outputs⟩
  | exchange x =>
    refine ⟨by rw [storeStep, hdrv]; rfl, refines.members, hslaves, ?_⟩
    simp only [FieldAccess.step, storeStep]
    cases hidle : idle b.drv with
    | false => exact refines.outputs.congr layout (h hidle)
    | true => exact refines.outputs
  | write var setTimedOut resetTimedOut =>
    exact ⟨hdrv, refines.members, hslaves, (refines.write layout h).2⟩

theorem refines_run (layout : Layout little s cells area) {ops : List FieldAccess.Op}
    (refines : Refines little s cells area m₀ b f)
    (undisturbed : Along (step little) (Undisturbed cells area) b ops) :
    Refines little s cells area m₀ (run (step little) b ops) (run (storeStep little) f ops) := by
  induction ops generalizing b f with
  | nil => exact refines
  | cons op ops ih => exact ih (refines.step layout undisturbed.1) undisturbed.2

end Runs

/-- In every run within one configuration whose writes go to the cells the
outputs of the image are those of the store, the other bits of the area are those
of its beginning, and a write to cells answers as the store does. -/
theorem outputs_refined {little : Bool} {b : FieldBus} {cells : Finset IOAddr} {area : Finset Nat}
    (layout : Layout little b.drv.slaves cells area) {ops : List FieldAccess.Op}
    (undisturbed : Along (step little) (Undisturbed cells area) b ops) :
    (∀ c ∈ cells, contents little b.drv.slaves (run (step little) b ops).mcIOmap c =
      (run (storeStep little) ⟨b.drv, b.members, contents little b.drv.slaves b.mcIOmap⟩
        ops).outputs c) ∧
    (∀ bit ∈ area, (∀ c ∈ cells, bit ∉ bits b.drv.slaves.outputs c) →
      bitAt (run (step little) b ops).mcIOmap bit = bitAt b.mcIOmap bit) ∧
    ∀ var setTimedOut resetTimedOut,
      ToCells cells (run (step little) b ops) var →
      ((run (step little) b ops).write little var setTimedOut resetTimedOut).1 =
        ((run (storeStep little) ⟨b.drv, b.members, contents little b.drv.slaves b.mcIOmap⟩
          ops).write little var setTimedOut resetTimedOut).1 := by
  have hrefines : Refines little b.drv.slaves cells area b.mcIOmap (run (step little) b ops)
      (run (storeStep little) ⟨b.drv, b.members, contents little b.drv.slaves b.mcIOmap⟩ ops) :=
    refines_run layout ⟨rfl, rfl, rfl, fun _ _ => rfl, fun _ _ _ => rfl⟩ undisturbed
  exact ⟨hrefines.outputs.held, hrefines.outputs.rest,
    fun var _ _ toCells => (hrefines.write layout toCells).1⟩

def counterAddr : IOAddr := PulsePreset.counterVar.mtAddr

def setAddr : IOAddr := PulseDev.tSetAddr PulsePreset.counterWord

def lampAndCounter : Except String (Option FieldDriverXml) :=
  .ok (some ⟨"eth0", [.vars [some (ErrorBookkeeping.lampAddr, .digitalDev (-1)),
    some (counterAddr, .pulseDev)]]⟩)

/-- The inputs begin after the outputs. -/
def inputsApart : BusScan := { ErrorBookkeeping.twoSlaves with inputs := fun _ => 100 }

def startedBus : FieldBus :=
  run (step true) (fresh ⟨0, by decide⟩ (fun _ => ⟨.unsigned, 8, PulsePreset.counterWord⟩))
    [.init lampAndCounter inputsApart (fun _ => ⟨.unsigned, 8, PulsePreset.counterWord⟩)
      (fun _ => 0#8), .start]

def litLamp : IOVar := { lampVar with mfTrueVal := 1 }

/-- The first wait of the preset times out; the next exchange brings inputs. -/
def presetThenLamp : List FieldAccess.Op :=
  [.write PulsePreset.counterVar true false,
    .exchange
      { iWorkCount := 2
        slave := fun _ => ⟨EC_STATE_OPERATIONAL, (false, 0), 0, false⟩
        image := fun a => if a = 2 then 0x20 else if a = 4 then 50 else if a = 100 then 0x80 else 0
        steadyNow := 0
        msSinceEpoch := 0 },
    .write litLamp false false]

/-- The lamp does not touch the counter, nor the set bit that the time-out left. -/
theorem lamp_and_counter :
    contents true startedBus.drv.slaves (run (step true) startedBus presetThenLamp).mcIOmap
        ErrorBookkeeping.lampAddr = 1 ∧
    contents true startedBus.drv.slaves (run (step true) startedBus presetThenLamp).mcIOmap
        counterAddr = 50 ∧
    contents true startedBus.drv.slaves (run (step true) startedBus presetThenLamp).mcIOmap
        setAddr = 1 := by
  have layout : Layout true startedBus.drv.slaves
      {ErrorBookkeeping.lampAddr, counterAddr, setAddr} (Finset.range 64) :=
    ⟨by decide +kernel, by decide +kernel, by decide +kernel⟩
  have undisturbed : Along (step true)
      (Undisturbed {ErrorBookkeeping.lampAddr, counterAddr, setAddr} (Finset.range 64))
      startedBus presetThenLamp := by decide +kernel
  obtain ⟨held, _⟩ := outputs_refined layout undisturbed
  exact ⟨(held _ (by decide +kernel)).trans (by decide +kernel),
    (held _ (by decide +kernel)).trans (by decide +kernel),
    (held _ (by decide +kernel)).trans (by decide +kernel)⟩

end FieldStore
