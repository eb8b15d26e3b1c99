import TurbineGovernor.AffineScales
import TurbineGovernor.EtherDevices

/-!
# The values of the EtherCAT devices

The classes of `EtherDevice` convert the `float` of a variable to the bytes of
the process image and back. Arithmetic is exact here: a `float` is a rational
number, and storing one in an unsigned integer of N bits cuts it toward zero
and takes it modulo 2^N.
-/

namespace DeviceValues
open CommonTypes ByteOrder ByteMemory ProcessImage ProcessImage.Addr AffineScales
open EtherDevices (StatusWord)

inductive BitRepr where
  | signed
  | unsigned
  | halfSigned
  | invalid
  deriving DecidableEq

/-- What the field devices use of an `IOVar`. The pulse is not set by the
constructor. -/
structure IOVar where
  miTimeS : BitVec 64
  mfTrueVal : ℚ
  mfForcedVal : ℚ
  mfEguMin : ℚ
  mfEguMax : ℚ
  mfHWMin : ℚ
  mfHWMax : ℚ
  mtAddr : IOAddr
  mdPulseDur : Option Int := none
  miPulseTimeS : Option Int := none
  mtQState : QuState
  mbForcedVal : Bool
  deriving DecidableEq

namespace IOVar

def getCurrentVal (var : IOVar) : ℚ := if var.mbForcedVal then var.mfForcedVal else var.mfTrueVal

def setCurrentVal (var : IOVar) (fCurrentVal : ℚ) : IOVar := { var with mfTrueVal := fCurrentVal }

def setPulseInfo (var : IOVar) (dDur iTimeS : Option Int) : IOVar :=
  { var with mdPulseDur := dDur, miPulseTimeS := iTimeS }

end IOVar

/-- The conversion of a `float` to an unsigned integer of `n` bits. -/
def toUnsigned (n : Nat) (fVal : ℚ) : BitVec n := BitVec.ofInt n (trunc fVal)

/-- The pointers of the union write to the first bytes of `retVal`. -/
def convertFloat (little : Bool) (fVal : ℚ) (uiNumBits : BitVec 8) : BitVec 32 :=
  let retVal := image little 4 0
  let retVal :=
    if uiNumBits.toNat = 8 then image little 1 (toUnsigned 8 fVal).toNat ++ retVal.drop 1
    else if uiNumBits.toNat = 16 then image little 2 (toUnsigned 16 fVal).toNat ++ retVal.drop 2
    else if uiNumBits.toNat = 32 then image little 4 (toUnsigned 32 fVal).toNat ++ retVal.drop 4
    else retVal
  BitVec.ofNat 32 (fromImage little retVal)

/-- The number of an unsigned or a signed integer of `n` bits. -/
def ofBits (repr : BitRepr) {n : Nat} (bits : BitVec n) : ℤ :=
  if repr = .unsigned then bits.toNat else bits.toInt

def convertBytes (little : Bool) (uiVal : BitVec 32) (repr : BitRepr) (uiNumBits : BitVec 8) : ℚ :=
  let reprType := image little 4 uiVal.toNat
  if uiNumBits.toNat = 8 then
    ofBits repr (BitVec.ofNat 8 (fromImage little (reprType.take 1)))
  else if uiNumBits.toNat = 16 then
    ofBits repr (BitVec.ofNat 16 (fromImage little (reprType.take 2)))
  else if uiNumBits.toNat = 32 then
    ofBits repr (BitVec.ofNat 32 (fromImage little (reprType.take 4)))
  else 0

/-- `1 << count` of an `int`. The processor takes the count modulo 32. -/
def oneShifted (count : Int) : ℤ := (1#32 <<< (count % 32).toNat).toInt

structure AnalogDev where
  mtStatusW : StatusWord
  mtBitRepr : BitRepr
  mfMinReprLimit : ℚ
  mfMaxReprLimit : ℚ
  mtLastQState : QuState

namespace AnalogDev

def minReprLimit (repr : BitRepr) (uiNumBits : BitVec 8) : ℚ :=
  match repr with
  | .unsigned => 0
  | .signed => -(oneShifted (uiNumBits.toNat - 1))
  | .halfSigned => 0
  | .invalid => 1

def maxReprLimit (repr : BitRepr) (uiNumBits : BitVec 8) : ℚ :=
  match repr with
  | .unsigned => oneShifted uiNumBits.toNat - 1
  | .signed => oneShifted (uiNumBits.toNat - 1) - 1
  | .halfSigned => oneShifted (uiNumBits.toNat - 1) - 1
  | .invalid => -1

def new (status : StatusWord) (repr : BitRepr) (uiNumBits : BitVec 8) : AnalogDev where
  mtStatusW := status
  mtBitRepr := repr
  mfMinReprLimit := minReprLimit repr uiNumBits
  mfMaxReprLimit := maxReprLimit repr uiNumBits
  mtLastQState := .ok

def parametersOk (stWord : StatusWord) (repr : BitRepr) (uiNumBits : BitVec 8) : Bool :=
  decide (repr ≠ .invalid ∧ uiNumBits.toNat % 8 = 0 ∧ uiNumBits.toNat ≠ 24 ∧ uiNumBits.toNat > 0 ∧
    uiNumBits.toNat ≤ 32) && stWord.StatusWordOk

def scaleValue (fDestMin fDestMax fOriginMin fOriginMax fVal : ℚ) : ℚ :=
  scale fDestMin fDestMax fOriginMin fOriginMax fVal

/-- `now` is what `getMsSinceEpoch` answers. -/
def read (little : Bool) (s : EcSlaves) (m : Memory) (dev : AnalogDev) (var : IOVar)
    (now : BitVec 64) : Bool × IOVar :=
  let fHwMin := var.mfHWMin
  let fHwMax := var.mfHWMax
  if fHwMin < dev.mfMinReprLimit ∨ fHwMax > dev.mfMaxReprLimit ∨ fHwMax ≤ fHwMin then (false, var)
  else
    let (ok, uiReadedVal) := readDevice little s m var.mtAddr
    if !ok then (false, var)
    else (true, { var.setCurrentVal (scaleValue var.mfEguMin var.mfEguMax fHwMin fHwMax
        (convertBytes little uiReadedVal dev.mtBitRepr var.mtAddr.uiNumBits)) with
      miTimeS := now, mtQState := dev.mtLastQState })

/-- The check of the value against the limits is commented out in the source. -/
def write (little : Bool) (s : EcSlaves) (m : Memory) (_dev : AnalogDev) (var : IOVar) :
    Bool × Memory :=
  let fHwMin := var.mfHWMin
  let fHwMax := var.mfHWMax
  let fEguMin := var.mfEguMin
  let fEguMax := var.mfEguMax
  if fHwMax ≤ fHwMin ∨ fEguMax ≤ fEguMin then (false, m)
  else
    let fWriteVal := scaleValue fHwMin fHwMax fEguMin fEguMax var.getCurrentVal
    writeDevice little s m var.mtAddr (convertFloat little fWriteVal var.mtAddr.uiNumBits)

end AnalogDev

structure ControlWord where
  tAddr : IOAddr
  uiSetBit : BitVec 8

namespace PulseDev

def parametersOk (control : ControlWord) : Bool :=
  decide (control.tAddr.uiNumBits.toNat > 0 ∧ control.tAddr.uiNumBits.toNat ≤ 32 ∧
    control.tAddr.uiNumBits.toNat % 8 = 0 ∧ control.tAddr.uiNumBits.toNat ≠ 24 ∧
    (control.uiSetBit.toNat : Int) ≤ control.tAddr.uiNumBits.toNat - 1)

def tSetAddr (control : ControlWord) : IOAddr :=
  { control.tAddr with uiChannel := control.tAddr.uiChannel + control.uiSetBit, uiNumBits := 1 }

/-- `setTimedOut` and `resetTimedOut` say how the two waits end. -/
def write (little : Bool) (s : EcSlaves) (m : Memory) (control : ControlWord) (var : IOVar)
    (setTimedOut resetTimedOut : Bool) : Bool × Memory :=
  match writeDevice little s m var.mtAddr
      (convertFloat little var.getCurrentVal var.mtAddr.uiNumBits) with
  | (false, m) => (false, m)
  | (true, m) =>
    match writeDeviceSync little s m (tSetAddr control) 1 setTimedOut with
    | (false, m) => (false, m)
    | (true, m) => writeDeviceSync little s m (tSetAddr control) 0 resetTimedOut

end PulseDev

section Bytes
variable (little : Bool)

/-- The conversion leaves the value in the first bytes and zeros after it. -/
theorem image_convertFloat (fVal : ℚ) {uiNumBits : BitVec 8}
    (h : uiNumBits.toNat = 8 ∨ uiNumBits.toNat = 16 ∨ uiNumBits.toNat = 32) :
    image little 4 (convertFloat little fVal uiNumBits).toNat =
      image little (uiNumBits.toNat / 8) (toUnsigned uiNumBits.toNat fVal).toNat ++
        List.replicate (4 - uiNumBits.toNat / 8) 0#8 := by
  have hzero : image little 4 0 = List.replicate 4 0#8 := by
    cases little
    · rfl
    · rfl
  unfold convertFloat
  dsimp only
  rcases h with h | h | h
  · rw [if_pos h, image_ofNat_fromImage little (by simp), hzero, h]
    rfl
  · rw [if_neg (by omega), if_pos h, image_ofNat_fromImage little (by simp), hzero, h]
    rfl
  · rw [if_neg (by omega), if_neg (by omega), if_pos h, image_ofNat_fromImage little (by simp),
      hzero, h]
    rfl

/-- Other widths are converted to nothing. -/
theorem convertFloat_other (fVal : ℚ) {uiNumBits : BitVec 8}
    (h : ¬ (uiNumBits.toNat = 8 ∨ uiNumBits.toNat = 16 ∨ uiNumBits.toNat = 32)) :
    convertFloat little fVal uiNumBits = 0 := by
  rw [not_or, not_or] at h
  unfold convertFloat
  dsimp only
  rw [if_neg h.1, if_neg h.2.1, if_neg h.2.2]
  exact ofNat_fromImage_image little 0

theorem convertBytes_eq (uiVal : BitVec 32) (repr : BitRepr) {uiNumBits : BitVec 8}
    (h : uiNumBits.toNat = 8 ∨ uiNumBits.toNat = 16 ∨ uiNumBits.toNat = 32) :
    convertBytes little uiVal repr uiNumBits = ofBits repr (BitVec.ofNat uiNumBits.toNat
      (fromImage little ((image little 4 uiVal.toNat).take (uiNumBits.toNat / 8)))) := by
  unfold convertBytes
  dsimp only
  rcases h with h | h | h
  · rw [if_pos h, h]
  · rw [if_neg (by omega), if_pos h, h]
  · rw [if_neg (by omega), if_neg (by omega), if_pos h, h]

/-- What is converted back is the integer of the stored bits. -/
theorem convertBytes_convertFloat (fVal : ℚ) (repr : BitRepr) {uiNumBits : BitVec 8}
    (h : uiNumBits.toNat = 8 ∨ uiNumBits.toNat = 16 ∨ uiNumBits.toNat = 32) :
    convertBytes little (convertFloat little fVal uiNumBits) repr uiNumBits =
      ofBits repr (toUnsigned uiNumBits.toNat fVal) := by
  have hpow : 256 ^ (uiNumBits.toNat / 8) = 2 ^ uiNumBits.toNat := by
    rcases h with h | h | h <;> rw [h] <;> rfl
  rw [convertBytes_eq little _ repr h, image_convertFloat little fVal h,
    List.take_left' (length_image little _ _), fromImage_image,
    hpow, Nat.mod_eq_of_lt (BitVec.isLt _), BitVec.ofNat_toNat, BitVec.setWidth_eq]

/-- A converted value can be read back where it has been written. -/
theorem readDevice_written {s : EcSlaves} (m : Memory) {addr : IOAddr} (hvalid : Valid s addr)
    (h : WholeBytes addr) (fVal : ℚ) :
    (writeDevice little s m addr (convertFloat little fVal addr.uiNumBits)).1 = true ∧
      ∀ inputs, inputs addr.uiModule = s.outputs addr.uiModule →
        readDevice little { s with inputs := inputs }
          (writeDevice little s m addr (convertFloat little fVal addr.uiNumBits)).2 addr =
          (true, convertFloat little fVal addr.uiNumBits) := by
  rw [writeDevice_bytes little m _ hvalid h]
  refine ⟨rfl, fun inputs hsame => ?_⟩
  rw [readDevice_bytes little _ (s := { s with inputs := inputs }) hvalid h]
  dsimp only
  rw [firstByte_congr hsame, h.load_store, image_convertFloat little fVal h.1,
    List.take_left' (length_image little _ _),
    ← image_convertFloat little fVal h.1, ofNat_fromImage_image]

end Bytes

end DeviceValues
