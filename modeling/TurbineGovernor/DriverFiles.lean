import TurbineGovernor.EthercatDriver
import TurbineGovernor.DeviceValues
import TurbineGovernor.InitTraces
import TurbineGovernor.DecimalTexts

/-!
# The files of the two drivers

`DeviceFactory` and the two `readXMLVars` over the texts of the attributes. How
a text becomes a number is an argument: the code takes what `atoi` leaves in a
field, the file says the integer that is written.
-/

namespace DriverFiles
open CommonTypes KeyedTables EtherDevices DeviceValues DecimalTexts

/-- What a text becomes in a field of each type; `none` is a reading that fails. -/
structure Numbers where
  uint8 : Text → Option (BitVec 8)
  uint32 : Text → Option (BitVec 32)
  int : Text → Option Int

/-- The code: nothing is checked. -/
def atoiNumbers (w : LongWidth) : Numbers where
  uint8 text := some ((atoi w text).setWidth 8)
  uint32 text := some (atoi w text)
  int text := some (atoi w text).toInt

/-- The file: the integer that is written, when the field can hold it. -/
def writtenNumbers : Numbers where
  uint8 text := (writtenBelow (2 ^ 8) text).map (BitVec.ofInt 8)
  uint32 text := (writtenBelow (2 ^ 32) text).map (BitVec.ofInt 32)
  int text := (written text).filter (fun n => decide (-2 ^ 31 ≤ n ∧ n < 2 ^ 31))

structure AddrXml where
  head : Option Text
  mod : Option Text
  ch : Option Text
  prec : Option Text

def AddrXml.convert (num : Numbers) (pNode : AddrXml) : SlaveDriver.AddrXml :=
  ⟨pNode.head.bind num.uint8, pNode.mod.bind num.uint8, pNode.ch.bind num.uint8,
    pNode.prec.bind num.uint8⟩

/-- `DeviceFactory` reads an address as `ModbusSlaveDrv` does. -/
def parseXMLAddr (num : Numbers) (pNode : AddrXml) : Option IOAddr :=
  match SlaveDriver.parseXMLAddr (pNode.convert num) {} with
  | (true, addr) => some addr
  | (false, _) => none

/-- The children of a `StatusWord` or a `ControlWord`; the text is `none` when
the element is empty. -/
inductive WordChild where
  | addr (pNode : AddrXml)
  | underRangeBit (text : Option Text)
  | overRangeBit (text : Option Text)
  | setBit (text : Option Text)
  | other

/-- The children of a `VarType`. -/
inductive ParamXml where
  | pulseMeasure (text : Option Text)
  | statusWord (children : List WordChild)
  | bitRepr (type : Option String) (numBits : Option Text)
  | controlWord (children : List WordChild)
  | other

structure VarTypeXml where
  type : Option String
  params : List ParamXml

/-- The arguments of the constructors that the factory calls. -/
inductive NewDevice where
  | digitalDev (iPulseMeasure : Int)
  | analogDev (stByte : StatusWord) (bitRepr : BitRepr) (uiNumBits : BitVec 8)
  | pulseDev (ctrByte : ControlWord)

def getBitRepr (strRepr : String) : BitRepr :=
  if strRepr = "Unsigned" then .unsigned
  else if strRepr = "HalfSigned" then .halfSigned
  else if strRepr = "Signed" then .signed
  else .invalid

/-- The loop over a `StatusWord`. An argument is `none` while its flag is down. -/
def readStatusWord (num : Numbers) : List WordChild → Option IOAddr → Option (BitVec 8) →
    Option (BitVec 8) → Option StatusWord
  | [], some tAddr, some uiUnderRangeBit, some uiOverRangeBit =>
    some ⟨tAddr, uiUnderRangeBit, uiOverRangeBit⟩
  | [], _, _, _ => none
  | .addr pNode :: rest, _, uiUnder, uiOver =>
    (parseXMLAddr num pNode).bind (fun tAddr => readStatusWord num rest (some tAddr) uiUnder uiOver)
  | .underRangeBit text :: rest, addr, _, uiOver =>
    (text.bind num.uint8).bind (fun bit => readStatusWord num rest addr (some bit) uiOver)
  | .overRangeBit text :: rest, addr, uiUnder, _ =>
    (text.bind num.uint8).bind (fun bit => readStatusWord num rest addr uiUnder (some bit))
  | .setBit _ :: rest, addr, uiUnder, uiOver => readStatusWord num rest addr uiUnder uiOver
  | .other :: rest, addr, uiUnder, uiOver => readStatusWord num rest addr uiUnder uiOver

/-- The loop over a `ControlWord`; one that ends with a flag down is `some none`. -/
def readControlWord (num : Numbers) : List WordChild → Option IOAddr → Option (BitVec 8) →
    Option (Option ControlWord)
  | [], some tAddr, some uiSetBit => some (some ⟨tAddr, uiSetBit⟩)
  | [], _, _ => some none
  | .addr pNode :: rest, _, setBit =>
    (parseXMLAddr num pNode).bind (fun tAddr => readControlWord num rest (some tAddr) setBit)
  | .setBit text :: rest, addr, _ =>
    (text.bind num.uint8).bind (fun bit => readControlWord num rest addr (some bit))
  | .underRangeBit _ :: rest, addr, setBit => readControlWord num rest addr setBit
  | .overRangeBit _ :: rest, addr, setBit => readControlWord num rest addr setBit
  | .other :: rest, addr, setBit => readControlWord num rest addr setBit

def readDigitalDev (num : Numbers) : List ParamXml → Option NewDevice
  | [] => none
  | .pulseMeasure text :: _ => (text.bind num.int).map .digitalDev
  | _ :: rest => readDigitalDev num rest

def readAnalogDev (num : Numbers) : List ParamXml → Option StatusWord →
    Option (BitRepr × BitVec 8) → Option NewDevice
  | [], some stByte, some (bitRepr, uiNumBits) =>
    if AnalogDev.parametersOk stByte bitRepr uiNumBits then
      some (.analogDev stByte bitRepr uiNumBits)
    else none
  | [], _, _ => none
  | .statusWord children :: rest, _, repr =>
    (readStatusWord num children none none none).bind
      (fun stByte => readAnalogDev num rest (some stByte) repr)
  | .bitRepr type numBits :: rest, stByte, _ =>
    type.bind (fun strBitRepr => (numBits.bind num.uint8).bind
      (fun uiNumBits => readAnalogDev num rest stByte (some (getBitRepr strBitRepr, uiNumBits))))
  | _ :: rest, stByte, repr => readAnalogDev num rest stByte repr

/-- A control word that is not good is passed over for the next one. -/
def readPulseDev (num : Numbers) : List ParamXml → Option NewDevice
  | [] => none
  | .controlWord children :: rest =>
    (readControlWord num children none none).bind (fun
      | some ctrByte =>
        if PulseDev.parametersOk ctrByte then some (.pulseDev ctrByte) else readPulseDev num rest
      | none => readPulseDev num rest)
  | _ :: rest => readPulseDev num rest

def getNewXMLDevice (num : Numbers) (pNode : VarTypeXml) : Option NewDevice :=
  pNode.type.bind (fun strType =>
    if strType = "DigitalDev" then readDigitalDev num pNode.params
    else if strType = "AnalogDev" then readAnalogDev num pNode.params none none
    else if strType = "PulseDev" then readPulseDev num pNode.params
    else none)

/-- The children of a `Var`. -/
inductive VarChild where
  | addr (pNode : AddrXml)
  | varType (pNode : VarTypeXml)
  | other

/-- The loop over a `Var` ends with its first `Addr` and its first `VarType`. -/
def readXMLVar (num : Numbers) : List VarChild → Option IOAddr → Option NewDevice →
    Option (IOAddr × NewDevice)
  | _, some newAddr, some dev => some (newAddr, dev)
  | [], _, _ => none
  | .addr pNode :: rest, none, dev =>
    (parseXMLAddr num pNode).bind (fun newAddr => readXMLVar num rest (some newAddr) dev)
  | .varType pNode :: rest, newAddr, none =>
    (getNewXMLDevice num pNode).bind (fun dev => readXMLVar num rest newAddr (some dev))
  | _ :: rest, newAddr, dev => readXMLVar num rest newAddr dev

def varEntry (num : Numbers) (var : List VarChild) : Option (IOAddr × NewDevice) :=
  readXMLVar num var none none

/-- `EthercatDrv::readXMLVars`, over the `Var` elements of the section. -/
def readXMLVars (w : LongWidth) : List (List VarChild) → List (IOAddr × NewDevice) →
    Bool × List (IOAddr × NewDevice)
  | [], mDevices => (true, mDevices)
  | var :: vars, mDevices =>
    match varEntry (atoiNumbers w) var with
    | some (newAddr, dev) => readXMLVars w vars (insertKey mDevices newAddr dev)
    | none => (false, [])

structure FieldVarXml where
  id : Option Text
  addrs : List AddrXml

def FieldVarXml.convert (num : Numbers) (x : FieldVarXml) : SlaveDriver.FieldVarXml :=
  ⟨x.id.bind num.uint32, x.addrs.map (AddrXml.convert num)⟩

def fieldVarEntry (num : Numbers) (x : FieldVarXml) : Option (BitVec 32 × IOAddr) :=
  InitTraces.entry (x.convert num)

/-- `ModbusSlaveDrv::readXMLVars`, over the `FieldVar` elements of the section. -/
def readXMLFieldVars (w : LongWidth) (mFieldVars : List (BitVec 32 × IOAddr))
    (xs : List FieldVarXml) : Bool × List (BitVec 32 × IOAddr) :=
  SlaveDriver.readXMLVars mFieldVars (xs.map (FieldVarXml.convert (atoiNumbers w)))

def NewDevice.cnf : NewDevice → DeviceCnf
  | digitalDev iPulseMeasure => .digitalDev iPulseMeasure
  | analogDev stByte _ _ => .analogDev stByte
  | pulseDev _ => .pulseDev

def NewDevice.create (dev : NewDevice) : EtherDevice := EtherDevice.create dev.cnf

def created (mDevices : List (IOAddr × NewDevice)) : List (IOAddr × EtherDevice) :=
  mDevices.map (fun it => (it.1, it.2.create))

theorem keys_created (mDevices : List (IOAddr × NewDevice)) :
    (created mDevices).map Prod.fst = mDevices.map Prod.fst := by
  rw [created, List.map_map]
  rfl

theorem created_insertKey (mDevices : List (IOAddr × NewDevice)) (newAddr : IOAddr)
    (dev : NewDevice) :
    created (insertKey mDevices newAddr dev) =
      insertKey (created mDevices) newAddr dev.create := by
  by_cases hkey : newAddr ∈ mDevices.map Prod.fst
  · rw [insertKey_present hkey, insertKey_present]
    rw [keys_created]
    exact hkey
  · rw [insertKey_new hkey, insertKey_new]
    · rw [created, List.map_append]
      rfl
    · rw [keys_created]
      exact hkey

/-- The driver over the elements as it finds them is the one over the devices
that the factory makes. -/
theorem created_readXMLVars (w : LongWidth) (vars : List (List VarChild))
    (mDevices : List (IOAddr × NewDevice)) :
    EthercatDriver.readXMLVars
        (vars.map (fun var => (varEntry (atoiNumbers w) var).map (fun it => (it.1, it.2.cnf))))
        (created mDevices) =
      ((readXMLVars w vars mDevices).1, created (readXMLVars w vars mDevices).2) := by
  induction vars generalizing mDevices with
  | nil => rfl
  | cons var vars ih =>
    rw [List.map_cons, readXMLVars]
    cases varEntry (atoiNumbers w) var with
    | none => rfl
    | some it =>
      have hrest := ih (insertKey mDevices it.1 it.2)
      rw [created_insertKey] at hrest
      exact hrest

end DriverFiles
