import TurbineGovernor.CommonTypes
import TurbineGovernor.ByteOrder

/-!
# The Modbus slave driver of the regulator

The tables of `modbus_mapping_t` and the methods of `ModbusSlaveDrv` that fill
and read them. A table is a function on indices together with its size; a null
mapping has no entries. Sockets and the driver thread are not needed to say
what the tables hold and are left out.
-/

namespace SlaveDriver
open CommonTypes ByteOrder

def DIOFFSET : Nat := 2
def DIADDRESS : Nat := 10001
def COILOFFSET : Nat := 1
def COILADDRESS : Nat := 1
def IRADDRESS : Nat := 30001
def IROFFSET : Nat := 4
def HRADDRESS : Nat := 40001
def HROFFSET : Nat := 4
def MODBUS_TCP_DEFAULT_PORT : Int := 502

/-- What the slave driver uses of an `IOVar`. -/
structure IOVar where
  muiVarId : BitVec 32
  miTimeS : BitVec 64
  mfTrueVal : Single
  mfForcedVal : Single
  mtAddr : IOAddr
  mtQState : QuState
  mbForcedVal : Bool
  deriving DecidableEq

namespace IOVar

def getQState (var : IOVar) : QuState := if var.mbForcedVal then .ok else var.mtQState

end IOVar

/-- The `n` cells of a table from `base` on. -/
def block {A : Type} (tab : Nat → A) (base n : Nat) : Fin n → A := fun i => tab (base + i)

/-- Stores a block of cells. -/
def store {A : Type} (tab : Nat → A) (base : Nat) (cells : List A) : Nat → A :=
  fun i => if base ≤ i then (cells[i - base]?).getD (tab i) else tab i

structure ModbusMapping where
  startBits : Nat
  nbBits : Nat
  tabBits : Nat → Bool
  startInputBits : Nat
  nbInputBits : Nat
  tabInputBits : Nat → Bool
  startRegisters : Nat
  nbRegisters : Nat
  tabRegisters : Nat → BitVec 16
  startInputRegisters : Nat
  nbInputRegisters : Nat
  tabInputRegisters : Nat → BitVec 16

namespace ModbusMapping

/-- `modbus_mapping_new_start_address`, whose tables are zeroed. -/
def newStartAddress (startBits nbBits startInputBits nbInputBits startRegisters nbRegisters
    startInputRegisters nbInputRegisters : Nat) : ModbusMapping where
  startBits := startBits
  nbBits := nbBits
  tabBits _ := false
  startInputBits := startInputBits
  nbInputBits := nbInputBits
  tabInputBits _ := false
  startRegisters := startRegisters
  nbRegisters := nbRegisters
  tabRegisters _ := 0
  startInputRegisters := startInputRegisters
  nbInputRegisters := nbInputRegisters
  tabInputRegisters _ := 0

/-- The answer of `modbus_reply` to a reading request: the address on the wire
has 16 bits, index `address - start` must lie in the table. -/
def reply {A : Type} (start nb : Nat) (tab : Nat → A) (addr : BitVec 32) (n : Nat) :
    Option (Fin n → A) :=
  let address := (addr.setWidth 16).toNat
  if start ≤ address ∧ address - start + n ≤ nb then
    some (block tab (address - start) n)
  else none

/-- What `modbus_reply` makes of a table on a writing request. -/
def writeReply {A : Type} (start nb : Nat) (tab : Nat → A) (addr : BitVec 32) (cells : List A) :
    Option (Nat → A) :=
  let address := (addr.setWidth 16).toNat
  if start ≤ address ∧ address - start + cells.length ≤ nb then
    some (store tab (address - start) cells)
  else none

variable (m : ModbusMapping)

def writeBit (addr : BitVec 32) (status : Bool) : Option ModbusMapping :=
  (writeReply m.startBits m.nbBits m.tabBits addr [status]).map
    (fun tab => { m with tabBits := tab })

def writeRegisters (addr : BitVec 32) (src : BitVec 16 × BitVec 16) : Option ModbusMapping :=
  (writeReply m.startRegisters m.nbRegisters m.tabRegisters addr [src.1, src.2]).map
    (fun tab => { m with tabRegisters := tab })

def replyBits := reply m.startBits m.nbBits m.tabBits
def replyInputBits := reply m.startInputBits m.nbInputBits m.tabInputBits
def replyRegisters := reply m.startRegisters m.nbRegisters m.tabRegisters
def replyInputRegisters := reply m.startInputRegisters m.nbInputRegisters m.tabInputRegisters

end ModbusMapping

/-- The registers that a byte-wise copy leaves behind. -/
def bytesToRegisters (little : Bool) : List Byte → List (BitVec 16)
  | b0 :: b1 :: bytes =>
    BitVec.ofNat 16 (fromImage little [b0, b1]) :: bytesToRegisters little bytes
  | _ => []

/-- `mFieldVars` as the list of its pairs, in order of insertion. -/
structure ModbusSlaveDrv where
  mbArchLittleEnd : Bool
  mFieldVars : List (BitVec 32 × IOAddr)
  mstrServerIp : String
  miPort : Int
  muiNumIOVars : BitVec 32
  muiNumROInts : BitVec 32
  mpMBCtx : Option (String × Int)
  mpMBmapping : ModbusMapping
  uiComErrors : Nat
  mtDrvState : DrvState
  mstrLastError : String

namespace ModbusSlaveDrv
variable (L : FloatAbcd)

/-- Number of a channel in the tables, an 8 bit variable of the source. -/
def numVar (s : ModbusSlaveDrv) (tAddr : IOAddr) : BitVec 8 :=
  (tAddr.uiChannel.setWidth 32 - s.muiNumROInts).setWidth 8

/-- Start of the cells of a variable, a 16 bit variable of the source. -/
def valAddr (offset : Nat) (uiVar : BitVec 8) : BitVec 16 :=
  uiVar.setWidth 16 * BitVec.ofNat 16 offset - BitVec.ofNat 16 offset

def getForced (s : ModbusSlaveDrv) (uiVar : BitVec 8) : Bool :=
  s.mpMBmapping.tabBits (valAddr COILOFFSET uiVar).toNat

def setForced (s : ModbusSlaveDrv) (uiVar : BitVec 8) (bState : Bool) : ModbusSlaveDrv :=
  { s with mpMBmapping := { s.mpMBmapping with
      tabBits := store s.mpMBmapping.tabBits (valAddr COILOFFSET uiVar).toNat [bState] } }

def getCurrentVal (s : ModbusSlaveDrv) (uiVar : BitVec 8) : Single :=
  L.getFloatAbcd (s.mpMBmapping.tabRegisters (valAddr HROFFSET uiVar).toNat)
    (s.mpMBmapping.tabRegisters ((valAddr HROFFSET uiVar).toNat + 1))

def getForcedVal (s : ModbusSlaveDrv) (uiVar : BitVec 8) : Single :=
  L.getFloatAbcd (s.mpMBmapping.tabRegisters (valAddr HROFFSET uiVar + 2).toNat)
    (s.mpMBmapping.tabRegisters ((valAddr HROFFSET uiVar + 2).toNat + 1))

def setCurrentVal (s : ModbusSlaveDrv) (fVal : Single) (uiVar : BitVec 8) : ModbusSlaveDrv :=
  { s with mpMBmapping := { s.mpMBmapping with
      tabRegisters := store s.mpMBmapping.tabRegisters (valAddr HROFFSET uiVar).toNat
        [(L.setFloatAbcd fVal).1, (L.setFloatAbcd fVal).2] } }

/-- Bit 1 of the state goes to the first input, bit 0 to the second. -/
def setQState (s : ModbusSlaveDrv) (tState : QuState) (uiVar : BitVec 8) : ModbusSlaveDrv :=
  { s with mpMBmapping := { s.mpMBmapping with
      tabInputBits := store s.mpMBmapping.tabInputBits (uiVar.toNat * DIOFFSET - DIOFFSET)
        [tState.code.testBit 1, tState.code.testBit 0] } }

/-- The loop that copies the bytes of an integer into input registers. -/
def storeInt (s : ModbusSlaveDrv) (base n value : Nat) : ModbusSlaveDrv :=
  { s with mpMBmapping := { s.mpMBmapping with
      tabInputRegisters := store s.mpMBmapping.tabInputRegisters base
        (bytesToRegisters s.mbArchLittleEnd
          (endianCopy s.mbArchLittleEnd n (image s.mbArchLittleEnd n value))) } }

def setTimeS (s : ModbusSlaveDrv) (iTimeS : BitVec 64) (uiVar : BitVec 8) : ModbusSlaveDrv :=
  s.storeInt (uiVar.toNat * IROFFSET - IROFFSET + (s.muiNumROInts * 2).toNat) 8 iTimeS.toNat

def read (s : ModbusSlaveDrv) (var : IOVar) (now : BitVec 64) : Bool × IOVar :=
  let uiNumVar := s.numVar var.mtAddr
  if uiNumVar < 1#8 ∨ uiNumVar.setWidth 32 > s.muiNumIOVars ∨ s.mtDrvState = .unInit then
    (false, var)
  else (true, { var with
    mfTrueVal := s.getCurrentVal L uiNumVar
    mtQState := if s.mtDrvState = .comError then .comError else .ok
    miTimeS := now })

def write (s : ModbusSlaveDrv) (var : IOVar) : Bool × ModbusSlaveDrv :=
  let uiNumVar := s.numVar var.mtAddr
  if uiNumVar < 1#8 ∨ uiNumVar.setWidth 32 > s.muiNumIOVars ∨ s.mtDrvState = .unInit then (false, s)
  else (true, s.setCurrentVal L var.mfTrueVal uiNumVar)

def updateFieldVar (s : ModbusSlaveDrv) (var : IOVar) : Bool × IOVar × ModbusSlaveDrv :=
  match s.mFieldVars.lookup var.muiVarId with
  | none => (false, var, s)
  | some tAddr =>
    let uiNumVar := s.numVar tAddr
    if uiNumVar < 1#8 ∨ uiNumVar.setWidth 32 > s.muiNumIOVars ∨ s.mtDrvState = .unInit then
      (false, var, s)
    else
      let var := { var with
        mfForcedVal := s.getForcedVal L uiNumVar, mbForcedVal := s.getForced uiNumVar }
      (true, var, ((s.setCurrentVal L var.mfTrueVal uiNumVar).setQState var.getQState
        uiNumVar).setTimeS var.miTimeS uiNumVar)

def writeRO (s : ModbusSlaveDrv) (iVal : BitVec 32) (addr : IOAddr) : Bool × ModbusSlaveDrv :=
  let uiNumVar := addr.uiChannel
  if uiNumVar < 1#8 ∨ uiNumVar.setWidth 32 > s.muiNumROInts ∨ s.mtDrvState = .unInit then (false, s)
  else (true, s.storeInt ((uiNumVar.toNat - 1) * 2) 4 iVal.toNat)

def initMapping (s : ModbusSlaveDrv) : ModbusSlaveDrv :=
  s.mFieldVars.foldl (fun s var => s.setForced var.2.uiChannel false) s

/-- The sizes and start addresses that `init` asks libmodbus for. -/
def newMapping (s : ModbusSlaveDrv) : ModbusMapping :=
  .newStartAddress COILADDRESS (s.muiNumIOVars * BitVec.ofNat 32 COILOFFSET).toNat
    DIADDRESS (s.muiNumIOVars * BitVec.ofNat 32 DIOFFSET).toNat
    HRADDRESS (s.muiNumIOVars * BitVec.ofNat 32 HROFFSET).toNat
    IRADDRESS (s.muiNumIOVars * BitVec.ofNat 32 IROFFSET + s.muiNumROInts * 2).toNat

end ModbusSlaveDrv

/-- The attributes of an `Addr` element after `atoi`. -/
structure AddrXml where
  head : Option (BitVec 8)
  mod : Option (BitVec 8)
  ch : Option (BitVec 8)
  prec : Option (BitVec 8)

structure FieldVarXml where
  id : Option (BitVec 32)
  addrs : List AddrXml

/-- A `SlaveDriver` element with its `FieldVars` sections. -/
structure SlaveXml where
  ip : Option String
  port : Option Int
  numROInts : Option (BitVec 32)
  numIOVars : Option (BitVec 32)
  fieldVars : List (List FieldVarXml)

/-- The attributes are stored one by one; the first missing one ends the reading. -/
def parseXMLAddr (pNode : AddrXml) (addr : IOAddr) : Bool × IOAddr :=
  match pNode.head with
  | none => (false, addr)
  | some head =>
    let addr := { addr with uiHeader := head }
    match pNode.mod with
    | none => (false, addr)
    | some mod =>
      let addr := { addr with uiModule := mod }
      match pNode.ch with
      | none => (false, addr)
      | some ch =>
        let addr := { addr with uiChannel := ch }
        match pNode.prec with
        | none => (false, addr)
        | some prec => (true, { addr with uiNumBits := prec })

/-- The loop over the children of a `FieldVar`: `bOk`, `bAddr` and `newAddr`. -/
def readXMLAddrs : List AddrXml → Bool → IOAddr → Bool × Bool × IOAddr
  | [], bAddr, newAddr => (true, bAddr, newAddr)
  | pVarData :: rest, _, newAddr =>
    match parseXMLAddr pVarData newAddr with
    | (true, newAddr) => readXMLAddrs rest true newAddr
    | (false, newAddr) => (false, true, newAddr)

/-- A missing `ID` returns at once; any other error empties the table first. -/
def readXMLVars (vars : List (BitVec 32 × IOAddr)) :
    List FieldVarXml → Bool × List (BitVec 32 × IOAddr)
  | [] => (true, vars)
  | pSibling :: rest =>
    match pSibling.id with
    | none => (false, vars)
    | some uiVarID =>
      match readXMLAddrs pSibling.addrs false {} with
      | (true, true, newAddr) =>
        readXMLVars (if uiVarID ∈ vars.map Prod.fst then vars else vars ++ [(uiVarID, newAddr)])
          rest
      | _ => (false, [])

def readXMLSections (vars : List (BitVec 32 × IOAddr)) :
    List (List FieldVarXml) → Bool × List (BitVec 32 × IOAddr)
  | [] => (true, vars)
  | pSibling :: rest =>
    match readXMLVars vars pSibling with
    | (true, vars) => readXMLSections vars rest
    | (false, vars) => (false, vars)

namespace ModbusSlaveDrv

def readXMLConfig (s : ModbusSlaveDrv) (root : SlaveXml) : Bool × ModbusSlaveDrv :=
  match root.ip with
  | none => (false, s)
  | some ip =>
    let s := { s with mstrServerIp := ip }
    match root.port with
    | none => (false, s)
    | some port =>
      let s := { s with miPort := port }
      match root.numROInts with
      | none => (false, s)
      | some numROInts =>
        let s := { s with muiNumROInts := numROInts }
        match root.numIOVars with
        | none => (false, s)
        | some numIOVars =>
          match readXMLSections s.mFieldVars root.fieldVars with
          | (bOk, vars) => (bOk, { s with muiNumIOVars := numIOVars, mFieldVars := vars })

/-- `file` is what the XML library makes of the file: an error text, a document
without a `SlaveDriver` root, or its content. -/
def loadXMLConfig (s : ModbusSlaveDrv) (file : Except String (Option SlaveXml)) :
    Bool × ModbusSlaveDrv :=
  match file with
  | .error text => (false, { s with mstrLastError := text })
  | .ok none => (false, s)
  | .ok (some root) => s.readXMLConfig root

/-- `newTcp` and `newMap` say whether libmodbus could allocate what was asked for. -/
def init (s : ModbusSlaveDrv) (file : Except String (Option SlaveXml)) (newTcp newMap : Bool)
    (strerror : String) : Bool × ModbusSlaveDrv :=
  if s.mtDrvState ≠ .unInit then (false, { s with mstrLastError := "Driver ya inicializado" })
  else match s.loadXMLConfig file with
    | (false, s) => (false, { s with mstrLastError := "Error en archivo de configuracion" })
    | (true, s) =>
      let s := { s with miPort := if s.miPort = -1 then MODBUS_TCP_DEFAULT_PORT else s.miPort }
      if s.muiNumIOVars < 1#32 ∧ s.muiNumROInts < 1#32 then
        (false, { s with
          mstrLastError := "El driver necesita al menos una variable en su mapa" })
      else if ¬ newTcp then
        (false, { s with mpMBCtx := none, mstrLastError := strerror, mFieldVars := [] })
      else if ¬ newMap then
        (false, { s with
          mpMBCtx := none, mpMBmapping := .newStartAddress 0 0 0 0 0 0 0 0
          mstrLastError := strerror, mFieldVars := [] })
      else
        let s := { s with
          mpMBCtx := some (s.mstrServerIp, s.miPort), mpMBmapping := s.newMapping }
        (true, { s.initMapping with mtDrvState := .stopped, uiComErrors := 0 })

end ModbusSlaveDrv

end SlaveDriver
