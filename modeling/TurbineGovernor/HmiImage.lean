import TurbineGovernor.CommonTypes
import TurbineGovernor.TransitionRuns
import TurbineGovernor.KeyedTables

/-!
# The register image of the HMI

The tables of `RegImage` and its button writes: a press is written at once and
its release, the opposite value, is queued when the press has succeeded. The
driver below is known by what it promises: an accepted request is pending until
exactly one of its callbacks has run.
-/

namespace HmiImage
open CommonTypes TransitionRuns KeyedTables

/-- What is used of a `RegVar` here. -/
structure RegVar where
  muiVarId : BitVec 32
  mtAddr : IOAddr
  deriving DecidableEq

inductive Fr where
  | F
  | R
  deriving DecidableEq

inductive Use where
  | NO
  | WO
  | RW
  deriving DecidableEq

/-- A `Var` element of the IO information file. -/
structure VarXml where
  uiId : BitVec 32
  strFr : Fr
  strUse : Use
  tAddr : IOAddr

/-- The tables of variables. Every slave variable can be found by its address. -/
structure RegVars where
  mumVars : List (IOAddr × RegVar)
  mumSlaveVars : List (BitVec 32 × RegVar)
  mumFieldVars : List (BitVec 32 × RegVar)
  known : ∀ id var, mumSlaveVars.lookup id = some var → (mumVars.lookup var.mtAddr).isSome

namespace RegVars

def empty : RegVars := ⟨[], [], [], by simp⟩

theorem known_insert {vars : RegVars} (tAddr : IOAddr) (var : RegVar) {id : BitVec 32}
    {v : RegVar} (h : vars.mumSlaveVars.lookup id = some v) :
    ((insertKey vars.mumVars tAddr var).lookup v.mtAddr).isSome := by
  rw [lookup_insertKey]
  split
  · rfl
  · exact vars.known id v h

/-- The end of `parseXmlVar`, with the sets of variables to poll. -/
def parseXmlVar (vars : RegVars) (slaveVarsToUpdate fieldVarsToUpdate : Finset IOAddr)
    (x : VarXml) : RegVars × Finset IOAddr × Finset IOAddr :=
  let var : RegVar := ⟨x.uiId, x.tAddr⟩
  match x.strUse, x.strFr with
  | .NO, _ => (vars, slaveVarsToUpdate, fieldVarsToUpdate)
  | use, .F =>
    ({ vars with
        mumVars := insertKey vars.mumVars x.tAddr var
        mumFieldVars := insertKey vars.mumFieldVars x.uiId var
        known := fun _ _ h => known_insert x.tAddr var h },
      slaveVarsToUpdate,
      if use = .RW then insert x.tAddr fieldVarsToUpdate else fieldVarsToUpdate)
  | use, .R =>
    ({ vars with
        mumVars := insertKey vars.mumVars x.tAddr var
        mumSlaveVars := insertKey vars.mumSlaveVars x.uiId var
        known := by
          intro id v h
          rw [lookup_insertKey] at h
          split at h
          · cases hold : vars.mumSlaveVars.lookup x.uiId with
            | none =>
              rw [hold, Option.getD_none] at h
              rw [← Option.some.inj h, lookup_insertKey, if_pos rfl]
              rfl
            | some w =>
              rw [hold, Option.getD_some] at h
              rw [← Option.some.inj h]
              exact known_insert x.tAddr var hold
          · exact known_insert x.tAddr var h },
      if use = .RW then insert x.tAddr slaveVarsToUpdate else slaveVarsToUpdate,
      fieldVarsToUpdate)

end RegVars

/-- A call of the driver's `write` or `force`. `onSuccess` says that its success
is reported to `driverWriteSuccess`; every expiry goes to `driverWriteTimeOut`. -/
structure DriverWrite where
  tAddr : IOAddr
  fVal : Single
  forced : Option Bool
  onSuccess : Bool
  deriving DecidableEq

/-- The value 1 or 0 as a float. -/
def buttonVal (val : Bool) : Single := if val then 0x3f800000 else 0

def buttonWrite (tAddr : IOAddr) (val : Bool) : DriverWrite := ⟨tAddr, buttonVal val, none, true⟩

/-- `RegImage` with the driver under it. `writeErrors` are the emitted signals. -/
structure RegImage where
  vars : RegVars
  mtDrvState : DrvState
  pending : Multiset DriverWrite
  mumButtonWrites : IOAddr → Option Bool
  mumButtonWritesToClean : IOAddr → Option Bool
  mqUncompletedButtonWrites : List (IOAddr × Bool)
  writeErrors : List (BitVec 32)

namespace RegImage

/-- A request to the driver, which refuses it when it is stopped and may refuse
it for its address; `ok` is its answer to the rest. -/
def request (s : RegImage) (w : DriverWrite) (ok : Bool) : Bool × RegImage :=
  if ok ∧ s.mtDrvState ≠ .stopped ∧ s.mtDrvState ≠ .unInit then
    (true, { s with pending := w ::ₘ s.pending })
  else (false, s)

def writeVar (s : RegImage) (varID : BitVec 32) (val : Single) (ok : Bool) : Bool × RegImage :=
  match s.vars.mumSlaveVars.lookup varID with
  | none => (false, s)
  | some var => s.request ⟨var.mtAddr, val, none, false⟩ ok

def forceVar (s : RegImage) (varID : BitVec 32) (forceVal : Single) (forceBit ok : Bool) :
    Bool × RegImage :=
  match s.vars.mumFieldVars.lookup varID with
  | none => (false, s)
  | some var => s.request ⟨var.mtAddr, forceVal, some forceBit, false⟩ ok

def writeVarAsButton (s : RegImage) (varID : BitVec 32) (val ok : Bool) : Bool × RegImage :=
  match s.vars.mumSlaveVars.lookup varID with
  | none => (false, s)
  | some var =>
    if s.mumButtonWritesToClean var.mtAddr = none ∧ s.mumButtonWrites var.mtAddr = none then
      let s := { s with
        mumButtonWrites := Function.update s.mumButtonWrites var.mtAddr (some val) }
      match s.request (buttonWrite var.mtAddr val) ok with
      | (true, s) => (true, s)
      | (false, s) => (false, { s with
          mumButtonWrites := Function.update s.mumButtonWrites var.mtAddr none })
    else (false, s)

/-- One answer of the driver for each turn of the loop, which a refusal ends. -/
def processUncompletedWrites : List Bool → RegImage → RegImage
  | [], s => s
  | ok :: oks, s =>
    match s.mqUncompletedButtonWrites with
    | [] => s
    | butWrite :: rest =>
      match s.request (buttonWrite butWrite.1 butWrite.2) ok with
      | (true, s) => processUncompletedWrites oks { s with mqUncompletedButtonWrites := rest }
      | (false, s) => s

/-- What `updateImage` does to the button writes. -/
def updateImage (s : RegImage) (oks : List Bool) : RegImage :=
  if s.mtDrvState ≠ .running then s else processUncompletedWrites oks s

def driverWriteTimeOut (s : RegImage) (tAddr : IOAddr) : RegImage :=
  match s.vars.mumVars.lookup tAddr with
  | none => s
  | some var =>
    match s.mumButtonWrites tAddr with
    | some _ =>
      { s with
        mumButtonWrites := Function.update s.mumButtonWrites tAddr none
        writeErrors := s.writeErrors ++ [var.muiVarId] }
    | none =>
      match s.mumButtonWritesToClean tAddr with
      | some val =>
        { s with mqUncompletedButtonWrites := s.mqUncompletedButtonWrites ++ [(tAddr, val)] }
      | none => { s with writeErrors := s.writeErrors ++ [var.muiVarId] }

def driverWriteSuccess (s : RegImage) (tAddr : IOAddr) : RegImage :=
  match s.mumButtonWrites tAddr with
  | some bPreviousVal =>
    { s with
      mumButtonWrites := Function.update s.mumButtonWrites tAddr none
      mumButtonWritesToClean :=
        Function.update s.mumButtonWritesToClean tAddr (some !bPreviousVal)
      mqUncompletedButtonWrites := s.mqUncompletedButtonWrites ++ [(tAddr, !bPreviousVal)] }
  | none =>
    match s.mumButtonWritesToClean tAddr with
    | some _ =>
      { s with mumButtonWritesToClean := Function.update s.mumButtonWritesToClean tAddr none }
    | none => s

/-- The callback of a pending request, after which it is no longer pending. -/
def succeed (s : RegImage) (w : DriverWrite) : RegImage :=
  let s' := if w.onSuccess then s.driverWriteSuccess w.tAddr else s
  { s' with pending := s.pending.erase w }

def expire (s : RegImage) (w : DriverWrite) : RegImage :=
  { s.driverWriteTimeOut w.tAddr with pending := s.pending.erase w }

def start (s : RegImage) : RegImage :=
  if s.mtDrvState = .stopped then { s with mtDrvState := .running } else s

/-- All pending requests expire, in some order, before the driver is stopped. -/
def stop (s : RegImage) (order : List DriverWrite) : RegImage :=
  if s.mtDrvState = .unInit ∨ s.mtDrvState = .stopped then s
  else { order.foldl expire s with mtDrvState := .stopped }

end RegImage

end HmiImage
