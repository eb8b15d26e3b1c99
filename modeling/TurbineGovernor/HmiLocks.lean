import TurbineGovernor.LockPrograms

/-!
# The mutexes of the HMI

Which mutexes each method of `RegImage` and `ModbusMasterDrv` takes, in order.
A press and the handing over of releases call the driver's `write` with the
mutex of the buttons held; the driver thread runs its callbacks with its state
mutex held. The arguments are the outcomes of the tests in the source.
-/

namespace HmiLocks
open TransitionRuns LockPrograms

inductive Mutex where
  | mtButtonWritesMtx
  | mtDrvStateMutex
  | mtIOMapMutex
  | mtChagesSetMutex
  deriving DecidableEq

inductive Thread where
  | gui
  | driver
  deriving DecidableEq

/-- A scope with a `unique_lock`. -/
def locked (m : Mutex) (body : List (Op Mutex)) : List (Op Mutex) :=
  .acquire m :: (body ++ [.release m])

/-- `known`: the address belongs to a variable of the image. -/
def driverWriteTimeOut (known : Bool) : List (Op Mutex) :=
  if known then locked .mtButtonWritesMtx [] else []

def driverWriteSuccess : List (Op Mutex) := locked .mtButtonWritesMtx []

def cleanWriteRequests (timeOuts : List Bool) : List (Op Mutex) :=
  timeOuts.flatMap driverWriteTimeOut

/-- `bSuccess`: the request at the top was a button write and has succeeded. -/
def processNextWrite (timeOuts : List Bool) (bSuccess : Bool) : List (Op Mutex) :=
  cleanWriteRequests timeOuts ++ if bSuccess then driverWriteSuccess else []

def processRead (changed : Bool) : List (Op Mutex) :=
  (if changed then locked .mtChagesSetMutex [] else []) ++ locked .mtIOMapMutex []

/-- `write` and `force`. -/
def write (inMap : Bool) : List (Op Mutex) := if inMap then locked .mtDrvStateMutex [] else []

def read (known : Bool) : List (Op Mutex) := if known then locked .mtIOMapMutex [] else []

def getChangedVars : List (Op Mutex) := locked .mtChagesSetMutex []

def start (stopped : Bool) : List (Op Mutex) := if stopped then locked .mtDrvStateMutex [] else []

def stop (running : Bool) (timeOuts : List Bool) : List (Op Mutex) :=
  if running then locked .mtDrvStateMutex (cleanWriteRequests timeOuts) else []

/-- A turn of `driverLoop`: waiting for a start, a change of the connection or
of a cycle, a write, a read, and a failed reconnection, which sleeps unlocked. -/
inductive Turn where
  | wait (wakeUps : Nat)
  | connect
  | write (timeOuts : List Bool) (bSuccess : Bool)
  | read (bOk changed : Bool)
  | reconnect (timeOuts : List Bool)

def driverLoop : Turn → List (Op Mutex)
  | .wait wakeUps => locked .mtDrvStateMutex ((List.replicate wakeUps ()).flatMap
      (fun _ => [.release .mtDrvStateMutex, .acquire .mtDrvStateMutex]))
  | .connect => locked .mtDrvStateMutex []
  | .write timeOuts bSuccess => locked .mtDrvStateMutex (processNextWrite timeOuts bSuccess)
  | .read bOk changed => locked .mtDrvStateMutex (if bOk then processRead changed else [])
  | .reconnect timeOuts =>
    locked .mtDrvStateMutex (cleanWriteRequests timeOuts) ++ locked .mtDrvStateMutex []

/-- `fresh`: the address is in neither table of button writes. -/
def writeVarAsButton (known fresh inMap : Bool) : List (Op Mutex) :=
  if known then locked .mtButtonWritesMtx (if fresh then write inMap else []) else []

def writeVar (known inMap : Bool) : List (Op Mutex) := if known then write inMap else []

def processUncompletedWrites (writes : List Bool) : List (Op Mutex) :=
  locked .mtButtonWritesMtx (writes.flatMap write)

def updateImage (running : Bool) (writes reads : List Bool) : List (Op Mutex) :=
  if running then processUncompletedWrites writes ++ getChangedVars ++ reads.flatMap read else []

/-- Calls of the GUI and turns of the driver thread. -/
inductive Call where
  | writeVarAsButton (known fresh inMap : Bool)
  | writeVar (known inMap : Bool)
  | start (stopped : Bool)
  | stop (running : Bool) (timeOuts : List Bool)
  | updateImage (running : Bool) (writes reads : List Bool)
  | driverLoop (turn : Turn)

def hmi : Program Mutex Thread Call where
  thread
    | .driverLoop _ => .driver
    | _ => .gui
  path
    | .writeVarAsButton known fresh inMap => writeVarAsButton known fresh inMap
    | .writeVar known inMap => writeVar known inMap
    | .start stopped => start stopped
    | .stop running timeOuts => stop running timeOuts
    | .updateImage running writes reads => updateImage running writes reads
    | .driverLoop turn => driverLoop turn

/-- The GUI nests the two mutexes both ways, the driver thread takes everything
under its state mutex. -/
def allowed : Thread → List Mutex → Mutex → Prop
  | .gui, held, m => held = [] ∨ held = [.mtButtonWritesMtx] ∧ m = .mtDrvStateMutex ∨
      held = [.mtDrvStateMutex] ∧ m = .mtButtonWritesMtx
  | .driver, held, m => held = [] ∧ m = .mtDrvStateMutex ∨
      held = [.mtDrvStateMutex] ∧ m ≠ .mtDrvStateMutex

theorem follows_locked {allowed : List Mutex → Mutex → Prop} {held : List Mutex} {m : Mutex}
    {body : List (Op Mutex)} (h : m ∉ held) (hm : allowed held m)
    (hbody : Follows allowed (m :: held) body (m :: held)) :
    Follows allowed held (locked m body) held :=
  ⟨h, hm, follows_append hbody ⟨held, rfl, rfl⟩⟩

theorem follows_if {allowed : List Mutex → Mutex → Prop} {held : List Mutex} (b : Bool)
    {ops : List (Op Mutex)} (h : Follows allowed held ops held) :
    Follows allowed held (if b then ops else []) held := by
  cases b with
  | false => rfl
  | true => exact h

/-- The callbacks take the mutex of the buttons under the state mutex only. -/
theorem follows_timeOuts (t : Thread) (timeOuts : List Bool) :
    Follows (allowed t) [.mtDrvStateMutex] (cleanWriteRequests timeOuts) [.mtDrvStateMutex] := by
  refine follows_flatMap timeOuts (fun known _ => follows_if known ?_)
  refine follows_locked (by simp) ?_ rfl
  cases t with
  | gui => exact Or.inr (Or.inr ⟨rfl, rfl⟩)
  | driver => exact Or.inr ⟨rfl, by simp⟩

theorem follows_write {held : List Mutex} (h : held = [] ∨ held = [.mtButtonWritesMtx])
    (inMap : Bool) : Follows (allowed .gui) held (write inMap) held := by
  refine follows_if inMap (follows_locked ?_ ?_ rfl)
  · rcases h with rfl | rfl <;> simp
  · rcases h with rfl | rfl
    · exact Or.inl rfl
    · exact Or.inr (Or.inl ⟨rfl, rfl⟩)

theorem driverLoop_obeys (turn : Turn) : Follows (allowed .driver) [] (driverLoop turn) [] := by
  have hstate : allowed .driver [] .mtDrvStateMutex := Or.inl ⟨rfl, rfl⟩
  have hunder : ∀ m, m ≠ .mtDrvStateMutex →
      Follows (allowed .driver) [.mtDrvStateMutex] (locked m []) [.mtDrvStateMutex] :=
    fun m hm => follows_locked (by simpa using hm) (Or.inr ⟨rfl, hm⟩) rfl
  cases turn with
  | wait wakeUps =>
    refine follows_locked (by simp) hstate (follows_flatMap _ (fun _ _ => ?_))
    exact ⟨[], rfl, by simp, hstate, rfl⟩
  | connect => exact follows_locked (by simp) hstate rfl
  | write timeOuts bSuccess =>
    refine follows_locked (by simp) hstate (follows_append (follows_timeOuts _ timeOuts) ?_)
    exact follows_if bSuccess (hunder _ (by simp))
  | read bOk changed =>
    refine follows_locked (by simp) hstate (follows_if bOk (follows_append ?_ (hunder _ (by simp))))
    exact follows_if changed (hunder _ (by simp))
  | reconnect timeOuts =>
    exact follows_append (follows_locked (by simp) hstate (follows_timeOuts _ timeOuts))
      (follows_locked (by simp) hstate rfl)

theorem hmi_obeys : hmi.Obeys allowed := by
  intro call
  have hfirst : ∀ m, allowed .gui [] m := fun _ => Or.inl rfl
  cases call with
  | writeVarAsButton known fresh inMap =>
    refine follows_if known (follows_locked (by simp) (hfirst _) (follows_if fresh ?_))
    exact follows_write (Or.inr rfl) inMap
  | writeVar known inMap => exact follows_if known (follows_write (Or.inl rfl) inMap)
  | start stopped => exact follows_if stopped (follows_locked (by simp) (hfirst _) rfl)
  | stop running timeOuts =>
    exact follows_if running
      (follows_locked (by simp) (hfirst _) (follows_timeOuts .gui timeOuts))
  | updateImage running writes reads =>
    have hwrites : Follows (allowed .gui) [] (processUncompletedWrites writes) [] := by
      refine follows_locked (by simp) (hfirst _) (follows_flatMap writes (fun inMap _ => ?_))
      exact follows_write (Or.inr rfl) inMap
    have hchanges : Follows (allowed .gui) [] getChangedVars [] :=
      follows_locked (by simp) (hfirst _) rfl
    have hreads : Follows (allowed .gui) [] (reads.flatMap read) [] :=
      follows_flatMap reads (fun known _ =>
        follows_if known (follows_locked (by simp) (hfirst _) rfl))
    exact follows_if running (follows_append (follows_append hwrites hchanges) hreads)
  | driverLoop turn => exact driverLoop_obeys turn

abbrev State := Config Mutex Thread

abbrev step (c : State) (l : Label Thread Call) : State := c.step hmi l

/-- The GUI holds the mutex of the buttons and is at the driver's `write`. -/
def AtWrite (c : State) : Prop :=
  c.owner .mtButtonWritesMtx = some .gui ∧ ∃ ops, c.todo .gui = .acquire .mtDrvStateMutex :: ops

/-- The driver thread holds its state mutex and is at a callback. -/
def AtCallback (c : State) : Prop :=
  c.owner .mtDrvStateMutex = some .driver ∧
    ∃ ops, c.todo .driver = .acquire .mtButtonWritesMtx :: ops

/-- A button write takes its mutex on the way to the driver's `write` while the
driver thread is at a callback, or the driver thread takes its state mutex on
the way to a callback while a button write is at the driver's `write`. -/
def Entangles (c : State) : Label Thread Call → Prop
  | .act .gui => AtCallback c ∧
      ∃ ops, c.todo .gui = .acquire .mtButtonWritesMtx :: .acquire .mtDrvStateMutex :: ops
  | .act .driver => AtWrite c ∧
      ∃ ops, c.todo .driver = .acquire .mtDrvStateMutex :: .acquire .mtButtonWritesMtx :: ops
  | .call _ => False

section Deadlocks
variable {c : State}

theorem gui_held {held : List Mutex} (h : Stacked (allowed .gui) held) :
    held.length ≤ 1 ∨ held = [.mtDrvStateMutex, .mtButtonWritesMtx] ∨
      held = [.mtButtonWritesMtx, .mtDrvStateMutex] := by
  cases held with
  | nil => exact Or.inl (by simp)
  | cons m held =>
    rcases h.2.1 with hheld | ⟨hheld, hm⟩ | ⟨hheld, hm⟩
    · exact Or.inl (by simp [hheld])
    · exact Or.inr (Or.inl (by rw [hheld, hm]))
    · exact Or.inr (Or.inr (by rw [hheld, hm]))

/-- The only deadlock there can be. -/
theorem deadlocked_iff (h : Disciplined hmi allowed c) :
    c.Deadlocked .gui .driver ↔ AtWrite c ∧ AtCallback c := by
  constructor
  · rintro ⟨m, m', hgui, hdriver⟩
    obtain ⟨gheld, hg⟩ := h .gui
    obtain ⟨dheld, hd⟩ := h .driver
    have hmg : m' ∈ gheld := (hg.owner m').mp hdriver.2
    have hmd : m ∈ dheld := (hd.owner m).mp hgui.2
    obtain ⟨_, hgops⟩ := hgui.1
    obtain ⟨_, hga, _⟩ := hg.next hgops
    obtain ⟨_, hdops⟩ := hdriver.1
    obtain ⟨_, hda, _⟩ := hd.next hdops
    rcases hda with ⟨rfl, _⟩ | ⟨rfl, hm'⟩
    · cases hmd
    obtain rfl := List.mem_singleton.mp hmd
    rcases hga with rfl | ⟨rfl, _⟩ | ⟨rfl, _⟩
    · cases hmg
    · obtain rfl := List.mem_singleton.mp hmg
      exact ⟨⟨hdriver.2, hgui.1⟩, hgui.2, hdriver.1⟩
    · exact absurd (List.mem_singleton.mp hmg) hm'
  · rintro ⟨⟨hbutton, hwrite⟩, hstate, hcallback⟩
    exact ⟨_, _, ⟨hwrite, hstate⟩, ⟨hcallback, hbutton⟩⟩

/-- A turn of the driver thread reads or runs callbacks, not both. -/
theorem driverLoop_separate (turn : Turn) {m : Mutex} (hm : .release m ∈ driverLoop turn)
    (hcall : .acquire .mtButtonWritesMtx ∈ driverLoop turn) :
    m = .mtDrvStateMutex ∨ m = .mtButtonWritesMtx := by
  have htimeOuts : ∀ timeOuts, .release m ∈ cleanWriteRequests timeOuts →
      m = .mtButtonWritesMtx := by
    intro timeOuts hmem
    obtain ⟨known, _, hknown⟩ := List.mem_flatMap.mp hmem
    cases known <;> simp_all [driverWriteTimeOut, locked]
  cases turn with
  | wait wakeUps =>
    simp [driverLoop, locked] at hm
    exact Or.inl (by tauto)
  | connect =>
    simp [driverLoop, locked] at hcall
  | write timeOuts bSuccess =>
    simp only [driverLoop, locked, processNextWrite, List.mem_cons, List.mem_append] at hm
    rcases hm with hm | (hm | hm) | hm
    · cases hm
    · exact Or.inr (htimeOuts timeOuts hm)
    · cases bSuccess <;> simp_all [driverWriteSuccess, locked]
    · simp_all
  | read bOk changed =>
    cases bOk <;> cases changed <;> simp [driverLoop, locked, processRead] at hcall
  | reconnect timeOuts =>
    simp only [driverLoop, locked, List.mem_cons, List.mem_append] at hm
    rcases hm with (hm | hm | hm) | hm | hm | hm
    · cases hm
    · exact Or.inr (htimeOuts timeOuts hm)
    all_goals simp_all

/-- What the GUI does leads to a deadlock only by taking the mutex of the buttons. -/
theorem gui_deadlocks (h : Disciplined hmi allowed c) (safe : ¬ c.Deadlocked .gui .driver)
    (hdead : (c.act .gui).Deadlocked .gui .driver) : Entangles c (.act .gui) := by
  obtain ⟨held, hg⟩ := h .gui
  obtain ⟨⟨hbutton, hwrite⟩, hstate, hcallback⟩ :=
    (deadlocked_iff (act_disciplined h .gui)).mp hdead
  rcases c.act_cases .gui with heq | ⟨m, ops, hops, hfree, heq⟩ | ⟨m, ops, hops, heq⟩
  · rw [heq] at hdead
    exact absurd hdead safe
  · simp only [heq, Function.update_self] at hbutton hwrite hstate hcallback
    have hm : m ≠ .mtDrvStateMutex := by
      rintro rfl
      simp at hstate
    rw [Function.update_of_ne (Ne.symm hm)] at hstate
    rw [Function.update_of_ne (by decide)] at hcallback
    obtain ⟨ops', rfl⟩ := hwrite
    by_cases hm' : m = .mtButtonWritesMtx
    · subst hm'
      exact ⟨⟨hstate, hcallback⟩, ops', hops⟩
    · rw [Function.update_of_ne (Ne.symm hm')] at hbutton
      have hmem := (hg.owner _).mp hbutton
      obtain ⟨_, hallowed, _⟩ := hg.next hops
      rcases hallowed with rfl | ⟨_, hc⟩ | ⟨rfl, hc⟩
      · cases hmem
      · exact absurd hc hm
      · exact absurd hc hm'
  · simp only [heq, Function.update_self] at hbutton hwrite hstate hcallback
    have hm : m ≠ .mtDrvStateMutex := by
      rintro rfl
      simp at hstate
    have hm' : m ≠ .mtButtonWritesMtx := by
      rintro rfl
      simp at hbutton
    rw [Function.update_of_ne (Ne.symm hm')] at hbutton
    have hmem := (hg.owner _).mp hbutton
    obtain ⟨rest, rfl⟩ := hg.last hops
    rcases gui_held hg.stacked with hlen | hheld | hheld
    · obtain rfl : rest = [] := by simpa using hlen
      exact absurd (List.mem_singleton.mp hmem) (Ne.symm hm')
    · exact absurd (List.cons.inj hheld).1 hm
    · exact absurd (List.cons.inj hheld).1 hm'

/-- What the driver thread does leads to a deadlock only by taking its state mutex. -/
theorem driver_deadlocks (h : Disciplined hmi allowed c) (safe : ¬ c.Deadlocked .gui .driver)
    (hdead : (c.act .driver).Deadlocked .gui .driver) : Entangles c (.act .driver) := by
  obtain ⟨held, hd⟩ := h .driver
  obtain ⟨⟨hbutton, hwrite⟩, hstate, hcallback⟩ :=
    (deadlocked_iff (act_disciplined h .driver)).mp hdead
  rcases c.act_cases .driver with heq | ⟨m, ops, hops, hfree, heq⟩ | ⟨m, ops, hops, heq⟩
  · rw [heq] at hdead
    exact absurd hdead safe
  · simp only [heq, Function.update_self] at hbutton hwrite hstate hcallback
    have hm' : m ≠ .mtButtonWritesMtx := by
      rintro rfl
      simp at hbutton
    rw [Function.update_of_ne (Ne.symm hm')] at hbutton
    rw [Function.update_of_ne (by decide)] at hwrite
    obtain ⟨ops', rfl⟩ := hcallback
    obtain ⟨_, hallowed, _, hnext, _⟩ := hd.next hops
    rcases hallowed with ⟨rfl, rfl⟩ | ⟨rfl, _⟩
    · exact ⟨⟨hbutton, hwrite⟩, ops', hops⟩
    · rcases hnext with ⟨hc, _⟩ | ⟨hc, _⟩
      · cases hc
      · cases hc
  · simp only [heq, Function.update_self] at hbutton hwrite hstate hcallback
    have hm : m ≠ .mtDrvStateMutex := by
      rintro rfl
      simp at hstate
    have hm' : m ≠ .mtButtonWritesMtx := by
      rintro rfl
      simp at hbutton
    obtain ⟨ops', rfl⟩ := hcallback
    rcases hd.suffix with hnil | ⟨call, hthread, hsuffix⟩
    · rw [hnil] at hops
      cases hops
    · rw [hops] at hsuffix
      cases call with
      | driverLoop turn =>
        have hrelease : .release m ∈ driverLoop turn := hsuffix.subset (by simp)
        have hacquire : .acquire .mtButtonWritesMtx ∈ driverLoop turn := hsuffix.subset (by simp)
        rcases driverLoop_separate turn hrelease hacquire with hc | hc
        · exact absurd hc hm
        · exact absurd hc hm'
      | _ => cases hthread

/-- A thread that has just begun a call holds nothing. -/
theorem call_safe (h : Disciplined hmi allowed c) (safe : ¬ c.Deadlocked .gui .driver)
    (call : Call) : ¬ (step c (.call call)).Deadlocked .gui .driver := by
  intro hdead
  obtain ⟨⟨hbutton, hwrite⟩, hstate, hcallback⟩ :=
    (deadlocked_iff (step_disciplined hmi_obeys c (.call call) h)).mp hdead
  simp only [step, Config.step] at hdead hbutton hstate
  split at hdead
  · rename_i hdone
    rw [if_pos hdone] at hbutton hstate
    obtain ⟨held, hok⟩ := h (hmi.thread call)
    cases hthread : hmi.thread call with
    | gui =>
      rw [hthread] at hok hdone
      exact hok.idle hdone _ hbutton
    | driver =>
      rw [hthread] at hok hdone
      exact hok.idle hdone _ hstate
  · exact safe hdead

theorem step_safe_iff (h : Disciplined hmi allowed c) (safe : ¬ c.Deadlocked .gui .driver)
    (l : Label Thread Call) : ¬ (step c l).Deadlocked .gui .driver ↔ ¬ Entangles c l := by
  refine not_congr ⟨fun hdead => ?_, fun hentangles => ?_⟩
  · cases l with
    | call call => exact absurd hdead (call_safe h safe call)
    | act t =>
      cases t with
      | gui => exact gui_deadlocks h safe hdead
      | driver => exact driver_deadlocks h safe hdead
  · obtain ⟨gheld, hg⟩ := h .gui
    obtain ⟨dheld, hd⟩ := h .driver
    cases l with
    | call call => exact hentangles.elim
    | act t =>
      refine (deadlocked_iff (act_disciplined h t)).mpr ?_
      cases t with
      | gui =>
        obtain ⟨⟨hstate, ops', hcallback⟩, ops, hops⟩ := hentangles
        have hfree : c.owner .mtButtonWritesMtx = none := by
          cases howner : c.owner .mtButtonWritesMtx with
          | none => rfl
          | some t =>
            cases t with
            | gui => exact absurd howner (hg.next hops).1
            | driver => exact absurd howner (hd.next hcallback).1
        simp only [Config.act, hops, hfree, if_true]
        exact ⟨⟨by simp, ops, by simp⟩, by simpa using hstate, ops', by simpa using hcallback⟩
      | driver =>
        obtain ⟨⟨hbutton, ops', hwrite⟩, ops, hops⟩ := hentangles
        have hfree : c.owner .mtDrvStateMutex = none := by
          cases howner : c.owner .mtDrvStateMutex with
          | none => rfl
          | some t =>
            cases t with
            | gui => exact absurd howner (hg.next hwrite).1
            | driver => exact absurd howner (hd.next hops).1
        simp only [Config.act, hops, hfree, if_true]
        exact ⟨⟨by simpa using hbutton, ops', by simpa using hwrite⟩, by simp, ops, by simp⟩

/-- A run of the two threads from their start meets no deadlock if and only if
none of its steps entangles a button write with a callback. -/
theorem deadlock_free_iff (ls : List (Label Thread Call)) :
    Along step (fun c l => ¬ (step c l).Deadlocked .gui .driver) Config.idle ls ↔
      Along step (fun c l => ¬ Entangles c l) Config.idle ls := by
  refine along_congr (P := fun c => Disciplined hmi allowed c ∧ ¬ c.Deadlocked .gui .driver)
    (fun c l h => step_safe_iff h.1 h.2 l) (fun c l h hl => ?_) ⟨idle_disciplined, ?_⟩ ls
  · exact ⟨step_disciplined hmi_obeys c l h.1, (step_safe_iff h.1 h.2 l).mpr hl⟩
  · rintro ⟨m, _, ⟨⟨ops, hops⟩, _⟩, _⟩
    cases hops

end Deadlocks

/-- A button is pressed; while the driver thread is about to report the success
of its write, another button is pressed. -/
def twoPresses : List (Label Thread Call) :=
  [.call (.writeVarAsButton true true true), .act .gui, .act .gui, .act .gui, .act .gui,
    .call (.driverLoop (.write [] true)), .act .driver,
    .call (.writeVarAsButton true true true), .act .gui]

theorem twoPresses_deadlock : (run step Config.idle twoPresses).Deadlocked .gui .driver :=
  ⟨.mtDrvStateMutex, .mtButtonWritesMtx, ⟨⟨_, rfl⟩, rfl⟩, ⟨⟨_, rfl⟩, rfl⟩⟩

end HmiLocks
