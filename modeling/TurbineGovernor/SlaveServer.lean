import TurbineGovernor.Loops
import TurbineGovernor.SlaveSockets
import TurbineGovernor.TransitionRuns

/-!
# The server of the slave driver

The driver thread of `ModbusSlaveDrv` as far as it concerns its sockets, with
the calls of the interface. While the server runs, the descriptors that
`select` looks at are the server and the masters that have been accepted and
not been closed. A failed `accept` leaves the server socket as it is.
-/

namespace SlaveServer
open CommonTypes IndexedLoops TransitionRuns SlaveSockets

def MAX_COM_ERROR_TRYS : Nat := 3

/-- `comErrorCalls` counts the calls of `mfComErrorCallB`. -/
structure Server where
  sockets : Sockets
  mtDrvState : DrvState
  uiComErrors : Nat
  mstrLastError : String
  comErrorCalls : Nat

/-- What `select` returns: -1, 0, or the number of descriptors that it leaves in
the set. -/
inductive Select where
  | error
  | timeOut
  | ready (mtReadset : Finset Nat)

/-- The answers of the library in one turn of the loop. -/
structure Turn where
  listen : Option Nat
  strerror : String
  select : Select
  answers : Answers

namespace Server

def createServerSocket (s : Server) (t : Turn) : Bool × Server :=
  match s.sockets.miServerSock with
  | some _ => (true, s)
  | none =>
    match t.listen with
    | none => (false, { s with mstrLastError := t.strerror })
    | some iSocket => (true, { s with sockets := s.sockets.listenOn iSocket, uiComErrors := 0 })

/-- The branch `Running`. -/
def serve (s : Server) (t : Turn) : Server :=
  if s.sockets.miServerSock = none then
    match s.createServerSocket t with
    | (true, s) => s
    | (false, s) => { s with mtDrvState := .comError }
  else match t.select with
    | .error =>
      { s with
        sockets := { s.sockets with mtReadset := s.sockets.mtRefset }
        mstrLastError := "Error en espera de comunicaciones"
        mtDrvState := .comError }
    | .timeOut => { s with sockets := { s.sockets with mtReadset := ∅ } }
    | .ready mtReadset =>
      let sockets := { s.sockets with mtReadset := s.sockets.watched ∩ mtReadset }
      { s with sockets := sockets.processPendingRequests t.answers }

/-- The branch `COMError`. -/
def recover (s : Server) (t : Turn) : Server :=
  if s.sockets.miServerSock = none then
    match s.createServerSocket t with
    | (true, s) => { s with mtDrvState := .running }
    | (false, s) =>
      { s with
        comErrorCalls := if s.uiComErrors = 0 then s.comErrorCalls + 1 else s.comErrorCalls
        uiComErrors := min (s.uiComErrors + 1) MAX_COM_ERROR_TRYS }
  else { s with sockets := s.sockets.closeSockets }

/-- One turn of the loop; a driver that is stopped or not initialised waits. -/
def driverLoop (s : Server) (t : Turn) : Server :=
  match s.mtDrvState with
  | .stopped => s
  | .unInit => s
  | .running => s.serve t
  | .comError => s.recover t
  | .varError => { s with mtDrvState := .comError }

/-- What `init` does here; `ok` says that the configuration and the library let
it come to its end. -/
def init (s : Server) (ok : Bool) (error : String) : Bool × Server :=
  if s.mtDrvState ≠ .unInit then (false, { s with mstrLastError := "Driver ya inicializado" })
  else if ok then (true, { s with mtDrvState := .stopped, uiComErrors := 0 })
  else (false, { s with mstrLastError := error })

def start (s : Server) : Bool × Server :=
  if s.mtDrvState = .unInit then (false, s)
  else if s.mtDrvState = .stopped then (true, { s with mtDrvState := .running })
  else (true, s)

def stop (s : Server) : Bool × Server :=
  if s.mtDrvState = .unInit then (false, s)
  else
    (true, { s with
      sockets := s.sockets.closeSockets, mtDrvState := .stopped, uiComErrors := 0 })

def close (s : Server) : Bool × Server :=
  if s.mtDrvState = .unInit then (true, s)
  else
    (true, { s with
      sockets := s.sockets.closeSockets, mtDrvState := .unInit, uiComErrors := 0 })

end Server

/-- The calls of the interface and the turns of the driver thread. All of them
hold `mtDrvStateMutex`. -/
inductive Op where
  | init (ok : Bool) (error : String)
  | start
  | stop
  | close
  | turn (t : Turn)

def Server.step (s : Server) : Op → Server
  | .init ok error => (s.init ok error).2
  | .start => s.start.2
  | .stop => s.stop.2
  | .close => s.close.2
  | .turn t => s.driverLoop t

/-- The masters that have been accepted and not been closed. -/
def openMasters (calls : List SocketCall) : Finset Nat :=
  calls.foldl
    (fun masters call => match call with
      | .accept iSocket => insert iSocket masters
      | .reply _ _ => masters
      | .close iSocket => masters.erase iSocket) ∅

@[simp] theorem openMasters_nil : openMasters [] = ∅ := rfl

@[simp] theorem openMasters_accept (calls : List SocketCall) (iSocket : Nat) :
    openMasters (calls ++ [.accept iSocket]) = insert iSocket (openMasters calls) := by
  simp [openMasters]

@[simp] theorem openMasters_close (calls : List SocketCall) (iSocket : Nat) :
    openMasters (calls ++ [.close iSocket]) = (openMasters calls).erase iSocket := by
  simp [openMasters]

theorem openMasters_replies (calls : List SocketCall) (iSocket : Nat) (sent : List Bool) :
    openMasters (calls ++ sent.map (.reply iSocket)) = openMasters calls := by
  simp only [openMasters, List.foldl_append]
  induction sent with
  | nil => rfl
  | cons ok sent ih => exact ih

/-- The set, the counter and the maximum of a server that listens on `iServer`
are those of its open masters. -/
structure Serving (s : Sockets) (iServer : Nat) : Prop where
  notMaster : iServer ∉ openMasters s.calls
  refset : s.mtRefset = insert iServer (openMasters s.calls)
  count : (openMasters s.calls).card = s.muiNumConnections.toNat
  within : s.muiNumConnections ≤ MAX_NUM_MASTERS
  max : ∀ iSocket ∈ s.mtRefset, (iSocket : Int) ≤ s.miFdmax

/-- Without a server there is no open master. -/
structure Booked (s : Sockets) : Prop where
  idle : s.miServerSock = none → openMasters s.calls = ∅
  serving : ∀ iServer, s.miServerSock = some iServer → Serving s iServer

namespace Serving
variable {s : Sockets} {iServer : Nat}

/-- What the library has done to a fresh server. -/
theorem listenOn (h : openMasters s.calls = ∅) (iSocket : Nat) :
    Serving (s.listenOn iSocket) iSocket where
  notMaster := by
    simp [Sockets.listenOn, h]
  refset := by
    simp [Sockets.listenOn, h]
  count := by
    simp [Sockets.listenOn, h]
  within := by
    simp [Sockets.listenOn, MAX_NUM_MASTERS]
  max := by
    simp [Sockets.listenOn]

theorem acceptMaster (h : Serving s iServer) (a : Answers)
    (fresh : ∀ iNewSocket, a.accept = some iNewSocket →
      iNewSocket ≠ iServer ∧ iNewSocket ∉ openMasters s.calls) :
    Serving (s.acceptMaster a) iServer := by
  simp only [Sockets.acceptMaster]
  split
  · rename_i hroom
    cases haccept : a.accept with
    | none => exact h
    | some iNewSocket =>
      obtain ⟨hserver, hclosed⟩ := fresh iNewSocket haccept
      have hroom' : s.muiNumConnections.toNat < 5 := hroom
      have hcount : (s.muiNumConnections + 1).toNat = s.muiNumConnections.toNat + 1 := by
        rw [BitVec.toNat_add]
        exact Nat.mod_eq_of_lt (by simp; omega)
      refine ⟨?_, ?_, ?_, ?_, ?_⟩
      · rw [openMasters_accept, Finset.mem_insert]
        rintro (heq | hin)
        · exact hserver heq.symm
        · exact h.notMaster hin
      · rw [openMasters_accept, h.refset, Finset.insert_comm]
      · rw [openMasters_accept, Finset.card_insert_of_notMem hclosed, h.count, hcount]
      · rw [BitVec.le_def, hcount]
        exact hroom'
      · intro iSocket hin
        dsimp only at hin ⊢
        rcases Finset.mem_insert.mp hin with rfl | hin
        · split <;> omega
        · have hle := h.max iSocket hin
          split <;> omega
  · exact h

theorem dropMaster (h : Serving s iServer) {iMasterSock : Nat}
    (hopen : iMasterSock ∈ openMasters s.calls) : Serving (s.dropMaster iMasterSock) iServer := by
  have hserver : iServer ≠ iMasterSock := fun he => h.notMaster (he ▸ hopen)
  have hpos : 0 < (openMasters s.calls).card := Finset.card_pos.mpr ⟨iMasterSock, hopen⟩
  have hwithin : s.muiNumConnections.toNat ≤ 5 := h.within
  have hcount : (s.muiNumConnections - 1).toNat = s.muiNumConnections.toNat - 1 := by
    have hne := h.count
    rw [BitVec.toNat_sub_of_le]
    · rfl
    · rw [BitVec.le_def]
      exact hne ▸ hpos
  refine ⟨?_, ?_, ?_, ?_, ?_⟩
  · rw [Sockets.dropMaster, openMasters_close]
    exact fun hin => h.notMaster (Finset.mem_of_mem_erase hin)
  · simp only [Sockets.dropMaster, openMasters_close, h.refset]
    exact Finset.erase_insert_of_ne hserver
  · simp only [Sockets.dropMaster, openMasters_close]
    rw [Finset.card_erase_of_mem hopen, h.count, hcount]
  · simp only [Sockets.dropMaster]
    rw [BitVec.le_def, hcount]
    exact le_trans (Nat.sub_le _ _) hwithin
  · intro iSocket hin
    obtain ⟨hne, hin⟩ := Finset.mem_erase.mp hin
    have hle := h.max iSocket hin
    simp only [Sockets.dropMaster]
    split
    · omega
    · exact hle

theorem logged (h : Serving s iServer) (iMasterSock : Nat) (sent : List Bool) :
    Serving { s with calls := s.calls ++ sent.map (.reply iMasterSock) } iServer := by
  have hsame := openMasters_replies s.calls iMasterSock sent
  exact ⟨hsame ▸ h.notMaster, hsame ▸ h.refset, hsame ▸ h.count, h.within, h.max⟩

theorem serveMaster (h : Serving s iServer) (a : Answers) {iMasterSock : Nat}
    (hopen : iMasterSock ∈ openMasters s.calls) :
    Serving (s.serveMaster a iMasterSock) iServer := by
  simp only [Sockets.serveMaster]
  split
  · apply (h.logged iMasterSock _).dropMaster
    rw [openMasters_replies]
    exact hopen
  · exact h.logged iMasterSock _

end Serving

/-- The descriptor that `accept` returns is not open when the server is served. -/
def FreshAccept (s : Sockets) (a : Answers) : Prop :=
  ∀ iServer iNewSocket, s.miServerSock = some iServer → iServer ∈ s.mtReadset →
    a.accept = some iNewSocket →
      iNewSocket < FD_SETSIZE ∧ iNewSocket ≠ iServer ∧
        iNewSocket ∉ openMasters ((List.range iServer).foldl (Sockets.serveSocket a) s).calls

theorem miServerSock_serveSocket (a : Answers) (s : Sockets) (i : Nat) :
    (Sockets.serveSocket a s i).miServerSock = s.miServerSock := by
  simp only [Sockets.serveSocket]
  split
  · split
    · simp only [Sockets.acceptMaster]
      split
      · split <;> rfl
      · rfl
    · simp only [Sockets.serveMaster]
      split <;> rfl
  · rfl

theorem mtReadset_serveSocket (a : Answers) (s : Sockets) (i : Nat) :
    (Sockets.serveSocket a s i).mtReadset = s.mtReadset := by
  simp only [Sockets.serveSocket]
  split
  · split
    · simp only [Sockets.acceptMaster]
      split
      · split <;> rfl
      · rfl
    · simp only [Sockets.serveMaster]
      split <;> rfl
  · rfl

/-- The descriptors that are still to be served are still open. -/
structure Pass (iServer i : Nat) (s : Sockets) : Prop where
  server : s.miServerSock = some iServer
  serving : Serving s iServer
  ahead : ∀ iSocket ∈ s.mtReadset, i ≤ iSocket → iSocket ∈ s.mtRefset

theorem Pass.serveSocket {iServer i : Nat} {s : Sockets} (h : Pass iServer i s) (a : Answers)
    (fresh : i = iServer → i ∈ s.mtReadset → ∀ iNewSocket, a.accept = some iNewSocket →
      iNewSocket ≠ iServer ∧ iNewSocket ∉ openMasters s.calls) :
    Pass iServer (i + 1) (Sockets.serveSocket a s i) := by
  refine ⟨(miServerSock_serveSocket a s i).trans h.server, ?_, ?_⟩
  · simp only [Sockets.serveSocket]
    split
    · rename_i hin
      split
      · rename_i hserver
        have hi : i = iServer := by
          rw [h.server] at hserver
          exact Option.some.inj hserver
        exact h.serving.acceptMaster a (fresh hi hin.2)
      · rename_i hmaster
        apply h.serving.serveMaster a
        have hopen := h.ahead i hin.2 le_rfl
        rw [h.serving.refset, Finset.mem_insert] at hopen
        rcases hopen with rfl | hopen
        · exact absurd h.server.symm hmaster
        · exact hopen
    · exact h.serving
  · intro iSocket hin hle
    rw [mtReadset_serveSocket] at hin
    have hopen := h.ahead iSocket hin (Nat.le_of_succ_le hle)
    have hne : iSocket ≠ i := Nat.ne_of_gt hle
    simp only [Sockets.serveSocket]
    split
    · split
      · simp only [Sockets.acceptMaster]
        split
        · split
          · exact hopen
          · exact Finset.mem_insert_of_mem hopen
        · exact hopen
      · simp only [Sockets.serveMaster]
        split
        · exact Finset.mem_erase.mpr ⟨hne, hopen⟩
        · exact hopen
    · exact hopen

theorem Serving.processPendingRequests {s : Sockets} {iServer : Nat} (h : Serving s iServer)
    (server : s.miServerSock = some iServer) (ready : s.mtReadset ⊆ s.mtRefset) (a : Answers)
    (fresh : FreshAccept s a) :
    Serving (s.processPendingRequests a) iServer ∧
      (s.processPendingRequests a).miServerSock = some iServer := by
  have hpass :
      Pass iServer FD_SETSIZE ((List.range FD_SETSIZE).foldl (Sockets.serveSocket a) s) := by
    refine foldl_range_invariant (P := Pass iServer) ⟨server, h, fun iSocket hin _ => ready hin⟩ ?_
    intro i _ hpass
    refine hpass.serveSocket a ?_
    rintro rfl hin iNewSocket haccept
    have hset : ((List.range i).foldl (Sockets.serveSocket a) s).mtReadset = s.mtReadset :=
      foldl_range_kept (P := fun s' => s'.mtReadset = s.mtReadset)
        (fun s' i' hs' => (mtReadset_serveSocket a s' i').trans hs') i rfl
    exact (fresh i iNewSocket server (hset ▸ hin) haccept).2
  exact ⟨hpass.serving, hpass.server⟩

/-- The masters that `closeSockets` comes to, in order. -/
def closed (s : Sockets) (iServer : Nat) : List Nat :=
  (List.range (s.miFdmax + 1).toNat).filter
    (fun iSocket => decide (iSocket ∈ s.mtRefset ∧ iSocket ≠ iServer))

theorem closeMaster_log (s : Sockets) (iServer n : Nat) :
    ((List.range n).foldl (Sockets.closeMaster iServer) s).calls =
        s.calls ++ ((List.range n).filter
          (fun iSocket => decide (iSocket ∈ s.mtRefset ∧ iSocket ≠ iServer))).map .close ∧
      ∀ iSocket, n ≤ iSocket →
        (iSocket ∈ ((List.range n).foldl (Sockets.closeMaster iServer) s).mtRefset ↔
          iSocket ∈ s.mtRefset) := by
  induction n with
  | zero => simp
  | succ n ih =>
    obtain ⟨hcalls, hset⟩ := ih
    rw [List.range_succ, List.foldl_append, List.foldl_cons, List.foldl_nil, List.filter_append]
    have hown := hset n le_rfl
    simp only [Sockets.closeMaster]
    split
    · rename_i hin
      rw [hown] at hin
      constructor
      · simp [hcalls, hin]
      · intro iSocket hle
        have hne : iSocket ≠ n := Nat.ne_of_gt hle
        rw [Finset.mem_erase, hset iSocket (Nat.le_of_succ_le hle)]
        exact and_iff_right hne
    · rename_i hout
      rw [hown] at hout
      constructor
      · simp [hcalls, hout]
      · exact fun iSocket hle => hset iSocket (Nat.le_of_succ_le hle)

theorem Serving.closes {s : Sockets} {iServer : Nat} (h : Serving s iServer)
    (server : s.miServerSock = some iServer) :
    s.closeSockets.calls = s.calls ++ (closed s iServer ++ [iServer]).map .close ∧
    (closed s iServer).Nodup ∧ (closed s iServer).toFinset = openMasters s.calls := by
  refine ⟨?_, List.nodup_range.filter _, ?_⟩
  · rw [Sockets.closeSockets, server]
    simp only [(closeMaster_log s iServer _).1, closed, List.map_append, List.append_assoc]
    rfl
  · ext iSocket
    simp only [closed, List.mem_toFinset, List.mem_filter, List.mem_range, decide_eq_true_eq]
    constructor
    · rintro ⟨_, hin, hne⟩
      rw [h.refset, Finset.mem_insert] at hin
      exact hin.resolve_left hne
    · intro hopen
      have hin : iSocket ∈ s.mtRefset := by
        rw [h.refset]
        exact Finset.mem_insert_of_mem hopen
      have hmax := h.max iSocket hin
      exact ⟨by omega, hin, fun he => h.notMaster (he ▸ hopen)⟩

theorem openMasters_closed (calls : List SocketCall) (sockets : List Nat) :
    openMasters (calls ++ sockets.map .close) = openMasters calls \ sockets.toFinset := by
  induction sockets generalizing calls with
  | nil => simp
  | cons iSocket sockets ih =>
    rw [List.map_cons, List.append_cons, ih, openMasters_close]
    ext i
    simp only [Finset.mem_sdiff, Finset.mem_erase, List.toFinset_cons, Finset.mem_insert]
    tauto

/-- Whatever was open has been closed. -/
theorem Booked.closeSockets {s : Sockets} (h : Booked s) : Booked s.closeSockets := by
  cases hserver : s.miServerSock with
  | none =>
    have hsame : s.closeSockets = s := by
      rw [Sockets.closeSockets, hserver]
    rw [hsame]
    exact h
  | some iServer =>
    obtain ⟨hcalls, _, hset⟩ := (h.serving iServer hserver).closes hserver
    have hnone : s.closeSockets.miServerSock = none := by
      rw [Sockets.closeSockets, hserver]
    refine ⟨fun _ => ?_, fun iServer' hsome => ?_⟩
    · rw [hcalls, openMasters_closed, List.toFinset_append, hset]
      exact Finset.sdiff_eq_empty_iff_subset.mpr Finset.subset_union_left
    · rw [hnone] at hsome
      cases hsome

/-- A turn that serves requests gets a fresh descriptor from `accept`. -/
def FreshTurn (s : Server) : Op → Prop
  | .turn t => match s.mtDrvState, t.select with
    | .running, .ready mtReadset =>
      FreshAccept { s.sockets with mtReadset := s.sockets.watched ∩ mtReadset } t.answers
    | _, _ => True
  | _ => True

theorem Booked.withReadset {s : Sockets} (h : Booked s) (mtReadset : Finset Nat) :
    Booked { s with mtReadset := mtReadset } :=
  ⟨h.idle, fun i hi => ⟨(h.serving i hi).notMaster, (h.serving i hi).refset,
    (h.serving i hi).count, (h.serving i hi).within, (h.serving i hi).max⟩⟩

theorem Booked.processPendingRequests {s : Sockets} (h : Booked s) {iServer : Nat}
    (server : s.miServerSock = some iServer) (ready : s.mtReadset ⊆ s.mtRefset) {a : Answers}
    (fresh : FreshAccept s a) : Booked (s.processPendingRequests a) := by
  obtain ⟨hserving, hserver⟩ :=
    (h.serving iServer server).processPendingRequests server ready a fresh
  refine ⟨fun hno => ?_, fun i hi => ?_⟩
  · rw [hserver] at hno
    cases hno
  · rw [hserver] at hi
    obtain rfl := Option.some.inj hi
    exact hserving

theorem createServerSocket_booked {s : Server} (h : Booked s.sockets) (t : Turn) :
    Booked (s.createServerSocket t).2.sockets := by
  simp only [Server.createServerSocket]
  split
  · exact h
  · rename_i hnone
    split
    · exact h
    · rename_i iSocket _
      refine ⟨fun hno => ?_, fun iServer hsome => ?_⟩
      · cases hno
      · obtain rfl := Option.some.inj hsome
        exact Serving.listenOn (h.idle hnone) iSocket

theorem serve_booked {s : Server} (h : Booked s.sockets) (hrun : s.mtDrvState = .running)
    {t : Turn} (fresh : FreshTurn s (.turn t)) : Booked (s.serve t).sockets := by
  simp only [Server.serve]
  split
  · have hcreate := createServerSocket_booked h t
    split
    · rename_i heq
      rw [heq] at hcreate
      exact hcreate
    · rename_i heq
      rw [heq] at hcreate
      exact hcreate
  · rename_i hsome
    obtain ⟨iServer, hserver⟩ := Option.ne_none_iff_exists'.mp hsome
    simp only [FreshTurn, hrun] at fresh
    split
    · exact h.withReadset _
    · exact h.withReadset _
    · rename_i mtReadset hselect
      rw [hselect] at fresh
      have hafter := (h.withReadset (s.sockets.watched ∩ mtReadset)).processPendingRequests hserver
        (Finset.inter_subset_left.trans (Finset.filter_subset _ _)) fresh
      dsimp only
      exact hafter

theorem recover_booked {s : Server} (h : Booked s.sockets) (t : Turn) :
    Booked (s.recover t).sockets := by
  simp only [Server.recover]
  split
  · have hcreate := createServerSocket_booked h t
    split
    · rename_i heq
      rw [heq] at hcreate
      exact hcreate
    · rename_i heq
      rw [heq] at hcreate
      exact hcreate
  · exact h.closeSockets

theorem step_booked {s : Server} (h : Booked s.sockets) (op : Op) (fresh : FreshTurn s op) :
    Booked (s.step op).sockets := by
  cases op with
  | init ok error =>
    simp only [Server.step, Server.init]
    split
    · exact h
    · split <;> exact h
  | start =>
    simp only [Server.step, Server.start]
    split
    · exact h
    · split <;> exact h
  | stop =>
    simp only [Server.step, Server.stop]
    split
    · exact h
    · exact h.closeSockets
  | close =>
    simp only [Server.step, Server.close]
    split
    · exact h
    · exact h.closeSockets
  | turn t =>
    simp only [Server.step, Server.driverLoop]
    split
    · exact h
    · exact h
    · rename_i hrun
      exact serve_booked h hrun fresh
    · exact recover_booked h t
    · exact h

/-- A driver as it is constructed; the set, the counter and the maximum have not
been assigned. -/
structure Fresh (s : Server) : Prop where
  server : s.sockets.miServerSock = none
  state : s.mtDrvState = .unInit
  calls : s.sockets.calls = []

/-- In every state of every run the books of a listening server are right:
`select` watches the server and the open masters, no others, and `closeSockets`
closes each of them once. -/
theorem open_masters_booked {s : Server} (h : Fresh s) {ops : List Op}
    (hops : Along Server.step FreshTurn s ops) {iServer : Nat}
    (hserver : (run Server.step s ops).sockets.miServerSock = some iServer) :
    let sockets := (run Server.step s ops).sockets
    iServer ∈ sockets.mtRefset ∧
    sockets.mtRefset.erase iServer = openMasters sockets.calls ∧
    (openMasters sockets.calls).card = sockets.muiNumConnections.toNat ∧
    sockets.muiNumConnections ≤ MAX_NUM_MASTERS ∧
    (∀ iSocket ∈ sockets.mtRefset, (iSocket : Int) ≤ sockets.miFdmax) ∧
    sockets.watched = insert iServer (openMasters sockets.calls) ∧
    ∃ closed : List Nat,
      sockets.closeSockets.calls = sockets.calls ++ (closed ++ [iServer]).map .close ∧
      (closed ++ [iServer]).Nodup ∧ closed.toFinset = openMasters sockets.calls := by
  have hbooked : Booked (run Server.step s ops).sockets := by
    refine run_invariant (P := fun s => Booked s.sockets)
      (fun s op hs fresh => step_booked hs op fresh) ?_ hops
    refine ⟨fun _ => ?_, fun i hi => ?_⟩
    · rw [h.calls]
      rfl
    · rw [h.server] at hi
      cases hi
  have hserving := hbooked.serving iServer hserver
  obtain ⟨hcalls, hnodup, hset⟩ := hserving.closes hserver
  refine ⟨?_, ?_, hserving.count, hserving.within, hserving.max, ?_, _, hcalls, ?_, hset⟩
  · rw [hserving.refset]
    exact Finset.mem_insert_self _ _
  · rw [hserving.refset]
    exact Finset.erase_insert hserving.notMaster
  · rw [← hserving.refset]
    apply Finset.filter_true_of_mem
    intro iSocket hin
    exact Int.lt_add_one_of_le (hserving.max iSocket hin)
  · rw [List.nodup_append]
    refine ⟨hnodup, List.nodup_singleton _, ?_⟩
    intro iSocket hin j hj he
    rw [List.mem_singleton.mp hj] at he
    subst he
    apply hserving.notMaster
    rw [← hset]
    exact List.mem_toFinset.mpr hin

/-- A server on descriptor 4 that accepts 6, drops it for 3 and is asked again. -/
def threeTurns : List Op :=
  [.init true "", .start, .turn ⟨some 4, "", .timeOut, ⟨none, fun _ => 0, fun _ _ => true⟩⟩,
    .turn ⟨none, "", .ready {4}, ⟨some 6, fun _ => 0, fun _ _ => true⟩⟩,
    .turn ⟨none, "", .ready {4, 6}, ⟨some 3, fun _ => -1, fun _ _ => true⟩⟩]

def newServer : Server := ⟨⟨none, ∅, ∅, 0, 0, []⟩, .unInit, 0, "", 0⟩

theorem freshAccept_of {s : Sockets} {a : Answers} {iServer iNewSocket : Nat}
    (server : s.miServerSock = some iServer) (accept : a.accept = some iNewSocket)
    (fresh : iNewSocket < FD_SETSIZE ∧ iNewSocket ≠ iServer ∧
      iNewSocket ∉ openMasters ((List.range iServer).foldl (Sockets.serveSocket a) s).calls) :
    FreshAccept s a := by
  intro i j hi _ hj
  rw [server] at hi
  rw [accept] at hj
  obtain rfl := Option.some.inj hi
  obtain rfl := Option.some.inj hj
  exact fresh

set_option maxRecDepth 20000 in
theorem threeTurns_booked :
    let sockets := (run Server.step newServer threeTurns).sockets
    4 ∈ sockets.mtRefset ∧
    sockets.mtRefset.erase 4 = openMasters sockets.calls ∧
    (openMasters sockets.calls).card = sockets.muiNumConnections.toNat ∧
    sockets.muiNumConnections ≤ MAX_NUM_MASTERS ∧
    (∀ iSocket ∈ sockets.mtRefset, (iSocket : Int) ≤ sockets.miFdmax) ∧
    sockets.watched = insert 4 (openMasters sockets.calls) ∧
    ∃ closed : List Nat,
      sockets.closeSockets.calls = sockets.calls ++ (closed ++ [4]).map .close ∧
      (closed ++ [4]).Nodup ∧ closed.toFinset = openMasters sockets.calls :=
  @open_masters_booked newServer ⟨rfl, rfl, rfl⟩ threeTurns
    ⟨trivial, trivial, trivial, @freshAccept_of _ _ 4 6 rfl rfl (by decide +kernel),
      @freshAccept_of _ _ 4 3 (by decide +kernel) rfl (by decide +kernel), trivial⟩
    4 (by decide +kernel)

end SlaveServer
