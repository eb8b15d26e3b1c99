import TurbineGovernor.CommonTypes

/-!
# The connections of the slave driver

The fields of `ModbusSlaveDrv` that control the server, and one call of
`processPendingRequests` after `select`. Descriptor sets are finite sets, a
descriptor is a natural number and `miServerSock = -1` is `none`. What the
library and the other ends answer is an argument; what the driver does to a
descriptor is kept in the log `calls`.
-/

namespace SlaveSockets

def MAX_TRANSMISSION_TRYS : Nat := 3
def MAX_NUM_MASTERS : BitVec 32 := 5
def FD_SETSIZE : Nat := 1024

inductive SocketCall where
  | accept (iSocket : Nat)
  | reply (iSocket : Nat) (sent : Bool)
  | close (iSocket : Nat)
  deriving DecidableEq

structure Sockets where
  miServerSock : Option Nat
  mtRefset : Finset Nat
  mtReadset : Finset Nat
  miFdmax : Int
  muiNumConnections : BitVec 32
  calls : List SocketCall

/-- Answers during one call: `modbus_tcp_accept`, `modbus_receive` on a master
socket, and whether the given attempt of `modbus_reply` succeeds there. -/
structure Answers where
  accept : Option Nat
  receive : Nat → Int
  reply : Nat → Nat → Bool

/-- `while(modbus_reply(..) == -1 && iTransTrys++ < MAX_TRANSMISSION_TRYS)`: the
final counter and the outcomes of the attempts. `left` says how often the
counter is still below its bound. -/
def replyLoop (reply : Nat → Bool) : Nat → Nat → Nat × List Bool
  | 0, iTransTrys => if reply iTransTrys then (iTransTrys, [true]) else (iTransTrys + 1, [false])
  | left + 1, iTransTrys =>
    if reply iTransTrys then (iTransTrys, [true])
    else
      let (final, sent) := replyLoop reply left (iTransTrys + 1)
      (final, false :: sent)

namespace Sockets

/-- The branch of the server socket. -/
def acceptMaster (s : Sockets) (a : Answers) : Sockets :=
  if s.muiNumConnections < MAX_NUM_MASTERS then
    match a.accept with
    | none => s
    | some iNewSocket =>
      { s with
        mtRefset := insert iNewSocket s.mtRefset
        muiNumConnections := s.muiNumConnections + 1
        miFdmax := if iNewSocket > s.miFdmax then iNewSocket else s.miFdmax
        calls := s.calls ++ [.accept iNewSocket] }
  else s

/-- `::close` and the bookkeeping for a master that is given up. -/
def dropMaster (s : Sockets) (iMasterSock : Nat) : Sockets :=
  { s with
    mtRefset := s.mtRefset.erase iMasterSock
    muiNumConnections := s.muiNumConnections - 1
    miFdmax := if iMasterSock = s.miFdmax then s.miFdmax - 1 else s.miFdmax
    calls := s.calls ++ [.close iMasterSock] }

/-- The counter and the outcomes of the reply loop; no request, no reply. -/
def replies (a : Answers) (iMasterSock : Nat) : Nat × List Bool :=
  if a.receive iMasterSock > 0 then replyLoop (a.reply iMasterSock) MAX_TRANSMISSION_TRYS 0
  else (0, [])

/-- The branch of a master socket. -/
def serveMaster (s : Sockets) (a : Answers) (iMasterSock : Nat) : Sockets :=
  let (iTransTrys, sent) := replies a iMasterSock
  let s := { s with calls := s.calls ++ sent.map (.reply iMasterSock) }
  if a.receive iMasterSock = -1 ∨ iTransTrys ≥ MAX_TRANSMISSION_TRYS then s.dropMaster iMasterSock
  else s

/-- One pass of the loop over the descriptors. The bound `miFdmax` is read again
in each pass; once it is passed the remaining passes do nothing. -/
def serveSocket (a : Answers) (s : Sockets) (iMasterSock : Nat) : Sockets :=
  if (iMasterSock : Int) ≤ s.miFdmax ∧ iMasterSock ∈ s.mtReadset then
    if some iMasterSock = s.miServerSock then s.acceptMaster a else s.serveMaster a iMasterSock
  else s

/-- Descriptors in a set are below `FD_SETSIZE`. -/
def processPendingRequests (s : Sockets) (a : Answers) : Sockets :=
  (List.range FD_SETSIZE).foldl (serveSocket a) s

/-- One pass of the loop of `closeSockets`. -/
def closeMaster (miServerSock : Nat) (s : Sockets) (iSocket : Nat) : Sockets :=
  if iSocket ∈ s.mtRefset ∧ iSocket ≠ miServerSock then
    { s with mtRefset := s.mtRefset.erase iSocket, calls := s.calls ++ [.close iSocket] }
  else s

def closeSockets (s : Sockets) : Sockets :=
  match s.miServerSock with
  | none => s
  | some miServerSock =>
    let s := (List.range (s.miFdmax + 1).toNat).foldl (closeMaster miServerSock) s
    { s with
      mtRefset := ∅
      muiNumConnections := 0
      miServerSock := none
      calls := s.calls ++ [.close miServerSock] }

/-- What `createServerSocket` does to the sockets when `modbus_tcp_listen` has
returned a descriptor. -/
def listenOn (s : Sockets) (iSocket : Nat) : Sockets :=
  { s with
    miServerSock := some iSocket
    mtRefset := {iSocket}
    miFdmax := iSocket
    muiNumConnections := 0 }

/-- The descriptors that `select(miFdmax+1, ..)` looks at. -/
def watched (s : Sockets) : Finset Nat :=
  s.mtRefset.filter (fun iSocket => (iSocket : Int) < s.miFdmax + 1)

end Sockets

end SlaveSockets
