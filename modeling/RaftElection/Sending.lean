/-
Sending: the connections of a client, and the loops that send to every peer.

`Fsm.lean` records what is sent as if sending always went well.  Here it may fail, in the
three ways the network has: a name does not resolve, an address does not answer, a write
breaks off.  The first is an exception of `resolver.resolve`, the second a null
connection, the third the flag `closed_` of a connection, and each function below passes
on what it gets the way the source does.  Exceptions are those of `EStateM`, which keeps
the state that the throwing call has left.

A connection in the pool is its flag `closed_`.  What the network does is fixed for each
peer: within one loop every peer has its turn once.
-/
import Mathlib.Logic.Function.Basic
import RaftElection.Fsm
import RaftElection.Threads

namespace Raft

structure EndPoint where
  host : String
  port : Int
  deriving DecidableEq

/-- How an attempt to reach a peer fares, were it made. -/
structure Network where
  resolves : UInt64 → Bool
  connects : UInt64 → Bool
  writes : UInt64 → Bool

/-- What `resolve` throws. -/
inductive SystemError where
  | hostNotFound
  deriving DecidableEq

structure Client where
  /-- `conns_` of the pool: for an address, whether its connection is closed. -/
  conns : EndPoint → Option Bool := fun _ => none
  /-- The peers that `RemoteRaftActor::send` was called for, in this order. -/
  attempted : List UInt64 := []

abbrev SendM := EStateM SystemError Client

def Client.setConn (endpoint : EndPoint) (closed : Bool) (c : Client) : Client :=
  { c with conns := Function.update c.conns endpoint (some closed) }

section

variable (net : Network) (peer : UInt64) (endpoint : EndPoint)

/-- Whether there is a connection now.  `connect` is given an `error_code` and `resolve` is
not. -/
def ConnectionPool.create : SendM Bool := do
  if net.resolves peer then return net.connects peer
  else throw .hostNotFound

/-- Whether it returns a connection. -/
def ConnectionPool.get : SendM Bool := do
  match (← getThe Client).conns endpoint with
  | some false => return true
  | none | some true =>
      if ← create net peer then
        modify (Client.setConn endpoint false)
        return true
      else return false

def Connection.write : SendM Unit := do
  if net.writes peer then return ()
  else modify (Client.setConn endpoint true)

def Client.send : SendM Unit := do
  if ← ConnectionPool.get net peer endpoint then Connection.write net peer endpoint

end

/-- `RemoteRaftActor`: the addresses behind the ids. -/
structure RemoteRaftActor extends Actor where
  address : UInt64 → EndPoint

namespace RemoteRaftActor

variable (a : RemoteRaftActor) (net : Network)

def send (peer : UInt64) : SendM Unit := do
  modify fun c => { c with attempted := c.attempted ++ [peer] }
  Client.send net peer (a.address peer)

/-- The body of `request_vote_for_self` and of the heartbeat callable, which differ in the
message. -/
def sendAll (peers : List UInt64) : SendM Unit := peers.forM (a.send net)

def requestVoteForSelf : SendM Unit := a.sendAll net a.getPeers

/-- The callable of a timer, for a machine in state `s`.  That of the election timer is
`handle`, which canvasses unless the node is blocked or leads.  `Task::call` has no
handler: what a callable throws ends the scheduler thread. -/
def callable (s : RaftFSM) : TimerKind → SendM Unit
  | .election =>
      if s.blocked = true ∨ s.role = .leader then return ()
      else a.requestVoteForSelf net
  | .heartbeat => a.sendAll net a.getPeers

end RemoteRaftActor

/-- Server 1 of three, each on a host of its own. -/
def firstOfThreeHosts : RemoteRaftActor where
  toActor := firstOfThree
  address id :=
    { host := if id = 1 then "one" else if id = 2 then "two" else "three", port := 9990 }

end Raft
