/-
A node from its construction to its destruction.

`Machine.lean` begins with a node that has been started.  Here the machine is there from
the constructor on, and the pointers its calls go through are fields: `server_` and
`client_` of `RemoteRaftActor`, and `election_timeout_task_`, which the machine has
already.  `start` is taken apart where others can come in between: it arms the election
timer, then makes the server and the client inside `call_once`, then enters the server.
Any number of threads may be inside `start`, and all other calls may be made at any time,
before it, during it and without it.

A null access ends the life of the node.  So does the null address of a sender that the
peer map does not have, which `Proofs/Delivery.lean` is about; it leads to no next state.
-/
import RaftElection.Machine

namespace Raft

/-- The pointers that are null until something creates what they point to. -/
inductive NullAccess where
  | server
  | client
  | electionTimeoutTask
  deriving DecidableEq

structure LifeCycle where
  fsm : RaftFSM := {}
  /-- The calls of `start` that have armed the timer and are not yet in the server. -/
  starting : Nat := 0
  /-- `server_` is not null. -/
  server : Bool := false
  /-- `client_` is not null. -/
  client : Bool := false
  destroyed : Bool := false
  /-- The null pointer that was dereferenced. -/
  fault : Option NullAccess := none
  deriving DecidableEq

inductive LifeCycleAction where
  /-- `start` is called: `init_follower_state`. -/
  | initFollower
  /-- `std::make_unique<Server>`. -/
  | makeServer
  /-- Its constructor cannot listen on the port, and its exception leaves `start`. -/
  | failServer
  /-- `std::make_unique<Client>`, the end of `call_once`. -/
  | makeClient
  /-- `server_->start()`. -/
  | serve
  | stop
  /-- An event that is handled, a task that the scheduler calls, a call of the API. -/
  | machine (x : MachineAction)
  /-- The destructor. -/
  | destroy
  deriving DecidableEq

namespace LifeCycle

/-- `server_->start()` and `server_->stop()`. -/
def onServer (n : LifeCycle) : LifeCycle :=
  if n.server then n else { n with fault := some .server }

def cancelScheduledTasks (s : RaftFSM) : RaftFSM :=
  { s with
    electionTimeoutTask := s.electionTimeoutTask.map fun t => { t with cancelled := true }
    heartbeatTask := s.heartbeatTask.map fun t => { t with cancelled := true } }

/-- The machine has come to `s`.  `send` reports that there is no client and goes on to use
it. -/
def sendTo (n : LifeCycle) (s : RaftFSM) : LifeCycle :=
  if n.client = false ∧ (n.fsm.newEntries s).any Entry.isSent = true then
    { n with fault := some .client }
  else { n with fsm := s }

def handle (a : Actor) (cb : Callbacks) (n : LifeCycle) (event : RaftEvent) : Option LifeCycle :=
  match RaftFSM.handle a cb n.fsm event with
  | .ok s => some (n.sendTo s)
  | .error .nullTask => some { n with fault := some .electionTimeoutTask }
  | .error .nullPeer => none

def machineStep (a : Actor) (n : LifeCycle) : MachineAction → Option LifeCycle
  | .handle event cb => n.handle a cb event
  | .callElection cb =>
      if Timer.Live n.fsm.electionTimeoutTask then n.handle a cb .electionTimeout else some n
  | .callHeartbeat =>
      some (if Timer.Live n.fsm.heartbeatTask then
          n.sendTo (n.fsm.sendAll (.appendEntriesReq a.self n.fsm.term) a.getPeers)
        else n)
  | .api c cb => some { n with fsm := n.fsm.call (RaftFSM.signOff cb) c }

/-- One step; there is none after a null access or the destructor. -/
def step (a : Actor) (n : LifeCycle) (x : LifeCycleAction) : Option LifeCycle :=
  if n.fault.isSome || n.destroyed then none
  else
    match x with
    | .initFollower =>
        some { n with fsm := RaftFSM.initFollowerState n.fsm, starting := n.starting + 1 }
    | .makeServer =>
        if 0 < n.starting ∧ n.server = false then some { n with server := true } else none
    | .failServer =>
        if 0 < n.starting ∧ n.server = false then some { n with starting := n.starting - 1 }
        else none
    | .makeClient =>
        if 0 < n.starting ∧ n.server = true ∧ n.client = false then some { n with client := true }
        else none
    | .serve =>
        -- `call_once` lets nobody pass before its function has returned.
        if 0 < n.starting ∧ n.client = true then
          some (onServer { n with starting := n.starting - 1 })
        else none
    | .stop => some n.onServer
    | .machine x => n.machineStep a x
    | .destroy => some (onServer { n with fsm := cancelScheduledTasks n.fsm, destroyed := true })

end LifeCycle

/-- A node against any calls of its public functions and any firings of its timers. -/
def lifeCycleSystem (a : Actor) : Transition.System LifeCycle LifeCycleAction :=
  .ofFun {} (LifeCycle.step a)

end Raft
