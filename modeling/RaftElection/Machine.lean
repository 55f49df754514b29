/-
The state machine with every entry into it one step.

`Node.lean` cuts the scheduler thread into the test a task makes and what its callable
does afterwards.  Here an entry is a whole: an event that is handled, a task that the
scheduler calls, a call of the API, each from its first statement to its last.  This
is the grain at which roles, timers and callbacks are told from one another.

What the user has asked of the node is no field of it.  `Watched` adds the one thing
that is asked about: whether `stay_follower` has been called since the node last
became a candidate.  The callbacks of a step may make that call too, and the trace
tells whether they ran.  Nor does a node remember whose heartbeats it follows;
`Informed` adds that.
-/
import RaftElection.Library.Transition
import RaftElection.Fsm

namespace Raft

/-- `stay_follower`, and `block`, which begins with it. -/
def ApiCall.parks : ApiCall → Bool
  | .unblock => false
  | .block | .stayFollower => true

namespace Callbacks

/-- `on_become_leader` calls `stay_follower` or `block`. -/
def parksOnBecome (cb : Callbacks) : Bool := cb.onBecomeLeader.any (·.any ApiCall.parks)

/-- `on_sign_off_leader` does. -/
def parksOnSignOff (cb : Callbacks) : Bool := cb.onSignOffLeader.any (·.any ApiCall.parks)

/-- One of the callbacks among these entries does. -/
def parksIn (cb : Callbacks) (entries : List Entry) : Bool :=
  entries.contains .onBecomeLeader && cb.parksOnBecome ||
    entries.contains .onSignOffLeader && cb.parksOnSignOff

end Callbacks

def Entry.isSent : Entry → Bool
  | .sent .. => true
  | _ => false

inductive MachineAction where
  | handle (event : RaftEvent) (cb : Callbacks)
  /-- `Task::call` on the task of the election timer. -/
  | callElection (cb : Callbacks)
  /-- `Task::call` on the task of the heartbeat timer. -/
  | callHeartbeat
  | api (c : ApiCall) (cb : Callbacks)
  deriving DecidableEq

namespace MachineAction

def callbacks : MachineAction → Callbacks
  | .handle _ cb | .callElection cb | .api _ cb => cb
  | .callHeartbeat => {}

end MachineAction

namespace RaftFSM

/-- One step; `none` where the machine dereferences a null pointer. -/
def step (a : Actor) (s : RaftFSM) : MachineAction → Option RaftFSM
  | .handle event cb => (handle a cb s event).toOption
  | .callElection cb =>
      if Timer.Live s.electionTimeoutTask then (handle a cb s .electionTimeout).toOption
      else some s
  | .callHeartbeat =>
      if Timer.Live s.heartbeatTask then
        some (sendAll (.appendEntriesReq a.self s.term) s a.getPeers)
      else some s
  | .api c cb => some (s.call (signOff cb) c)

/-- `handle` on one event after another. -/
def handleAll (a : Actor) (cb : Callbacks) : RaftFSM → List RaftEvent → Except Fault RaftFSM
  | s, [] => .ok s
  | s, event :: rest => (handle a cb s event).bind fun s => handleAll a cb s rest

/-- The entries that lead from the trace of `s` to that of `s'`. -/
def newEntries (s s' : RaftFSM) : List Entry := s'.trace.take (s'.trace.length - s.trace.length)

end RaftFSM

/-- A machine against any events, calls of its tasks and calls of the API. -/
def machineSystem (a : Actor) : Transition.System RaftFSM MachineAction :=
  .ofFun RaftFSM.started (RaftFSM.step a)

structure Watched where
  fsm : RaftFSM := RaftFSM.started
  /-- `stay_follower` or `block` has been called since the node last entered role
  candidate, or since the start. -/
  stayed : Bool := false
  deriving DecidableEq

namespace Watched

/-- The step called `stay_follower` or `block`, itself or in a callback. -/
def parks (x : MachineAction) (entries : List Entry) : Bool :=
  (match x with
    | .api c _ => c.parks
    | _ => false) || x.callbacks.parksIn entries

def step (a : Actor) (w : Watched) (x : MachineAction) : Option Watched :=
  (w.fsm.step a x).map fun s =>
    { fsm := s
      stayed :=
        if s.role = .candidate ∧ w.fsm.role ≠ .candidate then false
        else w.stayed || parks x (w.fsm.newEntries s) }

end Watched

def watchedSystem (a : Actor) : Transition.System Watched MachineAction :=
  .ofFun {} (Watched.step a)

namespace RaftFSM

def getLeader (s : RaftFSM) : UInt64 := s.leader

/-- A heartbeat that the machine takes for one of its leader's: not an old one, and not one
that finds it the leader of that term itself. -/
def Heeds (s : RaftFSM) : NetEvent → Prop
  | .appendEntriesReq _ term =>
      s.blocked = false ∧ s.term ≤ term ∧ ¬ (s.role = .leader ∧ term = s.term)
  | _ => False

instance (s : RaftFSM) : ∀ e, Decidable (s.Heeds e)
  | .appendEntriesReq .. => inferInstanceAs (Decidable (_ ∧ _ ∧ ¬ (_ ∧ _)))
  | .appendEntriesRes .. | .requestVoteReq .. | .requestVoteRes .. => isFalse id

end RaftFSM

structure Informed where
  fsm : RaftFSM := RaftFSM.started
  /-- Sender and term of the last heartbeat that was heeded. -/
  heard : Option (UInt64 × UInt64) := none
  deriving DecidableEq

namespace Informed

def step (a : Actor) (n : Informed) (x : MachineAction) : Option Informed :=
  (n.fsm.step a x).map fun s =>
    { fsm := s
      heard :=
        match x with
        | .handle (.net e) _ =>
            if n.fsm.Heeds e then some (e.getServerId, e.getTerm) else n.heard
        | _ => n.heard }

/-- The node knows a leader of its current term: itself, or the one it follows. -/
def knows (a : Actor) (n : Informed) : Option UInt64 :=
  match n.fsm.role with
  | .leader => some a.self
  | .follower => n.heard.bind fun (id, term) => if term = n.fsm.term then some id else none
  | .candidate => none

end Informed

def informedSystem (a : Actor) : Transition.System Informed MachineAction :=
  .ofFun {} (Informed.step a)

end Raft
