/-
The state machine of `fsm.hpp`.

`RaftFSM` holds the fields of the class.  The handle of a timer is reduced to what
the machine can see of it: whether the `Task` behind it is paused or cancelled, and
how often `reset` has put a fresh one there.  To these fields the model adds a
`trace` of what the machine did, latest entry first: what it received and sent,
when it stood for election, voted for itself or became leader, and which callbacks
it invoked.  No function reads the trace.

A callback is modelled by the calls it makes back into the machine.  A step is
given the calls each callback makes during that step, so callbacks may differ from
one invocation to the next.  They may re-enter the conversion they are invoked
from: `on_become_leader` may call `stay_follower`, which demotes the leader and
invokes `on_sign_off_leader`.  The nesting ends there, since the second callback
finds a machine that is no longer leader; `signOff_reentrant` in
`Proofs/Fsm.lean` is the proof that tying the knot at that depth loses nothing.
-/
import RaftElection.Actor
import RaftElection.Protocol

namespace Raft

/-! ### Data -/

inductive RaftRole where
  | follower
  | candidate
  | leader
  deriving DecidableEq

/-- The events `handle` takes: the four kinds from the wire and `ElectionTimeoutEvent`,
whose id and term are zero. -/
inductive RaftEvent where
  | net (e : NetEvent)
  | electionTimeout
  deriving DecidableEq

namespace RaftEvent

def getTerm : RaftEvent → UInt64
  | net e => e.getTerm
  | electionTimeout => 0

end RaftEvent

structure Voter where
  lastVoted : UInt64 := 0
  lastVotedTerm : UInt64 := 0
  deriving DecidableEq

/-- Whether the request is accepted, and the record after it. -/
def Voter.voteForLeader (v : Voter) (serverId term : UInt64) : Bool × Voter :=
  if term < v.lastVotedTerm then (false, v)
  else if term = v.lastVotedTerm then
    if serverId = v.lastVoted then (true, v) else (false, v)
  else (true, { lastVoted := serverId, lastVotedTerm := term })

/-- What a `ScheduledTask` shows of the `Task` it holds. -/
structure Timer where
  paused : Bool := false
  cancelled : Bool := false
  resets : Nat := 0
  deriving DecidableEq

namespace Timer

def pause (t : Timer) : Timer := { t with paused := true }

def resume (t : Timer) : Timer := { t with paused := false }

/-- The new `Task` takes over both flags. -/
def reset (t : Timer) : Timer := { t with resets := t.resets + 1 }

/-- `start_heartbeat` and `start_election_timeout`: schedule the task once, resume it
from then on. -/
def start : Option Timer → Option Timer
  | none => some {}
  | some t => some t.resume

/-- `stop_heartbeat` and `stop_election_timeout`. -/
def stop (t : Option Timer) : Option Timer := t.map pause

/-- `Task::call` goes on to the callable. -/
def Live (t : Option Timer) : Prop := ∃ task, t = some task ∧ task.paused = false ∧
  task.cancelled = false

instance (t : Option Timer) : Decidable (Live t) :=
  match t with
  | none => isFalse (by rintro ⟨_, h, _⟩; cases h)
  | some task => decidable_of_iff (task.paused = false ∧ task.cancelled = false)
      ⟨fun h => ⟨task, rfl, h⟩, by rintro ⟨_, h, hlive⟩; cases h; exact hlive⟩

end Timer

/-- What the trace records. -/
inductive Entry where
  | received (e : NetEvent)
  | sent (peer : UInt64) (e : NetEvent)
  | stood (term : UInt64)
  | votedSelf (term : UInt64)
  | becameLeader (term : UInt64)
  | onBecomeLeader
  | onSignOffLeader
  deriving DecidableEq

structure RaftFSM where
  blocked : Bool := false
  role : RaftRole := .follower
  term : UInt64 := 0
  leader : UInt64 := -1
  voter : Voter := {}
  electionTimeoutTask : Option Timer := none
  votedPeers : Finset UInt64 := ∅
  heartbeatTask : Option Timer := none
  trace : List Entry := []
  deriving DecidableEq

/-- A null pointer the machine dereferences. -/
inductive Fault where
  | nullPeer
  | nullTask
  deriving DecidableEq

/-- A call that a callback, or anyone else, may make on the machine. -/
inductive ApiCall where
  | block
  | unblock
  | stayFollower
  deriving DecidableEq

/-- The calls the callbacks make in one step; `none` is an empty `std::function`. -/
structure Callbacks where
  onBecomeLeader : Option (List ApiCall) := none
  onSignOffLeader : Option (List ApiCall) := none
  deriving DecidableEq

namespace RaftFSM

def emit (s : RaftFSM) (o : Entry) : RaftFSM := { s with trace := o :: s.trace }

/-! ### Timers and role-specific state -/

def startHeartbeat (s : RaftFSM) : RaftFSM :=
  { s with heartbeatTask := Timer.start s.heartbeatTask }

def stopHeartbeat (s : RaftFSM) : RaftFSM :=
  { s with heartbeatTask := Timer.stop s.heartbeatTask }

def startElectionTimeout (s : RaftFSM) : RaftFSM :=
  { s with electionTimeoutTask := Timer.start s.electionTimeoutTask }

def stopElectionTimeout (s : RaftFSM) : RaftFSM :=
  { s with electionTimeoutTask := Timer.stop s.electionTimeoutTask }

def pauseScheduledTasks (s : RaftFSM) : RaftFSM := stopHeartbeat (stopElectionTimeout s)

/-- `election_timeout_task_->reset()`. -/
def resetElectionTimeout (s : RaftFSM) : Except Fault RaftFSM :=
  match s.electionTimeoutTask with
  | none => .error .nullTask
  | some t => .ok { s with electionTimeoutTask := some t.reset }

def incTerm (s : RaftFSM) : RaftFSM := { s with term := s.term + 1 }

def initFollowerState (s : RaftFSM) : RaftFSM := startElectionTimeout s

def clearFollowerState (s : RaftFSM) : RaftFSM := s

def clearCandidateState (s : RaftFSM) : RaftFSM :=
  { stopElectionTimeout s with votedPeers := ∅ }

def initLeaderState (s : RaftFSM) : RaftFSM := startHeartbeat s

def clearLeaderState (s : RaftFSM) : RaftFSM := stopHeartbeat s

def clearPrevState (s : RaftFSM) : RaftFSM :=
  match s.role with
  | .follower => clearFollowerState s
  | .candidate => clearCandidateState s
  | .leader => clearLeaderState s

def voteSelf (a : Actor) (s : RaftFSM) : RaftFSM :=
  let vote := s.voter.voteForLeader a.self s.term
  let s := { s with voter := vote.2 }
  if vote.1 then { s.emit (.votedSelf s.term) with votedPeers := insert a.self s.votedPeers }
  else s

def sendAll (e : NetEvent) (s : RaftFSM) (peers : List UInt64) : RaftFSM :=
  peers.foldl (fun s peer => s.emit (.sent peer e)) s

def requestVoteForSelf (a : Actor) (s : RaftFSM) : RaftFSM :=
  sendAll (.requestVoteReq a.self s.term) s a.getPeers

def initCandidateState (a : Actor) (s : RaftFSM) : RaftFSM :=
  requestVoteForSelf a (voteSelf a (startElectionTimeout s))

/-! ### Conversions and the calls of the API -/

/-- `convert_to_follower`, with what `on_sign_off_leader` does as an argument. -/
def convertToFollower (signOff : RaftFSM → RaftFSM) (s : RaftFSM) : RaftFSM :=
  if s.role = .follower then s
  else
    let next := initFollowerState { clearPrevState s with role := .follower }
    if s.role = .leader then signOff next else next

def stayFollower (signOff : RaftFSM → RaftFSM) (s : RaftFSM) : RaftFSM :=
  pauseScheduledTasks (convertToFollower signOff s)

def block (signOff : RaftFSM → RaftFSM) (s : RaftFSM) : RaftFSM :=
  { stayFollower signOff s with blocked := true }

def unblock (s : RaftFSM) : RaftFSM := { s with blocked := false }

/-- One call of the API. -/
def call (signOff : RaftFSM → RaftFSM) (s : RaftFSM) : ApiCall → RaftFSM
  | .block => block signOff s
  | .unblock => unblock s
  | .stayFollower => stayFollower signOff s

/-- `options_.on_sign_off_leader`.  The machine is no longer leader when it runs, so
the calls it makes do not reach the callback again. -/
def signOff (cb : Callbacks) (s : RaftFSM) : RaftFSM :=
  match cb.onSignOffLeader with
  | none => s
  | some calls => calls.foldl (call id) (s.emit .onSignOffLeader)

/-- `options_.on_become_leader`. -/
def becomeLeader (cb : Callbacks) (s : RaftFSM) : RaftFSM :=
  match cb.onBecomeLeader with
  | none => s
  | some calls => calls.foldl (call (signOff cb)) (s.emit .onBecomeLeader)

def convertToCandidate (a : Actor) (cb : Callbacks) (s : RaftFSM) : RaftFSM :=
  let next := { incTerm (clearPrevState s) with role := .candidate }
  let next := initCandidateState a (next.emit (.stood next.term))
  if s.role = .leader then signOff cb next else next

def convertToLeader (cb : Callbacks) (s : RaftFSM) : RaftFSM :=
  let next := { incTerm (clearPrevState s) with role := .leader }
  becomeLeader cb (initLeaderState (next.emit (.becameLeader next.term)))

def startNewElection (a : Actor) (s : RaftFSM) : RaftFSM :=
  if s.role = .candidate then
    let next := incTerm s
    initCandidateState a (clearCandidateState (next.emit (.stood next.term)))
  else s

/-! ### Event handlers -/

/-- `get_actor()->send(r, *peer_address(event))`. -/
def reply (a : Actor) (s : RaftFSM) (serverId : UInt64) (e : NetEvent) : Except Fault RaftFSM :=
  match a.getPeer serverId with
  | none => .error .nullPeer
  | some peer => .ok (s.emit (.sent peer e))

/-- The vote of `handle_request_vote` and the reply that carries it. -/
def voteAndReply (a : Actor) (s : RaftFSM) (serverId term : UInt64) : Except Fault RaftFSM :=
  let vote := s.voter.voteForLeader serverId term
  reply a { s with voter := vote.2 } serverId (.requestVoteRes a.self s.term vote.1)

def handleRequestVote (a : Actor) (s : RaftFSM) (serverId term : UInt64) :
    Except Fault RaftFSM :=
  if term < s.term then reply a s serverId (.requestVoteRes a.self s.term false)
  else if s.role = .follower then
    (resetElectionTimeout s).bind fun s => voteAndReply a s serverId term
  else voteAndReply a s serverId term

def handleRequestVoteResponse (a : Actor) (cb : Callbacks) (s : RaftFSM)
    (serverId term : UInt64) (voteGranted : Bool) : RaftFSM :=
  if term < s.term then s
  else if s.role = .candidate ∧ voteGranted = true then
    let s := { s with votedPeers := insert serverId s.votedPeers }
    if a.majority ≤ s.votedPeers.card then convertToLeader cb s else s
  else s

/-- `is_heartbeat` is constantly true, so the branch that throws is never taken. -/
def handleAppendEntries (a : Actor) (cb : Callbacks) (s : RaftFSM) (serverId term : UInt64) :
    Except Fault RaftFSM :=
  if term < s.term then reply a s serverId (.appendEntriesRes a.self s.term)
  else if s.role = .leader then reply a s serverId (.appendEntriesRes a.self s.term)
  else
    (resetElectionTimeout s).bind fun s =>
      let s := if s.role = .candidate then convertToFollower (signOff cb) s else s
      reply a s serverId (.appendEntriesRes a.self s.term)

def handleElectionTimeout (a : Actor) (cb : Callbacks) (s : RaftFSM) : RaftFSM :=
  match s.role with
  | .follower => convertToCandidate a cb s
  | .candidate => startNewElection a s
  | .leader => s

/-- The rule for all events: a higher term is adopted and ends any other role. -/
def adoptTerm (cb : Callbacks) (s : RaftFSM) (term : UInt64) : RaftFSM :=
  if s.term < term then convertToFollower (signOff cb) { s with term := term } else s

def handle (a : Actor) (cb : Callbacks) (s : RaftFSM) (event : RaftEvent) :
    Except Fault RaftFSM :=
  if s.blocked then .ok s
  else
    let s := adoptTerm cb s event.getTerm
    match event with
    | .net (.requestVoteReq serverId term) => handleRequestVote a s serverId term
    | .net (.requestVoteRes serverId term voteGranted) =>
        .ok (handleRequestVoteResponse a cb s serverId term voteGranted)
    | .net (.appendEntriesReq serverId term) => handleAppendEntries a cb s serverId term
    | .net (.appendEntriesRes ..) => .ok s
    | .electionTimeout => .ok (handleElectionTimeout a cb s)

/-- The switch of `handle` on the type of the event. -/
def dispatch (a : Actor) (cb : Callbacks) (s : RaftFSM) : RaftEvent → Except Fault RaftFSM
  | .net (.requestVoteReq serverId term) => handleRequestVote a s serverId term
  | .net (.requestVoteRes serverId term voteGranted) =>
      .ok (handleRequestVoteResponse a cb s serverId term voteGranted)
  | .net (.appendEntriesReq serverId term) => handleAppendEntries a cb s serverId term
  | .net (.appendEntriesRes ..) => .ok s
  | .electionTimeout => .ok (handleElectionTimeout a cb s)

/-- `handle` from its lock on, with the test of `blocked_` behind it. -/
def handleLocked (a : Actor) (cb : Callbacks) (s : RaftFSM) (event : RaftEvent) :
    Except Fault RaftFSM :=
  dispatch a cb (adoptTerm cb s event.getTerm) event

/-- The state `RaftFSM::start` leaves, before the first event. -/
def started : RaftFSM := initFollowerState {}

end RaftFSM

end Raft
