/-
The two threads of a node and the mutexes they meet on.

`Fsm.lean` says what a handler does; this file says how it gets there.  Every call
the handlers make on `scheduler_` or on one of the two `ScheduledTask`s is listed
in the order of the source (`handleCalls`, with one definition for each function of
`fsm.hpp` that makes such calls), and each call is spelled out in acquisitions and
releases.  Around them stand the lock of `handle`, and on the scheduler thread the
lock of the whole pass and that of the task being called.

A handler's effect on the machine is one step, taken when it holds `handler_mtx_`:
nothing but a handler writes those fields here.  What it does to the timers is
spread over the calls, since `Task::call` tests their flags under no common lock.
Where a handler dereferences a null pointer it does so after its calls.
-/
import RaftElection.Library.Transition
import RaftElection.Library.Locks
import RaftElection.Fsm

namespace Raft

/-! ### Calls on the timers -/

inductive TimerKind where
  | election
  | heartbeat
  deriving DecidableEq

/-- A call on `scheduler_` or on one of the `ScheduledTask`s. -/
inductive TimerCall where
  | schedule (k : TimerKind)
  | pause (k : TimerKind)
  | resume (k : TimerKind)
  | reset (k : TimerKind)
  deriving DecidableEq

/-- What such a call does on the way.  `reset` cancels the old task before it has the
lock under which it pushes the new one. -/
inductive TimerOp where
  | schedule (k : TimerKind)
  | pause (k : TimerKind)
  | resume (k : TimerKind)
  | retire (k : TimerKind)
  | replace (k : TimerKind)
  deriving DecidableEq

/-- The timers as `Task::call` finds them. -/
structure Timers where
  task : TimerKind → Option Timer
  /-- The old task is cancelled and the new one not yet pushed. -/
  retired : TimerKind → Bool

namespace Timers

def setTask (t : Timers) (k : TimerKind) (task : Option Timer) : Timers :=
  { t with task := Function.update t.task k task }

def setRetired (t : Timers) (k : TimerKind) (b : Bool) : Timers :=
  { t with retired := Function.update t.retired k b }

def apply (t : Timers) : TimerOp → Timers
  | .schedule k => t.setTask k (some {})
  | .pause k => t.setTask k ((t.task k).map Timer.pause)
  | .resume k => t.setTask k ((t.task k).map Timer.resume)
  | .retire k => t.setRetired k true
  | .replace k => (t.setTask k ((t.task k).map Timer.reset)).setRetired k false

/-- `Task::call` goes on to the callable of this timer. -/
def Fires (t : Timers) (k : TimerKind) : Prop := Timer.Live (t.task k) ∧ t.retired k = false

instance (t : Timers) (k : TimerKind) : Decidable (t.Fires k) :=
  inferInstanceAs (Decidable (_ ∧ _))

end Timers

/-- The timers of the machine between calls. -/
def RaftFSM.timers (s : RaftFSM) : Timers where
  task
    | .election => s.electionTimeoutTask
    | .heartbeat => s.heartbeatTask
  retired _ := false

namespace RaftFSM

/-! ### The calls of each function of the machine -/

/-- `start_election_timeout` and `start_heartbeat`. -/
def startCalls (k : TimerKind) : Option Timer → List TimerCall
  | none => [.schedule k]
  | some _ => [.resume k]

/-- `stop_election_timeout` and `stop_heartbeat`. -/
def stopCalls (k : TimerKind) : Option Timer → List TimerCall
  | none => []
  | some _ => [.pause k]

def pauseScheduledTasksCalls (s : RaftFSM) : List TimerCall :=
  stopCalls .election s.electionTimeoutTask ++ stopCalls .heartbeat s.heartbeatTask

def clearPrevStateCalls (s : RaftFSM) : List TimerCall :=
  match s.role with
  | .follower => []
  | .candidate => stopCalls .election s.electionTimeoutTask
  | .leader => stopCalls .heartbeat s.heartbeatTask

def initFollowerStateCalls (s : RaftFSM) : List TimerCall :=
  startCalls .election s.electionTimeoutTask

def convertToFollowerCalls (signOffCalls : RaftFSM → List TimerCall) (s : RaftFSM) :
    List TimerCall :=
  if s.role = .follower then []
  else
    let next := { clearPrevState s with role := .follower }
    clearPrevStateCalls s ++ initFollowerStateCalls next ++
      if s.role = .leader then signOffCalls (initFollowerState next) else []

def stayFollowerCalls (signOff : RaftFSM → RaftFSM) (signOffCalls : RaftFSM → List TimerCall)
    (s : RaftFSM) : List TimerCall :=
  convertToFollowerCalls signOffCalls s ++ pauseScheduledTasksCalls (convertToFollower signOff s)

def callCalls (signOff : RaftFSM → RaftFSM) (signOffCalls : RaftFSM → List TimerCall)
    (s : RaftFSM) : ApiCall → List TimerCall
  | .block | .stayFollower => stayFollowerCalls signOff signOffCalls s
  | .unblock => []

/-- The calls a callback makes, one after another. -/
def callbackCalls (signOff : RaftFSM → RaftFSM) (signOffCalls : RaftFSM → List TimerCall) :
    RaftFSM → List ApiCall → List TimerCall
  | _, [] => []
  | s, c :: rest =>
      callCalls signOff signOffCalls s c ++ callbackCalls signOff signOffCalls (call signOff s c) rest

def signOffCalls (cb : Callbacks) (s : RaftFSM) : List TimerCall :=
  match cb.onSignOffLeader with
  | none => []
  | some calls => callbackCalls id (fun _ => []) (s.emit .onSignOffLeader) calls

def becomeLeaderCalls (cb : Callbacks) (s : RaftFSM) : List TimerCall :=
  match cb.onBecomeLeader with
  | none => []
  | some calls => callbackCalls (signOff cb) (signOffCalls cb) (s.emit .onBecomeLeader) calls

def convertToLeaderCalls (cb : Callbacks) (s : RaftFSM) : List TimerCall :=
  let next := { incTerm (clearPrevState s) with role := .leader }
  let next := next.emit (.becameLeader next.term)
  clearPrevStateCalls s ++ startCalls .heartbeat next.heartbeatTask ++
    becomeLeaderCalls cb (initLeaderState next)

/-- `convert_to_candidate` and `start_new_election`: both clear the role's state and start
the election timer.  Neither is entered by a leader, so no callback follows. -/
def candidacyCalls (s : RaftFSM) : List TimerCall :=
  clearPrevStateCalls s ++ startCalls .election (clearPrevState s).electionTimeoutTask

def handleRequestVoteCalls (s : RaftFSM) (term : UInt64) : List TimerCall :=
  if term < s.term then [] else if s.role = .follower then [.reset .election] else []

def handleRequestVoteResponseCalls (a : Actor) (cb : Callbacks) (s : RaftFSM)
    (serverId term : UInt64) (voteGranted : Bool) : List TimerCall :=
  if term < s.term then []
  else if s.role = .candidate ∧ voteGranted = true then
    let s := { s with votedPeers := insert serverId s.votedPeers }
    if a.majority ≤ s.votedPeers.card then convertToLeaderCalls cb s else []
  else []

def handleAppendEntriesCalls (cb : Callbacks) (s : RaftFSM) (term : UInt64) : List TimerCall :=
  if term < s.term then []
  else if s.role = .leader then []
  else
    let next := { s with electionTimeoutTask := s.electionTimeoutTask.map Timer.reset }
    .reset .election ::
      if s.role = .candidate then convertToFollowerCalls (signOffCalls cb) next else []

def handleElectionTimeoutCalls (s : RaftFSM) : List TimerCall :=
  match s.role with
  | .follower | .candidate => candidacyCalls s
  | .leader => []

def adoptTermCalls (cb : Callbacks) (s : RaftFSM) (term : UInt64) : List TimerCall :=
  if s.term < term then convertToFollowerCalls (signOffCalls cb) { s with term := term } else []

/-- The calls `handle` makes once it holds its lock. -/
def handleCalls (a : Actor) (cb : Callbacks) (s : RaftFSM) (event : RaftEvent) : List TimerCall :=
  adoptTermCalls cb s event.getTerm ++
    let s := adoptTerm cb s event.getTerm
    match event with
    | .net (.requestVoteReq _ term) => handleRequestVoteCalls s term
    | .net (.requestVoteRes serverId term voteGranted) =>
        handleRequestVoteResponseCalls a cb s serverId term voteGranted
    | .net (.appendEntriesReq _ term) => handleAppendEntriesCalls cb s term
    | .net (.appendEntriesRes ..) => []
    | .electionTimeout => handleElectionTimeoutCalls s

end RaftFSM

/-! ### Mutexes and programs -/

/-- `Scheduler::mtx`, `handler_mtx_`, and for each timer `Task::mtx_` and
`ScheduledTask::mtx_`. -/
inductive Mutex where
  | scheduler
  | handler
  | task (k : TimerKind)
  | scheduledTask (k : TimerKind)
  deriving DecidableEq

inductive Thread where
  | scheduler
  | server
  deriving DecidableEq

instance : Fintype Thread where
  elems := {.scheduler, .server}
  complete := by
    intro t
    cases t <;> decide

/-- What a thread does between lock operations. -/
inductive Act where
  | timer (o : TimerOp)
  /-- The test of `Task::call`. -/
  | check (k : TimerKind) (cb : Callbacks)
  /-- The test of `blocked_` in `handle`. -/
  | enter (event : RaftEvent) (cb : Callbacks)
  /-- `handle` with its lock held, which does not test `blocked_` again. -/
  | body (event : RaftEvent) (cb : Callbacks)
  /-- A null pointer is dereferenced. -/
  | crash
  deriving DecidableEq

abbrev ThreadOp := Locks.Op Mutex Act

def TimerCall.ops : TimerCall → List ThreadOp
  | .schedule k => [.acquire .scheduler, .act (.timer (.schedule k)), .release .scheduler]
  | .pause k =>
      [.acquire (.scheduledTask k), .act (.timer (.pause k)), .release (.scheduledTask k)]
  | .resume k =>
      [.acquire (.scheduledTask k), .act (.timer (.resume k)), .release (.scheduledTask k)]
  | .reset k =>
      [.acquire (.scheduledTask k), .act (.timer (.retire k)),
        .acquire .scheduler, .act (.timer (.replace k)), .release .scheduler,
        .release (.scheduledTask k)]

/-- A due task that is not cancelled: `call`, then `renew`. -/
def fireOps (cb : Callbacks) (k : TimerKind) : List ThreadOp :=
  [.acquire (.task k), .act (.check k cb), .release (.task k),
    .acquire (.task k), .release (.task k)]

/-- The executor from taking `mtx` to releasing it, over the tasks it finds due. -/
def passOps (cb : Callbacks) (due : List TimerKind) : List ThreadOp :=
  .acquire .scheduler :: (due.flatMap (fireOps cb) ++ [.release .scheduler])

/-- What the callable of a timer enters.  The heartbeat callable only sends. -/
def callableOps (cb : Callbacks) : TimerKind → List ThreadOp
  | .election => [.act (.enter .electionTimeout cb)]
  | .heartbeat => []

/-- `handle` for an event, once the node is found unblocked. -/
def handleOps (event : RaftEvent) (cb : Callbacks) : List ThreadOp :=
  [.acquire .handler, .act (.body event cb), .release .handler]

/-! ### The step relation -/

structure NodeThreads where
  fsm : RaftFSM := RaftFSM.started
  timers : Timers := RaftFSM.started.timers
  threads : Locks.Threads Thread Mutex Act :=
    { locks := Locks.Holding.empty, program := fun _ => [] }

inductive ThreadAction where
  /-- The server thread takes up an event. -/
  | receive (e : NetEvent) (cb : Callbacks)
  /-- The executor starts on the tasks that are due. -/
  | pass (due : List TimerKind) (cb : Callbacks)
  /-- A thread does its next step. -/
  | step (t : Thread)
  deriving DecidableEq

namespace NodeThreads

/-- A thread does something of its own, with `rest` still to come. -/
def act (a : Actor) (n : NodeThreads) (t : Thread) (rest : List ThreadOp) : Act → Option NodeThreads
  | .timer o => some { n with timers := n.timers.apply o, threads := n.threads.setProgram t rest }
  | .check k cb =>
      some { n with
        threads := n.threads.setProgram t
          (if n.timers.Fires k then callableOps cb k ++ rest else rest) }
  | .enter event cb =>
      some { n with
        threads := n.threads.setProgram t
          (if n.fsm.blocked then rest else handleOps event cb ++ rest) }
  | .body event cb =>
      let calls := (n.fsm.handleCalls a cb event).flatMap TimerCall.ops
      match RaftFSM.handleLocked a cb n.fsm event with
      | .ok s => some { n with fsm := s, threads := n.threads.setProgram t (calls ++ rest) }
      | .error _ => some { n with threads := n.threads.setProgram t (calls ++ .act .crash :: rest) }
  | .crash => none

def step (a : Actor) (n : NodeThreads) : ThreadAction → Option NodeThreads
  | .receive e cb =>
      if n.threads.program .server = [] then
        some { n with threads := n.threads.setProgram .server [.act (.enter (.net e) cb)] }
      else none
  | .pass due cb =>
      if n.threads.program .scheduler = [] then
        some { n with threads := n.threads.setProgram .scheduler (passOps cb due) }
      else none
  | .step t =>
      match n.threads.program t with
      | .act i :: rest => act a n t rest i
      | _ => (n.threads.lockStep t).map fun threads => { n with threads := threads }

end NodeThreads

def threadSystem (a : Actor) : Transition.System NodeThreads ThreadAction :=
  .ofFun {} (NodeThreads.step a)

end Raft
