/-
A node whose `handle` and `block` are taken apart.

`handle` tests `blocked_` before it takes `handler_mtx_`, and `block` takes no lock at
all: it converts to follower, pauses the timers, and stores `blocked_` last.  So an
event may be admitted before a block and handled after it, and a block may be
overtaken between any two of its statements.  Here each of these is a step:

- the server thread loads `blocked_`, and later runs the rest of `handle`;
- the scheduler thread passes the test of `Task::call`, loads `blocked_` if it is an
  election timeout, and later runs the rest; a heartbeat loads nothing and sends to one
  peer after another;
- any number of user threads call `stay_follower`, `block` and `unblock`.

What stands under `handler_mtx_` is one step, and so is `convert_to_follower` with the
callback it invokes.
-/
import Mathlib.Logic.Function.Basic
import RaftElection.Library.Transition
import RaftElection.Fsm

namespace Raft

/-- Where the server thread stands. -/
inductive ServerPc where
  | idle
  /-- This event found `blocked_` false and has not taken the lock yet. -/
  | admitted (e : NetEvent)
  deriving DecidableEq

/-- Where the scheduler thread stands. -/
inductive TaskPc where
  | idle
  /-- An election timeout passed the test of `Task::call`. -/
  | fired
  /-- It found `blocked_` false as well and has not taken the lock yet. -/
  | admitted
  /-- The heartbeat loop still has these peers to send to. -/
  | beating (rest : List UInt64)
  deriving DecidableEq

def TaskPc.loop : List UInt64 → TaskPc
  | [] => .idle
  | peer :: rest => .beating (peer :: rest)

/-- Where a user thread stands. -/
inductive CallerPc where
  | idle
  /-- In `stay_follower`, which `block` may have called, before `pause_scheduled_tasks`. -/
  | converted (blocking : Bool)
  /-- In `block`, before `blocked_` is stored. -/
  | paused
  deriving DecidableEq

/-- A `block` has converted to follower and not stored the flag. -/
def CallerPc.blocking : CallerPc → Bool
  | .idle => false
  | .converted blocking => blocking
  | .paused => true

structure SplitNode (τ : Type) where
  fsm : RaftFSM := RaftFSM.started
  server : ServerPc := .idle
  scheduler : TaskPc := .idle
  caller : τ → CallerPc := fun _ => .idle

inductive SplitAction (τ : Type) where
  | receive (e : NetEvent)
  | serve (cb : Callbacks)
  | expire
  | enter
  | timeout (cb : Callbacks)
  | beat
  | sendHeartbeat
  | convert (t : τ) (blocking : Bool) (cb : Callbacks)
  | pause (t : τ)
  | store (t : τ)
  | unblock (t : τ)

namespace SplitNode

variable {τ : Type} [DecidableEq τ]

/-- One step; `none` where the thread is elsewhere, or the machine dereferences a null
pointer.  `receive` is `handle` up to its lock and `serve` the rest of it; `enter` and
`timeout` are the same two parts for an election timeout. -/
def step (a : Actor) (n : SplitNode τ) : SplitAction τ → Option (SplitNode τ)
  | .receive e =>
      if n.server = .idle then
        some { n with
          fsm := n.fsm.emit (.received e)
          server := if n.fsm.blocked then .idle else .admitted e }
      else none
  | .serve cb =>
      match n.server with
      | .admitted e =>
          match RaftFSM.handleLocked a cb n.fsm (.net e) with
          | .ok s => some { n with fsm := s, server := .idle }
          | .error _ => none
      | .idle => none
  | .expire =>
      if n.scheduler = .idle ∧ Timer.Live n.fsm.electionTimeoutTask then
        some { n with scheduler := .fired }
      else none
  | .enter =>
      if n.scheduler = .fired then
        some { n with scheduler := if n.fsm.blocked then .idle else .admitted }
      else none
  | .timeout cb =>
      if n.scheduler = .admitted then
        match RaftFSM.handleLocked a cb n.fsm .electionTimeout with
        | .ok s => some { n with fsm := s, scheduler := .idle }
        | .error _ => none
      else none
  | .beat =>
      if n.scheduler = .idle ∧ Timer.Live n.fsm.heartbeatTask then
        some { n with scheduler := .loop a.getPeers }
      else none
  | .sendHeartbeat =>
      match n.scheduler with
      | .beating (peer :: rest) =>
          some { n with
            fsm := n.fsm.emit (.sent peer (.appendEntriesReq a.self n.fsm.term))
            scheduler := .loop rest }
      | _ => none
  | .convert t blocking cb =>
      if n.caller t = .idle then
        some { n with
          fsm := RaftFSM.convertToFollower (RaftFSM.signOff cb) n.fsm
          caller := Function.update n.caller t (.converted blocking) }
      else none
  | .pause t =>
      match n.caller t with
      | .converted blocking =>
          some { n with
            fsm := n.fsm.pauseScheduledTasks
            caller := Function.update n.caller t (if blocking then .paused else .idle) }
      | _ => none
  | .store t =>
      if n.caller t = .paused then
        some { n with
          fsm := { n.fsm with blocked := true }
          caller := Function.update n.caller t .idle }
      else none
  | .unblock t =>
      if n.caller t = .idle then some { n with fsm := n.fsm.unblock } else none

end SplitNode

/-- A node against any interleaving of its threads. -/
def splitSystem (a : Actor) (τ : Type) [DecidableEq τ] :
    Transition.System (SplitNode τ) (SplitAction τ) :=
  .ofFun {} (SplitNode.step a)

end Raft
