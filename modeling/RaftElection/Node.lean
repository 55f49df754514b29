/-
One node: its state machine and the scheduler thread that drives its timers.

The server thread enters the machine through `handle`, under `handler_mtx_`, and a
call of the API may come from any thread at any time; each of these is one step.
The scheduler thread is finer.  `Task::call` tests the flags of a task once and
then runs its callable, and between that test and what the callable does the other
threads may move:

- an election timeout that passed the test still has to enter `handle`;
- a heartbeat that passed it sends to one peer after another, and reads `term_`
  afresh for each, without taking `handler_mtx_`.

There is one scheduler thread, so at most one callable is under way.  Timers carry
no clock here: a live one may fire at any time.
-/
import RaftElection.Library.Transition
import RaftElection.Fsm

namespace Raft

/-- Where the scheduler thread stands. -/
inductive SchedulerPc where
  | idle
  /-- An election timeout passed the test of `Task::call` and has not entered `handle`. -/
  | timingOut
  /-- The heartbeat loop still has these peers to send to. -/
  | beating (rest : List UInt64)
  deriving DecidableEq

/-- The loop of the heartbeat callable, at its end when no peer is left. -/
def SchedulerPc.loop : List UInt64 → SchedulerPc
  | [] => .idle
  | peer :: rest => .beating (peer :: rest)

structure Node where
  fsm : RaftFSM := RaftFSM.started
  pc : SchedulerPc := .idle
  deriving DecidableEq

inductive NodeAction where
  | deliver (e : NetEvent) (cb : Callbacks)
  | expire
  | timeout (cb : Callbacks)
  | beat
  | sendHeartbeat
  | api (c : ApiCall) (cb : Callbacks)
  deriving DecidableEq

/-- What a node does by itself, with `cb` for its callbacks: everything but a call of the
API. -/
def NodeAction.Own (cb : Callbacks) : NodeAction → Prop
  | .deliver _ cb' | .timeout cb' => cb' = cb
  | .api .. => False
  | .expire | .beat | .sendHeartbeat => True

instance (cb : Callbacks) (act : NodeAction) : Decidable (act.Own cb) :=
  match act with
  | .deliver _ cb' | .timeout cb' => inferInstanceAs (Decidable (cb' = cb))
  | .api .. => isFalse id
  | .expire | .beat | .sendHeartbeat => isTrue trivial

namespace Node

/-- One step; `none` where it is not enabled, or the machine dereferences a null
pointer and has no next state. -/
def step (a : Actor) (n : Node) : NodeAction → Option Node
  | .deliver e cb =>
      match RaftFSM.handle a cb (n.fsm.emit (.received e)) (.net e) with
      | .ok s => some { n with fsm := s }
      | .error _ => none
  | .expire =>
      if n.pc = .idle ∧ Timer.Live n.fsm.electionTimeoutTask then
        some { n with pc := .timingOut }
      else none
  | .timeout cb =>
      if n.pc = .timingOut then
        match RaftFSM.handle a cb n.fsm .electionTimeout with
        | .ok s => some { fsm := s, pc := .idle }
        | .error _ => none
      else none
  | .beat =>
      if n.pc = .idle ∧ Timer.Live n.fsm.heartbeatTask then
        some { n with pc := .loop a.getPeers }
      else none
  | .sendHeartbeat =>
      match n.pc with
      | .beating (peer :: rest) =>
          some {
            fsm := n.fsm.emit (.sent peer (.appendEntriesReq a.self n.fsm.term))
            pc := .loop rest }
      | _ => none
  | .api c cb => some { n with fsm := n.fsm.call (RaftFSM.signOff cb) c }

end Node

/-- A single node against any history of events, timeouts and calls. -/
def nodeSystem (a : Actor) : Transition.System Node NodeAction :=
  .ofFun {} (Node.step a)

end Raft
