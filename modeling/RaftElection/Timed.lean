/-
A node in time: the machine, the tasks behind its timers and the clock.

`Machine.lean` lets a task fire whenever its flags allow it.  Here it fires when it is
due.  The handlers' calls on the timers, listed in `Threads.lean`, are carried out on the
tasks and the queue of `Scheduler.lean`, and a pass of the executor pops what is due and
runs its callable on the machine.  As in `Machine.lean` every entry is one step: an event
that is handled, a call of the API, a pass.

Two things come from outside: what `now_ms` returns and what `rand` returns.  Both are
sequences, read one element at a call, so a pass that reads the clock several times may
see it move.  The clock does not go backwards.  Its readings are milliseconds since the
epoch out of a signed count and an interval is an `int`, so no due time runs over.
-/
import Mathlib.Order.Monotone.Basic
import RaftElection.Machine
import RaftElection.Scheduler
import RaftElection.Threads

namespace Raft

/-- What the calls of `TimeUtils::now_ms` and of `rand` return, one after another. -/
structure Environment where
  clock : Nat → Nat
  monotone : Monotone clock
  rand : Nat → Nat

/-- A clock that advances by three milliseconds at every reading. -/
def threeAtATime : Environment where
  clock n := 3 * n
  monotone _ _ h := Nat.mul_le_mul_left 3 h
  rand _ := 0

/-- `RaftFSMOptions` without the callbacks.  The bounds of the election timeout are
positive and in order; nothing in the source tests them. -/
structure RaftFSMOptions where
  minTimeout : Nat := 150
  maxTimeout : Nat := 300
  heartBeatRate : Nat := 50
  pos : 0 < minTimeout := by decide
  lt : minTimeout < maxTimeout := by decide

/-- What the supplier of a timer returns: `rand() % gap + min`, or the heartbeat rate. -/
def RaftFSMOptions.interval (o : RaftFSMOptions) (rand : Nat) : TimerKind → Nat
  | .election => rand % (o.maxTimeout - o.minTimeout) + o.minTimeout
  | .heartbeat => o.heartBeatRate

/-- How many random numbers that takes. -/
def TimerKind.draws : TimerKind → Nat
  | .election => 1
  | .heartbeat => 0

structure TimedNode where
  fsm : RaftFSM := {}
  sched : Scheduler := {}
  /-- Whose callable each task has. -/
  kinds : List TimerKind := []
  /-- `task_` of the `ScheduledTask` of each timer. -/
  task : TimerKind → Option Nat := fun _ => none
  /-- How often the clock has been read. -/
  reads : Nat := 0
  /-- How many random numbers have been drawn. -/
  draws : Nat := 0
  /-- When the node was started, or has last accepted a heartbeat.  Nothing reads this. -/
  lastBeat : Nat := 0

inductive TimedAction where
  | handle (e : NetEvent) (cb : Callbacks)
  | api (c : ApiCall) (cb : Callbacks)
  /-- One round of the executor, which pops these tasks. -/
  | pass (popped : List Nat) (cb : Callbacks)
  deriving DecidableEq

/-- A heartbeat that the machine does not take for an old one. -/
def RaftFSM.Accepts (s : RaftFSM) : NetEvent → Prop
  | .appendEntriesReq _ term => s.blocked = false ∧ s.term ≤ term
  | _ => False

instance (s : RaftFSM) : ∀ e, Decidable (s.Accepts e)
  | .appendEntriesReq .. => inferInstanceAs (Decidable (_ ∧ _))
  | .appendEntriesRes .. | .requestVoteReq .. | .requestVoteRes .. => isFalse id

namespace TimedNode

section

variable (env : Environment) (o : RaftFSMOptions)

/-! ### Calls on the timers -/

/-- `run_after`, with the clock and the interval it reads. -/
def runAfter (n : TimedNode) (k : TimerKind) (maxCalls : Int) : TimedNode :=
  { n with
    sched := n.sched.runAfter (env.clock n.reads) (o.interval (env.rand n.draws) k) maxCalls
    kinds := n.kinds ++ [k]
    reads := n.reads + 1
    draws := n.draws + k.draws }

/-- A call on the task of a timer. -/
def onTask (n : TimedNode) (k : TimerKind) (f : Task → Task) : TimedNode :=
  match n.task k with
  | none => n
  | some i => { n with sched := { n.sched with tasks := n.sched.tasks.modify i f } }

/-- The `task_replacer_` of a timer: another task takes the place of the old one. -/
def replace (n : TimedNode) (k : TimerKind) (maxCalls : Int) : TimedNode :=
  { n.runAfter env o k maxCalls with
    task := Function.update n.task k (some n.sched.tasks.length) }

/-- `ScheduledTask::reset`, which takes over both flags of the old task. -/
def reset (n : TimedNode) (k : TimerKind) : TimedNode :=
  match (n.task k).bind (n.sched.tasks[·]?) with
  | none => n
  | some t =>
      let n := (n.onTask k Task.cancel).replace env o k t.maxCalls
      let n := if t.cancelled then n.onTask k Task.cancel else n
      if t.paused then n.onTask k Task.pause else n

def call (n : TimedNode) : TimerCall → TimedNode
  | .schedule k => n.replace env o k (-1)
  | .pause k => n.onTask k Task.pause
  | .resume k => n.onTask k Task.resume
  | .reset k => n.reset env o k

def calls (n : TimedNode) (l : List TimerCall) : TimedNode := l.foldl (call env o) n

/-! ### Entries into the machine -/

/-- `handle`, with its calls on the timers. -/
def handle (a : Actor) (cb : Callbacks) (n : TimedNode) (event : RaftEvent) : Option TimedNode :=
  match RaftFSM.handle a cb n.fsm event with
  | .error _ => none
  | .ok s =>
      some { n.calls env o (if n.fsm.blocked then [] else n.fsm.handleCalls a cb event) with
        fsm := s }

/-- The callable of a timer. -/
def callable (a : Actor) (cb : Callbacks) (n : TimedNode) : TimerKind → Option TimedNode
  | .election => n.handle env o a cb .electionTimeout
  | .heartbeat =>
      some { n with fsm := n.fsm.sendAll (.appendEntriesReq a.self n.fsm.term) a.getPeers }

/-! ### A pass of the executor -/

/-- `Task::call`. -/
def callTask (a : Actor) (cb : Callbacks) (n : TimedNode) (i : Nat) (k : TimerKind) :
    Option TimedNode := do
  let t ← n.sched.tasks[i]?
  if t.call.1 then
    let n ← callable env o a cb { n with sched := { n.sched with calls := i :: n.sched.calls } } k
    some { n with sched := { n.sched with tasks := n.sched.tasks.modify i Task.countCall } }
  else some n

/-- `Task::renew`, and the push that follows it. -/
def renewTask (n : TimedNode) (i : Nat) (k : TimerKind) : TimedNode :=
  { n with
    sched := { n.sched with
      tasks := n.sched.tasks.modify i fun t =>
        t.renew (env.clock n.reads) (o.interval (env.rand n.draws) k)
      queue := n.sched.queue ++ [i] }
    reads := n.reads + 1
    draws := n.draws + k.draws }

/-- What happens to a task once it is popped. -/
def execute (a : Actor) (cb : Callbacks) (n : TimedNode) (i : Nat) : Option TimedNode := do
  let t ← n.sched.tasks[i]?
  let k ← n.kinds[i]?
  if t.cancelled then some n
  else
    let n ← n.callTask env o a cb i k
    some (n.renewTask env o i k)

/-- The loop of `execute_due_tasks`, over the tasks it pops. -/
def passLoop (a : Actor) (cb : Callbacks) (now : Nat) : List Nat → TimedNode → Option TimedNode
  | [], n => if ∀ i ∈ n.sched.queue, now < n.sched.dueTime i then some n else none
  | i :: rest, n =>
      if n.sched.IsTop i ∧ n.sched.dueTime i ≤ now then
        (execute env o a cb { n with sched := { n.sched with queue := n.sched.queue.erase i } } i).bind
          (passLoop a cb now rest)
      else none

/-- One round of the executor: the clock is read, and once more where something is due.
A queue that is empty has no top to compare it with. -/
def pass (a : Actor) (cb : Callbacks) (n : TimedNode) (popped : List Nat) : Option TimedNode :=
  if n.sched.queue = [] then none
  else if ∀ i ∈ n.sched.queue, env.clock n.reads < n.sched.dueTime i then
    if popped = [] then some { n with reads := n.reads + 1 } else none
  else passLoop env o a cb (env.clock (n.reads + 1)) popped { n with reads := n.reads + 2 }

/-! ### The step relation -/

/-- `RaftFSM::start`. -/
def start : TimedNode :=
  { ({} : TimedNode).calls env o (RaftFSM.initFollowerStateCalls {}) with
    fsm := RaftFSM.started
    lastBeat := env.clock 0 }

def step (a : Actor) (n : TimedNode) : TimedAction → Option TimedNode
  | .handle e cb =>
      (n.handle env o a cb (.net e)).map fun n' =>
        { n' with lastBeat := if n.fsm.Accepts e then env.clock n.reads else n.lastBeat }
  | .api c cb =>
      some { n.calls env o (n.fsm.callCalls (RaftFSM.signOff cb) (RaftFSM.signOffCalls cb) c) with
        fsm := n.fsm.call (RaftFSM.signOff cb) c }
  | .pass popped cb => n.pass env o a cb popped

end

end TimedNode

/-- A node against any events, calls of the API and passes, at the times the clock gives. -/
def timedSystem (a : Actor) (env : Environment) (o : RaftFSMOptions) :
    Transition.System TimedNode TimedAction :=
  .ofFun (TimedNode.start env o) (TimedNode.step env o a)

end Raft
