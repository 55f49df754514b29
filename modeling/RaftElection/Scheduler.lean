/-
The scheduler of `scheduler.hpp`: its tasks, its queue and the loop of its thread.

A `TaskPtr` is an index into the list of all tasks ever made.  `task_queue` is the
list of those queued; its top is any one with the least due time, and which of
several is left to the run, as `std::priority_queue` leaves it open.  The clock and
the interval a supplier returns are read afresh at every step that uses them, so
both are part of the action.

`Scheduler::mtx` is not a field.  The executor holds it at the program points
`holdsLock` lists, and what other threads do under it — `run_after` — is one step
that waits until the executor is elsewhere.  The statements of
`ScheduledTask::reset` are steps of their own: only the push is under the lock.
-/
import RaftElection.Library.Transition
import Mathlib.Data.List.Basic

namespace Raft

structure Task where
  maxCalls : Int
  dueTime : Nat
  cancelled : Bool := false
  paused : Bool := false
  deriving DecidableEq

namespace Task

def cancel (t : Task) : Task := { t with cancelled := true }

def pause (t : Task) : Task := { t with paused := true }

def resume (t : Task) : Task := { t with paused := false }

/-- Whether the callable is invoked, and the task after it. -/
def call (t : Task) : Bool × Task :=
  if t.cancelled = false ∧ t.paused = false then
    if 0 < t.maxCalls then
      let t := { t with maxCalls := t.maxCalls - 1 }
      (true, if t.maxCalls = 0 then t.cancel else t)
    else (true, t)
  else (false, t)

/-- What `call` does after its callable has returned. -/
def countCall (t : Task) : Task :=
  if 0 < t.maxCalls then
    let t := { t with maxCalls := t.maxCalls - 1 }
    if t.maxCalls = 0 then t.cancel else t
  else t

def renew (t : Task) (clock interval : Nat) : Task := { t with dueTime := clock + interval }

end Task

/-- How far a `ScheduledTask::reset` under way has come, with the flags it read. -/
inductive ResetPc where
  | idle
  | flagsRead (cancelled paused : Bool)
  | oldCancelled (cancelled paused : Bool)
  | replaced (cancelled paused : Bool)
  | recancelled (paused : Bool)
  deriving DecidableEq

/-- A handle: the task it holds, and where its `reset` stands.  Its mutex is held from
`flagsRead` on. -/
structure ScheduledTask where
  task : Nat
  pc : ResetPc := .idle
  deriving DecidableEq

/-- The program points of the executor. -/
inductive ExecutorPc where
  /-- `while (running.load())`. -/
  | loopHead
  /-- About to take `mtx` and test the predicate of `wait_for` a first time. -/
  | lock
  /-- Blocked in `wait_for`. -/
  | waiting
  /-- `wait_for` has returned. -/
  | woken
  /-- `now < task_queue.top()->due_time()`. -/
  | compare (now : Nat)
  /-- `wait_time = task_queue.top()->due_time() - now`. -/
  | remain (now : Nat)
  /-- The entry of `execute_due_tasks`. -/
  | execute
  /-- The condition of its loop. -/
  | passHead (now : Nat)
  /-- `next_expired = task_queue.top(); task_queue.pop()`. -/
  | popTop (now : Nat)
  /-- `if (!next_expired->cancelled())`. -/
  | popped (task now : Nat)
  /-- `next_expired->call()`. -/
  | callTask (task now : Nat)
  /-- `next_expired->renew(); task_queue.push(next_expired)`. -/
  | renewTask (task now : Nat)
  | exited
  deriving DecidableEq

namespace ExecutorPc

/-- The executor holds `Scheduler::mtx` here. -/
def holdsLock : ExecutorPc → Bool
  | loopHead | lock | waiting | exited => false
  | woken | compare _ | remain _ | execute | passHead _ | popTop _ | popped .. | callTask ..
  | renewTask .. => true

end ExecutorPc

structure Scheduler where
  running : Bool := true
  tasks : List Task := []
  queue : List Nat := []
  handles : List ScheduledTask := []
  waitTime : Nat := 1000 * 60
  pc : ExecutorPc := .loopHead
  /-- The tasks whose callable was invoked, latest first. -/
  calls : List Nat := []
  deriving DecidableEq

/-- Why `wait_for` stops waiting. -/
inductive Wake where
  | notified
  | spurious
  | expired
  deriving DecidableEq

inductive SchedulerAction where
  | schedule (clock interval : Nat) (maxCalls : Int)
  | cancel (handle : Nat)
  | pause (handle : Nat)
  | resume (handle : Nat)
  /-- The next statement of `reset`. -/
  | reset (handle clock interval : Nat)
  /-- The destructor. -/
  | stop
  | wake (why : Wake)
  /-- The executor goes on from where it stands; `top` is the top of the queue where it
  looks at it. -/
  | advance (clock interval top : Nat)
  deriving DecidableEq

namespace Scheduler

def setTask (s : Scheduler) (k : Nat) (t : Task) : Scheduler := { s with tasks := s.tasks.set k t }

/-- `run_after`, up to the notification: the new task and its index. -/
def runAfter (s : Scheduler) (clock interval : Nat) (maxCalls : Int) : Scheduler :=
  { s with
    tasks := s.tasks ++ [{ maxCalls := maxCalls, dueTime := clock + interval }]
    queue := s.queue ++ [s.tasks.length] }

def dueTime (s : Scheduler) (k : Nat) : Nat := (s.tasks[k]?.map Task.dueTime).getD 0

/-- `k` may be what `task_queue.top()` returns. -/
def IsTop (s : Scheduler) (k : Nat) : Prop := k ∈ s.queue ∧ ∀ j ∈ s.queue, s.dueTime k ≤ s.dueTime j

instance (s : Scheduler) (k : Nat) : Decidable (s.IsTop k) :=
  inferInstanceAs (Decidable (_ ∧ _))

/-- The predicate of `wait_for`. -/
def ready (s : Scheduler) : Bool := !s.queue.isEmpty || !s.running

/-- A call on the task of a handle, which waits for a `reset` of that handle to end. -/
def onTask (s : Scheduler) (handle : Nat) (f : Task → Task) : Option Scheduler := do
  let h ← s.handles[handle]?
  let t ← s.tasks[h.task]?
  if h.pc = .idle then some (s.setTask h.task (f t)) else none

def setHandle (s : Scheduler) (handle : Nat) (h : ScheduledTask) : Scheduler :=
  { s with handles := s.handles.set handle h }

/-- One statement of `ScheduledTask::reset`. -/
def resetStep (s : Scheduler) (handle clock interval : Nat) : Option Scheduler := do
  let h ← s.handles[handle]?
  let t ← s.tasks[h.task]?
  match h.pc with
  | .idle => some (s.setHandle handle { h with pc := .flagsRead t.cancelled t.paused })
  | .flagsRead cancelled paused =>
      some ((s.setTask h.task t.cancel).setHandle handle
        { h with pc := .oldCancelled cancelled paused })
  | .oldCancelled cancelled paused =>
      if s.pc.holdsLock then none
      else
        some ((s.runAfter clock interval t.maxCalls).setHandle handle
          { task := s.tasks.length, pc := .replaced cancelled paused })
  | .replaced cancelled paused =>
      some ((if cancelled then s.setTask h.task t.cancel else s).setHandle handle
        { h with pc := .recancelled paused })
  | .recancelled paused =>
      some ((if paused then s.setTask h.task t.pause else s).setHandle handle
        { h with pc := .idle })

/-- `wait_for` re-takes the lock and tests its predicate; past its time it returns
whatever the test says. -/
def wakeUp (s : Scheduler) (why : Wake) : Option Scheduler :=
  if s.pc = .waiting then
    if why = .expired ∨ s.ready = true then some { s with pc := .woken } else some s
  else none

/-- The executor's next step.  Where it looks at the top of an empty queue it has none. -/
def executor (s : Scheduler) (clock interval top : Nat) : Option Scheduler :=
  match s.pc with
  | .loopHead => some { s with pc := if s.running then .lock else .exited }
  | .lock => some { s with pc := if s.ready then .woken else .waiting }
  | .waiting => none
  | .woken => some { s with pc := if s.running then .compare clock else .exited }
  | .compare now =>
      if s.IsTop top then
        some { s with pc := if now < s.dueTime top then .remain now else .execute }
      else none
  | .remain now =>
      if s.IsTop top then
        some { s with waitTime := s.dueTime top - now, pc := .loopHead }
      else none
  | .execute => some { s with pc := if s.running then .passHead clock else .loopHead }
  | .passHead now =>
      if s.queue = [] then some { s with pc := .loopHead }
      else if s.IsTop top then
        some { s with pc := if s.dueTime top ≤ now then .popTop now else .loopHead }
      else none
  | .popTop now =>
      if s.IsTop top then
        some { s with queue := s.queue.erase top, pc := .popped top now }
      else none
  | .popped k now => do
      let t ← s.tasks[k]?
      some { s with pc := if t.cancelled then .passHead now else .callTask k now }
  | .callTask k now => do
      let t ← s.tasks[k]?
      some { s.setTask k t.call.2 with
        calls := if t.call.1 then k :: s.calls else s.calls
        pc := .renewTask k now }
  | .renewTask k now => do
      let t ← s.tasks[k]?
      some { s.setTask k (t.renew clock interval) with
        queue := s.queue ++ [k]
        pc := .passHead now }
  | .exited => none

def step (s : Scheduler) : SchedulerAction → Option Scheduler
  | .schedule clock interval maxCalls =>
      if s.pc.holdsLock then none
      else
        some { s.runAfter clock interval maxCalls with
          handles := s.handles ++ [{ task := s.tasks.length }] }
  | .cancel handle => s.onTask handle Task.cancel
  | .pause handle => s.onTask handle Task.pause
  | .resume handle => s.onTask handle Task.resume
  | .reset handle clock interval => s.resetStep handle clock interval
  | .stop => some { s with running := false }
  | .wake why => s.wakeUp why
  | .advance clock interval top => s.executor clock interval top

end Scheduler

def schedulerSystem : Transition.System Scheduler SchedulerAction :=
  .ofFun {} Scheduler.step

end Raft
