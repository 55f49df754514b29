/-
One timer: a handle of the scheduler, with what stands behind it.

`reset` puts a new task in the place of the old one and leaves the old one in the queue, so
the queue fills with tasks that are dead.  Seen from its handle a timer has one task at a
time.  `Handle` is that task, how far a `reset` has come, and a ledger; its steps are the
calls on the handle, and what the executor does to that one task.

`Recorded` is the scheduler with such ledgers beside it, one for each handle, and the handle
each task was made for.  The code has neither, and nothing of the scheduler reads them.
-/
import RaftElection.Scheduler

namespace Raft

/-- What has been asked of a handle by calls that have returned: whether one was `cancel`,
and whether the last one of `pause` and `resume` was `pause`. -/
structure Asked where
  cancelled : Bool := false
  paused : Bool := false
  deriving DecidableEq

/-- What was asked of a handle, the limit it was scheduled with, and, for each time its
callable was invoked, what had been asked by then; latest first. -/
structure Ledger where
  limit : Int
  asked : Asked := {}
  invocations : List Asked := []
  deriving DecidableEq

namespace Ledger

def cancel (l : Ledger) : Ledger := { l with asked := { l.asked with cancelled := true } }

def pause (l : Ledger) : Ledger := { l with asked := { l.asked with paused := true } }

def resume (l : Ledger) : Ledger := { l with asked := { l.asked with paused := false } }

def invoke (l : Ledger) : Ledger := { l with invocations := l.asked :: l.invocations }

/-- There is a limit, and it is reached. -/
def UsedUp (l : Ledger) : Prop := 0 < l.limit ∧ l.limit = l.invocations.length

instance (l : Ledger) : Decidable l.UsedUp := inferInstanceAs (Decidable (_ ∧ _))

end Ledger

/-! ### One timer -/

structure Handle where
  task : Task
  pc : ResetPc := .idle
  ledger : Ledger
  deriving DecidableEq

inductive HandleAction where
  | cancel
  | pause
  | resume
  | reset (clock interval : Nat)
  /-- The executor calls the task. -/
  | call
  /-- The executor renews it. -/
  | renew (clock interval : Nat)
  deriving DecidableEq

namespace Handle

def resetStep (x : Handle) (clock interval : Nat) : Handle :=
  match x.pc with
  | .idle => { x with pc := .flagsRead x.task.cancelled x.task.paused }
  | .flagsRead cancelled paused =>
      { x with task := x.task.cancel, pc := .oldCancelled cancelled paused }
  | .oldCancelled cancelled paused =>
      { x with
        task := { maxCalls := x.task.maxCalls, dueTime := clock + interval }
        pc := .replaced cancelled paused }
  | .replaced cancelled paused =>
      { x with task := if cancelled then x.task.cancel else x.task, pc := .recancelled paused }
  | .recancelled paused =>
      { x with task := if paused then x.task.pause else x.task, pc := .idle }

/-- A call on the handle, which waits for a `reset` to end. -/
def onTask (x : Handle) (f : Task → Task) (g : Ledger → Ledger) : Option Handle :=
  if x.pc = .idle then some { x with task := f x.task, ledger := g x.ledger } else none

def step (x : Handle) : HandleAction → Option Handle
  | .cancel => x.onTask Task.cancel Ledger.cancel
  | .pause => x.onTask Task.pause Ledger.pause
  | .resume => x.onTask Task.resume Ledger.resume
  | .reset clock interval => some (x.resetStep clock interval)
  | .call =>
      some { x with
        task := x.task.call.2
        ledger := if x.task.call.1 then x.ledger.invoke else x.ledger }
  | .renew clock interval => some { x with task := x.task.renew clock interval }

/-- A handle as `schedule` makes it. -/
def IsNew (x : Handle) : Prop :=
  ∃ maxCalls dueTime,
    x = { task := { maxCalls := maxCalls, dueTime := dueTime }, ledger := { limit := maxCalls } }

end Handle

def handleSystem : Transition.System Handle HandleAction where
  init := Handle.IsNew
  step x act x' := x.step act = some x'

/-! ### All handles of a scheduler -/

structure Recorded where
  sched : Scheduler := {}
  /-- The handle each task was made for. -/
  owner : List Nat := []
  ledgers : List Ledger := []
  deriving DecidableEq

/-- The task whose callable a step invokes. -/
def Scheduler.invokes (s : Scheduler) : SchedulerAction → Option Nat
  | .advance .. =>
      match s.pc with
      | .callTask k _ => if (s.tasks[k]?.map fun t => t.call.1) = some true then some k else none
      | _ => none
  | _ => none

namespace Recorded

/-- What a step adds to the ledgers. -/
def note (r : Recorded) (act : SchedulerAction) : Recorded :=
  match act with
  | .schedule _ _ maxCalls =>
      { r with
        owner := r.owner ++ [r.sched.handles.length]
        ledgers := r.ledgers ++ [{ limit := maxCalls }] }
  | .cancel i => { r with ledgers := r.ledgers.modify i Ledger.cancel }
  | .pause i => { r with ledgers := r.ledgers.modify i Ledger.pause }
  | .resume i => { r with ledgers := r.ledgers.modify i Ledger.resume }
  | .reset i _ _ =>
      match r.sched.handles[i]?.map ScheduledTask.pc with
      | some (.oldCancelled ..) => { r with owner := r.owner ++ [i] }
      | _ => r
  | .stop | .wake _ => r
  | .advance .. =>
      match r.sched.invokes act with
      | some k => { r with ledgers := r.ledgers.modify (r.owner.getD k 0) Ledger.invoke }
      | none => r

def step (r : Recorded) (act : SchedulerAction) : Option Recorded :=
  (r.sched.step act).map fun s => { r.note act with sched := s }

/-- A handle, with the task it holds and its ledger. -/
def handle (r : Recorded) (i : Nat) : Option Handle := do
  let h ← r.sched.handles[i]?
  let t ← r.sched.tasks[h.task]?
  let l ← r.ledgers[i]?
  some { task := t, pc := h.pc, ledger := l }

end Recorded

def recordedSystem : Transition.System Recorded SchedulerAction := .ofFun {} Recorded.step

end Raft
