/-
One call of `execute_due_tasks`, from its first statement to its last.

`Scheduler.lean` cuts the pass into statements that other threads may come between.  Here
nobody else moves: the executor holds `Scheduler::mtx`, and what happens to the flags of
the tasks in the meantime is what their callables do to them.

Clock and due times are `uint64_t`, and so is what a supplier returns.  The sum of the
two is taken modulo 2^64, as `renew` takes it.  Where `Scheduler.lean` may choose the
clock of every step this file has one clock, which does not go backwards.
-/
import Mathlib.Data.List.MinMax
import Mathlib.Data.UInt
import RaftElection.Scheduler

namespace Raft

/-- What a callable does to a task, through its handle. -/
inductive FlagCall where
  | cancel (task : Nat)
  | pause (task : Nat)
  deriving DecidableEq

def FlagCall.task : FlagCall → Nat
  | .cancel k | .pause k => k

def Scheduler.flag (s : Scheduler) : FlagCall → Scheduler
  | .cancel k => { s with tasks := s.tasks.modify k Task.cancel }
  | .pause k => { s with tasks := s.tasks.modify k Task.pause }

/-- A task that was popped, as it was found. -/
structure Visit where
  task : Nat
  found : Task
  deriving DecidableEq

/-- The state of a pass: the scheduler, how often the clock has been read since it began,
and, read by nothing, the tasks it has popped and what their callables have asked for. -/
structure Pass where
  sched : Scheduler
  reads : Nat := 0
  visits : List Visit := []
  asked : List FlagCall := []
  deriving DecidableEq

/-- Some entry with the least due time. -/
def Scheduler.leastDue (s : Scheduler) : Nat := (s.queue.argmin s.dueTime).getD 0

theorem Scheduler.isTop_leastDue {s : Scheduler} (h : s.queue ≠ []) : s.IsTop s.leastDue := by
  cases hmin : s.queue.argmin s.dueTime with
  | none => exact absurd (List.argmin_eq_none.mp hmin) h
  | some k =>
      rw [leastDue, hmin]
      exact ⟨List.argmin_mem hmin, fun j hj => List.le_of_mem_argmin hj hmin⟩

/-- What a pass meets: the readings of the clock, what the supplier of a task returns at
such a reading, what its callable does, and which of the entries that are due first the
heap has on top. -/
structure PassEnvironment where
  clock : Nat → UInt64
  monotone : ∀ m n, m ≤ n → clock m ≤ clock n
  interval : Nat → Nat → UInt64
  callable : Pass → Nat → List FlagCall := fun _ _ => []
  top : Scheduler → Nat := Scheduler.leastDue
  isTop : ∀ s : Scheduler, s.queue ≠ [] → s.IsTop (top s) := by
    exact fun _ => Scheduler.isTop_leastDue

namespace Pass

section

variable (env : PassEnvironment)

/-- `Task::call` on a task that was found like this. -/
def callTask (p : Pass) (k : Nat) (t : Task) : Pass :=
  if t.cancelled = false ∧ t.paused = false then
    let asked := env.callable p k
    let sched := asked.foldl Scheduler.flag { p.sched with calls := k :: p.sched.calls }
    { p with
      sched := { sched with tasks := sched.tasks.modify k Task.countCall }
      asked := p.asked ++ asked }
  else p

/-- `Task::renew`, and the push that follows it. -/
def renewTask (p : Pass) (k : Nat) : Pass :=
  { p with
    sched := { p.sched with
      tasks := p.sched.tasks.modify k fun t =>
        { t with dueTime := (env.clock p.reads + env.interval k p.reads).toNat }
      queue := p.sched.queue ++ [k] }
    reads := p.reads + 1 }

/-- The body of the loop. -/
def visit (p : Pass) (k : Nat) : Option Pass := do
  let t ← p.sched.tasks[k]?
  let p := { p with
    sched := { p.sched with queue := p.sched.queue.erase k }
    visits := p.visits ++ [{ task := k, found := t }] }
  if t.cancelled then some p else some ((p.callTask env k t).renewTask env k)

/-- The loop; the first argument bounds its iterations, and `none` is that they were not
enough. -/
def loop (now : UInt64) : Nat → Pass → Option Pass
  | 0, _ => none
  | fuel + 1, p =>
      if p.sched.queue = [] then some p
      else if p.sched.dueTime (env.top p.sched) ≤ now.toNat then
        (p.visit env (env.top p.sched)).bind (loop now fuel)
      else some p

/-- `Scheduler::execute_due_tasks`. -/
def executeDueTasks (fuel : Nat) (s : Scheduler) : Option Pass :=
  if s.running then loop env (env.clock 0) fuel { sched := s, reads := 1 }
  else some { sched := s }

end

end Pass

end Raft
