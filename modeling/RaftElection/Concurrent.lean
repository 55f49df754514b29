/-
`concurrent.hpp`: the blocking queue and the latch.

Both are a mutex with one condition variable, and any number of threads that call them.  What
a call does once it holds the mutex, or has waited for what it needs, is a function of the
fields; when it waits and whom it notifies is told to `Library/Monitor.lean`.  `clear` takes no
lock: it stores `quit` and then notifies, and the destructor of the queue does the same.

`size` is left out.  It reads the queue without the mutex.
-/
import RaftElection.Library.Monitor

namespace Raft

open Monitor

/-! ### `BlockingQueue` -/

structure BlockingQueue (τ α : Type) where
  q : List α := []
  quit : Bool := false
  /-- What was put, in that order.  Nothing reads this. -/
  puts : List α := []
  /-- What each call of `get` stored into its argument, in that order.  Nothing reads this. -/
  gets : List (τ × α) := []
  deriving DecidableEq

inductive QueueOp (α : Type) where
  | put (t : α)
  | get
  deriving DecidableEq

namespace BlockingQueue

variable {τ α : Type}

def put (b : BlockingQueue τ α) (x : α) : BlockingQueue τ α :=
  { b with q := b.q ++ [x], puts := b.puts ++ [x] }

/-- `get` after its wait.  The queue is not empty then, unless `quit` is set. -/
def get (b : BlockingQueue τ α) (t : τ) : BlockingQueue τ α :=
  if b.quit then b
  else
    match b.q with
    | [] => b
    | x :: rest => { b with q := rest, gets := b.gets ++ [(t, x)] }

def clear (b : BlockingQueue τ α) : BlockingQueue τ α := { b with quit := true }

/-- The predicate of the wait in `get`. -/
def ready (b : BlockingQueue τ α) : Bool := b.quit || !b.q.isEmpty

def monitor (τ α : Type) : Spec τ (BlockingQueue τ α) (QueueOp α) Unit where
  guard
    | .put _, _ => true
    | .get, b => b.ready
  body t
    | .put x, b => b.put x
    | .get, b => b.get t
  notify
    | .put _, _ => .one
    | .get, _ => .none
  store _ b := b.clear

end BlockingQueue

/-- The threads `τ` and a queue that is empty in the beginning. -/
def queueSystem (τ α : Type) [DecidableEq τ] [Fintype τ] :
    Transition.System (State τ (BlockingQueue τ α) (QueueOp α)) (Action τ (QueueOp α) Unit) :=
  system (BlockingQueue.monitor τ α) {}

/-! ### `CountDownLatch` -/

structure CountDownLatch where
  count : Int
  /-- How often `count_down` has been called.  Nothing reads this. -/
  downs : Nat := 0
  /-- How often it had been called when each `await` returned.  Nothing reads this. -/
  returns : List Nat := []
  deriving DecidableEq

inductive LatchOp where
  | countDown
  | await
  deriving DecidableEq

namespace CountDownLatch

def countDown (l : CountDownLatch) : CountDownLatch :=
  if 0 < l.count then { l with count := l.count - 1, downs := l.downs + 1 }
  else { l with downs := l.downs + 1 }

/-- `await` after its wait. -/
def await (l : CountDownLatch) : CountDownLatch := { l with returns := l.downs :: l.returns }

/-- Nothing of a latch is changed without its mutex. -/
def monitor (τ : Type) : Spec τ CountDownLatch LatchOp Empty where
  guard
    | .countDown, _ => true
    | .await, l => decide (l.count ≤ 0)
  body _
    | .countDown, l => l.countDown
    | .await, l => l.await
  notify
    | .countDown, l => if 0 < l.count then .all else .none
    | .await, _ => .none
  store u _ := u.elim

end CountDownLatch

/-- The threads `τ` and a latch. -/
def latchSystem (τ : Type) [DecidableEq τ] [Fintype τ] (count : Int) :
    Transition.System (State τ CountDownLatch LatchOp) (Action τ LatchOp Empty) :=
  system (CountDownLatch.monitor τ) { count := count }

end Raft
