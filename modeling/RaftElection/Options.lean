/-
The options of `raft_factory.hpp`, and the election timer armed with them.

The bounds of the election timeout are two `int`s.  They are copied from `RaftOptions`
to `RaftFSMOptions` and from there into the machine, and are looked at for the first time
in the interval supplier of `start_election_timeout`, each time a `Task` is built or
renewed.  That expression is modelled with its faults: an `int` may overflow, and the
remainder has a divisor.

An `int` has 32 bits.  What `now_ms` returns and a due time are `uint64_t`, and so is what
the supplier's `int` is converted to.
-/
import RaftElection.Actor
import RaftElection.Library.Transition

namespace Raft

/-! ### Arithmetic on `int` -/

/-- Undefined behaviour in an expression of type `int`. -/
inductive IntFault where
  | divisionByZero
  | overflow
  deriving DecidableEq

namespace CInt

/-- A result that has to be an `int`. -/
def fit (i : Int) : Except IntFault Int32 :=
  if -2 ^ 31 ≤ i ∧ i < 2 ^ 31 then .ok (Int32.ofInt i) else .error .overflow

def add (x y : Int32) : Except IntFault Int32 := fit (x.toInt + y.toInt)

def sub (x y : Int32) : Except IntFault Int32 := fit (x.toInt - y.toInt)

/-- `x % y`, which is undefined where `x / y` is. -/
def rem (x y : Int32) : Except IntFault Int32 :=
  if y.toInt = 0 then .error .divisionByZero
  else (fit (x.toInt.tdiv y.toInt)).bind fun _ => fit (x.toInt.tmod y.toInt)

/-- The conversion to `uint64_t`. -/
def toUInt64 (x : Int32) : UInt64 := UInt64.ofNat (x.toInt % 2 ^ 64).toNat

end CInt

/-- What `rand` returns. -/
structure Rand where
  value : Int32
  nonneg : 0 ≤ value.toInt

/-! ### Options -/

/-- `RaftFSMOptions` as the factory fills it, without the callbacks. -/
structure RawFSMOptions where
  electionTimeout : Int32 × Int32 := (150, 300)
  heartBeatRate : Int32 := 50

/-- `RaftOptions`, without the callbacks. -/
structure RaftOptions where
  peers : PeerMap
  self : UInt64
  self_mem : self ∈ peers.ids
  electionTimeoutMs : Int32 × Int32 := (300, 500)
  heartbeatRateMs : Int32 := 100

/-- `RaftFactory::create_raft_fsm`: the actor and the options of the machine. -/
def RaftOptions.createRaftFSM (o : RaftOptions) : Actor × RawFSMOptions :=
  ({ peers := o.peers, self := o.self, self_mem := o.self_mem },
    { electionTimeout := o.electionTimeoutMs, heartBeatRate := o.heartbeatRateMs })

/-- The interval supplier of `start_election_timeout`. -/
def RawFSMOptions.electionInterval (o : RawFSMOptions) (rand : Rand) : Except IntFault UInt64 :=
  let min := o.electionTimeout.1
  (CInt.sub o.electionTimeout.2 min).bind fun gap =>
    (CInt.rem rand.value gap).bind fun r =>
      (CInt.add r min).map CInt.toUInt64

/-! ### Arming the timer -/

/-- The due time of a `Task` and the supplier it was built with. -/
structure SuppliedTask where
  interval : Rand → Except IntFault UInt64
  dueTime : UInt64

namespace SuppliedTask

/-- The constructor of `Task`. -/
def create (interval : Rand → Except IntFault UInt64) (now : UInt64) (rand : Rand) :
    Except IntFault SuppliedTask :=
  (interval rand).map fun i => { interval := interval, dueTime := now + i }

/-- `Task::renew`. -/
def renew (t : SuppliedTask) (now : UInt64) (rand : Rand) : Except IntFault SuppliedTask :=
  (t.interval rand).map fun i => { t with dueTime := now + i }

end SuppliedTask

/-- What arms the election timer, with the readings of the clock and of `rand` it takes. -/
inductive Arming where
  | start (now : UInt64) (rand : Rand)
  | reset (now : UInt64) (rand : Rand)
  | renew (now : UInt64) (rand : Rand)

def Arming.now : Arming → UInt64
  | start now _ | reset now _ | renew now _ => now

namespace RawFSMOptions

/-- The task of the election timer after the call; `none` before the first start.  A task
that is there already is resumed by `start_election_timeout`, not armed, and one that is
not is neither reset nor renewed. -/
def arm (o : RawFSMOptions) : Option SuppliedTask → Arming → Except IntFault (Option SuppliedTask)
  | none, .start now rand => (SuppliedTask.create o.electionInterval now rand).map some
  | none, _ => .ok none
  | some t, .start .. => .ok (some t)
  | some t, .reset now rand => (SuppliedTask.create t.interval now rand).map some
  | some t, .renew now rand => (t.renew now rand).map some

/-- The call computes a due time. -/
def Arms : Option SuppliedTask → Arming → Bool
  | none, .start .. => true
  | none, _ => false
  | some _, .start .. => false
  | some _, _ => true

end RawFSMOptions

/-- The election timer of a machine with these options. -/
def electionTimer (o : RawFSMOptions) : Transition.System (Option SuppliedTask) Arming where
  init t := t = none
  step t x t' := o.arm t x = .ok t'

end Raft
