/-
A cluster: one node for every key of a shared peer map, and the network.

What is in flight is read off the traces.  A message a node has sent stays
deliverable from then on, to its addressee and as it was sent: that it may arrive
late, out of order, several times or never is the choice of which deliveries a run
makes.  No node restarts.
-/
import Mathlib.Data.Fintype.Basic
import RaftElection.Node

namespace Raft

/-- A server of the cluster. -/
abbrev Member (peers : PeerMap) := {i : UInt64 // i ∈ peers.ids}

/-- The actor of one server. -/
def Member.actor {peers : PeerMap} (i : Member peers) : Actor :=
  { peers := peers, self := i.1, self_mem := i.2 }

/-- The state of every node. -/
abbrev Cluster (peers : PeerMap) := Member peers → Node

namespace Cluster

variable {peers : PeerMap}

/-- Some server has sent `e` to `i`. -/
def InFlight (c : Cluster peers) (i : Member peers) (e : NetEvent) : Prop :=
  ∃ j, Entry.sent i.1 e ∈ (c j).fsm.trace

instance (c : Cluster peers) (i : Member peers) (e : NetEvent) : Decidable (InFlight c i e) :=
  inferInstanceAs (Decidable (∃ _, _))

/-- Only what is in flight is delivered. -/
def Admissible (c : Cluster peers) (i : Member peers) : NodeAction → Prop
  | .deliver e _ => InFlight c i e
  | _ => True

instance (c : Cluster peers) (i : Member peers) (act : NodeAction) :
    Decidable (Admissible c i act) :=
  match act with
  | .deliver e _ => inferInstanceAs (Decidable (InFlight c i e))
  | .expire | .timeout _ | .beat | .sendHeartbeat | .api _ _ => isTrue trivial

/-- One node moves, the others stay as they are. -/
def step (c : Cluster peers) (x : Member peers × NodeAction) : Option (Cluster peers) :=
  if Admissible c x.1 x.2 then
    ((c x.1).step x.1.actor x.2).map (Function.update c x.1)
  else none

end Cluster

def clusterSystem (peers : PeerMap) :
    Transition.System (Cluster peers) (Member peers × NodeAction) :=
  .ofFun (fun _ => {}) Cluster.step

/-! ### A distributed lock

The callbacks of `examples/distributed_lock.cpp`: a server that is elected reports that it
has the lock and gives the leadership up at once, and reports the release when that is done.
-/

def lockCallbacks : Callbacks :=
  { onBecomeLeader := some [.stayFollower], onSignOffLeader := some [] }

/-- The servers of `create_cluster`, which are left to themselves. -/
def lockSystem (peers : PeerMap) :
    Transition.System (Cluster peers) (Member peers × NodeAction) :=
  (clusterSystem peers).restrict fun _ x _ => x.2.Own lockCallbacks

namespace Node

/-- How often `acquired lock` has been printed. -/
def acquisitions (n : Node) : Nat := n.fsm.trace.count .onBecomeLeader

/-- How often `released lock` has been printed. -/
def releases (n : Node) : Nat := n.fsm.trace.count .onSignOffLeader

end Node

/-! ### The servers of the examples -/

namespace ThreeServers

def one : Member threeServers := ⟨firstOfThree.self, firstOfThree.self_mem⟩

def two : Member threeServers := ⟨2, by decide⟩

def three : Member threeServers := ⟨3, by decide⟩

end ThreeServers

namespace FiveServers

def one : Member fiveServers := ⟨1, by decide⟩

def two : Member fiveServers := ⟨2, by decide⟩

def three : Member fiveServers := ⟨3, by decide⟩

def four : Member fiveServers := ⟨4, by decide⟩

def five : Member fiveServers := ⟨5, by decide⟩

end FiveServers

end Raft
