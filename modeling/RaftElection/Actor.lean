/-
The actor's view of the cluster: `PeerMap` and the queries of `RaftActor`.

A peer's address is represented by the id of the server that listens on it, so the
map is its list of keys, in the order the unordered map happens to iterate.  Keys
are distinct because it is a map, and an actor's own id is among them because
`get_port` dereferences its own entry before the server can start.
-/
import Mathlib.Data.Finset.Card
import Mathlib.Data.UInt

namespace Raft

/-- `RaftActorOptions::PeerMap`. -/
structure PeerMap where
  ids : List UInt64
  nodup : ids.Nodup

namespace PeerMap

def size (peers : PeerMap) : Nat := peers.ids.length

/-- The keys as a set. -/
def members (peers : PeerMap) : Finset UInt64 := ⟨peers.ids, peers.nodup⟩

@[simp] theorem mem_members {peers : PeerMap} {i : UInt64} :
    i ∈ peers.members ↔ i ∈ peers.ids := Iff.rfl

@[simp] theorem card_members (peers : PeerMap) : peers.members.card = peers.size := rfl

end PeerMap

/-- `RaftActor` with its options. -/
structure Actor where
  peers : PeerMap
  self : UInt64
  self_mem : self ∈ peers.ids

namespace Actor

/-- `get_peer`: `none` is the null pointer. -/
def getPeer (a : Actor) (serverId : UInt64) : Option UInt64 :=
  if serverId ∈ a.peers.ids then some serverId else none

/-- `get_peers`: everyone but this server. -/
def getPeers (a : Actor) : List UInt64 := a.peers.ids.filter (· ≠ a.self)

def majority (a : Actor) : Nat := a.peers.size / 2 + 1

theorem getPeer_of_mem {a : Actor} {serverId : UInt64} (h : serverId ∈ a.peers.ids) :
    a.getPeer serverId = some serverId := if_pos h

theorem getPeer_eq_some {a : Actor} {serverId peer : UInt64} (h : a.getPeer serverId = some peer) :
    serverId ∈ a.peers.ids ∧ peer = serverId := by
  unfold getPeer at h
  split at h
  · rename_i hmem
    exact ⟨hmem, (Option.some.inj h).symm⟩
  · simp at h

end Actor

/-! ### The clusters of the examples -/

def threeServers : PeerMap := { ids := [1, 2, 3], nodup := by decide }

def fiveServers : PeerMap := { ids := [1, 2, 3, 4, 5], nodup := by decide }

/-- A cluster of one. -/
def loneServer : Actor :=
  { peers := { ids := [1], nodup := by decide }, self := 1, self_mem := by decide }

def firstOfThree : Actor := { peers := threeServers, self := 1, self_mem := by decide }

end Raft
