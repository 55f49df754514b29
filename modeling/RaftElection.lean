import RaftElection.Library.Transition
import RaftElection.Library.Bytes
import RaftElection.Library.Sequences
import RaftElection.Library.Quorum
import RaftElection.Library.Locks
import RaftElection.Library.Drain
import RaftElection.Library.Monitor
import RaftElection.Library.Wakeups
import RaftElection.Protocol
import RaftElection.Messages
import RaftElection.Actor
import RaftElection.Fsm
import RaftElection.Node
import RaftElection.Machine
import RaftElection.LifeCycle
import RaftElection.Blocking
import RaftElection.Cluster
import RaftElection.Scheduler
import RaftElection.Handle
import RaftElection.Pass
import RaftElection.Threads
import RaftElection.Options
import RaftElection.Timed
import RaftElection.Sending
import RaftElection.Transport
import RaftElection.Deployment
import RaftElection.Concurrent
import RaftElection.Proofs.Protocol
import RaftElection.Proofs.Messages
import RaftElection.Proofs.Fsm
import RaftElection.Proofs.Votes
import RaftElection.Proofs.Leadership
import RaftElection.Proofs.Election
import RaftElection.Proofs.Terms
import RaftElection.Proofs.Callbacks
import RaftElection.Proofs.Timers
import RaftElection.Proofs.Roles
import RaftElection.Proofs.Informed
import RaftElection.Proofs.Candidates
import RaftElection.Proofs.Delivery
import RaftElection.Proofs.LifeCycle
import RaftElection.Proofs.Heartbeat
import RaftElection.Proofs.Blocking
import RaftElection.Proofs.Scheduler
import RaftElection.Proofs.Queue
import RaftElection.Proofs.Recorded
import RaftElection.Proofs.Resets
import RaftElection.Proofs.Pass
import RaftElection.Proofs.Threads
import RaftElection.Proofs.Timed
import RaftElection.Proofs.Suppression
import RaftElection.Proofs.Deferral
import RaftElection.Proofs.Options
import RaftElection.Proofs.Sending
import RaftElection.Proofs.Deadlock
import RaftElection.Proofs.Progress
import RaftElection.Proofs.Partition
import RaftElection.Proofs.Lock
import RaftElection.Proofs.Arming
import RaftElection.Proofs.Detection
import RaftElection.Proofs.Links
import RaftElection.Proofs.Transport
import RaftElection.Proofs.Exchange
import RaftElection.Proofs.Deployment
import RaftElection.Proofs.Concurrent
