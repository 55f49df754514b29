/-
A deployment: the servers of a cluster, and the connections they talk over.

`Cluster.lean` delivers any message that was sent, whenever a run wants it delivered, and
`Transport.lean` carries the messages of some threads to one address.  Here the two are put
together.  A node has two threads that send: that of its server, which reads one message
after another and handles each before it reads on, and that of its scheduler.  What a step of
a node sends waits in the outbox of the thread that made it, and the thread goes on when it
has written it all; that the step is taken at once and the lock of the handlers is not held
while it is written out lets more happen than the code does.

The servers are at different addresses, so there is one pool entry for every pair of them.
-/
import RaftElection.Cluster
import RaftElection.Machine
import RaftElection.Transport

namespace Raft

/-- The threads of a node that send. -/
inductive NodeThread where
  | server
  | scheduler
  deriving DecidableEq

instance : Fintype NodeThread where
  elems := {.server, .scheduler}
  complete t := by cases t <;> decide

/-- The thread that takes a step; none of its own where that thread sends nothing. -/
def NodeAction.thread : NodeAction → Option NodeThread
  | .deliver .. => some .server
  | .expire | .timeout _ | .beat | .sendHeartbeat => some .scheduler
  | .api .. => none

structure Deployment (peers : PeerMap) where
  nodes : Cluster peers := fun _ => {}
  /-- What each thread has yet to send. -/
  outbox : Member peers → NodeThread → List (Member peers × NetEvent) := fun _ _ => []
  /-- The connections from the first server to the second. -/
  channel : Member peers → Member peers → Channel NodeThread := fun _ _ => {}

inductive DeploymentAction (peers : PeerMap) where
  /-- A step of the scheduler thread, or a call of the API. -/
  | act (i : Member peers) (x : NodeAction)
  /-- `Client::send` for the next message of a thread, up to the first `write_some`. -/
  | transmit (i : Member peers) (t : NodeThread) (connects : Bool)
  /-- A thread writes on, or the network does something. -/
  | carry (i j : Member peers) (x : ChannelAction NodeThread)
  /-- A read of `j` on a connection from `i` completes; what it delivers is handled. -/
  | read (i j : Member peers) (link : Nat) (cb : Callbacks)

namespace Deployment

variable {peers : PeerMap}

/-- What has been sent between two states, first message first. -/
def messages (peers : PeerMap) (s s' : RaftFSM) : List (Member peers × NetEvent) :=
  (s.newEntries s').reverse.filterMap fun
    | .sent peer e => if h : peer ∈ peers.ids then some (⟨peer, h⟩, e) else none
    | _ => none

/-- The thread is not inside `Connection::write`. -/
def NotWriting (d : Deployment peers) (i : Member peers) (t : NodeThread) : Prop :=
  ∀ j, (d.channel i j).writer t = none

/-- It has nothing left to send. -/
def Free (d : Deployment peers) (i : Member peers) (t : NodeThread) : Prop :=
  d.outbox i t = [] ∧ d.NotWriting i t

instance (d : Deployment peers) (i : Member peers) (t : NodeThread) :
    Decidable (d.NotWriting i t) :=
  inferInstanceAs (Decidable (∀ _, _))

instance (d : Deployment peers) (i : Member peers) (t : NodeThread) : Decidable (d.Free i t) :=
  inferInstanceAs (Decidable (_ ∧ _))

def setOutbox (d : Deployment peers) (i : Member peers) (t : NodeThread)
    (l : List (Member peers × NetEvent)) : Deployment peers :=
  { d with outbox := Function.update d.outbox i (Function.update (d.outbox i) t l) }

def setChannel (d : Deployment peers) (i j : Member peers) (c : Channel NodeThread) :
    Deployment peers :=
  { d with channel := Function.update d.channel i (Function.update (d.channel i) j c) }

/-- A node moves. -/
def actNode (d : Deployment peers) (i : Member peers) (x : NodeAction) :
    Option (Deployment peers) := do
  let n ← (d.nodes i).step i.actor x
  let d' := { d with nodes := Function.update d.nodes i n }
  match x.thread with
  | none => some d'
  | some t =>
      if d.Free i t then some (d'.setOutbox i t (messages peers (d.nodes i).fsm n.fsm)) else none

/-- One of the connections from `i` to `j` moves. -/
def channelStep (host : Member peers → Host) (d : Deployment peers) (i j : Member peers)
    (x : ChannelAction NodeThread) : Option (Deployment peers) :=
  ((d.channel i j).step (host i) (host j) x).map (d.setChannel i j)

/-- `on_message`, for what a read has delivered: at most one message. -/
def handleNext (d : Deployment peers) (j : Member peers) (cb : Callbacks) :
    List NetEvent → Option (Deployment peers)
  | [] => some d
  | e :: _ => d.actNode j (.deliver e cb)

def step (host : Member peers → Host) (d : Deployment peers) :
    DeploymentAction peers → Option (Deployment peers)
  | .act i x =>
      match x with
      | .deliver .. => none
      | x => d.actNode i x
  | .transmit i t connects =>
      match d.outbox i t with
      | [] => none
      | (j, e) :: rest =>
          if d.NotWriting i t then
            (d.setOutbox i t rest).channelStep host i j (.send t (e.encode (host i)) connects)
          else none
  | .carry i j x =>
      match x with
      | .send .. | .read _ => none
      | x => d.channelStep host i j x
  | .read i j link cb =>
      if d.Free j .server then do
        let d' ← d.channelStep host i j (.read link)
        let old := (d.channel i j).received.length
        d'.handleNext j cb (((d'.channel i j).received.drop old).filterMap (onMessage (host j)))
      else none

end Deployment

/-- All servers of a cluster, each on its host. -/
def deploymentSystem (peers : PeerMap) (host : Member peers → Host) :
    Transition.System (Deployment peers) (DeploymentAction peers) :=
  .ofFun {} (Deployment.step host)

end Raft
