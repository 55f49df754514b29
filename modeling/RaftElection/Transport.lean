/-
Transport: what one server sends to another, over as many connections as that takes.

`Messages.lean` has one connection, which is there from the beginning, and `Sending.lean` a
pool without bytes.  Here both are put together for one address.  The threads of a client
fetch the pooled connection one after another and write their frames to it part by part.  A
write that fails sets `closed_`, whatever part of the frame is out, and the next `get` makes
another connection.  At the other end each connection has a `ServerConnection` of its own,
whose pending read completes once enough has arrived, so `on_message` gets the messages of
several connections side by side.

A connection delivers what is written to it in order, as far as it delivers it.  It may be
lost at any time, with all that is on its way and any part of what has arrived and was not
read; the client learns of that from a write that fails, or never.  A name that does not
resolve and an address that does not answer are the same here: there is no connection.
-/
import RaftElection.Messages

namespace Raft

open NetworkUtil

/-- A connection with both its ends. -/
structure Link (τ : Type) where
  /-- `closed_` of the `Connection`. -/
  closed : Bool := false
  /-- Written, and not yet at the server. -/
  inFlight : List Byte := []
  lost : Bool := false
  server : ServerConnection := .accept maxMsgSize []
  /-- The messages of which something has been written, in that order.  Nothing reads this. -/
  begun : List (τ × List Byte) := []

/-- A thread in `Connection::write`, with how much of the frame is out. -/
structure Writing where
  link : Nat
  data : List Byte
  written : Nat := 0
  deriving DecidableEq

/-- The threads of a client, its connections to one address and the server there. -/
structure Channel (τ : Type) where
  /-- All connections ever made; the one in the pool is the last. -/
  links : List (Link τ) := []
  writer : τ → Option Writing := fun _ => none
  /-- What `Client::send` was called with, by thread.  Nothing reads this. -/
  asked : τ → List (List Byte) := fun _ => []
  /-- What `on_message` was called with, over all connections. -/
  received : List (List Byte) := []

inductive ChannelAction (τ : Type) where
  /-- `Client::send` up to the first `write_some`; `connects` tells how an attempt to connect
  would fare. -/
  | send (t : τ) (data : List Byte) (connects : Bool)
  /-- One `write_some`, which takes `n` bytes. -/
  | writeSome (t : τ) (n : Nat)
  /-- `asio::write` returns an error. -/
  | fail (t : τ)
  | arrive (link n : Nat)
  /-- The connection is lost, and all but `keep` bytes of what was not read. -/
  | lose (link keep : Nat)
  /-- The handler of the pending `async_read` runs. -/
  | read (link : Nat)
  deriving DecidableEq

/-- The pending read is over: it has all its bytes, or is not even made, or never gets them. -/
def Link.ready {τ : Type} (receiver : Host) (k : Link τ) : Bool :=
  match k.server.pc with
  | .readHeader => decide (Message.headerLength ≤ k.server.stream.length) || k.lost
  | .readBody =>
      let bodyLength := (atoh (w := 4) receiver k.server.header).toNat
      decide (k.server.body.length < bodyLength) || decide (bodyLength ≤ k.server.stream.length)
        || k.lost
  | .closed => false

namespace Channel

variable {τ : Type}

def setLink (c : Channel τ) (l : Nat) (k : Link τ) : Channel τ :=
  { c with links := c.links.set l k }

/-- `ConnectionPool::get`: which connection it returns, if any. -/
def get (c : Channel τ) (connects : Bool) : Channel τ × Option Nat :=
  if c.links.getLast?.any (!·.closed) then (c, some (c.links.length - 1))
  else if connects then ({ c with links := c.links ++ [{}] }, some c.links.length)
  else (c, none)

variable [DecidableEq τ]

def setWriter (c : Channel τ) (t : τ) (w : Option Writing) : Channel τ :=
  { c with writer := Function.update c.writer t w }

/-- `Connection::write` is entered, if there is a connection. -/
def enter (c : Channel τ) (t : τ) (data : List Byte) : Option Nat → Channel τ
  | none => c
  | some l => c.setWriter t (some { link := l, data := data })

/-- `Client::send`, before anything is written. -/
def send (c : Channel τ) (t : τ) (data : List Byte) (connects : Bool) : Channel τ :=
  let c := { c with asked := Function.update c.asked t (c.asked t ++ [data]) }
  (c.get connects).1.enter t data (c.get connects).2

/-- What a connection is after `n` more bytes of the frame that `w` is at. -/
def put (sender : Host) (t : τ) (w : Writing) (n : Nat) (k : Link τ) : Link τ :=
  { k with
    inFlight := k.inFlight ++ ((Message.encode sender w.data).drop w.written).take n
    begun := if w.written = 0 then k.begun ++ [(t, w.data)] else k.begun }

def step (sender receiver : Host) (c : Channel τ) : ChannelAction τ → Option (Channel τ)
  | .send t data connects => if c.writer t = none then some (c.send t data connects) else none
  | .writeSome t n => do
      let w ← c.writer t
      let k ← c.links[w.link]?
      let length := (Message.encode sender w.data).length
      if 0 < n ∧ w.written + n ≤ length then
        some ((c.setLink w.link (put sender t w n k)).setWriter t
          (if w.written + n = length then none else some { w with written := w.written + n }))
      else none
  | .fail t => do
      let w ← c.writer t
      let k ← c.links[w.link]?
      some ((c.setLink w.link { k with closed := true }).setWriter t none)
  | .arrive l n => do
      let k ← c.links[l]?
      if k.lost = false ∧ n ≤ k.inFlight.length then
        some (c.setLink l { k with
          inFlight := k.inFlight.drop n
          server := { k.server with stream := k.server.stream ++ k.inFlight.take n } })
      else none
  | .lose l keep => do
      let k ← c.links[l]?
      some (c.setLink l { k with
        lost := true
        server := { k.server with stream := k.server.stream.take keep } })
  | .read l => do
      let k ← c.links[l]?
      if k.ready receiver then
        let server := k.server.step receiver
        some { c.setLink l { k with server := server } with
          received := c.received ++ server.delivered.drop k.server.delivered.length }
      else none

end Channel

/-- Threads that send anything to one address, whatever the network does. -/
def channelSystem (sender receiver : Host) (τ : Type) [DecidableEq τ] :
    Transition.System (Channel τ) (ChannelAction τ) :=
  .ofFun {} (Channel.step sender receiver)

/-- `on_message` of a `RemoteRaftActor`: the event its handler is called with. -/
def onMessage (receiver : Host) (data : List Byte) : Option NetEvent :=
  (RaftEventFactory.decode receiver data).toOption

/-- The events that were handled. -/
def Channel.handled {τ : Type} (receiver : Host) (c : Channel τ) : List NetEvent :=
  c.received.filterMap (onMessage receiver)

end Raft
