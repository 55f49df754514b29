/-
Messages on a connection: `Message`, `ServerConnection` and `Connection::write`.

A message travels as a frame, its length in a header of four bytes and then its
body.  The receiving side is the pair `read_header` and `read_body`, each of which
reads a fixed number of bytes and either goes on to the other or closes the socket.
Of `async_read` it is used that it completes with exactly the bytes asked for, or
with an error when the stream ends before them.

The sending side is a connection that several threads write to.  `ConnectionPool`
hands all of them the same one and locks only the lookup.  `asio::write` calls
`write_some` until the frame is out, and each of these appends some non-empty part
of what is left to the stream, so the threads may be interleaved inside a frame.
-/
import Mathlib.Logic.Function.Basic
import RaftElection.Library.Transition
import RaftElection.Protocol

namespace Raft

open NetworkUtil

namespace Message

/-- `Message::header_length`. -/
def headerLength : Nat := 4

/-- `Message::encode`; the size is cast to `std::uint32_t`. -/
def encode (host : Host) (data : List Byte) : List Byte :=
  htoa (w := 4) host (BitVec.ofNat (8 * 4) data.length) ++ data

end Message

/-! ### The receiving side -/

/-- `max_msg_size`, which is also the `in_buf_size` of the actor's server. -/
def maxMsgSize : Nat := 1024

/-- `async_read` of `n` bytes: the bytes and what the stream still holds, or an error. -/
def asyncRead (stream : List Byte) (n : Nat) : Option (List Byte × List Byte) :=
  if n ≤ stream.length then some (stream.take n, stream.drop n) else none

/-- What the connection does next. -/
inductive ConnectionPc where
  | readHeader
  | readBody
  | closed
  deriving DecidableEq

structure ServerConnection where
  header : List Byte := []
  /-- The buffer all bodies are read into. -/
  body : List Byte
  /-- What the peer has sent and the connection has not read. -/
  stream : List Byte
  pc : ConnectionPc := .readHeader
  /-- The messages `on_message` was called with. -/
  delivered : List (List Byte) := []
  deriving DecidableEq

namespace ServerConnection

/-- A connection whose peer sends these bytes and is then lost. -/
def accept (inBufSize : Nat) (stream : List Byte) : ServerConnection where
  body := List.replicate inBufSize 0#8
  stream := stream

def readHeader (c : ServerConnection) : ServerConnection :=
  match asyncRead c.stream Message.headerLength with
  | none => { c with pc := .closed }
  | some (header, rest) => { c with header := header, stream := rest, pc := .readBody }

def readBody (host : Host) (c : ServerConnection) : ServerConnection :=
  let bodyLength := (atoh (w := 4) host c.header).toNat
  if c.body.length < bodyLength then { c with pc := .closed }
  else
    match asyncRead c.stream bodyLength with
    | none => { c with pc := .closed }
    | some (bytes, rest) =>
        let body := bytes ++ c.body.drop bodyLength
        { c with
          body := body
          stream := rest
          delivered := c.delivered ++ [body.take bodyLength]
          pc := .readHeader }

def step (host : Host) (c : ServerConnection) : ServerConnection :=
  match c.pc with
  | .readHeader => c.readHeader
  | .readBody => c.readBody host
  | .closed => c

/-- The reads a connection makes; `fuel` bounds their number. -/
def run (host : Host) : Nat → ServerConnection → ServerConnection
  | 0, c => c
  | fuel + 1, c => run host fuel (c.step host)

end ServerConnection

/-! ### The sending side -/

/-- Where a thread stands that sends on the connection. -/
inductive WriterPc where
  | idle
  /-- In `asio::write`: this part of the frame is out and this one is left. -/
  | writing (out rest : List Byte)
  deriving DecidableEq

/-- A pooled connection and the threads that write to it. -/
structure Connection (τ : Type) where
  /-- The messages each thread still has to send. -/
  todo : τ → List (List Byte)
  writer : τ → WriterPc := fun _ => .idle
  stream : List Byte := []

inductive WriteAction (τ : Type) where
  /-- `Client::send` up to the first `write_some`. -/
  | send (t : τ)
  /-- One `write_some`, which takes `n` bytes. -/
  | writeSome (t : τ) (n : Nat)
  deriving DecidableEq

namespace Connection

variable {τ : Type} [DecidableEq τ]

def step (host : Host) (c : Connection τ) : WriteAction τ → Option (Connection τ)
  | .send t =>
      match c.writer t, c.todo t with
      | .idle, data :: rest =>
          some { c with
            todo := Function.update c.todo t rest
            writer := Function.update c.writer t (.writing [] (Message.encode host data)) }
      | _, _ => none
  | .writeSome t n =>
      match c.writer t with
      | .writing out rest =>
          if 0 < n ∧ n ≤ rest.length then
            some { c with
              writer := Function.update c.writer t
                (if n = rest.length then .idle else .writing (out ++ rest.take n) (rest.drop n))
              stream := c.stream ++ rest.take n }
          else none
      | .idle => none

end Connection

/-- Threads that send these messages, each its own in order, in any interleaving. -/
def writeSystem (host : Host) {τ : Type} [DecidableEq τ] (msgs : τ → List (List Byte)) :
    Transition.System (Connection τ) (WriteAction τ) :=
  .ofFun { todo := msgs } (Connection.step host)

end Raft
