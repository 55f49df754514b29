/-
The wire format: `NetworkUtil` and the four event kinds of `protocol.hpp`.

An unsigned integer type of `w` bytes is a `BitVec (8 * w)` and a plain `char` is
its bit pattern.  Two facts about the host decide what the conversions do and the
source leaves both open: the byte order `is_big_endian` finds, and whether plain
`char` is signed, which is what `aton` widens it by.  They are the two fields of
`Host`.

Decoding is modelled with its faults.  `std::move` into a fixed array, an array
that is read before it was filled and an `assert` that does not hold are outcomes
of their own, beside the one exception the decoder throws.
-/
import Mathlib.Data.UInt

namespace Raft

/-- The bit pattern of a plain `char`. -/
abbrev Byte := BitVec 8

/-- What the conversions depend on in the machine they run on. -/
structure Host where
  /-- What `NetworkUtil::is_big_endian` returns. -/
  bigEndian : Bool
  /-- Plain `char` is a signed type, as it is on x86-64. -/
  charSigned : Bool
  deriving DecidableEq

namespace NetworkUtil

variable {w : Nat}

/-- The loop of `hton`, `shift` going up by 8 while it is at most `bits - 8`.  The
first argument bounds the iterations and only has to be large enough. -/
def htonLoop (h : BitVec (8 * w)) : Nat → Nat → BitVec (8 * w) → BitVec (8 * w)
  | 0, _, n => n
  | fuel + 1, shift, n =>
      if shift ≤ 8 * w - 8 then
        htonLoop h fuel (shift + 8)
          (n ||| (((h >>> shift) &&& 0xff#(8 * w)) <<< (8 * w - 8 - shift)))
      else n

/-- The values `shift` takes in the body of that loop. -/
def htonShifts (w : Nat) : Nat → Nat → List Nat
  | 0, _ => []
  | fuel + 1, shift =>
      if shift ≤ 8 * w - 8 then shift :: htonShifts w fuel (shift + 8) else []

/-- `NetworkUtil::hton`. -/
def hton (host : Host) (h : BitVec (8 * w)) : BitVec (8 * w) :=
  if host.bigEndian then h else htonLoop h (w + 1) 0 0#(8 * w)

/-- `NetworkUtil::ntoh`. -/
def ntoh (host : Host) (n : BitVec (8 * w)) : BitVec (8 * w) := hton host n

/-- The loop of `ntoa`: `i` runs down from the last cell, so each byte lands in
front of those already written. -/
def ntoaLoop (n : BitVec (8 * w)) : Nat → Nat → List Byte → List Byte
  | 0, _, a => a
  | i + 1, shift, a => ntoaLoop n i (shift + 8) ((n >>> shift).setWidth 8 :: a)

/-- `NetworkUtil::ntoa`. -/
def ntoa (n : BitVec (8 * w)) : List Byte := ntoaLoop n w 0 []

/-- `static_cast<T>` of a plain `char`. -/
def widen (host : Host) (c : Byte) : BitVec (8 * w) :=
  if host.charSigned then c.signExtend (8 * w) else c.setWidth (8 * w)

/-- The loop of `aton`. -/
def atonLoop (host : Host) : List Byte → Nat → BitVec (8 * w) → BitVec (8 * w)
  | [], _, n => n
  | c :: rest, shift, n => atonLoop host rest (shift - 8) (n ||| (widen host c <<< shift))

/-- `NetworkUtil::aton`. -/
def aton (host : Host) (a : List Byte) : BitVec (8 * w) :=
  atonLoop host a (8 * w - 8) 0#(8 * w)

/-- `NetworkUtil::htoa`. -/
def htoa (host : Host) (h : BitVec (8 * w)) : List Byte := ntoa (hton host h)

/-- `NetworkUtil::atoh`. -/
def atoh (host : Host) (a : List Byte) : BitVec (8 * w) := ntoh host (aton host a)

/-- A `bool` as the byte it is stored in. -/
def boolBits (b : Bool) : BitVec (8 * 1) := if b then 1#8 else 0#8

/-- `aton<bool>`: a cell is cast to `bool` before the shift, so any non-zero byte
counts as one. -/
def atonBool (a : List Byte) : Bool := a.foldl (fun n c => n || c != 0#8) false

/-- `atoh<bool>`. -/
def atohBool (host : Host) (a : List Byte) : Bool := hton host (boolBits (atonBool a)) != 0#8

end NetworkUtil

open NetworkUtil

/-! ### Events -/

/-- The four event kinds that travel between servers. -/
inductive NetEvent where
  | requestVoteReq (serverId term : UInt64)
  | requestVoteRes (serverId term : UInt64) (voteGranted : Bool)
  | appendEntriesReq (serverId term : UInt64)
  | appendEntriesRes (serverId term : UInt64)
  deriving DecidableEq

namespace NetEvent

/-- `get_type`: the enumerators of `Type`. -/
def getType : NetEvent → BitVec (8 * 2)
  | requestVoteReq .. => 1#16
  | requestVoteRes .. => 2#16
  | appendEntriesReq .. => 3#16
  | appendEntriesRes .. => 4#16

/-- `get_server_id`. -/
def getServerId : NetEvent → UInt64
  | requestVoteReq serverId _ => serverId
  | requestVoteRes serverId _ _ => serverId
  | appendEntriesReq serverId _ => serverId
  | appendEntriesRes serverId _ => serverId

/-- `get_term`. -/
def getTerm : NetEvent → UInt64
  | requestVoteReq _ term => term
  | requestVoteRes _ term _ => term
  | appendEntriesReq _ term => term
  | appendEntriesRes _ term => term

/-- `RaftBaseEvent::encode_member` on a list of 64-bit members. -/
def encodeMember (host : Host) (members : List UInt64) : List Byte :=
  members.flatMap fun m => htoa (w := 8) host m.toBitVec

/-- `get_data`; `RequestVoteRes` appends its flag with `DataUtils::concat`. -/
def getData (host : Host) : NetEvent → List Byte
  | requestVoteRes serverId term voteGranted =>
      encodeMember host [serverId, term] ++ htoa host (boolBits voteGranted)
  | e => encodeMember host [e.getServerId, e.getTerm]

/-- `RaftBaseEvent::encode`. -/
def encode (host : Host) (e : NetEvent) : List Byte :=
  htoa host e.getType ++ e.getData host

end NetEvent

/-! ### Decoding -/

/-- The ways a decode ends without an event: the exception it throws, a failed
`assert`, and three kinds of undefined behaviour. -/
inductive DecodeFailure where
  | invalidArgument (what : String)
  | assertion
  | readOutside
  | writeOutside
  | uninitialised
  deriving DecidableEq

namespace RaftEventFactory

/-- `std::move(src.begin() + first, src.begin() + last, a.begin())` into a
`std::array<char, size>`; the cells it does not reach stay uninitialised. -/
def moveInto (src : List Byte) (first last size : Nat) :
    Except DecodeFailure (List (Option Byte)) :=
  if last < first ∨ src.length < last then .error .readOutside
  else if size < last - first then .error .writeOutside
  else .ok (((src.drop first).take (last - first)).map some
    ++ List.replicate (size - (last - first)) none)

/-- Reading every cell of an array. -/
def readCells : List (Option Byte) → Except DecodeFailure (List Byte)
  | [] => .ok []
  | none :: _ => .error .uninitialised
  | some c :: rest => (readCells rest).map (c :: ·)

/-- The array `decode_member` and `vtoh` fill and then convert. -/
def copyRange (src : List Byte) (first last size : Nat) : Except DecodeFailure (List Byte) :=
  (moveInto src first last size).bind readCells

/-- `NetworkUtil::vtoh<std::uint16_t>`. -/
def vtoh16 (host : Host) (v : List Byte) : Except DecodeFailure (BitVec (8 * 2)) :=
  if v.length ≠ 2 then .error .assertion
  else (copyRange v 0 v.length 2).map (atoh host)

/-- `decode_member` on a 64-bit member. -/
def decodeMember64 (host : Host) (data : List Byte) (first last : Nat) :
    Except DecodeFailure UInt64 :=
  (copyRange data first last 8).map fun a => UInt64.ofBitVec (atoh (w := 8) host a)

/-- `decode_member` on `vote_granted`. -/
def decodeMemberBool (host : Host) (data : List Byte) (first last : Nat) :
    Except DecodeFailure Bool :=
  (copyRange data first last 1).map (atohBool host)

/-- `RaftBaseEvent(std::vector<char>&)`: the server id, then the term. -/
def decodeBase (host : Host) (data : List Byte) : Except DecodeFailure (UInt64 × UInt64) :=
  (decodeMember64 host data 0 8).bind fun serverId =>
    (decodeMember64 host data 8 16).map fun term => (serverId, term)

/-- `RequestVoteRes(std::vector<char>&)`: the flag is everything up to `data.end()`. -/
def decodeRequestVoteRes (host : Host) (data : List Byte) : Except DecodeFailure NetEvent :=
  (decodeBase host data).bind fun base =>
    (decodeMemberBool host data 16 data.length).map fun voteGranted =>
      .requestVoteRes base.1 base.2 voteGranted

/-- `RaftEventFactory::decode`. -/
def decode (host : Host) (v : List Byte) : Except DecodeFailure NetEvent :=
  if v.length < 2 then .error .assertion
  else
    (vtoh16 host (v.take 2)).bind fun type =>
      let data := v.drop 2
      match type.toNat with
      | 1 => (decodeBase host data).map fun base => .requestVoteReq base.1 base.2
      | 2 => decodeRequestVoteRes host data
      | 3 => (decodeBase host data).map fun base => .appendEntriesReq base.1 base.2
      | 4 => (decodeBase host data).map fun base => .appendEntriesRes base.1 base.2
      | _ => .error (.invalidArgument "unsupported type")

end RaftEventFactory

end Raft
