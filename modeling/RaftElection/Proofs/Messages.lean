/-
What reaches the other end of a connection.

The header of a frame is written and read by the same conversions as the fields of an
event, so it is not in network byte order on a little-endian host, and a length with a
byte of 0x80 or more may be read too large.  The second does no harm: the lengths that
fit the buffer are read as they were written, and of any other length at least as much
is read, so a message that is too large is never taken for a smaller one.

From there the reader keeps its place in the stream by itself, as long as frames follow
one another.  Two threads that write to one connection see to that only if neither
writes while the other is in the middle of a frame.
-/
import Mathlib.Data.Fintype.Basic
import RaftElection.Library.Sequences
import RaftElection.Messages
import RaftElection.Proofs.Protocol

namespace Raft

open Bytes NetworkUtil Sequences

/-! ### Byte order on the wire

`htoa` converts with `hton` and then takes the bytes from the top, which on a little-endian host
is a second conversion.  The bytes on the wire are then big-endian only for words that read the
same from either end.
-/

section ByteOrder

variable {w : Nat}

/-- The bytes of the word read the same from either end. -/
def Palindromic (x : BitVec (8 * w)) : Prop := ∀ k < w, byte x k = byte x (w - 1 - k)

instance (x : BitVec (8 * w)) : Decidable (Palindromic x) :=
  inferInstanceAs (Decidable (∀ k < w, _))

theorem htoa_little_eq_iff (host : Host) (hhost : host.bigEndian = false) (x : BitVec (8 * w)) :
    htoa host x = digits w x.toNat ↔ Palindromic x := by
  rw [htoa_eq, digits_toNat, List.map_inj_left]
  simp only [hhost, Bool.false_eq_true, if_false, List.mem_range]
  rfl

theorem htoa_big_eq (host : Host) (hhost : host.bigEndian = true) (x : BitVec (8 * w)) :
    htoa host x = digits w x.toNat := by
  rw [htoa_eq, digits_toNat, hhost]
  rfl

/-- No type of event reads the same from either end. -/
theorem not_palindromic_getType (e : NetEvent) : ¬ Palindromic e.getType := by
  intro h
  have hends := h 0 (by decide)
  cases e <;> simp [NetEvent.getType, byte] at hends

/-- **When the bytes on the wire are in network byte order.**  On a little-endian host
`hton` has already mirrored the word when `ntoa` lists its bytes from the top, so what
is sent begins with the least significant byte.  Headers agree between the two kinds of
host exactly where the mirror image is the same, and events never do. -/
theorem wire_byte_order (host : Host) (h : BitVec (8 * w)) (signed signed' : Bool)
    (data : List Byte) (e : NetEvent) :
    (htoa host h = digits w h.toNat ↔ host.bigEndian = true ∨ Palindromic h) ∧
      (Message.encode ⟨false, signed⟩ data = Message.encode ⟨true, signed'⟩ data ↔
        Palindromic (w := 4) (BitVec.ofNat (8 * 4) data.length)) ∧
      e.encode ⟨false, signed⟩ ≠ e.encode ⟨true, signed'⟩ := by
  refine ⟨?_, ?_, ?_⟩
  · cases hb : host.bigEndian with
    | true => simp [htoa_big_eq host hb]
    | false => simp [htoa_little_eq_iff host hb]
  · rw [Message.encode, Message.encode, List.append_cancel_right_eq,
      htoa_big_eq ⟨true, signed'⟩ rfl, htoa_little_eq_iff ⟨false, signed⟩ rfl]
  · intro heq
    have htype : htoa ⟨false, signed⟩ e.getType = htoa ⟨true, signed'⟩ e.getType :=
      List.append_inj_left heq (by simp)
    rw [htoa_big_eq ⟨true, signed'⟩ rfl, htoa_little_eq_iff ⟨false, signed⟩ rfl] at htype
    exact not_palindromic_getType e htype

/-- The number 1 in two bytes, from a little-endian host. -/
theorem htoa_one_little_endian :
    htoa (w := 2) ⟨false, true⟩ 1#16 = [1#8, 0#8] ∧ digits 2 1 = [0#8, 1#8] ∧
      ¬ ∀ (host : Host) (h : BitVec (8 * 2)), htoa host h = digits 2 h.toNat := by
  have hwire : htoa (w := 2) ⟨false, true⟩ 1#16 = [1#8, 0#8] := by decide
  have hdigits : digits 2 1 = [0#8, 1#8] := by decide
  refine ⟨hwire, hdigits, ?_⟩
  intro hall
  have hsame := hall ⟨false, true⟩ 1#16
  rw [hwire] at hsame
  exact absurd hsame (by decide)

end ByteOrder

/-! ### The length in a header -/

section Header

variable {sender receiver : Host}

/-- Only the byte order of the sender shows on the wire. -/
theorem htoa_congr {w : Nat} (h : sender.bigEndian = receiver.bigEndian) (x : BitVec (8 * w)) :
    htoa sender x = htoa receiver x := by
  rw [htoa_eq, htoa_eq, h]

/-- The length a receiver reads where `n` was written. -/
def readLength (sender receiver : Host) (n : Nat) : Nat :=
  (atoh (w := 4) receiver (htoa (w := 4) sender (BitVec.ofNat (8 * 4) n))).toNat

/-- A length that fits the buffer is read as it was written: on little-endian hosts its
bytes of 0x80 and more are among those sent first. -/
theorem readLength_of_fits (hs : sender.bigEndian = false) (hr : receiver.bigEndian = false)
    {n : Nat} (hn : n ≤ maxMsgSize) : readLength sender receiver n = n := by
  have hn' : n ≤ 1024 := hn
  have hsurvives : Survives (w := 4) receiver (BitVec.ofNat (8 * 4) n) := by
    intro _ i hi k hk hik hmsb
    simp only [SentAfter, hr, Bool.false_eq_true, if_false] at hik
    have hsmall : n / 256 ^ i < 128 := by
      have hpow : 256 ^ 1 ≤ 256 ^ i := Nat.pow_le_pow_right (by decide) (by omega)
      have hle : n / 256 ^ i ≤ n / 256 ^ 1 := Nat.div_le_div_left hpow (by decide)
      omega
    rw [msb_byte_eq_false] at hmsb
    · cases hmsb
    · rw [BitVec.toNat_ofNat, Nat.mod_eq_of_lt (by omega)]
      exact hsmall
  rw [readLength, htoa_congr (hs.trans hr.symm), (atoh_htoa_eq_iff receiver _).mpr hsurvives,
    BitVec.toNat_ofNat, Nat.mod_eq_of_lt (by omega)]

/-- No length is read as a smaller one: what the sign of a byte can do is to fill others
with ones. -/
theorem le_readLength (h : sender.bigEndian = receiver.bigEndian) {n : Nat} (hn : n < 2 ^ 32) :
    n ≤ readLength sender receiver n := by
  have hle := toNat_le_of_bytes (w := 4) (x := BitVec.ofNat (8 * 4) n)
    (y := atoh receiver (htoa receiver (BitVec.ofNat (8 * 4) n))) ?_
  · rw [BitVec.toNat_ofNat, Nat.mod_eq_of_lt (by omega)] at hle
    rw [readLength, htoa_congr h]
    exact hle
  · intro k hk
    rw [byte_atoh_htoa receiver _ hk]
    split
    · exact Or.inr rfl
    · exact Or.inl rfl

/-- The reader tells from what it reads of this length whether the body fits its buffer,
and if so how long it is. -/
def Legible (sender receiver : Host) (n : Nat) : Prop :=
  (n ≤ maxMsgSize → readLength sender receiver n = n) ∧
    (maxMsgSize < n → maxMsgSize < readLength sender receiver n)

theorem legible_of_little (hs : sender.bigEndian = false) (hr : receiver.bigEndian = false)
    {n : Nat} (hn : n < 2 ^ 32) : Legible sender receiver n := by
  refine ⟨readLength_of_fits hs hr, ?_⟩
  intro hlarge
  exact Nat.lt_of_lt_of_le hlarge (le_readLength (hs.trans hr.symm) hn)

end Header

/-! ### One read -/

theorem asyncRead_append {bytes : List Byte} {n : Nat} (h : bytes.length = n) (rest : List Byte) :
    asyncRead (bytes ++ rest) n = some (bytes, rest) := by
  unfold asyncRead
  rw [if_pos (by simp [h]), List.take_left' h, List.drop_left' h]

theorem asyncRead_of_short {stream : List Byte} {n : Nat} (h : stream.length < n) :
    asyncRead stream n = none := by
  unfold asyncRead
  rw [if_neg (by omega)]

namespace ServerConnection

variable {host : Host} {c : ServerConnection} {bytes rest : List Byte}

theorem run_of_closed (h : c.pc = .closed) : ∀ fuel, run host fuel c = c := by
  intro fuel
  induction fuel with
  | zero => rfl
  | succ fuel ih =>
      rw [run, step, h]
      exact ih

theorem step_of_short (hpc : c.pc = .readHeader) (h : c.stream.length < 4) :
    c.step host = { c with pc := .closed } := by
  rw [step, hpc]
  simp only [readHeader]
  rw [asyncRead_of_short (by exact h)]

theorem step_of_header (hpc : c.pc = .readHeader) (hlen : bytes.length = 4)
    (h : c.stream = bytes ++ rest) :
    c.step host = { c with header := bytes, stream := rest, pc := .readBody } := by
  rw [step, hpc]
  simp only [readHeader]
  rw [h, asyncRead_append (by exact hlen)]

theorem step_of_large (hpc : c.pc = .readBody)
    (h : c.body.length < (atoh (w := 4) host c.header).toNat) :
    c.step host = { c with pc := .closed } := by
  rw [step, hpc]
  simp only [readBody]
  rw [if_pos h]

theorem step_of_partial (hpc : c.pc = .readBody)
    (h : c.stream.length < (atoh (w := 4) host c.header).toNat) :
    c.step host = { c with pc := .closed } := by
  rw [step, hpc]
  simp only [readBody]
  rw [asyncRead_of_short h]
  split <;> rfl

theorem step_of_body (hpc : c.pc = .readBody)
    (hlen : (atoh (w := 4) host c.header).toNat = bytes.length)
    (hfits : bytes.length ≤ c.body.length) (h : c.stream = bytes ++ rest) :
    c.step host =
      { c with
        body := bytes ++ c.body.drop bytes.length
        stream := rest
        delivered := c.delivered ++ [bytes]
        pc := .readHeader } := by
  rw [step, hpc]
  simp only [readBody, hlen]
  rw [if_neg (by omega), h, asyncRead_append rfl]
  simp

/-! ### A whole stream

By induction on the list of messages: the first frame is taken whole if the stream has it all,
and the rest of the stream is the stream of the rest.  What stops the server is a frame that is
cut short or one it refuses, and it reads nothing after that.
-/

variable {sender : Host} {cut : Nat}

/-- These messages all fit the buffer, and their frames lie before the cut. -/
def Received (sender : Host) (cut : Nat) (msgs : List (List Byte)) : Prop :=
  (∀ data ∈ msgs, data.length ≤ maxMsgSize) ∧
    (msgs.flatMap (Message.encode sender)).length ≤ cut

theorem length_encode (sender : Host) (data : List Byte) :
    (Message.encode sender data).length = 4 + data.length := by
  simp [Message.encode]

theorem received_nil : Received sender cut [] := by simp [Received]

theorem received_cons {data : List Byte} {msgs : List (List Byte)} :
    Received sender cut (data :: msgs) ↔
      data.length ≤ maxMsgSize ∧ 4 + data.length ≤ cut ∧
        Received sender (cut - (4 + data.length)) msgs := by
  simp only [Received, List.forall_mem_cons, List.flatMap_cons, List.length_append, length_encode]
  constructor
  · intro h
    obtain ⟨⟨hfits, hrest⟩, hcut⟩ := h
    exact ⟨hfits, by omega, hrest, by omega⟩
  · intro h
    obtain ⟨hfits, hcut, hrest, hcut'⟩ := h
    exact ⟨⟨hfits, hrest⟩, by omega⟩

/-- A frame that lies before the cut, with what follows it. -/
theorem take_frame (data : List Byte) (rest : List Byte) (h : 4 ≤ cut) :
    (Message.encode sender data ++ rest).take cut
      = htoa (w := 4) sender (BitVec.ofNat (8 * 4) data.length) ++ (data ++ rest).take (cut - 4) := by
  rw [Message.encode, List.append_assoc, List.take_append, length_htoa,
    List.take_of_length_le (by simp [h])]

section Frame

variable {data follows : List Byte} {room : Nat} (hlegible : Legible sender host data.length)
  (hpc : c.pc = .readBody)
  (hheader : c.header = htoa (w := 4) sender (BitVec.ofNat (8 * 4) data.length))
  (hbody : c.body.length = maxMsgSize) (hstream : c.stream = (data ++ follows).take room)

include hlegible hpc hheader hbody hstream

/-- A body that fits and has arrived is delivered, and the next frame is in place. -/
theorem step_delivers (hfits : data.length ≤ maxMsgSize) (hroom : data.length ≤ room) :
    c.step host =
      { c with
        body := data ++ c.body.drop data.length
        stream := follows.take (room - data.length)
        delivered := c.delivered ++ [data]
        pc := .readHeader } := by
  have hlen : (atoh (w := 4) host c.header).toNat = data.length := by
    rw [hheader]
    exact hlegible.1 hfits
  refine step_of_body hpc hlen (by rw [hbody]; exact hfits) ?_
  rw [hstream, List.take_append, List.take_of_length_le hroom]

/-- Of any other body nothing is delivered, now or later. -/
theorem step_refuses (h : ¬ (data.length ≤ maxMsgSize ∧ data.length ≤ room)) :
    c.step host = { c with pc := .closed } := by
  by_cases hfits : data.length ≤ maxMsgSize
  · have hlen : (atoh (w := 4) host c.header).toNat = data.length := by
      rw [hheader]
      exact hlegible.1 hfits
    refine step_of_partial hpc ?_
    rw [hlen, hstream, List.length_take]
    omega
  · refine step_of_large hpc ?_
    rw [hbody, hheader]
    exact hlegible.2 (Nat.not_le.mp hfits)

end Frame

/-- The reader from the beginning of a frame on, whatever its buffer still holds. -/
theorem run_stream :
    ∀ (msgs : List (List Byte)) (cut fuel : Nat) (c : ServerConnection),
      (∀ data ∈ msgs, Legible sender host data.length) → c.pc = .readHeader →
      c.body.length = maxMsgSize →
      c.stream = (msgs.flatMap (Message.encode sender)).take cut → c.stream.length < fuel →
      (run host fuel c).pc = .closed ∧
        ∃ p, (run host fuel c).delivered = c.delivered ++ p ∧
          Longest (Received sender cut) msgs p := by
  intro msgs
  induction msgs with
  | nil =>
      intro cut fuel c _ hpc hbody hstream hfuel
      obtain ⟨fuel, rfl⟩ := Nat.exists_eq_succ_of_ne_zero (Nat.ne_of_gt (Nat.zero_lt_of_lt hfuel))
      rw [run, step_of_short hpc (by simp [hstream]), run_of_closed rfl]
      exact ⟨rfl, [], by simp, Longest.nil received_nil⟩
  | cons data rest ih =>
      intro cut fuel c hlegible hpc hbody hstream hfuel
      rw [List.flatMap_cons] at hstream
      -- Where the reader stops, nothing of this message counts as received.
      have hstop : ∀ {c' : ServerConnection} {fuel : Nat}, c'.delivered = c.delivered →
          (∀ q, ¬ Received sender cut (data :: q)) →
          (run host fuel { c' with pc := .closed }).pc = .closed ∧
            ∃ p, (run host fuel { c' with pc := .closed }).delivered = c.delivered ++ p ∧
              Longest (Received sender cut) (data :: rest) p := by
        intro c' fuel hdelivered hno
        rw [run_of_closed rfl]
        exact ⟨rfl, [], by simpa using hdelivered, Longest.stop received_nil hno⟩
      obtain ⟨fuel, rfl⟩ := Nat.exists_eq_succ_of_ne_zero (Nat.ne_of_gt (Nat.zero_lt_of_lt hfuel))
      by_cases hcut : cut < 4
      · have hshort : c.stream.length < 4 := by
          rw [hstream, List.length_take]
          omega
        rw [run, step_of_short hpc hshort]
        exact hstop rfl (fun q hq => by have := (received_cons.mp hq).2.1; omega)
      have hframe := hstream.trans (take_frame data _ (Nat.not_lt.mp hcut))
      obtain ⟨fuel, rfl⟩ := Nat.exists_eq_succ_of_ne_zero (n := fuel) (by
        rw [hframe, List.length_append, length_htoa] at hfuel
        omega)
      -- The header is read; what is known of the connection then is all that matters.
      obtain ⟨c₁, hc₁⟩ : ∃ c₁, c₁ = c.step host := ⟨_, rfl⟩
      have hread := hc₁.trans (step_of_header hpc (length_htoa sender _) hframe)
      have hpc₁ : c₁.pc = .readBody := by rw [hread]
      have hheader₁ : c₁.header = htoa (w := 4) sender (BitVec.ofNat (8 * 4) data.length) := by
        rw [hread]
      have hbody₁ : c₁.body.length = maxMsgSize := by rw [hread]; exact hbody
      have hstream₁ : c₁.stream = (data ++ rest.flatMap (Message.encode sender)).take (cut - 4) := by
        rw [hread]
      have hdelivered₁ : c₁.delivered = c.delivered := by rw [hread]
      have hnext : Legible sender host data.length := hlegible data List.mem_cons_self
      rw [run, run, ← hc₁]
      by_cases hgood : data.length ≤ maxMsgSize ∧ data.length ≤ cut - 4
      · have hwhole : 4 + data.length ≤ cut := by omega
        rw [step_delivers hnext hpc₁ hheader₁ hbody₁ hstream₁ hgood.1 hgood.2, Nat.sub_sub]
        have hlater := ih (cut - (4 + data.length)) fuel
          { c₁ with
            body := data ++ c₁.body.drop data.length
            stream := (rest.flatMap (Message.encode sender)).take (cut - (4 + data.length))
            delivered := c₁.delivered ++ [data]
            pc := .readHeader }
          (fun data' hmem => hlegible data' (List.mem_cons_of_mem _ hmem)) rfl
          (by simp [hbody₁]; omega) rfl (by
            rw [hframe] at hfuel
            simp only [List.length_append, length_htoa, List.length_take] at hfuel ⊢
            omega)
        obtain ⟨hclosed, p, hp, hlongest⟩ := hlater
        refine ⟨hclosed, data :: p, ?_, hlongest.cons ?_⟩
        · rw [hp, hdelivered₁, List.append_assoc]
          rfl
        · intro q
          rw [received_cons]
          exact ⟨fun h => h.2.2, fun h => ⟨hgood.1, hwhole, h⟩⟩
      · rw [step_refuses hnext hpc₁ hheader₁ hbody₁ hstream₁ hgood]
        refine hstop hdelivered₁ (fun q hq => hgood ?_)
        obtain ⟨hfits, hwhole, -⟩ := received_cons.mp hq
        exact ⟨hfits, by omega⟩

/-- **What is delivered from a connection that is lost after any number of bytes.**  The
messages passed to `on_message` are the longest beginning of those sent whose frames
arrived whole and whose sizes all fit the buffer, byte for byte, and then the connection
is closed. -/
theorem stream_fidelity (sender receiver : Host) (hs : sender.bigEndian = false)
    (hr : receiver.bigEndian = false) (msgs : List (List Byte))
    (hsize : ∀ data ∈ msgs, data.length < 2 ^ 32) (cut fuel : Nat)
    (hfuel : ((msgs.flatMap (Message.encode sender)).take cut).length < fuel) :
    (run receiver fuel
        (accept maxMsgSize ((msgs.flatMap (Message.encode sender)).take cut))).pc = .closed ∧
      Longest (Received sender cut) msgs
        (run receiver fuel
          (accept maxMsgSize ((msgs.flatMap (Message.encode sender)).take cut))).delivered := by
  obtain ⟨hclosed, p, hp, hlongest⟩ := run_stream msgs cut fuel (accept maxMsgSize _)
    (fun data hdata => legible_of_little hs hr (hsize data hdata)) rfl (by simp [accept]) rfl hfuel
  rw [hp]
  exact ⟨hclosed, hlongest⟩

/-- Three messages and a connection that breaks in the middle of the third. -/
theorem stream_fidelity_of_three :
    (run ⟨false, true⟩ 14 (accept maxMsgSize
        (([[1#8], [128#8, 2#8], [3#8]].flatMap (Message.encode ⟨false, false⟩)).take 13))).pc
        = .closed ∧
      [[1#8], [128#8, 2#8]] <+: (run ⟨false, true⟩ 14 (accept maxMsgSize
        (([[1#8], [128#8, 2#8], [3#8]].flatMap (Message.encode ⟨false, false⟩)).take 13))).delivered := by
  obtain ⟨hclosed, hlongest⟩ := stream_fidelity ⟨false, false⟩ ⟨false, true⟩ rfl rfl
    [[1#8], [128#8, 2#8], [3#8]] (by decide) 13 14 (by decide)
  refine ⟨hclosed, hlongest.most _ ⟨[[3#8]], rfl⟩ ⟨by decide, ?_⟩⟩
  simp [length_encode]

end ServerConnection

/-! ### Several threads on one connection

`asio::write` is a loop of `write_some`, and nothing keeps a second thread out of it.  Where no
thread writes inside another's frame, the stream is a list of whole frames in some order that
respects each thread's own, and that order is the invariant.
-/

namespace Connection

open Transition

section Frames

variable {τ : Type}

/-- A part of a frame of this thread is out, and a part is not. -/
def Mid (c : Connection τ) (t : τ) : Prop := ∃ out rest, c.writer t = .writing out rest ∧ out ≠ []

theorem Mid.congr {c c' : Connection τ} {t : τ} (h : c.Mid t)
    (hwriter : c'.writer t = c.writer t) : c'.Mid t := by
  obtain ⟨out, rest, hwriting, hout⟩ := h
  exact ⟨out, rest, hwriter.trans hwriting, hout⟩

/-- No thread writes while another is in the middle of a frame. -/
def Undivided (c : Connection τ) (x : WriteAction τ) (_ : Connection τ) : Prop :=
  match x with
  | .send _ => True
  | .writeSome t _ => ∀ t', t' ≠ t → ¬ c.Mid t'

/-- Every thread has sent what it had to send. -/
def Finished (c : Connection τ) : Prop := ∀ t, c.writer t = .idle ∧ c.todo t = []

instance (c : Connection τ) (t : τ) : Decidable (c.Mid t) :=
  match hwriter : c.writer t with
  | .idle => isFalse (by rintro ⟨_, _, h, _⟩; cases hwriter.symm.trans h)
  | .writing out rest => decidable_of_iff (out ≠ [])
      ⟨fun hout => ⟨out, rest, hwriter, hout⟩,
        by rintro ⟨_, _, h, hout⟩; cases hwriter.symm.trans h; exact hout⟩

instance [Fintype τ] [DecidableEq τ] (c : Connection τ) : ∀ x c', Decidable (Undivided c x c')
  | .send _, _ => isTrue trivial
  | .writeSome t _, _ => inferInstanceAs (Decidable (∀ t', t' ≠ t → ¬ c.Mid t'))

instance [Fintype τ] (c : Connection τ) : Decidable c.Finished :=
  inferInstanceAs (Decidable (∀ t, c.writer t = .idle ∧ c.todo t = []))

/-- The frames of these messages, one after another. -/
def frames (host : Host) (order : List (τ × List Byte)) : List Byte :=
  order.flatMap fun x => Message.encode host x.2

theorem frames_concat (host : Host) (order : List (τ × List Byte)) (t : τ) (data : List Byte) :
    frames host (order ++ [(t, data)]) = frames host order ++ Message.encode host data := by
  simp [frames]

theorem frames_eq (host : Host) (order : List (τ × List Byte)) :
    frames host order = (order.map Prod.snd).flatMap (Message.encode host) := by
  rw [frames, List.flatMap_map]

end Frames

variable {τ : Type} [DecidableEq τ] {host : Host} {msgs : τ → List (List Byte)}
  {c c' : Connection τ} {x : WriteAction τ}

/-- How far a thread is: its messages are those it has finished, one it may be writing,
and those it has still to send. -/
def Place (host : Host) (msgs : τ → List (List Byte)) (order : List (τ × List Byte))
    (c : Connection τ) (t : τ) : Prop :=
  match c.writer t with
  | .idle => mine t order ++ c.todo t = msgs t
  | .writing out rest => rest ≠ [] ∧ ∃ data, out ++ rest = Message.encode host data ∧
      mine t order ++ data :: c.todo t = msgs t

/-- The stream so far: the frames in `order`, which are what each thread has finished, and
then the part of a frame that some thread is in the middle of. -/
structure Ordered (host : Host) (msgs : τ → List (List Byte)) (order : List (τ × List Byte))
    (c : Connection τ) : Prop where
  place : ∀ t, Place host msgs order c t
  whole : (∀ t, ¬ c.Mid t) → c.stream = frames host order
  torn : ∀ t out rest, c.writer t = .writing out rest → out ≠ [] →
    c.stream = frames host order ++ out

section Steps

variable {order order' : List (τ × List Byte)} {t t' : τ} {out rest data : List Byte}

theorem Place.idle (h : Place host msgs order c t) (hidle : c.writer t = .idle) :
    mine t order ++ c.todo t = msgs t := by
  rw [Place, hidle] at h
  exact h

theorem Place.writing (h : Place host msgs order c t) (hwriting : c.writer t = .writing out rest) :
    rest ≠ [] ∧ ∃ data, out ++ rest = Message.encode host data ∧
      mine t order ++ data :: c.todo t = msgs t := by
  rw [Place, hwriting] at h
  exact h

/-- A thread that does not move stays in its place. -/
theorem Place.congr (h : Place host msgs order c t) (hwriter : c'.writer t = c.writer t)
    (htodo : c'.todo t = c.todo t) (horder : mine t order' = mine t order) :
    Place host msgs order' c' t := by
  rw [Place, hwriter, htodo, horder]
  exact h

namespace Ordered

/-- A thread takes up its next message. -/
theorem send (h : Ordered host msgs order c) {later : List (List Byte)}
    (hidle : c.writer t = .idle) (htodo : c.todo t = data :: later)
    (hself : c'.writer t = .writing [] (Message.encode host data)) (htodo' : c'.todo t = later)
    (hwriter : ∀ t', t' ≠ t → c'.writer t' = c.writer t')
    (hrest : ∀ t', t' ≠ t → c'.todo t' = c.todo t') (hstream : c'.stream = c.stream) :
    Ordered host msgs order c' := by
  constructor
  case place =>
    intro t'
    by_cases ht : t' = t
    · subst ht
      rw [Place, hself, htodo']
      refine ⟨?_, data, rfl, ?_⟩
      · refine List.ne_nil_of_length_pos ?_
        rw [ServerConnection.length_encode]
        omega
      · rw [← htodo]
        exact (h.place t').idle hidle
    · exact (h.place t').congr (hwriter t' ht) (hrest t' ht) rfl
  case whole =>
    intro hnone
    rw [hstream]
    refine h.whole ?_
    intro t' hmid
    by_cases ht : t' = t
    · obtain ⟨out, rest, hwriting, -⟩ := hmid
      rw [ht, hidle] at hwriting
      cases hwriting
    · exact hnone t' (hmid.congr (hwriter t' ht))
  case torn =>
    intro t' out rest hwriting hout
    rw [hstream]
    by_cases ht : t' = t
    · rw [ht, hself] at hwriting
      exact absurd (WriterPc.writing.inj hwriting).1.symm hout
    · rw [hwriter t' ht] at hwriting
      exact h.torn t' out rest hwriting hout

/-- What precedes the part a thread writes next, if no other is in the middle of a frame. -/
theorem stream_eq (h : Ordered host msgs order c) (hwriting : c.writer t = .writing out rest)
    (halone : ∀ t', t' ≠ t → ¬ c.Mid t') : c.stream = frames host order ++ out := by
  by_cases hout : out = []
  · rw [hout, List.append_nil]
    refine h.whole ?_
    intro t' hmid
    by_cases ht : t' = t
    · obtain ⟨out', rest', hwriting', hout'⟩ := hmid
      rw [ht, hwriting] at hwriting'
      exact hout' ((WriterPc.writing.inj hwriting').1.symm.trans hout)
    · exact halone t' ht hmid
  · exact h.torn t out rest hwriting hout

/-- A thread writes a part of its frame that does not end it. -/
theorem writePart (h : Ordered host msgs order c) {n : Nat}
    (hwriting : c.writer t = .writing out rest) (halone : ∀ t', t' ≠ t → ¬ c.Mid t')
    (hpos : 0 < n) (hlt : n < rest.length)
    (hself : c'.writer t = .writing (out ++ rest.take n) (rest.drop n))
    (hwriter : ∀ t', t' ≠ t → c'.writer t' = c.writer t') (htodo : c'.todo = c.todo)
    (hstream : c'.stream = c.stream ++ rest.take n) :
    Ordered host msgs order c' := by
  obtain ⟨-, data, hframe, hmsgs⟩ := (h.place t).writing hwriting
  constructor
  case place =>
    intro t'
    by_cases ht : t' = t
    · subst ht
      rw [Place, hself, htodo]
      refine ⟨?_, data, ?_, hmsgs⟩
      · refine List.ne_nil_of_length_pos ?_
        rw [List.length_drop]
        omega
      · rw [List.append_assoc, List.take_append_drop]
        exact hframe
    · exact (h.place t').congr (hwriter t' ht) (by rw [htodo]) rfl
  case whole =>
    intro hnone
    refine absurd ⟨_, _, hself, ?_⟩ (hnone t)
    refine List.ne_nil_of_length_pos ?_
    rw [List.length_append, List.length_take]
    omega
  case torn =>
    intro t' out' rest' hwriting' hout'
    by_cases ht : t' = t
    · rw [ht, hself] at hwriting'
      obtain ⟨rfl, rfl⟩ := WriterPc.writing.inj hwriting'
      rw [hstream, h.stream_eq hwriting halone, List.append_assoc]
    · rw [hwriter t' ht] at hwriting'
      exact absurd ⟨out', rest', hwriting', hout'⟩ (halone t' ht)

/-- A thread writes the rest of its frame. -/
theorem writeRest (h : Ordered host msgs order c) (hwriting : c.writer t = .writing out rest)
    (halone : ∀ t', t' ≠ t → ¬ c.Mid t') (hself : c'.writer t = .idle)
    (hwriter : ∀ t', t' ≠ t → c'.writer t' = c.writer t') (htodo : c'.todo = c.todo)
    (hstream : c'.stream = c.stream ++ rest) :
    ∃ data, Ordered host msgs (order ++ [(t, data)]) c' := by
  obtain ⟨-, data, hframe, hmsgs⟩ := (h.place t).writing hwriting
  refine ⟨data, ?_, ?_, ?_⟩
  · intro t'
    by_cases ht : t' = t
    · subst ht
      rw [Place, hself, htodo, mine_concat_self, List.append_assoc]
      exact hmsgs
    · exact (h.place t').congr (hwriter t' ht) (by rw [htodo])
        (mine_concat_of_ne (Ne.symm ht) data order)
  · intro _
    rw [hstream, h.stream_eq hwriting halone, List.append_assoc, hframe, frames_concat]
  · intro t' out' rest' hwriting' hout'
    by_cases ht : t' = t
    · rw [ht, hself] at hwriting'
      cases hwriting'
    · rw [hwriter t' ht] at hwriting'
      exact absurd ⟨out', rest', hwriting', hout'⟩ (halone t' ht)

theorem step (h : Ordered host msgs order c) (hstep : c.step host x = some c')
    (hx : Undivided c x c') : ∃ order', Ordered host msgs order' c' := by
  cases x with
  | send t =>
      simp only [Connection.step] at hstep
      split at hstep
      · rename_i data later hidle htodo
        obtain rfl := Option.some.inj hstep
        exact ⟨order, h.send hidle htodo (Function.update_self ..) (Function.update_self ..)
          (fun _ ht => Function.update_of_ne ht ..) (fun _ ht => Function.update_of_ne ht ..) rfl⟩
      · cases hstep
  | writeSome t n =>
      simp only [Connection.step] at hstep
      split at hstep
      · rename_i out rest hwriting
        simp only [Option.ite_none_right_eq_some, Option.some.injEq] at hstep
        obtain ⟨⟨hpos, hle⟩, rfl⟩ := hstep
        by_cases hlast : n = rest.length
        · rw [if_pos hlast, List.take_of_length_le (Nat.le_of_eq hlast.symm)]
          obtain ⟨data, hordered⟩ : ∃ data, Ordered host msgs (order ++ [(t, data)])
              { c with writer := Function.update c.writer t .idle, stream := c.stream ++ rest } :=
            h.writeRest hwriting hx (Function.update_self ..)
              (fun _ ht => Function.update_of_ne ht ..) rfl rfl
          exact ⟨_, hordered⟩
        · rw [if_neg hlast]
          exact ⟨order, h.writePart hwriting hx hpos (by omega) (Function.update_self ..)
            (fun _ ht => Function.update_of_ne ht ..) rfl rfl⟩
      · cases hstep

end Ordered

end Steps

/-- The threads' frames stay whole, in some order. -/
theorem ordered_of_reachable (h : ((writeSystem host msgs).restrict Undivided).Reachable c) :
    ∃ order, Ordered host msgs order c := by
  refine h.invariant (I := fun c => ∃ order, Ordered host msgs order c) ?_ ?_
  · intro c₀ hc₀
    rw [hc₀]
    refine ⟨[], fun t => rfl, fun _ => rfl, ?_⟩
    intro t out rest hwriting
    cases hwriting
  · intro c₁ x c₂ _ hc₁ hmove
    obtain ⟨order, hordered⟩ := hc₁
    exact hordered.step hmove.1 hmove.2

/-- Every message fits the receiver's buffer, and its length is read as it was written. -/
def Readable (sender receiver : Host) (msgs : τ → List (List Byte)) : Prop :=
  ∀ t, ∀ data ∈ msgs t, data.length ≤ maxMsgSize ∧
    readLength sender receiver data.length = data.length

/-- Whole frames are delivered in the order they stand in. -/
theorem delivered_frames {receiver : Host} {order : List (τ × List Byte)}
    (hmine : ∀ t, mine t order = msgs t) (hreadable : Readable host receiver msgs) {fuel : Nat}
    (hfuel : (frames host order).length < fuel) :
    (ServerConnection.run receiver fuel (.accept maxMsgSize (frames host order))).delivered
      = order.map Prod.snd := by
  have hsizes : ∀ data ∈ order.map Prod.snd, data.length ≤ maxMsgSize ∧
      readLength host receiver data.length = data.length := by
    intro data hdata
    obtain ⟨⟨t, data'⟩, hmem, rfl⟩ := List.mem_map.mp hdata
    exact hreadable t data' (by rw [← hmine t]; exact mem_mine hmem)
  obtain ⟨-, p, hp, hlongest⟩ := ServerConnection.run_stream (order.map Prod.snd)
    (frames host order).length fuel (.accept maxMsgSize (frames host order))
    (fun data hdata => ⟨fun _ => (hsizes data hdata).2,
      fun hlarge => absurd (hsizes data hdata).1 (Nat.not_le.mpr hlarge)⟩) rfl
    (by simp [ServerConnection.accept])
    (by rw [← frames_eq, List.take_length]; rfl) hfuel
  rw [hp, hlongest.eq_self ⟨fun data hdata => (hsizes data hdata).1, by rw [frames_eq]⟩]
  rfl

/-- **Where no thread writes while another is in the middle of a frame, frames stay
whole.**  When all threads are done the stream is an interleaving of their frames, and
every message the receiver can read is delivered once, in that order. -/
theorem frames_stay_whole (h : ((writeSystem host msgs).restrict Undivided).Reachable c)
    (hdone : c.Finished) :
    ∃ order : List (τ × List Byte), (∀ t, mine t order = msgs t) ∧
      c.stream = frames host order ∧
      ∀ receiver, Readable host receiver msgs → ∀ fuel, c.stream.length < fuel →
        (ServerConnection.run receiver fuel (.accept maxMsgSize c.stream)).delivered
          = order.map Prod.snd := by
  obtain ⟨order, hordered⟩ := ordered_of_reachable h
  have hmine : ∀ t, mine t order = msgs t := by
    intro t
    have hplace := (hordered.place t).idle (hdone t).1
    rw [(hdone t).2, List.append_nil] at hplace
    exact hplace
  have hstream : c.stream = frames host order := by
    refine hordered.whole ?_
    intro t hmid
    obtain ⟨out, rest, hwriting, -⟩ := hmid
    rw [(hdone t).1] at hwriting
    cases hwriting
  refine ⟨order, hmine, hstream, ?_⟩
  intro receiver hreadable fuel hfuel
  rw [hstream] at hfuel ⊢
  exact delivered_frames hmine hreadable hfuel

/-- The messages of two threads, one each. -/
def oneEach : Bool → List (List Byte)
  | false => [[1#8]]
  | true => [[2#8]]

theorem readable_oneEach : Readable ⟨false, true⟩ ⟨false, true⟩ oneEach := by
  intro t data hdata
  have hfits : data.length ≤ maxMsgSize := by
    revert data
    cases t <;> decide
  exact ⟨hfits, readLength_of_fits rfl rfl hfits⟩

/-- Two threads that take turns, the first with an interruption of its own. -/
theorem frames_stay_whole_of_turns : ∃ c : Connection Bool,
    ((writeSystem ⟨false, true⟩ oneEach).restrict Undivided).Reachable c ∧ c.Finished ∧
      ∃ order : List (Bool × List Byte), (∀ t, mine t order = oneEach t) ∧
        (ServerConnection.run ⟨false, true⟩ 11 (.accept maxMsgSize c.stream)).delivered
          = order.map Prod.snd := by
  obtain ⟨c, hc, hdone, hlength⟩ := System.Reachable.of_execute { todo := oneEach }
    (Connection.step ⟨false, true⟩) Undivided
    [.send false, .send true, .writeSome false 2, .writeSome false 3, .writeSome true 5]
    (fun c => c.Finished ∧ c.stream.length < 11) (by decide +kernel)
  obtain ⟨order, hmine, -, hdelivered⟩ := frames_stay_whole hc hdone
  exact ⟨c, hc, hdone, order, hmine, hdelivered _ readable_oneEach 11 hlength⟩

/-- The first thread writes one byte of its frame, the second all of its own, and the
first the rest: the receiver reads a length of 257 and delivers nothing. -/
theorem torn_frame : ∃ c : Connection Bool,
    (writeSystem ⟨false, true⟩ oneEach).Reachable c ∧ c.Finished ∧
      (ServerConnection.run ⟨false, true⟩ 11 (.accept maxMsgSize c.stream)).pc = .closed ∧
      (ServerConnection.run ⟨false, true⟩ 11 (.accept maxMsgSize c.stream)).delivered = [] ∧
      ¬ ∃ order : List (Bool × List Byte), (∀ t, mine t order = oneEach t) ∧
        c.stream = frames ⟨false, true⟩ order := by
  obtain ⟨c, hc, hdone, hlength, hclosed, hnothing⟩ :=
    System.Reachable.of_execute { todo := oneEach } (Connection.step ⟨false, true⟩)
      (fun _ _ _ => True)
      [.send false, .send true, .writeSome false 1, .writeSome true 5, .writeSome false 4]
      (fun c => c.Finished ∧ c.stream.length < 11 ∧
        (ServerConnection.run ⟨false, true⟩ 11 (.accept maxMsgSize c.stream)).pc = .closed ∧
        (ServerConnection.run ⟨false, true⟩ 11 (.accept maxMsgSize c.stream)).delivered = [])
      (by decide +kernel)
  refine ⟨c, hc.unrestrict, hdone, hclosed, hnothing, ?_⟩
  intro hwhole
  obtain ⟨order, hmine, hstream⟩ := hwhole
  rw [hstream] at hlength hnothing
  rw [delivered_frames hmine readable_oneEach hlength, List.map_eq_nil_iff] at hnothing
  have hfirst := hmine false
  rw [hnothing] at hfirst
  cases hfirst

end Connection

end Raft
