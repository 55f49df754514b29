/-
What comes out of one connection that may break at any time.

The frames on a connection stand one after another, the last perhaps torn: a writer is in the
middle of it, or has failed there.  What the server has read of its next frame, what has
arrived and what is on its way are together a beginning of that (`Intact`).  So what a read
delivers is the message that is next, and of a torn frame nothing is delivered: its length is
never read as a smaller one, and more than it announces does not come.
-/
import RaftElection.Transport
import RaftElection.Proofs.Messages

namespace Raft

open NetworkUtil

namespace Link

variable {τ : Type} {sender receiver : Host} {k k' : Link τ} {later : List (List Byte)}
  {torn : Option (List Byte × Nat)}

/-- The beginning of a frame that was not finished. -/
def tornBytes (sender : Host) (torn : Option (List Byte × Nat)) : List Byte :=
  match torn with
  | none => []
  | some (data, n) => (Message.encode sender data).take n

/-- What was written after the messages delivered. -/
def ahead (sender : Host) (later : List (List Byte)) (torn : Option (List Byte × Nat)) :
    List Byte :=
  later.flatMap (Message.encode sender) ++ tornBytes sender torn

/-- The header of the frame whose body is read next. -/
def header (k : Link τ) : List Byte :=
  match k.server.pc with
  | .readBody => k.server.header
  | .readHeader | .closed => []

/-- The messages begun are those delivered, those in `later`, whose frames are whole, and at
last the torn one; the server is at a place in their frames. -/
structure Intact (sender receiver : Host) (k : Link τ) (later : List (List Byte))
    (torn : Option (List Byte × Nat)) : Prop where
  begun : k.begun.map Prod.snd = k.server.delivered ++ later ++ (torn.map Prod.fst).toList
  legible : ∀ data ∈ k.begun.map Prod.snd, Legible sender receiver data.length
  torn_lt : ∀ data n, torn = some (data, n) → n < (Message.encode sender data).length
  header : k.server.pc = .readBody → k.server.header.length = 4
  place : k.server.pc ≠ .closed → k.header ++ k.server.stream <+: ahead sender later torn
  coming : k.server.pc ≠ .closed → k.lost = false →
    k.header ++ k.server.stream ++ k.inFlight = ahead sender later torn
  body : k.server.body.length = maxMsgSize

theorem intact_empty : Intact sender receiver ({} : Link τ) [] none := by
  refine ⟨rfl, ?_, ?_, ?_, ?_, ?_, ?_⟩
  · exact fun _ hx => absurd hx List.not_mem_nil
  · intro _ _ hc
    cases hc
  · intro hc
    cases hc
  · exact fun _ => List.nil_prefix
  · exact fun _ _ => rfl
  · simp [ServerConnection.accept]

/-- More bytes have arrived. -/
theorem Intact.arrive (h : Intact sender receiver k later torn) {n : Nat} (hlost : k.lost = false) :
    Intact sender receiver { k with
      inFlight := k.inFlight.drop n
      server := { k.server with stream := k.server.stream ++ k.inFlight.take n } } later torn := by
  refine ⟨h.begun, h.legible, h.torn_lt, h.header, ?_, ?_, h.body⟩
  · intro hpc
    refine ⟨k.inFlight.drop n, ?_⟩
    rw [← h.coming hpc hlost]
    show k.header ++ (k.server.stream ++ k.inFlight.take n) ++ k.inFlight.drop n = _
    rw [List.append_assoc, List.append_assoc, List.take_append_drop, List.append_assoc]
  · intro hpc _
    rw [← h.coming hpc hlost]
    show k.header ++ (k.server.stream ++ k.inFlight.take n) ++ k.inFlight.drop n = _
    rw [List.append_assoc, List.append_assoc, List.take_append_drop, List.append_assoc]

/-- The connection is lost, and with it some of what has arrived. -/
theorem Intact.lose (h : Intact sender receiver k later torn) (keep : Nat) :
    Intact sender receiver { k with
      lost := true
      server := { k.server with stream := k.server.stream.take keep } } later torn := by
  refine ⟨h.begun, h.legible, h.torn_lt, h.header, ?_, ?_, h.body⟩
  · intro hpc
    refine List.IsPrefix.trans ?_ (h.place hpc)
    exact (List.prefix_append_right_inj k.header).mpr (List.take_prefix keep k.server.stream)
  · intro _ hc
    cases hc

theorem Intact.close (h : Intact sender receiver k later torn) :
    Intact sender receiver { k with closed := true } later torn :=
  ⟨h.begun, h.legible, h.torn_lt, h.header, h.place, h.coming, h.body⟩

/-! ### A read -/

/-- A server that has given up delivers nothing more. -/
theorem Intact.giveUp (h : Intact sender receiver k later torn) :
    Intact sender receiver { k with server := { k.server with pc := .closed } } later torn := by
  refine ⟨h.begun, h.legible, h.torn_lt, ?_, ?_, ?_, h.body⟩
  · intro hc
    cases hc
  · exact fun hc => absurd rfl hc
  · exact fun hc => absurd rfl hc

theorem Intact.readHeader (h : Intact sender receiver k later torn)
    (hpc : k.server.pc = .readHeader) (hlen : 4 ≤ k.server.stream.length) :
    Intact sender receiver { k with server := { k.server with
      header := k.server.stream.take 4
      stream := k.server.stream.drop 4
      pc := .readBody } } later torn := by
  have hopen : k.server.pc ≠ .closed := by rw [hpc]; decide
  have hnone : k.header = [] := by rw [Link.header, hpc]
  have hsame : k.server.stream.take 4 ++ k.server.stream.drop 4 = k.server.stream :=
    List.take_append_drop 4 _
  refine ⟨h.begun, h.legible, h.torn_lt, ?_, ?_, ?_, h.body⟩
  · intro _
    show (k.server.stream.take 4).length = 4
    rw [List.length_take]
    omega
  · intro _
    have hplace := h.place hopen
    rw [hnone, List.nil_append, ← hsame] at hplace
    exact hplace
  · intro _ hlost
    have hcoming := h.coming hopen hlost
    rw [hnone, List.nil_append, ← hsame] at hcoming
    exact hcoming

/-- In front of what is ahead stands the header of the message that is next. -/
theorem ahead_next (sender : Host) (later : List (List Byte)) (torn : Option (List Byte × Nat)) :
    ahead sender later torn = tornBytes sender torn ∧ later = [] ∨
      ∃ data rest, later = data :: rest ∧
        ahead sender later torn = Message.encode sender data ++ ahead sender rest torn := by
  cases later with
  | nil => exact Or.inl ⟨rfl, rfl⟩
  | cons data rest =>
      refine Or.inr ⟨data, rest, rfl, ?_⟩
      rw [ahead, List.flatMap_cons, List.append_assoc]
      rfl

/-- A header and the bytes after it, at the beginning of a frame and what follows. -/
theorem prefix_frame {bytes stream follows data : List Byte} (hlen : bytes.length = 4)
    (h : bytes ++ stream <+: Message.encode sender data ++ follows) :
    bytes = htoa (w := 4) sender (BitVec.ofNat (8 * 4) data.length) ∧
      stream <+: data ++ follows := by
  obtain ⟨more, hmore⟩ := h
  rw [Message.encode, List.append_assoc, List.append_assoc] at hmore
  obtain ⟨hbytes, hstream⟩ := List.append_inj hmore (by rw [hlen, length_htoa])
  exact ⟨hbytes, more, hstream⟩

/-- The header that was read is that of a message begun, and what has arrived since is part
of its frame and of those behind it. -/
theorem Intact.announced (h : Intact sender receiver k later torn)
    (hpc : k.server.pc = .readBody) :
    ∃ data ∈ k.begun.map Prod.snd,
      k.server.header = htoa (w := 4) sender (BitVec.ofNat (8 * 4) data.length) ∧
      ((∃ rest, later = data :: rest ∧ k.server.stream <+: data ++ ahead sender rest torn) ∨
        torn ≠ none ∧ k.server.stream.length < data.length) := by
  have hheader : k.header = k.server.header := by rw [Link.header, hpc]
  have hplace := h.place (by rw [hpc]; decide)
  rw [hheader] at hplace
  rcases ahead_next sender later torn with ⟨htorn, rfl⟩ | ⟨data, rest, rfl, hahead⟩
  · cases torn with
    | none =>
        rw [htorn, tornBytes, List.prefix_nil, List.append_eq_nil_iff] at hplace
        have hlength := h.header hpc
        rw [hplace.1] at hlength
        cases hlength
    | some x =>
        obtain ⟨data, m⟩ := x
        have hwhole : k.server.header ++ k.server.stream <+: Message.encode sender data ++ [] := by
          rw [htorn] at hplace
          exact hplace.trans ((List.take_prefix m _).trans (List.prefix_append _ _))
        obtain ⟨hbytes, -⟩ := prefix_frame (h.header hpc) hwhole
        refine ⟨data, ?_, hbytes, Or.inr ⟨by simp, ?_⟩⟩
        · rw [h.begun]
          exact List.mem_append_right _ (List.mem_singleton_self data)
        · -- The frame is torn, so less than its body has arrived.
          have hshort := hplace.length_le
          have hlt := h.torn_lt data m rfl
          rw [htorn, tornBytes, List.length_append, h.header hpc, List.length_take] at hshort
          rw [ServerConnection.length_encode] at hlt
          omega
  · rw [hahead] at hplace
    obtain ⟨hbytes, hstream⟩ := prefix_frame (h.header hpc) hplace
    refine ⟨data, ?_, hbytes, Or.inl ⟨rest, rfl, hstream⟩⟩
    rw [h.begun]
    exact List.mem_append_left _ (List.mem_append_right _ List.mem_cons_self)

/-- A body that fits the buffer and has all arrived is that of the message that is next. -/
theorem Intact.next (h : Intact sender receiver k later torn) (hpc : k.server.pc = .readBody)
    {n : Nat} (hn : n = (atoh (w := 4) receiver k.server.header).toNat)
    (hfits : n ≤ maxMsgSize) (hlen : n ≤ k.server.stream.length) :
    ∃ data rest, later = data :: rest ∧ n = data.length ∧
      k.header = htoa (w := 4) sender (BitVec.ofNat (8 * 4) data.length) ∧
      k.server.stream.take n = data := by
  obtain ⟨data, hdata, hbytes, hstream⟩ := h.announced hpc
  have hlegible := h.legible data hdata
  have hread : n = readLength sender receiver data.length := by
    rw [hn, hbytes]
    rfl
  have hsame : n = data.length := by
    by_cases hsmall : data.length ≤ maxMsgSize
    · rw [hread, hlegible.1 hsmall]
    · have hlarge := hlegible.2 (Nat.not_le.mp hsmall)
      omega
  rcases hstream with ⟨rest, hlater, hstream⟩ | ⟨-, hshort⟩
  · refine ⟨data, rest, hlater, hsame, by rw [Link.header, hpc, hbytes], ?_⟩
    have htake := hstream.take data.length
    rw [List.take_left, ← hsame] at htake
    exact htake.eq_of_length (by rw [List.length_take]; omega)
  · omega

/-- The message that is next is delivered. -/
theorem Intact.deliver (h : Intact sender receiver k later torn) (hpc : k.server.pc = .readBody)
    {data : List Byte} {rest : List (List Byte)} (hlater : later = data :: rest)
    (hheader : k.header = htoa (w := 4) sender (BitVec.ofNat (8 * 4) data.length))
    (htake : k.server.stream.take data.length = data) (hfits : data.length ≤ maxMsgSize) :
    Intact sender receiver { k with server := { k.server with
      body := data ++ k.server.body.drop data.length
      stream := k.server.stream.drop data.length
      delivered := k.server.delivered ++ [data]
      pc := .readHeader } } rest torn := by
  have hopen : k.server.pc ≠ .closed := by rw [hpc]; decide
  have hsplit : k.header ++ k.server.stream
      = Message.encode sender data ++ k.server.stream.drop data.length := by
    rw [hheader, Message.encode, List.append_assoc]
    nth_rewrite 1 [← List.take_append_drop data.length k.server.stream]
    rw [htake]
  have hahead : ahead sender later torn = Message.encode sender data ++ ahead sender rest torn := by
    rw [hlater, ahead, List.flatMap_cons, List.append_assoc]
    rfl
  refine ⟨?_, h.legible, h.torn_lt, ?_, ?_, ?_, ?_⟩
  · rw [h.begun, hlater]
    show _ = (k.server.delivered ++ [data]) ++ rest ++ _
    simp
  · intro hc
    cases hc
  · intro _
    have hplace := h.place hopen
    rw [hsplit, hahead] at hplace
    exact (List.prefix_append_right_inj _).mp hplace
  · intro _ hlost
    have hcoming := h.coming hopen hlost
    rw [hsplit, hahead, List.append_assoc] at hcoming
    exact List.append_cancel_left hcoming
  · show (data ++ k.server.body.drop data.length).length = maxMsgSize
    rw [List.length_append, List.length_drop, h.body]
    omega

/-- **A read delivers the message that is next, or none.** -/
theorem Intact.read (h : Intact sender receiver k later torn) :
    (k.server.step receiver).delivered = k.server.delivered ∧
        Intact sender receiver { k with server := k.server.step receiver } later torn ∨
      ∃ data rest, later = data :: rest ∧
        (k.server.step receiver).delivered = k.server.delivered ++ [data] ∧
        Intact sender receiver { k with server := k.server.step receiver } rest torn := by
  unfold ServerConnection.step
  cases hpc : k.server.pc with
  | closed =>
      refine Or.inl ⟨rfl, ?_⟩
      exact h
  | readHeader =>
      refine Or.inl ?_
      simp only [ServerConnection.readHeader, asyncRead]
      by_cases hlen : Message.headerLength ≤ k.server.stream.length
      · rw [if_pos hlen]
        exact ⟨rfl, h.readHeader hpc hlen⟩
      · rw [if_neg hlen]
        exact ⟨rfl, h.giveUp⟩
  | readBody =>
      simp only [ServerConnection.readBody, asyncRead]
      by_cases hlarge : k.server.body.length < (atoh (w := 4) receiver k.server.header).toNat
      · rw [if_pos hlarge]
        exact Or.inl ⟨rfl, h.giveUp⟩
      rw [if_neg hlarge]
      by_cases hlen : (atoh (w := 4) receiver k.server.header).toNat ≤ k.server.stream.length
      · rw [if_pos hlen]
        rw [h.body] at hlarge
        obtain ⟨data, rest, hlater, hn, hheader, htake⟩ :=
          h.next hpc rfl (Nat.not_lt.mp hlarge) hlen
        rw [hn] at htake
        refine Or.inr ⟨data, rest, hlater, ?_, ?_⟩
        · simp [hn, htake]
        · have hdeliver := h.deliver hpc hlater hheader htake (by omega)
          simpa [hn, htake] using hdeliver
      · rw [if_neg hlen]
        exact Or.inl ⟨rfl, h.giveUp⟩

/-- Where every message fits the buffer and the connection holds, a read that is over is one
that has its bytes. -/
theorem Intact.read_open (h : Intact sender receiver k later torn)
    (hready : k.ready receiver = true) (hlost : k.lost = false)
    (hfits : ∀ data ∈ k.begun.map Prod.snd, data.length ≤ maxMsgSize) :
    (k.server.step receiver).pc ≠ .closed := by
  unfold ServerConnection.step
  unfold Link.ready at hready
  cases hpc : k.server.pc with
  | closed =>
      rw [hpc] at hready
      cases hready
  | readHeader =>
      simp only [hpc, hlost, Bool.or_false, decide_eq_true_eq] at hready
      simp only [ServerConnection.readHeader, asyncRead, if_pos hready]
      decide
  | readBody =>
      obtain ⟨data, hdata, hbytes, -⟩ := h.announced hpc
      have hlen : (atoh (w := 4) receiver k.server.header).toNat = data.length := by
        rw [hbytes]
        exact (h.legible data hdata).1 (hfits data hdata)
      have hsmall : ¬ k.server.body.length < (atoh (w := 4) receiver k.server.header).toNat := by
        rw [h.body, hlen]
        exact Nat.not_lt.mpr (hfits data hdata)
      simp only [hpc, hlost, Bool.or_false, Bool.or_eq_true, decide_eq_true_eq] at hready
      simp only [ServerConnection.readBody, asyncRead, if_neg hsmall,
        if_pos (hready.resolve_left hsmall)]
      decide

/-- **Where nothing is on its way and nobody writes, the server has read everything.** -/
theorem Intact.drained (h : Intact sender receiver k later none)
    (hready : k.ready receiver = false) (hlost : k.lost = false) (hopen : k.server.pc ≠ .closed)
    (hempty : k.inFlight = [])
    (hfits : ∀ data ∈ k.begun.map Prod.snd, data.length ≤ maxMsgSize) :
    k.server.delivered = k.begun.map Prod.snd := by
  have hcoming := h.coming hopen hlost
  rw [hempty, List.append_nil] at hcoming
  unfold Link.ready at hready
  rcases ahead_next sender later none with ⟨-, rfl⟩ | ⟨data, rest, rfl, hahead⟩
  · rw [h.begun]
    simp
  · exfalso
    have hlength := congrArg List.length (hcoming.trans hahead)
    rw [List.length_append, List.length_append, ServerConnection.length_encode] at hlength
    cases hpc : k.server.pc with
    | closed => exact hopen hpc
    | readHeader =>
        simp only [hpc, hlost, Bool.or_false, decide_eq_false_iff_not] at hready
        simp only [Link.header, hpc, List.length_nil, Message.headerLength] at hlength hready
        omega
    | readBody =>
        obtain ⟨data', hdata, hbytes, ⟨rest', heq, -⟩ | ⟨hc, -⟩⟩ := h.announced hpc
        · obtain ⟨rfl, rfl⟩ := List.cons.inj heq
          have hlen : (atoh (w := 4) receiver k.server.header).toNat = data.length := by
            rw [hbytes]
            exact (h.legible data hdata).1 (hfits data hdata)
          simp only [hpc, hlost, Bool.or_false, Bool.or_eq_false_iff,
            decide_eq_false_iff_not] at hready
          simp only [Link.header, hpc, h.header hpc] at hlength
          omega
        · exact hc rfl

/-! ### A write

The server may be in the middle of a frame that is still being written.  What it has read of it
and what is to come are a beginning of the frame all the same, and a write makes that longer.
-/

/-- A write adds to the frame its thread is at, which is the torn one or a new one. -/
theorem Intact.put (h : Intact sender receiver k later torn) {t : τ} {w : Writing} {n : Nat}
    (htorn : torn = if w.written = 0 then none else some (w.data, w.written))
    (hlegible : Legible sender receiver w.data.length)
    (hroom : w.written + n ≤ (Message.encode sender w.data).length) :
    Intact sender receiver (Channel.put sender t w n k)
      (if w.written + n = (Message.encode sender w.data).length then later ++ [w.data] else later)
      (if w.written + n = (Message.encode sender w.data).length then none
        else some (w.data, w.written + n)) := by
  let frame := Message.encode sender w.data
  have hbytes : ahead sender later torn ++ (frame.drop w.written).take n
      = later.flatMap (Message.encode sender) ++ frame.take (w.written + n) := by
    have htake : frame.take (w.written + n)
        = frame.take w.written ++ (frame.drop w.written).take n := List.take_add
    rw [ahead, List.append_assoc, htake, htorn]
    by_cases hzero : w.written = 0
    · rw [if_pos hzero, hzero, List.take_zero]
      rfl
    · rw [if_neg hzero]
      rfl
  have hafter : later.flatMap (Message.encode sender) ++ frame.take (w.written + n)
      = ahead sender (if w.written + n = frame.length then later ++ [w.data] else later)
        (if w.written + n = frame.length then none else some (w.data, w.written + n)) := by
    by_cases hend : w.written + n = frame.length
    · rw [if_pos hend, if_pos hend, hend, List.take_length, ahead, List.flatMap_append,
        List.flatMap_singleton, tornBytes, List.append_nil]
    · rw [if_neg hend, if_neg hend]
      rfl
  refine ⟨?_, ?_, ?_, h.header, ?_, ?_, h.body⟩
  · have hbegun := h.begun
    by_cases hzero : w.written = 0
    · simp only [htorn, hzero, if_true, Option.map_none, Option.toList_none,
        List.append_nil] at hbegun
      simp only [Channel.put, hzero, if_true, List.map_append, hbegun]
      split <;> simp
    · simp only [htorn, hzero, if_false] at hbegun
      simp only [Channel.put, hzero, if_false, hbegun]
      split <;> simp
  · intro data hdata
    by_cases hzero : w.written = 0
    · simp only [Channel.put, hzero, if_true, List.map_append, List.mem_append] at hdata
      rcases hdata with hdata | hdata
      · exact h.legible data hdata
      · rw [List.mem_singleton.mp hdata]
        exact hlegible
    · simp only [Channel.put, hzero, if_false] at hdata
      exact h.legible data hdata
  · intro data m hm
    split at hm
    · cases hm
    · obtain ⟨rfl, rfl⟩ := Prod.mk.inj (Option.some.inj hm)
      omega
  · intro hpc
    rw [← hafter, ← hbytes]
    exact (h.place hpc).trans (List.prefix_append _ _)
  · intro hpc hlost
    rw [← hafter, ← hbytes, ← h.coming hpc hlost]
    show k.header ++ k.server.stream ++ (k.inFlight ++ (frame.drop w.written).take n) = _
    rw [List.append_assoc, List.append_assoc, List.append_assoc]

end Link

end Raft
