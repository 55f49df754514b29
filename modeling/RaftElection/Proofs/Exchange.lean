/-
Events over the transport.

`RemoteRaftActor::send` encodes an event and `on_message` decodes what arrives, so what is
handled is what the transport delivers, each event in the shape `arrived` in which its fields
come through.  The messages are short, which makes their lengths legible between any two hosts
of one byte order.

Whatever the network does, the events handled are among those sent, each at most once, and those
of one connection in the order in which they were written: this is the network `Cluster.lean`
assumes.  Where nothing is lost they are all of them, in the order of each thread.
-/
import RaftElection.Proofs.Transport

namespace Raft

open NetworkUtil RaftEventFactory Sequences Transition

/-! ### Encoded events -/

section Codec

variable {sender receiver : Host}

/-- A length of one byte without its top bit is read as it was written. -/
theorem readLength_of_small (h : sender.bigEndian = receiver.bigEndian) {n : Nat} (hn : n < 128) :
    readLength sender receiver n = n := by
  have hsurvives : Survives (w := 4) receiver (BitVec.ofNat (8 * 4) n) := by
    intro _ i hi k hk _ hmsb
    have hsmall : n / 256 ^ i < 128 := Nat.lt_of_le_of_lt (Nat.div_le_self n _) hn
    rw [Bytes.msb_byte_eq_false] at hmsb
    · cases hmsb
    · rw [BitVec.toNat_ofNat, Nat.mod_eq_of_lt (by omega)]
      exact hsmall
  rw [readLength, htoa_congr h, (atoh_htoa_eq_iff receiver _).mpr hsurvives,
    BitVec.toNat_ofNat, Nat.mod_eq_of_lt (by omega)]

theorem length_event_encode (host : Host) (e : NetEvent) : (e.encode host).length ≤ 19 := by
  cases e <;> simp [NetEvent.encode, NetEvent.getData, NetEvent.encodeMember]

theorem event_fits (host : Host) (e : NetEvent) : (e.encode host).length ≤ maxMsgSize :=
  (length_event_encode host e).trans (by decide)

theorem event_legible (h : sender.bigEndian = receiver.bigEndian) (e : NetEvent) :
    Legible sender receiver (e.encode sender).length := by
  have hsmall := length_event_encode sender e
  refine ⟨fun _ => readLength_of_small h (by omega), ?_⟩
  intro hlarge
  exact absurd (event_fits sender e) (Nat.not_le.mpr hlarge)

/-- An event as the receiver decodes it. -/
def NetEvent.arrived (receiver : Host) : NetEvent → NetEvent
  | .requestVoteReq serverId term =>
      .requestVoteReq (resent receiver serverId) (resent receiver term)
  | .requestVoteRes serverId term voteGranted =>
      .requestVoteRes (resent receiver serverId) (resent receiver term) voteGranted
  | .appendEntriesReq serverId term =>
      .appendEntriesReq (resent receiver serverId) (resent receiver term)
  | .appendEntriesRes serverId term =>
      .appendEntriesRes (resent receiver serverId) (resent receiver term)

theorem event_encode_congr (h : sender.bigEndian = receiver.bigEndian) (e : NetEvent) :
    e.encode sender = e.encode receiver := by
  cases e <;> simp [NetEvent.encode, NetEvent.getData, NetEvent.encodeMember, htoa_congr h]

theorem onMessage_encode (h : sender.bigEndian = receiver.bigEndian) (e : NetEvent) :
    onMessage receiver (e.encode sender) = some (e.arrived receiver) := by
  rw [event_encode_congr h, onMessage, decode_encode]
  cases e <;> rfl

/-- A host like this one whose plain `char` is unsigned, to which nothing is lost. -/
def Host.lossless (host : Host) : Host := { host with charSigned := false }

theorem arrived_lossless (host : Host) (e : NetEvent) : e.arrived host.lossless = e := by
  have hsame : ∀ x : UInt64, resent host.lossless x = x := by
    intro x
    rw [resent_eq_iff]
    intro hc
    cases hc
  cases e <;> simp only [NetEvent.arrived, hsame]

/-- Different events are encoded differently. -/
theorem onMessage_lossless (host : Host) (e : NetEvent) :
    onMessage host.lossless (e.encode host) = some e := by
  rw [onMessage_encode (by rfl), arrived_lossless]

end Codec

namespace Channel

variable {τ : Type} {sender receiver : Host} {c c' : Channel τ} {x : ChannelAction τ}
  {evs : τ → List NetEvent}

/-! ### What is sent is an event -/

/-- What is sent is an event that was encoded. -/
def SendsEvents (sender : Host) : ChannelAction τ → Prop
  | .send _ data _ => ∃ e, data = NetEvent.encode sender e
  | _ => True

/-- Steps of an actor whose threads write neither into each other's frames nor where a write has
failed. -/
def Exchange (sender : Host) (c : Channel τ) (x : ChannelAction τ) (_ : Channel τ) : Prop :=
  c.Apart x ∧ SendsEvents sender x

/-- The same on a network where every attempt to connect and every write succeeds and no
connection is lost. -/
def Smooth (sender : Host) (c : Channel τ) (x : ChannelAction τ) (c' : Channel τ) : Prop :=
  Exchange sender c x c' ∧
    match x with
    | .send _ _ connects => connects = true
    | .fail _ | .lose .. => False
    | _ => True

theorem Exchange.orderly (hhosts : sender.bigEndian = receiver.bigEndian)
    (h : Exchange sender c x c') : Orderly sender receiver c x c' := by
  cases x with
  | send t data connects =>
      obtain ⟨-, e, rfl⟩ := h
      exact event_legible hhosts e
  | writeSome | fail | arrive | lose | read => exact h.1

theorem Smooth.calm (hhosts : sender.bigEndian = receiver.bigEndian) (h : Smooth sender c x c') :
    Calm sender receiver c x c' := by
  refine ⟨h.1.orderly hhosts, ?_⟩
  cases x with
  | send t data connects =>
      obtain ⟨⟨-, e, rfl⟩, hconnects⟩ := h
      exact ⟨hconnects, event_fits sender e⟩
  | writeSome | fail | arrive | lose | read => exact h.2

/-- The event behind a message. -/
def eventOf (sender : Host) (data : List Byte) : NetEvent :=
  (onMessage sender.lossless data).getD (.requestVoteReq 0 0)

theorem eventOf_encode (sender : Host) (e : NetEvent) : eventOf sender (e.encode sender) = e := by
  rw [eventOf, onMessage_lossless]
  rfl

theorem map_eventOf_encode (sender : Host) (l : List NetEvent) :
    (l.map (NetEvent.encode sender)).map (eventOf sender) = l := by
  rw [List.map_map]
  exact (List.map_congr_left fun e _ => eventOf_encode sender e).trans (List.map_id l)

/-- A sequence of messages as one of events. -/
def events (sender : Host) (order : List (τ × List Byte)) : List (τ × NetEvent) :=
  order.map fun x => (x.1, eventOf sender x.2)

/-- Messages that are encoded events are handled as these arrive. -/
theorem filterMap_onMessage (hhosts : sender.bigEndian = receiver.bigEndian)
    {order : List (τ × List Byte)}
    (horder : ∀ x ∈ order, ∃ e, x.2 = NetEvent.encode sender e) :
    (order.map Prod.snd).filterMap (onMessage receiver)
      = (events sender order).map fun x => x.2.arrived receiver := by
  induction order with
  | nil => rfl
  | cons x rest ih =>
      obtain ⟨e, he⟩ := horder x List.mem_cons_self
      have hrest := ih fun y hy => horder y (List.mem_cons_of_mem _ hy)
      rw [List.map_cons, List.filterMap_cons, he, onMessage_encode hhosts, hrest]
      simp only [events, List.map_cons, he, eventOf_encode]

variable [DecidableEq τ]

theorem mine_events (t : τ) (order : List (τ × List Byte)) :
    mine t (events sender order) = (mine t order).map (eventOf sender) := by
  simp only [mine, events, List.filter_map, List.map_map]
  rfl

/-- Every message of a sequence in which each thread's are events it sent is one. -/
theorem exists_event {order : List (τ × List Byte)}
    (hsent : ∀ t, (mine t order).Sublist ((evs t).map (NetEvent.encode sender))) :
    ∀ x ∈ order, ∃ e, x.2 = NetEvent.encode sender e := by
  intro x hx
  obtain ⟨e, -, he⟩ := List.mem_map.mp ((hsent x.1).subset (mem_mine hx))
  exact ⟨e, he.symm⟩

/-! ### At most once, and exactly once -/

/-- `part` are the events handled of one connection: the first of those begun on it, handled in
the order in which they were begun. -/
structure HandledInOrder (sender receiver : Host) (handled : List NetEvent) (k : Link τ)
    (part : List (τ × NetEvent)) : Prop where
  begun : (part.map fun x => (x.1, x.2.encode sender)) <+: k.begun
  delivered : k.server.delivered.filterMap (onMessage receiver)
    = part.map fun x => x.2.arrived receiver
  sublist : (part.map fun x => x.2.arrived receiver).Sublist handled

omit [DecidableEq τ] in
theorem map_encode_events {order : List (τ × List Byte)}
    (horder : ∀ x ∈ order, ∃ e, x.2 = NetEvent.encode sender e) :
    ((events sender order).map fun x => (x.1, x.2.encode sender)) = order := by
  rw [events, List.map_map]
  refine (List.map_congr_left ?_).trans (List.map_id order)
  intro x hx
  obtain ⟨e, he⟩ := horder x hx
  show (x.1, (eventOf sender x.2).encode sender) = x
  rw [he, eventOf_encode, ← he]

/-- What has been handled of one connection. -/
theorem Sound.handled_part (h : Sound sender receiver c)
    (hhosts : sender.bigEndian = receiver.bigEndian)
    (hbegun : ∀ x ∈ c.begun, ∃ e, x.2 = NetEvent.encode sender e) {k : Link τ} (hk : k ∈ c.links) :
    HandledInOrder sender receiver (c.handled receiver) k
      (events sender (k.begun.take k.server.delivered.length)) := by
  have hevents : ∀ x ∈ k.begun.take k.server.delivered.length,
      ∃ e, x.2 = NetEvent.encode sender e :=
    fun x hx => hbegun x (List.mem_flatMap.mpr ⟨k, hk, List.mem_of_mem_take hx⟩)
  have hdelivered : k.server.delivered
      = (k.begun.take k.server.delivered.length).map Prod.snd := by
    rw [List.map_take]
    exact List.prefix_iff_eq_take.mp (h.delivered_prefix k hk)
  have harrived : k.server.delivered.filterMap (onMessage receiver)
      = (events sender (k.begun.take k.server.delivered.length)).map
        fun x => x.2.arrived receiver := by
    rw [← filterMap_onMessage hhosts hevents, ← hdelivered]
  refine ⟨?_, harrived, ?_⟩
  · rw [map_encode_events hevents]
    exact List.take_prefix _ _
  · rw [← harrived]
    exact (h.sublist k hk).filterMap _

/-- **What is handled was sent, and at most as often.**  Whatever connections break and
whenever bytes arrive, there is for each connection a sequence of events, the first of those
begun on it, which are handled in this order.  All sequences together hold for each thread some
of the events it sent, in the order in which it sent them, and they are exactly the events
handled. -/
theorem events_at_most_once (hhosts : sender.bigEndian = receiver.bigEndian)
    (h : ((channelSystem sender receiver τ).restrict (Exchange sender)).Reachable c)
    (hsent : ∀ t, c.asked t = (evs t).map (NetEvent.encode sender)) :
    ∃ order : List (List (τ × NetEvent)),
      List.Forall₂ (HandledInOrder sender receiver (c.handled receiver)) c.links order ∧
      (∀ t, (mine t order.flatten).Sublist (evs t)) ∧
      (c.handled receiver).Perm (order.flatten.map fun x => x.2.arrived receiver) := by
  have hsound : Sound sender receiver c :=
    sound_of_reachable (h.weaken fun _ _ _ hx => hx.orderly hhosts)
  have hdeliveries : ∀ t, (mine t c.deliveries).Sublist ((evs t).map (NetEvent.encode sender)) := by
    intro t
    rw [← hsent t]
    exact hsound.deliveries_sublist t
  have hbegun : ∀ t, (mine t c.begun).Sublist ((evs t).map (NetEvent.encode sender)) := by
    intro t
    rw [← hsent t]
    exact hsound.begun_sublist t
  have hall : (c.links.map fun k => events sender (k.begun.take k.server.delivered.length)).flatten
      = events sender c.deliveries := by
    rw [← List.flatMap_def, deliveries, events, List.map_flatMap]
    rfl
  refine ⟨c.links.map fun k => events sender (k.begun.take k.server.delivered.length), ?_, ?_, ?_⟩
  · rw [List.forall₂_map_right_iff, List.forall₂_same]
    intro k hk
    exact hsound.handled_part hhosts (exists_event hbegun) hk
  · intro t
    have hevents := (hdeliveries t).map (eventOf sender)
    rw [map_eventOf_encode] at hevents
    rw [hall, mine_events]
    exact hevents
  · rw [hall, ← filterMap_onMessage hhosts (exists_event hdeliveries), hsound.deliveries_map]
    exact hsound.perm.filterMap _

section Decidable

variable [Fintype τ]

instance (c : Channel τ) : ∀ x, Decidable (c.Apart x)
  | .writeSome t _ => inferInstanceAs (Decidable (∀ w ∈ c.writer t,
      (∀ k ∈ c.links[w.link]?, k.closed = false) ∧
        ∀ t', t' ≠ t → ∀ w' ∈ c.writer t', w'.link = w.link → w'.written = 0))
  | .send .. | .fail .. | .arrive .. | .lose .. | .read .. => isTrue trivial

end Decidable

instance (sender : Host) (data : List Byte) : Decidable (∃ e, data = NetEvent.encode sender e) :=
  decidable_of_iff (data = (eventOf sender data).encode sender) (by
    constructor
    · intro h
      exact ⟨_, h⟩
    · rintro ⟨e, rfl⟩
      rw [eventOf_encode])

instance (sender : Host) : ∀ x : ChannelAction τ, Decidable (SendsEvents sender x)
  | .send _ data _ => inferInstanceAs (Decidable (∃ e, data = NetEvent.encode sender e))
  | .writeSome .. | .fail .. | .arrive .. | .lose .. | .read .. => isTrue trivial

instance [Fintype τ] (sender : Host) (c : Channel τ) : ∀ x c', Decidable (Exchange sender c x c') :=
  fun _ _ => inferInstanceAs (Decidable (_ ∧ _))

instance [Fintype τ] (sender : Host) (c : Channel τ) : ∀ x c', Decidable (Smooth sender c x c')
  | .send .., _ => inferInstanceAs (Decidable (_ ∧ _ = _))
  | .fail .., _ | .lose .., _ => inferInstanceAs (Decidable (_ ∧ False))
  | .writeSome .., _ | .arrive .., _ | .read .., _ => inferInstanceAs (Decidable (_ ∧ True))

/-- What the two threads of an example send. -/
def twoThreads : Bool → List NetEvent
  | false => [.requestVoteReq 1 1, .appendEntriesReq 1 2]
  | true => [.requestVoteRes 1 1 true]

def littleEndian : Host := ⟨false, true⟩

/-- The write of the second thread fails in the middle of its header, and what the first sends
then goes over a new connection and arrives before what it sent earlier. -/
def brokenRun : List (ChannelAction Bool) :=
  [.send false (NetEvent.encode littleEndian (.requestVoteReq 1 1)) true, .writeSome false 22,
    .send true (NetEvent.encode littleEndian (.requestVoteRes 1 1 true)) true, .writeSome true 2,
    .fail true, .send false (NetEvent.encode littleEndian (.appendEntriesReq 1 2)) true,
    .writeSome false 22, .arrive 1 22, .read 1, .read 1, .arrive 0 24, .read 0, .read 0]

theorem events_at_most_once_of_break : ∃ c : Channel Bool,
    ((channelSystem littleEndian littleEndian Bool).restrict (Exchange littleEndian)).Reachable c ∧
      c.handled littleEndian = [.appendEntriesReq 1 2, .requestVoteReq 1 1] ∧
      ∃ order : List (List (Bool × NetEvent)),
        List.Forall₂ (HandledInOrder littleEndian littleEndian (c.handled littleEndian))
          c.links order ∧
        (∀ t, (mine t order.flatten).Sublist (twoThreads t)) ∧
        (c.handled littleEndian).Perm (order.flatten.map fun x => x.2.arrived littleEndian) := by
  obtain ⟨c, hc, hhandled, hasked⟩ := System.Reachable.of_execute {}
    (Channel.step littleEndian littleEndian) (Exchange littleEndian) brokenRun
    (fun c => c.handled littleEndian = [.appendEntriesReq 1 2, .requestVoteReq 1 1] ∧
      ∀ t, c.asked t = (twoThreads t).map (NetEvent.encode littleEndian)) (by decide +kernel)
  exact ⟨c, hc, hhandled, events_at_most_once (by rfl) hc hasked⟩

/-- **Where nothing is lost everything is handled.**  On a network that loses nothing, once
nobody is writing and nothing is on its way, the events handled are those sent by the threads,
each once and in the order of its thread. -/
theorem events_exactly_once (hhosts : sender.bigEndian = receiver.bigEndian)
    (h : ((channelSystem sender receiver τ).restrict (Smooth sender)).Reachable c)
    (hquiet : c.Quiet receiver)
    (hsent : ∀ t, c.asked t = (evs t).map (NetEvent.encode sender)) :
    ∃ order : List (τ × NetEvent), (∀ t, mine t order = evs t) ∧
      c.handled receiver = order.map fun x => x.2.arrived receiver := by
  obtain ⟨hlossless, hsound⟩ : Lossless c ∧ Sound sender receiver c :=
    lossless_of_reachable (h.weaken fun _ _ _ hx => hx.calm hhosts)
  obtain ⟨hbegun, hreceived⟩ := hlossless.delivered hsound hquiet
  have horder : ∀ t, mine t c.begun = (evs t).map (NetEvent.encode sender) :=
    fun t => (hbegun t).trans (hsent t)
  refine ⟨events sender c.begun, ?_, ?_⟩
  · intro t
    rw [mine_events, horder t, map_eventOf_encode]
  · have hevents : ∀ x ∈ c.begun, ∃ e, x.2 = NetEvent.encode sender e :=
      exists_event fun t => by rw [horder t]
    rw [handled, hreceived, filterMap_onMessage hhosts hevents]

/-- Everything arrives in parts, while the threads take turns in writing. -/
def smoothRun : List (ChannelAction Bool) :=
  [.send false (NetEvent.encode littleEndian (.requestVoteReq 1 1)) true, .writeSome false 2,
    .send true (NetEvent.encode littleEndian (.requestVoteRes 1 1 true)) true, .writeSome false 20,
    .arrive 0 3, .writeSome true 23, .arrive 0 4, .read 0, .arrive 0 38, .read 0, .read 0, .read 0,
    .send false (NetEvent.encode littleEndian (.appendEntriesReq 1 2)) true, .writeSome false 22,
    .arrive 0 22, .read 0, .read 0]

theorem events_exactly_once_of_two : ∃ c : Channel Bool,
    ((channelSystem littleEndian littleEndian Bool).restrict (Smooth littleEndian)).Reachable c ∧
      ∃ order : List (Bool × NetEvent), (∀ t, mine t order = twoThreads t) ∧
        c.handled littleEndian = order.map fun x => x.2.arrived littleEndian := by
  obtain ⟨c, hc, hidle, hempty, hasked⟩ := System.Reachable.of_execute {}
    (Channel.step littleEndian littleEndian) (Smooth littleEndian) smoothRun
    (fun c => (∀ t, c.writer t = none) ∧
      (∀ k ∈ c.links, k.inFlight = [] ∧ k.ready littleEndian = false) ∧
      ∀ t, c.asked t = (twoThreads t).map (NetEvent.encode littleEndian)) (by decide +kernel)
  exact ⟨c, hc, events_exactly_once (by rfl) hc ⟨hidle, hempty⟩ hasked⟩

end Channel

end Raft
