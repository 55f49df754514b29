/-
What the handling of a single message does.

A request is answered and a response is not; the answer goes to the address of whoever
the message says it is from.  Three things follow.  A message that is handled a second
time finds its work done (`redelivery_harmless`): no term is adopted twice, the voter
gives the same answer, a counted vote is in the set, and the vote that won an election is
of an older term than the leader it made.  A request from a server that is not in the
peer map has no address to be answered at, and its handling dereferences a null pointer
(`unknown_sender_survived_iff`).  And of all that a handler may touch, a message of an
older term touches nothing (`handle_stale`).

The two handlers of requests are therefore restated as what they leave and what they
send, for a sender with an address and a machine that has its election task.
-/
import RaftElection.Proofs.Protocol
import RaftElection.Proofs.Roles
import RaftElection.Proofs.Terms

namespace Raft

/-- The two kinds of message that are answered. -/
def NetEvent.isRequest : NetEvent → Bool
  | requestVoteReq .. | appendEntriesReq .. => true
  | requestVoteRes .. | appendEntriesRes .. => false

/-- Asked the same question again, a voter gives the same answer and keeps its record. -/
theorem Voter.voteForLeader_again (v : Voter) (id t : UInt64) :
    (v.voteForLeader id t).2.voteForLeader id t = v.voteForLeader id t := by
  rcases v.voteForLeader_cases id t with ⟨heq, -⟩ | ⟨heq, -⟩
  · rw [heq]
    unfold voteForLeader
    rw [if_neg (UInt64.lt_irrefl t), if_pos rfl, if_pos rfl]
  · rw [heq]
    exact heq

namespace RaftFSM

open Transition

variable {a : Actor} {s s₁ s₂ s₃ s' : RaftFSM} {x : MachineAction} {cb cb' : Callbacks} {e : NetEvent}

/-! ### A started machine has its election task -/

def HasTask (s : RaftFSM) : Prop := s.electionTimeoutTask.isSome = true

theorem Timer.isSome_start (t : Option Timer) : (Timer.start t).isSome = true := by
  cases t <;> rfl

theorem HasTask.leave (h : HasTask s) : HasTask (leave s) := by
  by_cases hrole : s.role = .follower
  · rw [leave_of_follower hrole]
    exact h
  · obtain ⟨task, htask, -⟩ := leave_electionTimeoutTask hrole
    rw [HasTask, htask]
    rfl

theorem HasTask.pause (h : HasTask s) : HasTask (pauseScheduledTasks s) := by
  show (s.electionTimeoutTask.map Timer.pause).isSome = true
  rw [Option.isSome_map]
  exact h

theorem callable_hasTask : Callable fun s s' => HasTask s → HasTask s' where
  refl _ h := h
  trans h h' hs := h' (h hs)
  callback _ _ _ h := h
  setBlocked _ _ h := h
  pause _ h := h.pause
  leave _ h := h.leave

theorem HasTask.turn (hturn : Turn a cb e s s') (h : HasTask s) : HasTask s' := by
  cases hturn with
  | adopt hlt =>
      exact callable_hasTask.convertToFollower (callable_hasTask.signOff cb)
        { s with term := e.getTerm } h
  | reset task htask => exact rfl
  | refuse | vote | acknowledge | count => exact h
  | stepDown => exact h.leave
  | lead =>
      refine callable_hasTask.becomeLeader cb _ ?_
      show (s.electionTimeoutTask.map Timer.pause).isSome = true
      rw [Option.isSome_map]
      exact h

theorem HasTask.step (hstep : s.step a x = some s') (h : HasTask s) : HasTask s' := by
  cases step_entered hstep with
  | handled e cb s' hturns => exact hturns.invariant (fun _ _ hturn hs => hs.turn hturn) h
  | ignored => exact h
  | timedOut | expired =>
      rw [HasTask, candidacy_eq]
      exact Timer.isSome_start _
  | beat hlive =>
      rw [sendAll_eq]
      exact h
  | called c cb => exact callable_hasTask.call cb s c h

theorem hasTask_of_reachable (h : (machineSystem a).Reachable s) : HasTask s := by
  refine h.invariant ?_ (fun _ _ _ _ hs hstep => hs.step hstep)
  intro s₀ hs₀
  rw [hs₀]
  rfl

/-! ### Requests and their answers -/

/-- The machine a vote request leaves, up to the answer. -/
def votedOn (s : RaftFSM) (id t : UInt64) : RaftFSM :=
  if t < s.term then s
  else
    { s with
      electionTimeoutTask :=
        if s.role = .follower then s.electionTimeoutTask.map Timer.reset else s.electionTimeoutTask
      voter := (s.voter.voteForLeader id t).2 }

/-- Whether the answer grants the vote. -/
def grants (s : RaftFSM) (id t : UInt64) : Bool :=
  if t < s.term then false else (s.voter.voteForLeader id t).1

theorem handleRequestVote_eq (htask : HasTask s) {id : UInt64} (hmem : id ∈ a.peers.ids)
    (t : UInt64) :
    handleRequestVote a s id t
      = .ok ((votedOn s id t).emit (.sent id (.requestVoteRes a.self s.term (grants s id t)))) := by
  obtain ⟨task, htask⟩ := Option.isSome_iff_exists.mp htask
  unfold handleRequestVote votedOn grants
  by_cases hstale : t < s.term
  · simp only [if_pos hstale, reply, Actor.getPeer_of_mem hmem]
  · simp only [if_neg hstale]
    by_cases hrole : s.role = .follower
    · simp only [if_pos hrole, resetElectionTimeout, htask, Except.bind, voteAndReply, reply,
        Actor.getPeer_of_mem hmem, Option.map_some]
    · simp only [if_neg hrole, voteAndReply, reply, Actor.getPeer_of_mem hmem]

/-- The machine a heartbeat leaves, up to the answer. -/
def heard (s : RaftFSM) (t : UInt64) : RaftFSM :=
  if t < s.term ∨ s.role = .leader then s
  else leave { s with electionTimeoutTask := s.electionTimeoutTask.map Timer.reset }

theorem handleAppendEntries_eq (htask : HasTask s) {id : UInt64} (hmem : id ∈ a.peers.ids)
    (t : UInt64) :
    handleAppendEntries a cb s id t
      = .ok ((heard s t).emit (.sent id (.appendEntriesRes a.self s.term))) := by
  obtain ⟨task, htask⟩ := Option.isSome_iff_exists.mp htask
  unfold handleAppendEntries heard
  by_cases hstale : t < s.term
  · simp only [hstale, true_or, if_true, reply, Actor.getPeer_of_mem hmem]
  · by_cases hleader : s.role = .leader
    · simp only [if_neg hstale, hleader, or_true, if_true, reply, Actor.getPeer_of_mem hmem]
    · simp only [hstale, hleader, or_self, if_false, resetElectionTimeout, htask, Except.bind,
        Option.map_some]
      by_cases hcandidate : s.role = .candidate
      · rw [if_pos hcandidate, convertToFollower_eq, if_neg (by exact hleader)]
        simp only [reply, Actor.getPeer_of_mem hmem, leave_term]
      · have hfollower : s.role = .follower := by
          cases hrole : s.role with
          | follower => rfl
          | candidate => exact absurd hrole hcandidate
          | leader => exact absurd hrole hleader
        rw [if_neg hcandidate, leave_of_follower (by exact hfollower)]
        simp only [reply, Actor.getPeer_of_mem hmem]

/-! ### Senders without an address

The id in a message is not checked against the peers.  It is looked up when the answer is sent,
and `*peer_address(event)` dereferences what the lookup returns.  So a message is survived exactly
where nothing has to be answered or the sender is known.
-/

/-- A request from outside the peer map ends in the null address, wherever the handler
gets to it. -/
theorem handleRequestVote_unknown (htask : HasTask s) {id : UInt64} (hmem : id ∉ a.peers.ids)
    (t : UInt64) : handleRequestVote a s id t = .error .nullPeer := by
  obtain ⟨task, htask⟩ := Option.isSome_iff_exists.mp htask
  have hpeer : a.getPeer id = none := if_neg hmem
  unfold handleRequestVote
  by_cases hstale : t < s.term
  · rw [if_pos hstale]
    simp only [reply, hpeer]
  · rw [if_neg hstale]
    by_cases hrole : s.role = .follower
    · rw [if_pos hrole]
      simp only [resetElectionTimeout, htask, Except.bind, voteAndReply, reply, hpeer]
    · rw [if_neg hrole]
      simp only [voteAndReply, reply, hpeer]

theorem handleAppendEntries_unknown (htask : HasTask s) {id : UInt64} (hmem : id ∉ a.peers.ids)
    (t : UInt64) : handleAppendEntries a cb s id t = .error .nullPeer := by
  obtain ⟨task, htask⟩ := Option.isSome_iff_exists.mp htask
  have hpeer : a.getPeer id = none := if_neg hmem
  unfold handleAppendEntries
  by_cases hstale : t < s.term
  · rw [if_pos hstale]
    simp only [reply, hpeer]
  · rw [if_neg hstale]
    by_cases hleader : s.role = .leader
    · rw [if_pos hleader]
      simp only [reply, hpeer]
    · rw [if_neg hleader]
      simp only [resetElectionTimeout, htask, Except.bind, reply, hpeer]

theorem HasTask.adoptTerm (cb : Callbacks) (t : UInt64) (h : HasTask s) :
    HasTask (adoptTerm cb s t) := by
  unfold RaftFSM.adoptTerm
  split
  · exact callable_hasTask.convertToFollower (callable_hasTask.signOff cb) { s with term := t } h
  · exact h

/-- The messages a started node survives. -/
def Answerable (a : Actor) (s : RaftFSM) (e : NetEvent) : Prop :=
  s.blocked = true ∨ e.isRequest = false ∨ e.getServerId ∈ a.peers.ids

theorem handle_of_answerable (cb : Callbacks) (htask : HasTask s) (h : Answerable a s e) :
    ∃ s', handle a cb s (.net e) = .ok s' := by
  rw [handle_eq]
  by_cases hblocked : s.blocked = true
  · exact ⟨s, if_pos hblocked⟩
  rw [if_neg hblocked]
  have hpeer := h.resolve_left hblocked
  have hadopted := htask.adoptTerm cb e.getTerm
  cases e with
  | requestVoteReq id t =>
      exact ⟨_, handleRequestVote_eq hadopted (hpeer.resolve_left (by simp [NetEvent.isRequest])) t⟩
  | appendEntriesReq id t =>
      exact ⟨_, handleAppendEntries_eq hadopted (hpeer.resolve_left (by simp [NetEvent.isRequest])) t⟩
  | requestVoteRes id t granted => exact ⟨_, rfl⟩
  | appendEntriesRes id t => exact ⟨_, rfl⟩

theorem handle_of_not_answerable (cb : Callbacks) (htask : HasTask s) (h : ¬ Answerable a s e) :
    handle a cb s (.net e) = .error .nullPeer := by
  simp only [Answerable, not_or] at h
  obtain ⟨hblocked, hrequest, hmem⟩ := h
  rw [handle_eq, if_neg hblocked]
  have hadopted := htask.adoptTerm cb e.getTerm
  cases e with
  | requestVoteReq id t => exact handleRequestVote_unknown hadopted hmem t
  | appendEntriesReq id t => exact handleAppendEntries_unknown hadopted hmem t
  | requestVoteRes id t granted => exact absurd rfl hrequest
  | appendEntriesRes id t => exact absurd rfl hrequest

/-- **Which senders a started node survives.**  Its handling of a message completes exactly
when the node is blocked, the message is a response, or the peer map has the sender; in
all other cases it dereferences the null address of the sender. -/
theorem unknown_sender_survived_iff (h : (machineSystem a).Reachable s) (e : NetEvent)
    (cb : Callbacks) :
    ((∃ s', handle a cb s (.net e) = .ok s') ↔ Answerable a s e) ∧
      (handle a cb s (.net e) = .error .nullPeer ↔ ¬ Answerable a s e) := by
  have htask := hasTask_of_reachable h
  by_cases hanswer : Answerable a s e
  · obtain ⟨s', hs'⟩ := handle_of_answerable cb htask hanswer
    refine ⟨⟨fun _ => hanswer, fun _ => ⟨s', hs'⟩⟩, ?_, fun hno => absurd hanswer hno⟩
    intro herror
    rw [hs'] at herror
    cases herror
  · have herror := handle_of_not_answerable cb htask hanswer
    refine ⟨⟨?_, fun hyes => absurd hyes hanswer⟩, fun _ => hanswer, fun _ => herror⟩
    rintro ⟨s', hs'⟩
    rw [herror] at hs'
    cases hs'

/-- A vote request of server 9, which is not one of the three. -/
theorem unknown_sender_survived_iff_stranger :
    ∃ s, (machineSystem firstOfThree).Reachable s ∧
      ¬ Answerable firstOfThree s (.requestVoteReq 9 1) ∧
      handle firstOfThree {} s (.net (.requestVoteReq 9 1)) = .error .nullPeer := by
  have hreach : (machineSystem firstOfThree).Reachable started :=
    ⟨started, rfl, System.Run.refl started⟩
  have hstranger : ¬ Answerable firstOfThree started (.requestVoteReq 9 1) := by
    simp only [Answerable, not_or]
    exact ⟨by decide, by decide, by decide⟩
  exact ⟨started, hreach, hstranger,
    (unknown_sender_survived_iff hreach (.requestVoteReq 9 1) {}).2.mpr hstranger⟩

/-- The 18 bytes of such a request, as they arrive at a node that has just been started. -/
theorem stranger_crashes :
    ∃ e, RaftEventFactory.decode ⟨false, true⟩
        [1, 0, 9, 0, 0, 0, 0, 0, 0, 0, 1, 0, 0, 0, 0, 0, 0, 0] = .ok e ∧
      (machineSystem firstOfThree).Reachable started ∧
      handle firstOfThree {} started (.net e) = .error .nullPeer := by
  refine ⟨.requestVoteReq 9 1, by decide +kernel, ⟨started, rfl, System.Run.refl started⟩, ?_⟩
  decide +kernel

/-! ### The same message twice

The first delivery brings the node to the term of the message, so the second finds an equal term
or a newer one and takes none of the branches that change the role.  What is left to compare is
the vote, which is the same again, and the timer, which is reset again.
-/

/-- The two states agree on everything but the due times of the timers and the trace. -/
structure SameState (s s' : RaftFSM) : Prop where
  role : s'.role = s.role
  term : s'.term = s.term
  voter : s'.voter = s.voter
  votedPeers : s'.votedPeers = s.votedPeers
  election : s'.electionTimeoutTask.map Timer.paused = s.electionTimeoutTask.map Timer.paused
  heartbeat : s'.heartbeatTask.map Timer.paused = s.heartbeatTask.map Timer.paused

theorem SameState.refl (s : RaftFSM) : SameState s s := ⟨rfl, rfl, rfl, rfl, rfl, rfl⟩

theorem map_paused_reset (t : Option Timer) :
    (t.map Timer.reset).map Timer.paused = t.map Timer.paused := by
  cases t <;> rfl

/-- A second vote request finds the answer in the record. -/
theorem votedOn_again (s : RaftFSM) (id t : UInt64) (o : Entry) :
    SameState ((votedOn s id t).emit o) (votedOn ((votedOn s id t).emit o) id t) ∧
      grants ((votedOn s id t).emit o) id t = grants s id t := by
  by_cases hstale : t < s.term
  · have hsame : votedOn s id t = s := if_pos hstale
    rw [hsame]
    have hagain : votedOn (s.emit o) id t = s.emit o := if_pos hstale
    rw [hagain]
    exact ⟨SameState.refl _, rfl⟩
  · have hvoter := s.voter.voteForLeader_again id t
    simp only [votedOn, grants, emit, if_neg hstale, hvoter, and_true]
    refine ⟨rfl, rfl, rfl, rfl, ?_, rfl⟩
    split
    · exact map_paused_reset _
    · rfl

/-- A second heartbeat finds a follower, or the leader it did not concern. -/
theorem heard_again (s : RaftFSM) (t : UInt64) (o : Entry) :
    SameState ((heard s t).emit o) (heard ((heard s t).emit o) t) := by
  by_cases hskip : t < s.term ∨ s.role = .leader
  · have hsame : heard s t = s := if_pos hskip
    rw [hsame]
    have hagain : heard (s.emit o) t = s.emit o := if_pos hskip
    rw [hagain]
    exact SameState.refl _
  · rw [heard, if_neg hskip]
    generalize hs₁ : (leave { s with electionTimeoutTask := s.electionTimeoutTask.map Timer.reset }
      : RaftFSM) = s₁
    have hrole : s₁.role = .follower := by rw [← hs₁]; exact leave_role _
    have hterm : s₁.term = s.term := by rw [← hs₁]; exact leave_term _
    have hskip₁ : ¬ (t < (s₁.emit o).term ∨ (s₁.emit o).role = .leader) := by
      rw [emit_term, hterm, emit_role, hrole]
      exact fun hc => hskip (Or.inl (hc.resolve_right (by decide)))
    rw [heard, if_neg hskip₁, leave_of_follower (by exact hrole)]
    exact ⟨rfl, rfl, rfl, rfl, map_paused_reset _, rfl⟩

/-- A reply does not come to be ahead of the term. -/
theorem le_handleRequestVoteResponse (a : Actor) (cb : Callbacks) (id : UInt64) (granted : Bool)
    {t : UInt64} (hle : t ≤ s.term) (hterm : t < maxTerm) :
    t ≤ (handleRequestVoteResponse a cb s id t granted).term := by
  rw [handleRequestVoteResponse_term hle]
  split
  · rename_i hwins
    obtain rfl := (winningVote_iff.mp hwins).2.2.1
    unfold maxTerm at hterm
    grind
  · exact hle

/-- A second reply is counted into a set that has it, or comes too late. -/
theorem handleRequestVoteResponse_again {id t : UInt64} {granted : Bool} (hle : t ≤ s.term)
    (hterm : t < maxTerm) :
    handleRequestVoteResponse a cb' (handleRequestVoteResponse a cb s id t granted) id t granted
      = handleRequestVoteResponse a cb s id t granted := by
  have hsame : handleRequestVoteResponse a cb s id t granted = s →
      handleRequestVoteResponse a cb' s id t granted = s →
      handleRequestVoteResponse a cb' (handleRequestVoteResponse a cb s id t granted) id t granted
        = handleRequestVoteResponse a cb s id t granted := by
    intro hfirst hsecond
    rw [hfirst, hsecond]
  by_cases hstale : t < s.term
  · exact hsame (if_pos hstale) (if_pos hstale)
  obtain rfl : t = s.term := UInt64.le_antisymm hle (UInt64.not_lt.mp hstale)
  by_cases hcount : s.role = .candidate ∧ granted = true
  · have hfirst : handleRequestVoteResponse a cb s id s.term granted
        = if a.majority ≤ (insert id s.votedPeers).card
          then convertToLeader cb { s with votedPeers := insert id s.votedPeers }
          else { s with votedPeers := insert id s.votedPeers } := by
      rw [handleRequestVoteResponse, if_neg hstale, if_pos hcount]
    rw [hfirst]
    by_cases hmaj : a.majority ≤ (insert id s.votedPeers).card
    · -- The vote won, and the leader it made is one term ahead of it.
      rw [if_pos hmaj]
      have hnext : s.term
          < (convertToLeader cb { s with votedPeers := insert id s.votedPeers }).term := by
        rw [convertToLeader_term (by exact hcount.1)]
        unfold maxTerm at hterm
        grind
      exact if_pos hnext
    · rw [if_neg hmaj, handleRequestVoteResponse, if_neg hstale, if_pos hcount]
      simp only [Finset.insert_idem, if_neg hmaj]
  · refine hsame ?_ ?_ <;> rw [handleRequestVoteResponse, if_neg hstale, if_neg hcount]

/-! ### What the two deliveries send and call

Of the trace only what was sent can reach another server, so this is what is compared.  A callback
may call the API in the first delivery, but none of its calls sends anything.
-/

/-- What is sent between the two states, latest first. -/
def sends (s s' : RaftFSM) : List Entry := (s.newEntries s').filter Entry.isSent

theorem sends_eq {new : List Entry} (h : s'.trace = new ++ s.trace) :
    sends s s' = new.filter Entry.isSent := by
  rw [sends, Watched.newEntries_eq h]

/-- Nothing is sent between the two states. -/
def Unsent (s s' : RaftFSM) : Prop :=
  ∃ new, s'.trace = new ++ s.trace ∧ new.filter Entry.isSent = []

theorem Unsent.of_trace_eq (h : s'.trace = s.trace) : Unsent s s' := ⟨[], h, rfl⟩

theorem Unsent.trans (h : Unsent s₁ s₂) (h' : Unsent s₂ s₃) : Unsent s₁ s₃ := by
  obtain ⟨new, htrace, hnone⟩ := h
  obtain ⟨new', htrace', hnone'⟩ := h'
  refine ⟨new' ++ new, by rw [htrace', htrace, List.append_assoc], ?_⟩
  rw [List.filter_append, hnone, hnone']
  rfl

theorem callable_unsent : Callable Unsent where
  refl s := .of_trace_eq rfl
  trans := Unsent.trans
  callback s o ho := by
    refine ⟨[o], rfl, ?_⟩
    rcases ho with rfl | rfl <;> rfl
  setBlocked s b := .of_trace_eq rfl
  pause s := .of_trace_eq rfl
  leave s := .of_trace_eq (leave_trace s)

theorem adoptTerm_unsent (cb : Callbacks) (s : RaftFSM) (t : UInt64) :
    Unsent s (adoptTerm cb s t) := by
  unfold adoptTerm
  split
  · have hterm : Unsent s { s with term := t } := .of_trace_eq rfl
    exact hterm.trans (callable_unsent.convertToFollower (callable_unsent.signOff cb) _)
  · exact .of_trace_eq rfl

theorem handleRequestVoteResponse_unsent (a : Actor) (cb : Callbacks) (s : RaftFSM) (id t : UInt64)
    (granted : Bool) :
    Unsent s (handleRequestVoteResponse a cb s id t granted) := by
  unfold handleRequestVoteResponse
  split
  · exact .of_trace_eq rfl
  · split
    · rename_i hcount
      dsimp only
      split
      · rw [convertToLeader_eq (by exact hcount.1)]
        have henter : Unsent s (enterLeader { s with votedPeers := insert id s.votedPeers }) :=
          ⟨[.becameLeader (s.term + 1)], rfl, rfl⟩
        exact henter.trans (callable_unsent.becomeLeader cb _)
      · exact .of_trace_eq rfl
    · exact .of_trace_eq rfl

theorem sends_of_unsent (h : Unsent s s') : sends s s' = [] := by
  obtain ⟨new, htrace, hnone⟩ := h
  rw [sends_eq htrace, hnone]

/-- One answer, after something that sends nothing. -/
theorem sends_answer {peer : UInt64} {reply : NetEvent} (h : Unsent s s₁)
    (htrace : s'.trace = .sent peer reply :: s₁.trace) : sends s s' = [.sent peer reply] := by
  obtain ⟨new, hnew, hnone⟩ := h
  have hall : s'.trace = (.sent peer reply :: new) ++ s.trace := by
    rw [htrace, hnew]
    rfl
  rw [sends_eq hall, List.filter_cons_of_pos rfl, hnone]

theorem sends_self (s : RaftFSM) : sends s s = [] := sends_of_unsent (.of_trace_eq rfl)

theorem filter_isSent_map (peers : List UInt64) (e : NetEvent) :
    (peers.map (Entry.sent · e)).filter Entry.isSent = peers.map (Entry.sent · e) := by
  rw [List.filter_eq_self]
  intro o ho
  obtain ⟨peer, -, rfl⟩ := List.mem_map.mp ho
  rfl

theorem sends_sendAll (s : RaftFSM) (e : NetEvent) (peers : List UInt64) :
    sends s (sendAll e s peers) = (peers.map (Entry.sent · e)).reverse := by
  rw [sendAll_eq, sends_eq rfl, List.filter_reverse, filter_isSent_map]

/-- A candidacy canvasses the peers. -/
theorem sends_candidacy (a : Actor) (s : RaftFSM) :
    sends s (candidacy a s)
      = (a.getPeers.map (Entry.sent · (.requestVoteReq a.self (s.term + 1)))).reverse := by
  rw [sends_eq (candidacy_trace a s), candidacyEntries, List.filter_append, List.filter_append,
    List.filter_reverse, filter_isSent_map]
  split <;> simp [Entry.isSent]

/-- The callbacks call nothing but `stay_follower`. -/
def OnlyStays (cb : Callbacks) : Prop :=
  ∀ calls, cb.onBecomeLeader = some calls ∨ cb.onSignOffLeader = some calls →
    ∀ c ∈ calls, c = .stayFollower

theorem leave_blocked (s : RaftFSM) : (leave s).blocked = s.blocked := by
  unfold leave convertToFollower clearPrevState
  cases h : s.role <;> rfl

/-- Such callbacks leave the `blocked` flag alone. -/
theorem adoptTerm_blocked (hcb : OnlyStays cb) (s : RaftFSM) (t : UInt64) :
    (adoptTerm cb s t).blocked = s.blocked := by
  have hsignOff : ∀ s : RaftFSM, (signOff cb s).blocked = s.blocked := by
    intro s
    unfold signOff
    cases hcalls : cb.onSignOffLeader with
    | none => rfl
    | some calls =>
        refine calls.foldlRecOn (motive := fun r : RaftFSM => r.blocked = s.blocked) _ rfl ?_
        intro r hr c hc
        rw [hcb calls (Or.inr hcalls) c hc]
        exact (leave_blocked r).trans hr
  unfold adoptTerm
  split
  · rw [convertToFollower_eq]
    split
    · exact (hsignOff _).trans (leave_blocked _)
    · exact leave_blocked _
  · rfl

/-- A message that is not ahead of the term goes straight to its handler. -/
theorem handle_of_le (cb : Callbacks) (hblocked : s.blocked = false) (hle : e.getTerm ≤ s.term) :
    handle a cb s (.net e) = dispatch a cb s (.net e) := by
  rw [handle_eq, if_neg (by simp [hblocked]), handleLocked]
  rw [adoptTerm_of_not_lt cb (by exact UInt64.not_lt.mpr hle)]

/-- What a message of an older term adds to the trace: the answer, if it is a request. -/
def staleReply (a : Actor) (s : RaftFSM) : NetEvent → List Entry
  | .requestVoteReq id _ => [.sent id (.requestVoteRes a.self s.term false)]
  | .appendEntriesReq id _ => [.sent id (.appendEntriesRes a.self s.term)]
  | .requestVoteRes .. | .appendEntriesRes .. => []

theorem handle_stale (cb : Callbacks) (hblocked : s.blocked = false)
    (hmem : e.getServerId ∈ a.peers.ids) (hstale : e.getTerm < s.term) :
    handle a cb s (.net e) = .ok { s with trace := staleReply a s e ++ s.trace } := by
  rw [handle_of_le cb hblocked (UInt64.le_of_lt hstale)]
  cases e with
  | requestVoteReq id t =>
      have hpeer : a.getPeer id = some id := Actor.getPeer_of_mem hmem
      have hlt : t < s.term := hstale
      simp only [dispatch, handleRequestVote, if_pos hlt, reply, hpeer]
      rfl
  | requestVoteRes id t granted =>
      have hlt : t < s.term := hstale
      simp only [dispatch, handleRequestVoteResponse, if_pos hlt]
      rfl
  | appendEntriesReq id t =>
      have hpeer : a.getPeer id = some id := Actor.getPeer_of_mem hmem
      have hlt : t < s.term := hstale
      simp only [dispatch, handleAppendEntries, if_pos hlt, reply, hpeer]
      rfl
  | appendEntriesRes id t => rfl

/-- The handler of a request leaves these as it finds them, whatever else it does. -/
structure Serves (s s' : RaftFSM) : Prop where
  blocked : s'.blocked = s.blocked
  term : s'.term = s.term
  trace : s'.trace = s.trace
  task : HasTask s → HasTask s'

theorem votedOn_serves (s : RaftFSM) (id t : UInt64) : Serves s (votedOn s id t) := by
  unfold votedOn
  split
  · exact ⟨rfl, rfl, rfl, fun h => h⟩
  · refine ⟨rfl, rfl, rfl, ?_⟩
    intro h
    show Option.isSome (if s.role = .follower then _ else _) = true
    split
    · rw [Option.isSome_map]
      exact h
    · exact h

theorem heard_serves (s : RaftFSM) (t : UInt64) : Serves s (heard s t) := by
  unfold heard
  split
  · exact ⟨rfl, rfl, rfl, fun h => h⟩
  · refine ⟨leave_blocked _, leave_term _, leave_trace _, ?_⟩
    intro h
    refine HasTask.leave ?_
    show (s.electionTimeoutTask.map Timer.reset).isSome = true
    rw [Option.isSome_map]
    exact h

/-- The delivery that took `s` to `s₁` is repeated, without effect, and ends in `s₂`. -/
structure Repeats (a : Actor) (cb : Callbacks) (e : NetEvent) (s s₁ s₂ : RaftFSM) : Prop where
  handled : handle a cb s₁ (.net e) = .ok s₂
  same : SameState s₁ s₂
  callbacks : s₂.callbacks = s₁.callbacks
  sends : sends s₁ s₂ = sends s s₁

/-- A delivery that leaves nothing to do and sent nothing. -/
theorem repeats_of_idle (hagain : handle a cb s₁ (.net e) = .ok s₁) (h : Unsent s s₁) :
    Repeats a cb e s s₁ s₁ where
  handled := hagain
  same := SameState.refl s₁
  callbacks := rfl
  sends := by rw [sends_of_unsent h, sends_of_unsent (.of_trace_eq rfl)]

/-- A handler that answers the machine it leaves as it answered the one it found. -/
theorem repeats_of_answer {f : RaftFSM → RaftFSM} {r : RaftFSM → NetEvent} {peer : UInt64}
    (hdispatch : ∀ cb q, HasTask q →
      dispatch a cb q (.net e) = .ok ((f q).emit (.sent peer (r q))))
    (hserves : ∀ q, Serves q (f q))
    (hagain : ∀ q o, SameState ((f q).emit o) (f ((f q).emit o)) ∧
      r ((f q).emit o) = r q)
    (hblocked : s₁.blocked = false) (htask : HasTask s₁) (hle : e.getTerm ≤ s₁.term)
    (hsent : Unsent s s₁) (cb cb' : Callbacks) :
    ∃ s₂ s₃, dispatch a cb s₁ (.net e) = .ok s₂ ∧ Repeats a cb' e s s₂ s₃ ∧
      sends s s₂ = [.sent peer (r s₁)] := by
  obtain ⟨hsame, hreply⟩ := hagain s₁ (.sent peer (r s₁))
  generalize hs₂ : (f s₁).emit (.sent peer (r s₁)) = s₂ at hsame hreply
  have htrace : s₂.trace = .sent peer (r s₁) :: s₁.trace := by
    rw [← hs₂, emit_trace, (hserves s₁).trace]
  have htrace₃ : ((f s₂).emit (.sent peer (r s₁))).trace = .sent peer (r s₁) :: s₂.trace := by
    rw [emit_trace, (hserves s₂).trace]
  have hblocked₂ : s₂.blocked = false := by
    rw [← hs₂]
    exact (hserves s₁).blocked.trans hblocked
  have hle₂ : e.getTerm ≤ s₂.term := by
    rw [← hs₂, emit_term, (hserves s₁).term]
    exact hle
  have htask₂ : HasTask s₂ := by
    rw [← hs₂]
    exact (hserves s₁).task htask
  have hsends := sends_answer hsent htrace
  refine ⟨s₂, (f s₂).emit (.sent peer (r s₁)), ?_, ⟨?_, ?_, ?_, ?_⟩, hsends⟩
  · rw [hdispatch cb s₁ htask, hs₂]
  · rw [handle_of_le cb' hblocked₂ hle₂, hdispatch cb' s₂ htask₂, hreply]
  · exact ⟨hsame.role, hsame.term, hsame.voter, hsame.votedPeers, hsame.election, hsame.heartbeat⟩
  · rw [callbacks, htrace₃]
    rfl
  · rw [hsends]
    exact sends_answer (.of_trace_eq rfl) htrace₃

theorem repeats_of_requestVote {id t : UInt64} (hid : id ∈ a.peers.ids)
    (hblocked : s₁.blocked = false) (htask : HasTask s₁) (hle : t ≤ s₁.term)
    (hsent : Unsent s s₁) (cb cb' : Callbacks) :
    ∃ s₂ s₃, dispatch a cb s₁ (.net (.requestVoteReq id t)) = .ok s₂ ∧
      Repeats a cb' (.requestVoteReq id t) s s₂ s₃ ∧
      sends s s₂ = [.sent id (.requestVoteRes a.self s₁.term (grants s₁ id t))] := by
  have hagain : ∀ (q : RaftFSM) (o : Entry),
      SameState ((votedOn q id t).emit o) (votedOn ((votedOn q id t).emit o) id t) ∧
        NetEvent.requestVoteRes a.self ((votedOn q id t).emit o).term
            (grants ((votedOn q id t).emit o) id t)
          = .requestVoteRes a.self q.term (grants q id t) := by
    intro q o
    obtain ⟨hsame, hgrants⟩ := votedOn_again q id t o
    exact ⟨hsame, by rw [hgrants, emit_term, (votedOn_serves q id t).term]⟩
  exact repeats_of_answer (e := .requestVoteReq id t) (f := fun q => votedOn q id t)
    (r := fun q => .requestVoteRes a.self q.term (grants q id t))
    (fun cb q hq => handleRequestVote_eq hq hid t) (fun q => votedOn_serves q id t)
    hagain hblocked htask hle hsent cb cb'

theorem repeats_of_appendEntries {id t : UInt64} (hid : id ∈ a.peers.ids)
    (hblocked : s₁.blocked = false) (htask : HasTask s₁) (hle : t ≤ s₁.term)
    (hsent : Unsent s s₁) (cb cb' : Callbacks) :
    ∃ s₂ s₃, dispatch a cb s₁ (.net (.appendEntriesReq id t)) = .ok s₂ ∧
      Repeats a cb' (.appendEntriesReq id t) s s₂ s₃ ∧
      sends s s₂ = [.sent id (.appendEntriesRes a.self s₁.term)] := by
  have hagain : ∀ (q : RaftFSM) (o : Entry),
      SameState ((heard q t).emit o) (heard ((heard q t).emit o) t) ∧
        NetEvent.appendEntriesRes a.self ((heard q t).emit o).term
          = .appendEntriesRes a.self q.term := by
    intro q o
    exact ⟨heard_again q t o, by rw [emit_term, (heard_serves q t).term]⟩
  exact repeats_of_answer (e := .appendEntriesReq id t) (f := fun q => heard q t)
    (r := fun q => .appendEntriesRes a.self q.term)
    (fun cb q hq => handleAppendEntries_eq hq hid t) (fun q => heard_serves q t)
    hagain hblocked htask hle hsent cb cb'

/-- The second copy of a vote finds it counted, or finds the candidacy over. -/
theorem repeats_of_vote {id t : UInt64} {granted : Bool} (hle : t ≤ s₁.term)
    (hterm : t < maxTerm) (hsent : Unsent s s₁) (cb cb' : Callbacks) :
    Repeats a cb' (.requestVoteRes id t granted) s
      (handleRequestVoteResponse a cb s₁ id t granted)
      (handleRequestVoteResponse a cb s₁ id t granted) := by
  refine repeats_of_idle ?_
    (hsent.trans (handleRequestVoteResponse_unsent a cb s₁ id t granted))
  by_cases hblocked : (handleRequestVoteResponse a cb s₁ id t granted).blocked = true
  · rw [handle_eq, if_pos hblocked]
  · have hle₂ : t ≤ (handleRequestVoteResponse a cb s₁ id t granted).term :=
      le_handleRequestVoteResponse a cb id granted hle hterm
    rw [handle_of_le cb' (by simpa using hblocked) (by exact hle₂)]
    exact congrArg _ (handleRequestVoteResponse_again hle hterm)

/-- **Delivering a message twice is harmless.**  From every reachable state, with callbacks
that call at most `stay_follower`, a second delivery completes as the first did, leaves
role, term, voter, votes and the paused flags of both timers as they were, invokes no
callback, and sends what the first one sent: the same answer to a request, and nothing
else. -/
theorem redelivery_harmless (h : (machineSystem a).Reachable s)
    (hmem : e.getServerId ∈ a.peers.ids) (hterm : e.getTerm < maxTerm) (hcb : OnlyStays cb)
    (cb' : Callbacks) :
    ∃ s₁ s₂, handle a cb s (.net e) = .ok s₁ ∧ handle a cb' s₁ (.net e) = .ok s₂ ∧
      SameState s₁ s₂ ∧ s₂.callbacks = s₁.callbacks ∧ sends s₁ s₂ = sends s s₁ ∧
      (s.blocked = false → e.isRequest = true →
        ∃ reply, sends s s₁ = [.sent e.getServerId reply]) := by
  suffices hmain : ∃ s₁ s₂, handle a cb s (.net e) = .ok s₁ ∧ Repeats a cb' e s s₁ s₂ ∧
      (s.blocked = false → e.isRequest = true →
        ∃ reply, sends s s₁ = [.sent e.getServerId reply]) by
    obtain ⟨s₁, s₂, hfirst, hrepeats, hreply⟩ := hmain
    exact ⟨s₁, s₂, hfirst, hrepeats.handled, hrepeats.same, hrepeats.callbacks, hrepeats.sends,
      hreply⟩
  by_cases hblocked : s.blocked = true
  · have hidle : ∀ cb, handle a cb s (.net e) = .ok s := by
      intro cb
      rw [handle_eq, if_pos hblocked]
    refine ⟨s, s, hidle cb, repeats_of_idle (hidle cb') (.of_trace_eq rfl), ?_⟩
    intro hunblocked
    exact absurd hblocked (by simp [hunblocked])
  -- What the first delivery adopts, the second finds adopted.
  have hblocked₁ : (adoptTerm cb s e.getTerm).blocked = false := by
    rw [adoptTerm_blocked hcb]
    simpa using hblocked
  have htask := (hasTask_of_reachable h).adoptTerm cb e.getTerm
  have hle := le_adoptTerm cb s e.getTerm
  have hsent := adoptTerm_unsent cb s e.getTerm
  have hfirst : handle a cb s (.net e) = dispatch a cb (adoptTerm cb s e.getTerm) (.net e) := by
    rw [handle_eq, if_neg hblocked]
    rfl
  rw [hfirst]
  generalize adoptTerm cb s e.getTerm = s₁ at *
  cases e with
  | requestVoteReq id t =>
      obtain ⟨s₂, s₃, hs₂, hrepeats, hreply⟩ :=
        repeats_of_requestVote hmem hblocked₁ htask hle hsent cb cb'
      exact ⟨s₂, s₃, hs₂, hrepeats, fun _ _ => ⟨_, hreply⟩⟩
  | appendEntriesReq id t =>
      obtain ⟨s₂, s₃, hs₂, hrepeats, hreply⟩ :=
        repeats_of_appendEntries hmem hblocked₁ htask hle hsent cb cb'
      exact ⟨s₂, s₃, hs₂, hrepeats, fun _ _ => ⟨_, hreply⟩⟩
  | requestVoteRes id t granted =>
      exact ⟨_, _, rfl, repeats_of_vote hle hterm hsent cb cb', fun _ hc => nomatch hc⟩
  | appendEntriesRes id t =>
      exact ⟨s₁, s₁, rfl, repeats_of_idle (handle_of_le cb' hblocked₁ hle) hsent,
        fun _ hc => nomatch hc⟩

/-- The heartbeat of a new leader reaches the old one twice, and makes it a follower once. -/
theorem redelivery_harmless_leader :
    ∃ s s₁ s₂ : RaftFSM, s.role = .leader ∧
      handle firstOfThree ⟨none, some [.stayFollower]⟩ s (.net (.appendEntriesReq 2 7)) = .ok s₁ ∧
      handle firstOfThree ⟨none, some [.stayFollower]⟩ s₁ (.net (.appendEntriesReq 2 7)) = .ok s₂ ∧
      s₁.callbacks = [.onSignOffLeader] ∧ s₂.callbacks = s₁.callbacks := by
  obtain ⟨s, hs, hrole, hcallbacks⟩ := System.Reachable.of_execute started
    (RaftFSM.step firstOfThree) (fun _ _ _ => True)
    [.callElection {}, .handle (.net (.requestVoteRes 2 1 true)) {}]
    (fun s => s.role = .leader ∧
      (handle firstOfThree ⟨none, some [.stayFollower]⟩ s
        (.net (.appendEntriesReq 2 7))).toOption.any (·.callbacks = [.onSignOffLeader]))
    (by decide +kernel)
  obtain ⟨s₁, s₂, hfirst, hagain, -, hsame, -⟩ := redelivery_harmless
    (e := .appendEntriesReq 2 7) hs.unrestrict (by decide) (by decide)
    (fun calls hcalls c hc => by
      rcases hcalls with hcalls | hcalls
      · cases hcalls
      · cases hcalls
        exact List.mem_singleton.mp hc : OnlyStays ⟨none, some [.stayFollower]⟩)
    ⟨none, some [.stayFollower]⟩
  rw [hfirst] at hcallbacks
  exact ⟨s, s₁, s₂, hrole, hfirst, hagain, of_decide_eq_true hcallbacks, hsame⟩

end RaftFSM

end Raft
