/-
When a message puts off a follower's next election.

A follower may put its election off for a heartbeat of its leader and for a candidate it
votes for.  `handle_request_vote` resets the timer before the voter has decided, so it is
also put off by a candidate that is refused, and, just before the null address of a server
that is not in the peer map is dereferenced, by a stranger.  These are the only cases
(`deferred_for_cause_iff`): what a follower does with its timers is known from
`handleCalls`, what it answers from the handlers.
-/
import RaftElection.Proofs.Suppression

namespace Raft.RaftFSM

open Transition

variable {a : Actor} {cb : Callbacks} {e : NetEvent} {s s' : RaftFSM}

/-! ### The reset, and what excuses it -/

/-- The handling of the event resets the election timer.  Where it ends at a null pointer,
it does so after its calls on the timers. -/
def ResetsElection (a : Actor) (cb : Callbacks) (s : RaftFSM) (e : NetEvent) : Prop :=
  s.blocked = false ∧ .reset .election ∈ s.handleCalls a cb (.net e)

/-- A heartbeat of the term the node is in afterwards, or a vote request that is answered
with the vote. -/
def ForCause (a : Actor) (cb : Callbacks) (s : RaftFSM) (e : NetEvent) : Prop :=
  (∃ id t, e = .appendEntriesReq id t ∧
    ∀ s', handle a cb s (.net e) = .ok s' → s'.term = t) ∨
  ∃ id t s', e = .requestVoteReq id t ∧ handle a cb s (.net e) = .ok s' ∧
    .sent id (.requestVoteRes a.self s'.term true) ∈ sends s s'

/-- A vote request that is not stale and that the node cannot grant: the record holds the
vote of that term or a later one for somebody else, or there is nobody to answer. -/
def InVain (a : Actor) (s : RaftFSM) : NetEvent → Prop
  | .requestVoteReq id t =>
      s.blocked = false ∧ s.term ≤ t ∧
        (id ∉ a.peers.ids ∨ t < s.voter.lastVotedTerm ∨
          t = s.voter.lastVotedTerm ∧ id ≠ s.voter.lastVoted)
  | _ => False

/-! ### What a follower does -/

/-- A message of the follower's term or a later one is one of the follower's new term. -/
theorem not_lt_adopted_iff {t : UInt64} :
    ¬ t < (if s.term < t then t else s.term) ↔ s.term ≤ t := by
  split
  · rename_i hlt
    exact ⟨fun _ => UInt64.le_of_lt hlt, fun _ => UInt64.lt_irrefl t⟩
  · exact UInt64.not_lt

theorem mem_handleRequestVoteCalls {t : UInt64} (hrole : s.role = .follower) :
    .reset .election ∈ handleRequestVoteCalls s t ↔ ¬ t < s.term := by
  unfold handleRequestVoteCalls
  by_cases hlt : t < s.term
  · simp [hlt]
  · simp [hlt, hrole]

theorem mem_handleAppendEntriesCalls {t : UInt64} (hrole : s.role = .follower) :
    .reset .election ∈ handleAppendEntriesCalls cb s t ↔ ¬ t < s.term := by
  unfold handleAppendEntriesCalls
  by_cases hlt : t < s.term
  · simp [hlt]
  · simp [hlt, hrole]

/-- A follower resets the timer on every request that is not stale. -/
theorem resetsElection_iff (a : Actor) (cb : Callbacks) (hrole : s.role = .follower) :
    ResetsElection a cb s e ↔
      s.blocked = false ∧ e.isRequest = true ∧ s.term ≤ e.getTerm := by
  unfold ResetsElection
  refine and_congr_right fun _ => ?_
  simp only [handleCalls, RaftEvent.getTerm, adoptTermCalls_of_follower cb _ hrole,
    adoptTerm_follower_eq cb _ hrole, List.nil_append]
  cases e with
  | requestVoteReq id t =>
      rw [mem_handleRequestVoteCalls (by exact hrole)]
      simp only [NetEvent.isRequest, true_and]
      exact not_lt_adopted_iff
  | requestVoteRes id t granted =>
      simp [handleRequestVoteResponseCalls, hrole, NetEvent.isRequest]
  | appendEntriesReq id t =>
      rw [mem_handleAppendEntriesCalls (by exact hrole)]
      simp only [NetEvent.isRequest, true_and]
      exact not_lt_adopted_iff
  | appendEntriesRes id t => simp [NetEvent.isRequest]

/-! ### What it answers -/

/-- A heartbeat that is not stale is one of the term it leaves. -/
theorem term_of_heartbeat {id t : UInt64} (hblocked : s.blocked = false) (hle : s.term ≤ t)
    (hhandle : handle a cb s (.net (.appendEntriesReq id t)) = .ok s') : s'.term = t := by
  have hlost : ¬ WinningVote a s (.appendEntriesReq id t) := fun hc => hc
  rw [handle_term hblocked hhandle, if_neg hlost]
  show (if s.term < t then t else s.term) = t
  split
  · rfl
  · rename_i hlt
    exact UInt64.le_antisymm hle (UInt64.not_lt.mp hlt)

/-- A vote request of a member that is not stale is put to the voter. -/
theorem handle_vote_request {id t : UInt64} (cb : Callbacks) (htask : HasTask s)
    (hblocked : s.blocked = false) (hrole : s.role = .follower) (hle : s.term ≤ t)
    (hmem : id ∈ a.peers.ids) :
    ∃ s', handle a cb s (.net (.requestVoteReq id t)) = .ok s' ∧ s'.term = t ∧
      sends s s' = [.sent id (.requestVoteRes a.self t (s.voter.voteForLeader id t).1)] := by
  have hadopt : adoptTerm cb s t = { s with term := t } := by
    rw [adoptTerm_follower_eq cb t hrole]
    split
    · rfl
    · rename_i hlt
      rw [UInt64.le_antisymm hle (UInt64.not_lt.mp hlt)]
  have hserves := votedOn_serves { s with term := t } id t
  have hgrants : grants { s with term := t } id t = (s.voter.voteForLeader id t).1 :=
    if_neg (UInt64.lt_irrefl t)
  refine ⟨(votedOn { s with term := t } id t).emit
    (.sent id (.requestVoteRes a.self t (s.voter.voteForLeader id t).1)), ?_, ?_, ?_⟩
  · rw [handle_eq, if_neg (by simp [hblocked])]
    show handleRequestVote a (adoptTerm cb s t) id t = _
    rw [hadopt, handleRequestVote_eq (by exact htask) hmem t, hgrants]
  · exact hserves.term
  · refine sends_answer (.of_trace_eq (s := s) rfl) ?_
    rw [emit_trace, hserves.trace]

theorem not_forCause_of_inVain {id t : UInt64} (htask : HasTask s) (hrole : s.role = .follower)
    (h : InVain a s (.requestVoteReq id t)) : ¬ ForCause a cb s (.requestVoteReq id t) := by
  obtain ⟨hblocked, hle, hvain⟩ := h
  rintro (⟨_, _, hc, -⟩ | ⟨_, _, s', heq, hhandle, hsent⟩)
  · cases hc
  obtain ⟨rfl, rfl⟩ := NetEvent.requestVoteReq.inj heq
  by_cases hmem : id ∈ a.peers.ids
  · obtain ⟨s₁, hs₁, -, hsends⟩ := handle_vote_request cb htask hblocked hrole hle hmem
    obtain rfl := Except.ok.inj (hs₁.symm.trans hhandle)
    rw [hsends] at hsent
    have hgrant : (s.voter.voteForLeader id t).1 = true := by
      simp only [List.mem_singleton, Entry.sent.injEq, NetEvent.requestVoteRes.injEq] at hsent
      exact hsent.2.2.2.symm
    have hrefused := hvain.resolve_left (not_not_intro hmem)
    exact (s.voter.voteForLeader_eq_true_iff id t).mp hgrant hrefused
  · have hanswer : ¬ Answerable a s (.requestVoteReq id t) := by
      simp [Answerable, hblocked, NetEvent.isRequest, NetEvent.getServerId, hmem]
    rw [handle_of_not_answerable cb htask hanswer] at hhandle
    cases hhandle

theorem forCause_of_not_inVain {id t : UInt64} (htask : HasTask s) (hrole : s.role = .follower)
    (hblocked : s.blocked = false) (hle : s.term ≤ t)
    (h : ¬ InVain a s (.requestVoteReq id t)) : ForCause a cb s (.requestVoteReq id t) := by
  have hspare : ¬ (id ∉ a.peers.ids ∨ t < s.voter.lastVotedTerm ∨
      t = s.voter.lastVotedTerm ∧ id ≠ s.voter.lastVoted) :=
    fun hvain => h ⟨hblocked, hle, hvain⟩
  obtain ⟨hmem, hgrant⟩ := not_or.mp hspare
  obtain ⟨s', hs', hterm, hsends⟩ :=
    handle_vote_request cb htask hblocked hrole hle (not_not.mp hmem)
  refine Or.inr ⟨id, t, s', rfl, hs', ?_⟩
  rw [hsends, hterm, (s.voter.voteForLeader_eq_true_iff id t).mpr hgrant]
  exact List.mem_singleton_self _

/-- **When a follower puts its election off for cause.**  In every reachable state, every
message that makes a follower reset its election timer is a heartbeat of its term or is
answered with its vote, except for the vote requests it is asked in vain. -/
theorem deferred_for_cause_iff (h : (machineSystem a).Reachable s) (hrole : s.role = .follower)
    (cb : Callbacks) (e : NetEvent) :
    (ResetsElection a cb s e → ForCause a cb s e) ↔ ¬ InVain a s e := by
  have htask := hasTask_of_reachable h
  rw [resetsElection_iff a cb hrole]
  cases e with
  | requestVoteRes id t granted | appendEntriesRes id t =>
      exact ⟨fun _ hc => hc, fun _ hc => nomatch hc.2.1⟩
  | appendEntriesReq id t =>
      refine ⟨fun _ hc => hc, ?_⟩
      rintro - ⟨hblocked, -, hle⟩
      exact Or.inl ⟨id, t, rfl, fun _ hhandle => term_of_heartbeat hblocked hle hhandle⟩
  | requestVoteReq id t =>
      constructor
      · intro hcause hvain
        exact not_forCause_of_inVain htask hrole hvain (hcause ⟨hvain.1, rfl, hvain.2.1⟩)
      · rintro hspare ⟨hblocked, -, hle⟩
        exact forCause_of_not_inVain htask hrole hblocked hle hspare

/-- Server 1 has given its vote of term 5 to server 2, and hears from it as leader. -/
theorem deferred_for_cause_of_leader : ∃ s : RaftFSM, s.role = .follower ∧ s.term = 5 ∧
    ResetsElection firstOfThree {} s (.appendEntriesReq 2 5) ∧
      ForCause firstOfThree {} s (.appendEntriesReq 2 5) := by
  obtain ⟨s, hs, hrole, hterm, hblocked⟩ := System.Reachable.of_execute started
    (RaftFSM.step firstOfThree) (fun _ _ _ => True) [.handle (.net (.requestVoteReq 2 5)) {}]
    (fun s => s.role = .follower ∧ s.term = 5 ∧ s.blocked = false) (by decide +kernel)
  have hresets : ResetsElection firstOfThree {} s (.appendEntriesReq 2 5) :=
    (resetsElection_iff firstOfThree {} hrole).mpr ⟨hblocked, rfl, by rw [hterm]; decide⟩
  exact ⟨s, hrole, hterm, hresets,
    (deferred_for_cause_iff hs.unrestrict hrole {} (.appendEntriesReq 2 5)).mpr id hresets⟩

/-- Then it is asked for that vote by server 3, refuses, and has reset its timer. -/
theorem refused_candidate_defers : ∃ s : RaftFSM, (machineSystem firstOfThree).Reachable s ∧
    s.role = .follower ∧ ResetsElection firstOfThree {} s (.requestVoteReq 3 5) ∧
      ¬ ForCause firstOfThree {} s (.requestVoteReq 3 5) := by
  obtain ⟨s, hs, hrole, hterm, hblocked, hvoter⟩ := System.Reachable.of_execute started
    (RaftFSM.step firstOfThree) (fun _ _ _ => True) [.handle (.net (.requestVoteReq 2 5)) {}]
    (fun s => s.role = .follower ∧ s.term = 5 ∧ s.blocked = false ∧
      s.voter = { lastVoted := 2, lastVotedTerm := 5 }) (by decide +kernel)
  have hresets : ResetsElection firstOfThree {} s (.requestVoteReq 3 5) :=
    (resetsElection_iff firstOfThree {} hrole).mpr ⟨hblocked, rfl, by rw [hterm]; decide⟩
  have hvain : InVain firstOfThree s (.requestVoteReq 3 5) := by
    refine ⟨hblocked, by rw [hterm]; decide, Or.inr (Or.inr ?_)⟩
    rw [hvoter]
    decide
  exact ⟨s, hs.unrestrict, hrole, hresets,
    not_forCause_of_inVain (hasTask_of_reachable hs.unrestrict) hrole hvain⟩

end Raft.RaftFSM
