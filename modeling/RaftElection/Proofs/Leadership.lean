/-
What makes a node leader, and what it does as one.

A node against any history of events, timeouts and calls.  It becomes leader on a
majority of distinct ids, but `handle_request_vote_response` takes each id from the
message and never looks it up: only where the votes counted come from members is
the majority one of members.  And `convert_to_leader` raises the term without
spending the vote of the new term, so a leader asked for its vote in its own term
may still give it, to the first server that asks, and stay leader.
-/
import RaftElection.Library.Quorum
import RaftElection.Proofs.Votes

namespace Raft

open Transition Quorum RaftFSM

/-! ### Elected by members -/

/-- Every leadership was won on the votes of a majority of members: this server itself
and senders of granted votes of the term of that election. -/
def ElectedByMembers (a : Actor) (trace : List Entry) : Prop :=
  ∀ L older, (.becameLeader L :: older) <:+ trace →
    ∃ Q, Majority a.peers.members Q ∧
      ∀ q ∈ Q, q = a.self ∨ .received (.requestVoteRes q (L - 1) true) ∈ older

/-- A vote that this step counts carries the id of a member. -/
def MemberVotes (a : Actor) (n : Node) : NodeAction → Prop
  | .deliver (.requestVoteRes id term true) _ =>
      n.fsm.blocked = false → n.fsm.role = .candidate → term = n.fsm.term → id ∈ a.peers.ids
  | _ => True

instance (a : Actor) (n : Node) (act : NodeAction) : Decidable (MemberVotes a n act) := by
  unfold MemberVotes
  split <;> infer_instance

theorem countsOnly_of_memberVotes {a : Actor} {n : Node} {act : NodeAction}
    (h : MemberVotes a n act) : Node.CountsOnly (fun id _ => id ∈ a.peers.ids) n act := by
  intro id cb hact hblocked hrole
  subst hact
  exact h hblocked hrole rfl

theorem electedByMembers_of_elected {a : Actor} {trace : List Entry}
    (h : Elected a (fun id _ => id ∈ a.peers.ids) trace) : ElectedByMembers a trace := by
  intro L older hsuffix
  obtain ⟨Q, hcard, hQ⟩ := h L older hsuffix
  refine ⟨Q, ⟨?_, hcard⟩, ?_⟩
  · intro q hq
    rw [PeerMap.mem_members]
    rcases hQ q hq with ⟨rfl, -⟩ | ⟨-, hmem⟩
    · exact a.self_mem
    · exact hmem
  · intro q hq
    rcases hQ q hq with ⟨hself, -⟩ | ⟨hrec, -⟩
    · exact Or.inl hself
    · exact Or.inr hrec

/-- **Where every vote counted carries the id of a member, a leader is elected by
members.**  And no node is leader without an election. -/
theorem elected_by_members (a : Actor) {n : Node}
    (h : ((nodeSystem a).restrict fun n act _ => MemberVotes a n act).Reachable n) :
    ElectedByMembers a n.fsm.trace ∧
      (n.fsm.role = .leader → .becameLeader n.fsm.term ∈ n.fsm.trace) := by
  have hbacked : Backed a (fun id _ => id ∈ a.peers.ids) n.fsm := by
    refine h.invariant (I := fun n => Backed a _ n.fsm) ?_ ?_
    · intro n₀ hn₀
      subst hn₀
      exact Backed.started
    · intro n act n' _ hn hmove
      obtain ⟨hstep, hmember⟩ := hmove
      exact hn.step (countsOnly_of_memberVotes hmember) hstep
  exact ⟨electedByMembers_of_elected hbacked.elected, hbacked.leading⟩

/-- Server 2 answers a candidacy of server 1, which becomes leader on its vote. -/
theorem elected_by_members_of_three : ∃ n : Node,
    n.fsm.role = .leader ∧ ElectedByMembers firstOfThree n.fsm.trace := by
  obtain ⟨n, hn, hrole⟩ := System.Reachable.of_execute {} (Node.step firstOfThree)
    (fun n act _ => MemberVotes firstOfThree n act)
    [.expire, .timeout {}, .deliver (.requestVoteRes 2 1 true) {}]
    (fun n => n.fsm.role = .leader) (by decide +kernel)
  exact ⟨n, hrole, (elected_by_members firstOfThree hn).1⟩

/-- Id 99 is no key of the map, and its vote makes server 1 leader all the same. -/
theorem stranger_elects :
    ∃ n, (nodeSystem firstOfThree).Reachable n ∧ ¬ ElectedByMembers firstOfThree n.fsm.trace := by
  obtain ⟨n, hn, htrace⟩ := System.Reachable.of_execute {} (Node.step firstOfThree)
    (fun _ _ _ => True) [.expire, .timeout {}, .deliver (.requestVoteRes 99 1 true) {}]
    (fun n => n.fsm.trace = [.becameLeader 2, .received (.requestVoteRes 99 1 true),
      .sent 3 (.requestVoteReq 1 1), .sent 2 (.requestVoteReq 1 1), .votedSelf 1, .stood 1])
    (by decide +kernel)
  refine ⟨n, hn.unrestrict, ?_⟩
  intro helected
  rw [htrace] at helected
  obtain ⟨Q, hQ, hvotes⟩ := helected 2 _ (List.suffix_refl _)
  have hsub : Q ⊆ {1} := by
    intro q hq
    have hmem : q ∈ [1, 2, 3] := hQ.subset hq
    have hvote := hvotes q hq
    simp only [firstOfThree, List.mem_cons, Entry.received.injEq, reduceCtorEq,
      NetEvent.requestVoteRes.injEq, List.not_mem_nil, or_false] at hmem hvote
    rw [Finset.mem_singleton]
    rcases hvote with rfl | ⟨rfl, -⟩
    · rfl
    · exact absurd hmem (by decide)
  have hle := Finset.card_le_card hsub
  have hcard : 2 ≤ Q.card := hQ.card
  rw [Finset.card_singleton] at hle
  omega

/-! ### The vote of a leader

A leader answers vote requests like anyone else.  It has not voted in the term it began by
winning, so a request of that very term finds its vote free.
-/

/-- The step from `n` to `n'` answered `c` with a granted vote. -/
def Grants (a : Actor) (n n' : Node) (c : UInt64) : Prop :=
  ∃ new t, n'.fsm.trace = new ++ n.fsm.trace ∧ .sent c (.requestVoteRes a.self t true) ∈ new

theorem Grants.mem_of_append {a : Actor} {n n' : Node} {c : UInt64} (h : Grants a n n' c)
    (new : List Entry) (htrace : n'.fsm.trace = new ++ n.fsm.trace) :
    ∃ t, .sent c (.requestVoteRes a.self t true) ∈ new := by
  obtain ⟨new', t, htrace', hmem⟩ := h
  obtain rfl := List.append_cancel_right (htrace'.symm.trans htrace)
  exact ⟨t, hmem⟩

theorem adoptTerm_role_ne_leader (cb : Callbacks) {s : RaftFSM} {t : UInt64}
    (h : s.role ≠ .leader ∨ s.term < t) : (adoptTerm cb s t).role ≠ .leader := by
  by_cases hlt : s.term < t
  · rw [(adoptTerm_quiet cb hlt).role, leave_role]
    decide
  · rw [adoptTerm_of_not_lt cb hlt]
    exact h.resolve_right hlt

theorem handle_request {a : Actor} {cb : Callbacks} {s : RaftFSM} {c t : UInt64}
    (h : s.blocked = false) : handle a cb s (.net (.requestVoteReq c t)) =
      handleRequestVote a (adoptTerm cb s t) c t := by
  unfold handle
  rw [if_neg (by simp [h])]
  rfl

/-- The request of a leader's own term, from a member, is put to the voter. -/
theorem handleRequestVote_leader {a : Actor} {s : RaftFSM} {c : UInt64}
    (hrole : s.role = .leader) (hc : c ∈ a.peers.ids) :
    handleRequestVote a s c s.term = .ok (castVote a s c) := by
  unfold handleRequestVote voteAndReply reply
  rw [if_neg (UInt64.lt_irrefl s.term), if_neg (by simp [hrole]), Actor.getPeer_of_mem hc]
  rfl

theorem handle_request_leader {a : Actor} {s : RaftFSM} {c : UInt64} (cb : Callbacks)
    (hblocked : s.blocked = false) (hrole : s.role = .leader) (hc : c ∈ a.peers.ids) :
    handle a cb s (.net (.requestVoteReq c s.term)) = .ok (castVote a s c) := by
  rw [handle_request hblocked, adoptTerm_of_not_lt cb (UInt64.lt_irrefl s.term)]
  exact handleRequestVote_leader hrole hc

theorem handleRequestVote_stale {a : Actor} {s s' : RaftFSM} {c t : UInt64} (hlt : t < s.term)
    (h : handleRequestVote a s c t = .ok s') :
    s' = s.emit (.sent c (.requestVoteRes a.self s.term false)) := by
  unfold handleRequestVote at h
  rw [if_pos hlt] at h
  exact (reply_eq_ok h).2

/-- A node that is leader after the request was leader before it and has adopted no
term. -/
theorem handle_request_of_leader {a : Actor} {cb : Callbacks} {s s' : RaftFSM} {c t : UInt64}
    (hblocked : s.blocked = false) (h : handle a cb s (.net (.requestVoteReq c t)) = .ok s')
    (hleader : s'.role = .leader) :
    c ∈ a.peers.ids ∧ s.role = .leader ∧ t ≤ s.term ∧ handleRequestVote a s c t = .ok s' := by
  rw [handle_request hblocked] at h
  obtain ⟨hc, hrole, -⟩ := handleRequestVote_eq_ok h
  have hkept : ¬ (s.role ≠ .leader ∨ s.term < t) :=
    fun hlost => adoptTerm_role_ne_leader cb hlost (hrole.symm.trans hleader)
  rw [not_or, not_not] at hkept
  rw [adoptTerm_of_not_lt cb hkept.2] at h
  exact ⟨hc, hkept.1, UInt64.not_lt.mp hkept.2, h⟩

/-- The requests on which a node cannot both give its vote and stay leader. -/
def KeepsVote (a : Actor) (s : RaftFSM) (c t : UInt64) : Prop :=
  s.blocked = true ∨ s.role ≠ .leader ∨ t ≠ s.term ∨ c ∉ a.peers.ids ∨
    s.voter.lastVotedTerm = s.term ∧ s.voter.lastVoted ≠ c

theorem handle_request_of_keepsVote {a : Actor} {cb : Callbacks} {s s' : RaftFSM} {c t : UInt64}
    (hkeeps : KeepsVote a s c t) (h : handle a cb s (.net (.requestVoteReq c t)) = .ok s')
    (hleader : s'.role = .leader) :
    s' = s ∨ s'.trace = .sent c (.requestVoteRes a.self s.term false) :: s.trace := by
  cases hblocked : s.blocked with
  | true =>
      unfold handle at h
      rw [if_pos hblocked] at h
      exact Or.inl (Except.ok.inj h).symm
  | false =>
      obtain ⟨hc, hrole, hle, hreq⟩ := handle_request_of_leader hblocked h hleader
      refine Or.inr ?_
      by_cases hlt : t < s.term
      · rw [handleRequestVote_stale hlt hreq]
        rfl
      · obtain rfl : t = s.term := UInt64.le_antisymm hle (UInt64.not_lt.mp hlt)
        rw [handleRequestVote_leader hrole hc] at hreq
        obtain rfl := Except.ok.inj hreq
        have hspent : s.voter.lastVotedTerm = s.term ∧ s.voter.lastVoted ≠ c := by
          rcases hkeeps with hk | hk | hk | hk | hk
          · exact absurd (hblocked.symm.trans hk) (by decide)
          · exact absurd hrole hk
          · exact absurd rfl hk
          · exact absurd hc hk
          · exact hk
        have hrefuse : (s.voter.voteForLeader c s.term).1 = false := by
          unfold Voter.voteForLeader
          rw [hspent.1, if_neg (UInt64.lt_irrefl _), if_pos rfl, if_neg (Ne.symm hspent.2)]
        show Entry.sent c (.requestVoteRes a.self s.term _) :: s.trace = _
        rw [hrefuse]

theorem refuses_of_keepsVote {a : Actor} {n n' : Node} {c t : UInt64} {cb : Callbacks}
    (hkeeps : KeepsVote a n.fsm c t)
    (hstep : n.step a (.deliver (.requestVoteReq c t) cb) = some n')
    (hleader : n'.fsm.role = .leader) : ¬ Grants a n n' c := by
  intro hgrants
  simp only [Node.step] at hstep
  split at hstep
  · rename_i s hs
    simp only [Option.some.injEq] at hstep
    subst hstep
    rcases handle_request_of_keepsVote (s := n.fsm.emit (.received (.requestVoteReq c t)))
      hkeeps hs hleader with rfl | htrace
    · obtain ⟨t', hmem⟩ := hgrants.mem_of_append [.received (.requestVoteReq c t)] rfl
      simp at hmem
    · obtain ⟨t', hmem⟩ := hgrants.mem_of_append
        [.sent c (.requestVoteRes a.self n.fsm.term false), .received (.requestVoteReq c t)] htrace
      simp at hmem
  · simp at hstep

/-- A leader whose record is older than its term has a vote to give. -/
theorem grants_of_not_keepsVote {a : Actor} {n : Node} {c t : UInt64} (cb : Callbacks)
    (hcurrent : VotesCurrent n.fsm) (h : ¬ KeepsVote a n.fsm c t) :
    ∃ n', n.step a (.deliver (.requestVoteReq c t) cb) = some n' ∧ n'.fsm.role = .leader ∧
      Grants a n n' c := by
  unfold KeepsVote at h
  push Not at h
  obtain ⟨hblocked, hrole, rfl, hc, hspare⟩ := h
  have hgrant : (n.fsm.voter.voteForLeader c n.fsm.term).1 = true := by
    rcases n.fsm.voter.voteForLeader_cases c n.fsm.term with ⟨heq, -⟩ | ⟨-, hwhy⟩
    · rw [heq]
    · have hle := hcurrent.record_le
      grind
  have hhandle := handle_request_leader (s := n.fsm.emit (.received (.requestVoteReq c n.fsm.term)))
    cb (by simpa using hblocked) hrole hc
  refine ⟨{ n with fsm := castVote a (n.fsm.emit (.received (.requestVoteReq c n.fsm.term))) c },
    ?_, hrole, ?_⟩
  · rw [emit_term] at hhandle
    simp only [Node.step, hhandle]
  · refine ⟨[.sent c (.requestVoteRes a.self n.fsm.term true),
      .received (.requestVoteReq c n.fsm.term)], n.fsm.term, ?_, List.mem_cons_self⟩
    rw [← hgrant]
    rfl

/-- As long as `term_` does not reach its largest value. -/
def TermsBelowMax (_ : Node) (_ : NodeAction) (n' : Node) : Prop := n'.fsm.term ≠ maxTerm

instance (n : Node) (act : NodeAction) (n' : Node) : Decidable (TermsBelowMax n act n') :=
  inferInstanceAs (Decidable (_ ≠ _))

theorem term_ne_maxTerm {a : Actor} {n : Node}
    (h : ((nodeSystem a).restrict TermsBelowMax).Reachable n) : n.fsm.term ≠ maxTerm := by
  refine h.invariant (I := fun n => n.fsm.term ≠ maxTerm) ?_ ?_
  · intro n₀ hn₀
    subst hn₀
    exact started_term_ne_maxTerm
  · intro _ _ _ _ _ hmove
    exact hmove.2

theorem votesCurrent_of_reachable {a : Actor} {n : Node}
    (h : ((nodeSystem a).restrict TermsBelowMax).Reachable n) : VotesCurrent n.fsm := by
  refine h.invariant (I := fun n => VotesCurrent n.fsm) ?_ ?_
  · intro n₀ hn₀
    subst hn₀
    exact VotesCurrent.started
  · intro n act n' hn hs hmove
    obtain ⟨hstep, hnext⟩ := hmove
    exact hs.step hstep (term_ne_maxTerm hn) hnext

/-- **When a leader keeps its vote.**  Whatever the node has been through, it never
stays leader on a request it grants exactly when it is blocked, is no leader, is
asked in another term than its own or by a server outside the map, or has already
given the vote of its term to someone else. -/
theorem leader_refuses_iff (a : Actor) {n : Node} (cb : Callbacks) (c t : UInt64)
    (h : ((nodeSystem a).restrict TermsBelowMax).Reachable n) :
    (∀ n', n.step a (.deliver (.requestVoteReq c t) cb) = some n' → n'.fsm.role = .leader →
      ¬ Grants a n n' c) ↔ KeepsVote a n.fsm c t := by
  constructor
  · intro hrefuses
    by_contra hspare
    obtain ⟨n', hstep, hrole, hgrants⟩ :=
      grants_of_not_keepsVote cb (votesCurrent_of_reachable h) hspare
    exact hrefuses n' hstep hrole hgrants
  · intro hkeeps n' hstep hleader
    exact refuses_of_keepsVote hkeeps hstep hleader

/-- Server 1 leads in term 2 and is asked for its vote of term 1. -/
theorem leader_refuses_stale : ∃ n : Node, n.fsm.role = .leader ∧
    ∀ n', n.step firstOfThree (.deliver (.requestVoteReq 3 1) {}) = some n' →
      n'.fsm.role = .leader → ¬ Grants firstOfThree n n' 3 := by
  obtain ⟨n, hn, hrole, hterm⟩ := System.Reachable.of_execute {} (Node.step firstOfThree)
    TermsBelowMax [.expire, .timeout {}, .deliver (.requestVoteRes 2 1 true) {}]
    (fun n => n.fsm.role = .leader ∧ n.fsm.term = 2) (by decide +kernel)
  refine ⟨n, hrole, (leader_refuses_iff firstOfThree {} 3 1 hn).mpr ?_⟩
  exact Or.inr (Or.inr (Or.inl (by rw [hterm]; decide)))

/-- Server 1 leads in term 2, is asked for its vote of term 2, gives it and leads on. -/
theorem leader_grants_own_term :
    ∃ n n', ((nodeSystem firstOfThree).restrict TermsBelowMax).Reachable n ∧
      n.step firstOfThree (.deliver (.requestVoteReq 3 2) {}) = some n' ∧
        n'.fsm.role = .leader ∧ Grants firstOfThree n n' 3 := by
  obtain ⟨n, hn, hblocked, hrole, hterm, hvoter⟩ :=
    System.Reachable.of_execute {} (Node.step firstOfThree) TermsBelowMax
      [.expire, .timeout {}, .deliver (.requestVoteRes 2 1 true) {}]
      (fun n => n.fsm.blocked = false ∧ n.fsm.role = .leader ∧ n.fsm.term = 2 ∧
        n.fsm.voter = { lastVoted := 1, lastVotedTerm := 1 }) (by decide +kernel)
  have hspare : ¬ KeepsVote firstOfThree n.fsm 3 2 := by
    simp only [KeepsVote, hblocked, hrole, hterm, hvoter]
    decide
  obtain ⟨n', hgrants⟩ := grants_of_not_keepsVote {} (votesCurrent_of_reachable hn) hspare
  exact ⟨n, n', hn, hgrants⟩

end Raft
