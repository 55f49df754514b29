/-
What `get_leader` is worth.

`leader_` is set by the constructor and by nothing else (`step_leader`), so `get_leader`
says in every state that there is no leader yet.  It tells the truth as long as that is
so: until the node wins an election or heeds a heartbeat.  `Unrevealing` is the condition
on single steps, and `get_leader_truthful` also says state by state where the answer is
right and where it is not.

That a node is made leader by a winning vote and by nothing else is read off the
handlers here; what the callbacks do afterwards only ever ends a role.
-/
import RaftElection.Proofs.Callbacks
import RaftElection.Proofs.Terms

namespace Raft

open Transition

namespace RaftFSM

variable {a : Actor} {cb : Callbacks} {e : NetEvent} {s s' : RaftFSM} {x : MachineAction}

/-! ### Nothing assigns `leader_` -/

theorem clearPrevState_leader (s : RaftFSM) : (clearPrevState s).leader = s.leader := by
  unfold clearPrevState
  cases s.role <;> rfl

theorem leave_leader (s : RaftFSM) : (leave s).leader = s.leader := by
  unfold leave convertToFollower clearPrevState
  cases h : s.role <;> rfl

theorem callable_leader : Callable fun s s' => s'.leader = s.leader where
  refl _ := rfl
  trans h h' := h'.trans h
  callback _ _ _ := rfl
  setBlocked _ _ := rfl
  pause _ := rfl
  leave := leave_leader

theorem Turn.leader_eq (hturn : Turn a cb e s s') : s'.leader = s.leader := by
  cases hturn with
  | adopt hlt =>
      exact callable_leader.convertToFollower (callable_leader.signOff cb)
        { s with term := e.getTerm }
  | reset | refuse | vote | acknowledge | count => rfl
  | stepDown => exact leave_leader s
  | lead => exact callable_leader.becomeLeader cb (enterLeader s)

theorem step_leader (hstep : s.step a x = some s') : s'.leader = s.leader := by
  cases step_entered hstep with
  | handled e cb s' hturns =>
      exact hturns.invariant (I := fun s' => s'.leader = s.leader)
        (fun _ _ hturn h => hturn.leader_eq.trans h) rfl
  | ignored => rfl
  | timedOut | expired =>
      rw [candidacy_eq]
      exact clearPrevState_leader s
  | beat hlive => rw [sendAll_eq]
  | called c cb => exact callable_leader.call cb s c

/-! ### Only a winning vote makes a leader -/

/-- `s'` is a leader only where `s` is one. -/
def NotPromoted (s s' : RaftFSM) : Prop := s'.role = .leader → s.role = .leader

theorem callable_notPromoted : Callable NotPromoted where
  refl _ h := h
  trans h h' hrole := h (h' hrole)
  callback _ _ _ h := h
  setBlocked _ _ h := h
  pause _ h := h
  leave s h := absurd ((leave_role s).symm.trans h) (by decide)

theorem adoptTerm_notPromoted (cb : Callbacks) (s : RaftFSM) (t : UInt64) :
    NotPromoted s (adoptTerm cb s t) := by
  unfold adoptTerm
  split
  · exact callable_notPromoted.convertToFollower (callable_notPromoted.signOff cb)
      { s with term := t }
  · exact callable_notPromoted.refl s

theorem handleRequestVoteResponse_notPromoted {id t : UInt64} {granted : Bool}
    (hnot : ¬ WinningVote a s (.requestVoteRes id t granted)) (hle : t ≤ s.term) :
    NotPromoted s (handleRequestVoteResponse a cb s id t granted) := by
  intro hrole
  unfold handleRequestVoteResponse at hrole
  split at hrole
  · exact hrole
  · rename_i hstale
    split at hrole
    · rename_i hcond
      have hterm : t = s.term := UInt64.le_antisymm hle (UInt64.not_lt.mp hstale)
      dsimp only at hrole
      rw [if_neg] at hrole
      · exact hrole
      · intro hmajority
        exact hnot (winningVote_iff.mpr ⟨hcond.2, hcond.1, hterm, hmajority⟩)
    · exact hrole

theorem handleAppendEntries_notPromoted {id t : UInt64}
    (h : handleAppendEntries a cb s id t = .ok s') : NotPromoted s s' := by
  intro hrole
  unfold handleAppendEntries at h
  split at h
  · obtain ⟨-, rfl⟩ := reply_eq_ok h
    exact hrole
  · split at h
    · assumption
    · obtain ⟨s₁, hreset, hrest⟩ := bind_eq_ok h
      obtain ⟨timer, -, rfl⟩ := resetElectionTimeout_eq_ok hreset
      obtain ⟨-, rfl⟩ := reply_eq_ok hrest
      dsimp only at hrole
      split at hrole
      · exact absurd ((convertToFollower_role cb _).symm.trans hrole) (by decide)
      · exact hrole

/-- The winning vote is of the node's own term, so no term is adopted on the way. -/
theorem winningVote_of_adoptTerm (h : WinningVote a (adoptTerm cb s e.getTerm) e) :
    WinningVote a s e := by
  cases e with
  | requestVoteReq | appendEntriesReq | appendEntriesRes => exact h.elim
  | requestVoteRes id t granted =>
      by_cases hlt : s.term < t
      · obtain ⟨-, hrole, -⟩ := winningVote_iff.mp h
        have hfollower : (adoptTerm cb s t).role = .follower := by
          rw [(adoptTerm_quiet cb hlt).role, leave_role]
        exact absurd (hfollower.symm.trans hrole) (by decide)
      · rw [show adoptTerm cb s (NetEvent.requestVoteRes id t granted).getTerm = s from
          adoptTerm_of_not_lt cb hlt] at h
        exact h

theorem handle_notPromoted (hnot : s.blocked = false → ¬ WinningVote a s e)
    (h : handle a cb s (.net e) = .ok s') : NotPromoted s s' := by
  rw [handle_eq] at h
  cases hblocked : s.blocked with
  | true =>
      rw [if_pos hblocked] at h
      obtain rfl := Except.ok.inj h
      exact callable_notPromoted.refl s
  | false =>
      rw [if_neg (by simp [hblocked])] at h
      have hlost : ¬ WinningVote a (adoptTerm cb s e.getTerm) e :=
        fun hwin => hnot hblocked (winningVote_of_adoptTerm hwin)
      refine callable_notPromoted.trans (adoptTerm_notPromoted cb s e.getTerm) ?_
      cases e with
      | requestVoteReq id t =>
          intro hrole
          exact (handleRequestVote_eq_ok h).2.1.symm.trans hrole
      | requestVoteRes id t granted =>
          obtain rfl := Except.ok.inj h
          exact handleRequestVoteResponse_notPromoted hlost (le_adoptTerm cb s t)
      | appendEntriesReq id t => exact handleAppendEntries_notPromoted h
      | appendEntriesRes id t =>
          obtain rfl := Except.ok.inj h
          exact callable_notPromoted.refl _

/-- The step hands the node a vote that wins its election. -/
def Wins (a : Actor) (s : RaftFSM) (x : MachineAction) : Prop :=
  ∃ e cb, x = .handle (.net e) cb ∧ s.blocked = false ∧ WinningVote a s e

theorem step_notPromoted (hstep : s.step a x = some s') (hnot : ¬ Wins a s x) :
    NotPromoted s s' := by
  cases step_entered hstep with
  | handled e cb s' hturns =>
      refine handle_notPromoted ?_ (eq_ok_of_toOption hstep)
      intro hblocked hwin
      exact hnot ⟨e, cb, rfl, hblocked, hwin⟩
  | ignored => exact callable_notPromoted.refl s
  | timedOut | expired =>
      intro hrole
      rw [candidacy_eq] at hrole
      cases hrole
  | beat hlive =>
      rw [sendAll_eq]
      exact fun hrole => hrole
  | called c cb => exact callable_notPromoted.call cb s c

end RaftFSM

namespace Informed

variable {a : Actor} {n n' : Informed} {x : MachineAction}

/-! ### What the accessor says -/

/-- `get_leader` names the leader of the current term the node knows, if it knows one. -/
def TellsTruth (a : Actor) (n : Informed) : Prop := n.fsm.getLeader = (n.knows a).getD (-1)

instance (a : Actor) (n : Informed) : Decidable (TellsTruth a n) :=
  inferInstanceAs (Decidable (_ = _))

/-- Steps that neither win an election nor heed a heartbeat, except where the id of the
leader is the value that stands for none. -/
def Unrevealing (a : Actor) (n : Informed) (x : MachineAction) (_ : Informed) : Prop :=
  match x with
  | .handle (.net e) _ =>
      (n.fsm.Heeds e → e.getServerId = -1) ∧
        (n.fsm.blocked = false → RaftFSM.WinningVote a n.fsm e → a.self = -1)
  | _ => True

/-- No leader with another id has shown itself. -/
structure Unaware (a : Actor) (n : Informed) : Prop where
  leads : n.fsm.role = .leader → a.self = -1
  heard : ∀ id t, n.heard = some (id, t) → id = -1

theorem leader_of_reachable (h : (informedSystem a).Reachable n) : n.fsm.leader = -1 := by
  refine h.invariant (I := fun n => n.fsm.leader = -1) ?_ ?_
  · intro n₀ hn₀
    rw [hn₀]
    rfl
  · intro n x n' _ hn hstep
    obtain ⟨s, hs, rfl⟩ := Option.map_eq_some_iff.mp hstep
    exact (RaftFSM.step_leader hs).trans hn

/-- The answer is right in a state exactly where there is no leader to name, or only one
whose id is the answer. -/
theorem tellsTruth_iff (h : n.fsm.leader = -1) :
    TellsTruth a n ↔ ∀ id, n.knows a = some id → id = -1 := by
  unfold TellsTruth RaftFSM.getLeader
  rw [h]
  cases n.knows a with
  | none => simp
  | some id => simp [eq_comm]

theorem Unaware.knows (h : Unaware a n) : ∀ id, n.knows a = some id → id = -1 := by
  intro id hid
  unfold Informed.knows at hid
  cases hrole : n.fsm.role with
  | leader =>
      simp only [hrole, Option.some.injEq] at hid
      rw [← hid]
      exact h.leads hrole
  | candidate => simp [hrole] at hid
  | follower =>
      simp only [hrole] at hid
      obtain ⟨⟨from', t⟩, hheard, hid⟩ := Option.bind_eq_some_iff.mp hid
      dsimp only at hid
      split at hid
      · rw [← Option.some.inj hid]
        exact h.heard _ _ hheard
      · cases hid

theorem Unaware.step (h : Unaware a n) (hstep : n.step a x = some n')
    (hx : Unrevealing a n x n') : Unaware a n' := by
  obtain ⟨s, hs, rfl⟩ := Option.map_eq_some_iff.mp hstep
  refine ⟨?_, ?_⟩
  · intro hrole
    by_cases hwins : RaftFSM.Wins a n.fsm x
    · obtain ⟨e, cb, rfl, hblocked, hwin⟩ := hwins
      exact hx.2 hblocked hwin
    · exact h.leads (RaftFSM.step_notPromoted hs hwins hrole)
  · intro id t hheard
    cases x with
    | handle event cb =>
        cases event with
        | electionTimeout => exact h.heard id t hheard
        | net e =>
            dsimp only at hheard
            split at hheard
            · rename_i hheeds
              obtain ⟨rfl, -⟩ := Prod.mk.inj (Option.some.inj hheard)
              exact hx.1 hheeds
            · exact h.heard id t hheard
    | callElection | callHeartbeat | api => exact h.heard id t hheard

theorem unaware_of_reachable (h : ((informedSystem a).restrict (Unrevealing a)).Reachable n) :
    Unaware a n := by
  refine h.invariant (I := Unaware a) ?_ ?_
  · intro n₀ hn₀
    rw [hn₀]
    exact ⟨nofun, nofun⟩
  · intro n x n' _ hn hstep
    exact hn.step hstep.1 hstep.2

/-- **Where `get_leader` tells the truth.**  In every run whose steps neither win an election
nor heed a heartbeat it does so in every state.  In any reachable state at all it does
so exactly where the node knows no leader of its term, or one whose id is the value that
stands for none. -/
theorem get_leader_truthful (a : Actor) :
    (∀ n, ((informedSystem a).restrict (Unrevealing a)).Reachable n → TellsTruth a n) ∧
      ∀ n, (informedSystem a).Reachable n →
        (TellsTruth a n ↔ ∀ id, n.knows a = some id → id = -1) := by
  refine ⟨?_, fun n hn => tellsTruth_iff (leader_of_reachable hn)⟩
  intro n hn
  rw [tellsTruth_iff (leader_of_reachable hn.unrestrict)]
  exact (unaware_of_reachable hn).knows

/-- Server 1 of three follows server 2 in term 1, and later leads in term 3; either time
`get_leader` says that there is no leader. -/
theorem get_leader_untold :
    (∃ n, (informedSystem firstOfThree).Reachable n ∧ n.fsm.role = .follower ∧
      n.heard = some (2, n.fsm.term) ∧ n.fsm.getLeader = -1 ∧ ¬ TellsTruth firstOfThree n) ∧
    ∃ n, (informedSystem firstOfThree).Reachable n ∧ n.fsm.role = .leader ∧
      n.fsm.getLeader = -1 ∧ ¬ TellsTruth firstOfThree n := by
  refine ⟨?_, ?_⟩
  · obtain ⟨n, hreach, hn⟩ := System.Reachable.of_execute {} (step firstOfThree) (fun _ _ _ => True)
      [.handle (.net (.appendEntriesReq 2 1)) {}]
      (fun n => n.fsm.role = .follower ∧ n.heard = some (2, n.fsm.term) ∧ n.fsm.getLeader = -1 ∧
        ¬ TellsTruth firstOfThree n) (by decide +kernel)
    exact ⟨n, hreach.unrestrict, hn⟩
  · obtain ⟨n, hreach, hn⟩ := System.Reachable.of_execute {} (step firstOfThree) (fun _ _ _ => True)
      [.handle (.net (.appendEntriesReq 2 1)) {}, .callElection {},
        .handle (.net (.requestVoteRes 2 2 true)) {}]
      (fun n => n.fsm.role = .leader ∧ n.fsm.getLeader = -1 ∧ ¬ TellsTruth firstOfThree n)
      (by decide +kernel)
    exact ⟨n, hreach.unrestrict, hn⟩

end Informed

end Raft
