/-
How `term_` grows.

A node changes its term in three ways: it adopts a higher one from a message, and it
adds one when it stands for election and again when it wins.  The additions are the
only place where a term can fall, and it falls exactly when one of them meets the
largest value (`term_le_of_run`).

In a cluster no term comes from nowhere.  Every term a node has, has voted in or has
sent is at most the number of candidacies and leaderships there have been so far
(`terms_le_elections`), since each of these adds one to one term and everything else
only hands terms around.  A run that is not absurdly long therefore never meets the
largest value.
-/
import Mathlib.Algebra.Order.BigOperators.Group.Finset
import RaftElection.Proofs.Election

namespace Raft.RaftFSM

variable {a : Actor}

/-! ### What a message does to the term -/

/-- The vote that makes this candidate leader. -/
def WinningVote (a : Actor) (s : RaftFSM) : NetEvent → Prop
  | .requestVoteRes id term true =>
      s.role = .candidate ∧ term = s.term ∧ a.majority ≤ (insert id s.votedPeers).card
  | _ => False

instance (a : Actor) (s : RaftFSM) : ∀ e, Decidable (WinningVote a s e)
  | .requestVoteRes _ _ true => inferInstanceAs (Decidable (_ ∧ _ ∧ _))
  | .requestVoteRes _ _ false | .requestVoteReq .. | .appendEntriesReq ..
  | .appendEntriesRes .. => isFalse id

theorem adoptTerm_term (cb : Callbacks) (s : RaftFSM) (t : UInt64) :
    (adoptTerm cb s t).term = if s.term < t then t else s.term := by
  split
  · rename_i hlt
    rw [(adoptTerm_quiet cb hlt).term, leave_term]
  · rename_i hlt
    rw [adoptTerm_of_not_lt cb hlt]

theorem convertToLeader_term {cb : Callbacks} {s : RaftFSM} (hrole : s.role = .candidate) :
    (convertToLeader cb s).term = s.term + 1 := by
  rw [convertToLeader_eq hrole, (callable_aside.becomeLeader cb _).term]
  rfl

theorem handleAppendEntries_term {cb : Callbacks} {s s' : RaftFSM} {serverId term : UInt64}
    (h : handleAppendEntries a cb s serverId term = .ok s') : s'.term = s.term := by
  unfold handleAppendEntries at h
  split at h
  · obtain ⟨-, rfl⟩ := reply_eq_ok h
    rfl
  · split at h
    · obtain ⟨-, rfl⟩ := reply_eq_ok h
      rfl
    · obtain ⟨s₁, hreset, hrest⟩ := bind_eq_ok h
      obtain ⟨timer, -, rfl⟩ := resetElectionTimeout_eq_ok hreset
      obtain ⟨-, rfl⟩ := reply_eq_ok hrest
      rw [emit_term]
      split
      · exact (callable_aside.convertToFollower (callable_aside.signOff cb) _).term
      · rfl

theorem winningVote_iff {s : RaftFSM} {id t : UInt64} {granted : Bool} :
    WinningVote a s (.requestVoteRes id t granted) ↔
      granted = true ∧ s.role = .candidate ∧ t = s.term ∧
        a.majority ≤ (insert id s.votedPeers).card := by
  cases granted <;> simp [WinningVote]

/-- A vote moves the term only where it wins the election. -/
theorem handleRequestVoteResponse_term {cb : Callbacks} {s : RaftFSM} {id t : UInt64}
    {granted : Bool} (hle : t ≤ s.term) :
    (handleRequestVoteResponse a cb s id t granted).term
      = if WinningVote a s (.requestVoteRes id t granted) then s.term + 1 else s.term := by
  simp only [winningVote_iff]
  unfold handleRequestVoteResponse
  by_cases hstale : t < s.term
  · rw [if_pos hstale, if_neg]
    intro hwin
    exact UInt64.ne_of_lt hstale hwin.2.2.1
  · obtain rfl : t = s.term := UInt64.le_antisymm hle (UInt64.not_lt.mp hstale)
    rw [if_neg hstale]
    by_cases hcond : s.role = .candidate ∧ granted = true
    · obtain ⟨hrole, rfl⟩ := hcond
      rw [if_pos ⟨hrole, rfl⟩]
      dsimp only
      by_cases hmaj : a.majority ≤ (insert id s.votedPeers).card
      · rw [if_pos hmaj, if_pos ⟨rfl, hrole, rfl, hmaj⟩]
        exact convertToLeader_term (by exact hrole)
      · rw [if_neg hmaj, if_neg (fun hwin => hmaj hwin.2.2.2)]
    · rw [if_neg hcond, if_neg (fun hwin => hcond ⟨hwin.2.1, hwin.1⟩)]

/-- **The term after a message**: one more where the message wins an election, else the
higher of the two terms. -/
theorem handle_term {cb : Callbacks} {s s' : RaftFSM} {e : NetEvent} (hblocked : s.blocked = false)
    (h : handle a cb s (.net e) = .ok s') :
    s'.term = if WinningVote a s e then s.term + 1
      else if s.term < e.getTerm then e.getTerm else s.term := by
  rw [handle_eq, if_neg (by simp [hblocked])] at h
  have hadopt := adoptTerm_term cb s e.getTerm
  cases e with
  | requestVoteReq serverId term =>
      rw [if_neg (id : ¬ WinningVote a s (.requestVoteReq serverId term)), ← hadopt]
      exact (handleRequestVote_eq_ok h).2.2
  | appendEntriesReq serverId term =>
      rw [if_neg (id : ¬ WinningVote a s (.appendEntriesReq serverId term)), ← hadopt]
      exact handleAppendEntries_term h
  | appendEntriesRes serverId term =>
      rw [if_neg (id : ¬ WinningVote a s (.appendEntriesRes serverId term)), ← hadopt]
      rw [← Except.ok.inj h]
      rfl
  | requestVoteRes id t granted =>
      obtain rfl := Except.ok.inj h
      show (handleRequestVoteResponse a cb (adoptTerm cb s t) id t granted).term = _
      rw [handleRequestVoteResponse_term (le_adoptTerm cb s t)]
      by_cases hlt : s.term < t
      · -- The higher term has made a follower of it, and a follower counts no votes.
        have hrole : (adoptTerm cb s t).role = .follower :=
          (adoptTerm_quiet cb hlt).role.trans (leave_role _)
        have hlost : ¬ WinningVote a (adoptTerm cb s t) (.requestVoteRes id t granted) := by
          intro hwin
          exact absurd (hrole.symm.trans (winningVote_iff.mp hwin).2.1) (by decide)
        have hother : ¬ WinningVote a s (.requestVoteRes id t granted) := by
          intro hwin
          exact UInt64.ne_of_lt hlt (winningVote_iff.mp hwin).2.2.1.symm
        rw [if_neg hlost, if_neg hother]
        exact hadopt
      · have hlt' : ¬ s.term < (NetEvent.requestVoteRes id t granted).getTerm := hlt
        rw [adoptTerm_of_not_lt cb hlt, if_neg hlt']

end Raft.RaftFSM

namespace Raft.Node

open Transition RaftFSM

variable {a : Actor} {n n' : Node} {act : NodeAction}

/-! ### When the term of a node falls -/

/-- The step adds one to a term that has no successor: an election timeout starts a
candidacy, or a vote wins an election, at the largest term. -/
def Wraps (a : Actor) (n : Node) : NodeAction → Prop
  | .timeout _ => n.fsm.blocked = false ∧ n.fsm.role ≠ .leader ∧ n.fsm.term = maxTerm
  | .deliver e _ => n.fsm.blocked = false ∧ WinningVote a n.fsm e ∧ n.fsm.term = maxTerm
  | _ => False

/-- Adding one loses a term exactly where it is the largest. -/
theorem le_add_one_iff {t : UInt64} : t ≤ t + 1 ↔ t ≠ maxTerm := by
  unfold maxTerm
  grind

theorem term_le_deliver_iff {e : NetEvent} {cb : Callbacks}
    (hstep : n.step a (.deliver e cb) = some n') :
    n.fsm.term ≤ n'.fsm.term ↔ ¬ Wraps a n (.deliver e cb) := by
  simp only [step] at hstep
  split at hstep
  · rename_i s' hhandle
    obtain rfl := Option.some.inj hstep
    cases hblocked : n.fsm.blocked with
    | true =>
        rw [handle_eq, if_pos (by simpa using hblocked)] at hhandle
        obtain rfl := Except.ok.inj hhandle
        simp [Wraps, hblocked]
    | false =>
        have hterm := handle_term (by simpa using hblocked) hhandle
        have hsame : WinningVote a (n.fsm.emit (.received e)) e ↔ WinningVote a n.fsm e := Iff.rfl
        show n.fsm.term ≤ s'.term ↔ _
        rw [hterm]
        by_cases hwin : WinningVote a n.fsm e
        · rw [if_pos (hsame.mpr hwin), emit_term, le_add_one_iff]
          simp [Wraps, hblocked, hwin]
        · rw [if_neg (fun h => hwin (hsame.mp h))]
          have hle : n.fsm.term ≤
              if n.fsm.term < e.getTerm then e.getTerm else n.fsm.term := by
            split
            · exact UInt64.le_of_lt (by assumption)
            · exact UInt64.le_refl _
          exact ⟨fun _ hwraps => hwin hwraps.2.1, fun _ => hle⟩
  · cases hstep

/-- **A step lowers the term exactly where it wraps.** -/
theorem term_le_step_iff (hstep : n.step a act = some n') :
    n.fsm.term ≤ n'.fsm.term ↔ ¬ Wraps a n act := by
  have hstays : n'.fsm.term = n.fsm.term → ¬ Wraps a n act →
      (n.fsm.term ≤ n'.fsm.term ↔ ¬ Wraps a n act) := by
    intro hsame hno
    rw [hsame]
    exact ⟨fun _ => hno, fun _ => UInt64.le_refl _⟩
  cases act with
  | deliver e cb => exact term_le_deliver_iff hstep
  | timeout cb =>
      simp only [step, Option.ite_none_right_eq_some] at hstep
      obtain ⟨hpc, hstep⟩ := hstep
      split at hstep
      · rename_i s hs
        obtain rfl := Option.some.inj hstep
        rw [handle_eq] at hs
        cases hblocked : n.fsm.blocked with
        | true =>
            rw [if_pos hblocked] at hs
            obtain rfl := Except.ok.inj hs
            exact hstays rfl (by simp [Wraps, hblocked])
        | false =>
            rw [if_neg (by simp [hblocked]), handleLocked_timeout] at hs
            obtain rfl := Except.ok.inj hs
            by_cases hrole : n.fsm.role = .leader
            · refine hstays ?_ (by simp [Wraps, hrole])
              rw [if_pos hrole]
            · show n.fsm.term ≤ (if n.fsm.role = .leader then n.fsm else candidacy a n.fsm).term ↔ _
              rw [if_neg hrole, candidacy_term, le_add_one_iff]
              simp [Wraps, hblocked, hrole]
      · cases hstep
  | expire | beat =>
      simp only [step, Option.ite_none_right_eq_some, Option.some.injEq] at hstep
      obtain ⟨-, rfl⟩ := hstep
      exact hstays rfl id
  | sendHeartbeat =>
      cases step_change_any hstep with
      | sent => exact hstays rfl id
  | api c cb =>
      simp only [step, Option.some.injEq] at hstep
      subst hstep
      exact hstays (callable_aside.call cb n.fsm c).term id

/-- **Terms do not fall**, in any run in which no election is started or won at the
largest term; and in a step that starts or wins one there, the term does fall. -/
theorem term_le_of_run (a : Actor) (n : Node) :
    (∀ n', ((nodeSystem a).restrict fun n act _ => ¬ Wraps a n act).Run n n' →
      n.fsm.term ≤ n'.fsm.term) ∧
    ∀ act n', n.step a act = some n' → (n.fsm.term ≤ n'.fsm.term ↔ ¬ Wraps a n act) := by
  refine ⟨?_, fun act n' hstep => term_le_step_iff hstep⟩
  intro n' hrun
  refine hrun.invariant (I := fun n' => n.fsm.term ≤ n'.fsm.term) ?_ (UInt64.le_refl _)
  intro n₁ act n₂ hle hmove
  obtain ⟨hstep, hno⟩ := hmove
  exact UInt64.le_trans hle ((term_le_step_iff hstep).mpr hno)

/-- A heartbeat of the largest term is adopted, and the next timeout starts an election in
term 0. -/
theorem term_falls_to_zero : ∃ n n' act, (nodeSystem firstOfThree).Reachable n ∧
    n.step firstOfThree act = some n' ∧ ¬ n.fsm.term ≤ n'.fsm.term := by
  obtain ⟨n, hn, hpc, hblocked, hrole, hterm⟩ :=
    System.Reachable.of_execute {} (Node.step firstOfThree) (fun _ _ _ => True)
      [.deliver (.appendEntriesReq 2 18446744073709551615) {}, .expire]
      (fun n => n.pc = .timingOut ∧ n.fsm.blocked = false ∧ n.fsm.role = .follower ∧
        n.fsm.term = 18446744073709551615) (by decide +kernel)
  have hhandle : RaftFSM.handle firstOfThree {} n.fsm .electionTimeout
      = .ok (candidacy firstOfThree n.fsm) := by
    rw [handle_eq, if_neg (by simp [hblocked]), handleLocked_timeout, if_neg (by simp [hrole])]
  refine ⟨n, { fsm := candidacy firstOfThree n.fsm, pc := .idle }, .timeout {}, hn.unrestrict,
    ?_, ?_⟩
  · simp only [step, hpc, hhandle, if_true]
  · show ¬ n.fsm.term ≤ (candidacy firstOfThree n.fsm).term
    rw [candidacy_term, hterm]
    decide

end Raft.Node

namespace Raft

/-- The entries that stand for an addition to `term_`. -/
def Entry.raisesTerm : Entry → Bool
  | .stood _ | .becameLeader _ => true
  | _ => false

namespace RaftFSM

variable {a : Actor}

/-! ### Terms are counted

`raises` counts the candidacies and leaderships of one node.  `Within B` bounds every
term the node has anything to do with; the bound of interest is `K + raises`, where `K`
is what the rest of the cluster has counted, and it holds after every step because a
step that adds to the term adds an entry.
-/

def raises (trace : List Entry) : Nat := trace.countP Entry.raisesTerm

theorem raises_append (new trace : List Entry) :
    raises (new ++ trace) = raises new + raises trace :=
  List.countP_append

theorem raises_mono {trace trace' : List Entry} (h : trace <:+ trace') :
    raises trace ≤ raises trace' :=
  h.sublist.countP_le

/-- No term of the node, of its votes or of its messages is above `B`. -/
structure Within (B : Nat) (s : RaftFSM) : Prop where
  term : s.term.toNat ≤ B
  voter : s.voter.lastVotedTerm.toNat ≤ B
  sent : ∀ peer e, .sent peer e ∈ s.trace → e.getTerm.toNat ≤ B

theorem Within.started : Within 0 started :=
  ⟨Nat.le_refl 0, Nat.le_refl 0, fun _ _ h => absurd h List.not_mem_nil⟩

/-- The next state, with a bound that may have grown. -/
theorem Within.next {B B' : Nat} {s s' : RaftFSM} (h : Within B s) (hB : B ≤ B')
    (hterm : s'.term.toNat ≤ B') (hvoter : s'.voter.lastVotedTerm.toNat ≤ B')
    (hsent : ∀ peer e, .sent peer e ∈ s'.trace →
      .sent peer e ∈ s.trace ∨ e.getTerm.toNat ≤ B') : Within B' s' := by
  refine ⟨hterm, hvoter, ?_⟩
  intro peer e hmem
  rcases hsent peer e hmem with hold | hnew
  · exact (h.sent peer e hold).trans hB
  · exact hnew

theorem Within.mono {B B' : Nat} {s : RaftFSM} (h : Within B s) (hB : B ≤ B') : Within B' s :=
  h.next hB (h.term.trans hB) (h.voter.trans hB) fun _ _ hmem => Or.inl hmem

/-- The state is within `K` and what it has counted itself. -/
def Counted (K : Nat) (s : RaftFSM) : Prop := Within (K + raises s.trace) s

theorem Counted.aside {K : Nat} {s s' : RaftFSM} (h : Counted K s) (haside : Aside s s') :
    Counted K s' := by
  obtain ⟨new, htrace, hnew⟩ := haside.trace
  have hle : K + raises s.trace ≤ K + raises s'.trace := by
    rw [htrace, raises_append]
    omega
  refine Within.next h hle ?_ ?_ ?_
  · rw [haside.term]
    exact h.term.trans hle
  · rw [haside.voter]
    exact h.voter.trans hle
  · intro peer e hmem
    rw [htrace] at hmem
    rcases List.mem_append.mp hmem with hnew' | hold
    · rcases hnew _ hnew' with heq | heq
      · cases heq
      · cases heq
    · exact Or.inl hold

/-- An entry that is no message of a foreign term. -/
theorem Counted.emit {K : Nat} {s : RaftFSM} {o : Entry} (h : Counted K s)
    (ho : ∀ peer e, o = .sent peer e → e.getTerm = s.term) : Counted K (s.emit o) := by
  have hle : K + raises s.trace ≤ K + raises (s.emit o).trace :=
    Nat.add_le_add_left (raises_mono (List.suffix_cons o s.trace)) K
  refine Within.next h hle (h.term.trans hle) (h.voter.trans hle) ?_
  intro peer e hmem
  rcases List.mem_cons.mp hmem with heq | hold
  · refine Or.inr ?_
    rw [ho peer e heq.symm]
    exact h.term.trans hle
  · exact Or.inl hold

theorem voteForLeader_le {B : Nat} {v : Voter} {id t : UInt64}
    (hv : v.lastVotedTerm.toNat ≤ B) (ht : t.toNat ≤ B) :
    (v.voteForLeader id t).2.lastVotedTerm.toNat ≤ B := by
  rcases v.voteForLeader_cases id t with ⟨heq, -⟩ | ⟨heq, -⟩
  · rw [heq]
    exact ht
  · rw [heq]
    exact hv

theorem toNat_add_one_le (t : UInt64) : (t + 1).toNat ≤ t.toNat + 1 := by
  rw [UInt64.toNat_add]
  exact Nat.mod_le _ _

theorem Counted.turn {K : Nat} {cb : Callbacks} {e : NetEvent} {s s' : RaftFSM}
    (hturn : Turn a cb e s s') (he : e.getTerm.toNat ≤ K + raises s.trace) (h : Counted K s) :
    Counted K s' := by
  cases hturn with
  | adopt hlt =>
      have hadopted : Counted K { s with term := e.getTerm } :=
        ⟨he, h.voter, h.sent⟩
      exact hadopted.aside (callable_aside.convertToFollower (callable_aside.signOff cb) _)
  | reset | count => exact ⟨h.term, h.voter, h.sent⟩
  | refuse | acknowledge =>
      refine h.emit ?_
      intro peer' e' heq
      obtain ⟨-, rfl⟩ := Entry.sent.inj heq
      rfl
  | vote peer =>
      have hvoted : Counted K { s with voter := (s.voter.voteForLeader peer s.term).2 } :=
        ⟨h.term, voteForLeader_le h.voter h.term, h.sent⟩
      refine hvoted.emit ?_
      intro peer' e' heq
      obtain ⟨-, rfl⟩ := Entry.sent.inj heq
      rfl
  | stepDown => exact h.aside (callable_aside.leave s)
  | lead hrole hmaj =>
      have hentered : Counted K (enterLeader s) := by
        have hcount : raises (enterLeader s).trace = raises s.trace + 1 :=
          List.countP_cons_of_pos rfl
        have hle : K + raises s.trace ≤ K + raises (enterLeader s).trace := by omega
        refine Within.next h hle ?_ (h.voter.trans hle) ?_
        · have hterm := h.term
          have hadd := toNat_add_one_le s.term
          show (s.term + 1).toNat ≤ _
          omega
        · intro peer e' hmem
          rcases List.mem_cons.mp hmem with heq | hold
          · cases heq
          · exact Or.inl hold
      exact hentered.aside (callable_aside.becomeLeader cb _)

theorem Counted.candidacy {K : Nat} {s : RaftFSM} (h : Counted K s) :
    Counted K (candidacy a s) := by
  have hone : 1 ≤ raises (candidacyEntries a s) := by
    refine List.countP_pos_iff.mpr ⟨.stood (s.term + 1), ?_, rfl⟩
    exact (mem_candidacyEntries a s).mpr (Or.inr (Or.inr rfl))
  have hcount : K + raises s.trace + 1 ≤ K + raises (RaftFSM.candidacy a s).trace := by
    rw [candidacy_trace, raises_append]
    omega
  have hterm : (s.term + 1).toNat ≤ K + raises (RaftFSM.candidacy a s).trace := by
    have hadd := toNat_add_one_le s.term
    have hold := h.term
    omega
  refine Within.next h (by omega) ?_ ?_ ?_
  · rw [candidacy_term]
    exact hterm
  · rw [candidacy_voter]
    exact voteForLeader_le (h.voter.trans (by omega)) hterm
  · intro peer e hmem
    rw [candidacy_trace] at hmem
    rcases List.mem_append.mp hmem with hnew | hold
    · rcases (mem_candidacyEntries a s).mp hnew with ⟨p, -, heq⟩ | ⟨-, heq⟩ | heq
      · obtain ⟨-, rfl⟩ := Entry.sent.inj heq
        exact Or.inr hterm
      · cases heq
      · cases heq
    · exact Or.inl hold

/-- **A step of the node keeps the count**, where the message it takes is within it. -/
theorem Counted.step {K : Nat} {n n' : Node} {act : NodeAction} (hstep : n.step a act = some n')
    (hin : ∀ e cb, act = .deliver e cb → e.getTerm.toNat ≤ K + raises n.fsm.trace)
    (h : Counted K n.fsm) : Counted K n'.fsm := by
  cases Node.step_change_any hstep with
  | delivered e cb s' hhandle hmoves =>
      have hreceived : Counted K (n.fsm.emit (.received e)) := h.emit (by simp)
      have hboth : Counted K s' ∧ (n.fsm.emit (.received e)).trace <:+ s'.trace := by
        refine (handle_turns hhandle).invariant
          (I := fun s' => Counted K s' ∧ (n.fsm.emit (.received e)).trace <:+ s'.trace) ?_
          ⟨hreceived, List.suffix_refl _⟩
        intro s₁ s₂ hturn hs₁
        obtain ⟨hcounted, hgrown⟩ := hs₁
        have hrec : Entry.received e ∈ s₁.trace := hgrown.subset List.mem_cons_self
        have hle : raises n.fsm.trace ≤ raises s₁.trace :=
          raises_mono ((List.suffix_cons (.received e) n.fsm.trace).trans (by exact hgrown))
        refine ⟨hcounted.turn hturn ((hin e cb rfl).trans (by omega)), ?_⟩
        exact hgrown.trans (hturn.moves (P := fun _ _ => True) hrec fun _ _ _ => trivial).trace
      exact hboth.1
  | expired | ignored | began => exact h
  | stood => exact h.candidacy
  | sent peer rest hpc =>
      refine h.emit ?_
      intro peer' e' heq
      obtain ⟨-, rfl⟩ := Entry.sent.inj heq
      rfl
  | called c cb => exact h.aside (callable_aside.call cb n.fsm c)

end RaftFSM

namespace Cluster

open Transition RaftFSM

variable {peers : PeerMap} {c c' : Cluster peers}

/-- The candidacies and the leaderships there have been in the whole cluster. -/
def elections (c : Cluster peers) : Nat := ∑ i, raises (c i).fsm.trace

/-- A step changes the count of the node that takes it. -/
theorem elections_step {x : Member peers × NodeAction} (hstep : c.step x = some c') :
    ∃ K, elections c = K + raises (c x.1).fsm.trace ∧
      elections c' = K + raises (c' x.1).fsm.trace := by
  obtain ⟨-, n', -, rfl⟩ := step_eq_some hstep
  refine ⟨∑ i ∈ Finset.univ.erase x.1, raises (c i).fsm.trace, ?_, ?_⟩
  · exact (Finset.sum_erase_add _ _ (Finset.mem_univ x.1)).symm
  · unfold elections
    rw [← Finset.sum_erase_add _ _ (Finset.mem_univ x.1)]
    congr 1
    refine Finset.sum_congr rfl ?_
    intro i hi
    rw [Function.update_of_ne (Finset.ne_of_mem_erase hi)]

theorem elections_mono_step {x : Member peers × NodeAction} (hstep : c.step x = some c') :
    elections c ≤ elections c' :=
  Finset.sum_le_sum fun i _ => raises_mono (trace_suffix hstep i)

theorem elections_mono (hrun : (clusterSystem peers).Run c c') : elections c ≤ elections c' :=
  hrun.invariant (I := fun c' => elections c ≤ elections c')
    (fun _ _ _ hle hstep => hle.trans (elections_mono_step hstep)) (Nat.le_refl _)

theorem within_step {x : Member peers × NodeAction} (hstep : c.step x = some c')
    (h : ∀ i, Within (elections c) (c i).fsm) : ∀ i, Within (elections c') (c' i).fsm := by
  refine forall_step (p := fun _ n => Within (elections c') n.fsm) hstep
    (fun i => (h i).mono (elections_mono_step hstep)) ?_
  intro n' hadm hn'
  obtain ⟨K, hK, hK'⟩ := elections_step hstep
  have hmoved : c' x.1 = n' := by
    obtain ⟨-, n'', hn'', rfl⟩ := step_eq_some hstep
    rw [Function.update_self]
    exact Option.some.inj (hn''.symm.trans hn')
  rw [hmoved] at hK'
  rw [hK']
  refine Counted.step hn' ?_ ?_
  · intro e cb hact
    rw [hact] at hadm
    obtain ⟨j, hsent⟩ := hadm
    rw [← hK]
    exact (h j).sent _ _ hsent
  · have hmover := h x.1
    rw [hK] at hmover
    exact hmover

theorem within_of_reachable (h : (clusterSystem peers).Reachable c) :
    ∀ i, Within (elections c) (c i).fsm := by
  refine h.invariant (I := fun c => ∀ i, Within (elections c) (c i).fsm) ?_
    fun _ _ _ _ hc hstep => within_step hstep hc
  intro c₀ hinit i
  subst hinit
  exact Within.started.mono (Nat.zero_le _)

/-- Below the largest term, no step of a reachable cluster lowers a term. -/
theorem term_le_of_elections {x : Member peers × NodeAction}
    (h : (clusterSystem peers).Reachable c) (hstep : c.step x = some c')
    (hfew : elections c < 2 ^ 64 - 1) (i : Member peers) :
    (c i).fsm.term ≤ (c' i).fsm.term := by
  refine forall_step (p := fun i n => (c i).fsm.term ≤ n.fsm.term) hstep
    (fun _ => UInt64.le_refl _) ?_ i
  intro n' _ hn'
  refine (Node.term_le_step_iff hn').mpr ?_
  have hbound := (within_of_reachable h x.1).term
  have hne : (c x.1).fsm.term ≠ maxTerm := by
    intro hmax
    rw [hmax] at hbound
    have hlarge : maxTerm.toNat = 2 ^ 64 - 1 := rfl
    omega
  intro hwraps
  cases hact : x.2 with
  | timeout cb =>
      rw [hact] at hwraps
      exact hne hwraps.2.2
  | deliver e cb =>
      rw [hact] at hwraps
      exact hne hwraps.2.2
  | expire | beat | sendHeartbeat | api =>
      rw [hact] at hwraps
      exact hwraps

/-- **Terms grow only through elections.**  Every term a node has, every term it has voted
in and the term of every message ever sent is at most the number of candidacies and
leaderships so far; and where that number stays below the largest term, no step of the
run lowers a term. -/
theorem terms_le_elections (h : (clusterSystem peers).Reachable c) :
    (∀ i, (c i).fsm.term.toNat ≤ elections c ∧
      (c i).fsm.voter.lastVotedTerm.toNat ≤ elections c ∧
      ∀ peer e, .sent peer e ∈ (c i).fsm.trace → e.getTerm.toNat ≤ elections c) ∧
    ∀ c₁ x c₂, (clusterSystem peers).Reachable c₁ → c₁.step x = some c₂ →
      (clusterSystem peers).Run c₂ c → elections c < 2 ^ 64 - 1 →
        ∀ i, (c₁ i).fsm.term ≤ (c₂ i).fsm.term := by
  refine ⟨?_, ?_⟩
  · intro i
    have hi := within_of_reachable h i
    exact ⟨hi.term, hi.voter, hi.sent⟩
  · intro c₁ x c₂ hreach hstep hrun hfew i
    have hle := (elections_mono_step hstep).trans (elections_mono hrun)
    exact term_le_of_elections hreach hstep (by omega) i

/-- Server 1 of three has stood once and been elected once, and is in term 2. -/
theorem terms_le_elections_of_three : ∃ c : Cluster threeServers,
    (c ThreeServers.one).fsm.term = 2 ∧ elections c = 2 ∧
      ∀ i, (c i).fsm.term.toNat ≤ elections c := by
  obtain ⟨c, hc, hterm, hcount⟩ := System.Reachable.of_execute (fun _ => {}) Cluster.step
    (fun _ _ _ => True)
    (timesOut ThreeServers.one ++ canvasses ThreeServers.one 1 [ThreeServers.two])
    (fun c => (c ThreeServers.one).fsm.term = 2 ∧ elections c = 2) (by decide +kernel)
  exact ⟨c, hterm, hcount, fun i => ((terms_le_elections hc.unrestrict).1 i).1⟩

end Cluster

end Raft
