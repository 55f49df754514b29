/-
Election safety of a whole cluster.

The votes the nodes have cast, read off their traces, are one ballot for each term:
no node supports two servers in a term, replies and own votes together.  A node
that leads in term `L` was backed by a majority in term `L - 1`, and each vote it
counted was sent to it by the member whose id it carries, because a server signs
what it sends and the network does not forge.  So it won the ballot of that term,
and a ballot has one winner.

Nothing here asks that the older leader be gone.  How many leaders there can be at
once, in different terms, is the second result.
-/
import Mathlib.Data.Finset.Max
import RaftElection.Library.Quorum
import RaftElection.Cluster
import RaftElection.Proofs.Leadership

namespace Raft.Cluster

open Transition Quorum RaftFSM

variable {peers : PeerMap} {c c' : Cluster peers}

/-! ### The invariant

What is proved of each server alone assumes that the votes it counts are known of.  In a cluster
they are: a granted vote that is delivered was sent, and its sender's trace has it.
-/

theorem step_eq_some {x : Member peers × NodeAction} (h : c.step x = some c') :
    Admissible c x.1 x.2 ∧
      ∃ n', (c x.1).step x.1.actor x.2 = some n' ∧ c' = Function.update c x.1 n' := by
  unfold step at h
  split at h
  · rename_i hadm
    obtain ⟨n', hn', rfl⟩ := Option.map_eq_some_iff.mp h
    exact ⟨hadm, n', hn', rfl⟩
  · simp at h

/-- What holds of every node, and of the node that moves after its step, holds of every
node after the step. -/
theorem forall_step {p : Member peers → Node → Prop} {x : Member peers × NodeAction}
    (hstep : c.step x = some c') (hstay : ∀ i, p i (c i))
    (hmove : ∀ n', Admissible c x.1 x.2 → (c x.1).step x.1.actor x.2 = some n' → p x.1 n') :
    ∀ i, p i (c' i) := by
  obtain ⟨hadm, n', hn', rfl⟩ := step_eq_some hstep
  intro i
  by_cases hi : i = x.1
  · subst hi
    rw [Function.update_self]
    exact hmove n' hadm hn'
  · rw [Function.update_of_ne hi]
    exact hstay i

theorem trace_suffix {x : Member peers × NodeAction} (h : c.step x = some c') :
    ∀ j, (c j).fsm.trace <:+ (c' j).fsm.trace :=
  forall_step (p := fun j n => (c j).fsm.trace <:+ n.fsm.trace) h
    (fun _ => List.suffix_refl _) fun _ _ hn' => trace_step hn'

/-- The member `q` has sent `i` its vote of term `t`. -/
def Granted (c : Cluster peers) (i : Member peers) (q t : UInt64) : Prop :=
  ∃ j : Member peers, j.1 = q ∧ .sent i.1 (.requestVoteRes q t true) ∈ (c j).fsm.trace

theorem Granted.mono (htrace : ∀ j, (c j).fsm.trace <:+ (c' j).fsm.trace) {i : Member peers}
    {q t : UInt64} (h : Granted c i q t) : Granted c' i q t := by
  obtain ⟨j, hj, hmem⟩ := h
  exact ⟨j, hj, (htrace j).subset hmem⟩

/-- What is known of every node of a reachable cluster. -/
structure Sound (c : Cluster peers) : Prop where
  once : ∀ i : Member peers, VotesOnce i.actor (c i).fsm
  signed : ∀ i : Member peers, Signed i.actor (c i).fsm
  backed : ∀ i : Member peers, Backed i.actor (Granted c i) (c i).fsm

/-- A vote that is delivered was sent by the member whose id it carries. -/
theorem Sound.countsOnly (h : Sound c) {i : Member peers} {act : NodeAction}
    (hadm : Admissible c i act) : Node.CountsOnly (Granted c i) (c i) act := by
  intro id cb hact _ _
  subst hact
  obtain ⟨j, hsent⟩ := hadm
  have hid : id = j.1 := h.signed j _ _ hsent
  exact ⟨j, hid.symm, hsent⟩

theorem Sound.step {x : Member peers × NodeAction} (h : Sound c) (hstep : c.step x = some c') :
    Sound c' := by
  have hgranted : ∀ i q t, Granted c i q t → Granted c' i q t :=
    fun i q t hg => hg.mono (trace_suffix hstep)
  refine ⟨?_, ?_, ?_⟩
  · exact forall_step (p := fun i n => VotesOnce i.actor n.fsm) hstep h.once
      fun _ _ hn' => (h.once x.1).step hn'
  · exact forall_step (p := fun i n => Signed i.actor n.fsm) hstep h.signed
      fun _ _ hn' => (h.signed x.1).step hn'
  · refine forall_step (p := fun i n => Backed i.actor (Granted c' i) n.fsm) hstep
      (fun i => (h.backed i).mono (hgranted i)) ?_
    intro n' hadm hn'
    exact ((h.backed x.1).step (h.countsOnly hadm) hn').mono (hgranted x.1)

theorem sound_of_reachable (h : (clusterSystem peers).Reachable c) : Sound c := by
  refine h.invariant ?_ fun c x c' _ hc hstep => hc.step hstep
  intro c₀ hinit
  subst hinit
  exact ⟨fun _ => VotesOnce.started, fun _ => Signed.started, fun _ => Backed.started⟩

/-! ### The ballot of a term -/

/-- The votes cast in term `t`, by id of the voter. -/
def ballot (h : Sound c) (t : UInt64) : Ballot UInt64 UInt64 where
  votes v w := ∃ j : Member peers, j.1 = v ∧ Supports j.actor (c j).fsm.trace t w
  once := by
    intro v w w' hv hv'
    obtain ⟨j, rfl, hw⟩ := hv
    obtain ⟨j', hj', hw'⟩ := hv'
    obtain rfl : j' = j := Subtype.ext hj'
    exact (h.once j').once t w w' hw hw'

/-- The node has been leader in term `L`, or is now. -/
def HasLed (c : Cluster peers) (i : Member peers) (L : UInt64) : Prop :=
  (c i).fsm.role = .leader ∧ (c i).fsm.term = L ∨ .becameLeader L ∈ (c i).fsm.trace

theorem HasLed.becameLeader (h : Sound c) {i : Member peers} {L : UInt64} (hled : HasLed c i L) :
    .becameLeader L ∈ (c i).fsm.trace := by
  rcases hled with ⟨hrole, rfl⟩ | hmem
  · exact (h.backed i).leading hrole
  · exact hmem

/-- Being leader stays on record. -/
theorem HasLed.run {c₁ c₂ : Cluster peers} (h : Sound c₁) (hrun : (clusterSystem peers).Run c₁ c₂)
    {i : Member peers} {L : UInt64} (hled : HasLed c₁ i L) : HasLed c₂ i L := by
  refine Or.inr (hrun.invariant (I := fun c => .becameLeader L ∈ (c i).fsm.trace) ?_
    (hled.becameLeader h))
  intro c x c' hmem hstep
  exact (trace_suffix hstep i).subset hmem

/-- **A leader has won the ballot of the term before.** -/
theorem HasLed.wins (h : Sound c) {i : Member peers} {L : UInt64} (hled : HasLed c i L) :
    (ballot h (L - 1)).Wins peers.members i.1 := by
  obtain ⟨newer, older, htrace⟩ := List.append_of_mem (hled.becameLeader h)
  have hsuffix : (.becameLeader L :: older) <:+ (c i).fsm.trace := ⟨newer, htrace.symm⟩
  obtain ⟨Q, hcard, hQ⟩ := (h.backed i).elected L older hsuffix
  have hold : ∀ o ∈ older, o ∈ (c i).fsm.trace :=
    fun o ho => hsuffix.subset (List.mem_cons_of_mem _ ho)
  refine ⟨Q, ⟨?_, hcard⟩, ?_⟩
  · intro q hq
    rcases hQ q hq with ⟨rfl, -⟩ | ⟨-, j, rfl, -⟩
    · exact i.2
    · exact j.2
  · intro q hq
    rcases hQ q hq with ⟨rfl, hvoted⟩ | ⟨-, j, rfl, hsent⟩
    · exact ⟨i, rfl, Or.inr ⟨rfl, hold _ hvoted⟩⟩
    · exact ⟨j, rfl, Or.inl hsent⟩

/-- **Election safety.**  Over a whole run, at most one server is ever leader in a
given term. -/
theorem election_safety {c₁ c₂ : Cluster peers} (h : (clusterSystem peers).Reachable c₁)
    (hrun : (clusterSystem peers).Run c₁ c₂) {i j : Member peers} {L : UInt64}
    (hi : HasLed c₁ i L) (hj : HasLed c₂ j L) : i = j := by
  have h₂ : Sound c₂ := sound_of_reachable (h.run hrun)
  have hi₂ : HasLed c₂ i L := hi.run (sound_of_reachable h) hrun
  exact Subtype.ext ((hi₂.wins h₂).unique (hj.wins h₂))

/-- The election timer of `i` fires. -/
def timesOut (i : Member peers) : List (Member peers × NodeAction) :=
  [(i, .expire), (i, .timeout {})]

/-- Each of `voters` receives the request of `i` in term `t`, and `i` its granted vote. -/
def canvasses (i : Member peers) (t : UInt64) (voters : List (Member peers)) :
    List (Member peers × NodeAction) :=
  voters.flatMap fun v =>
    [(v, .deliver (.requestVoteReq i.1 t) {}), (i, .deliver (.requestVoteRes v.1 t true) {})]

/-- Server 1 of three leads in term 2; nobody else ever does. -/
theorem election_safety_of_three :
    ∃ c₁ : Cluster threeServers,
      (c₁ ThreeServers.one).fsm.role = .leader ∧ (c₁ ThreeServers.one).fsm.term = 2 ∧
        ∀ c₂, (clusterSystem threeServers).Run c₁ c₂ → ∀ j, HasLed c₂ j 2 →
          ThreeServers.one = j := by
  obtain ⟨c₁, hc₁, hled⟩ := System.Reachable.of_execute (fun _ => {}) Cluster.step
    (fun _ _ _ => True)
    (timesOut ThreeServers.one ++ canvasses ThreeServers.one 1 [ThreeServers.two])
    (fun c => (c ThreeServers.one).fsm.role = .leader ∧ (c ThreeServers.one).fsm.term = 2)
    (by decide +kernel)
  exact ⟨c₁, hled.1, hled.2, fun c₂ hrun j hj =>
    election_safety hc₁.unrestrict hrun (Or.inl hled) hj⟩

/-! ### The vote of a leader's own term

`convert_to_leader` raises the term without spending its vote.  A leader that keeps it has
voted in no term as new as its own.
-/

/-- A leader has not voted in its term. -/
def Unspent (s : RaftFSM) : Prop := s.role = .leader → s.voter.lastVotedTerm < s.term

theorem Unspent.of_role {s : RaftFSM} (h : s.role ≠ .leader) : Unspent s :=
  fun hleader => absurd hleader h

theorem callable_unspent : Callable fun s s' => Unspent s → Unspent s' where
  refl _ h := h
  trans h h' hs := h' (h hs)
  callback _ _ _ h := h
  setBlocked _ _ h := h
  pause _ h := h
  leave s _ := Unspent.of_role (by rw [leave_role]; decide)

section Unspent

variable {a : Actor} {s s' : RaftFSM} {cb : Callbacks}

theorem Unspent.adoptTerm (h : Unspent s) (cb : Callbacks) (t : UInt64) :
    Unspent (adoptTerm cb s t) := by
  by_cases hlt : s.term < t
  · exact Unspent.of_role (adoptTerm_role_ne_leader cb (Or.inr hlt))
  · rw [adoptTerm_of_not_lt cb hlt]
    exact h

/-- Whoever wins an election has voted in no term newer than the one of that election. -/
theorem Unspent.enterLeader (hcurrent : VotesCurrent s) (hrole : s.role = .candidate) :
    Unspent (enterLeader s) := by
  intro _
  show s.voter.lastVotedTerm < s.term + 1
  have hle := hcurrent.record_le
  have hne := hcurrent.electable hrole
  unfold maxTerm at hne
  grind

theorem Unspent.response (h : Unspent s) (hcurrent : VotesCurrent s) (id t : UInt64)
    (granted : Bool) :
    Unspent (handleRequestVoteResponse a cb (RaftFSM.adoptTerm cb s t) id t granted) := by
  unfold handleRequestVoteResponse
  split
  · exact h.adoptTerm cb t
  · split
    · rename_i hcond
      obtain ⟨hrole, -⟩ := hcond
      -- A candidate that goes on counting has adopted nothing.
      have hkept : ¬ s.term < t := by
        intro hlt
        rw [(adoptTerm_quiet cb hlt).role, leave_role] at hrole
        cases hrole
      rw [adoptTerm_of_not_lt cb hkept] at hrole ⊢
      have hcounted : VotesCurrent { s with votedPeers := insert id s.votedPeers } :=
        ⟨hcurrent.record_le, hcurrent.electable⟩
      dsimp only
      split
      · rw [convertToLeader_eq (by exact hrole)]
        exact callable_unspent.becomeLeader cb _ (Unspent.enterLeader hcounted hrole)
      · exact h
    · exact h.adoptTerm cb t

theorem Unspent.appendEntries {id t : UInt64} (h : Unspent s)
    (hhandle : handleAppendEntries a cb s id t = .ok s') : Unspent s' := by
  unfold handleAppendEntries at hhandle
  split at hhandle
  · obtain ⟨-, rfl⟩ := reply_eq_ok hhandle
    exact h
  · split at hhandle
    · obtain ⟨-, rfl⟩ := reply_eq_ok hhandle
      exact h
    · obtain ⟨s₁, hreset, hrest⟩ := bind_eq_ok hhandle
      obtain ⟨timer, -, rfl⟩ := resetElectionTimeout_eq_ok hreset
      obtain ⟨-, rfl⟩ := reply_eq_ok hrest
      show Unspent (if _ then _ else _)
      split
      · exact callable_unspent.convertToFollower (callable_unspent.signOff cb) _ h
      · exact h

/-- **A leader that keeps its vote when it is asked for it, keeps it.** -/
theorem Unspent.request {c t : UInt64} (h : Unspent s) (hkeeps : KeepsVote a s c t)
    (hblocked : s.blocked = false)
    (hhandle : handle a cb s (.net (.requestVoteReq c t)) = .ok s') : Unspent s' := by
  intro hleader
  obtain ⟨hc, hrole, hle, hreq⟩ := handle_request_of_leader hblocked hhandle hleader
  by_cases hlt : t < s.term
  · rw [handleRequestVote_stale hlt hreq]
    exact h hrole
  · obtain rfl : t = s.term := UInt64.le_antisymm hle (UInt64.not_lt.mp hlt)
    rcases hkeeps with hk | hk | hk | hk | ⟨hk, -⟩
    · exact absurd (hblocked.symm.trans hk) (by decide)
    · exact absurd hrole hk
    · exact absurd rfl hk
    · exact absurd hc hk
    · exact absurd hk (UInt64.ne_of_lt (h hrole))

theorem Unspent.handle {e : NetEvent} (h : Unspent s) (hcurrent : VotesCurrent s)
    (hkeeps : ∀ c t, e = .requestVoteReq c t → KeepsVote a s c t)
    (hhandle : handle a cb s (.net e) = .ok s') : Unspent s' := by
  cases hblocked : s.blocked with
  | true =>
      rw [handle_eq, if_pos hblocked] at hhandle
      obtain rfl := Except.ok.inj hhandle
      exact h
  | false =>
      cases e with
      | requestVoteReq c t => exact h.request (hkeeps c t rfl) hblocked hhandle
      | requestVoteRes id t granted =>
          rw [handle_eq, if_neg (by simp [hblocked])] at hhandle
          obtain rfl := Except.ok.inj hhandle
          exact h.response hcurrent id t granted
      | appendEntriesReq id t =>
          rw [handle_eq, if_neg (by simp [hblocked])] at hhandle
          exact (h.adoptTerm cb t).appendEntries hhandle
      | appendEntriesRes id t =>
          rw [handle_eq, if_neg (by simp [hblocked])] at hhandle
          obtain rfl := Except.ok.inj hhandle
          exact h.adoptTerm cb t

/-- No leader grants the vote of its own term. -/
def KeepsOwnVote (a : Actor) (n : Node) : NodeAction → Prop
  | .deliver (.requestVoteReq c t) _ => KeepsVote a n.fsm c t
  | _ => True

instance (a : Actor) (n : Node) (act : NodeAction) : Decidable (KeepsOwnVote a n act) := by
  unfold KeepsOwnVote KeepsVote
  split <;> infer_instance

theorem Unspent.step {n n' : Node} {act : NodeAction} (h : Unspent n.fsm)
    (hcurrent : VotesCurrent n.fsm) (hkeeps : KeepsOwnVote a n act)
    (hstep : n.step a act = some n') : Unspent n'.fsm := by
  cases Node.step_change_any hstep with
  | delivered e cb s' hhandle hmoves =>
      have hreceived : Unspent (n.fsm.emit (.received e)) := h
      have hcurrent' : VotesCurrent (n.fsm.emit (.received e)) :=
        ⟨hcurrent.record_le, hcurrent.electable⟩
      refine hreceived.handle hcurrent' ?_ hhandle
      rintro c t rfl
      exact hkeeps
  | expired | ignored | began | sent => exact h
  | stood cb hpc hblocked hrole => exact Unspent.of_role (by simp)
  | called c cb => exact callable_unspent.call cb _ c h

end Unspent

/-! ### How many leaders at once

A leader that hears nothing stays leader, so leaders of old terms pile up.  The
newest of them was elected by a majority, in the term `e` before its own.  Any other
leader in that majority has voted in term `e`, and having kept the vote of its own term
it is in a later one, where the newest is the only leader.  So every other leader is
outside that majority.
-/

def leaders (c : Cluster peers) : Finset (Member peers) :=
  Finset.univ.filter fun i => (c i).fsm.role = .leader

theorem mem_leaders {i : Member peers} : i ∈ leaders c ↔ (c i).fsm.role = .leader := by
  simp [leaders]

/-- As long as no node's `term_` reaches its largest value. -/
def TermsBelowMax (_ : Cluster peers) (_ : Member peers × NodeAction) (c' : Cluster peers) : Prop :=
  ∀ i, (c' i).fsm.term ≠ maxTerm

instance (c : Cluster peers) (x : Member peers × NodeAction) (c' : Cluster peers) :
    Decidable (TermsBelowMax c x c') :=
  inferInstanceAs (Decidable (∀ i, (c' i).fsm.term ≠ maxTerm))

theorem votesCurrent_of_reachable (h : ((clusterSystem peers).restrict TermsBelowMax).Reachable c)
    (i : Member peers) : VotesCurrent (c i).fsm := by
  have hboth : ∀ i, VotesCurrent (c i).fsm ∧ (c i).fsm.term ≠ maxTerm := by
    refine h.invariant (I := fun c => ∀ i, VotesCurrent (c i).fsm ∧ (c i).fsm.term ≠ maxTerm) ?_ ?_
    · intro c₀ hinit i
      subst hinit
      exact ⟨VotesCurrent.started, started_term_ne_maxTerm⟩
    · intro c x c' _ hc hstep i
      obtain ⟨hstep, hnext⟩ := hstep
      have hcurrent : ∀ i, (c' i).fsm.term ≠ maxTerm → VotesCurrent (c' i).fsm :=
        forall_step (p := fun _ n => n.fsm.term ≠ maxTerm → VotesCurrent n.fsm) hstep
          (fun i _ => (hc i).1) fun _ _ hn' hbelow => (hc x.1).1.step hn' (hc x.1).2 hbelow
      exact ⟨hcurrent i (hnext i), hnext i⟩
  exact (hboth i).1

/-- Leaders at one moment are in different terms. -/
theorem leaders_term_injOn (h : Sound c) :
    Set.InjOn (fun i => (c i).fsm.term) (leaders c : Set (Member peers)) := by
  intro i hi j hj hterm
  have hi' : HasLed c i (c i).fsm.term := Or.inl ⟨mem_leaders.mp hi, rfl⟩
  have hj' : HasLed c j (c i).fsm.term := Or.inl ⟨mem_leaders.mp hj, hterm.symm⟩
  exact Subtype.ext ((hi'.wins h).unique (hj'.wins h))

/-- Who has voted in term `e` has a record as new as `e`. -/
theorem record_of_votes (h : Sound c) {i : Member peers} {e w : UInt64}
    (hvote : (ballot h e).votes i.1 w) : e ≤ (c i).fsm.voter.lastVotedTerm := by
  obtain ⟨j, hj, hsupport⟩ := hvote
  obtain rfl : j = i := Subtype.ext hj
  rcases (h.once j).recorded e w hsupport with hlt | ⟨heq, -⟩
  · exact UInt64.le_of_lt hlt
  · rw [heq]
    exact UInt64.le_refl _

/-- Terms below the largest, and leaders that keep the vote of their own term. -/
def Sparing (c : Cluster peers) (x : Member peers × NodeAction) (c' : Cluster peers) : Prop :=
  TermsBelowMax c x c' ∧ KeepsOwnVote x.1.actor (c x.1) x.2

instance (c : Cluster peers) (x : Member peers × NodeAction) (c' : Cluster peers) :
    Decidable (Sparing c x c') :=
  inferInstanceAs (Decidable (_ ∧ _))

theorem unspent_of_reachable (h : ((clusterSystem peers).restrict Sparing).Reachable c)
    (i : Member peers) : Unspent (c i).fsm := by
  refine h.invariant (I := fun c => ∀ i, Unspent (c i).fsm) ?_ ?_ i
  · intro c₀ hinit i
    subst hinit
    exact Unspent.of_role (s := RaftFSM.started) (by decide)
  · rintro c x c' hc hs ⟨hstep, -, hkeeps⟩
    have hcurrent := votesCurrent_of_reachable (hc.weaken fun _ _ _ hok => hok.1) x.1
    exact forall_step (p := fun _ n => Unspent n.fsm) hstep hs
      fun _ _ hn' => (hs x.1).step hcurrent hkeeps hn'

/-- The majority that elected the newest leader holds no other one. -/
theorem card_leaders_inter_le (h : Sound c) (hunspent : ∀ i, Unspent (c i).fsm)
    {k : Member peers} (hk : k ∈ leaders c)
    (hmax : ∀ i ∈ leaders c, (c i).fsm.term ≤ (c k).fsm.term)
    {Q : Finset UInt64} (hQ : ∀ v ∈ Q, (ballot h ((c k).fsm.term - 1)).votes v k.1) :
    ((leaders c).map (Function.Embedding.subtype _) ∩ Q).card ≤ 1 := by
  refine Finset.card_le_one.mpr ?_
  have honly : ∀ v ∈ (leaders c).map (Function.Embedding.subtype _) ∩ Q, v = k.1 := by
    intro v hv
    rw [Finset.mem_inter, Finset.mem_map] at hv
    obtain ⟨⟨i, hi, rfl⟩, hmem⟩ := hv
    have hvoted := record_of_votes h (hQ i.1 hmem)
    have hspare := hunspent i (mem_leaders.mp hi)
    have hhigh := hmax i hi
    have hterm : (c i).fsm.term = (c k).fsm.term := by grind
    rw [leaders_term_injOn h hi hk hterm]
    rfl
  intro v hv w hw
  rw [honly v hv, honly w hw]

/-- **How many nodes lead at once.**  They are in different terms, and they are at
most half of the servers, rounded up. -/
theorem card_leaders_le (h : ((clusterSystem peers).restrict Sparing).Reachable c) :
    (∀ i j, (c i).fsm.role = .leader → (c j).fsm.role = .leader →
      (c i).fsm.term = (c j).fsm.term → i = j) ∧
    (leaders c).card ≤ (peers.size + 1) / 2 := by
  have hsound : Sound c := sound_of_reachable h.unrestrict
  refine ⟨fun i j hi hj hterm =>
    leaders_term_injOn hsound (mem_leaders.mpr hi) (mem_leaders.mpr hj) hterm, ?_⟩
  rcases (leaders c).eq_empty_or_nonempty with hempty | hsome
  · rw [hempty, Finset.card_empty]
    exact Nat.zero_le _
  · obtain ⟨k, hk, hnewest⟩ := Finset.exists_max_image _ (fun i => (c i).fsm.term.toNat) hsome
    have hled : HasLed c k (c k).fsm.term := Or.inl ⟨mem_leaders.mp hk, rfl⟩
    obtain ⟨Q, hmajority, hvotes⟩ := hled.wins hsound
    have hone := card_leaders_inter_le hsound (unspent_of_reachable h) hk
      (fun i hi => UInt64.le_iff_toNat_le.mpr (hnewest i hi)) hvotes
    have hsub : (leaders c).map (Function.Embedding.subtype _) ⊆ peers.members := by
      intro v hv
      obtain ⟨i, -, rfl⟩ := Finset.mem_map.mp hv
      exact i.2
    have hbound := hmajority.card_le_of_inter hsub hone
    have hle := Finset.card_le_card hmajority.subset
    have hhalf := hmajority.card
    rw [Finset.card_map, PeerMap.card_members] at hbound
    rw [PeerMap.card_members] at hle hhalf
    omega

/-- Servers 1, 2 and 3 of five are elected in turn by 4 and 5 and themselves, and none
of the three hears of another. -/
def threeElections : List (Member fiveServers × NodeAction) :=
  let voters := [FiveServers.four, FiveServers.five]
  timesOut FiveServers.one ++ canvasses FiveServers.one 1 voters ++
    timesOut FiveServers.two ++ timesOut FiveServers.two ++ canvasses FiveServers.two 2 voters ++
    timesOut FiveServers.three ++ timesOut FiveServers.three ++ timesOut FiveServers.three ++
    canvasses FiveServers.three 3 voters

theorem card_leaders_le_of_five :
    ∃ c : Cluster fiveServers, (leaders c).card = 3 ∧ (leaders c).card ≤ (5 + 1) / 2 := by
  obtain ⟨c, hc, hcard⟩ := System.Reachable.of_execute (fun _ => {}) Cluster.step Sparing
    threeElections (fun c => (leaders c).card = 3) (by decide +kernel)
  exact ⟨c, hcard, (card_leaders_le hc).2⟩

/-- Three leaders at once. -/
theorem three_leaders_of_five : ∃ c : Cluster fiveServers,
    (clusterSystem fiveServers).Reachable c ∧ ¬ (leaders c).card ≤ 2 := by
  obtain ⟨c, hc, hcard⟩ := System.Reachable.of_execute (fun _ => {}) Cluster.step
    (fun _ _ _ => True) threeElections (fun c => ¬ (leaders c).card ≤ 2) (by decide +kernel)
  exact ⟨c, hc.unrestrict, hcard⟩

end Raft.Cluster
