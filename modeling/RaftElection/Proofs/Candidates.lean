/-
The votes a candidate holds.

`voted_peers_` is filled in two places, by the vote a candidate casts for itself and by
the replies it counts, and emptied on every way out of a candidacy.  `step_votes` says
what one step can do to it: a step that leaves a candidate began the candidacy, or
found it and added at most the sender of the reply it handled.

The number of votes is tested only where a reply is counted.  In a cluster of one the
vote for itself is a majority already, and nobody is left to reply
(`no_idle_majority_iff`).  Everywhere else a candidate is always short of a majority, and
the outcome of a batch of replies depends on the set of those who granted and not on
their order (`tally_exact`).
-/
import RaftElection.Cluster
import RaftElection.Proofs.Callbacks
import RaftElection.Proofs.Leadership
import RaftElection.Proofs.Timers

namespace Raft.RaftFSM

open Transition

variable {a : Actor} {s s₁ s₂ s₃ s' : RaftFSM} {x : MachineAction} {cb : Callbacks}

/-! ### Outside a candidacy nothing is kept -/

/-- Votes are held by candidates only. -/
def Clear (s : RaftFSM) : Prop := s.role ≠ .candidate → s.votedPeers = ∅

theorem Clear.leave (h : Clear s) : Clear (leave s) := by
  intro _
  rw [leave_votedPeers]
  split
  · rfl
  · rename_i hrole
    exact h hrole

theorem callable_clear : Callable fun s s' => Clear s → Clear s' where
  refl _ h := h
  trans h h' hs := h' (h hs)
  callback _ _ _ h := h
  setBlocked _ _ h := h
  pause _ h := h
  leave _ h := h.leave

theorem Clear.turn {e : NetEvent} (hturn : Turn a cb e s s') (h : Clear s) : Clear s' := by
  cases hturn with
  | adopt hlt => exact callable_clear.convertToFollower (callable_clear.signOff cb) _ h
  | reset | refuse | vote | acknowledge => exact h
  | stepDown => exact h.leave
  | count id hrole => exact fun hc => absurd hrole hc
  | lead => exact callable_clear.becomeLeader cb _ (fun _ => rfl)

/-- A candidacy begins with the candidate's own vote at most. -/
theorem candidacy_votedPeers (h : Clear s) (hrole : s.role ≠ .leader) :
    (candidacy a s).votedPeers
      = if (s.voter.voteForLeader a.self (s.term + 1)).1 then {a.self} else ∅ := by
  have hclear : (clearPrevState s).votedPeers = ∅ := by
    unfold clearPrevState
    cases hr : s.role with
    | follower => exact h (by rw [hr]; decide)
    | candidate => rfl
    | leader => exact absurd hr hrole
  rw [candidacy_eq]
  simp only [hclear]
  rfl

theorem Clear.step (hstep : s.step a x = some s') (h : Clear s) : Clear s' := by
  cases step_entered hstep with
  | handled e cb s' hturns => exact hturns.invariant (fun _ _ hturn hs => hs.turn hturn) h
  | ignored => exact h
  | timedOut | expired => exact fun hc => absurd (candidacy_role a s) hc
  | beat hlive =>
      rw [sendAll_eq]
      exact h
  | called c cb => exact callable_clear.call cb s c h

theorem clear_of_reachable (h : (machineSystem a).Reachable s) : Clear s := by
  refine h.invariant ?_ (fun _ _ _ _ hs hstep => hs.step hstep)
  intro s₀ hs₀
  rw [hs₀]
  exact fun _ => rfl

/-! ### What a step does to the votes

A step that leaves a candidate has begun a candidacy, counted one vote, or kept the votes it
found.  That a candidacy goes on is read off the trace, where each has its entry.
-/

/-- No candidacy has begun between the two states. -/
def SameCandidacy (s s' : RaftFSM) : Prop :=
  ∃ later, s'.trace = later ++ s.trace ∧ ∀ t, .stood t ∉ later

theorem SameCandidacy.of_trace_eq (h : s'.trace = s.trace) : SameCandidacy s s' :=
  ⟨[], h, fun _ => List.not_mem_nil⟩

theorem SameCandidacy.emit (s : RaftFSM) {o : Entry} (ho : ∀ t, o ≠ .stood t) :
    SameCandidacy s (s.emit o) :=
  ⟨[o], rfl, by simpa [eq_comm] using ho⟩

theorem SameCandidacy.trans (h : SameCandidacy s₁ s₂) (h' : SameCandidacy s₂ s₃) :
    SameCandidacy s₁ s₃ := by
  obtain ⟨later, htrace, hnone⟩ := h
  obtain ⟨later', htrace', hnone'⟩ := h'
  refine ⟨later' ++ later, by rw [htrace', htrace, List.append_assoc], ?_⟩
  intro t hmem
  rcases List.mem_append.mp hmem with hmem | hmem
  · exact hnone' t hmem
  · exact hnone t hmem

/-- The candidacy goes on as it was, votes included. -/
structure GoesOn (s s' : RaftFSM) : Prop where
  role : s.role = .candidate
  term : s'.term = s.term
  same : SameCandidacy s s'
  votes : s'.votedPeers = s.votedPeers

theorem becomeLeader_ne_candidate (cb : Callbacks) (s : RaftFSM) :
    (becomeLeader cb (enterLeader s)).role ≠ .candidate :=
  becomeLeader_role_ne_candidate cb (s := enterLeader s) (fun hc => nomatch hc)

theorem Turns.candidate {e : NetEvent} (hturns : Turns a cb e s s')
    (hrole : s'.role = .candidate) : s.role = .candidate := by
  refine hturns.invariant (I := fun s' => s'.role = .candidate → s.role = .candidate) ?_ id hrole
  intro s₁ s₂ hturn hs₁ hrole₂
  exact hs₁ (hturn.candidate hrole₂).1

/-- No event but a granted vote touches the votes of a candidate it leaves one. -/
theorem Turns.goesOn {e : NetEvent} (hturns : Turns a cb e s s')
    (he : ∀ id t, e ≠ .requestVoteRes id t true) (hrole : s'.role = .candidate) :
    GoesOn s s' := by
  refine hturns.invariant (I := fun s' => s'.role = .candidate → GoesOn s s') ?_
    (fun hrole => ⟨hrole, rfl, .of_trace_eq rfl, rfl⟩) hrole
  intro s₁ s₂ hturn hs₁ hrole₂
  obtain ⟨hrole₁, hterm⟩ := hturn.candidate hrole₂
  obtain ⟨hrole, hterm₁, hsame, hvotes⟩ := hs₁ hrole₁
  have hlast : SameCandidacy s₁ s₂ ∧ s₂.votedPeers = s₁.votedPeers := by
    cases hturn with
    | reset => exact ⟨.of_trace_eq rfl, rfl⟩
    | refuse | vote | acknowledge => exact ⟨.emit _ (by simp), rfl⟩
    | count id _ heq => exact absurd heq (he id s₁.term)
    | adopt => simp at hrole₂
    | stepDown => simp at hrole₂
    | lead => exact absurd hrole₂ (becomeLeader_ne_candidate cb s₁)
  exact ⟨hrole, hterm.trans hterm₁, hsame.trans hlast.1, hlast.2.trans hvotes⟩

/-- **A vote that is counted.**  The reply of the current term that a candidate handles
makes it leader, or joins the votes. -/
theorem handle_vote (hblocked : s.blocked = false) (hrole : s.role = .candidate) (id : UInt64)
    (granted : Bool) :
    handle a cb s (.net (.requestVoteRes id s.term granted)) = .ok (
      if granted = true then
        if a.majority ≤ (insert id s.votedPeers).card then becomeLeader cb (enterLeader s)
        else { s with votedPeers := insert id s.votedPeers }
      else s) := by
  have hterm : ¬ s.term < s.term := UInt64.lt_irrefl s.term
  rw [handle_eq, if_neg (by simp [hblocked])]
  simp only [handleLocked, dispatch, RaftEvent.getTerm, NetEvent.getTerm,
    adoptTerm_of_not_lt cb hterm, handleRequestVoteResponse, if_neg hterm]
  by_cases hgranted : granted = true
  · rw [if_pos ⟨hrole, hgranted⟩, if_pos hgranted]
    by_cases hmaj : a.majority ≤ (insert id s.votedPeers).card
    · rw [if_pos hmaj, if_pos hmaj, convertToLeader_eq (by exact hrole)]
      rfl
    · rw [if_neg hmaj, if_neg hmaj]
  · rw [if_neg (fun hc => hgranted hc.2), if_neg hgranted]

/-- A reply of a newer term ends the candidacy, one of an older term is ignored. -/
theorem handle_vote_of_ne {id t : UInt64} {granted : Bool} (hne : t ≠ s.term)
    (h : handle a cb s (.net (.requestVoteRes id t granted)) = .ok s')
    (hrole : s'.role = .candidate) : s' = s := by
  rw [handle_eq] at h
  split at h
  · exact (Except.ok.inj h).symm
  simp only [handleLocked, dispatch, RaftEvent.getTerm, NetEvent.getTerm] at h
  by_cases hlt : s.term < t
  · exfalso
    have hfollower : (adoptTerm cb s t).role = .follower :=
      (adoptTerm_quiet cb hlt).role.trans (leave_role _)
    have hsame : handleRequestVoteResponse a cb (adoptTerm cb s t) id t granted
        = adoptTerm cb s t := by
      simp [handleRequestVoteResponse, hfollower]
    rw [hsame] at h
    rw [← Except.ok.inj h, hfollower] at hrole
    cases hrole
  · have hstale : t < s.term := by grind
    rw [adoptTerm_of_not_lt cb hlt, handleRequestVoteResponse, if_pos hstale] at h
    exact (Except.ok.inj h).symm

/-- What a step that leaves a candidate has done. -/
inductive Tallied (a : Actor) (s : RaftFSM) (x : MachineAction) (s' : RaftFSM) : Prop
  | began (hrole : s.role ≠ .leader) (heq : s' = candidacy a s)
  | kept (h : GoesOn s s')
  | counted (id : UInt64) (cb : Callbacks) (hblocked : s.blocked = false)
      (hrole : s.role = .candidate)
      (hx : x = .handle (.net (.requestVoteRes id s.term true)) cb)
      (hminor : (insert id s.votedPeers).card < a.majority)
      (heq : s' = { s with votedPeers := insert id s.votedPeers })

/-- **Every step into role candidate is one of these.** -/
theorem step_votes (hstep : s.step a x = some s') (hrole : s'.role = .candidate) :
    Tallied a s x s' := by
  have hsame : s' = s → Tallied a s x s' := by
    rintro rfl
    exact .kept ⟨hrole, rfl, .of_trace_eq rfl, rfl⟩
  cases step_entered hstep with
  | handled e cb s' hturns =>
      by_cases hvote : ∃ id t, e = .requestVoteRes id t true
      · obtain ⟨id, t, rfl⟩ := hvote
        have hhandle := eq_ok_of_toOption hstep
        by_cases hterm : t = s.term
        · subst hterm
          by_cases hblocked : s.blocked = true
          · rw [handle_eq, if_pos hblocked] at hhandle
            exact hsame (Except.ok.inj hhandle).symm
          have hcandidate := hturns.candidate hrole
          rw [handle_vote (by simpa using hblocked) hcandidate, if_pos rfl] at hhandle
          split at hhandle
          · obtain rfl := Except.ok.inj hhandle
            exact absurd hrole (becomeLeader_ne_candidate cb s)
          · rename_i hminor
            exact .counted id cb (by simpa using hblocked) hcandidate rfl (Nat.not_le.mp hminor)
              (Except.ok.inj hhandle).symm
        · exact hsame (handle_vote_of_ne hterm hhandle hrole)
      · exact .kept (hturns.goesOn (fun id t heq => hvote ⟨id, t, heq⟩) hrole)
  | ignored => exact hsame rfl
  | timedOut cb hleader | expired cb hlive hleader => exact .began hleader rfl
  | beat hlive =>
      rw [sendAll_eq] at hrole ⊢
      exact .kept ⟨hrole, rfl, ⟨_, rfl, by simp⟩, rfl⟩
  | called c cb =>
      cases c with
      | unblock => exact .kept ⟨hrole, rfl, .of_trace_eq rfl, rfl⟩
      | block | stayFollower => cases (convertToFollower_role cb s).symm.trans hrole

/-! ### Only fresh votes -/

/-- A granted reply of `id` in the present term was handled by this candidate, unblocked
and in the candidacy it is still in. -/
def HandledVote (a : Actor) (s : RaftFSM) (id : UInt64) : Prop :=
  ∃ s₁ s₂ cb, (machineSystem a).Reachable s₁ ∧ s₁.blocked = false ∧ s₁.role = .candidate ∧
    s₁.term = s.term ∧ s₁.step a (.handle (.net (.requestVoteRes id s.term true)) cb) = some s₂ ∧
    (machineSystem a).Run s₂ s ∧ SameCandidacy s₁ s

/-- A candidate's votes are its own and those it was sent. -/
def Fresh (a : Actor) (s : RaftFSM) : Prop :=
  s.role = .candidate → ∀ id ∈ s.votedPeers, id ≠ a.self → HandledVote a s id

theorem HandledVote.step {id : UInt64} (h : HandledVote a s id) (hstep : s.step a x = some s')
    (hterm : s'.term = s.term) (hsame : SameCandidacy s s') : HandledVote a s' id := by
  obtain ⟨s₁, s₂, cb, hreach, hblocked, hrole, hterm₁, hvote, hrun, hsame₁⟩ := h
  rw [← hterm] at hterm₁ hvote
  exact ⟨s₁, s₂, cb, hreach, hblocked, hrole, hterm₁, hvote, hrun.tail hstep, hsame₁.trans hsame⟩

theorem Fresh.step (hreach : (machineSystem a).Reachable s) (hstep : s.step a x = some s')
    (h : Fresh a s) : Fresh a s' := by
  intro hrole id hid hne
  cases step_votes hstep hrole with
  | began hleader heq =>
      rw [heq, candidacy_votedPeers (clear_of_reachable hreach) hleader] at hid
      split at hid
      · exact absurd (Finset.mem_singleton.mp hid) hne
      · exact absurd hid (Finset.notMem_empty id)
  | kept hgoes =>
      rw [hgoes.votes] at hid
      exact (h hgoes.role id hid hne).step hstep hgoes.term hgoes.same
  | counted voter cb hblocked hcandidate hx hminor heq =>
      have hsame : SameCandidacy s s' := .of_trace_eq (by rw [heq])
      have hterm : s'.term = s.term := by rw [heq]
      rw [heq] at hid
      rcases Finset.mem_insert.mp hid with rfl | hold
      · rw [hx] at hstep
        refine ⟨s, s', cb, hreach, hblocked, hcandidate, hterm.symm, ?_, System.Run.refl s', hsame⟩
        rw [hterm]
        exact hstep
      · exact (h hcandidate id hold hne).step hstep hterm hsame

/-- A candidate is short of a majority. -/
def Short (a : Actor) (s : RaftFSM) : Prop := s.role = .candidate → s.votedPeers.card < a.majority

theorem Short.step (hsize : 2 ≤ a.peers.size) (hclear : Clear s) (hstep : s.step a x = some s')
    (h : Short a s) : Short a s' := by
  intro hrole
  cases step_votes hstep hrole with
  | began hleader heq =>
      have hmajority : 2 ≤ a.majority := by
        unfold Actor.majority
        omega
      rw [heq, candidacy_votedPeers hclear hleader]
      split
      · rw [Finset.card_singleton]
        omega
      · rw [Finset.card_empty]
        omega
  | kept hgoes =>
      rw [hgoes.votes]
      exact h hgoes.role
  | counted id cb hblocked hcandidate hx hminor heq =>
      rw [heq]
      exact hminor

theorem short_of_reachable (hsize : 2 ≤ a.peers.size) (h : (machineSystem a).Reachable s) :
    Short a s := by
  refine h.invariant ?_ ?_
  · intro s₀ hs₀ hrole
    rw [hs₀] at hrole
    cases hrole
  · intro s x s' hreach hs hstep
    exact hs.step hsize (clear_of_reachable hreach) hstep

/-- Steps that stay below the largest term. -/
def BelowMax (_ : RaftFSM) (_ : MachineAction) (s' : RaftFSM) : Prop := s'.term < maxTerm

instance (s : RaftFSM) (x : MachineAction) (s' : RaftFSM) : Decidable (BelowMax s x s') :=
  inferInstanceAs (Decidable (_ < _))

/-- The first timeout of a started node. -/
theorem reachable_candidacy :
    ((machineSystem a).restrict BelowMax).Reachable (candidacy a started) := by
  refine ⟨started, rfl, (System.Run.refl started).tail (a := .callElection {}) ⟨?_, ?_⟩⟩
  · show (if Timer.Live started.electionTimeoutTask
      then (handle a {} started .electionTimeout).toOption else some started) = _
    rw [if_pos (by decide), handle_eq, handleLocked_timeout]
    rfl
  · show (candidacy a started).term < maxTerm
    rw [candidacy_term]
    decide

/-- **A candidate that has a majority is leader at once, in every cluster but that of a
single server.**  There the first candidate has all the votes there are, and stays a
candidate. -/
theorem no_idle_majority_iff (a : Actor) :
    (∀ s, ((machineSystem a).restrict BelowMax).Reachable s → s.role = .candidate →
      s.votedPeers.card < a.majority) ↔ 2 ≤ a.peers.size := by
  constructor
  · intro h
    have hshort := h (candidacy a started) reachable_candidacy (candidacy_role a started)
    have hself : (started.voter.voteForLeader a.self (started.term + 1)).1 = true := rfl
    rw [candidacy_votedPeers (fun _ => rfl) (by decide), if_pos hself,
      Finset.card_singleton] at hshort
    unfold Actor.majority at hshort
    omega
  · intro hsize s hs hrole
    exact short_of_reachable hsize hs.unrestrict hrole

/-- The candidate of a cluster of one. -/
theorem lone_candidate :
    ∃ s, ((machineSystem loneServer).restrict BelowMax).Reachable s ∧ s.role = .candidate ∧
      ¬ s.votedPeers.card < loneServer.majority := by
  obtain ⟨s, hs, hrole, hvotes⟩ := System.Reachable.of_execute started (RaftFSM.step loneServer)
    BelowMax [.callElection {}]
    (fun s => s.role = .candidate ∧ ¬ s.votedPeers.card < loneServer.majority) (by decide +kernel)
  exact ⟨s, hs, hrole, hvotes⟩

/-! ### Counting a batch of replies -/

/-- Replies of term `t`, each given by its sender and whether it grants. -/
def replies (t : UInt64) (votes : List (UInt64 × Bool)) : List RaftEvent :=
  votes.map fun vote => .net (.requestVoteRes vote.1 t vote.2)

/-- Those who grant. -/
def granters (votes : List (UInt64 × Bool)) : Finset UInt64 :=
  ((votes.filter Prod.snd).map Prod.fst).toFinset

theorem granters_cons_granted (id : UInt64) (rest : List (UInt64 × Bool)) :
    granters ((id, true) :: rest) = insert id (granters rest) := by
  simp [granters]

theorem granters_cons_refused (id : UInt64) (rest : List (UInt64 × Bool)) :
    granters ((id, false) :: rest) = granters rest := by
  simp [granters]

theorem granters_perm {votes order : List (UInt64 × Bool)} (h : order.Perm votes) :
    granters order = granters votes := by
  ext id
  simp only [granters, List.mem_toFinset, List.mem_map, List.mem_filter]
  constructor
  · rintro ⟨vote, ⟨hmem, hgrants⟩, rfl⟩
    exact ⟨vote, ⟨h.mem_iff.mp hmem, hgrants⟩, rfl⟩
  · rintro ⟨vote, ⟨hmem, hgrants⟩, rfl⟩
    exact ⟨vote, ⟨h.mem_iff.mpr hmem, hgrants⟩, rfl⟩

/-- Replies of an older term are all ignored. -/
theorem handleAll_stale {t : UInt64} (hblocked : s.blocked = false) (hstale : t < s.term) :
    ∀ votes : List (UInt64 × Bool), handleAll a cb s (replies t votes) = .ok s := by
  intro votes
  induction votes with
  | nil => rfl
  | cons vote rest ih =>
      have hfirst : handle a cb s (.net (.requestVoteRes vote.1 t vote.2)) = .ok s := by
        rw [handle_eq, if_neg (by simp [hblocked])]
        simp only [handleLocked, dispatch, RaftEvent.getTerm, NetEvent.getTerm,
          adoptTerm_of_not_lt cb (UInt64.lt_asymm hstale), handleRequestVoteResponse, if_pos hstale]
      show (handle a cb s (.net (.requestVoteRes vote.1 t vote.2))).bind _ = _
      rw [hfirst]
      exact ih

/-- A callback that calls nothing but `unblock` leaves an unblocked machine alone. -/
theorem becomeLeader_of_unpausing (hcb : Node.unpausing cb) (hblocked : s.blocked = false) :
    becomeLeader cb s = if cb.onBecomeLeader.isSome then s.emit .onBecomeLeader else s := by
  unfold becomeLeader
  cases hcalls : cb.onBecomeLeader with
  | none => rfl
  | some calls =>
      have hsame : ∀ c ∈ calls, call (signOff cb) (s.emit .onBecomeLeader) c
          = s.emit .onBecomeLeader := by
        intro c hc
        rw [hcb calls (Or.inl hcalls) c hc]
        show { s.emit .onBecomeLeader with blocked := false } = s.emit .onBecomeLeader
        rw [← hblocked]
        rfl
      exact calls.foldlRecOn (motive := fun r : RaftFSM => r = s.emit .onBecomeLeader) _ rfl
        (fun r hr c hc => by rw [hr]; exact hsame c hc)

/-- The outcome of a batch of replies of the current term, as a function of who grants. -/
theorem handleAll_votes (hcb : Node.unpausing cb) (hterm : s.term < maxTerm) :
    ∀ (votes : List (UInt64 × Bool)) {V : Finset UInt64}, s.blocked = false →
      s.role = .candidate → V.card < a.majority →
      handleAll a cb { s with votedPeers := V } (replies s.term votes) = .ok (
        if a.majority ≤ (V ∪ granters votes).card then becomeLeader cb (enterLeader s)
        else { s with votedPeers := V ∪ granters votes }) := by
  intro votes
  induction votes with
  | nil =>
      intro V hblocked hrole hshort
      have hnone : V ∪ granters [] = V := Finset.union_empty V
      rw [hnone, if_neg (Nat.not_le.mpr hshort)]
      rfl
  | cons vote rest ih =>
      intro V hblocked hrole hshort
      obtain ⟨id, granted⟩ := vote
      show (handle a cb { s with votedPeers := V } (.net (.requestVoteRes id s.term granted))).bind
        _ = _
      rw [handle_vote (s := { s with votedPeers := V }) hblocked hrole]
      cases granted with
      | false =>
          rw [granters_cons_refused]
          exact ih hblocked hrole hshort
      | true =>
          rw [granters_cons_granted, Finset.union_insert, if_pos rfl]
          by_cases hmaj : a.majority ≤ (insert id V).card
          · -- The election is won here, and what is left of the batch is of an older term.
            have hall : a.majority ≤ (insert id (V ∪ granters rest)).card :=
              hmaj.trans (Finset.card_le_card
                (Finset.insert_subset_insert id Finset.subset_union_left))
            rw [if_pos hmaj, if_pos hall]
            have hleader := becomeLeader_of_unpausing hcb (s := enterLeader s) hblocked
            refine handleAll_stale (s := becomeLeader cb (enterLeader s)) ?_ ?_ rest
            · rw [hleader]
              split <;> exact hblocked
            · have hnext : s.term < s.term + 1 := by
                unfold maxTerm at hterm
                grind
              rw [hleader]
              split <;> exact hnext
          · rw [if_neg hmaj, ← Finset.insert_union]
            exact ih hblocked hrole (Nat.not_le.mp hmaj)

/-- **Votes are counted exactly, and in any order.**  A batch of replies of the current
term leaves the same machine however it is ordered: a leader of the next term where the
granting senders complete a majority, else the candidate with those senders added. -/
theorem tally_exact (hsize : 2 ≤ a.peers.size) (h : (machineSystem a).Reachable s)
    (hblocked : s.blocked = false) (hrole : s.role = .candidate) (hterm : s.term < maxTerm)
    (hcb : Node.unpausing cb) (votes : List (UInt64 × Bool)) :
    ∃ s', (∀ order : List (UInt64 × Bool), order.Perm votes →
        handleAll a cb s (replies s.term order) = .ok s') ∧
      (a.majority ≤ (s.votedPeers ∪ granters votes).card →
        s'.role = .leader ∧ s'.term = s.term + 1 ∧ s'.votedPeers = ∅ ∧
        s'.trace.count .onBecomeLeader
          = s.trace.count .onBecomeLeader + if cb.onBecomeLeader.isSome then 1 else 0) ∧
      ((s.votedPeers ∪ granters votes).card < a.majority →
        s' = { s with votedPeers := s.votedPeers ∪ granters votes }) := by
  have hshort := short_of_reachable hsize h hrole
  refine ⟨if a.majority ≤ (s.votedPeers ∪ granters votes).card then becomeLeader cb (enterLeader s)
    else { s with votedPeers := s.votedPeers ∪ granters votes }, ?_, ?_, ?_⟩
  · intro order hperm
    rw [← granters_perm hperm]
    exact handleAll_votes hcb hterm order hblocked hrole hshort
  · intro hmaj
    rw [if_pos hmaj, becomeLeader_of_unpausing hcb (s := enterLeader s) hblocked]
    split
    · refine ⟨rfl, rfl, rfl, ?_⟩
      simp [enterLeader, emit, initLeaderState, startHeartbeat, incTerm, clearCandidateState,
        stopElectionTimeout]
    · refine ⟨rfl, rfl, rfl, ?_⟩
      simp [enterLeader, emit, initLeaderState, startHeartbeat, incTerm, clearCandidateState,
        stopElectionTimeout]
  · intro hminor
    rw [if_neg (Nat.not_le.mpr hminor)]

/-- Two grants, a repetition and a refusal, in either of two orders. -/
theorem tally_exact_of_five :
    ∃ s s' : RaftFSM, s.role = .candidate ∧ s'.role = .leader ∧ s'.term = s.term + 1 ∧
      handleAll FiveServers.one.actor {} s
        (replies s.term [(2, true), (2, true), (3, false), (4, true)]) = .ok s' ∧
      handleAll FiveServers.one.actor {} s
        (replies s.term [(4, true), (3, false), (2, true), (2, true)]) = .ok s' := by
  obtain ⟨s, hs, hblocked, hrole, hterm, hmaj⟩ := System.Reachable.of_execute started
    (RaftFSM.step FiveServers.one.actor) (fun _ _ _ => True) [.callElection {}]
    (fun s => s.blocked = false ∧ s.role = .candidate ∧ s.term < maxTerm ∧
      FiveServers.one.actor.majority ≤
        (s.votedPeers ∪ granters [(2, true), (2, true), (3, false), (4, true)]).card)
    (by decide +kernel)
  obtain ⟨s', horder, hlead, -⟩ := tally_exact (by decide) hs.unrestrict hblocked hrole
    hterm (fun _ hcalls => nomatch hcalls : Node.unpausing {})
      [(2, true), (2, true), (3, false), (4, true)]
  obtain ⟨hrole', hterm', -⟩ := hlead hmaj
  exact ⟨s, s', hrole, hrole', hterm', horder _ (List.Perm.refl _), horder _ (by decide)⟩

/-! ### The candidate's own vote

`init_candidate_state` does not look at what `vote_self` returns.  It need not: every
earlier vote of the node is of an older term than the one it stands in, as long as terms
do not run over.
-/

/-- What `vote_self` returns. -/
def votesForSelf (a : Actor) (s : RaftFSM) : Bool := (s.voter.voteForLeader a.self s.term).1

/-- A candidate has spent the vote of its term on itself, and counts it. -/
def OwnVote (a : Actor) (s : RaftFSM) : Prop :=
  s.role = .candidate →
    a.self ∈ s.votedPeers ∧ s.voter.lastVoted = a.self ∧ s.voter.lastVotedTerm = s.term

theorem votesForSelf_incTerm (h : s.voter.lastVotedTerm ≤ s.term) (hterm : s.term ≠ maxTerm) :
    votesForSelf a (incTerm s) = true := by
  show (s.voter.voteForLeader a.self (s.term + 1)).1 = true
  unfold maxTerm at hterm
  rcases s.voter.voteForLeader_cases a.self (s.term + 1) with ⟨heq, -⟩ | ⟨-, hwhy⟩
  · rw [heq]
  · grind

/-- The vote of a term that is spent is not given again, to whoever asks. -/
theorem OwnVote.castVote (peer : UInt64) (h : OwnVote a s) : OwnVote a (castVote a s peer) := by
  intro hrole
  obtain ⟨hself, hvoted, hterm⟩ := h hrole
  have hkept : (s.voter.voteForLeader peer s.term).2 = s.voter := by
    rcases s.voter.voteForLeader_cases peer s.term with ⟨heq, hlt | ⟨-, hpeer⟩⟩ | ⟨heq, -⟩
    · exact absurd hlt (by rw [hterm]; exact UInt64.lt_irrefl s.term)
    · rw [heq, hpeer, ← hterm]
    · rw [heq]
  refine ⟨hself, ?_⟩
  show (s.voter.voteForLeader peer s.term).2.lastVoted = a.self ∧
    (s.voter.voteForLeader peer s.term).2.lastVotedTerm = s.term
  rw [hkept]
  exact ⟨hvoted, hterm⟩

theorem OwnVote.move {P : UInt64 → UInt64 → Prop} (hm : Move a P s s') (h : OwnVote a s) :
    OwnVote a s' := by
  cases hm with
  | callback | setBlocked | pause | reset | refuse | acknowledge => exact h
  | adopt | leave => exact fun hc => absurd ((leave_role _).symm.trans hc) (by decide)
  | vote peer => exact h.castVote peer
  | count id =>
      intro hrole
      obtain ⟨hself, hvoted⟩ := h hrole
      exact ⟨Finset.mem_insert_of_mem hself, hvoted⟩
  | lead => exact fun hc => nomatch hc

theorem OwnVote.candidacy (hle : s.voter.lastVotedTerm ≤ s.term) (hterm : s.term ≠ maxTerm) :
    OwnVote a (candidacy a s) := by
  have hgrant : (s.voter.voteForLeader a.self (s.term + 1)).1 = true :=
    votesForSelf_incTerm hle hterm
  intro _
  refine ⟨?_, ?_⟩
  · rw [candidacy_eq]
    simp only [hgrant, if_true]
    exact Finset.mem_insert_self a.self _
  · rw [candidacy_voter, candidacy_term]
    rcases s.voter.voteForLeader_cases a.self (s.term + 1) with ⟨heq, -⟩ | ⟨heq, -⟩
    · rw [heq]
      exact ⟨rfl, rfl⟩
    · rw [heq] at hgrant
      cases hgrant

theorem OwnVote.step {n n' : Node} {act : NodeAction} (hstep : n.step a act = some n')
    (hle : n.fsm.voter.lastVotedTerm ≤ n.fsm.term) (hterm : n.fsm.term ≠ maxTerm)
    (h : OwnVote a n.fsm) : OwnVote a n'.fsm := by
  exact (Node.step_change_any hstep).invariant (fun _ _ hm hs => hs.move hm) (fun _ _ hs => hs)
    (fun _ _ _ => .candidacy hle hterm) (fun _ _ hs => hs) h

/-- **A candidate always holds its own vote.**  In every run that never brings the term to
its largest value, the record of the last vote is not ahead of the term; a candidate
counts itself, and has given the vote of its term to itself; and `vote_self`, which is
called once the term is raised, would return true in every state. -/
theorem candidate_holds_own_vote {n : Node}
    (h : ((nodeSystem a).restrict TermsBelowMax).Reachable n) :
    n.fsm.voter.lastVotedTerm ≤ n.fsm.term ∧
      (n.fsm.role = .candidate → a.self ∈ n.fsm.votedPeers ∧ n.fsm.voter.lastVoted = a.self ∧
        n.fsm.voter.lastVotedTerm = n.fsm.term) ∧
      votesForSelf a (incTerm n.fsm) = true := by
  have hterm : n.fsm.term ≠ maxTerm := term_ne_maxTerm h
  have hle := (votesCurrent_of_reachable h).record_le
  have hown : OwnVote a n.fsm := by
    refine h.invariant (I := fun n => OwnVote a n.fsm) ?_ ?_
    · intro n₀ hn₀
      rw [hn₀]
      exact fun hc => nomatch hc
    · intro n act n' hn hs hstep
      exact hs.step hstep.1 (votesCurrent_of_reachable hn).record_le (term_ne_maxTerm hn)
  exact ⟨hle, hown, votesForSelf_incTerm hle hterm⟩

/-- Server 1 gives its vote of term 5 to server 2 and then stands in term 6. -/
theorem candidate_holds_own_vote_of_three : ∃ n : Node, n.fsm.role = .candidate ∧
    n.fsm.term = 6 ∧ n.fsm.voter = { lastVoted := 1, lastVotedTerm := 6 } := by
  obtain ⟨n, hn, hrole, hterm⟩ := System.Reachable.of_execute {} (Node.step firstOfThree)
    TermsBelowMax [.deliver (.requestVoteReq 2 5) {}, .expire, .timeout {}]
    (fun n => n.fsm.role = .candidate ∧ n.fsm.term = 6) (by decide +kernel)
  obtain ⟨-, hown, -⟩ := candidate_holds_own_vote hn
  obtain ⟨-, hvoted, hvotedTerm⟩ := hown hrole
  refine ⟨n, hrole, hterm, ?_⟩
  cases hv : n.fsm.voter with
  | mk lastVoted lastVotedTerm =>
      rw [hv] at hvoted hvotedTerm
      rw [hterm] at hvotedTerm
      exact congrArg₂ Voter.mk hvoted hvotedTerm

end Raft.RaftFSM
