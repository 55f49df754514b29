/-
The votes of one node, over its whole history.

Two things are followed here.  A node supports at most one server in each term,
counting its replies and its own vote together; the voter record is what carries
this (`VotesOnce`).  And a node that has become leader was backed by a majority: a
candidate's `voted_peers_` holds itself and senders of granted votes of its current
term, because every way out of a candidacy clears the set (`Backed`).

`P id t` stands for what the surrounding run knows of a granted vote that is
counted: nothing here looks into it, so the same induction serves a node among
strangers and a node in a cluster.
-/
import Mathlib.Data.List.Infix
import RaftElection.Proofs.Fsm

namespace Raft.Voter

/-- The two outcomes of a vote request, with the record each leaves. -/
theorem voteForLeader_cases (v : Voter) (id t : UInt64) :
    (v.voteForLeader id t = (true, { lastVoted := id, lastVotedTerm := t }) ∧
      (v.lastVotedTerm < t ∨ t = v.lastVotedTerm ∧ id = v.lastVoted)) ∨
    (v.voteForLeader id t = (false, v) ∧
      (t < v.lastVotedTerm ∨ t = v.lastVotedTerm ∧ id ≠ v.lastVoted)) := by
  unfold voteForLeader
  by_cases hlt : t < v.lastVotedTerm
  · exact Or.inr ⟨if_pos hlt, Or.inl hlt⟩
  · rw [if_neg hlt]
    by_cases heq : t = v.lastVotedTerm
    · rw [if_pos heq]
      by_cases hid : id = v.lastVoted
      · refine Or.inl ⟨?_, Or.inr ⟨heq, hid⟩⟩
        rw [if_pos hid, heq, hid]
      · exact Or.inr ⟨if_neg hid, Or.inr ⟨heq, hid⟩⟩
    · refine Or.inl ⟨if_neg heq, Or.inl ?_⟩
      grind

theorem voteForLeader_eq_true_iff (v : Voter) (id t : UInt64) :
    (v.voteForLeader id t).1 = true ↔
      ¬ (t < v.lastVotedTerm ∨ t = v.lastVotedTerm ∧ id ≠ v.lastVoted) := by
  rcases v.voteForLeader_cases id t with ⟨heq, hwhy⟩ | ⟨heq, hwhy⟩
  · rw [heq]
    grind
  · rw [heq]
    constructor
    · intro hc
      cases hc
    · intro hno
      exact absurd hwhy hno

end Raft.Voter

namespace Raft.RaftFSM

open Transition

variable {a : Actor} {P : UInt64 → UInt64 → Prop}

/-! ### The trace only grows, and a server signs what it sends -/

/-- The part of the trace that ends in an entry, when later entries are added. -/
theorem suffix_of_not_mem {o : Entry} {older new trace : List Entry}
    (h : (o :: older) <:+ new ++ trace) (ho : o ∉ new) : (o :: older) <:+ trace := by
  induction new with
  | nil => exact h
  | cons o' rest ih =>
      rcases List.suffix_cons_iff.mp h with heq | hrest
      · exact absurd ((List.cons.inj heq).1 ▸ List.mem_cons_self) ho
      · exact ih hrest fun hmem => ho (List.mem_cons_of_mem o' hmem)

theorem trace_step {n n' : Node} {act : NodeAction} (hstep : n.step a act = some n') :
    n.fsm.trace <:+ n'.fsm.trace := by
  refine (Node.step_change_any hstep).invariant (I := fun s => n.fsm.trace <:+ s.trace)
    (fun _ _ hm hs => hs.trans hm.trace) (fun _ _ hs => hs.trans (List.suffix_cons _ _)) ?_
    (fun _ _ hs => hs.trans (List.suffix_cons _ _)) (List.suffix_refl _)
  intro _ _ hs
  rw [candidacy_trace]
  exact hs.trans (List.suffix_append _ _)

/-- Everything sent carries this server's id. -/
def Signed (a : Actor) (s : RaftFSM) : Prop :=
  ∀ peer e, .sent peer e ∈ s.trace → e.getServerId = a.self

theorem Signed.started : Signed a started := by
  intro peer e h
  cases h

theorem Signed.emit {s : RaftFSM} {o : Entry} (h : Signed a s)
    (ho : ∀ peer e, o = .sent peer e → e.getServerId = a.self) : Signed a (s.emit o) := by
  intro peer e hmem
  rcases List.mem_cons.mp hmem with heq | hold
  · exact ho peer e heq.symm
  · exact h peer e hold

theorem Signed.move {s s' : RaftFSM} (hm : Move a P s s') (h : Signed a s) : Signed a s' := by
  have hanswer : ∀ e₀ : NetEvent, e₀.getServerId = a.self → ∀ c peer e,
      Entry.sent c e₀ = .sent peer e → e.getServerId = a.self := by
    intro e₀ he₀ c peer e heq
    obtain ⟨-, rfl⟩ := Entry.sent.inj heq
    exact he₀
  cases hm with
  | callback o ho => exact h.emit (by grind)
  | setBlocked | pause | reset | count => exact h
  | adopt t hlt =>
      intro peer e hmem
      rw [leave_trace] at hmem
      exact h peer e hmem
  | leave =>
      intro peer e hmem
      rw [leave_trace] at hmem
      exact h peer e hmem
  | refuse peer => exact h.emit (hanswer _ rfl peer)
  | acknowledge peer => exact h.emit (hanswer _ rfl peer)
  | vote peer => exact h.emit (hanswer _ rfl peer)
  | lead hrole hmaj => exact h.emit (by simp)

theorem Signed.step {n n' : Node} {act : NodeAction} (hstep : n.step a act = some n')
    (h : Signed a n.fsm) : Signed a n'.fsm := by
  refine (Node.step_change_any hstep).invariant (fun _ _ hm hs => hs.move hm)
    (fun _ _ hs => hs.emit (by simp)) ?_
    (fun s peer hs => hs.emit (by rintro _ _ ⟨⟩; rfl)) h
  intro _ _ hs peer e hmem
  rw [candidacy_trace, List.mem_append, mem_candidacyEntries] at hmem
  rcases hmem with (⟨p, -, heq⟩ | ⟨-, heq⟩ | heq) | hold
  · obtain ⟨-, rfl⟩ := Entry.sent.inj heq
    rfl
  · cases heq
  · cases heq
  · exact hs peer e hold

/-! ### One vote in each term

The voter remembers one vote only.  That is enough as the terms it votes in do not go down, so
every earlier vote is of an older term than the record.
-/

/-- The trace shows a vote of this server for `c` in term `t`. -/
def Supports (a : Actor) (trace : List Entry) (t c : UInt64) : Prop :=
  .sent c (.requestVoteRes a.self t true) ∈ trace ∨ c = a.self ∧ .votedSelf t ∈ trace

/-- No term has two votes, and none is newer than the record. -/
structure VotesOnce (a : Actor) (s : RaftFSM) : Prop where
  recorded : ∀ t c, Supports a s.trace t c →
    t < s.voter.lastVotedTerm ∨ t = s.voter.lastVotedTerm ∧ c = s.voter.lastVoted
  once : ∀ t c c', Supports a s.trace t c → Supports a s.trace t c' → c = c'

theorem supports_cons {o : Entry} {trace : List Entry} {t c : UInt64} :
    Supports a (o :: trace) t c ↔
      (o = .sent c (.requestVoteRes a.self t true) ∨ c = a.self ∧ o = .votedSelf t) ∨
        Supports a trace t c := by
  unfold Supports
  simp only [List.mem_cons]
  grind

theorem VotesOnce.started : VotesOnce a started := by
  have hnone : ∀ t c, ¬ Supports a [] t c := by simp [Supports]
  exact ⟨fun t c h => absurd h (hnone t c), fun t c _ h _ => absurd h (hnone t c)⟩

/-- No vote, no change. -/
theorem VotesOnce.keep {s s' : RaftFSM} (h : VotesOnce a s) (hvoter : s'.voter = s.voter)
    (hnew : ∀ t c, Supports a s'.trace t c → Supports a s.trace t c) : VotesOnce a s' := by
  refine ⟨?_, fun t c c' hc hc' => h.once t c c' (hnew t c hc) (hnew t c' hc')⟩
  intro t c hc
  rw [hvoter]
  exact h.recorded t c (hnew t c hc)

theorem VotesOnce.emit {s : RaftFSM} {o : Entry} (h : VotesOnce a s)
    (hsent : ∀ c t, o ≠ .sent c (.requestVoteRes a.self t true)) (hself : ∀ t, o ≠ .votedSelf t) :
    VotesOnce a (s.emit o) := by
  refine h.keep rfl ?_
  intro t c hc
  rcases supports_cons.mp hc with (ho | ⟨-, ho⟩) | hold
  · exact absurd ho (hsent c t)
  · exact absurd ho (hself t)
  · exact hold

/-- A request is put to the voter; a vote the trace shows afterwards was there before
or is the one the voter has just granted. -/
theorem VotesOnce.cast {s s' : RaftFSM} (id t : UInt64) (h : VotesOnce a s)
    (hvoter : s'.voter = (s.voter.voteForLeader id t).2)
    (hnew : ∀ t' c, Supports a s'.trace t' c →
      Supports a s.trace t' c ∨ (s.voter.voteForLeader id t).1 = true ∧ t' = t ∧ c = id) :
    VotesOnce a s' := by
  rcases s.voter.voteForLeader_cases id t with ⟨hgrant, hwhy⟩ | ⟨hrefuse, -⟩
  · rw [hgrant] at hvoter hnew
    refine ⟨?_, ?_⟩
    · intro t' c hc
      rw [hvoter]
      rcases hnew t' c hc with hold | ⟨-, rfl, rfl⟩
      · have hrec := h.recorded t' c hold
        grind
      · exact Or.inr ⟨rfl, rfl⟩
    · intro t' c c' hc hc'
      rcases hnew t' c hc with hold | ⟨-, ht, rfl⟩ <;>
        rcases hnew t' c' hc' with hold' | ⟨-, ht', rfl⟩
      · exact h.once t' c c' hold hold'
      · have hrec := h.recorded t' c hold
        grind
      · have hrec := h.recorded t' c' hold'
        grind
      · rfl
  · rw [hrefuse] at hvoter hnew
    refine h.keep hvoter ?_
    intro t' c hc
    rcases hnew t' c hc with hold | ⟨hfalse, -⟩
    · exact hold
    · cases hfalse

theorem VotesOnce.move {s s' : RaftFSM} (hm : Move a P s s') (h : VotesOnce a s) :
    VotesOnce a s' := by
  cases hm with
  | callback o ho => exact h.emit (by grind) (by grind)
  | setBlocked | pause | reset | count => exact h.keep rfl fun _ _ hc => hc
  | adopt t hlt =>
      refine h.keep (leave_voter _) ?_
      intro t c hc
      rwa [leave_trace] at hc
  | leave =>
      refine h.keep (leave_voter _) ?_
      intro t c hc
      rwa [leave_trace] at hc
  | refuse peer => exact h.emit (by simp) (by simp)
  | acknowledge peer => exact h.emit (by simp) (by simp)
  | vote peer =>
      refine h.cast peer s.term rfl ?_
      intro t c hc
      rcases supports_cons.mp hc with (ho | ⟨-, ho⟩) | hold
      · simp only [Entry.sent.injEq, NetEvent.requestVoteRes.injEq] at ho
        exact Or.inr ⟨ho.2.2.2, ho.2.2.1.symm, ho.1.symm⟩
      · cases ho
      · exact Or.inl hold
  | lead hrole hmaj =>
      exact (h.emit (o := .becameLeader (s.term + 1)) (by simp) (by simp)).keep rfl
        fun _ _ hc => hc

theorem VotesOnce.candidacy {s : RaftFSM} (h : VotesOnce a s) :
    VotesOnce a (candidacy a s) := by
  refine h.cast a.self (s.term + 1) (candidacy_voter a s) ?_
  intro t c hc
  unfold Supports at hc ⊢
  simp only [candidacy_trace, List.mem_append, mem_candidacyEntries] at hc
  grind

theorem VotesOnce.step {n n' : Node} {act : NodeAction} (hstep : n.step a act = some n')
    (h : VotesOnce a n.fsm) : VotesOnce a n'.fsm := by
  exact (Node.step_change_any hstep).invariant (fun _ _ hm hs => hs.move hm)
    (fun _ _ hs => hs.emit (by simp) (by simp)) (fun _ _ hs => hs.candidacy)
    (fun _ _ hs => hs.emit (by simp) (by simp)) h

/-- **A node supports one server in each term**, whatever it is sent and whatever is
called, also where its term runs over. -/
theorem supports_once {n : Node} (h : (nodeSystem a).Reachable n) {t c c' : UInt64}
    (hc : Supports a n.fsm.trace t c) (hc' : Supports a n.fsm.trace t c') : c = c' := by
  have honce : VotesOnce a n.fsm := by
    refine h.invariant (I := fun n => VotesOnce a n.fsm) ?_ fun _ _ _ _ hn hstep => hn.step hstep
    intro n₀ hn₀
    subst hn₀
    exact VotesOnce.started
  exact honce.once t c c' hc hc'

/-- Server 1 gives its vote of term 5 to server 2, is asked for it by server 3, and in the
largest term stands and finds itself back in term 0. -/
theorem supports_once_of_three : ∃ n : Node,
    n.fsm.term = 0 ∧ Supports firstOfThree n.fsm.trace 5 2 ∧
      ∀ c, Supports firstOfThree n.fsm.trace 5 c → 2 = c := by
  obtain ⟨n, hn, hterm, hsent⟩ := System.Reachable.of_execute {} (Node.step firstOfThree)
    (fun _ _ _ => True)
    [.deliver (.requestVoteReq 2 5) {}, .deliver (.requestVoteReq 3 5) {},
      .deliver (.appendEntriesReq 2 18446744073709551615) {}, .expire, .timeout {}]
    (fun n => n.fsm.term = 0 ∧ .sent 2 (.requestVoteRes 1 5 true) ∈ n.fsm.trace)
    (by decide +kernel)
  exact ⟨n, hterm, Or.inl hsent, fun c hc => supports_once hn.unrestrict (Or.inl hsent) hc⟩

/-! ### A vote is not newer than the term

This needs terms that do not run over: a term that wraps around to zero falls below
every record.
-/

/-- The largest value of `term_`. -/
def maxTerm : UInt64 := 18446744073709551615

theorem started_term_ne_maxTerm : started.term ≠ maxTerm := by decide

/-- The record is not ahead of the term, and an election can still be won. -/
structure VotesCurrent (s : RaftFSM) : Prop where
  record_le : s.voter.lastVotedTerm ≤ s.term
  electable : s.role = .candidate → s.term ≠ maxTerm

theorem VotesCurrent.started : VotesCurrent started := ⟨UInt64.le_refl 0, (fun h => nomatch h)⟩

theorem VotesCurrent.move {s s' : RaftFSM} (hm : Move a P s s') (h : VotesCurrent s) :
    VotesCurrent s' := by
  obtain ⟨hle, helect⟩ := h
  cases hm with
  | callback | setBlocked | pause | reset | refuse | acknowledge | count =>
      exact ⟨hle, helect⟩
  | adopt t hlt =>
      refine ⟨?_, by simp⟩
      simp only [leave_voter, leave_term]
      exact UInt64.le_of_lt (UInt64.lt_of_le_of_lt hle hlt)
  | leave => exact ⟨by simpa using hle, by simp⟩
  | vote peer =>
      refine ⟨?_, helect⟩
      show (s.voter.voteForLeader peer s.term).2.lastVotedTerm ≤ s.term
      rcases s.voter.voteForLeader_cases peer s.term with ⟨heq, -⟩ | ⟨heq, -⟩
      · rw [heq]
        exact UInt64.le_refl s.term
      · rw [heq]
        exact hle
  | lead hrole hmaj =>
      have hne := helect hrole
      refine ⟨?_, (fun hc => nomatch hc)⟩
      show s.voter.lastVotedTerm ≤ s.term + 1
      unfold maxTerm at hne
      grind

theorem VotesCurrent.candidacy {s : RaftFSM} (hterm : s.term ≠ maxTerm)
    (hnext : s.term + 1 ≠ maxTerm) (h : VotesCurrent s) : VotesCurrent (candidacy a s) := by
  refine ⟨?_, by simpa using hnext⟩
  rw [candidacy_voter, candidacy_term]
  have hle := h.record_le
  unfold maxTerm at hterm
  rcases s.voter.voteForLeader_cases a.self (s.term + 1) with ⟨heq, -⟩ | ⟨heq, -⟩
  · rw [heq]
    exact UInt64.le_refl (s.term + 1)
  · rw [heq]
    grind

theorem VotesCurrent.step {n n' : Node} {act : NodeAction} (hstep : n.step a act = some n')
    (hterm : n.fsm.term ≠ maxTerm) (hnext : n'.fsm.term ≠ maxTerm)
    (h : VotesCurrent n.fsm) : VotesCurrent n'.fsm := by
  refine (Node.step_change_any hstep).invariant (fun _ _ hm hs => hs.move hm)
    (fun _ _ hs => ⟨hs.1, hs.2⟩) ?_
    (fun _ _ hs => ⟨hs.1, hs.2⟩) h
  intro _ heq hs
  rw [heq, candidacy_term] at hnext
  exact hs.candidacy hterm hnext

/-! ### A leader was backed by a majority

`votedPeers` is cleared when the election is won, so the majority has to be found in the trace,
at the point where the leadership begins.
-/

/-- `q` is this server, which voted for itself in term `t`, or the sender of a granted
vote of that term that was counted. -/
def Supporter (a : Actor) (P : UInt64 → UInt64 → Prop) (trace : List Entry) (t q : UInt64) :
    Prop :=
  q = a.self ∧ .votedSelf t ∈ trace ∨ .received (.requestVoteRes q t true) ∈ trace ∧ P q t

theorem Supporter.mono {P' : UInt64 → UInt64 → Prop} {trace trace' : List Entry} {t q : UInt64}
    (h : Supporter a P trace t q) (htrace : ∀ o ∈ trace, o ∈ trace')
    (hP : ∀ q t, P q t → P' q t) : Supporter a P' trace' t q := by
  rcases h with ⟨hq, hvote⟩ | ⟨hrec, hPq⟩
  · exact Or.inl ⟨hq, htrace _ hvote⟩
  · exact Or.inr ⟨htrace _ hrec, hP q t hPq⟩

/-- Every leadership the trace shows was won by a majority of supporters, in the term
before the one it begins. -/
def Elected (a : Actor) (P : UInt64 → UInt64 → Prop) (trace : List Entry) : Prop :=
  ∀ L older, (.becameLeader L :: older) <:+ trace →
    ∃ Q : Finset UInt64, a.majority ≤ Q.card ∧ ∀ q ∈ Q, Supporter a P older (L - 1) q

theorem Elected.append (new : List Entry) {trace : List Entry} (h : Elected a P trace)
    (hnew : ∀ L, .becameLeader L ∉ new) : Elected a P (new ++ trace) := by
  intro L older hsuffix
  exact h L older (suffix_of_not_mem hsuffix (hnew L))

theorem Elected.mono {P' : UInt64 → UInt64 → Prop} {trace : List Entry} (h : Elected a P trace)
    (hP : ∀ q t, P q t → P' q t) : Elected a P' trace := by
  intro L older hsuffix
  obtain ⟨Q, hcard, hQ⟩ := h L older hsuffix
  exact ⟨Q, hcard, fun q hq => (hQ q hq).mono (fun _ ho => ho) hP⟩

/-- What stands behind a candidate and behind a leader. -/
structure Backed (a : Actor) (P : UInt64 → UInt64 → Prop) (s : RaftFSM) : Prop where
  clear : s.role ≠ .candidate → s.votedPeers = ∅
  counted : s.role = .candidate → ∀ q ∈ s.votedPeers, Supporter a P s.trace s.term q
  elected : Elected a P s.trace
  leading : s.role = .leader → .becameLeader s.term ∈ s.trace

theorem Backed.started : Backed a P started := by
  refine ⟨fun _ => rfl, (fun h => nomatch h), ?_, (fun h => nomatch h)⟩
  intro L older hsuffix
  exact absurd (List.eq_nil_of_suffix_nil hsuffix) (by simp)

theorem Backed.mono {P' : UInt64 → UInt64 → Prop} {s : RaftFSM} (h : Backed a P s)
    (hP : ∀ q t, P q t → P' q t) : Backed a P' s :=
  ⟨h.clear, fun hc q hq => (h.counted hc q hq).mono (fun _ ho => ho) hP, h.elected.mono hP,
    h.leading⟩

theorem Backed.emit {s : RaftFSM} {o : Entry} (h : Backed a P s)
    (ho : ∀ L, o ≠ .becameLeader L) : Backed a P (s.emit o) :=
  ⟨h.clear,
    fun hc q hq => (h.counted hc q hq).mono (fun _ ho => List.mem_cons_of_mem o ho)
      (fun _ _ hPq => hPq),
    h.elected.append [o] (by simpa [eq_comm] using ho),
    fun hl => List.mem_cons_of_mem o (h.leading hl)⟩

/-- A step into role follower that leaves the trace as it is. -/
theorem Backed.leave {s s' : RaftFSM} (h : Backed a P s) (hrole : s'.role = .follower)
    (hvoted : s'.votedPeers = if s.role = .candidate then ∅ else s.votedPeers)
    (htrace : s'.trace = s.trace) : Backed a P s' := by
  refine ⟨?_, by simp [hrole], by rw [htrace]; exact h.elected, by simp [hrole]⟩
  intro _
  rw [hvoted]
  split
  · rfl
  · exact h.clear (by assumption)

theorem Backed.move {s s' : RaftFSM} (hm : Move a P s s') (h : Backed a P s) :
    Backed a P s' := by
  cases hm with
  | callback o ho => exact h.emit (by grind)
  | refuse | acknowledge => exact h.emit (by simp)
  | setBlocked | pause | reset => exact ⟨h.clear, h.counted, h.elected, h.leading⟩
  | vote peer =>
      have hkeep : Backed a P { s with voter := (s.voter.voteForLeader peer s.term).2 } :=
        ⟨h.clear, h.counted, h.elected, h.leading⟩
      exact hkeep.emit (by simp)
  | adopt t hlt => exact h.leave (leave_role _) (leave_votedPeers _) (leave_trace _)
  | leave => exact h.leave (leave_role _) (leave_votedPeers _) (leave_trace _)
  | count id hrole hP hrec =>
      refine ⟨fun hc => absurd hrole hc, ?_, h.elected, h.leading⟩
      intro _ q hq
      rcases Finset.mem_insert.mp hq with rfl | hold
      · exact Or.inr ⟨hrec, hP⟩
      · exact h.counted hrole q hold
  | lead hrole hmaj =>
      refine ⟨fun _ => rfl, (fun hc => nomatch hc), ?_, fun _ => List.mem_cons_self⟩
      intro L older hsuffix
      rcases List.suffix_cons_iff.mp hsuffix with heq | hold
      · -- the entry of this very step: the set that reached the majority is the quorum
        obtain ⟨hL, rfl⟩ := List.cons.inj heq
        obtain rfl : L = s.term + 1 := Entry.becameLeader.inj hL
        refine ⟨s.votedPeers, hmaj, ?_⟩
        rw [show s.term + 1 - 1 = s.term by grind]
        exact h.counted hrole
      · exact h.elected L older hold

theorem Backed.candidacy {s : RaftFSM} (h : Backed a P s) (hrole : s.role ≠ .leader) :
    Backed a P (candidacy a s) := by
  have hclear : (clearPrevState s).votedPeers = ∅ := by
    unfold clearPrevState
    cases hr : s.role with
    | follower => exact h.clear (by simp [hr])
    | candidate => rfl
    | leader => exact absurd hr hrole
  refine ⟨by simp, ?_, ?_, by simp⟩
  · intro _ q hq
    rw [candidacy_eq] at hq
    simp only [hclear] at hq
    split at hq
    · rename_i hgrant
      obtain rfl : q = a.self := by simpa using hq
      refine Or.inl ⟨rfl, ?_⟩
      rw [candidacy_trace, candidacy_term]
      exact List.mem_append_left _ ((mem_candidacyEntries a s).mpr (Or.inr (Or.inl ⟨hgrant, rfl⟩)))
    · simp at hq
  · rw [candidacy_trace]
    refine h.elected.append _ ?_
    intro L hmem
    rw [mem_candidacyEntries] at hmem
    grind

theorem Backed.step {n n' : Node} {act : NodeAction} (hP : Node.CountsOnly P n act)
    (hstep : n.step a act = some n') (h : Backed a P n.fsm) : Backed a P n'.fsm :=
  (Node.step_change hP hstep).invariant (fun _ _ hm hs => hs.move hm)
    (fun _ _ hs => hs.emit (by simp)) (fun hrole _ hs => hs.candidacy hrole)
    (fun _ _ hs => hs.emit (by simp)) h

end Raft.RaftFSM
