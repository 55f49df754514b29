/-
What a partition does, and how it ends.

While the network is split, a server hears from some of the others only.  The votes it can
count are theirs and its own, so a server that hears from fewer than a majority wins no
election, for as long as that lasts and whatever else happens (`isolated_never_elected`).
It goes on standing, and comes back with a newer term than those it left.

When the split is over and nobody stands any more, the leader of the newest term stays
leader, and whoever hears one heartbeat of it follows it from then on, through every
message of the past that is still on its way (`follows_newest`).
-/
import RaftElection.Proofs.Heartbeat
import RaftElection.Proofs.Progress

namespace Raft

namespace Cluster

open Transition RaftFSM

variable {peers : PeerMap} {c c' : Cluster peers} {S : Finset (Member peers)} {i j : Member peers}

/-! ### Cut off -/

/-- What is delivered to `i` was sent by a server of `S`. -/
def HearsOnly (S : Finset (Member peers)) (i : Member peers) (c : Cluster peers)
    (x : Member peers × NodeAction) (_ : Cluster peers) : Prop :=
  match x.2 with
  | .deliver e _ => x.1 = i → ∃ j ∈ S, Entry.sent i.1 e ∈ (c j).fsm.trace
  | _ => True

/-- The ids of some servers. -/
def ids (S : Finset (Member peers)) : Finset UInt64 := S.map (Function.Embedding.subtype _)

theorem mem_ids {q : UInt64} : q ∈ ids S ↔ ∃ j ∈ S, j.1 = q := by
  simp [ids]

theorem card_ids : (ids S).card = S.card := Finset.card_map _

/-- Since `s₀` the server has counted votes of `S` only, and has not won. -/
structure Unelected (S : Finset (Member peers)) (s₀ s : RaftFSM) : Prop where
  votes : s.votedPeers ⊆ ids S
  wins : ∃ new, s.trace = new ++ s₀.trace ∧ ∀ L, .becameLeader L ∉ new
  leads : s.role = .leader → s₀.role = .leader

section Unelected

variable {s₀ s s' : RaftFSM}

/-- Other fields do not matter. -/
theorem Unelected.congr (h : Unelected S s₀ s) (hvotes : s'.votedPeers = s.votedPeers)
    (htrace : s'.trace = s.trace) (hrole : s'.role = s.role) : Unelected S s₀ s' := by
  refine ⟨?_, ?_, ?_⟩
  · rw [hvotes]
    exact h.votes
  · rw [htrace]
    exact h.wins
  · rw [hrole]
    exact h.leads

theorem Unelected.emit {o : Entry} (h : Unelected S s₀ s) (ho : ∀ L, o ≠ .becameLeader L) :
    Unelected S s₀ (s.emit o) := by
  obtain ⟨new, htrace, hnew⟩ := h.wins
  refine ⟨h.votes, ⟨o :: new, by rw [emit_trace, htrace, List.cons_append], ?_⟩, h.leads⟩
  intro L hmem
  rcases List.mem_cons.mp hmem with heq | hold
  · exact ho L heq.symm
  · exact hnew L hold

/-- The end of a role drops the votes or keeps them, and reports nothing. -/
theorem Unelected.leave (h : Unelected S s₀ s) : Unelected S s₀ (leave s) := by
  refine ⟨?_, by rw [leave_trace]; exact h.wins, ?_⟩
  · rw [leave_votedPeers]
    split
    · exact Finset.empty_subset _
    · exact h.votes
  · intro hrole
    rw [leave_role] at hrole
    cases hrole

theorem Unelected.move {a : Actor} (hS : S.card < a.majority)
    (hm : Move a (fun id _ => id ∈ ids S) s s') (h : Unelected S s₀ s) : Unelected S s₀ s' := by
  cases hm with
  | callback o ho => exact h.emit (by grind)
  | setBlocked | pause | reset => exact h.congr rfl rfl rfl
  | adopt t hlt =>
      have hterm : Unelected S s₀ { s with term := t } := h.congr rfl rfl rfl
      exact hterm.leave
  | leave => exact h.leave
  | refuse | acknowledge => exact h.emit (by simp)
  | vote peer =>
      have hvoter : Unelected S s₀
          { s with voter := (s.voter.voteForLeader peer s.term).2 } := h.congr rfl rfl rfl
      exact hvoter.emit (by simp)
  | count id hrole hP => exact ⟨Finset.insert_subset hP h.votes, h.wins, h.leads⟩
  | lead hrole hmaj =>
      -- A majority of votes does not fit into `S`.
      have hcard := Finset.card_le_card h.votes
      rw [card_ids] at hcard
      omega

theorem Unelected.candidacy {a : Actor} (hself : a.self ∈ ids S) (h : Unelected S s₀ s) :
    Unelected S s₀ (candidacy a s) := by
  obtain ⟨new, htrace, hnew⟩ := h.wins
  refine ⟨?_, ⟨candidacyEntries a s ++ new, ?_, ?_⟩, ?_⟩
  · have hclear : (clearPrevState s).votedPeers ⊆ ids S := by
      unfold clearPrevState
      cases s.role with
      | follower | leader => exact h.votes
      | candidate => exact Finset.empty_subset _
    rw [candidacy_eq]
    dsimp only
    split
    · exact Finset.insert_subset hself hclear
    · exact hclear
  · rw [candidacy_trace, htrace, List.append_assoc]
  · intro L hmem
    rcases List.mem_append.mp hmem with hstood | hold
    · rw [mem_candidacyEntries] at hstood
      rcases hstood with ⟨p, -, heq⟩ | ⟨-, heq⟩ | heq
      · cases heq
      · cases heq
      · cases heq
    · exact hnew L hold
  · intro hrole
    rw [candidacy_role] at hrole
    cases hrole

/-- One step of a server that counts votes of `S` only. -/
theorem Unelected.step {a : Actor} {n n' : Node} {act : NodeAction} (hS : S.card < a.majority)
    (hself : a.self ∈ ids S) (hP : Node.CountsOnly (fun id _ => id ∈ ids S) n act)
    (hstep : n.step a act = some n') (h : Unelected S s₀ n.fsm) : Unelected S s₀ n'.fsm := by
  refine (Node.step_change hP hstep).invariant (fun _ _ hm hs => hs.move hS hm)
    (fun _ _ hs => hs.emit (by simp)) ?_ (fun _ _ hs => hs.emit (by simp)) h
  intro _ _ hs
  exact hs.candidacy hself

end Unelected

/-- **A server that hears from fewer than a majority wins no election.**  Let `i` hear only
from servers of `S`, itself one of them, and hold no vote of another server to begin with.
Whatever the run, with everything the other servers do, `i` does not become leader, and is
leader in the end only if it was. -/
theorem isolated_never_elected (h : (clusterSystem peers).Reachable c) (hi : i ∈ S)
    (hS : S.card < i.actor.majority) (hvotes : (c i).fsm.votedPeers ⊆ ids S)
    (hrun : ((clusterSystem peers).restrict (HearsOnly S i)).Run c c') :
    (∃ new, (c' i).fsm.trace = new ++ (c i).fsm.trace ∧ ∀ L, .becameLeader L ∉ new) ∧
      ((c' i).fsm.role = .leader → (c i).fsm.role = .leader) := by
  have hboth : (clusterSystem peers).Reachable c' ∧ Unelected S (c i).fsm (c' i).fsm := by
    refine hrun.invariant (I := fun c' => (clusterSystem peers).Reachable c' ∧
      Unelected S (c i).fsm (c' i).fsm) ?_ ⟨h, hvotes, ⟨[], rfl, by simp⟩, id⟩
    intro c₁ x c₂ hc₁ hmove
    obtain ⟨hreach, hunelected⟩ := hc₁
    obtain ⟨hstep, hhears⟩ := hmove
    refine ⟨hreach.tail hstep, ?_⟩
    obtain ⟨hadm, n', hn', rfl⟩ := step_eq_some hstep
    by_cases hx : i = x.1
    · subst hx
      rw [Function.update_self]
      refine hunelected.step hS (mem_ids.mpr ⟨x.1, hi, rfl⟩) ?_ hn'
      intro id cb hact _ _
      unfold HearsOnly at hhears
      rw [hact] at hhears
      obtain ⟨k, hk, hsent⟩ := hhears rfl
      have hid : id = k.1 := (sound_of_reachable hreach).signed k _ _ hsent
      exact mem_ids.mpr ⟨k, hk, hid.symm⟩
    · rw [Function.update_of_ne hx]
      exact hunelected
  exact ⟨hboth.2.wins, hboth.2.leads⟩

instance (S : Finset (Member peers)) (i : Member peers) (c : Cluster peers) :
    ∀ x c', Decidable (HearsOnly S i c x c')
  | (k, .deliver e _), _ =>
      inferInstanceAs (Decidable (k = i → ∃ j ∈ S, Entry.sent i.1 e ∈ (c j).fsm.trace))
  | (_, .expire), _ | (_, .timeout _), _ | (_, .beat), _ | (_, .sendHeartbeat), _
  | (_, .api ..), _ => isTrue trivial

/-- Servers 1 and 2 of five are on their own.  Server 1 stands twice and has the vote of
server 2 each time, while the others elect server 3. -/
theorem isolated_never_elected_of_five : ∃ c' : Cluster fiveServers,
    (c' FiveServers.one).fsm.role = .candidate ∧ (c' FiveServers.three).fsm.role = .leader ∧
      ∀ L, .becameLeader L ∉ (c' FiveServers.one).fsm.trace := by
  obtain ⟨c', ⟨c, hinit, hrun⟩, hone, hthree⟩ := System.Reachable.of_execute (fun _ => {})
    Cluster.step (HearsOnly {FiveServers.one, FiveServers.two} FiveServers.one)
    (timesOut FiveServers.one ++ canvasses FiveServers.one 1 [FiveServers.two] ++
      timesOut FiveServers.one ++ canvasses FiveServers.one 2 [FiveServers.two] ++
      timesOut FiveServers.three ++
      canvasses FiveServers.three 1 [FiveServers.four, FiveServers.five])
    (fun c => (c FiveServers.one).fsm.role = .candidate ∧
      (c FiveServers.three).fsm.role = .leader) (by decide +kernel)
  subst hinit
  obtain ⟨⟨new, htrace, hnew⟩, -⟩ := isolated_never_elected
    ⟨fun _ => {}, rfl, System.Run.refl _⟩ (by decide) (by decide) (by decide) hrun
  refine ⟨c', hone, hthree, ?_⟩
  rw [htrace]
  exact (List.append_nil new).symm ▸ hnew

/-! ### Healing

While nobody stands or wins, no newer term comes up.  So a heartbeat of the newest that is heeded
makes a follower of its receiver in that term, and nothing that is still under way undoes it.
-/

/-- Nobody stands for election, nobody wins one, and `i` is not made to give up. -/
def Peaceful (i : Member peers) (c : Cluster peers) (x : Member peers × NodeAction)
    (_ : Cluster peers) : Prop :=
  match x.2 with
  | .timeout _ => (c x.1).fsm.blocked = true ∨ (c x.1).fsm.role = .leader
  | .deliver e _ => (c x.1).fsm.blocked = false → ¬ WinningVote x.1.actor (c x.1).fsm e
  | .api call _ => x.1 = i → call = .unblock
  | _ => True

/-- Nothing was sent in a newer term than the server is in. -/
structure Dated (s : RaftFSM) : Prop where
  current : VotesCurrent s
  sent_le : ∀ peer e, .sent peer e ∈ s.trace → e.getTerm ≤ s.term

section Dated

variable {s s' : RaftFSM} {a : Actor}

theorem sent_le_emit {o : Entry} (h : ∀ peer e, .sent peer e ∈ s.trace → e.getTerm ≤ s.term)
    (ho : ∀ peer e, o = .sent peer e → e.getTerm = s.term) :
    ∀ peer e, .sent peer e ∈ (s.emit o).trace → e.getTerm ≤ (s.emit o).term := by
  intro peer e hmem
  rcases List.mem_cons.mp hmem with heq | hold
  · exact UInt64.le_of_eq (ho peer e heq.symm)
  · exact h peer e hold

theorem Dated.move {P : UInt64 → UInt64 → Prop} (hm : Move a P s s') (h : Dated s) :
    Dated s' := by
  refine ⟨h.current.move hm, ?_⟩
  have hsent := h.sent_le
  cases hm with
  | setBlocked | pause | reset | count => exact hsent
  | callback o ho => exact sent_le_emit hsent (by grind)
  | adopt t hlt =>
      intro peer e hmem
      rw [leave_trace] at hmem
      rw [leave_term]
      exact UInt64.le_of_lt (UInt64.lt_of_le_of_lt (hsent peer e hmem) hlt)
  | leave =>
      intro peer e hmem
      rw [leave_trace] at hmem
      rw [leave_term]
      exact hsent peer e hmem
  | refuse | acknowledge => exact sent_le_emit hsent (by rintro _ _ ⟨⟩; rfl)
  | vote peer => exact sent_le_emit hsent (by rintro _ _ ⟨⟩; rfl)
  | lead hrole hmaj =>
      intro peer e hmem
      have hold : .sent peer e ∈ s.trace := by
        rcases List.mem_cons.mp hmem with heq | hold
        · cases heq
        · exact hold
      exact UInt64.le_trans (hsent peer e hold)
        (Node.le_add_one_iff.mpr (h.current.electable hrole))

theorem Dated.candidacy (hterm : s.term ≠ maxTerm) (hnext : s.term + 1 ≠ maxTerm)
    (h : Dated s) : Dated (candidacy a s) := by
  refine ⟨h.current.candidacy hterm hnext, ?_⟩
  intro peer e hmem
  rw [candidacy_trace, List.mem_append, mem_candidacyEntries] at hmem
  rw [candidacy_term]
  rcases hmem with (⟨p, -, heq⟩ | ⟨-, heq⟩ | heq) | hold
  · obtain ⟨-, rfl⟩ := Entry.sent.inj heq
    exact UInt64.le_refl _
  · cases heq
  · cases heq
  · exact UInt64.le_trans (h.sent_le peer e hold) (Node.le_add_one_iff.mpr hterm)

theorem Dated.step {n n' : Node} {act : NodeAction} (hstep : n.step a act = some n')
    (hterm : n.fsm.term ≠ maxTerm) (hnext : n'.fsm.term ≠ maxTerm) (h : Dated n.fsm) :
    Dated n'.fsm := by
  refine (Node.step_change_any hstep).invariant (fun _ _ hm hs => hs.move hm) ?_ ?_ ?_ h
  · intro s e hs
    exact ⟨⟨hs.current.1, hs.current.2⟩, sent_le_emit hs.sent_le (by simp)⟩
  · intro _ heq hs
    rw [heq, candidacy_term] at hnext
    exact hs.candidacy hterm hnext
  · intro s peer hs
    exact ⟨⟨hs.current.1, hs.current.2⟩, sent_le_emit hs.sent_le (by rintro _ _ ⟨⟩; rfl)⟩

end Dated

/-- Every message is of a term its sender has reached. -/
theorem dated_of_reachable (h : ((clusterSystem peers).restrict TermsBelowMax).Reachable c) :
    ∀ i, Dated (c i).fsm := by
  refine h.invariant (I := fun c => ∀ i, Dated (c i).fsm) ?_ ?_
  · intro c₀ hinit i
    subst hinit
    exact ⟨VotesCurrent.started, fun _ _ hmem => absurd hmem List.not_mem_nil⟩
  · intro c x c' hreach hc hmove
    obtain ⟨hstep, hbelow⟩ := hmove
    have hnext : ∀ i, (c' i).fsm.term ≠ maxTerm → Dated (c' i).fsm :=
      forall_step (p := fun _ n => n.fsm.term ≠ maxTerm → Dated n.fsm) hstep (fun i _ => hc i)
        fun _ _ hn' hne => (hc x.1).step hn' (term_ne_maxTerm hreach x.1) hne
    exact fun i => hnext i (hbelow i)

section Heartbeat

variable {s s' : RaftFSM} {a : Actor} {cb : Callbacks} {id t : UInt64}

theorem handleAppendEntries_follower (hrole : s.role ≠ .leader) (hle : s.term ≤ t)
    (h : handleAppendEntries a cb s id t = .ok s') : s'.role = .follower := by
  unfold handleAppendEntries at h
  rw [if_neg (UInt64.not_lt.mpr hle), if_neg hrole] at h
  obtain ⟨s₁, hreset, hrest⟩ := bind_eq_ok h
  obtain ⟨timer, -, rfl⟩ := resetElectionTimeout_eq_ok hreset
  obtain ⟨-, rfl⟩ := reply_eq_ok hrest
  rw [emit_role]
  split
  · exact convertToFollower_role cb _
  · rename_i hcandidate
    cases hr : s.role with
    | follower => rfl
    | candidate => exact absurd hr hcandidate
    | leader => exact absurd hr hrole

/-- A heartbeat of no older term makes a follower of a server that does not lead in that
term itself. -/
theorem handle_heartbeat (hblocked : s.blocked = false) (hle : s.term ≤ t)
    (hrole : s.role = .leader → s.term ≠ t)
    (h : handle a cb s (.net (.appendEntriesReq id t)) = .ok s') :
    s'.role = .follower ∧ s'.term = t := by
  rw [handle_eq, if_neg (by simp [hblocked])] at h
  change handleAppendEntries a cb (adoptTerm cb s t) id t = .ok s' at h
  have hterm : (adoptTerm cb s t).term = t := by
    rw [adoptTerm_term]
    split
    · rfl
    · exact UInt64.le_antisymm hle (UInt64.not_lt.mp (by assumption))
  have hnot : (adoptTerm cb s t).role ≠ .leader := by
    refine adoptTerm_role_ne_leader cb ?_
    by_cases hlt : s.term < t
    · exact Or.inr hlt
    · exact Or.inl fun hr => hrole hr (UInt64.le_antisymm hle (UInt64.not_lt.mp hlt))
  exact ⟨handleAppendEntries_follower hnot (UInt64.le_of_eq hterm) h,
    (handleAppendEntries_term h).trans hterm⟩

end Heartbeat

/-- `i` leads in the newest term of all. -/
structure Leads (i : Member peers) (T : UInt64) (c : Cluster peers) : Prop where
  reach : ((clusterSystem peers).restrict TermsBelowMax).Reachable c
  role : (c i).fsm.role = .leader
  term : (c i).fsm.term = T
  newest : ∀ j, (c j).fsm.term ≤ T

section Peace

variable {T : UInt64} {x : Member peers × NodeAction}

/-- Nothing that is on its way is of a newer term. -/
theorem Leads.inFlight (h : Leads i T c) {e : NetEvent} (he : InFlight c j e) : e.getTerm ≤ T := by
  obtain ⟨k, hsent⟩ := he
  exact UInt64.le_trans ((dated_of_reachable h.reach k).sent_le _ _ hsent) (h.newest k)

/-- In peace, no term passes that of the leader. -/
theorem Leads.term_le (h : Leads i T c) (hpeace : Peaceful i c x c')
    (hadm : Admissible c x.1 x.2) {n' : Node} (hn' : (c x.1).step x.1.actor x.2 = some n') :
    n'.fsm.term ≤ T := by
  have hold := h.newest x.1
  obtain ⟨k, act⟩ := x
  cases Node.step_change_any hn' with
  | delivered e cb s' hhandle hmoves =>
      show s'.term ≤ T
      cases hblocked : (c k).fsm.blocked with
      | true =>
          rw [handle_eq, if_pos (by simpa using hblocked)] at hhandle
          obtain rfl := Except.ok.inj hhandle
          exact hold
      | false =>
          have hlost : ¬ WinningVote k.actor ((c k).fsm.emit (.received e)) e :=
            hpeace hblocked
          rw [handle_term (by simpa using hblocked) hhandle, if_neg hlost]
          split
          · exact h.inFlight hadm
          · exact hold
  | expired | ignored | began | sent => exact hold
  | stood cb hpc hblocked hrole =>
      rcases hpeace with hb | hr
      · exact absurd (hb.symm.trans hblocked) (by decide)
      · exact absurd hr hrole
  | called call cb =>
      show ((c k).fsm.call (signOff cb) call).term ≤ T
      rw [(callable_aside.call cb _ call).term]
      exact hold

/-- In peace, the leader of the newest term and its followers stay what they are. -/
theorem Leads.keeps_role (h : Leads i T c) (hpeace : Peaceful i c x c')
    (hadm : Admissible c x.1 x.2) {n' : Node} (hn' : (c x.1).step x.1.actor x.2 = some n')
    (hterm : (c x.1).fsm.term = T)
    (hrole : x.1 = i ∨ (c x.1).fsm.role = .follower) :
    n'.fsm.role = (c x.1).fsm.role ∧ n'.fsm.term = T := by
  have hsettled : (c x.1).fsm.role ≠ .candidate := by
    rcases hrole with rfl | hfollower
    · rw [h.role]
      decide
    · rw [hfollower]
      decide
  obtain ⟨k, act⟩ := x
  change (c k).fsm.term = T at hterm
  cases Node.step_change_any hn' with
  | delivered e cb s' hhandle hmoves =>
      have hle : e.getTerm ≤ (c k).fsm.term := by
        rw [hterm]
        exact h.inFlight hadm
      have hkept := handle_keeps_term (s := (c k).fsm.emit (.received e)) hsettled
        (fun _ => hle) hhandle
      exact ⟨hkept.1, hkept.2.trans hterm⟩
  | expired | ignored | began | sent => exact ⟨rfl, hterm⟩
  | stood cb hpc hblocked hnot =>
      rcases hpeace with hb | hr
      · exact absurd (hb.symm.trans hblocked) (by decide)
      · exact absurd hr hnot
  | called call cb =>
      rcases hrole with hk | hfollower
      · obtain rfl := hpeace hk
        exact ⟨rfl, hterm⟩
      · have hquiet := call_quiet hfollower (signOff cb) call
        exact ⟨hquiet.role, hquiet.term.trans hterm⟩

theorem Leads.step (h : Leads i T c) (hstep : c.step x = some c') (hpeace : Peaceful i c x c') :
    Leads i T c' := by
  have hmax : T ≠ maxTerm := h.term ▸ term_ne_maxTerm h.reach i
  have hnewest : ∀ j, (c' j).fsm.term ≤ T :=
    forall_step (p := fun _ n => n.fsm.term ≤ T) hstep h.newest
      fun _ hadm hn' => h.term_le hpeace hadm hn'
  have hleads : ∀ j, j = i → (c' j).fsm.role = .leader ∧ (c' j).fsm.term = T := by
    refine forall_step (p := fun j n => j = i → n.fsm.role = .leader ∧ n.fsm.term = T) hstep ?_ ?_
    · rintro _ rfl
      exact ⟨h.role, h.term⟩
    · intro n' hadm hn' hx
      have hkept := h.keeps_role hpeace hadm hn' (hx ▸ h.term) (Or.inl hx)
      exact ⟨hkept.1.trans (hx ▸ h.role), hkept.2⟩
  refine ⟨h.reach.tail (a := x) ⟨hstep, ?_⟩, (hleads i rfl).1, (hleads i rfl).2, hnewest⟩
  intro j hj
  have hle := hnewest j
  rw [hj] at hle
  unfold maxTerm at hmax hle
  grind

/-- `j` follows in term `T`. -/
def Follows (j : Member peers) (T : UInt64) (c : Cluster peers) : Prop :=
  (c j).fsm.role = .follower ∧ (c j).fsm.term = T

theorem Leads.follows_step (h : Leads i T c) (hstep : c.step x = some c')
    (hpeace : Peaceful i c x c') (hj : Follows j T c) : Follows j T c' := by
  obtain ⟨hadm, n', hn', rfl⟩ := step_eq_some hstep
  unfold Follows
  by_cases hx : j = x.1
  · subst hx
    have hkept := h.keeps_role hpeace hadm hn' hj.2 (Or.inr hj.1)
    rw [Function.update_self]
    exact ⟨hkept.1.trans hj.1, hkept.2⟩
  · rw [Function.update_of_ne hx]
    exact hj

/-- **A heartbeat of the newest term makes a follower** of every other server that is open. -/
theorem Leads.follows_heartbeat (h : Leads i T c) (hne : j ≠ i)
    (hblocked : (c j).fsm.blocked = false) {id : UInt64} {cb : Callbacks}
    (hstep : c.step (j, .deliver (.appendEntriesReq id T) cb) = some c') : Follows j T c' := by
  obtain ⟨-, n', hn', rfl⟩ := step_eq_some hstep
  rw [Follows, Function.update_self]
  cases Node.step_change_any hn' with
  | delivered e cb s' hhandle hmoves =>
      refine handle_heartbeat (s := (c j).fsm.emit _) hblocked (h.newest j) ?_ hhandle
      intro hrole hterm
      -- There is one leader in term `T`.
      exact hne (election_safety h.reach.unrestrict (System.Run.refl c) (L := T)
        (Or.inl ⟨hrole, hterm⟩) (Or.inl ⟨h.role, h.term⟩))

theorem Leads.run (h : Leads i T c)
    (hrun : ((clusterSystem peers).restrict (Peaceful i)).Run c c') : Leads i T c' :=
  hrun.invariant (fun _ _ _ hc hmove => hc.step hmove.1 hmove.2) h

theorem Leads.follows_run (h : Leads i T c) (hj : Follows j T c)
    (hrun : ((clusterSystem peers).restrict (Peaceful i)).Run c c') : Follows j T c' := by
  have hboth : Leads i T c' ∧ Follows j T c' := by
    refine hrun.invariant (I := fun c => Leads i T c ∧ Follows j T c) ?_ ⟨h, hj⟩
    intro c₁ x c₂ hc₁ hmove
    exact ⟨hc₁.1.step hmove.1 hmove.2, hc₁.1.follows_step hmove.1 hmove.2 hc₁.2⟩
  exact hboth.2

end Peace

/-- In some peaceful run from `c` to `c'`, `j` was open when a heartbeat of `i` in term `T` was
delivered to it. -/
def Heard (i : Member peers) (T : UInt64) (j : Member peers) (c c' : Cluster peers) : Prop :=
  ∃ c₁ c₂ cb, ((clusterSystem peers).restrict (Peaceful i)).Run c c₁ ∧
    (c₁ j).fsm.blocked = false ∧
    c₁.step (j, .deliver (.appendEntriesReq i.1 T) cb) = some c₂ ∧
    ((clusterSystem peers).restrict (Peaceful i)).Run c₂ c'

/-- **A healed cluster follows its newest leader.**  From every reachable state in which `i`
leads and no term is newer, in every peaceful run, whatever old messages arrive in whatever
order, `i` stays leader in its term, and every server that is open when a heartbeat of `i` in
that term reaches it is a follower in that term from then on. -/
theorem follows_newest (h : ((clusterSystem peers).restrict TermsBelowMax).Reachable c)
    (hrole : (c i).fsm.role = .leader) (hnewest : ∀ j, (c j).fsm.term ≤ (c i).fsm.term)
    (hrun : ((clusterSystem peers).restrict (Peaceful i)).Run c c') :
    ((c' i).fsm.role = .leader ∧ (c' i).fsm.term = (c i).fsm.term) ∧
      ∀ j ≠ i, Heard i (c i).fsm.term j c c' →
        (c' j).fsm.role = .follower ∧ (c' j).fsm.term = (c i).fsm.term := by
  have hleads : Leads i (c i).fsm.term c := ⟨h, hrole, rfl, hnewest⟩
  have hend := hleads.run hrun
  refine ⟨⟨hend.role, hend.term⟩, ?_⟩
  intro j hj hheard
  obtain ⟨c₁, c₂, cb, hrun₁, hopen, hstep, hrun₂⟩ := hheard
  have hleads₁ := hleads.run hrun₁
  have hpeace : Peaceful i c₁ (j, .deliver (.appendEntriesReq i.1 (c i).fsm.term) cb) c₂ :=
    fun _ => id
  exact (hleads₁.step hstep hpeace).follows_run (hleads₁.follows_heartbeat hj hopen hstep) hrun₂

instance (i : Member peers) (c : Cluster peers) : ∀ x c', Decidable (Peaceful i c x c')
  | (k, .timeout _), _ => inferInstanceAs (Decidable ((c k).fsm.blocked = true ∨ _ = _))
  | (k, .deliver e _), _ =>
      inferInstanceAs (Decidable ((c k).fsm.blocked = false → ¬ WinningVote k.actor (c k).fsm e))
  | (k, .api call _), _ => inferInstanceAs (Decidable (k = i → call = .unblock))
  | (_, .expire), _ | (_, .beat), _ | (_, .sendHeartbeat), _ => isTrue trivial

/-- Server 3 has stood in vain while server 1 was elected.  It hears a heartbeat and follows,
while its old requests and their answers still arrive. -/
theorem follows_newest_of_three : ∃ c c' : Cluster threeServers,
    (c ThreeServers.one).fsm.role = .leader ∧ (c ThreeServers.three).fsm.role = .candidate ∧
      (c' ThreeServers.one).fsm.role = .leader ∧ (c' ThreeServers.three).fsm.role = .follower ∧
        (c' ThreeServers.three).fsm.term = (c ThreeServers.one).fsm.term := by
  obtain ⟨c, hc, hone, hterm, hthree, hnewest, hruns⟩ := System.Reachable.of_execute (fun _ => {})
    Cluster.step TermsBelowMax
    (timesOut ThreeServers.one ++ canvasses ThreeServers.one 1 [ThreeServers.two] ++
      timesOut ThreeServers.three)
    (fun c => (c ThreeServers.one).fsm.role = .leader ∧ (c ThreeServers.one).fsm.term = 2 ∧
      (c ThreeServers.three).fsm.role = .candidate ∧
      (∀ j, (c j).fsm.term ≤ (c ThreeServers.one).fsm.term) ∧
      (System.execute Cluster.step (fun c x c' => decide (Peaceful ThreeServers.one c x c')) c
        [(ThreeServers.one, .beat), (ThreeServers.one, .sendHeartbeat),
          (ThreeServers.one, .sendHeartbeat)]).any fun c₁ =>
        !(c₁ ThreeServers.three).fsm.blocked &&
          (c₁.step (ThreeServers.three, .deliver (.appendEntriesReq 1 2) {})).any fun c₂ =>
            (System.execute Cluster.step
              (fun c x c' => decide (Peaceful ThreeServers.one c x c')) c₂
              [(ThreeServers.one, .deliver (.requestVoteReq 3 1) {}),
                (ThreeServers.three, .deliver (.requestVoteRes 1 2 false) {}),
                (ThreeServers.three, .deliver (.requestVoteReq 1 1) {})]).isSome)
    (by decide +kernel)
  simp only [Option.any_eq_true, Bool.and_eq_true, Bool.not_eq_true',
    Option.isSome_iff_exists] at hruns
  obtain ⟨c₁, hrun₁, hopen, c₂, hstep, c', hrun₂⟩ := hruns
  have hheard : Heard ThreeServers.one (c ThreeServers.one).fsm.term ThreeServers.three c c' := by
    rw [hterm]
    exact ⟨c₁, c₂, {}, System.Run.of_execute _ hrun₁, hopen, hstep, System.Run.of_execute _ hrun₂⟩
  have hpeace : ((clusterSystem threeServers).restrict (Peaceful ThreeServers.one)).Run c c' :=
    ((System.Run.of_execute _ hrun₁).tail ⟨hstep, fun _ => id⟩).trans
      (System.Run.of_execute _ hrun₂)
  obtain ⟨⟨hleads, -⟩, hfollows⟩ := follows_newest hc hone hnewest hpeace
  obtain ⟨hrole, hsame⟩ := hfollows ThreeServers.three (by decide) hheard
  exact ⟨c, c', hone, hthree, hleads, hrole, hsame⟩

end Cluster

end Raft
