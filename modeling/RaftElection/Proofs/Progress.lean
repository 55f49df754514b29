/-
Whatever has happened, an election can be won.

Election safety would hold of a cluster that never has a leader.  This is the other
half of its purpose: no reachable state is a dead end.  Whichever majority can still
talk to one another, any of its servers whose election timer runs can be the next
leader, and the servers outside the majority need not move (`can_be_elected`).

The run is the one the protocol is meant to take.  The server first learns the newest
term of the majority, by standing below it and being refused (`exists_run_newest`).  It
then stands once more, in a term in which none of the majority has voted, and collects
the votes one after another (`Canvass`).
-/
import Mathlib.Data.Finset.Max
import RaftElection.Proofs.Blocking
import RaftElection.Proofs.Candidates
import RaftElection.Proofs.Delivery

namespace Raft

/-- No callback calls `block`. -/
def Callbacks.NeverBlock (cb : Callbacks) : Prop :=
  ∀ calls, cb.onBecomeLeader = some calls ∨ cb.onSignOffLeader = some calls → .block ∉ calls

/-- The callback of a new leader does not give the leadership up. -/
def Callbacks.Keeps (cb : Callbacks) : Prop :=
  ∀ calls, cb.onBecomeLeader = some calls → .stayFollower ∉ calls

namespace RaftFSM

open Transition

variable {a : Actor} {cb : Callbacks} {s s' : RaftFSM}

/-! ### Live timers -/

theorem live_start_stop {t : Option Timer} (h : Timer.Live t) :
    Timer.Live (Timer.start (Timer.stop t)) := by
  obtain ⟨task, rfl, -, hcancelled⟩ := h
  exact ⟨task.pause.resume, rfl, rfl, hcancelled⟩

theorem live_start {t : Option Timer} (h : Timer.Live t) : Timer.Live (Timer.start t) := by
  obtain ⟨task, rfl, -, hcancelled⟩ := h
  exact ⟨task.resume, rfl, rfl, hcancelled⟩

/-- A live election timer survives the end of a role. -/
theorem leave_live (h : Timer.Live s.electionTimeoutTask) :
    Timer.Live (leave s).electionTimeoutTask := by
  unfold leave convertToFollower clearPrevState
  cases hrole : s.role with
  | follower => exact h
  | candidate => exact live_start_stop h
  | leader => exact live_start h

theorem candidacy_live (h : Timer.Live s.electionTimeoutTask) :
    Timer.Live (candidacy a s).electionTimeoutTask := by
  rw [candidacy_eq]
  unfold clearPrevState
  cases hrole : s.role with
  | follower => exact live_start h
  | candidate => exact live_start_stop h
  | leader => exact live_start h

/-! ### Staying open -/

theorem call_open (f : RaftFSM → RaftFSM) (hf : ∀ s, s.blocked = false → (f s).blocked = false)
    {c : ApiCall} (hc : c ≠ .block) (h : s.blocked = false) : (call f s c).blocked = false := by
  cases c with
  | block => exact absurd rfl hc
  | unblock => rfl
  | stayFollower =>
      show (convertToFollower f s).blocked = false
      rw [convertToFollower_eq]
      split
      · exact hf _ ((leave_blocked s).trans h)
      · exact (leave_blocked s).trans h

theorem calls_open (f : RaftFSM → RaftFSM) (hf : ∀ s, s.blocked = false → (f s).blocked = false)
    {calls : List ApiCall} (hcalls : .block ∉ calls) (h : s.blocked = false) :
    (calls.foldl (call f) s).blocked = false := by
  refine calls.foldlRecOn (motive := fun s : RaftFSM => s.blocked = false) _ h ?_
  intro s hs c hc
  exact call_open f hf (fun heq => hcalls (heq ▸ hc)) hs

theorem signOff_open (hcb : cb.NeverBlock) (h : s.blocked = false) :
    (signOff cb s).blocked = false := by
  unfold signOff
  split
  · exact h
  · rename_i calls hcalls
    exact calls_open id (fun _ hs => hs) (hcb calls (Or.inr hcalls)) h

/-- An adopted term does not block the node. -/
theorem adoptTerm_open (hcb : cb.NeverBlock) (t : UInt64) (h : s.blocked = false) :
    (adoptTerm cb s t).blocked = false := by
  unfold adoptTerm
  split
  · rw [convertToFollower_eq]
    split
    · exact signOff_open hcb ((leave_blocked _).trans h)
    · exact (leave_blocked _).trans h
  · exact h

theorem becomeLeader_open (hcb : cb.NeverBlock) (h : s.blocked = false) :
    (becomeLeader cb s).blocked = false := by
  unfold becomeLeader
  split
  · exact h
  · rename_i calls hcalls
    exact calls_open _ (fun _ hs => signOff_open hcb hs) (hcb calls (Or.inl hcalls)) h

/-! ### The messages of an election -/

/-- **A request of a newer term is granted.** -/
theorem handle_newer_request (hcb : cb.NeverBlock) (htask : HasTask s)
    (hblocked : s.blocked = false) (hcurrent : VotesCurrent s) {id t : UInt64} (hlt : s.term < t)
    (hmem : id ∈ a.peers.ids) :
    ∃ s', handle a cb s (.net (.requestVoteReq id t)) = .ok s' ∧ s'.blocked = false ∧
      s'.term = t ∧ .sent id (.requestVoteRes a.self t true) ∈ s'.trace := by
  have hquiet := adoptTerm_quiet cb hlt
  have hterm : (adoptTerm cb s t).term = t := hquiet.term.trans (leave_term _)
  have hvoter : (adoptTerm cb s t).voter = s.voter := hquiet.voter.trans (leave_voter _)
  have hgrants : grants (adoptTerm cb s t) id t = true := by
    rw [grants, hterm, if_neg (UInt64.lt_irrefl t), hvoter, Voter.voteForLeader_eq_true_iff]
    have hle := hcurrent.record_le
    grind
  have hhandle : handle a cb s (.net (.requestVoteReq id t))
      = handleRequestVote a (adoptTerm cb s t) id t := by
    rw [handle_eq, if_neg (by simp [hblocked])]
    rfl
  have hserves := votedOn_serves (adoptTerm cb s t) id t
  refine ⟨_, hhandle.trans (handleRequestVote_eq (htask.adoptTerm cb t) hmem t), ?_, ?_, ?_⟩
  · exact hserves.blocked.trans (adoptTerm_open hcb t hblocked)
  · exact hserves.term.trans hterm
  · rw [emit_trace, hgrants, hterm]
    exact List.mem_cons_self

/-- A granted vote of its own term makes a candidate leader, or joins the votes. -/
theorem handle_granted (cb : Callbacks) (hblocked : s.blocked = false) (hrole : s.role = .candidate)
    (id : UInt64) (o : Entry) :
    handle a cb (s.emit o) (.net (.requestVoteRes id s.term true)) = .ok (
      if a.majority ≤ (insert id s.votedPeers).card then becomeLeader cb (enterLeader (s.emit o))
      else { s.emit o with votedPeers := insert id s.votedPeers }) := by
  refine (handle_vote (s := s.emit o) hblocked hrole id true).trans ?_
  rw [if_pos rfl]
  rfl

/-- **A refusal of a newer term ends a candidacy**, and leaves the timer running. -/
theorem handle_newer_refusal (cb : Callbacks) (id : UInt64) (hblocked : s.blocked = false)
    (hrole : s.role ≠ .leader) {t : UInt64} (hlt : s.term < t) (granted : Bool) :
    handle a cb s (.net (.requestVoteRes id t granted)) = .ok (leave { s with term := t }) := by
  have hadopt : adoptTerm cb s t = leave { s with term := t } := by
    unfold adoptTerm
    rw [if_pos hlt, convertToFollower_eq, if_neg (by exact hrole)]
  rw [handle_eq, if_neg (by simp [hblocked])]
  show Except.ok (handleRequestVoteResponse a cb (adoptTerm cb s t) id t granted) = _
  rw [hadopt, handleRequestVoteResponse, leave_term, if_neg (UInt64.lt_irrefl t),
    if_neg (by simp)]

end RaftFSM

namespace Cluster

open Transition RaftFSM

variable {peers : PeerMap} {c c' : Cluster peers} {Q : Finset (Member peers)}
  {cb : Member peers → Callbacks} {i j : Member peers} {B : Nat}

/-! ### Every node has its election task -/

theorem hasTask_move {a : Actor} {P : UInt64 → UInt64 → Prop} {s s' : RaftFSM}
    (hm : Move a P s s') (h : HasTask s) : HasTask s' := by
  cases hm with
  | callback | setBlocked | refuse | acknowledge | vote | count => exact h
  | pause => exact h.pause
  | adopt t hlt => exact HasTask.leave (s := { s with term := t }) h
  | leave => exact h.leave
  | reset => exact rfl
  | lead =>
      show (s.electionTimeoutTask.map Timer.pause).isSome = true
      rw [Option.isSome_map]
      exact h

theorem hasTask_of_reachable (h : (clusterSystem peers).Reachable c) (i : Member peers) :
    HasTask (c i).fsm := by
  refine h.invariant (I := fun c => ∀ i, HasTask (c i).fsm) ?_ ?_ i
  · intro c₀ hinit i
    subst hinit
    rfl
  · intro c x c' _ hc hstep
    refine forall_step (p := fun _ n => HasTask n.fsm) hstep hc ?_
    intro n' _ hn'
    refine (Node.step_change_any hn').invariant (fun _ _ hm hs => hasTask_move hm hs)
      (fun _ _ hs => hs) ?_ (fun _ _ hs => hs) (hc x.1)
    intro _ _ _
    rw [HasTask, candidacy_eq]
    exact RaftFSM.Timer.isSome_start _

theorem term_ne_maxTerm (h : ((clusterSystem peers).restrict TermsBelowMax).Reachable c) :
    ∀ i, (c i).fsm.term ≠ maxTerm := by
  refine h.invariant (I := fun c => ∀ i, (c i).fsm.term ≠ maxTerm) ?_ ?_
  · intro c₀ hinit i
    subst hinit
    exact started_term_ne_maxTerm
  · intro _ _ _ _ _ hmove
    exact hmove.2

/-- Terms do not fall, as long as none reaches the largest value. -/
theorem terms_mono (h : ((clusterSystem peers).restrict TermsBelowMax).Reachable c)
    (hrun : ((clusterSystem peers).restrict TermsBelowMax).Run c c') (j : Member peers) :
    (c j).fsm.term ≤ (c' j).fsm.term := by
  have hboth : ∀ j, (c j).fsm.term ≤ (c' j).fsm.term ∧ (c' j).fsm.term ≠ maxTerm := by
    refine hrun.invariant
      (I := fun c' => ∀ j, (c j).fsm.term ≤ (c' j).fsm.term ∧ (c' j).fsm.term ≠ maxTerm) ?_
      (fun j => ⟨UInt64.le_refl _, term_ne_maxTerm h j⟩)
    intro c₁ x c₂ hc₁ hmove j
    obtain ⟨hstep, hbelow⟩ := hmove
    refine ⟨UInt64.le_trans (hc₁ j).1 ?_, hbelow j⟩
    refine forall_step (p := fun j n => (c₁ j).fsm.term ≤ n.fsm.term) hstep
      (fun j => UInt64.le_refl _) ?_ j
    intro n' _ hn'
    refine (Node.term_le_step_iff hn').mpr ?_
    have hne := (hc₁ x.1).2
    generalize x.2 = act
    cases act with
    | deliver | timeout => exact fun hwraps => hne hwraps.2.2
    | expire | beat | sendHeartbeat | api => exact id
  exact (hboth j).1

/-- A heartbeat loop that is under way has a peer to send to. -/
theorem pc_ne_beating_nil (h : (clusterSystem peers).Reachable c) (i : Member peers) :
    (c i).pc ≠ .beating [] := by
  have hloop : ∀ rest, SchedulerPc.loop rest ≠ .beating [] := by
    intro rest
    cases rest <;> simp [SchedulerPc.loop]
  refine h.invariant (I := fun c => ∀ i, (c i).pc ≠ .beating []) ?_ ?_ i
  · intro c₀ hinit i
    subst hinit
    exact SchedulerPc.noConfusion
  · intro c x c' _ hc hstep
    refine forall_step (p := fun _ n => n.pc ≠ .beating []) hstep hc ?_
    intro n' _ hn'
    have hchange := Node.step_change_any hn'
    generalize x.2 = act at hchange
    cases hchange with
    | delivered | called => exact hc x.1
    | expired | ignored | stood => simp
    | began => exact hloop _
    | sent peer rest => exact hloop rest

/-! ### Runs of a majority

The runs that are built take steps of servers in `Q` only, so what the others do plays no part.
`B` bounds the terms, so that the term of the new leader is known to fit.
-/

/-- Only servers in `Q` move, by themselves and with callbacks of their own, no term runs
over, and only `i` wins, at a moment when its scheduler thread is free. -/
structure Among (Q : Finset (Member peers)) (i : Member peers) (cb : Member peers → Callbacks)
    (c : Cluster peers) (x : Member peers × NodeAction) (c' : Cluster peers) : Prop where
  mem : x.1 ∈ Q
  own : x.2.Own (cb x.1)
  below : TermsBelowMax c x c'
  winner : ∀ e cb', x.2 = .deliver e cb' → WinningVote x.1.actor (c x.1).fsm e →
    x.1 = i ∧ (c i).pc = .idle

/-- The servers in `Q` are open to messages and in term `B` at most. -/
structure Open (Q : Finset (Member peers)) (B : Nat) (c : Cluster peers) : Prop where
  reach : ((clusterSystem peers).restrict TermsBelowMax).Reachable c
  blocked : ∀ j ∈ Q, (c j).fsm.blocked = false
  bound : ∀ j ∈ Q, (c j).fsm.term.toNat ≤ B

theorem ne_maxTerm_of_toNat {t : UInt64} (h : t.toNat + 1 < 2 ^ 64) : t ≠ maxTerm := by
  rintro rfl
  exact absurd h (by decide)

/-- One server of `Q` moves. -/
theorem Open.act (i : Member peers) (cb : Member peers → Callbacks) (act : NodeAction) (B' : Nat)
    (h : Open Q B c) (hj : j ∈ Q) (hown : act.Own (cb j)) (hadm : Admissible c j act)
    (hwinner : ∀ e cb', act = .deliver e cb' → WinningVote j.actor (c j).fsm e →
      j = i ∧ (c i).pc = .idle)
    {n' : Node} (hstep : (c j).step j.actor act = some n') (hle : B ≤ B') (hB' : B' + 1 < 2 ^ 64)
    (hblocked : n'.fsm.blocked = false) (hterm : n'.fsm.term.toNat ≤ B') :
    ((clusterSystem peers).restrict (Among Q i cb)).Run c (Function.update c j n') ∧
      Open Q B' (Function.update c j n') := by
  have hbelow : TermsBelowMax c (j, act) (Function.update c j n') := by
    intro k
    by_cases hk : k = j
    · subst hk
      rw [Function.update_self]
      exact ne_maxTerm_of_toNat (by omega)
    · rw [Function.update_of_ne hk]
      exact term_ne_maxTerm h.reach k
  have hmove : c.step (j, act) = some (Function.update c j n') := by
    unfold Cluster.step
    rw [if_pos hadm, hstep]
    rfl
  have hrun : ((clusterSystem peers).restrict (Among Q i cb)).Run c (Function.update c j n') :=
    (System.Run.refl c).tail (a := (j, act)) ⟨hmove, hj, hown, hbelow, hwinner⟩
  refine ⟨hrun, ?_, ?_, ?_⟩
  · exact h.reach.run (hrun.weaken fun _ _ _ hok => hok.below)
  · intro k hk
    by_cases hkj : k = j
    · subst hkj
      rwa [Function.update_self]
    · rw [Function.update_of_ne hkj]
      exact h.blocked k hk
  · intro k hk
    by_cases hkj : k = j
    · subst hkj
      rwa [Function.update_self]
    · rw [Function.update_of_ne hkj]
      exact (h.bound k hk).trans hle

/-- Server `i` waits for its election timer, and its scheduler thread is free. -/
structure Waits (c : Cluster peers) (i : Member peers) : Prop where
  idle : (c i).pc = .idle
  role : (c i).fsm.role ≠ .leader
  live : Timer.Live (c i).fsm.electionTimeoutTask

theorem toNat_add_one {t : UInt64} (h : t.toNat + 1 < 2 ^ 64) : (t + 1).toNat = t.toNat + 1 := by
  rw [UInt64.toNat_add]
  exact Nat.mod_eq_of_lt h

/-- An election timeout that has passed its test starts a candidacy. -/
theorem timeout_eq {a : Actor} {n : Node} (cb : Callbacks) (hpc : n.pc = .timingOut)
    (hblocked : n.fsm.blocked = false) (hrole : n.fsm.role ≠ .leader) :
    n.step a (.timeout cb) = some { fsm := candidacy a n.fsm, pc := .idle } := by
  simp [Node.step, hpc, handle_timeout_eq, hblocked, hrole]

/-- **The scheduler thread of `i` comes to its end**, which may be one more candidacy. -/
theorem exists_run_waits (cb : Member peers → Callbacks) (h : Open Q B c) (hB : B + 2 < 2 ^ 64)
    (hi : i ∈ Q) (hrole : (c i).fsm.role ≠ .leader)
    (hlive : Timer.Live (c i).fsm.electionTimeoutTask) :
    ∃ c', ((clusterSystem peers).restrict (Among Q i cb)).Run c c' ∧ Open Q (B + 1) c' ∧
      Waits c' i := by
  have hbeats : ∀ (rest : List UInt64) (c : Cluster peers), Open Q B c → (c i).pc = .loop rest →
      (c i).fsm.role ≠ .leader → Timer.Live (c i).fsm.electionTimeoutTask →
      ∃ c', ((clusterSystem peers).restrict (Among Q i cb)).Run c c' ∧ Open Q (B + 1) c' ∧
        Waits c' i := by
    intro rest
    induction rest with
    | nil =>
        intro c h hpc hrole hlive
        exact ⟨c, System.Run.refl c, ⟨h.reach, h.blocked, fun j hj => (h.bound j hj).trans
          (Nat.le_succ B)⟩, hpc, hrole, hlive⟩
    | cons peer rest ih =>
        intro c h hpc hrole hlive
        have hstep : (c i).step i.actor .sendHeartbeat = some
            { fsm := (c i).fsm.emit (.sent peer (.appendEntriesReq i.actor.self (c i).fsm.term))
              pc := .loop rest } := by
          have hbeating : (c i).pc = .beating (peer :: rest) := hpc
          simp [Node.step, hbeating]
        obtain ⟨hrun, hopen⟩ := h.act i cb .sendHeartbeat B hi trivial trivial (by simp) hstep
          (le_refl B) (by omega) (h.blocked i hi) (h.bound i hi)
        obtain ⟨c', hrun', hrest⟩ := ih _ hopen (by rw [Function.update_self])
          (by rw [Function.update_self]; exact hrole) (by rw [Function.update_self]; exact hlive)
        exact ⟨c', hrun.trans hrun', hrest⟩
  cases hpc : (c i).pc with
  | idle => exact hbeats [] c h hpc hrole hlive
  | beating rest =>
      cases rest with
      | nil => exact absurd hpc (pc_ne_beating_nil h.reach.unrestrict i)
      | cons peer rest => exact hbeats (peer :: rest) c h hpc hrole hlive
  | timingOut =>
      have hstep := timeout_eq (a := i.actor) (cb i) hpc (h.blocked i hi) hrole
      have hbound := h.bound i hi
      obtain ⟨hrun, hopen⟩ := h.act i cb (.timeout (cb i)) (B + 1) hi rfl trivial (by simp) hstep
        (Nat.le_succ B) (by omega) (by simpa [candidacy_blocked] using h.blocked i hi) (by
          rw [candidacy_term, toNat_add_one (by omega)]
          omega)
      refine ⟨_, hrun, hopen, ?_, ?_, ?_⟩
      · rw [Function.update_self]
      · rw [Function.update_self]
        simp
      · rw [Function.update_self]
        exact candidacy_live hlive

/-- Server `i` after its election timer has fired. -/
def stood (c : Cluster peers) (i : Member peers) : Cluster peers :=
  Function.update c i { fsm := candidacy i.actor (c i).fsm, pc := .idle }

@[simp] theorem stood_self (c : Cluster peers) (i : Member peers) :
    stood c i i = { fsm := candidacy i.actor (c i).fsm, pc := .idle } := Function.update_self ..

theorem stood_of_ne (hne : j ≠ i) : stood c i j = c j := Function.update_of_ne hne ..

/-- **Server `i` stands for election.** -/
theorem exists_run_stood (cb : Member peers → Callbacks) (B' : Nat) (h : Open Q B c)
    (hle : B ≤ B') (hB' : B' + 1 < 2 ^ 64) (hi : i ∈ Q) (hwaits : Waits c i)
    (hterm : (c i).fsm.term.toNat + 1 ≤ B') :
    ((clusterSystem peers).restrict (Among Q i cb)).Run c (stood c i) ∧ Open Q B' (stood c i) := by
  have hexpire : (c i).step i.actor .expire = some { c i with pc := .timingOut } := by
    simp [Node.step, hwaits.idle, hwaits.live]
  obtain ⟨hrun, hopen⟩ := h.act i cb .expire B hi trivial trivial (by simp) hexpire (le_refl B)
    (by omega) (h.blocked i hi) (h.bound i hi)
  have htimeout : (Function.update c i { c i with pc := .timingOut } i).step i.actor
      (.timeout (cb i)) = some { fsm := candidacy i.actor (c i).fsm, pc := .idle } := by
    rw [Function.update_self]
    exact timeout_eq (cb i) rfl (h.blocked i hi) hwaits.role
  obtain ⟨hrun', hopen'⟩ := hopen.act i cb (.timeout (cb i)) B' hi rfl trivial (by simp)
    htimeout hle hB' (by simpa [candidacy_blocked] using h.blocked i hi) (by
      rw [candidacy_term, toNat_add_one (by omega)]
      exact hterm)
  rw [Function.update_idem] at hrun' hopen'
  exact ⟨hrun.trans hrun', hopen'⟩

theorem Waits.stood (hwaits : Waits c i) : Waits (stood c i) i where
  idle := by rw [stood_self]
  role := by simp
  live := by
    rw [stood_self]
    exact candidacy_live hwaits.live

/-- A candidate has asked each of its peers. -/
theorem sent_candidacy {a : Actor} (s : RaftFSM) {peer : UInt64} (hpeer : peer ∈ a.peers.ids)
    (hne : peer ≠ a.self) :
    .sent peer (.requestVoteReq a.self (s.term + 1)) ∈ (candidacy a s).trace := by
  rw [candidacy_trace, List.mem_append, mem_candidacyEntries]
  refine Or.inl (Or.inl ⟨peer, ?_, rfl⟩)
  simp [Actor.getPeers, hpeer, hne]

/-! ### The newest term

The server that is to win may be behind the others.  Then it stands, is refused by one that is in
the newest term, and learns the term from the refusal.  After that no member is ahead of it.
-/

/-- A message in flight is handled. -/
theorem Open.deliver (i : Member peers) (B' : Nat) (h : Open Q B c) (hj : j ∈ Q) {e : NetEvent}
    (hflight : InFlight c j e) {s' : RaftFSM}
    (hhandle : handle j.actor (cb j) ((c j).fsm.emit (.received e)) (.net e) = .ok s')
    (hwinner : WinningVote j.actor (c j).fsm e → j = i ∧ (c i).pc = .idle) (hle : B ≤ B')
    (hB' : B' + 1 < 2 ^ 64) (hblocked : s'.blocked = false) (hterm : s'.term.toNat ≤ B') :
    ((clusterSystem peers).restrict (Among Q i cb)).Run c
        (Function.update c j { c j with fsm := s' }) ∧
      Open Q B' (Function.update c j { c j with fsm := s' }) :=
  h.act i cb (.deliver e (cb j)) B' hj rfl hflight (by simpa using hwinner)
    (by simp only [Node.step, hhandle]) hle hB' hblocked hterm

/-- **One exchange.**  Server `j` is asked by `i`, and `i` hears the answer. -/
theorem exists_run_exchange (B' : Nat) (h : Open Q B c) (hi : i ∈ Q) (hj : j ∈ Q) (hne : j ≠ i)
    {request answer : NetEvent} (hrequest : request.isRequest = true)
    (hidle : WinningVote i.actor (c i).fsm answer → (c i).pc = .idle)
    (hsent : .sent j.1 request ∈ (c i).fsm.trace)
    {sj : RaftFSM} (hasked : handle j.actor (cb j) ((c j).fsm.emit (.received request))
      (.net request) = .ok sj)
    (hanswer : .sent i.1 answer ∈ sj.trace)
    {si : RaftFSM} (hheard : handle i.actor (cb i) ((c i).fsm.emit (.received answer))
      (.net answer) = .ok si)
    (hle : B ≤ B') (hB' : B' + 1 < 2 ^ 64) (hblocked : sj.blocked = false ∧ si.blocked = false)
    (hterm : sj.term.toNat ≤ B ∧ si.term.toNat ≤ B') :
    ∃ c', ((clusterSystem peers).restrict (Among Q i cb)).Run c c' ∧ Open Q B' c' ∧
      c' i = { c i with fsm := si } ∧ c' j = { c j with fsm := sj } ∧
      ∀ k, k ≠ i → k ≠ j → c' k = c k := by
  have hno : ¬ WinningVote j.actor (c j).fsm request := by
    cases request with
    | requestVoteReq | appendEntriesReq => exact id
    | requestVoteRes | appendEntriesRes => cases hrequest
  obtain ⟨hrun, hopen⟩ := h.deliver i B hj ⟨i, hsent⟩ hasked (fun hwin => absurd hwin hno)
    (le_refl B) (by omega) hblocked.1 hterm.1
  have hself : Function.update c j { c j with fsm := sj } i = c i :=
    Function.update_of_ne (Ne.symm hne) ..
  have hflight : InFlight (Function.update c j { c j with fsm := sj }) i answer := by
    refine ⟨j, ?_⟩
    rw [Function.update_self]
    exact hanswer
  obtain ⟨hrun', hopen'⟩ := hopen.deliver i B' hi hflight (by rwa [hself])
    (by rw [hself]; exact fun hwin => ⟨rfl, hidle hwin⟩) hle hB' hblocked.2 hterm.2
  refine ⟨_, hrun.trans hrun', hopen', ?_, ?_, ?_⟩
  · rw [Function.update_self, hself]
  · rw [Function.update_of_ne hne, Function.update_self]
  · intro k hki hkj
    rw [Function.update_of_ne hki, Function.update_of_ne hkj]

/-- **Server `i` catches up with the newest term of the majority.**  It stands below that
term, is refused by a server that is in it, and learns the term from the refusal. -/
theorem exists_run_newest (cb : Member peers → Callbacks) (h : Open Q B c) (hB : B + 1 < 2 ^ 64)
    (hi : i ∈ Q) (hwaits : Waits c i) :
    ∃ c', ((clusterSystem peers).restrict (Among Q i cb)).Run c c' ∧ Open Q B c' ∧ Waits c' i ∧
      ∀ j ∈ Q, (c' j).fsm.term ≤ (c' i).fsm.term := by
  obtain ⟨m, hm, hnewest⟩ := Finset.exists_max_image Q (fun j => (c j).fsm.term.toNat) ⟨i, hi⟩
  by_cases hahead : (c m).fsm.term.toNat ≤ (c i).fsm.term.toNat
  · refine ⟨c, System.Run.refl c, h, hwaits, ?_⟩
    intro j hj
    exact UInt64.le_iff_toNat_le.mpr ((hnewest j hj).trans hahead)
  have hmi : m ≠ i := by
    rintro rfl
    exact hahead (le_refl _)
  have hmB := h.bound m hm
  obtain ⟨hrun₁, hopen₁⟩ := exists_run_stood cb B h (le_refl B) hB hi hwaits (by omega)
  have hterm₁ : (stood c i i).fsm.term.toNat = (c i).fsm.term.toNat + 1 := by
    rw [stood_self, candidacy_term, toNat_add_one (by omega)]
  have hm₁ : stood c i m = c m := stood_of_ne hmi
  by_cases hlast : (c m).fsm.term.toNat ≤ (c i).fsm.term.toNat + 1
  · refine ⟨stood c i, hrun₁, hopen₁, hwaits.stood, ?_⟩
    intro j hj
    rw [UInt64.le_iff_toNat_le, hterm₁]
    by_cases hji : j = i
    · rw [hji, hterm₁]
    · rw [stood_of_ne hji]
      exact (hnewest j hj).trans hlast
  -- `m` refuses, and its refusal carries the newest term
  have hsent : .sent m.1 (.requestVoteReq i.1 ((c i).fsm.term + 1)) ∈ (stood c i i).fsm.trace := by
    rw [stood_self]
    exact sent_candidacy (a := i.actor) _ m.2 (fun heq => hmi (Subtype.ext heq))
  have hstale : (c i).fsm.term + 1 < (c m).fsm.term := by
    rw [UInt64.lt_iff_toNat_lt, toNat_add_one (by omega)]
    omega
  have hlost : ¬ WinningVote i.actor (stood c i i).fsm
      (.requestVoteRes m.1 (c m).fsm.term false) := id
  have hrefused := handle_stale (a := m.actor) (e := .requestVoteReq i.1 ((c i).fsm.term + 1))
    (s := (c m).fsm.emit (.received (.requestVoteReq i.1 ((c i).fsm.term + 1)))) (cb m)
    (h.blocked m hm) i.2 hstale
  rw [← hm₁] at hrefused
  have hlearnt := handle_newer_refusal (a := i.actor) (t := (c m).fsm.term)
    (s := (stood c i i).fsm.emit (.received (.requestVoteRes m.1 (c m).fsm.term false))) (cb i) m.1
    (hopen₁.blocked i hi) hwaits.stood.role
    (by rw [UInt64.lt_iff_toNat_lt, emit_term, hterm₁]; omega) false
  obtain ⟨c', hrun', hopen', hci, hcm, hrest⟩ := exists_run_exchange B hopen₁ hi hm hmi rfl
    (fun hwin => absurd hwin hlost) hsent
    hrefused (by rw [hm₁]; exact List.mem_cons_self) hlearnt (le_refl B) hB
    ⟨hopen₁.blocked m hm, by rw [leave_blocked]; exact hopen₁.blocked i hi⟩
    ⟨hopen₁.bound m hm, by rw [leave_term]; exact hmB⟩
  refine ⟨c', hrun₁.trans hrun', hopen', ⟨?_, ?_, ?_⟩, ?_⟩
  · rw [hci]
    exact hwaits.stood.idle
  · rw [hci, leave_role]
    decide
  · rw [hci]
    exact leave_live hwaits.stood.live
  · have hci_term : (c' i).fsm.term = (c m).fsm.term := by
      rw [hci, leave_term]
    intro j hj
    rw [UInt64.le_iff_toNat_le, hci_term]
    by_cases hji : j = i
    · rw [hji, hci_term]
    by_cases hjm : j = m
    · rw [hjm, hcm]
      show (stood c i m).fsm.term.toNat ≤ _
      rw [hm₁]
    · rw [hrest j hji hjm, stood_of_ne hji]
      exact hnewest j hj

/-! ### The canvass

Now it stands in a term newer than any member's and asks them one by one.  Each grants its vote,
and it wins at the reply that makes the majority.
-/

/-- Server `i` stands in term `t`, has the votes of some, and has asked those that are left
in `rest`, who are behind. -/
structure Canvass (Q : Finset (Member peers)) (B : Nat) (i : Member peers) (t : UInt64)
    (rest : List (Member peers)) (c : Cluster peers) : Prop where
  ready : Open Q B c
  idle : (c i).pc = .idle
  role : (c i).fsm.role = .candidate
  term : (c i).fsm.term = t
  nodup : rest.Nodup
  sub : ∀ j ∈ rest, j ∈ Q ∧ j ≠ i
  asked : ∀ j ∈ rest, .sent j.1 (.requestVoteReq i.1 t) ∈ (c i).fsm.trace
  behind : ∀ j ∈ rest, (c j).fsm.term < t
  uncounted : ∀ j ∈ rest, j.1 ∉ (c i).fsm.votedPeers
  short : (c i).fsm.votedPeers.card < i.actor.majority
  enough : i.actor.majority ≤ (c i).fsm.votedPeers.card + rest.length

/-- Server `i` wins, and its callback runs. -/
def Won (cb : Callbacks) (i : Member peers) (t : UInt64) (c : Cluster peers) (c' : Cluster peers) :
    Prop :=
  ∃ s, (c' i).fsm = becomeLeader cb (enterLeader s) ∧ s.term = t ∧ (c' i).pc = (c i).pc

theorem Canvass.exists_run_won (hcb : ∀ j, (cb j).NeverBlock) (hi : i ∈ Q) (hB : B + 2 < 2 ^ 64)
    {t : UInt64} :
    ∀ (rest : List (Member peers)) (c : Cluster peers), Canvass Q B i t rest c →
      ∃ c', ((clusterSystem peers).restrict (Among Q i cb)).Run c c' ∧ Open Q (B + 1) c' ∧
        Won (cb i) i t c c' := by
  intro rest
  induction rest with
  | nil =>
      intro c h
      have henough := h.enough
      rw [List.length_nil, Nat.add_zero] at henough
      exact absurd henough (Nat.not_le.mpr h.short)
  | cons j rest ih =>
      intro c h
      obtain ⟨hj, hne⟩ := h.sub j List.mem_cons_self
      have hcurrent := votesCurrent_of_reachable h.ready.reach j
      obtain ⟨sj, hasked, hblockedj, htermj, hgranted⟩ := handle_newer_request (a := j.actor)
        (s := (c j).fsm.emit (.received (.requestVoteReq i.1 t))) (hcb j)
        (hasTask_of_reachable h.ready.reach.unrestrict j) (h.ready.blocked j hj)
        ⟨hcurrent.record_le, hcurrent.electable⟩ (h.behind j List.mem_cons_self) i.2
      have hti := h.term
      subst hti
      have hcounted := handle_granted (a := i.actor) (cb i) (h.ready.blocked i hi) h.role j.1
        (.received (.requestVoteRes j.1 (c i).fsm.term true))
      have hbound := h.ready.bound i hi
      by_cases hmaj : i.actor.majority ≤ (insert j.1 (c i).fsm.votedPeers).card
      · -- the vote that wins
        rw [if_pos hmaj] at hcounted
        obtain ⟨c', hrun, hopen, hci, -, -⟩ := exists_run_exchange (B + 1) h.ready hi hj hne
          rfl (fun _ => h.idle) (h.asked j List.mem_cons_self) hasked hgranted hcounted
          (Nat.le_succ B) (by omega)
          ⟨hblockedj, becomeLeader_open (hcb i) (h.ready.blocked i hi)⟩
          ⟨htermj ▸ hbound, by
            rw [(callable_aside.becomeLeader (cb i) _).term]
            exact (toNat_add_one_le _).trans (Nat.succ_le_succ hbound)⟩
        refine ⟨c', hrun, hopen,
          (c i).fsm.emit (.received (.requestVoteRes j.1 (c i).fsm.term true)), ?_, rfl, ?_⟩
        · rw [hci]
        · rw [hci]
      · rw [if_neg hmaj] at hcounted
        obtain ⟨c', hrun, hopen, hci, -, hrest⟩ := exists_run_exchange B h.ready hi hj hne
          rfl (fun _ => h.idle) (h.asked j List.mem_cons_self) hasked hgranted hcounted
          (le_refl B) (by omega)
          ⟨hblockedj, h.ready.blocked i hi⟩ ⟨htermj ▸ hbound, hbound⟩
        have hstay : ∀ k ∈ rest, c' k = c k := by
          intro k hk
          refine hrest k (h.sub k (List.mem_cons_of_mem j hk)).2 ?_
          rintro rfl
          exact (List.nodup_cons.mp h.nodup).1 hk
        have hfresh := h.uncounted j List.mem_cons_self
        have hcanvass : Canvass Q B i (c i).fsm.term rest c' := by
          constructor
          case ready => exact hopen
          case idle => rw [hci]; exact h.idle
          case role => rw [hci]; exact h.role
          case term => rw [hci]; rfl
          case nodup => exact (List.nodup_cons.mp h.nodup).2
          case sub => exact fun k hk => h.sub k (List.mem_cons_of_mem j hk)
          case asked =>
            intro k hk
            rw [hci]
            exact List.mem_cons_of_mem _ (h.asked k (List.mem_cons_of_mem j hk))
          case behind =>
            intro k hk
            rw [hstay k hk]
            exact h.behind k (List.mem_cons_of_mem j hk)
          case uncounted =>
            intro k hk
            rw [hci]
            refine Finset.mem_insert.not.mpr ?_
            rintro (heq | hmem)
            · exact (List.nodup_cons.mp h.nodup).1 (Subtype.ext heq ▸ hk)
            · exact h.uncounted k (List.mem_cons_of_mem j hk) hmem
          case short => rw [hci]; exact Nat.not_le.mp hmaj
          case enough =>
            have henough := h.enough
            rw [List.length_cons] at henough
            rw [hci]
            show _ ≤ (insert j.1 (c i).fsm.votedPeers).card + _
            rw [Finset.card_insert_of_notMem hfresh]
            omega
        obtain ⟨c'', hrun', hopen', s, hled, hterm, hpc⟩ := ih c' hcanvass
        refine ⟨c'', hrun.trans hrun', hopen', s, hled, hterm, hpc.trans ?_⟩
        rw [hci]

/-! ### The whole election -/

/-- From a waiting server on, whose term is as new as any in the majority. -/
theorem exists_run_won (hcb : ∀ j, (cb j).NeverBlock) (hsize : 2 ≤ peers.size)
    (hQ : peers.size / 2 + 1 ≤ Q.card) (hi : i ∈ Q) (h : Open Q B c) (hB : B + 3 < 2 ^ 64)
    (hwaits : Waits c i) (hnewest : ∀ j ∈ Q, (c j).fsm.term ≤ (c i).fsm.term) :
    ∃ c', ((clusterSystem peers).restrict (Among Q i cb)).Run c c' ∧ Open Q (B + 2) c' ∧
      ∃ s, (c' i).fsm = becomeLeader (cb i) (enterLeader s) ∧ s.term = (c i).fsm.term + 1 ∧
        (c' i).pc = .idle := by
  have hbound := h.bound i hi
  obtain ⟨hrun, hopen⟩ := exists_run_stood cb (B + 1) h (Nat.le_succ B) (by omega) hi
    hwaits (Nat.succ_le_succ hbound)
  have hsound := sound_of_reachable h.reach.unrestrict
  have hvotes : (stood c i i).fsm.votedPeers = {i.1} := by
    rw [stood_self, candidacy_votedPeers (hsound.backed i).clear hwaits.role, if_pos]
    · rfl
    · rw [Voter.voteForLeader_eq_true_iff]
      have hle := (votesCurrent_of_reachable h.reach i).record_le
      have hne := term_ne_maxTerm h.reach i
      unfold maxTerm at hne
      grind
  have hcanvass : Canvass Q (B + 1) i ((c i).fsm.term + 1) (Q.erase i).toList (stood c i) := by
    have hmem : ∀ j ∈ (Q.erase i).toList, j ∈ Q ∧ j ≠ i := by
      intro j hj
      rw [Finset.mem_toList, Finset.mem_erase] at hj
      exact ⟨hj.2, hj.1⟩
    constructor
    case ready => exact hopen
    case idle => rw [stood_self]
    case role => simp
    case term => simp
    case nodup => exact Finset.nodup_toList _
    case sub => exact hmem
    case asked =>
      intro j hj
      rw [stood_self]
      exact sent_candidacy (a := i.actor) _ j.2 (fun heq => (hmem j hj).2 (Subtype.ext heq))
    case behind =>
      intro j hj
      rw [stood_of_ne (hmem j hj).2, UInt64.lt_iff_toNat_lt, toNat_add_one (by omega)]
      exact Nat.lt_succ_of_le (UInt64.le_iff_toNat_le.mp (hnewest j (hmem j hj).1))
    case uncounted =>
      intro j hj
      rw [hvotes, Finset.mem_singleton]
      exact fun heq => (hmem j hj).2 (Subtype.ext heq)
    case short =>
      rw [hvotes, Finset.card_singleton]
      show 1 < peers.size / 2 + 1
      omega
    case enough =>
      rw [hvotes, Finset.card_singleton, Finset.length_toList, Finset.card_erase_of_mem hi]
      show peers.size / 2 + 1 ≤ _
      omega
  obtain ⟨c', hrun', hopen', s, hled, hterm, hpc⟩ :=
    hcanvass.exists_run_won hcb hi (by omega)
  refine ⟨c', hrun.trans hrun', hopen', s, hled, hterm, hpc.trans ?_⟩
  rw [stood_self]

/-- **The election as a whole**, from wherever the majority is. -/
theorem exists_run_elected (cb : Member peers → Callbacks) (hcb : ∀ j, (cb j).NeverBlock)
    (hsize : 2 ≤ peers.size) (hQ : peers.size / 2 + 1 ≤ Q.card) (hi : i ∈ Q) (h : Open Q B c)
    (hB : B + 4 < 2 ^ 64) (hrole : (c i).fsm.role ≠ .leader)
    (hlive : Timer.Live (c i).fsm.electionTimeoutTask) :
    ∃ c', ((clusterSystem peers).restrict (Among Q i cb)).Run c c' ∧ Open Q (B + 3) c' ∧
      (c' i).pc = .idle ∧ ∃ s, (c' i).fsm = becomeLeader (cb i) (enterLeader s) ∧
        ∀ j ∈ Q, (c j).fsm.term < (enterLeader s).term := by
  have hbelow : ∀ {c c'}, ((clusterSystem peers).restrict (Among Q i cb)).Run c c' →
      ((clusterSystem peers).restrict TermsBelowMax).Run c c' :=
    fun hrun => hrun.weaken fun _ _ _ hok => hok.below
  obtain ⟨c₁, hrun₁, hopen₁, hwaits₁⟩ := exists_run_waits cb h (by omega) hi hrole hlive
  obtain ⟨c₂, hrun₂, hopen₂, hwaits₂, hnewest⟩ := exists_run_newest cb hopen₁ (by omega) hi
    hwaits₁
  obtain ⟨c₃, hrun₃, hopen₃, s, hled, hterm, hpc⟩ := exists_run_won hcb hsize hQ hi hopen₂
    (by omega) hwaits₂ hnewest
  refine ⟨c₃, (hrun₁.trans hrun₂).trans hrun₃, hopen₃, hpc, s, hled, ?_⟩
  intro j hj
  have hle := UInt64.le_trans (terms_mono h.reach (hbelow (hrun₁.trans hrun₂)) j) (hnewest j hj)
  have hbound := hopen₂.bound i hi
  have hnext := toNat_add_one (t := (c₂ i).fsm.term) (by omega)
  show (c j).fsm.term < s.term + 1
  rw [UInt64.le_iff_toNat_le] at hle
  rw [UInt64.lt_iff_toNat_lt, hterm, toNat_add_one (by omega), hnext]
  omega

/-- A leadership is on record, whatever the callback does with it. -/
theorem becameLeader_mem (cb : Callbacks) (s : RaftFSM) :
    .becameLeader (becomeLeader cb (enterLeader s)).term
      ∈ (becomeLeader cb (enterLeader s)).trace := by
  have haside := callable_aside.becomeLeader cb (enterLeader s)
  obtain ⟨new, htrace, -⟩ := haside.trace
  rw [haside.term, htrace]
  exact List.mem_append_right _ List.mem_cons_self

/-- A callback that only unblocks leaves the role alone. -/
theorem calls_role {f : RaftFSM → RaftFSM} :
    ∀ (calls : List ApiCall) (s : RaftFSM), .block ∉ calls → .stayFollower ∉ calls →
      (calls.foldl (call f) s).role = s.role := by
  intro calls
  induction calls with
  | nil => intro s _ _; rfl
  | cons c rest ih =>
      intro s hblock hstay
      have hrest := ih (call f s c) (fun hmem => hblock (List.mem_cons_of_mem c hmem))
        (fun hmem => hstay (List.mem_cons_of_mem c hmem))
      cases c with
      | block => exact absurd List.mem_cons_self hblock
      | stayFollower => exact absurd List.mem_cons_self hstay
      | unblock => exact hrest

theorem becomeLeader_role {cb : Callbacks} (hcb : cb.NeverBlock) (hkeeps : cb.Keeps)
    (s : RaftFSM) : (becomeLeader cb s).role = s.role := by
  unfold becomeLeader
  split
  · rfl
  · rename_i calls hcalls
    exact calls_role calls _ (hcb calls (Or.inl hcalls)) (hkeeps calls hcalls)

/-- **Every open majority can elect any of its servers.**  From every reachable state, if
the servers of a majority are not blocked and the election timer of one of them runs, that
server is made leader, in a term newer than any in the majority, by a run in which nobody
outside the majority moves, nobody calls the API and nobody else wins.  Where its callback
does not give the leadership up, it is leader then. -/
theorem can_be_elected (cb : Member peers → Callbacks) (hcb : ∀ j, (cb j).NeverBlock)
    (hsize : 2 ≤ peers.size) (h : ((clusterSystem peers).restrict TermsBelowMax).Reachable c)
    (hQ : peers.size / 2 + 1 ≤ Q.card) (hi : i ∈ Q) (hopen : ∀ j ∈ Q, (c j).fsm.blocked = false)
    (hroom : ∀ j ∈ Q, (c j).fsm.term.toNat + 4 < 2 ^ 64) (hrole : (c i).fsm.role ≠ .leader)
    (hlive : Timer.Live (c i).fsm.electionTimeoutTask) :
    ∃ c' L, ((clusterSystem peers).restrict (Among Q i cb)).Run c c' ∧ HasLed c' i L ∧
      (∀ j ∈ Q, (c j).fsm.term < L) ∧
      ((cb i).Keeps → (c' i).fsm.role = .leader ∧ (c' i).fsm.term = L) := by
  obtain ⟨m, hm, hmax⟩ := Finset.exists_max_image Q (fun j => (c j).fsm.term.toNat) ⟨i, hi⟩
  obtain ⟨c', hrun, -, -, s, hled, hnewer⟩ := exists_run_elected cb hcb hsize hQ hi
    ⟨h, hopen, hmax⟩ (hroom m hm) hrole hlive
  have hterm : (becomeLeader (cb i) (enterLeader s)).term = (enterLeader s).term :=
    (callable_aside.becomeLeader (cb i) (enterLeader s)).term
  refine ⟨c', (c' i).fsm.term, hrun, Or.inr ?_, ?_, ?_⟩
  · rw [hled]
    exact becameLeader_mem (cb i) s
  · intro j hj
    rw [hled, hterm]
    exact hnewer j hj
  · intro hkeeps
    refine ⟨?_, rfl⟩
    rw [hled, becomeLeader_role (hcb i) hkeeps]
    rfl

/-- Server 1 of five has led and is blocked, server 2 does not answer, and server 3 has
stood in vain until term 4: the three that are left can elect server 5. -/
theorem can_be_elected_of_five :
    ∃ (c c' : Cluster fiveServers) (L : UInt64), (c FiveServers.one).fsm.blocked = true ∧
      (c FiveServers.three).fsm.term = 4 ∧ 4 < L ∧
      (c' FiveServers.five).fsm.role = .leader ∧ (c' FiveServers.five).fsm.term = L := by
  obtain ⟨c, hc, hone, hthree, hlive, hrole, hroom, hopen⟩ :=
    System.Reachable.of_execute (fun _ => {}) Cluster.step TermsBelowMax
      (timesOut FiveServers.one ++
        canvasses FiveServers.one 1 [FiveServers.two, FiveServers.four] ++
        [(FiveServers.one, .api .block {})] ++ timesOut FiveServers.three ++
        timesOut FiveServers.three ++ timesOut FiveServers.three ++ timesOut FiveServers.three)
      (fun c => (c FiveServers.one).fsm.blocked = true ∧ (c FiveServers.three).fsm.term = 4 ∧
        Timer.Live (c FiveServers.five).fsm.electionTimeoutTask ∧
        (c FiveServers.five).fsm.role ≠ .leader ∧
        (∀ j, (c j).fsm.term.toNat + 4 < 2 ^ 64) ∧
        ∀ j ≠ FiveServers.one, (c j).fsm.blocked = false)
      (by decide +kernel)
  obtain ⟨c', L, -, -, hnewer, hleads⟩ := can_be_elected
    (Q := {FiveServers.three, FiveServers.four, FiveServers.five}) (i := FiveServers.five)
    (fun _ => { onBecomeLeader := some [] }) (by simp [Callbacks.NeverBlock]) (by decide) hc
    (by decide) (by decide)
    (by
      intro j hj
      refine hopen j ?_
      rintro rfl
      revert hj
      decide)
    (fun j _ => hroom j) hrole hlive
  have hthree' := hnewer FiveServers.three (by decide)
  rw [hthree] at hthree'
  exact ⟨c, c', L, hone, hthree, hthree', hleads (by simp [Callbacks.Keeps])⟩

end Cluster

end Raft
