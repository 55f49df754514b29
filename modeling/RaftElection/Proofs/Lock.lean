/-
Leadership as a distributed lock.

The example program takes leadership for a lock: a server has the lock when it is
elected, and its callback gives it back with `stay_follower`.  That call stops the
server's timers for good, so a server that has had the lock does not compete for it
again, and the next election is between the others.

A step here is a whole call of `handle` with the callbacks it invokes, or a whole call of the
API, and nobody waits for a mutex.  An election timeout is the exception: it passes the test of
its task in one step and enters `handle` in another.  If a vote wins the lock in between, the
timeout finds a follower, makes it a candidate and resumes its timer, and the server may have
the lock again (`acquired_twice`).  In runs without this coincidence everybody gets the lock at
most once (`lock_once`), and from every state of such a run the servers that have not had it can
get it in any order (`lock_in_order`).

The threads of the code do not get as far as `acquired_twice`: a timeout that has passed its
test holds `Scheduler::mtx`, and the first election a server wins schedules its heartbeat and
waits for that mutex.  Where the code does let a timeout through is inside what is one step
here.  A winning vote resumes the election timer, in `convert_to_follower`, before
`pause_scheduled_tasks` stops it, and a `reset` makes a new task live before it pauses it again.
A timeout that passes its test in such a window makes a candidate of a server that has had the
lock.
-/
import RaftElection.Proofs.Informed
import RaftElection.Proofs.Progress

namespace Raft

open Transition

namespace RaftFSM

variable {a : Actor} {e : NetEvent} {s s' s₁ s₂ s₃ : RaftFSM}

/-! ### A server that does not win -/

/-- Nothing has happened that the lock can see. -/
structure Bystands (s s' : RaftFSM) : Prop where
  blocked : s'.blocked = s.blocked
  callbacks : s'.callbacks = s.callbacks
  raises : raises s'.trace = raises s.trace
  role : s.role ≠ .leader → s'.role ≠ .leader
  live : Timer.Live s.electionTimeoutTask → Timer.Live s'.electionTimeoutTask
  parked : Parked s → Parked s'

theorem Bystands.refl (s : RaftFSM) : Bystands s s := ⟨rfl, rfl, rfl, id, id, id⟩

theorem Bystands.trans (h : Bystands s₁ s₂) (h' : Bystands s₂ s₃) : Bystands s₁ s₃ where
  blocked := h'.blocked.trans h.blocked
  callbacks := h'.callbacks.trans h.callbacks
  raises := h'.raises.trans h.raises
  role hs := h'.role (h.role hs)
  live hs := h'.live (h.live hs)
  parked hs := h'.parked (h.parked hs)

theorem Bystands.leave (s : RaftFSM) : Bystands s (leave s) where
  blocked := leave_blocked s
  callbacks := congrArg (List.filter Entry.isCallback) (leave_trace s)
  raises := by rw [leave_trace]
  role _ := by simp
  live := leave_live
  parked h := by rwa [leave_of_follower h.role]

/-- The role and the election timer are as they were, and so is the trace. -/
theorem Bystands.of_eq (hblocked : s'.blocked = s.blocked) (hrole : s'.role = s.role)
    (htask : s'.electionTimeoutTask = s.electionTimeoutTask) (htrace : s'.trace = s.trace) :
    Bystands s s' where
  blocked := hblocked
  callbacks := congrArg (List.filter Entry.isCallback) htrace
  raises := by rw [htrace]
  role := by rw [hrole]; exact id
  live := by rw [htask]; exact id
  parked h := ⟨hrole.trans h.role, by rw [htask]; exact h.paused⟩

/-- A message is sent or noted. -/
theorem Bystands.emit (s : RaftFSM) {o : Entry} (hcallback : o.isCallback = false)
    (hraises : o.raisesTerm = false) : Bystands s (s.emit o) where
  blocked := rfl
  callbacks := List.filter_cons_of_neg (by simp [hcallback])
  raises := List.countP_cons_of_neg (by simp [hraises])
  role := id
  live := id
  parked h := ⟨h.role, h.paused⟩

theorem Timer.live_map_reset {t : Option Timer} :
    Timer.Live (t.map Timer.reset) ↔ Timer.Live t := by
  cases t with
  | none => rfl
  | some task => exact Timer.live_reset

/-- The election timer is put off. -/
theorem Bystands.reset (s : RaftFSM) :
    Bystands s { s with electionTimeoutTask := s.electionTimeoutTask.map Timer.reset } where
  blocked := rfl
  callbacks := rfl
  raises := rfl
  role := id
  live := Timer.live_map_reset.mpr
  parked h := ⟨h.role, fun hlive => h.paused (Timer.live_map_reset.mp hlive)⟩

theorem Bystands.adoptTerm (hrole : s.role ≠ .leader) (t : UInt64) :
    Bystands s (adoptTerm lockCallbacks s t) := by
  unfold RaftFSM.adoptTerm
  split
  · rw [convertToFollower_eq, if_neg (by exact hrole)]
    have hterm : Bystands s { s with term := t } := .of_eq rfl rfl rfl rfl
    exact hterm.trans (.leave _)
  · exact .refl s

theorem Bystands.votedOn (s : RaftFSM) (id t : UInt64) : Bystands s (votedOn s id t) := by
  unfold RaftFSM.votedOn
  split
  · exact .refl s
  · by_cases hrole : s.role = .follower
    · simp only [if_pos hrole]
      exact (Bystands.reset s).trans (.of_eq rfl rfl rfl rfl)
    · simp only [if_neg hrole]
      exact .of_eq rfl rfl rfl rfl

theorem Bystands.heard (s : RaftFSM) (t : UInt64) : Bystands s (heard s t) := by
  unfold RaftFSM.heard
  split
  · exact .refl s
  · exact (Bystands.reset s).trans (.leave _)

theorem Bystands.response {cb : Callbacks} {id t : UInt64} {granted : Bool}
    (hlost : ¬ WinningVote a s (.requestVoteRes id t granted)) (hle : t ≤ s.term) :
    Bystands s (handleRequestVoteResponse a cb s id t granted) := by
  unfold handleRequestVoteResponse
  split
  · exact .refl s
  · rename_i hstale
    split
    · rename_i hcounts
      have hterm : t = s.term := UInt64.le_antisymm hle (UInt64.not_lt.mp hstale)
      have hminor : ¬ a.majority ≤ (insert id s.votedPeers).card := fun hmaj =>
        hlost (winningVote_iff.mpr ⟨hcounts.2, hcounts.1, hterm, hmaj⟩)
      simp only [if_neg hminor]
      exact .of_eq rfl rfl rfl rfl
    · exact .refl s

theorem candidacy_callbacks (a : Actor) (s : RaftFSM) :
    (candidacy a s).callbacks = s.callbacks := by
  have hnew : (candidacyEntries a s).filter Entry.isCallback = [] := by
    rw [List.filter_eq_nil_iff]
    intro o ho
    rw [mem_candidacyEntries] at ho
    rcases ho with ⟨peer, -, rfl⟩ | ⟨-, rfl⟩ | rfl <;> simp [Entry.isCallback]
  rw [callbacks, candidacy_trace, List.filter_append, hnew]
  rfl

/-! ### A server that wins -/

theorem lockCallbacks_neverBlock : lockCallbacks.NeverBlock := by
  intro calls hcalls
  rcases hcalls with hcalls | hcalls
  · obtain rfl := Option.some.inj hcalls
    decide
  · obtain rfl := Option.some.inj hcalls
    decide

/-- A leader of the lock gives it back. -/
theorem becomeLeader_lock (s : RaftFSM) :
    becomeLeader lockCallbacks (enterLeader s)
      = stayFollower (signOff lockCallbacks) ((enterLeader s).emit .onBecomeLeader) := rfl

theorem becomeLeader_lock_parked (s : RaftFSM) :
    Parked (becomeLeader lockCallbacks (enterLeader s)) := by
  rw [becomeLeader_lock]
  exact Parked.stayFollower lockCallbacks _

theorem becomeLeader_lock_callbacks (s : RaftFSM) :
    (becomeLeader lockCallbacks (enterLeader s)).callbacks
      = .onSignOffLeader :: .onBecomeLeader :: s.callbacks := by
  have hleads : ((enterLeader s).emit .onBecomeLeader).role = .leader := rfl
  have hcalls : stayFollower (signOff lockCallbacks) ((enterLeader s).emit .onBecomeLeader)
      = pauseScheduledTasks
          ((leave ((enterLeader s).emit .onBecomeLeader)).emit .onSignOffLeader) := by
    unfold stayFollower
    rw [convertToFollower_eq, if_pos hleads]
    rfl
  rw [becomeLeader_lock, hcalls]
  show (Entry.onSignOffLeader :: (leave _).trace).filter Entry.isCallback = _
  rw [leave_trace]
  rfl

/-- **Only a winning vote is felt.** -/
theorem handle_bystands (htask : HasTask s) (hblocked : s.blocked = false)
    (hrole : s.role ≠ .leader) (hlost : ¬ WinningVote a s e)
    (h : handle a lockCallbacks s (.net e) = .ok s') : Bystands s s' := by
  have hadopt := Bystands.adoptTerm hrole e.getTerm
  have htask' := htask.adoptTerm lockCallbacks e.getTerm
  rw [handle_eq, if_neg (by simp [hblocked])] at h
  cases e with
  | requestVoteReq id t =>
      have hmem := (handleRequestVote_eq_ok h).1
      obtain rfl := Except.ok.inj ((handleRequestVote_eq htask' hmem t).symm.trans h)
      exact hadopt.trans ((Bystands.votedOn _ id t).trans (.emit _ rfl rfl))
  | appendEntriesReq id t =>
      by_cases hmem : id ∈ a.peers.ids
      · obtain rfl := Except.ok.inj ((handleAppendEntries_eq htask' hmem t).symm.trans h)
        exact hadopt.trans ((Bystands.heard _ t).trans (.emit _ rfl rfl))
      · cases (handleAppendEntries_unknown htask' hmem t).symm.trans h
  | requestVoteRes id t granted =>
      obtain rfl := Except.ok.inj h
      exact hadopt.trans (.response (fun hwin => hlost (winningVote_of_adoptTerm hwin))
        (le_adoptTerm lockCallbacks s t))
  | appendEntriesRes id t =>
      obtain rfl := Except.ok.inj h
      exact hadopt

theorem handle_winning {cb : Callbacks} (hblocked : s.blocked = false) (hwin : WinningVote a s e)
    (h : handle a cb s (.net e) = .ok s') : s' = becomeLeader cb (enterLeader s) := by
  cases e with
  | requestVoteReq | appendEntriesReq | appendEntriesRes => exact hwin.elim
  | requestVoteRes id t granted =>
      obtain ⟨rfl, hrole, rfl, hmaj⟩ := winningVote_iff.mp hwin
      rw [handle_vote hblocked hrole, if_pos rfl, if_pos hmaj] at h
      exact (Except.ok.inj h).symm

end RaftFSM

namespace Node

open RaftFSM

variable {a : Actor} {n n' : Node} {act : NodeAction}

/-! ### One server of the lock

The invariant tells two kinds of server apart by whether they have had the lock.  Those that have
are parked, and a parked server is woken only by a timeout that was already on its way.
-/

theorem acquisitions_eq (n : Node) :
    n.acquisitions = n.fsm.callbacks.count .onBecomeLeader :=
  (List.count_filter rfl).symm

theorem releases_eq (n : Node) : n.releases = n.fsm.callbacks.count .onSignOffLeader :=
  (List.count_filter rfl).symm

/-- A server that has not had the lock competes for it, and one that has had it, once,
does not and will not. -/
structure Bidder (n : Node) : Prop where
  blocked : n.fsm.blocked = false
  role : n.fsm.role ≠ .leader
  competes : n.acquisitions = 0 → Timer.Live n.fsm.electionTimeoutTask
  retired : 0 < n.acquisitions → Parked n.fsm ∧ n.pc ≠ .timingOut
  once : n.acquisitions ≤ 1
  released : n.releases = n.acquisitions

theorem Bidder.started : Bidder {} :=
  ⟨rfl, by decide, fun _ => by decide, fun hc => absurd hc (by decide), by decide, by decide⟩

theorem Bidder.bystands (h : Bidder n) (hpc : n'.pc = .timingOut → n.pc = .timingOut)
    (hsame : Bystands n.fsm n'.fsm) : Bidder n' := by
  have hacquisitions : n'.acquisitions = n.acquisitions := by
    rw [acquisitions_eq, acquisitions_eq, hsame.callbacks]
  have hreleases : n'.releases = n.releases := by
    rw [releases_eq, releases_eq, hsame.callbacks]
  constructor
  case blocked => exact hsame.blocked.trans h.blocked
  case role => exact hsame.role h.role
  case competes => exact fun hnone => hsame.live (h.competes (hacquisitions.symm.trans hnone))
  case retired =>
    intro hsome
    obtain ⟨hparked, hne⟩ := h.retired (by rwa [← hacquisitions])
    exact ⟨hsame.parked hparked, fun hc => hne (hpc hc)⟩
  case once => rw [hacquisitions]; exact h.once
  case released => rw [hacquisitions, hreleases]; exact h.released

/-- What is delivered is no winning vote while an election timeout is on its way. -/
def Timely (a : Actor) (n : Node) : NodeAction → Prop
  | .deliver e _ => n.pc = .timingOut → ¬ WinningVote a n.fsm e
  | _ => True

instance (a : Actor) (n : Node) (act : NodeAction) : Decidable (Timely a n act) :=
  match act with
  | .deliver e _ => inferInstanceAs (Decidable (_ → ¬ WinningVote a n.fsm e))
  | .expire | .timeout _ | .beat | .sendHeartbeat | .api _ _ => isTrue trivial

/-- A candidate has not had the lock. -/
theorem Bidder.acquisitions_eq_zero (h : Bidder n)
    (hactive : n.fsm.role = .candidate ∨ n.pc = .timingOut) : n.acquisitions = 0 := by
  by_contra hne
  obtain ⟨hparked, hpc⟩ := h.retired (Nat.pos_of_ne_zero hne)
  rcases hactive with hrole | hout
  · exact absurd (hparked.role.symm.trans hrole) (by decide)
  · exact hpc hout

/-- The lock is had for the first time, and given back. -/
theorem Bidder.wins {s : RaftFSM} (h : Bidder n) (hrole : n.fsm.role = .candidate)
    (hpc : n.pc ≠ .timingOut) (hblocked : s.blocked = n.fsm.blocked)
    (hcallbacks : s.callbacks = n.fsm.callbacks) :
    Bidder { n with fsm := becomeLeader lockCallbacks (enterLeader s) } := by
  have hnone := h.acquisitions_eq_zero (Or.inl hrole)
  have hreleased := h.released
  have hparked := becomeLeader_lock_parked s
  have hafter := becomeLeader_lock_callbacks s
  rw [hcallbacks] at hafter
  have hacquired :
      ({ n with fsm := becomeLeader lockCallbacks (enterLeader s) } : Node).acquisitions = 1 := by
    rw [acquisitions_eq, hafter]
    rw [acquisitions_eq] at hnone
    simpa using hnone
  constructor
  case blocked => exact becomeLeader_open lockCallbacks_neverBlock (hblocked.trans h.blocked)
  case role => exact fun hc => absurd (hparked.role.symm.trans hc) (by decide)
  case competes => exact fun hc => absurd (hacquired.symm.trans hc) (by decide)
  case retired => exact fun _ => ⟨hparked, hpc⟩
  case once => exact hacquired.le
  case released =>
    rw [hacquired, releases_eq, hafter]
    rw [hnone, releases_eq] at hreleased
    simpa using hreleased

theorem Bidder.stands (h : Bidder n) (hpc : n.pc = .timingOut) :
    Bidder { fsm := candidacy a n.fsm, pc := .idle } := by
  have hnone := h.acquisitions_eq_zero (Or.inr hpc)
  have hcallbacks := candidacy_callbacks a n.fsm
  have hacquisitions : ({ fsm := candidacy a n.fsm, pc := .idle } : Node).acquisitions = 0 := by
    rw [acquisitions_eq, hcallbacks, ← acquisitions_eq]
    exact hnone
  constructor
  case blocked => exact (candidacy_blocked a n.fsm).trans h.blocked
  case role => simp
  case competes => exact fun _ => candidacy_live (h.competes hnone)
  case retired => exact fun hsome => absurd hacquisitions (Nat.pos_iff_ne_zero.mp hsome)
  case once => rw [hacquisitions]; exact Nat.zero_le 1
  case released =>
    rw [hacquisitions, releases_eq, hcallbacks, ← releases_eq, h.released]
    exact hnone

/-- What a step of a server of the lock can be. -/
inductive Bid (a : Actor) (n : Node) (act : NodeAction) : Node → Prop
  | bystands (n' : Node) (hpc : n'.pc = .timingOut → n.pc = .timingOut)
      (hsame : Bystands n.fsm n'.fsm) : Bid a n act n'
  | expired (hlive : Timer.Live n.fsm.electionTimeoutTask) : Bid a n act { n with pc := .timingOut }
  | stood (hpc : n.pc = .timingOut) : Bid a n act { fsm := candidacy a n.fsm, pc := .idle }
  | won (e : NetEvent) (s : RaftFSM) (hact : act = .deliver e lockCallbacks)
      (hwin : WinningVote a n.fsm e) (hrole : n.fsm.role = .candidate) (hpc : n.pc ≠ .timingOut)
      (hblocked : s.blocked = n.fsm.blocked) (hcallbacks : s.callbacks = n.fsm.callbacks) :
      Bid a n act { n with fsm := becomeLeader lockCallbacks (enterLeader s) }

theorem Bidder.bid (h : Bidder n) (htask : HasTask n.fsm) (hown : act.Own lockCallbacks)
    (htimely : Timely a n act) (hstep : n.step a act = some n') : Bid a n act n' := by
  cases step_change_any hstep with
  | delivered e cb s' hhandle hmoves =>
      obtain rfl : cb = lockCallbacks := hown
      have hreceived : Bystands n.fsm (n.fsm.emit (.received e)) := .emit _ rfl rfl
      by_cases hwin : WinningVote a n.fsm e
      · have hrole : n.fsm.role = .candidate := by
          cases e with
          | requestVoteReq | appendEntriesReq | appendEntriesRes => exact hwin.elim
          | requestVoteRes id t granted => exact (winningVote_iff.mp hwin).2.1
        obtain rfl := handle_winning (s := n.fsm.emit (.received e)) h.blocked hwin hhandle
        exact .won e _ rfl hwin hrole (fun hpc => htimely hpc hwin) rfl hreceived.callbacks
      · exact .bystands _ id (hreceived.trans (handle_bystands (s := n.fsm.emit (.received e))
          htask h.blocked h.role hwin hhandle))
  | expired hpc hlive => exact .expired hlive
  | ignored => exact .bystands _ (by simp) (.refl _)
  | stood cb hpc => exact .stood hpc
  | began hpc hlive => exact .bystands _ (fun hc => absurd hc (loop_ne_timingOut _)) (.refl _)
  | sent peer rest hpc =>
      exact .bystands _ (fun hc => absurd hc (loop_ne_timingOut _)) (.emit _ rfl rfl)
  | called c cb => exact hown.elim

/-- **A step keeps a server of the lock what it is.** -/
theorem Bidder.step (h : Bidder n) (hbid : Bid a n act n') : Bidder n' := by
  cases hbid with
  | bystands n' hpc hsame => exact h.bystands hpc hsame
  | expired hlive =>
      constructor
      case retired => exact fun hsome => absurd hlive (h.retired hsome).1.paused
      case blocked => exact h.blocked
      case role => exact h.role
      case competes => exact h.competes
      case once => exact h.once
      case released => exact h.released
  | stood hpc => exact h.stands hpc
  | won e s hact hwin hrole hpc hblocked hcallbacks => exact h.wins hrole hpc hblocked hcallbacks

/-- Nobody gets the lock but by a winning vote. -/
theorem Bid.acquisitions_eq (hbid : Bid a n act n')
    (hlost : ∀ e cb, act = .deliver e cb → ¬ WinningVote a n.fsm e) :
    n'.acquisitions = n.acquisitions := by
  cases hbid with
  | bystands n' hpc hsame => rw [Node.acquisitions_eq, Node.acquisitions_eq, hsame.callbacks]
  | expired => rfl
  | stood => rw [Node.acquisitions_eq, Node.acquisitions_eq, candidacy_callbacks]
  | won e s hact hwin => exact absurd hwin (hlost e lockCallbacks hact)

/-- **A server that has had the lock stands for election no more.** -/
theorem Bidder.raises_eq (h : Bidder n) (hsome : 0 < n.acquisitions) (hbid : Bid a n act n') :
    raises n'.fsm.trace = raises n.fsm.trace := by
  obtain ⟨hparked, hidle⟩ := h.retired hsome
  cases hbid with
  | bystands n' hpc hsame => exact hsame.raises
  | expired => rfl
  | stood hpc => exact absurd hpc hidle
  | won e s hact hwin hrole => exact absurd (hparked.role.symm.trans hrole) (by decide)

end Node

namespace Cluster

open RaftFSM

variable {peers : PeerMap} {c c' : Cluster peers} {i : Member peers}

/-- No lock is won while an election timeout of its winner is on its way. -/
def Timely (c : Cluster peers) (x : Member peers × NodeAction) (_ : Cluster peers) : Prop :=
  Node.Timely x.1.actor (c x.1) x.2

instance (c : Cluster peers) (x : Member peers × NodeAction) (c' : Cluster peers) :
    Decidable (Timely c x c') :=
  inferInstanceAs (Decidable (Node.Timely ..))

theorem bid_of_step {x : Member peers × NodeAction} (hreach : (clusterSystem peers).Reachable c)
    (h : ∀ i, (c i).Bidder) (hstep : ((lockSystem peers).restrict Timely).step c x c') :
    ∀ i, c' i = c i ∨ x.1 = i ∧ Node.Bid i.actor (c i) x.2 (c' i) := by
  obtain ⟨⟨hmove, hown⟩, htimely⟩ := hstep
  exact forall_step (p := fun i n => n = c i ∨ x.1 = i ∧ Node.Bid i.actor (c i) x.2 n) hmove
    (fun _ => Or.inl rfl) fun n' _ hn' =>
      Or.inr ⟨rfl, (h x.1).bid (hasTask_of_reachable hreach x.1) hown htimely hn'⟩

theorem bidder_of_reachable (h : ((lockSystem peers).restrict Timely).Reachable c) :
    ∀ i, (c i).Bidder := by
  refine h.invariant (I := fun c => ∀ i, (c i).Bidder) ?_ ?_
  · intro c₀ hinit i
    subst hinit
    exact Node.Bidder.started
  · intro c x c' hreach hc hstep i
    rcases bid_of_step hreach.unrestrict.unrestrict hc hstep i with heq | ⟨-, hbid⟩
    · rw [heq]
      exact hc i
    · exact (hc i).step hbid

/-- What one has had, one has had. -/
theorem acquisitions_mono {x : Member peers × NodeAction} (hstep : c.step x = some c')
    (i : Member peers) : (c i).acquisitions ≤ (c' i).acquisitions :=
  (trace_suffix hstep i).sublist.count_le _

/-- **Everybody has the lock at most once.**  In a run in which no lock is won while an
election timeout of its winner is on its way, a server acquires the lock at most once, has
released it as often, and after that neither stands for election nor wins one. -/
theorem lock_once (h : ((lockSystem peers).restrict Timely).Reachable c) (i : Member peers) :
    (c i).acquisitions ≤ 1 ∧ (c i).releases = (c i).acquisitions ∧
      (0 < (c i).acquisitions → ∀ c', ((lockSystem peers).restrict Timely).Run c c' →
        raises (c' i).fsm.trace = raises (c i).fsm.trace) := by
  have hbidder := bidder_of_reachable h i
  refine ⟨hbidder.once, hbidder.released, ?_⟩
  intro hsome c' hrun
  have hall : ((lockSystem peers).restrict Timely).Reachable c' ∧ 0 < (c' i).acquisitions ∧
      raises (c' i).fsm.trace = raises (c i).fsm.trace := by
    refine hrun.invariant (I := fun c' => ((lockSystem peers).restrict Timely).Reachable c' ∧
      0 < (c' i).acquisitions ∧ raises (c' i).fsm.trace = raises (c i).fsm.trace) ?_ ⟨h, hsome, rfl⟩
    intro c₁ x c₂ hc₁ hstep
    obtain ⟨hreach, hsome₁, hraises⟩ := hc₁
    have hbidders := bidder_of_reachable hreach
    refine ⟨hreach.tail hstep,
      Nat.lt_of_lt_of_le hsome₁ (acquisitions_mono hstep.1.1 i), ?_⟩
    rw [← hraises]
    rcases bid_of_step hreach.unrestrict.unrestrict hbidders hstep i with heq | ⟨-, hbid⟩
    · rw [heq]
    · exact (hbidders i).raises_eq hsome₁ hbid
  exact hall.2.2

/-- Server 1 of three has had the lock, and stands for election no more. -/
theorem lock_once_of_three :
    ∃ c : Cluster threeServers, (c ThreeServers.one).acquisitions = 1 ∧
      ∀ c', ((lockSystem threeServers).restrict Timely).Run c c' →
        raises (c' ThreeServers.one).fsm.trace = 2 := by
  obtain ⟨c, hc, hacquired, hraises⟩ := System.Reachable.of_execute (fun _ => {}) Cluster.step
    (fun c x c' => x.2.Own lockCallbacks ∧ Timely c x c')
    [(ThreeServers.one, .expire), (ThreeServers.one, .timeout lockCallbacks),
      (ThreeServers.two, .deliver (.requestVoteReq 1 1) lockCallbacks),
      (ThreeServers.one, .deliver (.requestVoteRes 2 1 true) lockCallbacks)]
    (fun c => (c ThreeServers.one).acquisitions = 1 ∧
      raises (c ThreeServers.one).fsm.trace = 2) (by decide +kernel)
  have hreach : ((lockSystem threeServers).restrict Timely).Reachable c := by
    rw [lockSystem, System.restrict_restrict]
    exact hc
  refine ⟨c, hacquired, fun c' hrun => ?_⟩
  rw [(lock_once hreach ThreeServers.one).2.2 (by omega) c' hrun, hraises]

/-- The vote that makes server 1 leader comes between the test of its election task and its
timeout: server 1 stands again, and has the lock twice.  No mutex is in the way here, as
`Scheduler::mtx` would be. -/
theorem acquired_twice : ∃ c, (lockSystem threeServers).Reachable c ∧
    (c ThreeServers.one).acquisitions = 2 := by
  obtain ⟨c, hc, htwice⟩ := System.Reachable.of_execute (fun _ => {}) Cluster.step
    (fun _ x _ => x.2.Own lockCallbacks)
    [(ThreeServers.one, .expire), (ThreeServers.one, .timeout lockCallbacks),
      (ThreeServers.two, .deliver (.requestVoteReq 1 1) lockCallbacks),
      (ThreeServers.one, .expire),
      (ThreeServers.one, .deliver (.requestVoteRes 2 1 true) lockCallbacks),
      (ThreeServers.one, .timeout lockCallbacks),
      (ThreeServers.two, .deliver (.requestVoteReq 1 3) lockCallbacks),
      (ThreeServers.one, .deliver (.requestVoteRes 2 3 true) lockCallbacks)]
    (fun c => (c ThreeServers.one).acquisitions = 2) (by decide +kernel)
  exact ⟨c, hc, htwice⟩

/-! ### The order of the holders

A server that has given up the lock still votes, so the electorate does not shrink, and every
election so far has left the others as able to win as they were.
-/

/-- No lock is won while an election timeout of its winner is on its way, and no term runs
over. -/
def Regular (c : Cluster peers) (x : Member peers × NodeAction) (c' : Cluster peers) : Prop :=
  Timely c x c' ∧ TermsBelowMax c x c'

instance (c : Cluster peers) (x : Member peers × NodeAction) (c' : Cluster peers) :
    Decidable (Regular c x c') :=
  inferInstanceAs (Decidable (_ ∧ _))

theorem timely_of_among {Q : Finset (Member peers)} {x : Member peers × NodeAction}
    (h : Among Q i (fun _ => lockCallbacks) c x c') : Timely c x c' := by
  unfold Timely Node.Timely
  split
  · rename_i e cb hx
    intro hpc hwin
    obtain ⟨rfl, hidle⟩ := h.winner e cb hx hwin
    exact absurd (hidle.symm.trans hpc) (by decide)
  · trivial

/-- The election of `i` is a regular run of the lock. -/
theorem run_of_among {Q : Finset (Member peers)}
    (hrun : ((clusterSystem peers).restrict (Among Q i fun _ => lockCallbacks)).Run c c') :
    ((lockSystem peers).restrict Regular).Run c c' := by
  rw [lockSystem, System.restrict_restrict]
  exact hrun.weaken fun _ _ _ hamong => ⟨hamong.own, timely_of_among hamong, hamong.below⟩

theorem timely_of_regular (h : ((lockSystem peers).restrict Regular).Reachable c) :
    ((lockSystem peers).restrict Timely).Reachable c :=
  h.weaken fun _ _ _ hok => hok.1

theorem below_of_regular (h : ((lockSystem peers).restrict Regular).Reachable c) :
    ((clusterSystem peers).restrict TermsBelowMax).Reachable c := by
  rw [lockSystem, System.restrict_restrict] at h
  exact h.weaken fun _ _ _ hok => hok.2.2

theorem run_below (hrun : ((lockSystem peers).restrict Regular).Run c c') :
    ((clusterSystem peers).restrict TermsBelowMax).Run c c' := by
  rw [lockSystem, System.restrict_restrict] at hrun
  exact hrun.weaken fun _ _ _ hok => hok.2.2

/-- Nobody but `i` gets the lock in its election. -/
theorem acquisitions_of_among {Q : Finset (Member peers)}
    (h : ((lockSystem peers).restrict Regular).Reachable c)
    (hrun : ((clusterSystem peers).restrict (Among Q i fun _ => lockCallbacks)).Run c c')
    {j : Member peers} (hj : j ≠ i) : (c' j).acquisitions = (c j).acquisitions := by
  have hboth : ((lockSystem peers).restrict Regular).Reachable c' ∧
      (c' j).acquisitions = (c j).acquisitions := by
    refine hrun.invariant (I := fun c' => ((lockSystem peers).restrict Regular).Reachable c' ∧
      (c' j).acquisitions = (c j).acquisitions) ?_ ⟨h, rfl⟩
    intro c₁ x c₂ hc₁ hstep
    obtain ⟨hreach, hsame⟩ := hc₁
    have hmove := hstep.1
    have hamong := hstep.2
    have hregular := run_of_among ((System.Run.refl c₁).tail hstep)
    refine ⟨hreach.run hregular, Eq.trans ?_ hsame⟩
    have hbids : ∀ k, c₂ k = c₁ k ∨ x.1 = k ∧ Node.Bid k.actor (c₁ k) x.2 (c₂ k) :=
      bid_of_step hreach.unrestrict.unrestrict (bidder_of_reachable (timely_of_regular hreach))
        ⟨⟨hmove, hamong.own⟩, timely_of_among hamong⟩
    rcases hbids j with heq | ⟨rfl, hbid⟩
    · rw [heq]
    · exact hbid.acquisitions_eq fun e cb hx hwin => hj (hamong.winner e cb hx hwin).1
  exact hboth.2

/-- All servers together. -/
theorem card_univ : (Finset.univ : Finset (Member peers)).card = peers.size := by
  rw [Finset.card_univ]
  exact Fintype.card_of_subtype (p := fun i => i ∈ peers.ids) peers.members fun _ => Iff.rfl

/-- **The next holder.**  Whoever has not had the lock can have it next. -/
theorem exists_run_acquired (hsize : 2 ≤ peers.size)
    (h : ((lockSystem peers).restrict Regular).Reachable c) (hnone : (c i).acquisitions = 0)
    {B : Nat} (hB : B + 4 < 2 ^ 64) (hbound : ∀ j, (c j).fsm.term.toNat ≤ B) :
    ∃ c', ((lockSystem peers).restrict Regular).Run c c' ∧ (c' i).acquisitions = 1 ∧
      (∀ j ≠ i, (c' j).acquisitions = (c j).acquisitions) ∧
      HasLed c' i (c' i).fsm.term ∧ (∀ j, (c j).fsm.term < (c' i).fsm.term) ∧
      ∀ j, (c' j).fsm.term.toNat ≤ B + 3 := by
  have hbidder := bidder_of_reachable (timely_of_regular h)
  have hmajority : peers.size / 2 + 1 ≤ (Finset.univ : Finset (Member peers)).card := by
    rw [card_univ]
    omega
  obtain ⟨c', hrun, hopen, -, s, hled, hnewer⟩ := exists_run_elected (fun _ => lockCallbacks)
    (fun _ => lockCallbacks_neverBlock) hsize hmajority (Finset.mem_univ i)
    ⟨below_of_regular h, fun j _ => (hbidder j).blocked, fun j _ => hbound j⟩ hB
    (hbidder i).role ((hbidder i).competes hnone)
  have hregular := run_of_among hrun
  have hterm : (c' i).fsm.term = (enterLeader s).term := by
    rw [hled]
    exact (callable_aside.becomeLeader lockCallbacks _).term
  refine ⟨c', hregular, ?_, fun j hj => acquisitions_of_among h hrun hj, ?_, ?_, ?_⟩
  · refine Nat.le_antisymm (bidder_of_reachable (timely_of_regular (h.run hregular)) i).once ?_
    rw [Node.acquisitions_eq, hled, becomeLeader_lock_callbacks]
    simp
  · refine Or.inr ?_
    rw [hled]
    exact becameLeader_mem lockCallbacks s
  · intro j
    rw [hterm]
    exact hnewer j (Finset.mem_univ j)
  · exact fun j => hopen.bound j (Finset.mem_univ j)

/-- **The lock can be had in any order.**  From every state of a regular run, the servers of
any list that have not had the lock can have it in the order of the list, in terms that
rise along it and are newer than any before, while nobody else gets it. -/
theorem lock_in_order (hsize : 2 ≤ peers.size) :
    ∀ (l : List (Member peers)) {c : Cluster peers},
      ((lockSystem peers).restrict Regular).Reachable c → l.Nodup →
      (∀ i ∈ l, (c i).acquisitions = 0) →
      (∀ j, (c j).fsm.term.toNat + 3 * l.length + 1 < 2 ^ 64) →
      ∃ (c' : Cluster peers) (L : Member peers → UInt64),
        ((lockSystem peers).restrict Regular).Run c c' ∧
        (∀ i ∈ l, (c' i).acquisitions = 1 ∧ HasLed c' i (L i) ∧ ∀ j, (c j).fsm.term < L i) ∧
        (∀ i ∉ l, (c' i).acquisitions = (c i).acquisitions) ∧
        l.Pairwise fun i j => L i < L j := by
  intro l
  induction l with
  | nil =>
      intro c h _ _ _
      exact ⟨c, fun _ => 0, System.Run.refl c, by simp, fun _ _ => rfl, List.Pairwise.nil⟩
  | cons i l ih =>
      intro c h hnodup hnone hroom
      obtain ⟨hi, hnodup⟩ := List.nodup_cons.mp hnodup
      obtain ⟨m, -, hmax⟩ := Finset.exists_max_image Finset.univ
        (fun j : Member peers => (c j).fsm.term.toNat) ⟨i, Finset.mem_univ i⟩
      have hB := hroom m
      rw [List.length_cons] at hB
      obtain ⟨c₁, hrun₁, hone, hothers, hled, hnewer, hbound⟩ := exists_run_acquired hsize h
        (hnone i List.mem_cons_self) (by omega) (fun j => hmax j (Finset.mem_univ j))
      have hne : ∀ j ∈ l, j ≠ i := by
        rintro j hj rfl
        exact hi hj
      obtain ⟨c', L, hrun, hlist, hrest, hpairwise⟩ := ih (h.run hrun₁) hnodup
        (fun j hj => (hothers j (hne j hj)).trans (hnone j (List.mem_cons_of_mem i hj)))
        (fun j => by have hj := hbound j; omega)
      -- the term of `i` is the oldest of all
      have hL : ∀ j ∈ l, Function.update L i (c₁ i).fsm.term j = L j :=
        fun j hj => Function.update_of_ne (hne j hj) ..
      have hmono := terms_mono (below_of_regular h) (run_below hrun₁)
      refine ⟨c', Function.update L i (c₁ i).fsm.term, hrun₁.trans hrun, ?_, ?_, ?_⟩
      · intro j hj
        rcases List.mem_cons.mp hj with rfl | hj
        · rw [Function.update_self]
          exact ⟨(hrest j hi).trans hone,
            hled.run (sound_of_reachable (h.run hrun₁).unrestrict.unrestrict)
              hrun.unrestrict.unrestrict, hnewer⟩
        · obtain ⟨hacquired, hled', hnewer'⟩ := hlist j hj
          rw [hL j hj]
          exact ⟨hacquired, hled', fun k => UInt64.lt_of_le_of_lt (hmono k) (hnewer' k)⟩
      · intro j hj
        have hji : j ≠ i := fun heq => hj (heq ▸ List.mem_cons_self)
        rw [hrest j fun hmem => hj (List.mem_cons_of_mem i hmem), hothers j hji]
      · refine List.Pairwise.cons ?_ (hpairwise.imp_of_mem ?_)
        · intro j hj
          rw [Function.update_self, hL j hj]
          exact (hlist j hj).2.2 i
        · intro j k hj hk hlt
          rwa [hL j hj, hL k hk]

/-- The three servers have the lock in the order 3, 1, 2. -/
theorem lock_in_order_of_three :
    ∃ (c : Cluster threeServers) (L : Member threeServers → UInt64),
      ((lockSystem threeServers).restrict Regular).Reachable c ∧
      L ThreeServers.three < L ThreeServers.one ∧ L ThreeServers.one < L ThreeServers.two ∧
      ∀ i, (c i).acquisitions = 1 ∧ HasLed c i (L i) := by
  have hstart : ((lockSystem threeServers).restrict Regular).Reachable fun _ => {} :=
    ⟨fun _ => {}, rfl, System.Run.refl _⟩
  obtain ⟨c, L, hrun, hlist, -, horder⟩ := lock_in_order (by decide)
    [ThreeServers.three, ThreeServers.one, ThreeServers.two] hstart (by decide) (by decide)
    (by decide)
  have hmem : ∀ i, i ∈ [ThreeServers.three, ThreeServers.one, ThreeServers.two] := by decide
  simp only [List.pairwise_cons, List.mem_cons, List.not_mem_nil, or_false, forall_eq_or_imp,
    forall_eq] at horder
  exact ⟨c, L, hstart.run hrun, horder.1.1, horder.2.1,
    fun i => ⟨(hlist i (hmem i)).1, (hlist i (hmem i)).2.1⟩⟩

end Cluster

end Raft
