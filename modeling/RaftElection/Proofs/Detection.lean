/-
A node notices silence, and a leader does not fall silent.

The task of a timer is due at most the longest interval after it was last armed, so a pass
that comes that late either finds that it has been called or pops it.  Between the two lie
handlers and other passes.  Handlers that do not reset the timer leave its task alone, and a
pass only calls tasks that the machine lets fire.  In a node that waits for its election that
is the election timer and nothing else, in a leader the heartbeat timer and nothing else,
since timers follow the role.

Both results are one (`fires_in_time`): a timer that stays live while the other is not is
called by the first pass that is late enough.
-/
import RaftElection.Proofs.Arming
import RaftElection.Proofs.Blocking
import RaftElection.Proofs.Deferral
import RaftElection.Proofs.Resets
import RaftElection.Proofs.Roles

namespace Raft

open Transition

namespace RaftFSM

variable {a : Actor} {cb : Callbacks} {s s' : RaftFSM} {k : TimerKind}

/-! ### Which timers may fire -/

/-- No timer is cancelled: the machine never calls `cancel`. -/
def Uncancelled (t : Timers) : Prop := ∀ k task, t.task k = some task → task.cancelled = false

theorem Uncancelled.set {t : Timers} {timer : Option Timer} (h : Uncancelled t)
    (htimer : ∀ task, timer = some task → task.cancelled = false) :
    Uncancelled (t.setTask k timer) := by
  intro j task htask
  by_cases hjk : j = k
  · subst hjk
    exact htimer task (by simpa [Timers.setTask] using htask)
  · exact h j task (by simpa [Timers.setTask, Function.update_of_ne hjk] using htask)

theorem Uncancelled.map {t : Timers} {f : Timer → Timer} (h : Uncancelled t)
    (hf : ∀ task, (f task).cancelled = task.cancelled) :
    Uncancelled (t.setTask k ((t.task k).map f)) := by
  refine h.set ?_
  intro _ hmap
  obtain ⟨task, htask, rfl⟩ := Option.map_eq_some_iff.mp hmap
  rw [hf]
  exact h k task htask

theorem Uncancelled.replay {t : Timers} (h : Uncancelled t) (l : List TimerCall) :
    Uncancelled (t.replay l) := by
  induction l generalizing t with
  | nil => exact h
  | cons c rest ih =>
      refine ih ?_
      cases c with
      | schedule k =>
          refine h.set ?_
          rintro _ ⟨⟩
          rfl
      | pause k => exact h.map fun _ => rfl
      | resume k => exact h.map fun _ => rfl
      | reset k => exact h.map fun _ => rfl

theorem uncancelled_of_reachable (h : (machineSystem a).Reachable s) : Uncancelled s.timers := by
  refine h.invariant (I := fun s => Uncancelled s.timers) ?_ ?_
  · intro s₀ hs₀
    rw [hs₀]
    rintro (_ | _) _ ⟨⟩
    rfl
  · intro s x s' _ hs hstep
    have hhandle : ∀ {cb : Callbacks} {event : RaftEvent}, handle a cb s event = .ok s' →
        Uncancelled s'.timers := by
      intro cb event hok
      cases hblocked : s.blocked with
      | true =>
          rw [handle, if_pos hblocked] at hok
          obtain rfl := Except.ok.inj hok
          exact hs
      | false =>
          rw [← show s.timers.replay _ = s'.timers from replays_handle hblocked hok]
          exact hs.replay _
    cases x with
    | handle event cb => exact hhandle (eq_ok_of_toOption hstep)
    | callElection cb =>
        change RaftFSM.step a s (.callElection cb) = some s' at hstep
        simp only [RaftFSM.step] at hstep
        split at hstep
        · exact hhandle (eq_ok_of_toOption hstep)
        · obtain rfl := Option.some.inj hstep
          exact hs
    | callHeartbeat =>
        change RaftFSM.step a s .callHeartbeat = some s' at hstep
        simp only [RaftFSM.step] at hstep
        split at hstep
        · obtain rfl := Option.some.inj hstep
          rw [sendAll_eq]
          exact hs
        · obtain rfl := Option.some.inj hstep
          exact hs
    | api c cb =>
        obtain rfl := Option.some.inj hstep
        rw [← show s.timers.replay _ = _ from replays_call (replays_signOff cb) s c]
        exact hs.replay _

theorem timersFollowRole_of_reachable (h : (machineSystem a).Reachable s) :
    TimersFollowRole true s := by
  refine h.invariant (I := TimersFollowRole true) ?_ ?_
  · intro s₀ hs₀
    rw [hs₀]
    constructor
    case silent => exact fun _ => Or.inl rfl
    case follower => exact fun _ hstayed => absurd hstayed (by decide)
    all_goals
      intro hc
      cases hc
  · intro s x s' _ hs hstep
    -- As of a node that has been told to stay a follower, which excuses the most.
    have hwatched : Watched.step a { fsm := s, stayed := true } x
        = some _ := Option.map_eq_some_iff.mpr ⟨s', hstep, rfl⟩
    exact (Watched.timersFollowRole_step hwatched hs).mono fun _ => rfl

theorem live_of_unpaused (h : (machineSystem a).Reachable s)
    (hunpaused : Timer.Unpaused (s.timers.task k)) : Timer.Live (s.timers.task k) := by
  obtain ⟨task, htask, hpaused⟩ := hunpaused
  exact ⟨task, htask, hpaused, uncancelled_of_reachable h k task htask⟩

theorem not_live_of_paused {t : Option Timer} (h : Timer.Paused t) : ¬ Timer.Live t := by
  obtain ⟨task, rfl, hpaused⟩ := h
  intro hlive
  exact absurd ((Timer.live_some.mp hlive).1.symm.trans hpaused) (by decide)

/-- The node waits for its election, or beats. -/
def Ready : TimerKind → RaftFSM → Prop
  | .election, s => s.blocked = false ∧ s.role ≠ .leader ∧ Timer.Live s.electionTimeoutTask
  | .heartbeat, s => s.role = .leader

/-- Then that timer may fire and the other may not. -/
theorem Ready.live_iff {j : TimerKind} (h : (machineSystem a).Reachable s) (hready : Ready k s) :
    Timer.Live (s.timers.task j) ↔ j = k := by
  have hfollows := timersFollowRole_of_reachable h
  cases k with
  | election =>
      obtain ⟨-, hrole, hlive⟩ := hready
      cases j with
      | election => exact iff_of_true hlive rfl
      | heartbeat =>
          refine iff_of_false ?_ (by decide)
          show ¬ Timer.Live s.heartbeatTask
          rcases hfollows.silent hrole with hnone | hpaused
          · rw [hnone]
            exact Timer.not_live_none
          · exact not_live_of_paused hpaused
  | heartbeat =>
      cases j with
      | election =>
          exact iff_of_false (not_live_of_paused (hfollows.leader_waits hready)) (by decide)
      | heartbeat => exact iff_of_true (live_of_unpaused h (hfollows.leader_beats hready)) rfl

/-- What the machine does when the timer fires. -/
def fired (a : Actor) : TimerKind → RaftFSM → RaftFSM
  | .election, s => candidacy a s
  | .heartbeat, s => sendAll (.appendEntriesReq a.self s.term) s a.getPeers

/-- The trace of it. -/
def FiredIn (a : Actor) (term : UInt64) (new : List Entry) : TimerKind → Prop
  | .election => ∃ t, .stood t ∈ new
  | .heartbeat => ∀ peer ∈ a.getPeers, .sent peer (.appendEntriesReq a.self term) ∈ new

theorem fired_trace (a : Actor) (k : TimerKind) (s : RaftFSM) :
    ∃ new, (fired a k s).trace = new ++ s.trace ∧ FiredIn a s.term new k := by
  cases k with
  | election =>
      refine ⟨candidacyEntries a s, candidacy_trace a s, s.term + 1, ?_⟩
      exact (mem_candidacyEntries a s).mpr (Or.inr (Or.inr rfl))
  | heartbeat =>
      refine ⟨(a.getPeers.map (Entry.sent · (.appendEntriesReq a.self s.term))).reverse, ?_, ?_⟩
      · show (sendAll (.appendEntriesReq a.self s.term) s a.getPeers).trace = _
        rw [sendAll_eq]
      · intro peer hpeer
        exact List.mem_reverse.mpr (List.mem_map_of_mem hpeer)

theorem FiredIn.mono {term : UInt64} {new new' : List Entry} (h : FiredIn a term new k)
    (hsub : new ⊆ new') : FiredIn a term new' k := by
  cases k with
  | election =>
      obtain ⟨t, ht⟩ := h
      exact ⟨t, hsub ht⟩
  | heartbeat => exact fun peer hpeer => hsub (h peer hpeer)

/-- The timer has fired since the trace was `older`. -/
def HasFired (a : Actor) (k : TimerKind) (term : UInt64) (older : List Entry) (s : RaftFSM) :
    Prop :=
  ∃ new, s.trace = new ++ older ∧ FiredIn a term new k

theorem HasFired.later {term : UInt64} {older : List Entry} (h : HasFired a k term older s)
    (htrace : s.trace <:+ s'.trace) : HasFired a k term older s' := by
  obtain ⟨new, hnew, hfired⟩ := h
  obtain ⟨newer, hnewer⟩ := htrace
  refine ⟨newer ++ new, ?_, hfired.mono (List.subset_append_right _ _)⟩
  rw [← hnewer, hnew, List.append_assoc]

theorem HasFired.earlier {term : UInt64} {older oldest : List Entry}
    (h : HasFired a k term older s) (htrace : oldest <:+ older) : HasFired a k term oldest s := by
  obtain ⟨new, hnew, hfired⟩ := h
  obtain ⟨mid, rfl⟩ := htrace
  refine ⟨new ++ mid, ?_, hfired.mono (List.subset_append_left _ _)⟩
  rw [hnew, List.append_assoc]

/-- A heartbeat's entries name the term; those of a candidacy do not matter here. -/
theorem HasFired.of_term {term term' : UInt64} {older : List Entry}
    (h : HasFired a k term older s) (hterm : k = .heartbeat → term = term') :
    HasFired a k term' older s := by
  cases k with
  | election => exact h
  | heartbeat =>
      rw [← hterm rfl]
      exact h

/-- A leader that is told of a higher term does not stay one. -/
theorem leader_keeps_term {e : NetEvent} (h : Turns a cb e s s') (hrole : s.role = .leader)
    (hrole' : s'.role = .leader) : s'.term = s.term := by
  have hstays : s'.role = .follower ∨ s'.role = .leader ∧ s'.term = s.term := by
    refine h.invariant (I := fun s' => s'.role = .follower ∨ s'.role = .leader ∧ s'.term = s.term)
      ?_ (Or.inr ⟨hrole, rfl⟩)
    intro s₁ s₂ hturn hs₁
    cases hturn with
    | adopt => exact Or.inl (convertToFollower_role cb _)
    | reset | refuse | vote | acknowledge => exact hs₁
    | stepDown => exact Or.inl (leave_role s₁)
    | count id hcandidate | lead hcandidate =>
        rw [hcandidate] at hs₁
        simp at hs₁
  rcases hstays with hfollower | ⟨-, hterm⟩
  · exact absurd (hfollower.symm.trans hrole') (by decide)
  · exact hterm

/-- The trace of a machine only grows. -/
theorem trace_suffix (h : (machineSystem a).Run s s') : s.trace <:+ s'.trace := by
  refine h.invariant (I := fun s' => s.trace <:+ s'.trace) ?_ List.suffix_rfl
  intro s₁ x s₂ hs₁ hstep
  refine hs₁.trans ?_
  have hnew : ∀ {cb : Callbacks} {p : Bool}, Carries cb p s₁ s₂ → s₁.trace <:+ s₂.trace :=
    fun ⟨new, htrace, _⟩ => ⟨new, htrace.symm⟩
  cases step_entered hstep with
  | handled e cb s' hturns => exact hnew (Carries.turns hturns)
  | ignored => exact List.suffix_rfl
  | timedOut | expired =>
      rw [candidacy_trace]
      exact List.suffix_append _ _
  | beat =>
      rw [sendAll_eq]
      exact List.suffix_append _ _
  | called c cb =>
      have hcall : Carries cb c.parks s₁ (s₁.call (signOff cb) c) :=
        Carries.call_of (callable_aside.signOff cb)
          (fun _ hrole => (signOff_quiet cb hrole).role.trans hrole) s₁ c
      exact hnew hcall

end RaftFSM

namespace TimedNode

variable {a : Actor} {env : Environment} {o : RaftFSMOptions} {n n' : TimedNode}
  {k : TimerKind} {cb : Callbacks}

/-! ### Passes -/

/-- The machine is ready to let the timer fire exactly where `Task::call` goes on. -/
theorem Tracks.call_fst {i : Nat} {t : Task} (h : Tracks n) (hi : n.task k = some i)
    (ht : n.sched.tasks[i]? = some t) : t.call.1 = true ↔ Timer.Live (n.fsm.timers.task k) := by
  refine ⟨h.live hi ht, ?_⟩
  rintro ⟨timer, htimer, hpaused, hcancelled⟩
  have hflags : some t.flags = some timer.flags := by
    have hshown := h.shows k
    rw [htimer] at hshown
    simpa [current, hi, ht] using hshown
  have hboth := Prod.mk.inj (Option.some.inj hflags)
  rw [Handle.call_fst_eq_true]
  exact ⟨hboth.2.trans hcancelled, hboth.1.trans hpaused⟩

/-- The task `m` of the timer is queued and due at `due`. -/
structure Awaits (k : TimerKind) (m due : Nat) (n : TimedNode) : Prop where
  task : n.task k = some m
  queued : m ∈ n.sched.queue
  due : (n.current k).map Task.dueTime = some due

variable {m due : Nat}

theorem Awaits.keeps (h : Awaits k m due n) (hkeeps : Keeps k n n') : Awaits k m due n' :=
  ⟨hkeeps.task.trans h.task, hkeeps.queue m h.queued, hkeeps.due.trans h.due⟩

theorem Awaits.current (h : Awaits k m due n) :
    ∃ t, n.sched.tasks[m]? = some t ∧ t.dueTime = due := by
  have hdue := h.due
  simp only [TimedNode.current, h.task, Option.bind_some] at hdue
  exact Option.map_eq_some_iff.mp hdue

theorem Awaits.dueTime (h : Awaits k m due n) : n.sched.dueTime m = due := by
  obtain ⟨t, ht, hdue⟩ := h.current
  simp [Scheduler.dueTime, ht, hdue]

theorem callable_fsm (hready : RaftFSM.Ready k n.fsm)
    (hcall : n.callable env o a cb k = some n') : n'.fsm = RaftFSM.fired a k n.fsm := by
  cases k with
  | election =>
      obtain ⟨s, hs, rfl⟩ := handle_fsm hcall
      rw [RaftFSM.handle_timeout_eq, if_neg (by simp [hready.1, hready.2.1])] at hs
      exact (Except.ok.inj hs).symm
  | heartbeat =>
      obtain rfl := Option.some.inj hcall
      rfl

/-- A task that is popped is the one awaited and fires, or it changes nothing for it. -/
theorem Awaits.execute {i : Nat} (h : Awaits k m due n) (htracks : Tracks n)
    (hreach : (machineSystem a).Reachable n.fsm) (hready : RaftFSM.Ready k n.fsm)
    (hexec : execute env o a cb (n.pop i) i = some n') :
    RaftFSM.HasFired a k n.fsm.term n.fsm.trace n'.fsm ∨
      Awaits k m due n' ∧ n'.fsm = n.fsm := by
  obtain ⟨t, ht, -⟩ := h.current
  have hcall : t.call.1 = true :=
    (htracks.call_fst h.task ht).mpr ((hready.live_iff hreach).mpr rfl)
  obtain ⟨t', j, ht', hj, ⟨hcancelled, rfl⟩ | ⟨hlive, n₁, hcalled, rfl⟩⟩ := execute_cases hexec
  · have hmi : m ≠ i := by
      rintro rfl
      obtain rfl := Option.some.inj (ht.symm.trans ht')
      exact absurd ((Handle.call_fst_eq_true.mp hcall).1.symm.trans hcancelled) (by decide)
    exact Or.inr ⟨⟨h.task, (List.mem_erase_of_ne hmi).mpr h.queued, h.due⟩, rfl⟩
  have hi := (htracks.pop i).sole i t' j ht' hj hlive
  unfold TimedNode.callTask at hcalled
  obtain ⟨_, hsame, hcalled⟩ := Option.bind_eq_some_iff.mp hcalled
  obtain rfl := Option.some.inj (ht'.symm.trans hsame)
  by_cases hjk : j = k
  · subst hjk
    obtain rfl := Option.some.inj (h.task.symm.trans hi)
    obtain rfl := Option.some.inj (ht.symm.trans ht')
    rw [if_pos hcall] at hcalled
    obtain ⟨n₂, hn₂, hcalled⟩ := Option.bind_eq_some_iff.mp hcalled
    obtain rfl := Option.some.inj hcalled
    refine Or.inl ?_
    show RaftFSM.HasFired a j n.fsm.term n.fsm.trace n₂.fsm
    rw [callable_fsm (by exact hready) hn₂]
    exact RaftFSM.fired_trace a j n.fsm
  · have hquiet : ¬ t'.call.1 = true := by
      rw [(htracks.pop i).call_fst hi ht']
      exact fun hfires => hjk ((hready.live_iff hreach).mp hfires)
    rw [if_neg hquiet] at hcalled
    obtain rfl := Option.some.inj hcalled
    have hmi : m ≠ i := by
      rintro rfl
      exact htracks.ne hjk h.task hi
    refine Or.inr ⟨⟨h.task, ?_, ?_⟩, rfl⟩
    · exact List.mem_append_left _ ((List.mem_erase_of_ne hmi).mpr h.queued)
    · rw [← h.due]
      simp [TimedNode.current, TimedNode.renewTask, TimedNode.pop, h.task, Ne.symm hmi]

/-- A pass fires the timer, or is too early for it. -/
theorem Awaits.pass (h : Awaits k m due n) (htracks : Tracks n)
    (hreach : (machineSystem a).Reachable n.fsm) (hready : RaftFSM.Ready k n.fsm)
    {popped : List Nat} (hpass : n.pass env o a cb popped = some n') :
    RaftFSM.HasFired a k n.fsm.term n.fsm.trace n'.fsm ∨
      Awaits k m due n' ∧ n'.fsm = n.fsm ∧ env.clock n.reads < due := by
  unfold TimedNode.pass at hpass
  split at hpass
  · cases hpass
  split at hpass
  · rename_i hlater
    split at hpass
    · obtain rfl := Option.some.inj hpass
      refine Or.inr ⟨⟨h.task, h.queued, h.due⟩, rfl, ?_⟩
      rw [← h.dueTime]
      exact hlater m h.queued
    · cases hpass
  · let I (n₁ : TimedNode) : Prop := Tracks n₁ ∧ (machineSystem a).Run n.fsm n₁.fsm ∧
      (RaftFSM.HasFired a k n.fsm.term n.fsm.trace n₁.fsm ∨ Awaits k m due n₁ ∧ n₁.fsm = n.fsm)
    have hread : I { n with reads := n.reads + 2 } :=
      ⟨htracks.of_eq rfl rfl rfl rfl, System.Run.refl _, Or.inr ⟨⟨h.task, h.queued, h.due⟩, rfl⟩⟩
    have hround : ∀ n₁ n₂ i, I n₁ → n₁.sched.dueTime i ≤ env.clock (n.reads + 1) →
        TimedNode.execute env o a cb (n₁.pop i) i = some n₂ → I n₂ := by
      rintro n₁ n₂ i ⟨htracks₁, hrun, hone⟩ - hexec
      obtain ⟨htracks₂, hmore⟩ := (htracks₁.pop i).execute hexec
      refine ⟨htracks₂, hrun.trans hmore, ?_⟩
      rcases hone with hfired | ⟨hawaits, hfsm⟩
      · exact Or.inl (hfired.later (RaftFSM.trace_suffix hmore))
      · have hexecuted := hawaits.execute htracks₁ (by rw [hfsm]; exact hreach)
          (by rw [hfsm]; exact hready) hexec
        rw [hfsm] at hexecuted
        exact hexecuted
    obtain ⟨⟨-, -, hfired | ⟨hawaits, hfsm⟩⟩, hlater⟩ := passLoop_rounds hround hpass hread
    · exact Or.inl hfired
    · refine Or.inr ⟨hawaits, hfsm, ?_⟩
      rw [← hawaits.dueTime]
      exact Nat.lt_of_le_of_lt (env.monotone (Nat.le_succ _)) (hlater m hawaits.queued)

/-! ### Runs in which the timer stays ready

A pass either finds the task due, and the timer fires, or leaves it for later.  Every other step
leaves it too, unless it is a `reset`, so one due time is all that has to go by.
-/

/-- Steps that leave the node ready and do not reset the timer. -/
def Steady (a : Actor) (k : TimerKind) (n : TimedNode) (x : TimedAction) (n' : TimedNode) : Prop :=
  RaftFSM.Ready k n'.fsm ∧
    ∀ e cb, x = .handle e cb → n.fsm.blocked = false → .reset k ∉ n.fsm.handleCalls a cb (.net e)

/-- What is awaited is still awaited after calls that reset other timers only. -/
theorem Awaits.calls {c : List TimerCall} (h : Awaits k m due n) (htracks : Tracks n)
    (hfits : n.fsm.timers.Fits c) (hreset : .reset k ∉ c) : Awaits k m due (n.calls env o c) := by
  refine h.keeps (keeps_calls htracks.toHeld htracks.shows hfits hreset ?_)
  intro hnone
  have hdue := h.due
  rw [hnone] at hdue
  cases hdue

/-- The state a timer is in while it has not fired. -/
theorem Awaits.step (h : Awaits k m due n) (htracks : Tracks n)
    (hreach : (machineSystem a).Reachable n.fsm) (hready : RaftFSM.Ready k n.fsm) {x : TimedAction}
    (hstep : n.step env o a x = some n') (hsteady : Steady a k n x n') :
    RaftFSM.HasFired a k n.fsm.term n.fsm.trace n'.fsm ∨
      Awaits k m due n' ∧ (k = .heartbeat → n'.fsm.term = n.fsm.term) := by
  obtain ⟨hready', hreset⟩ := hsteady
  cases x with
  | handle e cb =>
      obtain ⟨n₁, hhandle, rfl⟩ := Option.map_eq_some_iff.mp hstep
      obtain ⟨s, hs, rfl⟩ := handle_fsm hhandle
      refine Or.inr ⟨?_, ?_⟩
      · have hfits : n.fsm.timers.Fits
            (if n.fsm.blocked then [] else n.fsm.handleCalls a cb (.net e)) := by
          split
          · trivial
          · exact RaftFSM.fits_handle a cb n.fsm (.net e)
        have hcalls : Awaits k m due
            (n.calls env o (if n.fsm.blocked then [] else n.fsm.handleCalls a cb (.net e))) := by
          refine h.calls htracks hfits ?_
          cases hblocked : n.fsm.blocked with
          | true => exact List.not_mem_nil
          | false => exact hreset e cb rfl hblocked
        exact ⟨hcalls.task, hcalls.queued, hcalls.due⟩
      · rintro rfl
        exact RaftFSM.leader_keeps_term (RaftFSM.handle_turns hs) hready hready'
  | api c cb =>
      obtain rfl := Option.some.inj hstep
      refine Or.inr ⟨?_, fun _ => (RaftFSM.callable_aside.call cb n.fsm c).term⟩
      have hcalls : Awaits k m due
          (n.calls env o (n.fsm.callCalls (RaftFSM.signOff cb) (RaftFSM.signOffCalls cb) c)) :=
        h.calls htracks
          (RaftFSM.fits_call (RaftFSM.replays_signOff cb) (RaftFSM.fits_signOff cb) n.fsm c)
          (RaftFSM.resetFree_call (RaftFSM.resetFree_signOff cb) n.fsm c k)
      exact ⟨hcalls.task, hcalls.queued, hcalls.due⟩
  | pass popped cb =>
      rcases h.pass htracks hreach hready hstep with hfired | ⟨hawaits, hfsm, -⟩
      · exact Or.inl hfired
      · exact Or.inr ⟨hawaits, fun _ => congrArg RaftFSM.term hfsm⟩

/-- A ready timer has a task that is queued and due within the longest interval. -/
theorem awaits_of_ready (hreach : (timedSystem a env o).Reachable n)
    (hready : RaftFSM.Ready k n.fsm) :
    ∃ m due, Awaits k m due n ∧ due ≤ env.clock n.reads + o.maxInterval k := by
  obtain ⟨htracks, hmachine⟩ := machine_of_timed hreach
  obtain ⟨timer, htimer, hpaused, hcancelled⟩ := (hready.live_iff hmachine).mpr rfl
  have hflags := htracks.shows k
  rw [htimer] at hflags
  obtain ⟨t, ht, heq⟩ := Option.map_eq_some_iff.mp hflags
  obtain ⟨m, hm, htask⟩ := Option.bind_eq_some_iff.mp ht
  have hlive : t.cancelled = false := (congrArg Prod.snd heq).trans hcancelled
  obtain ⟨hqueue, hdue⟩ := armed_of_reachable hreach k m t hm htask hlive
  exact ⟨m, t.dueTime, ⟨hm, hqueue.resolve_right nofun, by rw [ht]; rfl⟩, hdue⟩

/-- **A timer that stays ready fires in time.**  Whatever happens in between, by the end of
the first pass that comes the longest interval later the callable has run. -/
theorem fires_in_time {n₀ : TimedNode} (hreach : (timedSystem a env o).Reachable n₀)
    (hready : RaftFSM.Ready k n₀.fsm)
    (hrun : ((timedSystem a env o).restrict (Steady a k)).Run n₀ n) {popped : List Nat}
    (hpass : n.step env o a (.pass popped cb) = some n')
    (hlate : env.clock n₀.reads + o.maxInterval k ≤ env.clock n.reads) :
    RaftFSM.HasFired a k n₀.fsm.term n₀.fsm.trace n'.fsm := by
  obtain ⟨m, due, hawaits₀, hdue⟩ := awaits_of_ready hreach hready
  let I (n : TimedNode) : Prop := (timedSystem a env o).Reachable n ∧ RaftFSM.Ready k n.fsm ∧
    n₀.fsm.trace <:+ n.fsm.trace ∧ (RaftFSM.HasFired a k n₀.fsm.term n₀.fsm.trace n.fsm ∨
      Awaits k m due n ∧ (k = .heartbeat → n.fsm.term = n₀.fsm.term))
  have hstart : I n₀ := ⟨hreach, hready, List.suffix_rfl, Or.inr ⟨hawaits₀, fun _ => rfl⟩⟩
  have hend : I n := by
    refine hrun.invariant (I := I) ?_ hstart
    rintro n₁ x n₂ ⟨hreach₁, hready₁, htrace₁, hone⟩ ⟨hstep, hsteady⟩
    obtain ⟨htracks₁, hmachine₁⟩ := machine_of_timed hreach₁
    have hmore := RaftFSM.trace_suffix (htracks₁.step hstep).2
    refine ⟨hreach₁.tail hstep, hsteady.1, htrace₁.trans hmore, ?_⟩
    rcases hone with hfired | ⟨hawaits, hterm⟩
    · exact Or.inl (hfired.later hmore)
    · rcases hawaits.step htracks₁ hmachine₁ hready₁ hstep hsteady with hfired | ⟨hawaits, hsame⟩
      · exact Or.inl ((hfired.earlier htrace₁).of_term hterm)
      · exact Or.inr ⟨hawaits, fun hk => (hsame hk).trans (hterm hk)⟩
  obtain ⟨hreachn, hreadyn, htrace, hone⟩ := hend
  obtain ⟨htracks, hmachine⟩ := machine_of_timed hreachn
  rcases hone with hfired | ⟨hawaits, hterm⟩
  · exact hfired.later (RaftFSM.trace_suffix (htracks.step hpass).2)
  · rcases hawaits.pass htracks hmachine hreadyn hpass with hfired | ⟨-, -, hearly⟩
    · exact (hfired.earlier htrace).of_term hterm
    · omega

/-! ### Silence and heartbeats -/

instance : ∀ k s, Decidable (RaftFSM.Ready k s)
  | .election, _ => inferInstanceAs (Decidable (_ ∧ _ ∧ _))
  | .heartbeat, _ => inferInstanceAs (Decidable (_ = _))

/-- Steps that leave the node waiting for an election, none of them a message that puts the
election off. -/
def Silent (a : Actor) (n : TimedNode) (x : TimedAction) (n' : TimedNode) : Prop :=
  RaftFSM.Ready .election n'.fsm ∧
    match x with
    | .handle e cb => ¬ RaftFSM.ResetsElection a cb n.fsm e
    | _ => True

instance (a : Actor) (n : TimedNode) : ∀ x n', Decidable (Silent a n x n')
  | .handle .., _ => inferInstanceAs (Decidable (_ ∧ ¬ (_ ∧ _)))
  | .api .., _ | .pass .., _ => inferInstanceAs (Decidable (_ ∧ True))

theorem Silent.steady {x : TimedAction} (h : Silent a n x n') : Steady a .election n x n' := by
  refine ⟨h.1, ?_⟩
  rintro e cb rfl hblocked hreset
  exact h.2 ⟨hblocked, hreset⟩

/-- **Silence is noticed.**  From a node that waits for its election let a run start in which
it goes on waiting and nothing it receives puts the election off, whatever else that is.  By
the end of the first pass that comes the greatest timeout later the node has stood. -/
theorem silence_is_noticed {n₀ : TimedNode} (hreach : (timedSystem a env o).Reachable n₀)
    (hwaits : RaftFSM.Ready .election n₀.fsm)
    (hrun : ((timedSystem a env o).restrict (Silent a)).Run n₀ n) {popped : List Nat}
    (hpass : n.step env o a (.pass popped cb) = some n')
    (hlate : env.clock n₀.reads + o.maxTimeout ≤ env.clock n.reads) :
    ∃ new t, n'.fsm.trace = new ++ n₀.fsm.trace ∧ .stood t ∈ new := by
  have hsteady : ((timedSystem a env o).restrict (Steady a .election)).Run n₀ n :=
    hrun.weaken fun _ _ _ h => h.steady
  obtain ⟨new, htrace, t, ht⟩ := fires_in_time hreach hwaits hsteady hpass hlate
  exact ⟨new, t, htrace, ht⟩

/-- A clock that shows every time three times, a hundred milliseconds apart. -/
def threeTimes : Environment where
  clock n := 100 * (n / 3)
  monotone _ _ h := Nat.mul_le_mul_left 100 (Nat.div_le_div_right h)
  rand _ := 0

def quick : RaftFSMOptions where
  minTimeout := 10
  maxTimeout := 20

/-- A node that was started receives a vote nobody has asked for, and looks at its queue twice
before the timeout is over. -/
theorem silence_is_noticed_started :
    ∃ n n', ((timedSystem firstOfThree threeTimes quick).restrict (Silent firstOfThree)).Run
        (start threeTimes quick) n ∧
      n.fsm.role = .follower ∧
      n.step threeTimes quick firstOfThree (.pass [0] {}) = some n' ∧
      ∃ t, .stood t ∈ n'.fsm.trace := by
  obtain ⟨n, ⟨_, rfl, hrun⟩, hrole, hlate, hpass⟩ :=
    System.Reachable.of_execute (start threeTimes quick) (step threeTimes quick firstOfThree)
      (Silent firstOfThree) [.handle (.requestVoteRes 2 0 true) {}, .pass [] {}, .pass [] {}]
      (fun n => n.fsm.role = .follower ∧ threeTimes.clock 1 + 20 ≤ threeTimes.clock n.reads ∧
        (n.step threeTimes quick firstOfThree (.pass [0] {})).isSome = true) (by decide +kernel)
  obtain ⟨n', hn'⟩ := Option.isSome_iff_exists.mp hpass
  have hreach : (timedSystem firstOfThree threeTimes quick).Reachable (start threeTimes quick) :=
    ⟨_, rfl, System.Run.refl _⟩
  obtain ⟨new, t, htrace, ht⟩ :=
    silence_is_noticed hreach (by decide +kernel) hrun hn' hlate
  refine ⟨n, n', hrun, hrole, hn', t, ?_⟩
  rw [htrace]
  exact List.mem_append_left _ ht

/-- Steps that leave the node leader. -/
def Leads (_ : TimedNode) (_ : TimedAction) (n' : TimedNode) : Prop := n'.fsm.role = .leader

instance : ∀ n x n', Decidable (Leads n x n') := fun _ _ _ => inferInstanceAs (Decidable (_ = _))

theorem Leads.steady {x : TimedAction} (h : Leads n x n') : Steady a .heartbeat n x n' := by
  refine ⟨h, ?_⟩
  intro e cb _ _ hreset
  exact absurd (RaftFSM.reset_mem_handleCalls hreset) (by decide)

/-- **A leader does not fall silent.**  Let a run start at a leader in which it stays one.  By
the end of the first pass that comes the heartbeat interval later it has sent every peer a
heartbeat of its term. -/
theorem leader_keeps_beating {n₀ : TimedNode} (hreach : (timedSystem a env o).Reachable n₀)
    (hlead : n₀.fsm.role = .leader)
    (hrun : ((timedSystem a env o).restrict Leads).Run n₀ n) {popped : List Nat}
    (hpass : n.step env o a (.pass popped cb) = some n')
    (hlate : env.clock n₀.reads + o.heartBeatRate ≤ env.clock n.reads) :
    ∃ new, n'.fsm.trace = new ++ n₀.fsm.trace ∧
      ∀ peer ∈ a.getPeers, .sent peer (.appendEntriesReq a.self n₀.fsm.term) ∈ new := by
  have hready : RaftFSM.Ready .heartbeat n₀.fsm := hlead
  have hsteady : ((timedSystem a env o).restrict (Steady a .heartbeat)).Run n₀ n :=
    hrun.weaken fun _ _ _ h => h.steady
  exact fires_in_time hreach hready hsteady hpass hlate

/-- Server 1 has just won.  The next pass only puts its election timer back into the queue, the
one after it beats. -/
theorem leader_keeps_beating_of_three :
    ∃ n₀ n n', ((timedSystem firstOfThree threeTimes quick).restrict Leads).Run n₀ n ∧
      n.fsm.trace = n₀.fsm.trace ∧
      n.step threeTimes quick firstOfThree (.pass [1] {}) = some n' ∧
      ∃ new, n'.fsm.trace = new ++ n₀.fsm.trace ∧
        .sent 2 (.appendEntriesReq 1 n₀.fsm.term) ∈ new := by
  obtain ⟨n₀, hreach, hlead, hlater⟩ :=
    System.Reachable.of_execute (start threeTimes quick) (step threeTimes quick firstOfThree)
      (fun _ _ _ => True)
      [.pass [] {}, .pass [] {}, .pass [0] {}, .handle (.requestVoteRes 2 1 true) {}]
      (fun n₀ => n₀.fsm.role = .leader ∧
        (System.execute (step threeTimes quick firstOfThree)
          (fun n x n' => decide (Leads n x n')) n₀ [.pass [0] {}]).any (fun n => decide (n.fsm.trace = n₀.fsm.trace ∧
            threeTimes.clock n₀.reads + quick.heartBeatRate ≤ threeTimes.clock n.reads ∧
            (n.step threeTimes quick firstOfThree (.pass [1] {})).isSome = true)) = true)
      (by decide +kernel)
  rw [Option.any_eq_true] at hlater
  obtain ⟨n, hn, hend⟩ := hlater
  obtain ⟨htrace, hlate, hpass⟩ := of_decide_eq_true hend
  obtain ⟨n', hn'⟩ := Option.isSome_iff_exists.mp hpass
  have hrun : ((timedSystem firstOfThree threeTimes quick).restrict Leads).Run n₀ n :=
    System.Run.of_execute _ hn
  obtain ⟨new, hnew, hsent⟩ := leader_keeps_beating hreach.unrestrict hlead hrun hn' hlate
  exact ⟨n₀, n, n', hrun, htrace, hn', new, hnew, hsent 2 (by decide)⟩

end TimedNode

end Raft
