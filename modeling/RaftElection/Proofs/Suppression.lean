/-
Heartbeats that keep coming keep the election timer from firing.

A heartbeat cancels the task of the election timer and queues another, due at least the
least timeout later.  What the executor finds due before that time is what earlier resets
have left in the queue, and all of it is cancelled.  So as long as the next heartbeat is
in time, a pass has nothing to call (`Guarded.passLoop`), and the node stays the follower
it was started as.

The bound is on the readings of the clock that the resets and the passes make.  Between
two heartbeats the invariant says nothing once the clock is past the bound; a later
heartbeat that is in time shows that it was not.
-/
import RaftElection.Proofs.Timed

namespace Raft

open Transition

/-! ### A follower that has never stood -/

namespace RaftFSM

variable {a : Actor} {cb : Callbacks} {e : NetEvent} {s s' : RaftFSM}

/-- A follower that was never anything else. -/
structure Follows (s : RaftFSM) : Prop where
  role : s.role = .follower
  unstood : ∀ t, .stood t ∉ s.trace

theorem Follows.emit (h : Follows s) {o : Entry} (ho : ∀ t, o ≠ .stood t) : Follows (s.emit o) := by
  refine ⟨h.role, ?_⟩
  intro t ht
  rcases List.mem_cons.mp ht with heq | hmem
  · exact ho t heq.symm
  · exact h.unstood t hmem

theorem callable_follows : Callable fun s s' => Follows s → Follows s' where
  refl _ h := h
  trans h h' hs := h' (h hs)
  callback s o ho h := by
    refine h.emit ?_
    rcases ho with rfl | rfl <;> simp
  setBlocked _ _ h := ⟨h.role, h.unstood⟩
  pause _ h := ⟨h.role, h.unstood⟩
  leave s h := by
    rw [leave_of_follower h.role]
    exact h

theorem Follows.turn (hturn : Turn a cb e s s') (h : Follows s) : Follows s' := by
  cases hturn with
  | adopt hlt =>
      unfold convertToFollower
      rw [if_pos (by exact h.role)]
      exact ⟨h.role, h.unstood⟩
  | reset task htask => exact ⟨h.role, h.unstood⟩
  | refuse peer => exact h.emit (by simp)
  | vote peer =>
      have hvoted : Follows { s with voter := (s.voter.voteForLeader peer s.term).2 } :=
        ⟨h.role, h.unstood⟩
      exact hvoted.emit (by simp)
  | acknowledge peer => exact h.emit (by simp)
  | stepDown hrole => exact absurd (h.role.symm.trans hrole) (by decide)
  | count id hrole => exact absurd (h.role.symm.trans hrole) (by decide)
  | lead hrole => exact absurd (h.role.symm.trans hrole) (by decide)

theorem Follows.handle (h : Follows s) (hhandle : RaftFSM.handle a cb s (.net e) = .ok s') :
    Follows s' :=
  (handle_turns hhandle).invariant (fun _ _ hturn hs => hs.turn hturn) h

/-! ### What a follower does to its timers -/

theorem Accepts.unblocked (h : s.Accepts e) : s.blocked = false := by
  cases e with
  | requestVoteReq | requestVoteRes | appendEntriesRes => exact h.elim
  | appendEntriesReq id t => exact h.1

theorem adoptTermCalls_of_follower (cb : Callbacks) (t : UInt64) (hrole : s.role = .follower) :
    adoptTermCalls cb s t = [] := by
  unfold adoptTermCalls
  split
  · unfold convertToFollowerCalls
    exact if_pos hrole
  · rfl

theorem adoptTerm_follower_eq (cb : Callbacks) (t : UInt64) (hrole : s.role = .follower) :
    adoptTerm cb s t = { s with term := if s.term < t then t else s.term } := by
  unfold adoptTerm
  split
  · unfold convertToFollower
    exact if_pos hrole
  · rfl

theorem adoptTerm_of_follower (cb : Callbacks) (t : UInt64) (hrole : s.role = .follower) :
    ∃ term, adoptTerm cb s t = { s with term := term } :=
  ⟨_, adoptTerm_follower_eq cb t hrole⟩

/-- A message makes it reset the election timer, or leave the timers alone. -/
theorem handleCalls_of_follower (a : Actor) (cb : Callbacks) (e : NetEvent)
    (hrole : s.role = .follower) :
    handleCalls a cb s (.net e) = [] ∨ handleCalls a cb s (.net e) = [.reset .election] := by
  obtain ⟨term, hadopt⟩ := adoptTerm_of_follower cb e.getTerm hrole
  simp only [handleCalls, RaftEvent.getTerm, adoptTermCalls_of_follower cb _ hrole, hadopt,
    List.nil_append]
  cases e with
  | requestVoteReq id t =>
      simp only [handleRequestVoteCalls, hrole, if_true]
      split
      · exact Or.inl rfl
      · exact Or.inr rfl
  | requestVoteRes id t granted =>
      refine Or.inl ?_
      simp [handleRequestVoteResponseCalls, hrole]
  | appendEntriesReq id t =>
      simp only [handleAppendEntriesCalls, hrole]
      split
      · exact Or.inl rfl
      · exact Or.inr rfl
  | appendEntriesRes id t => exact Or.inl rfl

/-- A heartbeat it accepts makes it reset the timer. -/
theorem handleCalls_of_accepts (a : Actor) (cb : Callbacks) (hrole : s.role = .follower)
    (haccepts : s.Accepts e) : handleCalls a cb s (.net e) = [.reset .election] := by
  cases e with
  | requestVoteReq | requestVoteRes | appendEntriesRes => exact haccepts.elim
  | appendEntriesReq id t =>
      have hterm : ¬ t < (adoptTerm cb s t).term := by
        unfold adoptTerm
        split
        · unfold convertToFollower
          rw [if_pos (by exact hrole)]
          exact UInt64.lt_irrefl t
        · exact UInt64.not_lt.mpr haccepts.2
      obtain ⟨term, hadopt⟩ := adoptTerm_of_follower cb t hrole
      rw [hadopt] at hterm
      simp [handleCalls, RaftEvent.getTerm, NetEvent.getTerm, adoptTermCalls_of_follower cb _ hrole,
        hadopt, handleAppendEntriesCalls, hrole, if_neg hterm]

theorem stopCalls_pause {k : TimerKind} {t : Option Timer} {c : TimerCall} (hc : c ∈ stopCalls k t) :
    c = .pause k := by
  cases t with
  | none => cases hc
  | some t => exact List.mem_singleton.mp hc

/-- A call of the API pauses the timers, if it does anything to them. -/
theorem callCalls_of_follower {f : RaftFSM → RaftFSM} {calls : RaftFSM → List TimerCall}
    (hrole : s.role = .follower) {x : ApiCall} {c : TimerCall} (hc : c ∈ callCalls f calls s x) :
    ∃ k, c = .pause k := by
  have hstay : c ∈ stayFollowerCalls f calls s → ∃ k, c = .pause k := by
    intro hmem
    simp only [stayFollowerCalls, convertToFollowerCalls, if_pos hrole, List.nil_append,
      pauseScheduledTasksCalls, List.mem_append] at hmem
    rcases hmem with hmem | hmem
    · exact ⟨_, stopCalls_pause hmem⟩
    · exact ⟨_, stopCalls_pause hmem⟩
  cases x with
  | block | stayFollower => exact hstay hc
  | unblock => cases hc

end RaftFSM

/-! ### The clock does not stand in the way -/

theorem RaftFSMOptions.min_le_interval (o : RaftFSMOptions) (rand : Nat) :
    o.minTimeout ≤ o.interval rand .election := Nat.le_add_left _ _

namespace TimedNode

variable {a : Actor} {env : Environment} {o : RaftFSMOptions} {n n₁ n₂ n₃ n' : TimedNode}
  {k : TimerKind} {cb : Callbacks}

/-- The clock is read on and no heartbeat is accepted. -/
structure Later (n n' : TimedNode) : Prop where
  reads : n.reads ≤ n'.reads
  lastBeat : n'.lastBeat = n.lastBeat

theorem Later.refl (n : TimedNode) : Later n n := ⟨Nat.le_refl _, rfl⟩

theorem Later.trans (h : Later n₁ n₂) (h' : Later n₂ n₃) : Later n₁ n₃ :=
  ⟨h.reads.trans h'.reads, h'.lastBeat.trans h.lastBeat⟩

theorem later_onTask (n : TimedNode) (k : TimerKind) (f : Task → Task) : Later n (n.onTask k f) := by
  unfold onTask
  split
  · exact Later.refl n
  · exact ⟨Nat.le_refl _, rfl⟩

theorem later_reflag (n : TimedNode) (k : TimerKind) (t : Task) : Later n (n.reflag k t) := by
  unfold reflag
  cases t.cancelled <;> cases t.paused
  · exact Later.refl n
  · exact later_onTask n k _
  · exact later_onTask n k _
  · exact (later_onTask n k _).trans (later_onTask _ k _)

theorem later_replace (n : TimedNode) (k : TimerKind) (m : Int) : Later n (n.replace env o k m) :=
  ⟨Nat.le_succ _, rfl⟩

theorem later_call (n : TimedNode) (c : TimerCall) : Later n (n.call env o c) := by
  cases c with
  | schedule k => exact later_replace n k (-1)
  | pause k => exact later_onTask n k _
  | resume k => exact later_onTask n k _
  | reset k =>
      show Later n (n.reset env o k)
      cases ht : n.current k with
      | none =>
          rw [reset_of_none ht]
          exact Later.refl n
      | some t =>
          rw [reset_of_some ht]
          exact ((later_onTask n k _).trans (later_replace _ k _)).trans (later_reflag _ k t)

theorem later_calls (l : List TimerCall) (n : TimedNode) : Later n (n.calls env o l) := by
  induction l generalizing n with
  | nil => exact Later.refl n
  | cons c rest ih => exact (later_call n c).trans (ih _)

theorem later_handle {event : RaftEvent} (h : n.handle env o a cb event = some n') : Later n n' := by
  obtain ⟨s, -, rfl⟩ := handle_fsm h
  exact ⟨(later_calls _ n).reads, (later_calls _ n).lastBeat⟩

theorem later_callTask {i : Nat} {k : TimerKind} (h : n.callTask env o a cb i k = some n') :
    Later n n' := by
  rcases callTask_cases h with rfl | ⟨t, n₁, -, -, hn₁, rfl⟩
  · exact Later.refl n'
  · cases k with
    | election =>
        have hhandled := later_handle hn₁
        exact ⟨hhandled.reads, hhandled.lastBeat⟩
    | heartbeat =>
        obtain rfl := Option.some.inj hn₁
        exact ⟨Nat.le_refl _, rfl⟩

theorem later_execute {i : Nat} (h : n.execute env o a cb i = some n') : Later n n' := by
  obtain ⟨t, k, -, -, ⟨-, rfl⟩ | ⟨-, n₁, hcall, rfl⟩⟩ := execute_cases h
  · exact Later.refl n'
  · exact (later_callTask hcall).trans ⟨Nat.le_succ _, rfl⟩

theorem later_passLoop {now : Nat} {popped : List Nat}
    (h : passLoop env o a cb now popped n = some n') : Later n n' := by
  refine passLoop_invariant (I := fun n' => Later n n') ?_ ?_ h (Later.refl n)
  · intro n₁ i hn₁
    exact ⟨hn₁.reads, hn₁.lastBeat⟩
  · intro n₁ n₂ i hn₁ _ hexec
    exact hn₁.trans (later_execute hexec)

/-! ### Nothing may fire before the next heartbeat is overdue

The due time that guards the node is set by the last heartbeat that was accepted.  Everything else
that may happen to the election timer moves it further away or pauses it.
-/

/-- A follower that was never anything else, whose election timer is due no earlier than
the least timeout after the last heartbeat. -/
structure Guarded (o : RaftFSMOptions) (n : TimedNode) : Prop where
  follows : n.fsm.Follows
  noHeartbeat : n.task .heartbeat = none
  due : ∀ t, n.current .election = some t → n.lastBeat + o.minTimeout ≤ t.dueTime
  calls : n.sched.calls = []

@[simp] theorem onTask_calls (n : TimedNode) (k : TimerKind) (f : Task → Task) :
    (n.onTask k f).sched.calls = n.sched.calls := by
  unfold onTask
  split <;> rfl

@[simp] theorem onTask_fsm (n : TimedNode) (k : TimerKind) (f : Task → Task) :
    (n.onTask k f).fsm = n.fsm := by
  unfold onTask
  split <;> rfl

theorem Guarded.pause (h : Guarded o n) (k : TimerKind) : Guarded o (n.onTask k Task.pause) := by
  refine ⟨?_, ?_, ?_, ?_⟩
  · rw [onTask_fsm]
    exact h.follows
  · rw [onTask_task]
    exact h.noHeartbeat
  · intro t ht
    rw [(later_onTask n k Task.pause).lastBeat]
    cases k with
    | heartbeat =>
        rw [onTask_none h.noHeartbeat] at ht
        exact h.due t ht
    | election =>
        rw [current_onTask_self] at ht
        obtain ⟨t₀, ht₀, rfl⟩ := Option.map_eq_some_iff.mp ht
        exact h.due t₀ ht₀
  · rw [onTask_calls]
    exact h.calls

theorem Guarded.pauses (h : Guarded o n) {l : List TimerCall} (hl : ∀ c ∈ l, ∃ k, c = .pause k) :
    Guarded o (n.calls env o l) := by
  induction l generalizing n with
  | nil => exact h
  | cons c rest ih =>
      obtain ⟨k, rfl⟩ := hl c List.mem_cons_self
      exact ih (h.pause k) fun c' hc' => hl c' (List.mem_cons_of_mem _ hc')

/-- What setting the flags of a new task leaves alone. -/
theorem reflag_frame (n : TimedNode) (k : TimerKind) (t : Task) :
    (n.reflag k t).fsm = n.fsm ∧ (n.reflag k t).task = n.task ∧
      (n.reflag k t).sched.calls = n.sched.calls ∧
      ((n.reflag k t).current k).map Task.dueTime = (n.current k).map Task.dueTime := by
  unfold reflag
  cases t.cancelled <;> cases t.paused
  · exact ⟨rfl, rfl, rfl, rfl⟩
  · simp [current_onTask_self, Function.comp_def, Task.pause]
  · simp [current_onTask_self, Function.comp_def, Task.cancel]
  · simp [current_onTask_self, Function.comp_def, Task.cancel, Task.pause]

/-- A reset puts the election timer off, whenever the last heartbeat was. -/
theorem Guarded.reset (h : Guarded o n) {beat : Nat} (hbeat : beat ≤ env.clock n.reads) :
    Guarded o { n.reset env o .election with lastBeat := beat } := by
  cases hold : n.current .election with
  | none =>
      rw [reset_of_none hold]
      refine ⟨h.follows, h.noHeartbeat, ?_, h.calls⟩
      intro t ht
      exact absurd (hold.symm.trans ht) nofun
  | some old =>
      let armed := (n.onTask .election Task.cancel).replace env o .election old.maxCalls
      obtain ⟨hfsm, htask, hcalls, hdue⟩ := reflag_frame armed .election old
      rw [reset_of_some hold]
      refine ⟨?_, ?_, ?_, ?_⟩
      · show (armed.reflag .election old).fsm.Follows
        rw [hfsm]
        exact (onTask_fsm n .election _).symm ▸ h.follows
      · show (armed.reflag .election old).task .heartbeat = none
        rw [htask, replace_task, Function.update_of_ne (by decide), onTask_task]
        exact h.noHeartbeat
      · intro t ht
        have hnew : some t.dueTime = (armed.current .election).map Task.dueTime := by
          rw [← hdue]
          exact (congrArg (Option.map Task.dueTime) ht).symm
        rw [current_replace_self] at hnew
        have hreads := (later_onTask n .election Task.cancel).reads
        have hclock := env.monotone hreads
        have hinterval := o.min_le_interval (env.rand (n.onTask .election Task.cancel).draws)
        simp only [Option.map_some, Option.some.injEq] at hnew
        show beat + o.minTimeout ≤ t.dueTime
        omega
      · show (armed.reflag .election old).sched.calls = []
        rw [hcalls]
        exact (onTask_calls n .election _).trans h.calls

/-- The calls that handling a message makes on the timers of a follower. -/
theorem calls_of_follower (a : Actor) (cb : Callbacks) (e : NetEvent)
    (hrole : n.fsm.role = .follower) :
    ((if n.fsm.blocked then [] else n.fsm.handleCalls a cb (.net e)) = [] ∧ ¬ n.fsm.Accepts e) ∨
      (if n.fsm.blocked then [] else n.fsm.handleCalls a cb (.net e)) = [.reset .election] := by
  cases hblocked : n.fsm.blocked with
  | true =>
      refine Or.inl ⟨rfl, ?_⟩
      intro haccepts
      exact absurd (hblocked.symm.trans haccepts.unblocked) (by decide)
  | false =>
      simp only [Bool.false_eq_true, if_false]
      by_cases haccepts : n.fsm.Accepts e
      · exact Or.inr (RaftFSM.handleCalls_of_accepts a cb hrole haccepts)
      · rcases RaftFSM.handleCalls_of_follower a cb e hrole with hcalls | hcalls
        · exact Or.inl ⟨hcalls, haccepts⟩
        · exact Or.inr hcalls

theorem Guarded.handle (h : Guarded o n) (hclock : n.lastBeat ≤ env.clock n.reads) {e : NetEvent}
    (hstep : n.step env o a (.handle e cb) = some n') : Guarded o n' := by
  obtain ⟨n₁, hhandle, rfl⟩ := Option.map_eq_some_iff.mp hstep
  obtain ⟨s, hs, rfl⟩ := handle_fsm hhandle
  have hfollows : s.Follows := h.follows.handle hs
  rcases calls_of_follower a cb e h.follows.role with ⟨hcalls, hnot⟩ | hcalls
  · rw [hcalls, if_neg hnot]
    exact ⟨hfollows, h.noHeartbeat, h.due, h.calls⟩
  · have hbeat : (if n.fsm.Accepts e then env.clock n.reads else n.lastBeat)
        ≤ env.clock n.reads := by
      split
      · exact Nat.le_refl _
      · exact hclock
    have hreset := h.reset hbeat
    rw [hcalls]
    exact ⟨hfollows, hreset.noHeartbeat, hreset.due, hreset.calls⟩

theorem Guarded.api (h : Guarded o n) {c : ApiCall} (hstep : n.step env o a (.api c cb) = some n') :
    Guarded o n' := by
  obtain rfl := Option.some.inj hstep
  have hpaused : Guarded o
      (n.calls env o (n.fsm.callCalls (RaftFSM.signOff cb) (RaftFSM.signOffCalls cb) c)) :=
    h.pauses fun _ hc => RaftFSM.callCalls_of_follower h.follows.role hc
  exact ⟨RaftFSM.callable_follows.call cb n.fsm c h.follows, hpaused.noHeartbeat, hpaused.due,
    hpaused.calls⟩

/-- A task that is due this early is one that an earlier reset has cancelled. -/
theorem Guarded.execute (h : Guarded o n) (hheld : Held n) {now i : Nat}
    (hnow : now < n.lastBeat + o.minTimeout) (hdue : n.sched.dueTime i ≤ now)
    (hexec : n.execute env o a cb i = some n') : n' = n := by
  obtain ⟨t, k, ht, hk, ⟨-, heq⟩ | ⟨hlive, -⟩⟩ := execute_cases hexec
  · exact heq
  · have hi := hheld.sole i t k ht hk hlive
    cases k with
    | heartbeat => exact absurd (h.noHeartbeat.symm.trans hi) nofun
    | election =>
        have hlater := h.due t (by simp [current, hi, ht])
        simp only [Scheduler.dueTime, ht, Option.map_some, Option.getD_some] at hdue
        omega

/-- A pass at such a time only clears the queue. -/
theorem Guarded.passLoop (h : Guarded o n) (hheld : Tracks n) {now : Nat}
    (hnow : now < n.lastBeat + o.minTimeout) {popped : List Nat}
    (hloop : passLoop env o a cb now popped n = some n') : Guarded o n' := by
  have hboth : (Guarded o n' ∧ Tracks n') ∧ n'.lastBeat = n.lastBeat := by
    refine passLoop_invariant (I := fun n' => (Guarded o n' ∧ Tracks n') ∧ n'.lastBeat = n.lastBeat)
      ?_ ?_ hloop ⟨⟨h, hheld⟩, rfl⟩
    · rintro n₁ i ⟨⟨hg, ht⟩, hbeat⟩
      exact ⟨⟨⟨hg.follows, hg.noHeartbeat, hg.due, hg.calls⟩, ht.of_eq rfl rfl rfl rfl⟩, hbeat⟩
    · rintro n₁ n₂ i ⟨⟨hg, ht⟩, hbeat⟩ hdue hexec
      rw [hg.execute ht.toHeld (by rw [hbeat]; exact hnow) hdue hexec]
      exact ⟨⟨hg, ht⟩, hbeat⟩
  exact hboth.1.1

/-! ### Runs -/

/-- Steps in which every heartbeat that is accepted comes less than the least timeout after
the one before it, or after the start. -/
def Punctual (env : Environment) (o : RaftFSMOptions) (n : TimedNode) (x : TimedAction)
    (_ : TimedNode) : Prop :=
  match x with
  | .handle e _ => n.fsm.Accepts e → env.clock n.reads < n.lastBeat + o.minTimeout
  | _ => True

instance (env : Environment) (o : RaftFSMOptions) (n : TimedNode) :
    ∀ x n', Decidable (Punctual env o n x n')
  | .handle .., _ => inferInstanceAs (Decidable (_ → _))
  | .api .., _ | .pass .., _ => isTrue trivial

/-- Whatever the clock will show next, until the next heartbeat is overdue the node is
guarded. -/
structure Watches (env : Environment) (o : RaftFSMOptions) (n : TimedNode) : Prop where
  clock : n.lastBeat ≤ env.clock n.reads
  guarded : env.clock n.reads < n.lastBeat + o.minTimeout → Guarded o n

theorem Watches.start : Watches env o (start env o) := by
  refine ⟨env.monotone (Nat.zero_le _), ?_⟩
  intro _
  refine ⟨⟨rfl, nofun⟩, rfl, ?_, rfl⟩
  intro t ht
  obtain rfl := Option.some.inj ht
  exact Nat.add_le_add_left (o.min_le_interval _) _

theorem Later.watches (hlater : Later n n') (h : Watches env o n)
    (hguard : env.clock n'.reads < n.lastBeat + o.minTimeout → Guarded o n → Guarded o n') :
    Watches env o n' := by
  have hclock := env.monotone hlater.reads
  refine ⟨?_, ?_⟩
  · rw [hlater.lastBeat]
    exact h.clock.trans hclock
  · rw [hlater.lastBeat]
    intro hnow
    exact hguard hnow (h.guarded (Nat.lt_of_le_of_lt hclock hnow))

theorem Watches.step (h : Watches env o n) (htracks : Tracks n) {x : TimedAction}
    (hstep : n.step env o a x = some n') (hpunctual : Punctual env o n x n') : Watches env o n' := by
  cases x with
  | handle e cb =>
      have hstep' := hstep
      obtain ⟨n₁, hhandle, rfl⟩ := Option.map_eq_some_iff.mp hstep
      have hlater := later_handle hhandle
      by_cases haccepts : n.fsm.Accepts e
      · have hguarded := (h.guarded (hpunctual haccepts)).handle h.clock hstep'
        refine ⟨?_, fun _ => hguarded⟩
        rw [if_pos haccepts]
        exact env.monotone hlater.reads
      · refine Later.watches ⟨hlater.reads, ?_⟩ h fun _ hg => hg.handle h.clock hstep'
        rw [if_neg haccepts]
  | api c cb =>
      have hlater : Later n n' := by
        obtain rfl := Option.some.inj hstep
        exact ⟨(later_calls _ n).reads, (later_calls _ n).lastBeat⟩
      exact hlater.watches h fun _ hg => hg.api hstep
  | pass popped cb =>
      rcases pass_cases hstep with rfl | hpass
      · refine Later.watches ⟨Nat.le_succ _, rfl⟩ h fun _ hg => ?_
        exact ⟨hg.follows, hg.noHeartbeat, hg.due, hg.calls⟩
      · have hloop := later_passLoop hpass
        have hread : Later n { n with reads := n.reads + 2 } := ⟨Nat.le_add_right _ 2, rfl⟩
        refine (hread.trans hloop).watches h ?_
        intro hnow hg
        have hbefore : env.clock (n.reads + 1) ≤ env.clock n'.reads :=
          env.monotone ((Nat.le_succ _).trans hloop.reads)
        have hg' : Guarded o { n with reads := n.reads + 2 } :=
          ⟨hg.follows, hg.noHeartbeat, hg.due, hg.calls⟩
        exact hg'.passLoop (htracks.of_eq rfl rfl rfl rfl) (Nat.lt_of_le_of_lt hbefore hnow) hpass

theorem watches_of_reachable (h : ((timedSystem a env o).restrict (Punctual env o)).Reachable n) :
    Watches env o n := by
  refine h.invariant (I := Watches env o) ?_ ?_
  · intro n₀ hn₀
    rw [hn₀]
    exact Watches.start
  · intro n x n' hreach hn hstep
    obtain ⟨hmove, hpunctual⟩ := hstep
    exact hn.step (machine_of_timed hreach.unrestrict).1 hmove hpunctual

/-- **Heartbeats suppress elections.**  Let every heartbeat a started node accepts come less
than the least timeout after the one before it, the first after the start.  Then up to
the last of them no callable has been invoked and the node is the follower it was started
as: whatever the timeouts drawn, wherever the passes of the executor fall, and whatever
else the node receives and is asked to do in between. -/
theorem heartbeats_suppress_elections
    (hreach : ((timedSystem a env o).restrict (Punctual env o)).Reachable n)
    {id t : UInt64} (haccepts : n.fsm.Accepts (.appendEntriesReq id t))
    (hlast : ((timedSystem a env o).restrict (Punctual env o)).step n
      (.handle (.appendEntriesReq id t) cb) n') :
    n'.sched.calls = [] ∧ n'.fsm.role = .follower ∧ ∀ term, .stood term ∉ n'.fsm.trace := by
  obtain ⟨hstep, hpunctual⟩ := hlast
  have hwatches := watches_of_reachable hreach
  have hguarded := (hwatches.guarded (hpunctual haccepts)).handle hwatches.clock hstep
  exact ⟨hguarded.calls, hguarded.follows.role, hguarded.follows.unstood⟩

/-- Timeouts of ten milliseconds, and heartbeats at 3, 6, 9 and 18.  The pass between the
last two, at 15, pops the tasks that were due at 10 and 13. -/
theorem heartbeats_suppress_elections_four :
    ∃ n n', ((timedSystem firstOfThree threeAtATime { minTimeout := 10, maxTimeout := 20 }).restrict
        (Punctual threeAtATime { minTimeout := 10, maxTimeout := 20 })).Reachable n ∧
      n.sched.queue = [2, 3] ∧
      n.step threeAtATime { minTimeout := 10, maxTimeout := 20 } firstOfThree
        (.handle (.appendEntriesReq 2 1) {}) = some n' ∧
      n'.sched.calls = [] ∧ n'.fsm.role = .follower := by
  let o : RaftFSMOptions := { minTimeout := 10, maxTimeout := 20 }
  let beat : TimedAction := .handle (.appendEntriesReq 2 1) {}
  obtain ⟨n, hreach, hqueue, haccepts, hpunctual, hstep⟩ :=
    System.Reachable.of_execute (start threeAtATime o) (step threeAtATime o firstOfThree)
      (Punctual threeAtATime o) [beat, beat, beat, .pass [0, 1] {}]
      (fun n => n.sched.queue = [2, 3] ∧ n.fsm.Accepts (.appendEntriesReq 2 1) ∧
        threeAtATime.clock n.reads < n.lastBeat + o.minTimeout ∧
        (n.step threeAtATime o firstOfThree beat).isSome = true) (by decide +kernel)
  obtain ⟨n', hn'⟩ := Option.isSome_iff_exists.mp hstep
  have hlast : ((timedSystem firstOfThree threeAtATime o).restrict (Punctual threeAtATime o)).step
      n beat n' := ⟨hn', fun _ => hpunctual⟩
  obtain ⟨hcalls, hrole, -⟩ := heartbeats_suppress_elections hreach haccepts hlast
  exact ⟨n, n', hreach, hqueue, hn', hcalls, hrole⟩

end TimedNode

end Raft
