/-
A node in time does what the machine without time may do.

The machine sees two flags of the task behind each timer.  Carrying out the handlers'
calls on the tasks keeps these flags as the machine has them (`Tracks`), and of all tasks
ever made only the one a timer holds is not cancelled.  A pass that finds a task due and
not cancelled therefore calls the task of a timer, and calls it only where the machine
lets it fire.  So every reachable node in time holds a reachable machine
(`machine_of_timed`), and what is proved of the one holds of the other.
-/
import RaftElection.Timed
import RaftElection.Proofs.Delivery
import RaftElection.Proofs.Threads

namespace Raft

open Transition

/-- What `Task::call` tests. -/
def Task.flags (t : Task) : Bool × Bool := (t.paused, t.cancelled)

/-- What the machine knows of it. -/
def Timer.flags (t : Timer) : Bool × Bool := (t.paused, t.cancelled)

namespace TimedNode

variable {a : Actor} {env : Environment} {o : RaftFSMOptions} {n n' : TimedNode} {k j : TimerKind}

/-! ### The task of a timer

`reset` leaves cancelled tasks behind in the queue, so there are more tasks than timers.  The
invariant is that a task which is not cancelled is the one its timer holds.  It is kept by
whatever neither revives a task nor sets a limit on its calls.
-/

/-- The task a timer holds. -/
def current (n : TimedNode) (k : TimerKind) : Option Task :=
  (n.task k).bind fun i => n.sched.tasks[i]?

/-- The tasks and the timers fit together: a timer holds a task of its own kind, and every
task that is not cancelled is held. -/
structure Held (n : TimedNode) : Prop where
  length : n.kinds.length = n.sched.tasks.length
  kind : ∀ k i, n.task k = some i → n.kinds[i]? = some k
  sole : ∀ i t k, n.sched.tasks[i]? = some t → n.kinds[i]? = some k → t.cancelled = false →
    n.task k = some i
  /-- No task counts its calls. -/
  uncounted : ∀ t ∈ n.sched.tasks, t.maxCalls ≤ 0

theorem Held.lt (h : Held n) {i : Nat} (hi : n.task k = some i) : i < n.sched.tasks.length := by
  rw [← h.length]
  exact (List.getElem?_eq_some_iff.mp (h.kind k i hi)).1

/-- No task is held by two timers. -/
theorem Held.ne (h : Held n) (hne : j ≠ k) {i : Nat} (hi : n.task k = some i) :
    n.task j ≠ some i := by
  intro hj
  have hkind := (h.kind k i hi).symm.trans (h.kind j i hj)
  exact hne (Option.some.inj hkind).symm

theorem onTask_some {f : Task → Task} {i : Nat} (hi : n.task k = some i) :
    n.onTask k f = { n with sched := { n.sched with tasks := n.sched.tasks.modify i f } } := by
  simp only [onTask, hi]

theorem onTask_none {f : Task → Task} (hi : n.task k = none) : n.onTask k f = n := by
  simp only [onTask, hi]

@[simp] theorem onTask_task (f : Task → Task) : (n.onTask k f).task = n.task := by
  unfold onTask
  split <;> rfl

theorem current_onTask_self (f : Task → Task) : (n.onTask k f).current k = (n.current k).map f := by
  cases hi : n.task k with
  | none => simp [current, onTask_none hi, hi]
  | some i => simp [current, onTask_some hi, hi]

theorem current_onTask_of_ne (h : Held n) (hne : j ≠ k) (f : Task → Task) :
    (n.onTask k f).current j = n.current j := by
  cases hi : n.task k with
  | none => rw [onTask_none hi]
  | some i =>
      rw [onTask_some hi]
      cases hj : n.task j with
      | none => simp [current, hj]
      | some l =>
          have hil : i ≠ l := by
            intro heq
            exact h.ne hne hi (by rw [hj, heq])
          simp [current, hj, hil]

/-- A change that neither revives a cancelled task nor sets a limit. -/
structure Tame (f : Task → Task) : Prop where
  live : ∀ t, (f t).cancelled = false → t.cancelled = false
  maxCalls : ∀ t, (f t).maxCalls = t.maxCalls

theorem tame_cancel : Tame Task.cancel := ⟨by simp [Task.cancel], fun _ => rfl⟩

theorem tame_pause : Tame Task.pause := ⟨fun _ h => h, fun _ => rfl⟩

theorem tame_resume : Tame Task.resume := ⟨fun _ h => h, fun _ => rfl⟩

theorem Held.modify (h : Held n) {f : Task → Task} (hf : Tame f) (i : Nat) :
    Held { n with sched := { n.sched with tasks := n.sched.tasks.modify i f } } := by
  refine ⟨by simpa using h.length, h.kind, ?_, ?_⟩
  · intro l t j ht hj hlive
    simp only [List.getElem?_modify, Option.map_eq_map, Option.map_eq_some_iff] at ht
    obtain ⟨t₀, ht₀, rfl⟩ := ht
    refine h.sole l t₀ j ht₀ hj ?_
    split at hlive
    · exact hf.live t₀ hlive
    · exact hlive
  · intro t ht
    obtain ⟨l, ht⟩ := List.mem_iff_getElem?.mp ht
    simp only [List.getElem?_modify, Option.map_eq_map, Option.map_eq_some_iff] at ht
    obtain ⟨t₀, ht₀, rfl⟩ := ht
    have hcalls := h.uncounted t₀ (List.mem_of_getElem? ht₀)
    split
    · rw [hf.maxCalls]
      exact hcalls
    · exact hcalls

theorem Held.onTask (h : Held n) {f : Task → Task} (hf : Tame f) (k : TimerKind) :
    Held (n.onTask k f) := by
  cases hi : n.task k with
  | none =>
      rw [onTask_none hi]
      exact h
  | some i =>
      rw [onTask_some hi]
      exact h.modify hf i

/-! ### A new task for a timer -/

@[simp] theorem replace_task (m : Int) :
    (n.replace env o k m).task = Function.update n.task k (some n.sched.tasks.length) := rfl

theorem current_replace_self (m : Int) :
    (n.replace env o k m).current k
      = some { maxCalls := m
               dueTime := env.clock n.reads + o.interval (env.rand n.draws) k } := by
  simp [current, replace, runAfter, Scheduler.runAfter]

theorem current_replace_of_ne (h : Held n) (hne : j ≠ k) (m : Int) :
    (n.replace env o k m).current j = n.current j := by
  simp only [current, replace_task, Function.update_of_ne hne]
  cases hj : n.task j with
  | none => rfl
  | some i => exact List.getElem?_append_left (h.lt hj)

/-- The old task has to be cancelled before another takes its place. -/
theorem Held.replace (h : Held n) (hfree : ∀ t, n.current k = some t → t.cancelled = true) {m : Int}
    (hm : m ≤ 0) : Held (n.replace env o k m) := by
  refine ⟨?_, ?_, ?_, ?_⟩
  · simp [TimedNode.replace, runAfter, Scheduler.runAfter, h.length]
  · intro j i hi
    by_cases hjk : j = k
    · subst hjk
      simp only [replace_task, Function.update_self, Option.some.injEq] at hi
      subst hi
      simp [TimedNode.replace, runAfter, ← h.length]
    · simp only [replace_task, Function.update_of_ne hjk] at hi
      have hkind := h.kind j i hi
      rw [← hkind]
      exact List.getElem?_append_left (List.getElem?_eq_some_iff.mp hkind).1
  · intro i t j ht hj hlive
    simp only [TimedNode.replace, runAfter, Scheduler.runAfter] at ht hj ⊢
    by_cases hi : i < n.sched.tasks.length
    · rw [List.getElem?_append_left hi] at ht
      rw [List.getElem?_append_left (by rw [h.length]; exact hi)] at hj
      have hheld := h.sole i t j ht hj hlive
      have hjk : j ≠ k := by
        rintro rfl
        have hcancelled := hfree t (by simp [current, hheld, ht])
        exact absurd (hlive.symm.trans hcancelled) (by decide)
      rw [Function.update_of_ne hjk]
      exact hheld
    · have hlast := (List.getElem?_eq_some_iff.mp ht).1
      simp only [List.length_append, List.length_singleton] at hlast
      have heq : i = n.sched.tasks.length := by omega
      subst heq
      rw [← h.length] at hj
      simp only [List.getElem?_concat_length, Option.some.injEq] at hj
      rw [hj, Function.update_self]
  · intro t ht
    simp only [TimedNode.replace, runAfter, Scheduler.runAfter, List.mem_append,
      List.mem_singleton] at ht
    rcases ht with ht | rfl
    · exact h.uncounted t ht
    · exact hm

theorem reset_of_none (h : n.current k = none) : n.reset env o k = n := by
  unfold reset
  rw [show (n.task k).bind (n.sched.tasks[·]?) = none from h]

/-- The flags of a new task, set again where the old one had them. -/
def reflag (n : TimedNode) (k : TimerKind) (t : Task) : TimedNode :=
  let n := if t.cancelled then n.onTask k Task.cancel else n
  if t.paused then n.onTask k Task.pause else n

theorem reset_of_some {t : Task} (h : n.current k = some t) :
    n.reset env o k = ((n.onTask k Task.cancel).replace env o k t.maxCalls).reflag k t := by
  unfold reset
  rw [show (n.task k).bind (n.sched.tasks[·]?) = some t from h]
  rfl

theorem Held.reflag (h : Held n) (t : Task) : Held (n.reflag k t) := by
  unfold TimedNode.reflag
  cases t.cancelled <;> cases t.paused
  · exact h
  · exact h.onTask tame_pause k
  · exact h.onTask tame_cancel k
  · exact (h.onTask tame_cancel k).onTask tame_pause k

theorem Held.supersede (h : Held n) {t : Task} (ht : n.current k = some t) :
    Held ((n.onTask k Task.cancel).replace env o k t.maxCalls) := by
  refine (h.onTask tame_cancel k).replace ?_ ?_
  · intro t' ht'
    rw [current_onTask_self, ht] at ht'
    obtain rfl := Option.some.inj ht'
    rfl
  · obtain ⟨i, -, hi⟩ := Option.bind_eq_some_iff.mp ht
    exact h.uncounted t (List.mem_of_getElem? hi)

theorem Held.reset (h : Held n) : Held (n.reset env o k) := by
  cases ht : n.current k with
  | none =>
      rw [reset_of_none ht]
      exact h
  | some t =>
      rw [reset_of_some ht]
      exact (h.supersede ht).reflag t

/-! ### The flags a timer shows -/

/-- The tasks of the timers have the flags `t` gives. -/
def Shows (n : TimedNode) (t : Timers) : Prop :=
  ∀ k, (n.current k).map Task.flags = (t.task k).map Timer.flags

/-- One timer changes, in the node and in `t`. -/
theorem Shows.set {t : Timers} {timer : Option Timer} (h : Shows n t)
    (hself : (n'.current k).map Task.flags = timer.map Timer.flags)
    (hother : ∀ j, j ≠ k → n'.current j = n.current j) : Shows n' (t.setTask k timer) := by
  intro j
  by_cases hjk : j = k
  · subst hjk
    simpa [Timers.setTask] using hself
  · rw [hother j hjk]
    simpa [Timers.setTask, Function.update_of_ne hjk] using h j

theorem Shows.onTask {t : Timers} (hheld : Held n) (h : Shows n t) {f : Task → Task}
    {g : Timer → Timer} {b : Bool × Bool → Bool × Bool} (hf : ∀ t, (f t).flags = b t.flags)
    (hg : ∀ t, (g t).flags = b t.flags) :
    Shows (n.onTask k f) (t.setTask k ((t.task k).map g)) := by
  have hf' : Task.flags ∘ f = b ∘ Task.flags := funext hf
  have hg' : Timer.flags ∘ g = b ∘ Timer.flags := funext hg
  refine h.set ?_ fun j hjk => current_onTask_of_ne hheld hjk _
  rw [current_onTask_self, Option.map_map, Option.map_map, hf', hg', ← Option.map_map, h k,
    Option.map_map]

theorem Shows.schedule {t : Timers} (hheld : Held n) (h : Shows n t) (m : Int) :
    Shows (n.replace env o k m) (t.setTask k (some {})) := by
  refine h.set ?_ fun j hjk => current_replace_of_ne hheld hjk m
  rw [current_replace_self]
  rfl

theorem current_reflag_of_ne (h : Held n) (hne : j ≠ k) (t : Task) :
    (n.reflag k t).current j = n.current j := by
  unfold reflag
  cases t.cancelled <;> cases t.paused
  · rfl
  · exact current_onTask_of_ne h hne _
  · exact current_onTask_of_ne h hne _
  · exact (current_onTask_of_ne (h.onTask tame_cancel k) hne _).trans
      (current_onTask_of_ne h hne _)

theorem flags_reflag {t t₀ : Task} (h : n.current k = some t₀) (hfresh : t₀.flags = (false, false)) :
    ((n.reflag k t).current k).map Task.flags = some t.flags := by
  have hpaused := congrArg Prod.fst hfresh
  have hcancelled := congrArg Prod.snd hfresh
  simp only [Task.flags] at hpaused hcancelled
  unfold reflag
  cases hc : t.cancelled <;> cases hp : t.paused <;>
    simp [current_onTask_self, h, Task.flags, Task.cancel, Task.pause, hpaused, hcancelled, hc, hp]

/-- `reset` hands the flags on. -/
theorem Shows.reset {t : Timers} (hheld : Held n) (h : Shows n t) :
    Shows (n.reset env o k) (t.setTask k ((t.task k).map Timer.reset)) := by
  have hflags : ((t.task k).map Timer.reset).map Timer.flags = (n.current k).map Task.flags := by
    rw [Option.map_map, h k]
    rfl
  cases ht : n.current k with
  | none =>
      refine h.set ?_ fun j _ => by rw [reset_of_none ht]
      rw [reset_of_none ht, hflags]
  | some old =>
      have hcancel := hheld.onTask tame_cancel k
      have hreplaced : Held ((n.onTask k Task.cancel).replace env o k old.maxCalls) :=
        hheld.supersede ht
      rw [reset_of_some ht]
      refine h.set ?_ fun j hjk => ?_
      · rw [hflags, ht]
        exact flags_reflag (current_replace_self _) rfl
      · rw [current_reflag_of_ne hreplaced hjk, current_replace_of_ne hcancel hjk,
          current_onTask_of_ne hheld hjk]

/-! ### Scheduling once

A second `run_after` for one timer would leave two live tasks.  The code calls it only where the
handle is null, and that has to be followed through everything a handler calls.
-/

end TimedNode

/-- Along these calls nothing is scheduled for a timer that has its task. -/
def Timers.Fits : Timers → List TimerCall → Prop
  | _, [] => True
  | t, c :: rest => (∀ k, c = .schedule k → t.task k = none) ∧ Fits (t.call c) rest

theorem Timers.fits_append {t : Timers} {l l' : List TimerCall} :
    t.Fits (l ++ l') ↔ t.Fits l ∧ (t.replay l).Fits l' := by
  induction l generalizing t with
  | nil => simp [Fits, replay]
  | cons c rest ih =>
      simp only [List.cons_append, Fits, ih, and_assoc]
      rfl

namespace RaftFSM

theorem fits_start (s : RaftFSM) (k : TimerKind) :
    s.timers.Fits (startCalls k (s.timers.task k)) := by
  cases h : s.timers.task k with
  | none =>
      refine ⟨?_, trivial⟩
      intro j hj
      cases hj
      exact h
  | some t => exact ⟨nofun, trivial⟩

theorem fits_stop (t : Timers) (k : TimerKind) (task : Option Timer) : t.Fits (stopCalls k task) := by
  cases task with
  | none => trivial
  | some task => exact ⟨nofun, trivial⟩

theorem fits_reset (t : Timers) (k : TimerKind) : t.Fits [.reset k] := by
  refine ⟨?_, trivial⟩
  intro j hj
  cases hj

theorem fits_clearPrevState (s : RaftFSM) : s.timers.Fits (clearPrevStateCalls s) := by
  unfold clearPrevStateCalls
  cases s.role with
  | follower => trivial
  | candidate | leader => exact fits_stop _ _ _

/-- One list of calls after another, through the state between them. -/
theorem Replays.fits_append {s s' : RaftFSM} {l l' : List TimerCall} (h : Replays s l s')
    (hfits : s.timers.Fits l) (hfits' : s'.timers.Fits l') : s.timers.Fits (l ++ l') := by
  rw [Timers.fits_append, show s.timers.replay l = s'.timers from h]
  exact ⟨hfits, hfits'⟩

theorem fits_convertToFollower {calls : RaftFSM → List TimerCall}
    (hcalls : ∀ s : RaftFSM, s.timers.Fits (calls s)) (s : RaftFSM) :
    s.timers.Fits (convertToFollowerCalls calls s) := by
  unfold convertToFollowerCalls
  split
  · trivial
  · have hclear : Replays s (clearPrevStateCalls s) { clearPrevState s with role := .follower } :=
      (replays_clearPrevState s).of_timers rfl rfl
    have hinit := hclear.fits_append (fits_clearPrevState s)
      (fits_start { clearPrevState s with role := .follower } .election)
    refine Replays.fits_append (hclear.append (replays_start _ .election)) hinit ?_
    dsimp only
    split
    · exact hcalls _
    · trivial

theorem fits_call {f : RaftFSM → RaftFSM} {calls : RaftFSM → List TimerCall}
    (hf : ∀ s, Replays s (calls s) (f s)) (hcalls : ∀ s : RaftFSM, s.timers.Fits (calls s)) (s : RaftFSM)
    (c : ApiCall) : s.timers.Fits (callCalls f calls s c) := by
  have hstay : s.timers.Fits (stayFollowerCalls f calls s) :=
    (replays_convertToFollower hf s).fits_append (fits_convertToFollower hcalls s)
      ((replays_stop _ .election).fits_append (fits_stop _ _ _) (fits_stop _ _ _))
  cases c with
  | block | stayFollower => exact hstay
  | unblock => trivial

theorem fits_callback {f : RaftFSM → RaftFSM} {calls : RaftFSM → List TimerCall}
    (hf : ∀ s, Replays s (calls s) (f s)) (hcalls : ∀ s : RaftFSM, s.timers.Fits (calls s)) :
    ∀ (l : List ApiCall) (s : RaftFSM), s.timers.Fits (callbackCalls f calls s l) := by
  intro l
  induction l with
  | nil => intro s; trivial
  | cons c rest ih =>
      intro s
      exact (replays_call hf s c).fits_append (fits_call hf hcalls s c) (ih _)

theorem fits_signOff (cb : Callbacks) (s : RaftFSM) : s.timers.Fits (signOffCalls cb s) := by
  unfold signOffCalls
  cases cb.onSignOffLeader with
  | none => trivial
  | some calls =>
      have hid : ∀ s : RaftFSM, Replays s [] (id s) := fun _ => rfl
      exact fits_callback hid (fun _ => trivial) calls (s.emit .onSignOffLeader)

theorem fits_becomeLeader (cb : Callbacks) (s : RaftFSM) :
    s.timers.Fits (becomeLeaderCalls cb s) := by
  unfold becomeLeaderCalls
  cases cb.onBecomeLeader with
  | none => trivial
  | some calls =>
      exact fits_callback (replays_signOff cb) (fits_signOff cb) calls (s.emit .onBecomeLeader)

theorem fits_convertToLeader (cb : Callbacks) (s : RaftFSM) :
    s.timers.Fits (convertToLeaderCalls cb s) := by
  have hclear : Replays s (clearPrevStateCalls s)
      ({ incTerm (clearPrevState s) with role := .leader }.emit
        (.becameLeader (incTerm (clearPrevState s)).term)) :=
    (replays_clearPrevState s).of_timers rfl rfl
  exact (hclear.append (replays_start _ .heartbeat)).fits_append
    (hclear.fits_append (fits_clearPrevState s) (fits_start _ .heartbeat)) (fits_becomeLeader cb _)

theorem fits_candidacy (s : RaftFSM) : s.timers.Fits (candidacyCalls s) :=
  (replays_clearPrevState s).fits_append (fits_clearPrevState s)
    (fits_start (clearPrevState s) .election)

theorem fits_adoptTerm (cb : Callbacks) (s : RaftFSM) (t : UInt64) :
    s.timers.Fits (adoptTermCalls cb s t) := by
  unfold adoptTermCalls
  split
  · exact fits_convertToFollower (fits_signOff cb) { s with term := t }
  · trivial

theorem fits_handleAppendEntries (cb : Callbacks) (s : RaftFSM) (t : UInt64) :
    s.timers.Fits (handleAppendEntriesCalls cb s t) := by
  unfold handleAppendEntriesCalls
  split
  · trivial
  · split
    · trivial
    · have hreset := fits_reset s.timers .election
      dsimp only
      by_cases hrole : s.role = .candidate
      · rw [if_pos hrole]
        exact (replays_reset s).fits_append hreset (fits_convertToFollower (fits_signOff cb) _)
      · rw [if_neg hrole]
        exact hreset

/-- The calls of `handle` schedule a timer only where it has no task. -/
theorem fits_handle (a : Actor) (cb : Callbacks) (s : RaftFSM) (event : RaftEvent) :
    s.timers.Fits (handleCalls a cb s event) := by
  unfold handleCalls
  refine (replays_adoptTerm cb s event.getTerm).fits_append (fits_adoptTerm cb s event.getTerm) ?_
  generalize adoptTerm cb s event.getTerm = s₁
  cases event with
  | electionTimeout =>
      simp only [handleElectionTimeoutCalls]
      cases s₁.role with
      | follower | candidate => exact fits_candidacy s₁
      | leader => trivial
  | net e =>
      cases e with
      | requestVoteReq serverId term =>
          simp only [handleRequestVoteCalls]
          split
          · trivial
          · split
            · exact fits_reset _ _
            · trivial
      | requestVoteRes serverId term voteGranted =>
          simp only [handleRequestVoteResponseCalls]
          split
          · trivial
          · split
            · split
              · exact fits_convertToLeader cb
                  { s₁ with votedPeers := insert serverId s₁.votedPeers }
              · trivial
            · trivial
      | appendEntriesReq serverId term => exact fits_handleAppendEntries cb s₁ term
      | appendEntriesRes serverId term => trivial

end RaftFSM

namespace TimedNode

variable {a : Actor} {env : Environment} {o : RaftFSMOptions} {n n' : TimedNode}

/-- A call on the tasks does to the flags what it does to the timers. -/
theorem Held.call {t : Timers} (h : Held n) (hshows : Shows n t) {c : TimerCall}
    (hfits : ∀ k, c = .schedule k → t.task k = none) :
    Held (n.call env o c) ∧ Shows (n.call env o c) (t.call c) := by
  cases c with
  | schedule k =>
      have hnone : n.current k = none := by
        have hflags := hshows k
        rw [hfits k rfl] at hflags
        exact Option.map_eq_none_iff.mp hflags
      refine ⟨h.replace ?_ (by decide), hshows.schedule h (-1)⟩
      intro t ht
      exact absurd (hnone.symm.trans ht) nofun
  | pause k =>
      refine ⟨h.onTask tame_pause k, ?_⟩
      exact hshows.onTask h (b := fun b => (true, b.2)) (fun _ => rfl) fun _ => rfl
  | resume k =>
      refine ⟨h.onTask tame_resume k, ?_⟩
      exact hshows.onTask h (b := fun b => (false, b.2)) (fun _ => rfl) fun _ => rfl
  | reset k => exact ⟨h.reset, hshows.reset h⟩

theorem Held.calls {l : List TimerCall} {t : Timers} (h : Held n) (hshows : Shows n t)
    (hfits : t.Fits l) : Held (n.calls env o l) ∧ Shows (n.calls env o l) (t.replay l) := by
  induction l generalizing n t with
  | nil => exact ⟨h, hshows⟩
  | cons c rest ih =>
      obtain ⟨hcall, hrest⟩ := hfits
      obtain ⟨hheld, hshown⟩ := h.call hshows hcall
      exact ih hheld hshown hrest

/-! ### Every step of the node is a run of the machine

A handler is carried out twice, once on the machine and once, call by call, on the scheduler.  The
two stay together, and a pass calls no task that the machine would not.  So a node with a
scheduler is, seen from its machine, a run of the machine, and what is known of those holds here.
-/

/-- The tasks are in order, with the flags the machine has. -/
structure Tracks (n : TimedNode) : Prop extends Held n where
  shows : Shows n n.fsm.timers

/-- Only the tasks and the timers count. -/
theorem Tracks.of_eq (h : Tracks n) (htasks : n'.sched.tasks = n.sched.tasks)
    (hkinds : n'.kinds = n.kinds) (htask : n'.task = n.task)
    (htimers : n'.fsm.timers = n.fsm.timers) : Tracks n' := by
  refine ⟨⟨?_, ?_, ?_, ?_⟩, ?_⟩
  · rw [hkinds, htasks]
    exact h.length
  · rw [hkinds, htask]
    exact h.kind
  · rw [htasks, hkinds, htask]
    exact h.sole
  · rw [htasks]
    exact h.uncounted
  · intro k
    rw [htimers, ← h.shows k, current, htask, htasks]
    rfl

/-- What a node looks like once the calls of an entry are carried out. -/
theorem Tracks.calls (h : Tracks n) {l : List TimerCall} {s : RaftFSM} (hfits : n.fsm.timers.Fits l)
    (hreplays : RaftFSM.Replays n.fsm l s) : Tracks { n.calls env o l with fsm := s } := by
  have hcalls : Held (n.calls env o l) ∧ Shows (n.calls env o l) (n.fsm.timers.replay l) :=
    h.toHeld.calls h.shows hfits
  obtain ⟨hheld, hshows⟩ := hcalls
  rw [show n.fsm.timers.replay l = s.timers from hreplays] at hshows
  exact ⟨⟨hheld.length, hheld.kind, hheld.sole, hheld.uncounted⟩, hshows⟩

theorem handle_fsm {cb : Callbacks} {event : RaftEvent}
    (hhandle : n.handle env o a cb event = some n') :
    ∃ s, RaftFSM.handle a cb n.fsm event = .ok s ∧
      n' = { n.calls env o (if n.fsm.blocked then [] else n.fsm.handleCalls a cb event) with
        fsm := s } := by
  unfold handle at hhandle
  split at hhandle
  · cases hhandle
  · rename_i s hs
    exact ⟨s, hs, (Option.some.inj hhandle).symm⟩

theorem Tracks.handle (h : Tracks n) {cb : Callbacks} {event : RaftEvent}
    (hhandle : n.handle env o a cb event = some n') : Tracks n' := by
  obtain ⟨s, hs, rfl⟩ := handle_fsm hhandle
  cases hblocked : n.fsm.blocked with
  | true =>
      refine h.calls trivial ?_
      simp only [RaftFSM.handle, hblocked, if_true, Except.ok.injEq] at hs
      rw [hs]
      rfl
  | false =>
      exact h.calls (RaftFSM.fits_handle a cb n.fsm event) (RaftFSM.replays_handle hblocked hs)

/-- Counting the calls of a task that has no limit does nothing. -/
theorem Held.modify_countCall (h : Held n) (i : Nat) :
    n.sched.tasks.modify i Task.countCall = n.sched.tasks := by
  apply List.ext_getElem?
  intro l
  rw [List.getElem?_modify]
  cases ht : n.sched.tasks[l]? with
  | none => rfl
  | some t =>
      have hcalls := h.uncounted t (List.mem_of_getElem? ht)
      have hcount : t.countCall = t := by
        unfold Task.countCall
        rw [if_neg (by omega)]
      by_cases hil : i = l
      · simp [hil, hcount]
      · simp [hil]

/-- A change that keeps the flags of a task shows in no timer. -/
theorem Shows.modify {t : Timers} (h : Shows n t) {f : Task → Task}
    (hf : ∀ t, (f t).flags = t.flags) (i : Nat) :
    Shows { n with sched := { n.sched with tasks := n.sched.tasks.modify i f } } t := by
  intro k
  rw [← h k]
  unfold current
  cases n.task k with
  | none => rfl
  | some l =>
      simp only [Option.bind_some, List.getElem?_modify]
      cases n.sched.tasks[l]? with
      | none => rfl
      | some t =>
          by_cases hil : i = l
          · simp [hil, hf]
          · simp [hil]

theorem Tracks.renewTask (h : Tracks n) (i : Nat) (k : TimerKind) :
    Tracks (n.renewTask env o i k) := by
  let renew (t : Task) : Task := t.renew (env.clock n.reads) (o.interval (env.rand n.draws) k)
  have htame : Tame renew := ⟨fun _ h => h, fun _ => rfl⟩
  have hheld := h.toHeld.modify htame i
  have hshows := h.shows.modify (f := renew) (fun _ => rfl) i
  exact ⟨⟨hheld.length, hheld.kind, hheld.sole, hheld.uncounted⟩, hshows⟩

/-- The machine lets a task fire that `Task::call` finds neither paused nor cancelled. -/
theorem Tracks.live (h : Tracks n) {i : Nat} {k : TimerKind} {t : Task} (hi : n.task k = some i)
    (ht : n.sched.tasks[i]? = some t) (hcall : t.call.1 = true) :
    Timer.Live (n.fsm.timers.task k) := by
  have hflags : some t.flags = (n.fsm.timers.task k).map Timer.flags := by
    rw [← h.shows k]
    simp [current, hi, ht]
  obtain ⟨timer, htimer, heq⟩ := Option.map_eq_some_iff.mp hflags.symm
  have hboth : t.cancelled = false ∧ t.paused = false := by
    unfold Task.call at hcall
    split at hcall
    · assumption
    · cases hcall
  simp only [Timer.flags, Task.flags, Prod.mk.injEq] at heq
  exact ⟨timer, htimer, heq.1.trans hboth.2, heq.2.trans hboth.1⟩

/-- The callable of a timer that may fire is a step of the machine. -/
theorem Tracks.callable (h : Tracks n) {cb : Callbacks} {k : TimerKind}
    (hlive : Timer.Live (n.fsm.timers.task k)) (hcall : n.callable env o a cb k = some n') :
    Tracks n' ∧ (machineSystem a).Run n.fsm n'.fsm := by
  cases k with
  | election =>
      refine ⟨h.handle hcall, ?_⟩
      obtain ⟨s, hs, rfl⟩ := handle_fsm hcall
      have hfires : Timer.Live n.fsm.electionTimeoutTask := hlive
      refine (System.Run.refl _).tail (a := .callElection cb) ?_
      show RaftFSM.step a n.fsm (.callElection cb) = some s
      rw [RaftFSM.step, if_pos hfires, hs]
      rfl
  | heartbeat =>
      obtain rfl := Option.some.inj hcall
      have hfires : Timer.Live n.fsm.heartbeatTask := hlive
      refine ⟨h.of_eq rfl rfl rfl ?_, (System.Run.refl _).tail (a := .callHeartbeat) ?_⟩
      · show (n.fsm.sendAll (.appendEntriesReq a.self n.fsm.term) a.getPeers).timers = _
        rw [RaftFSM.sendAll_eq]
        rfl
      · show RaftFSM.step a n.fsm .callHeartbeat = some _
        rw [RaftFSM.step, if_pos hfires]

/-- `Task::call` does nothing, or runs the callable. -/
theorem callTask_cases {cb : Callbacks} {i : Nat} {k : TimerKind}
    (hcall : n.callTask env o a cb i k = some n') :
    n' = n ∨ ∃ t n₁, n.sched.tasks[i]? = some t ∧ t.call.1 = true ∧
      callable env o a cb { n with sched := { n.sched with calls := i :: n.sched.calls } } k
        = some n₁ ∧
      n' = { n₁ with
        sched := { n₁.sched with tasks := n₁.sched.tasks.modify i Task.countCall } } := by
  unfold callTask at hcall
  obtain ⟨t, ht, hcall⟩ := Option.bind_eq_some_iff.mp hcall
  split at hcall
  · rename_i hfires
    obtain ⟨n₁, hn₁, hcall⟩ := Option.bind_eq_some_iff.mp hcall
    exact Or.inr ⟨t, n₁, ht, hfires, hn₁, (Option.some.inj hcall).symm⟩
  · exact Or.inl (Option.some.inj hcall).symm

/-- A task that is popped is dropped, or called and renewed. -/
theorem execute_cases {cb : Callbacks} {i : Nat} (hexec : n.execute env o a cb i = some n') :
    ∃ t k, n.sched.tasks[i]? = some t ∧ n.kinds[i]? = some k ∧
      (t.cancelled = true ∧ n' = n ∨
        t.cancelled = false ∧
          ∃ n₁, n.callTask env o a cb i k = some n₁ ∧ n' = n₁.renewTask env o i k) := by
  unfold execute at hexec
  obtain ⟨t, ht, hexec⟩ := Option.bind_eq_some_iff.mp hexec
  obtain ⟨k, hk, hexec⟩ := Option.bind_eq_some_iff.mp hexec
  refine ⟨t, k, ht, hk, ?_⟩
  cases hcancelled : t.cancelled with
  | true =>
      rw [if_pos hcancelled] at hexec
      exact Or.inl ⟨rfl, (Option.some.inj hexec).symm⟩
  | false =>
      rw [if_neg (by simp [hcancelled])] at hexec
      obtain ⟨n₁, hcall, hexec⟩ := Option.bind_eq_some_iff.mp hexec
      exact Or.inr ⟨rfl, n₁, hcall, (Option.some.inj hexec).symm⟩

/-- A round finds nothing due, or pops what it does. -/
theorem pass_cases {cb : Callbacks} {popped : List Nat}
    (hpass : n.pass env o a cb popped = some n') :
    n' = { n with reads := n.reads + 1 } ∨
      passLoop env o a cb (env.clock (n.reads + 1)) popped { n with reads := n.reads + 2 }
        = some n' := by
  unfold pass at hpass
  split at hpass
  · cases hpass
  · split at hpass
    · split at hpass
      · exact Or.inl (Option.some.inj hpass).symm
      · cases hpass
    · exact Or.inr hpass

theorem Tracks.callTask (h : Tracks n) {cb : Callbacks} {i : Nat} {k : TimerKind}
    (hi : n.task k = some i) (hcall : n.callTask env o a cb i k = some n') :
    Tracks n' ∧ (machineSystem a).Run n.fsm n'.fsm := by
  rcases callTask_cases hcall with rfl | ⟨t, n₁, ht, hfires, hn₁, rfl⟩
  · exact ⟨h, System.Run.refl _⟩
  · have hnoted : Tracks { n with sched := { n.sched with calls := i :: n.sched.calls } } :=
      h.of_eq rfl rfl rfl rfl
    obtain ⟨htracks, hrun⟩ := hnoted.callable (h.live hi ht hfires) hn₁
    rw [htracks.modify_countCall i]
    exact ⟨htracks, hrun⟩

theorem Tracks.execute (h : Tracks n) {cb : Callbacks} {i : Nat}
    (hexec : n.execute env o a cb i = some n') :
    Tracks n' ∧ (machineSystem a).Run n.fsm n'.fsm := by
  obtain ⟨t, k, ht, hk, ⟨-, rfl⟩ | ⟨hlive, n₁, hcall, rfl⟩⟩ := execute_cases hexec
  · exact ⟨h, System.Run.refl _⟩
  · -- A task that is not cancelled is the one its timer holds.
    obtain ⟨htracks, hrun⟩ := h.callTask (h.sole i t k ht hk hlive) hcall
    exact ⟨htracks.renewTask i k, hrun⟩

/-- What taking a task off the queue and what executing it preserve, a pass preserves. -/
theorem passLoop_invariant {I : TimedNode → Prop} {cb : Callbacks} {now : Nat}
    (hpop : ∀ n i, I n → I { n with sched := { n.sched with queue := n.sched.queue.erase i } })
    (hexec : ∀ n n' i, I n → n.sched.dueTime i ≤ now → execute env o a cb n i = some n' → I n')
    {popped : List Nat} (h : passLoop env o a cb now popped n = some n') (hn : I n) : I n' := by
  induction popped generalizing n with
  | nil =>
      unfold passLoop at h
      split at h
      · obtain rfl := Option.some.inj h
        exact hn
      · cases h
  | cons i rest ih =>
      unfold passLoop at h
      split at h
      · rename_i hdue
        obtain ⟨n₁, hn₁, h⟩ := Option.bind_eq_some_iff.mp h
        exact ih h (hexec _ n₁ i (hpop n i hn) hdue.2 hn₁)
      · cases h

theorem Tracks.passLoop (h : Tracks n) {cb : Callbacks} {now : Nat} {popped : List Nat}
    (hloop : passLoop env o a cb now popped n = some n') :
    Tracks n' ∧ (machineSystem a).Run n.fsm n'.fsm := by
  refine passLoop_invariant (I := fun n' => Tracks n' ∧ (machineSystem a).Run n.fsm n'.fsm) ?_ ?_
    hloop ⟨h, System.Run.refl _⟩
  · intro n₁ i hn₁
    exact ⟨hn₁.1.of_eq rfl rfl rfl rfl, hn₁.2⟩
  · intro n₁ n₂ i hn₁ _ hexec
    obtain ⟨htracks, hrun⟩ := hn₁.1.execute hexec
    exact ⟨htracks, hn₁.2.trans hrun⟩

theorem Tracks.step (h : Tracks n) {x : TimedAction} (hstep : n.step env o a x = some n') :
    Tracks n' ∧ (machineSystem a).Run n.fsm n'.fsm := by
  cases x with
  | handle e cb =>
      obtain ⟨n₁, hhandle, rfl⟩ := Option.map_eq_some_iff.mp hstep
      refine ⟨(h.handle hhandle).of_eq rfl rfl rfl rfl, ?_⟩
      obtain ⟨s, hs, rfl⟩ := handle_fsm hhandle
      refine (System.Run.refl _).tail (a := .handle (.net e) cb) ?_
      show RaftFSM.step a n.fsm (.handle (.net e) cb) = some s
      rw [RaftFSM.step, hs]
      rfl
  | api c cb =>
      obtain rfl := Option.some.inj hstep
      refine ⟨h.calls ?_ ?_, (System.Run.refl _).tail (a := .api c cb) rfl⟩
      · exact RaftFSM.fits_call (RaftFSM.replays_signOff cb) (RaftFSM.fits_signOff cb) n.fsm c
      · exact RaftFSM.replays_call (RaftFSM.replays_signOff cb) n.fsm c
  | pass popped cb =>
      rcases pass_cases hstep with rfl | hloop
      · exact ⟨h.of_eq rfl rfl rfl rfl, System.Run.refl _⟩
      · have hread : Tracks { n with reads := n.reads + 2 } := h.of_eq rfl rfl rfl rfl
        exact hread.passLoop hloop

theorem Tracks.start : Tracks (start env o) := by
  have hempty : Tracks {} :=
    ⟨⟨rfl, nofun, nofun, nofun⟩, fun k => by cases k <;> rfl⟩
  have hcalls : Tracks { ({} : TimedNode).calls env o (RaftFSM.initFollowerStateCalls {}) with
      fsm := RaftFSM.started } :=
    hempty.calls (RaftFSM.fits_start {} .election) (RaftFSM.replays_start {} .election)
  exact hcalls.of_eq rfl rfl rfl rfl

/-- **A node in time is a machine.**  Whatever the clock and the random numbers, the tasks
keep the flags the machine has, and the machine gets nowhere it could not get without a
clock. -/
theorem machine_of_timed (h : (timedSystem a env o).Reachable n) :
    Tracks n ∧ (machineSystem a).Reachable n.fsm := by
  refine h.invariant (I := fun n => Tracks n ∧ (machineSystem a).Reachable n.fsm) ?_ ?_
  · intro n₀ hn₀
    rw [hn₀]
    exact ⟨Tracks.start, _, rfl, System.Run.refl _⟩
  · intro n x n' _ hn hstep
    obtain ⟨htracks, hrun⟩ := hn.1.step hstep
    exact ⟨htracks, hn.2.run hrun⟩

/-! ### Messages of an older term -/

theorem handleCalls_stale {cb : Callbacks} {s : RaftFSM} {e : NetEvent}
    (hstale : e.getTerm < s.term) : s.handleCalls a cb (.net e) = [] := by
  have hnot : ¬ s.term < e.getTerm := UInt64.lt_asymm hstale
  have hadopt : s.adoptTermCalls cb e.getTerm = [] := by
    unfold RaftFSM.adoptTermCalls
    rw [if_neg hnot]
  simp only [RaftFSM.handleCalls, RaftEvent.getTerm, hadopt, RaftFSM.adoptTerm_of_not_lt cb hnot,
    List.nil_append]
  cases e with
  | requestVoteReq id t => exact if_pos hstale
  | requestVoteRes id t granted => exact if_pos hstale
  | appendEntriesReq id t => exact if_pos hstale
  | appendEntriesRes id t => rfl

/-- **A message of an older term changes nothing.**  An unblocked node, in whatever state,
answers a request from a member of the cluster with its own term and is silent at a
response; its role, term, vote, votes counted, tasks and queue stay as they are and no
callback is invoked. -/
theorem stale_changes_nothing (n : TimedNode) {e : NetEvent} (cb : Callbacks)
    (hblocked : n.fsm.blocked = false) (hmem : e.getServerId ∈ a.peers.ids)
    (hstale : e.getTerm < n.fsm.term) :
    n.step env o a (.handle e cb)
      = some { n with
          fsm := { n.fsm with trace := RaftFSM.staleReply a n.fsm e ++ n.fsm.trace } } := by
  have haccepts : ¬ n.fsm.Accepts e := by
    intro h
    cases e with
    | appendEntriesReq id t => exact absurd h.2 (UInt64.not_le.mpr hstale)
    | requestVoteReq | requestVoteRes | appendEntriesRes => exact h
  simp only [step, handle, RaftFSM.handle_stale cb hblocked hmem hstale, handleCalls_stale hstale,
    ite_self, if_neg haccepts, Option.map_some]
  rfl

/-- A heartbeat of term 3 reaches a node that is in term 5. -/
theorem stale_changes_nothing_old_leader :
    ∃ n, (timedSystem firstOfThree threeAtATime {}).Reachable n ∧
      n.step threeAtATime {} firstOfThree (.handle (.appendEntriesReq 3 3) {})
        = some { n with
            fsm := { n.fsm with trace := .sent 3 (.appendEntriesRes 1 5) :: n.fsm.trace } } := by
  obtain ⟨n, hreach, hblocked, hterm⟩ := System.Reachable.of_execute (start threeAtATime {})
    (step threeAtATime {} firstOfThree) (fun _ _ _ => True) [.handle (.appendEntriesReq 2 5) {}]
    (fun n => n.fsm.blocked = false ∧ n.fsm.term = 5) (by decide +kernel)
  refine ⟨n, hreach.unrestrict, ?_⟩
  have hanswer : RaftFSM.staleReply firstOfThree n.fsm (.appendEntriesReq 3 3)
      = [.sent 3 (.appendEntriesRes 1 5)] := by
    simp only [RaftFSM.staleReply, hterm]
    rfl
  rw [stale_changes_nothing n {} hblocked (by decide) (by rw [hterm]; decide), hanswer]
  rfl

end TimedNode

end Raft
