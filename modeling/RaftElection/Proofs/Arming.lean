/-
The task of a timer is queued and due in time, and what leaves it so.

A task that a timer holds and that is not cancelled is in the queue, or is the one a pass has
just popped, and is due at most the longest interval after the last reading of the clock
(`Armed`).  Handlers touch this by the calls they make on the timers.  A timer they neither
reset nor schedule keeps its task, its due time and its place in the queue (`keeps_calls`);
none is scheduled that has a task, and the only one ever reset is the election timer
(`reset_mem_handleCalls`).
-/
import RaftElection.Proofs.Suppression

namespace Raft

open Transition

/-! ### Which calls reset a timer -/

namespace RaftFSM

variable {a : Actor} {cb : Callbacks} {s s' : RaftFSM} {k : TimerKind} {l l' : List TimerCall}

/-- None of these calls is a `reset`. -/
def ResetFree (l : List TimerCall) : Prop := ∀ k, .reset k ∉ l

theorem resetFree_nil : ResetFree [] := fun _ => List.not_mem_nil

theorem ResetFree.append (h : ResetFree l) (h' : ResetFree l') : ResetFree (l ++ l') := by
  intro k hk
  rcases List.mem_append.mp hk with hk | hk
  · exact h k hk
  · exact h' k hk

theorem resetFree_start (k : TimerKind) (t : Option Timer) : ResetFree (startCalls k t) := by
  intro j
  cases t <;> simp [startCalls]

theorem resetFree_stop (k : TimerKind) (t : Option Timer) : ResetFree (stopCalls k t) := by
  intro j
  cases t <;> simp [stopCalls]

theorem resetFree_clearPrevState (s : RaftFSM) : ResetFree (clearPrevStateCalls s) := by
  unfold clearPrevStateCalls
  cases s.role with
  | follower => exact resetFree_nil
  | candidate | leader => exact resetFree_stop _ _

theorem resetFree_convertToFollower {calls : RaftFSM → List TimerCall}
    (hcalls : ∀ s, ResetFree (calls s)) (s : RaftFSM) :
    ResetFree (convertToFollowerCalls calls s) := by
  unfold convertToFollowerCalls
  split
  · exact resetFree_nil
  · refine ((resetFree_clearPrevState s).append (resetFree_start _ _)).append ?_
    split
    · exact hcalls _
    · exact resetFree_nil

theorem resetFree_call {f : RaftFSM → RaftFSM} {calls : RaftFSM → List TimerCall}
    (hcalls : ∀ s, ResetFree (calls s)) (s : RaftFSM) (c : ApiCall) :
    ResetFree (callCalls f calls s c) := by
  have hstay : ResetFree (stayFollowerCalls f calls s) :=
    (resetFree_convertToFollower hcalls s).append ((resetFree_stop _ _).append (resetFree_stop _ _))
  cases c with
  | block | stayFollower => exact hstay
  | unblock => exact resetFree_nil

theorem resetFree_callback {f : RaftFSM → RaftFSM} {calls : RaftFSM → List TimerCall}
    (hcalls : ∀ s, ResetFree (calls s)) :
    ∀ (l : List ApiCall) (s : RaftFSM), ResetFree (callbackCalls f calls s l) := by
  intro l
  induction l with
  | nil => exact fun _ => resetFree_nil
  | cons c rest ih => exact fun s => (resetFree_call hcalls s c).append (ih _)

theorem resetFree_signOff (cb : Callbacks) (s : RaftFSM) : ResetFree (signOffCalls cb s) := by
  unfold signOffCalls
  cases cb.onSignOffLeader with
  | none => exact resetFree_nil
  | some calls => exact resetFree_callback (fun _ => resetFree_nil) calls _

theorem resetFree_becomeLeader (cb : Callbacks) (s : RaftFSM) :
    ResetFree (becomeLeaderCalls cb s) := by
  unfold becomeLeaderCalls
  cases cb.onBecomeLeader with
  | none => exact resetFree_nil
  | some calls => exact resetFree_callback (resetFree_signOff cb) calls _

theorem resetFree_convertToLeader (cb : Callbacks) (s : RaftFSM) :
    ResetFree (convertToLeaderCalls cb s) :=
  ((resetFree_clearPrevState s).append (resetFree_start _ _)).append (resetFree_becomeLeader cb _)

theorem resetFree_adoptTerm (cb : Callbacks) (s : RaftFSM) (t : UInt64) :
    ResetFree (adoptTermCalls cb s t) := by
  unfold adoptTermCalls
  split
  · exact resetFree_convertToFollower (resetFree_signOff cb) _
  · exact resetFree_nil

/-- The only timer that is ever reset is the election timer. -/
theorem reset_mem_handleCalls {event : RaftEvent} (h : .reset k ∈ handleCalls a cb s event) :
    k = .election := by
  unfold handleCalls at h
  rcases List.mem_append.mp h with h | h
  · exact absurd h (resetFree_adoptTerm cb s _ k)
  revert h
  generalize adoptTerm cb s event.getTerm = s₁
  cases event with
  | electionTimeout =>
      intro h
      refine absurd h ?_
      dsimp only [handleElectionTimeoutCalls]
      cases s₁.role with
      | follower | candidate =>
          exact ((resetFree_clearPrevState s₁).append (resetFree_start _ _)) k
      | leader => exact List.not_mem_nil
  | net e =>
      cases e with
      | requestVoteReq id t =>
          simp only [handleRequestVoteCalls]
          split
          · exact fun h => absurd h List.not_mem_nil
          · split
            · exact fun h => TimerCall.reset.inj (List.mem_singleton.mp h)
            · exact fun h => absurd h List.not_mem_nil
      | requestVoteRes id t granted =>
          intro h
          refine absurd h ?_
          dsimp only [handleRequestVoteResponseCalls]
          split
          · exact List.not_mem_nil
          · split
            · split
              · exact resetFree_convertToLeader cb _ k
              · exact List.not_mem_nil
            · exact List.not_mem_nil
      | appendEntriesReq id t =>
          simp only [handleAppendEntriesCalls]
          split
          · exact fun h => absurd h List.not_mem_nil
          · split
            · exact fun h => absurd h List.not_mem_nil
            · intro h
              rcases List.mem_cons.mp h with heq | h
              · exact TimerCall.reset.inj heq
              · refine absurd h ?_
                split
                · exact resetFree_convertToFollower (resetFree_signOff cb) _ k
                · exact List.not_mem_nil
      | appendEntriesRes id t => exact fun h => absurd h List.not_mem_nil

end RaftFSM

/-- The longest interval of a timer. -/
def RaftFSMOptions.maxInterval (o : RaftFSMOptions) : TimerKind → Nat
  | .election => o.maxTimeout
  | .heartbeat => o.heartBeatRate

theorem RaftFSMOptions.interval_le_max (o : RaftFSMOptions) (rand : Nat) (k : TimerKind) :
    o.interval rand k ≤ o.maxInterval k := by
  cases k with
  | election =>
      have hgap : 0 < o.maxTimeout - o.minTimeout := Nat.sub_pos_of_lt o.lt
      have hmod := Nat.mod_lt rand hgap
      have hlt := o.lt
      simp only [interval, maxInterval]
      omega
  | heartbeat => exact Nat.le_refl _

namespace TimedNode

variable {a : Actor} {env : Environment} {o : RaftFSMOptions} {n n₁ n₂ n₃ n' : TimedNode}
  {k j : TimerKind} {cb : Callbacks} {l : Option Nat}

/-! ### When the task of a timer is due

Every task is pushed with a due time of now and an interval, and no interval is longer than the
longest of its timer.  The clock does not go back, so a task is never further away than that.
-/

/-- A task that a timer holds and that is not cancelled is queued and due at most the longest
interval from now on, apart from the one task `l` that a pass has popped. -/
def Armed (env : Environment) (o : RaftFSMOptions) (l : Option Nat) (n : TimedNode) : Prop :=
  ∀ k i t, n.task k = some i → n.sched.tasks[i]? = some t → t.cancelled = false →
    (i ∈ n.sched.queue ∨ l = some i) ∧ t.dueTime ≤ env.clock n.reads + o.maxInterval k

theorem Armed.onTask (h : Armed env o l n) {f : Task → Task} (hf : Tame f)
    (hdue : ∀ t, (f t).dueTime = t.dueTime) (k : TimerKind) : Armed env o l (n.onTask k f) := by
  cases hk : n.task k with
  | none =>
      rw [onTask_none hk]
      exact h
  | some m =>
      rw [onTask_some hk]
      intro j i t hi ht hlive
      simp only [List.getElem?_modify, Option.map_eq_map, Option.map_eq_some_iff] at ht
      obtain ⟨t₀, ht₀, rfl⟩ := ht
      split at hlive
      · rename_i hmi
        rw [if_pos hmi, hdue]
        exact h j i t₀ hi ht₀ (hf.live t₀ hlive)
      · rename_i hmi
        rw [if_neg hmi]
        exact h j i t₀ hi ht₀ hlive

theorem Armed.replace (h : Armed env o l n) (hheld : Held n) (k : TimerKind) (m : Int) :
    Armed env o l (n.replace env o k m) := by
  have hclock : env.clock n.reads ≤ env.clock (n.reads + 1) := env.monotone (Nat.le_succ _)
  intro j i t hi ht hlive
  by_cases hjk : j = k
  · subst hjk
    have hinterval := o.interval_le_max (env.rand n.draws) j
    rw [replace_task, Function.update_self, Option.some.injEq] at hi
    subst hi
    simp only [TimedNode.replace, runAfter, Scheduler.runAfter, List.getElem?_concat_length,
      Option.some.injEq] at ht
    subst ht
    refine ⟨Or.inl (List.mem_append_right _ (List.mem_singleton_self _)), ?_⟩
    show env.clock n.reads + _ ≤ env.clock (n.reads + 1) + _
    omega
  · rw [replace_task, Function.update_of_ne hjk] at hi
    have hold : n.sched.tasks[i]? = some t :=
      (List.getElem?_append_left (hheld.lt hi)).symm.trans ht
    obtain ⟨hqueue, hdue⟩ := h j i t hi hold hlive
    refine ⟨hqueue.imp_left (List.mem_append_left _), ?_⟩
    show t.dueTime ≤ env.clock (n.reads + 1) + _
    omega

theorem Armed.reflag (h : Armed env o l n) (t : Task) : Armed env o l (n.reflag k t) := by
  unfold TimedNode.reflag
  cases t.cancelled <;> cases t.paused
  · exact h
  · exact h.onTask tame_pause (fun _ => rfl) k
  · exact h.onTask tame_cancel (fun _ => rfl) k
  · exact (h.onTask tame_cancel (fun _ => rfl) k).onTask tame_pause (fun _ => rfl) k

theorem Armed.call (h : Armed env o l n) (hheld : Held n) (c : TimerCall) :
    Armed env o l (n.call env o c) := by
  cases c with
  | schedule k => exact h.replace hheld k (-1)
  | pause k => exact h.onTask tame_pause (fun _ => rfl) k
  | resume k => exact h.onTask tame_resume (fun _ => rfl) k
  | reset k =>
      show Armed env o l (n.reset env o k)
      cases ht : n.current k with
      | none =>
          rw [reset_of_none ht]
          exact h
      | some t =>
          have hcancelled := h.onTask tame_cancel (fun _ => rfl) k
          rw [reset_of_some ht]
          exact (hcancelled.replace (hheld.onTask tame_cancel k) k t.maxCalls).reflag t

theorem Armed.calls {t : Timers} {c : List TimerCall} (h : Armed env o l n) (hheld : Held n)
    (hshows : Shows n t) (hfits : t.Fits c) : Armed env o l (n.calls env o c) := by
  induction c generalizing n t with
  | nil => exact h
  | cons c rest ih =>
      obtain ⟨hcall, hrest⟩ := hfits
      obtain ⟨hheld', hshows'⟩ := hheld.call hshows hcall
      exact ih (h.call hheld c) hheld' hshows' hrest

/-- Only the tasks, the queue and the clock count. -/
theorem Armed.of_eq (h : Armed env o l n) (htask : n'.task = n.task)
    (htasks : n'.sched.tasks = n.sched.tasks) (hqueue : n'.sched.queue = n.sched.queue)
    (hreads : n.reads ≤ n'.reads) : Armed env o l n' := by
  have hclock := env.monotone hreads
  intro j i t hi ht hlive
  rw [htask] at hi
  rw [htasks] at ht
  obtain ⟨hmem, hdue⟩ := h j i t hi ht hlive
  rw [hqueue]
  exact ⟨hmem, by omega⟩

theorem Armed.handle {event : RaftEvent} (h : Armed env o l n) (htracks : Tracks n)
    (hhandle : n.handle env o a cb event = some n') : Armed env o l n' := by
  obtain ⟨s, hs, rfl⟩ := handle_fsm hhandle
  have hfits : n.fsm.timers.Fits
      (if n.fsm.blocked then [] else n.fsm.handleCalls a cb event) := by
    split
    · trivial
    · exact RaftFSM.fits_handle a cb n.fsm event
  have hcalls : Armed env o l
      (n.calls env o (if n.fsm.blocked then [] else n.fsm.handleCalls a cb event)) :=
    h.calls htracks.toHeld htracks.shows hfits
  exact hcalls

theorem Armed.callTask {i : Nat} (h : Armed env o l n) (htracks : Tracks n)
    (hi : n.task k = some i) (hcall : n.callTask env o a cb i k = some n') :
    Armed env o l n' := by
  rcases callTask_cases hcall with rfl | ⟨t, n₁, ht, hfires, hn₁, rfl⟩
  · exact h
  · have hnoted : Tracks { n with sched := { n.sched with calls := i :: n.sched.calls } } :=
      htracks.of_eq rfl rfl rfl rfl
    have harmed : Armed env o l { n with sched := { n.sched with calls := i :: n.sched.calls } } :=
      h.of_eq rfl rfl rfl (Nat.le_refl _)
    rw [(hnoted.callable (htracks.live hi ht hfires) hn₁).1.modify_countCall i]
    cases k with
    | election => exact harmed.handle hnoted hn₁
    | heartbeat =>
        obtain rfl := Option.some.inj hn₁
        exact harmed

/-! ### Tasks keep their kinds -/

theorem kinds_onTask (n : TimedNode) (k : TimerKind) (f : Task → Task) :
    (n.onTask k f).kinds = n.kinds := by
  unfold onTask
  split <;> rfl

theorem kinds_reflag (n : TimedNode) (k : TimerKind) (t : Task) :
    (n.reflag k t).kinds = n.kinds := by
  unfold reflag
  cases t.cancelled <;> cases t.paused <;> simp [kinds_onTask]

theorem kinds_call (n : TimedNode) (c : TimerCall) : n.kinds <+: (n.call env o c).kinds := by
  cases c with
  | schedule k => exact List.prefix_append _ _
  | pause k | resume k =>
      show n.kinds <+: (n.onTask k _).kinds
      rw [kinds_onTask]
  | reset k =>
      show n.kinds <+: (n.reset env o k).kinds
      cases ht : n.current k with
      | none => rw [reset_of_none ht]
      | some t =>
          rw [reset_of_some ht, kinds_reflag]
          show n.kinds <+: (n.onTask k Task.cancel).kinds ++ [k]
          rw [kinds_onTask]
          exact List.prefix_append _ _

theorem kinds_calls (l : List TimerCall) (n : TimedNode) :
    n.kinds <+: (n.calls env o l).kinds := by
  induction l generalizing n with
  | nil => exact List.prefix_rfl
  | cons c rest ih => exact (kinds_call n c).trans (ih _)

theorem kinds_callTask {i : Nat} (h : n.callTask env o a cb i k = some n') :
    n.kinds <+: n'.kinds := by
  rcases callTask_cases h with rfl | ⟨t, n₁, -, -, hn₁, rfl⟩
  · exact List.prefix_rfl
  · cases k with
    | election =>
        obtain ⟨s, -, rfl⟩ := handle_fsm hn₁
        exact kinds_calls _ { n with sched := { n.sched with calls := i :: n.sched.calls } }
    | heartbeat =>
        obtain rfl := Option.some.inj hn₁
        exact List.prefix_rfl

/-! ### What is popped is queued again

In the middle of a pass one task is out of the queue, and the invariant excepts it.  The round
ends by pushing it back with a new due time, unless it is cancelled.
-/

/-- A task that is called and renewed is the task of its timer, or of none. -/
theorem Armed.renewTask {i : Nat} (h : Armed env o (some i) n) (hheld : Held n)
    (hk : n.kinds[i]? = some k) : Armed env o none (n.renewTask env o i k) := by
  have hclock : env.clock n.reads ≤ env.clock (n.reads + 1) := env.monotone (Nat.le_succ _)
  intro j m t hm ht hlive
  simp only [TimedNode.renewTask, List.getElem?_modify, Option.map_eq_map,
    Option.map_eq_some_iff] at ht
  obtain ⟨t₀, ht₀, rfl⟩ := ht
  by_cases hmi : i = m
  · subst hmi
    have hinterval := o.interval_le_max (env.rand n.draws) k
    obtain rfl := Option.some.inj (hk.symm.trans (hheld.kind j i hm))
    refine ⟨Or.inl (List.mem_append_right _ (List.mem_singleton_self _)), ?_⟩
    rw [if_pos rfl]
    show env.clock n.reads + _ ≤ env.clock (n.reads + 1) + _
    omega
  · rw [if_neg hmi] at hlive ⊢
    obtain ⟨hqueue, hdue⟩ := h j m t₀ hm ht₀ hlive
    refine ⟨Or.inl (List.mem_append_left _ (hqueue.resolve_right ?_)), ?_⟩
    · intro heq
      exact hmi (Option.some.inj heq)
    · show t₀.dueTime ≤ env.clock (n.reads + 1) + _
      omega

/-- The node once the executor has taken a task off its queue. -/
def pop (n : TimedNode) (i : Nat) : TimedNode :=
  { n with sched := { n.sched with queue := n.sched.queue.erase i } }

theorem Tracks.pop (h : Tracks n) (i : Nat) : Tracks (n.pop i) := h.of_eq rfl rfl rfl rfl

theorem Armed.execute {i : Nat} (h : Armed env o none n) (htracks : Tracks n)
    (hexec : execute env o a cb (n.pop i) i = some n') : Armed env o none n' := by
  have hpopped : Armed env o (some i) (n.pop i) := by
    intro j m t hm ht hlive
    obtain ⟨hqueue, hdue⟩ := h j m t hm ht hlive
    refine ⟨?_, hdue⟩
    by_cases hmi : m = i
    · exact Or.inr (congrArg some hmi.symm)
    · exact Or.inl ((List.mem_erase_of_ne hmi).mpr (hqueue.resolve_right nofun))
  obtain ⟨t, k, ht, hk, ⟨hcancelled, rfl⟩ | ⟨hlive, n₁, hcall, rfl⟩⟩ := execute_cases hexec
  · intro j m t' hm ht' hlive
    obtain ⟨hqueue, hdue⟩ := hpopped j m t' hm ht' hlive
    refine ⟨Or.inl (hqueue.resolve_right ?_), hdue⟩
    intro heq
    obtain rfl := Option.some.inj heq
    obtain rfl := Option.some.inj (ht.symm.trans ht')
    exact absurd (hcancelled.symm.trans hlive) (by decide)
  · have hi := (htracks.pop i).sole i t k ht hk hlive
    have hk₁ : n₁.kinds[i]? = some k := by
      obtain ⟨more, hmore⟩ := kinds_callTask hcall
      rw [← hmore, List.getElem?_append_left (List.getElem?_eq_some_iff.mp hk).1]
      exact hk
    exact (hpopped.callTask (htracks.pop i) hi hcall).renewTask
      ((htracks.pop i).callTask hi hcall).1.toHeld hk₁

/-- What taking a task off the queue and executing it preserve, a pass preserves, and it
leaves nothing behind that is due. -/
theorem passLoop_rounds {I : TimedNode → Prop} {now : Nat}
    (hround : ∀ n n' i, I n → n.sched.dueTime i ≤ now → execute env o a cb (n.pop i) i = some n' →
      I n')
    {popped : List Nat} (h : passLoop env o a cb now popped n = some n') (hn : I n) :
    I n' ∧ ∀ i ∈ n'.sched.queue, now < n'.sched.dueTime i := by
  induction popped generalizing n with
  | nil =>
      unfold passLoop at h
      split at h
      · rename_i hlater
        obtain rfl := Option.some.inj h
        exact ⟨hn, hlater⟩
      · cases h
  | cons i rest ih =>
      unfold passLoop at h
      split at h
      · rename_i hdue
        obtain ⟨n₁, hn₁, h⟩ := Option.bind_eq_some_iff.mp h
        exact ih h (hround n n₁ i hn hdue.2 hn₁)
      · cases h

theorem armed_of_reachable (h : (timedSystem a env o).Reachable n) : Armed env o none n := by
  refine h.invariant (I := Armed env o none) ?_ ?_
  · intro n₀ hn₀
    rw [hn₀]
    have hempty : Armed env o none ({} : TimedNode) := nofun
    have hheld : Held ({} : TimedNode) := ⟨rfl, nofun, nofun, nofun⟩
    exact hempty.replace hheld .election (-1)
  · intro n x n' hreach hn hstep
    have htracks := (machine_of_timed hreach).1
    cases x with
    | handle e cb =>
        obtain ⟨n₁, hhandle, rfl⟩ := Option.map_eq_some_iff.mp hstep
        exact (hn.handle htracks hhandle).of_eq rfl rfl rfl (Nat.le_refl _)
    | api c cb =>
        obtain rfl := Option.some.inj hstep
        have hcalls := hn.calls htracks.toHeld htracks.shows
          (RaftFSM.fits_call (RaftFSM.replays_signOff cb) (RaftFSM.fits_signOff cb) n.fsm c)
        exact hcalls
    | pass popped cb =>
        rcases pass_cases hstep with rfl | hloop
        · exact hn.of_eq rfl rfl rfl (Nat.le_succ _)
        · have hread : Armed env o none { n with reads := n.reads + 2 } :=
            hn.of_eq rfl rfl rfl (Nat.le_add_right _ 2)
          have hreadTracks : Tracks { n with reads := n.reads + 2 } :=
            htracks.of_eq rfl rfl rfl rfl
          refine (passLoop_rounds (I := fun n => Armed env o none n ∧ Tracks n) ?_ hloop
            ⟨hread, hreadTracks⟩).1.1
          rintro n₁ n₂ i ⟨harmed, htracks₁⟩ - hexec
          exact ⟨harmed.execute htracks₁ hexec, ((htracks₁.pop i).execute hexec).1⟩

/-! ### A timer that is left alone -/

/-- The task of the timer, its due time and its place in the queue stay as they were. -/
structure Keeps (k : TimerKind) (n n' : TimedNode) : Prop where
  task : n'.task k = n.task k
  due : (n'.current k).map Task.dueTime = (n.current k).map Task.dueTime
  queue : ∀ i ∈ n.sched.queue, i ∈ n'.sched.queue

theorem Keeps.refl (n : TimedNode) : Keeps k n n := ⟨rfl, rfl, fun _ h => h⟩

theorem Keeps.trans (h : Keeps k n₁ n₂) (h' : Keeps k n₂ n₃) : Keeps k n₁ n₃ :=
  ⟨h'.task.trans h.task, h'.due.trans h.due, fun i hi => h'.queue i (h.queue i hi)⟩

theorem keeps_onTask (hheld : Held n) (j : TimerKind) (f : Task → Task)
    (hdue : ∀ t, (f t).dueTime = t.dueTime) : Keeps k n (n.onTask j f) := by
  refine ⟨by rw [onTask_task], ?_, ?_⟩
  · by_cases hkj : k = j
    · subst hkj
      rw [current_onTask_self, Option.map_map]
      exact congrArg (Option.map · _) (funext hdue)
    · rw [current_onTask_of_ne hheld hkj]
  · intro i hi
    unfold onTask
    split <;> exact hi

theorem keeps_replace (hheld : Held n) (hkj : k ≠ j) (m : Int) :
    Keeps k n (n.replace env o j m) := by
  refine ⟨?_, ?_, fun i hi => List.mem_append_left _ hi⟩
  · rw [replace_task, Function.update_of_ne hkj]
  · rw [current_replace_of_ne hheld hkj]

theorem keeps_reflag (hheld : Held n) (t : Task) : Keeps k n (n.reflag j t) := by
  unfold reflag
  cases t.cancelled <;> cases t.paused
  · exact Keeps.refl n
  · exact keeps_onTask hheld j Task.pause fun _ => rfl
  · exact keeps_onTask hheld j Task.cancel fun _ => rfl
  · exact (keeps_onTask hheld j Task.cancel fun _ => rfl).trans
      (keeps_onTask (hheld.onTask tame_cancel j) j Task.pause fun _ => rfl)

theorem keeps_reset (hheld : Held n) (hkj : k ≠ j) : Keeps k n (n.reset env o j) := by
  cases ht : n.current j with
  | none =>
      rw [reset_of_none ht]
      exact Keeps.refl n
  | some t =>
      rw [reset_of_some ht]
      exact ((keeps_onTask hheld j Task.cancel fun _ => rfl).trans
        (keeps_replace (hheld.onTask tame_cancel j) hkj _)).trans
        (keeps_reflag (hheld.supersede ht) t)

/-- Handlers that do not reset a timer keep it, since they schedule none that is there. -/
theorem keeps_calls {t : Timers} {c : List TimerCall} (hheld : Held n) (hshows : Shows n t)
    (hfits : t.Fits c) (hreset : .reset k ∉ c) (hsome : n.current k ≠ none) :
    Keeps k n (n.calls env o c) := by
  induction c generalizing n t with
  | nil => exact Keeps.refl n
  | cons c rest ih =>
      obtain ⟨hcall, hrest⟩ := hfits
      obtain ⟨hheld', hshows'⟩ := hheld.call hshows hcall
      have hfirst : Keeps k n (n.call env o c) := by
        cases c with
        | schedule j =>
            refine keeps_replace hheld ?_ (-1)
            rintro rfl
            refine hsome (Option.map_eq_none_iff.mp ((hshows k).trans ?_))
            rw [hcall k rfl]
            rfl
        | pause j => exact keeps_onTask hheld j Task.pause fun _ => rfl
        | resume j => exact keeps_onTask hheld j Task.resume fun _ => rfl
        | reset j =>
            refine keeps_reset hheld ?_
            rintro rfl
            exact hreset List.mem_cons_self
      have hsome' : (n.call env o c).current k ≠ none := by
        intro hnone
        have hdue := hfirst.due
        rw [hnone] at hdue
        exact hsome (Option.map_eq_none_iff.mp hdue.symm)
      exact hfirst.trans
        (ih hheld' hshows' hrest (fun hmem => hreset (List.mem_cons_of_mem _ hmem)) hsome')

end TimedNode

end Raft
