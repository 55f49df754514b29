/-
The executor and the top of its queue.

`wait_for` is given a predicate, and it returns with the predicate false when its
time is up: an executor whose queue is empty then goes on to `task_queue.top()`.
This is the only way there.  Once the loop has found the queue non-empty it holds
the lock until it is done with it, and only the executor takes from the queue.
-/
import RaftElection.Scheduler

namespace Raft.Scheduler

open Transition

variable {s s' : Scheduler}

/-! ### What the other threads touch -/

/-- Nothing the executor's control depends on has changed. -/
structure Frame (s s' : Scheduler) : Prop where
  pc : s'.pc = s.pc
  queue : s'.queue = s.queue
  running : s'.running = s.running

theorem onTask_eq_some {handle : Nat} {f : Task → Task} :
    s.onTask handle f = some s' ↔ ∃ h t, s.handles[handle]? = some h ∧
      s.tasks[h.task]? = some t ∧ h.pc = .idle ∧ s' = s.setTask h.task (f t) := by
  unfold onTask
  simp only [Option.bind_eq_bind, Option.bind_eq_some_iff, Option.ite_none_right_eq_some,
    Option.some.injEq]
  constructor
  · rintro ⟨h, hh, t, ht, hidle, rfl⟩
    exact ⟨h, t, hh, ht, hidle, rfl⟩
  · rintro ⟨h, t, hh, ht, hidle, rfl⟩
    exact ⟨h, hh, t, ht, hidle, rfl⟩

theorem onTask_frame {handle : Nat} {f : Task → Task} (h : s.onTask handle f = some s') :
    Frame s s' := by
  obtain ⟨hdl, t, -, -, -, rfl⟩ := onTask_eq_some.mp h
  exact ⟨rfl, rfl, rfl⟩

/-- Of the statements of `reset` only the push needs the lock; the others leave the
executor's view alone. -/
theorem resetStep_frame {handle clock interval : Nat}
    (h : s.resetStep handle clock interval = some s') :
    Frame s s' ∨ s.pc.holdsLock = false ∧ s'.pc = s.pc := by
  unfold resetStep at h
  simp only [Option.bind_eq_bind, Option.bind_eq_some_iff] at h
  obtain ⟨hdl, -, t, -, hstep⟩ := h
  split at hstep
  · obtain rfl := Option.some.inj hstep
    exact Or.inl ⟨rfl, rfl, rfl⟩
  · obtain rfl := Option.some.inj hstep
    exact Or.inl ⟨rfl, rfl, rfl⟩
  · split at hstep
    · cases hstep
    · rename_i hlock
      obtain rfl := Option.some.inj hstep
      exact Or.inr ⟨by simpa using hlock, rfl⟩
  · obtain rfl := Option.some.inj hstep
    refine Or.inl ?_
    split <;> exact ⟨rfl, rfl, rfl⟩
  · obtain rfl := Option.some.inj hstep
    refine Or.inl ?_
    split <;> exact ⟨rfl, rfl, rfl⟩

/-! ### The invariant

`wait_for` returns when the predicate holds or the time is up, and in the second case the code
goes on to `top()` all the same.  So the queue is not empty there unless a wait has ended that way
on an empty queue.
-/

/-- The next thing the executor does is to evaluate `task_queue.top()`.  In the loop of
`execute_due_tasks` the test for emptiness comes first. -/
def EvaluatesTop (s : Scheduler) : Prop :=
  match s.pc with
  | .compare _ | .remain _ | .popTop _ => True
  | .passHead _ => s.queue.isEmpty = false
  | _ => False

/-- Where the executor is on its way to the top of the queue, there is one. -/
def TopDefined (s : Scheduler) : Prop :=
  match s.pc with
  | .woken => s.queue ≠ [] ∨ s.running = false
  | .compare _ | .remain _ | .popTop _ => s.queue ≠ []
  | _ => True

theorem TopDefined.of_unlocked (h : s.pc.holdsLock = false) : TopDefined s := by
  unfold TopDefined
  split <;> simp_all [ExecutorPc.holdsLock]

theorem TopDefined.frame (h : TopDefined s) (hframe : Frame s s') : TopDefined s' := by
  unfold TopDefined
  rw [hframe.pc, hframe.queue, hframe.running]
  exact h

theorem ready_eq_true : s.ready = true ↔ s.queue ≠ [] ∨ s.running = false := by
  unfold ready
  simp

theorem TopDefined.executor {clock interval top : Nat} (h : TopDefined s)
    (hstep : s.executor clock interval top = some s') : TopDefined s' := by
  unfold TopDefined at h
  unfold Scheduler.executor at hstep
  cases hpc : s.pc with
  | loopHead =>
      simp only [hpc, Option.some.injEq] at hstep
      subst hstep
      refine .of_unlocked ?_
      show (if s.running = true then ExecutorPc.lock else .exited).holdsLock = false
      split <;> rfl
  | lock =>
      simp only [hpc, Option.some.injEq] at hstep
      subst hstep
      unfold TopDefined
      by_cases hready : s.ready = true
      · simp only [hready, if_true]
        exact ready_eq_true.mp hready
      · simp only [hready]
        trivial
  | waiting | exited => simp [hpc] at hstep
  | woken =>
      simp only [hpc, Option.some.injEq] at h hstep
      subst hstep
      unfold TopDefined
      cases hrunning : s.running with
      | true =>
          simp only [if_true]
          exact h.resolve_right (by simp [hrunning])
      | false => trivial
  | compare now =>
      simp only [hpc, Option.ite_none_right_eq_some, Option.some.injEq] at h hstep
      obtain ⟨-, rfl⟩ := hstep
      by_cases hdue : now < s.dueTime top
      · rw [if_pos hdue]
        exact h
      · rw [if_neg hdue]
        trivial
  | remain now =>
      simp only [hpc, Option.ite_none_right_eq_some, Option.some.injEq] at hstep
      obtain ⟨-, rfl⟩ := hstep
      trivial
  | execute =>
      simp only [hpc, Option.some.injEq] at hstep
      subst hstep
      cases s.running <;> trivial
  | passHead now =>
      simp only [hpc] at hstep
      split at hstep
      · obtain rfl := Option.some.inj hstep
        trivial
      · rename_i hne
        simp only [Option.ite_none_right_eq_some, Option.some.injEq] at hstep
        obtain ⟨-, rfl⟩ := hstep
        by_cases hdue : s.dueTime top ≤ now
        · rw [if_pos hdue]
          exact hne
        · rw [if_neg hdue]
          trivial
  | popTop now =>
      simp only [hpc, Option.ite_none_right_eq_some, Option.some.injEq] at hstep
      obtain ⟨-, rfl⟩ := hstep
      trivial
  | popped k now =>
      simp only [hpc, Option.bind_eq_bind, Option.bind_eq_some_iff, Option.some.injEq] at hstep
      obtain ⟨t, -, rfl⟩ := hstep
      cases t.cancelled <;> trivial
  | callTask k now =>
      simp only [hpc, Option.bind_eq_bind, Option.bind_eq_some_iff, Option.some.injEq] at hstep
      obtain ⟨t, -, rfl⟩ := hstep
      trivial
  | renewTask k now =>
      simp only [hpc, Option.bind_eq_bind, Option.bind_eq_some_iff, Option.some.injEq] at hstep
      obtain ⟨t, -, rfl⟩ := hstep
      trivial

/-- The wait does not run out on a running scheduler whose queue is empty. -/
def WaitEndsReady (s : Scheduler) (act : SchedulerAction) (_ : Scheduler) : Prop :=
  act = .wake .expired → s.pc = .waiting → s.ready = true

instance (s : Scheduler) (act : SchedulerAction) (s' : Scheduler) :
    Decidable (WaitEndsReady s act s') :=
  inferInstanceAs (Decidable (_ → _))

theorem TopDefined.step {act : SchedulerAction} (h : TopDefined s) (hstep : s.step act = some s')
    (hwait : WaitEndsReady s act s') : TopDefined s' := by
  cases act with
  | schedule clock interval maxCalls =>
      simp only [Scheduler.step] at hstep
      split at hstep
      · cases hstep
      · rename_i hlock
        obtain rfl := Option.some.inj hstep
        exact .of_unlocked (Bool.not_eq_true _ ▸ hlock)
  | cancel handle => exact h.frame (onTask_frame hstep)
  | pause handle => exact h.frame (onTask_frame hstep)
  | resume handle => exact h.frame (onTask_frame hstep)
  | reset handle clock interval =>
      rcases resetStep_frame hstep with hframe | ⟨hlock, hpc⟩
      · exact h.frame hframe
      · exact .of_unlocked (by rw [hpc]; exact hlock)
  | stop =>
      obtain rfl := Option.some.inj hstep
      unfold TopDefined at h ⊢
      cases hpc : s.pc <;> simp_all
  | wake why =>
      simp only [Scheduler.step, wakeUp] at hstep
      split at hstep
      · rename_i hpc
        split at hstep
        · rename_i hwhy
          obtain rfl := Option.some.inj hstep
          refine ready_eq_true.mp ?_
          rcases hwhy with rfl | hready
          · exact hwait rfl hpc
          · exact hready
        · obtain rfl := Option.some.inj hstep
          exact h
      · cases hstep
  | advance clock interval top => exact h.executor hstep

/-- **The executor looks at the top of the queue only where there is one**, in every run
in which no wait runs out on a running scheduler with an empty queue. -/
theorem evaluatesTop_nonempty (h : (schedulerSystem.restrict WaitEndsReady).Reachable s)
    (htop : EvaluatesTop s) : s.queue ≠ [] := by
  have hdefined : TopDefined s := by
    refine h.invariant (I := TopDefined) ?_ ?_
    · intro s₀ hs₀
      subst hs₀
      trivial
    · intro s act s' _ hs hmove
      obtain ⟨hstep, hwait⟩ := hmove
      exact hs.step hstep hwait
  unfold EvaluatesTop at htop
  unfold TopDefined at hdefined
  cases hpc : s.pc with
  | compare now | remain now | popTop now =>
      rw [hpc] at hdefined
      exact hdefined
  | passHead now =>
      rw [hpc] at htop
      simpa using htop
  | loopHead | lock | waiting | woken | execute | popped | callTask | renewTask | exited =>
      rw [hpc] at htop
      exact absurd htop id

/-- A task is scheduled while the executor waits; it is woken and looks at it. -/
theorem evaluatesTop_scheduled :
    ∃ s : Scheduler, EvaluatesTop s ∧ s.queue ≠ [] := by
  obtain ⟨s, hs, hpc⟩ := System.Reachable.of_execute {} Scheduler.step WaitEndsReady
    [.advance 0 0 0, .advance 0 0 0, .schedule 10 50 (-1), .wake .notified, .advance 20 0 0]
    (fun s => s.pc = .compare 20) (by decide +kernel)
  have htop : EvaluatesTop s := by
    unfold EvaluatesTop
    rw [hpc]
    trivial
  exact ⟨s, htop, evaluatesTop_nonempty hs htop⟩

/-- Nothing is scheduled in the first minute. -/
theorem idle_scheduler_evaluatesTop :
    ∃ s, schedulerSystem.Reachable s ∧ EvaluatesTop s ∧ s.queue = [] := by
  obtain ⟨s, hs, hpc, hqueue⟩ := System.Reachable.of_execute {} Scheduler.step (fun _ _ _ => True)
    [.advance 0 0 0, .advance 0 0 0, .wake .expired, .advance 60000 0 0]
    (fun s => s.pc = .compare 60000 ∧ s.queue = []) (by decide +kernel)
  refine ⟨s, hs.unrestrict, ?_, hqueue⟩
  unfold EvaluatesTop
  rw [hpc]
  trivial

end Raft.Scheduler
