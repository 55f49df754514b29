/-
What is in the queue.

A task is in play while it is queued, or while the executor has popped it and not yet put it
back.  It is in play once, and one that is not cancelled is in play at all: the executor
drops a task only when it finds it cancelled, and nothing takes that back.
-/
import RaftElection.Proofs.Scheduler
import Mathlib.Data.List.Nodup
import Mathlib.Data.List.Perm.Basic

namespace Raft

open Transition

theorem set_of_getElem? {α : Type*} {l : List α} {i : Nat} {a : α} (h : l[i]? = some a) :
    l.set i a = l := by
  obtain ⟨hlt, rfl⟩ := List.getElem?_eq_some_iff.mp h
  exact List.set_getElem_self hlt

theorem modify_of_getElem? {α : Type*} {l : List α} {i : Nat} {a : α} (f : α → α)
    (h : l[i]? = some a) : l.modify i f = l.set i (f a) := by
  refine List.ext_getElem? fun j => ?_
  rw [List.getElem?_modify, List.getElem?_set]
  by_cases hij : i = j
  · subst hij
    obtain ⟨hlt, hget⟩ := List.getElem?_eq_some_iff.mp h
    simp [hget, hlt]
  · simp [hij]

theorem getElem?_concat_eq_some {α : Type*} {l : List α} {a b : α} {i : Nat} :
    (l ++ [a])[i]? = some b ↔ l[i]? = some b ∨ i = l.length ∧ a = b := by
  rcases Nat.lt_trichotomy i l.length with hlt | rfl | hgt
  · rw [List.getElem?_append_left hlt]
    simp [Nat.ne_of_lt hlt]
  · simp
  · rw [List.getElem?_eq_none (by simp; omega), List.getElem?_eq_none (Nat.le_of_lt hgt)]
    simp [Nat.ne_of_gt hgt]

theorem getElem?_set_eq_some {α : Type*} {l : List α} {a b c : α} {i j : Nat} (h : l[i]? = some c) :
    (l.set i a)[j]? = some b ↔ i = j ∧ a = b ∨ i ≠ j ∧ l[j]? = some b := by
  have hlt := (List.getElem?_eq_some_iff.mp h).1
  rw [List.getElem?_set]
  by_cases hij : i = j
  · subst hij
    simp [hlt]
  · simp [hij]

/-- The task the executor has popped. -/
def ExecutorPc.held : ExecutorPc → List Nat
  | .popped k _ | .callTask k _ | .renewTask k _ => [k]
  | .loopHead | .lock | .waiting | .woken | .compare _ | .remain _ | .execute | .passHead _
  | .popTop _ | .exited => []

namespace Scheduler

variable {s s' : Scheduler} {k : Nat} {t : Task}

def inPlay (s : Scheduler) : List Nat := s.queue ++ s.pc.held

/-- A task that exists and is not cancelled. -/
def Live (s : Scheduler) (k : Nat) : Prop := ∃ t, s.tasks[k]? = some t ∧ t.cancelled = false

structure Sound (s : Scheduler) : Prop where
  nodup : s.inPlay.Nodup
  lt : ∀ k ∈ s.inPlay, k < s.tasks.length
  live : ∀ k, s.Live k → k ∈ s.inPlay
  handles : ∀ h ∈ s.handles, h.task < s.tasks.length

theorem held_of_unlocked (h : s.pc.holdsLock = false) : s.pc.held = [] := by
  cases hpc : s.pc <;> simp_all [ExecutorPc.holdsLock, ExecutorPc.held]

/-! ### Three ways to keep it -/

/-- No task comes or goes, and none comes to life. -/
structure Same (s s' : Scheduler) : Prop where
  inPlay : s'.inPlay.Perm s.inPlay
  length : s'.tasks.length = s.tasks.length
  live : ∀ k, s'.Live k → s.Live k
  handles : s'.handles.map ScheduledTask.task = s.handles.map ScheduledTask.task

theorem Sound.same (h : Sound s) (hsame : Same s s') : Sound s' where
  nodup := hsame.inPlay.nodup_iff.mpr h.nodup
  lt k hk := by
    rw [hsame.length]
    exact h.lt k (hsame.inPlay.mem_iff.mp hk)
  live k hk := hsame.inPlay.mem_iff.mpr (h.live k (hsame.live k hk))
  handles x hx := by
    have hmem : x.task ∈ s.handles.map ScheduledTask.task := by
      rw [← hsame.handles]
      exact List.mem_map_of_mem hx
    obtain ⟨y, hy, hxy⟩ := List.mem_map.mp hmem
    rw [hsame.length, ← hxy]
    exact h.handles y hy

/-- Where one task is set, and stays cancelled if it was, none comes to life. -/
theorem live_of_set {t' : Task} {j : Nat} (hk : s.tasks[k]? = some t)
    (htasks : s'.tasks = s.tasks.set k t') (hdead : t.cancelled = true → t'.cancelled = true)
    (h : s'.Live j) : s.Live j := by
  obtain ⟨u, hu, hlive⟩ := h
  rw [htasks, getElem?_set_eq_some hk] at hu
  rcases hu with ⟨rfl, rfl⟩ | ⟨-, hu⟩
  · refine ⟨t, hk, ?_⟩
    by_contra hcancelled
    rw [hdead (by simpa using hcancelled)] at hlive
    cases hlive
  · exact ⟨u, hu, hlive⟩

theorem Same.set {u : Task} (hk : s.tasks[k]? = some t)
    (hdead : t.cancelled = true → u.cancelled = true) (htasks : s'.tasks = s.tasks.set k u)
    (hhandles : s'.handles.map ScheduledTask.task = s.handles.map ScheduledTask.task)
    (hplay : s'.inPlay.Perm s.inPlay) : Same s s' where
  inPlay := hplay
  length := by rw [htasks, List.length_set]
  live _ := live_of_set hk htasks hdead
  handles := hhandles

/-- The queue and what the executor holds are all that has changed, and together they hold
what they held. -/
theorem Same.moved (htasks : s'.tasks = s.tasks)
    (hhandles : s'.handles.map ScheduledTask.task = s.handles.map ScheduledTask.task)
    (hplay : s'.inPlay.Perm s.inPlay) : Same s s' where
  inPlay := hplay
  length := by rw [htasks]
  live k := by
    unfold Live
    rw [htasks]
    exact id
  handles := hhandles

theorem map_task_set {l : List ScheduledTask} {i : Nat} {h h' : ScheduledTask}
    (hi : l[i]? = some h) (htask : h'.task = h.task) :
    (l.set i h').map ScheduledTask.task = l.map ScheduledTask.task := by
  rw [List.map_set, htask]
  exact set_of_getElem? (by rw [List.getElem?_map, hi, Option.map_some])

/-- A new task is pushed. -/
theorem Sound.runAfter (h : Sound s) (hlock : s.pc.holdsLock = false) (clock interval : Nat)
    (maxCalls : Int) : Sound (s.runAfter clock interval maxCalls) := by
  have hheld := held_of_unlocked hlock
  have hplay : (s.runAfter clock interval maxCalls).inPlay = s.inPlay ++ [s.tasks.length] := by
    simp [inPlay, Scheduler.runAfter, hheld]
  refine ⟨?_, ?_, ?_, ?_⟩
  · rw [hplay]
    refine List.nodup_append.mpr ⟨h.nodup, by simp, ?_⟩
    intro k hk j hj hkj
    have hlt := h.lt k hk
    rw [hkj, List.mem_singleton.mp hj] at hlt
    exact Nat.lt_irrefl _ hlt
  · intro k hk
    rw [hplay, List.mem_append, List.mem_singleton] at hk
    have hlength : (s.runAfter clock interval maxCalls).tasks.length = s.tasks.length + 1 := by
      simp [Scheduler.runAfter]
    rcases hk with hk | rfl
    · have hlt := h.lt k hk
      omega
    · omega
  · intro k ⟨t, ht, hlive⟩
    rw [hplay, List.mem_append, List.mem_singleton]
    rcases Nat.lt_or_ge k s.tasks.length with hlt | hge
    · refine Or.inl (h.live k ⟨t, ?_, hlive⟩)
      rwa [Scheduler.runAfter, List.getElem?_append_left hlt] at ht
    · obtain ⟨hlt', -⟩ := List.getElem?_eq_some_iff.mp ht
      simp only [Scheduler.runAfter, List.length_append, List.length_singleton] at hlt'
      exact Or.inr (by omega)
  · intro x hx
    have hlt := h.handles x hx
    simp only [Scheduler.runAfter, List.length_append, List.length_singleton]
    omega

/-- A popped task that is cancelled is not put back. -/
theorem Sound.drop (h : Sound s) (hk : s.tasks[k]? = some t) (hcancelled : t.cancelled = true)
    (hplay : s.inPlay.Perm (s'.inPlay ++ [k])) (htasks : s'.tasks = s.tasks)
    (hhandles : s'.handles = s.handles) : Sound s' := by
  have hnodup := hplay.nodup_iff.mp h.nodup
  refine ⟨hnodup.of_append_left, ?_, ?_, ?_⟩
  · intro j hj
    rw [htasks]
    exact h.lt j (hplay.mem_iff.mpr (List.mem_append_left _ hj))
  · intro j ⟨u, hu, hlive⟩
    rw [htasks] at hu
    rcases List.mem_append.mp (hplay.mem_iff.mp (h.live j ⟨u, hu, hlive⟩)) with hj | hj
    · exact hj
    · rw [List.mem_singleton.mp hj, hk] at hu
      obtain rfl := Option.some.inj hu
      exact absurd hcancelled (by simp [hlive])
  · rw [htasks, hhandles]
    exact h.handles

/-! ### The steps -/

theorem onTask_same {i : Nat} {f : Task → Task}
    (hdead : ∀ t : Task, t.cancelled = true → (f t).cancelled = true)
    (h : s.onTask i f = some s') : Same s s' := by
  obtain ⟨x, t, -, ht, -, rfl⟩ := onTask_eq_some.mp h
  exact .set ht (hdead t) rfl rfl (List.Perm.refl _)

theorem Sound.resetStep {i clock interval : Nat} (h : Sound s)
    (hstep : s.resetStep i clock interval = some s') : Sound s' := by
  unfold Scheduler.resetStep at hstep
  simp only [Option.bind_eq_bind, Option.bind_eq_some_iff] at hstep
  obtain ⟨x, hx, t, ht, hstep⟩ := hstep
  cases hpc : x.pc with
  | idle =>
      simp only [hpc, Option.some.injEq] at hstep
      subst hstep
      exact h.same (.moved rfl (map_task_set hx rfl) (List.Perm.refl _))
  | flagsRead cancelled paused =>
      simp only [hpc, Option.some.injEq] at hstep
      subst hstep
      exact h.same (.set ht (fun _ => rfl) rfl (map_task_set hx rfl) (List.Perm.refl _))
  | oldCancelled cancelled paused =>
      simp only [hpc] at hstep
      split at hstep
      · cases hstep
      · rename_i hlock
        obtain rfl := Option.some.inj hstep
        have hsound := h.runAfter (by simpa using hlock) clock interval t.maxCalls
        refine ⟨hsound.nodup, hsound.lt, hsound.live, ?_⟩
        intro y hy
        rcases List.mem_or_eq_of_mem_set hy with hy | rfl
        · exact hsound.handles y hy
        · simp [Scheduler.setHandle, Scheduler.runAfter]
  | replaced cancelled paused =>
      simp only [hpc, Option.some.injEq] at hstep
      subst hstep
      split
      · exact h.same (.set ht (fun _ => rfl) rfl (map_task_set hx rfl) (List.Perm.refl _))
      · exact h.same (.moved rfl (map_task_set hx rfl) (List.Perm.refl _))
  | recancelled paused =>
      simp only [hpc, Option.some.injEq] at hstep
      subst hstep
      split
      · exact h.same (.set (u := t.pause) ht id rfl (map_task_set hx rfl) (List.Perm.refl _))
      · exact h.same (.moved rfl (map_task_set hx rfl) (List.Perm.refl _))

theorem call_cancelled (h : t.cancelled = true) : t.call = (false, t) := by
  simp [Task.call, h]

theorem call_keeps_cancelled (h : t.cancelled = true) : t.call.2.cancelled = true := by
  rw [call_cancelled h]
  exact h

/-- What a step of the executor does to tasks and queue. -/
inductive Advanced (s : Scheduler) (clock interval : Nat) (s' : Scheduler) : Prop
  | moved (pc : ∀ k now, s.pc ≠ .callTask k now) (tasks : s'.tasks = s.tasks)
      (handles : s'.handles = s.handles) (inPlay : s'.inPlay.Perm s.inPlay)
  /-- A popped task that is cancelled is not put back. -/
  | dropped (k : Nat) (t : Task) (pc : ∀ k now, s.pc ≠ .callTask k now)
      (task : s.tasks[k]? = some t) (cancelled : t.cancelled = true) (tasks : s'.tasks = s.tasks)
      (handles : s'.handles = s.handles) (inPlay : s.inPlay.Perm (s'.inPlay ++ [k]))
  | called (k now : Nat) (t : Task) (pc : s.pc = .callTask k now) (task : s.tasks[k]? = some t)
      (tasks : s'.tasks = s.tasks.set k t.call.2) (handles : s'.handles = s.handles)
      (inPlay : s'.inPlay.Perm s.inPlay)
  | renewed (k : Nat) (t : Task) (pc : ∀ k now, s.pc ≠ .callTask k now)
      (task : s.tasks[k]? = some t) (tasks : s'.tasks = s.tasks.set k (t.renew clock interval))
      (handles : s'.handles = s.handles) (inPlay : s'.inPlay.Perm s.inPlay)

theorem advanced_of_executor {clock interval top : Nat}
    (hstep : s.executor clock interval top = some s') : Advanced s clock interval s' := by
  unfold Scheduler.executor at hstep
  cases hpc : s.pc with
  | waiting | exited => simp [hpc] at hstep
  | loopHead | woken | execute =>
      simp only [hpc, Option.some.injEq] at hstep
      subst hstep
      refine .moved (by simp [hpc]) rfl rfl ?_
      cases s.running <;> simp [inPlay, hpc, ExecutorPc.held]
  | lock =>
      simp only [hpc, Option.some.injEq] at hstep
      subst hstep
      refine .moved (by simp [hpc]) rfl rfl ?_
      cases s.ready <;> simp [inPlay, hpc, ExecutorPc.held]
  | compare now =>
      simp only [hpc, Option.ite_none_right_eq_some, Option.some.injEq] at hstep
      obtain ⟨-, rfl⟩ := hstep
      refine .moved (by simp [hpc]) rfl rfl ?_
      by_cases hdue : now < s.dueTime top <;> simp [inPlay, hpc, hdue, ExecutorPc.held]
  | remain now =>
      simp only [hpc, Option.ite_none_right_eq_some, Option.some.injEq] at hstep
      obtain ⟨-, rfl⟩ := hstep
      exact .moved (by simp [hpc]) rfl rfl (by simp [inPlay, hpc, ExecutorPc.held])
  | passHead now =>
      simp only [hpc] at hstep
      split at hstep
      · obtain rfl := Option.some.inj hstep
        exact .moved (by simp [hpc]) rfl rfl (by simp [inPlay, hpc, ExecutorPc.held])
      · simp only [Option.ite_none_right_eq_some, Option.some.injEq] at hstep
        obtain ⟨-, rfl⟩ := hstep
        refine .moved (by simp [hpc]) rfl rfl ?_
        by_cases hdue : s.dueTime top ≤ now <;> simp [inPlay, hpc, hdue, ExecutorPc.held]
  | popTop now =>
      simp only [hpc, Option.ite_none_right_eq_some, Option.some.injEq] at hstep
      obtain ⟨htop, rfl⟩ := hstep
      refine .moved (by simp [hpc]) rfl rfl ?_
      have hperm := (List.perm_cons_erase htop.1).symm
      simpa [inPlay, hpc, ExecutorPc.held] using (List.perm_append_comm.trans hperm)
  | popped k now =>
      simp only [hpc, Option.bind_eq_bind, Option.bind_eq_some_iff, Option.some.injEq] at hstep
      obtain ⟨t, ht, rfl⟩ := hstep
      cases hcancelled : t.cancelled with
      | true =>
          refine .dropped k t (by simp [hpc]) ht hcancelled rfl rfl ?_
          simp [inPlay, hpc, ExecutorPc.held]
      | false => exact .moved (by simp [hpc]) rfl rfl (by simp [inPlay, hpc, ExecutorPc.held])
  | callTask k now =>
      simp only [hpc, Option.bind_eq_bind, Option.bind_eq_some_iff, Option.some.injEq] at hstep
      obtain ⟨t, ht, rfl⟩ := hstep
      refine .called k now t hpc ht rfl rfl ?_
      simp [inPlay, Scheduler.setTask, hpc, ExecutorPc.held]
  | renewTask k now =>
      simp only [hpc, Option.bind_eq_bind, Option.bind_eq_some_iff, Option.some.injEq] at hstep
      obtain ⟨t, ht, rfl⟩ := hstep
      exact .renewed k t (by simp [hpc]) ht rfl rfl (by simp [inPlay, hpc, ExecutorPc.held])

theorem Sound.executor {clock interval top : Nat} (h : Sound s)
    (hstep : s.executor clock interval top = some s') : Sound s' := by
  cases advanced_of_executor hstep with
  | moved hpc htasks hhandles hplay => exact h.same (.moved htasks (by rw [hhandles]) hplay)
  | dropped k t hpc ht hcancelled htasks hhandles hplay =>
      exact h.drop ht hcancelled hplay htasks hhandles
  | called k now t hpc ht htasks hhandles hplay =>
      exact h.same (.set ht call_keeps_cancelled htasks (by rw [hhandles]) hplay)
  | renewed k t hpc ht htasks hhandles hplay =>
      exact h.same (.set (u := t.renew clock interval) ht id htasks (by rw [hhandles]) hplay)

theorem Sound.step {act : SchedulerAction} (h : Sound s) (hstep : s.step act = some s') :
    Sound s' := by
  cases act with
  | schedule clock interval maxCalls =>
      simp only [Scheduler.step] at hstep
      split at hstep
      · cases hstep
      · rename_i hlock
        obtain rfl := Option.some.inj hstep
        have hsound := h.runAfter (by simpa using hlock) clock interval maxCalls
        refine ⟨hsound.nodup, hsound.lt, hsound.live, ?_⟩
        intro y hy
        rcases List.mem_append.mp hy with hy | hy
        · exact hsound.handles y hy
        · rw [List.mem_singleton.mp hy]
          simp [Scheduler.runAfter]
  | cancel i => exact h.same (onTask_same (fun _ _ => rfl) hstep)
  | pause i => exact h.same (onTask_same (f := Task.pause) (fun _ hdead => hdead) hstep)
  | resume i => exact h.same (onTask_same (f := Task.resume) (fun _ hdead => hdead) hstep)
  | reset i clock interval => exact h.resetStep hstep
  | stop =>
      obtain rfl := Option.some.inj hstep
      exact h.same (.moved rfl rfl (List.Perm.refl _))
  | wake why =>
      simp only [Scheduler.step, wakeUp] at hstep
      split at hstep
      · rename_i hpc
        split at hstep
        · obtain rfl := Option.some.inj hstep
          exact h.same (.moved rfl rfl (by simp [inPlay, hpc, ExecutorPc.held]))
        · obtain rfl := Option.some.inj hstep
          exact h
      · cases hstep
  | advance clock interval top => exact h.executor hstep

/-- **In every reachable state a task is in play at most once, and once if it is live.** -/
theorem sound_of_reachable (h : schedulerSystem.Reachable s) : Sound s := by
  refine h.invariant (I := Sound) ?_ ?_
  · intro s₀ hs₀
    subst hs₀
    refine ⟨List.nodup_nil, nofun, ?_, nofun⟩
    intro k ⟨t, ht, _⟩
    cases ht
  · intro s act s' _ hs hstep
    exact hs.step hstep

end Scheduler

end Raft
