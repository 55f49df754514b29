/-
What one pass of the executor does.

A pass drains the queue in the sense of `Library/Drain.lean`: what it takes is due at the
time it began, and what it puts back is due later, since the clock has not gone back and an
interval is at least one millisecond.  So it ends, after as many rounds as tasks were due,
and `pass_exact` reads off what has become of the queue.

The sum of clock and interval is one of `uint64_t`.  A supplier may return so much that it
runs over; the task is then due in the past, at once and forever (`endless_pass`).

That nobody else moves during a pass is no assumption about the other threads:
`executeDueTasks_run` finds every pass again among the runs of `Scheduler.lean`.
-/
import RaftElection.Library.Drain
import RaftElection.Pass
import RaftElection.Proofs.Queue

namespace Raft

open Transition Drain

/-- A task after its callables have asked for this. -/
def Task.flagged (asked : List FlagCall) (k : Nat) (t : Task) : Task :=
  { t with
    cancelled := t.cancelled || decide (.cancel k ∈ asked)
    paused := t.paused || decide (.pause k ∈ asked) }

namespace Scheduler

variable {s : Scheduler} {k j : Nat}

/-- The queue holds tasks that exist, each once. -/
structure WellQueued (s : Scheduler) : Prop where
  nodup : s.queue.Nodup
  lt : ∀ k ∈ s.queue, k < s.tasks.length

theorem Sound.wellQueued (h : Sound s) : WellQueued s where
  nodup := h.nodup.of_append_left
  lt k hk := h.lt k (List.mem_append_left _ hk)

theorem wellQueued_of_reachable (h : schedulerSystem.Reachable s) : WellQueued s :=
  (sound_of_reachable h).wellQueued

/-! ### What callables do to the flags

A callable may call `cancel` and `pause` of any task, its own among them.  Neither is taken back
during a pass, so a task is known from what it was at the start and the calls made so far.
-/

theorem flag_task (c : FlagCall) :
    (s.flag c).tasks[j]? = (s.tasks[j]?).map (Task.flagged [c] j) := by
  cases c with
  | cancel k =>
      show (s.tasks.modify k Task.cancel)[j]? = _
      rw [List.getElem?_modify]
      by_cases hkj : k = j
      · subst hkj
        cases s.tasks[k]? <;> simp [Task.flagged, Task.cancel]
      · cases s.tasks[j]? <;> simp [Task.flagged, hkj, Ne.symm hkj]
  | pause k =>
      show (s.tasks.modify k Task.pause)[j]? = _
      rw [List.getElem?_modify]
      by_cases hkj : k = j
      · subst hkj
        cases s.tasks[k]? <;> simp [Task.flagged, Task.pause]
      · cases s.tasks[j]? <;> simp [Task.flagged, hkj, Ne.symm hkj]

theorem flagged_append (asked later : List FlagCall) (t : Task) :
    Task.flagged later k (Task.flagged asked k t) = Task.flagged (asked ++ later) k t := by
  simp [Task.flagged, Bool.or_assoc]

/-- Calls on flags, one after another. -/
structure Flags (asked : List FlagCall) (s s' : Scheduler) : Prop where
  task : ∀ j, s'.tasks[j]? = (s.tasks[j]?).map (Task.flagged asked j)
  length : s'.tasks.length = s.tasks.length
  queue : s'.queue = s.queue
  calls : s'.calls = s.calls
  handles : s'.handles = s.handles

theorem flags_foldl (asked : List FlagCall) : ∀ s, Flags asked s (asked.foldl flag s) := by
  induction asked with
  | nil =>
      intro s
      refine ⟨fun j => ?_, rfl, rfl, rfl, rfl⟩
      cases htask : s.tasks[j]? <;> simp [htask, Task.flagged]
  | cons c rest ih =>
      intro s
      have h := ih (s.flag c)
      have hlength : (s.flag c).tasks.length = s.tasks.length := by
        cases c <;> exact List.length_modify _ _ _
      refine ⟨fun j => ?_, h.length.trans hlength, h.queue.trans ?_, h.calls.trans ?_,
        h.handles.trans ?_⟩
      · rw [List.foldl_cons, h.task j, flag_task, Option.map_map]
        congr 1
        funext t
        exact flagged_append [c] rest t
      · cases c <;> rfl
      · cases c <;> rfl
      · cases c <;> rfl

end Scheduler

/-- No sum of a reading of the clock and an interval runs over. -/
def PassEnvironment.Fits (env : PassEnvironment) : Prop :=
  ∀ k n, (env.clock n).toNat + (env.interval k n).toNat < 2 ^ 64

/-- The flags a visit finds let it go on to the callable. -/
def Visit.live (v : Visit) : Bool := !v.found.cancelled && !v.found.paused

namespace Pass

variable {env : PassEnvironment} {p p₁ p' : Pass} {s : Scheduler} {v : Visit} {vs : List Visit}
  {k j : Nat} {t : Task}

/-! ### One round of the loop -/

/-- The queue as the loop sees it. -/
def view (p : Pass) : Queue Nat Nat := { entries := p.sched.queue, key := p.sched.dueTime }

/-- What a call leaves: it may have been carried out, and the callable may have set flags. -/
structure Called (p : Pass) (v : Visit) (p₁ : Pass) : Prop where
  queue : p₁.sched.queue = p.sched.queue
  visits : p₁.visits = p.visits
  calls : p₁.sched.calls = if v.live then v.task :: p.sched.calls else p.sched.calls
  others : ∃ asked, p₁.asked = p.asked ++ asked ∧
    ∀ j, j ≠ v.task → p₁.sched.tasks[j]? = (p.sched.tasks[j]?).map (Task.flagged asked j)
  length : p₁.sched.tasks.length = p.sched.tasks.length

theorem map_flagged_nil (t : Option Task) : t.map (Task.flagged [] k) = t := by
  cases t <;> simp [Task.flagged]

theorem callTask_called (env : PassEnvironment) (p : Pass) (k : Nat) (t : Task) :
    Called p { task := k, found := t } (p.callTask env k t) := by
  unfold callTask
  by_cases hlive : t.cancelled = false ∧ t.paused = false
  · rw [if_pos hlive]
    have hflags := Scheduler.flags_foldl (env.callable p k)
      { p.sched with calls := k :: p.sched.calls }
    have hcalled : Visit.live { task := k, found := t } = true := by
      simp [Visit.live, hlive.1, hlive.2]
    refine ⟨hflags.queue, rfl, ?_, ⟨env.callable p k, rfl, ?_⟩, ?_⟩
    · rw [if_pos hcalled]
      exact hflags.calls
    · intro j hj
      show (List.modify _ k Task.countCall)[j]? = _
      rw [List.getElem?_modify_ne _ _ (Ne.symm hj)]
      exact hflags.task j
    · exact (List.length_modify _ _ _).trans hflags.length
  · rw [if_neg hlive]
    have hquiet : Visit.live { task := k, found := t } = false := by
      simpa [Visit.live] using hlive
    refine ⟨rfl, rfl, by simp [hquiet], ⟨[], by simp, fun j _ => ?_⟩, rfl⟩
    exact (map_flagged_nil _).symm

/-- What a round leaves: the entry is taken, called and put back, unless it was cancelled,
and the others have only been flagged. -/
structure Visited (env : PassEnvironment) (p : Pass) (v : Visit) (p₁ : Pass) : Prop where
  queue : p₁.sched.queue = p.sched.queue.erase v.task ++ if !v.found.cancelled then [v.task] else []
  visits : p₁.visits = p.visits ++ [v]
  calls : p₁.sched.calls = if v.live then v.task :: p.sched.calls else p.sched.calls
  others : ∃ asked, p₁.asked = p.asked ++ asked ∧
    ∀ j, j ≠ v.task → p₁.sched.tasks[j]? = (p.sched.tasks[j]?).map (Task.flagged asked j)
  length : p₁.sched.tasks.length = p.sched.tasks.length
  renewed : v.found.cancelled = false →
    ∃ r, p₁.sched.dueTime v.task = (env.clock r + env.interval v.task r).toNat

theorem visit_visited (env : PassEnvironment) (htask : p.sched.tasks[k]? = some t) :
    ∃ p₁, p.visit env k = some p₁ ∧ Visited env p { task := k, found := t } p₁ := by
  unfold visit
  simp only [htask, Option.bind_eq_bind, Option.bind_some]
  by_cases hcancelled : t.cancelled = true
  · rw [if_pos hcancelled]
    refine ⟨_, rfl, by simp [hcancelled], rfl, by simp [Visit.live, hcancelled],
      ⟨[], by simp, fun j _ => (map_flagged_nil _).symm⟩, rfl, ?_⟩
    intro hlive
    exact absurd hcancelled (by rw [hlive]; decide)
  · rw [if_neg hcancelled]
    have hcalled := callTask_called env
      { p with
        sched := { p.sched with queue := p.sched.queue.erase k }
        visits := p.visits ++ [{ task := k, found := t }] } k t
    generalize Pass.callTask env _ k t = p₁ at hcalled ⊢
    obtain ⟨asked, hasked, hothers⟩ := hcalled.others
    refine ⟨_, rfl, ?_, hcalled.visits, hcalled.calls, ⟨asked, hasked, ?_⟩, ?_, ?_⟩
    · have hlive : t.cancelled = false := by simpa using hcancelled
      simp [renewTask, hcalled.queue, hlive]
    · intro j hj
      show (List.modify _ k _)[j]? = _
      rw [List.getElem?_modify_ne _ _ (Ne.symm hj)]
      exact hothers j hj
    · exact (List.length_modify _ _ _).trans hcalled.length
    · intro _
      have hlt : k < p₁.sched.tasks.length := by
        rw [hcalled.length]
        exact (List.getElem?_eq_some_iff.mp htask).1
      refine ⟨p₁.reads, ?_⟩
      simp [renewTask, Scheduler.dueTime, hlt]

theorem Visited.dueTime (h : Visited env p v p₁) (hj : j ≠ v.task) :
    p₁.sched.dueTime j = p.sched.dueTime j := by
  obtain ⟨asked, -, hothers⟩ := h.others
  unfold Scheduler.dueTime
  rw [hothers j hj, Option.map_map]
  rfl

/-- What is put back is due after the pass began. -/
theorem Visited.past (h : Visited env p v p₁) (hpos : ∀ k n, 1 ≤ env.interval k n)
    (hfits : env.Fits) (hlive : v.found.cancelled = false) :
    (env.clock 0).toNat < p₁.sched.dueTime v.task := by
  obtain ⟨r, hr⟩ := h.renewed hlive
  have hclock : (env.clock 0).toNat ≤ (env.clock r).toNat := env.monotone 0 r (Nat.zero_le r)
  have hone : 1 ≤ (env.interval v.task r).toNat := hpos v.task r
  have hsum := hfits v.task r
  rw [hr, UInt64.toNat_add, Nat.mod_eq_of_lt hsum]
  omega

/-- A round of the loop is one of draining the queue. -/
theorem Visited.takes (h : Visited env p v p₁) (htop : p.sched.IsTop v.task)
    (hdue : p.sched.dueTime v.task ≤ (env.clock 0).toNat)
    (hpos : ∀ k n, 1 ≤ env.interval k n) (hfits : env.Fits) :
    Takes (env.clock 0).toNat p.view v.task (!v.found.cancelled) p₁.view where
  mem := htop.1
  least := htop.2
  due := hdue
  entries := h.queue
  key _ hj := h.dueTime hj
  past hback := h.past hpos hfits (by simpa using hback)

theorem Visited.wellQueued {bound : Nat} {back : Bool} (h : Visited env p v p₁)
    (htakes : Takes bound p.view v.task back p₁.view) (hqueue : p.sched.WellQueued) :
    p₁.sched.WellQueued where
  nodup := htakes.nodup hqueue.nodup
  lt j hj := by
    rw [h.length]
    rcases (htakes.mem_entries hqueue.nodup).mp hj with ⟨-, hmem⟩ | ⟨-, heq⟩
    · exact hqueue.lt j hmem
    · rw [heq]
      exact hqueue.lt v.task htakes.mem

/-! ### The whole pass

An interval is at least one, and the bound is the time read at the start, so every round takes a
task out of those due or moves it past the bound.  That bounds the number of rounds, as long as
the sum does not run over `2^64`, where a task comes back as due at once.
-/

/-- What a number of rounds leaves. -/
structure Executed (bound : Nat) (p : Pass) (vs : List Visit) (p' : Pass) : Prop where
  drains : Drains bound p.view (vs.map fun v => (v.task, !v.found.cancelled)) p'.view
  visits : p'.visits = p.visits ++ vs
  found : ∀ v ∈ vs, v.found.dueTime = p.sched.dueTime v.task
  calls : p'.sched.calls = ((vs.filter Visit.live).map Visit.task).reverse ++ p.sched.calls
  others : ∃ asked, p'.asked = p.asked ++ asked ∧
    ∀ j, j ∉ vs.map Visit.task → p'.sched.tasks[j]? = (p.sched.tasks[j]?).map (Task.flagged asked j)

theorem Executed.none (h : ∀ j ∈ p.sched.queue, bound < p.sched.dueTime j) :
    Executed bound p [] p where
  drains := .done h
  visits := (List.append_nil _).symm
  found _ hv := nomatch hv
  calls := rfl
  others := ⟨[], (List.append_nil _).symm, fun _ _ => (map_flagged_nil _).symm⟩

theorem Executed.cons {bound : Nat} (hqueue : p.sched.WellQueued) (h : Visited env p v p₁)
    (hfound : v.found.dueTime = p.sched.dueTime v.task)
    (htakes : Takes bound p.view v.task (!v.found.cancelled) p₁.view)
    (hrest : Executed bound p₁ vs p') : Executed bound p (v :: vs) p' where
  drains := .take htakes hrest.drains
  visits := by
    rw [hrest.visits, h.visits, List.append_assoc]
    rfl
  found w hw := by
    rcases List.mem_cons.mp hw with rfl | hw
    · exact hfound
    · have hne : w.task ≠ v.task := by
        have hmem : w.task ∈ (vs.map fun v => (v.task, !v.found.cancelled)).map Prod.fst := by
          rw [List.map_map]
          exact List.mem_map_of_mem hw
        exact ((htakes.mem_due hqueue.nodup).mp
          ((hrest.drains.mem_taken (htakes.nodup hqueue.nodup)).mp hmem)).1
      rw [hrest.found w hw, h.dueTime hne]
  calls := by
    rw [hrest.calls, h.calls]
    cases hlive : v.live <;> simp [hlive]
  others := by
    obtain ⟨asked, hasked, hothers⟩ := h.others
    obtain ⟨later, hlater, hothers'⟩ := hrest.others
    refine ⟨asked ++ later, by rw [hlater, hasked, List.append_assoc], ?_⟩
    intro j hj
    rw [List.map_cons, List.mem_cons, not_or] at hj
    rw [hothers' j hj.2, hothers j hj.1, Option.map_map]
    congr 1
    funext t
    exact Scheduler.flagged_append asked later t

/-- Nothing is due, and the loop is not entered. -/
theorem loop_of_none {now : UInt64} (h : ∀ j ∈ p.sched.queue, now.toNat < p.sched.dueTime j)
    (fuel : Nat) : loop env now (fuel + 1) p = some p := by
  unfold loop
  by_cases hempty : p.sched.queue = []
  · rw [if_pos hempty]
  · have htop := env.isTop p.sched hempty
    rw [if_neg hempty, if_neg (Nat.not_le.mpr (h _ htop.1))]

/-- Something is due, and the loop begins with a round that takes it. -/
theorem loop_of_due (env : PassEnvironment) {now : UInt64} (hqueue : p.sched.WellQueued)
    (h : ∃ j ∈ p.sched.queue, p.sched.dueTime j ≤ now.toNat) :
    ∃ v p₁, p.sched.IsTop v.task ∧ p.sched.dueTime v.task ≤ now.toNat ∧
      p.sched.tasks[v.task]? = some v.found ∧ Visited env p v p₁ ∧
        ∀ fuel, loop env now (fuel + 1) p = loop env now fuel p₁ := by
  obtain ⟨j, hj, hdue⟩ := h
  have hne : p.sched.queue ≠ [] := List.ne_nil_of_mem hj
  have htop := env.isTop p.sched hne
  have htopDue := Nat.le_trans (htop.2 j hj) hdue
  obtain ⟨t, htask⟩ : ∃ t, p.sched.tasks[env.top p.sched]? = some t :=
    ⟨_, List.getElem?_eq_getElem (hqueue.lt _ htop.1)⟩
  obtain ⟨p₁, hp₁, hvisited⟩ := visit_visited env htask
  refine ⟨{ task := env.top p.sched, found := t }, p₁, htop, htopDue, htask, hvisited, ?_⟩
  intro fuel
  rw [loop, if_neg hne, if_pos htopDue, hp₁, Option.bind_some]

/-- The loop ends after as many rounds as tasks are due. -/
theorem loop_executed (hpos : ∀ k n, 1 ≤ env.interval k n) (hfits : env.Fits) :
    ∀ (due : Nat) (p : Pass), p.sched.WellQueued →
      (p.view.due (env.clock 0).toNat).length = due →
      ∃ p' vs, (∀ fuel, due < fuel → loop env (env.clock 0) fuel p = some p') ∧
        Executed (env.clock 0).toNat p vs p' := by
  intro due
  induction due with
  | zero =>
      intro p hqueue hdue
      have hnone : ∀ j ∈ p.sched.queue, (env.clock 0).toNat < p.sched.dueTime j := by
        intro j hj
        by_contra hle
        have hmem := Queue.mem_due (q := p.view).mpr ⟨hj, Nat.not_lt.mp hle⟩
        rw [List.length_eq_zero_iff.mp hdue] at hmem
        cases hmem
      refine ⟨p, [], ?_, .none hnone⟩
      intro fuel hfuel
      obtain ⟨fuel, rfl⟩ := Nat.exists_eq_succ_of_ne_zero (Nat.ne_of_gt hfuel)
      exact loop_of_none hnone fuel
  | succ due ih =>
      intro p hqueue hdue
      have hsome : ∃ j ∈ p.sched.queue, p.sched.dueTime j ≤ (env.clock 0).toNat := by
        obtain ⟨j, hj⟩ := List.exists_mem_of_length_pos (by rw [hdue]; exact Nat.succ_pos due)
        exact ⟨j, (Queue.mem_due.mp hj).1, (Queue.mem_due.mp hj).2⟩
      obtain ⟨v, p₁, htop, htopDue, htask, hvisited, hloop⟩ :=
        loop_of_due env hqueue hsome
      have htakes := hvisited.takes htop htopDue hpos hfits
      have hlength := htakes.length_due hqueue.nodup
      obtain ⟨p', vs, hp', hexecuted⟩ :=
        ih p₁ (hvisited.wellQueued htakes hqueue) (by omega)
      have hfound : v.found.dueTime = p.sched.dueTime v.task := by
        rw [Scheduler.dueTime, htask]
        rfl
      refine ⟨p', v :: vs, ?_, hexecuted.cons hqueue hvisited hfound htakes⟩
      intro fuel hfuel
      obtain ⟨fuel, rfl⟩ := Nat.exists_eq_succ_of_ne_zero (Nat.ne_of_gt (Nat.zero_lt_of_lt hfuel))
      rw [hloop fuel]
      exact hp' fuel (Nat.lt_of_succ_lt_succ hfuel)

/-- What a pass that began at `now` has done to the scheduler it found: the tasks that were
due were considered, each once and in the order of their due times; the callables of
exactly those that were then neither cancelled nor paused were invoked, each once; those
that were not cancelled when they were popped are in the queue again, due later; and of the
other entries of the queue callables have set flags and nothing else has changed. -/
structure Exact (now : UInt64) (s : Scheduler) (p : Pass) : Prop where
  order : p.visits.Pairwise fun v w => v.found.dueTime ≤ w.found.dueTime
  found : ∀ v ∈ p.visits, v.found.dueTime = s.dueTime v.task
  considered : (p.visits.map Visit.task).Perm (s.queue.filter fun k => s.dueTime k ≤ now.toNat)
  invoked : p.sched.calls = ((p.visits.filter Visit.live).map Visit.task).reverse ++ s.calls
  queue : p.sched.queue.Perm ((s.queue.filter fun k => now.toNat < s.dueTime k) ++
    (p.visits.filter fun v => !v.found.cancelled).map Visit.task)
  renewed : ∀ v ∈ p.visits, v.found.cancelled = false → now.toNat < p.sched.dueTime v.task
  others : ∀ k, k ∉ p.visits.map Visit.task →
    p.sched.tasks[k]? = (s.tasks[k]?).map (Task.flagged p.asked k)

theorem Executed.exact {now : UInt64} {reads : Nat} (hqueue : s.WellQueued)
    (h : Executed now.toNat { sched := s, reads := reads } vs p) : Exact now s p := by
  have hvisits : p.visits = vs := h.visits
  have htaken : (vs.map fun v => (v.task, !v.found.cancelled)).map Prod.fst
      = vs.map Visit.task := by
    rw [List.map_map]
    rfl
  have hback : ((vs.map fun v => (v.task, !v.found.cancelled)).filter Prod.snd).map Prod.fst
      = (vs.filter fun v => !v.found.cancelled).map Visit.task := by
    rw [List.filter_map, List.map_map]
    rfl
  have hqueue' := h.drains.entries_perm hqueue.nodup
  rw [hback, ← hvisits] at hqueue'
  obtain ⟨asked, hasked, hothers⟩ := h.others
  have hasked' : p.asked = asked := hasked
  refine ⟨?_, ?_, ?_, ?_, hqueue', ?_, ?_⟩
  · have hordered := h.drains.ordered hqueue.nodup
    rw [htaken, List.pairwise_map] at hordered
    rw [hvisits]
    refine hordered.imp_of_mem ?_
    intro v w hv hw hle
    rw [h.found v hv, h.found w hw]
    exact hle
  · rw [hvisits]
    exact h.found
  · have hperm := h.drains.taken_perm hqueue.nodup
    rw [htaken] at hperm
    rw [hvisits]
    exact hperm
  · rw [hvisits]
    exact h.calls
  · intro v hv hlive
    refine h.drains.past v.task (hqueue'.mem_iff.mpr (List.mem_append_right _ ?_))
    exact List.mem_map_of_mem (List.mem_filter.mpr ⟨hv, by simp [hlive]⟩)
  · intro k hk
    rw [hvisits] at hk
    rw [hasked']
    exact hothers k hk

/-- **A pass does exactly the due work.**  Whatever is queued, whatever the callables cancel
or pause, and whichever of several least entries the heap has on top: if every interval is
at least one millisecond, and no sum of clock and interval runs over, then a pass of a
running scheduler ends, after as many rounds as tasks were due, and has done what is due. -/
theorem pass_exact (env : PassEnvironment) (hqueue : s.WellQueued) (hrunning : s.running = true)
    (hpos : ∀ k n, 1 ≤ env.interval k n) (hfits : env.Fits) :
    ∃ p, (∀ fuel, (s.queue.filter fun k => s.dueTime k ≤ (env.clock 0).toNat).length < fuel →
        executeDueTasks env fuel s = some p) ∧
      Exact (env.clock 0) s p := by
  obtain ⟨p, vs, hp, hexecuted⟩ := loop_executed hpos hfits _ { sched := s, reads := 1 } hqueue rfl
  refine ⟨p, ?_, hexecuted.exact hqueue⟩
  intro fuel hfuel
  unfold executeDueTasks
  rw [if_pos hrunning]
  exact hp fuel hfuel

/-- A clock that stands still, and one interval for all tasks. -/
def stillEnvironment (clock interval : UInt64) (callable : Pass → Nat → List FlagCall) :
    PassEnvironment where
  clock _ := clock
  monotone _ _ _ := UInt64.le_refl clock
  interval _ _ := interval
  callable := callable

/-- Two of three tasks are due at 1000. -/
def twoDue : Scheduler :=
  { tasks := [{ maxCalls := -1, dueTime := 900 }, { maxCalls := 1, dueTime := 950 },
      { maxCalls := -1, dueTime := 2000 }]
    queue := [2, 1, 0] }

/-- The callable of the first one due pauses the second. -/
theorem pass_exact_of_two :
    ∃ p, (∀ fuel, 2 < fuel →
        executeDueTasks (stillEnvironment 1000 50 fun _ k => if k = 0 then [.pause 1] else [])
          fuel twoDue = some p) ∧
      Exact 1000 twoDue p := by
  have hqueue : twoDue.WellQueued := ⟨by decide, by decide⟩
  have hfits : (stillEnvironment 1000 50 fun _ k => if k = 0 then [.pause 1] else []).Fits := by
    intro k n
    show (1000 : UInt64).toNat + (50 : UInt64).toNat < 2 ^ 64
    decide
  exact pass_exact _ hqueue rfl (fun _ _ => show (1 : UInt64) ≤ 50 by decide) hfits

/-- The interval is as long as it can be, and the sum runs over to just before now. -/
theorem endless_pass :
    ∃ (env : PassEnvironment) (s : Scheduler), s.WellQueued ∧ s.running = true ∧
      (∀ k n, 1 ≤ env.interval k n) ∧ ∀ fuel, executeDueTasks env fuel s = none := by
  let env := stillEnvironment 1000 (-1) fun _ _ => []
  -- every round finds the one task due, and leaves it due
  have hloop : ∀ (fuel : Nat) (p : Pass), p.sched.queue = [0] →
      (∃ due ≤ 1000, p.sched.tasks = [{ maxCalls := -1, dueTime := due }]) →
        loop env 1000 fuel p = none := by
    intro fuel
    induction fuel with
    | zero => exact fun _ _ _ => rfl
    | succ fuel ih =>
        intro p hqueue ⟨due, hdue, htasks⟩
        have htop : env.top p.sched = 0 := by
          simpa [hqueue] using (env.isTop p.sched (by simp [hqueue])).1
        have hpast : p.sched.dueTime 0 ≤ (1000 : UInt64).toNat := by
          simpa [Scheduler.dueTime, htasks] using hdue
        rw [loop, if_neg (by simp [hqueue]), htop, if_pos hpast]
        unfold visit callTask
        simp only [htasks, List.getElem?_cons_zero, Option.bind_eq_bind, Option.bind_some]
        refine ih _ ?_ ⟨999, by decide, ?_⟩
        · simp [renewTask, hqueue, env, stillEnvironment]
        · simp [renewTask, env, stillEnvironment, Task.countCall]
  refine ⟨env, { tasks := [{ maxCalls := -1, dueTime := 1000 }], queue := [0] },
    ⟨by decide, by decide⟩, rfl, fun _ _ => show (1 : UInt64) ≤ -1 by decide,
    fun fuel => ?_⟩
  exact hloop fuel _ rfl ⟨1000, Nat.le_refl _, rfl⟩

/-! ### The pass among the other threads

A pass is a run of the executor in `Scheduler.lean`.  What a callable does comes after the
call of its task there, and it does it through handles that are at rest.
-/

/-- The task is the one a handle at rest holds. -/
def Reaches (s : Scheduler) (c : FlagCall) : Prop :=
  ∃ (i : Nat) (h : ScheduledTask), s.handles[i]? = some h ∧ h.pc = .idle ∧ h.task = c.task ∧
    h.task < s.tasks.length

theorem Reaches.step {c : FlagCall} (h : Reaches s c) : ∃ act, s.step act = some (s.flag c) := by
  obtain ⟨i, h, hh, hidle, htask, hlt⟩ := h
  have hget : s.tasks[h.task]? = some s.tasks[h.task] := List.getElem?_eq_getElem hlt
  cases c with
  | cancel k =>
      obtain rfl : h.task = k := htask
      refine ⟨.cancel i, Scheduler.onTask_eq_some.mpr ⟨h, _, hh, hget, hidle, ?_⟩⟩
      rw [Scheduler.flag, modify_of_getElem? Task.cancel hget, Scheduler.setTask]
  | pause k =>
      obtain rfl : h.task = k := htask
      refine ⟨.pause i, Scheduler.onTask_eq_some.mpr ⟨h, _, hh, hget, hidle, ?_⟩⟩
      rw [Scheduler.flag, modify_of_getElem? Task.pause hget, Scheduler.setTask]

theorem foldl_flag_run (asked : List FlagCall) :
    ∀ s : Scheduler, (∀ c ∈ asked, Reaches s c) →
      schedulerSystem.Run s (asked.foldl Scheduler.flag s) := by
  induction asked with
  | nil => exact fun s _ => System.Run.refl s
  | cons c rest ih =>
      intro s hacts
      obtain ⟨act, hstep⟩ := (hacts c List.mem_cons_self).step
      refine ((System.Run.refl s).tail hstep).trans (ih _ ?_)
      have hhandles : (s.flag c).handles = s.handles := by cases c <;> rfl
      have hlength : (s.flag c).tasks.length = s.tasks.length := by
        cases c <;> exact List.length_modify _ _ _
      intro c' hc'
      unfold Reaches
      rw [hhandles, hlength]
      exact hacts c' (List.mem_cons_of_mem _ hc')

/-- A task is counted as called, and the executor goes on to renew it. -/
def countTask (s : Scheduler) (k now : Nat) : Scheduler :=
  { s with tasks := s.tasks.modify k Task.countCall, pc := .renewTask k now }

theorem countCall_cancel (t : Task) : t.cancel.countCall = t.countCall.cancel := by
  unfold Task.countCall Task.cancel
  dsimp only
  split
  · split <;> rfl
  · rfl

theorem countCall_pause (t : Task) : t.pause.countCall = t.countCall.pause := by
  unfold Task.countCall Task.pause Task.cancel
  dsimp only
  split
  · split <;> rfl
  · rfl

theorem modify_comm {f g : Task → Task} (hcomm : ∀ t, g (f t) = f (g t)) (l : List Task) :
    (l.modify j f).modify k g = (l.modify k g).modify j f := by
  refine List.ext_getElem? fun i => ?_
  simp only [List.getElem?_modify]
  cases l[i]? with
  | none => simp
  | some t =>
      by_cases hj : j = i <;> by_cases hk : k = i <;> simp [hj, hk, hcomm]

/-- It makes no difference whether a call is counted before or after its callable acts. -/
theorem foldl_flag_countTask (asked : List FlagCall) (k now : Nat) : ∀ s : Scheduler,
    asked.foldl Scheduler.flag (countTask s k now)
      = countTask (asked.foldl Scheduler.flag s) k now := by
  induction asked with
  | nil => exact fun _ => rfl
  | cons c rest ih =>
      intro s
      rw [List.foldl_cons, List.foldl_cons, ← ih]
      congr 1
      cases c with
      | cancel j =>
          unfold countTask Scheduler.flag
          rw [modify_comm countCall_cancel]
      | pause j =>
          unfold countTask Scheduler.flag
          rw [modify_comm countCall_pause]

theorem call_eq_countCall (hlive : t.cancelled = false ∧ t.paused = false) :
    t.call = (true, t.countCall) := by
  unfold Task.call Task.countCall
  rw [if_pos hlive]
  split <;> rfl

theorem callTask_handles (p : Pass) : (p.callTask env k t).sched.handles = p.sched.handles := by
  unfold callTask
  split
  · exact (Scheduler.flags_foldl (env.callable p k) _).handles
  · rfl

/-- The call of a task, and what its callable does. -/
theorem callTask_run {now : Nat} (htask : p.sched.tasks[k]? = some t)
    (hacts : ∀ c ∈ env.callable p k, Reaches p.sched c) :
    schedulerSystem.Run { p.sched with pc := .callTask k now }
      { (p.callTask env k t).sched with pc := .renewTask k now } := by
  unfold callTask
  by_cases hlive : t.cancelled = false ∧ t.paused = false
  · rw [if_pos hlive]
    have hcall : schedulerSystem.step { p.sched with pc := .callTask k now } (.advance 0 0 0)
        (countTask { p.sched with calls := k :: p.sched.calls } k now) := by
      simp [schedulerSystem, System.ofFun, Scheduler.step, Scheduler.executor, htask,
        call_eq_countCall hlive, countTask, Scheduler.setTask, modify_of_getElem? _ htask]
    have hflags := foldl_flag_run (env.callable p k)
      (countTask { p.sched with calls := k :: p.sched.calls } k now) ?_
    · rw [foldl_flag_countTask] at hflags
      exact ((System.Run.refl _).tail hcall).trans hflags
    · intro c hc
      unfold Reaches countTask
      rw [List.length_modify]
      exact hacts c hc
  · rw [if_neg hlive]
    have hquiet : t.call = (false, t) := by
      unfold Task.call
      rw [if_neg hlive]
    refine (System.Run.refl _).tail (a := .advance 0 0 0) ?_
    simp [schedulerSystem, System.ofFun, Scheduler.step, Scheduler.executor, htask, hquiet,
      Scheduler.setTask, set_of_getElem? htask]

/-- The condition of the loop. -/
theorem passHead_step {now : Nat} (htop : s.IsTop k) :
    Scheduler.step { s with pc := .passHead now } (.advance 0 0 k)
      = some { s with pc := if s.dueTime k ≤ now then .popTop now else .loopHead } := by
  show (if s.queue = [] then _ else if s.IsTop k then _ else _) = _
  rw [if_neg (List.ne_nil_of_mem htop.1), if_pos htop]
  rfl

/-- One round of the loop. -/
theorem visit_run {now : Nat} (hacts : ∀ p k, ∀ c ∈ env.callable p k, Reaches s c)
    (hhandles : p.sched.handles = s.handles) (hlength : p.sched.tasks.length = s.tasks.length)
    (htop : p.sched.IsTop k) (hdue : p.sched.dueTime k ≤ now) (hvisit : p.visit env k = some p₁) :
    schedulerSystem.Run { p.sched with pc := .passHead now } { p₁.sched with pc := .passHead now } ∧
      p₁.sched.handles = s.handles ∧ p₁.sched.tasks.length = s.tasks.length := by
  unfold visit at hvisit
  simp only [Option.bind_eq_bind, Option.bind_eq_some_iff] at hvisit
  obtain ⟨t, htask, hvisit⟩ := hvisit
  have hhead : schedulerSystem.step { p.sched with pc := .passHead now } (.advance 0 0 k)
      { p.sched with pc := .popTop now } := by
    refine (passHead_step htop).trans ?_
    rw [if_pos hdue]
  have hpop : schedulerSystem.step { p.sched with pc := .popTop now } (.advance 0 0 k)
      { p.sched with queue := p.sched.queue.erase k, pc := .popped k now } := by
    show (if p.sched.IsTop k then _ else _) = _
    rw [if_pos htop]
  have hpopped := ((System.Run.refl _).tail hhead).tail hpop
  split at hvisit
  · rename_i hcancelled
    obtain rfl := Option.some.inj hvisit
    refine ⟨hpopped.tail (a := .advance 0 0 0) ?_, hhandles, hlength⟩
    simp [schedulerSystem, System.ofFun, Scheduler.step, Scheduler.executor, htask, hcancelled]
  · rename_i hcancelled
    obtain rfl := Option.some.inj hvisit
    let q : Pass := { p with
      sched := { p.sched with queue := p.sched.queue.erase k }
      visits := p.visits ++ [{ task := k, found := t }] }
    have hon : schedulerSystem.step
        { p.sched with queue := p.sched.queue.erase k, pc := .popped k now } (.advance 0 0 0)
        { q.sched with pc := .callTask k now } := by
      simp [q, schedulerSystem, System.ofFun, Scheduler.step, Scheduler.executor, htask, hcancelled]
    have hcall : schedulerSystem.Run { q.sched with pc := .callTask k now }
        { (q.callTask env k t).sched with pc := .renewTask k now } := by
      refine callTask_run htask fun c hc => ?_
      obtain ⟨i, h, hh, hreaches⟩ := hacts q k c hc
      exact ⟨i, h, hhandles ▸ hh, hlength ▸ hreaches⟩
    have hkept := (callTask_called env q k t).length
    obtain ⟨t', ht'⟩ : ∃ t', (q.callTask env k t).sched.tasks[k]? = some t' := by
      refine ⟨_, List.getElem?_eq_getElem (hkept ▸ ?_)⟩
      exact (List.getElem?_eq_some_iff.mp htask).1
    -- the scheduler of the other file adds without running over, so it is given the sum
    have hrenew : schedulerSystem.step { (q.callTask env k t).sched with pc := .renewTask k now }
        (.advance (env.clock (q.callTask env k t).reads
          + env.interval k (q.callTask env k t).reads).toNat 0 0)
        { ((q.callTask env k t).renewTask env k).sched with pc := .passHead now } := by
      simp [schedulerSystem, System.ofFun, Scheduler.step, Scheduler.executor, ht', renewTask,
        Task.renew, Scheduler.setTask, modify_of_getElem? _ ht']
    refine ⟨((hpopped.tail hon).trans hcall).tail hrenew, ?_, ?_⟩
    · exact (callTask_handles q).trans hhandles
    · exact (List.length_modify _ _ _).trans (hkept.trans hlength)

theorem loop_run {now : UInt64} (hacts : ∀ p k, ∀ c ∈ env.callable p k, Reaches s c) :
    ∀ (fuel : Nat) (p : Pass), p.sched.handles = s.handles →
      p.sched.tasks.length = s.tasks.length → loop env now fuel p = some p' →
        schedulerSystem.Run { p.sched with pc := .passHead now.toNat }
          { p'.sched with pc := .loopHead } := by
  intro fuel
  induction fuel with
  | zero => exact fun _ _ _ hloop => nomatch hloop
  | succ fuel ih =>
      intro p hhandles hlength hloop
      rw [loop] at hloop
      by_cases hempty : p.sched.queue = []
      · rw [if_pos hempty] at hloop
        obtain rfl := Option.some.inj hloop
        refine (System.Run.refl _).tail (a := .advance 0 0 0) ?_
        simp [schedulerSystem, System.ofFun, Scheduler.step, Scheduler.executor, hempty]
      · have htop := env.isTop p.sched hempty
        rw [if_neg hempty] at hloop
        by_cases hdue : p.sched.dueTime (env.top p.sched) ≤ now.toNat
        · rw [if_pos hdue, Option.bind_eq_some_iff] at hloop
          obtain ⟨p₁, hvisit, hrest⟩ := hloop
          obtain ⟨hrun, hhandles₁, hlength₁⟩ := visit_run hacts hhandles hlength htop hdue hvisit
          exact hrun.trans (ih p₁ hhandles₁ hlength₁ hrest)
        · rw [if_neg hdue] at hloop
          obtain rfl := Option.some.inj hloop
          refine (System.Run.refl _).tail (a := .advance 0 0 (env.top p.sched)) ?_
          refine (passHead_step htop).trans ?_
          rw [if_neg hdue]

/-- **A pass is a run of the executor**, from the entry of `execute_due_tasks` to the head of
the loop of its thread. -/
theorem executeDueTasks_run {fuel : Nat} (hpc : s.pc = .execute)
    (hacts : ∀ p k, ∀ c ∈ env.callable p k, Reaches s c)
    (h : executeDueTasks env fuel s = some p) :
    schedulerSystem.Run s { p.sched with pc := .loopHead } := by
  unfold executeDueTasks at h
  cases hrunning : s.running with
  | true =>
      rw [if_pos hrunning] at h
      have hread : schedulerSystem.step s (.advance (env.clock 0).toNat 0 0)
          { s with pc := .passHead (env.clock 0).toNat } := by
        simp [schedulerSystem, System.ofFun, Scheduler.step, Scheduler.executor, hpc, hrunning]
      exact ((System.Run.refl s).tail hread).trans (loop_run hacts fuel _ rfl rfl h)
  | false =>
      rw [hrunning] at h
      obtain rfl := Option.some.inj h
      refine (System.Run.refl s).tail (a := .advance 0 0 0) ?_
      simp [schedulerSystem, System.ofFun, Scheduler.step, Scheduler.executor, hpc, hrunning]

end Pass

end Raft
