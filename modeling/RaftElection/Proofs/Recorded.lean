/-
A scheduler is made of handles.

Every task was made for a handle, and the only task of a handle that may be live is the one
it holds.  So whatever a step of the scheduler does is, seen from one handle, a step of that
handle or nothing, and what holds along the runs of one handle holds of every handle of a
scheduler, however many there are and whatever is in the queue.
-/
import RaftElection.Handle
import RaftElection.Proofs.Queue

namespace Raft

open Transition

namespace Recorded

variable {r r' : Recorded} {act : SchedulerAction} {i j k : Nat} {x x' : Handle}

theorem handle_eq_some : r.handle i = some x ↔
    ∃ h, r.sched.handles[i]? = some h ∧ r.sched.tasks[h.task]? = some x.task ∧
      h.pc = x.pc ∧ r.ledgers[i]? = some x.ledger := by
  unfold handle
  simp only [Option.bind_eq_bind, Option.bind_eq_some_iff, Option.some.injEq]
  constructor
  · rintro ⟨h, hh, t, ht, l, hl, rfl⟩
    exact ⟨h, hh, ht, rfl, hl⟩
  · rintro ⟨h, hh, ht, hpc, hl⟩
    exact ⟨h, hh, _, ht, _, hl, by rw [hpc]⟩

/-- Whose the tasks are. -/
structure Kept (r : Recorded) : Prop where
  sound : r.sched.Sound
  owners : r.owner.length = r.sched.tasks.length
  ledgers : r.ledgers.length = r.sched.handles.length
  /-- The task of a handle was made for it, -/
  current : ∀ (i : Nat) (h : ScheduledTask), r.sched.handles[i]? = some h →
    r.owner[h.task]? = some i
  /-- and any other task made for it is not live, -/
  old : ∀ k i : Nat, r.sched.Live k → r.owner[k]? = some i →
    ∃ h : ScheduledTask, r.sched.handles[i]? = some h ∧ h.task = k
  /-- nor is that one when a `reset` is about to replace it. -/
  parted : ∀ (i : Nat) (h : ScheduledTask) cancelled paused, r.sched.handles[i]? = some h →
    h.pc = .oldCancelled cancelled paused → ¬ r.sched.Live h.task

/-- Two handles never hold the same task. -/
theorem Kept.injective (hr : Kept r) {h h' : ScheduledTask} (hi : r.sched.handles[i]? = some h)
    (hj : r.sched.handles[j]? = some h') (htask : h.task = h'.task) : i = j := by
  have howner := hr.current i h hi
  rw [htask, hr.current j h' hj] at howner
  exact (Option.some.inj howner).symm

theorem Kept.exists_handle (hr : Kept r) {h : ScheduledTask} (hi : r.sched.handles[i]? = some h) :
    ∃ x, r.handle i = some x ∧ r.sched.tasks[h.task]? = some x.task ∧ h.pc = x.pc ∧
      r.ledgers[i]? = some x.ledger := by
  obtain ⟨hlt, hget⟩ := List.getElem?_eq_some_iff.mp hi
  obtain ⟨t, ht⟩ : ∃ t, r.sched.tasks[h.task]? = some t :=
    ⟨_, List.getElem?_eq_getElem (hr.sound.handles h (hget ▸ List.getElem_mem hlt))⟩
  obtain ⟨l, hl⟩ : ∃ l, r.ledgers[i]? = some l :=
    ⟨_, List.getElem?_eq_getElem (show i < r.ledgers.length by rw [hr.ledgers]; exact hlt)⟩
  have hx : r.handle i = some { task := t, pc := h.pc, ledger := l } :=
    handle_eq_some.mpr ⟨h, hi, ht, rfl, hl⟩
  exact ⟨_, hx, ht, rfl, hl⟩

/-! ### What a step does to tasks, handles and ledgers

Seen from the handles there are few kinds of step, though the scheduler has many.  They are listed
here with all that is later read from them, so that neither of the two uses below splits the
steps of the scheduler again.
-/

/-- What a step does, seen from the handles. -/
inductive Effect (r : Recorded) (act : SchedulerAction) (r' : Recorded) : Prop
  /-- It touches none of them. -/
  | quiet (tasks : r'.sched.tasks = r.sched.tasks) (handles : r'.sched.handles = r.sched.handles)
      (owner : r'.owner = r.owner) (ledgers : r'.ledgers = r.ledgers)
  /-- It makes a handle. -/
  | made (maxCalls : Int) (dueTime : Nat)
      (tasks : r'.sched.tasks = r.sched.tasks ++ [{ maxCalls := maxCalls, dueTime := dueTime }])
      (handles : r'.sched.handles = r.sched.handles ++ [{ task := r.sched.tasks.length }])
      (owner : r'.owner = r.owner ++ [r.sched.handles.length])
      (ledgers : r'.ledgers = r.ledgers ++ [{ limit := maxCalls }])
  /-- It is a step of one handle, which keeps its task. -/
  | moved (i : Nat) (h : ScheduledTask) (x y : Handle) (a : HandleAction)
      (handle : r.sched.handles[i]? = some h) (before : r.handle i = some x)
      (step : x.step a = some y) (dead : x.task.cancelled = true → y.task.cancelled = true)
      (parted : ∀ cancelled paused, y.pc = .oldCancelled cancelled paused → y.task.cancelled = true)
      (call : a = .call → x.task.call.1 = true → r.sched.invokes act = some h.task)
      (tasks : r'.sched.tasks = r.sched.tasks.set h.task y.task)
      (handles : r'.sched.handles = r.sched.handles.set i { task := h.task, pc := y.pc })
      (owner : r'.owner = r.owner) (ledgers : r'.ledgers = r.ledgers.set i y.ledger)
  /-- It is a step of one handle, which gets a new task. -/
  | replaced (i clock interval : Nat) (cancelled paused : Bool) (h : ScheduledTask) (x y : Handle)
      (handle : r.sched.handles[i]? = some h) (before : r.handle i = some x)
      (pc : x.pc = .oldCancelled cancelled paused) (step : x.step (.reset clock interval) = some y)
      (tasks : r'.sched.tasks = r.sched.tasks ++ [y.task])
      (handles : r'.sched.handles =
        r.sched.handles.set i { task := r.sched.tasks.length, pc := y.pc })
      (owner : r'.owner = r.owner ++ [i]) (ledgers : r'.ledgers = r.ledgers)
  /-- It touches a task that no handle holds, and that is cancelled. -/
  | stray (k : Nat) (t t' : Task) (task : r.sched.tasks[k]? = some t)
      (cancelled : t.cancelled = true) (cancelled' : t'.cancelled = true)
      (alone : ∀ h ∈ r.sched.handles, h.task ≠ k) (tasks : r'.sched.tasks = r.sched.tasks.set k t')
      (handles : r'.sched.handles = r.sched.handles) (owner : r'.owner = r.owner)
      (ledgers : r'.ledgers = r.ledgers)

/-! ### What it leaves of a handle -/

theorem Effect.handle_after (hr : Kept r) (heff : Effect r act r') (hx' : r'.handle j = some x') :
    r.handle j = none ∧ x'.IsNew ∨ ∃ x, r.handle j = some x ∧ (x' = x ∨ ∃ a, x.step a = some x' ∧
      (a = .call → x.task.call.1 = true →
        ∃ h : ScheduledTask, r.sched.handles[j]? = some h ∧ r.sched.invokes act = some h.task)) := by
  obtain ⟨h', hh', htask', hpc', hledger'⟩ := handle_eq_some.mp hx'
  -- where the handle, its task and its ledger are what they were
  have hsame (hh : r.sched.handles[j]? = some h') (htask : r.sched.tasks[h'.task]? = some x'.task)
      (hledger : r.ledgers[j]? = some x'.ledger) : r.handle j = some x' :=
    handle_eq_some.mpr ⟨h', hh, htask, hpc', hledger⟩
  cases heff with
  | quiet htasks hhandles howner hledgers =>
      rw [hhandles] at hh'
      rw [htasks] at htask'
      rw [hledgers] at hledger'
      exact Or.inr ⟨x', hsame hh' htask' hledger', Or.inl rfl⟩
  | made maxCalls dueTime htasks hhandles howner hledgers =>
      rw [hhandles, getElem?_concat_eq_some] at hh'
      rw [htasks, getElem?_concat_eq_some] at htask'
      rw [hledgers, getElem?_concat_eq_some, hr.ledgers] at hledger'
      rcases hh' with hh' | ⟨rfl, rfl⟩
      · have hj := Nat.ne_of_lt (List.getElem?_eq_some_iff.mp hh').1
        have hin := Nat.ne_of_lt (hr.sound.handles h' (List.mem_of_getElem? hh'))
        exact Or.inr ⟨x', hsame hh' (htask'.resolve_right fun h => hin h.1)
          (hledger'.resolve_right fun h => hj h.1), Or.inl rfl⟩
      · have hnone : r.handle r.sched.handles.length = none := by
          unfold handle
          rw [List.getElem?_eq_none (Nat.le_refl _)]
          rfl
        have htask := (htask'.resolve_left (by simp)).2
        have hledger := (hledger'.resolve_left (by simp [← hr.ledgers])).2
        refine Or.inl ⟨hnone, maxCalls, dueTime, ?_⟩
        obtain ⟨task, pc, ledger⟩ := x'
        cases htask
        cases hledger
        cases hpc'
        rfl
  | moved i h x y a hh hx hstep hdead hparted hcall htasks hhandles howner hledgers =>
      obtain ⟨h₁, hh₁, htask, hpc, hledger⟩ := handle_eq_some.mp hx
      obtain rfl := Option.some.inj (hh.symm.trans hh₁)
      rw [hhandles, getElem?_set_eq_some hh] at hh'
      rw [htasks, getElem?_set_eq_some htask] at htask'
      rw [hledgers, getElem?_set_eq_some hledger] at hledger'
      rcases hh' with ⟨rfl, rfl⟩ | ⟨hij, hh'⟩
      · refine Or.inr ⟨x, hx, Or.inr ⟨a, ?_, fun ha hlive => ⟨h, hh, hcall ha hlive⟩⟩⟩
        have htask := (htask'.resolve_right fun h => h.1 rfl).2
        have hledger := (hledger'.resolve_right fun h => h.1 rfl).2
        rw [hstep]
        obtain ⟨task, pc, ledger⟩ := x'
        cases htask
        cases hledger
        cases hpc'
        rfl
      · have hne : h.task ≠ h'.task := fun heq => hij (hr.injective hh hh' heq)
        exact Or.inr ⟨x', hsame hh' (htask'.resolve_left fun h => hne h.1).2
          (hledger'.resolve_left fun h => hij h.1).2, Or.inl rfl⟩
  | replaced i clock interval cancelled paused h x y hh hx hpc hstep htasks hhandles howner
      hledgers =>
      obtain ⟨h₁, hh₁, -, -, hledger⟩ := handle_eq_some.mp hx
      obtain rfl := Option.some.inj (hh.symm.trans hh₁)
      rw [hhandles, getElem?_set_eq_some hh] at hh'
      rw [htasks, getElem?_concat_eq_some] at htask'
      rw [hledgers] at hledger'
      rcases hh' with ⟨rfl, rfl⟩ | ⟨hij, hh'⟩
      · refine Or.inr ⟨x, hx, Or.inr ⟨.reset clock interval, ?_, nofun⟩⟩
        have htask := (htask'.resolve_left (by simp)).2
        have hkept : y.ledger = x.ledger := by
          simp only [Handle.step, Handle.resetStep, hpc, Option.some.injEq] at hstep
          rw [← hstep]
        obtain hsame := Option.some.inj (hledger.symm.trans hledger')
        rw [hstep]
        obtain ⟨task, pc, ledger⟩ := x'
        cases htask
        cases hpc'
        obtain rfl := hkept.trans hsame
        rfl
      · have hin := Nat.ne_of_lt (hr.sound.handles h' (List.mem_of_getElem? hh'))
        exact Or.inr ⟨x', hsame hh' (htask'.resolve_right fun h => hin h.1) hledger', Or.inl rfl⟩
  | stray k t t' ht hcancelled hcancelled' halone htasks hhandles howner hledgers =>
      rw [hhandles] at hh'
      rw [htasks, getElem?_set_eq_some ht] at htask'
      rw [hledgers] at hledger'
      have hne : k ≠ h'.task := Ne.symm (halone h' (List.mem_of_getElem? hh'))
      exact Or.inr ⟨x', hsame hh' (htask'.resolve_left fun h => hne h.1).2 hledger', Or.inl rfl⟩

theorem Effect.length_le (heff : Effect r act r') :
    r.sched.handles.length ≤ r'.sched.handles.length := by
  cases heff <;> simp_all

/-! ### Whose the tasks are, after a step

A `reset` is the one step after which a handle holds another task, and it has cancelled the old
one by then.  The record of owners only grows, so that the old task remains known as one of this
handle.
-/

/-- A task that is live where one was made was live before, unless it is that one. -/
theorem live_of_append {s s' : Scheduler} {t : Task} (htasks : s'.tasks = s.tasks ++ [t])
    (h : s'.Live j) : s.Live j ∨ j = s.tasks.length := by
  obtain ⟨u, hu, hlive⟩ := h
  rw [htasks, getElem?_concat_eq_some] at hu
  exact hu.imp (fun hu => ⟨u, hu, hlive⟩) And.left

theorem Live.lt {s : Scheduler} (h : s.Live k) : k < s.tasks.length := by
  obtain ⟨t, ht, -⟩ := h
  exact (List.getElem?_eq_some_iff.mp ht).1

/-- Where no task is made or comes to life and the handles keep their tasks. -/
theorem Kept.keep (hr : Kept r) (hsound : r'.sched.Sound)
    (hlive : ∀ k, r'.sched.Live k → r.sched.Live k)
    (hlength : r'.sched.tasks.length = r.sched.tasks.length)
    (hhandles : r'.sched.handles = r.sched.handles) (howner : r'.owner = r.owner)
    (hledgers : r'.ledgers = r.ledgers) : Kept r' := by
  refine ⟨hsound, ?_, ?_, ?_, ?_, ?_⟩
  · rw [howner, hlength]
    exact hr.owners
  · rw [hledgers, hhandles]
    exact hr.ledgers
  · rw [howner, hhandles]
    exact hr.current
  · intro k i hk hown
    rw [howner] at hown
    rw [hhandles]
    exact hr.old k i (hlive k hk) hown
  · intro i h cancelled paused hi hpc hk
    rw [hhandles] at hi
    exact hr.parted i h cancelled paused hi hpc (hlive _ hk)

theorem Kept.effect (hr : Kept r) (heff : Effect r act r') (hsound : r'.sched.Sound) : Kept r' := by
  cases heff with
  | quiet htasks hhandles howner hledgers =>
      refine hr.keep hsound ?_ (by rw [htasks]) hhandles howner hledgers
      intro k ⟨t, ht, hcancelled⟩
      rw [htasks] at ht
      exact ⟨t, ht, hcancelled⟩
  | made maxCalls dueTime htasks hhandles howner hledgers =>
      refine ⟨hsound, ?_, ?_, ?_, ?_, ?_⟩
      · simp [howner, htasks, hr.owners]
      · simp [hledgers, hhandles, hr.ledgers]
      · intro i h hi
        rw [hhandles, getElem?_concat_eq_some] at hi
        rw [howner, getElem?_concat_eq_some]
        rcases hi with hi | ⟨rfl, rfl⟩
        · exact Or.inl (hr.current i h hi)
        · exact Or.inr ⟨hr.owners.symm, rfl⟩
      · intro k i hk hown
        rw [howner, getElem?_concat_eq_some, hr.owners] at hown
        rw [hhandles]
        simp only [getElem?_concat_eq_some]
        rcases live_of_append htasks hk with hold | rfl
        · obtain ⟨h, hi, htask⟩ :=
            hr.old k i hold (hown.resolve_right fun h => Nat.ne_of_lt (Live.lt hold) h.1)
          exact ⟨h, Or.inl hi, htask⟩
        · have hi := (hown.resolve_left (by simp [← hr.owners])).2
          exact ⟨_, Or.inr ⟨hi.symm, rfl⟩, rfl⟩
      · intro i h cancelled paused hi hpc hk
        rw [hhandles, getElem?_concat_eq_some] at hi
        rcases hi with hi | ⟨-, rfl⟩
        · have hin := hr.sound.handles h (List.mem_of_getElem? hi)
          refine hr.parted i h cancelled paused hi hpc ?_
          exact (live_of_append htasks hk).resolve_right (Nat.ne_of_lt hin)
        · cases hpc
  | moved i h x y a hh hx hstep hdead hparted hcall htasks hhandles howner hledgers =>
      obtain ⟨h₁, hh₁, htask, hpc, hledger⟩ := handle_eq_some.mp hx
      obtain rfl := Option.some.inj (hh.symm.trans hh₁)
      have hlive : ∀ k, r'.sched.Live k → r.sched.Live k := fun _ =>
        Scheduler.live_of_set htask htasks hdead
      refine ⟨hsound, ?_, ?_, ?_, ?_, ?_⟩
      · simp [howner, htasks, hr.owners]
      · simp [hledgers, hhandles, hr.ledgers]
      · intro j h' hj
        rw [hhandles, getElem?_set_eq_some hh] at hj
        rw [howner]
        rcases hj with ⟨rfl, rfl⟩ | ⟨-, hj⟩
        · exact hr.current i h hh
        · exact hr.current j h' hj
      · intro k j hk hown
        rw [howner] at hown
        obtain ⟨h', hj, htask'⟩ := hr.old k j (hlive k hk) hown
        rw [hhandles]
        simp only [getElem?_set_eq_some hh]
        by_cases hij : i = j
        · subst hij
          obtain rfl := Option.some.inj (hh.symm.trans hj)
          exact ⟨_, Or.inl ⟨rfl, rfl⟩, htask'⟩
        · exact ⟨h', Or.inr ⟨hij, hj⟩, htask'⟩
      · intro j h' cancelled paused hj hpc' hk
        rw [hhandles, getElem?_set_eq_some hh] at hj
        rcases hj with ⟨rfl, rfl⟩ | ⟨-, hj⟩
        · obtain ⟨u, hu, hcancelled⟩ := hk
          rw [htasks, getElem?_set_eq_some htask] at hu
          obtain ⟨-, rfl⟩ := hu.resolve_right fun h => h.1 rfl
          rw [hparted cancelled paused hpc'] at hcancelled
          cases hcancelled
        · exact hr.parted j h' cancelled paused hj hpc' (hlive _ hk)
  | replaced i clock interval cancelled paused h x y hh hx hpc hstep htasks hhandles howner
      hledgers =>
      obtain ⟨h₁, hh₁, htask, hpc₁, hledger⟩ := handle_eq_some.mp hx
      obtain rfl := Option.some.inj (hh.symm.trans hh₁)
      refine ⟨hsound, ?_, ?_, ?_, ?_, ?_⟩
      · simp [howner, htasks, hr.owners]
      · simp [hledgers, hhandles, hr.ledgers]
      · intro j h' hj
        rw [hhandles, getElem?_set_eq_some hh] at hj
        rw [howner, getElem?_concat_eq_some]
        rcases hj with ⟨rfl, rfl⟩ | ⟨-, hj⟩
        · exact Or.inr ⟨hr.owners.symm, rfl⟩
        · exact Or.inl (hr.current j h' hj)
      · intro k j hk hown
        rw [howner, getElem?_concat_eq_some, hr.owners] at hown
        rw [hhandles]
        simp only [getElem?_set_eq_some hh]
        rcases live_of_append htasks hk with hold | rfl
        · obtain ⟨h', hj, htask'⟩ :=
            hr.old k j hold (hown.resolve_right fun h => Nat.ne_of_lt (Live.lt hold) h.1)
          have hij : i ≠ j := by
            rintro rfl
            obtain rfl := Option.some.inj (hh.symm.trans hj)
            exact hr.parted i h cancelled paused hh (hpc₁.trans hpc) (htask' ▸ hold)
          exact ⟨h', Or.inr ⟨hij, hj⟩, htask'⟩
        · have hi := (hown.resolve_left (by simp [← hr.owners])).2
          exact ⟨_, Or.inl ⟨hi, rfl⟩, rfl⟩
      · intro j h' cancelled' paused' hj hpc' hk
        rw [hhandles, getElem?_set_eq_some hh] at hj
        rcases hj with ⟨rfl, rfl⟩ | ⟨-, hj⟩
        · simp only [Handle.step, Handle.resetStep, hpc, Option.some.injEq] at hstep
          rw [← hstep] at hpc'
          cases hpc'
        · have hin := hr.sound.handles h' (List.mem_of_getElem? hj)
          refine hr.parted j h' cancelled' paused' hj hpc' ?_
          exact (live_of_append htasks hk).resolve_right (Nat.ne_of_lt hin)
  | stray k t t' ht hcancelled hcancelled' halone htasks hhandles howner hledgers =>
      have hlive : ∀ k, r'.sched.Live k → r.sched.Live k := fun _ =>
        Scheduler.live_of_set ht htasks fun _ => hcancelled'
      exact hr.keep hsound hlive (by rw [htasks, List.length_set]) hhandles howner hledgers

/-! ### Every step is one of these -/

theorem Kept.onTask (hr : Kept r) {f : Task → Task} {g : Ledger → Ledger} {a : HandleAction}
    {s' : Scheduler} (hstep : r.sched.onTask i f = some s')
    (haction : ∀ x : Handle, x.step a = x.onTask f g) (hcall : a ≠ .call)
    (hdead : ∀ t : Task, t.cancelled = true → (f t).cancelled = true) :
    Effect r act { r with sched := s', ledgers := r.ledgers.modify i g } := by
  obtain ⟨h, t, hh, ht, hidle, rfl⟩ := Scheduler.onTask_eq_some.mp hstep
  obtain ⟨x, hx, htask, hpc, hledger⟩ := hr.exists_handle hh
  obtain rfl := Option.some.inj (ht.symm.trans htask)
  have hxidle : x.pc = .idle := hpc.symm.trans hidle
  refine .moved i h x { x with task := f x.task, ledger := g x.ledger } a hh hx ?_ (hdead _) ?_
    (fun ha => absurd ha hcall) rfl ?_ rfl (modify_of_getElem? g hledger)
  · rw [haction, Handle.onTask, if_pos hxidle]
  · intro cancelled paused hold
    cases hxidle.symm.trans hold
  · show r.sched.handles = _
    rw [← hpc, set_of_getElem? hh]

/-- The statements of `reset` but the push. -/
theorem Effect.of_reset {clock interval : Nat} {h : ScheduledTask} {x y : Handle}
    {s' : Scheduler} (hh : r.sched.handles[i]? = some h) (hx : r.handle i = some x)
    (hstep : x.step (.reset clock interval) = some y) (hledger : y.ledger = x.ledger)
    (hdead : x.task.cancelled = true → y.task.cancelled = true)
    (hparted : ∀ cancelled paused, y.pc = .oldCancelled cancelled paused → y.task.cancelled = true)
    (htasks : s'.tasks = r.sched.tasks.set h.task y.task)
    (hhandles : s'.handles = r.sched.handles.set i { task := h.task, pc := y.pc }) :
    Effect r act { r with sched := s' } := by
  obtain ⟨-, -, -, -, hbook⟩ := handle_eq_some.mp hx
  refine .moved i h x y _ hh hx hstep hdead hparted nofun htasks hhandles rfl ?_
  show r.ledgers = _
  rw [hledger, set_of_getElem? hbook]

theorem Kept.reset (hr : Kept r) {clock interval : Nat} {s' : Scheduler}
    (hstep : r.sched.resetStep i clock interval = some s') :
    Effect r act { r.note (.reset i clock interval) with sched := s' } := by
  unfold Scheduler.resetStep at hstep
  simp only [Option.bind_eq_bind, Option.bind_eq_some_iff] at hstep
  obtain ⟨h, hh, t, ht, hstep⟩ := hstep
  obtain ⟨x, hx, htask, hpc, hledger⟩ := hr.exists_handle hh
  obtain rfl := Option.some.inj (ht.symm.trans htask)
  have hnext : x.step (.reset clock interval) = some (x.resetStep clock interval) := rfl
  unfold Handle.resetStep at hnext
  unfold note
  simp only [hh, Option.map_some]
  cases hat : h.pc with
  | idle =>
      simp only [hat, Option.some.injEq] at hstep ⊢
      simp only [← hpc, hat] at hnext
      subst hstep
      refine Effect.of_reset hh hx hnext rfl id (by simp) ?_ rfl
      exact (set_of_getElem? htask).symm
  | flagsRead cancelled paused =>
      simp only [hat, Option.some.injEq] at hstep ⊢
      simp only [← hpc, hat] at hnext
      subst hstep
      exact Effect.of_reset hh hx hnext rfl (fun _ => rfl) (fun _ _ _ => rfl) rfl rfl
  | oldCancelled cancelled paused =>
      simp only [hat] at hstep ⊢
      split at hstep
      · cases hstep
      · obtain rfl := Option.some.inj hstep
        have hxpc : x.pc = .oldCancelled cancelled paused := hpc.symm.trans hat
        refine .replaced i clock interval cancelled paused h x _ hh hx hxpc rfl ?_ ?_ rfl rfl
        · simp [Handle.resetStep, hxpc, Scheduler.setHandle, Scheduler.runAfter]
        · simp [Handle.resetStep, hxpc, Scheduler.setHandle, Scheduler.runAfter]
  | replaced cancelled paused =>
      simp only [hat, Option.some.injEq] at hstep ⊢
      simp only [← hpc, hat] at hnext
      subst hstep
      refine Effect.of_reset hh hx hnext rfl ?_ (by simp) ?_ ?_
      · intro hdead
        cases cancelled <;> simp [hdead, Task.cancel]
      · cases cancelled
        · exact (set_of_getElem? htask).symm
        · rfl
      · cases cancelled <;> rfl
  | recancelled paused =>
      simp only [hat, Option.some.injEq] at hstep ⊢
      simp only [← hpc, hat] at hnext
      subst hstep
      refine Effect.of_reset hh hx hnext rfl ?_ (by simp) ?_ ?_
      · intro hdead
        cases paused <;> simp [hdead, Task.pause]
      · cases paused
        · exact (set_of_getElem? htask).symm
        · rfl
      · cases paused <;> rfl

/-- The executor does something to one task, and to no ledger. -/
theorem Kept.touched (hr : Kept r) {t : Task} {a : HandleAction} {f : Task → Task} {s' : Scheduler}
    (ht : r.sched.tasks[k]? = some t)
    (hstep : ∀ x : Handle, x.task = t → x.step a = some { x with task := f t })
    (hcall : a = .call → t.call.1 = false)
    (hdead : t.cancelled = true → (f t).cancelled = true)
    (htasks : s'.tasks = r.sched.tasks.set k (f t)) (hhandles : s'.handles = r.sched.handles) :
    Effect r act { r with sched := s' } := by
  by_cases hheld : ∃ h ∈ r.sched.handles, h.task = k
  · obtain ⟨h, hmem, rfl⟩ := hheld
    obtain ⟨i, hh⟩ := List.mem_iff_getElem?.mp hmem
    obtain ⟨x, hx, htask, hpc, hledger⟩ := hr.exists_handle hh
    obtain rfl := Option.some.inj (ht.symm.trans htask)
    refine .moved i h x { x with task := f x.task } a hh hx (hstep x rfl) hdead ?_ ?_ htasks ?_ rfl
      (set_of_getElem? hledger).symm
    · intro cancelled paused hold
      refine hdead ?_
      by_contra hlive
      exact hr.parted i h cancelled paused hh (hpc.trans hold) ⟨x.task, ht, by simpa using hlive⟩
    · intro ha hlive
      rw [hcall ha] at hlive
      cases hlive
    · show s'.handles = _
      rw [hhandles, ← hpc, set_of_getElem? hh]
  · have hcancelled : t.cancelled = true := by
      by_contra hlive
      have hk : r.sched.Live k := ⟨t, ht, by simpa using hlive⟩
      have hlt : k < r.owner.length := by
        rw [hr.owners]
        exact Live.lt hk
      obtain ⟨h, hh, htask⟩ := hr.old k _ hk (List.getElem?_eq_getElem hlt)
      exact hheld ⟨h, List.mem_of_getElem? hh, htask⟩
    exact .stray k t (f t) ht hcancelled (hdead hcancelled)
      (fun h hmem htask => hheld ⟨h, hmem, htask⟩) htasks hhandles rfl rfl

/-- The executor invokes a callable. -/
theorem Kept.invoked (hr : Kept r) {t : Task} {s' : Scheduler} (ht : r.sched.tasks[k]? = some t)
    (hlive : t.call.1 = true) (hinvokes : r.sched.invokes act = some k)
    (htasks : s'.tasks = r.sched.tasks.set k t.call.2) (hhandles : s'.handles = r.sched.handles) :
    Effect r act
      { r with sched := s', ledgers := r.ledgers.modify (r.owner.getD k 0) Ledger.invoke } := by
  have hcancelled : t.cancelled = false := by
    by_contra hdead
    rw [Scheduler.call_cancelled (by simpa using hdead)] at hlive
    cases hlive
  have hk : r.sched.Live k := ⟨t, ht, hcancelled⟩
  have hlt : k < r.owner.length := by
    rw [hr.owners]
    exact Live.lt hk
  obtain ⟨h, hh, rfl⟩ := hr.old k _ hk (List.getElem?_eq_getElem hlt)
  have hown := hr.current _ h hh
  obtain ⟨x, hx, htask, hpc, hledger⟩ := hr.exists_handle hh
  obtain rfl := Option.some.inj (ht.symm.trans htask)
  refine .moved _ h x { x with task := x.task.call.2, ledger := x.ledger.invoke } .call hh hx
    ?_ ?_ ?_ (fun _ _ => hinvokes) htasks ?_ rfl ?_
  · simp [Handle.step, hlive]
  · intro hdead
    rw [hcancelled] at hdead
    cases hdead
  · intro cancelled paused hold
    exact absurd hk (hr.parted _ h cancelled paused hh (hpc.trans hold))
  · show s'.handles = _
    rw [hhandles, ← hpc, set_of_getElem? hh]
  · show r.ledgers.modify _ _ = _
    rw [List.getD_eq_getElem?_getD, hown, Option.getD_some, modify_of_getElem? _ hledger]

theorem Kept.advance (hr : Kept r) {clock interval top : Nat} {s' : Scheduler}
    (hstep : r.sched.executor clock interval top = some s') :
    Effect r (.advance clock interval top)
      { r.note (.advance clock interval top) with sched := s' } := by
  have hquiet (hpc : ∀ k now, r.sched.pc ≠ .callTask k now) :
      r.sched.invokes (.advance clock interval top) = none := by
    unfold Scheduler.invokes
    cases hat : r.sched.pc with
    | callTask k now => exact absurd hat (hpc k now)
    | _ => rfl
  unfold note
  cases Scheduler.advanced_of_executor hstep with
  | moved hpc htasks hhandles hplay =>
      rw [hquiet hpc]
      exact .quiet htasks hhandles rfl rfl
  | dropped k t hpc ht hcancelled htasks hhandles hplay =>
      rw [hquiet hpc]
      exact .quiet htasks hhandles rfl rfl
  | called k now t hpc ht htasks hhandles hplay =>
      cases hlive : t.call.1 with
      | true =>
          have hinvokes : r.sched.invokes (.advance clock interval top) = some k := by
            simp [Scheduler.invokes, hpc, ht, hlive]
          rw [hinvokes]
          exact hr.invoked ht hlive hinvokes htasks hhandles
      | false =>
          have hinvokes : r.sched.invokes (.advance clock interval top) = none := by
            simp [Scheduler.invokes, hpc, ht, hlive]
          rw [hinvokes]
          refine hr.touched (a := .call) (f := fun t => t.call.2) ht ?_ (fun _ => hlive)
            Scheduler.call_keeps_cancelled htasks hhandles
          rintro x rfl
          simp [Handle.step, hlive]
  | renewed k t hpc ht htasks hhandles hplay =>
      rw [hquiet hpc]
      refine hr.touched (a := .renew clock interval) (f := fun t => t.renew clock interval) ht ?_
        nofun id htasks hhandles
      rintro x rfl
      rfl

theorem Kept.step_effect (hr : Kept r) (hstep : r.step act = some r') : Effect r act r' := by
  unfold Recorded.step at hstep
  rw [Option.map_eq_some_iff] at hstep
  obtain ⟨s', hs', rfl⟩ := hstep
  cases act with
  | schedule clock interval maxCalls =>
      simp only [Scheduler.step] at hs'
      split at hs'
      · cases hs'
      · obtain rfl := Option.some.inj hs'
        exact .made maxCalls (clock + interval) rfl rfl rfl rfl
  | cancel i => exact hr.onTask (a := .cancel) hs' (fun _ => rfl) (by simp) fun _ _ => rfl
  | pause i => exact hr.onTask (a := .pause) hs' (fun _ => rfl) (by simp) fun _ hdead => hdead
  | resume i => exact hr.onTask (a := .resume) hs' (fun _ => rfl) (by simp) fun _ hdead => hdead
  | reset i clock interval => exact hr.reset hs'
  | stop =>
      obtain rfl := Option.some.inj hs'
      exact .quiet rfl rfl rfl rfl
  | wake why =>
      simp only [Scheduler.step, Scheduler.wakeUp] at hs'
      split at hs'
      · split at hs'
        · obtain rfl := Option.some.inj hs'
          exact .quiet rfl rfl rfl rfl
        · obtain rfl := Option.some.inj hs'
          exact .quiet rfl rfl rfl rfl
      · cases hs'
  | advance clock interval top => exact hr.advance hs'

theorem step_sched (hstep : r.step act = some r') : r.sched.step act = some r'.sched := by
  unfold Recorded.step at hstep
  rw [Option.map_eq_some_iff] at hstep
  obtain ⟨s', hs', rfl⟩ := hstep
  exact hs'

/-- **Every task belongs to a handle, and only the one it holds may be live.** -/
theorem kept_of_reachable (h : recordedSystem.Reachable r) : Kept r := by
  refine h.invariant (I := Kept) ?_ ?_
  · intro r₀ hr₀
    subst hr₀
    have hsound : Scheduler.Sound {} := Scheduler.sound_of_reachable ⟨{}, rfl, System.Run.refl _⟩
    refine ⟨hsound, rfl, rfl, nofun, ?_, nofun⟩
    intro k i ⟨t, ht, _⟩
    cases ht
  · intro r act r' _ hr hstep
    exact hr.effect (hr.step_effect hstep) (hr.sound.step (step_sched hstep))

/-! ### The runs of one handle

A condition on the moment at which a callable is invoked passes from the scheduler to the handle.
With it, what is proved of a single handle under the condition holds of each of many.
-/

/-- A callable is invoked only where the `reset` of its handle stands at such a point. -/
def InvokesAt (Q : ResetPc → Prop) (r : Recorded) (act : SchedulerAction) (_ : Recorded) : Prop :=
  ∀ k ∈ r.sched.invokes act, ∀ h ∈ r.sched.handles, h.task = k → Q h.pc

end Recorded

/-- The same of one handle. -/
def Handle.InvokesAt (Q : ResetPc → Prop) (x : Handle) (a : HandleAction) (_ : Handle) : Prop :=
  a = .call → x.task.call.1 = true → Q x.pc

namespace Recorded

variable {r r' : Recorded} {i : Nat} {x x' : Handle} {Q : ResetPc → Prop}

theorem handle_step (hr : (recordedSystem.restrict (InvokesAt Q)).Reachable r)
    {act : SchedulerAction} (hstep : (recordedSystem.restrict (InvokesAt Q)).step r act r')
    (hx' : r'.handle i = some x') :
    r.handle i = none ∧ x'.IsNew ∨
      ∃ x, r.handle i = some x ∧ (handleSystem.restrict (Handle.InvokesAt Q)).Run x x' := by
  obtain ⟨hmove, hinvokes⟩ := hstep
  have hkept := kept_of_reachable hr.unrestrict
  have heff := hkept.step_effect hmove
  rcases heff.handle_after hkept hx' with hnew | ⟨x, hx, hsame | ⟨a, ha, hcall⟩⟩
  · exact Or.inl hnew
  · subst hsame
    exact Or.inr ⟨x', hx, System.Run.refl x'⟩
  · refine Or.inr ⟨x, hx, (System.Run.refl x).tail (a := a) ⟨ha, fun hcalled hlive => ?_⟩⟩
    obtain ⟨h, hh, hk⟩ := hcall hcalled hlive
    obtain ⟨h₁, hh₁, -, hpc, -⟩ := handle_eq_some.mp hx
    obtain rfl := Option.some.inj (hh.symm.trans hh₁)
    rw [← hpc]
    exact hinvokes h.task hk h (List.mem_of_getElem? hh) rfl

/-- **Each handle of a scheduler is one that a run of its own leads to.** -/
theorem handle_reachable (h : (recordedSystem.restrict (InvokesAt Q)).Reachable r)
    (hx : r.handle i = some x) : (handleSystem.restrict (Handle.InvokesAt Q)).Reachable x := by
  refine h.project (v := fun r => r.handle i) ?_ ?_ hx
  · intro r₀ hr₀
    subst hr₀
    rfl
  · intro r act r' x' hr hstep hx'
    exact (handle_step hr hstep hx').imp And.right id

theorem handle_run (h : (recordedSystem.restrict (InvokesAt Q)).Reachable r)
    (hrun : (recordedSystem.restrict (InvokesAt Q)).Run r r') (hx : r.handle i = some x) :
    ∃ x', r'.handle i = some x' ∧ (handleSystem.restrict (Handle.InvokesAt Q)).Run x x' := by
  refine hrun.project (v := fun r => r.handle i) ?_ h hx
  intro r act r' x hr hstep hx
  obtain ⟨h, hh, -⟩ := handle_eq_some.mp hx
  have hkept := kept_of_reachable hr.unrestrict
  have heff := hkept.step_effect hstep.1
  have hlt := Nat.lt_of_lt_of_le (List.getElem?_eq_some_iff.mp hh).1 heff.length_le
  have hsound := hkept.sound.step (step_sched hstep.1)
  obtain ⟨x', hx', -⟩ :=
    (hkept.effect heff hsound).exists_handle (List.getElem?_eq_getElem hlt)
  refine ⟨x', hx', ?_⟩
  rcases handle_step hr hstep hx' with ⟨hnone, -⟩ | ⟨x₁, hx₁, hrun⟩
  · rw [hx] at hnone
    cases hnone
  · obtain rfl := Option.some.inj (hx.symm.trans hx₁)
    exact hrun

end Recorded

end Raft
