/-
What a `reset` hands over to the new task.

It reads the two flags of the old task, cancels it, pushes the new one, and only then gives
that one the flags.  Where nothing comes in between (`AtomicResets`) a timer is neither lost
nor doubled: of all the tasks ever made for it one is live, until it is cancelled or its
limit is used up, and then none is.

Otherwise there is a window.  The new task is in the queue before it has its flags, and a
pass that gets to it there invokes the callable of a timer that is paused or cancelled
(`paused_timer_fires`).  It is the only way this happens: `Guarded` holds along every run,
and says that a flag that was asked for is set or is one that `reset` still has to set.

Clocks and intervals are arbitrary from step to step, so what is proved holds for every
supplier, and also where the `uint64_t` sum of the two runs over.
-/
import RaftElection.Proofs.Recorded

namespace Raft

open Transition

/-- The task has been pushed, and a flag that was read is still to be set. -/
def ResetPc.awaitsFlags : ResetPc → Bool
  | .replaced cancelled paused => cancelled || paused
  | .recancelled paused => paused
  | .idle | .flagsRead .. | .oldCancelled .. => false

namespace Handle

variable {x y : Handle} {a : HandleAction}

/-! ### A flag that was asked for

`reset` reads the flags, makes a new task and sets them again.  At each of its points the flag
that was asked for is in the task or in what `reset` has read, and where it is only in the latter
the new task can run.
-/

/-- The flags of the task, or those the `reset` under way has read, are those asked for; a
task may be cancelled unasked, when its calls are used up. -/
def Guarded (x : Handle) : Prop :=
  match x.pc with
  | .idle =>
      (x.ledger.asked.cancelled = true → x.task.cancelled = true) ∧
        x.task.paused = x.ledger.asked.paused
  | .flagsRead cancelled paused =>
      (x.ledger.asked.cancelled = true → cancelled = true ∧ x.task.cancelled = true) ∧
        paused = x.ledger.asked.paused ∧ x.task.paused = x.ledger.asked.paused
  | .oldCancelled cancelled paused =>
      x.task.cancelled = true ∧ (x.ledger.asked.cancelled = true → cancelled = true) ∧
        paused = x.ledger.asked.paused
  | .replaced cancelled paused =>
      (x.ledger.asked.cancelled = true → cancelled = true) ∧
        paused = x.ledger.asked.paused ∧ x.task.paused = false
  | .recancelled paused =>
      (x.ledger.asked.cancelled = true → x.task.cancelled = true) ∧
        paused = x.ledger.asked.paused ∧ x.task.paused = false

theorem call_paused (t : Task) : t.call.2.paused = t.paused := by
  unfold Task.call
  split
  · split
    · dsimp only
      split <;> rfl
    · rfl
  · rfl

theorem onTask_eq_some {f : Task → Task} {g : Ledger → Ledger} :
    x.onTask f g = some y ↔
      x.pc = .idle ∧ y = { x with task := f x.task, ledger := g x.ledger } := by
  unfold onTask
  rw [Option.ite_none_right_eq_some, Option.some.injEq]
  exact and_congr_right fun _ => eq_comm

theorem Guarded.reset (h : x.Guarded) (clock interval : Nat) :
    (x.resetStep clock interval).Guarded := by
  unfold Guarded at h
  unfold resetStep
  cases hpc : x.pc with
  | idle =>
      rw [hpc] at h
      exact ⟨fun hasked => ⟨h.1 hasked, h.1 hasked⟩, h.2, h.2⟩
  | flagsRead cancelled paused =>
      rw [hpc] at h
      exact ⟨rfl, fun hasked => (h.1 hasked).1, h.2.1⟩
  | oldCancelled cancelled paused =>
      rw [hpc] at h
      exact ⟨h.2.1, h.2.2, rfl⟩
  | replaced cancelled paused =>
      rw [hpc] at h
      obtain ⟨hcancelled, hpaused, hfresh⟩ := h
      refine ⟨fun hasked => ?_, hpaused, ?_⟩
      · obtain rfl := hcancelled hasked
        rfl
      · cases cancelled <;> exact hfresh
  | recancelled paused =>
      rw [hpc] at h
      obtain ⟨hcancelled, hpaused, hfresh⟩ := h
      refine ⟨fun hasked => ?_, ?_⟩
      · cases paused <;> exact hcancelled hasked
      · rw [← hpaused]
        cases paused
        · exact hfresh
        · rfl

/-- The executor leaves the flags alone, but for cancelling a task whose calls are used up. -/
theorem Guarded.touched (h : x.Guarded) (hpc : y.pc = x.pc)
    (hasked : y.ledger.asked = x.ledger.asked)
    (hcancelled : x.task.cancelled = true → y.task.cancelled = true)
    (hpaused : y.task.paused = x.task.paused) : y.Guarded := by
  unfold Guarded at h ⊢
  rw [hpc, hasked, hpaused]
  cases hat : x.pc with
  | idle =>
      rw [hat] at h
      exact ⟨fun hask => hcancelled (h.1 hask), h.2⟩
  | flagsRead cancelled paused =>
      rw [hat] at h
      exact ⟨fun hask => ⟨(h.1 hask).1, hcancelled (h.1 hask).2⟩, h.2⟩
  | oldCancelled cancelled paused =>
      rw [hat] at h
      exact ⟨hcancelled h.1, h.2⟩
  | replaced cancelled paused =>
      rw [hat] at h
      exact h
  | recancelled paused =>
      rw [hat] at h
      exact ⟨fun hask => hcancelled (h.1 hask), h.2⟩

theorem Guarded.step (h : x.Guarded) (hstep : x.step a = some y) : y.Guarded := by
  cases a with
  | cancel =>
      obtain ⟨hidle, rfl⟩ := onTask_eq_some.mp hstep
      unfold Guarded at h ⊢
      simp only [hidle] at h ⊢
      exact ⟨fun _ => rfl, h.2⟩
  | pause =>
      obtain ⟨hidle, rfl⟩ := onTask_eq_some.mp hstep
      unfold Guarded at h ⊢
      simp only [hidle] at h ⊢
      exact ⟨h.1, rfl⟩
  | resume =>
      obtain ⟨hidle, rfl⟩ := onTask_eq_some.mp hstep
      unfold Guarded at h ⊢
      simp only [hidle] at h ⊢
      exact ⟨h.1, rfl⟩
  | reset clock interval =>
      obtain rfl := Option.some.inj hstep
      exact h.reset clock interval
  | call =>
      obtain rfl := Option.some.inj hstep
      refine h.touched rfl ?_ Scheduler.call_keeps_cancelled (call_paused _)
      dsimp only
      split <;> rfl
  | renew clock interval =>
      obtain rfl := Option.some.inj hstep
      exact h.touched rfl rfl id rfl

theorem guarded_of_reachable (h : handleSystem.Reachable x) : x.Guarded := by
  refine h.invariant (I := Guarded) ?_ ?_
  · rintro x ⟨maxCalls, dueTime, rfl⟩
    exact ⟨nofun, rfl⟩
  · intro x a y _ hx hstep
    exact hx.step hstep

theorem call_fst_eq_true {t : Task} : t.call.1 = true ↔ t.cancelled = false ∧ t.paused = false := by
  unfold Task.call
  split
  · rename_i hlive
    simp only [hlive]
    split <;> simp
  · rename_i hquiet
    simpa using hquiet

/-- Where no flag is awaited, nothing is asked of a task that is live. -/
theorem Guarded.asked_of_live (h : x.Guarded) (hlive : x.task.call.1 = true)
    (hawaits : x.pc.awaitsFlags = false) : x.ledger.asked = {} := by
  obtain ⟨hcancelled, hpaused⟩ := call_fst_eq_true.mp hlive
  have hquiet : x.ledger.asked.cancelled = false ∧ x.ledger.asked.paused = false := by
    unfold Guarded at h
    cases hpc : x.pc <;> simp_all [ResetPc.awaitsFlags]
  cases hasked : x.ledger.asked with
  | mk cancelled paused =>
      rw [hasked] at hquiet
      obtain ⟨rfl, rfl⟩ := hquiet
      rfl

/-- A step enters an invocation in the ledger only where it is one. -/
theorem step_invocations (hstep : x.step a = some y) :
    y.ledger.invocations = x.ledger.invocations ∨
      a = .call ∧ x.task.call.1 = true ∧
        y.ledger.invocations = x.ledger.asked :: x.ledger.invocations := by
  cases a with
  | cancel | pause | resume =>
      obtain ⟨-, rfl⟩ := onTask_eq_some.mp hstep
      exact Or.inl rfl
  | reset clock interval =>
      obtain rfl := Option.some.inj hstep
      unfold resetStep
      cases x.pc <;> exact Or.inl rfl
  | call =>
      obtain rfl := Option.some.inj hstep
      cases hlive : x.task.call.1 with
      | true => exact Or.inr ⟨rfl, rfl, rfl⟩
      | false => exact Or.inl rfl
  | renew clock interval =>
      obtain rfl := Option.some.inj hstep
      exact Or.inl rfl

/-- The condition below is not more than is needed: in whatever run, a task that is called
while it is still to be paused is called although its handle is. -/
theorem loud_of_awaits (h : handleSystem.Reachable x) (hlive : x.task.call.1 = true)
    (hpc : x.pc = .recancelled true ∨ ∃ cancelled, x.pc = .replaced cancelled true)
    (hstep : x.step .call = some y) : ∃ asked ∈ y.ledger.invocations, asked.paused = true := by
  have hguarded := guarded_of_reachable h
  have hpaused : x.ledger.asked.paused = true := by
    unfold Guarded at hguarded
    rcases hpc with hpc | ⟨cancelled, hpc⟩
    · rw [hpc] at hguarded
      exact hguarded.2.1.symm
    · rw [hpc] at hguarded
      exact hguarded.2.1.symm
  obtain rfl := Option.some.inj hstep
  refine ⟨x.ledger.asked, ?_, hpaused⟩
  rw [if_pos hlive]
  exact List.mem_cons_self

theorem quiet_of_reachable
    (h : (handleSystem.restrict (InvokesAt fun pc => pc.awaitsFlags = false)).Reachable x) :
    ∀ asked ∈ x.ledger.invocations, asked = {} := by
  refine h.invariant (I := fun x => ∀ asked ∈ x.ledger.invocations, asked = {}) ?_ ?_
  · rintro x ⟨maxCalls, dueTime, rfl⟩
    exact nofun
  · intro x a y hreach hx hmove
    obtain ⟨hstep, hinvokes⟩ := hmove
    rcases step_invocations hstep with hsame | ⟨hcall, hlive, hnew⟩
    · rw [hsame]
      exact hx
    · have hguarded := guarded_of_reachable hreach.unrestrict
      have hasked := hguarded.asked_of_live hlive (hinvokes hcall hlive)
      rw [hnew, hasked]
      exact List.forall_mem_cons.mpr ⟨rfl, hx⟩

end Handle

namespace Recorded

variable {r r' : Recorded} {i : Nat} {l : Ledger}

theorem exists_handle_of_ledger (hr : Kept r) (hl : r.ledgers[i]? = some l) :
    ∃ x, r.handle i = some x ∧ x.ledger = l := by
  have hlt : i < r.sched.handles.length := by
    rw [← hr.ledgers]
    exact (List.getElem?_eq_some_iff.mp hl).1
  obtain ⟨x, hx, -, -, hledger⟩ := hr.exists_handle (List.getElem?_eq_getElem hlt)
  exact ⟨x, hx, Option.some.inj (hledger.symm.trans hl)⟩

/-- **A paused or cancelled timer stays quiet**, in every run in which no pass invokes the
callable of a task that a `reset` has pushed and still has to give a flag: whenever a
callable was invoked, nothing was asked of its handle. -/
theorem quiet_through_reset
    (h : (recordedSystem.restrict (InvokesAt fun pc => pc.awaitsFlags = false)).Reachable r) :
    ∀ l ∈ r.ledgers, ∀ asked ∈ l.invocations, asked = {} := by
  intro l hmem
  obtain ⟨i, hl⟩ := List.mem_iff_getElem?.mp hmem
  obtain ⟨x, hx, rfl⟩ := exists_handle_of_ledger (kept_of_reachable h.unrestrict) hl
  exact Handle.quiet_of_reachable (handle_reachable h hx)

instance (Q : ResetPc → Prop) [DecidablePred Q] (r : Recorded) (act : SchedulerAction)
    (r' : Recorded) : Decidable (InvokesAt Q r act r') :=
  inferInstanceAs (Decidable (∀ k ∈ r.sched.invokes act, ∀ h ∈ r.sched.handles, h.task = k → _))

/-- A paused timer is reset and resumed, and then fires. -/
theorem quiet_through_reset_resumed :
    ∃ r : Recorded, (∃ l ∈ r.ledgers, l.invocations.length = 1) ∧
      ∀ l ∈ r.ledgers, ∀ asked ∈ l.invocations, asked = {} := by
  obtain ⟨r, hr, hinvoked⟩ := System.Reachable.of_execute {} Recorded.step
    (InvokesAt fun pc => pc.awaitsFlags = false)
    [.schedule 100 50 (-1), .pause 0, .reset 0 160 50, .reset 0 160 50, .reset 0 160 50,
      .reset 0 160 50, .reset 0 160 50, .resume 0, .advance 220 50 0, .advance 220 50 0,
      .advance 220 50 0, .advance 220 50 0, .advance 220 50 0, .advance 220 50 0,
      .advance 220 50 0, .advance 220 50 0, .advance 220 50 1, .advance 220 50 1,
      .advance 220 50 1, .advance 220 50 1, .advance 220 50 1]
    (fun r => ∃ l ∈ r.ledgers, l.invocations.length = 1) (by decide +kernel)
  exact ⟨r, hinvoked, quiet_through_reset hr⟩

/-- What a step reads off the clock. -/
def reading : SchedulerAction → Option Nat
  | .schedule clock .. | .reset _ clock _ | .advance clock .. => some clock
  | .cancel _ | .pause _ | .resume _ | .stop | .wake _ => none

/-- The pass comes after the push, and before the last two statements of `reset`: fifty
milliseconds late it finds both tasks due, drops the old one and invokes the new one. -/
theorem paused_timer_fires :
    ∃ (acts : List SchedulerAction) (r : Recorded),
      (acts.filterMap reading).Pairwise (· ≤ ·) ∧
        System.execute Recorded.step (fun _ _ _ => true) {} acts = some r ∧
          ∃ l ∈ r.ledgers, ∃ asked ∈ l.invocations, asked.paused = true := by
  refine ⟨[.schedule 100 50 (-1), .pause 0, .reset 0 160 50, .reset 0 160 50, .reset 0 160 50,
    .advance 220 50 0, .advance 220 50 0, .advance 220 50 0, .advance 220 50 0, .advance 220 50 0,
    .advance 220 50 0, .advance 220 50 0, .advance 220 50 0, .advance 220 50 1, .advance 220 50 1,
    .advance 220 50 1, .advance 220 50 1], _, by decide, rfl, by decide +kernel⟩

end Recorded

/-! ### The limit

`reset` copies the number of calls that are left.  If nothing is invoked in the meantime, no call
is lost or made twice, and a handle that has used up its calls stays cancelled.
-/

/-- No call is to be made any more. -/
def Ledger.Done (l : Ledger) : Prop := l.asked.cancelled = true ∨ l.UsedUp

namespace Handle

variable {x y : Handle} {a : HandleAction}

/-- What is left of the limit is in the task, which is cancelled when nothing is; while a
`reset` is under way that flag is where the `reset` has put it. -/
structure Counted (x : Handle) : Prop where
  limit : 0 < x.ledger.limit →
    x.ledger.invocations.length ≤ x.ledger.limit ∧
      x.task.maxCalls = x.ledger.limit - x.ledger.invocations.length
  unlimited : x.ledger.limit ≤ 0 → x.task.maxCalls ≤ 0
  done :
    match x.pc with
    | .idle | .recancelled _ => x.task.cancelled = true ↔ x.ledger.Done
    | .flagsRead cancelled _ =>
        (x.task.cancelled = true ↔ x.ledger.Done) ∧ (cancelled = true ↔ x.ledger.Done)
    | .oldCancelled cancelled _ => cancelled = true ↔ x.ledger.Done
    | .replaced cancelled _ => x.task.cancelled = false ∧ (cancelled = true ↔ x.ledger.Done)

theorem Counted.reset (h : x.Counted) (clock interval : Nat) :
    (x.resetStep clock interval).Counted := by
  obtain ⟨hlimit, hunlimited, hdone⟩ := h
  unfold resetStep
  cases hpc : x.pc with
  | idle =>
      rw [hpc] at hdone
      exact ⟨hlimit, hunlimited, hdone, hdone⟩
  | flagsRead cancelled paused =>
      rw [hpc] at hdone
      exact ⟨hlimit, hunlimited, hdone.2⟩
  | oldCancelled cancelled paused =>
      rw [hpc] at hdone
      exact ⟨hlimit, hunlimited, rfl, hdone⟩
  | replaced cancelled paused =>
      rw [hpc] at hdone
      obtain ⟨hfresh, hdone⟩ := hdone
      cases cancelled with
      | true => exact ⟨hlimit, hunlimited, hdone⟩
      | false =>
          refine ⟨hlimit, hunlimited, ?_⟩
          show x.task.cancelled = true ↔ x.ledger.Done
          rw [hfresh]
          exact hdone
  | recancelled paused =>
      rw [hpc] at hdone
      cases paused <;> exact ⟨hlimit, hunlimited, hdone⟩

theorem call_maxCalls {t : Task} (hlive : t.call.1 = true) :
    t.call.2.maxCalls = if 0 < t.maxCalls then t.maxCalls - 1 else t.maxCalls := by
  unfold Task.call
  rw [if_pos (call_fst_eq_true.mp hlive)]
  split
  · dsimp only
    split <;> rfl
  · rfl

/-- The last call of a task cancels it. -/
theorem call_cancelled_iff {t : Task} (hlive : t.call.1 = true) :
    t.call.2.cancelled = true ↔ t.maxCalls = 1 := by
  have hcancelled := (call_fst_eq_true.mp hlive).1
  unfold Task.call
  rw [if_pos (call_fst_eq_true.mp hlive)]
  split
  · dsimp only
    split
    · simp only [Task.cancel, true_iff]
      omega
    · simp only [hcancelled, Bool.false_eq_true, false_iff]
      omega
  · simp only [hcancelled, Bool.false_eq_true, false_iff]
    omega

/-- A call that is carried out on a handle at rest. -/
theorem Counted.call (h : x.Counted) (hidle : x.pc = .idle) (hlive : x.task.call.1 = true) :
    Counted { x with task := x.task.call.2, ledger := x.ledger.invoke } := by
  obtain ⟨hlimit, hunlimited, hdone⟩ := h
  rw [hidle] at hdone
  simp only [(call_fst_eq_true.mp hlive).1, Bool.false_eq_true, false_iff, Ledger.Done,
    Ledger.UsedUp, not_or, not_and] at hdone
  obtain ⟨hunasked, hleft⟩ := hdone
  have hlength : (x.ledger.invoke.invocations.length : Int) = x.ledger.invocations.length + 1 := by
    simp [Ledger.invoke]
  refine ⟨?_, ?_, ?_⟩
  · intro hpos
    obtain ⟨hle, hmax⟩ := hlimit hpos
    have hne := hleft hpos
    show (x.ledger.invoke.invocations.length : Int) ≤ x.ledger.limit ∧
      x.task.call.2.maxCalls = x.ledger.limit - x.ledger.invoke.invocations.length
    rw [call_maxCalls hlive, hlength, hmax]
    split <;> omega
  · intro hnone
    have hmax := hunlimited hnone
    show x.task.call.2.maxCalls ≤ 0
    rw [call_maxCalls hlive, if_neg (by omega)]
    exact hmax
  · simp only [hidle]
    rw [call_cancelled_iff hlive]
    unfold Ledger.Done Ledger.UsedUp
    rw [hlength]
    show x.task.maxCalls = 1 ↔ x.ledger.asked.cancelled = true ∨ 0 < x.ledger.limit ∧
      x.ledger.limit = x.ledger.invocations.length + 1
    rcases Int.lt_or_le 0 x.ledger.limit with hpos | hnone
    · obtain ⟨-, hmax⟩ := hlimit hpos
      rw [or_iff_right hunasked, and_iff_right hpos, hmax]
      omega
    · have hmax := hunlimited hnone
      rw [or_iff_right hunasked]
      omega

theorem Counted.step (h : x.Counted) (hstep : x.step a = some y)
    (hinvokes : a = .call → x.task.call.1 = true → x.pc = .idle) : y.Counted := by
  cases a with
  | cancel =>
      obtain ⟨hidle, rfl⟩ := onTask_eq_some.mp hstep
      refine ⟨h.limit, h.unlimited, ?_⟩
      simp only [hidle]
      exact ⟨fun _ => Or.inl rfl, fun _ => rfl⟩
  | pause | resume =>
      obtain ⟨hidle, rfl⟩ := onTask_eq_some.mp hstep
      have hdone := h.done
      refine ⟨h.limit, h.unlimited, ?_⟩
      simp only [hidle] at hdone ⊢
      exact hdone
  | reset clock interval =>
      obtain rfl := Option.some.inj hstep
      exact h.reset clock interval
  | call =>
      obtain rfl := Option.some.inj hstep
      cases hlive : x.task.call.1 with
      | true => exact h.call (hinvokes rfl hlive) hlive
      | false =>
          have hsame : x.task.call.2 = x.task := by
            unfold Task.call at hlive ⊢
            split at hlive
            · split at hlive <;> cases hlive
            · rename_i hquiet
              rw [if_neg hquiet]
          simpa [hsame] using h
  | renew clock interval =>
      obtain rfl := Option.some.inj hstep
      exact ⟨h.limit, h.unlimited, h.done⟩

/-- Callables are invoked on handles at rest. -/
def AtRest (pc : ResetPc) : Prop := pc = .idle

theorem counted_of_reachable (h : (handleSystem.restrict (InvokesAt AtRest)).Reachable x) :
    x.Counted := by
  refine h.invariant (I := Counted) ?_ ?_
  · rintro x ⟨maxCalls, dueTime, rfl⟩
    refine ⟨fun hpos => ⟨Int.le_of_lt hpos, ?_⟩, id, ?_⟩
    · simp
    · simp only [Ledger.Done, Ledger.UsedUp, Bool.false_eq_true, false_iff, false_or, not_and]
      intro hpos hzero
      simp at hzero hpos
      omega
  · intro x a y _ hx hmove
    exact hx.step hmove.1 hmove.2

theorem step_done (hstep : x.step a = some y)
    (hsame : y.ledger.invocations = x.ledger.invocations) (hdone : x.ledger.Done) :
    y.ledger.Done := by
  have hkept : y.ledger.limit = x.ledger.limit ∧
      (x.ledger.asked.cancelled = true → y.ledger.asked.cancelled = true) := by
    cases a with
    | cancel =>
        obtain ⟨-, rfl⟩ := onTask_eq_some.mp hstep
        exact ⟨rfl, fun _ => rfl⟩
    | pause | resume =>
        obtain ⟨-, rfl⟩ := onTask_eq_some.mp hstep
        exact ⟨rfl, id⟩
    | reset clock interval =>
        obtain rfl := Option.some.inj hstep
        unfold resetStep
        cases x.pc <;> exact ⟨rfl, id⟩
    | call =>
        obtain rfl := Option.some.inj hstep
        cases hlive : x.task.call.1 <;> exact ⟨rfl, id⟩
    | renew clock interval =>
        obtain rfl := Option.some.inj hstep
        exact ⟨rfl, id⟩
  refine hdone.imp hkept.2 ?_
  unfold Ledger.UsedUp
  rw [hkept.1, hsame]
  exact id

/-- What is done stays so: no step invokes the callable any more. -/
theorem Counted.silent (h : x.Counted) (hdone : x.ledger.Done) (hstep : x.step a = some y)
    (hinvokes : a = .call → x.task.call.1 = true → x.pc = .idle) :
    y.ledger.Done ∧ y.ledger.invocations = x.ledger.invocations := by
  rcases step_invocations hstep with hsame | ⟨hcall, hlive, -⟩
  · exact ⟨step_done hstep hsame hdone, hsame⟩
  · have hidle := hinvokes hcall hlive
    have hcancelled := h.done
    rw [hidle] at hcancelled
    have hdead := (call_fst_eq_true.mp hlive).1
    rw [hcancelled.mpr hdone] at hdead
    cases hdead

theorem silent_of_run (h : (handleSystem.restrict (InvokesAt AtRest)).Run x y) (hx : x.Counted)
    (hdone : x.ledger.Done) : y.ledger.invocations = x.ledger.invocations := by
  refine (h.invariant (I := fun y => y.Counted ∧ y.ledger.Done ∧
    y.ledger.invocations = x.ledger.invocations) ?_ ⟨hx, hdone, rfl⟩).2.2
  intro y a z ⟨hy, hyDone, hsame⟩ hmove
  obtain ⟨hzDone, hlast⟩ := hy.silent hyDone hmove.1 hmove.2
  exact ⟨hy.step hmove.1 hmove.2, hzDone, hlast.trans hsame⟩

end Handle

/-! ### All resets atomic -/

/-- The step goes on with the `reset` of this handle. -/
def SchedulerAction.resets : SchedulerAction → Nat → Bool
  | .reset i _ _, j => i = j
  | _, _ => false

namespace Recorded

variable {r r' : Recorded} {i : Nat} {l : Ledger}

/-- Nothing happens in the middle of a `reset` but its next statement. -/
def AtomicResets (r : Recorded) (act : SchedulerAction) (_ : Recorded) : Prop :=
  ∀ i < r.sched.handles.length, ∀ h ∈ r.sched.handles[i]?, h.pc = .idle ∨ act.resets i = true

instance (r : Recorded) (act : SchedulerAction) (r' : Recorded) :
    Decidable (AtomicResets r act r') :=
  inferInstanceAs (Decidable (∀ i < r.sched.handles.length, ∀ h ∈ r.sched.handles[i]?, _))

/-- The tasks of a handle that are queued and not cancelled. -/
def queued (r : Recorded) (i : Nat) : List Nat :=
  r.sched.queue.filter fun k =>
    r.owner[k]? = some i ∧ r.sched.tasks[k]?.map Task.cancelled = some false

theorem AtomicResets.invokesAt {act : SchedulerAction} (h : AtomicResets r act r') :
    InvokesAt Handle.AtRest r act r' := by
  intro k hk x hx _
  obtain ⟨i, hi⟩ := List.mem_iff_getElem?.mp hx
  refine (h i (List.getElem?_eq_some_iff.mp hi).1 x hi).resolve_right ?_
  -- only the executor invokes callables
  cases act <;> simp_all [Scheduler.invokes, SchedulerAction.resets]

/-- Of the tasks made for a handle only the one it holds may be queued and not cancelled. -/
theorem queued_subset (hr : Kept r) {h : ScheduledTask} (hh : r.sched.handles[i]? = some h) :
    r.queued i ⊆ [h.task] := by
  intro k hk
  obtain ⟨-, hfilter⟩ := List.mem_filter.mp hk
  obtain ⟨howner, hcancelled⟩ := of_decide_eq_true hfilter
  obtain ⟨t, ht, hlive⟩ := Option.map_eq_some_iff.mp hcancelled
  obtain ⟨h', hh', htask⟩ := hr.old k i ⟨t, ht, hlive⟩ howner
  obtain rfl := Option.some.inj (hh.symm.trans hh')
  rw [htask]
  exact List.mem_singleton.mpr rfl

/-- **`reset` neither loses nor doubles a timer.**  In every run in which resets are atomic, at
most one task of a handle is queued and not cancelled; between two operations it is exactly
one, if `cancel` was not called and the limit is not used up; the callable is never invoked
more often than the limit allows; and once `cancel` was called, or the limit is used up, it
is not invoked again, whatever comes after. -/
theorem timer_survives_resets (h : (recordedSystem.restrict AtomicResets).Reachable r)
    (hl : r.ledgers[i]? = some l) :
    (r.queued i).length ≤ 1 ∧
    (r.sched.pc.held = [] → (∀ h ∈ r.sched.handles, h.pc = .idle) → l.asked.cancelled = false →
      ¬ l.UsedUp → (r.queued i).length = 1) ∧
    (0 < l.limit → l.invocations.length ≤ l.limit) ∧
    (l.asked.cancelled = true ∨ l.UsedUp →
      ∀ r', (recordedSystem.restrict AtomicResets).Run r r' →
        ∃ l', r'.ledgers[i]? = some l' ∧ l'.invocations = l.invocations) := by
  have hreach := h.weaken fun _ _ _ => AtomicResets.invokesAt
  have hr := kept_of_reachable h.unrestrict
  obtain ⟨x, hx, rfl⟩ := exists_handle_of_ledger hr hl
  have hcounted := Handle.counted_of_reachable (handle_reachable hreach hx)
  obtain ⟨hd, hh, htask, hpc, -⟩ := handle_eq_some.mp hx
  have hnodup : (r.queued i).Nodup := hr.sound.nodup.of_append_left.filter _
  have hle : (r.queued i).length ≤ 1 := by
    simpa using (List.subperm_of_subset hnodup (queued_subset hr hh)).length_le
  refine ⟨hle, ?_, fun hpos => (hcounted.limit hpos).1, ?_⟩
  · intro hheld hidle hunasked hleft
    have hxidle : x.pc = .idle := hpc.symm.trans (hidle hd (List.mem_of_getElem? hh))
    have hdone := hcounted.done
    rw [hxidle] at hdone
    have hlive : x.task.cancelled = false := by
      by_contra hcancelled
      rcases hdone.mp (by simpa using hcancelled) with hasked | hused
      · rw [hunasked] at hasked
        cases hasked
      · exact hleft hused
    have hplay := hr.sound.live hd.task ⟨x.task, htask, hlive⟩
    rw [Scheduler.inPlay, hheld, List.append_nil] at hplay
    have hmem : hd.task ∈ r.queued i := by
      refine List.mem_filter.mpr ⟨hplay, decide_eq_true ⟨hr.current i hd hh, ?_⟩⟩
      rw [htask, Option.map_some, hlive]
    have hpos := List.length_pos_of_mem hmem
    omega
  · intro hdone r' hrun
    have hinvoking := hrun.weaken fun _ _ _ => AtomicResets.invokesAt
    obtain ⟨x', hx', hrun'⟩ := handle_run hreach hinvoking hx
    obtain ⟨-, -, -, -, hl'⟩ := handle_eq_some.mp hx'
    exact ⟨x'.ledger, hl', Handle.silent_of_run hrun' hcounted hdone⟩

/-- Two calls are allowed, a `reset` comes after the first, and another after the second. -/
theorem timer_survives_resets_limited :
    ∃ r : Recorded, (r.queued 0).length ≤ 1 ∧ ∃ l, r.ledgers[0]? = some l ∧
      l.invocations.length = 2 ∧
        ∀ r', (recordedSystem.restrict AtomicResets).Run r r' →
          ∃ l', r'.ledgers[0]? = some l' ∧ l'.invocations = l.invocations := by
  obtain ⟨r, hr, hused⟩ := System.Reachable.of_execute {} Recorded.step AtomicResets
    (.schedule 100 50 2 :: List.replicate 11 (.advance 160 50 0) ++
      List.replicate 5 (.reset 0 170 50) ++ List.replicate 8 (.advance 230 50 0) ++
      List.replicate 6 (.advance 230 50 1) ++ List.replicate 5 (.reset 0 240 50) ++ [.resume 0])
    (fun r => ∃ l ∈ r.ledgers[0]?, l.UsedUp ∧ l.limit = 2) (by decide +kernel)
  obtain ⟨l, hl, hdone, hlimit⟩ := hused
  obtain ⟨hle, -, -, hsilent⟩ := timer_survives_resets hr hl
  have htwo : l.invocations.length = 2 := by
    have hsame := hdone.2
    omega
  exact ⟨r, hle, l, hl, htwo, hsilent (Or.inr hdone)⟩

end Recorded

end Raft
