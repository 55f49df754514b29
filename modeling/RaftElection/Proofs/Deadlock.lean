/-
When the two threads of a node wait for each other.

An election timeout that has found the node unblocked waits for `handler_mtx_` with
`Scheduler::mtx` in hand.  If the server thread is then inside `handle` with a call
still ahead that needs `Scheduler::mtx`, neither will move again.  Such a state is
entered in one of two ways, and a run that avoids both never has a circular wait.
-/
import RaftElection.Proofs.Threads

namespace Raft

open Transition Locks

/-- The calls that reach `run_after`. -/
def TimerCall.takesScheduler : TimerCall → Bool
  | .schedule _ | .reset _ => true
  | .pause _ | .resume _ => false

theorem acquire_scheduler_mem_ops {c : TimerCall} :
    Op.acquire Mutex.scheduler ∈ c.ops ↔ c.takesScheduler = true := by
  cases c <;> simp [TimerCall.ops, TimerCall.takesScheduler]

/-- No call on a timer touches the lock of `handle`. -/
theorem handler_not_mem_ops (c : TimerCall) :
    Op.acquire Mutex.handler ∉ c.ops ∧ Op.release Mutex.handler ∉ c.ops := by
  cases c <;> simp [TimerCall.ops]

namespace NodeThreads

variable {a : Actor} {n n' : NodeThreads} {t : Thread}

/-! ### Steps -/

/-- What an action puts in its own place. -/
inductive Expands (a : Actor) (n : NodeThreads) : Act → List ThreadOp → Prop
  | timer (o : TimerOp) : Expands a n (.timer o) []
  | quiet (k : TimerKind) (cb : Callbacks) (h : ¬ n.timers.Fires k) : Expands a n (.check k cb) []
  | fires (k : TimerKind) (cb : Callbacks) (h : n.timers.Fires k) :
      Expands a n (.check k cb) (callableOps cb k)
  | blocked (event : RaftEvent) (cb : Callbacks) (h : n.fsm.blocked = true) :
      Expands a n (.enter event cb) []
  | entered (event : RaftEvent) (cb : Callbacks) (h : n.fsm.blocked = false) :
      Expands a n (.enter event cb) (handleOps event cb)
  | handled (event : RaftEvent) (cb : Callbacks) (last : List ThreadOp)
      (h : last = [] ∨ last = [.act .crash]) :
      Expands a n (.body event cb) ((n.fsm.handleCalls a cb event).flatMap TimerCall.ops ++ last)

/-- **An action is replaced by its expansion**, and only a handler writes the machine. -/
theorem act_expands {rest : List ThreadOp} {i : Act} (h : act a n t rest i = some n') :
    ∃ new, Expands a n i new ∧ n'.threads = n.threads.setProgram t (new ++ rest) ∧
      (n'.fsm = n.fsm ∨ ∃ event cb, RaftFSM.handleLocked a cb n.fsm event = .ok n'.fsm) := by
  cases i with
  | timer o =>
      obtain rfl := Option.some.inj h
      exact ⟨[], .timer o, rfl, Or.inl rfl⟩
  | check k cb =>
      obtain rfl := Option.some.inj h
      by_cases hfires : n.timers.Fires k
      · refine ⟨callableOps cb k, .fires k cb hfires, ?_, Or.inl rfl⟩
        rw [if_pos hfires]
      · refine ⟨[], .quiet k cb hfires, ?_, Or.inl rfl⟩
        rw [if_neg hfires]
        rfl
  | enter event cb =>
      obtain rfl := Option.some.inj h
      cases hblocked : n.fsm.blocked with
      | true => exact ⟨[], .blocked event cb hblocked, rfl, Or.inl rfl⟩
      | false => exact ⟨handleOps event cb, .entered event cb hblocked, rfl, Or.inl rfl⟩
  | body event cb =>
      simp only [act] at h
      split at h
      · rename_i s hs
        obtain rfl := Option.some.inj h
        refine ⟨_, .handled event cb [] (Or.inl rfl), ?_, Or.inr ⟨event, cb, hs⟩⟩
        rw [List.append_nil]
      · obtain rfl := Option.some.inj h
        refine ⟨_, .handled event cb [.act .crash] (Or.inr rfl), ?_, Or.inl rfl⟩
        rw [List.append_assoc]
        rfl
  | crash => cases h

/-- What a step does to the threads. -/
inductive ThreadChange (a : Actor) (n : NodeThreads) : ThreadAction → NodeThreads → Prop
  | received (e : NetEvent) (cb : Callbacks) (hidle : n.threads.program .server = []) :
      ThreadChange a n (.receive e cb)
        { n with threads := n.threads.setProgram .server [.act (.enter (.net e) cb)] }
  | passed (due : List TimerKind) (cb : Callbacks) (hidle : n.threads.program .scheduler = []) :
      ThreadChange a n (.pass due cb)
        { n with threads := n.threads.setProgram .scheduler (passOps cb due) }
  | locked (t : Thread) (threads : Threads Thread Mutex Act)
      (hlock : n.threads.lockStep t = some threads) :
      ThreadChange a n (.step t) { n with threads := threads }
  | acted (t : Thread) (i : Act) (rest new : List ThreadOp) (n' : NodeThreads)
      (hprogram : n.threads.program t = .act i :: rest) (hexpands : Expands a n i new)
      (hthreads : n'.threads = n.threads.setProgram t (new ++ rest))
      (hfsm : n'.fsm = n.fsm ∨ ∃ event cb, RaftFSM.handleLocked a cb n.fsm event = .ok n'.fsm) :
      ThreadChange a n (.step t) n'

theorem step_change {x : ThreadAction} (h : n.step a x = some n') : ThreadChange a n x n' := by
  cases x with
  | receive e cb =>
      simp only [step, Option.ite_none_right_eq_some, Option.some.injEq] at h
      obtain ⟨hidle, rfl⟩ := h
      exact .received e cb hidle
  | pass due cb =>
      simp only [step, Option.ite_none_right_eq_some, Option.some.injEq] at h
      obtain ⟨hidle, rfl⟩ := h
      exact .passed due cb hidle
  | step t =>
      simp only [step] at h
      split at h
      · rename_i i rest hprogram
        obtain ⟨new, hexpands, hthreads, hfsm⟩ := act_expands h
        exact .acted t i rest new n' hprogram hexpands hthreads hfsm
      · obtain ⟨threads, hlock, rfl⟩ := Option.map_eq_some_iff.mp h
        exact .locked t threads hlock

theorem Expands.leads {i : Act} {new rest : List ThreadOp} {held : List Mutex}
    (h : Expands a n i new) (htask : n.fsm.electionTimeoutTask.isSome = true)
    (hleads : Leads (Allowed t) held (.act i :: rest) []) :
    Leads (Allowed t) held (new ++ rest) [] := by
  obtain ⟨hallowed, hrest⟩ := hleads.of_act
  cases h with
  | timer | quiet | blocked => exact hrest
  | fires => exact leads_check hallowed hrest
  | entered => exact leads_enter hallowed hrest
  | handled event cb last hlast =>
      rw [List.append_assoc]
      refine leads_body htask hallowed ?_
      rcases hlast with rfl | rfl
      · exact hrest
      · exact .act (.crash ..) hrest

/-- The lock of `handle` comes into a program only by entering `handle`. -/
theorem Expands.acquire_handler {i : Act} {new : List ThreadOp} (h : Expands a n i new)
    (hmem : .acquire .handler ∈ new) :
    ∃ event cb, i = .enter event cb ∧ n.fsm.blocked = false ∧ new = handleOps event cb := by
  cases h with
  | timer | quiet | blocked => cases hmem
  | fires k cb => cases k <;> simp [callableOps] at hmem
  | entered event cb hblocked => exact ⟨event, cb, rfl, hblocked, rfl⟩
  | handled event cb last hlast =>
      rcases List.mem_append.mp hmem with hcalls | hlast'
      · obtain ⟨c, -, hc⟩ := List.mem_flatMap.mp hcalls
        exact absurd hc (handler_not_mem_ops c).1
      · rcases hlast with rfl | rfl <;> simp at hlast'

/-- And `Scheduler::mtx` only by a handler that calls for it. -/
theorem Expands.acquire_scheduler {i : Act} {new : List ThreadOp} (h : Expands a n i new)
    (hmem : .acquire .scheduler ∈ new) :
    ∃ event cb, i = .body event cb ∧
      ∃ c ∈ n.fsm.handleCalls a cb event, c.takesScheduler = true := by
  cases h with
  | timer | quiet | blocked => cases hmem
  | fires k cb => cases k <;> simp [callableOps] at hmem
  | entered => simp [handleOps] at hmem
  | handled event cb last hlast =>
      rcases List.mem_append.mp hmem with hcalls | hlast'
      · obtain ⟨c, hc, hops⟩ := List.mem_flatMap.mp hcalls
        exact ⟨event, cb, rfl, c, hc, acquire_scheduler_mem_ops.mp hops⟩
      · rcases hlast with rfl | rfl <;> simp at hlast'

/-! ### The shape of the programs -/

/-- The server thread is inside `handle`, whose last act is to release its lock, or it
holds nothing and has not got further than the lock of `handle`. -/
def ServerShape (held : List Mutex) (program : List ThreadOp) : Prop :=
  (.handler ∈ held ∧ ∃ ops, program = ops ++ [.release .handler] ∧ .release .handler ∉ ops) ∨
  held = [] ∧ (program = [] ∨
    ∃ e cb, program = [.act (.enter (.net e) cb)] ∨ program = handleOps (.net e) cb)

theorem ServerShape.acquire {held : List Mutex} {m : Mutex} {rest : List ThreadOp}
    (h : ServerShape held (.acquire m :: rest)) : ServerShape (m :: held) rest := by
  rcases h with ⟨hin, ops, hops, hlast⟩ | ⟨rfl, h | ⟨e, cb, h | h⟩⟩
  · cases ops with
    | nil => simp at hops
    | cons o ops' =>
        obtain ⟨rfl, rfl⟩ := List.cons.inj hops
        exact Or.inl ⟨List.mem_cons_of_mem m hin, ops', rfl,
          fun hmem => hlast (List.mem_cons_of_mem _ hmem)⟩
  · cases h
  · cases h
  · obtain ⟨hm, rfl⟩ := List.cons.inj h
    obtain rfl := Op.acquire.inj hm
    exact Or.inl ⟨List.mem_cons_self, [.act (.body (.net e) cb)], rfl, by simp⟩

/-- Releasing a mutex either ends `handle` or leaves its lock in place. -/
theorem ServerShape.release_cases {held : List Mutex} {m : Mutex} {rest : List ThreadOp}
    (h : ServerShape (m :: held) (.release m :: rest)) :
    rest = [] ∨ .handler ∈ held ∧
      ∃ ops, rest = ops ++ [.release .handler] ∧ .release .handler ∉ ops := by
  rcases h with ⟨hin, ops, hops, hlast⟩ | ⟨hheld, -⟩
  · cases ops with
    | nil => exact Or.inl (List.cons.inj hops).2
    | cons o ops' =>
        obtain ⟨rfl, rfl⟩ := List.cons.inj hops
        refine Or.inr ⟨?_, ops', rfl, fun hmem => hlast (List.mem_cons_of_mem _ hmem)⟩
        rcases List.mem_cons.mp hin with rfl | hin'
        · exact absurd List.mem_cons_self hlast
        · exact hin'
  · cases hheld

theorem ServerShape.release {held : List Mutex} {m : Mutex} {rest : List ThreadOp}
    (h : ServerShape (m :: held) (.release m :: rest))
    (hleads : Leads (Allowed .server) held rest []) : ServerShape held rest := by
  rcases h.release_cases with rfl | hinside
  · cases hleads
    exact Or.inr ⟨rfl, Or.inl rfl⟩
  · exact Or.inl hinside

theorem ServerShape.expand {held : List Mutex} {i : Act} {new rest : List ThreadOp}
    (h : ServerShape held (.act i :: rest)) (hallowed : Allowed .server held (.act i))
    (hexpands : Expands a n i new) : ServerShape held (new ++ rest) := by
  rcases h with ⟨hin, ops, hops, hlast⟩ | ⟨rfl, h | ⟨e, cb, h | h⟩⟩
  · cases ops with
    | nil => simp at hops
    | cons o ops' =>
        obtain ⟨rfl, rfl⟩ := List.cons.inj hops
        refine Or.inl ⟨hin, new ++ ops', (List.append_assoc ..).symm, ?_⟩
        have hnew : .release .handler ∉ new := by
          cases hexpands with
          | timer | quiet | blocked => simp
          | fires => cases hallowed
          | entered =>
              cases hallowed
              cases hin
          | handled event cb last hl =>
              intro hmem
              rcases List.mem_append.mp hmem with hcalls | hlast'
              · obtain ⟨c, -, hc⟩ := List.mem_flatMap.mp hcalls
                exact (handler_not_mem_ops c).2 hc
              · rcases hl with rfl | rfl <;> simp at hlast'
        intro hmem
        rcases List.mem_append.mp hmem with hmem | hmem
        · exact hnew hmem
        · exact hlast (List.mem_cons_of_mem _ hmem)
  · cases h
  · obtain ⟨hi, rfl⟩ := List.cons.inj h
    obtain rfl := Op.act.inj hi
    rw [List.append_nil]
    cases hexpands with
    | blocked => exact Or.inr ⟨rfl, Or.inl rfl⟩
    | entered => exact Or.inr ⟨rfl, Or.inr ⟨e, cb, Or.inr rfl⟩⟩
  · cases (List.cons.inj h).1

/-- What holds of the two programs in every reachable state. -/
structure Shape (n : NodeThreads) : Prop where
  orderly : Orderly Allowed n.threads
  task : n.fsm.electionTimeoutTask.isSome = true
  server : ServerShape (n.threads.locks.held .server) (n.threads.program .server)
  /-- The scheduler thread has entered `handle` only where it is at its lock. -/
  scheduler : .acquire .handler ∉ (n.threads.program .scheduler).tail

theorem Shape.started : Shape {} :=
  ⟨fun _ => .done [], rfl, Or.inr ⟨rfl, Or.inl rfl⟩, by simp⟩

/-- A thread with nothing to do holds nothing. -/
theorem Shape.held_of_idle (h : Shape n) (hidle : n.threads.program t = []) :
    n.threads.locks.held t = [] := by
  have hleads := h.orderly t
  rw [hidle] at hleads
  generalize n.threads.locks.held t = held at hleads
  cases hleads
  rfl

theorem Shape.lock {threads : Threads Thread Mutex Act} (h : Shape n)
    (hlock : n.threads.lockStep t = some threads) : Shape { n with threads := threads } := by
  have horderly := h.orderly.lockStep hlock
  refine ⟨horderly, h.task, ?_, ?_⟩
  · obtain ⟨rest, hprogram', hcases⟩ := Threads.lockStep_cases hlock
    have hserver := h.server
    have hleads := horderly .server
    cases t with
    | scheduler =>
        rcases hcases with ⟨m, -, -, hheld⟩ | ⟨m, held, -, -, hheld⟩
        · simpa [hprogram', hheld] using hserver
        · simpa [hprogram', hheld] using hserver
    | server =>
        rcases hcases with ⟨m, hprogram, -, hheld⟩ | ⟨m, held, hprogram, hhead, hheld⟩
        · rw [hprogram] at hserver
          simp only [hprogram', hheld, Function.update_self]
          exact hserver.acquire
        · rw [hprogram, hhead] at hserver
          simp only [hprogram', hheld, Function.update_self] at hleads ⊢
          exact hserver.release hleads
  · obtain ⟨rest, hprogram', hcases⟩ := Threads.lockStep_cases hlock
    have hscheduler := h.scheduler
    cases t with
    | server => simpa [hprogram'] using hscheduler
    | scheduler =>
        have hrest : .acquire .handler ∉ rest := by
          rcases hcases with ⟨m, hprogram, -⟩ | ⟨m, held, hprogram, -⟩
          · rwa [hprogram] at hscheduler
          · rwa [hprogram] at hscheduler
        simp only [hprogram', Function.update_self]
        exact fun hmem => hrest (List.mem_of_mem_tail hmem)

/-- Entering `handle` puts its lock first. -/
theorem Expands.tail {i : Act} {new rest : List ThreadOp} (h : Expands a n i new)
    (hrest : .acquire .handler ∉ rest) : .acquire .handler ∉ (new ++ rest).tail := by
  by_cases hnew : .acquire .handler ∈ new
  · obtain ⟨event, cb, -, -, rfl⟩ := h.acquire_handler hnew
    simpa [handleOps] using hrest
  · intro hmem
    rcases List.mem_append.mp (List.mem_of_mem_tail hmem) with hmem | hmem
    · exact hnew hmem
    · exact hrest hmem

theorem Shape.acted {i : Act} {rest new : List ThreadOp} (h : Shape n)
    (hprogram : n.threads.program t = .act i :: rest) (hexpands : Expands a n i new)
    (hthreads : n'.threads = n.threads.setProgram t (new ++ rest))
    (hfsm : n'.fsm = n.fsm ∨ ∃ event cb, RaftFSM.handleLocked a cb n.fsm event = .ok n'.fsm) :
    Shape n' := by
  have hleads := h.orderly t
  rw [hprogram] at hleads
  refine ⟨?_, ?_, ?_, ?_⟩
  · rw [hthreads]
    exact h.orderly.setProgram (hexpands.leads h.task hleads)
  · rcases hfsm with heq | ⟨event, cb, hhandle⟩
    · rw [heq]
      exact h.task
    · exact RaftFSM.handleLocked_task_isSome hhandle h.task
  · rw [hthreads, Threads.setProgram_locks]
    cases t with
    | scheduler =>
        rw [Threads.setProgram_of_ne _ (by decide)]
        exact h.server
    | server =>
        rw [Threads.setProgram_self]
        have hserver := h.server
        rw [hprogram] at hserver
        exact hserver.expand hleads.of_act.1 hexpands
  · rw [hthreads]
    have hscheduler := h.scheduler
    cases t with
    | server =>
        rw [Threads.setProgram_of_ne _ (by decide)]
        exact hscheduler
    | scheduler =>
        rw [Threads.setProgram_self]
        rw [hprogram] at hscheduler
        exact hexpands.tail hscheduler

theorem Shape.step {x : ThreadAction} (h : Shape n) (hstep : n.step a x = some n') : Shape n' := by
  cases step_change hstep with
  | received e cb hidle =>
      have hheld := h.held_of_idle hidle
      refine ⟨h.orderly.setProgram ?_, h.task, ?_, ?_⟩
      · rw [hheld]
        exact .act (.serverEnter e cb) (.done [])
      · rw [Threads.setProgram_locks, Threads.setProgram_self]
        exact Or.inr ⟨hheld, Or.inr ⟨e, cb, Or.inl rfl⟩⟩
      · rw [Threads.setProgram_of_ne _ (by decide)]
        exact h.scheduler
  | passed due cb hidle =>
      have hheld := h.held_of_idle hidle
      refine ⟨h.orderly.setProgram ?_, h.task, ?_, ?_⟩
      · rw [hheld]
        exact leads_pass cb due
      · rw [Threads.setProgram_locks, Threads.setProgram_of_ne _ (by decide)]
        exact h.server
      · rw [Threads.setProgram_self]
        simp [passOps, fireOps]
  | locked t threads hlock => exact h.lock hlock
  | acted t i rest new n' hprogram hexpands hthreads hfsm =>
      exact h.acted hprogram hexpands hthreads hfsm

/-- The scheduler thread comes to the lock of `handle` with its own in hand. -/
theorem Shape.scheduler_held (h : Shape n) {rest : List ThreadOp}
    (hprogram : n.threads.program .scheduler = .acquire .handler :: rest) :
    .scheduler ∈ n.threads.locks.held .scheduler := by
  have hleads := h.orderly .scheduler
  rw [hprogram] at hleads
  have hallowed := hleads.of_acquire.1
  generalize n.threads.locks.held .scheduler = held at hallowed
  cases hallowed
  simp

theorem shape_of_reachable (h : (threadSystem a).Reachable n) : Shape n := by
  refine h.invariant ?_ fun _ _ _ _ hn hstep => hn.step hstep
  intro n₀ hn₀
  subst hn₀
  exact Shape.started

/-! ### The circle

`Scheduler::mtx` is held during a pass and the pass enters `handle`; a handler that resets or
schedules a timer takes the two the other way round.  A circle can close in this way only, and two
kinds of step close it.
-/

/-- An election timeout waits for the lock of `handle`, and the server thread, which has
it, still has to take the lock of the scheduler. -/
structure Doomed (n : NodeThreads) : Prop where
  waits : n.threads.wants .scheduler = some .handler
  inside : .handler ∈ n.threads.locks.held .server
  ahead : .acquire .scheduler ∈ n.threads.program .server

/-- **The threads wait for each other in this one way.**  Every other pair of a mutex
wanted and a mutex held is ruled out by the lock order or by exclusion. -/
theorem Shape.doomed_of_waits (h : Shape n) (hserver : n.threads.WaitsFor .server .scheduler)
    (hscheduler : n.threads.WaitsFor .scheduler .server) : Doomed n := by
  obtain ⟨m₁, hwants₁, hheld₁⟩ := hserver
  obtain ⟨m₂, hwants₂, hheld₂⟩ := hscheduler
  obtain ⟨rest₁, hprogram₁⟩ := Threads.wants_eq_some hwants₁
  obtain ⟨rest₂, hprogram₂⟩ := Threads.wants_eq_some hwants₂
  have hleads₁ := h.orderly .server
  have hleads₂ := h.orderly .scheduler
  rw [hprogram₁] at hleads₁
  rw [hprogram₂] at hleads₂
  have hexclusive : ∀ m, m ∈ n.threads.locks.held .server → m ∉ n.threads.locks.held .scheduler :=
    fun m hm hm' => absurd (n.threads.locks.exclusive _ _ m hm hm') (by decide)
  have hdoomed : m₂ = .handler → m₁ = .scheduler → Doomed n := by
    intro hm₂ hm₁
    subst hm₂ hm₁
    exact ⟨hwants₂, hheld₂, by rw [hprogram₁]; exact List.mem_cons_self⟩
  have hallowed₁ := hleads₁.of_acquire.1
  have hallowed₂ := hleads₂.of_acquire.1
  clear hleads₁ hleads₂
  generalize n.threads.locks.held .server = held₁ at *
  generalize n.threads.locks.held .scheduler = held₂ at *
  cases hallowed₁ with
  | serverHandle => cases hheld₂
  | serverTouch k =>
      cases hallowed₂ with
      | pass => cases hheld₁
      | call => simp at hheld₁
      | timeoutHandle => simp at hheld₁
      | timeoutTouch => simp at hheld₁
  | serverSchedule =>
      cases hallowed₂ with
      | pass => cases hheld₁
      | call => simp at hheld₂
      | timeoutHandle => exact hdoomed rfl rfl
      | timeoutTouch => simp at hheld₂
  | serverReplace k =>
      cases hallowed₂ with
      | pass => cases hheld₁
      | call => simp at hheld₂
      | timeoutHandle => exact hdoomed rfl rfl
      | timeoutTouch => exact absurd List.mem_cons_self (hexclusive .handler (by simp))

theorem Shape.doomed_of_circularWait (h : Shape n) (hwait : n.threads.CircularWait) : Doomed n := by
  obtain ⟨t, t', hne, htt', ht't⟩ := hwait
  cases t with
  | server =>
      cases t' with
      | server => exact absurd rfl hne
      | scheduler => exact h.doomed_of_waits htt' ht't
  | scheduler =>
      cases t' with
      | server => exact h.doomed_of_waits ht't htt'
      | scheduler => exact absurd rfl hne

/-- The server thread is about to handle an event that resets the election timer or
schedules the heartbeats. -/
def aboutToCall (a : Actor) (n : NodeThreads) : Bool :=
  match n.threads.program .server with
  | .act (.body event cb) :: _ => (n.fsm.handleCalls a cb event).any TimerCall.takesScheduler
  | _ => false

/-- An election timeout is about to find the node unblocked. -/
def aboutToEnter (n : NodeThreads) : Bool :=
  match n.threads.program .scheduler with
  | .act (.enter ..) :: _ => !n.fsm.blocked
  | _ => false

/-- The two steps that close the circle: the server thread starts on such an event while
an election timeout waits for the lock of `handle`, or an election timeout goes on
to that lock while the server thread, inside `handle`, has such a call ahead. -/
def Collides (a : Actor) (n : NodeThreads) : ThreadAction → Prop
  | .step .server => n.threads.wants .scheduler = some .handler ∧ aboutToCall a n = true
  | .step .scheduler =>
      aboutToEnter n = true ∧ .handler ∈ n.threads.locks.held .server ∧
        .acquire .scheduler ∈ n.threads.program .server
  | _ => False

instance (a : Actor) (n : NodeThreads) (x : ThreadAction) : Decidable (Collides a n x) := by
  unfold Collides
  split <;> infer_instance

/-- Taking or releasing a mutex closes no circle. -/
theorem Shape.not_doomed_lock {threads : Threads Thread Mutex Act} (h : Shape n)
    (hlock : n.threads.lockStep t = some threads) (hcalm : ¬ Doomed n) :
    ¬ Doomed { n with threads := threads } := by
  intro hdoomed
  obtain ⟨rest, hprogram', hcases⟩ := Threads.lockStep_cases hlock
  obtain ⟨hwaits, hinside, hahead⟩ := hdoomed
  cases t with
  | scheduler =>
      obtain ⟨rest', hwaits'⟩ := Threads.wants_eq_some hwaits
      simp only [hprogram', Function.update_self] at hwaits'
      have hscheduler := h.scheduler
      rcases hcases with ⟨m, hprogram, -⟩ | ⟨m, held, hprogram, -⟩
      · rw [hprogram, hwaits'] at hscheduler
        exact hscheduler List.mem_cons_self
      · rw [hprogram, hwaits'] at hscheduler
        exact hscheduler List.mem_cons_self
  | server =>
      rw [Threads.wants_lockStep_of_ne hlock (by decide)] at hwaits
      simp only [hprogram', Function.update_self] at hahead
      rcases hcases with ⟨m, hprogram, -, hheld⟩ | ⟨m, held, hprogram, hhead, hheld⟩
      · have hserver := h.server
        rw [hprogram] at hserver
        rcases hserver with ⟨hin, -⟩ | ⟨-, hprog | ⟨e, cb, hprog | hprog⟩⟩
        · exact hcalm ⟨hwaits, hin, by rw [hprogram]; exact List.mem_cons_of_mem _ hahead⟩
        · cases hprog
        · cases hprog
        · obtain ⟨-, rfl⟩ := List.cons.inj hprog
          simp at hahead
      · refine hcalm ⟨hwaits, ?_, by rw [hprogram]; exact List.mem_cons_of_mem _ hahead⟩
        simp only [hheld, Function.update_self] at hinside
        rw [hhead]
        exact List.mem_cons_of_mem m hinside

/-- **A step that does not collide closes no circle.** -/
theorem Shape.not_doomed_step {x : ThreadAction} (h : Shape n) (hstep : n.step a x = some n')
    (hx : ¬ Collides a n x) (hcalm : ¬ Doomed n) : ¬ Doomed n' := by
  cases step_change hstep with
  | received e cb hidle =>
      intro hdoomed
      have hinside := hdoomed.inside
      rw [Threads.setProgram_locks, h.held_of_idle hidle] at hinside
      cases hinside
  | passed due cb hidle =>
      intro hdoomed
      obtain ⟨rest, hprogram⟩ := Threads.wants_eq_some hdoomed.waits
      rw [Threads.setProgram_self] at hprogram
      cases hprogram
  | locked t threads hlock => exact h.not_doomed_lock hlock hcalm
  | acted t i rest new n' hprogram hexpands hthreads hfsm =>
      intro hdoomed
      obtain ⟨hwaits, hinside, hahead⟩ := hdoomed
      rw [hthreads] at hwaits hinside hahead
      rw [Threads.setProgram_locks] at hinside
      cases t with
      | server =>
          rw [Threads.wants_setProgram_of_ne _ (by decide)] at hwaits
          rw [Threads.setProgram_self] at hahead
          rcases List.mem_append.mp hahead with hnew | hold
          · obtain ⟨event, cb, rfl, c, hc, htakes⟩ := hexpands.acquire_scheduler hnew
            refine hx ⟨hwaits, ?_⟩
            simp only [aboutToCall, hprogram]
            exact List.any_eq_true.mpr ⟨c, hc, htakes⟩
          · refine hcalm ⟨hwaits, hinside, ?_⟩
            rw [hprogram]
            exact List.mem_cons_of_mem _ hold
      | scheduler =>
          rw [Threads.setProgram_of_ne _ (by decide)] at hahead
          obtain ⟨rest', hhead⟩ := Threads.wants_eq_some hwaits
          rw [Threads.setProgram_self] at hhead
          have hscheduler := h.scheduler
          rw [hprogram] at hscheduler
          have hmem : .acquire .handler ∈ new ++ rest := by
            rw [hhead]
            exact List.mem_cons_self
          rcases List.mem_append.mp hmem with hnew | hold
          · obtain ⟨event, cb, rfl, hblocked, -⟩ := hexpands.acquire_handler hnew
            refine hx ⟨?_, hinside, hahead⟩
            simp [aboutToEnter, hprogram, hblocked]
          · exact hscheduler hold

/-- **No circular wait, where nothing collides.** -/
theorem no_circularWait
    (h : ((threadSystem a).restrict fun n x _ => ¬ Collides a n x).Reachable n) :
    ¬ n.threads.CircularWait := by
  have hcalm : ¬ Doomed n := by
    refine h.invariant (I := fun n => ¬ Doomed n) ?_ ?_
    · intro n₀ hn₀ hdoomed
      subst hn₀
      exact absurd hdoomed.waits (by simp [Threads.wants])
    · intro n x n' hreach hn hmove
      obtain ⟨hstep, hx⟩ := hmove
      exact (shape_of_reachable hreach.unrestrict).not_doomed_step hstep hx hn
  intro hwait
  exact hcalm ((shape_of_reachable h.unrestrict).doomed_of_circularWait hwait)

/-- A heartbeat is being handled and waits for a pass of the scheduler to end. -/
theorem no_circularWait_of_pass :
    ∃ n : NodeThreads, n.threads.WaitsFor .server .scheduler ∧ ¬ n.threads.CircularWait := by
  obtain ⟨n, hn, hwants, hheld⟩ := System.Reachable.of_execute {} (NodeThreads.step firstOfThree)
    (fun n x _ => ¬ Collides firstOfThree n x)
    [.receive (.appendEntriesReq 2 2) {}, .step .server, .step .server, .step .server,
      .step .server, .step .server, .pass [.heartbeat] {}, .step .scheduler]
    (fun n => n.threads.wants .server = some .scheduler ∧
      .scheduler ∈ n.threads.locks.held .scheduler) (by decide +kernel)
  exact ⟨n, ⟨.scheduler, hwants, hheld⟩, no_circularWait hn⟩

/-- A follower's election timer fires as a heartbeat is being handled. -/
theorem timeout_during_heartbeat :
    ∃ n, (threadSystem firstOfThree).Reachable n ∧ n.threads.CircularWait := by
  obtain ⟨n, hn, hserver, hscheduler, hheld, hheld'⟩ :=
    System.Reachable.of_execute {} (NodeThreads.step firstOfThree) (fun _ _ _ => True)
      [.receive (.appendEntriesReq 2 2) {}, .step .server, .step .server, .step .server,
        .pass [.election] {}, .step .scheduler, .step .scheduler, .step .scheduler,
        .step .scheduler, .step .server, .step .server]
      (fun n => n.threads.wants .server = some .scheduler ∧
        n.threads.wants .scheduler = some .handler ∧
        .scheduler ∈ n.threads.locks.held .scheduler ∧ .handler ∈ n.threads.locks.held .server)
      (by decide +kernel)
  exact ⟨n, hn.unrestrict, .server, .scheduler, by decide, ⟨.scheduler, hserver, hheld⟩,
    ⟨.handler, hscheduler, hheld'⟩⟩

/-! ### The condition is exact

A step that collides dooms the node, and nothing that happens later undoes it.
-/

theorem aboutToCall_eq_true (h : aboutToCall a n = true) :
    ∃ event cb rest, n.threads.program .server = .act (.body event cb) :: rest ∧
      ∃ c ∈ n.fsm.handleCalls a cb event, c.takesScheduler = true := by
  unfold aboutToCall at h
  split at h
  · rename_i event cb rest hprogram
    exact ⟨event, cb, rest, hprogram, List.any_eq_true.mp h⟩
  · cases h

theorem aboutToEnter_eq_true (h : aboutToEnter n = true) :
    n.fsm.blocked = false ∧
      ∃ event cb rest, n.threads.program .scheduler = .act (.enter event cb) :: rest := by
  unfold aboutToEnter at h
  split at h
  · rename_i event cb rest hprogram
    exact ⟨by simpa using h, event, cb, rest, hprogram⟩
  · cases h

/-- **A step that collides dooms the node.** -/
theorem Shape.doomed_of_collides {x : ThreadAction} (h : Shape n) (hstep : n.step a x = some n')
    (hx : Collides a n x) : Doomed n' := by
  cases step_change hstep with
  | received | passed => exact absurd hx id
  | locked t threads hlock =>
      cases t with
      | server =>
          obtain ⟨event, cb, rest, hprogram, -⟩ := aboutToCall_eq_true hx.2
          rw [Threads.lockStep_of_act hprogram] at hlock
          cases hlock
      | scheduler =>
          obtain ⟨-, event, cb, rest, hprogram⟩ := aboutToEnter_eq_true hx.1
          rw [Threads.lockStep_of_act hprogram] at hlock
          cases hlock
  | acted t i rest new n' hprogram hexpands hthreads hfsm =>
      cases t with
      | server =>
          obtain ⟨event, cb, rest', hbody, c, hc, htakes⟩ := aboutToCall_eq_true hx.2
          obtain ⟨hi, rfl⟩ := List.cons.inj (hprogram.symm.trans hbody)
          obtain rfl := Op.act.inj hi
          have hallowed := h.orderly .server
          rw [hprogram] at hallowed
          refine ⟨?_, ?_, ?_⟩
          · rw [hthreads, Threads.wants_setProgram_of_ne _ (by decide)]
            exact hx.1
          · rw [hthreads, Threads.setProgram_locks]
            have hheld := hallowed.of_act.1
            generalize n.threads.locks.held .server = held at hheld
            cases hheld
            exact List.mem_cons_self
          · rw [hthreads, Threads.setProgram_self]
            cases hexpands
            refine List.mem_append_left _ (List.mem_append_left _ (List.mem_flatMap.mpr ⟨c, hc, ?_⟩))
            exact acquire_scheduler_mem_ops.mpr htakes
      | scheduler =>
          obtain ⟨hblocked, event, cb, rest', henter⟩ := aboutToEnter_eq_true hx.1
          obtain ⟨hi, rfl⟩ := List.cons.inj (hprogram.symm.trans henter)
          obtain rfl := Op.act.inj hi
          obtain ⟨hinside, hahead⟩ := hx.2
          cases hexpands with
          | blocked _ _ hblocked' => exact absurd (hblocked.symm.trans hblocked') (by decide)
          | entered =>
              refine ⟨?_, ?_, ?_⟩
              · rw [hthreads]
                unfold Threads.wants
                rw [Threads.setProgram_self]
                rfl
              · rw [hthreads]
                exact hinside
              · rw [hthreads, Threads.setProgram_of_ne _ (by decide)]
                exact hahead

/-- **A doomed node stays doomed**: the scheduler thread waits for the lock the server
thread has, and the server thread cannot get past the lock the scheduler thread has. -/
theorem Doomed.step {x : ThreadAction} (h : Shape n) (hdoomed : Doomed n)
    (hstep : n.step a x = some n') : Doomed n' := by
  obtain ⟨hwaits, hinside, hahead⟩ := hdoomed
  obtain ⟨waiting, hscheduler⟩ := Threads.wants_eq_some hwaits
  cases step_change hstep with
  | received e cb hidle =>
      rw [hidle] at hahead
      cases hahead
  | passed due cb hidle =>
      rw [hidle] at hscheduler
      cases hscheduler
  | locked t threads hlock =>
      obtain ⟨rest, hprogram', hcases⟩ := Threads.lockStep_cases hlock
      cases t with
      | scheduler =>
          rcases hcases with ⟨m, hprogram, hfree, -⟩ | ⟨m, held, hprogram, -⟩
          · obtain ⟨hm, -⟩ := List.cons.inj (hscheduler.symm.trans hprogram)
            obtain rfl := Op.acquire.inj hm
            exact absurd hinside (hfree .server)
          · cases hscheduler.symm.trans hprogram
      | server =>
          rw [← Threads.wants_lockStep_of_ne hlock (by decide)] at hwaits
          rcases hcases with ⟨m, hprogram, hfree, hheld⟩ | ⟨m, held, hprogram, hhead, hheld⟩
          · refine ⟨hwaits, ?_, ?_⟩
            · simp only [hheld, Function.update_self]
              exact List.mem_cons_of_mem m hinside
            · simp only [hprogram', Function.update_self]
              rw [hprogram] at hahead
              rcases List.mem_cons.mp hahead with hm | hrest
              · obtain rfl := Op.acquire.inj hm
                exact absurd (h.scheduler_held hscheduler) (hfree .scheduler)
              · exact hrest
          · rw [hprogram] at hahead
            have hahead' : .acquire .scheduler ∈ rest := by simpa using hahead
            refine ⟨hwaits, ?_, ?_⟩
            · simp only [hheld, Function.update_self]
              have hserver := h.server
              rw [hprogram, hhead] at hserver
              -- The lock of `handle` does not go while there is something left to take.
              rcases hserver.release_cases with rfl | ⟨hin, -⟩
              · cases hahead'
              · exact hin
            · simp only [hprogram', Function.update_self]
              exact hahead'
  | acted t i rest new n' hprogram hexpands hthreads hfsm =>
      cases t with
      | scheduler => cases hscheduler.symm.trans hprogram
      | server =>
          rw [hprogram] at hahead
          refine ⟨?_, ?_, ?_⟩
          · rw [hthreads, Threads.wants_setProgram_of_ne _ (by decide)]
            exact hwaits
          · rw [hthreads]
            exact hinside
          · rw [hthreads, Threads.setProgram_self]
            refine List.mem_append_right _ ?_
            simpa using hahead

theorem Doomed.run (h : (threadSystem a).Reachable n) (hdoomed : Doomed n)
    (hrun : (threadSystem a).Run n n') : Doomed n' := by
  have hboth : Shape n' ∧ Doomed n' :=
    hrun.invariant (I := fun n => Shape n ∧ Doomed n)
      (fun _ _ _ hn hstep => ⟨hn.1.step hstep, hn.2.step hn.1 hstep⟩)
      ⟨shape_of_reachable h, hdoomed⟩
  exact hboth.2

end NodeThreads

end Raft
