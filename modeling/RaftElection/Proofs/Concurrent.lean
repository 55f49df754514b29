/-
The queue and the latch of `concurrent.hpp`, for any number of threads.

Each element that is put is got once, in order, until the queue is cleared, and then nothing is
got any more (`fifo`).  A getter that is notified may find that another was faster, but no
element is left behind while a getter sleeps (`gets_served`).  `clear` wakes everybody, unless
it stores `quit` and notifies just when a getter has tested its predicate and not blocked yet
(`clear_releases`); the mutex it does not take would keep it from that.  The latch lets nobody
through early and keeps nobody waiting (`opens_in_time`).
-/
import RaftElection.Concurrent
import RaftElection.Library.Wakeups

namespace Raft

open Transition Monitor

namespace BlockingQueue

section Fields

variable {τ α : Type} {b : BlockingQueue τ α}

/-! ### The queue, call by call -/

/-- What was put and not got is in the queue. -/
def InOrder (b : BlockingQueue τ α) : Prop := b.puts = b.gets.map Prod.snd ++ b.q

theorem get_of_quit (h : b.quit = true) (t : τ) : b.get t = b := if_pos h

theorem get_of_cons (h : b.quit = false) {x : α} {rest : List α} (hq : b.q = x :: rest) (t : τ) :
    b.get t = { b with q := rest, gets := b.gets ++ [(t, x)] } := by
  rw [get, if_neg (by simp [h]), hq]

theorem get_of_nil (hq : b.q = []) (t : τ) : b.get t = b := by
  rw [get, hq]
  split <;> rfl

/-- `get` touches neither `quit` nor what was put. -/
theorem get_quit (b : BlockingQueue τ α) (t : τ) : (b.get t).quit = b.quit := by
  unfold get
  split
  · rfl
  · split <;> rfl

theorem InOrder.put (h : InOrder b) (x : α) : InOrder (b.put x) := by
  show b.puts ++ [x] = b.gets.map Prod.snd ++ (b.q ++ [x])
  rw [h, List.append_assoc]

theorem InOrder.get (h : InOrder b) (t : τ) : InOrder (b.get t) := by
  cases hquit : b.quit with
  | true =>
      rw [get_of_quit hquit]
      exact h
  | false =>
      cases hq : b.q with
      | nil =>
          rw [get_of_nil hq]
          exact h
      | cons x rest =>
          rw [get_of_cons hquit hq]
          show b.puts = (b.gets ++ [(t, x)]).map Prod.snd ++ rest
          rw [h, hq, List.map_append, List.append_assoc]
          rfl

/-- Only `get` waits. -/
def waits : QueueOp α → Bool
  | .get => true
  | .put _ => false

theorem silent : Silent (monitor τ α) waits := by
  refine ⟨?_, ?_⟩
  · intro o b ho
    cases o with
    | put => rfl
    | get => cases ho
  · intro o b ho
    cases o with
    | put => cases ho
    | get => rfl

theorem ready_of_not_quit {b : BlockingQueue τ α} (h : b.quit = false) :
    b.ready = decide (0 < b.q.length) := by
  rw [ready, h]
  cases b.q <;> rfl

theorem length_get_lt {b : BlockingQueue τ α} (h : b.quit = false) (hpos : 0 < b.q.length)
    (t : τ) : (b.get t).q.length < b.q.length := by
  cases hq : b.q with
  | nil => simp [hq] at hpos
  | cons x rest =>
      rw [get_of_cons h hq]
      exact Nat.lt_succ_self _

/-- Until it is cleared, a queue is something to take from. -/
theorem queue_takes :
    Takes (monitor τ α) waits (fun b => b.q.length) (fun b => b.quit = false) := by
  refine ⟨?_, ?_, silent.proceeds, ?_, ?_⟩
  · intro t o b hb
    cases o with
    | put x => exact hb
    | get => exact (get_quit b t).trans hb
  · intro o b hb ho
    cases o with
    | put => cases ho
    | get => exact ready_of_not_quit hb
  · intro t o b hb ho hpos
    cases o with
    | put => cases ho
    | get => exact length_get_lt hb hpos t
  · intro t o b hb ho
    cases o with
    | put x => exact Or.inr ⟨(List.length_append ..).le, rfl⟩
    | get => cases ho

/-- Nobody should sleep in `get` once `quit` is set. -/
def dueToQuit : QueueOp α → BlockingQueue τ α → Bool
  | .get, b => b.quit
  | .put _, _ => false

/-- `quit` is not stored just when a getter has tested its predicate and not blocked yet. -/
def InTime (s : State τ (BlockingQueue τ α) (QueueOp α)) (x : Action τ (QueueOp α) Unit)
    (_ : State τ (BlockingQueue τ α) (QueueOp α)) : Prop :=
  match x with
  | .store .. => ∀ t, s.phase t ≠ .parking .get
  | _ => True

instance [Fintype τ] [DecidableEq α] (s : State τ (BlockingQueue τ α) (QueueOp α))
    (x : Action τ (QueueOp α) Unit) (s' : State τ (BlockingQueue τ α) (QueueOp α)) :
    Decidable (InTime s x s') := by
  unfold InTime
  cases x <;> infer_instance

theorem InTime.timely {s s' : State τ (BlockingQueue τ α) (QueueOp α)}
    {x : Action τ (QueueOp α) Unit} (h : InTime s x s') :
    Timely (monitor τ α) dueToQuit s x s' := by
  cases x with
  | store t u =>
      intro t' o ht'
      cases o with
      | put => rfl
      | get => exact absurd ht' (h t')
  | call | acquire | test | park | run | wake | signal => trivial

end Fields

variable {τ α : Type} [DecidableEq τ] [Fintype τ]
  {s s' : State τ (BlockingQueue τ α) (QueueOp α)}

/-! ### First in, first out -/

/-- Where nothing is stored, a thread that is not outside in the end waits in `get`. -/
theorem settled_cases {ok : State τ (BlockingQueue τ α) (QueueOp α) → Action τ (QueueOp α) Unit →
      State τ (BlockingQueue τ α) (QueueOp α) → Prop}
    (h : ((queueSystem τ α).restrict ok).Reachable s) (hsettled : s.Settled) (t : τ) :
    s.phase t = .idle ∨ s.phase t = .asleep .get := by
  have hblocking := blocking_of_reachable silent h.unrestrict
  have ht := hsettled t
  cases hp : s.phase t with
  | idle => exact Or.inl rfl
  | asleep o =>
      cases o with
      | get => exact Or.inr rfl
      | put x => cases hblocking t _ (Or.inr hp)
  | entering | locked | granted | parking | awake | signalling =>
      rw [hp] at ht
      cases ht

/-- **No element is left behind while a getter sleeps.**  In every run in which the queue is
not cleared, as long as a getter sleeps there are at least as many others on their way to the
queue as it has elements; the calls under way take a bounded number of steps, however they are
scheduled; and when none of them can take another one, every thread is outside, or sleeps in
`get` and the queue is empty. -/
theorem gets_served (h : ((queueSystem τ α).restrict Unstored).Reachable s)
    {l : List (Action τ (QueueOp α) Unit)} (hl : ∀ x ∈ l, x.internal = true)
    (hrun : System.execute (step (monitor τ α)) (fun _ _ _ => true) s l = some s') :
    (¬ s.NoneAsleep → s.shared.q.length ≤ total (coming waits) s) ∧
      l.length ≤ Fintype.card τ * (Fintype.card τ * 3 + 3) ∧
      (Stuck (monitor τ α) s' →
        ∀ t, s'.phase t = .idle ∨ s'.phase t = .asleep .get ∧ s'.shared.q = []) := by
  refine ⟨(enough_coming queue_takes rfl h).enough, ?_, ?_⟩
  · exact execute_bounded silent h.unrestrict hl hrun
  · intro hstuck t
    have hreach : ((queueSystem τ α).restrict Unstored).Reachable s' :=
      h.executed l (fun x hx => unstored_of_internal (hl x hx)) hrun
    have hsettled := hstuck.settled
    refine (settled_cases hreach hsettled t).imp_right ?_
    intro ht
    refine ⟨ht, List.length_eq_zero_iff.mp ?_⟩
    have hsome : ¬ s'.NoneAsleep := fun hnone => hnone.ne_asleep t _ ht
    have henough := (enough_coming queue_takes rfl hreach).enough hsome
    -- Nobody is on the way any more.
    have hcoming : total (coming waits) s' = 0 := by
      refine Finset.sum_eq_zero ?_
      intro t' _
      rcases settled_cases hreach hsettled t' with hidle | hasleep
      · rw [hidle]
        rfl
      · rw [hasleep]
        rfl
    exact Nat.eq_zero_of_le_zero (hcoming ▸ henough)

/-- Two getters sleep, and one of them is notified of what is put. -/
theorem gets_served_of_three : ∃ s : State (Fin 3) (BlockingQueue (Fin 3) Nat) (QueueOp Nat),
    s.phase 1 = .asleep .get ∧ s.shared.q = [7] ∧ 1 ≤ total (coming waits) s := by
  obtain ⟨s, hs, hasleep, hq, hsome⟩ := System.Reachable.of_execute
    { shared := {}, phase := fun _ => .idle } (step (monitor (Fin 3) Nat)) Unstored
    [.call 0 .get, .call 1 .get, .acquire 0, .test 0, .park 0, .acquire 1, .test 1, .park 1,
      .call 2 (.put 7), .acquire 2, .test 2, .run 2 (some 0)]
    (fun s => s.phase 1 = .asleep .get ∧ s.shared.q = [7] ∧
      (System.execute (step (monitor (Fin 3) Nat)) (fun _ _ _ => true) s
        [.acquire 0, .test 0, .run 0 none]).isSome = true)
    (by decide +kernel)
  obtain ⟨s', hs'⟩ := Option.isSome_iff_exists.mp hsome
  obtain ⟨henough, -, -⟩ := gets_served hs (by decide) hs'
  refine ⟨s, hasleep, hq, ?_⟩
  rw [hq] at henough
  refine henough ?_
  intro hnone
  have hawake := hnone 1
  rw [hasleep] at hawake
  cases hawake

/-! ### Clearing

`clear` takes no mutex, so its notification can fall between the test of a getter and its sleep.
The getter then sleeps although `quit` is set, and only another notification wakes it.
-/

/-- Without the mutex `clear` cannot be sure of that: whenever a getter has tested its predicate
and not blocked yet, a `clear` may come and go, and the getter sleeps. -/
theorem clear_missed {t t' : τ} (ht : s.phase t = .parking .get) (ht' : s.phase t' = .idle) :
    ∃ s', (queueSystem τ α).Run s s' ∧ s'.shared.quit = true ∧ s'.phase t' = .idle ∧
      s'.phase t = .asleep .get := by
  have hne : t ≠ t' := by
    rintro rfl
    cases ht.symm.trans ht'
  let s₁ : State τ (BlockingQueue τ α) (QueueOp α) :=
    { s.setPhase t' .signalling with shared := s.shared.clear }
  have hsignalling : s₁.phase t' = .signalling := Function.update_self ..
  have hparking : s₁.phase t = .parking .get := (Function.update_of_ne hne ..).trans ht
  have hparking₂ : (s₁.setPhase t' .idle).wakeAll.phase t = .parking .get := by
    show ((s₁.setPhase t' .idle).phase t).woken = _
    rw [phase_setPhase, if_neg hne, hparking]
    rfl
  have hidle : (s₁.setPhase t' .idle).wakeAll.phase t' = .idle := by
    show ((s₁.setPhase t' .idle).phase t').woken = _
    rw [phase_setPhase, if_pos rfl]
    rfl
  refine ⟨(s₁.setPhase t' .idle).wakeAll.setPhase t (.asleep .get), ?_, rfl, ?_, ?_⟩
  · have hstore : (queueSystem τ α).step s (.store t' ()) s₁ := by
      show step (monitor τ α) s (.store t' ()) = some s₁
      simp only [step, ht']
      rfl
    have hsignal : (queueSystem τ α).step s₁ (.signal t') (s₁.setPhase t' .idle).wakeAll := by
      show step (monitor τ α) s₁ (.signal t') = some (s₁.setPhase t' .idle).wakeAll
      simp only [step, hsignalling]
    refine (((System.Run.refl s).tail hstore).tail hsignal).tail (a := .park t) ?_
    show step (monitor τ α) _ (.park t) = some _
    simp only [step, hparking₂]
  · rw [phase_setPhase, if_neg hne.symm]
    exact hidle
  · rw [phase_setPhase, if_pos rfl]

end BlockingQueue

namespace CountDownLatch

section Fields

variable {τ : Type} {l : CountDownLatch} {count : Int}

/-! ### The latch -/

/-- Each call of `count_down` takes one, as long as there is one to take, and nobody has
returned from `await` before there were enough of them. -/
structure Counted (count : Int) (l : CountDownLatch) : Prop where
  count_eq : l.count = count - min l.downs count.toNat
  returns : ∀ k ∈ l.returns, count ≤ (k : Int)

theorem Counted.countDown (h : Counted count l) : Counted count l.countDown := by
  have hcount := h.count_eq
  unfold CountDownLatch.countDown
  split
  · refine ⟨?_, h.returns⟩
    show l.count - 1 = count - min (l.downs + 1) count.toNat
    omega
  · refine ⟨?_, h.returns⟩
    show l.count = count - min (l.downs + 1) count.toNat
    omega

theorem Counted.await (h : Counted count l) (hopen : l.count ≤ 0) : Counted count l.await := by
  have hcount := h.count_eq
  refine ⟨hcount, ?_⟩
  intro k hk
  rcases List.mem_cons.mp hk with rfl | hbefore
  · omega
  · exact h.returns k hbefore

def waits : LatchOp → Bool
  | .await => true
  | .countDown => false

theorem silent : Silent (monitor τ) waits := by
  refine ⟨?_, ?_⟩
  · intro o l ho
    cases o with
    | countDown => rfl
    | await => cases ho
  · intro o l ho
    cases o with
    | countDown => cases ho
    | await => rfl

/-- Whoever waits is due when its guard holds, and the call that counts to zero notifies all. -/
theorem latch_announces : Announces (monitor τ) (monitor τ).guard := by
  refine ⟨fun _ _ h => h, ?_⟩
  intro t o o' l hfalse hdue
  cases o' with
  | countDown => cases hfalse
  | await =>
      have hpos : 0 < l.count := by simpa [monitor] using hfalse
      cases o with
      | countDown => exact if_pos hpos
      | await => cases hfalse.symm.trans hdue

end Fields

variable {τ : Type} [DecidableEq τ] [Fintype τ] {count : Int}
  {s s' : State τ CountDownLatch LatchOp}

theorem counted_of_reachable (h : (latchSystem τ count).Reachable s) : Counted count s.shared := by
  have hinit : Counted count { count := count } := by
    refine ⟨?_, ?_⟩
    · show count = count - min (0 : Nat) count.toNat
      omega
    · intro k hk
      cases hk
  refine shared_invariant hinit (fun _ u => u.elim) ?_ (fun u => u.elim) h
  intro t o l hguard hl
  cases o with
  | countDown => exact hl.countDown
  | await => exact hl.await (of_decide_eq_true hguard)

/-- Once there have been enough calls of `count_down`, nobody sleeps. -/
theorem noneAsleep_of_open (h : (latchSystem τ count).Reachable s)
    (hopen : count ≤ s.shared.downs) : s.NoneAsleep := by
  have hcount := (counted_of_reachable h).count_eq
  have hblocking := blocking_of_reachable silent h
  have hunstored : ((latchSystem τ count).restrict Unstored).Reachable s := by
    refine h.restricted ?_
    intro s x s' _
    cases x with
    | store t u => exact u.elim
    | call | acquire | test | park | run | wake | signal => trivial
  have hrested : Rested (monitor τ).guard s :=
    no_one_oversleeps latch_announces (hunstored.weaken fun _ _ _ hx => hx.timely _)
  intro t
  cases hp : s.phase t with
  | asleep o =>
      cases o with
      | countDown => cases hblocking t _ (Or.inr hp)
      | await =>
          rcases hrested.asleep t .await hp with hfalse | ⟨t', ht'⟩
          · have hpos : 0 < s.shared.count := by simpa [monitor] using hfalse
            omega
          · exact absurd ht' (not_signalling hunstored t')
  | idle | entering | locked | granted | parking | awake | signalling => rfl

/-- **The latch opens in time.**  For any threads and any count, in every reachable state the
calls of `count_down` have been counted down to zero at most; whoever has returned from `await`
did so after `count` of them; once there have been `count`, nobody sleeps.  The calls under way
take a bounded number of steps, and when none of them can take another one, every thread is
outside, or sleeps in `await` while calls of `count_down` are missing. -/
theorem opens_in_time (h : (latchSystem τ count).Reachable s) {l : List (Action τ LatchOp Empty)}
    (hl : ∀ x ∈ l, x.internal = true)
    (hrun : System.execute (step (monitor τ)) (fun _ _ _ => true) s l = some s') :
    Counted count s.shared ∧
      (count ≤ s.shared.downs → s.NoneAsleep) ∧
      l.length ≤ Fintype.card τ * (Fintype.card τ * 3 + 3) ∧
      (Stuck (monitor τ) s' →
        ∀ t, s'.phase t = .idle ∨ s'.phase t = .asleep .await ∧ s'.shared.downs < count) := by
  refine ⟨counted_of_reachable h, noneAsleep_of_open h, execute_bounded silent h hl hrun, ?_⟩
  intro hstuck t
  have hreach : (latchSystem τ count).Reachable s' := h.run (System.Run.executed hrun)
  have hsettled := hstuck.settled t
  cases hp : s'.phase t with
  | idle => exact Or.inl rfl
  | asleep o =>
      cases o with
      | countDown => cases blocking_of_reachable silent hreach t _ (Or.inr hp)
      | await =>
          refine Or.inr ⟨rfl, ?_⟩
          by_contra hopen
          exact (noneAsleep_of_open hreach (by omega)).ne_asleep t _ hp
  | entering | locked | granted | parking | awake | signalling =>
      rw [hp] at hsettled
      cases hsettled

/-- One thread waits for the other to count down from one. -/
theorem opens_in_time_of_two : ∃ s : State Bool CountDownLatch LatchOp,
    s.phase false = .awake .await ∧ s.shared.downs = 1 ∧ s.shared.count = 0 ∧ s.NoneAsleep := by
  obtain ⟨s, hs, hawake, hdowns, hsome⟩ := System.Reachable.of_execute
    { shared := { count := 1 }, phase := fun _ => .idle } (step (monitor Bool)) (fun _ _ _ => True)
    [.call false .await, .acquire false, .test false, .park false, .call true .countDown,
      .acquire true, .test true, .run true none]
    (fun s => s.phase false = .awake .await ∧ s.shared.downs = 1 ∧
      (System.execute (step (monitor Bool)) (fun _ _ _ => true) s
        [.acquire false, .test false, .run false none]).isSome = true)
    (by decide +kernel)
  obtain ⟨s', hs'⟩ := Option.isSome_iff_exists.mp hsome
  have hreach : (latchSystem Bool 1).Reachable s := hs.unrestrict
  obtain ⟨hcounted, hnone, -, -⟩ := opens_in_time hreach (by decide) hs'
  refine ⟨s, hawake, hdowns, ?_, hnone (by rw [hdowns]; rfl)⟩
  have hcount := hcounted.count_eq
  rw [hdowns] at hcount
  exact hcount

end CountDownLatch

end Raft
