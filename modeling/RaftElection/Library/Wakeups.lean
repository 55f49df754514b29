/-
Waiting for something to take, and coming to an end.

Some operations of a monitor wait for something that the others provide, and take one of it.
Each that is provided is notified to one thread.  The notified thread may find that another
one was faster, and then blocks again; but there are always as many threads on their way as
there is to take, unless nobody is asleep (`enough_coming`).

Where only the operations that never wait notify, the operations under way come to an end:
their steps are bounded in number (`execute_bounded`), and as long as there is one that is
neither asleep nor over, one of them can take a step (`Stuck.settled`).
-/
import Mathlib.Algebra.BigOperators.Group.Finset.Basic
import Mathlib.Algebra.Order.BigOperators.Group.Finset
import Mathlib.Data.Fintype.Card
import RaftElection.Library.Monitor

namespace Monitor

open Transition

variable {τ σ ω υ : Type*} {M : Spec τ σ ω υ} {s s' : State τ σ ω} {waits : ω → Bool}

/-! ### Sums over the threads -/

section Sums

variable [Fintype τ]

/-- The weights of the phases of all threads. -/
def total (f : Phase ω → Nat) (s : State τ σ ω) : Nat := ∑ t, f (s.phase t)

theorem total_le_of_woken {f : Phase ω → Nat} (hf : ∀ o, f (.asleep o) ≤ f (.awake o))
    (h : Woken s s') : total f s ≤ total f s' := by
  refine Finset.sum_le_sum fun t _ => ?_
  rcases h.phase t with heq | ⟨o, hasleep, hawake⟩
  · rw [heq]
  · rw [hasleep, hawake]
    exact hf o

theorem total_wakeAll_le {f : Phase ω → Nat} {k : Nat}
    (hf : ∀ t o, s.phase t = .asleep o → f (.awake o) ≤ f (.asleep o) + k) :
    total f s.wakeAll ≤ total f s + Fintype.card τ * k := by
  have hone : ∀ t, f ((s.phase t).woken) ≤ f (s.phase t) + k := by
    intro t
    cases hp : s.phase t with
    | asleep o => exact hf t o hp
    | idle | entering | locked | granted | parking | awake | signalling =>
        exact Nat.le_add_right _ k
  calc total f s.wakeAll ≤ ∑ t, (f (s.phase t) + k) := Finset.sum_le_sum fun t _ => hone t
    _ = total f s + Fintype.card τ * k := by
      rw [Finset.sum_add_distrib, Finset.sum_const_nat fun _ _ => rfl, Finset.card_univ, total]

variable [DecidableEq τ]

/-- One thread changes its phase. -/
theorem total_setPhase (f : Phase ω → Nat) (s : State τ σ ω) (t : τ) (p : Phase ω) :
    total f (s.setPhase t p) + f (s.phase t) = total f s + f p := by
  have hsplit : ∀ g : τ → Nat, ∑ t', g t' = g t + ∑ t' ∈ Finset.univ.erase t, g t' :=
    fun g => (Finset.add_sum_erase _ g (Finset.mem_univ t)).symm
  have hrest : ∑ t' ∈ Finset.univ.erase t, f ((s.setPhase t p).phase t')
      = ∑ t' ∈ Finset.univ.erase t, f (s.phase t') := by
    refine Finset.sum_congr rfl fun t' ht' => ?_
    rw [phase_setPhase, if_neg (Finset.ne_of_mem_erase ht')]
  rw [total, total, hsplit, hsplit fun t' => f (s.phase t'), hrest, phase_setPhase, if_pos rfl]
  omega

theorem total_setPhase_lt (f : Phase ω → Nat) (s : State τ σ ω) {t : τ} {p : Phase ω}
    (h : f p < f (s.phase t)) : total f (s.setPhase t p) < total f s := by
  have hsum := total_setPhase f s t p
  omega

end Sums

/-! ### Taking -/

theorem noneAsleep_of_asleep (h : ∀ t o, s'.phase t = .asleep o → ∃ o', s.phase t = .asleep o')
    (hnone : s.NoneAsleep) : s'.NoneAsleep := by
  intro t
  cases hp : s'.phase t with
  | asleep o =>
      obtain ⟨o', ho'⟩ := h t o hp
      exact absurd ho' (hnone.ne_asleep t o')
  | idle | entering | locked | granted | parking | awake | signalling => rfl

variable [DecidableEq τ] [Fintype τ]

/-- As long as `inv` holds, the operations that wait do so for something that is `avail`able,
and take of it; what the others provide at once is one at most, and that they notify. -/
structure Takes (M : Spec τ σ ω υ) (waits : ω → Bool) (avail : σ → Nat) (inv : σ → Prop) :
    Prop where
  keeps : ∀ t o σ, inv σ → inv (M.body t o σ)
  guard_waits : ∀ o σ, inv σ → waits o = true → M.guard o σ = decide (0 < avail σ)
  proceeds : ∀ o σ, waits o = false → M.guard o σ = true
  takes : ∀ t o σ, inv σ → waits o = true → 0 < avail σ → avail (M.body t o σ) < avail σ
  provides : ∀ t o σ, inv σ → waits o = false → avail (M.body t o σ) ≤ avail σ ∨
    avail (M.body t o σ) ≤ avail σ + 1 ∧ M.notify o σ = .one

/-- A thread that is on its way to take something. -/
def coming (waits : ω → Bool) : Phase ω → Nat
  | .entering o | .locked o | .granted o | .awake o => if waits o then 1 else 0
  | .idle | .parking _ | .asleep _ | .signalling => 0

/-- Nothing is stored without the mutex. -/
def Unstored (_ : State τ σ ω) (x : Action τ ω υ) (_ : State τ σ ω) : Prop :=
  match x with
  | .store .. => False
  | _ => True

instance (s : State τ σ ω) (x : Action τ ω υ) (s' : State τ σ ω) : Decidable (Unstored s x s') := by
  unfold Unstored
  cases x <;> infer_instance

omit [DecidableEq τ] [Fintype τ] in
theorem unstored_of_internal {x : Action τ ω υ} (hx : x.internal = true) (s s' : State τ σ ω) :
    Unstored s x s' := by
  cases x with
  | store => cases hx
  | call | acquire | test | park | run | wake | signal => trivial

omit [DecidableEq τ] [Fintype τ] in
/-- What is not stored is not stored at the wrong time. -/
theorem Unstored.timely {x : Action τ ω υ} (h : Unstored s x s') (due : ω → σ → Bool) :
    Timely M due s x s' := by
  cases x with
  | store => exact h.elim
  | call | acquire | test | park | run | wake | signal => trivial

/-- Where nothing is stored, nobody has to notify outside the mutex. -/
theorem not_signalling {init : σ} (h : ((system M init).restrict Unstored).Reachable s) (t : τ) :
    s.phase t ≠ .signalling := by
  refine h.invariant (I := fun s => ∀ t, s.phase t ≠ .signalling) ?_ ?_ t
  · intro s₀ hs₀ t ht
    rw [hs₀] at ht
    cases ht
  · rintro s x s' - hs ⟨hstep, hx⟩ t ht
    rcases (step_change hstep).signals ht with hold | ⟨u, rfl⟩
    · exact hs t hold
    · exact hx

/-- Enough threads are on their way, or nobody sleeps. -/
structure Enough (waits : ω → Bool) (avail : σ → Nat) (inv : σ → Prop) (s : State τ σ ω) :
    Prop where
  exclusive : Exclusive s
  inv : inv s.shared
  parking : ∀ t o, s.phase t = .parking o → waits o = true ∧ avail s.shared = 0
  asleep : ∀ t o, s.phase t = .asleep o → waits o = true
  granted : ∀ t o, s.phase t = .granted o → waits o = true → 0 < avail s.shared
  enough : ¬ s.NoneAsleep → avail s.shared ≤ total (coming waits) s

section Enough

variable {avail : σ → Nat} {inv : σ → Prop} {t : τ} {o : ω}

/-- A thread that goes on without the state being changed. -/
theorem Enough.setPhase {p : Phase ω} (h : Enough waits avail inv s)
    (hp : ∀ o, p ≠ .asleep o) (hle : coming waits (s.phase t) ≤ coming waits p) :
    ¬ (s.setPhase t p).NoneAsleep → avail s.shared ≤ total (coming waits) (s.setPhase t p) := by
  intro hsome
  have hold : ¬ s.NoneAsleep := by
    refine fun hnone => hsome (noneAsleep_of_asleep ?_ hnone)
    intro t' o' ht'
    rcases setPhase_cases ht' with ⟨-, heq⟩ | ⟨-, hbefore⟩
    · exact absurd heq (hp o')
    · exact ⟨o', hbefore⟩
  have hsum := total_setPhase (coming waits) s t p
  have henough := h.enough hold
  omega

/-- A body that takes, or provides. -/
theorem Enough.ran {w : Option τ} (hM : Takes M waits avail inv) (h : Enough waits avail inv s)
    (ht : s.phase t = .granted o)
    (hnotify : (bodyState M s t o).notified (M.notify o s.shared) w = some s') :
    ¬ s'.NoneAsleep → avail s'.shared ≤ total (coming waits) s' := by
  intro hsome
  have hwoken := notified_woken hnotify
  have hbefore : ¬ (bodyState M s t o).NoneAsleep :=
    fun hnone => hsome (noneAsleep_of_asleep (fun _ o' ht' => ⟨o', hwoken.asleep ht'⟩) hnone)
  have hold : ¬ s.NoneAsleep := by
    refine fun hnone => hbefore (noneAsleep_of_asleep ?_ hnone)
    exact fun t' o' ht' => ⟨o', phase_of_setPhase_idle (s := s) ht' (by simp)⟩
  have henough := h.enough hold
  have hsum : total (coming waits) (bodyState M s t o) + coming waits (.granted o)
      = total (coming waits) s + 0 := by
    rw [← ht]
    exact total_setPhase (coming waits) s t .idle
  have hmore : total (coming waits) (bodyState M s t o) ≤ total (coming waits) s' :=
    total_le_of_woken (fun _ => Nat.zero_le _) hwoken
  rw [hwoken.shared]
  change avail (M.body t o s.shared) ≤ _
  cases hwaits : waits o with
  | true =>
      have htaken := hM.takes t o _ h.inv hwaits (h.granted t o ht hwaits)
      simp only [coming, hwaits, if_true] at hsum
      omega
  | false =>
      simp only [coming, hwaits] at hsum
      rcases hM.provides t o s.shared h.inv hwaits with hle | ⟨hle, hone⟩
      · simp at hsum
        omega
      · rw [hone] at hnotify
        rcases notified_one hnotify with ⟨hnone, -⟩ | ⟨t', o', hasleep, rfl⟩
        · exact absurd hnone hbefore
        · have hwake := total_setPhase (coming waits) (bodyState M s t o) t' (.awake o')
          have hwaits' : waits o' = true :=
            h.asleep t' o' (phase_of_setPhase_idle (s := s) hasleep (by simp))
          rw [hasleep] at hwake
          simp only [coming, hwaits', if_true] at hwake
          simp at hsum
          omega

theorem Enough.step {x : Action τ ω υ} (hM : Takes M waits avail inv) (h : Enough waits avail inv s)
    (hchange : Change M s x s') (hx : Unstored s x s') : Enough waits avail inv s' := by
  have hexclusive := h.exclusive.step hchange
  have hparking : ∀ t o, s'.phase t = .parking o → waits o = true ∧ avail s'.shared = 0 := by
    intro t o ht
    rcases hchange.tested (b := false) h.exclusive ht with ⟨hold, hshared⟩ | ⟨hguard, hshared⟩
    · rcases hshared with hsame | ⟨t', u, rfl, -⟩
      · rw [hsame]
        exact h.parking t o hold
      · exact hx.elim
    · rw [hshared]
      cases hwaits : waits o with
      | true =>
          rw [hM.guard_waits o _ h.inv hwaits] at hguard
          exact ⟨rfl, by simpa using hguard⟩
      | false => cases (hM.proceeds o _ hwaits).symm.trans hguard
  refine ⟨hexclusive, ?_, hparking, ?_, ?_, ?_⟩
  · cases hchange with
    | called | acquired | passed | failed | parked | woke | signalled => exact h.inv
    | ran t w o s' ht hnotify =>
        rw [(notified_woken hnotify).shared]
        exact hM.keeps t o _ h.inv
    | stored t u ht => exact hx.elim
  · intro t o ht
    rcases hchange.slept ht with hold | ⟨hpark, -, -⟩
    · exact h.asleep t o hold
    · exact (h.parking t o hpark).1
  · intro t o ht hwaits
    rcases hchange.tested (b := true) h.exclusive ht with ⟨hold, hshared⟩ | ⟨hguard, hshared⟩
    · rcases hshared with hsame | ⟨t', u, rfl, -⟩
      · rw [hsame]
        exact h.granted t o hold hwaits
      · exact hx.elim
    · rw [hshared]
      rw [hM.guard_waits o _ h.inv hwaits] at hguard
      simpa using hguard
  · cases hchange with
    | called t o ht => exact h.setPhase (by simp) (by simp [ht, coming])
    | acquired t o hfree ht =>
        refine h.setPhase (by simp) ?_
        rcases ht with ht | ht <;> simp [ht, coming]
    | passed t o ht hguard => exact h.setPhase (by simp) (by simp [ht, coming])
    | failed t o ht hguard =>
        have hnone := (hparking t o (by rw [phase_setPhase, if_pos rfl])).2
        intro _
        rw [hnone]
        exact Nat.zero_le _
    | parked t o ht =>
        intro _
        show avail s.shared ≤ _
        rw [(h.parking t o ht).2]
        exact Nat.zero_le _
    | ran t w o s' ht hnotify => exact h.ran hM ht hnotify
    | woke t o ht => exact h.setPhase (by simp) (by simp [ht, coming])
    | stored t u ht => exact hx.elim
    | signalled t ht => exact fun hsome => absurd (noneAsleep_wakeAll _) hsome

end Enough

/-- **There are as many threads on their way as there is to take**, unless nobody sleeps. -/
theorem enough_coming {init : σ} {avail : σ → Nat} {inv : σ → Prop}
    (hM : Takes M waits avail inv) (hinit : inv init)
    (h : ((system M init).restrict Unstored).Reachable s) : Enough waits avail inv s := by
  refine h.invariant ?_ fun s x s' _ hs hmove => hs.step hM (step_change hmove.1) hmove.2
  intro s₀ hs₀
  rw [hs₀]
  refine ⟨?_, hinit, ?_, ?_, ?_, ?_⟩
  · intro t t' ht
    cases ht
  · intro t o ht
    cases ht
  · intro t o ht
    cases ht
  · intro t o ht
    cases ht
  · exact fun hsome => absurd (fun _ => rfl) hsome

/-! ### Coming to an end -/

/-- The operations that wait notify nobody. -/
structure Silent (M : Spec τ σ ω υ) (waits : ω → Bool) : Prop where
  proceeds : ∀ o σ, waits o = false → M.guard o σ = true
  silent : ∀ o σ, waits o = true → M.notify o σ = .none

/-- The steps a thread has before it, with those of the `n` threads it may wake. -/
def work (waits : ω → Bool) (n : Nat) : Phase ω → Nat
  | .idle | .asleep _ => 0
  | .parking _ => 1
  | .granted o => if waits o then 1 else n * 3 + 1
  | .locked o => if waits o then 2 else n * 3 + 2
  | .entering o | .awake o => if waits o then 3 else n * 3 + 3
  | .signalling => n * 3 + 1

/-- Only operations that wait block. -/
def Blocking (waits : ω → Bool) (s : State τ σ ω) : Prop :=
  ∀ t o, s.phase t = .parking o ∨ s.phase t = .asleep o → waits o = true

omit [Fintype τ] in
theorem Blocking.setPhase_idle (h : Blocking waits s) (t : τ) :
    Blocking waits (s.setPhase t .idle) := by
  intro t' o ht'
  refine h t' o (ht'.imp ?_ ?_)
  · exact fun hparking => phase_of_setPhase_idle hparking (by simp)
  · exact fun hasleep => phase_of_setPhase_idle hasleep (by simp)

theorem Blocking.step {x : Action τ ω υ} (hM : Silent M waits) (hex : Exclusive s)
    (h : Blocking waits s) (hchange : Change M s x s') : Blocking waits s' := by
  rintro t o (ht | ht)
  · rcases hchange.tested (b := false) hex ht with ⟨hold, -⟩ | ⟨hguard, -⟩
    · exact h t o (Or.inl hold)
    · cases hwaits : waits o with
      | true => rfl
      | false => cases (hM.proceeds o _ hwaits).symm.trans hguard
  · rcases hchange.slept ht with hold | ⟨hpark, -, -⟩
    · exact h t o (Or.inr hold)
    · exact h t o (Or.inl hpark)

theorem blocking_of_reachable {init : σ} (hM : Silent M waits)
    (h : (system M init).Reachable s) : Blocking waits s := by
  refine h.invariant ?_ fun s x s' hreach hs hstep =>
    hs.step hM (exclusive_of_reachable hreach) (step_change hstep)
  intro s₀ hs₀ t o ht
  rw [hs₀] at ht
  rcases ht with ht | ht <;> cases ht

omit [DecidableEq τ] in
/-- Whoever is woken has three steps before it. -/
theorem total_wakeAll_work (hblocking : Blocking waits s) (n : Nat) :
    total (work waits n) s.wakeAll ≤ total (work waits n) s + Fintype.card τ * 3 := by
  refine total_wakeAll_le fun t o ht => ?_
  simp [work, hblocking t o (Or.inr ht)]

theorem total_notified_work {n : Notify} {w : Option τ} (hblocking : Blocking waits s)
    (h : s.notified n w = some s') (hn : n ≠ .none) (k : Nat) :
    total (work waits k) s' ≤ total (work waits k) s + Fintype.card τ * 3 := by
  cases n with
  | none => exact absurd rfl hn
  | all =>
      obtain rfl := Option.some.inj h
      exact total_wakeAll_work hblocking k
  | one =>
      rcases notified_one h with ⟨-, rfl⟩ | ⟨t, o, ht, rfl⟩
      · exact Nat.le_add_right _ _
      · have hsum := total_setPhase (work waits k) s t (.awake o)
        rw [ht] at hsum
        simp only [work, hblocking t o (Or.inr ht), if_true] at hsum
        have hpos : 0 < Fintype.card τ := Fintype.card_pos_iff.mpr ⟨t⟩
        omega

/-- **Every step of an operation under way is one step less.** -/
theorem work_lt {x : Action τ ω υ} (hM : Silent M waits) (hblocking : Blocking waits s)
    (hx : x.internal = true) (hchange : Change M s x s') :
    total (work waits (Fintype.card τ)) s' < total (work waits (Fintype.card τ)) s := by
  generalize hk : Fintype.card τ = k
  cases hchange with
  | called | woke | stored => cases hx
  | acquired t o hfree ht =>
      refine total_setPhase_lt _ s ?_
      rcases ht with ht | ht
      all_goals
        rw [ht]
        simp only [work]
        split <;> omega
  | passed t o ht | failed t o ht =>
      refine total_setPhase_lt _ s ?_
      rw [ht]
      simp only [work]
      split <;> omega
  | parked t o ht =>
      refine total_setPhase_lt _ s ?_
      rw [ht]
      simp only [work]
      omega
  | ran t w o s' ht hnotify =>
      have hsum : total (work waits k) (bodyState M s t o) + work waits k (.granted o)
          = total (work waits k) s + 0 := by
        rw [← ht]
        exact total_setPhase (work waits k) s t .idle
      have hbody : Blocking waits (bodyState M s t o) := hblocking.setPhase_idle t
      cases hwaits : waits o with
      | true =>
          rw [hM.silent o _ hwaits] at hnotify
          obtain rfl := Option.some.inj hnotify
          simp only [work, hwaits, if_true] at hsum
          omega
      | false =>
          simp only [work, hwaits] at hsum
          by_cases hnone : M.notify o s.shared = .none
          · rw [hnone] at hnotify
            obtain rfl := Option.some.inj hnotify
            simp at hsum
            omega
          · have hmore := total_notified_work hbody hnotify hnone k
            simp at hsum
            omega
  | signalled t ht =>
      have hsum := total_setPhase (work waits k) s t .idle
      rw [ht] at hsum
      simp only [work] at hsum
      have hmore := total_wakeAll_work (hblocking.setPhase_idle t) k
      omega

omit [DecidableEq τ] in
theorem total_work_le (s : State τ σ ω) :
    total (work waits (Fintype.card τ)) s ≤ Fintype.card τ * (Fintype.card τ * 3 + 3) := by
  have hone : ∀ p : Phase ω,
      work waits (Fintype.card τ) p ≤ Fintype.card τ * 3 + 3 := by
    intro p
    cases p with
    | idle | asleep => exact Nat.zero_le _
    | parking | signalling => simp only [work]; omega
    | locked | granted | entering | awake => simp only [work]; split <;> omega
  calc total (work waits (Fintype.card τ)) s
      ≤ ∑ _t : τ, (Fintype.card τ * 3 + 3) := Finset.sum_le_sum fun t _ => hone (s.phase t)
    _ = Fintype.card τ * (Fintype.card τ * 3 + 3) := by
      rw [Finset.sum_const_nat fun _ _ => rfl, Finset.card_univ]

/-- The operations under way have at most `work` steps before them, however the threads are
scheduled. -/
theorem execute_work (hM : Silent M waits) {init : σ} :
    ∀ (l : List (Action τ ω υ)) {s s' : State τ σ ω}, (system M init).Reachable s →
      (∀ x ∈ l, x.internal = true) →
      System.execute (step M) (fun _ _ _ => true) s l = some s' →
      l.length + total (work waits (Fintype.card τ)) s'
        ≤ total (work waits (Fintype.card τ)) s := by
  intro l
  induction l with
  | nil =>
      intro s s' _ _ h
      obtain rfl := Option.some.inj h
      simp
  | cons x rest ih =>
      intro s s' hreach hl h
      simp only [System.execute] at h
      split at h
      · cases h
      · rename_i mid hmid
        rw [if_pos trivial] at h
        have hrest := ih (hreach.tail hmid) (fun y hy => hl y (List.mem_cons_of_mem _ hy)) h
        have hfirst := work_lt hM (blocking_of_reachable hM hreach) (hl x List.mem_cons_self)
          (step_change hmid)
        rw [List.length_cons]
        omega

/-- **The operations under way come to an end.** -/
theorem execute_bounded (hM : Silent M waits) {init : σ} (h : (system M init).Reachable s)
    {l : List (Action τ ω υ)} (hl : ∀ x ∈ l, x.internal = true)
    (hrun : System.execute (step M) (fun _ _ _ => true) s l = some s') :
    l.length ≤ Fintype.card τ * (Fintype.card τ * 3 + 3) := by
  have hbound := execute_work hM l h hl hrun
  have hwork : total (work waits (Fintype.card τ)) s ≤ _ := total_work_le s
  omega

/-- Somebody can be notified, or nobody has to be. -/
theorem exists_notified (s : State τ σ ω) (n : Notify) : ∃ w s', s.notified n w = some s' := by
  cases n with
  | none => exact ⟨none, s, rfl⟩
  | all => exact ⟨none, s.wakeAll, rfl⟩
  | one =>
      by_cases hnone : s.NoneAsleep
      · exact ⟨none, s, if_pos hnone⟩
      · unfold State.NoneAsleep at hnone
        push Not at hnone
        obtain ⟨t, ht⟩ := hnone
        cases hp : s.phase t with
        | asleep o => exact ⟨some t, s.setPhase t (.awake o), by simp [State.notified, hp]⟩
        | idle | entering | locked | granted | parking | awake | signalling =>
            exact absurd rfl (hp ▸ ht)

/-- No operation under way can take a step. -/
def Stuck (M : Spec τ σ ω υ) (s : State τ σ ω) : Prop :=
  ∀ x : Action τ ω υ, x.internal = true → step M s x = none

/-- **Nothing gets stuck**: where no operation under way can take a step, every thread is
outside or asleep. -/
theorem Stuck.settled (h : Stuck M s) : s.Settled := by
  have hout : ∀ t, (s.phase t).holds = true ∨ s.phase t = .signalling → False := by
    intro t ht
    cases hp : s.phase t with
    | locked o => simpa [step, hp] using h (.test t) rfl
    | parking o => simpa [step, hp] using h (.park t) rfl
    | signalling => simpa [step, hp] using h (.signal t) rfl
    | granted o =>
        obtain ⟨w, s', hs'⟩ := exists_notified (bodyState M s t o) (M.notify o s.shared)
        have hrun : step M s (.run t w) = some s' := by
          simp only [step, hp]
          exact hs'
        exact Option.some_ne_none s' (hrun.symm.trans (h (.run t w) rfl))
    | idle | entering | asleep | awake => simp [hp, Phase.holds] at ht
  have hfree : s.Free := by
    intro t
    by_contra hholds
    exact hout t (Or.inl (by simpa using hholds))
  intro t
  cases hp : s.phase t with
  | idle | asleep => rfl
  | locked | granted | parking => exact (hout t (Or.inl (by rw [hp]; rfl))).elim
  | signalling => exact (hout t (Or.inr hp)).elim
  | entering o | awake o => simpa [step, hp, hfree] using h (.acquire t) rfl

end Monitor
