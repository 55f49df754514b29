/-
Monitors: a mutex, one condition variable and operations on a state that both protect.

An operation takes the mutex, waits until its guard holds, runs its body, notifies, and gives
the mutex up.  The guard is tested and the body run under the mutex, but blocking is a step of
its own, as it is in a condition variable, and a thread may be woken without having been
notified.  Some state may also be stored to without the mutex; such a store is followed by a
notification of all, and what can happen in between is up to the other threads.

What every body preserves holds of the state throughout (`shared_invariant`), and where bodies
that make a guard true notify all, nobody sleeps while its guard holds (`no_one_oversleeps`).
-/
import Mathlib.Data.Fintype.Basic
import Mathlib.Logic.Function.Basic
import RaftElection.Library.Transition

namespace Monitor

open Transition

variable {τ σ ω υ : Type*}

inductive Notify where
  | none
  | one
  | all
  deriving DecidableEq

/-- Operations `ω` and stores `υ` on a state `σ`. -/
structure Spec (τ σ ω υ : Type*) where
  guard : ω → σ → Bool
  body : τ → ω → σ → σ
  /-- What the operation notifies, in the state its body finds. -/
  notify : ω → σ → Notify
  store : υ → σ → σ

/-- Where a thread stands. -/
inductive Phase (ω : Type*) where
  | idle
  /-- About to take the mutex. -/
  | entering (o : ω)
  /-- It holds the mutex and is about to test its guard. -/
  | locked (o : ω)
  /-- It holds the mutex and found its guard true. -/
  | granted (o : ω)
  /-- It holds the mutex, found its guard false and has not blocked yet. -/
  | parking (o : ω)
  | asleep (o : ω)
  /-- Woken, and about to take the mutex again. -/
  | awake (o : ω)
  /-- It has stored without the mutex, and has to notify all. -/
  | signalling
  deriving DecidableEq

namespace Phase

def holds : Phase ω → Bool
  | locked _ | granted _ | parking _ => true
  | idle | entering _ | asleep _ | awake _ | signalling => false

def isAsleep : Phase ω → Bool
  | asleep _ => true
  | idle | entering _ | locked _ | granted _ | parking _ | awake _ | signalling => false

def woken : Phase ω → Phase ω
  | asleep o => awake o
  | p => p

/-- Outside, or asleep. -/
def settled : Phase ω → Bool
  | idle | asleep _ => true
  | entering _ | locked _ | granted _ | parking _ | awake _ | signalling => false

end Phase

structure State (τ σ ω : Type*) where
  shared : σ
  phase : τ → Phase ω

inductive Action (τ ω υ : Type*) where
  | call (t : τ) (o : ω)
  | acquire (t : τ)
  | test (t : τ)
  | park (t : τ)
  /-- The body; `waiter` is the thread that is notified, where one is. -/
  | run (t : τ) (waiter : Option τ)
  /-- A thread wakes up that nobody has notified. -/
  | wake (t : τ)
  | store (t : τ) (u : υ)
  | signal (t : τ)
  deriving DecidableEq

namespace Action

/-- A step of an operation under way. -/
def internal : Action τ ω υ → Bool
  | acquire _ | test _ | park _ | run .. | signal _ => true
  | call .. | wake _ | store .. => false

end Action

namespace State

variable (s : State τ σ ω)

def Free : Prop := ∀ t, (s.phase t).holds = false

/-- Nobody sleeps. -/
def NoneAsleep : Prop := ∀ t, (s.phase t).isAsleep = false

/-- Nobody is on the way in or out. -/
def Settled : Prop := ∀ t, (s.phase t).settled = true

instance [Fintype τ] : Decidable s.Free := inferInstanceAs (Decidable (∀ _, _))

instance [Fintype τ] : Decidable s.NoneAsleep := inferInstanceAs (Decidable (∀ _, _))

instance [Fintype τ] : Decidable s.Settled := inferInstanceAs (Decidable (∀ _, _))

def wakeAll : State τ σ ω := { s with phase := fun t => (s.phase t).woken }

variable [DecidableEq τ]

def setPhase (t : τ) (p : Phase ω) : State τ σ ω := { s with phase := Function.update s.phase t p }

/-- A notification; one of one thread picks any that sleeps, if there is one. -/
def notified [Fintype τ] : Notify → Option τ → Option (State τ σ ω)
  | .none, _ => some s
  | .all, _ => some s.wakeAll
  | .one, none => if s.NoneAsleep then some s else none
  | .one, some t =>
      match s.phase t with
      | .asleep o => some (s.setPhase t (.awake o))
      | _ => none

end State

def step [DecidableEq τ] [Fintype τ] (M : Spec τ σ ω υ) (s : State τ σ ω) :
    Action τ ω υ → Option (State τ σ ω)
  | .call t o =>
      match s.phase t with
      | .idle => some (s.setPhase t (.entering o))
      | _ => none
  | .acquire t =>
      if s.Free then
        match s.phase t with
        | .entering o | .awake o => some (s.setPhase t (.locked o))
        | _ => none
      else none
  | .test t =>
      match s.phase t with
      | .locked o => some (s.setPhase t (if M.guard o s.shared then .granted o else .parking o))
      | _ => none
  | .park t =>
      match s.phase t with
      | .parking o => some (s.setPhase t (.asleep o))
      | _ => none
  | .run t waiter =>
      match s.phase t with
      | .granted o =>
          { s.setPhase t .idle with shared := M.body t o s.shared }.notified
            (M.notify o s.shared) waiter
      | _ => none
  | .wake t =>
      match s.phase t with
      | .asleep o => some (s.setPhase t (.awake o))
      | _ => none
  | .store t u =>
      match s.phase t with
      | .idle => some { s.setPhase t .signalling with shared := M.store u s.shared }
      | _ => none
  | .signal t =>
      match s.phase t with
      | .signalling => some (s.setPhase t .idle).wakeAll
      | _ => none

/-- Any number of threads that use a monitor, which begins in `init`. -/
def system [DecidableEq τ] [Fintype τ] (M : Spec τ σ ω υ) (init : σ) :
    System (State τ σ ω) (Action τ ω υ) :=
  .ofFun { shared := init, phase := fun _ => .idle } (step M)

variable {M : Spec τ σ ω υ} {s s' : State τ σ ω}

/-! ### Waking up -/

/-- Threads may have been woken, and nothing else has happened. -/
structure Woken (s s' : State τ σ ω) : Prop where
  shared : s'.shared = s.shared
  phase : ∀ t, s'.phase t = s.phase t ∨ ∃ o, s.phase t = .asleep o ∧ s'.phase t = .awake o

theorem Woken.wakeAll (s : State τ σ ω) : Woken s s.wakeAll := by
  refine ⟨rfl, ?_⟩
  intro t
  show (s.phase t).woken = s.phase t ∨ ∃ o, s.phase t = .asleep o ∧ (s.phase t).woken = .awake o
  cases s.phase t with
  | asleep o => exact Or.inr ⟨o, rfl, rfl⟩
  | idle | entering | locked | granted | parking | awake | signalling => exact Or.inl rfl

theorem State.NoneAsleep.ne_asleep (h : s.NoneAsleep) (t : τ) (o : ω) : s.phase t ≠ .asleep o := by
  intro ht
  have hawake := h t
  rw [ht] at hawake
  cases hawake

theorem noneAsleep_wakeAll (s : State τ σ ω) : s.wakeAll.NoneAsleep := by
  intro t
  show (s.phase t).woken.isAsleep = false
  cases s.phase t <;> rfl

theorem Woken.asleep {t : τ} {o : ω} (h : Woken s s') (ht : s'.phase t = .asleep o) :
    s.phase t = .asleep o := by
  rcases h.phase t with heq | ⟨o', -, hawake⟩
  · rw [← heq]
    exact ht
  · cases ht.symm.trans hawake

/-- A thread that does not wake up is where it was. -/
theorem Woken.eq {t : τ} {q : Phase ω} (h : Woken s s') (ht : s'.phase t = q)
    (hq : ∀ o, q ≠ .awake o) : s.phase t = q := by
  rcases h.phase t with heq | ⟨o, -, hawake⟩
  · rw [← heq]
    exact ht
  · exact absurd (ht.symm.trans hawake) (hq o)

/-! ### The mutex -/

/-- At most one thread holds the mutex. -/
def Exclusive (s : State τ σ ω) : Prop :=
  ∀ t t', (s.phase t).holds = true → (s.phase t').holds = true → t = t'

theorem Exclusive.mono (h : Exclusive s)
    (hphase : ∀ t, (s'.phase t).holds = true → (s.phase t).holds = true) : Exclusive s' :=
  fun t t' ht ht' => h t t' (hphase t ht) (hphase t' ht')

theorem Exclusive.woken (h : Exclusive s) (hw : Woken s s') : Exclusive s' := by
  refine h.mono ?_
  intro t ht
  rcases hw.phase t with heq | ⟨o, -, hawake⟩
  · rw [← heq]
    exact ht
  · rw [hawake] at ht
    cases ht

/-! ### What a step does -/

variable [DecidableEq τ]

theorem phase_setPhase (s : State τ σ ω) (t : τ) (p : Phase ω) (t' : τ) :
    (s.setPhase t p).phase t' = if t' = t then p else s.phase t' :=
  Function.update_apply ..

/-- Where a thread that moves is found in another phase, it is the one that moved. -/
theorem setPhase_cases {t t' : τ} {p q : Phase ω} (h : (s.setPhase t p).phase t' = q) :
    t' = t ∧ p = q ∨ t' ≠ t ∧ s.phase t' = q := by
  rw [phase_setPhase] at h
  by_cases ht : t' = t
  · rw [if_pos ht] at h
    exact Or.inl ⟨ht, h⟩
  · rw [if_neg ht] at h
    exact Or.inr ⟨ht, h⟩

/-- Where a thread goes out, the others are where they were. -/
theorem phase_of_setPhase_idle {t t' : τ} {p : Phase ω} (h : (s.setPhase t .idle).phase t' = p)
    (hp : p ≠ .idle) : s.phase t' = p := by
  rcases setPhase_cases h with ⟨-, rfl⟩ | ⟨-, hold⟩
  · exact absurd rfl hp
  · exact hold

/-- A move of another thread leaves a notification that is under way alone. -/
theorem signalling_setPhase {t t' : τ} {p : Phase ω} (h : s.phase t' = .signalling)
    (ht : s.phase t ≠ .signalling) : (s.setPhase t p).phase t' = .signalling := by
  rw [phase_setPhase, if_neg]
  · exact h
  · rintro rfl
    exact ht h

theorem Woken.setPhase {t : τ} {o : ω} (h : s.phase t = .asleep o) :
    Woken s (s.setPhase t (.awake o)) := by
  refine ⟨rfl, ?_⟩
  intro t'
  rw [phase_setPhase]
  by_cases ht : t' = t
  · subst ht
    exact Or.inr ⟨o, h, if_pos rfl⟩
  · exact Or.inl (if_neg ht)

/-- A thread that moves holds the mutex only if it did. -/
theorem Exclusive.setPhase {t : τ} {p : Phase ω} (h : Exclusive s)
    (hp : p.holds = true → (s.phase t).holds = true) : Exclusive (s.setPhase t p) := by
  refine h.mono ?_
  intro t' ht'
  rw [phase_setPhase] at ht'
  by_cases heq : t' = t
  · rw [if_pos heq] at ht'
    rw [heq]
    exact hp ht'
  · rw [if_neg heq] at ht'
    exact ht'

/-- The state in the middle of a body, before anybody is notified. -/
def bodyState (M : Spec τ σ ω υ) (s : State τ σ ω) (t : τ) (o : ω) : State τ σ ω :=
  { s.setPhase t .idle with shared := M.body t o s.shared }

variable [Fintype τ]

theorem notified_one {w : Option τ} (h : s.notified .one w = some s') :
    s.NoneAsleep ∧ s' = s ∨ ∃ t o, s.phase t = .asleep o ∧ s' = s.setPhase t (.awake o) := by
  cases w with
  | none =>
      obtain ⟨hnone, h⟩ := Option.ite_none_right_eq_some.mp h
      exact Or.inl ⟨hnone, (Option.some.inj h).symm⟩
  | some t =>
      simp only [State.notified] at h
      split at h
      · rename_i o ho
        exact Or.inr ⟨t, o, ho, (Option.some.inj h).symm⟩
      · cases h

theorem notified_woken {n : Notify} {w : Option τ} (h : s.notified n w = some s') :
    Woken s s' := by
  cases n with
  | none =>
      obtain rfl := Option.some.inj h
      exact ⟨rfl, fun _ => Or.inl rfl⟩
  | all =>
      obtain rfl := Option.some.inj h
      exact Woken.wakeAll s
  | one =>
      rcases notified_one h with ⟨-, rfl⟩ | ⟨t, o, ho, rfl⟩
      · exact ⟨rfl, fun _ => Or.inl rfl⟩
      · exact Woken.setPhase ho

/-- What a step does. -/
inductive Change (M : Spec τ σ ω υ) (s : State τ σ ω) : Action τ ω υ → State τ σ ω → Prop
  | called (t : τ) (o : ω) (h : s.phase t = .idle) :
      Change M s (.call t o) (s.setPhase t (.entering o))
  | acquired (t : τ) (o : ω) (hfree : s.Free)
      (h : s.phase t = .entering o ∨ s.phase t = .awake o) :
      Change M s (.acquire t) (s.setPhase t (.locked o))
  | passed (t : τ) (o : ω) (h : s.phase t = .locked o) (hguard : M.guard o s.shared = true) :
      Change M s (.test t) (s.setPhase t (.granted o))
  | failed (t : τ) (o : ω) (h : s.phase t = .locked o) (hguard : M.guard o s.shared = false) :
      Change M s (.test t) (s.setPhase t (.parking o))
  | parked (t : τ) (o : ω) (h : s.phase t = .parking o) :
      Change M s (.park t) (s.setPhase t (.asleep o))
  | ran (t : τ) (w : Option τ) (o : ω) (s' : State τ σ ω) (h : s.phase t = .granted o)
      (hnotify : (bodyState M s t o).notified (M.notify o s.shared) w = some s') :
      Change M s (.run t w) s'
  | woke (t : τ) (o : ω) (h : s.phase t = .asleep o) :
      Change M s (.wake t) (s.setPhase t (.awake o))
  | stored (t : τ) (u : υ) (h : s.phase t = .idle) :
      Change M s (.store t u) { s.setPhase t .signalling with shared := M.store u s.shared }
  | signalled (t : τ) (h : s.phase t = .signalling) :
      Change M s (.signal t) (s.setPhase t .idle).wakeAll

theorem step_change {x : Action τ ω υ} (hstep : step M s x = some s') : Change M s x s' := by
  cases x with
  | call t o =>
      simp only [step] at hstep
      split at hstep
      · obtain rfl := Option.some.inj hstep
        exact .called t o (by assumption)
      · cases hstep
  | acquire t =>
      obtain ⟨hfree, hstep⟩ := Option.ite_none_right_eq_some.mp hstep
      split at hstep
      · obtain rfl := Option.some.inj hstep
        exact .acquired t _ hfree (Or.inl (by assumption))
      · obtain rfl := Option.some.inj hstep
        exact .acquired t _ hfree (Or.inr (by assumption))
      · cases hstep
  | test t =>
      simp only [step] at hstep
      split at hstep
      · rename_i o ho
        obtain rfl := Option.some.inj hstep
        cases hguard : M.guard o s.shared with
        | true => exact .passed t o ho hguard
        | false => exact .failed t o ho hguard
      · cases hstep
  | park t =>
      simp only [step] at hstep
      split at hstep
      · obtain rfl := Option.some.inj hstep
        exact .parked t _ (by assumption)
      · cases hstep
  | run t w =>
      simp only [step] at hstep
      split at hstep
      · exact .ran t w _ s' (by assumption) hstep
      · cases hstep
  | wake t =>
      simp only [step] at hstep
      split at hstep
      · obtain rfl := Option.some.inj hstep
        exact .woke t _ (by assumption)
      · cases hstep
  | store t u =>
      simp only [step] at hstep
      split at hstep
      · obtain rfl := Option.some.inj hstep
        exact .stored t u (by assumption)
      · cases hstep
  | signal t =>
      simp only [step] at hstep
      split at hstep
      · obtain rfl := Option.some.inj hstep
        exact .signalled t (by assumption)
      · cases hstep

theorem Exclusive.step {x : Action τ ω υ} (h : Exclusive s) (hchange : Change M s x s') :
    Exclusive s' := by
  cases hchange with
  | called t o ht | woke t o ht => exact h.setPhase (by simp [Phase.holds])
  | acquired t o hfree ht =>
      intro t₁ t₂ h₁ h₂
      rw [phase_setPhase] at h₁ h₂
      have honly : ∀ t', (if t' = t then Phase.locked o else s.phase t').holds = true → t' = t := by
        intro t' ht'
        by_contra hne
        rw [if_neg hne, hfree t'] at ht'
        cases ht'
      rw [honly t₁ h₁, honly t₂ h₂]
  | passed t o ht | failed t o ht | parked t o ht => exact h.setPhase (by simp [ht, Phase.holds])
  | ran t w o s' ht hnotify =>
      have hbody : Exclusive (bodyState M s t o) :=
        Exclusive.setPhase (p := .idle) h (by simp [Phase.holds])
      exact hbody.woken (notified_woken hnotify)
  | stored t u ht => exact Exclusive.setPhase (p := .signalling) h (by simp [Phase.holds])
  | signalled t ht =>
      exact (Exclusive.setPhase (p := .idle) h (by simp [Phase.holds])).woken (Woken.wakeAll _)

theorem exclusive_of_reachable {init : σ} (h : (system M init).Reachable s) : Exclusive s := by
  refine h.invariant ?_ fun s x s' _ hs hstep => hs.step (step_change hstep)
  intro s₀ hinit t t' ht
  rw [hinit] at ht
  cases ht

/-! ### The state the mutex protects -/

/-- **While a thread has tested its guard and holds the mutex, only a store changes the
state.** -/
theorem Change.tested {x : Action τ ω υ} {t : τ} {o : ω} {b : Bool} (h : Change M s x s')
    (hex : Exclusive s) (ht : s'.phase t = if b then .granted o else .parking o) :
    s.phase t = (if b then .granted o else .parking o) ∧
        (s'.shared = s.shared ∨ ∃ t' u, x = .store t' u ∧ s'.shared = M.store u s.shared) ∨
      M.guard o s.shared = b ∧ s'.shared = s.shared := by
  have hawake : ∀ o', (if b then Phase.granted o else .parking o) ≠ .awake o' := by
    cases b <;> simp
  have hidle : (if b then Phase.granted o else .parking o) ≠ .idle := by cases b <;> simp
  have hholds : (if b then Phase.granted o else .parking o).holds = true := by cases b <;> rfl
  cases h with
  | called t' o' ht' | acquired t' o' hfree ht' | parked t' o' ht' | woke t' o' ht' =>
      rcases setPhase_cases ht with ⟨-, hp⟩ | ⟨-, hold⟩
      · cases b <;> cases hp
      · exact Or.inl ⟨hold, Or.inl rfl⟩
  | passed t' o' ht' hguard =>
      rcases setPhase_cases ht with ⟨-, hp⟩ | ⟨-, hold⟩
      · cases b with
        | true => exact Or.inr ⟨Phase.granted.inj hp ▸ hguard, rfl⟩
        | false => cases hp
      · exact Or.inl ⟨hold, Or.inl rfl⟩
  | failed t' o' ht' hguard =>
      rcases setPhase_cases ht with ⟨-, hp⟩ | ⟨-, hold⟩
      · cases b with
        | true => cases hp
        | false => exact Or.inr ⟨Phase.parking.inj hp ▸ hguard, rfl⟩
      · exact Or.inl ⟨hold, Or.inl rfl⟩
  | ran t' w o' s' ht' hnotify =>
      rcases setPhase_cases ((notified_woken hnotify).eq ht hawake) with ⟨-, hp⟩ | ⟨hne, hold⟩
      · exact absurd hp.symm hidle
      · -- Nobody else holds the mutex.
        exact absurd (hex t t' (by rw [hold]; exact hholds) (by rw [ht']; rfl)) hne
  | stored t' u ht' =>
      rcases setPhase_cases ht with ⟨-, hp⟩ | ⟨-, hold⟩
      · cases b <;> cases hp
      · exact Or.inl ⟨hold, Or.inr ⟨t', u, rfl, rfl⟩⟩
  | signalled t' ht' =>
      rcases setPhase_cases ((Woken.wakeAll _).eq ht hawake) with ⟨-, hp⟩ | ⟨-, hold⟩
      · exact absurd hp.symm hidle
      · exact Or.inl ⟨hold, Or.inl rfl⟩

/-- Who sleeps was asleep before, or has just blocked. -/
theorem Change.slept {x : Action τ ω υ} {t : τ} {o : ω} (h : Change M s x s')
    (ht : s'.phase t = .asleep o) :
    s.phase t = .asleep o ∨ s.phase t = .parking o ∧ x = .park t ∧ s'.shared = s.shared := by
  have hawake : ∀ o', Phase.asleep o ≠ .awake o' := by simp
  cases h with
  | called t' o' ht' | acquired t' o' hfree ht' | passed t' o' ht' | failed t' o' ht'
  | woke t' o' ht' | stored t' u ht' =>
      rcases setPhase_cases ht with ⟨-, hp⟩ | ⟨-, hold⟩
      · cases hp
      · exact Or.inl hold
  | parked t' o' ht' =>
      rcases setPhase_cases ht with ⟨rfl, hp⟩ | ⟨-, hold⟩
      · exact Or.inr ⟨Phase.asleep.inj hp ▸ ht', rfl, rfl⟩
      · exact Or.inl hold
  | ran t' w o' s' ht' hnotify =>
      rcases setPhase_cases ((notified_woken hnotify).eq ht hawake) with ⟨-, hp⟩ | ⟨-, hold⟩
      · cases hp
      · exact Or.inl hold
  | signalled t' ht' => exact absurd ht ((noneAsleep_wakeAll _).ne_asleep t o)

/-- Who has to notify did before, or has just stored. -/
theorem Change.signals {x : Action τ ω υ} {t : τ} (h : Change M s x s')
    (ht : s'.phase t = .signalling) : s.phase t = .signalling ∨ ∃ u, x = .store t u := by
  have hawake : ∀ o : ω, Phase.signalling ≠ .awake o := by simp
  cases h with
  | called t' o' ht' | acquired t' o' hfree ht' | passed t' o' ht' | failed t' o' ht'
  | parked t' o' ht' | woke t' o' ht' =>
      rcases setPhase_cases ht with ⟨-, hp⟩ | ⟨-, hold⟩
      · cases hp
      · exact Or.inl hold
  | ran t' w o' s' ht' hnotify =>
      rcases setPhase_cases ((notified_woken hnotify).eq ht hawake) with ⟨-, hp⟩ | ⟨-, hold⟩
      · cases hp
      · exact Or.inl hold
  | stored t' u ht' =>
      rcases setPhase_cases ht with ⟨rfl, -⟩ | ⟨-, hold⟩
      · exact Or.inr ⟨u, rfl⟩
      · exact Or.inl hold
  | signalled t' ht' =>
      rcases setPhase_cases ((Woken.wakeAll _).eq ht hawake) with ⟨-, hp⟩ | ⟨-, hold⟩
      · cases hp
      · exact Or.inl hold

/-- What a thread finds true of its guard stays true until its body has run, where no store
makes a guard false. -/
theorem guard_of_granted {init : σ}
    (hstore : ∀ o u σ, M.guard o σ = true → M.guard o (M.store u σ) = true)
    (h : (system M init).Reachable s) {t : τ} {o : ω} (ht : s.phase t = .granted o) :
    M.guard o s.shared = true := by
  refine h.invariant (I := fun s => ∀ t o, s.phase t = .granted o → M.guard o s.shared = true)
    ?_ ?_ t o ht
  · intro s₀ hs₀ t o ht
    rw [hs₀] at ht
    cases ht
  · intro s x s' hreach hs hstep t o ht
    have htested := (step_change hstep).tested (b := true) (exclusive_of_reachable hreach) ht
    rcases htested with ⟨hold, hshared⟩ | ⟨hguard, hshared⟩
    · rcases hshared with hsame | ⟨t', u, -, hstored⟩
      · rw [hsame]
        exact hs t o hold
      · rw [hstored]
        exact hstore o u _ (hs t o hold)
    · rw [hshared]
      exact hguard

/-- **What every body whose guard holds and every store preserves, holds throughout**, where no
store makes a guard false. -/
theorem shared_invariant {init : σ} {I : σ → Prop} (hinit : I init)
    (hguard : ∀ o u σ, M.guard o σ = true → M.guard o (M.store u σ) = true)
    (hbody : ∀ t o σ, M.guard o σ = true → I σ → I (M.body t o σ))
    (hstore : ∀ u σ, I σ → I (M.store u σ)) (h : (system M init).Reachable s) : I s.shared := by
  refine h.invariant (I := fun s => I s.shared) ?_ ?_
  · intro s₀ hs₀
    rw [hs₀]
    exact hinit
  · intro s x s' hreach hs hstep
    cases step_change hstep with
    | called | acquired | passed | failed | parked | woke | signalled => exact hs
    | ran t w o s' ht hnotify =>
        rw [(notified_woken hnotify).shared]
        exact hbody t o _ (guard_of_granted hguard hreach ht) hs
    | stored t u ht => exact hstore u _ hs

/-! ### Nobody oversleeps

`due o` is a state of things in which nobody should sleep in `o`: its guard, or a part of it.
-/

variable {due : ω → σ → Bool}

/-- No store makes something due for a thread that has found its guard false and has not
blocked yet. -/
def Timely (M : Spec τ σ ω υ) (due : ω → σ → Bool) (s : State τ σ ω) (x : Action τ ω υ)
    (_ : State τ σ ω) : Prop :=
  match x with
  | .store _ u => ∀ t o, s.phase t = .parking o → due o (M.store u s.shared) = false
  | _ => True

/-- What is due for an operation makes its guard true, and a body that makes it due notifies
all. -/
structure Announces (M : Spec τ σ ω υ) (due : ω → σ → Bool) : Prop where
  guard : ∀ o σ, due o σ = true → M.guard o σ = true
  all : ∀ t o o' σ, due o' σ = false → due o' (M.body t o σ) = true → M.notify o σ = .all

/-- Nobody blocks or sleeps for whom something is due, unless a notification is under way. -/
structure Rested (due : ω → σ → Bool) (s : State τ σ ω) : Prop where
  exclusive : Exclusive s
  parking : ∀ t o, s.phase t = .parking o → due o s.shared = false
  asleep : ∀ t o, s.phase t = .asleep o →
    due o s.shared = false ∨ ∃ t', s.phase t' = .signalling

theorem Rested.step {x : Action τ ω υ} (hM : Announces M due) (h : Rested due s)
    (hchange : Change M s x s') (htimely : Timely M due s x s') : Rested due s' := by
  refine ⟨h.exclusive.step hchange, ?_, ?_⟩
  · intro t o ht
    rcases hchange.tested (b := false) h.exclusive ht with ⟨hold, hshared⟩ | ⟨hguard, hshared⟩
    · rcases hshared with hsame | ⟨t', u, rfl, hstored⟩
      · rw [hsame]
        exact h.parking t o hold
      · rw [hstored]
        exact htimely t o hold
    · rw [hshared]
      cases hdue : due o s.shared with
      | false => rfl
      | true => cases (hM.guard o _ hdue).symm.trans hguard
  · intro t o ht
    rcases hchange.slept ht with hold | ⟨hparking, -, hshared⟩
    · have hbefore := h.asleep t o hold
      cases hchange with
      | called t' o' ht' | acquired t' o' hfree ht' | passed t' o' ht' | failed t' o' ht'
      | parked t' o' ht' | woke t' o' ht' =>
          refine hbefore.imp_right ?_
          rintro ⟨t₁, ht₁⟩
          refine ⟨t₁, signalling_setPhase ht₁ fun hsignal => ?_⟩
          simp [hsignal] at ht'
      | ran t' w o' s' ht' hnotify =>
          have hwoken := notified_woken hnotify
          rw [hwoken.shared]
          rcases hbefore with hfalse | ⟨t₁, ht₁⟩
          · cases hdue : due o (M.body t' o' s.shared) with
            | false => exact Or.inl hdue
            | true =>
                rw [hM.all t' o' o _ hfalse hdue] at hnotify
                obtain rfl := Option.some.inj hnotify
                exact absurd ht ((noneAsleep_wakeAll _).ne_asleep t o)
          · refine Or.inr ⟨t₁, ?_⟩
            have hbody : (bodyState M s t' o').phase t₁ = .signalling :=
              signalling_setPhase (s := s) ht₁ (by simp [ht'])
            rcases hwoken.phase t₁ with heq | ⟨o₁, hasleep, -⟩
            · rw [heq]
              exact hbody
            · cases hbody.symm.trans hasleep
      | stored t' u ht' =>
          refine Or.inr ⟨t', ?_⟩
          show (s.setPhase t' .signalling).phase t' = _
          rw [phase_setPhase, if_pos rfl]
      | signalled t' ht' =>
          exact absurd ht ((noneAsleep_wakeAll _).ne_asleep t o)
    · rw [hshared]
      exact Or.inl (h.parking t o hparking)

/-- **Nobody oversleeps.**  Where bodies that make something due notify all, and stores come in
time, no thread sleeps for whom something is due, unless the notification is under way. -/
theorem no_one_oversleeps {init : σ} (hM : Announces M due)
    (h : ((system M init).restrict (Timely M due)).Reachable s) : Rested due s := by
  refine h.invariant ?_ fun s x s' _ hs hmove => hs.step hM (step_change hmove.1) hmove.2
  intro s₀ hs₀
  rw [hs₀]
  refine ⟨?_, ?_, ?_⟩
  · intro t t' ht
    cases ht
  · intro t o ht
    cases ht
  · intro t o ht
    cases ht

end Monitor
