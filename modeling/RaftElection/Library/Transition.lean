/-
Transition systems and what holds along their runs.

Every component of this development is in the end a state and a set of actions on
it: one node, a whole cluster, the two threads inside a node, the loop of the
scheduler.  What is said of each is of one of two shapes — something holds in
every reachable state, or it holds in every state of the runs whose steps all
meet a side condition.  Both are instances of one induction, and it is done once,
here.

A side condition is not a second kind of run.  `restrict` cuts the system down to
the steps that meet it, and a run of the smaller system is then just a run, so
the invariant rule needs no variant.
-/
import Mathlib.Logic.Relation

namespace Transition

/-- A labelled transition system: where it may start and what its actions may do. -/
structure System (σ α : Type*) where
  init : σ → Prop
  step : σ → α → σ → Prop

namespace System

variable {σ α : Type*}

/-- The same system, taking only the steps that `ok` admits. -/
def restrict (S : System σ α) (ok : σ → α → σ → Prop) : System σ α where
  init := S.init
  step s a s' := S.step s a s' ∧ ok s a s'

/-- Some number of steps leads from one state to the other. -/
def Run (S : System σ α) : σ → σ → Prop :=
  Relation.ReflTransGen fun s s' => ∃ a, S.step s a s'

/-- Some run from an initial state ends in `s`. -/
def Reachable (S : System σ α) (s : σ) : Prop :=
  ∃ s₀, S.init s₀ ∧ S.Run s₀ s

variable {S : System σ α} {ok : σ → α → σ → Prop}

theorem Run.refl (s : σ) : S.Run s s := Relation.ReflTransGen.refl

theorem Run.tail {s₁ s₂ s₃ : σ} {a : α} (h : S.Run s₁ s₂) (hstep : S.step s₂ a s₃) :
    S.Run s₁ s₃ :=
  Relation.ReflTransGen.tail h ⟨a, hstep⟩

theorem Run.trans {s₁ s₂ s₃ : σ} (h : S.Run s₁ s₂) (h' : S.Run s₂ s₃) : S.Run s₁ s₃ :=
  Relation.ReflTransGen.trans h h'

theorem Reachable.run {s s' : σ} (h : S.Reachable s) (hrun : S.Run s s') :
    S.Reachable s' := by
  obtain ⟨s₀, hinit, h₀⟩ := h
  exact ⟨s₀, hinit, h₀.trans hrun⟩

theorem Reachable.tail {s s' : σ} {a : α} (h : S.Reachable s) (hstep : S.step s a s') :
    S.Reachable s' :=
  h.run ((Run.refl s).tail hstep)

/-- **What every step preserves, every run preserves.** -/
theorem Run.invariant {I : σ → Prop} (hstep : ∀ s a s', I s → S.step s a s' → I s')
    {s s' : σ} (h : S.Run s s') (hs : I s) : I s' := by
  induction h with
  | refl => exact hs
  | tail _ hlast ih =>
      obtain ⟨a, ha⟩ := hlast
      exact hstep _ a _ ih ha

/-- **What holds at the start and is preserved by every step holds of every reachable
state.**  The step may use that the state it leaves is itself reachable, so one
invariant can be built on another. -/
theorem Reachable.invariant {I : σ → Prop} (hinit : ∀ s, S.init s → I s)
    (hstep : ∀ s a s', S.Reachable s → I s → S.step s a s' → I s')
    {s : σ} (h : S.Reachable s) : I s := by
  obtain ⟨s₀, hs₀, hrun⟩ := h
  induction hrun with
  | refl => exact hinit s₀ hs₀
  | tail hpre hlast ih =>
      obtain ⟨a, ha⟩ := hlast
      exact hstep _ a _ ⟨s₀, hs₀, hpre⟩ ih ha

/-- Two side conditions are one. -/
theorem restrict_restrict (S : System σ α) (ok ok' : σ → α → σ → Prop) :
    (S.restrict ok).restrict ok' = S.restrict fun s a s' => ok s a s' ∧ ok' s a s' := by
  simp only [restrict, and_assoc]

/-- Dropping the side condition keeps the run. -/
theorem Run.unrestrict {s s' : σ} (h : (S.restrict ok).Run s s') : S.Run s s' :=
  Relation.ReflTransGen.mono (fun _ _ ⟨a, ha, _⟩ => ⟨a, ha⟩) _ _ h

/-- A weaker side condition keeps it too. -/
theorem Run.weaken {ok' : σ → α → σ → Prop} (hok : ∀ s a s', ok s a s' → ok' s a s') {s s' : σ}
    (h : (S.restrict ok).Run s s') : (S.restrict ok').Run s s' :=
  Relation.ReflTransGen.mono (fun _ _ ⟨a, ha, hcond⟩ => ⟨a, ha, hok _ a _ hcond⟩) _ _ h

theorem Reachable.weaken {ok' : σ → α → σ → Prop} (hok : ∀ s a s', ok s a s' → ok' s a s') {s : σ}
    (h : (S.restrict ok).Reachable s) : (S.restrict ok').Reachable s := by
  obtain ⟨s₀, hinit, hrun⟩ := h
  exact ⟨s₀, hinit, hrun.weaken hok⟩

/-- A side condition that every step meets is none. -/
theorem Reachable.restricted (hok : ∀ s a s', S.step s a s' → ok s a s') {s : σ}
    (h : S.Reachable s) : (S.restrict ok).Reachable s := by
  obtain ⟨s₀, hinit, hrun⟩ := h
  refine ⟨s₀, hinit, ?_⟩
  exact Relation.ReflTransGen.mono (fun s s' ⟨a, ha⟩ => ⟨a, ha, hok s a s' ha⟩) _ _ hrun

theorem Reachable.unrestrict {s : σ} (h : (S.restrict ok).Reachable s) : S.Reachable s := by
  obtain ⟨s₀, hinit, hrun⟩ := h
  exact ⟨s₀, hinit, hrun.unrestrict⟩

/-! ### One component of a state

`v` shows one component, which need not exist from the start.  Where every step of the
whole is at most a run of the component, what holds of the runs of the component holds of
it inside the whole.
-/

variable {τ β : Type*} {T : System τ β} {v : σ → Option τ}

theorem Reachable.project (hinit : ∀ s, S.init s → v s = none)
    (hstep : ∀ s a s' x', S.Reachable s → S.step s a s' → v s' = some x' →
      T.init x' ∨ ∃ x, v s = some x ∧ T.Run x x')
    {s : σ} (h : S.Reachable s) {x : τ} (hx : v s = some x) : T.Reachable x := by
  refine h.invariant (I := fun s => ∀ x, v s = some x → T.Reachable x) ?_ ?_ x hx
  · intro s₀ hs₀ x hx
    rw [hinit s₀ hs₀] at hx
    cases hx
  · intro s a s' hs ih hmove x' hx'
    rcases hstep s a s' x' hs hmove hx' with hnew | ⟨x, hx, hrun⟩
    · exact ⟨x', hnew, Run.refl x'⟩
    · exact (ih x hx).run hrun

/-- A component that exists goes on existing, and moves by runs of its own. -/
theorem Run.project
    (hstep : ∀ s a s' x, S.Reachable s → S.step s a s' → v s = some x →
      ∃ x', v s' = some x' ∧ T.Run x x')
    {s s' : σ} (h : S.Run s s') (hs : S.Reachable s) {x : τ} (hx : v s = some x) :
    ∃ x', v s' = some x' ∧ T.Run x x' := by
  induction h with
  | refl => exact ⟨x, hx, Run.refl x⟩
  | tail hpre hlast ih =>
      obtain ⟨a, ha⟩ := hlast
      obtain ⟨x₁, hx₁, hrun₁⟩ := ih
      obtain ⟨x', hx', hrun⟩ := hstep _ a _ x₁ (hs.run hpre) ha hx₁
      exact ⟨x', hx', hrun₁.trans hrun⟩

end System

/-! ### Systems that compute their next state

Where each action has at most one outcome the step is a partial function, and a
run can be executed: `execute` folds a list of actions and checks a side
condition on the way.  Concrete runs are exhibited through `Reachable.of_execute`.
-/

namespace System

variable {σ α : Type*}

/-- The system that starts in `s₀` and steps by a partial function. -/
def ofFun (s₀ : σ) (f : σ → α → Option σ) : System σ α where
  init s := s = s₀
  step s a s' := f s a = some s'

/-- Run a list of actions, stopping where one is impossible or `ok` refuses it. -/
def execute (f : σ → α → Option σ) (ok : σ → α → σ → Bool) (s : σ) : List α → Option σ
  | [] => some s
  | a :: rest =>
      match f s a with
      | none => none
      | some s' => if ok s a s' then execute f ok s' rest else none

variable {s₀ : σ} {f : σ → α → Option σ} {ok : σ → α → σ → Prop}
  [∀ s a s', Decidable (ok s a s')]

theorem Run.of_execute :
    ∀ (l : List α) {s s' : σ}, execute f (fun s a s' => decide (ok s a s')) s l = some s' →
      ((ofFun s₀ f).restrict ok).Run s s' := by
  intro l
  induction l with
  | nil =>
      intro s s' h
      simp only [execute, Option.some.injEq] at h
      subst h
      exact Run.refl s
  | cons a rest ih =>
      intro s s' h
      simp only [execute] at h
      split at h
      · simp at h
      · rename_i mid hmid
        split at h
        · rename_i hok
          have hfirst : ((ofFun s₀ f).restrict ok).step s a mid :=
            ⟨hmid, of_decide_eq_true hok⟩
          exact ((Run.refl s).tail hfirst).trans (ih h)
        · simp at h

theorem Run.executed {s₀ : σ} {f : σ → α → Option σ} {l : List α} {s s' : σ}
    (h : System.execute f (fun _ _ _ => true) s l = some s') : (ofFun s₀ f).Run s s' := by
  have hrun : ((ofFun s₀ f).restrict fun _ _ _ => True).Run s s' := Run.of_execute l h
  exact hrun.unrestrict

/-- What is executed from a reachable state is reachable, where the side condition admits its
actions in every state. -/
theorem Reachable.executed {s₀ : σ} {f : σ → α → Option σ} {ok : σ → α → σ → Prop} :
    ∀ (l : List α) {s s' : σ}, ((ofFun s₀ f).restrict ok).Reachable s →
      (∀ a ∈ l, ∀ s s', ok s a s') →
      System.execute f (fun _ _ _ => true) s l = some s' →
      ((ofFun s₀ f).restrict ok).Reachable s' := by
  intro l
  induction l with
  | nil =>
      intro s s' hs _ h
      obtain rfl := Option.some.inj h
      exact hs
  | cons a rest ih =>
      intro s s' hs hok h
      simp only [System.execute] at h
      split at h
      · cases h
      · rename_i mid hmid
        rw [if_pos trivial] at h
        have hnext : ((ofFun s₀ f).restrict ok).Reachable mid :=
          hs.tail ⟨hmid, hok a List.mem_cons_self s mid⟩
        exact ih hnext (fun b hb => hok b (List.mem_cons_of_mem a hb)) h

/-- A run is exhibited by executing it and testing where it ends. -/
theorem Reachable.of_execute (s₀ : σ) (f : σ → α → Option σ) (ok : σ → α → σ → Prop)
    [∀ s a s', Decidable (ok s a s')] (l : List α) (p : σ → Prop) [DecidablePred p]
    (h : (execute f (fun s a s' => decide (ok s a s')) s₀ l).any (decide <| p ·) = true) :
    ∃ s, ((ofFun s₀ f).restrict ok).Reachable s ∧ p s := by
  rw [Option.any_eq_true] at h
  obtain ⟨s, hs, hp⟩ := h
  exact ⟨s, ⟨s₀, rfl, Run.of_execute l hs⟩, of_decide_eq_true hp⟩

end System

end Transition
