/-
Threads that take and release mutexes.

A thread is what it still has to do: a list of acquisitions, releases and actions
of its own, which the user of this file gives a meaning.  Mutexes are released in
the reverse of the order they were taken in, as scoped locks are, so what a thread
holds is a stack.

The rule for lock orders is a table: `allowed held op` says that a thread holding
`held` may come to `op`.  A program that keeps to its table from a given stack
`Leads` to another one; such programs compose, and a thread that keeps to its table
does so after every step.
-/
import Mathlib.Logic.Function.Basic
import Mathlib.Data.Fintype.Basic

namespace Locks

variable {τ μ ι : Type*}

/-- A step of a program: over mutexes `μ`, with actions `ι` of its own. -/
inductive Op (μ ι : Type*) where
  | acquire (m : μ)
  | release (m : μ)
  | act (i : ι)
  deriving DecidableEq

/-- What each thread holds, innermost first.  No mutex has two holders. -/
structure Holding (τ μ : Type*) where
  held : τ → List μ
  exclusive : ∀ t t' m, m ∈ held t → m ∈ held t' → t = t'

namespace Holding

def empty : Holding τ μ := { held := fun _ => [], exclusive := by simp }

def Free (h : Holding τ μ) (m : μ) : Prop := ∀ t, m ∉ h.held t

instance [Fintype τ] [DecidableEq μ] (h : Holding τ μ) (m : μ) : Decidable (h.Free m) :=
  inferInstanceAs (Decidable (∀ t, m ∉ h.held t))

variable [DecidableEq τ]

def acquire (h : Holding τ μ) (t : τ) (m : μ) (hfree : h.Free m) : Holding τ μ where
  held := Function.update h.held t (m :: h.held t)
  exclusive := by
    intro t₁ t₂ m' h₁ h₂
    simp only [Function.update_apply] at h₁ h₂
    have hnot := hfree
    unfold Free at hnot
    split at h₁ <;> split at h₂ <;> grind [h.exclusive]

/-- The innermost one is released. -/
def release (h : Holding τ μ) (t : τ) : Holding τ μ where
  held := Function.update h.held t (h.held t).tail
  exclusive := by
    intro t₁ t₂ m h₁ h₂
    have hmem : ∀ t', m ∈ Function.update h.held t (h.held t).tail t' → m ∈ h.held t' := by
      intro t' ht'
      rw [Function.update_apply] at ht'
      split at ht'
      · rename_i heq
        rw [heq]
        exact List.mem_of_mem_tail ht'
      · exact ht'
    exact h.exclusive t₁ t₂ m (hmem t₁ h₁) (hmem t₂ h₂)

end Holding

/-- Some threads, what they hold and what they still have to do. -/
structure Threads (τ μ ι : Type*) where
  locks : Holding τ μ
  program : τ → List (Op μ ι)

namespace Threads

/-- The mutex a thread is at. -/
def wants (s : Threads τ μ ι) (t : τ) : Option μ :=
  match s.program t with
  | .acquire m :: _ => some m
  | _ => none

def WaitsFor (s : Threads τ μ ι) (t t' : τ) : Prop := ∃ m, s.wants t = some m ∧ m ∈ s.locks.held t'

/-- Two threads, each at a mutex the other holds. -/
def CircularWait (s : Threads τ μ ι) : Prop := ∃ t t', t ≠ t' ∧ s.WaitsFor t t' ∧ s.WaitsFor t' t

theorem wants_eq_some {s : Threads τ μ ι} {t : τ} {m : μ} (h : s.wants t = some m) :
    ∃ rest, s.program t = .acquire m :: rest := by
  unfold wants at h
  split at h
  · rename_i m' rest hprogram
    obtain rfl := Option.some.inj h
    exact ⟨rest, hprogram⟩
  · cases h

variable [DecidableEq τ]

def setProgram (s : Threads τ μ ι) (t : τ) (program : List (Op μ ι)) : Threads τ μ ι :=
  { s with program := Function.update s.program t program }

@[simp] theorem setProgram_locks (s : Threads τ μ ι) (t : τ) (program : List (Op μ ι)) :
    (s.setProgram t program).locks = s.locks := rfl

@[simp] theorem setProgram_self (s : Threads τ μ ι) (t : τ) (program : List (Op μ ι)) :
    (s.setProgram t program).program t = program := by
  unfold setProgram
  exact Function.update_self ..

theorem setProgram_of_ne (s : Threads τ μ ι) {t t' : τ} (h : t' ≠ t) (program : List (Op μ ι)) :
    (s.setProgram t program).program t' = s.program t' := by
  unfold setProgram
  exact Function.update_of_ne h ..

theorem wants_setProgram_of_ne (s : Threads τ μ ι) {t t' : τ} (h : t' ≠ t)
    (program : List (Op μ ι)) : (s.setProgram t program).wants t' = s.wants t' := by
  unfold wants
  rw [setProgram_of_ne s h]

/-- The thread takes or releases the mutex it is at; a mutex that is held is waited for. -/
def lockStep [Fintype τ] [DecidableEq μ] (s : Threads τ μ ι) (t : τ) : Option (Threads τ μ ι) :=
  match s.program t with
  | .acquire m :: rest =>
      if hfree : s.locks.Free m then
        some { s.setProgram t rest with locks := s.locks.acquire t m hfree }
      else none
  | .release m :: rest =>
      if (s.locks.held t).head? = some m then
        some { s.setProgram t rest with locks := s.locks.release t }
      else none
  | _ => none

end Threads

/-! ### Lock orders -/

section Leads

variable {allowed : List μ → Op μ ι → Prop}

/-- From `held`, the program keeps to the table and ends holding `final`. -/
inductive Leads (allowed : List μ → Op μ ι → Prop) : List μ → List (Op μ ι) → List μ → Prop
  | done (held : List μ) : Leads allowed held [] held
  | acquire {held final : List μ} {m : μ} {rest : List (Op μ ι)} (h : allowed held (.acquire m))
      (hrest : Leads allowed (m :: held) rest final) :
      Leads allowed held (.acquire m :: rest) final
  | release {held final : List μ} {m : μ} {rest : List (Op μ ι)}
      (hrest : Leads allowed held rest final) :
      Leads allowed (m :: held) (.release m :: rest) final
  | act {held final : List μ} {i : ι} {rest : List (Op μ ι)} (h : allowed held (.act i))
      (hrest : Leads allowed held rest final) : Leads allowed held (.act i :: rest) final

theorem Leads.of_acquire {held final : List μ} {m : μ} {rest : List (Op μ ι)}
    (h : Leads allowed held (.acquire m :: rest) final) :
    allowed held (.acquire m) ∧ Leads allowed (m :: held) rest final := by
  cases h with
  | acquire hallowed hrest => exact ⟨hallowed, hrest⟩

theorem Leads.of_release {held final : List μ} {m : μ} {rest : List (Op μ ι)}
    (h : Leads allowed (m :: held) (.release m :: rest) final) :
    Leads allowed held rest final := by
  cases h with
  | release hrest => exact hrest

theorem Leads.of_act {held final : List μ} {i : ι} {rest : List (Op μ ι)}
    (h : Leads allowed held (.act i :: rest) final) :
    allowed held (.act i) ∧ Leads allowed held rest final := by
  cases h with
  | act hallowed hrest => exact ⟨hallowed, hrest⟩

theorem Leads.append {held mid final : List μ} {p q : List (Op μ ι)}
    (hp : Leads allowed held p mid) (hq : Leads allowed mid q final) :
    Leads allowed held (p ++ q) final := by
  induction hp with
  | done held => exact hq
  | acquire h _ ih => exact .acquire h (ih hq)
  | release _ ih => exact .release (ih hq)
  | act h _ ih => exact .act h (ih hq)

/-- Programs that give back what they take, one after another. -/
theorem Leads.flatMap {α : Type*} {held : List μ} {f : α → List (Op μ ι)} {l : List α}
    (h : ∀ x ∈ l, Leads allowed held (f x) held) : Leads allowed held (l.flatMap f) held := by
  induction l with
  | nil => exact .done held
  | cons x rest ih =>
      rw [List.flatMap_cons]
      exact (h x List.mem_cons_self).append (ih fun y hy => h y (List.mem_cons_of_mem x hy))

end Leads

/-- Every thread keeps to its table and gives back everything in the end. -/
def Orderly (allowed : τ → List μ → Op μ ι → Prop) (s : Threads τ μ ι) : Prop :=
  ∀ t, Leads (allowed t) (s.locks.held t) (s.program t) []

section Orderly

variable {allowed : τ → List μ → Op μ ι → Prop} {s s' : Threads τ μ ι} {t : τ}

variable [DecidableEq τ]

/-- A thread takes up another program that keeps to the table from where it stands. -/
theorem Orderly.setProgram (h : Orderly allowed s) {program : List (Op μ ι)}
    (hprogram : Leads (allowed t) (s.locks.held t) program []) :
    Orderly allowed (s.setProgram t program) := by
  intro t'
  rw [Threads.setProgram_locks]
  by_cases ht : t' = t
  · subst ht
    rw [Threads.setProgram_self]
    exact hprogram
  · rw [Threads.setProgram_of_ne s ht]
    exact h t'

/-- What a lock step is: one mutex taken or released, the others and the other threads as
they were. -/
theorem Threads.lockStep_cases [Fintype τ] [DecidableEq μ] (hstep : s.lockStep t = some s') :
    ∃ rest, s'.program = Function.update s.program t rest ∧
      ((∃ m, s.program t = .acquire m :: rest ∧ s.locks.Free m ∧
          s'.locks.held = Function.update s.locks.held t (m :: s.locks.held t)) ∨
        ∃ m held, s.program t = .release m :: rest ∧ s.locks.held t = m :: held ∧
          s'.locks.held = Function.update s.locks.held t held) := by
  unfold lockStep at hstep
  split at hstep
  · rename_i m rest hprogram
    split at hstep
    · rename_i hfree
      obtain rfl := Option.some.inj hstep
      exact ⟨rest, rfl, Or.inl ⟨m, hprogram, hfree, rfl⟩⟩
    · cases hstep
  · rename_i m rest hprogram
    split at hstep
    · rename_i hhead
      obtain rfl := Option.some.inj hstep
      obtain ⟨held, hheld⟩ := List.head?_eq_some_iff.mp hhead
      refine ⟨rest, rfl, Or.inr ⟨m, held, hprogram, hheld, ?_⟩⟩
      show Function.update s.locks.held t (s.locks.held t).tail = _
      rw [hheld, List.tail_cons]
    · cases hstep
  · cases hstep

/-- Where the other threads are does not change. -/
theorem Threads.wants_lockStep_of_ne [Fintype τ] [DecidableEq μ] {t' : τ}
    (hstep : s.lockStep t = some s') (h : t' ≠ t) : s'.wants t' = s.wants t' := by
  obtain ⟨rest, hprogram', -⟩ := Threads.lockStep_cases hstep
  unfold wants
  rw [hprogram', Function.update_of_ne h]

/-- A thread that is at an action of its own makes no lock step. -/
theorem Threads.lockStep_of_act [Fintype τ] [DecidableEq μ] {i : ι} {rest : List (Op μ ι)}
    (hprogram : s.program t = .act i :: rest) : s.lockStep t = none := by
  unfold lockStep
  rw [hprogram]

/-- **A thread that keeps to its table does so after every step.** -/
theorem Orderly.lockStep [Fintype τ] [DecidableEq μ] (h : Orderly allowed s)
    (hstep : s.lockStep t = some s') : Orderly allowed s' := by
  obtain ⟨rest, hprogram', hcases⟩ := Threads.lockStep_cases hstep
  intro t'
  have ht := h t'
  rw [hprogram']
  rcases hcases with ⟨m, hprogram, -, hheld⟩ | ⟨m, held, hprogram, hhead, hheld⟩
  · rw [hheld]
    by_cases heq : t' = t
    · subst heq
      rw [hprogram] at ht
      rw [Function.update_self, Function.update_self]
      exact ht.of_acquire.2
    · rw [Function.update_of_ne heq, Function.update_of_ne heq]
      exact ht
  · rw [hheld]
    by_cases heq : t' = t
    · subst heq
      rw [hprogram, hhead] at ht
      rw [Function.update_self, Function.update_self]
      exact ht.of_release
    · rw [Function.update_of_ne heq, Function.update_of_ne heq]
      exact ht

end Orderly

end Locks
