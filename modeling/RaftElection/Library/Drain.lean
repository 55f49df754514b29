/-
Draining a queue that is refilled behind a bound.

Entries are taken from a queue by their keys, a least one at a time, as long as the least
key is not past a bound; an entry that was taken may be put back under a key that is.
While it is out its key may change, and nobody else's does.

Whatever is put back, the entries taken are the due ones of the beginning, each once and in
the order of the keys they had, so the loop ends.  Keys come from any linear order, and
which of several least entries is taken is left open.
-/
import Mathlib.Data.List.Nodup
import Mathlib.Data.List.Perm.Basic
import Mathlib.Order.Lattice

namespace Drain

variable {ι κ : Type*} [DecidableEq ι] [LinearOrder κ]

/-- The entries of a queue, and the key of everything that may be one. -/
structure Queue (ι κ : Type*) where
  entries : List ι
  key : ι → κ

namespace Queue

def due (q : Queue ι κ) (bound : κ) : List ι := q.entries.filter fun i => q.key i ≤ bound

def later (q : Queue ι κ) (bound : κ) : List ι := q.entries.filter fun i => bound < q.key i

omit [DecidableEq ι] in
theorem mem_due {q : Queue ι κ} {bound : κ} {i : ι} :
    i ∈ q.due bound ↔ i ∈ q.entries ∧ q.key i ≤ bound := by
  simp [due]

end Queue

open Queue

/-- A least entry, which is due, is taken, and put back past the bound or not at all. -/
structure Takes (bound : κ) (q : Queue ι κ) (i : ι) (back : Bool) (q' : Queue ι κ) : Prop where
  mem : i ∈ q.entries
  least : ∀ j ∈ q.entries, q.key i ≤ q.key j
  due : q.key i ≤ bound
  entries : q'.entries = q.entries.erase i ++ if back then [i] else []
  key : ∀ j, j ≠ i → q'.key j = q.key j
  past : back = true → bound < q'.key i

/-- The loop, with what it takes and whether each of these is put back. -/
inductive Drains (bound : κ) : Queue ι κ → List (ι × Bool) → Queue ι κ → Prop
  | done {q : Queue ι κ} (h : ∀ j ∈ q.entries, bound < q.key j) : Drains bound q [] q
  | take {q q₁ q' : Queue ι κ} {i : ι} {back : Bool} {l : List (ι × Bool)}
      (h : Takes bound q i back q₁) (rest : Drains bound q₁ l q') :
      Drains bound q ((i, back) :: l) q'

variable {bound : κ} {q q₁ q' : Queue ι κ} {i j : ι} {back : Bool} {l : List (ι × Bool)}

/-! ### One entry -/

theorem Takes.nodup (h : Takes bound q i back q') (hq : q.entries.Nodup) : q'.entries.Nodup := by
  rw [h.entries]
  cases back with
  | false => simpa using hq.erase i
  | true =>
      have hout : i ∉ q.entries.erase i := hq.not_mem_erase
      simpa [List.nodup_append] using ⟨hq.erase i, fun j hj hji => hout (hji ▸ hj)⟩

theorem Takes.mem_entries (h : Takes bound q i back q') (hq : q.entries.Nodup) :
    j ∈ q'.entries ↔ j ≠ i ∧ j ∈ q.entries ∨ back = true ∧ j = i := by
  rw [h.entries, List.mem_append, hq.mem_erase_iff]
  cases back <;> simp

/-- What is due afterwards was due before, and only the entry itself is not any more. -/
theorem Takes.mem_due (h : Takes bound q i back q') (hq : q.entries.Nodup) :
    j ∈ q'.due bound ↔ j ≠ i ∧ j ∈ q.due bound := by
  rw [Queue.mem_due, Queue.mem_due, h.mem_entries hq]
  by_cases hji : j = i
  · subst hji
    have hpast : back = true → ¬ q'.key j ≤ bound := fun hback => not_le.mpr (h.past hback)
    tauto
  · rw [h.key j hji]
    tauto

/-- Behind the bound nothing is lost, and what is put back is added. -/
theorem Takes.later_perm (h : Takes bound q i back q') (hq : q.entries.Nodup) :
    (q'.later bound).Perm (q.later bound ++ if back then [i] else []) := by
  have hstays : (q.entries.erase i).filter (fun j => bound < q'.key j) = q.later bound := by
    rw [hq.erase_eq_filter, List.filter_filter]
    refine List.filter_congr fun j _ => ?_
    by_cases hji : j = i
    · subst hji
      simp [h.due]
    · simp [hji, h.key j hji]
  unfold Queue.later at *
  rw [h.entries, List.filter_append, hstays]
  cases hback : back with
  | false => simp
  | true => simp [h.past hback]

/-- So the number of due entries goes down. -/
theorem Takes.length_due (h : Takes bound q i back q') (hq : q.entries.Nodup) :
    (q'.due bound).length + 1 = (q.due bound).length := by
  have hout : i ∉ q'.due bound := fun hi => ((h.mem_due hq).mp hi).1 rfl
  have hdue : (q.due bound).Nodup := hq.filter _
  have hdue' : (q'.due bound).Nodup := (h.nodup hq).filter _
  have hperm : (i :: q'.due bound).Perm (q.due bound) := by
    refine (List.perm_ext_iff_of_nodup (List.nodup_cons.mpr ⟨hout, hdue'⟩) hdue).mpr ?_
    intro j
    rw [List.mem_cons, h.mem_due hq]
    by_cases hji : j = i
    · subst hji
      simpa using Queue.mem_due.mpr ⟨h.mem, h.due⟩
    · simp [hji]
  simpa using hperm.length_eq

/-! ### The whole loop -/

theorem Drains.nodup (h : Drains bound q l q') (hq : q.entries.Nodup) : q'.entries.Nodup := by
  induction h with
  | done => exact hq
  | take htakes _ ih => exact ih (htakes.nodup hq)

theorem Drains.mem_taken (h : Drains bound q l q') (hq : q.entries.Nodup) :
    j ∈ l.map Prod.fst ↔ j ∈ q.due bound := by
  induction h with
  | done hall =>
      rename_i q
      have hnone : j ∉ q.due bound := fun hj =>
        not_le.mpr (hall j (Queue.mem_due.mp hj).1) (Queue.mem_due.mp hj).2
      simp [hnone]
  | take htakes _ ih =>
      rename_i q q₁ q' i back l _
      rw [List.map_cons, List.mem_cons, ih (htakes.nodup hq), htakes.mem_due hq]
      by_cases hji : j = i
      · subst hji
        simpa using Queue.mem_due.mpr ⟨htakes.mem, htakes.due⟩
      · simp [hji]

theorem Drains.taken_nodup (h : Drains bound q l q') (hq : q.entries.Nodup) :
    (l.map Prod.fst).Nodup := by
  induction h with
  | done => exact List.nodup_nil
  | take htakes hrest ih =>
      rw [List.map_cons, List.nodup_cons]
      refine ⟨?_, ih (htakes.nodup hq)⟩
      rw [hrest.mem_taken (htakes.nodup hq), htakes.mem_due hq]
      exact fun hi => hi.1 rfl

/-- **The due entries are taken, each once, and no other.** -/
theorem Drains.taken_perm (h : Drains bound q l q') (hq : q.entries.Nodup) :
    (l.map Prod.fst).Perm (q.due bound) :=
  (List.perm_ext_iff_of_nodup (h.taken_nodup hq) (hq.filter _)).mpr fun _ => h.mem_taken hq

/-- Only what is taken gets another key. -/
theorem Drains.key (h : Drains bound q l q') (hj : j ∉ l.map Prod.fst) : q'.key j = q.key j := by
  induction h with
  | done => rfl
  | take htakes _ ih =>
      rw [List.map_cons, List.mem_cons, not_or] at hj
      rw [ih hj.2, htakes.key j hj.1]

/-- **They are taken in the order of their keys.** -/
theorem Drains.ordered (h : Drains bound q l q') (hq : q.entries.Nodup) :
    (l.map Prod.fst).Pairwise fun i j => q.key i ≤ q.key j := by
  induction h with
  | done => exact List.Pairwise.nil
  | take htakes hrest ih =>
      have hq₁ := htakes.nodup hq
      have hin : ∀ j ∈ List.map Prod.fst _, _ := fun j hj =>
        (htakes.mem_due hq).mp ((hrest.mem_taken hq₁).mp hj)
      rw [List.map_cons, List.pairwise_cons]
      refine ⟨fun j hj => htakes.least j (Queue.mem_due.mp (hin j hj).2).1, ?_⟩
      refine (ih hq₁).imp_of_mem ?_
      intro i j hi hj hle
      rwa [htakes.key i (hin i hi).1, htakes.key j (hin j hj).1] at hle

/-- **What is in the queue afterwards** was behind the bound, or was put back. -/
theorem Drains.entries_perm (h : Drains bound q l q') (hq : q.entries.Nodup) :
    q'.entries.Perm (q.later bound ++ (l.filter Prod.snd).map Prod.fst) := by
  induction h with
  | done hall =>
      rename_i q
      have hlater : q.later bound = q.entries := List.filter_eq_self.mpr (by simpa using hall)
      simp [hlater]
  | take htakes hrest ih =>
      rename_i q q₁ q' i back l
      have hfirst := (htakes.later_perm hq).append_right ((l.filter Prod.snd).map Prod.fst)
      refine (ih (htakes.nodup hq)).trans (hfirst.trans ?_)
      cases back <;> simp

theorem Drains.past (h : Drains bound q l q') : ∀ j ∈ q'.entries, bound < q'.key j := by
  induction h with
  | done hall => exact hall
  | take _ _ ih => exact ih

end Drain
