/-
Sequences that were cut short, and sequences several writers contributed to.

`Longest P l p` says how far something got along `l`: as far as `P` allowed and no
further.  It is built from the front, one element at a time.

`mine t order` is what writer `t` put into a common sequence.  That the sequence is an
interleaving of what the writers set out to write is that `mine` gives back, for each of
them, its own list.

`l.flatMap f` joins what several sources have, and where one of them gets more at its end, so
does the whole: at the end if it is the last, and somewhere if it is not.
-/
import Mathlib.Data.List.Infix
import Mathlib.Data.List.Perm.Basic

namespace Sequences

section Longest

variable {α : Type*} {P : List α → Prop} {x : α} {l p : List α}

/-- `p` is the longest beginning of `l` with the property `P`. -/
structure Longest (P : List α → Prop) (l p : List α) : Prop where
  begins : p <+: l
  holds : P p
  most : ∀ q, q <+: l → P q → q <+: p

theorem Longest.nil (h : P []) : Longest P [] [] :=
  ⟨List.prefix_refl _, h, fun _ hq _ => hq⟩

/-- It goes past the first element, and from there as `P'` allows. -/
theorem Longest.cons {P' : List α → Prop} (hP : ∀ q, P (x :: q) ↔ P' q) (h : Longest P' l p) :
    Longest P (x :: l) (x :: p) := by
  refine ⟨(List.prefix_cons_inj x).mpr h.begins, (hP p).mpr h.holds, ?_⟩
  intro q hq hPq
  cases q with
  | nil => exact List.nil_prefix
  | cons y q =>
      obtain ⟨rfl, hrest⟩ := List.cons_prefix_cons.mp hq
      exact (List.prefix_cons_inj y).mpr (h.most q hrest ((hP q).mp hPq))

/-- It does not get past the first element. -/
theorem Longest.stop (h : P []) (hno : ∀ q, ¬ P (x :: q)) : Longest P (x :: l) [] := by
  refine ⟨List.nil_prefix, h, ?_⟩
  intro q hq hP
  cases q with
  | nil => exact List.prefix_refl _
  | cons y q =>
      obtain ⟨rfl, -⟩ := List.cons_prefix_cons.mp hq
      exact absurd hP (hno q)

/-- Where `P` holds of the whole sequence nothing is cut off. -/
theorem Longest.eq_self (h : Longest P l p) (hl : P l) : p = l :=
  h.begins.eq_of_length_le (h.most l (List.prefix_refl l) hl).length_le

end Longest

section Mine

variable {τ α : Type*} [DecidableEq τ]

/-- What `t` contributed, in order. -/
def mine (t : τ) (order : List (τ × α)) : List α :=
  (order.filter (·.1 = t)).map Prod.snd

@[simp] theorem mine_concat_self (t : τ) (x : α) (order : List (τ × α)) :
    mine t (order ++ [(t, x)]) = mine t order ++ [x] := by
  simp [mine]

@[simp] theorem mine_concat_of_ne {t t' : τ} (h : t ≠ t') (x : α) (order : List (τ × α)) :
    mine t' (order ++ [(t, x)]) = mine t' order := by
  simp [mine, h]

theorem mem_mine {t : τ} {x : α} {order : List (τ × α)} (h : (t, x) ∈ order) :
    x ∈ mine t order := by
  simpa [mine] using h

theorem mine_sublist (t : τ) {order order' : List (τ × α)} (h : order.Sublist order') :
    (mine t order).Sublist (mine t order') :=
  (h.filter _).map _

end Mine

section Joined

variable {α β : Type*} {l : List α} {i : Nat} {x x' : α} {f : α → List β} {more : List β}

theorem split_set (h : l[i]? = some x) (x' : α) :
    ∃ l₁ l₂, l = l₁ ++ x :: l₂ ∧ l₁.length = i ∧ l.set i x' = l₁ ++ x' :: l₂ := by
  obtain ⟨hi, rfl⟩ := List.getElem?_eq_some_iff.mp h
  exact List.exists_of_set hi

/-- An element of the list after the change is the new one, or was there. -/
theorem getElem?_set_cases {j : Nat} {y : α} (h : (l.set i x')[j]? = some y) :
    j = i ∧ y = x' ∨ j ≠ i ∧ l[j]? = some y := by
  by_cases hj : i = j
  · subst hj
    have hi : i < l.length := by simpa using (List.getElem?_eq_some_iff.mp h).1
    rw [List.getElem?_set_self hi] at h
    exact Or.inl ⟨rfl, (Option.some.inj h).symm⟩
  · rw [List.getElem?_set_ne hj] at h
    exact Or.inr ⟨Ne.symm hj, h⟩

theorem flatMap_set (h : l[i]? = some x) (hf : f x' = f x) :
    (l.set i x').flatMap f = l.flatMap f := by
  obtain ⟨l₁, l₂, hl, -, hset⟩ := split_set h x'
  rw [hset, List.flatMap_append, List.flatMap_cons, hf, ← List.flatMap_cons, ← List.flatMap_append,
    ← hl]

theorem flatMap_set_last (h : l[i]? = some x) (hlast : i + 1 = l.length) (hf : f x' = f x ++ more) :
    (l.set i x').flatMap f = l.flatMap f ++ more := by
  obtain ⟨l₁, l₂, hl, hlen, hset⟩ := split_set h x'
  obtain rfl : l₂ = [] := by
    have hlength := congrArg List.length hl
    simp only [List.length_append, List.length_cons] at hlength
    exact List.eq_nil_of_length_eq_zero (by omega)
  rw [hset, hl, List.flatMap_append, List.flatMap_append, List.flatMap_singleton,
    List.flatMap_singleton, hf, List.append_assoc]

theorem flatMap_set_perm (h : l[i]? = some x) (hf : f x' = f x ++ more) :
    ((l.set i x').flatMap f).Perm (l.flatMap f ++ more) := by
  obtain ⟨l₁, l₂, hl, -, hset⟩ := split_set h x'
  rw [hset, hl, List.flatMap_append, List.flatMap_append, List.flatMap_cons, List.flatMap_cons, hf,
    List.append_assoc, List.append_assoc, List.append_assoc]
  exact ((List.perm_append_comm.append_left _).append_left _)

/-- A beginning of each part, joined. -/
theorem flatMap_take_sublist (f : α → List β) (n : α → Nat) (l : List α) :
    (l.flatMap fun x => (f x).take (n x)).Sublist (l.flatMap f) := by
  induction l with
  | nil => exact List.Sublist.refl _
  | cons x rest ih =>
      rw [List.flatMap_cons, List.flatMap_cons]
      exact (List.take_sublist _ _).append ih

end Joined

end Sequences
