/-
Majorities, and elections decided by them.

A ballot says which voter supports which candidate, and that no voter supports two.
Nothing is said of how votes are cast, carried or counted: a candidate wins when
some majority of the members supports it.  Two majorities of one set meet, which
settles everything here — a ballot has at most one winner, and a set that meets
some majority in few places cannot be large.
-/
import Mathlib.Data.Finset.Card

namespace Quorum

variable {α β : Type*}

/-- More than half of `M`. -/
structure Majority (M Q : Finset α) : Prop where
  subset : Q ⊆ M
  card : M.card / 2 + 1 ≤ Q.card

section Majority

variable [DecidableEq α] {M Q Q' L : Finset α}

/-- What is outside a majority and what is inside it add up to the whole. -/
theorem Majority.card_le_of_inter {k : Nat} (hQ : Majority M Q) (hL : L ⊆ M)
    (hk : (L ∩ Q).card ≤ k) : L.card ≤ M.card - (M.card / 2 + 1) + k := by
  have hsplit : (L \ Q).card + (L ∩ Q).card = L.card := Finset.card_sdiff_add_card_inter L Q
  have hout : (L \ Q).card ≤ (M \ Q).card :=
    Finset.card_le_card (Finset.sdiff_subset_sdiff hL (Finset.Subset.refl Q))
  have hM : (M \ Q).card = M.card - Q.card := Finset.card_sdiff_of_subset hQ.subset
  have hcard := hQ.card
  omega

/-- **Two majorities have a member in common.** -/
theorem Majority.inter_nonempty (hQ : Majority M Q) (hQ' : Majority M Q') :
    (Q ∩ Q').Nonempty := by
  rw [Finset.nonempty_iff_ne_empty]
  intro hempty
  have hbound : Q.card ≤ M.card - (M.card / 2 + 1) + 0 := by
    refine hQ'.card_le_of_inter hQ.subset ?_
    rw [hempty, Finset.card_empty]
  have hcard := hQ.card
  have hle := Finset.card_le_card hQ.subset
  omega

end Majority

/-- Who supports whom in one election. -/
structure Ballot (α β : Type*) where
  votes : α → β → Prop
  once : ∀ v c c', votes v c → votes v c' → c = c'

namespace Ballot

/-- A majority of `M` supports `c`. -/
def Wins (b : Ballot α β) (M : Finset α) (c : β) : Prop :=
  ∃ Q, Majority M Q ∧ ∀ v ∈ Q, b.votes v c

/-- **A ballot has at most one winner.** -/
theorem Wins.unique [DecidableEq α] {b : Ballot α β} {M : Finset α} {c c' : β}
    (h : b.Wins M c) (h' : b.Wins M c') : c = c' := by
  obtain ⟨Q, hQ, hvotes⟩ := h
  obtain ⟨Q', hQ', hvotes'⟩ := h'
  obtain ⟨v, hv⟩ := hQ.inter_nonempty hQ'
  rw [Finset.mem_inter] at hv
  exact b.once v c c' (hvotes v hv.1) (hvotes' v hv.2)

end Ballot

end Quorum
