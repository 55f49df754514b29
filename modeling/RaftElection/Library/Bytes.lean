/-
Words as sequences of bytes.

A word of `w` bytes is a `BitVec (8 * w)`, and `byte x k` is its digit of weight
256^k.  Two words are equal when all their bytes are, so a statement about a loop
that assembles a word with shifts and ors is reduced to one byte at a time: the
lemmas below say what byte `k` of a shifted or widened piece is, and nothing above
this file looks at single bits again.
-/
import Mathlib.Tactic.Ring

namespace Bytes

/-- The digit of weight 256^k. -/
def byte {n : Nat} (x : BitVec n) (k : Nat) : BitVec 8 := x.extractLsb' (8 * k) 8

theorem getLsbD_byte {n : Nat} (x : BitVec n) (k i : Nat) :
    (byte x k).getLsbD i = (decide (i < 8) && x.getLsbD (8 * k + i)) := by
  simp [byte]

/-- Words with the same bytes are the same word. -/
theorem ext_byte {w : Nat} {x y : BitVec (8 * w)}
    (h : ∀ k, k < w → byte x k = byte y k) : x = y := by
  apply BitVec.eq_of_getLsbD_eq
  intro i hi
  have hk : i / 8 < w := by omega
  have hbit := congrArg (fun b : BitVec 8 => b.getLsbD (i % 8)) (h (i / 8) hk)
  simp only [getLsbD_byte] at hbit
  have hmod : i % 8 < 8 := Nat.mod_lt _ (by decide)
  have hsum : 8 * (i / 8) + i % 8 = i := Nat.div_add_mod i 8
  simpa [hmod, hsum] using hbit

@[simp] theorem byte_or {n : Nat} (x y : BitVec n) (k : Nat) :
    byte (x ||| y) k = byte x k ||| byte y k := by
  apply BitVec.eq_of_getLsbD_eq
  intro i hi
  simp only [getLsbD_byte, BitVec.getLsbD_or, hi, decide_true, Bool.true_and]

@[simp] theorem byte_zero (n k : Nat) : byte (0#n) k = 0#8 := by
  apply BitVec.eq_of_getLsbD_eq
  intro i hi
  simp [getLsbD_byte]

@[simp] theorem or_ones (c : BitVec 8) : c ||| 0xff#8 = 0xff#8 := BitVec.or_allOnes

@[simp] theorem ones_or (c : BitVec 8) : 0xff#8 ||| c = 0xff#8 := BitVec.allOnes_or

/-- Truncating a word to eight bits after a shift reads one byte of it. -/
theorem setWidth_ushiftRight {n : Nat} (x : BitVec n) (k : Nat) :
    (x >>> (8 * k)).setWidth 8 = byte x k := by
  apply BitVec.eq_of_getLsbD_eq
  intro i hi
  simp only [getLsbD_byte, BitVec.getLsbD_setWidth, BitVec.getLsbD_ushiftRight]

/-! ### Bytes as digits -/

/-- The digits of a number in base 256, the most significant of `w` first. -/
def digits (w n : Nat) : List (BitVec 8) :=
  (List.range w).map fun j => BitVec.ofNat 8 (n / 256 ^ (w - 1 - j))

theorem byte_eq_ofNat {n : Nat} (x : BitVec n) (k : Nat) :
    byte x k = BitVec.ofNat 8 (x.toNat / 256 ^ k) := by
  apply BitVec.eq_of_toNat_eq
  rw [byte, BitVec.extractLsb'_toNat, BitVec.toNat_ofNat, Nat.shiftRight_eq_div_pow, Nat.pow_mul]

theorem digits_toNat {w : Nat} (x : BitVec (8 * w)) :
    digits w x.toNat = (List.range w).map fun j => byte x (w - 1 - j) := by
  simp only [digits, byte_eq_ofNat]

theorem msb_byte_eq_false {n : Nat} {x : BitVec n} {k : Nat} (h : x.toNat / 256 ^ k < 128) :
    (byte x k).msb = false := by
  rw [byte_eq_ofNat, BitVec.msb_eq_false_iff_two_mul_lt, BitVec.toNat_ofNat,
    Nat.mod_eq_of_lt (by omega)]
  omega

/-- Bytes that are all ones make a word larger, never smaller. -/
theorem toNat_le_of_bytes {w : Nat} {x y : BitVec (8 * w)}
    (h : ∀ k, k < w → byte y k = byte x k ∨ byte y k = 0xff#8) : x.toNat ≤ y.toNat := by
  have hor : x ||| y = y := by
    refine ext_byte fun k hk => ?_
    rw [byte_or]
    rcases h k hk with heq | hones
    · rw [heq, BitVec.or_self]
    · rw [hones, or_ones]
  rw [← hor, BitVec.toNat_or]
  exact Nat.left_le_or

/-! ### Pieces a word is assembled from -/

/-- Moving byte `i` to position `j` with a mask and two shifts. -/
theorem byte_move {w : Nat} (x : BitVec (8 * w)) (i : Nat) {j k : Nat} (hk : k < w) :
    byte (((x >>> (8 * i)) &&& 0xff#(8 * w)) <<< (8 * j)) k
      = if k = j then byte x i else 0#8 := by
  apply BitVec.eq_of_getLsbD_eq
  intro b hb
  have hmask : ∀ m, (0xff#(8 * w)).getLsbD m = (decide (m < 8 * w) && decide (m < 8)) := by
    intro m
    rw [BitVec.getLsbD_ofNat, show (0xff : Nat) = 2 ^ 8 - 1 from rfl,
      Nat.testBit_two_pow_sub_one]
  simp only [getLsbD_byte, BitVec.getLsbD_shiftLeft, BitVec.getLsbD_and,
    BitVec.getLsbD_ushiftRight, hmask, hb]
  by_cases hkj : k = j
  · subst hkj
    have h1 : 8 * k + b < 8 * w := by omega
    have h2 : ¬ 8 * k + b < 8 * k := by omega
    have h3 : 8 * k + b - 8 * k = b := by omega
    have h4 : b < 8 * w := by omega
    rw [if_pos rfl, getLsbD_byte]
    simp [h1, h2, h3, h4, hb]
  · rw [if_neg hkj]
    rcases Nat.lt_or_gt_of_ne hkj with hlt | hgt
    · have h2 : 8 * k + b < 8 * j := by omega
      simp [h2]
    · have h3 : ¬ 8 * k + b - 8 * j < 8 := by omega
      simp [h3]

/-- A byte widened with zeros and shifted to position `j`. -/
theorem byte_setWidth_shift {w : Nat} (c : BitVec 8) {j k : Nat} (hk : k < w) :
    byte ((c.setWidth (8 * w)) <<< (8 * j)) k = if k = j then c else 0#8 := by
  apply BitVec.eq_of_getLsbD_eq
  intro b hb
  simp only [getLsbD_byte, BitVec.getLsbD_shiftLeft, BitVec.getLsbD_setWidth, hb]
  by_cases hkj : k = j
  · subst hkj
    have h1 : 8 * k + b < 8 * w := by omega
    have h2 : ¬ 8 * k + b < 8 * k := by omega
    have h3 : 8 * k + b - 8 * k = b := by omega
    have h4 : b < 8 * w := by omega
    simp [h1, h2, h3, h4]
  · rw [if_neg hkj]
    rcases Nat.lt_or_gt_of_ne hkj with hlt | hgt
    · have h2 : 8 * k + b < 8 * j := by omega
      simp [h2]
    · have h3 : 8 ≤ 8 * k + b - 8 * j := by omega
      simp [BitVec.getLsbD_of_ge c _ h3]

/-- A byte widened with its sign and shifted to position `j`: every byte above `j`
is all ones when the sign is set. -/
theorem byte_signExtend_shift {w : Nat} (c : BitVec 8) {j k : Nat} (hk : k < w) :
    byte ((c.signExtend (8 * w)) <<< (8 * j)) k
      = if k = j then c else if j < k ∧ c.msb = true then 0xff#8 else 0#8 := by
  apply BitVec.eq_of_getLsbD_eq
  intro b hb
  simp only [getLsbD_byte, BitVec.getLsbD_shiftLeft, BitVec.getLsbD_signExtend, hb]
  by_cases hkj : k = j
  · subst hkj
    have h1 : 8 * k + b < 8 * w := by omega
    have h2 : ¬ 8 * k + b < 8 * k := by omega
    have h3 : 8 * k + b - 8 * k = b := by omega
    have h4 : b < 8 * w := by omega
    simp [h1, h2, h3, h4, hb]
  · rw [if_neg hkj]
    rcases Nat.lt_or_gt_of_ne hkj with hlt | hgt
    · have h2 : 8 * k + b < 8 * j := by omega
      have h3 : ¬ j < k := by omega
      simp [h2, h3]
    · have h1 : 8 * k + b < 8 * w := by omega
      have h2 : ¬ 8 * k + b < 8 * j := by omega
      have h3 : ¬ 8 * k + b - 8 * j < 8 := by omega
      have h4 : 8 * k + b - 8 * j < 8 * w := by omega
      have hones : (0xff#8).getLsbD b = true := by
        rw [BitVec.getLsbD_ofNat, show (0xff : Nat) = 2 ^ 8 - 1 from rfl,
          Nat.testBit_two_pow_sub_one]
        simp [hb]
      cases hc : c.msb with
      | true => simp [h1, h2, h3, h4, hgt, hones]
      | false => simp [h1, h2, h3, h4]

end Bytes
