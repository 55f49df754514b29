/-
What the conversions of `NetworkUtil` do to each byte, and when an event survives
being encoded and decoded.

`hton` on a little-endian host reverses the bytes and `ntoa` lists them from the
top, so an array on the wire holds the word's bytes in the host's own order.
`aton` would undo that, but it widens a plain `char` before it shifts it: where
`char` is signed, a byte of 0x80 or more turns every byte above it into 0xff.
`byte_atoh_htoa` is that sentence, byte by byte, for words of any width.

The round trip of events follows: it holds exactly when neither field has a byte
in the way of such a smear.
-/
import RaftElection.Library.Bytes
import RaftElection.Protocol

namespace Raft

open Bytes

namespace NetworkUtil

variable {w : Nat}

/-! ### Byte by byte through the loops

`hton`, `ntoa` and `aton` are loops over shifts.  Each is brought to the value of its `k`-th byte,
and everything after that is about bytes.  `aton` shifts a plain `char`, so where `char` is signed
a byte from 128 on fills the bytes above it with ones.
-/

/-- The loop of `hton` from iteration `i` on: it ors byte `j` of `h` into the
mirrored position for every `j` it still passes. -/
theorem byte_htonLoop (h : BitVec (8 * w)) {k : Nat} (hk : k < w) :
    ∀ (fuel i : Nat) (n : BitVec (8 * w)), w - i ≤ fuel →
      byte (htonLoop h fuel (8 * i) n) k
        = byte n k ||| (if i ≤ w - 1 - k then byte h (w - 1 - k) else 0#8) := by
  intro fuel
  induction fuel with
  | zero =>
      intro i n hfuel
      have hi : ¬ i ≤ w - 1 - k := by omega
      simp [htonLoop, hi]
  | succ fuel ih =>
      intro i n hfuel
      unfold htonLoop
      by_cases hi : 8 * i ≤ 8 * w - 8
      · have hiw : i < w := by omega
        rw [if_pos hi, show 8 * i + 8 = 8 * (i + 1) by omega, ih (i + 1) _ (by omega),
          show 8 * w - 8 - 8 * i = 8 * (w - 1 - i) by omega, byte_or, byte_move h i hk]
        by_cases hki : k = w - 1 - i
        · have h1 : w - 1 - k = i := by omega
          simp [hki, show w - 1 - (w - 1 - i) = i by omega]
        · rw [if_neg hki]
          have hiff : i + 1 ≤ w - 1 - k ↔ i ≤ w - 1 - k := by omega
          simp [hiff]
      · have hik : ¬ i ≤ w - 1 - k := by omega
        rw [if_neg hi, if_neg hik]
        simp

theorem byte_hton (host : Host) (h : BitVec (8 * w)) {k : Nat} (hk : k < w) :
    byte (hton host h) k = byte h (if host.bigEndian then k else w - 1 - k) := by
  unfold hton
  cases host.bigEndian with
  | true => rfl
  | false =>
      have hloop := byte_htonLoop h hk (w + 1) 0 0#(8 * w) (by omega)
      simpa using hloop

/-- What one iteration of the loop of `hton` does. -/
def htonBody (h n : BitVec (8 * w)) (shift : Nat) : BitVec (8 * w) :=
  n ||| (((h >>> shift) &&& 0xff#(8 * w)) <<< (8 * w - 8 - shift))

/-- `htonShifts` lists the iterations of the loop. -/
theorem htonLoop_eq (h : BitVec (8 * w)) :
    ∀ (fuel shift : Nat) (n : BitVec (8 * w)),
      htonLoop h fuel shift n = (htonShifts w fuel shift).foldl (htonBody h) n := by
  intro fuel
  induction fuel with
  | zero => intro shift n; rfl
  | succ fuel ih =>
      intro shift n
      unfold htonLoop htonShifts
      split
      · rw [ih]
        rfl
      · rfl

/-- The iterations that are left from byte `i` on. -/
theorem htonShifts_eq (hw : 1 ≤ w) :
    ∀ (fuel i : Nat), i ≤ w → w - i < fuel →
      htonShifts w fuel (8 * i) = (List.range' i (w - i)).map (8 * ·) := by
  intro fuel
  induction fuel with
  | zero => intro i _ hfuel; omega
  | succ fuel ih =>
      intro i hi hfuel
      unfold htonShifts
      by_cases hlast : i = w
      · rw [if_neg (by omega), hlast, Nat.sub_self]
        rfl
      · rw [if_pos (by omega), show 8 * i + 8 = 8 * (i + 1) by omega,
          ih (i + 1) (by omega) (by omega), show w - i = w - (i + 1) + 1 by omega,
          List.range'_succ]
        rfl

/-- A little-endian host lists the bytes of the result in reverse. -/
theorem digits_hton {host : Host} (hlittle : host.bigEndian = false) (h : BitVec (8 * w)) :
    digits w (hton host h).toNat = (digits w h.toNat).reverse := by
  rw [digits_toNat, digits_toNat, ← List.map_reverse]
  refine List.ext_getElem (by simp) ?_
  intro j hj hj'
  have hjw : j < w := by simpa using hj
  simp only [List.getElem_map, List.getElem_range, List.getElem_reverse, List.length_range,
    byte_hton host h (show w - 1 - j < w by omega), hlittle]
  rfl

theorem hton_hton (host : Host) (h : BitVec (8 * w)) : hton host (hton host h) = h := by
  refine ext_byte fun k hk => ?_
  rw [byte_hton host _ hk]
  cases hbig : host.bigEndian with
  | true => simp [byte_hton host h hk, hbig]
  | false =>
      simp only [Bool.false_eq_true, if_false]
      rw [byte_hton host h (by omega), hbig]
      simp [show w - 1 - (w - 1 - k) = k by omega]

/-- **`hton` reverses the bytes.**  On a little-endian host the result has the digits of the
argument in base 256 in reverse, and converting it again gives the argument back.  However
long it may run, the loop makes one iteration for each byte, and neither `bits - 8` nor
`bits - 8 - shift` runs below zero, so both shift amounts are below the width. -/
theorem hton_reverses (hw : 1 ≤ w) (charSigned : Bool) (h : BitVec (8 * w)) :
    digits w (hton ⟨false, charSigned⟩ h).toNat = (digits w h.toNat).reverse ∧
      hton ⟨false, charSigned⟩ h = (htonShifts w (w + 1) 0).foldl (htonBody h) 0#(8 * w) ∧
      (∀ fuel, w < fuel → htonShifts w fuel 0 = (List.range w).map (8 * ·)) ∧
      8 ≤ 8 * w ∧
      (∀ shift ∈ htonShifts w (w + 1) 0,
        shift < 8 * w ∧ shift ≤ 8 * w - 8 ∧ 8 * w - 8 - shift < 8 * w) ∧
      ntoh ⟨false, charSigned⟩ (hton ⟨false, charSigned⟩ h) = h := by
  have hshifts : ∀ fuel, w < fuel → htonShifts w fuel 0 = (List.range w).map (8 * ·) := by
    intro fuel hfuel
    rw [List.range_eq_range']
    exact htonShifts_eq hw fuel 0 (Nat.zero_le w) hfuel
  refine ⟨digits_hton rfl h, htonLoop_eq h _ _ _, hshifts, by omega, ?_, hton_hton _ h⟩
  intro shift hshift
  rw [hshifts (w + 1) (Nat.lt_succ_self w)] at hshift
  obtain ⟨i, hi, rfl⟩ := List.mem_map.mp hshift
  have hiw : i < w := List.mem_range.mp hi
  omega

/-- A 32-bit word. -/
theorem hton_reverses_word :
    htonShifts 4 5 0 = [0, 8, 16, 24] ∧
      digits 4 (hton (w := 4) ⟨false, true⟩ 0x0a0b0c0d#32).toNat = [0x0d, 0x0c, 0x0b, 0x0a] := by
  obtain ⟨hdigits, -, hshifts, -⟩ := hton_reverses (w := 4) (by decide) true 0x0a0b0c0d#32
  exact ⟨hshifts 5 (by decide), hdigits⟩

theorem ntoaLoop_eq (n : BitVec (8 * w)) :
    ∀ (i s : Nat) (a : List Byte),
      ntoaLoop n i (8 * s) a = (List.range i).map (fun j => byte n (s + i - 1 - j)) ++ a := by
  intro i
  induction i with
  | zero => intro s a; simp [ntoaLoop]
  | succ i ih =>
      intro s a
      unfold ntoaLoop
      rw [show 8 * s + 8 = 8 * (s + 1) by omega, ih (s + 1), setWidth_ushiftRight,
        List.range_succ, List.map_append, List.append_assoc]
      simp

/-- `ntoa` lists the bytes from the most significant one down. -/
theorem ntoa_eq (n : BitVec (8 * w)) :
    ntoa n = (List.range w).map fun j => byte n (w - 1 - j) := by
  have h := ntoaLoop_eq n w 0 []
  simpa [ntoa] using h

/-- The array on the wire, in the order it is sent. -/
theorem htoa_eq (host : Host) (h : BitVec (8 * w)) :
    htoa host h
      = (List.range w).map fun j => byte h (if host.bigEndian then w - 1 - j else j) := by
  rw [htoa, ntoa_eq]
  refine List.map_congr_left ?_
  intro j hj
  have hjw : j < w := List.mem_range.mp hj
  rw [byte_hton host h (by omega)]
  cases host.bigEndian with
  | true => rfl
  | false => simp [show w - 1 - (w - 1 - j) = j by omega]

@[simp] theorem length_htoa (host : Host) (h : BitVec (8 * w)) : (htoa host h).length = w := by
  simp [htoa, ntoa_eq]

/-- A byte above cell `i` of the array is overwritten by the sign of some cell that
`aton` reads from `i` on. -/
def Smeared (host : Host) (f : Nat → Byte) (i w k : Nat) : Prop :=
  host.charSigned = true ∧ ∃ j, i ≤ j ∧ j < w ∧ w - 1 - k < j ∧ (f j).msb = true

theorem byte_widen (host : Host) (c : Byte) {j k : Nat} (hk : k < w) :
    byte (widen (w := w) host c <<< (8 * j)) k
      = if k = j then c
        else if host.charSigned = true ∧ j < k ∧ c.msb = true then 0xff#8 else 0#8 := by
  unfold widen
  cases host.charSigned with
  | true => simpa using byte_signExtend_shift c hk
  | false => simpa using byte_setWidth_shift c hk

open Classical in
/-- The loop of `aton` from cell `i` on. -/
theorem byte_atonLoop (host : Host) (f : Nat → Byte) {k : Nat} (hk : k < w) :
    ∀ (m i : Nat) (n : BitVec (8 * w)), i + m = w →
      byte (atonLoop host ((List.range' i m).map f) (8 * (m - 1)) n) k
        = byte n k ||| ((if i ≤ w - 1 - k then f (w - 1 - k) else 0#8)
            ||| (if Smeared host f i w k then 0xff#8 else 0#8)) := by
  intro m
  induction m with
  | zero =>
      intro i n hm
      have hi : ¬ i ≤ w - 1 - k := by omega
      have hs : ¬ Smeared host f i w k := by
        intro hbyte
        obtain ⟨-, j, hij, hjw, -⟩ := hbyte
        omega
      simp [atonLoop, hi, hs]
  | succ m ih =>
      intro i n hm
      rw [List.range'_succ, List.map_cons]
      unfold atonLoop
      rw [show m + 1 - 1 = m by omega, show 8 * m - 8 = 8 * (m - 1) by omega,
        ih (i + 1) _ (by omega), byte_or, byte_widen host (f i) hk]
      have hm' : m = w - 1 - i := by omega
      -- A cell smears over `k` from here on if this one does or a later one does.
      have hsmear : Smeared host f i w k ↔
          (host.charSigned = true ∧ m < k ∧ (f i).msb = true) ∨ Smeared host f (i + 1) w k := by
        constructor
        · intro hbyte
          obtain ⟨hc, j, hij, hjw, hkj, hmsb⟩ := hbyte
          rcases Nat.eq_or_lt_of_le hij with rfl | hlt
          · exact Or.inl ⟨hc, by omega, hmsb⟩
          · exact Or.inr ⟨hc, j, hlt, hjw, hkj, hmsb⟩
        · intro hbyte
          rcases hbyte with ⟨hc, hlt, hmsb⟩ | ⟨hc, j, hij, hjw, hkj, hmsb⟩
          · exact ⟨hc, i, Nat.le_refl i, by omega, by omega, hmsb⟩
          · exact ⟨hc, j, by omega, hjw, hkj, hmsb⟩
      by_cases hkm : k = m
      · have h1 : w - 1 - k = i := by omega
        have h2 : ¬ i + 1 ≤ w - 1 - k := by omega
        have h3 : Smeared host f i w k ↔ Smeared host f (i + 1) w k := by
          rw [hsmear]
          exact ⟨fun h => h.resolve_left (by omega), Or.inr⟩
        rw [if_pos hkm, if_neg h2, if_pos (by omega : i ≤ w - 1 - k), h1]
        simp only [h3, BitVec.zero_or, BitVec.or_assoc]
      · rw [if_neg hkm]
        have h2 : i + 1 ≤ w - 1 - k ↔ i ≤ w - 1 - k := by omega
        by_cases hthis : host.charSigned = true ∧ m < k ∧ (f i).msb = true
        · have hs : Smeared host f i w k := hsmear.mpr (Or.inl hthis)
          rw [if_pos hthis, if_pos hs]
          simp only [or_ones, ones_or]
        · have hs : Smeared host f i w k ↔ Smeared host f (i + 1) w k := by
            rw [hsmear]
            exact ⟨fun h => h.resolve_left hthis, Or.inr⟩
          rw [if_neg hthis]
          simp only [h2, hs, BitVec.or_zero]

/-! ### A word through `htoa` and back through `atoh`

What comes back differs from what was sent only where a byte was sign-extended over others.  Which
bytes those are depends on the order in which they were sent, so the condition is stated for
either byte order and decided on the word.
-/

private theorem eq_map_range {a : List Byte} (ha : a.length = w) :
    a = (List.range' 0 w).map fun j => a.getD j 0#8 := by
  refine List.ext_getElem (by simp [ha]) ?_
  intro i hi _
  simp [hi]

open Classical in
theorem byte_aton (host : Host) {a : List Byte} (ha : a.length = w) {k : Nat} (hk : k < w) :
    byte (aton (w := w) host a) k
      = if Smeared host (fun j => a.getD j 0#8) 0 w k then 0xff#8 else a.getD (w - 1 - k) 0#8 := by
  have hloop := byte_atonLoop host (fun j => a.getD j 0#8) hk w 0 0#(8 * w) (by omega)
  rw [← eq_map_range ha] at hloop
  unfold aton
  rw [show 8 * w - 8 = 8 * (w - 1) by omega, hloop, if_pos (Nat.zero_le _), byte_zero,
    BitVec.zero_or]
  split
  · rw [or_ones]
  · rw [BitVec.or_zero]

/-- A byte of the result below 0x80 was not smeared over. -/
theorem byte_aton_of_small (host : Host) {a : List Byte} (ha : a.length = w) {k : Nat}
    (hk : k < w) (h : (byte (aton (w := w) host a) k).msb = false) :
    byte (aton (w := w) host a) k = a.getD (w - 1 - k) 0#8 := by
  rw [byte_aton host ha hk] at h ⊢
  split at h
  · exact absurd h (by decide)
  · rename_i hno
    rw [if_neg hno]

/-- The cells of an array on the wire, in the order they are sent. -/
theorem getD_htoa (host : Host) (h : BitVec (8 * w)) {j : Nat} (hj : j < w) :
    (htoa host h).getD j 0#8 = byte h (if host.bigEndian then w - 1 - j else j) := by
  simp only [htoa_eq, List.getD_eq_getElem?_getD, List.getElem?_map, List.getElem?_range hj,
    Option.map_some, Option.getD_some]

/-- Byte `i` is sent after byte `k`, so that `aton` widens it over `k`. -/
def SentAfter (host : Host) (i k : Nat) : Prop :=
  if host.bigEndian then i < k else k < i

instance (host : Host) (i k : Nat) : Decidable (SentAfter host i k) :=
  inferInstanceAs (Decidable (if host.bigEndian then i < k else k < i))

open Classical in
/-- **What a word is after it was sent and received**: its own bytes, except that
each one is 0xff over which a later byte was widened with its sign. -/
theorem byte_atoh_htoa (host : Host) (h : BitVec (8 * w)) {k : Nat} (hk : k < w) :
    byte (atoh (w := w) host (htoa host h)) k
      = if host.charSigned = true ∧ ∃ i < w, SentAfter host i k ∧ (byte h i).msb = true
        then 0xff#8 else byte h k := by
  have hcell : ∀ j, j < w → (htoa host h).getD j 0#8
      = byte h (if host.bigEndian then w - 1 - j else j) := fun j hj => getD_htoa host h hj
  unfold atoh ntoh
  rw [byte_hton host _ hk]
  cases hb : host.bigEndian with
  | true =>
      simp only [hb, if_true] at hcell ⊢
      rw [byte_aton host (length_htoa host h) hk, hcell _ (by omega),
        show w - 1 - (w - 1 - k) = k by omega]
      refine if_congr (and_congr_right fun _ => ?_) rfl rfl
      constructor
      · intro hsmear
        obtain ⟨j, -, hjw, hkj, hmsb⟩ := hsmear
        simp only [hcell j hjw] at hmsb
        exact ⟨w - 1 - j, by omega, by simp only [SentAfter, hb, if_true]; omega, hmsb⟩
      · intro hsmear
        obtain ⟨i, hi, hik, hmsb⟩ := hsmear
        simp only [SentAfter, hb, if_true] at hik
        refine ⟨w - 1 - i, Nat.zero_le _, by omega, by omega, ?_⟩
        simp only [hcell _ (show w - 1 - i < w by omega)]
        rw [show w - 1 - (w - 1 - i) = i by omega]
        exact hmsb
  | false =>
      simp only [hb, Bool.false_eq_true, if_false] at hcell ⊢
      rw [byte_aton host (length_htoa host h) (by omega), hcell _ (by omega),
        show w - 1 - (w - 1 - k) = k by omega]
      refine if_congr (and_congr_right fun _ => ?_) rfl rfl
      constructor
      · intro hsmear
        obtain ⟨j, -, hjw, hkj, hmsb⟩ := hsmear
        simp only [hcell j hjw] at hmsb
        exact ⟨j, hjw, by simp only [SentAfter, hb, Bool.false_eq_true, if_false]; omega, hmsb⟩
      · intro hsmear
        obtain ⟨i, hi, hik, hmsb⟩ := hsmear
        simp only [SentAfter, hb, Bool.false_eq_true, if_false] at hik
        exact ⟨i, Nat.zero_le _, hi, by omega, by simpa only [hcell i hi] using hmsb⟩

/-- No byte of the word with its top bit set is sent after one other than 0xff, or
plain `char` is unsigned. -/
def Survives (host : Host) (x : BitVec (8 * w)) : Prop :=
  host.charSigned = true → ∀ i < w, ∀ k < w,
    SentAfter host i k → (byte x i).msb = true → byte x k = 0xff#8

instance (host : Host) (x : BitVec (8 * w)) : Decidable (Survives host x) :=
  inferInstanceAs (Decidable (_ → _))

/-- **A word comes back as it was sent exactly when it survives.** -/
theorem atoh_htoa_eq_iff (host : Host) (x : BitVec (8 * w)) :
    atoh host (htoa host x) = x ↔ Survives host x := by
  constructor
  · intro h hc i hi k hk hik hmsb
    have hbyte := byte_atoh_htoa host x hk
    rw [h, if_pos ⟨hc, i, hi, hik, hmsb⟩] at hbyte
    exact hbyte
  · intro h
    refine ext_byte fun k hk => ?_
    rw [byte_atoh_htoa host x hk]
    split
    · rename_i hsmear
      obtain ⟨hc, i, hi, hik, hmsb⟩ := hsmear
      exact (h hc i hi k hk hik hmsb).symm
    · rfl

/-- A word all of whose bytes are below 0x80 is read from one array only. -/
theorem atoh_eq_iff_of_small (host : Host) {a : List Byte} (ha : a.length = w)
    {t : BitVec (8 * w)} (ht : ∀ k < w, (byte t k).msb = false) :
    atoh host a = t ↔ a = htoa host t := by
  constructor
  · intro h
    -- No byte of the result is 0xff, so none of them was smeared over.
    have hcell : ∀ k < w, byte t k = a.getD (if host.bigEndian then w - 1 - k else k) 0#8 := by
      intro k hk
      have hmsb := ht k hk
      rw [← h] at hmsb ⊢
      unfold atoh ntoh at hmsb ⊢
      rw [byte_hton host _ hk] at hmsb ⊢
      rw [byte_aton_of_small host ha (by split <;> omega) hmsb]
      cases host.bigEndian with
      | true => rfl
      | false => simp [show w - 1 - (w - 1 - k) = k by omega]
    refine List.ext_getElem (by simp [ha]) ?_
    intro j hj _
    have hjw : j < w := by omega
    have hget := getD_htoa host t hjw
    rw [hcell _ (by split <;> omega)] at hget
    have hback : (if host.bigEndian then w - 1 - (if host.bigEndian then w - 1 - j else j)
        else (if host.bigEndian then w - 1 - j else j)) = j := by
      split <;> omega
    rw [hback] at hget
    simpa [hj, hjw] using hget.symm
  · intro heq
    subst heq
    refine (atoh_htoa_eq_iff host t).mpr fun _ i hi _ _ _ hmsb => ?_
    rw [ht i hi] at hmsb
    exact absurd hmsb (by decide)

end NetworkUtil

/-! ### Copying a range into a fixed array -/

namespace RaftEventFactory

open NetworkUtil

theorem readCells_map_some (l : List Byte) : readCells (l.map some) = .ok l := by
  induction l with
  | nil => rfl
  | cons c rest ih => simp [readCells, ih, Except.map]

theorem readCells_uninitialised (l : List Byte) (m : Nat) :
    readCells (l.map some ++ List.replicate (m + 1) none) = .error .uninitialised := by
  induction l with
  | nil => simp [List.replicate_succ, readCells]
  | cons c rest ih => simp [readCells, ih, Except.map]

/-- Everything a copy into an array of `size` cells can come to. -/
theorem copyRange_eq (src : List Byte) (first last size : Nat) :
    copyRange src first last size
      = if last < first ∨ src.length < last then .error .readOutside
        else if size < last - first then .error .writeOutside
        else if last - first < size then .error .uninitialised
        else .ok ((src.drop first).take size) := by
  unfold copyRange moveInto
  split
  · rfl
  · split
    · rfl
    · rename_i hread hwrite
      simp only [Except.bind]
      split
      · rename_i hshort
        rw [show size - (last - first) = (size - (last - first) - 1) + 1 by omega]
        exact readCells_uninitialised _ _
      · have hsize : last - first = size := by omega
        rw [hsize, Nat.sub_self, List.replicate_zero, List.append_nil]
        exact readCells_map_some _

/-- The 64-bit member an array of eight cells decodes to. -/
def word64 (host : Host) (a : List Byte) : UInt64 := UInt64.ofBitVec (atoh (w := 8) host a)

theorem decodeBase_eq (host : Host) (data : List Byte) :
    decodeBase host data
      = if data.length < 16 then .error .readOutside
        else .ok (word64 host (data.take 8), word64 host ((data.drop 8).take 8)) := by
  unfold decodeBase decodeMember64
  rw [copyRange_eq, copyRange_eq]
  by_cases h8 : data.length < 8
  · have h16 : data.length < 16 := by omega
    simp [h8, h16, Except.map, Except.bind]
  · by_cases h16 : data.length < 16
    · simp [h8, h16, Except.map, Except.bind]
    · simp [h8, h16, Except.map, Except.bind, word64]

theorem decodeRequestVoteRes_eq (host : Host) (data : List Byte) :
    decodeRequestVoteRes host data
      = if data.length < 16 then .error .readOutside
        else if 17 < data.length then .error .writeOutside
        else if data.length < 17 then .error .uninitialised
        else .ok (.requestVoteRes (word64 host (data.take 8))
          (word64 host ((data.drop 8).take 8)) (atohBool host ((data.drop 16).take 1))) := by
  unfold decodeRequestVoteRes decodeMemberBool
  rw [decodeBase_eq, copyRange_eq]
  by_cases h16 : data.length < 16
  · simp [h16, Except.bind]
  · have hw : (1 < data.length - 16) = (17 < data.length) := by
      rw [eq_iff_iff]; omega
    have hu : (data.length - 16 < 1) = (data.length < 17) := by
      rw [eq_iff_iff]; omega
    simp only [h16, if_false, Except.bind, Nat.lt_irrefl, or_self, hw, hu]
    split
    · rfl
    · split <;> rfl

/-! ### The round trip of events -/

theorem typeField_small : ∀ t ∈ [1#16, 2#16, 3#16, 4#16], ∀ k < 2, (byte t k).msb = false := by
  intro t ht k hk
  simp only [List.mem_cons, List.not_mem_nil, or_false] at ht
  have hk' : k = 0 ∨ k = 1 := by omega
  rcases ht with rfl | rfl | rfl | rfl <;> rcases hk' with rfl | rfl <;> rfl

/-- A body that opens with the type field of an event is decoded as that kind. -/
theorem decode_of_type (host : Host) {v : List Byte} (e : NetEvent)
    (hv : v.take 2 = htoa host e.getType) :
    decode host v = match e with
      | .requestVoteReq .. =>
          (decodeBase host (v.drop 2)).map fun base => .requestVoteReq base.1 base.2
      | .requestVoteRes .. => decodeRequestVoteRes host (v.drop 2)
      | .appendEntriesReq .. =>
          (decodeBase host (v.drop 2)).map fun base => .appendEntriesReq base.1 base.2
      | .appendEntriesRes .. =>
          (decodeBase host (v.drop 2)).map fun base => .appendEntriesRes base.1 base.2 := by
  have hlen : (v.take 2).length = 2 := by rw [hv, length_htoa]
  have hv2 : ¬ v.length < 2 := by
    rw [List.length_take] at hlen
    omega
  have hsmall : ∀ k < 2, (byte e.getType k).msb = false := by
    refine typeField_small e.getType ?_
    cases e <;> simp [NetEvent.getType]
  have htype : atoh host (v.take 2) = e.getType :=
    (atoh_eq_iff_of_small host hlen hsmall).mpr hv
  have hvtoh : vtoh16 host (v.take 2) = .ok e.getType := by
    unfold vtoh16
    rw [if_neg (by simp [hlen]), copyRange_eq, hlen]
    simp [Except.map, List.take_take, htype]
  unfold decode
  rw [if_neg hv2, hvtoh]
  cases e <;> rfl

/-- A 64-bit member after it was sent and received. -/
def resent (host : Host) (x : UInt64) : UInt64 := word64 host (htoa (w := 8) host x.toBitVec)

theorem resent_eq_iff (host : Host) (x : UInt64) :
    resent host x = x ↔ Survives (w := 8) host x.toBitVec := by
  rw [← atoh_htoa_eq_iff]
  unfold resent word64
  constructor
  · intro h
    have hbits := congrArg UInt64.toBitVec h
    simpa using hbits
  · intro h
    rw [h]

theorem atohBool_htoa (host : Host) (b : Bool) :
    atohBool host (htoa host (boolBits b)) = b := by
  obtain ⟨big, signed⟩ := host
  cases big <;> cases signed <;> cases b <;> decide

/-- Two members of eight bytes each are found where `RaftBaseEvent` looks for them. -/
private theorem fields_of_append {a b c : List Byte} (ha : a.length = 8) (hb : b.length = 8) :
    (a ++ (b ++ c)).take 8 = a ∧ ((a ++ (b ++ c)).drop 8).take 8 = b ∧
      (a ++ (b ++ c)).drop 16 = c := by
  refine ⟨List.take_left' ha, ?_, ?_⟩
  · rw [List.drop_left' ha, List.take_left' hb]
  · rw [← List.append_assoc]
    exact List.drop_left' (by simp [ha, hb])

/-- What an event is decoded to after it was encoded: its kind and flag are kept. -/
theorem decode_encode (host : Host) (e : NetEvent) :
    decode host (e.encode host) = .ok (match e with
      | .requestVoteReq serverId term => .requestVoteReq (resent host serverId) (resent host term)
      | .requestVoteRes serverId term voteGranted =>
          .requestVoteRes (resent host serverId) (resent host term) voteGranted
      | .appendEntriesReq serverId term =>
          .appendEntriesReq (resent host serverId) (resent host term)
      | .appendEntriesRes serverId term =>
          .appendEntriesRes (resent host serverId) (resent host term)) := by
  have hhead : (e.encode host).take 2 = htoa host e.getType := by
    unfold NetEvent.encode
    rw [List.take_append_of_le_length (by simp), List.take_of_length_le (by simp)]
  have hdata : (e.encode host).drop 2 = e.getData host := by
    unfold NetEvent.encode
    exact List.drop_left' (length_htoa host e.getType)
  rw [decode_of_type host e hhead, hdata]
  have h8 : ∀ x : UInt64, (htoa (w := 8) host x.toBitVec).length = 8 :=
    fun x => length_htoa host _
  cases e with
  | requestVoteRes serverId term voteGranted =>
      have h1 : (htoa host (boolBits voteGranted)).length = 1 := length_htoa host _
      obtain ⟨hid, hterm, hflag⟩ :=
        fields_of_append (c := htoa host (boolBits voteGranted)) (h8 serverId) (h8 term)
      simp only [decodeRequestVoteRes_eq, NetEvent.getData, NetEvent.encodeMember,
        List.flatMap_cons, List.flatMap_nil, List.append_nil, List.append_assoc, hid, hterm, hflag]
      rw [List.take_of_length_le (by omega), atohBool_htoa]
      simp [h8, h1, resent]
  | requestVoteReq serverId term | appendEntriesReq serverId term
  | appendEntriesRes serverId term =>
      obtain ⟨hid, hterm, -⟩ := fields_of_append (c := []) (h8 serverId) (h8 term)
      rw [List.append_nil] at hid hterm
      simp only [decodeBase_eq, NetEvent.getData, NetEvent.encodeMember, NetEvent.getServerId,
        NetEvent.getTerm, List.flatMap_cons, List.flatMap_nil, List.append_nil, hid, hterm]
      simp [h8, resent, Except.map]

/--
**An event comes back as it was sent exactly when both of its fields survive.**

On a host whose plain `char` is unsigned that is every event.  Where it is signed,
a field is lost as soon as one of its bytes has the top bit set and some byte sent
before it is not 0xff.
-/
theorem decode_encode_eq_iff (host : Host) (e : NetEvent) :
    decode host (e.encode host) = .ok e ↔
      Survives (w := 8) host e.getServerId.toBitVec ∧ Survives (w := 8) host e.getTerm.toBitVec := by
  rw [decode_encode, ← resent_eq_iff, ← resent_eq_iff]
  cases e <;> simp [NetEvent.getServerId, NetEvent.getTerm]

/-- On x86-64 a vote request of term 32768 arrives with term 33023. -/
theorem decode_encode_term_32768 :
    decode ⟨false, true⟩ ((NetEvent.requestVoteReq 1 32768).encode ⟨false, true⟩)
        = .ok (.requestVoteReq 1 33023) ∧
      ¬ ∀ (host : Host) (e : NetEvent), decode host (e.encode host) = .ok e := by
  have h : decode ⟨false, true⟩ ((NetEvent.requestVoteReq 1 32768).encode ⟨false, true⟩)
      = .ok (.requestVoteReq 1 33023) := by decide +kernel
  refine ⟨h, fun hall => ?_⟩
  have hsame := hall ⟨false, true⟩ (.requestVoteReq 1 32768)
  rw [h] at hsame
  exact absurd hsame (by decide +kernel)

/-! ### Bodies of any length

The body of a message is whatever a peer wrote, so `decode` meets every length.
The constructors slice at fixed offsets and `RequestVoteRes` takes all that is left
for its flag, so the length that is safe depends on the kind, and for that kind it
is one length only.
-/

/-- The decoder returned an event or threw its exception. -/
def Safe (r : Except DecodeFailure NetEvent) : Prop :=
  (∃ e, r = .ok e) ∨ ∃ what, r = .error (.invalidArgument what)

@[simp] theorem safe_ok (e : NetEvent) : Safe (.ok e) := Or.inl ⟨e, rfl⟩

@[simp] theorem safe_error (f : DecodeFailure) :
    Safe (.error f) ↔ ∃ what, f = .invalidArgument what := by
  simp [Safe]

/-- The body opens with the type field `t`. -/
def Announces (host : Host) (v : List Byte) (t : BitVec (8 * 2)) : Prop :=
  v.take 2 = htoa host t

instance (host : Host) (v : List Byte) (t : BitVec (8 * 2)) : Decidable (Announces host v t) :=
  inferInstanceAs (Decidable (_ = _))

/-- The body carries a type field, and the kind it announces fits the rest of it. -/
structure WellSized (host : Host) (v : List Byte) : Prop where
  typed : 2 ≤ v.length
  base : ∀ t ∈ [1#16, 3#16, 4#16], Announces host v t → 18 ≤ v.length
  flagged : Announces host v 2#16 → v.length = 19

/-- A body announces at most one of the kinds. -/
theorem announces_unique {host : Host} {v : List Byte} {s t : BitVec (8 * 2)}
    (hs : s ∈ [1#16, 2#16, 3#16, 4#16]) (ht : t ∈ [1#16, 2#16, 3#16, 4#16])
    (h : Announces host v s) (h' : Announces host v t) : s = t := by
  have hlen : (v.take 2).length = 2 := by rw [h, length_htoa]
  rw [← (atoh_eq_iff_of_small host hlen (typeField_small s hs)).mpr h,
    (atoh_eq_iff_of_small host hlen (typeField_small t ht)).mpr h']

theorem safe_base_iff {host : Host} {data : List Byte} {build : UInt64 × UInt64 → NetEvent} :
    Safe ((decodeBase host data).map build) ↔ 16 ≤ data.length := by
  rw [decodeBase_eq]
  split
  · simp only [Except.map, safe_error, reduceCtorEq, exists_false, false_iff]
    omega
  · simp only [Except.map, safe_ok, true_iff]
    omega

theorem safe_requestVoteRes_iff {host : Host} {data : List Byte} :
    Safe (decodeRequestVoteRes host data) ↔ data.length = 17 := by
  rw [decodeRequestVoteRes_eq]
  split
  · simp only [safe_error, reduceCtorEq, exists_false, false_iff]
    omega
  · split
    · simp only [safe_error, reduceCtorEq, exists_false, false_iff]
      omega
    · split
      · simp only [safe_error, reduceCtorEq, exists_false, false_iff]
        omega
      · simp only [safe_ok, true_iff]
        omega

/-- A type field that is none of the four ends in the exception. -/
theorem decode_of_unknown_type (host : Host) {v : List Byte} (hv : 2 ≤ v.length)
    (hno : ∀ t ∈ [1#16, 2#16, 3#16, 4#16], ¬ Announces host v t) :
    decode host v = .error (.invalidArgument "unsupported type") := by
  have hlen : (v.take 2).length = 2 := by rw [List.length_take]; omega
  have hvtoh : vtoh16 host (v.take 2) = .ok (atoh host (v.take 2)) := by
    unfold vtoh16
    rw [if_neg (by simp [hlen]), copyRange_eq, hlen]
    simp [Except.map, List.take_take]
  have hne : ∀ t ∈ [1#16, 2#16, 3#16, 4#16],
      (atoh (w := 2) host (v.take 2)).toNat ≠ t.toNat := by
    intro t ht hc
    exact hno t ht ((atoh_eq_iff_of_small host hlen (typeField_small t ht)).mp
      (BitVec.eq_of_toNat_eq hc))
  unfold decode
  rw [if_neg (by omega), hvtoh]
  simp only [Except.bind]
  split
  · rename_i hc; exact absurd hc (hne 1#16 (by simp))
  · rename_i hc; exact absurd hc (hne 2#16 (by simp))
  · rename_i hc; exact absurd hc (hne 3#16 (by simp))
  · rename_i hc; exact absurd hc (hne 4#16 (by simp))
  · rfl

/-- A body with no room for a type field stops at the assertion. -/
theorem decode_of_short (host : Host) {v : List Byte} (hv : v.length < 2) :
    decode host v = .error .assertion := by
  unfold decode
  rw [if_pos hv]

theorem mem_kinds_of_base {t : BitVec (8 * 2)} (ht : t ∈ [1#16, 3#16, 4#16]) :
    t ∈ [1#16, 2#16, 3#16, 4#16] :=
  List.cons_subset_cons _ (List.subset_cons_self _ _) ht

/-- The kinds without a flag need their two members. -/
private theorem safe_base_iff_wellSized {host : Host} {v : List Byte}
    {build : UInt64 × UInt64 → NetEvent} {t : BitVec (8 * 2)} (ht : t ∈ [1#16, 3#16, 4#16])
    (h : Announces host v t) :
    Safe ((decodeBase host (v.drop 2)).map build) ↔ WellSized host v := by
  have hmem := mem_kinds_of_base ht
  have hne : t ≠ 2#16 := by
    intro heq
    subst heq
    exact absurd ht (by decide)
  rw [safe_base_iff, List.length_drop]
  constructor
  · intro hlen
    refine ⟨by omega, fun _ _ _ => by omega, fun hc => ?_⟩
    exact absurd (announces_unique hmem (by simp) h hc) hne
  · intro hwell
    have := hwell.base t ht h
    omega

/--
**Decoding is safe exactly on the bodies whose length fits their kind.**

Every other body makes the decoder fail an assertion, read past the body, write
past the one-cell array of the flag, or read that cell uninitialised.
-/
theorem decode_safe_iff (host : Host) (v : List Byte) :
    Safe (decode host v) ↔ WellSized host v := by
  by_cases hshort : v.length < 2
  · rw [decode_of_short host hshort]
    constructor
    · intro h
      simp at h
    · intro h
      exact absurd h.typed (by omega)
  by_cases h1 : Announces host v 1#16
  · rw [decode_of_type host (.requestVoteReq 0 0) h1]
    exact safe_base_iff_wellSized (by simp) h1
  by_cases h2 : Announces host v 2#16
  · rw [decode_of_type host (.requestVoteRes 0 0 false) h2, safe_requestVoteRes_iff,
      List.length_drop]
    constructor
    · intro h
      exact ⟨by omega, fun _ _ _ => by omega, fun _ => by omega⟩
    · intro h
      have := h.flagged h2
      omega
  by_cases h3 : Announces host v 3#16
  · rw [decode_of_type host (.appendEntriesReq 0 0) h3]
    exact safe_base_iff_wellSized (by simp) h3
  by_cases h4 : Announces host v 4#16
  · rw [decode_of_type host (.appendEntriesRes 0 0) h4]
    exact safe_base_iff_wellSized (by simp) h4
  have hno : ∀ t ∈ [1#16, 2#16, 3#16, 4#16], ¬ Announces host v t := by
    simp [h1, h2, h3, h4]
  rw [decode_of_unknown_type host (by omega) hno]
  constructor
  · intro _
    refine ⟨by omega, fun t ht hc => ?_, fun hc => absurd hc h2⟩
    exact absurd hc (hno t (mem_kinds_of_base ht))
  · intro _
    simp

/-- A vote reply with two bytes behind its term writes past the flag's array. -/
theorem decode_long_requestVoteRes :
    decode ⟨false, true⟩ ([2#8, 0#8] ++ List.replicate 18 0#8) = .error .writeOutside ∧
      ¬ ∀ (host : Host) (v : List Byte), v.length ≤ 1024 → Safe (decode host v) := by
  have h : decode ⟨false, true⟩ ([2#8, 0#8] ++ List.replicate 18 0#8)
      = .error .writeOutside := by decide +kernel
  refine ⟨h, fun hall => ?_⟩
  have hsafe := hall ⟨false, true⟩ ([2#8, 0#8] ++ List.replicate 18 0#8) (by decide)
  rw [h] at hsafe
  simp at hsafe

end RaftEventFactory

end Raft
