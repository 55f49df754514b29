/-
What a server gets of what another sends it.

The pool makes a connection only when the last one is closed, and on one that is closed
nobody writes.  What the threads of a client begin is therefore begun in the order of the
connections, and a message is begun on one connection only.  With what comes out of each
connection this says that a message is delivered once or not at all (`Sound`), and where
nothing breaks, that all are (`Lossless`).

Of the events that travel in these messages the same is true, in the shape in which they
arrive.
-/
import RaftElection.Proofs.Links

namespace Raft

open NetworkUtil Sequences Transition

namespace Channel

variable {τ : Type} {sender receiver : Host} {c c' : Channel τ}

/-- All that was begun, in the order of the connections. -/
def begun (c : Channel τ) : List (τ × List Byte) := c.links.flatMap Link.begun

/-- All that was delivered, in that order. -/
def delivered (c : Channel τ) : List (List Byte) := c.links.flatMap (·.server.delivered)

/-- What a thread has been asked to send and has not begun. -/
def pending (c : Channel τ) (t : τ) : List (List Byte) :=
  match c.writer t with
  | some w => if w.written = 0 then [w.data] else []
  | none => []

/-- What writers there are on a connection: it is torn at most where one of them is, or where
one has failed. -/
structure Attended (c : Channel τ) (l : Nat) (k : Link τ) (torn : Option (List Byte × Nat)) :
    Prop where
  writing : ∀ t w, c.writer t = some w → w.link = l → 0 < w.written →
    torn = some (w.data, w.written)
  torn : k.closed = false → ∀ x, torn = some x → ∃ t w, c.writer t = some w ∧ w.link = l ∧
    w.data = x.1 ∧ w.written = x.2 ∧ 0 < w.written

/-- What `get` returns: the last connection if it is open, else a new one or none. -/
theorem get_cases (c : Channel τ) (connects : Bool) :
    (∃ k l, c.links[l]? = some k ∧ k.closed = false ∧ c.get connects = (c, some l)) ∨
      (∀ l k, l + 1 = c.links.length → c.links[l]? = some k → k.closed = true) ∧
        (connects = true ∧
            c.get connects = ({ c with links := c.links ++ [{}] }, some c.links.length) ∨
          connects = false ∧ c.get connects = (c, none)) := by
  unfold get
  cases hlast : c.links.getLast? with
  | none =>
      rw [List.getLast?_eq_none_iff] at hlast
      refine Or.inr ⟨?_, ?_⟩
      · intro l k hl
        rw [hlast] at hl
        cases hl
      · cases connects <;> simp
  | some k =>
      rw [List.getLast?_eq_getElem?] at hlast
      cases hclosed : k.closed with
      | false =>
          refine Or.inl ⟨k, c.links.length - 1, hlast, hclosed, ?_⟩
          simp [hclosed]
      | true =>
          refine Or.inr ⟨?_, ?_⟩
          · intro l k' hl hk'
            obtain rfl : l = c.links.length - 1 := by omega
            obtain rfl := Option.some.inj (hlast.symm.trans hk')
            exact hclosed
          · cases connects <;> simp [hclosed]

variable [DecidableEq τ]

/-! ### The invariant

`get` looks at the last connection only and makes a new one when that is closed, so connections
are used one after another.  A thread may be left on one that has been closed, but `Apart` lets it
write nothing there.  What the threads have begun is therefore in the order of the connections,
and each connection has at most one frame that is not whole, the last.
-/

/-- The messages a thread has taken up: begun, or to be begun next. -/
def taken (c : Channel τ) (t : τ) : List (List Byte) := mine t c.begun ++ c.pending t

/-- The channel is in order. -/
structure Sound (sender receiver : Host) (c : Channel τ) : Prop where
  links : ∀ l k, c.links[l]? = some k → ∃ later torn, Link.Intact sender receiver k later torn ∧
    c.Attended l k torn
  /-- A thread is on a connection there is, and has not finished its frame. -/
  writers : ∀ t w, c.writer t = some w → w.link < c.links.length ∧
    w.written < (Message.encode sender w.data).length ∧ Legible sender receiver w.data.length
  /-- All connections but the last are closed. -/
  closed : ∀ l k, c.links[l]? = some k → l + 1 < c.links.length → k.closed = true
  order : ∀ t, (c.taken t).Sublist (c.asked t)
  perm : c.received.Perm c.delivered
  sublist : ∀ k ∈ c.links, k.server.delivered.Sublist c.received

/-- Nobody writes while another is in the middle of a frame on the same connection, nor where a
write has failed. -/
def Apart (c : Channel τ) : ChannelAction τ → Prop
  | .writeSome t _ => ∀ w ∈ c.writer t, (∀ k ∈ c.links[w.link]?, k.closed = false) ∧
      ∀ t', t' ≠ t → ∀ w' ∈ c.writer t', w'.link = w.link → w'.written = 0
  | _ => True

/-- Steps in which frames stay apart and the receiver can tell which messages fit its buffer. -/
def Orderly (sender receiver : Host) (c : Channel τ) (x : ChannelAction τ) (_ : Channel τ) : Prop :=
  match x with
  | .send _ data _ => Legible sender receiver data.length
  | _ => c.Apart x

section Steps

variable {l : Nat} {k k' : Link τ} {t : τ} {w : Writing}

/-- Another connection is not touched by what a writer does on its own. -/
theorem Attended.other {j : Nat} {torn : Option (List Byte × Nat)} {w' : Option Writing}
    (h : c.Attended j k torn) (hw : c.writer t = some w) (hj : w.link ≠ j)
    (hw' : ∀ v, w' = some v → v.link = w.link) (links : List (Link τ)) :
    Attended { c.setWriter t w' with links := links } j k torn := by
  constructor
  · intro t' v hv hlink hpos
    by_cases ht : t' = t
    · subst ht
      simp only [setWriter, Function.update_self] at hv
      exact absurd ((hw' v hv).symm.trans hlink) hj
    · simp only [setWriter, Function.update_of_ne ht] at hv
      exact h.writing t' v hv hlink hpos
  · intro hclosed x hx
    obtain ⟨t', v, hv, hlink, hrest⟩ := h.torn hclosed x hx
    have ht : t' ≠ t := by
      rintro rfl
      obtain rfl := Option.some.inj (hw.symm.trans hv)
      exact hj hlink
    exact ⟨t', v, (Function.update_of_ne ht ..).trans hv, hlink, hrest⟩

/-- What arrives, is lost or is read changes one connection at the server's end. -/
theorem Sound.serve (h : Sound sender receiver c) (hk : c.links[l]? = some k)
    (hclosed : k'.closed = k.closed) (hbegun : k'.begun = k.begun) {more : List (List Byte)}
    (hdelivered : k'.server.delivered = k.server.delivered ++ more)
    (hintact : ∀ later torn, Link.Intact sender receiver k later torn →
      ∃ later', Link.Intact sender receiver k' later' torn) :
    Sound sender receiver { c.setLink l k' with received := c.received ++ more } := by
  constructor
  case links =>
    intro j v hv
    rcases getElem?_set_cases hv with ⟨rfl, rfl⟩ | ⟨-, hv⟩
    · obtain ⟨later, torn, hk', hattended⟩ := h.links j k hk
      obtain ⟨later', hlater⟩ := hintact later torn hk'
      exact ⟨later', torn, hlater, hattended.writing, fun hc => hattended.torn (hclosed ▸ hc)⟩
    · obtain ⟨later, torn, hv', hattended⟩ := h.links j v hv
      exact ⟨later, torn, hv', hattended.writing, hattended.torn⟩
  case writers =>
    intro t w hw
    obtain ⟨hlink, hrest⟩ := h.writers t w hw
    exact ⟨by simpa [setLink] using hlink, hrest⟩
  case closed =>
    intro j v hv hlast
    simp only [setLink, List.length_set] at hlast
    rcases getElem?_set_cases hv with ⟨rfl, rfl⟩ | ⟨-, hv⟩
    · rw [hclosed]
      exact h.closed j k hk hlast
    · exact h.closed j v hv hlast
  case order =>
    intro t
    have hsame : (c.links.set l k').flatMap Link.begun = c.links.flatMap Link.begun :=
      flatMap_set hk hbegun
    show (mine t ((c.links.set l k').flatMap Link.begun) ++ c.pending t).Sublist (c.asked t)
    rw [hsame]
    exact h.order t
  case perm =>
    exact (h.perm.append_right more).trans (flatMap_set_perm hk hdelivered).symm
  case sublist =>
    intro v hv
    obtain ⟨j, hj⟩ := List.mem_iff_getElem?.mp hv
    rcases getElem?_set_cases hj with ⟨rfl, rfl⟩ | ⟨-, hj⟩
    · rw [hdelivered]
      exact (h.sublist k (List.mem_of_getElem? hk)).append_right more
    · exact (h.sublist v (List.mem_of_getElem? hj)).trans (List.sublist_append_left _ _)

/-- A connection that is not closed is the last. -/
theorem Sound.last (h : Sound sender receiver c) (hk : c.links[l]? = some k)
    (hopen : k.closed = false) : l + 1 = c.links.length := by
  have hlt := (List.getElem?_eq_some_iff.mp hk).1
  by_contra hne
  exact absurd (hopen.symm.trans (h.closed l k hk (by omega))) (by decide)

/-! ### Writing

A write adds to the frame that is torn, or begins one where none is.  `Apart` excludes what would
fall between: a write of one thread while another is in the middle of its frame.
-/

/-- What is written was taken up before. -/
theorem taken_writeSome {n : Nat} (hw : c.writer t = some w) (hk : c.links[w.link]? = some k)
    (hlast : w.link + 1 = c.links.length) (hpos : 0 < n) (t' : τ) :
    ((c.setLink w.link (put sender t w n k)).setWriter t
      (if w.written + n = (Message.encode sender w.data).length then none
        else some { w with written := w.written + n })).taken t' = c.taken t' := by
  have hbegun : (c.links.set w.link (put sender t w n k)).flatMap Link.begun
      = c.begun ++ (if w.written = 0 then [(t, w.data)] else []) := by
    refine flatMap_set_last hk hlast ?_
    simp only [put]
    split <;> simp
  show mine t' ((c.links.set w.link (put sender t w n k)).flatMap Link.begun) ++ _
    = mine t' c.begun ++ _
  rw [hbegun]
  by_cases ht : t' = t
  · subst ht
    -- The message is begun now, or has been begun before.
    have hnone : ((c.setLink w.link (put sender t' w n k)).setWriter t'
        (if w.written + n = (Message.encode sender w.data).length then none
          else some { w with written := w.written + n })).pending t' = [] := by
      simp only [pending, setWriter, Function.update_self]
      split
      · rename_i v hv
        split at hv
        · cases hv
        · obtain rfl := Option.some.inj hv
          exact if_neg (by show ¬ w.written + n = 0; omega)
      · rfl
    rw [hnone, pending, hw]
    by_cases hzero : w.written = 0 <;> simp [hzero]
  · have hsame : ((c.setLink w.link (put sender t w n k)).setWriter t
        (if w.written + n = (Message.encode sender w.data).length then none
          else some { w with written := w.written + n })).pending t' = c.pending t' := by
      simp only [pending, setWriter, setLink, Function.update_of_ne ht]
    rw [hsame]
    by_cases hzero : w.written = 0
    · rw [if_pos hzero, mine_concat_of_ne (Ne.symm ht)]
    · rw [if_neg hzero, List.append_nil]

theorem Sound.writeSome (h : Sound sender receiver c) {n : Nat}
    (hstep : c.step sender receiver (.writeSome t n) = some c')
    (hx : Orderly sender receiver c (.writeSome t n) c') : Sound sender receiver c' := by
  obtain ⟨w, hw, hstep⟩ := Option.bind_eq_some_iff.mp hstep
  obtain ⟨k, hk, hstep⟩ := Option.bind_eq_some_iff.mp hstep
  obtain ⟨⟨hpos, hroom⟩, hc'⟩ := Option.ite_none_right_eq_some.mp hstep
  obtain rfl := Option.some.inj hc'
  obtain ⟨hopen, halone⟩ := hx w hw
  have hopen := hopen k hk
  have hlast := h.last hk hopen
  obtain ⟨hlink, hlt, hlegible⟩ := h.writers t w hw
  let rest : Option Writing :=
    if w.written + n = (Message.encode sender w.data).length then none
    else some { w with written := w.written + n }
  have hrest : ∀ v, rest = some v → v.link = w.link := by
    intro v hv
    simp only [rest] at hv
    split at hv
    · cases hv
    · obtain rfl := Option.some.inj hv
      rfl
  have hself : ((c.setLink w.link (put sender t w n k)).setWriter t rest).writer t = rest :=
    Function.update_self ..
  have hothers : ∀ t', t' ≠ t → ((c.setLink w.link (put sender t w n k)).setWriter t rest).writer t'
      = c.writer t' := fun t' ht => Function.update_of_ne ht ..
  constructor
  case links =>
    intro j v hv
    rcases getElem?_set_cases hv with ⟨rfl, rfl⟩ | ⟨hj, hv⟩
    · obtain ⟨later, torn, hintact, hattended⟩ := h.links w.link k hk
      have htorn : torn = if w.written = 0 then none else some (w.data, w.written) := by
        split
        · rename_i hzero
          refine Option.eq_none_iff_forall_ne_some.mpr ?_
          intro x hx
          obtain ⟨t', w', hw', hlink', -, -, hpos'⟩ := hattended.torn hopen x hx
          have hzero' : w'.written = 0 := by
            by_cases ht : t' = t
            · subst ht
              obtain rfl := Option.some.inj (hw.symm.trans hw')
              exact hzero
            · exact halone t' ht w' hw' hlink'
          omega
        · exact hattended.writing t w hw rfl (by omega)
      refine ⟨_, _, hintact.put htorn hlegible hroom, ?_, ?_⟩
      · intro t' v hv hlink' hpos'
        by_cases ht : t' = t
        · rw [ht] at hv
          have hv : rest = some v := hself.symm.trans hv
          simp only [rest] at hv
          split at hv
          · cases hv
          · rename_i hmore
            obtain rfl := Option.some.inj hv
            exact if_neg hmore
        · rw [hothers t' ht] at hv
          exact absurd (halone t' ht v hv hlink') (by omega)
      · intro _ x hx
        split at hx
        · cases hx
        · rename_i hmore
          obtain rfl := Option.some.inj hx
          refine ⟨t, { w with written := w.written + n }, ?_, rfl, rfl, rfl, ?_⟩
          · exact hself.trans (if_neg hmore)
          · exact Nat.add_pos_right _ hpos
    · obtain ⟨later, torn, hintact, hattended⟩ := h.links j v hv
      exact ⟨later, torn, hintact, hattended.other hw (Ne.symm hj) hrest _⟩
  case writers =>
    intro t' v hv
    simp only [setWriter, setLink, List.length_set]
    by_cases ht : t' = t
    · rw [ht] at hv
      have hv : rest = some v := hself.symm.trans hv
      simp only [rest] at hv
      split at hv
      · cases hv
      · rename_i hmore
        obtain rfl := Option.some.inj hv
        exact ⟨hlink, Nat.lt_of_le_of_ne hroom hmore, hlegible⟩
    · rw [hothers t' ht] at hv
      exact h.writers t' v hv
  case closed =>
    intro j v hv hj
    simp only [setWriter, setLink, List.length_set] at hj
    rcases getElem?_set_cases hv with ⟨rfl, -⟩ | ⟨-, hv⟩
    · omega
    · exact h.closed j v hv hj
  case order =>
    intro t'
    rw [taken_writeSome hw hk hlast hpos t']
    exact h.order t'
  case perm =>
    show c.received.Perm ((c.links.set w.link (put sender t w n k)).flatMap (·.server.delivered))
    have hsame : (c.links.set w.link (put sender t w n k)).flatMap (·.server.delivered)
        = c.delivered := flatMap_set hk rfl
    rw [hsame]
    exact h.perm
  case sublist =>
    intro v hv
    obtain ⟨j, hj⟩ := List.mem_iff_getElem?.mp hv
    rcases getElem?_set_cases hj with ⟨rfl, rfl⟩ | ⟨-, hj⟩
    · exact h.sublist k (List.mem_of_getElem? hk)
    · exact h.sublist v (List.mem_of_getElem? hj)

/-- A write that fails leaves what is out, and nobody writes there any more. -/
theorem Sound.fail (h : Sound sender receiver c)
    (hstep : c.step sender receiver (.fail t) = some c') : Sound sender receiver c' := by
  obtain ⟨w, hw, hstep⟩ := Option.bind_eq_some_iff.mp hstep
  obtain ⟨k, hk, hstep⟩ := Option.bind_eq_some_iff.mp hstep
  obtain rfl := Option.some.inj hstep
  have hself : ((c.setLink w.link { k with closed := true }).setWriter t none).writer t = none :=
    Function.update_self ..
  have hothers : ∀ t', t' ≠ t →
      ((c.setLink w.link { k with closed := true }).setWriter t none).writer t' = c.writer t' :=
    fun t' ht => Function.update_of_ne ht ..
  constructor
  case links =>
    intro j v hv
    rcases getElem?_set_cases hv with ⟨rfl, rfl⟩ | ⟨hj, hv⟩
    · obtain ⟨later, torn, hintact, hattended⟩ := h.links w.link k hk
      refine ⟨later, torn, hintact.close, ?_, ?_⟩
      · intro t' v hv hlink hpos
        by_cases ht : t' = t
        · rw [ht, hself] at hv
          cases hv
        · rw [hothers t' ht] at hv
          exact hattended.writing t' v hv hlink hpos
      · intro hc
        cases hc
    · obtain ⟨later, torn, hintact, hattended⟩ := h.links j v hv
      refine ⟨later, torn, hintact, hattended.other hw (Ne.symm hj) ?_ _⟩
      intro _ hc
      cases hc
  case writers =>
    intro t' v hv
    simp only [setWriter, setLink, List.length_set]
    by_cases ht : t' = t
    · rw [ht, hself] at hv
      cases hv
    · rw [hothers t' ht] at hv
      exact h.writers t' v hv
  case closed =>
    intro j v hv hj
    simp only [setWriter, setLink, List.length_set] at hj
    rcases getElem?_set_cases hv with ⟨-, rfl⟩ | ⟨-, hv⟩
    · rfl
    · exact h.closed j v hv hj
  case order =>
    intro t'
    have hbegun : (c.links.set w.link { k with closed := true }).flatMap Link.begun = c.begun :=
      flatMap_set hk rfl
    show (mine t' ((c.links.set w.link { k with closed := true }).flatMap Link.begun) ++ _).Sublist
      (c.asked t')
    have horder := h.order t'
    rw [taken] at horder
    rw [hbegun]
    by_cases ht : t' = t
    · rw [pending, ht, hself, List.append_nil, ← ht]
      exact (List.sublist_append_left _ _).trans horder
    · rw [pending, hothers t' ht]
      exact horder
  case perm =>
    show c.received.Perm ((c.links.set w.link { k with closed := true }).flatMap
      (·.server.delivered))
    have hsame : (c.links.set w.link { k with closed := true }).flatMap (·.server.delivered)
        = c.delivered := flatMap_set hk rfl
    rw [hsame]
    exact h.perm
  case sublist =>
    intro v hv
    obtain ⟨j, hj⟩ := List.mem_iff_getElem?.mp hv
    rcases getElem?_set_cases hj with ⟨rfl, rfl⟩ | ⟨-, hj⟩
    · exact h.sublist k (List.mem_of_getElem? hk)
    · exact h.sublist v (List.mem_of_getElem? hj)

/-! ### Getting a connection -/

/-- A thread that has a connection has taken up its next message. -/
theorem taken_acquire (hidle : c.writer t = none) {data : List Byte} (t' : τ) :
    ({ c with asked := Function.update c.asked t (c.asked t ++ [data]) }.setWriter t
      (some { link := l, data := data })).taken t'
        = Function.update c.taken t (c.taken t ++ [data]) t' := by
  by_cases ht : t' = t
  · subst ht
    rw [Function.update_self, taken, taken, pending, pending, hidle]
    simp [setWriter, begun]
  · rw [Function.update_of_ne ht, taken, taken, pending, pending]
    simp only [setWriter, Function.update_of_ne ht]
    rfl

/-- A thread that has a connection has something to begin, and nothing else changes. -/
theorem Sound.acquire (h : Sound sender receiver c) (hidle : c.writer t = none) {data : List Byte}
    (hlegible : Legible sender receiver data.length) (hl : l < c.links.length) :
    Sound sender receiver
      ({ c with asked := Function.update c.asked t (c.asked t ++ [data]) }.setWriter t
        (some { link := l, data := data })) := by
  let c' := { c with asked := Function.update c.asked t (c.asked t ++ [data]) }.setWriter t
    (some { link := l, data := data })
  have hself : c'.writer t = some { link := l, data := data } := Function.update_self ..
  have hothers : ∀ t', t' ≠ t → c'.writer t' = c.writer t' :=
    fun t' ht => Function.update_of_ne ht ..
  constructor
  case links =>
    intro j v hv
    obtain ⟨later, torn, hintact, hattended⟩ := h.links j v hv
    refine ⟨later, torn, hintact, ?_, ?_⟩
    · intro t' w hw hlink hpos
      by_cases ht : t' = t
      · rw [ht, hself] at hw
        obtain rfl := Option.some.inj hw
        exact absurd hpos (Nat.lt_irrefl 0)
      · rw [hothers t' ht] at hw
        exact hattended.writing t' w hw hlink hpos
    · intro hopen x hx
      obtain ⟨t', w, hw, hrest⟩ := hattended.torn hopen x hx
      have ht : t' ≠ t := by
        rintro rfl
        rw [hidle] at hw
        cases hw
      exact ⟨t', w, (hothers t' ht).trans hw, hrest⟩
  case writers =>
    intro t' w hw
    by_cases ht : t' = t
    · rw [ht, hself] at hw
      obtain rfl := Option.some.inj hw
      refine ⟨hl, ?_, hlegible⟩
      rw [ServerConnection.length_encode]
      exact Nat.add_pos_left (by decide) _
    · rw [hothers t' ht] at hw
      exact h.writers t' w hw
  case closed => exact h.closed
  case order =>
    intro t'
    have horder := h.order t'
    rw [taken_acquire hidle t']
    show List.Sublist _ (Function.update c.asked t (c.asked t ++ [data]) t')
    by_cases ht : t' = t
    · subst ht
      rw [Function.update_self, Function.update_self]
      exact horder.append_right [data]
    · rw [Function.update_of_ne ht, Function.update_of_ne ht]
      exact horder
  case perm => exact h.perm
  case sublist => exact h.sublist

/-- A message for which there is no connection is dropped. -/
theorem Sound.drop (h : Sound sender receiver c) (t : τ) (data : List Byte) :
    Sound sender receiver { c with asked := Function.update c.asked t (c.asked t ++ [data]) } := by
  refine ⟨?_, h.writers, h.closed, ?_, h.perm, h.sublist⟩
  · intro j v hv
    obtain ⟨later, torn, hintact, hattended⟩ := h.links j v hv
    exact ⟨later, torn, hintact, hattended.writing, hattended.torn⟩
  · intro t'
    have horder := h.order t'
    show (c.taken t').Sublist (Function.update c.asked t (c.asked t ++ [data]) t')
    by_cases ht : t' = t
    · rw [ht, Function.update_self, ← ht]
      exact horder.trans (List.sublist_append_left _ _)
    · rw [Function.update_of_ne ht]
      exact horder

/-- A new connection joins those that are closed. -/
theorem Sound.connect (h : Sound sender receiver c)
    (hclosed : ∀ l k, l + 1 = c.links.length → c.links[l]? = some k → k.closed = true) :
    Sound sender receiver { c with links := c.links ++ [{}] } := by
  have hcases : ∀ j v, (c.links ++ [({} : Link τ)])[j]? = some v →
      c.links[j]? = some v ∨ j = c.links.length ∧ v = {} := by
    intro j v hv
    by_cases hj : j < c.links.length
    · rw [List.getElem?_append_left hj] at hv
      exact Or.inl hv
    · have hlt := (List.getElem?_eq_some_iff.mp hv).1
      simp only [List.length_append, List.length_singleton] at hlt
      obtain rfl : j = c.links.length := by omega
      rw [List.getElem?_concat_length, Option.some.injEq] at hv
      exact Or.inr ⟨rfl, hv.symm⟩
  constructor
  case links =>
    intro j v hv
    rcases hcases j v hv with hv | ⟨rfl, rfl⟩
    · obtain ⟨later, torn, hintact, hattended⟩ := h.links j v hv
      exact ⟨later, torn, hintact, hattended.writing, hattended.torn⟩
    · refine ⟨[], none, Link.intact_empty, ?_, ?_⟩
      · intro t w hw hlink _
        exact absurd (h.writers t w hw).1 (by omega)
      · intro _ _ hc
        cases hc
  case writers =>
    intro t w hw
    obtain ⟨hlink, hrest⟩ := h.writers t w hw
    refine ⟨?_, hrest⟩
    rw [List.length_append]
    exact Nat.lt_add_right _ hlink
  case closed =>
    intro j v hv hj
    simp only [List.length_append, List.length_singleton] at hj
    rcases hcases j v hv with hv | ⟨rfl, -⟩
    · by_cases hlast : j + 1 = c.links.length
      · exact hclosed j v hlast hv
      · exact h.closed j v hv (by omega)
    · omega
  case order =>
    intro t
    have hsame : (c.links ++ [({} : Link τ)]).flatMap Link.begun = c.begun := by
      rw [List.flatMap_append]
      exact List.append_nil _
    show (mine t ((c.links ++ [({} : Link τ)]).flatMap Link.begun) ++ c.pending t).Sublist
      (c.asked t)
    rw [hsame]
    exact h.order t
  case perm =>
    have hsame : (c.links ++ [({} : Link τ)]).flatMap (·.server.delivered) = c.delivered := by
      rw [List.flatMap_append]
      exact List.append_nil _
    show c.received.Perm ((c.links ++ [({} : Link τ)]).flatMap (·.server.delivered))
    rw [hsame]
    exact h.perm
  case sublist =>
    intro v hv
    rcases List.mem_append.mp hv with hv | hv
    · exact h.sublist v hv
    · rw [List.mem_singleton.mp hv]
      exact List.nil_sublist _

theorem Sound.send (h : Sound sender receiver c) {data : List Byte} {connects : Bool}
    (hstep : c.step sender receiver (.send t data connects) = some c')
    (hlegible : Legible sender receiver data.length) : Sound sender receiver c' := by
  obtain ⟨hidle, hc'⟩ := Option.ite_none_right_eq_some.mp hstep
  obtain rfl := Option.some.inj hc'
  let asking : Channel τ := { c with asked := Function.update c.asked t (c.asked t ++ [data]) }
  show Sound sender receiver ((asking.get connects).1.enter t data (asking.get connects).2)
  rcases get_cases asking connects with ⟨k, l, hk, -, hget⟩ | ⟨hclosed, ⟨-, hget⟩ | ⟨-, hget⟩⟩
  · rw [hget]
    exact h.acquire hidle hlegible (List.getElem?_eq_some_iff.mp hk).1
  · rw [hget]
    refine (h.connect hclosed).acquire hidle hlegible ?_
    rw [List.length_append]
    exact Nat.lt_succ_self _
  · rw [hget]
    exact h.drop t data

/-! ### All steps -/

theorem Sound.move (h : Sound sender receiver c) (hk : c.links[l]? = some k)
    (hclosed : k'.closed = k.closed) (hbegun : k'.begun = k.begun)
    (hdelivered : k'.server.delivered = k.server.delivered)
    (hintact : ∀ later torn, Link.Intact sender receiver k later torn →
      Link.Intact sender receiver k' later torn) :
    Sound sender receiver (c.setLink l k') := by
  have hserve := h.serve hk hclosed hbegun (hdelivered.trans (List.append_nil _).symm)
    fun later torn hlater => ⟨later, hintact later torn hlater⟩
  rw [List.append_nil] at hserve
  exact hserve

theorem Sound.read (h : Sound sender receiver c)
    (hstep : c.step sender receiver (.read l) = some c') : Sound sender receiver c' := by
  obtain ⟨k, hk, hstep⟩ := Option.bind_eq_some_iff.mp hstep
  obtain ⟨-, hc'⟩ := Option.ite_none_right_eq_some.mp hstep
  obtain rfl := Option.some.inj hc'
  let k' : Link τ := { k with server := k.server.step receiver }
  have hclosed : k'.closed = k.closed := rfl
  have hbegun : k'.begun = k.begun := rfl
  have hdelivered : k'.server.delivered = k.server.delivered
      ++ (k.server.step receiver).delivered.drop k.server.delivered.length := by
    obtain ⟨later, torn, hintact, -⟩ := h.links l k hk
    show (k.server.step receiver).delivered = _
    rcases hintact.read with ⟨hsame, -⟩ | ⟨data, rest, -, hmore, -⟩
    · rw [hsame, List.drop_length, List.append_nil]
    · rw [hmore, List.drop_left]
  refine h.serve hk hclosed hbegun hdelivered ?_
  intro later torn hintact
  rcases hintact.read with ⟨-, hread⟩ | ⟨data, rest, -, -, hread⟩
  · exact ⟨later, hread⟩
  · exact ⟨rest, hread⟩

theorem Sound.step {x : ChannelAction τ} (h : Sound sender receiver c)
    (hstep : c.step sender receiver x = some c') (hx : Orderly sender receiver c x c') :
    Sound sender receiver c' := by
  cases x with
  | send t data connects => exact h.send hstep hx
  | writeSome t n => exact h.writeSome hstep hx
  | fail t => exact h.fail hstep
  | arrive l n =>
      obtain ⟨k, hk, hstep⟩ := Option.bind_eq_some_iff.mp hstep
      obtain ⟨⟨hlost, -⟩, hc'⟩ := Option.ite_none_right_eq_some.mp hstep
      obtain rfl := Option.some.inj hc'
      exact h.move hk rfl rfl rfl fun _ _ hintact => hintact.arrive hlost
  | lose l keep =>
      obtain ⟨k, hk, hstep⟩ := Option.bind_eq_some_iff.mp hstep
      obtain rfl := Option.some.inj hstep
      exact h.move hk rfl rfl rfl fun _ _ hintact => hintact.lose keep
  | read l => exact h.read hstep

end Steps

/-! ### Whole runs -/

theorem sound_of_reachable
    (h : ((channelSystem sender receiver τ).restrict (Orderly sender receiver)).Reachable c) :
    Sound sender receiver c := by
  refine h.invariant (I := Sound sender receiver) ?_ ?_
  · intro c₀ hc₀
    rw [hc₀]
    refine ⟨?_, ?_, ?_, fun _ => List.nil_sublist _, List.Perm.refl _, ?_⟩
    · intro l k hk
      cases hk
    · intro t w hw
      cases hw
    · intro l k hk
      cases hk
    · intro k hk
      cases hk
  · intro c₁ x c₂ _ hc₁ hmove
    exact hc₁.step hmove.1 hmove.2

/-- Along the connections each has delivered a beginning of what was begun on it. -/
theorem Sound.delivered_prefix (h : Sound sender receiver c) :
    ∀ k ∈ c.links, k.server.delivered <+: k.begun.map Prod.snd := by
  intro k hk
  obtain ⟨l, hl⟩ := List.mem_iff_getElem?.mp hk
  obtain ⟨later, torn, hintact, -⟩ := h.links l k hl
  rw [hintact.begun, List.append_assoc]
  exact List.prefix_append _ _

/-- What has been delivered, with the thread it is from. -/
def deliveries (c : Channel τ) : List (τ × List Byte) :=
  c.links.flatMap fun k => k.begun.take k.server.delivered.length

theorem Sound.deliveries_map (h : Sound sender receiver c) :
    c.deliveries.map Prod.snd = c.delivered := by
  unfold deliveries
  rw [List.map_flatMap]
  refine List.flatMap_congr ?_
  intro k hk
  rw [List.map_take]
  exact (List.prefix_iff_eq_take.mp (h.delivered_prefix k hk)).symm

theorem Sound.begun_sublist (h : Sound sender receiver c) (t : τ) :
    (mine t c.begun).Sublist (c.asked t) :=
  (List.sublist_append_left _ _).trans (h.order t)

theorem Sound.deliveries_sublist (h : Sound sender receiver c) (t : τ) :
    (mine t c.deliveries).Sublist (c.asked t) := by
  have hbegun : (mine t c.deliveries).Sublist (mine t c.begun) :=
    mine_sublist t (flatMap_take_sublist Link.begun (·.server.delivered.length) c.links)
  exact hbegun.trans (h.begun_sublist t)

/-! ### A network that loses nothing

Where every attempt to connect and every write succeeds, the pool never makes a second connection.
What a thread has taken up is then all that it was asked to send, and once nothing is on the
way the server has all of it.
-/

/-- Orderly steps with messages that fit, on a network where every attempt to connect and every
write succeeds and no connection is lost. -/
def Calm (sender receiver : Host) (c : Channel τ) (x : ChannelAction τ) (c' : Channel τ) : Prop :=
  Orderly sender receiver c x c' ∧
    match x with
    | .send _ data connects => connects = true ∧ data.length ≤ maxMsgSize
    | .fail _ | .lose .. => False
    | _ => True

end Channel

/-- The connection holds, and the server will take what is sent on it. -/
structure Link.Healthy {τ : Type} (k : Link τ) : Prop where
  closed : k.closed = false
  lost : k.lost = false
  reading : k.server.pc ≠ .closed
  fits : ∀ data ∈ k.begun.map Prod.snd, data.length ≤ maxMsgSize

namespace Channel

variable {τ : Type} {sender receiver : Host} {c c' : Channel τ} [DecidableEq τ]

/-- One connection at most, and all messages on their way over it. -/
structure Lossless (c : Channel τ) : Prop where
  single : c.links.length ≤ 1
  healthy : ∀ k ∈ c.links, k.Healthy
  fits : ∀ t w, c.writer t = some w → w.data.length ≤ maxMsgSize
  complete : ∀ t, c.taken t = c.asked t

section LosslessSteps

variable {l : Nat} {k k' : Link τ} {t : τ}

theorem Lossless.move (h : Lossless c) (hk : c.links[l]? = some k) (hhealthy : k'.Healthy)
    (hbegun : k'.begun = k.begun) (received : List (List Byte)) :
    Lossless { c.setLink l k' with received := received } := by
  refine ⟨?_, ?_, h.fits, ?_⟩
  · rw [setLink, List.length_set]
    exact h.single
  · intro v hv
    rcases List.mem_or_eq_of_mem_set hv with hv | rfl
    · exact h.healthy v hv
    · exact hhealthy
  · intro t
    have hsame : (c.links.set l k').flatMap Link.begun = c.begun := flatMap_set hk hbegun
    show mine t ((c.links.set l k').flatMap Link.begun) ++ c.pending t = c.asked t
    rw [hsame]
    exact h.complete t

theorem Lossless.acquire (h : Lossless c) (hidle : c.writer t = none) {data : List Byte}
    (hfits : data.length ≤ maxMsgSize) :
    Lossless ({ c with asked := Function.update c.asked t (c.asked t ++ [data]) }.setWriter t
      (some { link := l, data := data })) := by
  refine ⟨h.single, h.healthy, ?_, ?_⟩
  · intro t' w hw
    by_cases ht : t' = t
    · subst ht
      simp only [setWriter, Function.update_self, Option.some.injEq] at hw
      rw [← hw]
      exact hfits
    · simp only [setWriter, Function.update_of_ne ht] at hw
      exact h.fits t' w hw
  · intro t'
    rw [taken_acquire hidle t', show c.taken = c.asked from funext h.complete]
    rfl

/-- Connections do not close, so if the last is closed there is none. -/
theorem Lossless.no_links (h : Lossless c)
    (hclosed : ∀ l k, l + 1 = c.links.length → c.links[l]? = some k → k.closed = true) :
    c.links = [] := by
  by_contra hne
  have hlength : 0 + 1 = c.links.length := by
    have hpos := List.length_pos_of_ne_nil hne
    have hsingle := h.single
    omega
  obtain ⟨k, hk⟩ : ∃ k, c.links[0]? = some k := ⟨_, List.getElem?_eq_getElem (by omega)⟩
  have hopen := (h.healthy k (List.mem_of_getElem? hk)).closed
  exact absurd (hopen.symm.trans (hclosed 0 k hlength hk)) (by decide)

theorem Lossless.connect (h : Lossless c) (hnone : c.links = []) :
    Lossless { c with links := c.links ++ [{}] } := by
  rw [hnone]
  refine ⟨Nat.le_refl 1, ?_, h.fits, ?_⟩
  · intro k hk
    rw [List.mem_singleton.mp hk]
    refine ⟨rfl, rfl, ?_, fun _ hdata => absurd hdata List.not_mem_nil⟩
    intro hc
    cases hc
  · intro t
    have hcomplete := h.complete t
    rw [taken, begun, hnone] at hcomplete
    exact hcomplete

theorem Lossless.writeSome (h : Lossless c) (hsound : Sound sender receiver c) {n : Nat}
    (hstep : c.step sender receiver (.writeSome t n) = some c') : Lossless c' := by
  obtain ⟨w, hw, hstep⟩ := Option.bind_eq_some_iff.mp hstep
  obtain ⟨k, hk, hstep⟩ := Option.bind_eq_some_iff.mp hstep
  obtain ⟨⟨hpos, -⟩, hc'⟩ := Option.ite_none_right_eq_some.mp hstep
  obtain rfl := Option.some.inj hc'
  have hhealthy := h.healthy k (List.mem_of_getElem? hk)
  have hlast := hsound.last hk hhealthy.closed
  refine ⟨?_, ?_, ?_, ?_⟩
  · show (c.links.set w.link _).length ≤ 1
    rw [List.length_set]
    exact h.single
  · intro v hv
    rcases List.mem_or_eq_of_mem_set hv with hv | rfl
    · exact h.healthy v hv
    · refine ⟨hhealthy.closed, hhealthy.lost, hhealthy.reading, ?_⟩
      intro data hdata
      simp only [put] at hdata
      split at hdata
      · rw [List.map_append, List.mem_append] at hdata
        rcases hdata with hdata | hdata
        · exact hhealthy.fits data hdata
        · rw [List.mem_singleton.mp hdata]
          exact h.fits t w hw
      · exact hhealthy.fits data hdata
  · intro t' v hv
    by_cases ht : t' = t
    · subst ht
      simp only [setWriter, Function.update_self] at hv
      split at hv
      · cases hv
      · obtain rfl := Option.some.inj hv
        exact h.fits t' w hw
    · simp only [setWriter, Function.update_of_ne ht] at hv
      exact h.fits t' v hv
  · intro t'
    rw [taken_writeSome hw hk hlast hpos t']
    exact h.complete t'

theorem Lossless.step {x : ChannelAction τ} (h : Lossless c) (hsound : Sound sender receiver c)
    (hstep : c.step sender receiver x = some c') (hx : Calm sender receiver c x c') :
    Lossless c' := by
  obtain ⟨-, hx⟩ := hx
  cases x with
  | send t data connects =>
      obtain ⟨rfl, hfits⟩ := hx
      obtain ⟨hidle, hc'⟩ := Option.ite_none_right_eq_some.mp hstep
      obtain rfl := Option.some.inj hc'
      let asking : Channel τ := { c with asked := Function.update c.asked t (c.asked t ++ [data]) }
      show Lossless ((asking.get true).1.enter t data (asking.get true).2)
      rcases get_cases asking true with ⟨k, l, -, -, hget⟩ | ⟨hclosed, ⟨-, hget⟩ | ⟨hno, -⟩⟩
      · rw [hget]
        exact h.acquire hidle hfits
      · rw [hget]
        exact (h.connect (h.no_links hclosed)).acquire hidle hfits
      · cases hno
  | writeSome t n => exact h.writeSome hsound hstep
  | fail | lose => exact hx.elim
  | arrive l n =>
      obtain ⟨k, hk, hstep⟩ := Option.bind_eq_some_iff.mp hstep
      obtain ⟨-, hc'⟩ := Option.ite_none_right_eq_some.mp hstep
      obtain rfl := Option.some.inj hc'
      have hhealthy := h.healthy k (List.mem_of_getElem? hk)
      let k' : Link τ := { k with
        inFlight := k.inFlight.drop n
        server := { k.server with stream := k.server.stream ++ k.inFlight.take n } }
      have hhealthy' : k'.Healthy :=
        ⟨hhealthy.closed, hhealthy.lost, hhealthy.reading, hhealthy.fits⟩
      exact h.move hk hhealthy' rfl c.received
  | read l =>
      obtain ⟨k, hk, hstep⟩ := Option.bind_eq_some_iff.mp hstep
      obtain ⟨hready, hc'⟩ := Option.ite_none_right_eq_some.mp hstep
      obtain rfl := Option.some.inj hc'
      have hhealthy := h.healthy k (List.mem_of_getElem? hk)
      obtain ⟨later, torn, hintact, -⟩ := hsound.links l k hk
      have hreading := hintact.read_open hready hhealthy.lost hhealthy.fits
      let k' : Link τ := { k with server := k.server.step receiver }
      have hhealthy' : k'.Healthy := ⟨hhealthy.closed, hhealthy.lost, hreading, hhealthy.fits⟩
      exact h.move hk hhealthy' rfl _

end LosslessSteps

theorem lossless_of_reachable
    (h : ((channelSystem sender receiver τ).restrict (Calm sender receiver)).Reachable c) :
    Lossless c ∧ Sound sender receiver c := by
  refine ⟨?_, sound_of_reachable (h.weaken fun _ _ _ hx => hx.1)⟩
  refine h.invariant (I := Lossless) ?_ ?_
  · intro c₀ hc₀
    rw [hc₀]
    refine ⟨Nat.zero_le 1, ?_, ?_, fun _ => rfl⟩
    · intro k hk
      cases hk
    · intro t w hw
      cases hw
  · intro c₁ x c₂ hreach hc₁ hmove
    have hsound := sound_of_reachable (hreach.weaken fun _ _ _ hx => hx.1)
    exact hc₁.step hsound hmove.1 hmove.2

/-- Nobody is writing, nothing is on its way and the server has no read to finish. -/
structure Quiet (receiver : Host) (c : Channel τ) : Prop where
  idle : ∀ t, c.writer t = none
  empty : ∀ k ∈ c.links, k.inFlight = [] ∧ k.ready receiver = false

/-- When a channel that loses nothing is quiet, everything has been delivered. -/
theorem Lossless.delivered (h : Lossless c) (hsound : Sound sender receiver c)
    (hquiet : c.Quiet receiver) :
    (∀ t, mine t c.begun = c.asked t) ∧ c.received = c.begun.map Prod.snd := by
  refine ⟨?_, ?_⟩
  · intro t
    rw [← h.complete t, taken, pending, hquiet.idle t, List.append_nil]
  · have hall : ∀ k ∈ c.links, k.server.delivered = k.begun.map Prod.snd := by
      intro k hk
      obtain ⟨l, hl⟩ := List.mem_iff_getElem?.mp hk
      obtain ⟨later, torn, hintact, hattended⟩ := hsound.links l k hl
      have hhealthy := h.healthy k hk
      obtain ⟨hempty, hready⟩ := hquiet.empty k hk
      cases torn with
      | none =>
          exact hintact.drained hready hhealthy.lost hhealthy.reading hempty hhealthy.fits
      | some x =>
          obtain ⟨t, w, hw, -⟩ := hattended.torn hhealthy.closed x rfl
          rw [hquiet.idle t] at hw
          cases hw
    have hdelivered : c.delivered = c.begun.map Prod.snd := by
      rw [begun, List.map_flatMap]
      exact List.flatMap_congr hall
    rw [← hdelivered]
    refine List.Sublist.eq_of_length ?_ hsound.perm.length_eq.symm |>.symm
    have hsingle := h.single
    unfold Channel.delivered
    cases hlinks : c.links with
    | nil => exact List.nil_sublist _
    | cons k rest =>
        obtain rfl : rest = [] := by
          rw [hlinks, List.length_cons] at hsingle
          exact List.eq_nil_of_length_eq_zero (by omega)
        rw [List.flatMap_singleton]
        exact hsound.sublist k (by rw [hlinks]; exact List.mem_singleton_self k)

end Channel

end Raft
