/-
What one step of the state machine can do.

The handlers of `fsm.hpp` are long and re-enter one another through callbacks, but
they are all built from a few elementary changes: a term is adopted, a role is
left, a vote is cast or counted, a leadership begins.  `Move` lists them, with the
condition under which the code makes each, and `handle_moves` and `call_moves` say
that every event from the wire and every call of the API is a sequence of moves.
The one change that is not a move is the start of a candidacy, which only an
election timeout can bring about (`handle_timeout`).

Moves say nothing of the event that is being handled, and they take a callback for a
change of its own.  `Turn` is the coarser list, for what depends on either; each
turn is a sequence of moves.

Everything the other files prove of the machine is proved of moves and turns, one
short case each, and never of the handlers again.
-/
import Mathlib.Logic.Relation
import RaftElection.Node

namespace Raft.RaftFSM

section Emit

variable (s : RaftFSM) (o : Entry)

@[simp] theorem emit_blocked : (s.emit o).blocked = s.blocked := rfl

@[simp] theorem emit_role : (s.emit o).role = s.role := rfl

@[simp] theorem emit_term : (s.emit o).term = s.term := rfl

@[simp] theorem emit_voter : (s.emit o).voter = s.voter := rfl

@[simp] theorem emit_trace : (s.emit o).trace = o :: s.trace := rfl

end Emit

/-! ### Leaving a role -/

/-- `convert_to_follower` up to the callback. -/
def leave (s : RaftFSM) : RaftFSM := convertToFollower id s

theorem convertToFollower_eq (f : RaftFSM → RaftFSM) (s : RaftFSM) :
    convertToFollower f s = if s.role = .leader then f (leave s) else leave s := by
  unfold leave convertToFollower
  cases h : s.role <;> simp

theorem leave_of_follower {s : RaftFSM} (h : s.role = .follower) : leave s = s := by
  unfold leave convertToFollower
  rw [if_pos h]

@[simp] theorem leave_role (s : RaftFSM) : (leave s).role = .follower := by
  unfold leave convertToFollower
  cases h : s.role <;> simp [initFollowerState, startElectionTimeout, h]

@[simp] theorem leave_term (s : RaftFSM) : (leave s).term = s.term := by
  unfold leave convertToFollower clearPrevState
  cases h : s.role <;> rfl

@[simp] theorem leave_voter (s : RaftFSM) : (leave s).voter = s.voter := by
  unfold leave convertToFollower clearPrevState
  cases h : s.role <;> rfl

@[simp] theorem leave_trace (s : RaftFSM) : (leave s).trace = s.trace := by
  unfold leave convertToFollower clearPrevState
  cases h : s.role <;> rfl

theorem leave_votedPeers (s : RaftFSM) :
    (leave s).votedPeers = if s.role = .candidate then ∅ else s.votedPeers := by
  unfold leave convertToFollower clearPrevState
  cases h : s.role <;> rfl

theorem leave_heartbeatTask (s : RaftFSM) :
    (leave s).heartbeatTask
      = if s.role = .leader then Timer.stop s.heartbeatTask else s.heartbeatTask := by
  unfold leave convertToFollower clearPrevState
  cases h : s.role <;> rfl

/-! ### Moves

The handlers share few pieces, and most invariants care about one field.  So the changes the
handlers are made of are listed once, as moves, with the guards that hold where they are made.  An
invariant is then proved with one case for each move and no handler unfolded.
-/

/-- Becoming leader, up to the callback. -/
def enterLeader (s : RaftFSM) : RaftFSM :=
  initLeaderState
    ({ incTerm (clearCandidateState s) with role := .leader }.emit (.becameLeader (s.term + 1)))

/-- Casting a vote for `peer` in the current term and answering with it. -/
def castVote (a : Actor) (s : RaftFSM) (peer : UInt64) : RaftFSM :=
  { s with voter := (s.voter.voteForLeader peer s.term).2 }.emit
    (.sent peer (.requestVoteRes a.self s.term (s.voter.voteForLeader peer s.term).1))

/-- An elementary change.  `P id t` is what the run knows of a granted vote that
carries id `id` and term `t` when a candidate counts it. -/
inductive Move (a : Actor) (P : UInt64 → UInt64 → Prop) : RaftFSM → RaftFSM → Prop
  | callback (s : RaftFSM) (o : Entry) (h : o = .onBecomeLeader ∨ o = .onSignOffLeader) :
      Move a P s (s.emit o)
  | setBlocked (s : RaftFSM) (b : Bool) : Move a P s { s with blocked := b }
  | pause (s : RaftFSM) : Move a P s (pauseScheduledTasks s)
  | adopt (s : RaftFSM) (t : UInt64) (h : s.term < t) : Move a P s (leave { s with term := t })
  | leave (s : RaftFSM) : Move a P s (leave s)
  | reset (s : RaftFSM) (t : Timer) (h : s.electionTimeoutTask = some t) :
      Move a P s { s with electionTimeoutTask := some t.reset }
  | refuse (s : RaftFSM) (peer : UInt64) :
      Move a P s (s.emit (.sent peer (.requestVoteRes a.self s.term false)))
  | vote (s : RaftFSM) (peer : UInt64) : Move a P s (castVote a s peer)
  | acknowledge (s : RaftFSM) (peer : UInt64) :
      Move a P s (s.emit (.sent peer (.appendEntriesRes a.self s.term)))
  | count (s : RaftFSM) (id : UInt64) (hrole : s.role = .candidate) (hP : P id s.term)
      (hrec : Entry.received (.requestVoteRes id s.term true) ∈ s.trace) :
      Move a P s { s with votedPeers := insert id s.votedPeers }
  | lead (s : RaftFSM) (hrole : s.role = .candidate) (h : a.majority ≤ s.votedPeers.card) :
      Move a P s (enterLeader s)

/-- Some number of moves. -/
def Moves (a : Actor) (P : UInt64 → UInt64 → Prop) : RaftFSM → RaftFSM → Prop :=
  Relation.ReflTransGen (Move a P)

section Moves

variable {a : Actor} {P : UInt64 → UInt64 → Prop} {s s₁ s₂ s₃ : RaftFSM}

theorem Moves.refl (s : RaftFSM) : Moves a P s s := Relation.ReflTransGen.refl

theorem Move.single (h : Move a P s₁ s₂) : Moves a P s₁ s₂ := Relation.ReflTransGen.single h

theorem Moves.trans (h : Moves a P s₁ s₂) (h' : Moves a P s₂ s₃) : Moves a P s₁ s₃ :=
  Relation.ReflTransGen.trans h h'

/-- What every move preserves, a sequence of them preserves. -/
theorem Moves.invariant {I : RaftFSM → Prop} (hmove : ∀ s s', Move a P s s' → I s → I s')
    (h : Moves a P s₁ s₂) (hs : I s₁) : I s₂ := by
  induction h with
  | refl => exact hs
  | tail _ hlast ih => exact hmove _ _ hlast ih

end Moves

/-! ### The API and the callbacks

A call of the API, and a callback with the calls it makes, are made of four changes:
an entry for the callback, the `blocked` flag, the pause of both timers, and the end of
a role.  A relation that admits these and composes holds across every call.
-/

section Calls

variable {a : Actor} {P : UInt64 → UInt64 → Prop}

/-- A relation between states that a call of the API cannot leave. -/
structure Callable (R : RaftFSM → RaftFSM → Prop) : Prop where
  refl : ∀ s, R s s
  trans : ∀ {s₁ s₂ s₃}, R s₁ s₂ → R s₂ s₃ → R s₁ s₃
  callback : ∀ s o, o = .onBecomeLeader ∨ o = .onSignOffLeader → R s (s.emit o)
  setBlocked : ∀ s b, R s { s with blocked := b }
  pause : ∀ s, R s (pauseScheduledTasks s)
  leave : ∀ s, R s (leave s)

namespace Callable

variable {R : RaftFSM → RaftFSM → Prop}

theorem convertToFollower (hR : Callable R) {f : RaftFSM → RaftFSM} (hf : ∀ s, R s (f s))
    (s : RaftFSM) : R s (convertToFollower f s) := by
  rw [convertToFollower_eq]
  split
  · exact hR.trans (hR.leave s) (hf _)
  · exact hR.leave s

theorem call_of (hR : Callable R) {f : RaftFSM → RaftFSM} (hf : ∀ s, R s (f s)) (s : RaftFSM)
    (c : ApiCall) : R s (call f s c) := by
  have hstay : R s (stayFollower f s) := hR.trans (hR.convertToFollower hf s) (hR.pause _)
  cases c with
  | block => exact hR.trans hstay (hR.setBlocked _ true)
  | unblock => exact hR.setBlocked s false
  | stayFollower => exact hstay

theorem calls (hR : Callable R) {f : RaftFSM → RaftFSM} (hf : ∀ s, R s (f s)) :
    ∀ (calls : List ApiCall) (s : RaftFSM), R s (calls.foldl (call f) s) := by
  intro calls
  induction calls with
  | nil => intro s; exact hR.refl s
  | cons c rest ih => intro s; exact hR.trans (hR.call_of hf s c) (ih _)

theorem signOff (hR : Callable R) (cb : Callbacks) (s : RaftFSM) : R s (signOff cb s) := by
  unfold RaftFSM.signOff
  split
  · exact hR.refl s
  · exact hR.trans (hR.callback s .onSignOffLeader (Or.inr rfl)) (hR.calls hR.refl _ _)

theorem becomeLeader (hR : Callable R) (cb : Callbacks) (s : RaftFSM) :
    R s (becomeLeader cb s) := by
  unfold RaftFSM.becomeLeader
  split
  · exact hR.refl s
  · exact hR.trans (hR.callback s .onBecomeLeader (Or.inl rfl)) (hR.calls (hR.signOff cb) _ _)

/-- **Every call of the API stays within the relation.** -/
theorem call (hR : Callable R) (cb : Callbacks) (s : RaftFSM) (c : ApiCall) :
    R s (call (RaftFSM.signOff cb) s c) :=
  hR.call_of (hR.signOff cb) s c

end Callable

theorem callable_moves : Callable (Moves a P) where
  refl := Moves.refl
  trans := Moves.trans
  callback s o ho := (Move.callback s o ho).single
  setBlocked s b := (Move.setBlocked s b).single
  pause s := (Move.pause s).single
  leave s := (Move.leave s).single

theorem call_moves (cb : Callbacks) (s : RaftFSM) (c : ApiCall) :
    Moves a P s (call (signOff cb) s c) :=
  callable_moves.call cb s c

/-- What a call keeps: the term and the voter, and of the trace everything but callbacks. -/
structure Aside (s s' : RaftFSM) : Prop where
  term : s'.term = s.term
  voter : s'.voter = s.voter
  trace : ∃ new, s'.trace = new ++ s.trace ∧ ∀ o ∈ new, o = .onBecomeLeader ∨ o = .onSignOffLeader

theorem Aside.of_trace_eq {s s' : RaftFSM} (hterm : s'.term = s.term) (hvoter : s'.voter = s.voter)
    (htrace : s'.trace = s.trace) : Aside s s' :=
  ⟨hterm, hvoter, [], htrace, fun _ ho => absurd ho List.not_mem_nil⟩

theorem callable_aside : Callable Aside where
  refl s := Aside.of_trace_eq rfl rfl rfl
  trans := by
    intro s₁ s₂ s₃ h h'
    obtain ⟨new, htrace, hnew⟩ := h.trace
    obtain ⟨new', htrace', hnew'⟩ := h'.trace
    refine ⟨h'.term.trans h.term, h'.voter.trans h.voter, new' ++ new, ?_, ?_⟩
    · rw [htrace', htrace, List.append_assoc]
    · intro o ho
      rcases List.mem_append.mp ho with ho | ho
      · exact hnew' o ho
      · exact hnew o ho
  callback s o ho := ⟨rfl, rfl, [o], rfl, by simpa using ho⟩
  setBlocked s b := Aside.of_trace_eq rfl rfl rfl
  pause s := Aside.of_trace_eq rfl rfl rfl
  leave s := Aside.of_trace_eq (leave_term s) (leave_voter s) (leave_trace s)

/-- Outside role leader the argument that stands for the callback is never used. -/
theorem call_congr {s : RaftFSM} (h : s.role ≠ .leader) (f g : RaftFSM → RaftFSM) (c : ApiCall) :
    call f s c = call g s c ∧ (call f s c).role ≠ .leader := by
  have hconv : ∀ f, convertToFollower f s = leave s := by
    intro f
    rw [convertToFollower_eq, if_neg h]
  cases c with
  | block | stayFollower =>
      refine ⟨by simp only [call, block, stayFollower, hconv], ?_⟩
      simp [call, block, stayFollower, hconv, pauseScheduledTasks, stopHeartbeat,
        stopElectionTimeout]
  | unblock => exact ⟨rfl, h⟩

/--
**The sign-off callback may call back into the machine it is invoked from.**  Its
calls run with the callback itself in place, as in the source; the definition of
`signOff` ends the nesting one level earlier and is the same function on the states
the callback is invoked in.
-/
theorem signOff_reentrant (cb : Callbacks) {s : RaftFSM} (h : s.role ≠ .leader) :
    signOff cb s = match cb.onSignOffLeader with
      | none => s
      | some calls => calls.foldl (call (signOff cb)) (s.emit .onSignOffLeader) := by
  have hcalls : ∀ (calls : List ApiCall) (s : RaftFSM), s.role ≠ .leader →
      calls.foldl (call id) s = calls.foldl (call (signOff cb)) s := by
    intro calls
    induction calls with
    | nil => intro s _; rfl
    | cons c rest ih =>
        intro s hs
        obtain ⟨hsame, hrole⟩ := call_congr hs id (signOff cb) c
        rw [List.foldl_cons, List.foldl_cons, ← hsame]
        exact ih _ hrole
  cases hcb : cb.onSignOffLeader with
  | none => simp [signOff, hcb]
  | some calls =>
      rw [signOff, hcb]
      exact hcalls calls _ h

end Calls

/-! ### Calls on a follower

A follower has no role to leave, so a call changes its timers and its `blocked`
flag and nothing an election depends on.
-/

/-- The two states agree on everything an election depends on. -/
structure Quiet (s s' : RaftFSM) : Prop where
  role : s'.role = s.role
  term : s'.term = s.term
  voter : s'.voter = s.voter
  votedPeers : s'.votedPeers = s.votedPeers
  trace : ∀ o ∈ s.trace, o ∈ s'.trace

theorem Quiet.refl (s : RaftFSM) : Quiet s s := ⟨rfl, rfl, rfl, rfl, fun _ h => h⟩

theorem Quiet.trans {s₁ s₂ s₃ : RaftFSM} (h : Quiet s₁ s₂) (h' : Quiet s₂ s₃) : Quiet s₁ s₃ :=
  ⟨h'.role.trans h.role, h'.term.trans h.term, h'.voter.trans h.voter,
    h'.votedPeers.trans h.votedPeers, fun o ho => h'.trace o (h.trace o ho)⟩

theorem stayFollower_of_follower {s : RaftFSM} (h : s.role = .follower) (f : RaftFSM → RaftFSM) :
    stayFollower f s = pauseScheduledTasks s := by
  unfold stayFollower
  rw [convertToFollower_eq, if_neg (by simp [h]), leave_of_follower h]

theorem call_quiet {s : RaftFSM} (h : s.role = .follower) (f : RaftFSM → RaftFSM) (c : ApiCall) :
    Quiet s (call f s c) := by
  have hstay := stayFollower_of_follower h f
  cases c with
  | block =>
      simp only [call, block, hstay]
      exact ⟨rfl, rfl, rfl, rfl, fun _ ho => ho⟩
  | unblock => exact ⟨rfl, rfl, rfl, rfl, fun _ ho => ho⟩
  | stayFollower =>
      simp only [call, hstay]
      exact ⟨rfl, rfl, rfl, rfl, fun _ ho => ho⟩

theorem calls_quiet (f : RaftFSM → RaftFSM) :
    ∀ (calls : List ApiCall) {s : RaftFSM}, s.role = .follower →
      Quiet s (calls.foldl (call f) s) := by
  intro calls
  induction calls with
  | nil => intro s _; exact Quiet.refl s
  | cons c rest ih =>
      intro s h
      have hfirst := call_quiet h f c
      exact hfirst.trans (ih (hfirst.role.trans h))

theorem signOff_quiet (cb : Callbacks) {s : RaftFSM} (h : s.role = .follower) :
    Quiet s (signOff cb s) := by
  unfold signOff
  split
  · exact Quiet.refl s
  · have hemit : Quiet s (s.emit .onSignOffLeader) :=
      ⟨rfl, rfl, rfl, rfl, fun o ho => List.mem_cons_of_mem _ ho⟩
    exact hemit.trans (calls_quiet _ _ h)

@[simp] theorem convertToFollower_role (cb : Callbacks) (s : RaftFSM) :
    (convertToFollower (signOff cb) s).role = .follower := by
  rw [convertToFollower_eq]
  split
  · exact (signOff_quiet cb (leave_role s)).role.trans (leave_role s)
  · exact leave_role s

theorem call_role_ne_candidate (cb : Callbacks) {s : RaftFSM} (h : s.role ≠ .candidate)
    (c : ApiCall) : (call (signOff cb) s c).role ≠ .candidate := by
  have hstay : (stayFollower (signOff cb) s).role = .follower := convertToFollower_role cb s
  cases c with
  | block | stayFollower =>
      intro hc
      exact absurd (hstay.symm.trans hc) (by decide)
  | unblock => exact h

theorem becomeLeader_role_ne_candidate (cb : Callbacks) {s : RaftFSM} (h : s.role ≠ .candidate) :
    (becomeLeader cb s).role ≠ .candidate := by
  unfold becomeLeader
  split
  · exact h
  · rename_i calls hcalls
    exact calls.foldlRecOn (motive := fun s : RaftFSM => s.role ≠ .candidate) _ h
      (fun s hs c _ => call_role_ne_candidate cb hs c)

/-! ### Events from the wire -/

section Handle

variable {a : Actor} {P : UInt64 → UInt64 → Prop}

theorem adoptTerm_of_not_lt (cb : Callbacks) {s : RaftFSM} {t : UInt64} (h : ¬ s.term < t) :
    adoptTerm cb s t = s := if_neg h

/-- An adopted term leaves a follower, whatever the callback does. -/
theorem adoptTerm_quiet (cb : Callbacks) {s : RaftFSM} {t : UInt64} (h : s.term < t) :
    Quiet (leave { s with term := t }) (adoptTerm cb s t) := by
  unfold adoptTerm
  rw [if_pos h, convertToFollower_eq]
  split
  · exact signOff_quiet cb (leave_role _)
  · exact Quiet.refl _

theorem le_adoptTerm (cb : Callbacks) (s : RaftFSM) (t : UInt64) :
    t ≤ (adoptTerm cb s t).term := by
  by_cases h : s.term < t
  · rw [(adoptTerm_quiet cb h).term, leave_term]
    exact UInt64.le_refl t
  · rw [adoptTerm_of_not_lt cb h]
    exact UInt64.not_lt.mp h

theorem reply_eq_ok {s s' : RaftFSM} {serverId : UInt64} {e : NetEvent}
    (h : reply a s serverId e = .ok s') :
    serverId ∈ a.peers.ids ∧ s' = s.emit (.sent serverId e) := by
  unfold reply at h
  split at h
  · simp at h
  · rename_i peer hpeer
    obtain ⟨hmem, rfl⟩ := Actor.getPeer_eq_some hpeer
    simp only [Except.ok.injEq] at h
    exact ⟨hmem, h.symm⟩

theorem resetElectionTimeout_eq_ok {s s' : RaftFSM} (h : resetElectionTimeout s = .ok s') :
    ∃ t, s.electionTimeoutTask = some t ∧ s' = { s with electionTimeoutTask := some t.reset } := by
  unfold resetElectionTimeout at h
  split at h
  · simp at h
  · rename_i t ht
    simp only [Except.ok.injEq] at h
    exact ⟨t, ht, h.symm⟩

/-- The bind of two steps that may fault. -/
theorem bind_eq_ok {x : Except Fault RaftFSM} {f : RaftFSM → Except Fault RaftFSM}
    {s' : RaftFSM} (h : x.bind f = .ok s') : ∃ s, x = .ok s ∧ f s = .ok s' := by
  cases x with
  | error e => simp [Except.bind] at h
  | ok s => exact ⟨s, rfl, h⟩

/-- A request that is answered came from a member, and ends no role. -/
theorem handleRequestVote_eq_ok {s s' : RaftFSM} {c t : UInt64}
    (h : handleRequestVote a s c t = .ok s') :
    c ∈ a.peers.ids ∧ s'.role = s.role ∧ s'.term = s.term := by
  unfold handleRequestVote at h
  split at h
  · obtain ⟨hmem, rfl⟩ := reply_eq_ok h
    exact ⟨hmem, rfl, rfl⟩
  · split at h
    · obtain ⟨s₁, hreset, hvote⟩ := bind_eq_ok h
      obtain ⟨timer, -, rfl⟩ := resetElectionTimeout_eq_ok hreset
      obtain ⟨hmem, rfl⟩ := reply_eq_ok hvote
      exact ⟨hmem, rfl, rfl⟩
    · obtain ⟨hmem, rfl⟩ := reply_eq_ok h
      exact ⟨hmem, rfl, rfl⟩

theorem convertToLeader_eq {cb : Callbacks} {s : RaftFSM} (hrole : s.role = .candidate) :
    convertToLeader cb s = becomeLeader cb (enterLeader s) := by
  simp only [convertToLeader, clearPrevState, hrole, enterLeader]
  rfl

/-! ### Turns

A turn is a piece of the handling of one event, with the callbacks it invokes played
out.  Turns know what moves forget: which event is being handled, and that a
callback comes with the change it reports.
-/

/-- A piece of the handling of `e`. -/
inductive Turn (a : Actor) (cb : Callbacks) (e : NetEvent) : RaftFSM → RaftFSM → Prop
  | adopt (s : RaftFSM) (h : s.term < e.getTerm) :
      Turn a cb e s (convertToFollower (signOff cb) { s with term := e.getTerm })
  | reset (s : RaftFSM) (t : Timer) (h : s.electionTimeoutTask = some t) :
      Turn a cb e s { s with electionTimeoutTask := some t.reset }
  | refuse (s : RaftFSM) (peer : UInt64) :
      Turn a cb e s (s.emit (.sent peer (.requestVoteRes a.self s.term false)))
  | vote (s : RaftFSM) (peer : UInt64) : Turn a cb e s (castVote a s peer)
  | acknowledge (s : RaftFSM) (peer : UInt64) :
      Turn a cb e s (s.emit (.sent peer (.appendEntriesRes a.self s.term)))
  | stepDown (s : RaftFSM) (hrole : s.role = .candidate) : Turn a cb e s (leave s)
  | count (s : RaftFSM) (id : UInt64) (hrole : s.role = .candidate)
      (he : e = .requestVoteRes id s.term true) :
      Turn a cb e s { s with votedPeers := insert id s.votedPeers }
  | lead (s : RaftFSM) (hrole : s.role = .candidate) (h : a.majority ≤ s.votedPeers.card) :
      Turn a cb e s (becomeLeader cb (enterLeader s))

/-- Some number of turns. -/
def Turns (a : Actor) (cb : Callbacks) (e : NetEvent) : RaftFSM → RaftFSM → Prop :=
  Relation.ReflTransGen (Turn a cb e)

section Turns

variable {cb : Callbacks} {e : NetEvent} {s s₁ s₂ s₃ : RaftFSM}

theorem Turns.refl (s : RaftFSM) : Turns a cb e s s := Relation.ReflTransGen.refl

theorem Turn.single (h : Turn a cb e s₁ s₂) : Turns a cb e s₁ s₂ := Relation.ReflTransGen.single h

theorem Turns.trans (h : Turns a cb e s₁ s₂) (h' : Turns a cb e s₂ s₃) : Turns a cb e s₁ s₃ :=
  Relation.ReflTransGen.trans h h'

/-- What every turn preserves, a sequence of them preserves. -/
theorem Turns.invariant {I : RaftFSM → Prop} (hturn : ∀ s s', Turn a cb e s s' → I s → I s')
    (h : Turns a cb e s₁ s₂) (hs : I s₁) : I s₂ := by
  induction h with
  | refl => exact hs
  | tail _ hlast ih => exact hturn _ _ hlast ih

end Turns

theorem adoptTerm_turns (cb : Callbacks) (s : RaftFSM) (e : NetEvent) :
    Turns a cb e s (adoptTerm cb s e.getTerm) := by
  unfold adoptTerm
  split
  · rename_i hlt
    exact (Turn.adopt s hlt).single
  · exact Turns.refl s

theorem voteAndReply_turns {cb : Callbacks} {e : NetEvent} {s s' : RaftFSM} {serverId : UInt64}
    (h : voteAndReply a s serverId s.term = .ok s') : Turns a cb e s s' := by
  obtain ⟨-, rfl⟩ := reply_eq_ok h
  exact (Turn.vote s serverId).single

theorem handleRequestVote_turns {cb : Callbacks} {e : NetEvent} {s s' : RaftFSM}
    {serverId term : UInt64} (hle : term ≤ s.term)
    (h : handleRequestVote a s serverId term = .ok s') : Turns a cb e s s' := by
  unfold handleRequestVote at h
  split at h
  · obtain ⟨-, rfl⟩ := reply_eq_ok h
    exact (Turn.refuse s serverId).single
  · rename_i hstale
    obtain rfl : term = s.term := UInt64.le_antisymm hle (UInt64.not_lt.mp hstale)
    split at h
    · obtain ⟨s₁, hreset, hvote⟩ := bind_eq_ok h
      obtain ⟨t, ht, rfl⟩ := resetElectionTimeout_eq_ok hreset
      exact (Turn.reset s t ht).single.trans (voteAndReply_turns hvote)
    · exact voteAndReply_turns h

theorem handleRequestVoteResponse_turns {cb : Callbacks} {s : RaftFSM}
    {serverId term : UInt64} {voteGranted : Bool} (hle : term ≤ s.term) :
    Turns a cb (.requestVoteRes serverId term voteGranted) s
      (handleRequestVoteResponse a cb s serverId term voteGranted) := by
  unfold handleRequestVoteResponse
  split
  · exact Turns.refl s
  · rename_i hstale
    obtain rfl : term = s.term := UInt64.le_antisymm hle (UInt64.not_lt.mp hstale)
    split
    · rename_i hcond
      obtain ⟨hrole, rfl⟩ := hcond
      have hcount : Turns a cb (.requestVoteRes serverId s.term true) s
          { s with votedPeers := insert serverId s.votedPeers } :=
        (Turn.count s serverId hrole rfl).single
      dsimp only
      split
      · rename_i hmaj
        refine hcount.trans ?_
        rw [convertToLeader_eq (by exact hrole)]
        exact (Turn.lead { s with votedPeers := insert serverId s.votedPeers } hrole hmaj).single
      · exact hcount
    · exact Turns.refl s

theorem handleAppendEntries_turns {cb : Callbacks} {e : NetEvent} {s s' : RaftFSM}
    {serverId term : UInt64} (h : handleAppendEntries a cb s serverId term = .ok s') :
    Turns a cb e s s' := by
  unfold handleAppendEntries at h
  split at h
  · obtain ⟨-, rfl⟩ := reply_eq_ok h
    exact (Turn.acknowledge s serverId).single
  · split at h
    · obtain ⟨-, rfl⟩ := reply_eq_ok h
      exact (Turn.acknowledge s serverId).single
    · obtain ⟨s₁, hreset, hrest⟩ := bind_eq_ok h
      obtain ⟨t, ht, rfl⟩ := resetElectionTimeout_eq_ok hreset
      refine (Turn.reset s t ht).single.trans ?_
      obtain ⟨-, rfl⟩ := reply_eq_ok hrest
      refine Turns.trans ?_ (Turn.acknowledge _ serverId).single
      split
      · rename_i hcandidate
        rw [convertToFollower_eq, if_neg (by rw [hcandidate]; decide)]
        exact (Turn.stepDown _ hcandidate).single
      · exact Turns.refl _

/-- **Every event from the wire is handled in turns**, whether or not the node is blocked by
the time the lock is taken. -/
theorem handleLocked_turns {cb : Callbacks} {s s' : RaftFSM} {e : NetEvent}
    (h : handleLocked a cb s (.net e) = .ok s') : Turns a cb e s s' := by
  have hle := le_adoptTerm cb s e.getTerm
  refine (adoptTerm_turns cb s e).trans ?_
  cases e with
  | requestVoteReq serverId term => exact handleRequestVote_turns hle h
  | requestVoteRes serverId term voteGranted =>
      obtain rfl := Except.ok.inj h
      exact handleRequestVoteResponse_turns hle
  | appendEntriesReq serverId term => exact handleAppendEntries_turns h
  | appendEntriesRes serverId term =>
      obtain rfl := Except.ok.inj h
      exact Turns.refl _

theorem handle_eq (a : Actor) (cb : Callbacks) (s : RaftFSM) (event : RaftEvent) :
    handle a cb s event = if s.blocked then .ok s else handleLocked a cb s event := by
  cases event with
  | net e => cases e <;> rfl
  | electionTimeout => rfl

theorem handle_turns {cb : Callbacks} {s s' : RaftFSM} {e : NetEvent}
    (h : handle a cb s (.net e) = .ok s') : Turns a cb e s s' := by
  rw [handle_eq] at h
  split at h
  · obtain rfl := Except.ok.inj h
    exact Turns.refl s
  · exact handleLocked_turns h

/-! ### Turns are moves -/

theorem Move.trace {s s' : RaftFSM} (hm : Move a P s s') : s.trace <:+ s'.trace := by
  cases hm with
  | setBlocked | pause | reset | count => exact List.suffix_refl _
  | adopt t hlt => rw [leave_trace]
  | leave => rw [leave_trace]
  | callback | refuse | vote | acknowledge | lead => exact List.suffix_cons _ _

theorem Moves.trace {s s' : RaftFSM} (hm : Moves a P s s') : s.trace <:+ s'.trace :=
  hm.invariant (I := fun s' => s.trace <:+ s'.trace) (fun _ _ hmove hs => hs.trans hmove.trace)
    (List.suffix_refl _)

theorem Turn.moves {cb : Callbacks} {e : NetEvent} {s s' : RaftFSM} (h : Turn a cb e s s')
    (hrec : Entry.received e ∈ s.trace)
    (hP : ∀ id, e = .requestVoteRes id s.term true → s.role = .candidate → P id s.term) :
    Moves a P s s' := by
  cases h with
  | adopt hlt =>
      rw [convertToFollower_eq]
      split
      · exact (Move.adopt s _ hlt).single.trans (callable_moves.signOff cb _)
      · exact (Move.adopt s _ hlt).single
  | reset t ht => exact (Move.reset s t ht).single
  | refuse peer => exact (Move.refuse s peer).single
  | vote peer => exact (Move.vote s peer).single
  | acknowledge peer => exact (Move.acknowledge s peer).single
  | stepDown hrole => exact (Move.leave s).single
  | count id hrole he =>
      rw [he] at hrec
      exact (Move.count s id hrole (hP id he hrole) hrec).single
  | lead hrole hmaj => exact (Move.lead s hrole hmaj).single.trans (callable_moves.becomeLeader cb _)

/-- No turn makes a candidate, and one that leaves a candidate keeps its term. -/
theorem Turn.candidate {cb : Callbacks} {e : NetEvent} {s s' : RaftFSM} (h : Turn a cb e s s')
    (hrole' : s'.role = .candidate) : s.role = .candidate ∧ s'.term = s.term := by
  cases h with
  | adopt hlt =>
      rw [convertToFollower_role] at hrole'
      cases hrole'
  | reset | refuse | vote | acknowledge | count => exact ⟨hrole', rfl⟩
  | stepDown => simp at hrole'
  | lead =>
      have hleader := becomeLeader_role_ne_candidate cb (s := enterLeader s)
        (by simp [enterLeader, initLeaderState, startHeartbeat])
      exact absurd hrole' hleader

/-- **Every event from the wire is handled by a sequence of moves.**  The machine
counts a vote only for its current term, as a candidate and unblocked. -/
theorem handle_moves {cb : Callbacks} {s s' : RaftFSM} {e : NetEvent}
    (h : handle a cb s (.net e) = .ok s') (hrec : Entry.received e ∈ s.trace)
    (hP : ∀ id, e = .requestVoteRes id s.term true → s.blocked = false →
      s.role = .candidate → P id s.term) : Moves a P s s' := by
  cases hblocked : s.blocked with
  | true =>
      rw [handle_eq, if_pos hblocked] at h
      obtain rfl := Except.ok.inj h
      exact Moves.refl s
  | false =>
      -- A candidate in the middle of the handling has been one all along, in the same term.
      have hboth : Moves a P s s' ∧
          (s'.role = .candidate → s.role = .candidate ∧ s'.term = s.term) := by
        refine (handle_turns h).invariant
          (I := fun s' => Moves a P s s' ∧
            (s'.role = .candidate → s.role = .candidate ∧ s'.term = s.term)) ?_
          ⟨Moves.refl s, fun hrole => ⟨hrole, rfl⟩⟩
        intro s₁ s₂ hturn hs₁
        obtain ⟨hmoves, hsame⟩ := hs₁
        refine ⟨hmoves.trans (hturn.moves (hmoves.trace.subset hrec) ?_), ?_⟩
        · intro id he hrole
          obtain ⟨hrole₀, hterm⟩ := hsame hrole
          rw [hterm] at he ⊢
          exact hP id he hblocked hrole₀
        · intro hrole
          obtain ⟨hrole₁, hterm₁⟩ := hturn.candidate hrole
          obtain ⟨hrole₀, hterm⟩ := hsame hrole₁
          exact ⟨hrole₀, hterm₁.trans hterm⟩
      exact hboth.1

end Handle

/-! ### The start of a candidacy

An election timeout is no event of the wire and has no turns.  On a node that is not blocked and
not leader it is one change, `candidacy`, whose fields are written out here so that later proofs
do not run the handler.
-/

/-- What an election timeout does to a follower or a candidate. -/
def candidacy (a : Actor) (s : RaftFSM) : RaftFSM :=
  initCandidateState a
    ({ clearPrevState s with term := s.term + 1, role := .candidate }.emit (.stood (s.term + 1)))

theorem handleElectionTimeout_eq (a : Actor) (cb : Callbacks) (s : RaftFSM) :
    handleElectionTimeout a cb s = if s.role = .leader then s else candidacy a s := by
  unfold handleElectionTimeout
  cases hrole : s.role with
  | leader => rfl
  | follower =>
      simp [convertToCandidate, candidacy, clearPrevState, clearFollowerState, incTerm, hrole]
  | candidate =>
      simp [startNewElection, candidacy, clearPrevState, clearCandidateState, incTerm, hrole,
        emit, stopElectionTimeout]

theorem adoptTerm_timeout (cb : Callbacks) (s : RaftFSM) :
    adoptTerm cb s RaftEvent.electionTimeout.getTerm = s := by
  refine adoptTerm_of_not_lt cb ?_
  simp [RaftEvent.getTerm]

theorem handleLocked_timeout (a : Actor) (cb : Callbacks) (s : RaftFSM) :
    handleLocked a cb s .electionTimeout = .ok (if s.role = .leader then s else candidacy a s) := by
  simp only [handleLocked, dispatch, adoptTerm_timeout, handleElectionTimeout_eq]

theorem handle_timeout_eq (a : Actor) (cb : Callbacks) (s : RaftFSM) :
    handle a cb s .electionTimeout
      = .ok (if s.blocked = true ∨ s.role = .leader then s else candidacy a s) := by
  rw [handle_eq, handleLocked_timeout]
  by_cases hblocked : s.blocked = true
  · simp [hblocked]
  · by_cases hrole : s.role = .leader <;> simp [hblocked, hrole]

/-- **An election timeout starts a candidacy, or does nothing.** -/
theorem handle_timeout {a : Actor} {cb : Callbacks} {s s' : RaftFSM}
    (h : handle a cb s .electionTimeout = .ok s') :
    s' = s ∨ s.blocked = false ∧ s.role ≠ .leader ∧ s' = candidacy a s := by
  rw [handle_timeout_eq] at h
  obtain rfl := Except.ok.inj h
  split
  · exact Or.inl rfl
  · rename_i hactive
    simp only [not_or, Bool.not_eq_true] at hactive
    exact Or.inr ⟨hactive.1, hactive.2, rfl⟩

theorem sendAll_eq (e : NetEvent) :
    ∀ (peers : List UInt64) (s : RaftFSM),
      sendAll e s peers = { s with trace := (peers.map (Entry.sent · e)).reverse ++ s.trace } := by
  intro peers
  induction peers with
  | nil => intro s; rfl
  | cons peer rest ih =>
      intro s
      show sendAll e (s.emit (.sent peer e)) rest = _
      rw [ih]
      simp [emit]

/-- The entries a candidacy adds to the trace, latest first. -/
def candidacyEntries (a : Actor) (s : RaftFSM) : List Entry :=
  (a.getPeers.map (Entry.sent · (.requestVoteReq a.self (s.term + 1)))).reverse
    ++ (if (s.voter.voteForLeader a.self (s.term + 1)).1 then [.votedSelf (s.term + 1)] else [])
    ++ [.stood (s.term + 1)]

section Candidacy

variable (a : Actor) (s : RaftFSM)

theorem candidacy_eq :
    candidacy a s =
      { clearPrevState s with
        role := .candidate
        term := s.term + 1
        voter := (s.voter.voteForLeader a.self (s.term + 1)).2
        votedPeers :=
          if (s.voter.voteForLeader a.self (s.term + 1)).1 then
            insert a.self (clearPrevState s).votedPeers
          else (clearPrevState s).votedPeers
        electionTimeoutTask := Timer.start (clearPrevState s).electionTimeoutTask
        trace := candidacyEntries a s ++ s.trace } := by
  have hvoter : (clearPrevState s).voter = s.voter := by
    unfold clearPrevState
    cases s.role <;> rfl
  have htrace : (clearPrevState s).trace = s.trace := by
    unfold clearPrevState
    cases s.role <;> rfl
  unfold candidacy initCandidateState requestVoteForSelf
  rw [sendAll_eq]
  simp only [voteSelf, startElectionTimeout, emit, hvoter, htrace, candidacyEntries]
  split <;> simp

@[simp] theorem candidacy_role : (candidacy a s).role = .candidate := by rw [candidacy_eq]

@[simp] theorem candidacy_term : (candidacy a s).term = s.term + 1 := by rw [candidacy_eq]

@[simp] theorem candidacy_voter :
    (candidacy a s).voter = (s.voter.voteForLeader a.self (s.term + 1)).2 := by rw [candidacy_eq]

@[simp] theorem candidacy_trace :
    (candidacy a s).trace = candidacyEntries a s ++ s.trace := by rw [candidacy_eq]

theorem mem_candidacyEntries {o : Entry} :
    o ∈ candidacyEntries a s ↔
      (∃ peer ∈ a.getPeers, o = .sent peer (.requestVoteReq a.self (s.term + 1))) ∨
      ((s.voter.voteForLeader a.self (s.term + 1)).1 = true ∧ o = .votedSelf (s.term + 1)) ∨
      o = .stood (s.term + 1) := by
  unfold candidacyEntries
  split <;> rename_i hvote <;> simp [hvote, eq_comm]

end Candidacy

end Raft.RaftFSM

/-! ### The steps of a node -/

namespace Raft.Node

open RaftFSM

/-- The votes this step would count are ones `P` is known of. -/
def CountsOnly (P : UInt64 → UInt64 → Prop) (n : Node) (act : NodeAction) : Prop :=
  ∀ id cb, act = .deliver (.requestVoteRes id n.fsm.term true) cb → n.fsm.blocked = false →
    n.fsm.role = .candidate → P id n.fsm.term

/-- What a step does to the node. -/
inductive Change (a : Actor) (P : UInt64 → UInt64 → Prop) (n : Node) : NodeAction → Node → Prop
  | delivered (e : NetEvent) (cb : Callbacks) (s' : RaftFSM)
      (hhandle : handle a cb (n.fsm.emit (.received e)) (.net e) = .ok s')
      (hmoves : Moves a P (n.fsm.emit (.received e)) s') :
      Change a P n (.deliver e cb) { n with fsm := s' }
  | expired (hpc : n.pc = .idle) (hlive : Timer.Live n.fsm.electionTimeoutTask) :
      Change a P n .expire { n with pc := .timingOut }
  | ignored (cb : Callbacks) (hpc : n.pc = .timingOut) :
      Change a P n (.timeout cb) { n with pc := .idle }
  | stood (cb : Callbacks) (hpc : n.pc = .timingOut) (hblocked : n.fsm.blocked = false)
      (hrole : n.fsm.role ≠ .leader) :
      Change a P n (.timeout cb) { fsm := candidacy a n.fsm, pc := .idle }
  | began (hpc : n.pc = .idle) (hlive : Timer.Live n.fsm.heartbeatTask) :
      Change a P n .beat { n with pc := .loop a.getPeers }
  | sent (peer : UInt64) (rest : List UInt64) (hpc : n.pc = .beating (peer :: rest)) :
      Change a P n .sendHeartbeat
        { fsm := n.fsm.emit (.sent peer (.appendEntriesReq a.self n.fsm.term))
          pc := .loop rest }
  | called (c : ApiCall) (cb : Callbacks) :
      Change a P n (.api c cb) { n with fsm := n.fsm.call (signOff cb) c }

/-- **Every step of the node is one of these changes.** -/
theorem step_change {a : Actor} {P : UInt64 → UInt64 → Prop} {n n' : Node} {act : NodeAction}
    (hP : CountsOnly P n act) (hstep : n.step a act = some n') : Change a P n act n' := by
  cases act with
  | deliver e cb =>
      simp only [step] at hstep
      split at hstep
      · rename_i s hs
        simp only [Option.some.injEq] at hstep
        subst hstep
        refine .delivered e cb s hs (handle_moves hs (by simp [emit]) ?_)
        intro id he hb hr
        exact hP id cb (by rw [he]; rfl) hb hr
      · simp at hstep
  | expire =>
      simp only [step, Option.ite_none_right_eq_some, Option.some.injEq] at hstep
      obtain ⟨⟨hpc, hlive⟩, rfl⟩ := hstep
      exact .expired hpc hlive
  | timeout cb =>
      simp only [step, Option.ite_none_right_eq_some] at hstep
      obtain ⟨hpc, hstep⟩ := hstep
      split at hstep
      · rename_i s hs
        simp only [Option.some.injEq] at hstep
        subst hstep
        rcases handle_timeout hs with rfl | ⟨hblocked, hrole, rfl⟩
        · exact .ignored cb hpc
        · exact .stood cb hpc hblocked hrole
      · simp at hstep
  | beat =>
      simp only [step, Option.ite_none_right_eq_some, Option.some.injEq] at hstep
      obtain ⟨⟨hpc, hlive⟩, rfl⟩ := hstep
      exact .began hpc hlive
  | sendHeartbeat =>
      simp only [step] at hstep
      split at hstep
      · rename_i peer rest hpc
        simp only [Option.some.injEq] at hstep
        subst hstep
        exact .sent peer rest hpc
      · simp at hstep
  | api c cb =>
      simp only [step, Option.some.injEq] at hstep
      subst hstep
      exact .called c cb

/-- The same where nothing is known of the votes counted. -/
theorem step_change_any {a : Actor} {n n' : Node} {act : NodeAction}
    (hstep : n.step a act = some n') : Change a (fun _ _ => True) n act n' :=
  step_change (fun _ _ _ _ _ => trivial) hstep

/-- **What the moves, the receipt of a message, a candidacy and a heartbeat preserve,
every step of the node preserves.**  The candidacy is the whole of its step, so its
case may use what is known of the states on both sides. -/
theorem Change.invariant {a : Actor} {P : UInt64 → UInt64 → Prop} {I : RaftFSM → Prop}
    {n n' : Node} {act : NodeAction} (hchange : Change a P n act n')
    (hmove : ∀ s s', Move a P s s' → I s → I s')
    (hreceived : ∀ s e, I s → I (s.emit (.received e)))
    (hcandidacy : n.fsm.role ≠ .leader → n'.fsm = candidacy a n.fsm → I n.fsm →
      I (candidacy a n.fsm))
    (hheartbeat : ∀ s peer, I s → I (s.emit (.sent peer (.appendEntriesReq a.self s.term))))
    (h : I n.fsm) : I n'.fsm := by
  cases hchange with
  | delivered e cb s' hhandle hmoves => exact hmoves.invariant hmove (hreceived _ e h)
  | expired | ignored | began => exact h
  | stood cb hpc hblocked hrole => exact hcandidacy hrole rfl h
  | sent peer rest hpc => exact hheartbeat _ peer h
  | called c cb => exact (call_moves (P := P) cb _ c).invariant hmove h

end Raft.Node
