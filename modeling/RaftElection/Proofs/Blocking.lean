/-
Whether a blocked node is a silent follower.

It is meant to be: `block` is to shut out all messages and to keep the node a
follower.  But `blocked_` is tested only where an event enters `handle`, and `block`
waits for nobody.  A timeout that was admitted before the block makes a candidate of
the blocked node, an admitted request is answered, an unfinished heartbeat loop goes on
sending; and a timeout that is handled in the middle of `block` leaves a candidate to
be blocked.

Where `block` sets the flag with nothing admitted still on its way, and no timeout is
handled in the middle of it, the node is what it was meant to be, until the next
`unblock`.
-/
import Mathlib.Data.Fintype.Basic
import RaftElection.Blocking
import RaftElection.Proofs.Heartbeat

namespace Raft

namespace RaftFSM

variable {a : Actor} {s s' : RaftFSM} {cb : Callbacks} {e : NetEvent}

/-! ### The `blocked` flag through a turn -/

/-- A blocked machine is a follower. -/
def BlockedFollower (s : RaftFSM) : Prop := s.blocked = true → s.role = .follower

/-- Whatever is called, a blocked machine is a follower afterwards. -/
theorem BlockedFollower.call (cb : Callbacks) (s : RaftFSM) (c : ApiCall) :
    BlockedFollower (call (signOff cb) s c) := by
  cases c with
  | block => exact fun _ => convertToFollower_role cb s
  | unblock => exact fun hc => (by cases hc)
  | stayFollower => exact fun _ => convertToFollower_role cb s

theorem BlockedFollower.turn (hturn : Turn a cb e s s') (h : BlockedFollower s) :
    BlockedFollower s' := by
  cases hturn with
  | adopt => exact fun _ => convertToFollower_role cb _
  | reset | refuse | vote | acknowledge | count => exact h
  | stepDown => exact fun _ => leave_role s
  | lead hrole =>
      have hunblocked : s.blocked = false := by
        cases hblocked : s.blocked with
        | false => rfl
        | true => cases hrole.symm.trans (h hblocked)
      have henter : BlockedFollower (enterLeader s) :=
        fun hblocked => by cases hunblocked.symm.trans hblocked
      unfold becomeLeader
      split
      · exact henter
      · rename_i calls hcalls
        exact calls.foldlRecOn (motive := BlockedFollower) _ henter
          (fun s _ c _ => BlockedFollower.call cb s c)

theorem candidacy_blocked (a : Actor) (s : RaftFSM) : (candidacy a s).blocked = s.blocked := by
  rw [candidacy_eq]
  show (clearPrevState s).blocked = s.blocked
  unfold clearPrevState
  cases s.role <;> rfl

/-! ### Followers

Messages make no candidate and no leader of a follower, so a follower stays one until an election
timeout.  A message that was admitted before the block may still be handled after it, and `Inert`
tells which of them change nothing.
-/

theorem follower_turn (hturn : Turn a cb e s s') (h : s.role = .follower) :
    s'.role = .follower := by
  cases hturn with
  | adopt => exact convertToFollower_role cb _
  | reset | refuse | vote | acknowledge => exact h
  | stepDown => exact leave_role s
  | count id hrole | lead hrole => cases h.symm.trans hrole

theorem LeaderPaced.turn (hturn : Turn a cb e s s') (h : LeaderPaced s) : LeaderPaced s' := by
  have hmoves : ∀ {s s' : RaftFSM}, Moves a (fun _ _ => True) s s' → LeaderPaced s →
      LeaderPaced s' := fun hm hs => hm.invariant (fun _ _ hm hs => hs.move hm) hs
  cases hturn with
  | adopt =>
      exact hmoves (callable_moves.convertToFollower (callable_moves.signOff cb) _) h
  | reset | refuse | vote | acknowledge | count => exact h
  | stepDown => exact LeaderPaced.leave h
  | lead hrole hmaj =>
      exact hmoves ((Move.lead s hrole hmaj).single.trans (callable_moves.becomeLeader cb _)) h

/-- The event can neither change a follower nor make it answer. -/
def Inert (s : RaftFSM) : NetEvent → Prop
  | .requestVoteRes _ term _ | .appendEntriesRes _ term => term ≤ s.term
  | .requestVoteReq .. | .appendEntriesReq .. => False

instance (s : RaftFSM) : ∀ e, Decidable (Inert s e)
  | .requestVoteRes _ term _ | .appendEntriesRes _ term =>
      inferInstanceAs (Decidable (term ≤ s.term))
  | .requestVoteReq .. | .appendEntriesReq .. => isFalse id

theorem Inert.handleLocked (h : Inert s e) (hrole : s.role = .follower)
    (hok : handleLocked a cb s (.net e) = .ok s') : s' = s := by
  have hsame : ∀ {t : UInt64}, t ≤ s.term → adoptTerm cb s t = s :=
    fun hle => adoptTerm_of_not_lt cb (UInt64.not_lt.mpr hle)
  cases e with
  | requestVoteReq | appendEntriesReq => exact h.elim
  | requestVoteRes serverId term voteGranted =>
      obtain rfl := Except.ok.inj hok
      simp only [RaftEvent.getTerm, NetEvent.getTerm, hsame h]
      simp [handleRequestVoteResponse, hrole]
  | appendEntriesRes serverId term =>
      obtain rfl := Except.ok.inj hok
      exact hsame h

end RaftFSM

namespace SplitNode

open Transition RaftFSM

variable {τ : Type} [DecidableEq τ] {a : Actor} {n n' : SplitNode τ} {x : SplitAction τ}

/-! ### The steps of the threads -/

/-- What a step does to the node. -/
inductive Change (a : Actor) (n : SplitNode τ) : SplitAction τ → SplitNode τ → Prop
  | dropped (e : NetEvent) (hserver : n.server = .idle) (hblocked : n.fsm.blocked = true) :
      Change a n (.receive e) { n with fsm := n.fsm.emit (.received e), server := .idle }
  | admitted (e : NetEvent) (hserver : n.server = .idle) (hunblocked : n.fsm.blocked = false) :
      Change a n (.receive e) { n with fsm := n.fsm.emit (.received e), server := .admitted e }
  | served (cb : Callbacks) (e : NetEvent) (s' : RaftFSM) (hserver : n.server = .admitted e)
      (hhandle : handleLocked a cb n.fsm (.net e) = .ok s') :
      Change a n (.serve cb) { n with fsm := s', server := .idle }
  | expired (hidle : n.scheduler = .idle) : Change a n .expire { n with scheduler := .fired }
  | turnedAway (hfired : n.scheduler = .fired) (hblocked : n.fsm.blocked = true) :
      Change a n .enter { n with scheduler := .idle }
  | entered (hfired : n.scheduler = .fired) (hunblocked : n.fsm.blocked = false) :
      Change a n .enter { n with scheduler := .admitted }
  | timedOut (cb : Callbacks) (hadmitted : n.scheduler = .admitted) :
      Change a n (.timeout cb)
        { n with
          fsm := if n.fsm.role = .leader then n.fsm else candidacy a n.fsm
          scheduler := .idle }
  | began (hidle : n.scheduler = .idle) (hlive : Timer.Live n.fsm.heartbeatTask) :
      Change a n .beat { n with scheduler := .loop a.getPeers }
  | sent (peer : UInt64) (rest : List UInt64) (hbeating : n.scheduler = .beating (peer :: rest)) :
      Change a n .sendHeartbeat
        { n with
          fsm := n.fsm.emit (.sent peer (.appendEntriesReq a.self n.fsm.term))
          scheduler := .loop rest }
  | converted (t : τ) (blocking : Bool) (cb : Callbacks) (hidle : n.caller t = .idle) :
      Change a n (.convert t blocking cb)
        { n with
          fsm := convertToFollower (signOff cb) n.fsm
          caller := Function.update n.caller t (.converted blocking) }
  | paused (t : τ) (blocking : Bool) (hconverted : n.caller t = .converted blocking) :
      Change a n (.pause t)
        { n with
          fsm := n.fsm.pauseScheduledTasks
          caller := Function.update n.caller t (if blocking then .paused else .idle) }
  | stored (t : τ) (hpaused : n.caller t = .paused) :
      Change a n (.store t)
        { n with
          fsm := { n.fsm with blocked := true }
          caller := Function.update n.caller t .idle }
  | unblocked (t : τ) (hidle : n.caller t = .idle) :
      Change a n (.unblock t) { n with fsm := n.fsm.unblock }

/-- **Every step of a thread is one of these changes.** -/
theorem step_change (hstep : n.step a x = some n') : Change a n x n' := by
  cases x with
  | receive e =>
      simp only [step, Option.ite_none_right_eq_some, Option.some.injEq] at hstep
      obtain ⟨hserver, rfl⟩ := hstep
      split
      · rename_i hblocked
        exact .dropped e hserver hblocked
      · rename_i hblocked
        exact .admitted e hserver (by simpa using hblocked)
  | serve cb =>
      simp only [step] at hstep
      split at hstep
      · rename_i e hserver
        split at hstep
        · rename_i s hhandle
          obtain rfl := Option.some.inj hstep
          exact .served cb e s hserver hhandle
        · cases hstep
      · cases hstep
  | expire =>
      simp only [step, Option.ite_none_right_eq_some, Option.some.injEq] at hstep
      obtain ⟨⟨hidle, -⟩, rfl⟩ := hstep
      exact .expired hidle
  | enter =>
      simp only [step, Option.ite_none_right_eq_some, Option.some.injEq] at hstep
      obtain ⟨hfired, rfl⟩ := hstep
      split
      · rename_i hblocked
        exact .turnedAway hfired hblocked
      · rename_i hblocked
        exact .entered hfired (by simpa using hblocked)
  | timeout cb =>
      simp only [step, handleLocked_timeout, Option.ite_none_right_eq_some,
        Option.some.injEq] at hstep
      obtain ⟨hadmitted, rfl⟩ := hstep
      exact .timedOut cb hadmitted
  | beat =>
      simp only [step, Option.ite_none_right_eq_some, Option.some.injEq] at hstep
      obtain ⟨⟨hidle, hlive⟩, rfl⟩ := hstep
      exact .began hidle hlive
  | sendHeartbeat =>
      simp only [step] at hstep
      split at hstep
      · rename_i peer rest hbeating
        obtain rfl := Option.some.inj hstep
        exact .sent peer rest hbeating
      · cases hstep
  | convert t blocking cb =>
      simp only [step, Option.ite_none_right_eq_some, Option.some.injEq] at hstep
      obtain ⟨hidle, rfl⟩ := hstep
      exact .converted t blocking cb hidle
  | pause t =>
      simp only [step] at hstep
      split at hstep
      · rename_i blocking hconverted
        obtain rfl := Option.some.inj hstep
        exact .paused t blocking hconverted
      · cases hstep
  | store t =>
      simp only [step, Option.ite_none_right_eq_some, Option.some.injEq] at hstep
      obtain ⟨hpaused, rfl⟩ := hstep
      exact .stored t hpaused
  | unblock t =>
      simp only [step, Option.ite_none_right_eq_some, Option.some.injEq] at hstep
      obtain ⟨hidle, rfl⟩ := hstep
      exact .unblocked t hidle

/-! ### Blocking in order

The flag stops nothing that has passed the test.  A node is silent once it is blocked if nothing
was on its way at that moment, and this is a condition on the states in which the flag is set.
-/

end SplitNode

/-- No timeout is past its test of `blocked_`, and no heartbeat loop is under way. -/
def TaskPc.outside : TaskPc → Bool
  | .idle | .fired => true
  | .admitted | .beating _ => false

namespace SplitNode

open Transition RaftFSM

section Order

variable {τ : Type} {a : Actor} {n n' : SplitNode τ}

/-- The server thread has admitted no event that could still do anything to a follower. -/
def Served (n : SplitNode τ) : Prop := ∀ e, n.server = .admitted e → Inert n.fsm e

/-- Nothing that was admitted is still on its way. -/
structure AtRest (n : SplitNode τ) : Prop where
  scheduler : n.scheduler.outside = true
  server : n.Served

/-- A timeout is handled while a `block` is between its first and its last statement. -/
def Interrupts (n : SplitNode τ) : SplitAction τ → Prop
  | .timeout _ => ∃ t, (n.caller t).blocking = true
  | _ => False

/-- The condition under which a node is blocked in order: the other threads are at rest
when a step sets `blocked_`, be it the last of `block` or one with a callback that calls
`block`, and no timeout interrupts a `block`. -/
def InOrder (n : SplitNode τ) (x : SplitAction τ) (n' : SplitNode τ) : Prop :=
  (n.fsm.blocked = false → n'.fsm.blocked = true → n'.AtRest) ∧ ¬ n.Interrupts x

instance (n : SplitNode τ) : Decidable n.Served :=
  match hserver : n.server with
  | .idle => isTrue (fun e he => by cases hserver.symm.trans he)
  | .admitted e => decidable_of_iff (Inert n.fsm e)
      ⟨fun hinert e' he => by cases hserver.symm.trans he; exact hinert, fun h => h e hserver⟩

instance (n : SplitNode τ) : Decidable n.AtRest :=
  decidable_of_iff (n.scheduler.outside = true ∧ n.Served)
    ⟨fun h => ⟨h.1, h.2⟩, fun h => ⟨h.scheduler, h.server⟩⟩

instance [Fintype τ] (n : SplitNode τ) : ∀ x, Decidable (n.Interrupts x)
  | .timeout _ => inferInstanceAs (Decidable (∃ t, (n.caller t).blocking = true))
  | .receive _ | .serve _ | .expire | .enter | .beat | .sendHeartbeat | .convert .. | .pause _
  | .store _ | .unblock _ => isFalse id

instance [Fintype τ] (n : SplitNode τ) (x : SplitAction τ) (n' : SplitNode τ) :
    Decidable (InOrder n x n') :=
  inferInstanceAs (Decidable (_ ∧ _))

/-- What blocking in order maintains. -/
structure Drained (n : SplitNode τ) : Prop where
  follower : BlockedFollower n.fsm
  rest : n.fsm.blocked = true → n.AtRest
  caller : ∀ t, (n.caller t).blocking = true → n.fsm.role = .follower
  paced : LeaderPaced n.fsm

theorem served_of_idle (h : n.server = .idle) : n.Served := by
  intro e he
  cases h.symm.trans he

theorem Served.congr (h : n.Served) (hserver : n'.server = n.server)
    (hterm : n'.fsm.term = n.fsm.term) : n'.Served := by
  intro e he
  have hinert := h e (hserver.symm.trans he)
  cases e with
  | requestVoteReq | appendEntriesReq => exact hinert
  | requestVoteRes | appendEntriesRes =>
      simp only [Inert, hterm]
      exact hinert

theorem AtRest.congr (h : n.AtRest) (hscheduler : n'.scheduler = n.scheduler)
    (hserver : n'.server = n.server) (hterm : n'.fsm.term = n.fsm.term) : n'.AtRest :=
  ⟨by rw [hscheduler]; exact h.scheduler, h.server.congr hserver hterm⟩

/-- What is asked of a node that is not blocked. -/
theorem Drained.of_unblocked (hunblocked : n.fsm.blocked = false)
    (hcaller : ∀ t, (n.caller t).blocking = true → n.fsm.role = .follower)
    (hpaced : LeaderPaced n.fsm) : Drained n where
  follower hblocked := by cases hunblocked.symm.trans hblocked
  rest hblocked := by cases hunblocked.symm.trans hblocked
  caller := hcaller
  paced := hpaced

/-- The scheduler thread is past the test of `blocked_` on an unblocked node only. -/
theorem Drained.unblocked (h : Drained n) (hinside : n.scheduler.outside = false) :
    n.fsm.blocked = false := by
  cases hblocked : n.fsm.blocked with
  | false => rfl
  | true => cases hinside.symm.trans (h.rest hblocked).scheduler

/-- A blocked node is at rest after a step in order if the step left it so. -/
theorem Drained.rest_step (h : Drained n)
    (horder : n.fsm.blocked = false → n'.fsm.blocked = true → n'.AtRest)
    (hstill : n.AtRest → n'.AtRest) : n'.fsm.blocked = true → n'.AtRest := by
  intro hblocked'
  cases hblocked : n.fsm.blocked with
  | true => exact hstill (h.rest hblocked)
  | false => exact horder hblocked hblocked'

/-- The server thread finishes an event it had admitted. -/
theorem Drained.served (h : Drained n) {cb : Callbacks} {e : NetEvent} {s' : RaftFSM}
    (hserver : n.server = .admitted e) (hhandle : handleLocked a cb n.fsm (.net e) = .ok s')
    (horder : n.fsm.blocked = false → s'.blocked = true →
      AtRest { n with fsm := s', server := .idle }) :
    Drained { n with fsm := s', server := .idle } := by
  cases hblocked : n.fsm.blocked with
  | true =>
      have hrest := h.rest hblocked
      obtain rfl := (hrest.server e hserver).handleLocked (h.follower hblocked) hhandle
      exact ⟨h.follower, fun _ => ⟨hrest.scheduler, served_of_idle rfl⟩, h.caller, h.paced⟩
  | false =>
      have hturns := handleLocked_turns hhandle
      constructor
      case follower => exact hturns.invariant (fun _ _ hturn hs => hs.turn hturn) h.follower
      case rest => exact horder hblocked
      case caller =>
        intro t ht
        exact hturns.invariant (fun _ _ hturn hs => follower_turn hturn hs) (h.caller t ht)
      case paced => exact hturns.invariant (fun _ _ hturn hs => hs.turn hturn) h.paced

/-- From one state to the other the node stays blocked, in its term, and sends nothing. -/
structure Hushed (n n' : SplitNode τ) : Prop where
  blocked : n'.fsm.blocked = true
  term : n'.fsm.term = n.fsm.term
  trace : ∃ later, n'.fsm.trace = later ++ n.fsm.trace ∧ ∀ peer e, .sent peer e ∉ later

theorem Hushed.of_eq (hblocked : n'.fsm.blocked = true) (hterm : n'.fsm.term = n.fsm.term)
    (htrace : n'.fsm.trace = n.fsm.trace) : Hushed n n' :=
  ⟨hblocked, hterm, [], htrace, fun _ _ => List.not_mem_nil⟩

theorem Hushed.trans {n₁ n₂ n₃ : SplitNode τ} (h : Hushed n₁ n₂) (h' : Hushed n₂ n₃) :
    Hushed n₁ n₃ := by
  obtain ⟨later, htrace, hlater⟩ := h.trace
  obtain ⟨later', htrace', hlater'⟩ := h'.trace
  refine ⟨h'.blocked, h'.term.trans h.term, later' ++ later, ?_, ?_⟩
  · rw [htrace', htrace, List.append_assoc]
  · intro peer e
    simp [hlater peer e, hlater' peer e]

end Order

variable {τ : Type} [DecidableEq τ] {a : Actor} {n n' : SplitNode τ} {x : SplitAction τ}

/-- A user thread that moves on is in the middle of a `block` only if `pc` says so. -/
theorem blocking_update {t t' : τ} {pc : CallerPc}
    (h : (Function.update n.caller t pc t').blocking = true) :
    pc.blocking = true ∨ (n.caller t').blocking = true := by
  by_cases ht : t' = t
  · rw [ht, Function.update_self] at h
    exact Or.inl h
  · rw [Function.update_of_ne ht] at h
    exact Or.inr h

namespace Drained

theorem step (h : Drained n) (hstep : n.step a x = some n') (horder : InOrder n x n') :
    Drained n' := by
  obtain ⟨hsets, hcalm⟩ := horder
  cases step_change hstep with
  | dropped e hserver hblocked =>
      exact ⟨h.follower, fun _ => ⟨(h.rest hblocked).scheduler, served_of_idle rfl⟩, h.caller,
        h.paced⟩
  | admitted e hserver hunblocked => exact of_unblocked hunblocked h.caller h.paced
  | served cb e s' hserver hhandle => exact h.served hserver hhandle hsets
  | expired | turnedAway =>
      exact ⟨h.follower, fun hb => ⟨rfl, (h.rest hb).server.congr rfl rfl⟩, h.caller, h.paced⟩
  | entered hfired hunblocked => exact of_unblocked hunblocked h.caller h.paced
  | timedOut cb hadmitted =>
      have hunblocked : n.fsm.blocked = false := h.unblocked (by rw [hadmitted]; rfl)
      split
      · exact of_unblocked hunblocked h.caller h.paced
      · rename_i hrole
        refine of_unblocked ((candidacy_blocked a n.fsm).trans hunblocked) ?_
          (h.paced.candidacy hrole)
        intro t ht
        exact absurd ⟨t, ht⟩ hcalm
  | began hidle hlive =>
      refine of_unblocked ?_ h.caller h.paced
      cases hblocked : n.fsm.blocked with
      | false => rfl
      | true => cases (h.follower hblocked).symm.trans (h.paced hlive)
  | sent peer rest hbeating =>
      have hunblocked : n.fsm.blocked = false := h.unblocked (by rw [hbeating]; rfl)
      exact of_unblocked hunblocked h.caller h.paced
  | converted t blocking cb hidle =>
      have hterm := (callable_aside.convertToFollower (callable_aside.signOff cb) n.fsm).term
      have hmoves := (callable_moves (a := a) (P := fun _ _ => True)).convertToFollower
        (callable_moves.signOff cb) n.fsm
      exact ⟨fun _ => convertToFollower_role cb _,
        h.rest_step hsets (fun hrest => hrest.congr rfl rfl hterm),
        fun _ _ => convertToFollower_role cb _,
        hmoves.invariant (fun _ _ hm hs => hs.move hm) h.paced⟩
  | paused t blocking hconverted =>
      refine ⟨h.follower, fun hb => (h.rest hb).congr rfl rfl rfl, ?_,
        fun hlive => absurd hlive (Timer.not_live_stop _)⟩
      intro t' ht'
      rcases blocking_update ht' with hpc | hold
      · cases hb : blocking with
        | true => exact h.caller t (by rw [hconverted, hb]; rfl)
        | false =>
            rw [hb] at hpc
            cases hpc
      · exact h.caller t' hold
  | stored t hpaused =>
      refine ⟨?_, h.rest_step hsets (fun hrest => hrest.congr rfl rfl rfl), ?_, h.paced⟩
      · exact fun _ => h.caller t (by rw [hpaused]; rfl)
      · intro t' ht'
        rcases blocking_update ht' with hpc | hold
        · cases hpc
        · exact h.caller t' hold
  | unblocked t hidle => exact of_unblocked rfl h.caller h.paced

theorem of_reachable (h : ((splitSystem a τ).restrict InOrder).Reachable n) : Drained n := by
  refine h.invariant ?_ (fun _ _ _ _ hn hstep => hn.step hstep.1 hstep.2)
  intro n₀ hn₀
  rw [hn₀]
  refine of_unblocked rfl (fun _ hc => (by cases hc)) ?_
  exact fun hlive => absurd hlive Timer.not_live_none

end Drained

/-! ### The node while it is blocked -/

theorem Drained.hushed (h : Drained n) (hblocked : n.fsm.blocked = true)
    (hstep : n.step a x = some n') (hx : ∀ t, x ≠ .unblock t) : Hushed n n' := by
  have hrest := h.rest hblocked
  have houtside := hrest.scheduler
  cases step_change hstep with
  | dropped e => exact ⟨hblocked, rfl, [.received e], rfl, by simp⟩
  | admitted e hserver hunblocked => cases hblocked.symm.trans hunblocked
  | served cb e s' hserver hhandle =>
      obtain rfl := (hrest.server e hserver).handleLocked (h.follower hblocked) hhandle
      exact Hushed.of_eq hblocked rfl rfl
  | expired | turnedAway => exact Hushed.of_eq hblocked rfl rfl
  | entered hfired hunblocked => cases hblocked.symm.trans hunblocked
  | timedOut cb hadmitted =>
      rw [hadmitted] at houtside
      cases houtside
  | began hidle hlive => cases (h.follower hblocked).symm.trans (h.paced hlive)
  | sent peer rest hbeating =>
      rw [hbeating] at houtside
      cases houtside
  | converted t blocking cb hidle =>
      rw [convertToFollower_eq, if_neg (by rw [h.follower hblocked]; decide),
        leave_of_follower (h.follower hblocked)]
      exact Hushed.of_eq hblocked rfl rfl
  | paused => exact Hushed.of_eq hblocked rfl rfl
  | stored => exact Hushed.of_eq rfl rfl rfl
  | unblocked t => exact absurd rfl (hx t)

/-- Steps in order that do not end a block. -/
def Holding (n : SplitNode τ) (x : SplitAction τ) (n' : SplitNode τ) : Prop :=
  InOrder n x n' ∧ ∀ t, x ≠ .unblock t

/-- **A node that is blocked in order is a silent follower.**  In every state from the
store of `blocked_` to the next `unblock`, whatever is delivered, fires or is called in
between, its role is follower, its term has not changed and it has sent nothing. -/
theorem blocked_silent (hn : ((splitSystem a τ).restrict InOrder).Reachable n)
    (hblocked : n.fsm.blocked = true) (hrun : ((splitSystem a τ).restrict Holding).Run n n') :
    n'.fsm.role = .follower ∧ n'.fsm.term = n.fsm.term ∧
      ∃ later, n'.fsm.trace = later ++ n.fsm.trace ∧ ∀ peer e, .sent peer e ∉ later := by
  have hboth : Drained n' ∧ Hushed n n' := by
    refine hrun.invariant (I := fun n' => Drained n' ∧ Hushed n n') ?_
      ⟨Drained.of_reachable hn, Hushed.of_eq hblocked rfl rfl⟩
    intro n₁ x n₂ hn₁ hmove
    obtain ⟨hdrained, hhushed⟩ := hn₁
    obtain ⟨hstep, horder, hx⟩ := hmove
    exact ⟨hdrained.step hstep horder,
      hhushed.trans (hdrained.hushed hhushed.blocked hstep hx)⟩
  obtain ⟨hdrained, hhushed⟩ := hboth
  exact ⟨hdrained.follower hhushed.blocked, hhushed.term, hhushed.trace⟩

/-- A node is blocked with nothing under way, and an event of a higher term changes
nothing. -/
theorem blocked_silent_of_three :
    ∃ n n' : SplitNode Unit, n.fsm.blocked = true ∧
      n.step firstOfThree (.receive (.appendEntriesReq 2 5)) = some n' ∧
      n'.fsm.role = .follower ∧ n'.fsm.term = 0 := by
  obtain ⟨n, hn, hblocked, hterm, hreceives⟩ :=
    System.Reachable.of_execute {} (SplitNode.step (τ := Unit) firstOfThree) InOrder
      [.convert () true {}, .pause (), .store ()]
      (fun n => n.fsm.blocked = true ∧ n.fsm.term = 0 ∧
        (n.step firstOfThree (.receive (.appendEntriesReq 2 5))).isSome) (by decide +kernel)
  obtain ⟨n', hstep⟩ := Option.isSome_iff_exists.mp hreceives
  have horder : InOrder n (.receive (.appendEntriesReq 2 5)) n' :=
    ⟨fun hunblocked => (by cases hblocked.symm.trans hunblocked), id⟩
  obtain ⟨hrole', hterm', -⟩ := blocked_silent hn hblocked
    ((System.Run.refl n).tail ⟨hstep, horder, fun t hc => (by cases hc)⟩)
  exact ⟨n, n', hblocked, hstep, hrole', hterm'.trans hterm⟩

/-- An election timeout is admitted, the node is blocked from the first statement of
`block` to the last, and the timeout makes a candidate of it that asks for votes. -/
theorem blocked_candidate :
    ∃ n n' : SplitNode Unit, (splitSystem firstOfThree Unit).Reachable n ∧
      n.fsm.blocked = true ∧ n.fsm.role = .follower ∧ n.caller () = .idle ∧
      n.step firstOfThree (.timeout {}) = some n' ∧ n'.fsm.blocked = true ∧
      n'.fsm.role = .candidate ∧ n'.fsm.term ≠ n.fsm.term ∧
      .sent 2 (.requestVoteReq 1 1) ∈ n'.fsm.trace ∧
      .sent 2 (.requestVoteReq 1 1) ∉ n.fsm.trace := by
  obtain ⟨n, hn, hblocked, hrole, hidle, hwakes⟩ :=
    System.Reachable.of_execute {} (SplitNode.step (τ := Unit) firstOfThree) (fun _ _ _ => True)
      [.expire, .enter, .convert () true {}, .pause (), .store ()]
      (fun n => n.fsm.blocked = true ∧ n.fsm.role = .follower ∧ n.caller () = .idle ∧
        (n.step firstOfThree (.timeout {})).any (fun n' =>
          n'.fsm.blocked = true ∧ n'.fsm.role = .candidate ∧ n'.fsm.term ≠ n.fsm.term ∧
          .sent 2 (.requestVoteReq 1 1) ∈ n'.fsm.trace ∧
          .sent 2 (.requestVoteReq 1 1) ∉ n.fsm.trace)) (by decide +kernel)
  obtain ⟨n', hstep, hn'⟩ := Option.any_eq_true _ _ |>.mp hwakes
  exact ⟨n, n', hn.unrestrict, hblocked, hrole, hidle, hstep, of_decide_eq_true hn'⟩

end SplitNode

end Raft
