/-
The timers of a node follow its role.

Every conversion stops what the old role had running and starts what the new one
needs.  A leader beats and waits for nobody; a candidate waits for its election; a
follower waits for a leader, unless it was told to stay one: `stay_follower` pauses
both timers, and after that nothing short of an election could resume them, which in
turn nothing but the election timer can start.

The flags pass through callbacks that call `stay_follower` themselves.  `Carries`
therefore speaks of the calls and of the callbacks between two states together, and
composes, so that each piece of a step is looked at by itself.
-/
import RaftElection.Proofs.Callbacks
import RaftElection.Proofs.Timers

namespace Raft

namespace Timer

/-- There is a task, and it is not paused. -/
def Unpaused (t : Option Timer) : Prop := ∃ task, t = some task ∧ task.paused = false

/-- There is a task, and it is paused. -/
def Paused (t : Option Timer) : Prop := ∃ task, t = some task ∧ task.paused = true

theorem unpaused_start (t : Option Timer) : Unpaused (start t) := by
  cases t with
  | none => exact ⟨{}, rfl, rfl⟩
  | some task => exact ⟨task.resume, rfl, rfl⟩

theorem Unpaused.stop {t : Option Timer} (h : Unpaused t) : Paused (stop t) := by
  obtain ⟨task, rfl, -⟩ := h
  exact ⟨task.pause, rfl, rfl⟩

theorem stop_paused (t : Option Timer) : stop t = none ∨ Paused (stop t) := by
  cases t with
  | none => exact Or.inl rfl
  | some task => exact Or.inr ⟨task.pause, rfl, rfl⟩

theorem Unpaused.reset {task : Timer} (h : Unpaused (some task)) : Unpaused (some task.reset) := by
  obtain ⟨_, heq, hpaused⟩ := h
  cases heq
  exact ⟨task.reset, rfl, hpaused⟩

theorem Paused.reset {task : Timer} (h : Paused (some task)) : Paused (some task.reset) := by
  obtain ⟨_, heq, hpaused⟩ := h
  cases heq
  exact ⟨task.reset, rfl, hpaused⟩

end Timer

namespace RaftFSM

open Transition Timer

variable {a : Actor} {s s₁ s₂ s₃ s' : RaftFSM} {cb : Callbacks} {b p q : Bool}

theorem leave_electionTimeoutTask (h : s.role ≠ .follower) :
    Unpaused (leave s).electionTimeoutTask := by
  unfold leave convertToFollower
  rw [if_neg h]
  split <;> exact unpaused_start _

/-- The timers are as the role wants them; `stayed` excuses a follower's. -/
structure TimersFollowRole (stayed : Bool) (s : RaftFSM) : Prop where
  leader_beats : s.role = .leader → Unpaused s.heartbeatTask
  leader_waits : s.role = .leader → Paused s.electionTimeoutTask
  candidate : s.role = .candidate → Unpaused s.electionTimeoutTask
  silent : s.role ≠ .leader → s.heartbeatTask = none ∨ Paused s.heartbeatTask
  follower : s.role = .follower → stayed = false → Unpaused s.electionTimeoutTask

namespace TimersFollowRole

theorem mono {b' : Bool} (h : TimersFollowRole b s) (hle : b = true → b' = true) :
    TimersFollowRole b' s where
  leader_beats := h.leader_beats
  leader_waits := h.leader_waits
  candidate := h.candidate
  silent := h.silent
  follower hrole hstayed := by
    refine h.follower hrole ?_
    cases hb : b with
    | false => rfl
    | true =>
        rw [hle hb] at hstayed
        cases hstayed

/-- The condition reads the role and the two timers. -/
theorem congr (h : TimersFollowRole b s) (hrole : s'.role = s.role)
    (helection : s'.electionTimeoutTask = s.electionTimeoutTask)
    (hheartbeat : s'.heartbeatTask = s.heartbeatTask) : TimersFollowRole b s' := by
  constructor
  case leader_beats => rw [hrole, hheartbeat]; exact h.leader_beats
  case leader_waits => rw [hrole, helection]; exact h.leader_waits
  case candidate => rw [hrole, helection]; exact h.candidate
  case silent => rw [hrole, hheartbeat]; exact h.silent
  case follower => rw [hrole, helection]; exact h.follower

/-- A role that is left for follower leaves its timers in order. -/
theorem leave (h : TimersFollowRole b s) : TimersFollowRole b (leave s) := by
  by_cases hfollower : s.role = .follower
  · rw [leave_of_follower hfollower]
    exact h
  have hsilent : (RaftFSM.leave s).heartbeatTask = none ∨
      Paused (RaftFSM.leave s).heartbeatTask := by
    rw [leave_heartbeatTask]
    split
    · exact stop_paused _
    · rename_i hleader
      exact h.silent hleader
  constructor
  case silent => exact fun _ => hsilent
  case follower => exact fun _ _ => leave_electionTimeoutTask hfollower
  all_goals
    intro hrole
    rw [leave_role] at hrole
    cases hrole

theorem enterLeader (h : TimersFollowRole b s) (hrole : s.role = .candidate) :
    TimersFollowRole b (enterLeader s) where
  leader_beats _ := unpaused_start _
  leader_waits _ := (h.candidate hrole).stop
  candidate hc := by cases hc
  silent hne := absurd rfl hne
  follower hc := by cases hc

theorem candidacy (h : TimersFollowRole b s) (hrole : s.role ≠ .leader) :
    TimersFollowRole false (candidacy a s) := by
  constructor
  case candidate =>
    intro _
    rw [candidacy_eq]
    exact unpaused_start _
  case silent =>
    intro _
    rw [candidacy_heartbeatTask hrole]
    exact h.silent hrole
  all_goals
    intro hc
    rw [candidacy_role] at hc
    cases hc

end TimersFollowRole

/-! ### Through calls and callbacks

A callback may park the node while the role that it reports is being entered.  Whether one has
done so is read off the trace, and the relation carries it along with the timers.
-/

end RaftFSM

namespace Callbacks

theorem parksIn_append (cb : Callbacks) (l l' : List Entry) :
    cb.parksIn (l ++ l') = (cb.parksIn l || cb.parksIn l') := by
  unfold parksIn
  cases cb.parksOnBecome <;> cases cb.parksOnSignOff <;> grind

end Callbacks

namespace RaftFSM

open Transition Timer

variable {a : Actor} {s s₁ s₂ s₃ s' : RaftFSM} {cb : Callbacks} {b p q : Bool}

/-- The timers stay in order from one state to the other, where `p` tells whether
`stay_follower` was called on the way other than by the callbacks in the trace. -/
def Carries (cb : Callbacks) (p : Bool) (s s' : RaftFSM) : Prop :=
  ∃ new, s'.trace = new ++ s.trace ∧
    ∀ b, TimersFollowRole b s → TimersFollowRole (b || p || cb.parksIn new) s'

namespace Carries

theorem of_trace_eq (htrace : s'.trace = s.trace)
    (h : ∀ b, TimersFollowRole b s → TimersFollowRole (b || p) s') : Carries cb p s s' := by
  refine ⟨[], htrace, ?_⟩
  intro b hb
  exact (h b hb).mono (fun hp => by simp only [hp, Bool.true_or])

theorem refl (s : RaftFSM) : Carries cb false s s :=
  of_trace_eq rfl (fun b hb => by simpa using hb)

theorem emit (s : RaftFSM) (o : Entry) : Carries cb false s (s.emit o) := by
  refine ⟨[o], rfl, ?_⟩
  intro b hb
  have hsame : TimersFollowRole b (s.emit o) := hb.congr rfl rfl rfl
  exact hsame.mono (fun hb => by simp [hb])

theorem trans (h : Carries cb p s₁ s₂) (h' : Carries cb q s₂ s₃) : Carries cb (p || q) s₁ s₃ := by
  obtain ⟨new, htrace, hnew⟩ := h
  obtain ⟨new', htrace', hnew'⟩ := h'
  refine ⟨new' ++ new, by rw [htrace', htrace, List.append_assoc], ?_⟩
  intro b hb
  refine (hnew' _ (hnew b hb)).mono ?_
  rw [Callbacks.parksIn_append]
  grind

/-- A call that pauses the timers leaves a follower that stays one. -/
theorem call_of {f : RaftFSM → RaftFSM} (haside : ∀ s, Aside s (f s))
    (hfollower : ∀ s, s.role = .follower → (f s).role = .follower) (s : RaftFSM) (c : ApiCall) :
    Carries cb c.parks s (call f s c) := by
  obtain ⟨new, htrace, -⟩ := (callable_aside.call_of haside s c).trace
  refine ⟨new, htrace, ?_⟩
  intro b hb
  have hrole : (convertToFollower f s).role = .follower := by
    rw [convertToFollower_eq]
    split
    · exact hfollower _ (leave_role s)
    · exact leave_role s
  have hstay : TimersFollowRole true (stayFollower f s) := by
    constructor
    case silent => exact fun _ => stop_paused _
    case follower => exact fun _ hstayed => (by cases hstayed)
    all_goals
      intro hc
      cases hrole.symm.trans hc
  cases c with
  | block =>
      exact TimersFollowRole.mono (b := true) (hstay.congr rfl rfl rfl) (by simp [ApiCall.parks])
  | unblock => exact TimersFollowRole.mono (b := b) (hb.congr rfl rfl rfl) (fun hb => by simp [hb])
  | stayFollower => exact hstay.mono (by simp [ApiCall.parks])

theorem calls {f : RaftFSM → RaftFSM} (haside : ∀ s, Aside s (f s))
    (hfollower : ∀ s, s.role = .follower → (f s).role = .follower) :
    ∀ (calls : List ApiCall) (s : RaftFSM),
      Carries cb (calls.any ApiCall.parks) s (calls.foldl (call f) s) := by
  intro calls
  induction calls with
  | nil => intro s; exact refl s
  | cons c rest ih =>
      intro s
      rw [List.any_cons]
      exact (call_of haside hfollower s c).trans (ih _)

/-- The calls of a callback are told by its entry in the trace. -/
theorem of_callback {o : Entry} (hcalls : Carries cb p (s.emit o) s')
    (hp : p = true → cb.parksIn [o] = true) : Carries cb false s s' := by
  obtain ⟨new, htrace, hnew⟩ := (emit s o).trans hcalls
  refine ⟨new, htrace, ?_⟩
  intro b hb
  refine (hnew b hb).mono ?_
  obtain ⟨older, holder, -⟩ := hcalls
  have hlast : new = older ++ [o] := by
    have heq : new ++ s.trace = (older ++ [o]) ++ s.trace := by
      rw [← htrace, holder, emit_trace, List.append_assoc]
      rfl
    exact List.append_cancel_right heq
  rw [hlast, Callbacks.parksIn_append]
  cases hpark : p with
  | false => simp
  | true => simp [hp hpark]

theorem signOff (s : RaftFSM) : Carries cb false s (signOff cb s) := by
  unfold RaftFSM.signOff
  split
  · exact refl s
  · rename_i made hcalls
    refine of_callback (calls callable_aside.refl (fun _ h => h) made _) ?_
    intro hparks
    simp [Callbacks.parksIn, Callbacks.parksOnSignOff, hcalls, hparks]

theorem becomeLeader (s : RaftFSM) : Carries cb false s (becomeLeader cb s) := by
  unfold RaftFSM.becomeLeader
  split
  · exact refl s
  · rename_i made hcalls
    refine of_callback (calls (callable_aside.signOff cb)
      (fun _ h => (signOff_quiet cb h).role.trans h) made _) ?_
    intro hparks
    simp [Callbacks.parksIn, Callbacks.parksOnBecome, hcalls, hparks]

theorem convertToFollower (s : RaftFSM) :
    Carries cb false s (convertToFollower (RaftFSM.signOff cb) s) := by
  have hleave : Carries cb false s (leave s) :=
    of_trace_eq (leave_trace s) (fun b hb => hb.leave.mono (fun hb => by simp [hb]))
  rw [convertToFollower_eq]
  split
  · exact hleave.trans (signOff _)
  · exact hleave

theorem turn {e : NetEvent} (h : Turn a cb e s s') : Carries cb false s s' := by
  have hsame : ∀ {s s' : RaftFSM}, s'.role = s.role →
      s'.electionTimeoutTask = s.electionTimeoutTask → s'.heartbeatTask = s.heartbeatTask →
      s'.trace = s.trace → Carries cb false s s' := by
    intro s s' hrole helection hheartbeat htrace
    refine of_trace_eq htrace (fun b hb => ?_)
    exact (hb.congr hrole helection hheartbeat).mono (fun hb => by simp [hb])
  cases h with
  | adopt hlt =>
      have hterm : Carries cb false s { s with term := e.getTerm } := hsame rfl rfl rfl rfl
      exact hterm.trans (convertToFollower _)
  | reset task htask =>
      refine of_trace_eq rfl ?_
      intro b hb
      refine TimersFollowRole.mono (b := b) ?_ (fun hb => by simp [hb])
      constructor
      case leader_waits =>
        intro hrole
        have hpaused := hb.leader_waits hrole
        rw [htask] at hpaused
        exact hpaused.reset
      case candidate =>
        intro hrole
        have hunpaused := hb.candidate hrole
        rw [htask] at hunpaused
        exact hunpaused.reset
      case follower =>
        intro hrole hstayed
        have hunpaused := hb.follower hrole hstayed
        rw [htask] at hunpaused
        exact hunpaused.reset
      case leader_beats => exact hb.leader_beats
      case silent => exact hb.silent
  | refuse | acknowledge => exact emit _ _
  | vote peer =>
      have hvoter : Carries cb false s
          { s with voter := (s.voter.voteForLeader peer s.term).2 } := hsame rfl rfl rfl rfl
      exact hvoter.trans (emit _ _)
  | stepDown =>
      refine of_trace_eq (leave_trace s) (fun b hb => ?_)
      exact hb.leave.mono (fun hb => by simp [hb])
  | count => exact hsame rfl rfl rfl rfl
  | lead hrole hmaj =>
      have henter : Carries cb false s (enterLeader s) := by
        refine ⟨[.becameLeader (s.term + 1)], rfl, ?_⟩
        intro b hb
        exact (hb.enterLeader hrole).mono (fun hb => by simp [hb])
      exact henter.trans (becomeLeader _)

theorem turns {e : NetEvent} (h : Turns a cb e s s') : Carries cb false s s' := by
  induction h with
  | refl => exact refl s
  | tail _ hlast ih => exact ih.trans (turn hlast)

end Carries

end RaftFSM

/-! ### The timers follow the role -/

namespace Watched

open Transition RaftFSM

variable {a : Actor} {w w' : Watched} {x : MachineAction}

theorem newEntries_eq {s s' : RaftFSM} {new : List Entry} (h : s'.trace = new ++ s.trace) :
    s.newEntries s' = new := by
  simp [newEntries, h]

/-- What a step that made no candidate leaves. -/
theorem stayed_of_carries {s' : RaftFSM} {p : Bool} (h : TimersFollowRole w.stayed w.fsm)
    (hcarries : Carries x.callbacks p w.fsm s')
    (hp : p = true → parks x (w.fsm.newEntries s') = true) :
    TimersFollowRole (w.stayed || parks x (w.fsm.newEntries s')) s' := by
  obtain ⟨new, htrace, hnew⟩ := hcarries
  refine (hnew w.stayed h).mono ?_
  intro hstayed
  rw [newEntries_eq htrace] at hp ⊢
  rcases (by simpa using hstayed : (w.stayed = true ∨ p = true) ∨ x.callbacks.parksIn new = true)
    with (hw | hpark) | hin
  · simp [hw]
  · simp [hp hpark]
  · simp [parks, hin]

theorem timersFollowRole_step (hstep : w.step a x = some w')
    (h : TimersFollowRole w.stayed w.fsm) : TimersFollowRole w'.stayed w'.fsm := by
  simp only [step, Option.map_eq_some_iff] at hstep
  obtain ⟨s', hs', rfl⟩ := hstep
  -- A candidate needs no excuse, so forgetting one at the start of a candidacy is safe.
  suffices hmain : TimersFollowRole (w.stayed || parks x (w.fsm.newEntries s')) s' by
    dsimp only
    split
    · rename_i hentered
      refine { hmain with follower := ?_ }
      intro hrole
      cases hentered.1.symm.trans hrole
    · exact hmain
  cases step_entered hs' with
  | handled e cb s' hturns => exact stayed_of_carries h (Carries.turns hturns) (by simp)
  | ignored => exact stayed_of_carries h (Carries.refl _) (by simp)
  | timedOut cb hrole | expired cb hlive hrole => exact (h.candidacy hrole).mono (by simp)
  | beat hlive =>
      have hsame : TimersFollowRole w.stayed
          (sendAll (.appendEntriesReq a.self w.fsm.term) w.fsm a.getPeers) := by
        rw [sendAll_eq]
        exact h.congr rfl rfl rfl
      exact hsame.mono (fun hstayed => by simp [hstayed])
  | called c cb =>
      refine stayed_of_carries h (Carries.call_of (callable_aside.signOff cb)
        (fun _ hrole => (signOff_quiet cb hrole).role.trans hrole) _ c) ?_
      intro hparks
      simp [parks, hparks]

/-- **Timers follow the role**, between the steps of every run of a started node. -/
theorem timers_follow_role (h : (watchedSystem a).Reachable w) :
    (w.fsm.role = .leader → Timer.Unpaused w.fsm.heartbeatTask ∧
      Timer.Paused w.fsm.electionTimeoutTask) ∧
    (w.fsm.role = .candidate → Timer.Unpaused w.fsm.electionTimeoutTask) ∧
    (w.fsm.role = .follower ∨ w.fsm.role = .candidate →
      w.fsm.heartbeatTask = none ∨ Timer.Paused w.fsm.heartbeatTask) ∧
    (w.fsm.role = .follower → w.stayed = false → Timer.Unpaused w.fsm.electionTimeoutTask) := by
  have hfollows : TimersFollowRole w.stayed w.fsm := by
    refine h.invariant (I := fun w => TimersFollowRole w.stayed w.fsm) ?_
      (fun _ _ _ _ hw hstep => timersFollowRole_step hstep hw)
    intro w₀ hw₀
    rw [hw₀]
    constructor
    case silent => exact fun _ => Or.inl rfl
    case follower => exact fun _ _ => ⟨{}, rfl, rfl⟩
    all_goals
      intro hc
      cases hc
  refine ⟨fun hrole => ⟨hfollows.leader_beats hrole, hfollows.leader_waits hrole⟩,
    hfollows.candidate, ?_, hfollows.follower⟩
  intro hrole
  refine hfollows.silent ?_
  rcases hrole with hrole | hrole <;> rw [hrole] <;> decide

/-- A node that wins an election, and is a leader that beats. -/
theorem timers_follow_role_of_leader :
    ∃ w, (watchedSystem firstOfThree).Reachable w ∧ w.fsm.role = .leader ∧
      Timer.Unpaused w.fsm.heartbeatTask := by
  obtain ⟨w, hw, hrole⟩ := System.Reachable.of_execute {} (Watched.step firstOfThree)
    (fun _ _ _ => True)
    [.callElection {}, .handle (.net (.requestVoteRes 2 1 true)) {}]
    (fun w => w.fsm.role = .leader) (by decide +kernel)
  exact ⟨w, hw.unrestrict, hrole, ((timers_follow_role hw.unrestrict).1 hrole).1⟩

end Watched

/-! ### `stay_follower` is for good

A follower with both timers silent has nothing of its own left to do, and no message starts a
timer again.  Called from inside `on_become_leader` it comes to the same by the end of the
handler.
-/

namespace RaftFSM

open Transition Timer

variable {a : Actor} {P : UInt64 → UInt64 → Prop} {s s' s'' : RaftFSM} {x : MachineAction}
  {cb : Callbacks}

/-- Entries of a node that neither stands for election nor leads. -/
def Passive (entries : List Entry) : Prop :=
  .onBecomeLeader ∉ entries ∧
    ∀ peer id t, .sent peer (.requestVoteReq id t) ∉ entries ∧
      .sent peer (.appendEntriesReq id t) ∉ entries

theorem Passive.append {l l' : List Entry} (h : Passive l) (h' : Passive l') : Passive (l ++ l') := by
  refine ⟨by simp [h.1, h'.1], ?_⟩
  intro peer id t
  simp [(h.2 peer id t).1, (h'.2 peer id t).1, (h.2 peer id t).2, (h'.2 peer id t).2]

/-- A follower neither of whose timers can fire, and which has been passive since the
trace was `since`. -/
structure Settled (since : List Entry) (s : RaftFSM) : Prop extends Parked s where
  silent : ¬ Timer.Live s.heartbeatTask
  trace : ∃ later, s.trace = later ++ since ∧ Passive later

namespace Settled

variable {since : List Entry}

theorem of_eq (h : Settled since s) (hrole : s'.role = s.role)
    (helection : s'.electionTimeoutTask = s.electionTimeoutTask)
    (hheartbeat : s'.heartbeatTask = s.heartbeatTask) (htrace : s'.trace = s.trace) :
    Settled since s' :=
  { role := hrole.trans h.role
    paused := by rw [helection]; exact h.paused
    silent := by rw [hheartbeat]; exact h.silent
    trace := by rw [htrace]; exact h.trace }

theorem emit (h : Settled since s) {o : Entry} (ho : Passive [o]) : Settled since (s.emit o) := by
  obtain ⟨later, htrace, hlater⟩ := h.trace
  exact
    { role := h.role
      paused := h.paused
      silent := h.silent
      trace := ⟨o :: later, by rw [emit_trace, htrace]; rfl, ho.append hlater⟩ }

/-- `stay_follower` settles the node, from any state. -/
theorem stayFollower (cb : Callbacks) (s : RaftFSM) :
    Settled s.trace (stayFollower (signOff cb) s) := by
  have hparked := Parked.stayFollower cb s
  refine { toParked := hparked, silent := not_live_stop _, trace := ?_ }
  show ∃ later, (convertToFollower (signOff cb) s).trace = later ++ s.trace ∧ Passive later
  rw [convertToFollower_eq]
  split
  · refine ⟨_, by rw [signOff_trace cb (leave_role s), leave_trace], ?_⟩
    split <;> simp [Passive]
  · exact ⟨[], leave_trace s, by simp [Passive]⟩

theorem call_of_parks (cb : Callbacks) (s : RaftFSM) {c : ApiCall} (hc : c.parks = true) :
    Settled s.trace (call (signOff cb) s c) := by
  cases c with
  | block => exact (stayFollower cb s).of_eq rfl rfl rfl rfl
  | unblock => cases hc
  | stayFollower => exact stayFollower cb s

theorem call (h : Settled since s) (cb : Callbacks) (c : ApiCall) :
    Settled since (call (signOff cb) s c) := by
  have hstay : Settled since (RaftFSM.stayFollower (signOff cb) s) := by
    rw [stayFollower_of_follower h.role]
    exact { role := h.role, paused := not_live_stop _, silent := not_live_stop _, trace := h.trace }
  cases c with
  | block => exact hstay.of_eq rfl rfl rfl rfl
  | unblock => exact h.of_eq rfl rfl rfl rfl
  | stayFollower => exact hstay

/-- One call of `stay_follower` among them is enough. -/
theorem calls_of_parks (cb : Callbacks) :
    ∀ (made : List ApiCall) {s : RaftFSM}, made.any ApiCall.parks = true →
      Settled s.trace (made.foldl (RaftFSM.call (signOff cb)) s) := by
  intro made
  induction made with
  | nil => intro s h; cases h
  | cons c rest ih =>
      intro s h
      cases hc : c.parks with
      | true =>
          exact rest.foldlRecOn (motive := Settled s.trace) _ (call_of_parks cb s hc)
            (fun _ hs c _ => hs.call cb c)
      | false =>
          rw [List.any_cons, hc, Bool.false_or] at h
          have hsame : (RaftFSM.call (signOff cb) s c).trace = s.trace := by
            cases c with
            | unblock => rfl
            | block | stayFollower => cases hc
          rw [← hsame]
          exact ih h

theorem turn {e : NetEvent} (hturn : Turn a cb e s s') (h : Settled since s) :
    Settled since s' := by
  have hrole := h.role
  cases hturn with
  | adopt hlt =>
      rw [convertToFollower_eq, if_neg (by rw [hrole]; decide), leave_of_follower (by exact hrole)]
      exact h.of_eq rfl rfl rfl rfl
  | reset task htask =>
      refine { role := hrole, silent := h.silent, trace := h.trace, paused := ?_ }
      rw [live_reset, ← htask]
      exact h.paused
  | refuse | acknowledge => exact h.emit (by simp [Passive])
  | vote peer =>
      have hvoter : Settled since { s with voter := (s.voter.voteForLeader peer s.term).2 } :=
        h.of_eq rfl rfl rfl rfl
      exact hvoter.emit (by simp [Passive])
  | stepDown hc | count id hc | lead hc => cases hrole.symm.trans hc

/-- Steps that come from outside the node, or from its scheduler.  An election timeout is
an event that only the task of the election timer makes. -/
def Outside (_ : RaftFSM) (x : MachineAction) (_ : RaftFSM) : Prop :=
  ∀ cb, x ≠ .handle .electionTimeout cb

theorem step (hstep : s.step a x = some s') (hx : Outside s x s') (h : Settled since s) :
    Settled since s' := by
  cases step_entered hstep with
  | handled e cb s' hturns => exact hturns.invariant (fun _ _ hturn hs => turn hturn hs) h
  | ignored => exact h
  | timedOut cb => exact absurd rfl (hx cb)
  | expired cb hlive => exact absurd hlive h.paused
  | beat hlive => exact absurd hlive h.silent
  | called c cb => exact h.call cb c

/-- A step in which `on_become_leader` calls `stay_follower` settles the node, from the
invocation of the callback on. -/
theorem of_turns {e : NetEvent} (hturns : Turns a cb e s s') (hcb : cb.parksOnBecome = true) :
    (∃ new, s'.trace = new ++ s.trace ∧ .onBecomeLeader ∉ new) ∨
      ∃ older, Settled (.onBecomeLeader :: older) s' := by
  refine hturns.invariant (I := fun s' =>
    (∃ new, s'.trace = new ++ s.trace ∧ .onBecomeLeader ∉ new) ∨
      ∃ older, Settled (.onBecomeLeader :: older) s') ?_ (Or.inl ⟨[], rfl, List.not_mem_nil⟩)
  intro s₁ s₂ hturn hs₁
  rcases hs₁ with ⟨new, htrace, hnew⟩ | ⟨older, hsettled⟩
  · have hmore : ∀ more : List Entry, s₂.trace = more ++ s₁.trace → .onBecomeLeader ∉ more →
        ∃ new, s₂.trace = new ++ s.trace ∧ .onBecomeLeader ∉ new := by
      intro more hmore hnone
      exact ⟨more ++ new, by rw [hmore, htrace, List.append_assoc], by simp [hnone, hnew]⟩
    cases hturn with
    | adopt hlt =>
        refine Or.inl ?_
        rw [convertToFollower_eq] at hmore ⊢
        split at hmore
        · rename_i hleader
          rw [if_pos hleader]
          refine hmore _ (by rw [signOff_trace cb (leave_role _), leave_trace]) ?_
          split <;> simp
        · rename_i hleader
          rw [if_neg hleader]
          exact hmore [] (leave_trace _) List.not_mem_nil
    | reset | count => exact Or.inl (hmore [] rfl List.not_mem_nil)
    | refuse | vote | acknowledge => exact Or.inl (hmore [_] rfl (by simp))
    | stepDown => exact Or.inl (hmore [] (leave_trace s₁) List.not_mem_nil)
    | lead hrole hmaj =>
        unfold becomeLeader
        cases hcalls : cb.onBecomeLeader with
        | none => simp [Callbacks.parksOnBecome, hcalls] at hcb
        | some made =>
            refine Or.inr ⟨(enterLeader s₁).trace, ?_⟩
            refine calls_of_parks cb made (s := (enterLeader s₁).emit .onBecomeLeader) ?_
            simpa [Callbacks.parksOnBecome, hcalls] using hcb
  · exact Or.inr ⟨older, hsettled.turn hturn⟩

end Settled

/-- `stay_follower` returns in this step: to a caller outside the machine, or to the
`on_become_leader` that called it.  The list is the trace it is compared with from then
on, in the second case already the trace at the invocation of the callback. -/
inductive StaysIn (s : RaftFSM) (x : MachineAction) (s' : RaftFSM) : List Entry → Prop
  | outside (c : ApiCall) (cb : Callbacks) (hx : x = .api c cb) (hc : c.parks = true) :
      StaysIn s x s' s'.trace
  | inside (hcb : x.callbacks.parksOnBecome = true)
      (hinvoked : .onBecomeLeader ∈ s.newEntries s') :
      StaysIn s x s' (s'.trace.dropWhile (· ≠ .onBecomeLeader))

/-- No step but the handling of an event invokes `on_become_leader`. -/
theorem settled_of_invoked (hstep : s.step a x = some s')
    (hcb : x.callbacks.parksOnBecome = true) (hinvoked : .onBecomeLeader ∈ s.newEntries s') :
    ∃ older, Settled (.onBecomeLeader :: older) s' := by
  have hnone : ∀ new : List Entry, s'.trace = new ++ s.trace → .onBecomeLeader ∈ new := by
    intro new htrace
    rw [Watched.newEntries_eq htrace] at hinvoked
    exact hinvoked
  cases step_entered hstep with
  | handled e cb s' hturns =>
      rcases Settled.of_turns hturns hcb with ⟨new, htrace, hnew⟩ | hsettled
      · exact absurd (hnone new htrace) hnew
      · exact hsettled
  | ignored => exact absurd (hnone [] rfl) List.not_mem_nil
  | timedOut cb hrole | expired cb hlive hrole =>
      have hmem := hnone _ (candidacy_trace a s)
      simp [mem_candidacyEntries] at hmem
  | beat hlive => cases hcb
  | called c cb =>
      cases hc : c.parks with
      | true =>
          obtain ⟨later, htrace, hpassive⟩ := (Settled.call_of_parks cb s hc).trace
          exact absurd (hnone later htrace) hpassive.1
      | false =>
          cases c with
          | unblock => exact absurd (hnone [] rfl) List.not_mem_nil
          | block | stayFollower => cases hc

theorem settled_of_staysIn {since : List Entry} (hstep : s.step a x = some s')
    (h : StaysIn s x s' since) : Settled since s' := by
  cases h with
  | outside c cb hx hc =>
      subst hx
      obtain rfl := Option.some.inj hstep
      obtain ⟨⟨hrole, hpaused⟩, hsilent, -⟩ := Settled.call_of_parks cb s hc
      exact { role := hrole, paused := hpaused, silent := hsilent,
              trace := ⟨[], rfl, by simp [Passive]⟩ }
  | inside hcb hinvoked =>
      obtain ⟨older, hsettled⟩ := settled_of_invoked hstep hcb hinvoked
      obtain ⟨later, htrace, hpassive⟩ := hsettled.trace
      have hdrop : s'.trace.dropWhile (· ≠ .onBecomeLeader) = .onBecomeLeader :: older := by
        rw [htrace, List.dropWhile_append_of_pos]
        · simp
        · intro o ho
          have hne : o ≠ .onBecomeLeader := fun heq => hpassive.1 (heq ▸ ho)
          simpa using hne
      rw [hdrop]
      exact hsettled

/-- **`stay_follower` is permanent.**  Once it has returned, the node is a follower in
every later run, sends neither a vote request nor a heartbeat, and invokes
`on_become_leader` no more, whatever it receives and whatever is called. -/
theorem stay_follower_permanent {since : List Entry} (hstep : s.step a x = some s')
    (hstays : StaysIn s x s' since)
    (hrun : ((machineSystem a).restrict Settled.Outside).Run s' s'') :
    s''.role = .follower ∧ ∃ later, s''.trace = later ++ since ∧ Passive later := by
  have hsettled : Settled since s'' := by
    refine hrun.invariant (I := Settled since) ?_ (settled_of_staysIn hstep hstays)
    intro s₁ x₁ s₂ hs₁ hmove
    exact hs₁.step hmove.1 hmove.2
  exact ⟨hsettled.role, hsettled.trace⟩

/-- The vote that makes a leader whose callback stands it down at once. -/
def wonAndStayed : MachineAction :=
  .handle (.net (.requestVoteRes 2 1 true)) ⟨some [.stayFollower], none⟩

/-- A node that stands down inside `on_become_leader` goes on to vote in a later term,
as a follower. -/
theorem stay_follower_permanent_voter :
    ∃ s s' s'' : RaftFSM, ∃ since, (machineSystem firstOfThree).Reachable s ∧
      s.step firstOfThree wonAndStayed = some s' ∧ StaysIn s wonAndStayed s' since ∧
      .sent 3 (.requestVoteRes 1 7 true) ∈ s''.trace ∧ s''.role = .follower ∧
      ∃ later, s''.trace = later ++ since ∧ Passive later := by
  obtain ⟨s, hs, hwins⟩ := System.Reachable.of_execute started (RaftFSM.step firstOfThree)
    (fun _ _ _ => True) [.callElection {}]
    (fun s => (s.step firstOfThree wonAndStayed).any (fun s' =>
      .onBecomeLeader ∈ s.newEntries s' ∧
        (s'.step firstOfThree (.handle (.net (.requestVoteReq 3 7)) {})).any (fun s'' =>
          .sent 3 (.requestVoteRes 1 7 true) ∈ s''.trace))) (by decide +kernel)
  obtain ⟨s', hstep, hs'⟩ := Option.any_eq_true _ _ |>.mp hwins
  obtain ⟨hinvoked, hvotes⟩ := of_decide_eq_true hs'
  obtain ⟨s'', hlater, hs''⟩ := Option.any_eq_true _ _ |>.mp hvotes
  have hstays := StaysIn.inside (x := wonAndStayed) rfl hinvoked
  refine ⟨s, s', s'', _, hs.unrestrict, hstep, hstays, of_decide_eq_true hs'', ?_⟩
  refine stay_follower_permanent hstep hstays ((System.Run.refl s').tail ⟨hlater, ?_⟩)
  intro cb hc
  cases hc

end RaftFSM

end Raft
