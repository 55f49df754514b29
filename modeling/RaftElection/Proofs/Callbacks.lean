/-
The callbacks of a node come in pairs.

A user takes a resource in `on_become_leader` and gives it back in
`on_sign_off_leader`, so the two must alternate whatever happens: in particular when a
callback calls `stay_follower` or `block` and so re-enters the conversion that invoked
it.  The invariant counts the changes of leadership.  It is kept by every single call
of the API, from any state, and a callback is a list of such calls; the nesting
therefore costs nothing.
-/
import RaftElection.Machine
import RaftElection.Proofs.Votes

namespace Raft.RaftFSM

open Transition

variable {a : Actor} {s s' : RaftFSM} {x : MachineAction}

/-! ### The steps of the machine -/

/-- What an entry into the machine does. -/
inductive Entered (a : Actor) (s : RaftFSM) : MachineAction → RaftFSM → Prop
  | handled (e : NetEvent) (cb : Callbacks) (s' : RaftFSM) (hturns : Turns a cb e s s') :
      Entered a s (.handle (.net e) cb) s'
  | ignored (x : MachineAction) (hx : ∀ c cb, x ≠ .api c cb) : Entered a s x s
  | timedOut (cb : Callbacks) (hrole : s.role ≠ .leader) :
      Entered a s (.handle .electionTimeout cb) (candidacy a s)
  | expired (cb : Callbacks) (hlive : Timer.Live s.electionTimeoutTask)
      (hrole : s.role ≠ .leader) :
      Entered a s (.callElection cb) (candidacy a s)
  | beat (hlive : Timer.Live s.heartbeatTask) :
      Entered a s .callHeartbeat (sendAll (.appendEntriesReq a.self s.term) s a.getPeers)
  | called (c : ApiCall) (cb : Callbacks) : Entered a s (.api c cb) (s.call (signOff cb) c)

theorem eq_ok_of_toOption {r : Except Fault RaftFSM} (h : r.toOption = some s') : r = .ok s' := by
  cases r with
  | error e => cases h
  | ok s =>
      obtain rfl := Option.some.inj h
      rfl

/-- **Every step of the machine is one of these.** -/
theorem step_entered (h : s.step a x = some s') : Entered a s x s' := by
  cases x with
  | handle event cb =>
      have hhandle := eq_ok_of_toOption h
      cases event with
      | net e => exact .handled e cb s' (handle_turns hhandle)
      | electionTimeout =>
          rcases handle_timeout hhandle with rfl | ⟨-, hrole, rfl⟩
          · exact .ignored _ (by simp)
          · exact .timedOut cb hrole
  | callElection cb =>
      simp only [step] at h
      split at h
      · rename_i hlive
        rcases handle_timeout (eq_ok_of_toOption h) with rfl | ⟨-, hrole, rfl⟩
        · exact .ignored _ (by simp)
        · exact .expired cb hlive hrole
      · obtain rfl := Option.some.inj h
        exact .ignored _ (by simp)
  | callHeartbeat =>
      simp only [step] at h
      split at h
      · rename_i hlive
        obtain rfl := Option.some.inj h
        exact .beat hlive
      · obtain rfl := Option.some.inj h
        exact .ignored _ (by simp)
  | api c cb =>
      obtain rfl := Option.some.inj h
      exact .called c cb

/-! ### Alternation -/

end Raft.RaftFSM

namespace Raft

def Entry.isCallback : Entry → Bool
  | .onBecomeLeader | .onSignOffLeader => true
  | _ => false

/-- `on_become_leader`, `on_sign_off_leader`, `on_become_leader` and so on, the `n`-th
in front. -/
def alternation : Nat → List Entry
  | 0 => []
  | n + 1 => (if n % 2 = 0 then .onBecomeLeader else .onSignOffLeader) :: alternation n

theorem alternation_head (n : Nat) :
    (alternation n).head? = some .onBecomeLeader ↔ n % 2 = 1 := by
  cases n with
  | zero => simp [alternation]
  | succ n =>
      simp only [alternation, List.head?_cons, Option.some.injEq]
      split
      · rename_i heven
        exact ⟨fun _ => by omega, fun _ => rfl⟩
      · rename_i hodd
        exact ⟨fun h => (by cases h), fun h => by omega⟩

/-- Which of the callbacks the options of the node hold. -/
structure Registration where
  onBecomeLeader : Bool
  onSignOffLeader : Bool
  deriving DecidableEq

namespace Registration

def admits (r : Registration) : Entry → Bool
  | .onBecomeLeader => r.onBecomeLeader
  | .onSignOffLeader => r.onSignOffLeader
  | _ => false

/-- The callbacks of a step are those of the options. -/
def Fits (r : Registration) (cb : Callbacks) : Prop :=
  cb.onBecomeLeader.isSome = r.onBecomeLeader ∧ cb.onSignOffLeader.isSome = r.onSignOffLeader

instance (r : Registration) (cb : Callbacks) : Decidable (r.Fits cb) :=
  inferInstanceAs (Decidable (_ ∧ _))

end Registration

namespace RaftFSM

open Transition

variable {a : Actor} {s s' : RaftFSM} {x : MachineAction} {r : Registration} {cb : Callbacks}

/-- The callbacks invoked so far, latest first. -/
def callbacks (s : RaftFSM) : List Entry := s.trace.filter Entry.isCallback

/-- As many changes of leadership as the role tells have been reported to the callbacks
there are. -/
def Reported (r : Registration) (s : RaftFSM) : Prop :=
  ∃ n, s.callbacks = (alternation n).filter r.admits ∧ (s.role = .leader ↔ n % 2 = 1)

/-- Two states that differ in neither the callbacks nor the leadership. -/
theorem Reported.of_eq (h : Reported r s) (hcallbacks : s'.callbacks = s.callbacks)
    (hrole : s'.role = .leader ↔ s.role = .leader) : Reported r s' := by
  obtain ⟨n, hn, hlead⟩ := h
  exact ⟨n, hcallbacks.trans hn, hrole.trans hlead⟩

/-- Calls on a follower find no role to leave and no callback to invoke. -/
theorem calls_of_follower (f : RaftFSM → RaftFSM) :
    ∀ (calls : List ApiCall) {s : RaftFSM}, s.role = .follower →
      (calls.foldl (call f) s).role = .follower ∧ (calls.foldl (call f) s).trace = s.trace := by
  intro calls
  induction calls with
  | nil => intro s h; exact ⟨h, rfl⟩
  | cons c rest ih =>
      intro s h
      have hstay := stayFollower_of_follower h f
      have hfirst : (call f s c).role = .follower ∧ (call f s c).trace = s.trace := by
        cases c with
        | block => exact ⟨by rw [call, block, hstay]; exact h, by rw [call, block, hstay]; rfl⟩
        | unblock => exact ⟨h, rfl⟩
        | stayFollower => exact ⟨by rw [call, hstay]; exact h, by rw [call, hstay]; rfl⟩
      obtain ⟨hrole, htrace⟩ := ih hfirst.1
      exact ⟨hrole, htrace.trans hfirst.2⟩

/-- On a follower the callback adds its own entry to the trace and no other. -/
theorem signOff_trace (cb : Callbacks) (h : s.role = .follower) :
    (signOff cb s).trace
      = (if cb.onSignOffLeader.isSome then [.onSignOffLeader] else []) ++ s.trace := by
  unfold signOff
  cases hcalls : cb.onSignOffLeader with
  | none => rfl
  | some calls => exact (calls_of_follower id calls (by exact h)).2

/-- A leadership that ends is reported. -/
theorem Reported.signOff (hcb : r.Fits cb) (h : Reported r s) (hrole : s.role = .leader) :
    Reported r (signOff cb (leave s)) := by
  obtain ⟨n, hn, hlead⟩ := h
  have hodd : n % 2 = 1 := hlead.mp hrole
  have hnext : alternation (n + 1) = .onSignOffLeader :: alternation n := by
    rw [alternation, if_neg (by omega)]
  refine ⟨n + 1, ?_, ?_⟩
  · rw [hnext, callbacks, signOff_trace cb (leave_role s), hcb.2, leave_trace]
    split
    · rename_i hregistered
      rw [List.filter_cons_of_pos (by exact hregistered)]
      exact congrArg _ hn
    · rename_i hregistered
      rw [List.filter_cons_of_neg (by exact hregistered)]
      exact hn
  · rw [(signOff_quiet cb (leave_role s)).role, leave_role]
    exact ⟨fun hc => (by cases hc), fun hc => by omega⟩

theorem Reported.convertToFollower (hcb : r.Fits cb) (h : Reported r s) :
    Reported r (convertToFollower (RaftFSM.signOff cb) s) := by
  rw [convertToFollower_eq]
  split
  · rename_i hrole
    exact h.signOff hcb hrole
  · rename_i hrole
    refine h.of_eq (by rw [callbacks, callbacks, leave_trace]) ?_
    rw [leave_role]
    exact ⟨fun hc => (by cases hc), fun hc => absurd hc hrole⟩

/-- **Every call of the API reports the leadership it ends.** -/
theorem Reported.call (hcb : r.Fits cb) (h : Reported r s) (c : ApiCall) :
    Reported r (call (RaftFSM.signOff cb) s c) := by
  have hstay : Reported r (stayFollower (RaftFSM.signOff cb) s) :=
    (h.convertToFollower hcb).of_eq rfl Iff.rfl
  cases c with
  | block => exact hstay.of_eq rfl Iff.rfl
  | unblock => exact h.of_eq rfl Iff.rfl
  | stayFollower => exact hstay

/-- A leadership that begins is reported, and so is its end if the callback itself
brings it about. -/
theorem Reported.lead (hcb : r.Fits cb) (h : Reported r s) (hrole : s.role = .candidate) :
    Reported r (becomeLeader cb (enterLeader s)) := by
  obtain ⟨n, hn, hlead⟩ := h
  have heven : n % 2 = 0 := by
    have hodd : ¬ n % 2 = 1 := fun hodd => by
      have hleader := hlead.mpr hodd
      rw [hrole] at hleader
      cases hleader
    omega
  have hfit := hcb.1
  have hnext : alternation (n + 1) = .onBecomeLeader :: alternation n := by
    rw [alternation, if_pos heven]
  have hentered : (enterLeader s).callbacks = s.callbacks := rfl
  unfold becomeLeader
  cases hcalls : cb.onBecomeLeader with
  | none =>
      rw [hcalls] at hfit
      refine ⟨n + 1, ?_, ⟨fun _ => by omega, fun _ => rfl⟩⟩
      rw [hnext, List.filter_cons_of_neg (by simp [Registration.admits, ← hfit])]
      exact hentered.trans hn
  | some calls =>
      rw [hcalls] at hfit
      refine calls.foldlRecOn (motive := Reported r) _ ?_ (fun s hs c _ => hs.call hcb c)
      refine ⟨n + 1, ?_, ⟨fun _ => by omega, fun _ => rfl⟩⟩
      rw [hnext, List.filter_cons_of_pos (by simp [Registration.admits, ← hfit])]
      exact congrArg _ (hentered.trans hn)

theorem Reported.turn {e : NetEvent} (hcb : r.Fits cb) (hturn : Turn a cb e s s')
    (h : Reported r s) : Reported r s' := by
  cases hturn with
  | adopt hlt => exact Reported.convertToFollower hcb (h.of_eq rfl Iff.rfl)
  | reset | refuse | vote | acknowledge | count => exact h.of_eq rfl Iff.rfl
  | stepDown hrole =>
      refine h.of_eq (by rw [callbacks, callbacks, leave_trace]) ?_
      rw [leave_role, hrole]
      exact ⟨fun hc => (by cases hc), fun hc => (by cases hc)⟩
  | lead hrole hmaj => exact h.lead hcb hrole

/-- A candidacy is no leadership, and begins in none. -/
theorem Reported.candidacy (h : Reported r s) (hrole : s.role ≠ .leader) :
    Reported r (candidacy a s) := by
  have hnone : (candidacyEntries a s).filter Entry.isCallback = [] := by
    rw [List.filter_eq_nil_iff]
    intro o ho
    rcases (mem_candidacyEntries a s).mp ho with ⟨peer, -, rfl⟩ | ⟨-, rfl⟩ | rfl <;>
      simp [Entry.isCallback]
  refine h.of_eq ?_ ?_
  · rw [callbacks, candidacy_trace, List.filter_append, hnone]
    rfl
  · rw [candidacy_role]
    exact ⟨fun hc => (by cases hc), fun hc => absurd hc hrole⟩

/-- Steps whose callbacks are those of the options. -/
def Registers (r : Registration) (_ : RaftFSM) (x : MachineAction) (_ : RaftFSM) : Prop :=
  match x with
  | .handle _ cb | .callElection cb | .api _ cb => r.Fits cb
  | .callHeartbeat => True

instance (r : Registration) : ∀ s x s', Decidable (Registers r s x s')
  | _, .handle _ cb, _ | _, .callElection cb, _ | _, .api _ cb, _ =>
      inferInstanceAs (Decidable (r.Fits cb))
  | _, .callHeartbeat, _ => isTrue trivial

theorem Reported.step (hstep : s.step a x = some s') (hcb : Registers r s x s')
    (h : Reported r s) : Reported r s' := by
  cases step_entered hstep with
  | handled e cb s' hturns =>
      exact hturns.invariant (fun _ _ hturn hs => hs.turn hcb hturn) h
  | ignored => exact h
  | timedOut cb hrole | expired cb hlive hrole => exact h.candidacy hrole
  | beat hlive =>
      rw [sendAll_eq]
      refine h.of_eq ?_ Iff.rfl
      simp [callbacks, Entry.isCallback]
  | called c cb => exact h.call hcb c

theorem reported_of_reachable (h : ((machineSystem a).restrict (Registers r)).Reachable s) :
    Reported r s := by
  refine h.invariant ?_ ?_
  · intro s₀ hs₀
    rw [hs₀]
    exact ⟨0, rfl, ⟨fun hc => (by cases hc), fun hc => absurd hc (by decide)⟩⟩
  · intro s x s' _ hs hstep
    exact hs.step hstep.1 hstep.2

/-- Where both callbacks are registered none is left out. -/
theorem filter_alternation (n : Nat) :
    (alternation n).filter (Registration.admits ⟨true, true⟩) = alternation n := by
  induction n with
  | zero => rfl
  | succ n ih =>
      unfold alternation
      split
      · rw [List.filter_cons_of_pos (by rfl), ih]
      · rw [List.filter_cons_of_pos (by rfl), ih]

/-- **Leadership callbacks pair up.**  Between the steps of any run, whatever the
callbacks call in turn, those invoked so far are the alternation that begins with
`on_become_leader`, and the node is leader exactly when that one came last.  Where
only one of the two is registered, what is invoked is its part of such an
alternation. -/
theorem callbacks_alternate (h : ((machineSystem a).restrict (Registers r)).Reachable s) :
    (r = ⟨true, true⟩ → (∃ n, s.callbacks = alternation n) ∧
      (s.role = .leader ↔ s.callbacks.head? = some .onBecomeLeader)) ∧
    ∃ n, s.callbacks = (alternation n).filter r.admits ∧
      (s.role = .leader ↔ (alternation n).head? = some .onBecomeLeader) := by
  obtain ⟨n, hn, hlead⟩ := reported_of_reachable h
  rw [← alternation_head] at hlead
  refine ⟨?_, n, hn, hlead⟩
  intro hboth
  rw [hboth, filter_alternation] at hn
  exact ⟨⟨n, hn⟩, by rw [hn]; exact hlead⟩

/-- A leader that stands down inside `on_become_leader`, with an `on_sign_off_leader` that
calls back as well. -/
theorem callbacks_alternate_reentrant :
    ∃ s, ((machineSystem firstOfThree).restrict (Registers ⟨true, true⟩)).Reachable s ∧
      s.callbacks = [.onSignOffLeader, .onBecomeLeader] ∧ s.role ≠ .leader := by
  have hrun := System.Reachable.of_execute RaftFSM.started (RaftFSM.step firstOfThree)
    (Registers ⟨true, true⟩)
    [.callElection ⟨some [], some []⟩,
      .handle (.net (.requestVoteRes 2 1 true)) ⟨some [.block, .stayFollower], some [.unblock]⟩]
    (fun s => s.callbacks = [.onSignOffLeader, .onBecomeLeader]) (by decide +kernel)
  obtain ⟨s, hs, hcallbacks⟩ := hrun
  refine ⟨s, hs, hcallbacks, ?_⟩
  rw [Ne, ((callbacks_alternate hs).1 rfl).2, hcallbacks]
  decide

end RaftFSM

end Raft
