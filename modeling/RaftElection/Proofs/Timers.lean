/-
The two timers of a node through blocks and role changes.

`block` demotes the node and pauses both timers; `unblock` clears the flag and
touches neither.  A follower's election timer is resumed only by the role changes
that start it, and a follower with a paused timer has none ahead of it: whatever is
delivered leaves it a follower, and `reset` hands the paused flag to the new task.
So a node that was blocked is out of every later election, with one way back: a
timeout that had fired before the block and enters `handle` after the unblock.

The heartbeat timer is live only in a leader.
-/
import RaftElection.Proofs.Votes

namespace Raft.Timer

@[simp] theorem not_live_none : ¬ Live none := by
  intro hlive
  obtain ⟨_, h, -⟩ := hlive
  cases h

theorem live_some {t : Timer} : Live (some t) ↔ t.paused = false ∧ t.cancelled = false := by
  constructor
  · intro hlive
    obtain ⟨_, h, hlive⟩ := hlive
    cases h
    exact hlive
  · intro h
    exact ⟨t, rfl, h⟩

/-- `reset` puts another task there, as live as the old one. -/
@[simp] theorem live_reset {t : Timer} : Live (some t.reset) ↔ Live (some t) := by
  rw [live_some, live_some]
  rfl

@[simp] theorem not_live_stop (t : Option Timer) : ¬ Live (stop t) := by
  cases t with
  | none => exact not_live_none
  | some t =>
      intro h
      cases (live_some.mp h).1

end Raft.Timer

namespace Raft.RaftFSM

variable {a : Actor} {P : UInt64 → UInt64 → Prop}

/-! ### Leaving through the API -/

/-- `stay_follower` leaves the role, lets the callback run on the follower this makes,
and pauses the timers last. -/
theorem stayFollower_eq (cb : Callbacks) (s : RaftFSM) :
    ∃ s₁, Quiet (leave s) s₁ ∧ stayFollower (signOff cb) s = pauseScheduledTasks s₁ := by
  unfold stayFollower
  rw [convertToFollower_eq]
  split
  · exact ⟨_, signOff_quiet cb (leave_role s), rfl⟩
  · exact ⟨_, Quiet.refl _, rfl⟩

/-- A follower whose election timer cannot fire. -/
structure Parked (s : RaftFSM) : Prop where
  role : s.role = .follower
  paused : ¬ Timer.Live s.electionTimeoutTask

theorem Parked.stayFollower (cb : Callbacks) (s : RaftFSM) :
    Parked (stayFollower (signOff cb) s) := by
  obtain ⟨s₁, hquiet, heq⟩ := stayFollower_eq cb s
  rw [heq]
  exact ⟨hquiet.role.trans (leave_role s), Timer.not_live_stop s₁.electionTimeoutTask⟩

theorem Parked.move {s s' : RaftFSM} (hm : Move a P s s') (h : Parked s) : Parked s' := by
  cases hm with
  | callback | setBlocked | refuse | vote | acknowledge => exact ⟨h.role, h.paused⟩
  | pause => exact ⟨h.role, Timer.not_live_stop _⟩
  | adopt t hlt =>
      rw [leave_of_follower (by exact h.role)]
      exact ⟨h.role, h.paused⟩
  | leave =>
      rw [leave_of_follower h.role]
      exact h
  | reset t ht =>
      refine ⟨h.role, ?_⟩
      rw [Timer.live_reset, ← ht]
      exact h.paused
  | count id hrole => exact absurd (h.role.symm.trans hrole) (by decide)
  | lead hrole => exact absurd (h.role.symm.trans hrole) (by decide)

/-- A candidacy leaves the heartbeat timer alone. -/
theorem candidacy_heartbeatTask {s : RaftFSM} (hrole : s.role ≠ .leader) :
    (candidacy a s).heartbeatTask = s.heartbeatTask := by
  rw [candidacy_eq]
  show (clearPrevState s).heartbeatTask = s.heartbeatTask
  unfold clearPrevState
  cases hr : s.role with
  | follower | candidate => rfl
  | leader => exact absurd hr hrole

end Raft.RaftFSM

namespace Raft.Node

open Transition RaftFSM

variable {a : Actor} {n n' : Node} {act : NodeAction}

/-! ### From the block to the unblock -/

/-- A blocked node stays as the block left it until it is unblocked. -/
structure Withdrawn (n : Node) : Prop where
  blocked : n.fsm.blocked = true
  parked : Parked n.fsm

theorem Withdrawn.block {cb : Callbacks} (h : n.step a (.api .block cb) = some n') :
    Withdrawn n' := by
  simp only [step, Option.some.injEq] at h
  subst h
  have hparked := Parked.stayFollower cb n.fsm
  exact ⟨rfl, ⟨hparked.role, hparked.paused⟩⟩

theorem Withdrawn.step (h : Withdrawn n) (hstep : n.step a act = some n')
    (hact : ∀ cb, act ≠ .api .unblock cb) : Withdrawn n' := by
  have hblocked := h.blocked
  cases step_change_any hstep with
  | delivered e cb s' hhandle hmoves =>
      simp only [handle, emit_blocked, hblocked, if_true, Except.ok.injEq] at hhandle
      rw [← hhandle]
      exact ⟨hblocked, ⟨h.parked.role, h.parked.paused⟩⟩
  | expired | ignored | began => exact ⟨hblocked, h.parked⟩
  | stood cb hpc hunblocked => exact absurd (hblocked.symm.trans hunblocked) (by decide)
  | sent => exact ⟨hblocked, ⟨h.parked.role, h.parked.paused⟩⟩
  | called c cb =>
      cases c with
      | unblock => exact absurd rfl (hact cb)
      | block => exact Withdrawn.block hstep
      | stayFollower =>
          refine ⟨?_, Parked.stayFollower cb n.fsm⟩
          show (n.fsm.stayFollower (signOff cb)).blocked = true
          rw [stayFollower_of_follower h.parked.role]
          exact hblocked

/-- Steps other than a call of `unblock`. -/
def NotUnblocked (_ : Node) (act : NodeAction) (_ : Node) : Prop := ∀ cb, act ≠ .api .unblock cb

theorem Withdrawn.run (h : Withdrawn n) (hrun : ((nodeSystem a).restrict NotUnblocked).Run n n') :
    Withdrawn n' := by
  refine hrun.invariant ?_ h
  intro n act n' hn hmove
  obtain ⟨hstep, hact⟩ := hmove
  exact hn.step hstep hact

/-! ### After the unblock

`unblock` clears the flag and starts nothing.  Whatever is delivered then finds a follower, and a
follower resets its timer, which stays paused, and never resumes it.
-/

/-- The callbacks make no call that pauses the timers. -/
def unpausing (cb : Callbacks) : Prop :=
  ∀ calls, cb.onBecomeLeader = some calls ∨ cb.onSignOffLeader = some calls →
    ∀ c ∈ calls, c = .unblock

/-- Steps in which the user calls neither `block` nor `stay_follower`. -/
def Undisturbed (_ : Node) (act : NodeAction) (_ : Node) : Prop :=
  match act with
  | .api c _ => c = .unblock
  | .deliver _ cb | .timeout cb => unpausing cb
  | _ => True

/-- From here on, while the node is unblocked and no leader and nobody pauses it, its
election timer can fire. -/
def Rejoined (a : Actor) (n : Node) : Prop :=
  ∀ n', ((nodeSystem a).restrict Undisturbed).Run n n' → n'.fsm.blocked = false →
    n'.fsm.role ≠ .leader → Timer.Live n'.fsm.electionTimeoutTask

/-- Parked, and no timeout is under way. -/
structure Stranded (n : Node) : Prop where
  parked : Parked n.fsm
  pc : n.pc ≠ .timingOut

theorem loop_ne_timingOut (peers : List UInt64) : SchedulerPc.loop peers ≠ .timingOut := by
  cases peers <;> simp [SchedulerPc.loop]

theorem Stranded.step (h : Stranded n) (hstep : n.step a act = some n') : Stranded n' := by
  have hparked : Parked n'.fsm := by
    cases step_change_any hstep with
    | delivered e cb s' hhandle hmoves =>
        refine hmoves.invariant (fun _ _ hm hs => hs.move hm) ?_
        exact ⟨h.parked.role, h.parked.paused⟩
    | expired | ignored | began => exact h.parked
    | stood cb hpc => exact absurd hpc h.pc
    | sent => exact ⟨h.parked.role, h.parked.paused⟩
    | called c cb =>
        exact (call_moves (a := a) (P := fun _ _ => True) cb n.fsm c).invariant
          (fun _ _ hm hs => hs.move hm) h.parked
  refine ⟨hparked, ?_⟩
  cases step_change_any hstep with
  | delivered | called => exact h.pc
  | expired hpc hlive => exact absurd hlive h.parked.paused
  | ignored | stood => simp
  | began => exact loop_ne_timingOut _
  | sent => exact loop_ne_timingOut _

/-- **A blocked node does not rejoin.**  In every run in which it is blocked and later
unblocked, the election timer is paused right after the `unblock`, in an unblocked
follower.  Unless a timeout is just then under way, it stays so for good, whatever
the node receives and whatever is called. -/
theorem not_rejoined {n₁ n₂ n₃ n₄ : Node} {cb cb' : Callbacks}
    (hblock : n₁.step a (.api .block cb) = some n₂)
    (hrun : ((nodeSystem a).restrict NotUnblocked).Run n₂ n₃)
    (hunblock : n₃.step a (.api .unblock cb') = some n₄) :
    ¬ Rejoined a n₄ ∧
      (n₄.pc ≠ .timingOut → ∀ n₅, (nodeSystem a).Run n₄ n₅ →
        n₅.fsm.role = .follower ∧ ¬ Timer.Live n₅.fsm.electionTimeoutTask) := by
  have hwithdrawn : Withdrawn n₃ := (Withdrawn.block hblock).run hrun
  simp only [step, call, unblock, Option.some.injEq] at hunblock
  have hparked : Parked n₄.fsm := by
    rw [← hunblock]
    exact ⟨hwithdrawn.parked.role, hwithdrawn.parked.paused⟩
  refine ⟨?_, ?_⟩
  · intro hrejoined
    refine hparked.paused (hrejoined n₄ (System.Run.refl n₄) ?_ ?_)
    · rw [← hunblock]
    · rw [hparked.role]
      decide
  · intro hpc n₅ hlater
    have hstranded : Stranded n₅ :=
      hlater.invariant (fun _ _ _ hn hstep => hn.step hstep) ⟨hparked, hpc⟩
    exact ⟨hstranded.parked.role, hstranded.parked.paused⟩

/-- A leader that is blocked and at once unblocked is a follower for good. -/
theorem not_rejoined_leader : ∃ n₁ : Node, n₁.fsm.role = .leader ∧
    ∀ n₂ n₄, n₁.step firstOfThree (.api .block {}) = some n₂ →
      n₂.step firstOfThree (.api .unblock {}) = some n₄ →
        ¬ Rejoined firstOfThree n₄ ∧
          ∀ n₅, (nodeSystem firstOfThree).Run n₄ n₅ → n₅.fsm.role = .follower := by
  obtain ⟨n₁, -, hrole, hpc⟩ := System.Reachable.of_execute {} (Node.step firstOfThree)
    (fun _ _ _ => True) [.expire, .timeout {}, .deliver (.requestVoteRes 2 1 true) {}]
    (fun n => n.fsm.role = .leader ∧ n.pc = .idle) (by decide +kernel)
  refine ⟨n₁, hrole, ?_⟩
  intro n₂ n₄ hblock hunblock
  obtain ⟨hnot, hlater⟩ := not_rejoined hblock (System.Run.refl n₂) hunblock
  refine ⟨hnot, fun n₅ hrun => (hlater ?_ n₅ hrun).1⟩
  simp only [step, Option.some.injEq] at hblock hunblock
  rw [← hunblock, ← hblock, hpc]
  decide

/-- A node that is blocked and unblocked before anything else happens. -/
theorem fresh_node_not_rejoined :
    ∃ n₂ n₄, ({} : Node).step firstOfThree (.api .block {}) = some n₂ ∧
      n₂.step firstOfThree (.api .unblock {}) = some n₄ ∧ ¬ Rejoined firstOfThree n₄ := by
  refine ⟨_, _, rfl, rfl, ?_⟩
  intro hrejoined
  exact absurd (hrejoined _ (System.Run.refl _) rfl (by decide)) (by decide)

end Raft.Node
