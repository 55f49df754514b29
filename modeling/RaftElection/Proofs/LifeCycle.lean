/-
Which calls a node survives at which time of its life.

Three pointers are null until `start` has come far enough.  `election_timeout_task_` is
the first to be there, `server_` the second and `client_` the last, so a client that is
there has the other two with it (`Created`).  What is done with them is tested nowhere
(`stop`), or tested and done all the same (`send`), and nothing keeps a call from coming
too early.  `Ready` says for each kind of step what has to be there for it, and a step
goes through a null pointer exactly where it is not ready (`fault_iff`).
-/
import RaftElection.LifeCycle
import RaftElection.Proofs.Delivery

namespace Raft

open Transition

/-! ### What a step of the machine sends -/

namespace RaftFSM

variable {a : Actor} {cb : Callbacks} {e : NetEvent} {s s' : RaftFSM}

theorem any_isSent_iff : (s.newEntries s').any Entry.isSent = true ↔ sends s s' ≠ [] := by
  rw [sends, Ne, List.filter_eq_nil_iff, List.any_eq_true]
  simp

theorem handleRequestVote_answers {id t : UInt64} (h : handleRequestVote a s id t = .ok s') :
    ∃ r, s'.trace = .sent id r :: s.trace := by
  unfold handleRequestVote at h
  split at h
  · obtain ⟨-, rfl⟩ := reply_eq_ok h
    exact ⟨_, rfl⟩
  · split at h
    · obtain ⟨s₁, hreset, hvote⟩ := bind_eq_ok h
      obtain ⟨timer, -, rfl⟩ := resetElectionTimeout_eq_ok hreset
      obtain ⟨-, rfl⟩ := reply_eq_ok hvote
      exact ⟨_, rfl⟩
    · obtain ⟨-, rfl⟩ := reply_eq_ok h
      exact ⟨_, rfl⟩

/-- A candidate that steps down invokes no callback. -/
theorem trace_stepDown (cb : Callbacks) (s : RaftFSM) :
    (if s.role = .candidate then convertToFollower (signOff cb) s else s).trace = s.trace := by
  split
  · rename_i hrole
    rw [convertToFollower_eq, if_neg (by simp [hrole]), leave_trace]
  · rfl

theorem handleAppendEntries_answers {id t : UInt64}
    (h : handleAppendEntries a cb s id t = .ok s') : ∃ r, s'.trace = .sent id r :: s.trace := by
  unfold handleAppendEntries at h
  split at h
  · obtain ⟨-, rfl⟩ := reply_eq_ok h
    exact ⟨_, rfl⟩
  · split at h
    · obtain ⟨-, rfl⟩ := reply_eq_ok h
      exact ⟨_, rfl⟩
    · obtain ⟨s₁, hreset, hrest⟩ := bind_eq_ok h
      obtain ⟨timer, -, rfl⟩ := resetElectionTimeout_eq_ok hreset
      obtain ⟨-, rfl⟩ := reply_eq_ok hrest
      exact ⟨_, congrArg (List.cons _) (trace_stepDown cb _)⟩

/-- A request that is handled is answered, and a response is not. -/
theorem sends_handle_net (hblocked : s.blocked = false) (h : handle a cb s (.net e) = .ok s') :
    sends s s' ≠ [] ↔ e.isRequest = true := by
  have hadopted := adoptTerm_unsent cb s e.getTerm
  rw [handle_eq, if_neg (by simp [hblocked])] at h
  cases e with
  | requestVoteReq id t =>
      obtain ⟨r, hr⟩ := handleRequestVote_answers h
      simp [sends_answer hadopted hr, NetEvent.isRequest]
  | appendEntriesReq id t =>
      obtain ⟨r, hr⟩ := handleAppendEntries_answers h
      simp [sends_answer hadopted hr, NetEvent.isRequest]
  | requestVoteRes id t granted =>
      obtain rfl := Except.ok.inj h
      have hunsent := hadopted.trans (handleRequestVoteResponse_unsent a cb _ id t granted)
      refine ⟨fun hsent => absurd (sends_of_unsent hunsent) hsent, ?_⟩
      simp [NetEvent.isRequest]
  | appendEntriesRes id t =>
      obtain rfl := Except.ok.inj h
      refine ⟨fun hsent => absurd (sends_of_unsent hadopted) hsent, ?_⟩
      simp [NetEvent.isRequest]

/-- A response needs no pointer. -/
theorem handle_response (cb : Callbacks) (s : RaftFSM) (he : e.isRequest = false) :
    ∃ s', handle a cb s (.net e) = .ok s' := by
  rw [handle_eq]
  split
  · exact ⟨s, rfl⟩
  · cases e with
    | requestVoteReq | appendEntriesReq => cases he
    | requestVoteRes | appendEntriesRes => exact ⟨_, rfl⟩

theorem handle_ne_nullTask (cb : Callbacks) (htask : HasTask s) (e : NetEvent) :
    handle a cb s (.net e) ≠ .error .nullTask := by
  intro h
  by_cases hanswer : Answerable a s e
  · obtain ⟨s', hs'⟩ := handle_of_answerable cb htask hanswer
    rw [hs'] at h
    cases h
  · rw [handle_of_not_answerable cb htask hanswer] at h
    cases h

end RaftFSM

namespace LifeCycle

open RaftFSM

variable {a : Actor} {n n' : LifeCycle} {x : LifeCycleAction}

/-! ### What a step needs

For each kind of call, the pointers it will dereference, read off the state before it.  `start`
creates the task, the server and the client in this order, so a later one implies the earlier.
-/

/-- An election timeout can be handled: it does nothing, or there is a client to canvass
with, or nobody to canvass. -/
def CanStand (a : Actor) (n : LifeCycle) : Prop :=
  n.fsm.blocked = true ∨ n.fsm.role = .leader ∨ n.client = true ∨ a.getPeers = []

/-- What the step will dereference is there. -/
def Ready (a : Actor) (n : LifeCycle) : LifeCycleAction → Prop
  | .stop | .destroy => n.server = true
  | .machine (.handle (.net e) _) =>
      n.fsm.blocked = true ∨ e.isRequest = false ∨ n.client = true
  | .machine (.handle .electionTimeout _) => CanStand a n
  | .machine (.callElection _) => Timer.Live n.fsm.electionTimeoutTask → CanStand a n
  | .machine .callHeartbeat =>
      Timer.Live n.fsm.heartbeatTask → n.client = true ∨ a.getPeers = []
  | _ => True

/-- The order in which `start` creates what it creates. -/
structure Created (n : LifeCycle) : Prop where
  armed : 0 < n.starting ∨ n.client = true → HasTask n.fsm
  server : n.client = true → n.server = true

/-! ### Steps of the machine -/

theorem sendTo_fault (halive : n.fault = none) (s : RaftFSM) :
    (n.sendTo s).fault = none ↔ n.client = true ∨ sends n.fsm s = [] := by
  unfold sendTo
  split
  · rename_i h
    have hsent := any_isSent_iff.mp h.2
    simp [h.1, hsent]
  · rename_i h
    simp only [halive, true_iff]
    by_contra hno
    simp only [not_or, Bool.not_eq_true] at hno
    exact h ⟨hno.1, any_isSent_iff.mpr hno.2⟩

theorem fault_of_net {e : NetEvent} {cb : Callbacks} (hcreated : Created n)
    (halive : n.fault = none) (hstep : n.handle a cb (.net e) = some n') :
    n'.fault = none ↔ n.fsm.blocked = true ∨ e.isRequest = false ∨ n.client = true := by
  unfold LifeCycle.handle at hstep
  split at hstep
  · rename_i s hs
    obtain rfl := Option.some.inj hstep
    rw [sendTo_fault halive]
    cases hblocked : n.fsm.blocked with
    | true =>
        rw [handle_eq, if_pos hblocked] at hs
        obtain rfl := Except.ok.inj hs
        simp [sends_self]
    | false =>
        have hsends := sends_handle_net hblocked hs
        cases hrequest : e.isRequest with
        | true => simp [hsends.mpr hrequest]
        | false =>
            have hnone : sends n.fsm s = [] := by
              by_contra hsent
              exact absurd (hrequest.symm.trans (hsends.mp hsent)) (by decide)
            simp [hnone]
  · rename_i herror
    obtain rfl := Option.some.inj hstep
    have hblocked : n.fsm.blocked ≠ true := by
      intro hblocked
      rw [handle_eq, if_pos hblocked] at herror
      cases herror
    have hrequest : e.isRequest ≠ false := by
      intro hresponse
      obtain ⟨s', hs'⟩ := handle_response (a := a) cb n.fsm hresponse
      rw [hs'] at herror
      cases herror
    have hclient : n.client ≠ true := by
      intro hclient
      exact handle_ne_nullTask cb (hcreated.armed (Or.inr hclient)) e herror
    simp [hblocked, hrequest, hclient]
  · cases hstep

theorem fault_of_timeout {cb : Callbacks} (halive : n.fault = none)
    (hstep : n.handle a cb .electionTimeout = some n') : n'.fault = none ↔ CanStand a n := by
  unfold LifeCycle.handle at hstep
  rw [handle_timeout_eq] at hstep
  obtain rfl := Option.some.inj hstep
  rw [sendTo_fault halive]
  by_cases hidle : n.fsm.blocked = true ∨ n.fsm.role = .leader
  · rw [if_pos hidle]
    simp only [sends_self, or_true, true_iff, CanStand]
    rcases hidle with hblocked | hrole
    · exact Or.inl hblocked
    · exact Or.inr (Or.inl hrole)
  · rw [if_neg hidle, sends_candidacy, List.reverse_eq_nil_iff, List.map_eq_nil_iff]
    simp only [not_or] at hidle
    simp [CanStand, hidle.1, hidle.2]

theorem onServer_fault (halive : n.fault = none) : n.onServer.fault = none ↔ n.server = true := by
  unfold onServer
  split
  · rename_i h
    simp [halive, h]
  · rename_i h
    simp [h]

/-! ### What a step can do -/

/-- The steps of a life that is not over. -/
inductive Lived (a : Actor) (n : LifeCycle) : LifeCycleAction → LifeCycle → Prop
  | armed : Lived a n .initFollower
      { n with fsm := initFollowerState n.fsm, starting := n.starting + 1 }
  | served (hstarting : 0 < n.starting) : Lived a n .makeServer { n with server := true }
  | refused (hstarting : 0 < n.starting) :
      Lived a n .failServer { n with starting := n.starting - 1 }
  | connected (hstarting : 0 < n.starting) (hserver : n.server = true) :
      Lived a n .makeClient { n with client := true }
  | entered (hstarting : 0 < n.starting) (hclient : n.client = true) :
      Lived a n .serve (onServer { n with starting := n.starting - 1 })
  | stopped : Lived a n .stop n.onServer
  | ran (x : MachineAction) (n' : LifeCycle) (hrun : n.machineStep a x = some n') :
      Lived a n (.machine x) n'
  | ended : Lived a n .destroy
      (onServer { n with fsm := cancelScheduledTasks n.fsm, destroyed := true })

theorem step_lived (hstep : n.step a x = some n') : n.fault = none ∧ Lived a n x n' := by
  unfold LifeCycle.step at hstep
  split at hstep
  · cases hstep
  rename_i hlive
  simp only [Bool.or_eq_true, not_or, Bool.not_eq_true, Option.isSome_eq_false_iff,
    Option.isNone_iff_eq_none] at hlive
  refine ⟨hlive.1, ?_⟩
  cases x with
  | initFollower =>
      obtain rfl := Option.some.inj hstep
      exact .armed
  | makeServer =>
      obtain ⟨hif, hn'⟩ := Option.ite_none_right_eq_some.mp hstep
      obtain rfl := Option.some.inj hn'
      exact .served hif.1
  | failServer =>
      obtain ⟨hif, hn'⟩ := Option.ite_none_right_eq_some.mp hstep
      obtain rfl := Option.some.inj hn'
      exact .refused hif.1
  | makeClient =>
      obtain ⟨hif, hn'⟩ := Option.ite_none_right_eq_some.mp hstep
      obtain rfl := Option.some.inj hn'
      exact .connected hif.1 hif.2.1
  | serve =>
      obtain ⟨hif, hn'⟩ := Option.ite_none_right_eq_some.mp hstep
      obtain rfl := Option.some.inj hn'
      exact .entered hif.1 hif.2
  | stop =>
      obtain rfl := Option.some.inj hstep
      exact .stopped
  | machine x => exact .ran x n' hstep
  | destroy =>
      obtain rfl := Option.some.inj hstep
      exact .ended

theorem fault_of_machine {x : MachineAction} (hcreated : Created n) (halive : n.fault = none)
    (hrun : n.machineStep a x = some n') : n'.fault = none ↔ Ready a n (.machine x) := by
  cases x with
  | handle event cb =>
      cases event with
      | net e => exact fault_of_net hcreated halive hrun
      | electionTimeout => exact fault_of_timeout halive hrun
  | callElection cb =>
      simp only [machineStep] at hrun
      split at hrun
      · rename_i hfires
        rw [fault_of_timeout halive hrun]
        simp [Ready, hfires]
      · rename_i hfires
        obtain rfl := Option.some.inj hrun
        simp [Ready, hfires, halive]
  | callHeartbeat =>
      obtain rfl := Option.some.inj hrun
      simp only [Ready]
      split
      · rename_i hfires
        rw [sendTo_fault halive, sends_sendAll, List.reverse_eq_nil_iff, List.map_eq_nil_iff]
        simp [hfires]
      · rename_i hfires
        simp [hfires, halive]
  | api c cb =>
      obtain rfl := Option.some.inj hrun
      simp [Ready, halive]

/-- **A step goes through a null pointer exactly where it is not ready.** -/
theorem fault_iff (hcreated : Created n) (hstep : n.step a x = some n') :
    n'.fault = none ↔ Ready a n x := by
  obtain ⟨halive, hlived⟩ := step_lived hstep
  cases hlived with
  | armed | served | refused | connected => simp [Ready, halive]
  | entered hstarting hclient =>
      refine (onServer_fault (n := { n with starting := n.starting - 1 }) halive).trans ?_
      simp [Ready, hcreated.server hclient]
  | stopped => exact onServer_fault halive
  | ran x n' hrun => exact fault_of_machine hcreated halive hrun
  | ended => exact onServer_fault halive

/-! ### Whole lives -/

theorem sendTo_cases (n : LifeCycle) (s : RaftFSM) :
    n.sendTo s = { n with fsm := s } ∨ ∃ f, n.sendTo s = { n with fault := some f } := by
  unfold sendTo
  split
  · exact Or.inr ⟨_, rfl⟩
  · exact Or.inl rfl

/-- What survives is a step of the machine. -/
theorem machineStep_cases {x : MachineAction} (hstep : n.machineStep a x = some n') :
    (∃ s, n.fsm.step a x = some s ∧ n' = { n with fsm := s }) ∨
      ∃ f, n' = { n with fault := some f } := by
  have hhandle : ∀ {cb event}, n.handle a cb event = some n' →
      (∃ s, (RaftFSM.handle a cb n.fsm event).toOption = some s ∧ n' = { n with fsm := s }) ∨
        ∃ f, n' = { n with fault := some f } := by
    intro cb event h
    unfold LifeCycle.handle at h
    split at h
    · rename_i s hs
      obtain rfl := Option.some.inj h
      rcases sendTo_cases n s with heq | ⟨f, heq⟩
      · exact Or.inl ⟨s, by rw [hs]; rfl, heq⟩
      · exact Or.inr ⟨f, heq⟩
    · exact Or.inr ⟨_, (Option.some.inj h).symm⟩
    · cases h
  cases x with
  | handle event cb => exact hhandle hstep
  | callElection cb =>
      simp only [machineStep] at hstep
      split at hstep
      · rename_i hfires
        simp only [RaftFSM.step, if_pos hfires]
        exact hhandle hstep
      · rename_i hfires
        obtain rfl := Option.some.inj hstep
        exact Or.inl ⟨n.fsm, if_neg hfires, rfl⟩
  | callHeartbeat =>
      obtain rfl := Option.some.inj hstep
      simp only [RaftFSM.step]
      split
      · rcases sendTo_cases n (n.fsm.sendAll (.appendEntriesReq a.self n.fsm.term) a.getPeers)
          with heq | ⟨f, heq⟩
        · exact Or.inl ⟨_, rfl, heq⟩
        · exact Or.inr ⟨f, heq⟩
      · exact Or.inl ⟨n.fsm, rfl, rfl⟩
  | api c cb => exact Or.inl ⟨_, rfl, (Option.some.inj hstep).symm⟩

theorem Created.onServer (h : Created n) : Created n.onServer := by
  unfold LifeCycle.onServer
  split
  · exact h
  · exact ⟨h.armed, h.server⟩

theorem Created.step (h : Created n) (hstep : n.step a x = some n') : Created n' := by
  obtain ⟨-, hlived⟩ := step_lived hstep
  cases hlived with
  | armed => exact ⟨fun _ => Timer.isSome_start _, h.server⟩
  | served => exact ⟨h.armed, fun _ => rfl⟩
  | refused hstarting => exact ⟨fun _ => h.armed (Or.inl hstarting), h.server⟩
  | connected hstarting hserver =>
      exact ⟨fun _ => h.armed (Or.inl hstarting), fun _ => hserver⟩
  | entered hstarting =>
      exact Created.onServer ⟨fun _ => h.armed (Or.inl hstarting), h.server⟩
  | stopped => exact h.onServer
  | ran x n' hrun =>
      rcases machineStep_cases hrun with ⟨s, hs, rfl⟩ | ⟨f, rfl⟩
      · exact ⟨fun hstarted => (h.armed hstarted).step hs, h.server⟩
      · exact ⟨h.armed, h.server⟩
  | ended =>
      refine Created.onServer ⟨fun hstarted => ?_, h.server⟩
      have htask := h.armed hstarted
      unfold HasTask cancelScheduledTasks
      rw [Option.isSome_map]
      exact htask

theorem created_of_reachable (h : (lifeCycleSystem a).Reachable n) : Created n := by
  refine h.invariant ?_ (fun _ _ _ _ hn hstep => hn.step hstep)
  intro n₀ hn₀
  rw [hn₀]
  exact ⟨by simp, nofun⟩

/-- **Where the life of a node goes through a null pointer.**  In every life whose steps are
all ready for what they do, none is dereferenced; and a single step of any life
dereferences one exactly if it is not ready. -/
theorem null_access_iff (a : Actor) :
    (∀ n, ((lifeCycleSystem a).restrict fun n x _ => Ready a n x).Reachable n → n.fault = none) ∧
      ∀ n x n', (lifeCycleSystem a).Reachable n → (lifeCycleSystem a).step n x n' →
        (n'.fault = none ↔ Ready a n x) := by
  refine ⟨?_, fun n x n' hn hstep => fault_iff (created_of_reachable hn) hstep⟩
  intro n hn
  refine hn.invariant (I := fun n => n.fault = none) ?_ ?_
  · intro n₀ hn₀
    rw [hn₀]
  · intro n x n' hreach _ hstep
    exact (fault_iff (created_of_reachable hreach.unrestrict) hstep.1).mpr hstep.2

/-- Three lives of server 1 of three: it is destroyed without having been started; its
election timer fires while `start` is about to create the client; it is handed a
heartbeat before it is started. -/
theorem unstarted_node_faults :
    ∃ n₁ n₂ n₃, (lifeCycleSystem firstOfThree).Reachable n₁ ∧ n₁.fault = some .server ∧
      (lifeCycleSystem firstOfThree).Reachable n₂ ∧ n₂.fault = some .client ∧
      (lifeCycleSystem firstOfThree).Reachable n₃ ∧ n₃.fault = some .electionTimeoutTask := by
  obtain ⟨n₁, hreach₁, hfault₁⟩ := System.Reachable.of_execute {} (LifeCycle.step firstOfThree)
    (fun _ _ _ => True) [.destroy] (fun n => n.fault = some .server) (by decide +kernel)
  obtain ⟨n₂, hreach₂, hfault₂⟩ := System.Reachable.of_execute {} (LifeCycle.step firstOfThree)
    (fun _ _ _ => True) [.initFollower, .makeServer, .machine (.callElection {})]
    (fun n => n.fault = some .client) (by decide +kernel)
  obtain ⟨n₃, hreach₃, hfault₃⟩ := System.Reachable.of_execute {} (LifeCycle.step firstOfThree)
    (fun _ _ _ => True) [.machine (.handle (.net (.appendEntriesReq 2 1)) {})]
    (fun n => n.fault = some .electionTimeoutTask) (by decide +kernel)
  exact ⟨n₁, n₂, n₃, hreach₁.unrestrict, hfault₁, hreach₂.unrestrict, hfault₂, hreach₃.unrestrict,
    hfault₃⟩

end LifeCycle

end Raft
