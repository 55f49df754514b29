/-
The lock order of the two threads, and the one place it closes a circle.

Each thread keeps to a table of what it may take while it holds what (`Allowed`).
Read off the tables: the server thread takes everything inside `handler_mtx_`, the
scheduler thread everything inside `Scheduler::mtx`, and each reaches for the
other's outermost mutex — the scheduler thread when an election timeout enters
`handle`, the server thread when a handler resets the election timer or schedules
the heartbeats.  The two threads can wait for each other in that way and in no
other.
-/
import RaftElection.Proofs.Timers
import RaftElection.Threads

namespace Raft

open Locks

/-! ### The calls on the timers, replayed

The calls of a handler, made one after another, leave the timers as `Fsm.lean` says
the handler does.
-/

namespace Timers

/-- All of a call at once. -/
def call (t : Timers) : TimerCall → Timers
  | .schedule k => t.apply (.schedule k)
  | .pause k => t.apply (.pause k)
  | .resume k => t.apply (.resume k)
  | .reset k => (t.apply (.retire k)).apply (.replace k)

def replay (t : Timers) (calls : List TimerCall) : Timers := calls.foldl call t

theorem replay_append (t : Timers) (l l' : List TimerCall) :
    t.replay (l ++ l') = (t.replay l).replay l' := List.foldl_append

/-- A task that exists stays. -/
theorem isSome_call {t : Timers} {k : TimerKind} (c : TimerCall)
    (h : (t.task k).isSome = true) : ((t.call c).task k).isSome = true := by
  cases c with
  | schedule j | pause j | resume j | reset j =>
      by_cases hk : k = j
      · subst hk
        simp [call, apply, setTask, setRetired, h]
      · simp [call, apply, setTask, setRetired, Function.update_of_ne hk, h]

theorem isSome_replay {k : TimerKind} :
    ∀ (calls : List TimerCall) {t : Timers}, (t.task k).isSome = true →
      ((t.replay calls).task k).isSome = true := by
  intro calls
  induction calls with
  | nil => intro t h; exact h
  | cons c rest ih => intro t h; exact ih (isSome_call c h)

end Timers

namespace RaftFSM

/-- The calls do to the timers what the function does. -/
def Replays (s : RaftFSM) (calls : List TimerCall) (s' : RaftFSM) : Prop :=
  s.timers.replay calls = s'.timers

theorem Replays.append {s₁ s₂ s₃ : RaftFSM} {l l' : List TimerCall} (h : Replays s₁ l s₂)
    (h' : Replays s₂ l' s₃) : Replays s₁ (l ++ l') s₃ := by
  unfold Replays at h h' ⊢
  rw [Timers.replay_append, h, h']

/-- The machine with another task in place of one timer's. -/
def setTimer (s : RaftFSM) (task : Option Timer) : TimerKind → RaftFSM
  | .election => { s with electionTimeoutTask := task }
  | .heartbeat => { s with heartbeatTask := task }

theorem timers_setTimer (s : RaftFSM) (task : Option Timer) (k : TimerKind) :
    (s.setTimer task k).timers = s.timers.setTask k task := by
  unfold timers Timers.setTask
  congr
  funext j
  cases k <;> cases j <;> rfl

theorem replays_start (s : RaftFSM) (k : TimerKind) :
    Replays s (startCalls k (s.timers.task k)) (s.setTimer (Timer.start (s.timers.task k)) k) := by
  unfold Replays
  rw [timers_setTimer]
  cases h : s.timers.task k with
  | none => rfl
  | some t =>
      show s.timers.setTask k ((s.timers.task k).map Timer.resume) = _
      rw [h]
      rfl

theorem replays_stop (s : RaftFSM) (k : TimerKind) :
    Replays s (stopCalls k (s.timers.task k)) (s.setTimer (Timer.stop (s.timers.task k)) k) := by
  unfold Replays
  rw [timers_setTimer]
  cases h : s.timers.task k with
  | none =>
      show s.timers = s.timers.setTask k none
      rw [← h]
      unfold Timers.setTask
      rw [Function.update_eq_self]
  | some t =>
      show s.timers.setTask k ((s.timers.task k).map Timer.pause) = _
      rw [h]
      rfl

theorem replays_reset (s : RaftFSM) :
    Replays s [.reset .election]
      { s with electionTimeoutTask := s.electionTimeoutTask.map Timer.reset } := by
  show _ = (s.setTimer (s.electionTimeoutTask.map Timer.reset) .election).timers
  rw [timers_setTimer]
  show ((s.timers.setRetired .election true).apply (.replace .election)) = _
  unfold Timers.apply Timers.setTask Timers.setRetired timers
  simp only [Function.update_idem]
  congr
  funext k
  cases k <;> rfl

/-- The calls of a function that touches nothing else come from a state with the same
timers. -/
theorem Replays.of_timers {s₁ s₂ s₁' s₂' : RaftFSM} {l : List TimerCall} (h : Replays s₁ l s₂)
    (h₁ : s₁'.timers = s₁.timers) (h₂ : s₂'.timers = s₂.timers) : Replays s₁' l s₂' := by
  unfold Replays at h ⊢
  rw [h₁, h₂]
  exact h

theorem replays_clearPrevState (s : RaftFSM) :
    Replays s (clearPrevStateCalls s) (clearPrevState s) := by
  unfold clearPrevStateCalls clearPrevState
  cases s.role with
  | follower => rfl
  | candidate => exact (replays_stop s .election).of_timers rfl rfl
  | leader => exact (replays_stop s .heartbeat).of_timers rfl rfl

theorem replays_convertToFollower {f : RaftFSM → RaftFSM} {calls : RaftFSM → List TimerCall}
    (hf : ∀ s, Replays s (calls s) (f s)) (s : RaftFSM) :
    Replays s (convertToFollowerCalls calls s) (convertToFollower f s) := by
  unfold convertToFollowerCalls convertToFollower
  split
  · rfl
  · have hclear : Replays s (clearPrevStateCalls s) { clearPrevState s with role := .follower } :=
      (replays_clearPrevState s).of_timers rfl rfl
    have hinit := hclear.append (replays_start { clearPrevState s with role := .follower } .election)
    dsimp only
    split
    · exact hinit.append (hf _)
    · rw [List.append_nil]
      exact hinit

theorem replays_pauseScheduledTasks (s : RaftFSM) :
    Replays s (pauseScheduledTasksCalls s) (pauseScheduledTasks s) :=
  (replays_stop s .election).append (replays_stop (stopElectionTimeout s) .heartbeat)

theorem replays_call {f : RaftFSM → RaftFSM} {calls : RaftFSM → List TimerCall}
    (hf : ∀ s, Replays s (calls s) (f s)) (s : RaftFSM) (c : ApiCall) :
    Replays s (callCalls f calls s c) (call f s c) := by
  have hstay : Replays s (stayFollowerCalls f calls s) (stayFollower f s) :=
    (replays_convertToFollower hf s).append (replays_pauseScheduledTasks _)
  cases c with
  | block => exact hstay.of_timers rfl rfl
  | unblock => rfl
  | stayFollower => exact hstay

theorem replays_callback {f : RaftFSM → RaftFSM} {calls : RaftFSM → List TimerCall}
    (hf : ∀ s, Replays s (calls s) (f s)) :
    ∀ (l : List ApiCall) (s : RaftFSM), Replays s (callbackCalls f calls s l) (l.foldl (call f) s) := by
  intro l
  induction l with
  | nil => intro s; rfl
  | cons c rest ih => intro s; exact (replays_call hf s c).append (ih _)

theorem replays_signOff (cb : Callbacks) (s : RaftFSM) :
    Replays s (signOffCalls cb s) (signOff cb s) := by
  unfold signOffCalls signOff
  cases cb.onSignOffLeader with
  | none => rfl
  | some calls =>
      have hid : ∀ s : RaftFSM, Replays s [] (id s) := fun _ => rfl
      exact (replays_callback hid calls (s.emit .onSignOffLeader)).of_timers rfl rfl

theorem replays_becomeLeader (cb : Callbacks) (s : RaftFSM) :
    Replays s (becomeLeaderCalls cb s) (becomeLeader cb s) := by
  unfold becomeLeaderCalls becomeLeader
  cases cb.onBecomeLeader with
  | none => rfl
  | some calls =>
      exact (replays_callback (replays_signOff cb) calls (s.emit .onBecomeLeader)).of_timers rfl rfl

theorem replays_adoptTerm (cb : Callbacks) (s : RaftFSM) (t : UInt64) :
    Replays s (adoptTermCalls cb s t) (adoptTerm cb s t) := by
  unfold adoptTermCalls adoptTerm
  split
  · exact (replays_convertToFollower (replays_signOff cb) { s with term := t }).of_timers rfl rfl
  · rfl

theorem replays_convertToLeader (cb : Callbacks) (s : RaftFSM) :
    Replays s (convertToLeaderCalls cb s) (convertToLeader cb s) := by
  have hclear : Replays s (clearPrevStateCalls s)
      ({ incTerm (clearPrevState s) with role := .leader }.emit
        (.becameLeader (incTerm (clearPrevState s)).term)) :=
    (replays_clearPrevState s).of_timers rfl rfl
  exact (hclear.append (replays_start _ .heartbeat)).append (replays_becomeLeader cb _)

/-- The candidate's own vote and its requests leave the timers alone. -/
theorem replays_candidacy (a : Actor) (s : RaftFSM) :
    Replays s (candidacyCalls s) (candidacy a s) := by
  refine ((replays_clearPrevState s).append
    (replays_start (clearPrevState s) .election)).of_timers rfl ?_
  rw [candidacy_eq]
  rfl

theorem reply_timers {a : Actor} {s s' : RaftFSM} {serverId : UInt64} {e : NetEvent}
    (h : reply a s serverId e = .ok s') : s'.timers = s.timers := by
  obtain ⟨-, rfl⟩ := reply_eq_ok h
  rfl

theorem voteAndReply_timers {a : Actor} {s s' : RaftFSM} {serverId term : UInt64}
    (h : voteAndReply a s serverId term = .ok s') : s'.timers = s.timers := by
  obtain ⟨-, rfl⟩ := reply_eq_ok h
  rfl

theorem resetElectionTimeout_timers {s s' : RaftFSM} (h : resetElectionTimeout s = .ok s') :
    s' = { s with electionTimeoutTask := s.electionTimeoutTask.map Timer.reset } := by
  obtain ⟨t, ht, rfl⟩ := resetElectionTimeout_eq_ok h
  rw [ht]
  rfl

theorem replays_handleRequestVote {a : Actor} {s s' : RaftFSM} {serverId term : UInt64}
    (h : handleRequestVote a s serverId term = .ok s') :
    Replays s (handleRequestVoteCalls s term) s' := by
  unfold handleRequestVote at h
  unfold handleRequestVoteCalls
  split at h
  · rw [if_pos (by assumption)]
    exact (reply_timers h).symm
  · rw [if_neg (by assumption)]
    split at h
    · rw [if_pos (by assumption)]
      obtain ⟨s₁, hreset, hvote⟩ := bind_eq_ok h
      rw [resetElectionTimeout_timers hreset] at hvote
      exact (replays_reset s).of_timers rfl (voteAndReply_timers hvote)
    · rw [if_neg (by assumption)]
      exact (voteAndReply_timers h).symm

theorem replays_handleRequestVoteResponse (a : Actor) (cb : Callbacks) (s : RaftFSM)
    (serverId term : UInt64) (voteGranted : Bool) :
    Replays s (handleRequestVoteResponseCalls a cb s serverId term voteGranted)
      (handleRequestVoteResponse a cb s serverId term voteGranted) := by
  unfold handleRequestVoteResponseCalls handleRequestVoteResponse
  split
  · rfl
  · split
    · dsimp only
      split
      · exact (replays_convertToLeader cb
          { s with votedPeers := insert serverId s.votedPeers }).of_timers rfl rfl
      · rfl
    · rfl

theorem replays_handleAppendEntries {a : Actor} {cb : Callbacks} {s s' : RaftFSM}
    {serverId term : UInt64} (h : handleAppendEntries a cb s serverId term = .ok s') :
    Replays s (handleAppendEntriesCalls cb s term) s' := by
  unfold handleAppendEntries at h
  unfold handleAppendEntriesCalls
  split at h
  · rw [if_pos (by assumption)]
    exact (reply_timers h).symm
  · rw [if_neg (by assumption)]
    split at h
    · rw [if_pos (by assumption)]
      exact (reply_timers h).symm
    · rw [if_neg (by assumption)]
      obtain ⟨s₁, hreset, hrest⟩ := bind_eq_ok h
      rw [resetElectionTimeout_timers hreset] at hrest
      have hreply := reply_timers hrest
      dsimp only
      by_cases hrole : s.role = .candidate
      · rw [if_pos hrole] at hreply ⊢
        exact (replays_reset s).append
          ((replays_convertToFollower (replays_signOff cb) _).of_timers rfl hreply)
      · rw [if_neg hrole] at hreply ⊢
        exact (replays_reset s).of_timers rfl hreply

theorem replays_handleElectionTimeout (a : Actor) (cb : Callbacks) (s : RaftFSM) :
    Replays s (handleElectionTimeoutCalls s) (handleElectionTimeout a cb s) := by
  rw [handleElectionTimeout_eq]
  unfold handleElectionTimeoutCalls
  cases s.role with
  | follower => exact replays_candidacy a s
  | candidate => exact replays_candidacy a s
  | leader => rfl

/-- **The calls of `handle` do to the timers what `handle` does**, once it has its lock. -/
theorem replays_handleLocked {a : Actor} {cb : Callbacks} {s s' : RaftFSM} {event : RaftEvent}
    (h : handleLocked a cb s event = .ok s') : Replays s (handleCalls a cb s event) s' := by
  unfold handleLocked at h
  unfold handleCalls
  refine (replays_adoptTerm cb s event.getTerm).append ?_
  cases event with
  | electionTimeout =>
      rw [adoptTerm_timeout] at h ⊢
      obtain rfl := Except.ok.inj h
      exact replays_handleElectionTimeout a cb s
  | net e =>
      cases e with
      | requestVoteReq serverId term => exact replays_handleRequestVote h
      | requestVoteRes serverId term voteGranted =>
          obtain rfl := Except.ok.inj h
          exact replays_handleRequestVoteResponse a cb _ serverId term voteGranted
      | appendEntriesReq serverId term => exact replays_handleAppendEntries h
      | appendEntriesRes serverId term =>
          obtain rfl := Except.ok.inj h
          rfl

theorem replays_handle {a : Actor} {cb : Callbacks} {s s' : RaftFSM} {event : RaftEvent}
    (hblocked : s.blocked = false) (h : handle a cb s event = .ok s') :
    Replays s (handleCalls a cb s event) s' := by
  rw [handle_eq, if_neg (by simp [hblocked])] at h
  exact replays_handleLocked h

/-- A node that was started keeps its election task. -/
theorem handleLocked_task_isSome {a : Actor} {cb : Callbacks} {s s' : RaftFSM} {event : RaftEvent}
    (h : handleLocked a cb s event = .ok s') (htask : s.electionTimeoutTask.isSome = true) :
    s'.electionTimeoutTask.isSome = true := by
  have hreplay := replays_handleLocked h
  have hsome : (s.timers.task .election).isSome = true := htask
  have hkept := Timers.isSome_replay (handleCalls a cb s event) hsome
  unfold Replays at hreplay
  rw [hreplay] at hkept
  exact hkept

/-- The scheduler thread never calls back into `run_after`: an election timeout finds its
own task there, and pauses and resumes it. -/
theorem handleCalls_timeout {a : Actor} {cb : Callbacks} {s : RaftFSM} {c : TimerCall}
    (htask : s.electionTimeoutTask.isSome = true)
    (hc : c ∈ handleCalls a cb s .electionTimeout) :
    ∃ k, c = .pause k ∨ c = .resume k := by
  obtain ⟨t, ht⟩ := Option.isSome_iff_exists.mp htask
  have hadopt : adoptTermCalls cb s RaftEvent.electionTimeout.getTerm = [] := by
    unfold adoptTermCalls
    rw [if_neg (by simp [RaftEvent.getTerm])]
  simp only [handleCalls, hadopt, adoptTerm_timeout, List.nil_append, handleElectionTimeoutCalls,
    candidacyCalls, clearPrevStateCalls] at hc
  cases hrole : s.role with
  | follower =>
      simp only [hrole, clearPrevState, clearFollowerState, ht, startCalls, List.nil_append,
        List.mem_singleton] at hc
      exact ⟨_, Or.inr hc⟩
  | candidate =>
      simp only [hrole, clearPrevState, clearCandidateState, stopElectionTimeout, ht, startCalls,
        stopCalls, Timer.stop, Option.map_some, List.cons_append, List.nil_append, List.mem_cons,
        List.not_mem_nil, or_false] at hc
      exact ⟨_, hc⟩
  | leader =>
      rw [hrole] at hc
      cases hc

end RaftFSM

/-! ### The lock order -/

/-- What each thread may come to, by what it holds. -/
inductive Allowed : Thread → List Mutex → ThreadOp → Prop
  | serverEnter (e : NetEvent) (cb : Callbacks) : Allowed .server [] (.act (.enter (.net e) cb))
  | serverHandle : Allowed .server [] (.acquire .handler)
  | serverBody (e : NetEvent) (cb : Callbacks) :
      Allowed .server [.handler] (.act (.body (.net e) cb))
  | serverTouch (k : TimerKind) : Allowed .server [.handler] (.acquire (.scheduledTask k))
  | serverSchedule : Allowed .server [.handler] (.acquire .scheduler)
  | serverReplace (k : TimerKind) :
      Allowed .server [.scheduledTask k, .handler] (.acquire .scheduler)
  | pass : Allowed .scheduler [] (.acquire .scheduler)
  | call (k : TimerKind) : Allowed .scheduler [.scheduler] (.acquire (.task k))
  | check (k : TimerKind) (cb : Callbacks) :
      Allowed .scheduler [.task k, .scheduler] (.act (.check k cb))
  | timeoutEnter (k : TimerKind) (cb : Callbacks) :
      Allowed .scheduler [.task k, .scheduler] (.act (.enter .electionTimeout cb))
  | timeoutHandle (k : TimerKind) : Allowed .scheduler [.task k, .scheduler] (.acquire .handler)
  | timeoutBody (k : TimerKind) (cb : Callbacks) :
      Allowed .scheduler [.handler, .task k, .scheduler] (.act (.body .electionTimeout cb))
  | timeoutTouch (k j : TimerKind) :
      Allowed .scheduler [.handler, .task k, .scheduler] (.acquire (.scheduledTask j))
  | timer (t : Thread) (held : List Mutex) (o : TimerOp) : Allowed t held (.act (.timer o))
  | crash (t : Thread) (held : List Mutex) : Allowed t held (.act .crash)

theorem leads_server_call (c : TimerCall) :
    Leads (Allowed .server) [.handler] c.ops [.handler] := by
  cases c with
  | schedule k => exact .acquire .serverSchedule (.act (.timer ..) (.release (.done _)))
  | pause k | resume k =>
      exact .acquire (.serverTouch k) (.act (.timer ..) (.release (.done _)))
  | reset k =>
      exact .acquire (.serverTouch k) (.act (.timer ..) (.acquire (.serverReplace k)
        (.act (.timer ..) (.release (.release (.done _))))))

theorem leads_scheduler_call {c : TimerCall} {k : TimerKind} (h : ∃ j, c = .pause j ∨ c = .resume j) :
    Leads (Allowed .scheduler) [.handler, .task k, .scheduler] c.ops
      [.handler, .task k, .scheduler] := by
  obtain ⟨j, rfl | rfl⟩ := h
  · exact .acquire (.timeoutTouch k j) (.act (.timer ..) (.release (.done _)))
  · exact .acquire (.timeoutTouch k j) (.act (.timer ..) (.release (.done _)))

theorem leads_pass (cb : Callbacks) (due : List TimerKind) :
    Leads (Allowed .scheduler) [] (passOps cb due) [] := by
  have hfire : ∀ k ∈ due, Leads (Allowed .scheduler) [.scheduler] (fireOps cb k) [.scheduler] := by
    intro k _
    exact .acquire (.call k) (.act (.check k cb) (.release (.acquire (.call k)
      (.release (.done _)))))
  exact .acquire .pass ((Leads.flatMap hfire).append (.release (.done _)))

section Expand

variable {t : Thread} {held : List Mutex} {rest : List ThreadOp} {cb : Callbacks}

theorem leads_check {k : TimerKind} (h : Allowed t held (.act (.check k cb)))
    (hrest : Leads (Allowed t) held rest []) :
    Leads (Allowed t) held (callableOps cb k ++ rest) [] := by
  cases h with
  | check =>
      cases k with
      | election => exact .act (.timeoutEnter _ cb) hrest
      | heartbeat => exact hrest

theorem leads_enter {event : RaftEvent} (h : Allowed t held (.act (.enter event cb)))
    (hrest : Leads (Allowed t) held rest []) :
    Leads (Allowed t) held (handleOps event cb ++ rest) [] := by
  cases h with
  | serverEnter e => exact .acquire .serverHandle (.act (.serverBody e cb) (.release hrest))
  | timeoutEnter k => exact .acquire (.timeoutHandle k) (.act (.timeoutBody k cb) (.release hrest))

theorem leads_body {a : Actor} {s : RaftFSM} {event : RaftEvent}
    (htask : s.electionTimeoutTask.isSome = true) (h : Allowed t held (.act (.body event cb)))
    (hrest : Leads (Allowed t) held rest []) :
    Leads (Allowed t) held ((s.handleCalls a cb event).flatMap TimerCall.ops ++ rest) [] := by
  cases h with
  | serverBody e =>
      exact (Leads.flatMap fun c _ => leads_server_call c).append hrest
  | timeoutBody k =>
      refine (Leads.flatMap fun c hc => ?_).append hrest
      exact leads_scheduler_call (RaftFSM.handleCalls_timeout htask hc)

end Expand

end Raft
