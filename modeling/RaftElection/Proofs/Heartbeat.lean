/-
Where heartbeats come from.

The heartbeat callable runs on the scheduler thread and takes no lock of the state
machine: it is entered by a leader, then reads `term_` once for each peer.  A
message of a higher term that is handled in between demotes the node and raises its
term, and the loop goes on with the term of somebody else.  Where no such message
arrives while a loop has peers left, the term of the loop is the one the node began
it with, and every heartbeat is a leader's.
-/
import RaftElection.Proofs.Election
import RaftElection.Proofs.Timers

namespace Raft.RaftFSM

variable {a : Actor} {P : UInt64 → UInt64 → Prop}

/-! ### The heartbeat timer is a leader's -/

/-- The heartbeat timer can fire only in a leader. -/
def LeaderPaced (s : RaftFSM) : Prop := Timer.Live s.heartbeatTask → s.role = .leader

theorem LeaderPaced.leave {s : RaftFSM} (h : LeaderPaced s) : LeaderPaced (leave s) := by
  intro hlive
  rw [leave_heartbeatTask] at hlive
  split at hlive
  · exact absurd hlive (Timer.not_live_stop _)
  · exact absurd (h hlive) (by assumption)

theorem LeaderPaced.move {s s' : RaftFSM} (hm : Move a P s s') (h : LeaderPaced s) :
    LeaderPaced s' := by
  cases hm with
  | callback | setBlocked | reset | refuse | vote | acknowledge | count => exact h
  | pause => exact fun hlive => absurd hlive (Timer.not_live_stop _)
  | adopt t hlt => exact LeaderPaced.leave h
  | leave => exact h.leave
  | lead => exact fun _ => rfl

theorem LeaderPaced.candidacy {s : RaftFSM} (hrole : s.role ≠ .leader) (h : LeaderPaced s) :
    LeaderPaced (candidacy a s) := by
  intro hlive
  rw [candidacy_heartbeatTask hrole] at hlive
  exact absurd (h hlive) hrole

theorem LeaderPaced.step {n n' : Node} {act : NodeAction} (hstep : n.step a act = some n')
    (h : LeaderPaced n.fsm) : LeaderPaced n'.fsm :=
  (Node.step_change_any hstep).invariant (fun _ _ hm hs => hs.move hm) (fun _ _ hs => hs)
    (fun hrole _ hs => hs.candidacy hrole) (fun _ _ hs => hs) h

/-! ### Steps that keep the term

The loop reads the term for each peer anew, so what may happen between two of its sends is what
leaves the term alone.
-/

/-- Outside a candidacy, an event of no higher term changes neither role nor term. -/
theorem handle_keeps_term {cb : Callbacks} {s s' : RaftFSM} {e : NetEvent}
    (hrole : s.role ≠ .candidate) (hle : s.blocked = false → e.getTerm ≤ s.term)
    (h : handle a cb s (.net e) = .ok s') : s'.role = s.role ∧ s'.term = s.term := by
  rw [handle_eq] at h
  split at h
  · obtain rfl := Except.ok.inj h
    exact ⟨rfl, rfl⟩
  · rename_i hblocked
    refine (handleLocked_turns h).invariant
      (I := fun s' => s'.role = s.role ∧ s'.term = s.term) ?_ ⟨rfl, rfl⟩
    intro s₁ s₂ hturn hs₁
    obtain ⟨hrole₁, hterm₁⟩ := hs₁
    cases hturn with
    | adopt hlt =>
        rw [hterm₁] at hlt
        exact absurd hlt (UInt64.not_lt.mpr (hle (by simpa using hblocked)))
    | reset | refuse | vote | acknowledge => exact ⟨hrole₁, hterm₁⟩
    | stepDown hc | count id hc | lead hc => exact absurd (hrole₁.symm.trans hc) hrole

/-- A call keeps the term and makes no candidate. -/
theorem call_keeps_term (cb : Callbacks) (s : RaftFSM) (c : ApiCall) (hrole : s.role ≠ .candidate) :
    (call (signOff cb) s c).role ≠ .candidate ∧ (call (signOff cb) s c).term = s.term := by
  obtain ⟨s₁, hquiet, heq⟩ := stayFollower_eq cb s
  have hstay : (stayFollower (signOff cb) s).role ≠ .candidate ∧
      (stayFollower (signOff cb) s).term = s.term := by
    refine ⟨by simp [(Parked.stayFollower cb s).role], ?_⟩
    rw [heq]
    exact hquiet.term.trans (leave_term s)
  cases c with
  | block => exact hstay
  | unblock => exact ⟨hrole, rfl⟩
  | stayFollower => exact hstay

/-! ### What a heartbeat says -/

/-- Every heartbeat carries this server's id and a term it had entered as leader. -/
def Stamped (a : Actor) (trace : List Entry) : Prop :=
  ∀ peer id T older, (.sent peer (.appendEntriesReq id T) :: older) <:+ trace →
    id = a.self ∧ .becameLeader T ∈ older

theorem Stamped.append (new : List Entry) {trace : List Entry} (h : Stamped a trace)
    (hnew : ∀ peer id T, .sent peer (.appendEntriesReq id T) ∉ new) :
    Stamped a (new ++ trace) := by
  intro peer id T older hsuffix
  exact h peer id T older (suffix_of_not_mem hsuffix (hnew peer id T))

theorem Stamped.move {s s' : RaftFSM} (hm : Move a P s s') (h : Stamped a s.trace) :
    Stamped a s'.trace := by
  cases hm with
  | setBlocked | pause | reset | count => exact h
  | adopt | leave =>
      rw [leave_trace]
      exact h
  | callback o ho => exact h.append [o] (by grind)
  | refuse | vote | acknowledge => exact h.append [_] (by simp)
  | lead => exact h.append [.becameLeader (s.term + 1)] (by simp)

end Raft.RaftFSM

namespace Raft.Node

open RaftFSM

variable {a : Actor} {n n' : Node} {act : NodeAction}

/-- The heartbeat loop has peers left. -/
def Looping (n : Node) : Prop := ∃ peer rest, n.pc = .beating (peer :: rest)

/-- No message of a higher term is handled while a heartbeat loop is under way. -/
def LoopUndisturbed (n : Node) : NodeAction → Prop
  | .deliver e _ => n.fsm.blocked = true ∨ n.pc = .idle ∨ n.pc = .timingOut ∨
      e.getTerm ≤ n.fsm.term
  | _ => True

instance (n : Node) (act : NodeAction) : Decidable (LoopUndisturbed n act) := by
  unfold LoopUndisturbed
  split <;> infer_instance

theorem LoopUndisturbed.getTerm_le {e : NetEvent} {cb : Callbacks} (hloop : Looping n)
    (h : LoopUndisturbed n (.deliver e cb)) (hblocked : n.fsm.blocked = false) :
    e.getTerm ≤ n.fsm.term := by
  obtain ⟨peer, rest, hpc⟩ := hloop
  rcases h with h | h | h | h
  · exact absurd (hblocked.symm.trans h) (by decide)
  · exact absurd (hpc.symm.trans h) (by simp)
  · exact absurd (hpc.symm.trans h) (by simp)
  · exact h

/-- The node is in a term it entered as leader, and no candidate. -/
def OwnTerm (s : RaftFSM) : Prop := s.role ≠ .candidate ∧ .becameLeader s.term ∈ s.trace

theorem OwnTerm.of_same {s s' : RaftFSM} (h : OwnTerm s) (hrole : s'.role ≠ .candidate)
    (hterm : s'.term = s.term) (htrace : s.trace <:+ s'.trace) : OwnTerm s' := by
  refine ⟨hrole, ?_⟩
  rw [hterm]
  exact htrace.subset h.2

/-- While the loop runs, its term stays the one it was begun with. -/
theorem OwnTerm.step (hloop : Looping n) (hcalm : LoopUndisturbed n act) (h : OwnTerm n.fsm)
    (hstep : n.step a act = some n') : OwnTerm n'.fsm := by
  have hgrows := trace_step hstep
  cases step_change_any hstep with
  | delivered e cb s' hhandle hmoves =>
      have hle : (n.fsm.emit (.received e)).blocked = false → e.getTerm ≤ n.fsm.term :=
        hcalm.getTerm_le hloop
      obtain ⟨hrole, hterm⟩ := handle_keeps_term (s := n.fsm.emit (.received e)) h.1 hle hhandle
      exact h.of_same (by rw [hrole]; exact h.1) hterm hgrows
  | expired | ignored | began => exact h
  | stood cb hpc =>
      obtain ⟨peer, rest, hbeat⟩ := hloop
      exact absurd (hbeat.symm.trans hpc) (by simp)
  | sent => exact h.of_same h.1 rfl hgrows
  | called c cb =>
      obtain ⟨hrole, hterm⟩ := call_keeps_term cb n.fsm c h.1
      exact h.of_same hrole hterm hgrows

/-- What holds of a node's heartbeats. -/
structure Paced (a : Actor) (n : Node) : Prop where
  timer : LeaderPaced n.fsm
  loop : Looping n → OwnTerm n.fsm
  stamped : Stamped a n.fsm.trace

theorem Paced.started : Paced a {} := by
  refine ⟨fun hlive => absurd hlive Timer.not_live_none, ?_, ?_⟩
  · intro hsending
    obtain ⟨peer, rest, hpc⟩ := hsending
    cases hpc
  · intro peer id T older hsuffix
    exact absurd (List.eq_nil_of_suffix_nil hsuffix) (by simp)

theorem Paced.stamped_step (h : Paced a n) (hstep : n.step a act = some n') :
    Stamped a n'.fsm.trace := by
  cases step_change_any hstep with
  | delivered e cb s' hhandle hmoves =>
      exact hmoves.invariant (I := fun s => Stamped a s.trace) (fun _ _ hm hs => hs.move hm)
        (h.stamped.append [.received e] (by simp))
  | expired | ignored | began => exact h.stamped
  | stood =>
      rw [candidacy_trace]
      refine h.stamped.append _ ?_
      intro peer id T hmem
      rw [mem_candidacyEntries] at hmem
      grind
  | sent peer rest hpc =>
      intro peer' id T older hsuffix
      rcases List.suffix_cons_iff.mp hsuffix with heq | hold
      · obtain ⟨hsent, rfl⟩ := List.cons.inj heq
        obtain ⟨-, hreq⟩ := Entry.sent.inj hsent
        obtain ⟨rfl, rfl⟩ := NetEvent.appendEntriesReq.inj hreq
        exact ⟨rfl, (h.loop ⟨peer, rest, hpc⟩).2⟩
      · exact h.stamped peer' id T older hold
  | called c cb =>
      exact (call_moves (a := a) (P := fun _ _ => True) cb n.fsm c).invariant
        (I := fun s => Stamped a s.trace) (fun _ _ hm hs => hs.move hm) h.stamped

theorem Paced.step (hleading : n.fsm.role = .leader → .becameLeader n.fsm.term ∈ n.fsm.trace)
    (h : Paced a n) (hstep : n.step a act = some n') (hcalm : LoopUndisturbed n act) :
    Paced a n' := by
  refine ⟨h.timer.step hstep, ?_, h.stamped_step hstep⟩
  intro hloop'
  by_cases hloop : Looping n
  · exact (h.loop hloop).step hloop hcalm hstep
  · -- the loop begins with this step, and only a leader begins one
    cases step_change_any hstep with
    | delivered | called => exact absurd hloop' hloop
    | expired | ignored | stood =>
        obtain ⟨peer, rest, hpc⟩ := hloop'
        cases hpc
    | began hpc hlive =>
        have hrole := h.timer hlive
        exact ⟨by simp [hrole], hleading hrole⟩
    | sent peer rest hpc => exact absurd ⟨peer, rest, hpc⟩ hloop

end Raft.Node

namespace Raft.Cluster

open Transition RaftFSM Node

variable {peers : PeerMap} {c : Cluster peers}

/-! ### Heartbeats in a cluster -/

/-- No node handles a message of a higher term in the middle of a heartbeat loop. -/
def LoopsUndisturbed (c : Cluster peers) (x : Member peers × NodeAction) (_ : Cluster peers) :
    Prop :=
  LoopUndisturbed (c x.1) x.2

instance (c : Cluster peers) (x : Member peers × NodeAction) (c' : Cluster peers) :
    Decidable (LoopsUndisturbed c x c') :=
  inferInstanceAs (Decidable (LoopUndisturbed _ _))

theorem paced_of_reachable (h : ((clusterSystem peers).restrict LoopsUndisturbed).Reachable c)
    (i : Member peers) : Paced i.actor (c i) := by
  refine h.invariant (I := fun c => ∀ i : Member peers, Paced i.actor (c i)) ?_ ?_ i
  · intro c₀ hinit i
    subst hinit
    exact Paced.started
  · intro c x c' hreach hc hstep
    obtain ⟨hstep, hcalm⟩ := hstep
    have hsound : Sound c := sound_of_reachable hreach.unrestrict
    exact forall_step (p := fun i n => Paced i.actor n) hstep hc
      fun _ _ hn' => (hc x.1).step (hsound.backed x.1).leading hn' hcalm

/-- **Heartbeats are authentic, where their loops are left alone.**  Every one ever sent
carries the id of its sender and a term that this server had entered as leader
before; so in each term at most one server sends any. -/
theorem heartbeats_authentic (h : ((clusterSystem peers).restrict LoopsUndisturbed).Reachable c) :
    (∀ i : Member peers, Stamped i.actor (c i).fsm.trace) ∧
    ∀ (i j : Member peers) (p q s s' T : UInt64),
      .sent p (.appendEntriesReq s T) ∈ (c i).fsm.trace →
        .sent q (.appendEntriesReq s' T) ∈ (c j).fsm.trace → s = s' := by
  have hstamped : ∀ i : Member peers, Stamped i.actor (c i).fsm.trace :=
    fun i => (paced_of_reachable h i).stamped
  have hled : ∀ (i : Member peers) (p s T : UInt64),
      .sent p (.appendEntriesReq s T) ∈ (c i).fsm.trace → s = i.1 ∧ HasLed c i T := by
    intro i p s T hmem
    obtain ⟨newer, older, htrace⟩ := List.append_of_mem hmem
    have hsuffix : (.sent p (.appendEntriesReq s T) :: older) <:+ (c i).fsm.trace :=
      ⟨newer, htrace.symm⟩
    obtain ⟨hs, hbecame⟩ := hstamped i p s T older hsuffix
    exact ⟨hs, Or.inr (hsuffix.subset (List.mem_cons_of_mem _ hbecame))⟩
  refine ⟨hstamped, ?_⟩
  intro i j p q s s' T hi hj
  have hsound : Sound c := sound_of_reachable h.unrestrict
  obtain ⟨rfl, hledi⟩ := hled i p s T hi
  obtain ⟨rfl, hledj⟩ := hled j q s' T hj
  exact (hledi.wins hsound).unique (hledj.wins hsound)

/-- Server 1 leads in term 2 and server 3 has stood up to term 3. -/
def leaderAndRival : List (Member threeServers × NodeAction) :=
  timesOut ThreeServers.one ++ canvasses ThreeServers.one 1 [ThreeServers.two] ++
    timesOut ThreeServers.three ++ timesOut ThreeServers.three ++ timesOut ThreeServers.three ++
    [(ThreeServers.one, .beat), (ThreeServers.one, .sendHeartbeat),
      (ThreeServers.one, .sendHeartbeat), (ThreeServers.three, .deliver (.appendEntriesReq 1 2) {}),
      (ThreeServers.one, .beat), (ThreeServers.one, .sendHeartbeat)]

theorem heartbeats_authentic_of_three :
    ∃ c : Cluster threeServers,
      .sent 2 (.appendEntriesReq 1 2) ∈ (c ThreeServers.one).fsm.trace ∧
        ∀ (j : Member threeServers) (q s : UInt64),
          .sent q (.appendEntriesReq s 2) ∈ (c j).fsm.trace → 1 = s := by
  obtain ⟨c, hc, hsent⟩ := System.Reachable.of_execute (fun _ => {}) Cluster.step LoopsUndisturbed
    leaderAndRival (fun c => .sent 2 (.appendEntriesReq 1 2) ∈ (c ThreeServers.one).fsm.trace)
    (by decide +kernel)
  exact ⟨c, hsent, fun j q s hj => (heartbeats_authentic hc).2 _ j 2 q 1 s 2 hsent hj⟩

/-- In the middle of its second loop server 1 hears of term 3 from server 3, and sends
the rest of its heartbeats in that term. -/
theorem heartbeat_of_foreign_term :
    ∃ c : Cluster threeServers, (clusterSystem threeServers).Reachable c ∧
      ¬ Stamped ThreeServers.one.actor (c ThreeServers.one).fsm.trace := by
  obtain ⟨c, hc, hhead, hnever⟩ := System.Reachable.of_execute (fun _ => {}) Cluster.step
    (fun _ _ _ => True)
    (leaderAndRival ++ [(ThreeServers.one, .deliver (.appendEntriesRes 3 3) {}),
      (ThreeServers.one, .sendHeartbeat)])
    (fun c => (c ThreeServers.one).fsm.trace.head? = some (.sent 3 (.appendEntriesReq 1 3)) ∧
      .becameLeader 3 ∉ (c ThreeServers.one).fsm.trace) (by decide +kernel)
  refine ⟨c, hc.unrestrict, ?_⟩
  intro hstamped
  obtain ⟨older, htrace⟩ := List.head?_eq_some_iff.mp hhead
  rw [htrace] at hstamped hnever
  exact hnever (List.mem_cons_of_mem _ (hstamped 3 1 3 older (List.suffix_refl _)).2)

end Raft.Cluster
