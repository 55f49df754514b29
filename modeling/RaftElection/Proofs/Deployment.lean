/-
A deployment is a cluster.

Whatever the connections do, a server is only ever handed messages that were sent to it.  So
the nodes of a deployment take the steps of a cluster, and the bytes, the frames and the
pools below them cannot be told from the network that `Cluster.lean` assumes
(`refines_cluster`).  What holds of every run of a cluster holds here, election safety among
it.

The hosts have to agree on the order of bytes, the two threads of a node must not write into
each other's frames, nor on a connection on which a write has failed, and ids and terms have to
be such as survive the receiver's `char`.
-/
import RaftElection.Deployment
import RaftElection.Proofs.Election
import RaftElection.Proofs.Exchange

namespace Raft

open Transition RaftFSM RaftEventFactory Sequences

namespace Channel

variable {τ : Type} {sender receiver : Host} {c c' : Channel τ} {x : ChannelAction τ}

/-! ### One channel -/

theorem get_asked (c : Channel τ) (connects : Bool) : (c.get connects).1.asked = c.asked := by
  unfold get
  split
  · rfl
  · split <;> rfl

variable [DecidableEq τ]

/-- Only `Client::send` is asked to send anything. -/
theorem asked_of_step (hsend : ∀ t data connects, x ≠ .send t data connects)
    (hstep : c.step sender receiver x = some c') : c'.asked = c.asked := by
  cases x with
  | send t data connects => exact absurd rfl (hsend t data connects)
  | writeSome t n =>
      obtain ⟨w, -, hstep⟩ := Option.bind_eq_some_iff.mp hstep
      obtain ⟨k, -, hstep⟩ := Option.bind_eq_some_iff.mp hstep
      obtain ⟨-, hc'⟩ := Option.ite_none_right_eq_some.mp hstep
      obtain rfl := Option.some.inj hc'
      rfl
  | fail t =>
      obtain ⟨w, -, hstep⟩ := Option.bind_eq_some_iff.mp hstep
      obtain ⟨k, -, hstep⟩ := Option.bind_eq_some_iff.mp hstep
      obtain rfl := Option.some.inj hstep
      rfl
  | lose l keep =>
      obtain ⟨k, -, hstep⟩ := Option.bind_eq_some_iff.mp hstep
      obtain rfl := Option.some.inj hstep
      rfl
  | arrive l n | read l =>
      obtain ⟨k, -, hstep⟩ := Option.bind_eq_some_iff.mp hstep
      obtain ⟨-, hc'⟩ := Option.ite_none_right_eq_some.mp hstep
      obtain rfl := Option.some.inj hc'
      rfl

theorem enter_asked (c : Channel τ) (t : τ) (data : List Byte) (link : Option Nat) :
    (c.enter t data link).asked = c.asked := by
  cases link <;> rfl

/-- A call of `Client::send` adds its message to those of its thread. -/
theorem asked_of_send {t : τ} {data : List Byte} {connects : Bool}
    (hstep : c.step sender receiver (.send t data connects) = some c') :
    c'.asked = Function.update c.asked t (c.asked t ++ [data]) := by
  obtain ⟨-, hc'⟩ := Option.ite_none_right_eq_some.mp hstep
  obtain rfl := Option.some.inj hc'
  rw [send, enter_asked, get_asked]

/-- What has been received was sent. -/
theorem Sound.received_asked (h : Sound sender receiver c) {data : List Byte}
    (hdata : data ∈ c.received) : ∃ t, data ∈ c.asked t := by
  have hmem : data ∈ c.deliveries.map Prod.snd := by
    rw [h.deliveries_map]
    exact h.perm.subset hdata
  obtain ⟨⟨t, data'⟩, hdelivery, rfl⟩ := List.mem_map.mp hmem
  exact ⟨t, (h.deliveries_sublist t).subset (mem_mine hdelivery)⟩

end Channel

namespace Deployment

open Cluster (Admissible)

variable {peers : PeerMap} {host : Member peers → Host} {d d' d₁ d₂ : Deployment peers}
  {i j : Member peers} {t : NodeThread}

/-! ### Everything that is under way was sent

Between the call of `send` in a handler and the call of `handle` at the receiver a message is in
an outbox, in a channel, or received and not yet handled.  Wherever it is, the sender's trace has
it, and with that its delivery is a step of the cluster.
-/

/-- Node `i` has sent `e` to `j`. -/
def Sent (d : Deployment peers) (i j : Member peers) (e : NetEvent) : Prop :=
  .sent j.1 e ∈ (d.nodes i).fsm.trace

theorem mem_messages {s s' : RaftFSM} {m : Member peers × NetEvent}
    (hm : m ∈ messages peers s s') : .sent m.1.1 m.2 ∈ s'.trace := by
  obtain ⟨o, ho, hsent⟩ := List.mem_filterMap.mp hm
  have htrace : o ∈ s'.trace := List.mem_of_mem_take (List.mem_reverse.mp ho)
  split at hsent
  · split at hsent
    · obtain rfl := Option.some.inj hsent
      exact htrace
    · cases hsent
  · cases hsent

/-- The threads of a node write one after another and not where a write has failed, and what is
sent comes through whole. -/
def Tidy (host : Member peers → Host) (d : Deployment peers) (x : DeploymentAction peers)
    (_ : Deployment peers) : Prop :=
  match x with
  | .transmit i t _ => ∀ m ∈ (d.outbox i t).head?, m.2.arrived (host m.1) = m.2
  | .carry i j x => (d.channel i j).Apart x
  | .act .. | .read .. => True

/-- The nodes are a cluster, and what is on its way between them is what they sent. -/
structure Carried (host : Member peers → Host) (d : Deployment peers) : Prop where
  nodes : (clusterSystem peers).Reachable d.nodes
  channels : ∀ i j, ((channelSystem (host i) (host j) NodeThread).restrict
    (Channel.Exchange (host i))).Reachable (d.channel i j)
  outbox : ∀ i t m, m ∈ d.outbox i t → d.Sent i m.1 m.2
  asked : ∀ i j t data, data ∈ (d.channel i j).asked t →
    ∃ e, data = NetEvent.encode (host i) e ∧ e.arrived (host j) = e ∧ d.Sent i j e

theorem outbox_setOutbox (l : List (Member peers × NetEvent)) (k : Member peers)
    (t' : NodeThread) : (d.setOutbox i t l).outbox k t'
      = if k = i ∧ t' = t then l else d.outbox k t' := by
  show Function.update d.outbox i (Function.update (d.outbox i) t l) k t' = _
  by_cases hk : k = i
  · subst hk
    rw [Function.update_self, Function.update_apply]
    simp
  · rw [Function.update_of_ne hk, if_neg (fun hboth => hk hboth.1)]

theorem mem_setOutbox {l : List (Member peers × NetEvent)} {k : Member peers} {t' : NodeThread}
    {m : Member peers × NetEvent} (hm : m ∈ (d.setOutbox i t l).outbox k t') :
    m ∈ d.outbox k t' ∨ k = i ∧ m ∈ l := by
  rw [outbox_setOutbox] at hm
  split at hm
  · rename_i hboth
    exact Or.inr ⟨hboth.1, hm⟩
  · exact Or.inl hm

/-- What holds of every channel, and of the one that changes after its change. -/
theorem forall_setChannel {p : Member peers → Member peers → Channel NodeThread → Prop}
    {c : Channel NodeThread} (hold : ∀ k l, p k l (d.channel k l)) (hnew : p i j c) :
    ∀ k l, p k l ((d.setChannel i j c).channel k l) := by
  intro k l
  show p k l (Function.update d.channel i (Function.update (d.channel i) j c) k l)
  by_cases hk : k = i
  · subst hk
    rw [Function.update_self]
    by_cases hl : l = j
    · subst hl
      rw [Function.update_self]
      exact hnew
    · rw [Function.update_of_ne hl]
      exact hold k l
  · rw [Function.update_of_ne hk]
    exact hold k l

/-- What a step of a node does to the deployment. -/
theorem actNode_eq_some {x : NodeAction} (h : d.actNode i x = some d') :
    ∃ n, (d.nodes i).step i.actor x = some n ∧ d'.nodes = Function.update d.nodes i n ∧
      d'.channel = d.channel ∧ ∀ k t m, m ∈ d'.outbox k t →
        m ∈ d.outbox k t ∨ k = i ∧ m ∈ messages peers (d.nodes i).fsm n.fsm := by
  obtain ⟨n, hn, h⟩ := Option.bind_eq_some_iff.mp h
  refine ⟨n, hn, ?_⟩
  dsimp only at h
  split at h
  · obtain rfl := Option.some.inj h
    exact ⟨rfl, rfl, fun _ _ _ hm => Or.inl hm⟩
  · rename_i t ht
    obtain ⟨-, h⟩ := Option.ite_none_right_eq_some.mp h
    obtain rfl := Option.some.inj h
    exact ⟨rfl, rfl, fun _ _ _ hm => mem_setOutbox hm⟩

theorem Carried.actNode {x : NodeAction} (h : Carried host d) (hadm : Admissible d.nodes i x)
    (hact : d.actNode i x = some d') :
    Carried host d' ∧ d.nodes.step (i, x) = some d'.nodes := by
  obtain ⟨n, hn, hnodes, hchannel, houtbox⟩ := actNode_eq_some hact
  have hstep : d.nodes.step (i, x) = some d'.nodes := by
    rw [hnodes, Cluster.step, if_pos hadm, hn]
    rfl
  have hgrow : ∀ {k j e}, d.Sent k j e → d'.Sent k j e :=
    fun hsent => (Cluster.trace_suffix hstep _).subset hsent
  refine ⟨⟨h.nodes.tail hstep, ?_, ?_, ?_⟩, hstep⟩
  · rw [hchannel]
    exact h.channels
  · intro k t m hm
    rcases houtbox k t m hm with hold | ⟨rfl, hnew⟩
    · exact hgrow (h.outbox k t m hold)
    · rw [Sent, hnodes, Function.update_self]
      exact mem_messages hnew
  · intro k j t data hdata
    rw [hchannel] at hdata
    obtain ⟨e, he, harrived, hsent⟩ := h.asked k j t data hdata
    exact ⟨e, he, harrived, hgrow hsent⟩

theorem Carried.setChannel (h : Carried host d) {c : Channel NodeThread}
    (hreach : ((channelSystem (host i) (host j) NodeThread).restrict
      (Channel.Exchange (host i))).Reachable c)
    (hasked : ∀ t data, data ∈ c.asked t →
      ∃ e, data = NetEvent.encode (host i) e ∧ e.arrived (host j) = e ∧ d.Sent i j e) :
    Carried host (d.setChannel i j c) := by
  refine ⟨h.nodes, forall_setChannel (p := fun k l c => ((channelSystem (host k) (host l)
    NodeThread).restrict (Channel.Exchange (host k))).Reachable c) h.channels hreach, h.outbox, ?_⟩
  exact forall_setChannel (p := fun k l c => ∀ t data, data ∈ c.asked t →
    ∃ e, data = NetEvent.encode (host k) e ∧ e.arrived (host l) = e ∧ d.Sent k l e) h.asked hasked

/-- A step of a channel in which nothing new is sent. -/
theorem Carried.channelStep {x : ChannelAction NodeThread} (h : Carried host d)
    (hsend : ∀ t data connects, x ≠ .send t data connects) (hapart : (d.channel i j).Apart x)
    (hstep : d.channelStep host i j x = some d') : Carried host d' ∧ d'.nodes = d.nodes := by
  obtain ⟨c, hc, rfl⟩ := Option.map_eq_some_iff.mp hstep
  have hsends : Channel.SendsEvents (host i) x := by
    cases x with
    | send t data connects => exact absurd rfl (hsend t data connects)
    | writeSome | fail | arrive | lose | read => trivial
  refine ⟨h.setChannel ((h.channels i j).tail ⟨hc, hapart, hsends⟩) ?_, rfl⟩
  rw [Channel.asked_of_step hsend hc]
  exact h.asked i j

/-- A message leaves the outbox for its channel. -/
theorem Carried.transmit (h : Carried host d) {m : Member peers × NetEvent}
    {rest : List (Member peers × NetEvent)} {connects : Bool} (hout : d.outbox i t = m :: rest)
    (harrived : m.2.arrived (host m.1) = m.2)
    (hstep : (d.setOutbox i t rest).channelStep host i m.1
      (.send t (m.2.encode (host i)) connects) = some d') :
    Carried host d' ∧ d'.nodes = d.nodes := by
  obtain ⟨c, hc, rfl⟩ := Option.map_eq_some_iff.mp hstep
  have hhead : d.Sent i m.1 m.2 := h.outbox i t m (by rw [hout]; exact List.mem_cons_self)
  have hrest : Carried host (d.setOutbox i t rest) := by
    refine ⟨h.nodes, h.channels, ?_, h.asked⟩
    intro k t' m' hm'
    rcases mem_setOutbox hm' with hold | ⟨rfl, hnew⟩
    · exact h.outbox k t' m' hold
    · exact h.outbox k t m' (by rw [hout]; exact List.mem_cons_of_mem m hnew)
  refine ⟨hrest.setChannel ((h.channels i m.1).tail ⟨hc, trivial, m.2, rfl⟩) ?_, rfl⟩
  intro t' data hdata
  rw [Channel.asked_of_send hc] at hdata
  by_cases ht : t' = t
  · subst ht
    rw [Function.update_self, List.mem_append, List.mem_singleton] at hdata
    rcases hdata with hold | rfl
    · exact h.asked i m.1 t' data hold
    · exact ⟨m.2, rfl, harrived, hhead⟩
  · rw [Function.update_of_ne ht] at hdata
    exact h.asked i m.1 t' data hdata

/-- **What a channel delivers to a server was sent to it**, in the shape in which it arrives. -/
theorem Carried.received_sent (h : Carried host d)
    (hhosts : (host i).bigEndian = (host j).bigEndian) {e : NetEvent}
    (he : e ∈ (d.channel i j).received.filterMap (onMessage (host j))) : d.Sent i j e := by
  obtain ⟨data, hdata, hdecoded⟩ := List.mem_filterMap.mp he
  have hsound : Channel.Sound (host i) (host j) (d.channel i j) :=
    Channel.sound_of_reachable ((h.channels i j).weaken fun _ _ _ hx => hx.orderly hhosts)
  obtain ⟨t, hasked⟩ := hsound.received_asked hdata
  obtain ⟨e', rfl, harrived, hsent⟩ := h.asked i j t data hasked
  rw [onMessage_encode hhosts, harrived] at hdecoded
  obtain rfl := Option.some.inj hdecoded
  exact hsent

/-- The server handles what its connection has delivered. -/
theorem Carried.handleNext (h : Carried host d)
    (hhosts : (host i).bigEndian = (host j).bigEndian) {old : Nat} {cb : Callbacks}
    (hstep : d.handleNext j cb
      (((d.channel i j).received.drop old).filterMap (onMessage (host j))) = some d') :
    Carried host d' ∧ (d'.nodes = d.nodes ∨ ∃ y, d.nodes.step y = some d'.nodes) := by
  unfold Deployment.handleNext at hstep
  split at hstep
  · obtain rfl := Option.some.inj hstep
    exact ⟨h, Or.inl rfl⟩
  · rename_i e rest hevents
    have he : e ∈ (d.channel i j).received.filterMap (onMessage (host j)) := by
      refine ((List.drop_sublist old _).filterMap _).subset ?_
      rw [hevents]
      exact List.mem_cons_self
    obtain ⟨hcarried, hnodes⟩ := h.actNode (x := .deliver e cb)
      ⟨i, h.received_sent hhosts he⟩ hstep
    exact ⟨hcarried, Or.inr ⟨_, hnodes⟩⟩

/-- **Each step of a deployment is a step of its cluster, or none.** -/
theorem Carried.step (h : Carried host d)
    (hhosts : ∀ i j, (host i).bigEndian = (host j).bigEndian) {x : DeploymentAction peers}
    (hstep : d.step host x = some d') (htidy : Tidy host d x d') :
    Carried host d' ∧ (d'.nodes = d.nodes ∨ ∃ y, d.nodes.step y = some d'.nodes) := by
  cases x with
  | act i x =>
      have hadm : Admissible d.nodes i x ∧ d.actNode i x = some d' := by
        cases x with
        | deliver e cb => cases hstep
        | expire | timeout | beat | sendHeartbeat | api => exact ⟨trivial, hstep⟩
      obtain ⟨hcarried, hnodes⟩ := h.actNode hadm.1 hadm.2
      exact ⟨hcarried, Or.inr ⟨_, hnodes⟩⟩
  | transmit i t connects =>
      simp only [Deployment.step] at hstep
      split at hstep
      · cases hstep
      · rename_i j e rest hout
        obtain ⟨-, hstep⟩ := Option.ite_none_right_eq_some.mp hstep
        have harrived : e.arrived (host j) = e := htidy (j, e) (by rw [hout]; rfl)
        obtain ⟨hcarried, hnodes⟩ := h.transmit (m := (j, e)) hout harrived hstep
        exact ⟨hcarried, Or.inl hnodes⟩
  | carry i j x =>
      have hplain : (∀ t data connects, x ≠ .send t data connects) ∧
          d.channelStep host i j x = some d' := by
        cases x with
        | send | read => cases hstep
        | writeSome | fail | arrive | lose => exact ⟨by simp, hstep⟩
      obtain ⟨hcarried, hnodes⟩ := h.channelStep hplain.1 htidy hplain.2
      exact ⟨hcarried, Or.inl hnodes⟩
  | read i j link cb =>
      obtain ⟨-, hstep⟩ := Option.ite_none_right_eq_some.mp hstep
      obtain ⟨d₁, hread, hstep⟩ := Option.bind_eq_some_iff.mp hstep
      obtain ⟨hcarried, hnodes⟩ := h.channelStep (x := .read link) (by simp) trivial hread
      rw [← hnodes]
      exact hcarried.handleNext (hhosts i j) hstep

/-! ### Runs -/

theorem carried_of_reachable (hhosts : ∀ i j, (host i).bigEndian = (host j).bigEndian)
    (h : ((deploymentSystem peers host).restrict (Tidy host)).Reachable d) : Carried host d := by
  refine h.invariant ?_ fun d₁ x d₂ _ hd₁ hmove => (hd₁.step hhosts hmove.1 hmove.2).1
  intro d₀ hinit
  subst hinit
  refine ⟨⟨fun _ => {}, rfl, System.Run.refl _⟩, ?_, ?_, ?_⟩
  · exact fun _ _ => ⟨{}, rfl, System.Run.refl _⟩
  · exact fun _ _ _ hm => absurd hm List.not_mem_nil
  · exact fun _ _ _ _ hdata => absurd hdata List.not_mem_nil

theorem Carried.run (hhosts : ∀ i j, (host i).bigEndian = (host j).bigEndian)
    (h : Carried host d) (hrun : ((deploymentSystem peers host).restrict (Tidy host)).Run d d') :
    Carried host d' ∧ (clusterSystem peers).Run d.nodes d'.nodes := by
  refine hrun.invariant (I := fun d' => Carried host d' ∧
    (clusterSystem peers).Run d.nodes d'.nodes) ?_ ⟨h, System.Run.refl _⟩
  intro d₁ x d₂ hd₁ hmove
  obtain ⟨hcarried, hruns⟩ := hd₁
  obtain ⟨hnext, hstep⟩ := hcarried.step hhosts hmove.1 hmove.2
  refine ⟨hnext, ?_⟩
  rcases hstep with hsame | ⟨y, hy⟩
  · rw [hsame]
    exact hruns
  · exact hruns.tail hy

/-- **A deployment refines the cluster.**  On hosts of one byte order, as long as the two
threads of a node write neither into each other's frames nor where a write has failed, and the
ids and terms that are sent come through the receiver's `char`, the nodes of every reachable
deployment are those of a reachable cluster, and they move by runs of the cluster, whatever
connections break and however the bytes arrive.  So over all its runs no two servers lead in the same term. -/
theorem refines_cluster (hhosts : ∀ i j, (host i).bigEndian = (host j).bigEndian)
    (h : ((deploymentSystem peers host).restrict (Tidy host)).Reachable d)
    (hrun : ((deploymentSystem peers host).restrict (Tidy host)).Run d d') :
    (clusterSystem peers).Reachable d.nodes ∧ (clusterSystem peers).Run d.nodes d'.nodes ∧
      ∀ L, Cluster.HasLed d.nodes i L → Cluster.HasLed d'.nodes j L → i = j := by
  have hcarried := carried_of_reachable hhosts h
  obtain ⟨hcarried', hruns⟩ := hcarried.run hhosts hrun
  refine ⟨hcarried.nodes, hruns, ?_⟩
  intro L hi hj
  have hsound' := Cluster.sound_of_reachable hcarried'.nodes
  have hi' := hi.run (Cluster.sound_of_reachable hcarried.nodes) hruns
  exact Subtype.ext ((hi'.wins hsound').unique (hj.wins hsound'))

instance (host : Member peers → Host) (d : Deployment peers) : ∀ x d', Decidable (Tidy host d x d')
  | .transmit i t _, _ => inferInstanceAs (Decidable (∀ m ∈ (d.outbox i t).head?, _ = _))
  | .carry i j x, _ => inferInstanceAs (Decidable ((d.channel i j).Apart x))
  | .act .., _ | .read .., _ => isTrue trivial

/-- Server 1 stands, the vote of server 2 comes back in two parts, and the request to server 3
is still being written when server 1 has won. -/
theorem refines_cluster_of_three : ∃ d : Deployment threeServers,
    (d.nodes ThreeServers.one).fsm.role = .leader ∧
      (clusterSystem threeServers).Run (fun _ => {}) d.nodes := by
  obtain ⟨d, ⟨d₀, hinit, hrun⟩, hrole⟩ := System.Reachable.of_execute {}
    (Deployment.step fun _ => Channel.littleEndian) (Tidy fun _ => Channel.littleEndian)
    [.act ThreeServers.one .expire, .act ThreeServers.one (.timeout {}),
      .transmit ThreeServers.one .scheduler true,
      .carry ThreeServers.one ThreeServers.two (.writeSome .scheduler 22),
      .transmit ThreeServers.one .scheduler true,
      .carry ThreeServers.one ThreeServers.three (.writeSome .scheduler 5),
      .carry ThreeServers.one ThreeServers.two (.arrive 0 22),
      .read ThreeServers.one ThreeServers.two 0 {}, .read ThreeServers.one ThreeServers.two 0 {},
      .transmit ThreeServers.two .server true,
      .carry ThreeServers.two ThreeServers.one (.writeSome .server 23),
      .carry ThreeServers.two ThreeServers.one (.arrive 0 3),
      .carry ThreeServers.two ThreeServers.one (.arrive 0 20),
      .read ThreeServers.two ThreeServers.one 0 {}, .read ThreeServers.two ThreeServers.one 0 {}]
    (fun d => (d.nodes ThreeServers.one).fsm.role = .leader) (by decide +kernel)
  subst hinit
  obtain ⟨-, hruns, -⟩ := refines_cluster (i := ThreeServers.one) (j := ThreeServers.one)
    (fun _ _ => rfl) ⟨{}, rfl, System.Run.refl _⟩ hrun
  exact ⟨d, hrole, hruns⟩

end Deployment

end Raft
