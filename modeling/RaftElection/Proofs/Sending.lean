/-
Which failures of a peer stop a loop that sends to all of them.

A peer that does not answer, or a write that breaks off, is noted and passed over.  A name
that does not resolve is an exception, and nothing between the resolver and the thread of
the scheduler catches it.  It is only asked for where the pool has no open connection, so
whether a loop gets through depends on what the pool holds when a peer's turn comes.
`opens` follows that flag through the loop, for one address; `Covered` says it without the
loop: the connection was there before and no write has failed since, or it was opened for
an earlier peer at the same address and no write has failed since.
-/
import RaftElection.Sending
import RaftElection.Proofs.Delivery

namespace Raft.RemoteRaftActor

variable {a : RemoteRaftActor} {net : Network} {peer : UInt64} {c c' : Client} {e : EndPoint}

/-! ### One peer -/

/-- The pool has a connection to this address that is not closed. -/
def isOpen (c : Client) (e : EndPoint) : Bool := c.conns e == some false

/-- Whether it has one after a turn of `peer`, from whether it had one before. -/
def opens (a : RemoteRaftActor) (net : Network) (e : EndPoint) (b : Bool) (peer : UInt64) : Bool :=
  if a.address peer = e then net.writes peer && (b || net.resolves peer && net.connects peer) else b

@[simp] theorem isOpen_attempted (c : Client) (l : List UInt64) (e : EndPoint) :
    isOpen { c with attempted := l } e = isOpen c e := rfl

theorem isOpen_setConn (c : Client) (e e' : EndPoint) (closed : Bool) :
    isOpen (c.setConn e closed) e' = if e = e' then !closed else isOpen c e' := by
  unfold isOpen Client.setConn
  by_cases h : e = e'
  · subst h
    cases closed <;> simp
  · simp [h, Function.update_of_ne (Ne.symm h)]

@[simp] theorem setConn_setConn (c : Client) (e : EndPoint) (closed closed' : Bool) :
    (c.setConn e closed).setConn e closed' = c.setConn e closed' := by
  simp [Client.setConn]

theorem create_run (net : Network) (peer : UInt64) (c : Client) :
    (ConnectionPool.create net peer).run c =
      if net.resolves peer = true then .ok (net.connects peer) c else .error .hostNotFound c := by
  unfold ConnectionPool.create
  split <;> rfl

/-- Where there is no open connection, one is created. -/
theorem get_run (net : Network) (peer : UInt64) (e : EndPoint) (c : Client) :
    (ConnectionPool.get net peer e).run c =
      if isOpen c e = true then .ok true c
      else if net.resolves peer = true then
        .ok (net.connects peer) (if net.connects peer = true then c.setConn e false else c)
      else .error .hostNotFound c := by
  have hget : (getThe Client : SendM Client).run c = .ok c c := rfl
  have hcreate : (do if ← ConnectionPool.create net peer then
                       modify (Client.setConn e false)
                       return true
                     else return false : SendM Bool).run c =
      if net.resolves peer = true then
        .ok (net.connects peer) (if net.connects peer = true then c.setConn e false else c)
      else .error .hostNotFound c := by
    rw [EStateM.run_bind, create_run]
    cases net.resolves peer with
    | false => rfl
    | true => cases net.connects peer <;> rfl
  unfold isOpen ConnectionPool.get
  rw [EStateM.run_bind, hget]
  rcases hconn : c.conns e with - | (- | -)
  · simp only [hconn]
    exact hcreate
  · simp only [hconn]
    rfl
  · simp only [hconn]
    exact hcreate

theorem write_run (net : Network) (peer : UInt64) (e : EndPoint) (c : Client) :
    (Connection.write net peer e).run c
      = .ok () (if net.writes peer = true then c else c.setConn e true) := by
  unfold Connection.write
  split <;> rfl

theorem send_run (a : RemoteRaftActor) (net : Network) (peer : UInt64) (c : Client) :
    (a.send net peer).run c =
      let c₁ := { c with attempted := c.attempted ++ [peer] }
      if isOpen c (a.address peer) = true then
        .ok () (if net.writes peer = true then c₁ else c₁.setConn (a.address peer) true)
      else if net.resolves peer = true then
        .ok () (if net.connects peer = true then c₁.setConn (a.address peer) (!net.writes peer)
          else c₁)
      else .error .hostNotFound c₁ := by
  have hnoted : (modify fun c => { c with attempted := c.attempted ++ [peer] } : SendM Unit).run c
      = .ok () { c with attempted := c.attempted ++ [peer] } := rfl
  unfold send Client.send
  rw [EStateM.run_bind, hnoted]
  dsimp only
  rw [EStateM.run_bind, get_run]
  have hopen : isOpen { c with attempted := c.attempted ++ [peer] } (a.address peer)
      = isOpen c (a.address peer) := rfl
  rw [hopen]
  cases isOpen c (a.address peer) with
  | true => exact write_run net peer _ _
  | false =>
      cases net.resolves peer with
      | false => rfl
      | true =>
          cases net.connects peer with
          | false => rfl
          | true =>
              refine (write_run net peer _ _).trans ?_
              cases net.writes peer with
              | true => rfl
              | false => simp

/-! ### All peers

A name that does not resolve ends the loop, and the peers after it get nothing.  A connection that
is open needs no name, so a peer may get its message all the same.
-/

/-- The turn of a peer.  It is attempted and the flag of its address moves on, or there is
neither a connection nor a name that resolves, and that is thrown. -/
theorem send_cases (a : RemoteRaftActor) (net : Network) (peer : UInt64) (c : Client) :
    (∃ c', (a.send net peer).run c = .ok () c' ∧ c'.attempted = c.attempted ++ [peer] ∧
        (∀ e, isOpen c' e = a.opens net e (isOpen c e) peer) ∧
        (net.resolves peer = false → isOpen c (a.address peer) = true)) ∨
      (∃ c', (a.send net peer).run c = .error .hostNotFound c') ∧
        net.resolves peer = false ∧ isOpen c (a.address peer) = false := by
  rw [send_run]
  dsimp only
  cases hopen : isOpen c (a.address peer) with
  | true =>
      refine Or.inl ⟨_, rfl, ?_, ?_, fun _ => rfl⟩
      · split <;> rfl
      · intro e
        by_cases he : a.address peer = e
        · subst he
          cases hwrites : net.writes peer <;> simp [opens, hwrites, hopen, isOpen_setConn]
        · cases hwrites : net.writes peer <;> simp [opens, he, isOpen_setConn]
  | false =>
      cases hresolves : net.resolves peer with
      | false => exact Or.inr ⟨⟨_, rfl⟩, rfl, rfl⟩
      | true =>
          refine Or.inl ⟨_, rfl, ?_, ?_, nofun⟩
          · split <;> rfl
          · intro e
            by_cases he : a.address peer = e
            · subst he
              cases hconnects : net.connects peer <;>
                simp [opens, hresolves, hconnects, hopen, isOpen_setConn]
            · cases hconnects : net.connects peer <;> simp [opens, he, isOpen_setConn]

/-- Whether the pool has an open connection to an address after these peers have had their
turns. -/
def openAfter (a : RemoteRaftActor) (net : Network) (e : EndPoint) (b : Bool)
    (peers : List UInt64) : Bool :=
  peers.foldl (a.opens net e) b

/-- No peer whose name does not resolve has its turn while there is no connection to it. -/
def GetsThrough (a : RemoteRaftActor) (net : Network) (c : Client) (peers : List UInt64) : Prop :=
  ∀ before peer after, peers = before ++ peer :: after → net.resolves peer = false →
    a.openAfter net (a.address peer) (isOpen c (a.address peer)) before = true

theorem sendAll_cons (a : RemoteRaftActor) (net : Network) (peer : UInt64) (rest : List UInt64) :
    a.sendAll net (peer :: rest) = a.send net peer >>= fun _ => a.sendAll net rest := rfl

theorem getsThrough_cons {rest : List UInt64}
    (hopens : ∀ e, isOpen c' e = a.opens net e (isOpen c e) peer) :
    GetsThrough a net c (peer :: rest) ↔
      (net.resolves peer = false → isOpen c (a.address peer) = true) ∧
        GetsThrough a net c' rest := by
  constructor
  · intro h
    refine ⟨fun hname => h [] peer rest rfl hname, ?_⟩
    intro before q after heq hname
    rw [hopens]
    exact h (peer :: before) q after (by rw [heq]; rfl) hname
  · rintro ⟨hfirst, hrest⟩ before q after heq hname
    cases before with
    | nil =>
        obtain ⟨rfl, -⟩ := List.cons.inj heq
        exact hfirst hname
    | cons p before =>
        obtain ⟨rfl, htail⟩ := List.cons.inj heq
        have hopen := hrest before q after htail hname
        rw [hopens] at hopen
        exact hopen

/-- **A loop gets through exactly if no name has to be resolved that cannot be**, and then
every peer was attempted, in the order of the loop. -/
theorem sendAll_ok_iff (a : RemoteRaftActor) (net : Network) (peers : List UInt64) (c : Client) :
    ((∃ c', (a.sendAll net peers).run c = .ok () c') ↔ GetsThrough a net c peers) ∧
      ∀ c', (a.sendAll net peers).run c = .ok () c' → c'.attempted = c.attempted ++ peers := by
  induction peers generalizing c with
  | nil =>
      refine ⟨⟨fun _ => ?_, fun _ => ⟨c, rfl⟩⟩, ?_⟩
      · intro before peer after h
        cases before <;> cases h
      · intro c' hc'
        cases hc'
        simp
  | cons peer rest ih =>
      rw [sendAll_cons, EStateM.run_bind]
      rcases send_cases a net peer c with
        ⟨c₁, hsend, hattempted, hopens, hname⟩ | ⟨⟨c₁, hsend⟩, hname, hopen⟩
      · obtain ⟨hok, hall⟩ := ih c₁
        rw [hsend, getsThrough_cons hopens]
        refine ⟨?_, ?_⟩
        · rw [and_iff_right hname]
          exact hok
        · intro c' hc'
          rw [hall c' hc', hattempted, List.append_assoc]
          rfl
      · rw [hsend]
        refine ⟨⟨?_, ?_⟩, nofun⟩
        · rintro ⟨c', hc'⟩
          cases hc'
        · intro hthrough
          have hopen' := hthrough [] peer rest rfl hname
          exact absurd (hopen.symm.trans hopen') (by decide)

/-! ### The machine's record -/

/-- A loop that gets through has attempted what `Fsm.lean` records as sent. -/
theorem sends_of_heartbeat (s : RaftFSM) {conns : EndPoint → Option Bool} {c : Client}
    (hc : (a.callable net s .heartbeat).run { conns := conns } = .ok () c) :
    (RaftFSM.sends s (s.sendAll (.appendEntriesReq a.self s.term) a.getPeers)).reverse
      = c.attempted.map (Entry.sent · (.appendEntriesReq a.self s.term)) := by
  have hattempted := (sendAll_ok_iff a net a.getPeers { conns := conns }).2 c hc
  rw [hattempted, RaftFSM.sends_sendAll, List.reverse_reverse]
  rfl

theorem sends_of_timeout {cb : Callbacks} {s s' : RaftFSM} {conns : EndPoint → Option Bool}
    {c : Client}
    (hs' : RaftFSM.handle a.toActor cb s .electionTimeout = .ok s')
    (hc : (a.callable net s .election).run { conns := conns } = .ok () c) :
    (RaftFSM.sends s s').reverse
      = c.attempted.map (Entry.sent · (.requestVoteReq a.self (s.term + 1))) := by
  rw [RaftFSM.handle_timeout_eq] at hs'
  obtain rfl := Except.ok.inj hs'
  unfold callable at hc
  by_cases hidle : s.blocked = true ∨ s.role = .leader
  · rw [if_pos hidle] at hc ⊢
    cases hc
    rw [RaftFSM.sends_self]
    rfl
  · rw [if_neg hidle] at hc ⊢
    have hattempted := (sendAll_ok_iff a net a.getPeers { conns := conns }).2 c hc
    rw [hattempted, RaftFSM.sends_candidacy, List.reverse_reverse]
    rfl

/-! ### The condition without the loop -/

/-- When its turn comes after these peers, `peer` has an open connection: one that was there
and that no write has closed, or one that was opened for an earlier peer at the same
address and that no write has closed since. -/
def Covered (a : RemoteRaftActor) (net : Network) (c : Client) (before : List UInt64)
    (peer : UInt64) : Prop :=
  (isOpen c (a.address peer) = true ∧
      ∀ q ∈ before, a.address q = a.address peer → net.writes q = true) ∨
    ∃ l q l', before = l ++ q :: l' ∧ a.address q = a.address peer ∧ net.resolves q = true ∧
      net.connects q = true ∧ ∀ r ∈ q :: l', a.address r = a.address peer → net.writes r = true

theorem exists_split_cons {α : Type} {P : α → List α → Prop} {x : α} {l : List α} :
    (∃ l₁ y l₂, x :: l = l₁ ++ y :: l₂ ∧ P y l₂) ↔
      P x l ∨ ∃ l₁ y l₂, l = l₁ ++ y :: l₂ ∧ P y l₂ := by
  constructor
  · rintro ⟨l₁, y, l₂, heq, hP⟩
    cases l₁ with
    | nil =>
        obtain ⟨rfl, rfl⟩ := List.cons.inj heq
        exact Or.inl hP
    | cons z l₁ =>
        obtain ⟨-, htail⟩ := List.cons.inj heq
        exact Or.inr ⟨l₁, y, l₂, htail, hP⟩
  · rintro (hP | ⟨l₁, y, l₂, rfl, hP⟩)
    · exact ⟨[], x, l, rfl, hP⟩
    · exact ⟨x :: l₁, y, l₂, rfl, hP⟩

theorem openAfter_iff (a : RemoteRaftActor) (net : Network) (e : EndPoint) :
    ∀ (before : List UInt64) (b : Bool), a.openAfter net e b before = true ↔
      (b = true ∧ ∀ q ∈ before, a.address q = e → net.writes q = true) ∨
        ∃ l q l', before = l ++ q :: l' ∧ (a.address q = e ∧ net.resolves q = true ∧
          net.connects q = true ∧ ∀ r ∈ q :: l', a.address r = e → net.writes r = true) := by
  intro before
  induction before with
  | nil =>
      intro b
      simp [openAfter]
  | cons q rest ih =>
      intro b
      show a.openAfter net e (a.opens net e b q) rest = true ↔ _
      rw [ih, exists_split_cons, ← or_assoc]
      refine or_congr ?_ Iff.rfl
      unfold opens
      by_cases he : a.address q = e
      · rw [if_pos he]
        simp only [Bool.and_eq_true, Bool.or_eq_true, List.forall_mem_cons, he, forall_const,
          true_and]
        constructor
        · rintro ⟨⟨hwrites, hopen | ⟨hresolves, hconnects⟩⟩, hrest⟩
          · exact Or.inl ⟨hopen, hwrites, hrest⟩
          · exact Or.inr ⟨hresolves, hconnects, hwrites, hrest⟩
        · rintro (⟨hopen, hwrites, hrest⟩ | ⟨hresolves, hconnects, hwrites, hrest⟩)
          · exact ⟨⟨hwrites, Or.inl hopen⟩, hrest⟩
          · exact ⟨⟨hwrites, Or.inr ⟨hresolves, hconnects⟩⟩, hrest⟩
      · simp [he]

/-- Every peer but this server is attempted exactly once, and nothing is thrown. -/
def ReachesAll (a : RemoteRaftActor) (r : EStateM.Result SystemError Client Unit) : Prop :=
  ∃ c, r = .ok () c ∧ ∀ peer ∈ a.peers.ids, peer ≠ a.self → c.attempted.count peer = 1

/-- Every peer whose name does not resolve has a connection when its turn comes. -/
def NamesSuffice (a : RemoteRaftActor) (net : Network) (c : Client) : Prop :=
  ∀ before peer after, a.getPeers = before ++ peer :: after → net.resolves peer = false →
    Covered a net c before peer

theorem getsThrough_iff (a : RemoteRaftActor) (net : Network) (c : Client) :
    GetsThrough a net c a.getPeers ↔ NamesSuffice a net c := by
  unfold GetsThrough NamesSuffice Covered
  simp only [openAfter_iff]

theorem count_getPeers (a : RemoteRaftActor) {peer : UInt64} (hmem : peer ∈ a.peers.ids)
    (hself : peer ≠ a.self) : a.getPeers.count peer = 1 := by
  have hnodup : a.getPeers.Nodup := a.peers.nodup.filter _
  refine List.count_eq_one_of_mem hnodup ?_
  simp [Actor.getPeers, hmem, hself]

theorem sendAll_reachesAll (a : RemoteRaftActor) (net : Network) (conns : EndPoint → Option Bool) :
    ReachesAll a ((a.sendAll net a.getPeers).run { conns := conns }) ↔
      NamesSuffice a net { conns := conns } := by
  obtain ⟨hok, hall⟩ := sendAll_ok_iff a net a.getPeers { conns := conns }
  rw [← getsThrough_iff, ← hok]
  constructor
  · rintro ⟨c, hc, -⟩
    exact ⟨c, hc⟩
  · rintro ⟨c, hc⟩
    refine ⟨c, hc, ?_⟩
    intro peer hmem hself
    rw [hall c hc, List.nil_append]
    exact count_getPeers a hmem hself

/-- **When one bad peer silences the others.**  Whatever the pool holds and however the
network treats each peer, a canvass and a firing of the heartbeat task attempt every peer
once and throw nothing exactly if every peer whose name does not resolve has an open
connection when its turn comes.  The same decides whether the callable of the election
timer throws, in a node that is neither blocked nor leader. -/
theorem reaches_all_iff (a : RemoteRaftActor) (net : Network) (conns : EndPoint → Option Bool) :
    (ReachesAll a ((a.requestVoteForSelf net).run { conns := conns }) ↔
        NamesSuffice a net { conns := conns }) ∧
      ∀ s, (ReachesAll a ((a.callable net s .heartbeat).run { conns := conns }) ↔
          NamesSuffice a net { conns := conns }) ∧
        ((∃ c, (a.callable net s .election).run { conns := conns } = .ok () c) ↔
          s.blocked = true ∨ s.role = .leader ∨ NamesSuffice a net { conns := conns }) := by
  have hloop := sendAll_reachesAll a net conns
  refine ⟨hloop, fun s => ⟨hloop, ?_⟩⟩
  unfold callable
  by_cases hidle : s.blocked = true ∨ s.role = .leader
  · rw [if_pos hidle, ← or_assoc]
    exact ⟨fun _ => Or.inl hidle, fun _ => ⟨_, rfl⟩⟩
  · rw [if_neg hidle, ← or_assoc, or_iff_right hidle, ← getsThrough_iff]
    exact (sendAll_ok_iff a net a.getPeers { conns := conns }).1

/-- The name of server 2 does not resolve, and server 3, which could be reached, is not
attempted: the exception leaves the callable of the election timer. -/
theorem unresolved_peer_silences :
    ∃ net : Network, net.resolves 3 = true ∧ net.connects 3 = true ∧ net.writes 3 = true ∧
      ∃ c, (firstOfThreeHosts.callable net RaftFSM.started .election).run {}
          = .error .hostNotFound c ∧
        3 ∈ firstOfThreeHosts.peers.ids ∧ c.attempted.count 3 = 0 := by
  refine ⟨⟨fun peer => peer = 3, fun _ => true, fun _ => true⟩, rfl, rfl, rfl, ?_⟩
  exact ⟨_, rfl, by decide, by decide⟩

end Raft.RemoteRaftActor
