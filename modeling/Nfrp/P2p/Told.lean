import Nfrp.P2p.Rendezvous

/-!
# What the peers are told

The server notes nothing of a peer but its sockets, and tells a peer nothing but what it
has noted of the other.  All that is told has a given property if the addresses told when
the pair is complete have it.
-/

namespace Nfrp.P2p

open Lib

def Session.heard (session : Session) (role : Role) : List SocketAddr :=
  (session.get role).elim [] (·.addrs)

namespace Session

variable (s : Session) (slot : PeerSlot) (role : Role)

@[simp]
theorem get_put : (s.put slot role).get role = some slot := by
  cases role <;> rfl

@[simp]
theorem get_put_peer : (s.put slot role).get role.peer = s.get role.peer := by
  cases role <;> rfl

@[simp]
theorem created_put : (s.put slot role).created = s.created := by
  cases role <;> rfl

@[simp]
theorem expectedIp_put (other : Role) : (s.put slot role).expectedIp other = s.expectedIp other := by
  cases role <;> rfl

@[simp]
theorem heard_put : (s.put slot role).heard role = slot.addrs := by
  rw [heard, get_put]
  rfl

@[simp]
theorem heard_put_peer : (s.put slot role).heard role.peer = s.heard role.peer := by
  rw [heard, get_put_peer, heard]

theorem observe_eq (now : Nat) (addr : SocketAddr) (transport : Transport) :
    ∃ addrs, s.observe now role addr transport = s.put { addrs, transport, «at» := now } role ∧
      (addrs = s.heard role ++ [addr] ∧ addr ∉ s.heard role ∧ (s.heard role).length < maxSamples ∨
        addrs = s.heard role ∧ (maxSamples ≤ (s.heard role).length ∨ addr ∈ s.heard role)) := by
  rw [observe, heard]
  cases found : s.get role with
  | none => exact ⟨[addr], rfl, .inl ⟨rfl, List.not_mem_nil, by decide⟩⟩
  | some slot =>
    by_cases isNew : slot.addrs.length < maxSamples ∧ addr ∉ slot.addrs
    · exact ⟨slot.addrs ++ [addr], by simp only [if_pos isNew], .inl ⟨rfl, isNew.2, isNew.1⟩⟩
    · refine ⟨slot.addrs, by simp only [if_neg isNew], .inr ⟨rfl, ?_⟩⟩
      rw [not_and_or, not_lt, not_not] at isNew
      exact isNew

theorem mem_heard_observe {s : Session} {now : Nat} {role other : Role} {addr a : SocketAddr} {transport : Transport}
    (member : a ∈ (s.observe now role addr transport).heard other) : a = addr ∨ a ∈ s.heard other := by
  obtain ⟨addrs, observed, ⟨rfl, -⟩ | ⟨rfl, -⟩⟩ := s.observe_eq role now addr transport
  all_goals
    rw [observed] at member
    rcases Role.eq_or_eq_peer other role with rfl | rfl
    · rw [heard_put] at member
      first
        | exact .inr member
        | exact (List.mem_append.mp member).symm.imp_left List.mem_singleton.mp
    · rw [heard_put_peer] at member
      exact .inr member

theorem fresh_iff {s : Session} {now : Nat} (early : ∀ role slot, s.get role = some slot → s.created ≤ slot.at) :
    s.fresh now ↔ now - s.created < sessionTtl := by
  rw [fresh, Bool.and_eq_true, Bool.and_eq_true, decide_eq_true_eq, Option.all_eq_true, Option.all_eq_true]
  constructor
  · exact fun both => both.1.1
  · intro alive
    refine ⟨⟨alive, fun slot found => ?_⟩, fun slot found => ?_⟩
    · have := early .visitor slot found
      exact decide_eq_true (by omega)
    · have := early .provider slot found
      exact decide_eq_true (by omega)

end Session

namespace Setting

variable (p : Setting)

def hello (role : Role) : List UInt8 := (encodeHello role p.sid (p.peer role).transport).getD []

def answer (role : Role) (addrs : List SocketAddr) : List UInt8 :=
  (encodePeers role.peer p.sid (p.peer .visitor).transport addrs).getD []

theorem encodeHello_eq (role : Role) : encodeHello role p.sid (p.peer role).transport = some (p.hello role) := by
  rw [hello, encodeHello, pushHeader_eq p.isSid]
  rfl

theorem decode_hello (role : Role) : decode ((p.hello role).take 2048) = some (.hello role p.sid (p.peer role).transport) := by
  have short := length_encodeHello p.isSid (p.encodeHello_eq role)
  rw [List.take_of_length_le (by rw [short, helloLen, headerLen, sidLen]; decide)]
  exact decode_encodeHello p.isSid role _ (p.encodeHello_eq role)

structure Tellable (role : Role) (addrs : List SocketAddr) : Prop where
  sockets : addrs ⊆ (p.peer role).sockets
  nodup : addrs.Nodup
  nonempty : addrs ≠ []

variable {p}

theorem length_sockets_le (role : Role) : (p.peer role).sockets.length ≤ predictSamples := by
  rw [Peer.sockets, List.length_cons]
  exact p.few role

theorem Tellable.length_le {role : Role} {addrs : List SocketAddr} (tellable : p.Tellable role addrs) :
    addrs.length ≤ predictSamples :=
  (tellable.nodup.subperm tellable.sockets).length_le.trans (length_sockets_le role)

theorem Tellable.plain {role : Role} {addrs : List SocketAddr} (tellable : p.Tellable role addrs) :
    addrs.map SocketAddr.withoutFlow = addrs :=
  (List.map_congr_left fun a member => p.plain role a (tellable.sockets member)).trans (List.map_id addrs)

theorem tellable_singleton {role : Role} {src : SocketAddr} (isSocket : src ∈ (p.peer role).sockets) :
    p.Tellable role [src] :=
  ⟨List.cons_subset.mpr ⟨isSocket, List.nil_subset _⟩, List.nodup_singleton src, List.cons_ne_nil _ _⟩

theorem encodePeers_eq {role : Role} {addrs : List SocketAddr} (tellable : p.Tellable role.peer addrs) :
    encodePeers role.peer p.sid (p.peer .visitor).transport addrs = some (p.answer role addrs) := by
  have few : addrs.length ≤ 255 := tellable.length_le.trans (by decide)
  obtain ⟨pkt, encoded⟩ := exists_encodePeers p.isSid role.peer (p.peer .visitor).transport tellable.nonempty few
  rw [answer, encoded]
  rfl

theorem decode_answer {role : Role} {addrs : List SocketAddr} (tellable : p.Tellable role.peer addrs) :
    decode ((p.answer role addrs).take 512) = some (.peers role.peer p.sid (p.peer .visitor).transport addrs) := by
  have short := length_encodePeers_le (encodePeers_eq tellable)
  have few : addrs.length ≤ 3 := tellable.length_le
  rw [List.take_of_length_le (by omega), decode_encodePeers p.isSid (encodePeers_eq tellable), tellable.plain]

variable (p)

structure Noted (session : Session) : Prop where
  ips : ∀ role, session.expectedIp role = (p.peer role).controlIp
  created : session.created = p.created
  slots : ∀ role slot, session.get role = some slot →
    p.Tellable role slot.addrs ∧ slot.transport = (p.peer role).transport ∧ p.created ≤ slot.at

/-- As long as there is a session nobody has been told anything, and others have sessions
of their own. -/
structure Kept (hub : P2PHub) : Prop where
  noted : ∀ session, hub.lookup p.sid = some session → p.Noted session
  incomplete : ∀ session, hub.lookup p.sid = some session → ∃ role, session.get role = none
  others : ∀ sid session, sid ≠ p.sid → hub.lookup sid = some session → ∀ role, ∀ a ∈ session.heard role, p.isForeign a

variable {p} {hub : P2PHub} {session : Session} {now : Nat} {src : SocketAddr} {role : Role}

theorem Noted.fresh_iff (noted : p.Noted session) : session.fresh now ↔ now - p.created < sessionTtl := by
  rw [← noted.created]
  exact Session.fresh_iff fun role slot found => noted.created ▸ (noted.slots role slot found).2.2

theorem Noted.put (noted : p.Noted session) {slot : PeerSlot} (tellable : p.Tellable role slot.addrs)
    (transport : slot.transport = (p.peer role).transport) (later : p.created ≤ slot.at) :
    p.Noted (session.put slot role) where
  ips := fun other => (Session.expectedIp_put session slot role other).trans (noted.ips other)
  created := (Session.created_put session slot role).trans noted.created
  slots := by
    intro other found isSlot
    rcases Role.eq_or_eq_peer other role with rfl | rfl
    · rw [Session.get_put] at isSlot
      obtain rfl := Option.some.inj isSlot
      exact ⟨tellable, transport, later⟩
    · rw [Session.get_put_peer] at isSlot
      exact noted.slots _ found isSlot

theorem Noted.tellable_heard (noted : p.Noted session) (some : session.heard role ≠ []) :
    p.Tellable role (session.heard role) := by
  rw [Session.heard] at some ⊢
  cases found : session.get role with
  | none => exact absurd (congrArg (Option.elim · [] PeerSlot.addrs) found) some
  | some slot => exact (noted.slots role slot found).1

theorem Noted.observe (noted : p.Noted session) (isSocket : src ∈ (p.peer role).sockets) (later : p.created ≤ now) :
    ∃ slot, session.observe now role src (p.peer role).transport = session.put slot role ∧
      p.Noted (session.put slot role) ∧ src ∈ slot.addrs ∧ session.heard role ⊆ slot.addrs := by
  obtain ⟨addrs, observed, ⟨rfl, isNew, -⟩ | ⟨rfl, known⟩⟩ := session.observe_eq role now src (p.peer role).transport
  · have tellable : p.Tellable role (session.heard role ++ [src]) := by
      by_cases nothing : session.heard role = []
      · rw [nothing]
        exact tellable_singleton isSocket
      · have before := noted.tellable_heard nothing
        refine ⟨List.append_subset.mpr ⟨before.sockets, (tellable_singleton isSocket).sockets⟩, ?_, by simp⟩
        exact before.nodup.append (List.nodup_singleton src) (List.disjoint_singleton.mpr isNew)
    exact ⟨_, observed, noted.put tellable rfl later, List.mem_append_right _ (List.mem_singleton_self src),
      List.subset_append_left _ _⟩
  · have isHeard : src ∈ session.heard role := by
      refine known.resolve_left fun full => ?_
      have nonempty : session.heard role ≠ [] := by
        intro empty
        rw [empty] at full
        exact absurd full (by decide)
      have few := (noted.tellable_heard nonempty).length_le
      exact absurd (full.trans few) (by decide)
    exact ⟨_, observed, noted.put (noted.tellable_heard (List.ne_nil_of_mem isHeard)) rfl later, isHeard,
      List.Subset.refl _⟩

theorem lookup_reap (hub : P2PHub) (now : Nat) (sid : String) :
    (hub.reap now).lookup sid = (hub.lookup sid).filter (·.fresh now) :=
  lookup_retain _ hub sid

theorem Kept.lookup_reap (kept : p.Kept hub) (now : Nat) :
    (hub.reap now).lookup p.sid = if now - p.created < sessionTtl then hub.lookup p.sid else none := by
  rw [Setting.lookup_reap]
  cases found : hub.lookup p.sid with
  | none => split <;> rfl
  | some session =>
    rw [Option.filter]
    by_cases alive : now - p.created < sessionTtl
    · rw [if_pos alive, if_pos ((kept.noted session found).fresh_iff.mpr alive)]
    · rw [if_neg alive, if_neg (mt (kept.noted session found).fresh_iff.mp alive)]

theorem lookup_of_reap {sid : String} (found : (hub.reap now).lookup sid = some session) : hub.lookup sid = some session := by
  rw [lookup_reap] at found
  exact (Option.filter_eq_some_iff.mp found).1

theorem Kept.reap (kept : p.Kept hub) (now : Nat) : p.Kept (hub.reap now) where
  noted := fun session found => kept.noted session (lookup_of_reap found)
  incomplete := fun session found => kept.incomplete session (lookup_of_reap found)
  others := fun sid session other found => kept.others sid session other (lookup_of_reap found)

inductive Served (p : Setting) (s : System) (role : Role) (src : SocketAddr) : System → Prop
  | gone (none : (s.hub.reap s.now).lookup p.sid = none) : Served p s role src { s with hub := s.hub.reap s.now }
  | waiting {session : Session} {slot : PeerSlot} (found : (s.hub.reap s.now).lookup p.sid = some session)
      (first : session.get role.peer = none) (noted : p.Noted (session.put slot role)) (isHeard : src ∈ slot.addrs)
      (more : session.heard role ⊆ slot.addrs) :
      Served p s role src { s with hub := (s.hub.reap s.now).insert p.sid (session.put slot role) }
  | ready {session : Session} (slot : PeerSlot) {other : PeerSlot} (found : (s.hub.reap s.now).lookup p.sid = some session)
      (isOther : session.get role.peer = some other) (tellable : p.Tellable role.peer other.addrs) :
      Served p s role src
        { s with
          hub := ((s.hub.reap s.now).insert p.sid (session.put slot role)).erase p.sid
          inFlight := s.inFlight ++ { src := p.server, dst := src, bytes := p.answer role other.addrs, sent := s.now } ::
            other.addrs.map fun a => { src := p.server, dst := a, bytes := p.answer role.peer [src], sent := s.now } }

theorem served (s : System) (kept : p.Kept s.hub) (isSocket : src ∈ (p.peer role).sockets) (later : p.created ≤ s.now) :
    Served p s role src (p.serve s src (p.hello role)) := by
  rw [serve, P2PHub.runRendezvous, p.admitted role src isSocket]
  simp only [p.decode_hello, P2PHub.register]
  cases found : (s.hub.reap s.now).lookup p.sid with
  | none =>
    simp only [List.map_nil, List.append_nil]
    exact .gone found
  | some session =>
    have noted := (kept.reap s.now).noted session found
    obtain ⟨slot, observed, after, isHeard, more⟩ := noted.observe isSocket later
    have fromHost : sameHost src.ip (session.expectedIp role) := noted.ips role ▸ p.host role src isSocket
    simp only [fromHost, if_true, observed, Session.get_put_peer]
    cases isOther : session.get role.peer with
    | none =>
      simp only [List.map_nil, List.append_nil]
      exact .waiting found isOther after isHeard more
    | some other =>
      have tellable := (noted.slots role.peer other isOther).1
      have chosen : (((session.put slot role).get .visitor).elim (p.peer role).transport (·.transport)) =
          (p.peer .visitor).transport := by
        obtain ⟨v, isVisitor⟩ : ∃ v, (session.put slot role).get .visitor = some v := by
          rcases Role.eq_or_eq_peer .visitor role with isRole | isRole
          · exact ⟨slot, isRole ▸ Session.get_put session slot role⟩
          · exact ⟨other, isRole ▸ (Session.get_put_peer session slot role).trans isOther⟩
        rw [isVisitor]
        exact (after.slots .visitor v isVisitor).2.1
      have toOthers : encodePeers role p.sid (p.peer .visitor).transport [src] = some (p.answer role.peer [src]) := by
        have singleton : p.Tellable role.peer.peer [src] := by
          rw [Role.peer_peer]
          exact tellable_singleton isSocket
        have encoded := encodePeers_eq singleton
        rwa [Role.peer_peer] at encoded
      simp only [chosen, encodePeers_eq tellable, toOthers]
      have ready : Served p s role src _ := .ready slot found isOther tellable
      simpa [P2PHub.finish, Function.comp_def] using ready

/-- Others cannot speak for a peer, and end no session but their own. -/
theorem Kept.register (kept : p.Kept hub) (isForeign : p.isForeign src) (now : Nat) (sid : String) (role : Role)
    (transport : Transport) :
    p.Kept (hub.register now sid role src transport).1 ∧
      (hub.register now sid role src transport).1.lookup p.sid = (hub.reap now).lookup p.sid ∧
      ∀ addrs chosen, (hub.register now sid role src transport).2 = .ready addrs chosen →
        sid ≠ p.sid ∧ ∀ a ∈ addrs, p.isForeign a := by
  have reaped := kept.reap now
  rw [P2PHub.register]
  cases found : (hub.reap now).lookup sid with
  | none => exact ⟨reaped, rfl, nofun⟩
  | some session =>
    dsimp only
    split
    next fromHost =>
      have notOurs : sid ≠ p.sid := by
        rintro rfl
        rw [(reaped.noted session found).ips role] at fromHost
        simp only [Setting.isForeign, Bool.and_eq_true, Bool.not_eq_true'] at isForeign
        cases role with
        | visitor => cases isForeign.1.1.symm.trans fromHost
        | provider => cases isForeign.1.2.symm.trans fromHost
      have lookup : ((hub.reap now).insert sid (session.observe now role src transport)).lookup p.sid =
          (hub.reap now).lookup p.sid := by
        rw [lookup_insert_eq, if_neg (Ne.symm notOurs)]
      refine ⟨⟨?_, ?_, ?_⟩, lookup, ?_⟩
      · exact fun own isOwn => reaped.noted own (lookup ▸ isOwn)
      · exact fun own isOwn => reaped.incomplete own (lookup ▸ isOwn)
      · intro other found' notOurs' isOther role' a member
        rw [lookup_insert_eq] at isOther
        split at isOther
        next isSid =>
          obtain rfl := Option.some.inj isOther
          rcases Session.mem_heard_observe member with rfl | before
          · exact isForeign
          · exact reaped.others sid session notOurs found role' a before
        next => exact reaped.others other found' notOurs' isOther role' a member
      · intro addrs chosen isReady
        refine ⟨notOurs, fun a member => ?_⟩
        split at isReady
        next slot isSlot =>
          obtain ⟨rfl, -⟩ := RegisterOutcome.ready.inj isReady
          have isHeard : a ∈ (session.observe now role src transport).heard role.peer := by
            rw [Session.heard, isSlot]
            exact member
          rcases Session.mem_heard_observe isHeard with rfl | before
          · exact isForeign
          · exact reaped.others sid session notOurs found role.peer a before
        next => cases isReady
    next => exact ⟨reaped, rfl, nofun⟩

theorem Kept.erase (kept : p.Kept hub) (sid : String) : p.Kept (hub.erase sid) := by
  have before : ∀ {other session}, (hub.erase sid).lookup other = some session → hub.lookup other = some session := by
    intro other session found
    rw [lookup_erase_eq] at found
    split at found
    next => cases found
    next => exact found
  exact ⟨fun session found => kept.noted session (before found), fun session found => kept.incomplete session (before found),
    fun other session notOurs found => kept.others other session notOurs (before found)⟩

theorem served_foreign (s : System) (kept : p.Kept s.hub) (isForeign : p.isForeign src) (bytes : List UInt8) :
    ∃ hub answers, p.serve s src bytes = { s with hub, inFlight := s.inFlight ++ answers } ∧ p.Kept hub ∧
      (hub.lookup p.sid = s.hub.lookup p.sid ∨ hub.lookup p.sid = (s.hub.reap s.now).lookup p.sid) ∧
      ∀ d ∈ answers, d.src = p.server ∧ p.isForeign d.dst ∧ d.sent = s.now := by
  have same : p.serve s src bytes = { s with
      hub := (s.hub.runRendezvous p.checkIp s.now src bytes).1
      inFlight := s.inFlight ++ (s.hub.runRendezvous p.checkIp s.now src bytes).2.map fun answer =>
        { src := p.server, dst := answer.1, bytes := answer.2, sent := s.now } } := rfl
  refine ⟨_, _, same, ?_⟩
  have nothing : p.Kept s.hub ∧
      (s.hub.lookup p.sid = s.hub.lookup p.sid ∨ s.hub.lookup p.sid = (s.hub.reap s.now).lookup p.sid) ∧
      ∀ d ∈ ([] : List (SocketAddr × List UInt8)).map fun answer =>
          ({ src := p.server, dst := answer.1, bytes := answer.2, sent := s.now } : Datagram),
        d.src = p.server ∧ p.isForeign d.dst ∧ d.sent = s.now := ⟨kept, .inl rfl, nofun⟩
  rw [P2PHub.runRendezvous]
  split
  next => exact nothing
  next =>
    split
    next role sid transport read =>
      obtain ⟨after, lookup, told⟩ := kept.register isForeign s.now sid role transport
      split
      next hub addrs chosen registered =>
        rw [registered] at after lookup told
        obtain ⟨notOurs, areForeign⟩ := told addrs chosen rfl
        have toOthers : ∀ answer ∈ addrs.filterMap fun a => (encodePeers role sid chosen [src]).map (a, ·),
            p.isForeign answer.1 := by
          intro answer member
          obtain ⟨a, isAddr, isAnswer⟩ := List.mem_filterMap.mp member
          obtain ⟨pkt, -, rfl⟩ := Option.map_eq_some_iff.mp isAnswer
          exact areForeign a isAddr
        dsimp only
        split
        next pkt encoded =>
          refine ⟨after.erase sid, .inr ?_, fun d member => ?_⟩
          · rw [P2PHub.finish, lookup_erase_eq, if_neg (Ne.symm notOurs)]
            exact lookup
          · obtain ⟨answer, isAnswer, rfl⟩ := List.mem_map.mp member
            refine ⟨rfl, ?_, rfl⟩
            rcases List.mem_cons.mp isAnswer with rfl | toOther
            · exact isForeign
            · exact toOthers answer toOther
        next =>
          refine ⟨after, .inr lookup, fun d member => ?_⟩
          obtain ⟨answer, isAnswer, rfl⟩ := List.mem_map.mp member
          exact ⟨rfl, toOthers answer isAnswer, rfl⟩
      next hub outcome notReady registered =>
        rw [registered] at after lookup
        exact ⟨after, .inr lookup, nofun⟩
    next => exact nothing

variable (p) (P : Role → List SocketAddr → Prop)

/-- What is on its way: HELLOs of peers that have started, answers to them, and what is for
others. -/
inductive Known (calls : Role → Option Call) (d : Datagram) : Prop
  | hello (role : Role) (isSocket : d.src ∈ (p.peer role).sockets) (toServer : d.dst = p.server)
      (bytes : d.bytes = p.hello role) (started : ∃ c, calls role = some c)
  | answer (role : Role) (addrs : List SocketAddr) (isSocket : d.dst ∈ (p.peer role).sockets)
      (tellable : p.Tellable role.peer addrs) (told : P role addrs) (bytes : d.bytes = p.answer role addrs)
  | other (isForeign : p.isForeign d.dst)

/-- Where a call is: it waits, was told addresses that have the property, or has failed. -/
inductive Stage (role : Role) (window : Nat) : Phase → Prop
  | waits : Stage role window .receiving
  | told (addrs : List SocketAddr) (tellable : p.Tellable role.peer addrs) (holds : P role addrs) :
      Stage role window (.returned (.ok (buildRendezvous addrs (p.peer .visitor).transport window)))
  | failed (e : String) : Stage role window (.returned (.error e))

structure Going (role : Role) (c : Call) : Prop where
  isRole : c.role = role
  sid : c.sid = p.sid
  stage : p.Stage P role c.window c.phase

structure Sound (s : System) : Prop where
  since : p.created ≤ s.now
  kept : p.Kept s.hub
  started : ∀ session, s.hub.lookup p.sid = some session → ∀ role slot, session.get role = some slot →
    ∃ c, s.calls role = some c
  flight : ∀ d ∈ s.inFlight, p.Known P s.calls d
  calls : ∀ role c, s.calls role = some c → p.Going P role c
  expired : ∀ role c e, s.calls role = some c → c.phase = .returned (.error e) → c.deadline ≤ s.now

/-- The datagram is the HELLO that completes the pair; `other` is what has been noted of
the other peer. -/
structure Completing (s : System) (d : Datagram) (role : Role) (other : PeerSlot) : Prop where
  toServer : d.dst = p.server
  isHello : ∃ transport, decode (d.bytes.take 2048) = some (.hello role p.sid transport)
  noted : ∃ session, (s.hub.reap s.now).lookup p.sid = some session ∧ session.get role.peer = some other

/-- Where the event completes the pair, what is told then has the property. -/
def Tells (s : System) : Event → Prop
  | .deliver index => ∀ d role other, s.inFlight[index]? = some d → p.Completing s d role other →
      P role other.addrs ∧ P role.peer [d.src]
  | _ => True

variable {p P} {s : System}

theorem Known.mono {calls later : Role → Option Call} {d : Datagram} (known : p.Known P calls d)
    (more : ∀ role c, calls role = some c → ∃ c, later role = some c) : p.Known P later d := by
  cases known with
  | hello role isSocket toServer bytes started =>
    obtain ⟨c, isCall⟩ := started
    exact .hello role isSocket toServer bytes (more role c isCall)
  | answer role addrs isSocket tellable told bytes => exact .answer role addrs isSocket tellable told bytes
  | other isForeign => exact .other isForeign

theorem Kept.insert (kept : p.Kept hub) (noted : p.Noted session) (first : ∃ role, session.get role = none) :
    p.Kept (hub.insert p.sid session) where
  noted := by
    intro other found
    rw [AList.lookup_insert] at found
    exact Option.some.inj found ▸ noted
  incomplete := by
    intro other found
    rw [AList.lookup_insert] at found
    exact Option.some.inj found ▸ first
  others := by
    intro sid other notOurs found
    rw [lookup_insert_eq, if_neg notOurs] at found
    exact kept.others sid other notOurs found

theorem lookup_finish (hub : P2PHub) (sid : String) : (hub.erase sid).lookup sid = none :=
  AList.lookup_erase _ _

theorem Kept.finish (kept : p.Kept hub) (session : Session) : p.Kept ((hub.insert p.sid session).erase p.sid) where
  noted := by
    intro other found
    rw [lookup_finish] at found
    cases found
  incomplete := by
    intro other found
    rw [lookup_finish] at found
    cases found
  others := by
    intro sid other notOurs found
    rw [lookup_erase_eq, if_neg notOurs, lookup_insert_eq, if_neg notOurs] at found
    exact kept.others sid other notOurs found

variable (p) in
theorem start_hub : p.start.hub = (∅ : P2PHub).insert p.sid
    { created := p.created, visitorIp := (p.peer .visitor).controlIp, providerIp := (p.peer .provider).controlIp } := rfl

theorem kept_empty : p.Kept ∅ where
  noted := fun _ found => nomatch found
  incomplete := fun _ found => nomatch found
  others := fun _ _ _ found => nomatch found

theorem sound_start : p.Sound P p.start where
  since := le_rfl
  kept := by
    rw [start_hub]
    refine kept_empty.insert ⟨?_, rfl, ?_⟩ ⟨.visitor, rfl⟩
    · intro role
      cases role <;> rfl
    · intro role slot isSlot
      cases role <;> cases isSlot
  started := by
    intro session found role slot isSlot
    rw [start_hub, AList.lookup_insert] at found
    obtain rfl := Option.some.inj found
    cases role <;> cases isSlot
  flight := fun d member => nomatch member
  calls := fun role c isCall => nomatch isCall
  expired := fun role c e isCall => nomatch isCall

theorem Sound.serve (sound : p.Sound P s) (isSocket : src ∈ (p.peer role).sockets) (isCall : ∃ c, s.calls role = some c)
    (told : ∀ session other, (s.hub.reap s.now).lookup p.sid = some session → session.get role.peer = some other →
      P role other.addrs ∧ P role.peer [src]) : p.Sound P (p.serve s src (p.hello role)) := by
  have reaped := sound.kept.reap s.now
  obtain ⟨result, isResult, served⟩ : ∃ result, p.serve s src (p.hello role) = result ∧ p.Served s role src result :=
    ⟨_, rfl, served s sound.kept isSocket sound.since⟩
  rw [isResult]
  cases served with
  | gone none =>
    exact { sound with kept := reaped, started := fun session found => sound.started session (lookup_of_reap found) }
  | waiting found first noted isHeard more =>
    refine { sound with kept := reaped.insert noted ⟨role.peer, by rw [Session.get_put_peer, first]⟩, started := ?_ }
    intro session isSession other slot isSlot
    rw [AList.lookup_insert] at isSession
    obtain rfl := Option.some.inj isSession
    rcases Role.eq_or_eq_peer other role with rfl | rfl
    · exact isCall
    · rw [Session.get_put_peer] at isSlot
      exact sound.started _ (lookup_of_reap found) _ slot isSlot
  | @ready session slot other found isOther tellable =>
    obtain ⟨toCaller, toOther⟩ := told session other found isOther
    refine { sound with kept := reaped.finish _, started := ?_, flight := ?_ }
    · intro session isSession
      rw [lookup_finish] at isSession
      cases isSession
    · intro d member
      rcases List.mem_append.mp member with before | isNew
      · exact sound.flight d before
      rcases List.mem_cons.mp isNew with rfl | toOthers
      · exact .answer role other.addrs isSocket tellable toCaller rfl
      · obtain ⟨a, isAddr, rfl⟩ := List.mem_map.mp toOthers
        refine .answer role.peer [src] (tellable.sockets isAddr) ?_ toOther rfl
        rw [Role.peer_peer]
        exact tellable_singleton isSocket

theorem Kept.create (kept : p.Kept hub) (now : Nat) {sid : String} (notOurs : sid ≠ p.sid) (visitorIp providerIp : IpAddr) :
    p.Kept (hub.create now sid visitorIp providerIp) ∧
      (hub.create now sid visitorIp providerIp).lookup p.sid = (hub.reap now).lookup p.sid := by
  have reaped := kept.reap now
  rw [P2PHub.create]
  split
  next => exact ⟨reaped, rfl⟩
  next =>
    have lookup : ((hub.reap now).insert sid { created := now, visitorIp, providerIp }).lookup p.sid =
        (hub.reap now).lookup p.sid := by
      rw [lookup_insert_eq, if_neg (Ne.symm notOurs)]
    refine ⟨⟨fun own isOwn => reaped.noted own (lookup ▸ isOwn), fun own isOwn => reaped.incomplete own (lookup ▸ isOwn), ?_⟩,
      lookup⟩
    intro other session notOurs' found role a member
    rw [lookup_insert_eq] at found
    split at found
    next =>
      obtain rfl := Option.some.inj found
      cases role <;> cases member
    next => exact reaped.others other session notOurs' found role a member

variable (p) in
theorem rendezvous_eq (role : Role) (now : Nat) :
    p.rendezvous role now =
      ({ role, sid := p.sid, hello := p.hello role, main := (p.peer role).main, probes := (p.peer role).probes,
         window := (p.peer role).window, deadline := now + punchTimeout },
        (p.peer role).sockets.map fun src => { src, dst := p.server, bytes := p.hello role, sent := now }) := by
  rw [rendezvous]
  simp only [encodeHello_eq, Call.round]
  rw [if_neg (by rw [punchTimeout]; omega)]
  rfl

theorem ne_server {a : SocketAddr} (isSocket : a ∈ (p.peer role).sockets) : a ≠ p.server := by
  rintro rfl
  have apart := (List.nodup_append.mp p.apart).2.2
  cases role with
  | visitor => exact apart _ (List.mem_append_left _ isSocket) _ (List.mem_singleton_self _) rfl
  | provider => exact apart _ (List.mem_append_right _ isSocket) _ (List.mem_singleton_self _) rfl

theorem eq_of_sockets {a : SocketAddr} {other : Role} (isSocket : a ∈ (p.peer role).sockets)
    (isOther : a ∈ (p.peer other).sockets) : role = other := by
  have apart := (List.nodup_append.mp (List.nodup_append.mp p.apart).1).2.2
  cases role <;> cases other
  · rfl
  · exact absurd rfl (apart a isSocket a isOther)
  · exact absurd rfl (apart a isOther a isSocket)
  · rfl

theorem not_isForeign {a : SocketAddr} (isSocket : a ∈ (p.peer role).sockets) : ¬p.isForeign a := by
  intro isForeign
  have fromHost := p.host role a isSocket
  simp only [Setting.isForeign, Bool.and_eq_true, Bool.not_eq_true'] at isForeign
  cases role with
  | visitor => cases isForeign.1.1.symm.trans fromHost
  | provider => cases isForeign.1.2.symm.trans fromHost

theorem main_mem (role : Role) : (p.peer role).main ∈ (p.peer role).sockets := List.mem_cons_self

/-- A call that waits takes the answer, others go on as they are. -/
theorem Going.arrive {c : Call} (going : p.Going P role c) {addrs : List SocketAddr} (tellable : p.Tellable role.peer addrs)
    (told : P role addrs) (now : Nat) :
    c.phase = .receiving ∧ c.arrive now (p.answer role addrs) =
        { c with phase := .returned (.ok (buildRendezvous addrs (p.peer .visitor).transport c.window)) } ∨
      c.phase ≠ .receiving ∧ c.arrive now (p.answer role addrs) = c := by
  rw [Call.arrive]
  cases c with
  | mk isRole sid hello main probes window deadline inbox phase =>
    obtain ⟨rfl, rfl, stage⟩ := going
    dsimp only at stage
    cases stage with
    | waits =>
      refine .inl ⟨rfl, ?_⟩
      dsimp only
      rw [Call.receive, decode_answer tellable]
      exact if_pos ⟨rfl, rfl⟩
    | told => exact .inr ⟨nofun, rfl⟩
    | failed => exact .inr ⟨nofun, rfl⟩

theorem ne_server_of_isForeign {a : SocketAddr} (isForeign : p.isForeign a) : a ≠ p.server := by
  rw [Setting.isForeign, Bool.and_eq_true, decide_eq_true_eq] at isForeign
  exact isForeign.2

theorem arrive_foreign {d : Datagram} (isForeign : p.isForeign d.dst) : p.arrive s d = s := by
  have notServer : d.dst ≠ p.server := ne_server_of_isForeign isForeign
  have notMain : ∀ role, d.dst ≠ (p.peer role).main := fun role same =>
    not_isForeign (main_mem role) (same ▸ isForeign)
  rw [Setting.arrive, if_neg notServer]
  simp only [notMain, if_false]

theorem arrive_answer {d : Datagram} (isSocket : d.dst ∈ (p.peer role).sockets) :
    p.arrive s d = { s with
      calls := fun other => if d.dst = (p.peer other).main then (s.calls other).map (·.arrive s.now d.bytes) else s.calls other } := by
  rw [Setting.arrive, if_neg (ne_server isSocket)]

theorem wake_eq (sound : p.Sound P s) (role : Role) : p.step s (.wake role) = s := by
  rw [step]
  split
  next => rfl
  next c isCall =>
    have stage := (sound.calls role c isCall).stage
    split
    next wake isSleeping =>
      rw [isSleeping] at stage
      cases stage
    next => rfl

theorem Sound.exists_before (sound : p.Sound P s) {d : Datagram} {addrs : List SocketAddr}
    (isSocket : d.dst ∈ (p.peer role).sockets) (tellable : p.Tellable role.peer addrs) (told : P role addrs)
    (bytes : d.bytes = p.answer role addrs) {other : Role} {c : Call} (isCall : (p.arrive s d).calls other = some c) :
    ∃ before, s.calls other = some before ∧
      (c = before ∧ (d.dst = (p.peer other).main → c.phase ≠ .receiving) ∨ other = role ∧ before.phase = .receiving ∧
        c = { before with phase := .returned (.ok (buildRendezvous addrs (p.peer .visitor).transport before.window)) }) := by
  rw [arrive_answer isSocket] at isCall
  dsimp only at isCall
  split at isCall
  next isMain =>
    obtain ⟨before, wasCall, rfl⟩ := Option.map_eq_some_iff.mp isCall
    obtain rfl : role = other := eq_of_sockets isSocket (isMain ▸ main_mem other)
    refine ⟨before, wasCall, ?_⟩
    rw [bytes]
    rcases (sound.calls role before wasCall).arrive tellable told s.now with ⟨waited, after⟩ | ⟨done, after⟩
    · exact .inr ⟨rfl, waited, after⟩
    · exact .inl ⟨after, fun _ => after.symm ▸ done⟩
  next notMain => exact ⟨c, isCall, .inl ⟨rfl, fun isMain => absurd isMain notMain⟩⟩

theorem exists_after {d : Datagram} (isSocket : d.dst ∈ (p.peer role).sockets) {other : Role} {c : Call}
    (isCall : s.calls other = some c) : ∃ later, (p.arrive s d).calls other = some later := by
  rw [arrive_answer isSocket]
  dsimp only
  split
  next => exact ⟨_, by rw [isCall, Option.map_some]⟩
  next => exact ⟨c, isCall⟩

theorem Sound.answer (sound : p.Sound P s) {d : Datagram} {addrs : List SocketAddr} (isSocket : d.dst ∈ (p.peer role).sockets)
    (tellable : p.Tellable role.peer addrs) (told : P role addrs) (bytes : d.bytes = p.answer role addrs) :
    p.Sound P (p.arrive s d) := by
  have others : ∀ other c, s.calls other = some c → ∃ later, (p.arrive s d).calls other = some later :=
    fun _ _ => exists_after isSocket
  have same : p.arrive s d = { s with calls := (p.arrive s d).calls } := by rw [arrive_answer isSocket]
  rw [same]
  refine { sound with
    started := fun session found other slot isSlot => ?_
    flight := fun e member => (sound.flight e member).mono others
    calls := fun other c isCall => ?_
    expired := fun other c e isCall hasFailed => ?_ }
  · obtain ⟨c, isCall⟩ := sound.started session found other slot isSlot
    exact others other c isCall
  · obtain ⟨c', wasCall, ⟨rfl, -⟩ | ⟨rfl, -, rfl⟩⟩ := sound.exists_before isSocket tellable told bytes isCall
    · exact sound.calls other c wasCall
    · have going := sound.calls other c' wasCall
      exact ⟨going.isRole, going.sid, .told addrs tellable told⟩
  · obtain ⟨c', wasCall, ⟨rfl, -⟩ | ⟨-, -, rfl⟩⟩ := sound.exists_before isSocket tellable told bytes isCall
    · exact sound.expired other c e wasCall hasFailed
    · cases hasFailed

theorem Sound.fewer (sound : p.Sound P s) {inFlight : List Datagram} (subset : inFlight ⊆ s.inFlight) (calmSince : Nat) :
    p.Sound P { s with inFlight, calmSince } :=
  { sound with flight := fun d member => sound.flight d (subset member) }

theorem Sound.more (sound : p.Sound P s) {sends : List Datagram} (known : ∀ d ∈ sends, p.Known P s.calls d) :
    p.Sound P { s with inFlight := s.inFlight ++ sends } :=
  { sound with flight := List.forall_mem_append.mpr ⟨sound.flight, known⟩ }

theorem Sound.setCall (sound : p.Sound P s) {c : Call} (going : p.Going P role c)
    (expired : ∀ e, c.phase = .returned (.error e) → c.deadline ≤ s.now) : p.Sound P (s.setCall role c) := by
  have others : ∀ other d, s.calls other = some d → ∃ later, (s.setCall role c).calls other = some later := by
    intro other d isCall
    rw [System.setCall]
    dsimp only
    split
    next => exact ⟨c, rfl⟩
    next => exact ⟨d, isCall⟩
  refine { sound with
    started := fun session found other slot isSlot => ?_
    flight := fun e member => (sound.flight e member).mono others
    calls := fun other d isCall => ?_
    expired := fun other d e isCall hasFailed => ?_ }
  · obtain ⟨d, isCall⟩ := sound.started session found other slot isSlot
    exact others other d isCall
  · rw [System.setCall] at isCall
    dsimp only at isCall
    split at isCall
    next isRole =>
      obtain rfl := Option.some.inj isCall
      exact isRole ▸ going
    next => exact sound.calls other d isCall
  · rw [System.setCall] at isCall
    dsimp only at isCall
    split at isCall
    next =>
      obtain rfl := Option.some.inj isCall
      exact expired e hasFailed
    next => exact sound.expired other d e isCall hasFailed

theorem Sound.foreign (sound : p.Sound P s) (isForeign : p.isForeign src) (bytes : List UInt8) :
    p.Sound P (p.serve s src bytes) := by
  obtain ⟨hub, answers, served, kept, lookup, toForeign⟩ := served_foreign s sound.kept isForeign bytes
  rw [served]
  refine { sound with kept, started := fun session found => ?_, flight := fun d member => ?_ }
  · rcases lookup with same | reaped
    · exact sound.started session (same ▸ found)
    · exact sound.started session (lookup_of_reap (reaped ▸ found))
  · rcases List.mem_append.mp member with before | isNew
    · exact sound.flight d before
    · exact .other (toForeign d isNew).2.1

theorem sound_step (event : Event) (tells : p.Tells P s event) (sound : p.Sound P s) : p.Sound P (p.step s event) := by
  cases event with
  | tick =>
    refine { sound with since := sound.since.trans (Nat.le_succ _), expired := fun role c e isCall hasFailed => ?_ }
    exact (sound.expired role c e isCall hasFailed).trans (Nat.le_succ _)
  | start role =>
    rw [step]
    split
    next => exact sound
    next none =>
      rw [rendezvous_eq]
      have going : p.Going P role (p.rendezvous role s.now).1 := by
        rw [rendezvous_eq]
        exact ⟨rfl, rfl, .waits⟩
      rw [rendezvous_eq] at going
      refine (sound.setCall going nofun).more fun d member => ?_
      obtain ⟨a, isSocket, rfl⟩ := List.mem_map.mp member
      exact .hello role isSocket rfl rfl ⟨_, if_pos rfl⟩
  | deliver index =>
    rw [step]
    split
    next => exact sound
    next d found =>
      have member := List.mem_of_getElem? found
      have erased : p.Sound P { s with inFlight := s.inFlight.eraseIdx index } :=
        sound.fewer List.eraseIdx_subset s.calmSince
      cases sound.flight d member with
      | hello role isSocket toServer bytes started =>
        rw [Setting.arrive, if_pos toServer, bytes]
        refine erased.serve isSocket started fun session other noted isOther => ?_
        exact tells d role other found ⟨toServer, ⟨_, bytes ▸ p.decode_hello role⟩, session, noted, isOther⟩
      | answer role addrs isSocket tellable told bytes => exact erased.answer isSocket tellable told bytes
      | other isForeign => rwa [arrive_foreign isForeign]
  | duplicate index =>
    refine { sound with flight := fun d member => ?_ }
    rcases List.mem_append.mp member with before | copy
    · exact sound.flight d before
    · exact sound.flight d (List.mem_of_getElem? (Option.mem_toList.mp copy))
  | lose index =>
    rw [step]
    split
    next => exact sound
    next => exact sound.fewer List.eraseIdx_subset s.now
  | wake role => exact (wake_eq sound role).symm ▸ sound
  | expire role =>
    rw [step]
    split
    next => exact sound
    next c isCall =>
      split
      next waits =>
        split
        next late =>
          have going := sound.calls role c isCall
          exact sound.setCall ⟨going.isRole, going.sid, .failed _⟩ fun e _ => late
        next => exact sound
      next => exact sound
  | foreign src bytes =>
    rw [step]
    split
    next isForeign => exact sound.foreign isForeign bytes
    next => exact sound
  | create sid visitorIp providerIp =>
    rw [step]
    split
    next => exact sound
    next notOurs =>
      obtain ⟨kept, lookup⟩ := sound.kept.create s.now notOurs visitorIp providerIp
      exact { sound with kept, started := fun session found => sound.started session (lookup_of_reap (lookup ▸ found)) }

end Setting

end Nfrp.P2p
