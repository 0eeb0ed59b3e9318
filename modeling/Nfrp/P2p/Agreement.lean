import Nfrp.P2p.Told

/-!
# Whether both peers learn of each other

A call sends its HELLOs once and waits for the answer until its deadline, and the server
answers once.  Where none of these few datagrams is lost, and a main socket completes the
pair, both calls return within a second.
-/

namespace Nfrp.P2p

open Lib

def System.startedAt (s : System) (role : Role) : Nat :=
  (s.calls role).elim 0 fun c => c.deadline - punchTimeout

/-- From here on both calls have begun and nothing was lost. -/
def System.base (s : System) : Nat :=
  max s.calmSince (max (s.startedAt .visitor) (s.startedAt .provider))

theorem System.startedAt_some {s : System} {role : Role} {c : Call} (isCall : s.calls role = some c) :
    s.startedAt role = c.deadline - punchTimeout := by
  rw [startedAt, isCall, Option.elim_some]

theorem System.startedAt_none {s : System} {role : Role} (none : s.calls role = none) : s.startedAt role = 0 := by
  rw [startedAt, none, Option.elim_none]

theorem System.startedAt_le_base (s : System) (role : Role) : s.startedAt role ≤ s.base := by
  cases role with
  | visitor => exact (le_max_left _ _).trans (le_max_right _ _)
  | provider => exact (le_max_right _ _).trans (le_max_right _ _)

namespace Setting

variable (p : Setting)

structure Honest (s : System) : Prop where
  hosts : ∀ role c rd, s.calls role = some c → c.phase = .returned (.ok rd) →
    ∀ a ∈ rd.addrs ++ rd.candidates, sameHost a.ip (p.peer role.peer).controlIp
  transport : ∀ role other c d rd re, s.calls role = some c → s.calls other = some d → c.phase = .returned (.ok rd) →
    d.phase = .returned (.ok re) → rd.transport = re.transport

/-- They were told of the main sockets too, and have all returned once a second has passed. -/
structure Agreed (s : System) : Prop extends Honest p s where
  main : ∀ role c rd, s.calls role = some c → c.phase = .returned (.ok rd) → (p.peer role.peer).main ∈ rd.addrs
  answered : s.fullSecond → ∀ role, ∃ c rd, s.calls role = some c ∧ c.phase = .returned (.ok rd)

def TellsMain (role : Role) (addrs : List SocketAddr) : Prop := (p.peer role.peer).main ∈ addrs

/-- A main socket whose HELLO the server has not heard, and a call that waits for its
answer, need the datagram. -/
def Needed (s : System) (d : Datagram) : Prop :=
  (∃ role session, d.src = (p.peer role).main ∧ d.dst = p.server ∧ s.hub.lookup p.sid = some session ∧
      d.src ∉ session.heard role) ∨
    ∃ role c, d.dst = (p.peer role).main ∧ s.calls role = some c ∧ c.phase = .receiving

/-- The last copy of a datagram that is needed is not lost, and the pair is completed by a
main socket, when the other main socket has been heard. -/
def Spares (s : System) : Event → Prop
  | .deliver index => ∀ d role other, s.inFlight[index]? = some d → p.Completing s d role other →
      d.src = (p.peer role).main ∧ (p.peer role.peer).main ∈ other.addrs
  | .lose index => ∀ d, s.inFlight[index]? = some d → p.Needed s d →
      ∃ e ∈ s.inFlight.eraseIdx index, e.src = d.src ∧ e.dst = d.dst ∧ e.bytes = d.bytes
  | _ => True

/-- Until an answer has come something is on its way that leads to it, and since when is
known. -/
structure Timely (s : System) : Prop where
  calm : s.calmSince ≤ s.now
  late : ∀ d ∈ s.inFlight, s.now ≤ d.sent + p.latency ∨ s.now ≤ s.calmSince
  sent : ∀ d ∈ s.inFlight, d.sent ≤ s.now
  heard : ∀ session, s.hub.lookup p.sid = some session → ∀ role c, s.calls role = some c →
    (p.peer role).main ∈ session.heard role ∨
      ∃ d ∈ s.inFlight, d.src = (p.peer role).main ∧ d.dst = p.server ∧ d.sent ≤ s.base
  answered : s.now < p.created + sessionTtl → s.hub.lookup p.sid = none → ∀ role, ∃ c, s.calls role = some c ∧
    (c.phase = .receiving → ∃ d ∈ s.inFlight, d.dst = (p.peer role).main ∧ d.sent ≤ s.base + p.latency)
  full : s.fullSecond → ∀ role, ∃ c rd, s.calls role = some c ∧ c.phase = .returned (.ok rd)

variable {p} {s : System}

theorem tells_of_spares {event : Event} (spares : p.Spares s event) : p.Tells p.TellsMain s event := by
  cases event with
  | deliver index =>
    intro d role other found completing
    obtain ⟨isMain, told⟩ := spares d role other found completing
    refine ⟨told, ?_⟩
    rw [TellsMain, Role.peer_peer, isMain]
    exact List.mem_singleton_self _
  | tick | start | duplicate | lose | wake | expire | foreign | create => exact trivial

theorem mem_eraseIdx_of_ne {index : Nat} {d e : Datagram} (found : s.inFlight[index]? = some d) (member : e ∈ s.inFlight)
    (other : e ≠ d) : e ∈ s.inFlight.eraseIdx index := by
  obtain ⟨inside, isDatagram⟩ := List.getElem?_eq_some_iff.mp found
  have perm := List.getElem_cons_eraseIdx_perm inside
  rw [isDatagram] at perm
  exact (List.mem_cons.mp (perm.mem_iff.mpr member)).resolve_left other

theorem Kept.lookup_reap_of_alive {hub : P2PHub} {now : Nat} (kept : p.Kept hub) (alive : now < p.created + sessionTtl) :
    (hub.reap now).lookup p.sid = hub.lookup p.sid := by
  rw [kept.lookup_reap, if_pos]
  rw [sessionTtl] at alive ⊢
  omega

theorem timely_start : p.Timely p.start where
  calm := le_rfl
  late := fun d member => nomatch member
  sent := fun d member => nomatch member
  heard := fun session _ role c isCall => nomatch isCall
  answered := by
    intro _ none
    rw [start_hub, AList.lookup_insert] at none
    cases none
  full := fun isFull => nomatch isFull

/-- More is on its way, and the server may have let go of the session. -/
theorem Timely.more (timely : p.Timely s) (kept : p.Kept s.hub) {hub : P2PHub}
    (lookup : hub.lookup p.sid = s.hub.lookup p.sid ∨ hub.lookup p.sid = (s.hub.reap s.now).lookup p.sid)
    {extra : List Datagram} (late : ∀ d ∈ extra, s.now ≤ d.sent + p.latency ∨ s.now ≤ s.calmSince)
    (sent : ∀ d ∈ extra, d.sent ≤ s.now) : p.Timely { s with hub, inFlight := s.inFlight ++ extra } where
  calm := timely.calm
  late := List.forall_mem_append.mpr ⟨timely.late, late⟩
  sent := List.forall_mem_append.mpr ⟨timely.sent, sent⟩
  heard := by
    intro session found role c isCall
    have before : s.hub.lookup p.sid = some session := by
      rcases lookup with same | reaped
      · exact same ▸ found
      · exact lookup_of_reap (reaped ▸ found)
    rcases timely.heard session before role c isCall with isHeard | ⟨d, member, rest⟩
    · exact .inl isHeard
    · exact .inr ⟨d, List.mem_append_left _ member, rest⟩
  answered := by
    intro alive none role
    have before : s.hub.lookup p.sid = Option.none := by
      rcases lookup with same | reaped
      · exact same ▸ none
      · rwa [← kept.lookup_reap_of_alive alive, ← reaped]
    obtain ⟨c, isCall, waits⟩ := timely.answered alive before role
    refine ⟨c, isCall, fun isWaiting => ?_⟩
    obtain ⟨d, member, rest⟩ := waits isWaiting
    exact ⟨d, List.mem_append_left _ member, rest⟩
  full := timely.full

/-- As long as the session is there and a main socket has not been heard, it is not late. -/
theorem Timely.soon (timely : p.Timely s) {session : Session} (found : s.hub.lookup p.sid = some session) {role : Role}
    {c : Call} (isCall : s.calls role = some c) (unheard : (p.peer role).main ∉ session.heard role) :
    s.now ≤ s.base + p.latency := by
  rcases timely.heard session found role c isCall with isHeard | ⟨d, member, -, -, before⟩
  · exact absurd isHeard unheard
  · have calm : s.calmSince ≤ s.base := le_max_left _ _
    rcases timely.late d member with inTime | lost
    · omega
    · omega

theorem Timely.serve {s : System} {index : Nat} {d : Datagram} {role : Role} {result : System} (timely : p.Timely s)
    (sound : p.Sound p.TellsMain s) (found : s.inFlight[index]? = some d) (isSocket : d.src ∈ (p.peer role).sockets)
    (toServer : d.dst = p.server) (isCall : ∃ c, s.calls role = some c)
    (completes : ∀ session other, (s.hub.reap s.now).lookup p.sid = some session → session.get role.peer = some other →
      d.src = (p.peer role).main ∧ (p.peer role.peer).main ∈ other.addrs)
    (served : p.Served { s with inFlight := s.inFlight.eraseIdx index } role d.src result) : p.Timely result := by
  have late : ∀ e ∈ s.inFlight.eraseIdx index, s.now ≤ e.sent + p.latency ∨ s.now ≤ s.calmSince :=
    fun e member => timely.late e (List.mem_of_mem_eraseIdx member)
  have sent : ∀ e ∈ s.inFlight.eraseIdx index, e.sent ≤ s.now :=
    fun e member => timely.sent e (List.mem_of_mem_eraseIdx member)
  have answered : ∀ role', ∀ e ∈ s.inFlight, e.dst = (p.peer role').main → e ∈ s.inFlight.eraseIdx index := by
    intro role' e member isMain
    refine mem_eraseIdx_of_ne found member ?_
    rintro rfl
    exact ne_server (main_mem role') (isMain.symm.trans toServer)
  cases served with
  | gone none =>
    refine { timely with late, sent, heard := fun session isSession => ?_, answered := fun alive _ role' => ?_ }
    · cases none.symm.trans isSession
    · have before := none
      rw [sound.kept.lookup_reap_of_alive alive] at before
      obtain ⟨c, isCall', waits⟩ := timely.answered alive before role'
      refine ⟨c, isCall', fun isWaiting => ?_⟩
      obtain ⟨e, member, isMain, rest⟩ := waits isWaiting
      exact ⟨e, answered role' e member isMain, isMain, rest⟩
  | @waiting session slot isSession first noted isHeard more =>
    refine { timely with late, sent, heard := fun later isLater role' c isCall' => ?_, answered := fun _ none => ?_ }
    · rw [AList.lookup_insert] at isLater
      obtain rfl := Option.some.inj isLater
      rcases timely.heard session (lookup_of_reap isSession) role' c isCall' with before | ⟨e, member, isMain, rest⟩
      · rcases Role.eq_or_eq_peer role' role with rfl | rfl
        · rw [Session.heard_put]
          exact .inl (more before)
        · rw [Session.heard_put_peer]
          exact .inl before
      · by_cases same : d.src = (p.peer role').main
        · obtain rfl : role = role' := eq_of_sockets isSocket (same ▸ main_mem role')
          rw [Session.heard_put]
          exact .inl (same ▸ isHeard)
        · refine .inr ⟨e, mem_eraseIdx_of_ne found member ?_, isMain, rest⟩
          rintro rfl
          exact same isMain
    · rw [AList.lookup_insert] at none
      cases none
  | @ready session slot other isSession isOther tellable =>
    obtain ⟨isMain, known⟩ := completes session other isSession isOther
    have soon : s.now ≤ s.base + p.latency := by
      obtain ⟨c, isCall⟩ := isCall
      refine timely.soon (lookup_of_reap isSession) isCall fun isHeard => ?_
      obtain ⟨missing, none⟩ := sound.kept.incomplete session (lookup_of_reap isSession)
      rcases Role.eq_or_eq_peer missing role with rfl | rfl
      · rw [Session.heard, none] at isHeard
        cases isHeard
      · cases none.symm.trans isOther
    have now : ∀ e ∈ ({ src := p.server, dst := d.src, bytes := p.answer role other.addrs, sent := s.now } ::
        other.addrs.map fun a => { src := p.server, dst := a, bytes := p.answer role.peer [d.src], sent := s.now } :
        List Datagram), e.sent = s.now := by
      refine List.forall_mem_cons.mpr ⟨rfl, fun e member => ?_⟩
      obtain ⟨a, -, rfl⟩ := List.mem_map.mp member
      rfl
    refine
      { timely with
        late := List.forall_mem_append.mpr ⟨late, fun e isNew => .inl ?_⟩
        sent := List.forall_mem_append.mpr ⟨sent, fun e isNew => (now e isNew).le⟩
        heard := fun later isLater => ?_
        answered := fun _ _ role' => ?_ }
    · rw [now e isNew]
      exact Nat.le_add_right _ _
    · rw [lookup_finish] at isLater
      cases isLater
    · rcases Role.eq_or_eq_peer role' role with rfl | rfl
      · obtain ⟨c, isCall⟩ := isCall
        exact ⟨c, isCall, fun _ => ⟨_, List.mem_append_right _ List.mem_cons_self, isMain, soon⟩⟩
      · obtain ⟨c, isCall'⟩ := sound.started session (lookup_of_reap isSession) role.peer other isOther
        have toOther := List.mem_cons_of_mem
          { src := p.server, dst := d.src, bytes := p.answer role other.addrs, sent := s.now : Datagram }
          (List.mem_map_of_mem
            (f := fun a => { src := p.server, dst := a, bytes := p.answer role.peer [d.src], sent := s.now : Datagram }) known)
        exact ⟨c, isCall', fun _ => ⟨_, List.mem_append_right _ toOther, rfl, soon⟩⟩

/-- The answers that a call waits for end it; no other call changes. -/
theorem Timely.answer {index : Nat} {d : Datagram} {role : Role} {addrs : List SocketAddr} (timely : p.Timely s)
    (sound : p.Sound p.TellsMain s) (found : s.inFlight[index]? = some d) (isSocket : d.dst ∈ (p.peer role).sockets)
    (tellable : p.Tellable role.peer addrs) (told : p.TellsMain role addrs) (bytes : d.bytes = p.answer role addrs) :
    p.Timely (p.arrive { s with inFlight := s.inFlight.eraseIdx index } d) := by
  have erased : p.Sound p.TellsMain { s with inFlight := s.inFlight.eraseIdx index } :=
    sound.fewer List.eraseIdx_subset s.calmSince
  obtain ⟨calls, isCalls⟩ : ∃ calls, (p.arrive { s with inFlight := s.inFlight.eraseIdx index } d).calls = calls := ⟨_, rfl⟩
  have same : p.arrive { s with inFlight := s.inFlight.eraseIdx index } d =
      { s with inFlight := s.inFlight.eraseIdx index, calls } := by
    rw [← isCalls, arrive_answer isSocket]
  have before : ∀ other c, calls other = some c → ∃ c', s.calls other = some c' ∧ c.deadline = c'.deadline ∧
      (c.phase = .receiving → c'.phase = .receiving ∧ d.dst ≠ (p.peer other).main) ∧
      ∀ rd, c'.phase = .returned (.ok rd) → c.phase = .returned (.ok rd) := by
    intro other c isCall
    obtain ⟨c', wasCall, ⟨rfl, done⟩ | ⟨-, waited, rfl⟩⟩ :=
      erased.exists_before isSocket tellable told bytes (isCalls ▸ isCall)
    · exact ⟨c, wasCall, rfl, fun waits => ⟨waits, fun isMain => done isMain waits⟩, fun _ => id⟩
    · exact ⟨c', wasCall, rfl, nofun, fun rd hasReturned => nomatch waited.symm.trans hasReturned⟩
  have after : ∀ other c, s.calls other = some c → ∃ later, calls other = some later := by
    intro other c wasCall
    rw [← isCalls]
    exact exists_after isSocket wasCall
  have started : ∀ other, System.startedAt { s with inFlight := s.inFlight.eraseIdx index, calls } other = s.startedAt other := by
    intro other
    cases wasCall : s.calls other with
    | none =>
      have isNone : calls other = none := by
        cases isCall : calls other with
        | none => rfl
        | some c =>
          obtain ⟨c', wasCall', -⟩ := before other c isCall
          cases wasCall.symm.trans wasCall'
      rw [System.startedAt_none wasCall, System.startedAt_none isNone]
    | some c' =>
      obtain ⟨c, isCall⟩ := after other c' wasCall
      obtain ⟨c'', wasCall', sameDeadline, -⟩ := before other c isCall
      obtain rfl := Option.some.inj (wasCall.symm.trans wasCall')
      rw [System.startedAt_some wasCall, System.startedAt_some isCall, sameDeadline]
  have base : System.base { s with inFlight := s.inFlight.eraseIdx index, calls } = s.base := by
    rw [System.base, System.base, started, started]
  have notServer : ∀ e ∈ s.inFlight, e.dst = p.server → e ∈ s.inFlight.eraseIdx index := by
    intro e member toServer
    refine mem_eraseIdx_of_ne found member ?_
    rintro rfl
    exact ne_server isSocket toServer
  rw [same]
  refine
    { calm := timely.calm
      late := fun e member => timely.late e (List.mem_of_mem_eraseIdx member)
      sent := fun e member => timely.sent e (List.mem_of_mem_eraseIdx member)
      heard := fun session isSession other c isCall => ?_
      answered := fun alive none other => ?_
      full := fun isFull other => ?_ }
  · obtain ⟨c', wasCall, -⟩ := before other c isCall
    rw [base]
    rcases timely.heard session isSession other c' wasCall with isHeard | ⟨e, member, isMain, toServer, rest⟩
    · exact .inl isHeard
    · exact .inr ⟨e, notServer e member toServer, isMain, toServer, rest⟩
  · obtain ⟨c', wasCall, waits⟩ := timely.answered alive none other
    obtain ⟨c, isCall⟩ := after other c' wasCall
    obtain ⟨c'', wasCall', -, waited, -⟩ := before other c isCall
    obtain rfl := Option.some.inj (wasCall.symm.trans wasCall')
    refine ⟨c, isCall, fun isWaiting => ?_⟩
    obtain ⟨wasWaiting, notMain⟩ := waited isWaiting
    obtain ⟨e, member, isMain, rest⟩ := waits wasWaiting
    rw [base]
    refine ⟨e, mem_eraseIdx_of_ne found member ?_, isMain, rest⟩
    rintro rfl
    exact notMain isMain
  · obtain ⟨c', rd, wasCall, hasReturned⟩ := timely.full isFull other
    obtain ⟨c, isCall⟩ := after other c' wasCall
    obtain ⟨c'', wasCall', -, -, kept⟩ := before other c isCall
    obtain rfl := Option.some.inj (wasCall.symm.trans wasCall')
    exact ⟨c, rd, isCall, kept rd hasReturned⟩

theorem Timely.dropped (timely : p.Timely s) {index : Nat} {d : Datagram} (found : s.inFlight[index]? = some d)
    (isForeign : p.isForeign d.dst) : p.Timely { s with inFlight := s.inFlight.eraseIdx index } where
  calm := timely.calm
  late := fun e member => timely.late e (List.mem_of_mem_eraseIdx member)
  sent := fun e member => timely.sent e (List.mem_of_mem_eraseIdx member)
  heard := by
    intro session isSession role c isCall
    rcases timely.heard session isSession role c isCall with isHeard | ⟨e, member, isMain, toServer, before⟩
    · exact .inl isHeard
    · refine .inr ⟨e, mem_eraseIdx_of_ne found member ?_, isMain, toServer, before⟩
      rintro rfl
      exact ne_server_of_isForeign isForeign toServer
  answered := by
    intro alive none role
    obtain ⟨c, isCall, waits⟩ := timely.answered alive none role
    refine ⟨c, isCall, fun isWaiting => ?_⟩
    obtain ⟨e, member, isMain, before⟩ := waits isWaiting
    refine ⟨e, mem_eraseIdx_of_ne found member ?_, isMain, before⟩
    rintro rfl
    exact not_isForeign (main_mem role) (isMain ▸ isForeign)
  full := timely.full

theorem Timely.lose (timely : p.Timely s) {index : Nat} {d : Datagram} (found : s.inFlight[index]? = some d)
    (spares : p.Needed s d → ∃ e ∈ s.inFlight.eraseIdx index, e.src = d.src ∧ e.dst = d.dst ∧ e.bytes = d.bytes) :
    p.Timely { s with inFlight := s.inFlight.eraseIdx index, calmSince := s.now } := by
  have base : s.base ≤ System.base { s with inFlight := s.inFlight.eraseIdx index, calmSince := s.now } :=
    max_le_max timely.calm le_rfl
  have now : s.now ≤ System.base { s with inFlight := s.inFlight.eraseIdx index, calmSince := s.now } := le_max_left _ _
  refine
    { calm := le_rfl
      late := fun e _ => .inr le_rfl
      sent := fun e member => timely.sent e (List.mem_of_mem_eraseIdx member)
      heard := fun session isSession role c isCall => ?_
      answered := fun alive none role => ?_
      full := timely.full }
  · rcases timely.heard session isSession role c isCall with isHeard | ⟨e, member, isMain, toServer, before⟩
    · exact .inl isHeard
    by_cases isHeard : (p.peer role).main ∈ session.heard role
    · exact .inl isHeard
    by_cases isLost : e = d
    · subst isLost
      obtain ⟨copy, isCopy, sameSrc, sameDst, -⟩ :=
        spares (.inl ⟨role, session, isMain, toServer, isSession, isMain ▸ isHeard⟩)
      refine .inr ⟨copy, isCopy, sameSrc.trans isMain, sameDst.trans toServer, ?_⟩
      exact (timely.sent copy (List.mem_of_mem_eraseIdx isCopy)).trans now
    · exact .inr ⟨e, mem_eraseIdx_of_ne found member isLost, isMain, toServer, before.trans base⟩
  · obtain ⟨c, isCall, waits⟩ := timely.answered alive none role
    refine ⟨c, isCall, fun isWaiting => ?_⟩
    obtain ⟨e, member, isMain, before⟩ := waits isWaiting
    by_cases isLost : e = d
    · subst isLost
      obtain ⟨copy, isCopy, -, sameDst, -⟩ := spares (.inr ⟨role, c, isMain, isCall, isWaiting⟩)
      refine ⟨copy, isCopy, sameDst.trans isMain, ?_⟩
      exact ((timely.sent copy (List.mem_of_mem_eraseIdx isCopy)).trans now).trans (Nat.le_add_right _ _)
    · exact ⟨e, mem_eraseIdx_of_ne found member isLost, isMain, before.trans (Nat.add_le_add_right base _)⟩

theorem Timely.returned (timely : p.Timely s) (sound : p.Sound p.TellsMain s)
    (notExpired : ∀ role c e, s.calls role = some c → c.phase = .returned (.error e) → c.deadline < s.now)
    (passed : p.secondPassed s) (role : Role) : ∃ c rd, s.calls role = some c ∧ c.phase = .returned (.ok rd) := by
  rw [secondPassed] at passed
  split at passed
  next v q isVisitor isProvider =>
    rw [← System.startedAt_some isVisitor, ← System.startedAt_some isProvider] at passed
    obtain ⟨calm, beforeVisitor, beforeProvider, alive⟩ := of_decide_eq_true passed
    change s.base + 1000 ≤ s.now at calm
    have fits := p.answerFits
    have inTime : ∀ d ∈ s.inFlight, s.now ≤ d.sent + p.latency := by
      intro d member
      rcases timely.late d member with inTime | lost
      · exact inTime
      · have : s.calmSince ≤ s.base := le_max_left _ _
        omega
    have deadline : ∀ c, s.calls role = some c → s.now ≤ c.deadline := by
      intro c isCall
      cases role with
      | visitor => exact Option.some.inj (isVisitor.symm.trans isCall) ▸ beforeVisitor
      | provider => exact Option.some.inj (isProvider.symm.trans isCall) ▸ beforeProvider
    have noSession : s.hub.lookup p.sid = none := by
      by_contra some
      obtain ⟨session, isSession⟩ := Option.ne_none_iff_exists'.mp some
      obtain ⟨missing, none⟩ := sound.kept.incomplete session isSession
      obtain ⟨c, isCall⟩ : ∃ c, s.calls missing = Option.some c := by
        cases missing with
        | visitor => exact ⟨v, isVisitor⟩
        | provider => exact ⟨q, isProvider⟩
      have soon := timely.soon isSession isCall (by rw [Session.heard, none]; exact List.not_mem_nil)
      omega
    obtain ⟨c, isCall, waits⟩ := timely.answered alive noSession role
    have stage := (sound.calls role c isCall).stage
    cases isPhase : c.phase with
    | receiving =>
      obtain ⟨d, member, -, before⟩ := waits isPhase
      have := inTime d member
      omega
    | sleeping wake =>
      rw [isPhase] at stage
      cases stage
    | returned result =>
      cases result with
      | ok rd => exact ⟨c, rd, isCall, isPhase⟩
      | error e => exact absurd (deadline c isCall) (not_le.mpr (notExpired role c e isCall isPhase))
  next => cases passed

theorem Timely.tick (timely : p.Timely s) (sound : p.Sound p.TellsMain s) : p.Timely (p.step s .tick) := by
  obtain ⟨calmSince, isCalm⟩ :
      ∃ calmSince, (if s.inFlight.any (·.sent + p.latency < s.now + 1) then s.now + 1 else s.calmSince) = calmSince := ⟨_, rfl⟩
  have same : p.step s .tick =
      { s with now := s.now + 1, calmSince, fullSecond := s.fullSecond || p.secondPassed { s with now := s.now + 1, calmSince } } := by
    rw [step, isCalm]
  have calm : s.calmSince ≤ calmSince ∧ calmSince ≤ s.now + 1 := by
    have := timely.calm
    rw [← isCalm]
    split <;> omega
  have late : ∀ d ∈ s.inFlight, s.now + 1 ≤ d.sent + p.latency ∨ s.now + 1 ≤ calmSince := by
    intro d member
    by_cases inTime : s.now + 1 ≤ d.sent + p.latency
    · exact .inl inTime
    · refine .inr ?_
      rw [← isCalm, if_pos (List.any_eq_true.mpr ⟨d, member, decide_eq_true (not_le.mp inTime)⟩)]
  have base : s.base ≤ System.base { s with now := s.now + 1, calmSince } := max_le_max calm.1 le_rfl
  have later : p.Timely { s with now := s.now + 1, calmSince } :=
    { calm := calm.2
      late
      sent := fun d member => (timely.sent d member).trans (Nat.le_succ _)
      heard := by
        intro session isSession role c isCall
        rcases timely.heard session isSession role c isCall with isHeard | ⟨d, member, isMain, toServer, before⟩
        · exact .inl isHeard
        · exact .inr ⟨d, member, isMain, toServer, before.trans base⟩
      answered := by
        intro alive none role
        obtain ⟨c, isCall, waits⟩ := timely.answered (Nat.lt_of_succ_lt alive) none role
        refine ⟨c, isCall, fun isWaiting => ?_⟩
        obtain ⟨d, member, isMain, before⟩ := waits isWaiting
        exact ⟨d, member, isMain, before.trans (Nat.add_le_add_right base _)⟩
      full := timely.full }
  have soundLater : p.Sound p.TellsMain { s with now := s.now + 1, calmSince } :=
    { sound with
      since := sound.since.trans (Nat.le_succ _)
      expired := fun role c e isCall hasFailed => (sound.expired role c e isCall hasFailed).trans (Nat.le_succ _) }
  rw [same]
  refine { later with full := fun isFull role => ?_ }
  rcases (Bool.or_eq_true _ _).mp isFull with before | passed
  · exact timely.full before role
  · refine later.returned soundLater (fun role c e isCall hasFailed => ?_) passed role
    exact Nat.lt_succ_of_le (sound.expired role c e isCall hasFailed)

theorem startedAt_setCall_of_ne {role other : Role} (c : Call) (different : other ≠ role) :
    (s.setCall role c).startedAt other = s.startedAt other := by
  rw [System.startedAt, System.startedAt, System.setCall]
  dsimp only
  rw [if_neg different]

theorem startedAt_setCall (role : Role) (c : Call) : (s.setCall role c).startedAt role = c.deadline - punchTimeout :=
  System.startedAt_some (if_pos rfl)

theorem base_le_setCall {role : Role} {c : Call} (later : s.startedAt role ≤ c.deadline - punchTimeout) :
    s.base ≤ (s.setCall role c).base := by
  have started : ∀ other, s.startedAt other ≤ (s.setCall role c).startedAt other := by
    intro other
    by_cases same : other = role
    · subst same
      rw [startedAt_setCall]
      exact later
    · rw [startedAt_setCall_of_ne c same]
  exact max_le_max le_rfl (max_le_max (started _) (started _))

theorem Timely.expire (timely : p.Timely s) {role : Role} {c : Call} (isCall : s.calls role = some c)
    (waits : c.phase = .receiving) : p.Timely (s.setCall role c.timedOut) := by
  have base : s.base ≤ (s.setCall role c.timedOut).base := base_le_setCall (System.startedAt_some isCall).le
  have calls : ∀ other, (s.setCall role c.timedOut).calls other = if other = role then some c.timedOut else s.calls other :=
    fun _ => rfl
  refine
    { calm := timely.calm
      late := timely.late
      sent := timely.sent
      heard := fun session isSession other d isOther => ?_
      answered := fun alive none other => ?_
      full := fun isFull => ?_ }
  · obtain ⟨before, wasCall⟩ : ∃ before, s.calls other = some before := by
      rw [calls] at isOther
      split at isOther
      next same => exact ⟨c, same ▸ isCall⟩
      next => exact ⟨d, isOther⟩
    rcases timely.heard session isSession other before wasCall with isHeard | ⟨e, member, isMain, toServer, rest⟩
    · exact .inl isHeard
    · exact .inr ⟨e, member, isMain, toServer, rest.trans base⟩
  · rw [calls]
    split
    next => exact ⟨_, rfl, nofun⟩
    next =>
      obtain ⟨d, isOther, rest⟩ := timely.answered alive none other
      refine ⟨d, isOther, fun isWaiting => ?_⟩
      obtain ⟨e, member, isMain, before⟩ := rest isWaiting
      exact ⟨e, member, isMain, before.trans (Nat.add_le_add_right base _)⟩
  · obtain ⟨d, rd, wasCall, hasReturned⟩ := timely.full isFull role
    obtain rfl := Option.some.inj (isCall.symm.trans wasCall)
    cases waits.symm.trans hasReturned

theorem Timely.start (timely : p.Timely s) {role : Role} (none : s.calls role = none) :
    p.Timely (System.setCall { s with inFlight := s.inFlight ++ (p.rendezvous role s.now).2 } role (p.rendezvous role s.now).1) := by
  obtain ⟨c, isCall⟩ : ∃ c, (p.rendezvous role s.now).1 = c := ⟨_, rfl⟩
  obtain ⟨sends, isSends⟩ : ∃ sends, (p.rendezvous role s.now).2 = sends := ⟨_, rfl⟩
  have deadline : c.deadline = s.now + punchTimeout := by rw [← isCall, rendezvous_eq]
  have sentNow : ∀ d ∈ sends, d.sent = s.now := by
    intro d member
    rw [← isSends, rendezvous_eq] at member
    obtain ⟨a, -, rfl⟩ := List.mem_map.mp member
    rfl
  have hello : ∃ d ∈ sends, d.src = (p.peer role).main ∧ d.dst = p.server := by
    rw [← isSends, rendezvous_eq]
    exact ⟨_, List.mem_cons_self, rfl, rfl⟩
  rw [isCall, isSends]
  have base : s.base ≤ (System.setCall { s with inFlight := s.inFlight ++ sends } role c).base := by
    have first : System.startedAt { s with inFlight := s.inFlight ++ sends } role = 0 := System.startedAt_none none
    exact base_le_setCall (first.le.trans (Nat.zero_le _))
  have now : s.now ≤ (System.setCall { s with inFlight := s.inFlight ++ sends } role c).base := by
    have began : (System.setCall { s with inFlight := s.inFlight ++ sends } role c).startedAt role = s.now := by
      rw [startedAt_setCall, deadline, Nat.add_sub_cancel]
    exact began.ge.trans (System.startedAt_le_base _ role)
  refine
    { calm := timely.calm
      late := List.forall_mem_append.mpr ⟨timely.late, fun d member => .inl ?_⟩
      sent := List.forall_mem_append.mpr ⟨timely.sent, fun d member => (sentNow d member).le⟩
      heard := fun session isSession other d isOther => ?_
      answered := fun alive noSession => ?_
      full := fun isFull => ?_ }
  · rw [sentNow d member]
    exact Nat.le_add_right _ _
  · by_cases same : other = role
    · subst same
      obtain ⟨e, member, isMain, toServer⟩ := hello
      exact .inr ⟨e, List.mem_append_right _ member, isMain, toServer, sentNow e member ▸ now⟩
    · have wasCall : s.calls other = some d := by
        rw [← isOther]
        exact (if_neg same).symm
      rcases timely.heard session isSession other d wasCall with isHeard | ⟨e, member, isMain, toServer, before⟩
      · exact .inl isHeard
      · exact .inr ⟨e, List.mem_append_left _ member, isMain, toServer, before.trans base⟩
  · obtain ⟨d, isOther, -⟩ := timely.answered alive noSession role
    cases none.symm.trans isOther
  · obtain ⟨d, rd, isOther, -⟩ := timely.full isFull role
    cases none.symm.trans isOther

theorem timely_step (event : Event) (spares : p.Spares s event) (sound : p.Sound p.TellsMain s) (timely : p.Timely s) :
    p.Timely (p.step s event) := by
  have unchanged := sound.kept.lookup_reap s.now
  cases event with
  | tick => exact timely.tick sound
  | start role =>
    rw [step]
    split
    next => exact timely
    next none => exact timely.start none
  | deliver index =>
    rw [step]
    split
    next => exact timely
    next d found =>
      have erased : p.Sound p.TellsMain { s with inFlight := s.inFlight.eraseIdx index } :=
        sound.fewer List.eraseIdx_subset s.calmSince
      cases sound.flight d (List.mem_of_getElem? found) with
      | hello role isSocket toServer bytes started =>
        rw [Setting.arrive, if_pos toServer, bytes]
        refine timely.serve sound found isSocket toServer started (fun session other noted isOther => ?_)
          (served _ erased.kept isSocket erased.since)
        exact spares d role other found ⟨toServer, ⟨_, bytes ▸ p.decode_hello role⟩, session, noted, isOther⟩
      | answer role addrs isSocket tellable told bytes => exact timely.answer sound found isSocket tellable told bytes
      | other isForeign =>
        rw [arrive_foreign isForeign]
        exact timely.dropped found isForeign
  | duplicate index =>
    refine timely.more sound.kept (.inl rfl) (fun d copy => ?_) fun d copy => ?_
    · exact timely.late d (List.mem_of_getElem? (Option.mem_toList.mp copy))
    · exact timely.sent d (List.mem_of_getElem? (Option.mem_toList.mp copy))
  | lose index =>
    rw [step]
    split
    next => exact timely
    next d found => exact timely.lose found (spares d found)
  | wake role => exact (wake_eq sound role).symm ▸ timely
  | expire role =>
    rw [step]
    split
    next => exact timely
    next c isCall =>
      split
      next waits =>
        split
        next => exact timely.expire isCall waits
        next => exact timely
      next => exact timely
  | foreign src bytes =>
    rw [step]
    split
    next isForeign =>
      obtain ⟨hub, answers, served, -, lookup, toForeign⟩ := served_foreign s sound.kept isForeign bytes
      rw [served]
      refine timely.more sound.kept lookup (fun d isNew => .inl ?_) fun d isNew => (toForeign d isNew).2.2.le
      rw [(toForeign d isNew).2.2]
      exact Nat.le_add_right _ _
    next => exact timely
  | create sid visitorIp providerIp =>
    rw [step]
    split
    next => exact timely
    next notOurs =>
      have same := (sound.kept.create s.now notOurs visitorIp providerIp).2
      have more := timely.more sound.kept (.inr same) (List.forall_mem_nil _) (List.forall_mem_nil _)
      rwa [List.append_nil] at more

theorem sameHost_of_candidates {ip : IpAddr} {addrs : List SocketAddr} (hosts : ∀ a ∈ addrs, sameHost a.ip ip)
    (transport : Transport) (window : Nat) : ∀ a ∈ (buildRendezvous addrs transport window).candidates, sameHost a.ip ip := by
  intro a member
  rw [buildRendezvous] at member
  dsimp only at member
  split at member
  next =>
    cases addrs with
    | nil => cases member
    | cons first rest =>
      obtain ⟨port, -, rfl⟩ := List.mem_map.mp member
      rw [SocketAddr.ip_setPort]
      exact hosts first List.mem_cons_self
  next => exact hosts a member

theorem Sound.honest {P : Role → List SocketAddr → Prop} (sound : p.Sound P s) : p.Honest s where
  hosts := by
    intro role c rd isCall hasReturned
    have stage := (sound.calls role c isCall).stage
    rw [hasReturned] at stage
    cases stage with
    | told addrs tellable holds =>
      have hosts : ∀ a ∈ addrs, sameHost a.ip (p.peer role.peer).controlIp :=
        fun a member => p.host role.peer a (tellable.sockets member)
      exact List.forall_mem_append.mpr ⟨hosts, sameHost_of_candidates hosts _ _⟩
  transport := by
    intro role other c d rd re isCall isOther hasReturned otherReturned
    have stage := (sound.calls role c isCall).stage
    have otherStage := (sound.calls other d isOther).stage
    rw [hasReturned] at stage
    rw [otherReturned] at otherStage
    cases stage
    cases otherStage
    rfl

theorem Timely.agreed (timely : p.Timely s) (sound : p.Sound p.TellsMain s) : p.Agreed s where
  toHonest := sound.honest
  main := by
    intro role c rd isCall hasReturned
    have stage := (sound.calls role c isCall).stage
    rw [hasReturned] at stage
    cases stage with
    | told addrs tellable holds => exact holds
  answered := timely.full

/-- What a peer is told is honest in every run; where nothing that is needed is lost and
main sockets complete the pair, the peers agree. -/
theorem agreed_of_spares (p : Setting) (events : List Event) :
    Throughout p.step p.Honest p.start events ∧
      (RunMeets p.step p.Spares p.start events → Throughout p.step p.Agreed p.start events) := by
  constructor
  · have preserved : ∀ s event, True → p.Sound (fun _ _ => True) s → p.Sound (fun _ _ => True) (p.step s event) := by
      intro s event _ sound
      refine sound_step event ?_ sound
      cases event with
      | deliver index => exact fun _ _ _ _ _ => ⟨trivial, trivial⟩
      | tick | start | duplicate | lose | wake | expire | foreign | create => exact trivial
    exact throughout_of_runMeets preserved (fun _ sound => sound.honest) sound_start
      (runMeets_of_forall (fun _ _ => trivial) _ _)
  · intro meets
    have preserved : ∀ s event, p.Spares s event → p.Sound p.TellsMain s ∧ p.Timely s →
        p.Sound p.TellsMain (p.step s event) ∧ p.Timely (p.step s event) := fun s event spares both =>
      ⟨sound_step event (tells_of_spares spares) both.1, timely_step event spares both.1 both.2⟩
    exact throughout_of_runMeets preserved (fun _ both => both.2.agreed both.1) ⟨sound_start, timely_start⟩ meets

theorem step_tick (quiet : s.inFlight = []) :
    p.step s .tick =
      { s with now := s.now + 1, fullSecond := s.fullSecond || p.secondPassed { s with now := s.now + 1 } } := by
  rw [step]
  simp [quiet]

theorem run_ticks (quiet : s.inFlight = []) (n : Nat) :
    ∃ fullSecond, run p.step s (List.replicate n .tick) = { s with now := s.now + n, fullSecond } ∧
      (s.fullSecond → fullSecond) := by
  induction n generalizing s with
  | zero => exact ⟨s.fullSecond, rfl, id⟩
  | succ n ih =>
    obtain ⟨fullSecond, later, kept⟩ := ih (s := p.step s .tick) (by rw [step_tick quiet]; exact quiet)
    refine ⟨fullSecond, ?_, fun isFull => kept ?_⟩
    · rw [List.replicate_succ, run_cons, later, step_tick quiet, Nat.add_assoc, Nat.add_comm 1 n]
    · rw [step_tick quiet, isFull]
      rfl

theorem run_second (quiet : s.inFlight = []) (m n : Nat) (passed : p.secondPassed { s with now := s.now + m + 1 }) :
    run p.step s (List.replicate (m + (n + 1)) .tick) = { s with now := s.now + m + 1 + n, fullSecond := true } := by
  obtain ⟨some, before, -⟩ := run_ticks (p := p) quiet m
  have second : p.step { s with now := s.now + m, fullSecond := some } .tick =
      { s with now := s.now + m + 1, fullSecond := true } := by
    have isPassed : p.secondPassed { s with now := s.now + m + 1, fullSecond := some } = true := passed
    rw [step_tick (s := { s with now := s.now + m, fullSecond := some }) quiet, isPassed, Bool.or_true]
  obtain ⟨full, after, isFull⟩ :=
    run_ticks (p := p) (s := { s with now := s.now + m + 1, fullSecond := true }) quiet n
  rw [List.replicate_add, run_append, before, List.replicate_succ, run_cons, second, after, isFull rfl]

end Setting

/-- Two peers without sampling sockets; nothing takes any time. -/
def lan : Setting where
  sid := someSid
  isSid := ⟨rfl, rfl⟩
  server := .v4 0x0A000001 7000
  checkIp := fun _ => .ok ()
  created := 0
  peer := fun role =>
    match role with
    | .visitor =>
      { controlIp := .v4 0x0A000002, main := .v4 0x0A000002 40000, probes := [], transport := .quic, window := 0 }
    | .provider =>
      { controlIp := .v4 0x0A000003, main := .v4 0x0A000003 40000, probes := [], transport := .quic, window := 0 }
  latency := 0
  plain := fun role => by cases role <;> decide
  host := fun role => by cases role <;> decide
  admitted := fun _ _ _ => rfl
  few := fun role => by cases role <;> decide
  apart := by decide
  answerFits := by decide

def answeredRun : List Event :=
  [.start .visitor, .start .provider, .deliver 0, .deliver 0, .deliver 0, .deliver 0]

theorem agreed_answeredRun :
    Throughout lan.step lan.Honest lan.start answeredRun ∧ RunMeets lan.step lan.Spares lan.start answeredRun ∧
      Throughout lan.step lan.Agreed lan.start answeredRun := by
  have meets : RunMeets lan.step lan.Spares lan.start answeredRun := by
    refine ⟨trivial, trivial, ?_, ?_, ?_, ?_, trivial⟩
    · rintro d role other found ⟨-, -, session, isSession, isOther⟩
      obtain rfl := Option.some.inj isSession
      cases role <;> cases isOther
    · rintro d role other found ⟨-, ⟨transport, isHello⟩, session, isSession, isOther⟩
      obtain rfl := Option.some.inj isSession
      obtain rfl := Option.some.inj found
      obtain ⟨rfl, -, -⟩ := Packet.hello.inj (Option.some.inj ((lan.decode_hello .provider).symm.trans isHello))
      obtain rfl := Option.some.inj isOther
      exact ⟨rfl, List.mem_singleton_self _⟩
    · rintro d role other found ⟨toServer, -⟩
      obtain rfl := Option.some.inj found
      exact absurd toServer (by decide)
    · rintro d role other found ⟨toServer, -⟩
      obtain rfl := Option.some.inj found
      exact absurd toServer (by decide)
  exact ⟨(Setting.agreed_of_spares lan answeredRun).1, meets, (Setting.agreed_of_spares lan answeredRun).2 meets⟩

/-- The HELLO of the provider is lost, the one of the visitor arrives. -/
def lostHello : List Event := [.start .visitor, .start .provider, .lose 1, .deliver 0]

def waitedInVain : List Event := List.replicate 8000 .tick ++ [.expire .visitor, .expire .provider]

theorem not_agreed_lostHello :
    (run lan.step lan.start (lostHello ++ waitedInVain)).fullSecond ∧
      ¬lan.Agreed (run lan.step lan.start (lostHello ++ waitedInVain)) ∧
      ∀ role, ∃ c e, (run lan.step lan.start (lostHello ++ waitedInVain)).calls role = some c ∧
        c.phase = .returned (.error e) := by
  obtain ⟨waited, isWaited⟩ : ∃ waited, { run lan.step lan.start lostHello with now := 8000, fullSecond := true } = waited :=
    ⟨_, rfl⟩
  have ticks : run lan.step (run lan.step lan.start lostHello) (List.replicate 8000 .tick) = waited :=
    (Setting.run_second (p := lan) rfl 999 7000 (by decide)).trans isWaited
  have failed : ∀ role, ∃ c e, (run lan.step waited [.expire .visitor, .expire .provider]).calls role = some c ∧
      c.phase = .returned (.error e) := by
    rw [← isWaited]
    intro role
    cases role
    · exact ⟨_, _, rfl, rfl⟩
    · exact ⟨_, _, rfl, rfl⟩
  have full : (run lan.step waited [.expire .visitor, .expire .provider]).fullSecond = true := by
    rw [← isWaited]
    rfl
  rw [waitedInVain, run_append, run_append, ticks]
  refine ⟨full, fun agreed => ?_, failed⟩
  obtain ⟨c, e, isCall, hasFailed⟩ := failed .visitor
  obtain ⟨d, rd, isCall', hasReturned⟩ := agreed.answered full .visitor
  obtain rfl := Option.some.inj (isCall.symm.trans isCall')
  cases hasFailed.symm.trans hasReturned

end Nfrp.P2p
