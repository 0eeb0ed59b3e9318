import Nfrp.Lib.Runs
import Nfrp.Lib.Tally
import Nfrp.Server.Handshake

/-!
# The gate before authentication

Streams that have not said who they are share a fixed number of permits.  The streams of
a multiplexed session need none once the session is marked as authenticated, and the
stream that marks it is the first one to finish its handshake.
-/

namespace Nfrp

open Lib

def preauthMax : Nat := 2048

namespace Preauth

/-- How a stream comes to its handshake.  On a multiplexed session that is not marked the
permit is taken before the stream has a task, elsewhere by the task itself. -/
inductive PreauthSlot where
  | deferred
  | preacquired
  | bypassed
  deriving DecidableEq, Repr

inductive Stage where
  | waiting (slot : PreauthSlot)
  | handshake (permit : Bool)
  | work (conn : FrpConn) (msg : NewWorkConn)
  | serving

structure FrpStream where
  peer : IpAddr
  session : Option Nat := none
  stage : Stage

/-- `verified` is what no code looks at: whether a credential has passed its check on the
session. -/
structure MuxSession where
  peer : IpAddr
  sessionAuthed : Bool := false
  verified : Bool := false

/-- The permits left, and what is going on.  A stream that waits for a permit is not
handled yet. -/
structure Gate where
  available : Nat := preauthMax
  sessions : AList fun _ : Nat => MuxSession := ∅
  streams : AList fun _ : Nat => FrpStream := ∅

def Stage.holdsPermit : Stage → Bool
  | handshake permit => permit
  | _ => false

def Stage.inHandshake : Stage → Bool
  | handshake _ => true
  | _ => false

namespace Gate

variable (s : Gate)

def put (id : Nat) (stream : FrpStream) : Gate :=
  { s with streams := s.streams.insert id stream }

def drop (id : Nat) (stream : FrpStream) : Gate :=
  { s with
    available := s.available + if stream.stage.holdsPermit then 1 else 0
    streams := s.streams.erase id }

def releasePermit (id : Nat) (stream : FrpStream) (stage : Stage) : Gate :=
  { s with
    available := s.available + if stream.stage.holdsPermit then 1 else 0
    streams := s.streams.insert id { stream with stage } }

def changeSession (session : Option Nat) (change : MuxSession → MuxSession) : Gate :=
  match session.bind fun sid => (s.sessions.lookup sid).map (sid, ·) with
  | none => s
  | some (sid, mux) => { s with sessions := s.sessions.insert sid (change mux) }

def markAuthed (session : Option Nat) : Gate :=
  s.changeSession session fun mux => { mux with sessionAuthed := true }

def verify (session : Option Nat) : Gate :=
  s.changeSession session fun mux => { mux with verified := true }

end Gate

/-- The work connection was refused for nothing but the version it speaks, or not at all. -/
def passesCredential {sec : SecurityContext} : Except WorkRefusal (Submission sec) → Bool
  | .ok _ => true
  | .error (.wireVersion ..) => true
  | .error _ => false

/-- What happens to the gate.  A stream names its session, if it has one; the opening of a
stream that breaks off before its first message is an error. -/
inductive Event (sec : SecurityContext) where
  | session (sid : Nat) (peer : IpAddr)
  | stream (id : Nat) (peer : IpAddr)
  | muxStream (id sid : Nat)
  | permit (id : Nat)
  | opened (id : Nat) (arrived : Moment sec) (runId : String) (opening : Except String Opening)
  | workChecked (id : Nat) (arrived : Moment sec)
  | ended (id : Nat)

section Step

variable (prims : Primitives) {sec : SecurityContext} (checkIp : IpAddr → Except String Unit)
  (authorize : String → Except String Role) (loginPlugins : Option LoginPlugins) (workPlugins : Option (WorkPlugins sec))

def admitted (peer : IpAddr) : Bool :=
  match checkIp peer with
  | .ok _ => true
  | .error _ => false

def Gate.acceptStream (s : Gate) (id : Nat) (peer : IpAddr) : Gate :=
  if admitted checkIp peer then s.put id { peer, stage := .waiting .deferred } else s

def Gate.acceptMux (s : Gate) (id sid : Nat) (mux : MuxSession) : Gate :=
  if mux.sessionAuthed then
    if admitted checkIp mux.peer then s.put id { peer := mux.peer, session := some sid, stage := .handshake false } else s
  else s.put id { peer := mux.peer, session := some sid, stage := .waiting .preacquired }

/-- Where no permit comes in time the stream is dropped.  A permit that was taken before
the address was looked at is given back. -/
def Gate.acquire (s : Gate) (id : Nat) (stream : FrpStream) (slot : PreauthSlot) : Gate :=
  if s.available = 0 then s.drop id stream
  else if slot = .preacquired ∧ ¬admitted checkIp stream.peer then s.drop id stream
  else
    { s with available := s.available - 1, streams := s.streams.insert id { stream with stage := .handshake true } }

/-- What a stream goes on with after its handshake, and whether its session is marked. -/
def Gate.handshaken (s : Gate) (id : Nat) (stream : FrpStream) : Except String ServerAccept → Gate
  | .error _ => s.drop id stream
  | .ok (.control ..) => ((s.releasePermit id stream .serving).markAuthed stream.session).verify stream.session
  | .ok (.work conn msg) => (s.releasePermit id stream (.work conn msg)).markAuthed stream.session
  | .ok (.visitor ..) => s.releasePermit id stream .serving

/-- A work connection that is not given to a client ends here. -/
def Gate.workChecked (s : Gate) (id : Nat) (stream : FrpStream) (handled : Except WorkRefusal (Submission sec)) : Gate :=
  let checked := if passesCredential handled then s.verify stream.session else s
  match handled with
  | .ok _ => checked.put id { stream with stage := .serving }
  | .error _ => checked.drop id stream

def step (s : Gate) : Event sec → Gate
  | .session sid peer => if sid ∈ s.sessions then s else { s with sessions := s.sessions.insert sid { peer } }
  | .stream id peer => if id ∈ s.streams then s else s.acceptStream checkIp id peer
  | .muxStream id sid =>
    if id ∈ s.streams then s
    else
      match s.sessions.lookup sid with
      | none => s
      | some mux => s.acceptMux checkIp id sid mux
  | .permit id =>
    match s.streams.lookup id with
    | some stream =>
      match stream.stage with
      | .waiting slot => s.acquire checkIp id stream slot
      | _ => s
    | none => s
  | .opened id arrived runId opening =>
    match s.streams.lookup id with
    | some stream =>
      match stream.stage with
      | .handshake _ =>
        s.handshaken id stream
          (opening.bind (serverHandshake prims loginPlugins authorize arrived stream.peer runId))
      | _ => s
    | none => s
  | .workChecked id arrived =>
    match s.streams.lookup id with
    | some stream =>
      match stream.stage with
      | .work conn msg => s.workChecked id stream (handleWork prims workPlugins arrived conn msg)
      | _ => s
    | none => s
  | .ended id =>
    match s.streams.lookup id with
    | some stream => s.drop id stream
    | none => s

end Step

def Gate.isVerified (s : Gate) (session : Option Nat) : Bool :=
  (session.bind s.sessions.lookup).any (·.verified)

/-- The streams in their handshakes on whose session nobody is known. -/
def Gate.unauthenticated (s : Gate) : Nat :=
  tally (fun _ stream => stream.stage.inHandshake && !s.isVerified stream.session) s.streams

structure Gated (s : Gate) : Prop where
  bounded : s.unauthenticated ≤ preauthMax
  marked : ∀ sid mux, s.sessions.lookup sid = some mux → mux.sessionAuthed → mux.verified

/-- A work connection comes first on a session on which nobody is known. -/
def StrangeWork {sec : SecurityContext} (s : Gate) : Event sec → Prop
  | .opened id _ _ opening =>
    ∃ stream permit sid mux o msg, s.streams.lookup id = some stream ∧ stream.stage = .handshake permit ∧
      stream.session = some sid ∧ s.sessions.lookup sid = some mux ∧ mux.verified = false ∧
      opening = .ok o ∧ o.message = .newWorkConn msg ∧ o.preface.clientHello = none
  | _ => False

def Gate.isAuthed (s : Gate) (session : Option Nat) : Bool :=
  (session.bind s.sessions.lookup).any (·.sessionAuthed)

section Sessions

variable {s t : Gate} {session : Option Nat} {sid : Nat} {mux : MuxSession}

theorem isAuthed_iff : s.isAuthed session ↔
    ∃ sid mux, session = some sid ∧ s.sessions.lookup sid = some mux ∧ mux.sessionAuthed := by
  cases session with
  | none => simp [Gate.isAuthed]
  | some sid => cases found : s.sessions.lookup sid <;> simp [Gate.isAuthed, found]

theorem isVerified_iff : s.isVerified session ↔
    ∃ sid mux, session = some sid ∧ s.sessions.lookup sid = some mux ∧ mux.verified := by
  cases session with
  | none => simp [Gate.isVerified]
  | some sid => cases found : s.sessions.lookup sid <;> simp [Gate.isVerified, found]

@[simp]
theorem changeSession_available (s : Gate) (session : Option Nat) (change : MuxSession → MuxSession) :
    (s.changeSession session change).available = s.available := by
  rw [Gate.changeSession]
  split <;> rfl

@[simp]
theorem changeSession_streams (s : Gate) (session : Option Nat) (change : MuxSession → MuxSession) :
    (s.changeSession session change).streams = s.streams := by
  rw [Gate.changeSession]
  split <;> rfl

theorem lookup_changeSession (s : Gate) (session : Option Nat) (change : MuxSession → MuxSession) (sid : Nat) :
    (s.changeSession session change).sessions.lookup sid =
      if session = some sid then (s.sessions.lookup sid).map change else s.sessions.lookup sid := by
  cases session with
  | none => rfl
  | some changed =>
    rw [Gate.changeSession, Option.bind_some]
    cases found : s.sessions.lookup changed with
    | none =>
      rw [Option.map_none]
      by_cases same : changed = sid
      · rw [if_pos (congrArg some same), ← same, found, Option.map_none]
      · rw [if_neg fun both => same (Option.some.inj both)]
    | some mux =>
      rw [Option.map_some]
      dsimp only
      rw [lookup_insert_eq]
      by_cases same : sid = changed
      · rw [if_pos same, if_pos (congrArg some same.symm), same, found, Option.map_some]
      · rw [if_neg same, if_neg fun both => same (Option.some.inj both).symm]

def Marks (s t : Gate) : Prop :=
  ∀ session, s.isAuthed session → t.isAuthed session

theorem marks_changeSession (s : Gate) (session : Option Nat) {change : MuxSession → MuxSession}
    (kept : ∀ mux, mux.sessionAuthed → (change mux).sessionAuthed) : Marks s (s.changeSession session change) := by
  intro other isAuthed
  obtain ⟨sid, mux, rfl, found, authed⟩ := isAuthed_iff.mp isAuthed
  by_cases same : session = some sid
  · refine isAuthed_iff.mpr ⟨sid, change mux, rfl, ?_, kept mux authed⟩
    rw [lookup_changeSession, if_pos same, found, Option.map_some]
  · refine isAuthed_iff.mpr ⟨sid, mux, rfl, ?_, authed⟩
    rw [lookup_changeSession, if_neg same, found]

end Sessions

def FrpStream.holdsPermit (stream : FrpStream) : Bool := stream.stage.holdsPermit

/-- A stream may be in its handshake with a permit, or on a session that is marked. -/
def Covered (s : Gate) (stream : FrpStream) : Prop :=
  stream.stage.inHandshake → stream.holdsPermit ∨ s.isAuthed stream.session

structure Balanced (s : Gate) : Prop where
  permits : s.available + tally (fun _ stream => stream.holdsPermit) s.streams = preauthMax
  covered : ∀ id stream, s.streams.lookup id = some stream → Covered s stream
  marked : ∀ sid mux, s.sessions.lookup sid = some mux → mux.sessionAuthed → mux.verified

section Account

variable {s t : Gate} {id : Nat} {stream : FrpStream}

theorem Covered.mono (covered : Covered s stream) (marks : Marks s t) : Covered t stream := fun inHandshake =>
  (covered inHandshake).imp_right (marks _)

theorem covered_of_not_inHandshake (s : Gate) (elsewhere : stream.stage.inHandshake = false) : Covered s stream := by
  intro inHandshake
  rw [elsewhere] at inHandshake
  cases inHandshake

def FrpStream.permits (stream : FrpStream) : Nat := if stream.holdsPermit then 1 else 0

theorem worth_holdsPermit (id : Nat) (stream : FrpStream) :
    worth (fun _ stream => FrpStream.holdsPermit stream) id (some stream) = stream.permits :=
  worth_some _ _ _

/-- What the entry of a stream holds less than before is available again. -/
theorem Balanced.insert (balanced : Balanced s) {available : Nat} (covered : Covered s stream)
    (account : available + stream.permits =
      s.available + worth (fun _ stream => FrpStream.holdsPermit stream) id (s.streams.lookup id)) :
    Balanced { s with available, streams := s.streams.insert id stream } where
  permits := by
    have counted := tally_insert_add (fun _ stream => FrpStream.holdsPermit stream) s.streams id stream
    rw [worth_holdsPermit] at counted
    have permits := balanced.permits
    show available + tally (fun _ stream => FrpStream.holdsPermit stream) (s.streams.insert id stream) = preauthMax
    omega
  covered := forall_lookup_insert covered balanced.covered
  marked := balanced.marked

theorem Balanced.put (balanced : Balanced s) (absent : s.streams.lookup id = none) (covered : Covered s stream)
    (without : stream.holdsPermit = false) : Balanced (s.put id stream) := by
  refine balanced.insert covered ?_
  rw [absent, worth_none, FrpStream.permits, without]
  rfl

theorem Balanced.drop (balanced : Balanced s) (found : s.streams.lookup id = some stream) :
    Balanced (s.drop id stream) where
  permits := by
    have counted := tally_erase_add (fun _ stream => FrpStream.holdsPermit stream) s.streams id
    rw [found, worth_holdsPermit] at counted
    have permits := balanced.permits
    show s.available + stream.permits +
      tally (fun _ stream => FrpStream.holdsPermit stream) (s.streams.erase id) = preauthMax
    omega
  covered := by
    intro other otherStream isOther
    rw [Gate.drop, lookup_erase_eq] at isOther
    split at isOther
    next => cases isOther
    next => exact balanced.covered other otherStream isOther
  marked := balanced.marked

theorem Balanced.releasePermit (balanced : Balanced s) (found : s.streams.lookup id = some stream) {stage : Stage}
    (elsewhere : stage.inHandshake = false) : Balanced (s.releasePermit id stream stage) := by
  refine balanced.insert (covered_of_not_inHandshake s elsewhere) ?_
  have without : ({ stream with stage } : FrpStream).permits = 0 := by
    cases stage with
    | handshake permit => cases elsewhere
    | _ => rfl
  rw [without, found, worth_holdsPermit]
  rfl

theorem Balanced.changeSession (balanced : Balanced s) (session : Option Nat) {change : MuxSession → MuxSession}
    (kept : ∀ mux, mux.sessionAuthed → (change mux).sessionAuthed)
    (known : ∀ sid mux, session = some sid → s.sessions.lookup sid = some mux → (change mux).sessionAuthed →
      (change mux).verified) : Balanced (s.changeSession session change) where
  permits := by
    rw [changeSession_available, changeSession_streams]
    exact balanced.permits
  covered := by
    intro id stream found
    rw [changeSession_streams] at found
    exact (balanced.covered id stream found).mono (marks_changeSession s session kept)
  marked := by
    intro sid mux found authed
    rw [lookup_changeSession] at found
    split at found
    next same =>
      obtain ⟨before, isBefore, rfl⟩ := Option.map_eq_some_iff.mp found
      exact known sid before same isBefore authed
    next => exact balanced.marked sid mux found authed

theorem Balanced.verify (balanced : Balanced s) (session : Option Nat) : Balanced (s.verify session) :=
  balanced.changeSession session (fun _ authed => authed) fun _ _ _ _ _ => rfl

theorem verify_markAuthed (s : Gate) (session : Option Nat) :
    (s.markAuthed session).verify session =
      s.changeSession session fun mux => { mux with sessionAuthed := true, verified := true } := by
  cases session with
  | none => rfl
  | some sid =>
    cases found : s.sessions.lookup sid with
    | none => simp [Gate.markAuthed, Gate.verify, Gate.changeSession, found]
    | some mux => simp [Gate.markAuthed, Gate.verify, Gate.changeSession, found]

theorem Balanced.gated (balanced : Balanced s) : Gated s where
  bounded := by
    have implied : ∀ id stream, s.streams.lookup id = some stream →
        (stream.stage.inHandshake && !s.isVerified stream.session) → stream.holdsPermit := by
      intro id stream found both
      rw [Bool.and_eq_true, Bool.not_eq_true'] at both
      rcases balanced.covered id stream found both.1 with holds | authed
      · exact holds
      · obtain ⟨sid, mux, isSession, isMux, marked⟩ := isAuthed_iff.mp authed
        have verified : s.isVerified stream.session :=
          isVerified_iff.mpr ⟨sid, mux, isSession, isMux, balanced.marked sid mux isMux marked⟩
        exact absurd verified (by rw [both.2]; nofun)
    calc s.unauthenticated
      _ ≤ tally (fun _ stream => stream.holdsPermit) s.streams := tally_mono implied
      _ ≤ preauthMax := balanced.permits ▸ Nat.le_add_left _ _
  marked := balanced.marked

end Account

section Preserved

variable {prims : Primitives} {sec : SecurityContext} {checkIp : IpAddr → Except String Unit}
  {authorize : String → Except String Role} {loginPlugins : Option LoginPlugins} {workPlugins : Option (WorkPlugins sec)}
  {s : Gate} {id : Nat} {stream : FrpStream}

theorem Balanced.acceptStream (balanced : Balanced s) (absent : s.streams.lookup id = none) (peer : IpAddr) :
    Balanced (s.acceptStream checkIp id peer) := by
  rw [Gate.acceptStream]
  split
  next => exact balanced.put absent (covered_of_not_inHandshake s rfl) rfl
  next => exact balanced

theorem Balanced.acceptMux (balanced : Balanced s) (absent : s.streams.lookup id = none) {sid : Nat} {mux : MuxSession}
    (isSession : s.sessions.lookup sid = some mux) : Balanced (s.acceptMux checkIp id sid mux) := by
  rw [Gate.acceptMux]
  split
  next authed =>
    split
    next => exact balanced.put absent (fun _ => .inr (isAuthed_iff.mpr ⟨sid, mux, rfl, isSession, authed⟩)) rfl
    next => exact balanced
  next => exact balanced.put absent (covered_of_not_inHandshake s rfl) rfl

theorem Balanced.acquire (balanced : Balanced s) (found : s.streams.lookup id = some stream) {slot : PreauthSlot}
    (isWaiting : stream.stage = .waiting slot) : Balanced (s.acquire checkIp id stream slot) := by
  rw [Gate.acquire]
  split
  next => exact balanced.drop found
  next left =>
    split
    next => exact balanced.drop found
    next =>
      refine balanced.insert (fun _ => .inl rfl) ?_
      have none : stream.permits = 0 := by rw [FrpStream.permits, FrpStream.holdsPermit, isWaiting]; rfl
      rw [found, worth_holdsPermit, none]
      exact Nat.sub_add_cancel (Nat.pos_of_ne_zero left)

theorem Balanced.handshaken (balanced : Balanced s) (found : s.streams.lookup id = some stream)
    {accepted : Except String ServerAccept}
    (known : ∀ conn msg, accepted = .ok (.work conn msg) → ∀ sid mux, stream.session = some sid →
      s.sessions.lookup sid = some mux → mux.verified) : Balanced (s.handshaken id stream accepted) := by
  cases accepted with
  | error reason => exact balanced.drop found
  | ok accept =>
    cases accept with
    | control conn login role udpBinary caps =>
      rw [Gate.handshaken, verify_markAuthed]
      exact (balanced.releasePermit found rfl).changeSession _ (fun _ _ => rfl) fun _ _ _ _ _ => rfl
    | work conn msg =>
      exact (balanced.releasePermit found rfl).changeSession _ (fun _ _ => rfl) fun sid mux isSession isMux _ =>
        known conn msg rfl sid mux isSession isMux
    | visitor conn msg => exact balanced.releasePermit found rfl

theorem Balanced.workChecked (balanced : Balanced s) (found : s.streams.lookup id = some stream)
    (notHandshake : stream.holdsPermit = false) (handled : Except WorkRefusal (Submission sec)) :
    Balanced (s.workChecked id stream handled) := by
  have checked : Balanced (if passesCredential handled then s.verify stream.session else s) := by
    split
    next => exact balanced.verify stream.session
    next => exact balanced
  have stillFound : (if passesCredential handled then s.verify stream.session else s).streams.lookup id = some stream := by
    split
    next =>
      rw [Gate.verify, changeSession_streams]
      exact found
    next => exact found
  cases handled with
  | error refusal => exact checked.drop stillFound
  | ok submission =>
    refine checked.insert (covered_of_not_inHandshake _ rfl) ?_
    rw [stillFound, worth_holdsPermit, FrpStream.permits, FrpStream.permits, notHandshake]
    rfl

theorem balanced_step (event : Event sec) (usual : ¬StrangeWork s event) (balanced : Balanced s) :
    Balanced (step prims checkIp authorize loginPlugins workPlugins s event) := by
  cases event with
  | session sid peer =>
    rw [step]
    split
    next => exact balanced
    next fresh =>
      have others : ∀ other mux, s.sessions.lookup other = some mux →
          (s.sessions.insert sid { peer }).lookup other = some mux := by
        intro other mux isOther
        rw [lookup_insert_eq, if_neg]
        · exact isOther
        · rintro rfl
          exact fresh (mem_iff_lookup.mpr ⟨mux, isOther⟩)
      have marks : Marks s { s with sessions := s.sessions.insert sid { peer } } := by
        intro session isAuthed
        obtain ⟨other, mux, isSession, isOther, authed⟩ := isAuthed_iff.mp isAuthed
        exact isAuthed_iff.mpr ⟨other, mux, isSession, others other mux isOther, authed⟩
      refine ⟨balanced.permits, fun id stream found => (balanced.covered id stream found).mono marks, ?_⟩
      apply forall_lookup_insert _ balanced.marked
      rintro ⟨⟩
  | stream id peer =>
    rw [step]
    split
    next => exact balanced
    next absent => exact balanced.acceptStream (AList.lookup_eq_none.mpr absent) peer
  | muxStream id sid =>
    rw [step]
    split
    next => exact balanced
    next absent =>
      cases isSession : s.sessions.lookup sid with
      | none => exact balanced
      | some mux => exact balanced.acceptMux (AList.lookup_eq_none.mpr absent) isSession
  | permit id =>
    rw [step]
    split
    next stream found =>
      split
      next slot isWaiting => exact balanced.acquire found isWaiting
      next => exact balanced
    next => exact balanced
  | opened id arrived runId opening =>
    rw [step]
    split
    next stream found =>
      split
      next permit inHandshake =>
        refine balanced.handshaken found fun conn msg accepted sid mux isSession isMux => ?_
        cases opening with
        | error reason => cases accepted
        | ok o =>
          obtain ⟨isWork, noHello⟩ := newWorkConn_of_work accepted
          by_contra unknown
          exact usual ⟨stream, permit, sid, mux, o, msg, found, inHandshake, isSession, isMux,
            Bool.not_eq_true _ ▸ unknown, rfl, isWork, noHello⟩
      next => exact balanced
    next => exact balanced
  | workChecked id arrived =>
    rw [step]
    split
    next stream found =>
      split
      next conn msg isWork =>
        have without : stream.holdsPermit = false := by rw [FrpStream.holdsPermit, isWork]; rfl
        exact balanced.workChecked found without _
      next => exact balanced
    next => exact balanced
  | ended id =>
    rw [step]
    split
    next stream found => exact balanced.drop found
    next => exact balanced

theorem not_gated_of_strangeWork (event : Event sec) (strange : StrangeWork s event) :
    ¬Gated (step prims checkIp authorize loginPlugins workPlugins s event) := by
  cases event with
  | opened id arrived runId opening =>
    obtain ⟨stream, permit, sid, mux, o, msg, found, inHandshake, isSession, isMux, unknown, rfl, isWork, noHello⟩ :=
      strange
    intro gated
    have marked := gated.marked sid { mux with sessionAuthed := true }
    rw [step, found] at marked
    simp only [inHandshake] at marked
    rw [show Except.bind (.ok o) (serverHandshake prims loginPlugins authorize arrived stream.peer runId) =
      serverHandshake prims loginPlugins authorize arrived stream.peer runId o from rfl,
      serverHandshake_work isWork noHello, Gate.handshaken, Gate.markAuthed, lookup_changeSession,
      if_pos isSession] at marked
    have verified : mux.verified := marked (congrArg (Option.map _) isMux) trivial
    rw [unknown] at verified
    cases verified
  | _ => exact strange.elim

/-- The gate holds throughout a run exactly where no work connection comes first on a
session. -/
theorem gated_iff (prims : Primitives) (checkIp : IpAddr → Except String Unit)
    (authorize : String → Except String Role) (loginPlugins : Option LoginPlugins)
    (workPlugins : Option (WorkPlugins sec)) (events : List (Event sec)) :
    Throughout (step prims checkIp authorize loginPlugins workPlugins) Gated {} events ↔
      RunMeets (step prims checkIp authorize loginPlugins workPlugins) (fun s event => ¬StrangeWork s event)
        {} events := by
  have initially : Balanced {} :=
    ⟨rfl, fun _ _ found => (nomatch found), fun _ _ found => (nomatch found)⟩
  refine throughout_iff_runMeets (fun s event (_ : True) usual balanced => balanced_step event usual balanced)
    (fun s balanced => balanced.gated) (fun s event _ _ strange => ?_) initially
    (runMeets_of_forall (fun _ _ => trivial) _ _)
  exact not_gated_of_strangeWork event (not_not.mp strange)

end Preserved

/-- Streams with the numbers from `first` on, and nothing else. -/
def flood {sec : SecurityContext} (sid : Nat) : Nat → Nat → List (Event sec)
  | _, 0 => []
  | first, count + 1 => .muxStream first sid :: flood sid (first + 1) count

section Stranger

variable (prims : Primitives) {sec : SecurityContext} {checkIp : IpAddr → Except String Unit}
  (authorize : String → Except String Role) (loginPlugins : Option LoginPlugins) (workPlugins : Option (WorkPlugins sec))

/-- On a session that is marked without anyone being known, any number of them is let in. -/
theorem unauthenticated_flood {s : Gate} {sid first : Nat} {mux : MuxSession}
    (isSession : s.sessions.lookup sid = some mux) (marked : mux.sessionAuthed) (unknown : mux.verified = false)
    (allowed : admitted checkIp mux.peer) (fresh : ∀ id, first ≤ id → s.streams.lookup id = none) (count : Nat) :
    (run (step prims checkIp authorize loginPlugins workPlugins) s (flood sid first count)).unauthenticated =
      s.unauthenticated + count := by
  induction count generalizing s first with
  | zero => rfl
  | succ count ih =>
    have absent : s.streams.lookup first = none := fresh first le_rfl
    have one : step prims checkIp authorize loginPlugins workPlugins s (.muxStream first sid) =
        s.put first { peer := mux.peer, session := some sid, stage := .handshake false } := by
      rw [step, if_neg (AList.lookup_eq_none.mp absent), isSession]
      simp only [Gate.acceptMux, marked, allowed, if_true]
    have later : ∀ id, first + 1 ≤ id →
        (s.put first { peer := mux.peer, session := some sid, stage := .handshake false }).streams.lookup id = none := by
      intro id after
      rw [Gate.put, lookup_insert_eq, if_neg (Nat.ne_of_gt after)]
      exact fresh id (Nat.le_of_succ_le after)
    have counted := tally_insert_add (fun _ stream => stream.stage.inHandshake && !s.isVerified stream.session)
      s.streams first { peer := mux.peer, session := some sid, stage := .handshake false }
    have notVerified : s.isVerified (some sid) = false := by
      rw [Gate.isVerified, Option.bind_some, isSession, Option.any_some, unknown]
    rw [absent, worth_none, worth_some] at counted
    simp only [notVerified, Stage.inHandshake, Bool.not_false, Bool.and_self, if_true] at counted
    have sameSession : (s.put first { peer := mux.peer, session := some sid, stage := .handshake false }).sessions.lookup
        sid = some mux := isSession
    rw [flood, run_cons, one, ih sameSession later]
    show tally _ _ + count = _
    rw [Nat.add_comm count 1, ← Nat.add_assoc]
    exact congrArg (· + count) counted

end Stranger

def tokenServer : SecurityContext where
  authCfg := { token := "s3cret" }

def nobody : Moment tokenServer where
  now := 1700000000
  registry := { clients := [], nodup := List.nodup_nil }
  auth := .token "s3cret"
  follows := ⟨rfl, rfl⟩

/-- A work connection for a client that does not exist, with no credential. -/
def guess : List (Event tokenServer) :=
  [.session 0 (.v4 0x08080808), .muxStream 0 0, .permit 0,
    .opened 0 nobody "" (.ok { preface := .v1, message := .newWorkConn { runId := "guess" } })]

def guessed : Gate where
  sessions := AList.singleton 0 { peer := .v4 0x08080808, sessionAuthed := true }
  streams :=
    AList.singleton 0
      { peer := .v4 0x08080808
        session := some 0
        stage := .work { peer := .v4 0x08080808, version := .v1 } { runId := "guess" } }

theorem not_gated_guess :
    guessed.isAuthed (some 0) ∧ guessed.isVerified (some 0) = false ∧ ∀ prims : Primitives,
      let step := step prims (fun _ => .ok ()) (fun _ => .ok .unrestricted) none none
      run step {} guess = guessed ∧ ¬Throughout step Gated {} guess ∧
        preauthMax < (run step guessed (flood 0 1 (preauthMax + 1))).unauthenticated := by
  refine ⟨rfl, rfl, fun prims => ⟨rfl, ?_, ?_⟩⟩
  · rintro ⟨-, -, -, -, gated⟩
    cases gated.marked 0 _ rfl rfl
  · have fresh : ∀ id, 1 ≤ id → guessed.streams.lookup id = none := by
      intro id after
      exact AList.lookup_eq_none.mpr fun member => Nat.ne_of_gt after (List.mem_singleton.mp member)
    rw [unauthenticated_flood prims _ none none rfl rfl rfl rfl fresh]
    exact Nat.lt_of_lt_of_le (Nat.lt_succ_self _) (Nat.le_add_left _ _)

end Preauth

end Nfrp
