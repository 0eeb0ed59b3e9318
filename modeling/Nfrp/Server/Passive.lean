import Nfrp.Server.Lifecycle
import Nfrp.Server.Resumption

/-!
# How a connection ends

The loop of a control connection breaks, or a call in it fails and leaves it on the spot.
After it breaks the session of a client may wait; from there to the table nothing is awaited.
-/

namespace Nfrp

open Lib

namespace Tables

structure Keeps (client : Nat) (before after : Tables) : Prop where
  proxies : after.clients client = before.clients client
  ports : ∀ port, ∀ b ∈ before.ports.members port, b.client = client → b ∈ after.ports.members port
  vhosts : ∀ table ∈ before.vhosts, ∃ later ∈ after.vhosts, ∀ route, table.Has route → route.client = client →
    later.Has route
  visitors : ∀ name visitor, before.visitors name = some visitor → visitor.client = client →
    after.visitors name = some visitor

variable {ids : RunIds} {client other : Nat} {t after later : Tables}

theorem Keeps.refl (client : Nat) (t : Tables) : t.Keeps client t where
  proxies := rfl
  ports _ _ isMember _ := isMember
  vhosts table isTable := ⟨table, isTable, fun _ has _ => has⟩
  visitors _ _ found _ := found

theorem Keeps.trans (first : t.Keeps client after) (second : after.Keeps client later) : t.Keeps client later where
  proxies := second.proxies.trans first.proxies
  ports port b isMember own := second.ports port b (first.ports port b isMember own) own
  vhosts table isTable := by
    obtain ⟨middle, isMiddle, keepsFirst⟩ := first.vhosts table isTable
    obtain ⟨last, isLast, keepsSecond⟩ := second.vhosts middle isMiddle
    exact ⟨last, isLast, fun route has own => keepsSecond route (keepsFirst route has own) own⟩
  visitors name visitor found own := second.visitors name visitor (first.visitors name visitor found own) own

theorem has_unregisterClient {table : VhostTable} {route : VhostRoute} (has : table.Has route) (spared : route.client ≠ other) :
    (table.unregisterClient other).Has route := by
  have pruned : ∀ map : AList fun _ : List Char => List VhostRoute,
      (∃ key routes, map.lookup key = some routes ∧ route ∈ routes) →
      ∃ key routes, (VhostTable.prune (fun route => route.client ≠ other) map).lookup key = some routes ∧ route ∈ routes := by
    rintro map ⟨key, routes, found, isRoute⟩
    have stays : route ∈ routes.filter fun route => route.client ≠ other :=
      List.mem_filter.mpr ⟨isRoute, decide_eq_true spared⟩
    refine ⟨key, _, ?_, stays⟩
    rw [VhostTable.lookup_prune, found, Option.map_some]
    exact Option.filter_eq_some_iff.mpr ⟨rfl, decide_eq_true (List.ne_nil_of_mem stays)⟩
  exact has.imp (pruned _) (pruned _)

theorem keeps_cleanupClient (different : client ≠ other) : t.Keeps client (t.cleanupClient ids other) where
  proxies := Function.update_of_ne different ..
  ports port b isMember own := by
    show b ∈ PortTable.members (PortTable.releasePortsOf ids other t.ports) port
    rw [PortTable.members_releasePortsOf]
    exact List.mem_filter.mpr ⟨isMember, decide_eq_true (own ▸ different)⟩
  vhosts table isTable := by
    refine ⟨_, Option.mem_map.mpr ⟨table, isTable, rfl⟩, fun route has own => ?_⟩
    exact has_unregisterClient has (own ▸ different)
  visitors name visitor found own := by
    show (t.visitors name).filter _ = some visitor
    exact Option.filter_eq_some_iff.mpr ⟨found, decide_eq_true (own ▸ different)⟩

end Tables

namespace Lifecycle.Registry

variable {ids : RunIds} {now max client : Nat} {clients guards : List Nat} {r : Registry} {id : Nlink.ConnectionId}
  {entry old : SuspendedSession} {slot : Option Nat}

theorem tables_dropSlot : (r.dropSlot slot).tables = r.tables := by
  cases slot <;> rfl

theorem keeps_reclaimAll {entries : List SuspendedSession} (others : ∀ entry ∈ entries, client ≠ entry.client) :
    r.tables.Keeps client (entries.foldl (fun r entry => r.reclaimSuspended ids entry) r).tables := by
  induction entries generalizing r with
  | nil => exact .refl client r.tables
  | cons entry rest ih =>
    have first : r.tables.Keeps client (r.reclaimSuspended ids entry).tables := by
      rw [reclaimSuspended, tables_dropSlot]
      exact Tables.keeps_cleanupClient (others entry List.mem_cons_self)
    exact first.trans (ih fun later isLater => others later (List.mem_cons_of_mem _ isLater))

theorem Balanced.ne_of_suspended (balanced : r.Balanced max (client :: clients) guards)
    (found : r.suspended.lookup id = some entry) : entry.client ≠ client := by
  intro same
  have isPlaced : client ∈ r.places := List.mem_append_right _ (List.mem_map.mpr ⟨_, lookup_eq_some_iff.mp found, same⟩)
  have once := balanced.oneEach client
  rw [List.count_cons_self] at once
  have placed := List.count_pos_iff.mpr isPlaced
  split at once <;> omega

theorem Balanced.keeps_sweep (balanced : r.Balanced max (client :: clients) guards) :
    r.tables.Keeps client (r.sweepSuspended ids now).tables := by
  rw [Registry.sweepSuspended]
  refine @keeps_reclaimAll ids client { r with suspended := dropExpired SuspendedSession.expiresAt now r.suspended } _
    fun entry isExpired => ?_
  obtain ⟨⟨id, entry⟩, isEntry, rfl⟩ := List.mem_map.mp isExpired
  exact (balanced.ne_of_suspended (lookup_eq_some_iff.mpr (List.mem_of_mem_filter isEntry))).symm

theorem lookup_sweepSuspended : (r.sweepSuspended ids now).suspended.lookup id =
    live SuspendedSession.expiresAt now r.suspended id := by
  rw [sweepSuspended, (sameMaps_reclaimAll _).suspended, lookup_dropExpired]

theorem Balanced.suspends (balanced : r.Balanced max (entry.client :: clients) guards)
    (free : live SuspendedSession.expiresAt now r.suspended id = none) :
    (r.suspend ids now id entry).2 = true ∧ (r.suspend ids now id entry).1.suspended.lookup id = some entry ∧
      r.tables.Keeps entry.client (r.suspend ids now id entry).1.tables := by
  rw [Registry.suspend]
  simp only [lookup_sweepSuspended, free]
  exact ⟨trivial, AList.lookup_insert _, balanced.keeps_sweep⟩

theorem lookup_suspend_of_taken (taken : live SuspendedSession.expiresAt now r.suspended id = some old)
    (different : old.client ≠ entry.client) : (r.suspend ids now id entry).1.suspended.lookup id = some old := by
  rw [Registry.suspend]
  simp only [lookup_sweepSuspended, taken, if_pos different]
  rw [sameMaps_reclaimSuspended.suspended, lookup_sweepSuspended]
  exact taken

end Lifecycle.Registry

namespace Tables

def closeAll (ids : RunIds) (client : Nat) (names : List String) (t : Tables) : Tables :=
  names.foldl (fun t name => (t.closeProxyByName ids client name).1) t

def finishResume (client : Nat) (t : Tables) : Tables :=
  t.withClient client { t.clients client with resumedSession := false }

end Tables

def Proxies.proxyNames (s : Proxies) : List String :=
  s.entries.keys.insertionSort (· ≤ ·)

/-- Those that nobody has asked for since the session goes on. -/
def Proxies.staleProxies (s : Proxies) : List String :=
  ((s.entries.entries.filter fun entry => entry.2.seenEpoch ≠ s.resumeEpoch).map Sigma.fst).insertionSort (· ≤ ·)

namespace Lifecycle

/-- The plugins are not asked about a message, it cannot be put to them, they refuse it,
what they leave of it cannot be read, or they leave this. -/
inductive Verdict (Message : Type) where
  | unasked
  | unsendable
  | refused
  | unreadable
  | left (message : Message)

/-- What the loop has to do, and whether the calls succeed that it makes for it: `sent` is
what came of an answer, `handled` what came of a call that sends something itself. -/
inductive Turn where
  | failed
  | closed
  | frame (kind : Nlink.FrameKind) (wanted : Option (List String)) (sent : Bool)
  | newProxy (m : NewProxy) (verdict : Verdict NewProxy) (net : Net) (sent : Bool)
  | ping (verdict : Verdict Unit) (verified sent : Bool)
  | closeProxy (name : String) (notifies : Bool)
  | natHoleVisitor (handled : Bool)
  | otherMessage
  | requestWork (sent : Bool)
  | send (sent : Bool)
  | serverCmd (sent : Bool)
  | tick

inductive Exit where
  | goesOn
  | breaks (allowResume : Bool)
  | fails
  deriving DecidableEq, Repr

def Exit.ofSent (sent : Bool) : Exit :=
  if sent then .goesOn else .fails

/-- What a control connection has agreed on and goes by. -/
structure Serving where
  runId : String
  client : Nat
  slot : Option Nat
  st : Nlink.NLinkState
  cfg : ServerConfig
  user : Nat → String
  clientId : String
  role : Role
  serverCmd : Bool
  heartbeatTimeout : Nat
  ttl : Nat

/-- `greetings` are the frames that are sent before the loop, and before the guard. -/
structure Connection where
  life : State
  greetings : Nat
  lastSeen : Nat
  resumedAt : Option Nat
  stopped : Bool := false
  ended : Bool := false

inductive Step where
  | greet (sent : Bool)
  | turn (ids : RunIds) (turn : Turn)
  | kick (ids : RunIds)
  | others (event : Event)

namespace Connection

variable (c : Serving) (ids : RunIds)

def proxies (s : Connection) : Proxies :=
  s.life.registry.tables.clients c.client

def onTables (s : Connection) (change : Tables → Tables) : Connection :=
  { s with life := s.life.onTables change }

def seen (s : Connection) : Connection :=
  { s with lastSeen := s.life.clock }

def finishResume (s : Connection) : Connection :=
  { s.onTables (·.finishResume c.client) with resumedAt := none }

def announce (m : NewProxy) (net : Net) (s : Connection) : Connection :=
  match checkProxy c.role m.proxyName m.proxyType m.remotePort (s.proxies c).proxyCount with
  | .error _ => s
  | .ok () => s.onTables fun t => (t.registerProxy c.cfg c.user ids net c.client m).1

/-- A client that was given ten seconds to come back for its proxies. -/
def reconcile (s : Connection) : Connection :=
  if (s.proxies c).resumedSession ∧ ∃ at_ ∈ s.resumedAt, at_ + 10 * Nlink.second ≤ s.life.clock then
    (s.onTables (·.closeAll ids c.client (s.proxies c).staleProxies)).finishResume c
  else s

/-- The client names what it still has; other frames are answered, or are not for the loop. -/
def onFrame (kind : Nlink.FrameKind) (wanted : Option (List String)) (sent : Bool) (s : Connection) : Connection × Exit :=
  if kind = .resumeCommit ∧ (s.proxies c).resumedSession then
    (match wanted with
      | none => s
      | some names =>
        (s.onTables (·.closeAll ids c.client ((s.proxies c).proxyNames.filter (· ∉ names)))).finishResume c,
      .goesOn)
  else (s, if kind = .compatProbe then .ofSent sent else .goesOn)

def serve (s : Connection) : Turn → Connection × Exit
  | .failed => (s, .fails)
  | .closed => (s, .breaks true)
  | .frame kind wanted sent => s.seen.onFrame c ids kind wanted sent
  | .newProxy m verdict net sent =>
    let named := fun m : NewProxy => { m with proxyName := canonicalWireName (c.user c.client) m.proxyName }
    match verdict with
    | .unsendable | .unreadable => (s.seen, .fails)
    | .refused => (s.seen, .ofSent sent)
    | .unasked => (s.seen.announce c ids (named m) net, .ofSent sent)
    | .left m => (s.seen.announce c ids (named m) net, .ofSent sent)
  | .ping verdict verified sent =>
    match verdict with
    | .unsendable | .unreadable => (s.seen, .fails)
    | .refused => (s.seen, .breaks false)
    | .unasked | .left () => (s.seen, if verified then .ofSent sent else .breaks false)
  | .closeProxy name notifies => (s.seen.onTables fun t => (t.closeProxyByName ids c.client name).1, .ofSent notifies)
  | .natHoleVisitor handled => (s.seen, .ofSent handled)
  | .otherMessage => (s.seen, .goesOn)
  | .requestWork sent => (s, .ofSent sent)
  | .send sent => (s, .ofSent sent)
  | .serverCmd sent => (s, if c.serverCmd then .ofSent sent else .goesOn)
  | .tick =>
    let s := s.reconcile c ids
    (s, if s.stopped ∨ c.heartbeatTimeout * Nlink.second < s.life.clock - s.lastSeen then .breaks true else .goesOn)

/-- The session waits, or the guard takes the client out. -/
def leave (suspends : Bool) (s : Connection) : Connection :=
  { s with
    ended := true
    life := run State.step s.life
      (if suspends then
        [.detach c.runId c.client c.slot,
          .suspend ids c.st.session c.runId c.client c.slot (c.user c.client) c.clientId c.ttl,
          .leave ids c.runId]
      else [.unregister ids c.runId c.client c.slot]) }

def step (s : Connection) : Step → Connection
  | .others event => { s with life := s.life.step event }
  | .kick ids =>
    { s with
      life := s.life.step (.kick ids c.runId)
      stopped := s.stopped || (s.life.registry.clients.lookup c.runId).isSome }
  | .greet sent =>
    if s.ended ∨ s.greetings = 0 then s
    else if sent then { s with greetings := s.greetings - 1 }
    else { s with ended := true, life := s.life.step (.fail c.runId c.client c.slot) }
  | .turn ids turn =>
    if s.ended ∨ s.greetings ≠ 0 then s
    else
      match s.serve c ids turn with
      | (s, .goesOn) => s
      | (s, .breaks allowResume) => s.leave c ids (allowResume && c.st.resumes && !s.stopped)
      | (s, .fails) => s.leave c ids false

end Connection

/-- Nothing can be sent to the plugins, or nothing can be made of their answer. -/
def Verdict.Broken {Message : Type} : Verdict Message → Prop
  | .unsendable | .unreadable => True
  | .unasked | .refused | .left _ => False

def Turn.Fails (c : Serving) : Turn → Prop
  | .failed => True
  | .frame kind _ sent => kind = .compatProbe ∧ ¬sent
  | .newProxy _ verdict _ sent => verdict.Broken ∨ ¬sent
  | .ping verdict verified sent => verdict.Broken ∨ verdict ≠ .refused ∧ verified ∧ ¬sent
  | .closeProxy _ notifies => ¬notifies
  | .natHoleVisitor handled => ¬handled
  | .requestWork sent | .send sent => ¬sent
  | .serverCmd sent => c.serverCmd ∧ ¬sent
  | .closed | .otherMessage | .tick => False

def Turn.Rejects : Turn → Prop
  | .ping .refused _ _ => True
  | .ping .unasked verified _ | .ping (.left _) verified _ => ¬verified
  | _ => False

def Step.Fails (c : Serving) : Step → Prop
  | .greet sent => ¬sent
  | .turn _ work => work.Fails c
  | .kick _ | .others _ => False

namespace Connection

variable (c : Serving)

/-- The connection is ended on purpose. -/
def Policy (s : Connection) : Step → Prop
  | .turn _ turn => s.stopped ∨ turn.Rejects
  | .greet _ | .kick _ | .others _ => s.stopped

/-- Another client waits under the name of the session. -/
def Collides (s : Connection) : Prop :=
  ∃ old, live SuspendedSession.expiresAt s.life.clock s.life.registry.suspended c.st.session = some old ∧
    old.client ≠ c.client

/-- When the step has been taken, before the connection is left. -/
def served (s : Connection) : Step → State
  | .turn ids turn => (s.serve c ids turn).1.life
  | .greet _ | .kick _ | .others _ => s.life

end Connection

/-- The session waits, with its slot, its proxies and all they have. -/
structure Kept (c : Serving) (before after : State) : Prop where
  waits : after.registry.suspended.lookup c.st.session =
    some ⟨c.client, c.slot, c.runId, c.user c.client, c.clientId, before.clock + c.ttl⟩
  keeps : before.registry.tables.Keeps c.client after.registry.tables

structure Released (c : Serving) (after : State) : Prop where
  unlisted : ∀ runId, after.registry.clients.lookup runId ≠ some c.client
  unsuspended : ∀ id entry, after.registry.suspended.lookup id = some entry → entry.client ≠ c.client
  cleared : after.registry.tables.Clear c.client
  slot : ∀ number ∈ c.slot, number ∈ after.registry.released

/-- Unless the connection is ended on purpose its session waits, and only then it is released. -/
def Connection.PassiveEndSuspends (c : Serving) (s : Connection) (step : Step) : Prop :=
  (¬s.Policy step → Kept c (s.served c step) (s.step c step).life) ∧ (Released c (s.step c step).life → s.Policy step)

/-- The call of another, which does not act on what this connection has in hand. -/
def Event.held? : Event → Option Held
  | .detach runId client slot | .fail runId client slot | .unregister _ runId client slot =>
    some (.serving runId client slot)
  | .suspend _ _ runId client slot _ _ _ => some (.detached runId client slot)
  | .reattach _ entry | .putBack _ _ entry | .reclaim _ entry => some (.taken entry)
  | .leave _ runId => some (.leaving runId)
  | .elapsed _ | .register _ | .newProxy .. | .closeProxy .. | .take .. | .sweep _ | .kick .. => none

def Serving.held (c : Serving) : Held :=
  .serving c.runId c.client c.slot

/-- Others keep to the order of things, and to what is theirs. -/
def Connection.Usual (c : Serving) (s : Connection) : Step → Prop
  | .others event => s.life.Orderly event ∧ event.held? ≠ some c.held ∧ ∀ ids, event ≠ .kick ids c.runId
  | .greet _ | .turn .. | .kick _ => True

namespace Connection

variable {c : Serving} {ids : RunIds} {s after last : Connection} {max : Nat}

structure Works (c : Serving) (before after : Connection) : Prop where
  stopped : after.stopped = before.stopped
  ended : after.ended = before.ended
  greetings : after.greetings = before.greetings
  life : ∃ tables, after.life = { before.life with registry := { before.life.registry with tables } } ∧
    ∀ other, c.client ≠ other → before.life.registry.tables.Clear other → tables.Clear other

theorem Works.refl (c : Serving) (s : Connection) : Works c s s :=
  ⟨rfl, rfl, rfl, s.life.registry.tables, rfl, fun _ _ clear => clear⟩

theorem Works.trans (first : Works c s after) (second : Works c after last) : Works c s last := by
  obtain ⟨tables, isTables, keeps⟩ := first.life
  obtain ⟨later, isLater, keepsLater⟩ := second.life
  refine ⟨second.stopped.trans first.stopped, second.ended.trans first.ended, second.greetings.trans first.greetings,
    later, by rw [isLater, isTables], fun other different clear => ?_⟩
  refine keepsLater other different ?_
  rw [isTables]
  exact keeps other different clear

theorem works_seen : Works c s s.seen :=
  ⟨rfl, rfl, rfl, s.life.registry.tables, rfl, fun _ _ clear => clear⟩

theorem works_onTables {change : Tables → Tables}
    (keeps : ∀ other, c.client ≠ other → s.life.registry.tables.Clear other → (change s.life.registry.tables).Clear other) :
    Works c s (s.onTables change) :=
  ⟨rfl, rfl, rfl, _, rfl, keeps⟩

theorem works_finishResume : Works c s (s.finishResume c) :=
  ⟨rfl, rfl, rfl, _, rfl, fun _ _ clear => ⟨clear.ports, clear.vhosts, clear.visitors⟩⟩

theorem clear_closeAll {client other : Nat} {names : List String} {t : Tables} (clear : t.Clear other) :
    (t.closeAll ids client names).Clear other := by
  induction names generalizing t with
  | nil => exact clear
  | cons name names ih => exact ih clear.closeProxyByName

theorem works_announce {m : NewProxy} {net : Net} : Works c s (s.announce c ids m net) := by
  rw [announce]
  split
  · exact .refl c s
  · exact works_onTables fun _ different clear => clear.registerProxy different

theorem works_reconcile : Works c s (s.reconcile c ids) := by
  rw [reconcile]
  split
  · exact (works_onTables fun _ _ clear => clear_closeAll clear).trans works_finishResume
  · exact .refl c s

theorem works_onFrame {kind : Nlink.FrameKind} {wanted : Option (List String)} {sent : Bool} :
    Works c s (s.onFrame c ids kind wanted sent).1 := by
  unfold onFrame
  split
  · cases wanted with
    | none => exact .refl c s
    | some names => exact (works_onTables fun _ _ clear => clear_closeAll clear).trans works_finishResume
  · exact .refl c s

theorem works_serve (work : Turn) : Works c s (s.serve c ids work).1 := by
  cases work with
  | failed => exact .refl c s
  | closed => exact .refl c s
  | frame kind wanted sent => exact works_seen.trans works_onFrame
  | newProxy m verdict net sent =>
    cases verdict with
    | unsendable => exact works_seen
    | unreadable => exact works_seen
    | refused => exact works_seen
    | unasked => exact works_seen.trans works_announce
    | left m => exact works_seen.trans works_announce
  | ping verdict verified sent => cases verdict <;> exact works_seen
  | closeProxy name notifies =>
    exact works_seen.trans (works_onTables fun _ _ clear => clear.closeProxyByName)
  | natHoleVisitor handled => exact works_seen
  | otherMessage => exact works_seen
  | requestWork sent => exact .refl c s
  | send sent => exact .refl c s
  | serverCmd sent => exact .refl c s
  | tick => exact works_reconcile

theorem exit_onFrame {kind : Nlink.FrameKind} {wanted : Option (List String)} {sent : Bool} :
    (s.onFrame c ids kind wanted sent).2 = if kind = .compatProbe then .ofSent sent else .goesOn := by
  unfold onFrame
  split
  next resumes => rw [if_neg (resumes.1 ▸ nofun)]
  · rfl

theorem ofSent_eq_fails_iff {sent : Bool} : Exit.ofSent sent = .fails ↔ ¬sent := by
  cases sent <;> simp [Exit.ofSent]

theorem ofSent_ne_breaks (sent allowResume : Bool) : Exit.ofSent sent ≠ .breaks allowResume := by
  cases sent <;> exact nofun

theorem fails_iff (work : Turn) : (s.serve c ids work).2 = .fails ↔ work.Fails c := by
  cases work with
  | failed => exact iff_of_true rfl trivial
  | closed => exact iff_of_false nofun id
  | frame kind wanted sent =>
    rw [serve, exit_onFrame, Turn.Fails]
    split
    next isProbe => exact ofSent_eq_fails_iff.trans (and_iff_right isProbe).symm
    next isOther => exact iff_of_false nofun fun fails => isOther fails.1
  | newProxy m verdict net sent =>
    cases verdict <;> simp [serve, Turn.Fails, Verdict.Broken, ofSent_eq_fails_iff]
  | ping verdict verified sent =>
    cases verdict <;> cases verified <;> simp [serve, Turn.Fails, Verdict.Broken, ofSent_eq_fails_iff]
  | closeProxy name notifies => exact ofSent_eq_fails_iff
  | natHoleVisitor handled => exact ofSent_eq_fails_iff
  | otherMessage => exact iff_of_false nofun id
  | requestWork sent => exact ofSent_eq_fails_iff
  | send sent => exact ofSent_eq_fails_iff
  | serverCmd sent =>
    rw [serve, Turn.Fails]
    split
    next able => exact ofSent_eq_fails_iff.trans (and_iff_right able).symm
    next unable => exact iff_of_false nofun fun fails => unable fails.1
  | tick =>
    rw [serve]
    dsimp only
    split <;> exact iff_of_false nofun id

theorem rejects_iff (work : Turn) : (s.serve c ids work).2 = .breaks false ↔ work.Rejects := by
  cases work with
  | failed => exact iff_of_false nofun id
  | closed => exact iff_of_false nofun id
  | frame kind wanted sent =>
    rw [serve, exit_onFrame]
    split
    · exact iff_of_false (ofSent_ne_breaks sent false) id
    · exact iff_of_false nofun id
  | newProxy m verdict net sent =>
    cases verdict <;> simp [serve, Turn.Rejects, ofSent_ne_breaks]
  | ping verdict verified sent =>
    cases verdict <;> cases verified <;> simp [serve, Turn.Rejects, ofSent_ne_breaks]
  | closeProxy name notifies => exact iff_of_false (ofSent_ne_breaks notifies false) id
  | natHoleVisitor handled => exact iff_of_false (ofSent_ne_breaks handled false) id
  | otherMessage => exact iff_of_false nofun id
  | requestWork sent => exact iff_of_false (ofSent_ne_breaks sent false) id
  | send sent => exact iff_of_false (ofSent_ne_breaks sent false) id
  | serverCmd sent =>
    rw [serve]
    split
    · exact iff_of_false (ofSent_ne_breaks sent false) id
    · exact iff_of_false nofun id
  | tick =>
    rw [serve]
    dsimp only
    split <;> exact iff_of_false nofun id

end Connection

namespace State

variable {s : State} {max : Nat} {held other : Held} {call : List Held → State} {client : Nat} {runId otherRun : String}

theorem mem_onHeld (isHeld : held ∈ s.hand) (different : held ≠ other)
    (each : ∀ rest, held ∈ rest → held ∈ (call rest).hand) : held ∈ (s.onHeld other call).hand := by
  rw [onHeld]
  split
  · exact each _ ((List.mem_erase_of_ne different).mpr isHeld)
  · exact isHeld

theorem mem_hand_step {event : Event} (isHeld : held ∈ s.hand) (foreign : event.held? ≠ some held) :
    held ∈ (s.step event).hand := by
  have apart : ∀ {other}, event.held? = some other → held ≠ other := fun isOther same => foreign (same ▸ isOther)
  cases event with
  | elapsed time => exact isHeld
  | register ids =>
    rw [step, register]
    split
    · exact isHeld
    · exact List.mem_cons_of_mem _ isHeld
  | newProxy cfg user ids net client m => exact isHeld
  | closeProxy ids client name => exact isHeld
  | detach runId client slot =>
    refine mem_onHeld isHeld (apart rfl) fun rest isRest => ?_
    split
    · exact isHeld
    · exact List.mem_cons_of_mem _ isRest
  | suspend ids id runId client slot user clientId ttl =>
    refine mem_onHeld isHeld (apart rfl) fun rest isRest => ?_
    split
    · exact isRest
    · exact List.mem_cons_of_mem _ isRest
  | take ids id user clientId =>
    rw [step]
    split
    · exact isHeld
    · exact List.mem_cons_of_mem _ isHeld
  | reattach ids entry => exact mem_onHeld isHeld (apart rfl) fun rest isRest => List.mem_cons_of_mem _ isRest
  | putBack ids id entry => exact mem_onHeld isHeld (apart rfl) fun rest isRest => isRest
  | reclaim ids entry => exact mem_onHeld isHeld (apart rfl) fun rest isRest => isRest
  | fail runId client slot => exact mem_onHeld isHeld (apart rfl) fun rest isRest => isRest
  | sweep ids => exact isHeld
  | kick ids runId => exact isHeld
  | unregister ids runId client slot => exact mem_onHeld isHeld (apart rfl) fun rest isRest => isRest
  | leave ids runId => exact mem_onHeld isHeld (apart rfl) fun rest isRest => isRest

theorem Inv.run_ne (inv : s.Inv max) (isHeld : held ∈ s.hand) (isOther : other ∈ s.hand) (different : held ≠ other)
    (isRun : held.runId? = some runId) (isOtherRun : other.runId? = some otherRun) : runId ≠ otherRun := by
  have isPerm := List.perm_cons_erase isOther
  have isRest := (List.mem_erase_of_ne different).mpr isHeld
  exact fun same => (inv.guarded.perm isPerm).ne_of_tail isOtherRun held isRest (same ▸ isRun)

theorem lookup_onHeld (found : s.registry.clients.lookup runId = some client)
    (each : other ∈ s.hand → ∀ rest, (call rest).registry.clients.lookup runId = some client) :
    (s.onHeld other call).registry.clients.lookup runId = some client := by
  rw [onHeld]
  split
  next isOther => exact each isOther _
  · exact found

theorem lookup_remove_of_ne {r : Registry} {ids : RunIds} (different : runId ≠ otherRun)
    (found : r.clients.lookup runId = some client) : (r.remove ids otherRun).clients.lookup runId = some client := by
  rw [Registry.remove]
  split
  · exact found
  · exact (AList.lookup_erase_ne different).trans found

theorem lookup_step {event : Event} (inv : s.Inv max) (orderly : s.Orderly event) (isHeld : held ∈ s.hand)
    (isRun : held.runId? = some runId) (found : s.registry.clients.lookup runId = some client)
    (foreign : event.held? ≠ some held) (spared : ∀ ids, event ≠ .kick ids runId) :
    (s.step event).registry.clients.lookup runId = some client := by
  have apart : ∀ {other otherRun}, event.held? = some other → other.runId? = some otherRun → other ∈ s.hand →
      runId ≠ otherRun := fun isOther isOtherRun isThere =>
    inv.run_ne isHeld isThere (fun same => foreign (same ▸ isOther)) isRun isOtherRun
  have known := inv.guarded.listed runId client found
  cases event with
  | elapsed time => exact found
  | register ids =>
    rw [step, register]
    cases isInserted : s.registry.insert ids s.registry.issued with
    | mk registry slot =>
      cases slot with
      | none => exact found
      | some slot =>
        obtain ⟨-, isClients, -⟩ := inv.balanced.insert (inv.guarded.lookup_of_fresh orderly) isInserted
        have different : runId ≠ ids.of s.registry.issued := fun same => orderly (same ▸ known)
        show registry.clients.lookup runId = some client
        rw [isClients, AList.lookup_insert_ne different]
        exact found
  | newProxy cfg user ids net client m => exact found
  | closeProxy ids client name => exact found
  | detach otherRun client slot =>
    refine lookup_onHeld found fun isOther rest => ?_
    rw [Registry.detach]
    split
    · exact found
    next isDetached =>
      split at isDetached
      · cases (Prod.mk.inj isDetached).2
      · obtain ⟨rfl, -⟩ := Prod.mk.inj isDetached
        exact (AList.lookup_erase_ne (apart rfl rfl isOther)).trans found
  | suspend ids id otherRun client slot user clientId ttl =>
    refine lookup_onHeld found fun isOther rest => ?_
    split
    next isSuspended => exact Registry.lookup_same (Registry.clients_of_suspend isSuspended) found
    next isSuspended => exact Registry.lookup_same (Registry.clients_of_suspend isSuspended) found
  | take ids id user clientId =>
    rw [step]
    split
    next isTaken => exact Registry.lookup_same (Registry.clients_of_taken isTaken) found
    next isTaken => exact Registry.lookup_same (Registry.clients_of_taken isTaken) found
  | reattach ids entry =>
    have different : runId ≠ ids.of entry.client := fun same => orderly (same ▸ known)
    exact lookup_onHeld found fun isOther rest => (AList.lookup_insert_ne different).trans found
  | putBack ids id entry =>
    exact lookup_onHeld found fun isOther rest => Registry.lookup_same Registry.clients_suspend found
  | reclaim ids entry =>
    refine lookup_onHeld found fun isOther rest => ?_
    exact Registry.lookup_same Registry.sameMaps_reclaimSuspended.clients found
  | fail otherRun client slot =>
    exact lookup_onHeld found fun isOther rest => Registry.lookup_same Registry.sameMaps_dropSlot.clients found
  | sweep ids => exact Registry.lookup_same Registry.clients_sweepSuspended found
  | kick ids otherRun =>
    have different : runId ≠ otherRun := fun same => spared ids (same ▸ rfl)
    rw [step, Registry.kick]
    split
    · exact found
    · exact lookup_remove_of_ne different found
  | unregister ids otherRun client slot =>
    refine lookup_onHeld found fun isOther rest => ?_
    refine Registry.lookup_same Registry.sameMaps_dropSlot.clients ?_
    exact lookup_remove_of_ne (apart rfl rfl isOther) found
  | leave ids otherRun =>
    exact lookup_onHeld found fun isOther rest => lookup_remove_of_ne (apart rfl rfl isOther) found

variable {ids : RunIds} {slot : Option Nat} {id : Nlink.ConnectionId} {user clientId : String} {ttl : Nat}

theorem step_detach (isHeld : Held.serving runId client slot ∈ s.hand)
    (found : s.registry.clients.lookup runId = some client) : s.step (.detach runId client slot) =
      { s with
        registry := { s.registry with
          clients := s.registry.clients.erase runId, clientsActive := s.registry.clientsActive - 1 }
        hand := .detached runId client slot :: s.hand.erase (.serving runId client slot) } := by
  rw [step, onHeld, if_pos isHeld, Registry.detach, found]

theorem registry_suspend (isHeld : Held.detached runId client slot ∈ s.hand) :
    (s.step (.suspend ids id runId client slot user clientId ttl)).registry =
      (s.registry.suspend ids s.clock id ⟨client, slot, runId, user, clientId, s.clock + ttl⟩).1 := by
  rw [step, onHeld, if_pos isHeld]
  split
  next isSuspended => exact (congrArg Prod.fst isSuspended).symm
  next isSuspended => exact (congrArg Prod.fst isSuspended).symm

theorem registry_leave (gone : s.registry.clients.lookup runId = none) :
    (s.step (.leave ids runId)).registry = s.registry := by
  rw [step, onHeld]
  split
  · rw [Registry.remove, gone]
  · rfl

theorem suspended_unregister : (s.step (.unregister ids runId client slot)).registry.suspended = s.registry.suspended := by
  rw [step, onHeld]
  split
  · refine Registry.sameMaps_dropSlot.suspended.trans ?_
    rw [Registry.remove]
    split <;> rfl
  · rfl

theorem suspended_fail : (s.step (.fail runId client slot)).registry.suspended = s.registry.suspended := by
  rw [step, onHeld]
  split
  · exact Registry.sameMaps_dropSlot.suspended
  · rfl

end State

namespace Connection

variable {c : Serving} {s after : Connection} {ids : RunIds} {max : Nat}

/-- A connection that serves a client which is registered. -/
structure Going (c : Serving) (max : Nat) (s : Connection) : Prop where
  inv : s.life.Inv max
  held : c.held ∈ s.life.hand
  listed : s.life.registry.clients.lookup c.runId = some c.client

theorem Going.works (going : Going c max s) (works : Works c s after) : Going c max after := by
  obtain ⟨tables, isTables, keeps⟩ := works.life
  have placed := Registry.mem_places going.listed
  have inv : State.Inv max { s.life with registry := { s.life.registry with tables } } :=
    ⟨going.inv.balanced.tables fun other nowhere clear => keeps other (fun same => nowhere (same ▸ placed)) clear,
      going.inv.guarded⟩
  exact ⟨isTables ▸ inv, isTables ▸ going.held, isTables ▸ going.listed⟩

theorem Works.suspended (works : Works c s after) : after.life.registry.suspended = s.life.registry.suspended := by
  obtain ⟨tables, isTables, -⟩ := works.life
  rw [isTables]

theorem Works.clock (works : Works c s after) : after.life.clock = s.life.clock := by
  obtain ⟨tables, isTables, -⟩ := works.life
  rw [isTables]

def Lasting (c : Serving) (max : Nat) (s : Connection) : Prop :=
  ¬s.stopped → s.ended = false → Going c max s

theorem lasting_step {step : Step} (usual : s.Usual c step) (going : Lasting c max s) : Lasting c max (s.step c step) := by
  intro unstopped runs
  cases step with
  | others event =>
    obtain ⟨orderly, foreign, spared⟩ := usual
    have before := going unstopped runs
    exact ⟨State.inv_step event orderly before.inv, State.mem_hand_step before.held foreign,
      State.lookup_step before.inv orderly before.held rfl before.listed foreign spared⟩
  | kick ids =>
    have neither : ¬(s.stopped ∨ (s.life.registry.clients.lookup c.runId).isSome) := fun either =>
      unstopped (Bool.or_eq_true_iff.mpr either)
    obtain ⟨before, unlisted⟩ := not_or.mp neither
    rw [(going before runs).listed] at unlisted
    exact absurd rfl unlisted
  | greet sent =>
    rw [Connection.step] at unstopped runs ⊢
    split at runs
    next idle =>
      rw [if_pos idle] at unstopped ⊢
      exact going unstopped runs
    next greets =>
      rw [if_neg greets] at unstopped ⊢
      cases sent with
      | true =>
        have before := going unstopped runs
        exact ⟨before.inv, before.held, before.listed⟩
      | false => cases runs
  | turn ids work =>
    have works : Works c s (s.serve c ids work).1 := works_serve work
    rw [Connection.step] at unstopped runs ⊢
    split at runs
    next idle =>
      rw [if_pos idle] at unstopped ⊢
      exact going unstopped runs
    next serves =>
      rw [if_neg serves] at unstopped ⊢
      cases isServed : s.serve c ids work with
      | mk served exit =>
        rw [isServed] at works unstopped runs
        cases exit with
        | goesOn => exact (going (works.stopped ▸ unstopped) (works.ended.symm.trans runs)).works works
        | breaks allowResume => cases runs
        | fails => cases runs

theorem Going.not_waiting (going : Going c max s) {id : Nlink.ConnectionId} {entry : SuspendedSession}
    (found : s.life.registry.suspended.lookup id = some entry) : entry.client ≠ c.client :=
  going.inv.sound.apart c.runId c.client id entry going.listed found

def entry (c : Serving) (s : Connection) : SuspendedSession :=
  ⟨c.client, c.slot, c.runId, c.user c.client, c.clientId, s.life.clock + c.ttl⟩

/-- Out of the loop, the session is put to wait as one that nobody has registered. -/
theorem Going.leaves (going : Going c max s) (ids : RunIds) : ∃ (r : Registry) (guards : List Nat) (clients : List Nat),
    r.tables = s.life.registry.tables ∧ r.suspended = s.life.registry.suspended ∧
      r.Balanced max (c.client :: clients) guards ∧
        (s.leave c ids true).life.registry = (r.suspend ids s.life.clock c.st.session (s.entry c)).1 := by
  have isDetached := State.step_detach going.held going.listed
  have detached : (s.life.step (.detach c.runId c.client c.slot)).Inv max := State.inv_step _ trivial going.inv
  rw [isDetached] at detached
  refine ⟨{ s.life.registry with
      clients := s.life.registry.clients.erase c.runId, clientsActive := s.life.registry.clientsActive - 1 },
    c.slot.toList ++ (s.life.hand.erase c.held).flatMap fun held : Held => held.slot?.toList,
    (s.life.hand.erase c.held).flatMap fun held : Held => held.client?.toList, rfl, rfl, detached.balanced, ?_⟩
  have suspended := @State.registry_suspend (s.life.step (.detach c.runId c.client c.slot)) c.client c.runId ids c.slot
    c.st.session (c.user c.client) c.clientId c.ttl (isDetached ▸ List.mem_cons_self)
  rw [isDetached] at suspended
  show (State.step (State.step (s.life.step (.detach c.runId c.client c.slot)) (.suspend ids c.st.session c.runId c.client
    c.slot (c.user c.client) c.clientId c.ttl)) (.leave ids c.runId)).registry = _
  rw [isDetached, State.registry_leave]
  · exact suspended
  · rw [suspended, Registry.clients_suspend]
    exact AList.lookup_erase ..

theorem Going.kept_leave_iff (going : Going c max s) (ids : RunIds) : Kept c s.life (s.leave c ids true).life ↔ ¬s.Collides c := by
  obtain ⟨r, guards, clients, sameTables, sameSuspended, balanced, isLeft⟩ := going.leaves ids
  constructor
  · rintro kept ⟨old, taken, different⟩
    have isOld : (r.suspend ids s.life.clock c.st.session (s.entry c)).1.suspended.lookup c.st.session = some old :=
      Registry.lookup_suspend_of_taken (sameSuspended ▸ taken) different
    rw [← isLeft, kept.waits] at isOld
    exact different (Option.some.inj isOld ▸ rfl)
  · intro alone
    have free : live SuspendedSession.expiresAt s.life.clock r.suspended c.st.session = none := by
      cases waits : live SuspendedSession.expiresAt s.life.clock r.suspended c.st.session with
      | none => rfl
      | some old =>
        rw [sameSuspended] at waits
        exact absurd ⟨old, waits, going.not_waiting (live_eq_some_iff.mp waits).1⟩ alone
    obtain ⟨-, waits, keeps⟩ := @Registry.Balanced.suspends ids s.life.clock max clients guards r c.st.session (s.entry c)
      balanced free
    rw [← isLeft] at waits keeps
    exact ⟨waits, sameTables ▸ keeps⟩

theorem Going.not_kept (going : Going c max s) {before later : State}
    (same : later.registry.suspended = s.life.registry.suspended) : ¬Kept c before later := fun kept =>
  going.not_waiting (same ▸ kept.waits) rfl

theorem Works.collides_iff (works : Works c s after) : after.Collides c ↔ s.Collides c := by
  rw [Collides, Collides, works.suspended, works.clock]

theorem step_greet_of_ends {sent : Bool} (runs : s.ended = false) (ends : (s.step c (.greet sent)).ended) :
    sent = false ∧ s.step c (.greet sent) = { s with ended := true, life := s.life.step (.fail c.runId c.client c.slot) } := by
  rw [step] at ends ⊢
  split at ends
  · cases runs.symm.trans ends
  next greets =>
    cases sent with
    | true => cases runs.symm.trans ends
    | false => exact ⟨rfl, by rw [if_neg greets, if_neg Bool.false_ne_true]⟩

theorem step_turn_of_ends {work : Turn} (runs : s.ended = false) (ends : (s.step c (.turn ids work)).ended) :
    (∃ allowResume, (s.serve c ids work).2 = .breaks allowResume ∧ s.step c (.turn ids work) =
        (s.serve c ids work).1.leave c ids (allowResume && c.st.resumes && !s.stopped)) ∨
      (s.serve c ids work).2 = .fails ∧ s.step c (.turn ids work) = (s.serve c ids work).1.leave c ids false := by
  have works : Works c s (s.serve c ids work).1 := works_serve work
  rw [step] at ends ⊢
  split at ends
  · cases runs.symm.trans ends
  next serves =>
    rw [if_neg serves]
    cases isServed : s.serve c ids work with
    | mk served exit =>
      rw [isServed] at ends works
      cases exit with
      | goesOn => cases (works.ended.trans runs).symm.trans ends
      | breaks allowResume => exact .inl ⟨allowResume, rfl, by rw [← works.stopped]⟩
      | fails => exact .inr ⟨rfl, rfl⟩

theorem last_step_iff {step : Step} (going : ¬s.stopped → Going c max s) (negotiated : c.st.resumes)
    (runs : s.ended = false) (ends : (s.step c step).ended) :
    s.PassiveEndSuspends c step ↔ s.Policy step ∨ ¬step.Fails c ∧ ¬s.Collides c := by
  by_cases policy : s.Policy step
  · exact iff_of_true ⟨fun passive => absurd policy passive, fun _ => policy⟩ (.inl policy)
  rw [PassiveEndSuspends, or_iff_right policy]
  cases step with
  | others event => cases runs.symm.trans ends
  | kick ids => cases runs.symm.trans ends
  | greet sent =>
    obtain ⟨rfl, isLeft⟩ := step_greet_of_ends runs ends
    rw [isLeft]
    refine iff_of_false (fun both => ?_) fun both => both.1 Bool.false_ne_true
    exact (going policy).not_kept State.suspended_fail (both.1 policy)
  | turn ids work =>
    obtain ⟨unstopped, lets⟩ := not_or.mp policy
    have works : Works c s (s.serve c ids work).1 := works_serve work
    have goes := (going unstopped).works works
    rcases step_turn_of_ends runs ends with ⟨allowResume, breaks, isLeft⟩ | ⟨fails, isLeft⟩
    · cases allowResume with
      | false => exact absurd ((rejects_iff work).mp breaks) lets
      | true =>
        have waits : (true && c.st.resumes && !s.stopped) = true := by simp [negotiated, unstopped]
        have succeeds : ¬work.Fails c := fun fails => nomatch breaks.symm.trans ((fails_iff work).mpr fails)
        rw [isLeft, waits]
        have kept := (goes.kept_leave_iff ids).trans (not_congr works.collides_iff)
        constructor
        · exact fun both => ⟨succeeds, kept.mp (both.1 policy)⟩
        · rintro ⟨-, alone⟩
          have isKept := kept.mpr alone
          exact ⟨fun _ => isKept, fun released => absurd rfl (released.unsuspended _ _ isKept.waits)⟩
    · rw [isLeft]
      refine iff_of_false (fun both => ?_) fun both => both.1 ((fails_iff work).mp fails)
      exact goes.not_kept State.suspended_unregister (both.1 policy)

/-- A connection that has its client, before it greets. -/
def start (life : State) (greetings : Nat) (resumedAt : Option Nat) : Connection where
  life := life
  greetings := greetings
  lastSeen := life.clock
  resumedAt := resumedAt

/-- What was called before in any order has left the client with the connection, and what
happened since, here and elsewhere, has led to this. -/
def Reached (c : Serving) (max : Nat) (s : Connection) : Prop :=
  ∃ maxProxies vhosts begun life greetings resumedAt steps,
    RunMeets State.step State.Orderly (.start max maxProxies vhosts) begun ∧
      life = run State.step (.start max maxProxies vhosts) begun ∧ c.held ∈ life.hand ∧
        life.registry.clients.lookup c.runId = some c.client ∧
          RunMeets (step c) (Usual c) (.start life greetings resumedAt) steps ∧
            s = run (step c) (.start life greetings resumedAt) steps

theorem Reached.lasting (reached : s.Reached c max) : Lasting c max s := by
  obtain ⟨maxProxies, vhosts, begun, life, greetings, resumedAt, steps, orderly, rfl, held, listed, usual, rfl⟩ := reached
  have inv : (run State.step (.start max maxProxies vhosts) begun).Inv max :=
    run_invariant_of_meets (fun _ event orderly inv => State.inv_step event orderly inv)
      (State.inv_start max maxProxies vhosts) orderly
  have started : Lasting c max (.start (run State.step (.start max maxProxies vhosts) begun) greetings resumedAt) :=
    fun _ _ => ⟨inv, held, listed⟩
  exact run_invariant_of_meets (fun _ _ usual lasting => lasting_step usual lasting) started usual

end Connection

/-- Unless a control connection is ended on purpose, its session waits with all it has just
where no call fails and no other client waits under the name of the session. -/
theorem passiveEndSuspends_iff {c : Serving} {max : Nat} {s : Connection} {last : Step} (reached : s.Reached c max)
    (negotiated : c.st.resumes) (runs : s.ended = false) (ends : (s.step c last).ended) :
    s.PassiveEndSuspends c last ↔ s.Policy last ∨ ¬last.Fails c ∧ ¬s.Collides c :=
  Connection.last_step_iff (fun unstopped => reached.lasting unstopped runs) negotiated runs ends

def kiosk : Serving where
  runId := ""
  client := 0
  slot := some 0
  st := { caps := .new Nlink.capResume, session := tillSession, resume := true }
  cfg := shopConfig
  user _ := "shop"
  clientId := "kiosk"
  role := { name := "guest" }
  serverCmd := false
  heartbeatTimeout := 90
  ttl := 60

def kioskServed : Connection :=
  .start (run State.step (.start 1 5 true) [.register .counted]) 0 none

/-- The kiosk closes its connection. -/
theorem passiveEndSuspends_kiosk : kioskServed.PassiveEndSuspends kiosk (.turn .counted .closed) := by
  have reached : kioskServed.Reached kiosk 1 :=
    ⟨5, true, [.register .counted], _, 0, none, [], ⟨List.not_mem_nil, trivial⟩, rfl, by decide, rfl, trivial, rfl⟩
  refine (passiveEndSuspends_iff reached (by decide) rfl rfl).mpr (.inr ⟨id, ?_⟩)
  rintro ⟨old, waits, -⟩
  cases waits

/-- Its connection is reset, or it cannot be told that its heartbeat came. -/
theorem not_passiveEndSuspends_kiosk :
    ((kioskServed.step kiosk (.turn .counted .failed)).ended ∧
      ¬kioskServed.PassiveEndSuspends kiosk (.turn .counted .failed)) ∧
    (kioskServed.step kiosk (.turn .counted (.ping .unasked true false))).ended ∧
      ¬kioskServed.PassiveEndSuspends kiosk (.turn .counted (.ping .unasked true false)) := by
  constructor
  · refine ⟨rfl, fun passive => ?_⟩
    have kept := passive.1 (not_or.mpr ⟨Bool.false_ne_true, id⟩)
    cases kept.waits
  · refine ⟨rfl, fun passive => ?_⟩
    have kept := passive.1 (not_or.mpr ⟨Bool.false_ne_true, not_not.mpr rfl⟩)
    cases kept.waits

end Lifecycle

end Nfrp
