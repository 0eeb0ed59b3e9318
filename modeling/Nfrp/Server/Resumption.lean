import Nfrp.Lib.Runs
import Nfrp.Nlink.Pending
import Nfrp.Server.Handshake

/-!
# Sessions that go on

A control connection presents a token, takes out the session that waits, and is granted
the next token; when it breaks, its session waits.  Each of these is one step, and the
steps of different connections come in any order.  The name a session waits under is what
the peer says it is.
-/

namespace Nfrp.Nlink

open Lib

def capResume : UInt64 := (1 : UInt64) <<< 7

def Caps.contains (caps : Caps) (bit : UInt64) : Bool :=
  caps.bits &&& bit != 0

structure NLinkState where
  caps : Caps
  session : ConnectionId
  resume : Bool := false
  resumeToken : Option String := none

namespace NLinkState

def resumes (st : NLinkState) : Bool :=
  st.caps.contains capResume && st.resume

/-- A token is also granted to who does not ask for a session. -/
def grants (st : NLinkState) : Bool :=
  st.resumes || !st.resume

end NLinkState

structure NLinkRuntime where
  active : Caps
  resumeTtl : Nat
  resumeKey : List UInt8

def second : Nat := 1000000000

def NLinkRuntime.waits (rt : NLinkRuntime) : Nat :=
  max 5 (min 600 rt.resumeTtl) * second

inductive Phase where
  | arrived
  | checked (tokenOk : Bool)
  | holding (sess : SuspendedSession)
  | granting (resumed : Option ClientState)
  | online (client : ClientState)
  | ended

def Phase.client? : Phase → Option ClientState
  | .holding sess => some sess.client
  | .granting resumed => resumed
  | .online client => some client
  | .arrived | .checked _ | .ended => none

structure Control where
  version : WireVersion
  udpBinary : Bool
  caps : NfrpCaps
  nlink : Option NLinkState
  phase : Phase := .arrived

structure Tables where
  tokens : PendingTokens := ∅
  suspended : Suspended := ∅

/-- One step of a connection.  `sent` is whether its frames reach the peer, `room` whether a
new client is let in, `passive` whether the connection broke of itself. -/
inductive Action where
  | proceed (wall : Nat) (nonce : Vector UInt8 16) (sent room : Bool)
  | disconnected (passive : Bool)
  | stopped

section Step

variable (prims : Primitives) (rt : NLinkRuntime)

def issueResumeToken (now wall : Nat) (nonce : Vector UInt8 16) (session : ConnectionId) (user clientId : String)
    (ttlSecs : Nat) (tokens : PendingTokens) : Option (PendingTokens × Option String) :=
  if rt.active.contains capResume then
    let ttl := max ttlSecs 1
    (issueResume prims rt.resumeKey session user clientId ttl wall nonce).map fun token =>
      (tokens.issue now session token (ttl * second), some token)
  else some (tokens, none)

namespace Control

def sameTransport (c : Control) (client : ClientState) : Bool :=
  client.version = c.version && client.udpBinary = c.udpBinary && client.caps = c.caps

def join (c : Control) (key : ConnKey) (resumed : Option ClientState) (room : Bool) : Phase :=
  match resumed with
  | some client => .online client
  | none => if room then .online ⟨key, c.version, c.udpBinary, c.caps, false⟩ else .ended

def proceed (c : Control) (key : ConnKey) (now wall : Nat) (nonce : Vector UInt8 16) (sent room : Bool)
    (tables : Tables) : Tables × Phase :=
  match c.phase, c.nlink with
  | .arrived, some st =>
    if st.resumes then
      match st.resumeToken with
      | none => (tables, .checked true)
      | some token =>
        let (tokens, verdict) := tables.tokens.consume prims rt.resumeKey now wall st.session token key.user key.clientId
        ({ tables with tokens },
          match verdict.map Except.isOk with
          | none => .ended
          | some tokenOk => .checked tokenOk)
    else (tables, .granting none)
  | .checked tokenOk, some st =>
    if tokenOk then
      let (suspended, taken) := tables.suspended.takeSuspendedIf now st.session key.user key.clientId
      ({ tables with suspended },
        match taken with
        | some sess => .holding sess
        | none => .granting none)
    else (tables, .granting none)
  | .holding sess, some st =>
    if c.sameTransport sess.client && !sess.client.stopped then (tables, .granting (some sess.client))
    else ({ tables with suspended := (tables.suspended.suspend now st.session sess).1 }, .granting none)
  | .granting resumed, some st =>
    if st.grants then
      match issueResumeToken prims rt now wall nonce st.session key.user key.clientId (max rt.resumeTtl 30)
          tables.tokens with
      | none => (tables, .ended)
      | some (tokens, _) => ({ tables with tokens }, if sent then c.join key resumed room else .ended)
    else (tables, if sent then c.join key resumed room else .ended)
  | .granting resumed, none => (tables, c.join key resumed room)
  | .arrived, none | .checked _, none | .holding _, none => (tables, .granting none)
  | .online client, _ => (tables, .online client)
  | .ended, _ => (tables, .ended)

/-- A connection that broke of itself leaves its session, if it asked for that. -/
def leaves (c : Control) (passive : Bool) : Option (NLinkState × ClientState) :=
  match c.phase, c.nlink with
  | .online client, some st => if passive && st.resumes && !client.stopped then some (st, client) else none
  | _, _ => none

def step (c : Control) (key : ConnKey) (now : Nat) (action : Action) (tables : Tables) : Tables × Phase :=
  match action with
  | .proceed wall nonce sent room => c.proceed prims rt key now wall nonce sent room tables
  | .disconnected passive =>
    (match c.leaves passive with
      | some (st, client) =>
        { tables with suspended := (tables.suspended.suspend now st.session ⟨client, now + rt.waits⟩).1 }
      | none => tables,
      match c.phase with
      | .online _ => .ended
      | phase => phase)
  | .stopped =>
    (tables,
      match c.phase with
      | .online client => .online { client with stopped := true }
      | phase => phase)

end Control

structure State where
  clock : Nat := 0
  tables : Tables := {}
  controls : AList fun _ : ConnKey => Control := ∅

inductive Event where
  | login (login : Login) (runId : String) (number : Nat) (version : WireVersion) (udpBinary : Bool) (caps : NfrpCaps)
      (nlink : Option NLinkState)
  | act (key : ConnKey) (action : Action)
  | swept
  | elapsed (time : Nat)

/-- A client that does not say who it is goes by the name of its run. -/
def keyOf (login : Login) (runId : String) (number : Nat) : ConnKey :=
  ⟨login.user, if login.clientId = "" then runId else login.clientId, number⟩

def State.step (s : State) : Event → State
  | .login login runId number version udpBinary caps nlink =>
    let key := keyOf login runId number
    match s.controls.lookup key with
    | some _ => s
    | none => { s with controls := s.controls.insert key { version, udpBinary, caps, nlink } }
  | .act key action =>
    match s.controls.lookup key with
    | none => s
    | some c =>
      let (tables, phase) := c.step prims rt key s.clock action s.tables
      { s with tables, controls := s.controls.insert key { c with phase } }
  | .swept => { s with tables := { s.tables with suspended := s.tables.suspended.sweep s.clock } }
  | .elapsed time => { s with clock := s.clock + time }

end Step

def Tables.slot (now : Nat) (id : ConnectionId) (tables : Tables) : Option IssuedToken × Option SuspendedSession :=
  (live IssuedToken.expiresAt now tables.tokens id, live SuspendedSession.expiresAt now tables.suspended id)

theorem Tables.slot_later {now later : Nat} {id : ConnectionId} {tables : Tables} (order : now ≤ later) :
    tables.slot later id =
      ((tables.slot now id).1.filter fun entry => later < entry.expiresAt,
        (tables.slot now id).2.filter fun entry => later < entry.expiresAt) :=
  Prod.ext (live_later order) (live_later order)

theorem Tables.slot_sweep {now : Nat} {id : ConnectionId} {tables : Tables} :
    Tables.slot now id { tables with suspended := tables.suspended.sweep now } = tables.slot now id :=
  Prod.ext rfl (live_dropExpired id)

namespace Control

def Names (id : ConnectionId) (c : Control) : Prop :=
  c.nlink.map NLinkState.session = some id

instance (id : ConnectionId) : DecidablePred (Names id) :=
  fun c => inferInstanceAs (Decidable (c.nlink.map NLinkState.session = some id))

variable {prims : Primitives} {rt : NLinkRuntime} {c : Control} {key : ConnKey} {now wall : Nat}
  {nonce : Vector UInt8 16} {sent room : Bool} {action : Action} {tables other : Tables} {id : ConnectionId}
  {st : NLinkState}

theorem names_of_leaves {passive : Bool} {client : ClientState} (left : c.leaves passive = some (st, client)) :
    c.Names st.session := by
  obtain ⟨version, udpBinary, caps, nlink, phase⟩ := c
  rw [leaves] at left
  split at left
  next isPhase isNLink =>
    obtain rfl : nlink = _ := isNLink
    split at left
    · obtain ⟨rfl, -⟩ := Prod.mk.inj (Option.some.inj left)
      rfl
    · cases left
  · cases left

theorem client?_of_leaves {passive : Bool} {client : ClientState} (left : c.leaves passive = some (st, client)) :
    c.phase.client? = some client := by
  rw [leaves] at left
  split at left
  next isPhase isNLink =>
    split at left
    · obtain ⟨-, rfl⟩ := Prod.mk.inj (Option.some.inj left)
      exact isPhase ▸ rfl
    · cases left
  · cases left

theorem ttl_pos (ttlSecs : Nat) : 0 < max ttlSecs 1 * second :=
  Nat.mul_pos (Nat.lt_of_lt_of_le Nat.one_pos (Nat.le_max_right _ _)) (by decide)

theorem live_issueResumeToken_self {ttlSecs : Nat} {user clientId : String} {tokens : PendingTokens}
    {after : PendingTokens × Option String} {session : ConnectionId}
    (issued : issueResumeToken prims rt now wall nonce session user clientId ttlSecs tokens = some after) :
    live IssuedToken.expiresAt now after.1 session =
      if rt.active.contains capResume then after.2.map (⟨·, now + max ttlSecs 1 * second⟩)
      else live IssuedToken.expiresAt now tokens session := by
  rw [issueResumeToken] at issued
  by_cases active : rt.active.contains capResume
  · rw [if_pos active] at issued
    obtain ⟨token, -, rfl⟩ := Option.map_eq_some_iff.mp issued
    rw [if_pos active, PendingTokens.live_issue_self (ttl_pos ttlSecs), Option.map_some]
  · rw [if_neg active] at issued
    obtain rfl := Option.some.inj issued
    rw [if_neg active]

theorem live_issueResumeToken_of_ne {ttlSecs : Nat} {user clientId : String} {tokens : PendingTokens}
    {after : PendingTokens × Option String} {session : ConnectionId} (different : id ≠ session)
    (issued : issueResumeToken prims rt now wall nonce session user clientId ttlSecs tokens = some after) :
    live IssuedToken.expiresAt now after.1 id = live IssuedToken.expiresAt now tokens id := by
  rw [issueResumeToken] at issued
  split at issued
  · obtain ⟨token, -, rfl⟩ := Option.map_eq_some_iff.mp issued
    exact PendingTokens.live_issue_of_ne different
  · obtain rfl := Option.some.inj issued
    rfl

theorem map_issueResumeToken {ttlSecs : Nat} {user clientId : String} {session : ConnectionId}
    (tokens otherTokens : PendingTokens) :
    (issueResumeToken prims rt now wall nonce session user clientId ttlSecs tokens).map Prod.snd =
      (issueResumeToken prims rt now wall nonce session user clientId ttlSecs otherTokens).map Prod.snd := by
  rw [issueResumeToken, issueResumeToken]
  split
  · rw [Option.map_map, Option.map_map]
    rfl
  · rfl

theorem slot_proceed_of_not_names (elsewhere : ¬c.Names id) :
    (c.proceed prims rt key now wall nonce sent room tables).1.slot now id = tables.slot now id := by
  obtain ⟨version, udpBinary, caps, nlink, phase⟩ := c
  cases nlink with
  | none => cases phase <;> rfl
  | some st =>
    have different : id ≠ st.session := fun same => elsewhere (congrArg some same.symm)
    cases phase with
    | arrived =>
      rw [proceed]
      dsimp only
      split
      · cases st.resumeToken with
        | none => rfl
        | some token => exact Prod.ext (PendingTokens.live_consume_of_ne different) rfl
      · rfl
    | checked tokenOk =>
      rw [proceed]
      dsimp only
      split
      · exact Prod.ext rfl (Suspended.live_takeSuspendedIf_of_ne different)
      · rfl
    | holding sess =>
      rw [proceed]
      dsimp only
      split
      · rfl
      · exact Prod.ext rfl (Suspended.live_suspend_of_ne different)
    | granting resumed =>
      rw [proceed]
      dsimp only
      split
      · split
        · rfl
        next issued => exact Prod.ext (live_issueResumeToken_of_ne different issued) rfl
      · rfl
    | online client => rfl
    | ended => rfl

theorem slot_step_of_not_names (elsewhere : ¬c.Names id) :
    (c.step prims rt key now action tables).1.slot now id = tables.slot now id := by
  cases action with
  | proceed wall nonce sent room => exact slot_proceed_of_not_names elsewhere
  | disconnected passive =>
    rw [step]
    cases left : c.leaves passive with
    | none => rfl
    | some both =>
      obtain ⟨st, client⟩ := both
      have different : id ≠ st.session := fun same => elsewhere (same ▸ names_of_leaves left)
      exact Prod.ext rfl (Suspended.live_suspend_of_ne different)
  | stopped => rfl

/-- What a connection does goes by what waits under its name. -/
theorem proceed_congr (names : c.Names id) (same : tables.slot now id = other.slot now id) :
    (c.proceed prims rt key now wall nonce sent room tables).1.slot now id =
        (c.proceed prims rt key now wall nonce sent room other).1.slot now id ∧
      (c.proceed prims rt key now wall nonce sent room tables).2 =
        (c.proceed prims rt key now wall nonce sent room other).2 := by
  obtain ⟨sameToken, sameSession⟩ := Prod.mk.inj same
  obtain ⟨version, udpBinary, caps, nlink, phase⟩ := c
  obtain ⟨st, rfl, rfl⟩ := Option.map_eq_some_iff.mp names
  cases phase with
  | arrived =>
    rw [proceed, proceed]
    dsimp only
    split
    · cases st.resumeToken with
      | none => exact ⟨same, rfl⟩
      | some token =>
        have spends := @PendingTokens.spends_of_consume prims rt.resumeKey now wall st.session token key.user
          key.clientId tables.tokens
        rw [sameToken, ← PendingTokens.spends_of_consume] at spends
        obtain ⟨sameAfter, sameVerdict⟩ := Prod.mk.inj spends
        dsimp only
        rw [sameVerdict]
        exact ⟨Prod.ext sameAfter sameSession, rfl⟩
    · exact ⟨same, rfl⟩
  | checked tokenOk =>
    rw [proceed, proceed]
    dsimp only
    split
    · have reclaims := @Suspended.reclaims_of_takeSuspendedIf now st.session key.user key.clientId tables.suspended
      rw [sameSession, ← Suspended.reclaims_of_takeSuspendedIf] at reclaims
      obtain ⟨sameAfter, sameTaken⟩ := Prod.mk.inj reclaims
      dsimp only
      rw [sameTaken]
      exact ⟨Prod.ext sameToken sameAfter, rfl⟩
    · exact ⟨same, rfl⟩
  | holding sess =>
    rw [proceed, proceed]
    dsimp only
    split
    · exact ⟨same, rfl⟩
    · refine ⟨Prod.ext sameToken ?_, rfl⟩
      show live _ now _ _ = live _ now _ _
      rw [Suspended.live_suspend_self, Suspended.live_suspend_self, sameSession]
  | granting resumed =>
    rw [proceed, proceed]
    dsimp only
    split
    · have sameIssued := @map_issueResumeToken prims rt now wall nonce (max rt.resumeTtl 30) key.user key.clientId
        st.session tables.tokens other.tokens
      cases issued : issueResumeToken prims rt now wall nonce st.session key.user key.clientId (max rt.resumeTtl 30)
          tables.tokens with
      | none =>
        rw [issued, Option.map_none, eq_comm, Option.map_eq_none_iff] at sameIssued
        rw [sameIssued]
        exact ⟨same, rfl⟩
      | some after =>
        rw [issued, Option.map_some, eq_comm, Option.map_eq_some_iff] at sameIssued
        obtain ⟨otherAfter, otherIssued, sameToken'⟩ := sameIssued
        rw [otherIssued]
        refine ⟨Prod.ext ?_ sameSession, rfl⟩
        show live _ now after.1 _ = live _ now otherAfter.1 _
        rw [live_issueResumeToken_self issued, live_issueResumeToken_self otherIssued, sameToken', sameToken]
    · exact ⟨same, rfl⟩
  | online client => exact ⟨same, rfl⟩
  | ended => exact ⟨same, rfl⟩

theorem step_congr (names : c.Names id) (same : tables.slot now id = other.slot now id) :
    (c.step prims rt key now action tables).1.slot now id = (c.step prims rt key now action other).1.slot now id ∧
      (c.step prims rt key now action tables).2 = (c.step prims rt key now action other).2 := by
  cases action with
  | proceed wall nonce sent room => exact proceed_congr names same
  | disconnected passive =>
    obtain ⟨sameToken, sameSession⟩ := Prod.mk.inj same
    refine ⟨?_, rfl⟩
    rw [step, step]
    cases left : c.leaves passive with
    | none => exact same
    | some both =>
      obtain ⟨st, client⟩ := both
      obtain rfl : st.session = id := Option.some.inj ((names_of_leaves left).symm.trans names)
      refine Prod.ext sameToken ?_
      show live _ now _ _ = live _ now _ _
      rw [Suspended.live_suspend_self, Suspended.live_suspend_self, sameSession]
  | stopped => exact ⟨same, rfl⟩

/-- The client of a connection belongs to who the connection is of. -/
def Own (key : ConnKey) (phase : Phase) : Prop :=
  ∀ client ∈ phase.client?, client.made.identity = key.identity

theorem identity_of_takeSuspendedIf {user clientId : String} {suspended : Suspended} {sess : SuspendedSession}
    (taken : (suspended.takeSuspendedIf now id user clientId).2 = some sess) : sess.identity = ⟨user, clientId⟩ := by
  rw [Suspended.takeSuspendedIf] at taken
  split at taken
  · cases taken
  split at taken
  · cases taken
  split at taken
  · cases taken
  next isOwner => exact Option.some.inj taken ▸ not_not.mp isOwner

theorem own_join {resumed : Option ClientState} (own : Own key (.granting resumed)) : Own key (c.join key resumed room) := by
  cases resumed with
  | some client => exact own
  | none =>
    rw [join]
    split
    · rintro client ⟨⟩
      rfl
    · exact nofun

theorem own_sent {resumed : Option ClientState} (own : Own key (.granting resumed)) :
    Own key (if sent then c.join key resumed room else .ended) := by
  split
  · exact own_join own
  · exact nofun

theorem own_proceed (own : Own key c.phase) :
    Own key (c.proceed prims rt key now wall nonce sent room tables).2 := by
  rw [proceed]
  split
  · split
    · split
      · exact nofun
      · dsimp only
        split
        · exact nofun
        · exact nofun
    · exact nofun
  · split
    · dsimp only
      split
      next isTaken =>
        rintro client ⟨⟩
        exact identity_of_takeSuspendedIf isTaken
      · exact nofun
    · exact nofun
  next isPhase isNLink =>
    split
    · rw [isPhase] at own
      exact own
    · exact nofun
  next isPhase isNLink =>
    rw [isPhase] at own
    split
    · split
      · exact nofun
      · exact own_sent own
    · exact own_sent own
  next isPhase isNLink =>
    rw [isPhase] at own
    exact own_join own
  · exact nofun
  · exact nofun
  · exact nofun
  next isPhase =>
    rw [isPhase] at own
    exact own
  · exact nofun

theorem own_step (own : Own key c.phase) : Own key (c.step prims rt key now action tables).2 := by
  cases action with
  | proceed wall nonce sent room => exact own_proceed own
  | disconnected passive =>
    rw [step]
    dsimp only
    split
    · exact nofun
    · exact own
  | stopped =>
    rw [step]
    dsimp only
    split
    next old isPhase =>
      rw [isPhase] at own
      rintro client ⟨⟩
      exact own old rfl
    · exact own

theorem eq_or_eq_of_park {entry e : SuspendedSession} {waits : Option SuspendedSession}
    (parked : Suspended.park now entry waits = some e) : waits = some e ∨ e = entry := by
  cases waits with
  | none =>
    rw [Suspended.park] at parked
    exact .inr (Option.some.inj (Option.filter_eq_some_iff.mp parked).1).symm
  | some old =>
    rw [Suspended.park] at parked
    split at parked
    · exact .inl parked
    · exact .inr (Option.some.inj (Option.filter_eq_some_iff.mp parked).1).symm

/-- What waits afterwards waited before, or is of this connection. -/
theorem session_step (own : Own key c.phase) {e : SuspendedSession}
    (waits : ((c.step prims rt key now action tables).1.slot now id).2 = some e) :
    (tables.slot now id).2 = some e ∨ e.identity = key.identity := by
  by_cases names : c.Names id
  · obtain ⟨version, udpBinary, caps, nlink, phase⟩ := c
    obtain ⟨st, rfl, rfl⟩ := Option.map_eq_some_iff.mp names
    cases action with
    | proceed wall nonce sent room =>
      cases phase with
      | arrived =>
        rw [step, proceed] at waits
        dsimp only at waits
        split at waits
        · split at waits
          · exact .inl waits
          · exact .inl waits
        · exact .inl waits
      | checked tokenOk =>
        rw [step, proceed] at waits
        dsimp only at waits
        split at waits
        · have reclaims := @Suspended.reclaims_of_takeSuspendedIf now st.session key.user key.clientId
            tables.suspended
          have after := (congrArg Prod.fst reclaims).symm.trans waits
          refine .inl ?_
          rw [Tables.slot]
          cases waited : live SuspendedSession.expiresAt now tables.suspended st.session with
          | none =>
            rw [waited] at after
            cases after
          | some old =>
            rw [waited, Suspended.reclaim] at after
            split at after
            · exact after
            · cases after
        · exact .inl waits
      | holding sess =>
        rw [step, proceed] at waits
        dsimp only at waits
        split at waits
        · exact .inl waits
        · have parked := Suspended.live_suspend_self.symm.trans waits
          rcases eq_or_eq_of_park parked with waited | rfl
          · exact .inl waited
          · exact .inr (own _ rfl)
      | granting resumed =>
        rw [step, proceed] at waits
        dsimp only at waits
        split at waits
        · split at waits
          · exact .inl waits
          · exact .inl waits
        · exact .inl waits
      | online client => exact .inl waits
      | ended => exact .inl waits
    | disconnected passive =>
      rw [step] at waits
      cases left : leaves ⟨version, udpBinary, caps, some st, phase⟩ passive with
      | none =>
        rw [left] at waits
        exact .inl waits
      | some both =>
        obtain ⟨other, client⟩ := both
        have sameName : other.session = st.session := Option.some.inj (names_of_leaves left).symm
        rw [left] at waits
        dsimp only at waits
        rw [← sameName] at waits ⊢
        have parked := Suspended.live_suspend_self.symm.trans waits
        rcases eq_or_eq_of_park parked with waited | rfl
        · exact .inl waited
        · exact .inr (own _ (client?_of_leaves left))
    | stopped => exact .inl waits
  · rw [slot_step_of_not_names names] at waits
    exact .inl waits

variable (prims rt key) in
def Spends (waits : Option IssuedToken) (c : Control) (action : Action) : Prop :=
  match action, c.phase, c.nlink with
  | .proceed wall .., .arrived, some st =>
    st.resumes ∧ ∃ entry, waits = some entry ∧ st.resumeToken = some entry.token ∧
      verifyResume prims rt.resumeKey entry.token st.session key.user key.clientId wall = some (.ok ())
  | _, _, _ => False

variable (rt) in
def Grants (c : Control) (action : Action) : Prop :=
  match action, c.phase, c.nlink with
  | .proceed .., .granting _, some st => st.grants ∧ rt.active.contains capResume
  | _, _, _ => False

def Parks (waits : Option SuspendedSession) (c : Control) (action : Action) : Prop :=
  match action with
  | .disconnected passive => (c.leaves passive).isSome ∧ waits = none
  | _ => False

def Holds (c : Control) : Prop :=
  ∃ sess, c.phase = .holding sess

theorem spend_of_not_spends {session : ConnectionId} {token user clientId : String} {waits : Option IssuedToken}
    (kept : ∀ entry, waits = some entry → entry.token = token →
      verifyResume prims rt.resumeKey token session user clientId wall ≠ some (.ok ())) :
    (PendingTokens.spend prims rt.resumeKey wall session token user clientId waits).1 = waits := by
  cases waits with
  | none => rfl
  | some entry =>
    rw [PendingTokens.spend]
    split
    next verified =>
      split
      next same => exact absurd verified (kept entry rfl same)
      · rfl
    · rfl
    · rfl

theorem slot_proceed_of_apart (names : c.Names id) (idle : ¬c.Holds)
    (others : ∀ e, (tables.slot now id).2 = some e → e.identity ≠ key.identity)
    (unspent : ¬Spends prims rt key (tables.slot now id).1 c (.proceed wall nonce sent room))
    (ungranted : ¬Grants rt c (.proceed wall nonce sent room)) :
    (c.proceed prims rt key now wall nonce sent room tables).1.slot now id = tables.slot now id ∧
      ∀ sess, (c.proceed prims rt key now wall nonce sent room tables).2 ≠ .holding sess := by
  obtain ⟨version, udpBinary, caps, nlink, phase⟩ := c
  obtain ⟨st, rfl, rfl⟩ := Option.map_eq_some_iff.mp names
  cases phase with
  | arrived =>
    rw [proceed]
    dsimp only
    split
    next resumes =>
      cases presented : st.resumeToken with
      | none => exact ⟨rfl, nofun⟩
      | some token =>
        have kept : ∀ entry, (tables.slot now st.session).1 = some entry → entry.token = token →
            verifyResume prims rt.resumeKey token st.session key.user key.clientId wall ≠ some (.ok ()) := by
          rintro entry waits rfl verified
          exact unspent ⟨resumes, entry, waits, presented, verified⟩
        have spends := congrArg Prod.fst (@PendingTokens.spends_of_consume prims rt.resumeKey now wall st.session
          token key.user key.clientId tables.tokens)
        refine ⟨Prod.ext (spends.trans (spend_of_not_spends kept)) rfl, ?_⟩
        dsimp only
        split
        · exact nofun
        · exact nofun
    · exact ⟨rfl, nofun⟩
  | checked tokenOk =>
    rw [proceed]
    dsimp only
    split
    · have reclaims := @Suspended.reclaims_of_takeSuspendedIf now st.session key.user key.clientId tables.suspended
      have stays : Suspended.reclaim ⟨key.user, key.clientId⟩
          (live SuspendedSession.expiresAt now tables.suspended st.session) =
            (live SuspendedSession.expiresAt now tables.suspended st.session, none) := by
        cases waits : live SuspendedSession.expiresAt now tables.suspended st.session with
        | none => rfl
        | some e => exact if_pos (others e waits)
      obtain ⟨sameSession, notTaken⟩ := Prod.mk.inj (reclaims.trans stays)
      refine ⟨Prod.ext rfl sameSession, ?_⟩
      rw [notTaken]
      exact nofun
    · exact ⟨rfl, nofun⟩
  | holding sess => exact absurd ⟨sess, rfl⟩ idle
  | granting resumed =>
    have notHolding : ∀ sess, (if sent then join ⟨version, udpBinary, caps, some st, .granting resumed⟩ key resumed room
        else Phase.ended) ≠ .holding sess := by
      intro sess
      split
      · cases resumed with
        | some client => exact nofun
        | none =>
          rw [join]
          split
          · exact nofun
          · exact nofun
      · exact nofun
    rw [proceed]
    dsimp only
    split
    next grants =>
      split
      · exact ⟨rfl, nofun⟩
      next issued =>
        have inactive : ¬rt.active.contains capResume := fun active => ungranted ⟨grants, active⟩
        refine ⟨Prod.ext ?_ rfl, notHolding⟩
        exact (live_issueResumeToken_self issued).trans (if_neg inactive)
    · exact ⟨rfl, notHolding⟩
  | online client => exact ⟨rfl, nofun⟩
  | ended => exact ⟨rfl, nofun⟩

/-- Who spends nothing, is granted nothing and leaves nothing changes nothing. -/
theorem slot_step_of_apart (names : c.Names id) (idle : ¬c.Holds) (own : Own key c.phase)
    (others : ∀ e, (tables.slot now id).2 = some e → e.identity ≠ key.identity)
    (unspent : ¬Spends prims rt key (tables.slot now id).1 c action) (ungranted : ¬Grants rt c action)
    (unparked : ¬Parks (tables.slot now id).2 c action) :
    (c.step prims rt key now action tables).1.slot now id = tables.slot now id ∧
      ∀ sess, (c.step prims rt key now action tables).2 ≠ .holding sess := by
  cases action with
  | proceed wall nonce sent room => exact slot_proceed_of_apart names idle others unspent ungranted
  | disconnected passive =>
    constructor
    · rw [step]
      cases left : c.leaves passive with
      | none => rfl
      | some both =>
        obtain ⟨st, client⟩ := both
        obtain rfl : st.session = id := Option.some.inj ((names_of_leaves left).symm.trans names)
        cases waits : (tables.slot now st.session).2 with
        | none => exact absurd ⟨left ▸ rfl, waits⟩ unparked
        | some old =>
          have different : old.client.made ≠ client.made := by
            intro same
            have isOwn := own client (client?_of_leaves left)
            exact others old waits ((congrArg ConnKey.identity same).trans isOwn)
          refine Prod.ext rfl (Suspended.live_suspend_self.trans ?_)
          show Suspended.park now _ (tables.slot now st.session).2 = (tables.slot now st.session).2
          rw [waits, Suspended.park, if_pos different]
    · intro sess
      rw [step]
      dsimp only
      split
      · exact nofun
      · exact fun isPhase => idle ⟨sess, isPhase⟩
  | stopped =>
    refine ⟨rfl, fun sess => ?_⟩
    rw [step]
    dsimp only
    split
    · exact nofun
    · exact fun isPhase => idle ⟨sess, isPhase⟩

end Control

variable {prims : Primitives} {rt : NLinkRuntime} {holder : Identity} {id : ConnectionId} {s other : State} {event : Event}

namespace State

variable (prims rt) in
/-- Whether a token is accepted when it is presented by its holder. -/
def Accepts (s : State) (id : ConnectionId) (holder : Identity) (token : String) (wall : Nat) : Prop :=
  (s.tables.tokens.consume prims rt.resumeKey s.clock wall id token holder.user holder.clientId).2 = some (.ok ())

def taken (s : State) (id : ConnectionId) (holder : Identity) : Option SuspendedSession :=
  (s.tables.suspended.takeSuspendedIf s.clock id holder.user holder.clientId).2

def Foreign (holder : Identity) (_ : State) : Event → Prop
  | .login login runId number .. => (keyOf login runId number).identity ≠ holder
  | .act key _ => key.identity ≠ holder
  | .swept | .elapsed _ => False

instance (holder : Identity) (s : State) : (event : Event) → Decidable (s.Foreign holder event)
  | .login login runId number .. => inferInstanceAs (Decidable ((keyOf login runId number).identity ≠ holder))
  | .act key _ => inferInstanceAs (Decidable (key.identity ≠ holder))
  | .swept | .elapsed _ => .isFalse not_false

variable (prims rt) in
/-- A connection of another that names the session spends no token that waits under it,
is granted none, and does not leave its own session where none waits. -/
def Apart (holder : Identity) (id : ConnectionId) (s : State) (event : Event) : Prop :=
  match event with
  | .act key action =>
    ∀ c ∈ s.controls.lookup key, key.identity ≠ holder → c.Names id →
      ¬c.Spends prims rt key (s.tables.slot s.clock id).1 action ∧ ¬c.Grants rt action ∧
        ¬c.Parks (s.tables.slot s.clock id).2 action
  | _ => True

/-- As far as the holder can tell: a connection under another name is seen to be there. -/
def seen (id : ConnectionId) (c : Control) : Control :=
  if c.Names id then c else { c with phase := .arrived }

structure Alike (holder : Identity) (id : ConnectionId) (s other : State) : Prop where
  clock : s.clock = other.clock
  slot : s.tables.slot s.clock id = other.tables.slot s.clock id
  mine : ∀ e, (s.tables.slot s.clock id).2 = some e → e.identity = holder
  own : ∀ key c, s.controls.lookup key = some c → Control.Own key c.phase
  idle : ∀ key c, s.controls.lookup key = some c → key.identity ≠ holder → c.Names id → ¬c.Holds
  controls : ∀ key, key.identity = holder →
    (s.controls.lookup key).map (seen id) = (other.controls.lookup key).map (seen id)

theorem names_of_seen {c d : Control} (same : seen id c = seen id d) : c.Names id ↔ d.Names id := by
  have sameNLink : c.nlink = d.nlink := by
    have projected := congrArg Control.nlink same
    rw [seen, seen] at projected
    split at projected <;> split at projected <;> exact projected
  rw [Control.Names, sameNLink, Control.Names]

theorem eq_of_seen {c d : Control} (names : c.Names id) (same : seen id c = seen id d) : c = d := by
  have namesToo := (names_of_seen same).mp names
  rwa [seen, if_pos names, seen, if_pos namesToo] at same

theorem seen_with_phase {c d : Control} (same : seen id c = seen id d) (phase otherPhase : Phase)
    (agree : c.Names id → phase = otherPhase) : seen id { c with phase } = seen id { d with phase := otherPhase } := by
  by_cases names : c.Names id
  · obtain rfl := eq_of_seen names same
    rw [agree names]
  · have namesNot := (names_of_seen same).not.mp names
    rw [seen, if_neg names, seen, if_neg namesNot] at same
    rw [seen, if_neg (show ¬Control.Names id { c with phase } from names), seen,
      if_neg (show ¬Control.Names id { d with phase := otherPhase } from namesNot)]
    exact same

theorem alike_initially (holder : Identity) (id : ConnectionId) : Alike holder id {} {} where
  clock := rfl
  slot := rfl
  mine := by
    intro e waits
    have nothing : live SuspendedSession.expiresAt 0 (∅ : Suspended) id = none := live_empty
    cases nothing.symm.trans waits
  own := by
    intro key c isControl
    cases (AList.lookup_empty key).symm.trans isControl
  idle := by
    intro key c isControl
    cases (AList.lookup_empty key).symm.trans isControl
  controls := fun _ _ => rfl

theorem alike_skip (apart : Apart prims rt holder id s event) (alike : Alike holder id s other)
    (foreign : s.Foreign holder event) : Alike holder id (s.step prims rt event) other := by
  cases event with
  | login login runId number version udpBinary caps nlink =>
    rw [step]
    cases found : s.controls.lookup (keyOf login runId number) with
    | some c => exact alike
    | none =>
      refine { alike with
        own := forall_lookup_insert (by rintro _ ⟨⟩) alike.own
        idle := forall_lookup_insert (by rintro _ _ ⟨_, ⟨⟩⟩) alike.idle
        controls := ?_ }
      · intro key isHolder
        have different : key ≠ keyOf login runId number := fun same => foreign (same ▸ isHolder)
        rw [AList.lookup_insert_ne different]
        exact alike.controls key isHolder
  | act key action =>
    rw [step]
    cases found : s.controls.lookup key with
    | none => exact alike
    | some c =>
      have own := alike.own key c found
      have unchanged : (c.step prims rt key s.clock action s.tables).1.slot s.clock id = s.tables.slot s.clock id ∧
          (c.Names id → ∀ sess, (c.step prims rt key s.clock action s.tables).2 ≠ .holding sess) := by
        by_cases names : c.Names id
        · have others : ∀ e, (s.tables.slot s.clock id).2 = some e → e.identity ≠ key.identity :=
            fun e waits same => foreign (same.symm.trans (alike.mine e waits))
          obtain ⟨unspent, ungranted, unparked⟩ := apart c found foreign names
          obtain ⟨sameSlot, notHolding⟩ := Control.slot_step_of_apart names (alike.idle key c found foreign names) own
            others unspent ungranted unparked
          exact ⟨sameSlot, fun _ => notHolding⟩
        · exact ⟨Control.slot_step_of_not_names names, fun named => absurd named names⟩
      refine ⟨alike.clock, unchanged.1.trans alike.slot, ?_, ?_, ?_, ?_⟩
      · intro e waits
        exact alike.mine e ((congrArg Prod.snd unchanged.1).symm.trans waits)
      · exact forall_lookup_insert (Control.own_step own) alike.own
      · refine forall_lookup_insert ?_ alike.idle
        rintro _ names ⟨sess, isHolding⟩
        exact unchanged.2 names sess isHolding
      · intro other isHolder
        have different : other ≠ key := fun same => foreign (same ▸ isHolder)
        rw [AList.lookup_insert_ne different]
        exact alike.controls other isHolder
  | swept | elapsed => exact foreign.elim

theorem alike_follow (alike : Alike holder id s other) (notForeign : ¬s.Foreign holder event) :
    Alike holder id (s.step prims rt event) (other.step prims rt event) := by
  cases event with
  | login login runId number version udpBinary caps nlink =>
    have isHolder : (keyOf login runId number).identity = holder := not_not.mp notForeign
    have sameControl := alike.controls _ isHolder
    rw [step, step]
    cases found : s.controls.lookup (keyOf login runId number) with
    | some c =>
      rw [found, Option.map_some, eq_comm, Option.map_eq_some_iff] at sameControl
      obtain ⟨d, otherFound, -⟩ := sameControl
      rw [otherFound]
      exact alike
    | none =>
      rw [found, Option.map_none, eq_comm, Option.map_eq_none_iff] at sameControl
      rw [sameControl]
      refine { alike with
        own := forall_lookup_insert (by rintro _ ⟨⟩) alike.own
        idle := forall_lookup_insert (by rintro _ _ ⟨_, ⟨⟩⟩) alike.idle
        controls := ?_ }
      · intro key isOurs
        rw [lookup_insert_eq, lookup_insert_eq]
        split
        · rfl
        · exact alike.controls key isOurs
  | act key action =>
    have isHolder : key.identity = holder := not_not.mp notForeign
    have sameControl := alike.controls key isHolder
    rw [step, step]
    cases found : s.controls.lookup key with
    | none =>
      rw [found, Option.map_none, eq_comm, Option.map_eq_none_iff] at sameControl
      rw [sameControl]
      exact alike
    | some c =>
      rw [found, Option.map_some, eq_comm, Option.map_eq_some_iff] at sameControl
      obtain ⟨d, otherFound, sameSeen⟩ := sameControl
      rw [otherFound]
      have own := alike.own key c found
      have agree : (c.step prims rt key s.clock action s.tables).1.slot s.clock id =
            (d.step prims rt key other.clock action other.tables).1.slot s.clock id ∧
          (c.Names id → (c.step prims rt key s.clock action s.tables).2 =
            (d.step prims rt key other.clock action other.tables).2) := by
        rw [← alike.clock]
        by_cases names : c.Names id
        · obtain rfl := eq_of_seen names sameSeen.symm
          obtain ⟨sameSlot, samePhase⟩ := Control.step_congr names alike.slot
          exact ⟨sameSlot, fun _ => samePhase⟩
        · have namesNot := (names_of_seen sameSeen.symm).not.mp names
          rw [Control.slot_step_of_not_names names, Control.slot_step_of_not_names namesNot]
          exact ⟨alike.slot, fun named => absurd named names⟩
      refine ⟨alike.clock, agree.1, ?_, ?_, ?_, ?_⟩
      · intro e waits
        rcases Control.session_step own waits with waited | isOwn
        · exact alike.mine e waited
        · exact isOwn.trans isHolder
      · exact forall_lookup_insert (Control.own_step own) alike.own
      · intro otherKey e isControl isForeign names
        have different : otherKey ≠ key := fun same => isForeign (same ▸ isHolder)
        rw [AList.lookup_insert_ne different] at isControl
        exact alike.idle otherKey e isControl isForeign names
      · intro otherKey isOurs
        rw [lookup_insert_eq, lookup_insert_eq]
        split
        · exact congrArg some (seen_with_phase sameSeen.symm _ _ agree.2)
        · exact alike.controls otherKey isOurs
  | swept =>
    refine { alike with slot := ?_, mine := ?_ }
    · calc (s.step prims rt .swept).tables.slot s.clock id
        _ = s.tables.slot s.clock id := Tables.slot_sweep
        _ = other.tables.slot s.clock id := alike.slot
        _ = (other.step prims rt .swept).tables.slot s.clock id := by
            rw [alike.clock]
            exact Tables.slot_sweep.symm
    · intro e waits
      exact alike.mine e ((congrArg Prod.snd Tables.slot_sweep).symm.trans waits)
  | elapsed time =>
    have order : s.clock ≤ s.clock + time := Nat.le_add_right _ _
    refine ⟨congrArg (· + time) alike.clock, ?_, ?_, alike.own, alike.idle, alike.controls⟩
    · show s.tables.slot (s.clock + time) id = other.tables.slot (s.clock + time) id
      rw [Tables.slot_later order, Tables.slot_later order, alike.slot]
    · intro e waits
      have later := (congrArg Prod.snd (Tables.slot_later order)).symm.trans waits
      exact alike.mine e (Option.filter_eq_some_iff.mp later).1

theorem accepts_iff {token : String} {wall : Nat} :
    s.Accepts prims rt id holder token wall ↔
      (PendingTokens.spend prims rt.resumeKey wall id token holder.user holder.clientId
        (s.tables.slot s.clock id).1).2 = some true := by
  have spends := congrArg Prod.snd (@PendingTokens.spends_of_consume prims rt.resumeKey s.clock wall id token holder.user
    holder.clientId s.tables.tokens)
  rw [Tables.slot, ← spends, Option.map_eq_some_iff]
  constructor
  · intro accepted
    exact ⟨_, accepted, rfl⟩
  · rintro ⟨verdict, isVerdict, isOk⟩
    cases verdict with
    | ok => exact isVerdict
    | error => cases isOk

theorem taken_eq : s.taken id holder = (Suspended.reclaim holder (s.tables.slot s.clock id).2).2 :=
  congrArg Prod.snd Suspended.reclaims_of_takeSuspendedIf

variable (prims rt) in
/-- The same tokens of the holder are accepted, and the same session is taken out. -/
def Unmoved (holder : Identity) (id : ConnectionId) (s other : State) : Prop :=
  (∀ token wall, s.Accepts prims rt id holder token wall ↔ other.Accepts prims rt id holder token wall) ∧
    s.taken id holder = other.taken id holder

theorem unmoved_of_alike (alike : Alike holder id s other) : Unmoved prims rt holder id s other := by
  have sameSlot : s.tables.slot s.clock id = other.tables.slot other.clock id := by
    rw [alike.slot, alike.clock]
  constructor
  · intro token wall
    rw [accepts_iff, accepts_iff, sameSlot]
  · rw [taken_eq, taken_eq, sameSlot]

end State

/-- In every run in which connections of others, where they name the session, spend no
token of it, are granted none and are not left in its place: what the holder can do is
what it could do without them. -/
theorem isolated (prims : Primitives) (rt : NLinkRuntime) (holder : Identity) (id : ConnectionId) {events : List Event}
    (meets : RunMeets (State.step prims rt) (State.Apart prims rt holder id) {} events) :
    State.Unmoved prims rt holder id (run (State.step prims rt) {} events)
      (run (State.step prims rt) {} (erased (State.step prims rt) (State.Foreign holder) {} events)) := by
  refine State.unmoved_of_alike (run_erased ?_ ?_ (State.alike_initially holder id) meets)
  · intro s other event apart alike foreign
    exact State.alike_skip apart alike foreign
  · intro s other event _ alike notForeign
    exact State.alike_follow alike notForeign

def officeSession : ConnectionId := #v[0, 1, 2, 3, 4, 5, 6, 7, 8, 9, 10, 11, 12, 13, 14, 15]

def guestSession : ConnectionId := #v[16, 17, 18, 19, 20, 21, 22, 23, 24, 25, 26, 27, 28, 29, 30, 31]

def officeRuntime : NLinkRuntime where
  active := Caps.new capResume
  resumeTtl := 60
  resumeKey :=
    [138, 161, 86, 188, 213, 230, 41, 181, 135, 75, 33, 0, 81, 134, 20, 69, 116, 189, 214, 234, 207, 117, 189, 101, 66,
      212, 3, 61, 162, 128, 168, 6]

def officeCodes : Primitives where
  md5 _ := .replicate 16 0
  sha256 _ := .replicate 32 0
  hmacSha256 _ message :=
    if message = resumeMessage officeSession "alice" "laptop" 60 (.replicate 16 0) then
      #v[19, 48, 91, 40, 28, 65, 146, 26, 12, 118, 134, 127, 12, 37, 44, 193, 110, 63, 242, 7, 64, 164, 125, 138, 59, 15,
        120, 7, 137, 86, 118, 136]
    else
      #v[15, 13, 174, 105, 198, 16, 19, 189, 11, 92, 16, 167, 182, 187, 103, 198, 45, 211, 32, 18, 177, 142, 88, 142, 84,
        21, 241, 65, 194, 72, 81, 168]
  b64url _ := .error "不是 base64url"
  jwtHeader _ := .error "不是 JWT"
  json _ := .error "不是 JSON"
  verifySignature _ _ _ _ := .ok false

def firstLogin (user clientId : String) (session : ConnectionId) : Event :=
  .login { user, clientId } "" 0 .v1 false {} (some { caps := Caps.new capResume, session })

def granted (user clientId : String) (octet : UInt8) : List Event :=
  [.act ⟨user, clientId, 0⟩ (.proceed 0 (.replicate 16 octet) true true),
    .act ⟨user, clientId, 0⟩ (.proceed 0 (.replicate 16 octet) true true)]

/-- Alice is granted a token, and then Mallory under a name of their own. -/
def sharedRun (session : ConnectionId) : List Event :=
  firstLogin "alice" "laptop" officeSession :: granted "alice" "laptop" 0 ++
    firstLogin "mallory" "desk" session :: granted "mallory" "desk" 1

theorem isolated_sharedRun :
    State.Unmoved officeCodes officeRuntime ⟨"alice", "laptop"⟩ officeSession
      (run (State.step officeCodes officeRuntime) {} (sharedRun guestSession))
      (run (State.step officeCodes officeRuntime) {} (erased (State.step officeCodes officeRuntime)
        (State.Foreign ⟨"alice", "laptop"⟩) {} (sharedRun guestSession))) := by
  have elsewhere : ∀ s c action, s.controls.lookup ⟨"mallory", "desk", 0⟩ = some c → ¬c.Names officeSession →
      State.Apart officeCodes officeRuntime ⟨"alice", "laptop"⟩ officeSession s (.act ⟨"mallory", "desk", 0⟩ action) := by
    intro s c action found notNamed other isControl _ names
    obtain rfl := Option.some.inj (found.symm.trans isControl)
    exact absurd names notNamed
  have ours : ∀ s action, State.Apart officeCodes officeRuntime ⟨"alice", "laptop"⟩ officeSession s
      (.act ⟨"alice", "laptop", 0⟩ action) :=
    fun s action c _ isForeign => absurd rfl isForeign
  refine isolated officeCodes officeRuntime ⟨"alice", "laptop"⟩ officeSession ⟨trivial, ours _ _, ours _ _, trivial, ?_, ?_, trivial⟩
  · exact elsewhere _ _ _ rfl (by decide)
  · exact elsewhere _ _ _ rfl (by decide)

/-- Mallory names the session of Alice, and the token of Alice is no longer good. -/
theorem not_isolated_sharedRun :
    ¬∃ prims, State.Unmoved prims officeRuntime ⟨"alice", "laptop"⟩ officeSession
      (run (State.step prims officeRuntime) {} (sharedRun officeSession))
      (run (State.step prims officeRuntime) {} (erased (State.step prims officeRuntime)
        (State.Foreign ⟨"alice", "laptop"⟩) {} (sharedRun officeSession))) := by
  rintro ⟨prims, unmoved, -⟩
  have alone : ∃ entry, issueResume prims officeRuntime.resumeKey officeSession "alice" "laptop" 60 0 (.replicate 16 0) =
        some (IssuedToken.token entry) ∧
      (run (State.step prims officeRuntime) {} (erased (State.step prims officeRuntime)
        (State.Foreign ⟨"alice", "laptop"⟩) {} (sharedRun officeSession))).tables.tokens.lookup officeSession = some entry ∧
      (run (State.step prims officeRuntime) {} (erased (State.step prims officeRuntime)
        (State.Foreign ⟨"alice", "laptop"⟩) {} (sharedRun officeSession))).clock < entry.expiresAt :=
    ⟨_, rfl, rfl, Nat.lt_add_of_pos_right (Control.ttl_pos _)⟩
  have shared : ∃ entry, issueResume prims officeRuntime.resumeKey officeSession "mallory" "desk" 60 0 (.replicate 16 1) =
        some (IssuedToken.token entry) ∧
      (run (State.step prims officeRuntime) {} (sharedRun officeSession)).tables.tokens.lookup officeSession =
        some entry := ⟨_, rfl, rfl⟩
  generalize run (State.step prims officeRuntime) {} (sharedRun officeSession) = s at shared unmoved
  generalize run (State.step prims officeRuntime) {} (erased (State.step prims officeRuntime)
    (State.Foreign ⟨"alice", "laptop"⟩) {} (sharedRun officeSession)) = other at alone unmoved
  obtain ⟨entry, issued, waits, counts⟩ := alone
  obtain ⟨later, issuedLater, waitsLater⟩ := shared
  have small : 0 + max 60 1 + 30 < 2 ^ 64 := by decide
  have verified := verifyResume_issueResume issued small (Nat.zero_le _)
  have accepted : other.Accepts prims officeRuntime officeSession ⟨"alice", "laptop"⟩ entry.token 0 :=
    State.accepts_iff.mpr (PendingTokens.spend_accepts_iff.mpr
      ⟨entry, live_eq_some_iff.mpr ⟨waits, counts⟩, rfl, verified⟩)
  have acceptedToo := (unmoved entry.token 0).mpr accepted
  rw [State.accepts_iff, PendingTokens.spend_accepts_iff] at acceptedToo
  obtain ⟨last, isLast, same, -⟩ := acceptedToo
  obtain rfl := Option.some.inj (waitsLater.symm.trans (live_eq_some_iff.mp isLast).1)
  exact absurd (nonce_of_issueResume issued (same ▸ issuedLater)) (by decide)

end Nfrp.Nlink
