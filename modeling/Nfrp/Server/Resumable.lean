import Nfrp.Server.Resumption

/-!
# Coming back

A client keeps the token it was granted when it came, and presents it when it comes again.
The token counts from the grant, the session that waits from when the connection broke:
who was online for longer than the token counts finds the session waiting and is not let in.
-/

namespace Nfrp.Nlink

open Lib

namespace Control

variable {prims : Primitives} {rt : NLinkRuntime} {c : Control} {key : ConnKey} {now wall : Nat}
  {nonce : Vector UInt8 16} {sent room : Bool} {tables : Tables} {st : NLinkState} {token : String}

theorem join_ne_granting {resumed other : Option ClientState} :
    (if sent then c.join key resumed room else .ended) ≠ .granting other := by
  cases sent <;> cases resumed <;> cases room <;> simp [join]

theorem join_ne_checked {resumed : Option ClientState} {tokenOk : Bool} :
    (if sent then c.join key resumed room else .ended) ≠ .checked tokenOk := by
  cases sent <;> cases resumed <;> cases room <;> simp [join]

theorem join_ne_holding {resumed : Option ClientState} {sess : SuspendedSession} :
    (if sent then c.join key resumed room else .ended) ≠ .holding sess := by
  cases sent <;> cases resumed <;> cases room <;> simp [join]

theorem proceed_checked_iff (isNLink : c.nlink = some st) (resumes : st.resumes) (presents : st.resumeToken = some token) :
    (c.proceed prims rt key now wall nonce sent room tables).2 = .checked true ↔
      c.phase = .arrived ∧
        (PendingTokens.spend prims rt.resumeKey wall st.session token key.user key.clientId
          (tables.slot now st.session).1).2 = some true := by
  have spends := congrArg Prod.snd (@PendingTokens.spends_of_consume prims rt.resumeKey now wall st.session token key.user
    key.clientId tables.tokens)
  obtain ⟨version, udpBinary, caps, nlink, phase⟩ := c
  obtain rfl : nlink = some st := isNLink
  cases phase with
  | arrived =>
    rw [proceed, Tables.slot, ← spends]
    dsimp only
    rw [if_pos resumes, presents]
    dsimp only
    split
    next verdict => simp [verdict]
    next tokenOk verdict => simp [verdict]
  | checked tokenOk =>
    rw [proceed]
    dsimp only
    split
    · split <;> simp
    · simp
  | holding sess =>
    rw [proceed]
    dsimp only
    split <;> simp
  | granting resumed =>
    rw [proceed]
    dsimp only
    split
    · split
      · simp
      · simp [join_ne_checked]
    · simp [join_ne_checked]
  | online client => simp [proceed]
  | ended => simp [proceed]

theorem proceed_holding_iff (isNLink : c.nlink = some st) {sess : SuspendedSession} :
    (c.proceed prims rt key now wall nonce sent room tables).2 = .holding sess ↔
      c.phase = .checked true ∧ (Suspended.reclaim key.identity (tables.slot now st.session).2).2 = some sess := by
  have reclaims := congrArg Prod.snd (@Suspended.reclaims_of_takeSuspendedIf now st.session key.user key.clientId
    tables.suspended)
  obtain ⟨version, udpBinary, caps, nlink, phase⟩ := c
  obtain rfl : nlink = some st := isNLink
  cases phase with
  | arrived =>
    rw [proceed]
    dsimp only
    split
    · split
      · simp
      · dsimp only
        split <;> simp
    · simp
  | checked tokenOk =>
    rw [proceed, Tables.slot, ConnKey.identity, ← reclaims]
    dsimp only
    split
    next isOk =>
      split
      next taken => simp [taken, isOk]
      next notTaken => simp [notTaken]
    next notOk => simp [notOk]
  | holding other =>
    rw [proceed]
    dsimp only
    split <;> simp
  | granting resumed =>
    rw [proceed]
    dsimp only
    split
    · split
      · simp
      · simp [join_ne_holding]
    · simp [join_ne_holding]
  | online client => simp [proceed]
  | ended => simp [proceed]

theorem proceed_granting_iff (isNLink : c.nlink = some st) {client : ClientState} :
    (c.proceed prims rt key now wall nonce sent room tables).2 = .granting (some client) ↔
      ∃ sess, c.phase = .holding sess ∧ sess.client = client ∧ c.sameTransport client ∧ !client.stopped := by
  obtain ⟨version, udpBinary, caps, nlink, phase⟩ := c
  obtain rfl : nlink = some st := isNLink
  cases phase with
  | arrived =>
    rw [proceed]
    dsimp only
    split
    · split
      · simp
      · dsimp only
        split <;> simp
    · simp
  | checked tokenOk =>
    rw [proceed]
    dsimp only
    split
    · split <;> simp
    · simp
  | holding sess =>
    rw [proceed]
    dsimp only
    split
    next goesOn =>
      obtain ⟨same, running⟩ := Bool.and_eq_true_iff.mp goesOn
      constructor
      · rintro ⟨⟩
        exact ⟨sess, rfl, rfl, same, running⟩
      · rintro ⟨_, ⟨⟩, rfl, -⟩
        rfl
    next staysAway =>
      constructor
      · rintro ⟨⟩
      · rintro ⟨_, ⟨⟩, rfl, same, running⟩
        exact absurd (Bool.and_eq_true_iff.mpr ⟨same, running⟩) staysAway
  | granting resumed =>
    rw [proceed]
    dsimp only
    split
    · split
      · simp
      · simp [join_ne_granting]
    · simp [join_ne_granting]
  | online other => simp [proceed]
  | ended => simp [proceed]

theorem suspended_proceed_of_arrived (arrived : c.phase = .arrived) :
    (c.proceed prims rt key now wall nonce sent room tables).1.suspended = tables.suspended := by
  rw [proceed, arrived]
  split
  · split
    · split <;> rfl
    · rfl
  all_goals first | rfl | contradiction

end Control

namespace State

variable {prims : Primitives} {rt : NLinkRuntime} {mine : List ConnKey} {id : ConnectionId} {s later last : State}
  {event : Event} {key : ConnKey} {action : Action} {c : Control}

def Owned (s : State) : Prop :=
  ∀ key c, s.controls.lookup key = some c → Control.Own key c.phase

theorem owned_step (owned : s.Owned) (event : Event) : (s.step prims rt event).Owned := by
  cases event with
  | login login runId number version udpBinary caps nlink =>
    rw [step]
    cases found : s.controls.lookup (keyOf login runId number) with
    | some c => exact owned
    | none =>
      apply forall_lookup_insert _ owned
      rintro _ ⟨⟩
  | act key action =>
    rw [step]
    cases found : s.controls.lookup key with
    | none => exact owned
    | some c => exact forall_lookup_insert (Control.own_step (owned key c found)) owned
  | swept | elapsed => exact owned

theorem owned_run (owned : s.Owned) (events : List Event) : (run (State.step prims rt) s events).Owned := by
  have preserved : ∀ (s : State) event, s.Owned → (s.step prims rt event).Owned :=
    fun _ event owned => owned_step owned event
  exact run_invariant preserved owned events

theorem owned_initially : ({} : State).Owned := by
  intro key c isControl
  simp at isControl

theorem step_act (found : s.controls.lookup key = some c) :
    s.step prims rt (.act key action) =
      { s with
        tables := (c.step prims rt key s.clock action s.tables).1,
        controls := s.controls.insert key { c with phase := (c.step prims rt key s.clock action s.tables).2 } } := by
  rw [step, found]

@[simp]
theorem clock_act : (s.step prims rt (.act key action)).clock = s.clock := by
  cases found : s.controls.lookup key with
  | none => rw [step, found]
  | some c => rw [step_act found]

/-- Until then nothing is done about what waits under the name, nor by these connections. -/
structure Keeps (mine : List ConnKey) (id : ConnectionId) (s later : State) : Prop where
  clock : s.clock ≤ later.clock
  slot : ∀ now, later.clock ≤ now → later.tables.slot now id = s.tables.slot now id
  controls : ∀ key ∈ mine, ∀ c, s.controls.lookup key = some c → later.controls.lookup key = some c

theorem Keeps.refl (mine : List ConnKey) (id : ConnectionId) (s : State) : Keeps mine id s s :=
  ⟨Nat.le_refl _, fun _ _ => rfl, fun _ _ _ isControl => isControl⟩

theorem Keeps.trans (first : Keeps mine id s later) (second : Keeps mine id later last) : Keeps mine id s last where
  clock := Nat.le_trans first.clock second.clock
  slot now order := (second.slot now order).trans (first.slot now (Nat.le_trans second.clock order))
  controls key isMine c isControl := second.controls key isMine c (first.controls key isMine c isControl)

variable (prims rt) in
/-- Who else names the session spends no token of it, is granted none, and leaves its own
neither where none waits nor by putting back what it took, and it is not the one whose
session waits. -/
def Undisturbed (mine : List ConnKey) (id : ConnectionId) (s : State) : Event → Prop
  | .act key action =>
    key ∉ mine ∧ ∀ c ∈ s.controls.lookup key, c.Names id →
      ¬c.Holds ∧ (∀ e, (s.tables.slot s.clock id).2 = some e → e.identity ≠ key.identity) ∧
        ¬c.Spends prims rt key (s.tables.slot s.clock id).1 action ∧ ¬c.Grants rt action ∧
          ¬c.Parks (s.tables.slot s.clock id).2 action
  | .login .. | .swept | .elapsed _ => True

theorem slot_of_undisturbed (owned : s.Owned) (undisturbed : s.Undisturbed prims rt mine id (.act key action))
    (found : s.controls.lookup key = some c) :
    (c.step prims rt key s.clock action s.tables).1.slot s.clock id = s.tables.slot s.clock id := by
  by_cases names : c.Names id
  · obtain ⟨idle, others, unspent, ungranted, unparked⟩ := undisturbed.2 c found names
    exact (Control.slot_step_of_apart names idle (owned key c found) others unspent ungranted unparked).1
  · exact Control.slot_step_of_not_names names

theorem keeps_step (owned : s.Owned) (undisturbed : s.Undisturbed prims rt mine id event) :
    Keeps mine id s (s.step prims rt event) := by
  cases event with
  | login login runId number version udpBinary caps nlink =>
    rw [step]
    cases found : s.controls.lookup (keyOf login runId number) with
    | some c => exact Keeps.refl mine id s
    | none =>
      refine ⟨Nat.le_refl _, fun _ _ => rfl, fun key _ c isControl => ?_⟩
      have different : key ≠ keyOf login runId number := by
        rintro rfl
        cases found.symm.trans isControl
      rwa [AList.lookup_insert_ne different]
  | act key action =>
    cases found : s.controls.lookup key with
    | none =>
      rw [step, found]
      exact Keeps.refl mine id s
    | some c =>
      rw [step_act found]
      refine ⟨Nat.le_refl _, fun now order => ?_, fun other isMine d isControl => ?_⟩
      · rw [Tables.slot_later order, slot_of_undisturbed owned undisturbed found, ← Tables.slot_later order]
      · have different : other ≠ key := fun same => undisturbed.1 (same ▸ isMine)
        rwa [AList.lookup_insert_ne different]
  | swept =>
    refine ⟨Nat.le_refl _, fun now order => ?_, fun _ _ _ isControl => isControl⟩
    have same : (s.step prims rt .swept).tables.slot s.clock id = s.tables.slot s.clock id := Tables.slot_sweep
    have before : s.clock ≤ now := order
    rw [Tables.slot_later before, same, ← Tables.slot_later before]
  | elapsed time => exact ⟨Nat.le_add_right _ _, fun _ _ => rfl, fun _ _ _ isControl => isControl⟩

theorem keeps_run {events : List Event} (owned : s.Owned)
    (meets : RunMeets (State.step prims rt) (Undisturbed prims rt mine id) s events) :
    Keeps mine id s (run (State.step prims rt) s events) := by
  induction events generalizing s with
  | nil => exact Keeps.refl mine id s
  | cons event events ih =>
    exact (keeps_step owned meets.1).trans (ih (owned_step owned event) meets.2)

end State

/-- For how long a token counts that is granted to a connection. -/
def NLinkRuntime.tokenTtl (rt : NLinkRuntime) : Nat :=
  max (max rt.resumeTtl 30) 1

/-- A connection is granted a token and goes online, breaks of itself, and its client comes
back with the token.  What others do in between is `online`, `away`, `paused` and `held`. -/
structure Outage where
  before : List Event
  key : ConnKey
  control : Control
  st : NLinkState
  wall : Nat
  nonce : Vector UInt8 16
  room : Bool
  token : String
  client : ClientState
  online : List Event
  away : List Event
  back : ConnKey
  returning : Control
  returningSt : NLinkState
  wallBack : Nat
  nonceBack : Vector UInt8 16
  paused : List Event
  held : List Event

namespace Outage

section States

variable (prims : Primitives) (rt : NLinkRuntime) (o : Outage)

def granting : State :=
  run (State.step prims rt) {} o.before

def granted : State :=
  (o.granting prims rt).step prims rt (.act o.key (.proceed o.wall o.nonce true o.room))

def breaking : State :=
  run (State.step prims rt) (o.granted prims rt) o.online

def broken : State :=
  (o.breaking prims rt).step prims rt (.act o.key (.disconnected true))

def arriving : State :=
  run (State.step prims rt) (o.broken prims rt) o.away

/-- Of its steps here only the first reads the clock on the wall. -/
def proceeding : Event :=
  .act o.back (.proceed o.wallBack o.nonceBack true true)

def presented : State :=
  (o.arriving prims rt).step prims rt o.proceeding

def asking : State :=
  run (State.step prims rt) (o.presented prims rt) o.paused

def asked : State :=
  (o.asking prims rt).step prims rt o.proceeding

def joining : State :=
  run (State.step prims rt) (o.asked prims rt) o.held

def joined : State :=
  (o.joining prims rt).step prims rt o.proceeding

structure Happens : Prop where
  isGranting : (o.granting prims rt).controls.lookup o.key = some o.control
  grants : ∃ resumed, o.control.phase = .granting resumed
  isNLink : o.control.nlink = some o.st
  resumes : o.st.resumes
  active : rt.active.contains capResume
  issued : issueResume prims rt.resumeKey o.st.session o.key.user o.key.clientId rt.tokenTtl o.wall o.nonce = some o.token
  isOnline : (o.granted prims rt).controls.lookup o.key = some { o.control with phase := .online o.client }
  running : o.client.stopped = false
  whileOnline : RunMeets (State.step prims rt) (State.Undisturbed prims rt [o.key] o.st.session) (o.granted prims rt) o.online
  whileAway : RunMeets (State.step prims rt) (State.Undisturbed prims rt [o.back] o.st.session) (o.broken prims rt) o.away
  isReturning : (o.arriving prims rt).controls.lookup o.back = some o.returning
  arrives : o.returning.phase = .arrived
  isReturningNLink : o.returning.nlink = some o.returningSt
  sameIdentity : o.back.identity = o.key.identity
  sameSession : o.returningSt.session = o.st.session
  returnResumes : o.returningSt.resumes
  presents : o.returningSt.resumeToken = some o.token
  whilePaused :
    RunMeets (State.step prims rt) (State.Undisturbed prims rt [o.back] o.st.session) (o.presented prims rt) o.paused
  inTime : (o.asking prims rt).clock < (o.breaking prims rt).clock + rt.waits
  whileHeld : RunMeets (State.step prims rt) (State.Undisturbed prims rt [o.back] o.st.session) (o.asked prims rt) o.held

/-- The one that comes back goes on with the client of the one that broke. -/
def Resumed : Prop :=
  ∃ c, (o.joined prims rt).controls.lookup o.back = some c ∧ c.phase = .granting (some o.client)

def Unoccupied : Prop :=
  ∀ e, ((o.breaking prims rt).tables.slot (o.breaking prims rt).clock o.st.session).2 = some e → e.client.made = o.client.made

def SameTransport : Prop :=
  o.returning.sameTransport o.client

/-- The token has not been out for longer than it counts, by either clock. -/
def TokenCounts : Prop :=
  (o.arriving prims rt).clock < (o.granting prims rt).clock + rt.tokenTtl * second ∧
    o.wall + rt.tokenTtl + 30 < 2 ^ 64 ∧ o.wallBack ≤ o.wall + rt.tokenTtl + 30

end States

variable {prims : Primitives} {rt : NLinkRuntime} {o : Outage}

theorem clock_granted : (o.granted prims rt).clock = (o.granting prims rt).clock := by
  rw [granted, State.clock_act]

theorem clock_broken : (o.broken prims rt).clock = (o.breaking prims rt).clock := by
  rw [broken, State.clock_act]

theorem clock_presented : (o.presented prims rt).clock = (o.arriving prims rt).clock := by
  rw [presented, proceeding, State.clock_act]

variable (happens : o.Happens prims rt)

include happens

theorem token_granted :
    ((o.granted prims rt).tables.slot (o.granting prims rt).clock o.st.session).1 =
      some ⟨o.token, (o.granting prims rt).clock + rt.tokenTtl * second⟩ := by
  obtain ⟨resumed, phase⟩ := happens.grants
  have grants : o.st.grants := by simp [NLinkState.grants, happens.resumes]
  have isNLink := happens.isNLink
  rw [granted, State.step_act happens.isGranting]
  generalize o.control = c at phase isNLink
  obtain ⟨version, udpBinary, caps, nlink, _⟩ := c
  obtain rfl : nlink = _ := isNLink
  obtain rfl : _ = Phase.granting resumed := phase
  have sameTtl : max (max rt.resumeTtl 30) 1 = rt.tokenTtl := rfl
  have given : issueResumeToken prims rt (o.granting prims rt).clock o.wall o.nonce o.st.session o.key.user o.key.clientId
      (max rt.resumeTtl 30) (o.granting prims rt).tables.tokens =
        some ((o.granting prims rt).tables.tokens.issue (o.granting prims rt).clock o.st.session o.token
          (rt.tokenTtl * second), some o.token) := by
    rw [issueResumeToken, if_pos happens.active]
    dsimp only
    rw [sameTtl, happens.issued, Option.map_some]
  have waits := Control.live_issueResumeToken_self given
  rw [if_pos happens.active, sameTtl] at waits
  rw [Control.step, Control.proceed]
  dsimp only
  rw [if_pos grants, given]
  exact waits

theorem keeps_online : State.Keeps [o.key] o.st.session (o.granted prims rt) (o.breaking prims rt) :=
  State.keeps_run (State.owned_step (State.owned_run State.owned_initially _) _) happens.whileOnline

theorem isBreaking : (o.breaking prims rt).controls.lookup o.key = some { o.control with phase := .online o.client } :=
  (keeps_online happens).controls o.key (List.mem_singleton_self _) _ happens.isOnline

theorem identity_client : o.client.made.identity = o.key.identity := by
  have owned : (o.breaking prims rt).Owned :=
    State.owned_run (State.owned_step (State.owned_run State.owned_initially _) _) _
  exact owned o.key _ (isBreaking happens) o.client rfl

theorem slot_broken :
    (o.broken prims rt).tables.slot (o.breaking prims rt).clock o.st.session =
      (((o.breaking prims rt).tables.slot (o.breaking prims rt).clock o.st.session).1,
        Suspended.park (o.breaking prims rt).clock ⟨o.client, (o.breaking prims rt).clock + rt.waits⟩
          ((o.breaking prims rt).tables.slot (o.breaking prims rt).clock o.st.session).2) := by
  have leaves : Control.leaves { o.control with phase := .online o.client } true = some (o.st, o.client) := by
    simp [Control.leaves, happens.isNLink, happens.resumes, happens.running]
  rw [broken, State.step_act (isBreaking happens), Control.step, leaves]
  exact Prod.ext rfl Suspended.live_suspend_self

theorem keeps_away : State.Keeps [o.back] o.st.session (o.broken prims rt) (o.arriving prims rt) :=
  State.keeps_run (State.owned_step (State.owned_run
    (State.owned_step (State.owned_run State.owned_initially _) _) _) _) happens.whileAway

theorem token_arriving :
    ((o.arriving prims rt).tables.slot (o.arriving prims rt).clock o.st.session).1 =
      (some (IssuedToken.mk o.token ((o.granting prims rt).clock + rt.tokenTtl * second))).filter
        fun entry => (o.arriving prims rt).clock < entry.expiresAt := by
  have sinceGranted := (keeps_online happens).clock
  rw [clock_granted] at sinceGranted
  have sinceBroken := (keeps_away happens).clock
  rw [clock_broken] at sinceBroken
  have atBreaking := (keeps_online happens).slot _ (Nat.le_refl _)
  rw [(keeps_away happens).slot _ (Nat.le_refl _), Tables.slot_later sinceBroken, slot_broken happens, atBreaking,
    Tables.slot_later sinceGranted, token_granted happens]
  dsimp only
  rw [Option.filter_filter]
  congr 1
  funext entry
  simp only [Bool.and_eq_decide, decide_eq_true_eq, decide_eq_decide]
  omega

theorem isPresented :
    ∃ phase, (o.presented prims rt).controls.lookup o.back = some { o.returning with phase } ∧
      (phase = .checked true ↔ o.TokenCounts prims rt) := by
  refine ⟨_, by rw [presented, proceeding, State.step_act happens.isReturning, AList.lookup_insert], ?_⟩
  rw [Control.step, Control.proceed_checked_iff happens.isReturningNLink happens.returnResumes happens.presents,
    happens.sameSession, token_arriving happens, PendingTokens.spend_accepts_iff]
  have sameUser : o.back.user = o.key.user := congrArg Identity.user happens.sameIdentity
  have sameClient : o.back.clientId = o.key.clientId := congrArg Identity.clientId happens.sameIdentity
  have verified := @verifyResume_issueResume_iff prims rt.resumeKey o.st.session o.key.user o.key.clientId rt.tokenTtl o.wall
    o.wallBack o.nonce o.token happens.issued
  have sameTtl : max rt.tokenTtl 1 = rt.tokenTtl := by
    rw [NLinkRuntime.tokenTtl]
    omega
  rw [sameTtl] at verified
  constructor
  · rintro ⟨-, entry, waits, same, accepted⟩
    obtain ⟨isEntry, counts⟩ := Option.filter_eq_some_iff.mp waits
    obtain rfl := Option.some.inj isEntry
    rw [sameUser, sameClient] at accepted
    exact ⟨of_decide_eq_true counts, verified.mp accepted⟩
  · rintro ⟨counts, inTime⟩
    refine ⟨happens.arrives, _, Option.filter_eq_some_iff.mpr ⟨rfl, decide_eq_true counts⟩, rfl, ?_⟩
    rw [sameUser, sameClient]
    exact verified.mpr inTime

theorem keeps_paused : State.Keeps [o.back] o.st.session (o.presented prims rt) (o.asking prims rt) :=
  State.keeps_run (State.owned_step (State.owned_run (State.owned_step (State.owned_run
    (State.owned_step (State.owned_run State.owned_initially _) _) _) _) _) _) happens.whilePaused

theorem slot_asking :
    ((o.asking prims rt).tables.slot (o.asking prims rt).clock o.st.session).2 =
      (Suspended.park (o.breaking prims rt).clock ⟨o.client, (o.breaking prims rt).clock + rt.waits⟩
        ((o.breaking prims rt).tables.slot (o.breaking prims rt).clock o.st.session).2).filter
          fun entry => (o.asking prims rt).clock < entry.expiresAt := by
  have sameSuspended : (o.presented prims rt).tables.suspended = (o.arriving prims rt).tables.suspended := by
    rw [presented, proceeding, State.step_act happens.isReturning]
    exact Control.suspended_proceed_of_arrived happens.arrives
  have sincePresented := (keeps_paused happens).clock
  rw [clock_presented] at sincePresented
  have sinceBroken := (keeps_away happens).clock
  rw [clock_broken] at sinceBroken
  have waiting : ((o.presented prims rt).tables.slot (o.asking prims rt).clock o.st.session).2 =
      ((o.arriving prims rt).tables.slot (o.asking prims rt).clock o.st.session).2 := by
    rw [Tables.slot, Tables.slot, sameSuspended]
  rw [(keeps_paused happens).slot _ (Nat.le_refl _), waiting, (keeps_away happens).slot _ sincePresented,
    Tables.slot_later (Nat.le_trans sinceBroken sincePresented), slot_broken happens]

theorem reclaims_iff :
    (∃ sess, (Suspended.reclaim o.back.identity
        ((o.asking prims rt).tables.slot (o.asking prims rt).clock o.st.session).2).2 = some sess ∧
      sess.client = o.client) ↔ o.Unoccupied prims rt := by
  have positive : 0 < rt.waits := Nat.mul_pos (Nat.lt_of_lt_of_le (by decide) (Nat.le_max_left _ _)) (by decide)
  have counts : (o.breaking prims rt).clock < (o.breaking prims rt).clock + rt.waits := Nat.lt_add_of_pos_right positive
  have isOwner : SuspendedSession.identity ⟨o.client, (o.breaking prims rt).clock + rt.waits⟩ = o.back.identity :=
    (identity_client happens).trans happens.sameIdentity.symm
  have filtered : ∀ now, now < (o.breaking prims rt).clock + rt.waits →
      (some (SuspendedSession.mk o.client ((o.breaking prims rt).clock + rt.waits))).filter
        (fun entry => now < entry.expiresAt) = some ⟨o.client, (o.breaking prims rt).clock + rt.waits⟩ :=
    fun now inTime => Option.filter_some_pos (decide_eq_true inTime)
  have taken : (Suspended.reclaim o.back.identity ((some (SuspendedSession.mk o.client
        ((o.breaking prims rt).clock + rt.waits))).filter fun entry => (o.asking prims rt).clock < entry.expiresAt)).2 =
      some ⟨o.client, (o.breaking prims rt).clock + rt.waits⟩ := by
    rw [filtered _ happens.inTime, Suspended.reclaim, if_neg (not_not.mpr isOwner)]
  rw [slot_asking happens, Unoccupied]
  cases waits : ((o.breaking prims rt).tables.slot (o.breaking prims rt).clock o.st.session).2 with
  | none =>
    rw [Suspended.park, filtered _ counts, taken]
    refine ⟨fun _ => ?_, fun _ => ⟨_, rfl, rfl⟩⟩
    rintro _ ⟨⟩
  | some old =>
    by_cases same : old.client.made = o.client.made
    · rw [Suspended.park, if_neg (not_not.mpr same), filtered _ counts, taken]
      refine ⟨fun _ e isOld => ?_, fun _ => ⟨_, rfl, rfl⟩⟩
      obtain rfl := Option.some.inj isOld
      exact same
    · rw [Suspended.park, if_pos same]
      constructor
      · rintro ⟨sess, isTaken, isClient⟩
        have isOld : sess = old := by
          cases stays : (some old).filter fun entry => (o.asking prims rt).clock < entry.expiresAt with
          | none =>
            rw [stays] at isTaken
            cases isTaken
          | some other =>
            obtain rfl := Option.some.inj (Option.filter_eq_some_iff.mp stays).1
            rw [stays, Suspended.reclaim] at isTaken
            split at isTaken
            · cases isTaken
            · exact (Option.some.inj isTaken).symm
        exact absurd (isOld ▸ congrArg ClientState.made isClient) same
      · intro unoccupied
        exact absurd (unoccupied old rfl) same

theorem isAsked :
    ∃ phase, (o.asked prims rt).controls.lookup o.back = some { o.returning with phase } ∧
      ∀ sess, phase = .holding sess ↔ o.TokenCounts prims rt ∧
        (Suspended.reclaim o.back.identity
          ((o.asking prims rt).tables.slot (o.asking prims rt).clock o.st.session).2).2 = some sess := by
  obtain ⟨phase, isControl, isChecked⟩ := isPresented happens
  have isAsking := (keeps_paused happens).controls o.back (List.mem_singleton_self _) _ isControl
  refine ⟨_, by rw [asked, proceeding, State.step_act isAsking, AList.lookup_insert], fun sess => ?_⟩
  have holds := @Control.proceed_holding_iff prims rt { o.returning with phase } o.back (o.asking prims rt).clock o.wallBack
    o.nonceBack true true (o.asking prims rt).tables o.returningSt happens.isReturningNLink sess
  rw [happens.sameSession] at holds
  exact holds.trans (and_congr_left fun _ => isChecked)

end Outage

/-- However long the connection was up, and in whatever order what expired was swept: it is
resumed where the token still counts, nobody else waits under the name, and who comes back
talks as before. -/
theorem resumed_iff {prims : Primitives} {rt : NLinkRuntime} {o : Outage} (happens : o.Happens prims rt) :
    o.Resumed prims rt ↔ o.TokenCounts prims rt ∧ o.Unoccupied prims rt ∧ o.SameTransport := by
  obtain ⟨phase, isControl, isHolding⟩ := Outage.isAsked happens
  have owned : (o.asked prims rt).Owned :=
    State.owned_step (State.owned_run (State.owned_step (State.owned_run (State.owned_step (State.owned_run
      (State.owned_step (State.owned_run State.owned_initially _) _) _) _) _) _) _) _
  have isJoining : (o.joining prims rt).controls.lookup o.back = some { o.returning with phase } :=
    (State.keeps_run owned happens.whileHeld).controls o.back (List.mem_singleton_self _) _ isControl
  have joins : o.Resumed prims rt ↔
      ∃ sess, phase = .holding sess ∧ sess.client = o.client ∧ o.SameTransport ∧ !o.client.stopped := by
    rw [Outage.Resumed, Outage.joined, Outage.proceeding, State.step_act isJoining]
    simp only [AList.lookup_insert, Option.some.injEq, exists_eq_left']
    exact @Control.proceed_granting_iff prims rt { o.returning with phase } _ _ _ _ _ _ _ _ happens.isReturningNLink _
  rw [joins, ← Outage.reclaims_iff happens]
  constructor
  · rintro ⟨sess, isPhase, isClient, same, -⟩
    obtain ⟨counts, taken⟩ := (isHolding sess).mp isPhase
    exact ⟨counts, ⟨sess, taken, isClient⟩, same⟩
  · rintro ⟨counts, ⟨sess, taken, isClient⟩, same⟩
    refine ⟨sess, (isHolding sess).mpr ⟨counts, taken⟩, isClient, same, ?_⟩
    rw [happens.running]
    rfl

def officeToken : String :=
  (issueResume officeCodes officeRuntime.resumeKey officeSession "alice" "laptop" 60 0 (.replicate 16 0)).getD ""

def officeState (resumeToken : Option String) : NLinkState where
  caps := Caps.new capResume
  session := officeSession
  resume := true
  resumeToken := resumeToken

/-- Alice is online for a while, and back a second after the connection broke. -/
def officeOutage (lasts : Nat) : Outage where
  before :=
    .login { user := "alice", clientId := "laptop" } "" 0 .v1 false {} (some (officeState none)) ::
      granted "alice" "laptop" 0
  key := ⟨"alice", "laptop", 0⟩
  control := { version := .v1, udpBinary := false, caps := {}, nlink := some (officeState none), phase := .granting none }
  st := officeState none
  wall := 0
  nonce := .replicate 16 0
  room := true
  token := officeToken
  client := ⟨⟨"alice", "laptop", 0⟩, .v1, false, {}, false⟩
  online := [.elapsed lasts]
  away :=
    [.elapsed second,
      .login { user := "alice", clientId := "laptop" } "" 1 .v1 false {} (some (officeState (some officeToken)))]
  back := ⟨"alice", "laptop", 1⟩
  returning := { version := .v1, udpBinary := false, caps := {}, nlink := some (officeState (some officeToken)) }
  returningSt := officeState (some officeToken)
  wallBack := 0
  nonceBack := .replicate 16 0
  paused := []
  held := []

theorem happens_officeOutage (lasts : Nat) : (officeOutage lasts).Happens officeCodes officeRuntime where
  isGranting := rfl
  grants := ⟨none, rfl⟩
  isNLink := rfl
  resumes := by
    show (officeState none).resumes
    decide
  active := rfl
  issued := rfl
  isOnline := rfl
  running := rfl
  whileOnline := ⟨trivial, trivial⟩
  whileAway := ⟨trivial, trivial, trivial⟩
  isReturning := rfl
  arrives := rfl
  isReturningNLink := rfl
  sameIdentity := rfl
  sameSession := rfl
  returnResumes := by
    show (officeState none).resumes
    decide
  presents := rfl
  whilePaused := trivial
  inTime := by
    have sooner : second < officeRuntime.waits := by decide
    have breaking : ((officeOutage lasts).breaking officeCodes officeRuntime).clock = 0 + lasts := rfl
    have arriving : ((officeOutage lasts).arriving officeCodes officeRuntime).clock = 0 + lasts + second := rfl
    have paused : (officeOutage lasts).paused = [] := rfl
    rw [Outage.asking, paused, run, Outage.clock_presented, arriving, breaking]
    exact Nat.add_lt_add_left sooner (0 + lasts)
  whileHeld := trivial

theorem resumed_office : (officeOutage (10 * second)).Resumed officeCodes officeRuntime := by
  refine (resumed_iff (happens_officeOutage _)).mpr ⟨⟨?_, by decide, by decide⟩, ?_, rfl⟩
  · show 0 + 10 * second + second < 0 + 60 * second
    decide
  · exact nofun

/-- After two minutes the token of a minute no longer counts. -/
theorem not_resumed_office :
    (officeOutage (120 * second)).Happens officeCodes officeRuntime ∧
      ¬(officeOutage (120 * second)).Resumed officeCodes officeRuntime := by
  refine ⟨happens_officeOutage _, ?_⟩
  rintro ⟨c, isControl, isPhase⟩
  have joined : ((officeOutage (120 * second)).joined officeCodes officeRuntime).controls.lookup ⟨"alice", "laptop", 1⟩ =
      some { version := .v1, udpBinary := false, caps := {}, nlink := some (officeState (some officeToken)),
             phase := .online ⟨⟨"alice", "laptop", 1⟩, .v1, false, {}, false⟩ } := rfl
  obtain rfl := Option.some.inj (joined.symm.trans isControl)
  cases isPhase

end Nfrp.Nlink
