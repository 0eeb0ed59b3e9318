import Nfrp.Server.Custody

/-!
# The life of a client

Connections make the calls one after the other, in any order: each on what it has in hand.
What is in hand between two calls is in no table.
-/

namespace Nfrp.Lifecycle

open Lib

/-- What a connection has in hand: the client it serves, which its guard will take out, one
that it took out itself, a session that waited, or only the guard. -/
inductive Held where
  | serving (runId : String) (client : Nat) (slot : Option Nat)
  | detached (runId : String) (client : Nat) (slot : Option Nat)
  | taken (entry : SuspendedSession)
  | leaving (runId : String)
  deriving DecidableEq, Repr

namespace Held

def client? : Held → Option Nat
  | .serving .. | .leaving _ => none
  | .detached _ client _ => some client
  | .taken entry => some entry.client

def slot? : Held → Option Nat
  | .serving _ _ slot | .detached _ _ slot => slot
  | .taken entry => entry.slot
  | .leaving _ => none

def runId? : Held → Option String
  | .serving runId _ _ | .detached runId _ _ | .leaving runId => some runId
  | .taken _ => none

def serves? : Held → Option Nat
  | .serving _ client _ => some client
  | .detached .. | .taken _ | .leaving _ => none

end Held

/-- `used` are the ids that runs have had. -/
structure State where
  registry : Registry
  clock : Nat := 0
  hand : List Held := []
  used : List String := []

/-- A call, by the ids that clients have then.  A connection that took up a session may
fail before it has its guard. -/
inductive Event where
  | elapsed (time : Nat)
  | register (ids : RunIds)
  | newProxy (cfg : ServerConfig) (user : Nat → String) (ids : RunIds) (net : Net) (client : Nat) (m : NewProxy)
  | closeProxy (ids : RunIds) (client : Nat) (name : String)
  | detach (runId : String) (client : Nat) (slot : Option Nat)
  | suspend (ids : RunIds) (id : Nlink.ConnectionId) (runId : String) (client : Nat) (slot : Option Nat)
      (user clientId : String) (ttl : Nat)
  | take (ids : RunIds) (id : Nlink.ConnectionId) (user clientId : String)
  | reattach (ids : RunIds) (entry : SuspendedSession)
  | putBack (ids : RunIds) (id : Nlink.ConnectionId) (entry : SuspendedSession)
  | reclaim (ids : RunIds) (entry : SuspendedSession)
  | fail (runId : String) (client : Nat) (slot : Option Nat)
  | sweep (ids : RunIds)
  | kick (ids : RunIds) (runId : String)
  | unregister (ids : RunIds) (runId : String) (client : Nat) (slot : Option Nat)
  | leave (ids : RunIds) (runId : String)

namespace State

def register (ids : RunIds) (s : State) : State :=
  let client := s.registry.issued
  match s.registry.insert ids client with
  | (_, none) => s
  | (registry, some slot) =>
    { s with
      registry
      hand := .serving (ids.of client) client (some slot) :: s.hand
      used := ids.of client :: s.used }

def onHeld (s : State) (held : Held) (call : List Held → State) : State :=
  if held ∈ s.hand then call (s.hand.erase held) else s

def onTables (s : State) (change : Tables → Tables) : State :=
  { s with registry := { s.registry with tables := change s.registry.tables } }

def step (s : State) : Event → State
  | .elapsed time => { s with clock := s.clock + time }
  | .register ids => s.register ids
  | .newProxy cfg user ids net client m => s.onTables fun t => (t.registerProxy cfg user ids net client m).1
  | .closeProxy ids client name => s.onTables fun t => (t.closeProxyByName ids client name).1
  | .detach runId client slot =>
    s.onHeld (.serving runId client slot) fun rest =>
      match s.registry.detach runId with
      | (_, none) => s
      | (registry, some client) => { s with registry, hand := .detached runId client slot :: rest }
  | .suspend ids id runId client slot user clientId ttl =>
    s.onHeld (.detached runId client slot) fun rest =>
      match s.registry.suspend ids s.clock id ⟨client, slot, runId, user, clientId, s.clock + ttl⟩ with
      | (registry, true) => { s with registry, hand := rest }
      | (registry, false) => { s with registry, hand := .leaving runId :: rest }
  | .take ids id user clientId =>
    match s.registry.takeSuspendedIf ids s.clock id user clientId with
    | (registry, none) => { s with registry }
    | (registry, some entry) => { s with registry, hand := .taken entry :: s.hand }
  | .reattach ids entry =>
    s.onHeld (.taken entry) fun rest =>
      { s with
        registry := { s.registry with tables := s.registry.tables.rebindControl entry.client }.reattach ids entry.client
        hand := .serving (ids.of entry.client) entry.client entry.slot :: rest
        used := ids.of entry.client :: s.used }
  | .putBack ids id entry =>
    s.onHeld (.taken entry) fun rest => { s with registry := (s.registry.suspend ids s.clock id entry).1, hand := rest }
  | .reclaim ids entry =>
    s.onHeld (.taken entry) fun rest => { s with registry := s.registry.reclaimSuspended ids entry, hand := rest }
  | .fail runId client slot =>
    s.onHeld (.serving runId client slot) fun rest => { s with registry := s.registry.dropSlot slot, hand := rest }
  | .sweep ids => { s with registry := s.registry.sweepSuspended ids s.clock }
  | .kick ids runId => { s with registry := s.registry.kick ids runId }
  | .unregister ids runId client slot =>
    s.onHeld (.serving runId client slot) fun rest =>
      { s with registry := (s.registry.remove ids runId).dropSlot slot, hand := rest }
  | .leave ids runId =>
    s.onHeld (.leaving runId) fun rest => { s with registry := s.registry.remove ids runId, hand := rest }

/-- No run has the id of another, and proxies are registered for who is there. -/
def Orderly (s : State) : Event → Prop
  | .register ids => ids.of s.registry.issued ∉ s.used
  | .reattach ids entry => ids.of entry.client ∉ s.used
  | .newProxy _ _ _ _ client _ => ∃ runId, s.registry.clients.lookup runId = some client
  | _ => True

def slots (s : State) : List Nat :=
  s.registry.slots ++ s.hand.flatMap fun held => held.slot?.toList

structure Sound (max : Nat) (s : State) : Prop where
  apart : ∀ runId client id entry, s.registry.clients.lookup runId = some client →
    s.registry.suspended.lookup id = some entry → entry.client ≠ client
  untouched : ∀ ids id user clientId entry, s.registry.suspended.lookup id = some entry → s.clock < entry.expiresAt →
    ¬(entry.user = user ∧ entry.clientId = clientId) → s.step (.take ids id user clientId) = s
  once : ∀ number, s.slots.count number + s.registry.released.count number = if number < s.registry.issued then 1 else 0
  limit : s.registry.clientLimit.Accounts max s.slots.length
  gauge : s.registry.clientsActive = s.registry.clients.entries.length
  gone : ∀ client, (∀ runId, s.registry.clients.lookup runId ≠ some client) →
    (∀ id entry, s.registry.suspended.lookup id = some entry → entry.client ≠ client) →
    (∀ held ∈ s.hand, held.client? ≠ some client) → s.registry.tables.Clear client

/-- Guards are of different runs, and who is registered under such a run is served. -/
structure Guarded (clients : AList fun _ : String => Nat) (hand : List Held) (used : List String) : Prop where
  serves : ∀ held ∈ hand, ∀ runId, held.runId? = some runId → ∀ client, clients.lookup runId = some client →
    held.serves? = some client
  apart : (hand.flatMap fun held => held.runId?.toList).Nodup
  known : ∀ held ∈ hand, ∀ runId, held.runId? = some runId → runId ∈ used
  listed : ∀ runId client, clients.lookup runId = some client → runId ∈ used

namespace Guarded

variable {clients : AList fun _ : String => Nat} {hand other : List Held} {used : List String} {held : Held}
  {runId : String} {client : Nat} {slot : Option Nat}

theorem perm (guarded : Guarded clients hand used) (same : hand.Perm other) : Guarded clients other used where
  serves held isHeld := guarded.serves held (same.mem_iff.mpr isHeld)
  apart := (same.flatMap_right _).nodup_iff.mp guarded.apart
  known held isHeld := guarded.known held (same.mem_iff.mpr isHeld)
  listed := guarded.listed

theorem same (guarded : Guarded clients hand used) {after : AList fun _ : String => Nat} (same : after = clients) :
    Guarded after hand used :=
  same ▸ guarded

theorem tail (guarded : Guarded clients (held :: hand) used) : Guarded clients hand used where
  serves held isHeld := guarded.serves held (List.mem_cons_of_mem _ isHeld)
  apart := (List.nodup_append.mp guarded.apart).2.1
  known held isHeld := guarded.known held (List.mem_cons_of_mem _ isHeld)
  listed := guarded.listed

theorem without_guard (guarded : Guarded clients hand used) (noGuard : held.runId? = none) :
    Guarded clients (held :: hand) used where
  serves other isHeld runId isRun := by
    rcases List.mem_cons.mp isHeld with rfl | isHeld
    · cases noGuard.symm.trans isRun
    · exact guarded.serves other isHeld runId isRun
  apart := by
    rw [List.flatMap_cons, noGuard]
    exact guarded.apart
  known other isHeld runId isRun := by
    rcases List.mem_cons.mp isHeld with rfl | isHeld
    · cases noGuard.symm.trans isRun
    · exact guarded.known other isHeld runId isRun
  listed := guarded.listed

theorem ne_of_tail (guarded : Guarded clients (held :: hand) used) (isRun : held.runId? = some runId) :
    ∀ other ∈ hand, other.runId? ≠ some runId := by
  intro other isOther same
  have apart := guarded.apart
  rw [List.flatMap_cons, isRun] at apart
  refine (List.nodup_cons.mp apart).1 (List.mem_flatMap.mpr ⟨other, isOther, ?_⟩)
  rw [same]
  exact List.mem_singleton_self runId

theorem fewer (guarded : Guarded clients hand used) {after : AList fun _ : String => Nat}
    (fewer : ∀ runId client, after.lookup runId = some client → clients.lookup runId = some client) :
    Guarded after hand used where
  serves held isHeld runId isRun client found := guarded.serves held isHeld runId isRun client (fewer runId client found)
  apart := guarded.apart
  known := guarded.known
  listed runId client found := guarded.listed runId client (fewer runId client found)

theorem cons (guarded : Guarded clients hand used) (isRun : held.runId? = some runId)
    (serves : ∀ client, clients.lookup runId = some client → held.serves? = some client)
    (alone : ∀ other ∈ hand, other.runId? ≠ some runId) (known : runId ∈ used) : Guarded clients (held :: hand) used where
  serves other isOther otherRun isOtherRun := by
    rcases List.mem_cons.mp isOther with rfl | isOther
    · obtain rfl := Option.some.inj (isRun.symm.trans isOtherRun)
      exact serves
    · exact guarded.serves other isOther otherRun isOtherRun
  apart := by
    rw [List.flatMap_cons, isRun]
    refine List.nodup_cons.mpr ⟨fun isThere => ?_, guarded.apart⟩
    obtain ⟨other, isOther, isOtherRun⟩ := List.mem_flatMap.mp isThere
    exact alone other isOther (Option.mem_toList.mp isOtherRun)
  known other isOther otherRun isOtherRun := by
    rcases List.mem_cons.mp isOther with rfl | isOther
    · obtain rfl := Option.some.inj (isRun.symm.trans isOtherRun)
      exact known
    · exact guarded.known other isOther otherRun isOtherRun
  listed := guarded.listed

theorem start (guarded : Guarded clients hand used) (fresh : runId ∉ used) (client : Nat) (slot : Option Nat) :
    Guarded (clients.insert runId client) (.serving runId client slot :: hand) (runId :: used) := by
  have alone : ∀ other ∈ hand, other.runId? ≠ some runId := fun other isOther same =>
    fresh (guarded.known other isOther runId same)
  have grown : Guarded (clients.insert runId client) hand (runId :: used) := by
    refine ⟨fun other isOther otherRun isOtherRun => ?_, guarded.apart, fun other isOther otherRun isOtherRun => ?_,
      fun otherRun other found => ?_⟩
    · have different : otherRun ≠ runId := fun same => alone other isOther (same ▸ isOtherRun)
      intro found isFound
      exact guarded.serves other isOther otherRun isOtherRun found ((AList.lookup_insert_ne different).symm.trans isFound)
    · exact List.mem_cons_of_mem _ (guarded.known other isOther otherRun isOtherRun)
    · rw [lookup_insert_eq] at found
      split at found
      next same => exact same ▸ List.mem_cons_self
      · exact List.mem_cons_of_mem _ (guarded.listed otherRun other found)
  exact grown.cons rfl (fun _ found => (AList.lookup_insert _).symm.trans found) alone List.mem_cons_self

theorem lookup_of_fresh (guarded : Guarded clients hand used) (fresh : runId ∉ used) : clients.lookup runId = none := by
  cases found : clients.lookup runId with
  | none => rfl
  | some client => exact absurd (guarded.listed runId client found) fresh

end Guarded

def Distinct (s : State) : Event → Prop
  | .register ids => ids.of s.registry.issued ∉ s.used
  | .reattach ids entry => ids.of entry.client ∉ s.used
  | _ => True

abbrev Guards (s : State) : Prop := Guarded s.registry.clients s.hand s.used

structure Inv (max : Nat) (s : State) : Prop where
  balanced : s.registry.Balanced max (s.hand.flatMap fun held => held.client?.toList)
    (s.hand.flatMap fun held => held.slot?.toList)
  guarded : s.Guards

variable {max : Nat} {s : State} {held : Held} {rest : List Held} {ids : RunIds} {runId : String} {client : Nat}
  {slot : Option Nat}

theorem Orderly.distinct {event : Event} (orderly : s.Orderly event) : s.Distinct event := by
  cases event with
  | register ids => exact orderly
  | reattach ids entry => exact orderly
  | _ => exact trivial

theorem guards_onHeld (guards : s.Guards) {call : List Held → State}
    (each : ∀ rest, Guarded s.registry.clients (held :: rest) s.used → (call rest).Guards) :
    (s.onHeld held call).Guards := by
  rw [State.onHeld]
  split
  next isHeld => exact each _ (guards.perm (List.perm_cons_erase isHeld))
  · exact guards

theorem guards_register (guards : s.Guards) (fresh : ids.of s.registry.issued ∉ s.used) : (s.register ids).Guards := by
  rw [State.register, Registry.insert]
  cases s.registry.clientLimit.tryAcquire with
  | none => exact guards
  | some both => exact guards.start fresh s.registry.issued (some s.registry.issued)

theorem guards_detach (guards : s.Guards) : (s.step (.detach runId client slot)).Guards := by
  rw [step]
  refine guards_onHeld guards fun rest picked => ?_
  rw [Registry.detach]
  cases found : s.registry.clients.lookup runId with
  | none => exact guards
  | some listed =>
    have erased : Guarded (s.registry.clients.erase runId) rest s.used := picked.tail.fewer fun _ _ => lookup_of_erase
    refine erased.cons rfl (fun _ stays => ?_) (picked.ne_of_tail rfl) (picked.known _ List.mem_cons_self runId rfl)
    cases (AList.lookup_erase ..).symm.trans stays

theorem guards_suspend (guards : s.Guards) (id : Nlink.ConnectionId) (user clientId : String) (ttl : Nat) :
    (s.step (.suspend ids id runId client slot user clientId ttl)).Guards := by
  rw [step]
  refine guards_onHeld guards fun rest picked => ?_
  cases isSuspended : s.registry.suspend ids s.clock id ⟨client, slot, runId, user, clientId, s.clock + ttl⟩ with
  | mk registry kept =>
    have guarded : Guarded registry.clients (.detached runId client slot :: rest) s.used :=
      picked.same (Registry.clients_of_suspend isSuspended)
    cases kept with
    | true => exact guarded.tail
    | false =>
      refine guarded.tail.cons rfl ?_ (guarded.ne_of_tail rfl) ?_
      · exact fun _ found => nomatch guarded.serves _ List.mem_cons_self runId rfl _ found
      · exact guarded.known _ List.mem_cons_self runId rfl

theorem guards_take (guards : s.Guards) (id : Nlink.ConnectionId) (user clientId : String) :
    (s.step (.take ids id user clientId)).Guards := by
  rw [step]
  cases isTaken : s.registry.takeSuspendedIf ids s.clock id user clientId with
  | mk registry taken =>
    have guarded : Guarded registry.clients s.hand s.used := guards.same (Registry.clients_of_taken isTaken)
    cases taken with
    | none => exact guarded
    | some entry => exact guarded.without_guard rfl

theorem guards_step (event : Event) (distinct : s.Distinct event) (guards : s.Guards) : (s.step event).Guards := by
  cases event with
  | elapsed time => exact guards
  | register ids => exact guards_register guards distinct
  | newProxy cfg user ids net client m => exact guards
  | closeProxy ids client name => exact guards
  | detach runId client slot => exact guards_detach guards
  | suspend ids id runId client slot user clientId ttl => exact guards_suspend guards id user clientId ttl
  | take ids id user clientId => exact guards_take guards id user clientId
  | reattach ids entry => exact guards_onHeld guards fun rest picked => picked.tail.start distinct entry.client entry.slot
  | putBack ids id entry => exact guards_onHeld guards fun rest picked => picked.tail.same Registry.clients_suspend
  | reclaim ids entry =>
    exact guards_onHeld guards fun rest picked => picked.tail.same Registry.sameMaps_reclaimSuspended.clients
  | fail runId client slot =>
    exact guards_onHeld guards fun rest picked => picked.tail.same Registry.sameMaps_dropSlot.clients
  | sweep ids => exact guards.same Registry.clients_sweepSuspended
  | kick ids runId => exact guards.fewer fun _ _ => Registry.lookup_of_kick
  | unregister ids runId client slot =>
    refine guards_onHeld guards fun rest picked => ?_
    have removed : Guarded (s.registry.remove ids runId).clients rest s.used :=
      picked.tail.fewer fun _ _ => Registry.lookup_of_remove
    exact removed.same Registry.sameMaps_dropSlot.clients
  | leave ids runId =>
    exact guards_onHeld guards fun rest picked => picked.tail.fewer fun _ _ => Registry.lookup_of_remove

/-- Every client and every slot of a state is in one place. -/
abbrev Balance (max : Nat) (s : State) : Prop :=
  s.registry.Balanced max (s.hand.flatMap fun held => held.client?.toList) (s.hand.flatMap fun held => held.slot?.toList)

theorem Inv.balance_onHeld (inv : s.Inv max) {call : List Held → State}
    (each : ∀ rest, ({ s with hand := held :: rest } : State).Inv max → (call rest).Balance max) :
    (s.onHeld held call).Balance max := by
  rw [State.onHeld]
  split
  next isHeld =>
    have isPerm := List.perm_cons_erase isHeld
    exact each _ ⟨inv.balanced.perm (isPerm.flatMap_right _) (isPerm.flatMap_right _), inv.guarded.perm isPerm⟩
  · exact inv.balanced

theorem balance_register (inv : s.Inv max) (fresh : ids.of s.registry.issued ∉ s.used) : (s.register ids).Balance max := by
  rw [State.register]
  cases isInserted : s.registry.insert ids s.registry.issued with
  | mk registry slot =>
    cases slot with
    | none => exact inv.balanced
    | some slot =>
      obtain ⟨rfl, -, balanced⟩ := inv.balanced.insert (inv.guarded.lookup_of_fresh fresh) isInserted
      exact balanced

theorem balance_detach (inv : s.Inv max) : (s.step (.detach runId client slot)).Balance max := by
  rw [step]
  refine inv.balance_onHeld fun rest picked => ?_
  rw [Registry.detach]
  cases found : s.registry.clients.lookup runId with
  | none => exact inv.balanced
  | some listed =>
    have isListed := picked.guarded.serves _ List.mem_cons_self runId rfl listed found
    obtain rfl : client = listed := Option.some.inj isListed
    exact picked.balanced.unlist found

theorem balance_suspend (inv : s.Inv max) (id : Nlink.ConnectionId) (user clientId : String) (ttl : Nat) :
    (s.step (.suspend ids id runId client slot user clientId ttl)).Balance max := by
  rw [step]
  refine inv.balance_onHeld fun rest picked => ?_
  have balanced : (s.registry.suspend ids s.clock id ⟨client, slot, runId, user, clientId, s.clock + ttl⟩).1.Balanced max
      (rest.flatMap fun held => held.client?.toList) (rest.flatMap fun held => held.slot?.toList) :=
    Registry.Balanced.suspend picked.balanced
  cases isSuspended : s.registry.suspend ids s.clock id ⟨client, slot, runId, user, clientId, s.clock + ttl⟩ with
  | mk registry kept =>
    rw [isSuspended] at balanced
    cases kept with
    | true => exact balanced
    | false => exact balanced

theorem balance_take (inv : s.Inv max) (id : Nlink.ConnectionId) (user clientId : String) :
    (s.step (.take ids id user clientId)).Balance max := by
  rw [step]
  cases isTaken : s.registry.takeSuspendedIf ids s.clock id user clientId with
  | mk registry taken =>
    cases taken with
    | none => exact inv.balanced.notTaken isTaken
    | some entry => exact inv.balanced.taken isTaken

theorem balance_reattach (inv : s.Inv max) {entry : SuspendedSession} (fresh : ids.of entry.client ∉ s.used) :
    (s.step (.reattach ids entry)).Balance max := by
  rw [step]
  refine inv.balance_onHeld fun rest picked => ?_
  have rebound : ({ s.registry with tables := s.registry.tables.rebindControl entry.client } : Registry).Balanced max
      (entry.client :: rest.flatMap fun held => held.client?.toList)
      (entry.slot.toList ++ rest.flatMap fun held => held.slot?.toList) :=
    Registry.Balanced.tables picked.balanced fun _ _ clear => ⟨clear.ports, clear.vhosts, clear.visitors⟩
  exact rebound.enlist (picked.guarded.lookup_of_fresh fresh)

theorem balance_step (event : Event) (orderly : s.Orderly event) (inv : s.Inv max) : (s.step event).Balance max := by
  cases event with
  | elapsed time => exact inv.balanced
  | register ids => exact balance_register inv orderly
  | newProxy cfg user ids net client m =>
    obtain ⟨runId, found⟩ := orderly
    refine inv.balanced.tables fun other nowhere clear => clear.registerProxy fun same => nowhere ?_
    exact same ▸ Registry.mem_places found
  | closeProxy ids client name => exact inv.balanced.tables fun _ _ clear => clear.closeProxyByName
  | detach runId client slot => exact balance_detach inv
  | suspend ids id runId client slot user clientId ttl => exact balance_suspend inv id user clientId ttl
  | take ids id user clientId => exact balance_take inv id user clientId
  | reattach ids entry => exact balance_reattach inv orderly
  | putBack ids id entry =>
    exact inv.balance_onHeld fun rest picked => Registry.Balanced.suspend picked.balanced
  | reclaim ids entry =>
    exact inv.balance_onHeld fun rest picked => Registry.Balanced.reclaimSuspended picked.balanced
  | fail runId client slot => exact inv.balance_onHeld fun rest picked => Registry.Balanced.dropSlot picked.balanced
  | sweep ids => exact inv.balanced.sweepSuspended
  | kick ids runId => exact inv.balanced.kick
  | unregister ids runId client slot =>
    -- Who has been kicked is not there any more.
    exact inv.balance_onHeld fun rest picked => Registry.Balanced.dropSlot picked.balanced.remove
  | leave ids runId => exact inv.balance_onHeld fun rest picked => picked.balanced.remove

theorem inv_step (event : Event) (orderly : s.Orderly event) (inv : s.Inv max) : (s.step event).Inv max :=
  ⟨balance_step event orderly inv, guards_step event orderly.distinct inv.guarded⟩

theorem Inv.sound (inv : s.Inv max) : s.Sound max where
  apart runId client id entry listed waits same := by
    have isListed : client ∈ s.registry.clients.entries.map Sigma.snd :=
      List.mem_map.mpr ⟨_, lookup_eq_some_iff.mp listed, rfl⟩
    have isWaiting : client ∈ s.registry.suspended.entries.map fun entry => entry.2.client :=
      List.mem_map.mpr ⟨_, lookup_eq_some_iff.mp waits, same⟩
    have once := inv.balanced.oneEach client
    rw [Registry.places, List.count_append] at once
    have first := List.count_pos_iff.mpr isListed
    have second := List.count_pos_iff.mpr isWaiting
    split at once <;> omega
  untouched ids id user clientId entry found waits mismatch := by
    rw [step, Registry.takeSuspendedIf_of_mismatch found waits mismatch]
  once number := by
    rw [slots, List.count_append]
    exact inv.balanced.once number
  limit := by
    rw [slots, List.length_append]
    exact inv.balanced.limit
  gauge := inv.balanced.gauge
  gone client unlisted unsuspended free := by
    refine inv.balanced.clear client (fun isPlaced => ?_) fun isHeld => ?_
    · rcases List.mem_append.mp isPlaced with isListed | isWaiting
      · obtain ⟨⟨runId, listed⟩, isEntry, rfl⟩ := List.mem_map.mp isListed
        exact unlisted runId (lookup_eq_some_iff.mpr isEntry)
      · obtain ⟨⟨id, entry⟩, isEntry, same⟩ := List.mem_map.mp isWaiting
        exact unsuspended id entry (lookup_eq_some_iff.mpr isEntry) same
    · obtain ⟨held, isHeld, isClient⟩ := List.mem_flatMap.mp isHeld
      exact free held isHeld (Option.mem_toList.mp isClient)

def start (maxClients maxProxies : Nat) (vhosts : Bool) : State where
  registry := {
    clientLimit := .new maxClients
    tables := { vhosts := if vhosts then some ⟨∅, ∅⟩ else none, slots := fun _ => .new maxProxies } }

theorem inv_start (maxClients maxProxies : Nat) (vhosts : Bool) : (start maxClients maxProxies vhosts).Inv maxClients where
  balanced := {
    oneEach := fun _ => Nat.zero_le _
    once := fun _ => rfl
    gauge := rfl
    limit := Limit.Accounts.new maxClients
    clear := fun client _ _ => {
      ports := nofun
      vhosts := fun table isTable route has => by
        cases vhosts with
        | false => cases isTable
        | true =>
          obtain rfl := Option.some.inj isTable
          rcases has with ⟨_, _, found, _⟩ | ⟨_, _, found, _⟩
          · cases found
          · cases found
      visitors := nofun } }
  guarded := ⟨nofun, List.nodup_nil, nofun, nofun⟩

end State

/-- Clients and slots are where they should be, whoever calls in whatever order. -/
theorem lifecycle_sound (maxClients maxProxies : Nat) (vhosts : Bool) {events : List Event}
    (orderly : RunMeets State.step State.Orderly (.start maxClients maxProxies vhosts) events) :
    Throughout State.step (State.Sound maxClients) (.start maxClients maxProxies vhosts) events :=
  throughout_of_runMeets (fun _ event orderly inv => State.inv_step event orderly inv) (fun _ inv => State.Inv.sound inv)
    (State.inv_start maxClients maxProxies vhosts) orderly

def laterRuns : RunIds where
  of n := RunIds.counted.of (n + 1)
  injective _ _ same := Nat.succ_injective (RunIds.counted.injective same)

def tillSession : Nlink.ConnectionId :=
  Vector.replicate 16 7

def tillEntry : SuspendedSession where
  client := 0
  slot := some 0
  runId := ""
  user := "shop"
  clientId := "till"
  expiresAt := 60

/-- The till is cut off, comes back, and goes. -/
theorem lifecycle_sound_till :
    Throughout State.step (State.Sound 1) (.start 1 5 true)
      [.register .counted, .detach "" 0 (some 0), .suspend .counted tillSession "" 0 (some 0) "shop" "till" 60,
        .take .counted tillSession "shop" "till", .reattach laterRuns tillEntry,
        .unregister laterRuns "0" 0 (some 0)] := by
  refine lifecycle_sound 1 5 true ⟨List.not_mem_nil, trivial, trivial, trivial, ?_, trivial, trivial⟩
  show "0" ∉ [""]
  decide

def tillWaits : State :=
  run State.step (.start 1 5 true)
    [.register .counted, .detach "" 0 (some 0), .suspend .counted tillSession "" 0 (some 0) "shop" "till" 60, .elapsed 60]

def tillInHand : State :=
  run State.step (.start 1 5 true)
    [.register .counted,
      .newProxy shopConfig (fun _ => "shop") .counted (shopNet (some "0.0.0.0:6000")) 0 (shopProxy "tcp" 6000 []),
      .detach "" 0 (some 0)]

/-- A session that has expired is taken out by whoever asks for it, and a client that is in
hand is in no table and has its port. -/
theorem not_lifecycle_till :
    (tillWaits.registry.suspended.lookup tillSession = some tillEntry ∧ tillEntry.user ≠ "kiosk" ∧
      (tillWaits.step (.take .counted tillSession "kiosk" "till")).registry.suspended.lookup tillSession = none) ∧
    (∀ runId, tillInHand.registry.clients.lookup runId ≠ some 0) ∧
    (∀ id entry, tillInHand.registry.suspended.lookup id = some entry → entry.client ≠ 0) ∧
    ⟨0, "shop.web"⟩ ∈ tillInHand.registry.tables.ports.members 6000 := by
  refine ⟨⟨rfl, by decide, rfl⟩, ?_, ?_, ?_⟩
  · intro runId found
    have isEmpty : tillInHand.registry.clients = ∅ := rfl
    rw [isEmpty] at found
    cases found
  · intro id entry found
    have isEmpty : tillInHand.registry.suspended = ∅ := rfl
    rw [isEmpty] at found
    cases found
  · decide

end Nfrp.Lifecycle
