import Nfrp.Lib.Expiring
import Nfrp.Nlink.Tokens
import Nfrp.Server.Cleanup
import Nfrp.Server.Slots

/-!
# Clients and their slots

A client is registered, or it waits for its connection to come back, or a caller has it
in hand.  A slot goes where its client goes, and is given back when it is dropped; what
each call moves from one place to another is an equation between the places.
-/

namespace Nfrp.Lifecycle

open Lib

structure SuspendedSession where
  client : Nat
  slot : Option Nat
  runId : String
  user : String
  clientId : String
  expiresAt : Nat
  deriving DecidableEq, Repr

/-- Slots are numbered as they are given out; `released` are those that were given back. -/
structure Registry where
  clients : AList fun _ : String => Nat := ∅
  suspended : AList fun _ : Nlink.ConnectionId => SuspendedSession := ∅
  clientLimit : Limit
  clientsActive : Int := 0
  tables : Tables
  issued : Nat := 0
  released : List Nat := []

namespace Registry

variable (ids : RunIds) (now : Nat)

def insert (client : Nat) (r : Registry) : Registry × Option Nat :=
  match r.clientLimit.tryAcquire with
  | none => (r, none)
  | some (_, limit) =>
    ({ r with
        clients := r.clients.insert (ids.of client) client
        clientLimit := limit
        clientsActive := r.clientsActive + 1
        issued := r.issued + 1 },
      some r.issued)

def dropSlot (slot : Option Nat) (r : Registry) : Registry :=
  match slot with
  | none => r
  | some number =>
    { r with
      clientLimit := r.clientLimit.release (if r.clientLimit.max = 0 then 0 else 1)
      released := number :: r.released }

def cleanupClient (client : Nat) (r : Registry) : Registry :=
  { r with tables := r.tables.cleanupClient ids client }

def detach (runId : String) (r : Registry) : Registry × Option Nat :=
  match r.clients.lookup runId with
  | none => (r, none)
  | some client => ({ r with clients := r.clients.erase runId, clientsActive := r.clientsActive - 1 }, some client)

def remove (runId : String) (r : Registry) : Registry :=
  match r.clients.lookup runId with
  | none => r
  | some client =>
    ({ r with clients := r.clients.erase runId, clientsActive := r.clientsActive - 1 } : Registry).cleanupClient ids client

def reclaimSuspended (entry : SuspendedSession) (r : Registry) : Registry :=
  (r.cleanupClient ids entry.client).dropSlot entry.slot

def expired (r : Registry) : List SuspendedSession :=
  (r.suspended.entries.filter fun entry => entry.2.expiresAt ≤ now).map Sigma.snd

def sweepSuspended (r : Registry) : Registry :=
  (r.expired now).foldl (fun r entry => r.reclaimSuspended ids entry)
    { r with suspended := dropExpired SuspendedSession.expiresAt now r.suspended }

/-- Another client is not pushed out: who comes later is reclaimed. -/
def suspend (id : Nlink.ConnectionId) (entry : SuspendedSession) (r : Registry) : Registry × Bool :=
  let r := r.sweepSuspended ids now
  match r.suspended.lookup id with
  | some old =>
    if old.client ≠ entry.client then (r.reclaimSuspended ids entry, false)
    else (({ r with suspended := r.suspended.insert id entry } : Registry).dropSlot old.slot, true)
  | none => ({ r with suspended := r.suspended.insert id entry }, true)

def takeSuspendedIf (id : Nlink.ConnectionId) (user clientId : String) (r : Registry) :
    Registry × Option SuspendedSession :=
  match r.suspended.lookup id with
  | none => (r, none)
  | some entry =>
    if entry.expiresAt ≤ now then
      (({ r with suspended := r.suspended.erase id } : Registry).reclaimSuspended ids entry, none)
    else if entry.user ≠ user ∨ entry.clientId ≠ clientId then (r, none)
    else ({ r with suspended := r.suspended.erase id }, some entry)

/-- The panel takes a client out; its connection goes on until it looks. -/
def kick (runId : String) (r : Registry) : Registry :=
  match r.clients.lookup runId with
  | none => r
  | some client =>
    let r := r.remove ids runId
    { r with tables := { r.tables with ports := r.tables.ports.releasePortsOf ids client } }

/-- The slot is the one it has kept. -/
def reattach (client : Nat) (r : Registry) : Registry :=
  { r with clients := r.clients.insert (ids.of client) client, clientsActive := r.clientsActive + 1 }

def places (r : Registry) : List Nat :=
  r.clients.entries.map Sigma.snd ++ r.suspended.entries.map fun entry => entry.2.client

def slots (r : Registry) : List Nat :=
  r.suspended.entries.flatMap fun entry => entry.2.slot.toList

/-- Every client and every slot is in one place, in a table or among those in hand; a
client that is nowhere has nothing. -/
structure Balanced (max : Nat) (clients guards : List Nat) (r : Registry) : Prop where
  oneEach : ∀ client, r.places.count client + clients.count client ≤ if client < r.issued then 1 else 0
  once : ∀ number, r.slots.count number + guards.count number + r.released.count number =
    if number < r.issued then 1 else 0
  gauge : r.clientsActive = r.clients.entries.length
  limit : r.clientLimit.Accounts max (r.slots.length + guards.length)
  clear : ∀ client, client ∉ r.places → client ∉ clients → r.tables.Clear client

variable {ids now} {max : Nat} {clients guards : List Nat} {r : Registry} {client : Nat} {runId : String}
  {id : Nlink.ConnectionId} {entry : SuspendedSession} {slot : Option Nat}

theorem Balanced.perm (balanced : r.Balanced max clients guards) {otherClients otherGuards : List Nat}
    (sameClients : clients.Perm otherClients) (sameGuards : guards.Perm otherGuards) :
    r.Balanced max otherClients otherGuards where
  oneEach client := sameClients.count_eq client ▸ balanced.oneEach client
  once number := sameGuards.count_eq number ▸ balanced.once number
  gauge := balanced.gauge
  limit := sameGuards.length_eq ▸ balanced.limit
  clear client nowhere absent := balanced.clear client nowhere fun isIn => absent (sameClients.mem_iff.mp isIn)

theorem Balanced.cleanupClient (balanced : r.Balanced max (client :: clients) guards) :
    (r.cleanupClient ids client).Balanced max clients guards where
  oneEach other := le_trans (Nat.add_le_add_left (List.count_le_count_cons ..) _) (balanced.oneEach other)
  once := balanced.once
  gauge := balanced.gauge
  limit := balanced.limit
  clear other nowhere absent := by
    by_cases same : other = client
    · exact same ▸ Tables.clear_cleanupClient
    · exact (balanced.clear other nowhere (List.not_mem_cons_of_ne_of_not_mem same absent)).cleanupClient

theorem Balanced.dropSlot (balanced : r.Balanced max clients (slot.toList ++ guards)) :
    (r.dropSlot slot).Balanced max clients guards := by
  cases slot with
  | none => exact balanced
  | some number =>
    refine ⟨balanced.oneEach, fun other => ?_, balanced.gauge, ?_, balanced.clear⟩
    · have before : r.slots.count other + (number :: guards).count other + r.released.count other =
          if other < r.issued then 1 else 0 := balanced.once other
      show r.slots.count other + guards.count other + (number :: r.released).count other =
        if other < r.issued then 1 else 0
      rw [List.count_cons] at before ⊢
      omega
    · have before : r.clientLimit.Accounts max (r.slots.length + guards.length + 1) := balanced.limit
      show (r.clientLimit.release _).Accounts max (r.slots.length + guards.length)
      by_cases unlimited : r.clientLimit.max = 0
      · exact ⟨before.1, .inl (before.1.symm.trans unlimited)⟩
      · rw [if_neg unlimited]
        exact before.release

theorem Balanced.reclaimSuspended
    (balanced : r.Balanced max (entry.client :: clients) (entry.slot.toList ++ guards)) :
    (r.reclaimSuspended ids entry).Balanced max clients guards :=
  balanced.cleanupClient.dropSlot

theorem Balanced.move (balanced : r.Balanced max clients guards) {table : AList fun _ : String => Nat}
    {waiting : AList fun _ : Nlink.ConnectionId => SuspendedSession} {active : Int} {otherClients otherGuards : List Nat}
    (sameClients : (r.places ++ clients).Perm
      (({ r with clients := table, suspended := waiting, clientsActive := active } : Registry).places ++ otherClients))
    (sameSlots : (r.slots ++ guards).Perm
      (({ r with clients := table, suspended := waiting, clientsActive := active } : Registry).slots ++ otherGuards))
    (gauge : active = table.entries.length) :
    ({ r with clients := table, suspended := waiting, clientsActive := active } : Registry).Balanced max otherClients
      otherGuards where
  oneEach client := by
    have same := sameClients.count_eq client
    rw [List.count_append, List.count_append] at same
    exact same ▸ balanced.oneEach client
  once number := by
    have same := sameSlots.count_eq number
    rw [List.count_append, List.count_append] at same
    exact same ▸ balanced.once number
  gauge := gauge
  limit := by
    have same := sameSlots.length_eq
    rw [List.length_append, List.length_append] at same
    exact same ▸ balanced.limit
  clear client nowhere absent := by
    have isNowhere : client ∉ r.places ++ clients := fun isThere =>
      (List.mem_append.mp (sameClients.mem_iff.mp isThere)).elim nowhere absent
    rw [List.mem_append, not_or] at isNowhere
    exact balanced.clear client isNowhere.1 isNowhere.2

theorem perm_take {Item : Type} {items rest before after : List Item} {item : Item} (isPerm : items.Perm (item :: rest)) :
    (before ++ items ++ after).Perm (before ++ rest ++ item :: after) :=
  ((isPerm.append_left before).append_right after).trans ((List.perm_middle.append_right after).trans List.perm_middle.symm)

theorem slots_perm {items rest : List (Sigma fun _ : Nlink.ConnectionId => SuspendedSession)}
    (isPerm : items.Perm (⟨id, entry⟩ :: rest)) :
    ((items.flatMap fun entry => entry.2.slot.toList) ++ guards).Perm
      ((rest.flatMap fun entry => entry.2.slot.toList) ++ (entry.slot.toList ++ guards)) := by
  refine ((isPerm.flatMap_right _).append_right guards).trans ?_
  rw [List.flatMap_cons, List.append_assoc]
  exact List.perm_append_comm_assoc ..

theorem perm_takeOut (found : r.suspended.lookup id = some entry) :
    (r.places ++ clients).Perm
      (({ r with suspended := r.suspended.erase id } : Registry).places ++ entry.client :: clients) :=
  perm_take ((perm_erase found).map _)

theorem Balanced.takeOut (balanced : r.Balanced max clients guards) (found : r.suspended.lookup id = some entry) :
    ({ r with suspended := r.suspended.erase id } : Registry).Balanced max (entry.client :: clients)
      (entry.slot.toList ++ guards) :=
  balanced.move (perm_takeOut found) (slots_perm (perm_erase found)) balanced.gauge

theorem perm_putIn (vacant : r.suspended.lookup id = none) :
    (r.places ++ entry.client :: clients).Perm
      (({ r with suspended := r.suspended.insert id entry } : Registry).places ++ clients) :=
  (perm_take ((perm_insert vacant).map _)).symm

theorem Balanced.putIn (balanced : r.Balanced max (entry.client :: clients) (entry.slot.toList ++ guards))
    (vacant : r.suspended.lookup id = none) :
    ({ r with suspended := r.suspended.insert id entry } : Registry).Balanced max clients guards :=
  balanced.move (perm_putIn vacant) (slots_perm (perm_insert vacant)).symm balanced.gauge

theorem perm_unlist {active : Int} (found : r.clients.lookup runId = some client) :
    (r.places ++ clients).Perm
      (({ r with clients := r.clients.erase runId, clientsActive := active } : Registry).places ++ client :: clients) :=
  ((((perm_erase found).map _).append_right _).append_right clients).trans List.perm_middle.symm

theorem Balanced.unlist (balanced : r.Balanced max clients guards) (found : r.clients.lookup runId = some client) :
    ({ r with clients := r.clients.erase runId, clientsActive := r.clientsActive - 1 } : Registry).Balanced max
      (client :: clients) guards := by
  refine balanced.move (perm_unlist found) (.refl _) ?_
  rw [balanced.gauge, (perm_erase found).length_eq, List.length_cons]
  omega

theorem perm_enlist {active : Int} (vacant : r.clients.lookup runId = none) :
    (r.places ++ client :: clients).Perm
      (({ r with clients := r.clients.insert runId client, clientsActive := active } : Registry).places ++ clients) := by
  have isPerm : (r.clients.insert runId client).entries.Perm (⟨runId, client⟩ :: r.clients.entries) := perm_insert vacant
  exact ((((isPerm.map _).append_right _).append_right clients).trans List.perm_middle.symm).symm

theorem Balanced.enlist (balanced : r.Balanced max (client :: clients) guards) (vacant : r.clients.lookup runId = none) :
    ({ r with clients := r.clients.insert runId client, clientsActive := r.clientsActive + 1 } : Registry).Balanced max
      clients guards := by
  refine balanced.move (perm_enlist vacant) (.refl _) ?_
  have isPerm : (r.clients.insert runId client).entries.Perm (⟨runId, client⟩ :: r.clients.entries) := perm_insert vacant
  rw [balanced.gauge, isPerm.length_eq, List.length_cons]
  omega

theorem Balanced.remove (balanced : r.Balanced max clients guards) : (r.remove ids runId).Balanced max clients guards := by
  rw [Registry.remove]
  split
  · exact balanced
  next found => exact (balanced.unlist found).cleanupClient

theorem Balanced.tables (balanced : r.Balanced max clients guards) {tables : Tables}
    (keeps : ∀ other, other ∉ r.places → r.tables.Clear other → tables.Clear other) :
    ({ r with tables } : Registry).Balanced max clients guards where
  oneEach := balanced.oneEach
  once := balanced.once
  gauge := balanced.gauge
  limit := balanced.limit
  clear other nowhere absent := keeps other nowhere (balanced.clear other nowhere absent)

theorem mem_places (found : r.clients.lookup runId = some client) : client ∈ r.places :=
  List.mem_append_left _ (List.mem_map.mpr ⟨_, lookup_eq_some_iff.mp found, rfl⟩)

theorem Balanced.kick (balanced : r.Balanced max clients guards) : (r.kick ids runId).Balanced max clients guards := by
  rw [Registry.kick]
  split
  · exact balanced
  · exact balanced.remove.tables fun _ _ clear => ⟨PortTable.Each.releasePortsOf clear.ports, clear.vhosts, clear.visitors⟩

theorem Balanced.insert (balanced : r.Balanced max clients guards) {after : Registry} {number : Nat}
    (vacant : r.clients.lookup (ids.of r.issued) = none) (isAfter : r.insert ids r.issued = (after, some number)) :
    number = r.issued ∧ after.clients = r.clients.insert (ids.of r.issued) r.issued ∧
      after.Balanced max clients (number :: guards) := by
  rw [Registry.insert] at isAfter
  split at isAfter
  · cases (Prod.mk.inj isAfter).2
  next permit limit acquired =>
    obtain ⟨rfl, isNumber⟩ := Prod.mk.inj isAfter
    obtain rfl := Option.some.inj isNumber
    have issued : ({ r with clientLimit := limit, issued := r.issued + 1 } : Registry).Balanced max (r.issued :: clients)
        (r.issued :: guards) := by
      refine ⟨fun other => ?_, fun other => ?_, balanced.gauge, ?_, fun other nowhere absent => ?_⟩
      · have before := balanced.oneEach other
        show r.places.count other + (r.issued :: clients).count other ≤ if other < r.issued + 1 then 1 else 0
        rw [List.count_cons]
        grind
      · have before := balanced.once other
        show r.slots.count other + (r.issued :: guards).count other + r.released.count other =
          if other < r.issued + 1 then 1 else 0
        rw [List.count_cons]
        grind
      · obtain ⟨isPermit, accounts⟩ := balanced.limit.acquire acquired
        by_cases unlimited : max = 0
        · exact ⟨accounts.1, .inl unlimited⟩
        · rw [isPermit, if_neg unlimited, if_pos rfl] at accounts
          exact accounts
      · exact balanced.clear other nowhere fun isIn => absent (List.mem_cons_of_mem _ isIn)
    exact ⟨rfl, rfl, issued.enlist vacant⟩

theorem Balanced.reclaimAll {entries : List SuspendedSession}
    (balanced : r.Balanced max (entries.map SuspendedSession.client ++ clients)
      (entries.flatMap (fun entry => entry.slot.toList) ++ guards)) :
    (entries.foldl (fun r entry => r.reclaimSuspended ids entry) r).Balanced max clients guards := by
  induction entries generalizing r with
  | nil => exact balanced
  | cons entry rest ih =>
    rw [List.flatMap_cons, List.append_assoc] at balanced
    exact ih balanced.reclaimSuspended

theorem perm_expired : (r.places ++ clients).Perm
    (({ r with suspended := dropExpired SuspendedSession.expiresAt now r.suspended } : Registry).places ++
      ((r.expired now).map SuspendedSession.client ++ clients)) := by
  rw [expired, List.map_map, ← List.append_assoc]
  refine List.Perm.append_right clients ?_
  rw [places, places, List.append_assoc]
  refine List.Perm.append_left _ ?_
  exact (perm_dropExpired.map _).trans (.of_eq List.map_append)

theorem Balanced.sweepSuspended (balanced : r.Balanced max clients guards) :
    (r.sweepSuspended ids now).Balanced max clients guards := by
  refine Balanced.reclaimAll (balanced.move perm_expired ?_ balanced.gauge)
  rw [expired, List.flatMap_map, ← List.append_assoc]
  refine List.Perm.append_right guards ?_
  exact (perm_dropExpired.flatMap_right _).trans (.of_eq List.flatMap_append)

/-- To reclaim what was taken out does not touch the maps. -/
structure SameMaps (before after : Registry) : Prop where
  clients : after.clients = before.clients
  suspended : after.suspended = before.suspended

theorem sameMaps_dropSlot : SameMaps r (r.dropSlot slot) := by
  cases slot <;> exact ⟨rfl, rfl⟩

theorem sameMaps_reclaimSuspended : SameMaps r (r.reclaimSuspended ids entry) :=
  ⟨sameMaps_dropSlot.clients, sameMaps_dropSlot.suspended⟩

theorem sameMaps_reclaimAll (entries : List SuspendedSession) :
    SameMaps r (entries.foldl (fun r entry => r.reclaimSuspended ids entry) r) := by
  induction entries generalizing r with
  | nil => exact ⟨rfl, rfl⟩
  | cons entry rest ih =>
    have first : SameMaps r (r.reclaimSuspended ids entry) := sameMaps_reclaimSuspended
    have others := @ih (r.reclaimSuspended ids entry)
    exact ⟨others.clients.trans first.clients, others.suspended.trans first.suspended⟩

theorem lookup_same {after : Registry} (same : after.clients = r.clients) (found : r.clients.lookup runId = some client) :
    after.clients.lookup runId = some client :=
  same ▸ found

theorem lookup_of_remove {other : String} (found : (r.remove ids runId).clients.lookup other = some client) :
    r.clients.lookup other = some client := by
  rw [remove] at found
  split at found
  · exact found
  · exact lookup_of_erase found

theorem lookup_of_kick {other : String} (found : (r.kick ids runId).clients.lookup other = some client) :
    r.clients.lookup other = some client := by
  rw [kick] at found
  split at found
  · exact found
  · exact lookup_of_remove found

theorem clients_sweepSuspended : (r.sweepSuspended ids now).clients = r.clients :=
  (sameMaps_reclaimAll _).clients

theorem Balanced.suspend (balanced : r.Balanced max (entry.client :: clients) (entry.slot.toList ++ guards)) :
    (r.suspend ids now id entry).1.Balanced max clients guards := by
  have swept : (r.sweepSuspended ids now).Balanced max (entry.client :: clients) (entry.slot.toList ++ guards) :=
    balanced.sweepSuspended
  rw [Registry.suspend]
  split
  next old found =>
    split
    · exact swept.reclaimSuspended
    next same =>
      have twice := (swept.takeOut found).oneEach entry.client
      rw [not_not.mp same, List.count_cons_self, List.count_cons_self] at twice
      split at twice <;> omega
  next vacant => exact swept.putIn vacant

theorem clients_suspend : (r.suspend ids now id entry).1.clients = r.clients := by
  rw [suspend]
  split
  · split
    · exact sameMaps_reclaimSuspended.clients.trans clients_sweepSuspended
    · exact sameMaps_dropSlot.clients.trans clients_sweepSuspended
  · exact clients_sweepSuspended

variable {user clientId : String} {after : Registry}

theorem clients_of_suspend {kept : Bool} (isSuspended : r.suspend ids now id entry = (after, kept)) :
    after.clients = r.clients :=
  (congrArg (fun result => result.1.clients) isSuspended).symm.trans clients_suspend

theorem Balanced.taken (balanced : r.Balanced max clients guards)
    (isTaken : r.takeSuspendedIf ids now id user clientId = (after, some entry)) :
    after.Balanced max (entry.client :: clients) (entry.slot.toList ++ guards) := by
  rw [takeSuspendedIf] at isTaken
  split at isTaken
  · cases (Prod.mk.inj isTaken).2
  next found =>
    split_ifs at isTaken
    · cases (Prod.mk.inj isTaken).2
    · cases (Prod.mk.inj isTaken).2
    · obtain ⟨rfl, same⟩ := Prod.mk.inj isTaken
      obtain rfl := Option.some.inj same
      exact balanced.takeOut found

theorem Balanced.notTaken (balanced : r.Balanced max clients guards)
    (isTaken : r.takeSuspendedIf ids now id user clientId = (after, none)) : after.Balanced max clients guards := by
  rw [takeSuspendedIf] at isTaken
  split at isTaken
  · exact (Prod.mk.inj isTaken).1 ▸ balanced
  next found =>
    split_ifs at isTaken
    · exact (Prod.mk.inj isTaken).1 ▸ (balanced.takeOut found).reclaimSuspended
    · exact (Prod.mk.inj isTaken).1 ▸ balanced
    · cases (Prod.mk.inj isTaken).2

theorem clients_takeSuspendedIf : (r.takeSuspendedIf ids now id user clientId).1.clients = r.clients := by
  rw [takeSuspendedIf]
  split
  · rfl
  · split_ifs
    · exact sameMaps_reclaimSuspended.clients
    · rfl
    · rfl

theorem clients_of_taken {taken : Option SuspendedSession}
    (isTaken : r.takeSuspendedIf ids now id user clientId = (after, taken)) : after.clients = r.clients :=
  (congrArg (fun result => result.1.clients) isTaken).symm.trans clients_takeSuspendedIf

/-- Who is somebody else does not get a session that has not expired, and does not touch it. -/
theorem takeSuspendedIf_of_mismatch (found : r.suspended.lookup id = some entry) (waits : now < entry.expiresAt)
    (mismatch : ¬(entry.user = user ∧ entry.clientId = clientId)) :
    r.takeSuspendedIf ids now id user clientId = (r, none) := by
  rw [takeSuspendedIf, found]
  dsimp only
  rw [if_neg (Nat.not_le.mpr waits), if_pos (not_and_or.mp mismatch)]

end Registry

end Nfrp.Lifecycle
