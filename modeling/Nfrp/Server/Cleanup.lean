import Nfrp.Server.Registrations

/-!
# What goes with a client

A client that is cleaned up leaves no port, no route and no name behind, and what others
register afterwards is theirs.
-/

namespace Nfrp

open Lib

namespace PortTable

def Clear (client : Nat) (t : PortTable) : Prop :=
  ∀ port g, t port = some g → ∀ b ∈ g.members, b.client ≠ client

variable {user : Nat → String} {ids : RunIds} {t : PortTable} {port client other handle : Nat}
  {group groupKey proxyName : String}

def Each (right : Nat → Backend → Prop) (t : PortTable) : Prop :=
  ∀ port g, t port = some g → ∀ b ∈ g.members, right port b

variable {right : Nat → Backend → Prop}

theorem Each.update (each : t.Each right) {entry : Option PortGroup}
    (rightEntry : ∀ g, entry = some g → ∀ b ∈ g.members, right port b) :
    Each right (Function.update t port entry) := by
  intro at_ g found b isMember
  rcases eq_some_of_update found with ⟨rfl, isEntry⟩ | ⟨-, found⟩
  · exact rightEntry g isEntry b isMember
  · exact each at_ g found b isMember

theorem Each.reservePort (each : t.Each right) (entered : right port ⟨client, proxyName⟩) :
    (t.reservePort user ids port group groupKey proxyName client).1.Each right := by
  rcases @reservePort_cases user ids t port client group groupKey proxyName with
    ⟨-, isFresh⟩ | ⟨g, found, -, isJoined⟩ | ⟨g, -, -, isTaken⟩
  · rw [isFresh]
    refine each.update ?_
    rintro g ⟨⟩ b isMember
    obtain rfl := List.mem_singleton.mp isMember
    exact entered
  · rw [isJoined]
    refine each.update ?_
    rintro pushed ⟨⟩ b isMember
    rcases PortGroup.mem_push.mp isMember with isMember | rfl
    · exact each port g found b isMember
    · exact entered
  · rw [isTaken]
    exact each

theorem Each.attachListener (each : t.Each right) : (t.attachListener port handle).Each right := by
  refine each.update fun g isEntry b isMember => ?_
  obtain ⟨old, found, rfl⟩ := Option.map_eq_some_iff.mp isEntry
  exact each port old found b isMember

theorem Each.releasePort (each : t.Each right) : (t.releasePort ids port client proxyName).Each right := by
  refine each.update fun g isEntry b isMember => ?_
  obtain ⟨old, found, isKept⟩ := Option.bind_eq_some_iff.mp isEntry
  obtain ⟨-, rfl⟩ := PortGroup.kept_eq_some_iff.mp isKept
  exact each port old found b (PortGroup.mem_remove.mp isMember).1

theorem Each.releasePortsOf (each : t.Each right) : (t.releasePortsOf ids client).Each right := by
  intro port g isEntry b isMember
  obtain ⟨old, found, isKept⟩ := Option.bind_eq_some_iff.mp isEntry
  obtain ⟨-, rfl⟩ := PortGroup.kept_eq_some_iff.mp isKept
  exact each port old found b (PortGroup.mem_removeAllOf.mp isMember).1

theorem clear_releasePortsOf : (t.releasePortsOf ids client).Clear client := by
  intro port g isEntry b isMember
  obtain ⟨old, -, isKept⟩ := Option.bind_eq_some_iff.mp isEntry
  obtain ⟨-, rfl⟩ := PortGroup.kept_eq_some_iff.mp isKept
  exact (PortGroup.mem_removeAllOf.mp isMember).2

end PortTable

namespace VhostTable

def Clear (client : Nat) (t : VhostTable) : Prop :=
  ∀ route, t.Has route → route.client ≠ client

variable {t : VhostTable} {route : VhostRoute} {routes : List VhostRoute} {domain : List Char} {other : Nat}

theorem has_of_listed (isListed : route ∈ (t.listed domain).getD []) : t.Has route := by
  rw [listed] at isListed
  split at isListed
  next suffix _ =>
    cases found : t.wildcard.lookup suffix with
    | none => simp [found] at isListed
    | some routes => exact .inr ⟨suffix, routes, found, by simpa [found] using isListed⟩
  · cases found : t.exact.lookup domain with
    | none => simp [found] at isListed
    | some routes => exact .inl ⟨domain, routes, found, by simpa [found] using isListed⟩

theorem has_of_insert {map : AList fun _ : List Char => List VhostRoute} {at_ : List Char}
    (has : ∃ key found, (map.insert at_ routes).lookup key = some found ∧ route ∈ found) :
    route ∈ routes ∨ ∃ key found, map.lookup key = some found ∧ route ∈ found := by
  obtain ⟨key, found, isFound, isRoute⟩ := has
  rw [lookup_insert_eq] at isFound
  split at isFound
  · exact .inl (Option.some.inj isFound ▸ isRoute)
  · exact .inr ⟨key, found, isFound, isRoute⟩

theorem has_of_list (has : (t.list domain routes).Has route) : route ∈ routes ∨ t.Has route := by
  rw [list] at has
  split at has
  · rcases has with isExact | isWildcard
    · exact .inr (.inl isExact)
    · exact (has_of_insert isWildcard).imp_right .inr
  · rcases has with isExact | isWildcard
    · exact (has_of_insert isExact).imp_right .inl
    · exact .inr (.inr isWildcard)

theorem has_of_registerAll (has : (t.registerAll routes).1.Has route) : route ∈ routes ∨ t.Has route := by
  induction routes generalizing t with
  | nil => exact .inr has
  | cons head rest ih =>
    rw [VhostTable.registerAll] at has
    cases isRegistered : t.register head with
    | error reason =>
      rw [isRegistered] at has
      exact .inr has
    | ok after =>
      rw [isRegistered] at has
      rcases ih has with isLater | has
      · exact .inl (List.mem_cons_of_mem _ isLater)
      · obtain ⟨-, rfl⟩ := register_eq_ok_iff.mp isRegistered
        rcases has_of_list has with isEntered | has
        · rcases VhostRoute.mem_enlist.mp isEntered with ⟨isListed, -⟩ | rfl
          · exact .inr (has_of_listed isListed)
          · exact .inl List.mem_cons_self
        · exact .inr has

def Each (right : VhostRoute → Prop) (t : VhostTable) : Prop :=
  ∀ route, t.Has route → right route

variable {right : VhostRoute → Prop}

theorem Each.registerAll (each : t.Each right) (entered : ∀ route ∈ routes, right route) :
    (t.registerAll routes).1.Each right :=
  fun route has => (has_of_registerAll has).elim (entered route) (each route)

theorem has_of_prune {stays : VhostRoute → Bool} {map : AList fun _ : List Char => List VhostRoute}
    (has : ∃ key found, (prune stays map).lookup key = some found ∧ route ∈ found) :
    ∃ key found, map.lookup key = some found ∧ route ∈ found := by
  obtain ⟨key, found, isFound, isRoute⟩ := has
  rw [lookup_prune] at isFound
  obtain ⟨isMapped, -⟩ := Option.filter_eq_some_iff.mp isFound
  obtain ⟨old, isOld, rfl⟩ := Option.map_eq_some_iff.mp isMapped
  exact ⟨key, old, isOld, List.mem_of_mem_filter isRoute⟩

theorem Each.removeProxy (each : t.Each right) (client : Nat) (proxyName : List Char) :
    (t.removeProxy client proxyName).Each right :=
  fun route has => each route (has.imp has_of_prune has_of_prune)

theorem Each.unregisterClient (each : t.Each right) (client : Nat) : (t.unregisterClient client).Each right :=
  fun route has => each route (has.imp has_of_prune has_of_prune)

end VhostTable

namespace VisitorTable

def Clear (client : Nat) (t : VisitorTable) : Prop :=
  ∀ name visitor, t name = some visitor → visitor.client ≠ client

def Each (right : String → VisitorEntry → Prop) (t : VisitorTable) : Prop :=
  ∀ name visitor, t name = some visitor → right name visitor

variable {t : VisitorTable} {client other : Nat} {name : String} {entry : VisitorEntry}
  {right : String → VisitorEntry → Prop}

theorem Each.register (each : t.Each right) (entered : right entry.proxyName entry) {after : VisitorTable}
    (isAfter : t.register entry = .ok after) : after.Each right := by
  rw [VisitorTable.register] at isAfter
  split at isAfter
  · cases isAfter
  · obtain rfl := Except.ok.inj isAfter
    intro name visitor found
    by_cases same : name = entry.proxyName
    · subst same
      rw [Function.update_self] at found
      exact Option.some.inj found ▸ entered
    · rw [Function.update_of_ne same] at found
      exact each name visitor found

theorem Each.remove (each : t.Each right) : (t.remove client name).Each right := by
  intro at_ visitor found
  by_cases same : at_ = name
  · subst same
    rw [VisitorTable.remove, Function.update_self] at found
    exact each at_ visitor (Option.filter_eq_some_iff.mp found).1
  · rw [VisitorTable.remove, Function.update_of_ne same] at found
    exact each at_ visitor found

theorem Each.unregisterClient (each : t.Each right) : (t.unregisterClient client).Each right :=
  fun name visitor found => each name visitor (Option.filter_eq_some_iff.mp found).1

theorem clear_unregisterClient : (t.unregisterClient client).Clear client :=
  fun _ _ found => of_decide_eq_true (Option.filter_eq_some_iff.mp found).2

end VisitorTable

namespace Tables

def rebindControl (client : Nat) (t : Tables) : Tables :=
  let proxies := t.clients client
  t.withClient client { proxies with resumedSession := true, resumeEpoch := proxies.resumeEpoch + 1 }

def cleanupClient (ids : RunIds) (client : Nat) (t : Tables) : Tables :=
  let limit := t.slots client
  let held := (t.clients client).entries.entries.length
  { t with
    clients := Function.update t.clients client { t.clients client with entries := ∅ }
    slots := Function.update t.slots client (limit.release (if limit.max = 0 then 0 else held))
    vhosts := t.vhosts.map (VhostTable.unregisterClient client)
    visitors := t.visitors.unregisterClient client
    ports := t.ports.releasePortsOf ids client }

structure Clear (client : Nat) (t : Tables) : Prop where
  ports : t.ports.Clear client
  vhosts : ∀ table ∈ t.vhosts, table.Clear client
  visitors : t.visitors.Clear client

variable {cfg : ServerConfig} {user : Nat → String} {ids : RunIds} {net : Net} {client other : Nat} {name : String}
  {m : NewProxy} {t : Tables}

theorem clear_cleanupClient : (t.cleanupClient ids client).Clear client where
  ports := PortTable.clear_releasePortsOf
  vhosts table isTable := by
    obtain ⟨old, -, rfl⟩ := Option.mem_map.mp isTable
    exact fun route has => VhostTable.client_ne_of_has_unregisterClient has
  visitors := VisitorTable.clear_unregisterClient

theorem Clear.cleanupClient (clear : t.Clear other) : (t.cleanupClient ids client).Clear other where
  ports := PortTable.Each.releasePortsOf clear.ports
  vhosts table isTable := by
    obtain ⟨old, isOld, rfl⟩ := Option.mem_map.mp isTable
    exact VhostTable.Each.unregisterClient (clear.vhosts old isOld) client
  visitors := VisitorTable.Each.unregisterClient clear.visitors

structure Holds (ports : PortTable → Prop) (vhosts : VhostTable → Prop) (visitors : VisitorTable → Prop) (t : Tables) :
    Prop where
  ports : ports t.ports
  vhosts : ∀ table ∈ t.vhosts, vhosts table
  visitors : visitors t.visitors

/-- Whatever the client takes out of its own, it still holds. -/
structure Closes (ids : RunIds) (client : Nat) (ports : PortTable → Prop) (vhosts : VhostTable → Prop)
    (visitors : VisitorTable → Prop) : Prop where
  release : ∀ {t : PortTable} {port proxyName}, ports t → ports (t.releasePort ids port client proxyName)
  takeOut : ∀ {t : VhostTable} {proxyName}, vhosts t → vhosts (t.removeProxy client proxyName)
  unname : ∀ {t : VisitorTable} {name}, visitors t → visitors (t.remove client name)

/-- Nor does it end with what the client enters for a proxy of this name. -/
structure Stable (user : Nat → String) (ids : RunIds) (client : Nat) (name : String) (ports : PortTable → Prop)
    (vhosts : VhostTable → Prop) (visitors : VisitorTable → Prop) : Prop extends
    Closes ids client ports vhosts visitors where
  reserve : ∀ {t : PortTable} {port group groupKey}, ports t →
    ports (t.reservePort user ids port group groupKey name client).1
  attach : ∀ {t : PortTable} {port handle}, ports t → ports (t.attachListener port handle)
  enter : ∀ {t : VhostTable} {routes : List VhostRoute},
    (∀ route ∈ routes, route.client = client ∧ route.proxyName = name.toList) → vhosts t →
      vhosts (t.registerAll routes).1
  name : ∀ {t after : VisitorTable} {entry}, entry.client = client → entry.proxyName = name → visitors t →
    t.register entry = .ok after → visitors after

section Stable

variable {ports : PortTable → Prop} {vhosts : VhostTable → Prop} {visitors : VisitorTable → Prop}

theorem Holds.closeProxyByName (closes : Closes ids client ports vhosts visitors) (holds : t.Holds ports vhosts visitors) :
    (t.closeProxyByName ids client name).1.Holds ports vhosts visitors := by
  have pruned : ∀ table ∈ t.vhosts.map (VhostTable.removeProxy client name.toList), vhosts table := by
    intro table isTable
    obtain ⟨old, isOld, rfl⟩ := Option.mem_map.mp isTable
    exact closes.takeOut (holds.vhosts old isOld)
  rw [Tables.closeProxyByName]
  dsimp only
  split
  · exact ⟨holds.ports, pruned, closes.unname holds.visitors⟩
  · dsimp only
    split
    · exact ⟨closes.release holds.ports, pruned, closes.unname holds.visitors⟩
    · exact ⟨holds.ports, pruned, closes.unname holds.visitors⟩

variable (stable : Stable user ids client m.proxyName ports vhosts visitors)

include stable

theorem Holds.registerVisitorProxy (holds : t.Holds ports vhosts visitors) (kind : String) :
    (t.registerVisitorProxy user client m kind).1.Holds ports vhosts visitors := by
  rw [Tables.registerVisitorProxy]
  split
  · exact ⟨holds.ports, holds.vhosts, holds.visitors⟩
  · split
    · exact ⟨holds.ports, holds.vhosts, holds.visitors⟩
    next isRegistered => exact ⟨holds.ports, holds.vhosts, stable.name rfl rfl holds.visitors isRegistered⟩

theorem Stable.reserved {t after : PortTable} {port : Nat} {group groupKey : String} {claim : Except String PortClaim}
    (holds : ports t) (isReserved : t.reservePort user ids port group groupKey m.proxyName client = (after, claim)) :
    ports after := by
  have reserved : ports (t.reservePort user ids port group groupKey m.proxyName client).1 := stable.reserve holds
  rw [isReserved] at reserved
  exact reserved

theorem Holds.registerTcp (holds : t.Holds ports vhosts visitors) :
    (t.registerTcp cfg user ids net client m).1.Holds ports vhosts visitors := by
  rw [Tables.registerTcp]
  split
  · exact ⟨holds.ports, holds.vhosts, holds.visitors⟩
  dsimp only
  split
  · exact ⟨holds.ports, holds.vhosts, holds.visitors⟩
  next isReserved => exact ⟨stable.reserved holds.ports isReserved, holds.vhosts, holds.visitors⟩
  next isReserved =>
    have reserved := stable.reserved holds.ports isReserved
    split
    · exact ⟨reserved, holds.vhosts, holds.visitors⟩
    · split
      · exact ⟨stable.release reserved, holds.vhosts, holds.visitors⟩
      · exact ⟨stable.attach reserved, holds.vhosts, holds.visitors⟩

theorem Holds.registerUdp (holds : t.Holds ports vhosts visitors) :
    (t.registerUdp cfg user ids net client m).1.Holds ports vhosts visitors := by
  rw [Tables.registerUdp]
  split
  · exact ⟨holds.ports, holds.vhosts, holds.visitors⟩
  dsimp only
  split
  · exact ⟨holds.ports, holds.vhosts, holds.visitors⟩
  next isReserved =>
    exact ⟨stable.release (stable.reserved holds.ports isReserved), holds.vhosts, holds.visitors⟩
  next isReserved =>
    have reserved := stable.reserved holds.ports isReserved
    split
    · exact ⟨stable.release reserved, holds.vhosts, holds.visitors⟩
    · exact ⟨stable.attach reserved, holds.vhosts, holds.visitors⟩

theorem Holds.registerVhost (holds : t.Holds ports vhosts visitors) (kind : VhostKind) :
    (t.registerVhost cfg client m kind).1.Holds ports vhosts visitors := by
  rw [Tables.registerVhost]
  split
  · exact ⟨holds.ports, holds.vhosts, holds.visitors⟩
  next port table domains isRequest =>
    have isTable : table ∈ t.vhosts := (of_vhostRequest isRequest).1
    have entered : vhosts (table.registerAll (domains.map (vhostRoute client m kind))).1 := by
      refine stable.enter (fun route isRoute => ?_) (holds.vhosts table isTable)
      obtain ⟨domain, -, rfl⟩ := List.mem_map.mp isRoute
      exact ⟨rfl, rfl⟩
    split
    next isAfter =>
      rw [isAfter] at entered
      exact ⟨holds.ports, fun _ same => Option.some.inj same ▸ entered, holds.visitors⟩
    next isAfter =>
      rw [isAfter] at entered
      exact ⟨holds.ports, fun _ same => Option.some.inj same ▸ entered, holds.visitors⟩

theorem Holds.registerKind (holds : t.Holds ports vhosts visitors) :
    (t.registerKind cfg user ids net client m).1.Holds ports vhosts visitors := by
  rw [Tables.registerKind]
  split
  · exact holds.registerTcp stable
  · exact holds.registerUdp stable
  · exact holds.registerVhost stable .http
  · exact holds.registerVhost stable .https
  · exact holds.registerVhost stable .tcpMux
  · exact holds.registerVisitorProxy stable "stcp"
  · exact holds.registerVisitorProxy stable "xtcp"
  · exact holds.registerVisitorProxy stable "sudp"
  · exact ⟨holds.ports, holds.vhosts, holds.visitors⟩

theorem Holds.registerAfresh (holds : t.Holds ports vhosts visitors) :
    (t.registerAfresh cfg user ids net client m).1.Holds ports vhosts visitors := by
  rcases @registerAfresh_cases cfg user ids net client m t with
    ⟨-, isAfter⟩ | ⟨_, limit, -, ⟨_, -, isAfter⟩ | ⟨-, _, rfl, ⟨_, -, isAfter⟩ | ⟨_, -, isAfter⟩⟩⟩
  · exact isAfter ▸ holds
  · exact isAfter ▸ ⟨holds.ports, holds.vhosts, holds.visitors⟩
  all_goals
    have acquired : ({ t with slots := Function.update t.slots client limit } : Tables).Holds ports vhosts visitors :=
      ⟨holds.ports, holds.vhosts, holds.visitors⟩
    rw [isAfter]
    exact acquired.registerKind stable

theorem Holds.registerProxy (holds : t.Holds ports vhosts visitors) :
    (t.registerProxy cfg user ids net client m).1.Holds ports vhosts visitors := by
  rw [Tables.registerProxy]
  split
  · exact holds
  dsimp only
  split
  · exact ⟨holds.ports, holds.vhosts, holds.visitors⟩
  · split
    · exact (holds.closeProxyByName stable.toCloses).registerAfresh stable
    · exact holds.registerAfresh stable

end Stable

section Each

variable {right : Nat → Backend → Prop} {rightRoute : VhostRoute → Prop} {rightVisitor : String → VisitorEntry → Prop}

theorem closes_each (ids : RunIds) (client : Nat) :
    Closes ids client (PortTable.Each right) (VhostTable.Each rightRoute) (VisitorTable.Each rightVisitor) where
  release each := each.releasePort
  takeOut each := each.removeProxy client _
  unname each := each.remove

theorem stable_each (user : Nat → String) (ids : RunIds) (entered : ∀ port, right port ⟨client, name⟩)
    (enteredRoute : ∀ route : VhostRoute, route.client = client → route.proxyName = name.toList → rightRoute route)
    (enteredVisitor : ∀ entry : VisitorEntry, entry.client = client → entry.proxyName = name → rightVisitor name entry) :
    Stable user ids client name (PortTable.Each right) (VhostTable.Each rightRoute) (VisitorTable.Each rightVisitor) where
  toCloses := closes_each ids client
  reserve each := each.reservePort (entered _)
  attach each := each.attachListener
  enter own each := each.registerAll fun route isRoute => enteredRoute route (own route isRoute).1 (own route isRoute).2
  name own isName each isAfter := each.register (isName ▸ enteredVisitor _ own isName) isAfter

end Each

theorem Clear.holds (clear : t.Clear other) :
    t.Holds (PortTable.Clear other) (VhostTable.Clear other) (VisitorTable.Clear other) :=
  ⟨clear.ports, clear.vhosts, clear.visitors⟩

theorem closes_clear (ids : RunIds) (client other : Nat) :
    Closes ids client (PortTable.Clear other) (VhostTable.Clear other) (VisitorTable.Clear other) :=
  closes_each ids client

theorem stable_clear (user : Nat → String) (ids : RunIds) (different : client ≠ other) (name : String) :
    Stable user ids client name (PortTable.Clear other) (VhostTable.Clear other) (VisitorTable.Clear other) :=
  stable_each user ids (fun _ => different) (fun _ own _ => own ▸ different) fun _ own _ => own ▸ different

theorem Clear.closeProxyByName (clear : t.Clear other) : (t.closeProxyByName ids client name).1.Clear other := by
  have holds : (t.closeProxyByName ids client name).1.Holds (PortTable.Clear other) (VhostTable.Clear other)
      (VisitorTable.Clear other) := clear.holds.closeProxyByName (closes_clear ids client other)
  exact ⟨holds.ports, holds.vhosts, holds.visitors⟩

theorem Clear.registerProxy (clear : t.Clear other) (different : client ≠ other) :
    (t.registerProxy cfg user ids net client m).1.Clear other := by
  have holds : (t.registerProxy cfg user ids net client m).1.Holds (PortTable.Clear other) (VhostTable.Clear other)
      (VisitorTable.Clear other) := clear.holds.registerProxy (stable_clear user ids different m.proxyName)
  exact ⟨holds.ports, holds.vhosts, holds.visitors⟩

end Tables

end Nfrp
