import Nfrp.Server.Passive

/-!
# A proxy that is closed again

The name of an announcement is made whole before it is registered; the name of a message
that closes a proxy is taken as it comes.
-/

namespace Nfrp

open Lib Nfrp.Client

/-- The announcement as it is registered, after the plugins have seen it. -/
def announced (user : String) (m : NewProxy) : Lifecycle.Verdict NewProxy → Option NewProxy
  | .unsendable | .refused | .unreadable => none
  | .unasked => some { m with proxyName := canonicalWireName user m.proxyName }
  | .left m => some { m with proxyName := canonicalWireName user m.proxyName }

namespace Tables

variable (cfg : ServerConfig) (user : Nat → String) (ids : RunIds) (net : Net)

def newProxy (role : Role) (client : Nat) (m : NewProxy) (t : Tables) : Tables × Except Refusal (String × Bool) :=
  match checkProxy role m.proxyName m.proxyType m.remotePort (t.clients client).proxyCount with
  | .error r => (t, .error r)
  | .ok () => t.registerProxy cfg user ids net client m

/-- A client closes a proxy; it is counted off if it had a port. -/
def closeProxy (client : Nat) (name : String) (t : Tables) : Tables × Bool :=
  let t := { t with
    visitors := t.visitors.remove client name
    vhosts := t.vhosts.map (VhostTable.removeProxy client name.toList) }
  match (t.clients client).entries.lookup name with
  | none => (t, false)
  | some entry =>
    let t := (t.withClient client ((t.clients client).stopProxy name)).giveBack client
    match entry.port with
    | some port => ({ t with ports := t.ports.releasePort ids port client name }, true)
    | none => (t, false)

end Tables

/-- No port is kept for nobody. -/
def PortTable.Tidy (t : PortTable) : Prop :=
  ∀ port g, t port = some g → g.members ≠ []

/-- No domain is kept for nobody, and none with a star is listed as a whole. -/
structure VhostTable.Tidy (t : VhostTable) : Prop where
  inhabited : ∀ domain, t.listed domain ≠ some []
  exact : ∀ key routes, t.exact.lookup key = some routes → suffixOf key = none

abbrev Tables.Tidy (t : Tables) : Prop :=
  t.Holds PortTable.Tidy VhostTable.Tidy fun _ => True

namespace PortTable

variable {user : Nat → String} {ids : RunIds} {t : PortTable} {port client handle : Nat}
  {group groupKey proxyName : String}

theorem releasePort_attached (vacant : t port = none) :
    releasePort ids port client proxyName (attachListener port handle
      (Function.update t port (some (.new group groupKey (user client) client proxyName)))) = t := by
  rw [attachListener, Function.update_self, Function.update_idem, Option.map_some, releasePort, Function.update_self,
    Function.update_idem, Option.bind_some]
  have gone : (PortGroup.remove ids client proxyName
      { PortGroup.new group groupKey (user client) client proxyName with handle := some handle }).kept = none := by
    simp [PortGroup.remove, PortGroup.new, PortGroup.kept]
  rw [gone, ← vacant, Function.update_eq_self]

theorem Tidy.update (tidy : t.Tidy) {entry : Option PortGroup} (inhabited : ∀ g, entry = some g → g.members ≠ []) :
    Tidy (Function.update t port entry) := by
  intro at_ g found
  rcases eq_some_of_update found with ⟨-, isEntry⟩ | ⟨-, found⟩
  · exact inhabited g isEntry
  · exact tidy at_ g found

theorem Tidy.reservePort (tidy : t.Tidy) : (t.reservePort user ids port group groupKey proxyName client).1.Tidy := by
  rcases @reservePort_cases user ids t port client group groupKey proxyName with
    ⟨-, isFresh⟩ | ⟨g, -, -, isJoined⟩ | ⟨g, -, -, isTaken⟩
  · rw [isFresh]
    refine tidy.update ?_
    rintro g ⟨⟩
    exact List.cons_ne_nil _ _
  · rw [isJoined]
    refine tidy.update ?_
    rintro pushed ⟨⟩
    exact List.append_ne_nil_of_right_ne_nil _ (List.cons_ne_nil _ _)
  · rw [isTaken]
    exact tidy

theorem Tidy.attachListener (tidy : t.Tidy) : (t.attachListener port handle).Tidy := by
  refine tidy.update fun g isEntry => ?_
  obtain ⟨old, found, rfl⟩ := Option.map_eq_some_iff.mp isEntry
  exact tidy port old found

theorem Tidy.releasePort (tidy : t.Tidy) : (t.releasePort ids port client proxyName).Tidy := by
  refine tidy.update fun g isEntry => ?_
  obtain ⟨old, -, isKept⟩ := Option.bind_eq_some_iff.mp isEntry
  obtain ⟨inhabited, rfl⟩ := PortGroup.kept_eq_some_iff.mp isKept
  exact inhabited

theorem tidy_releasePortsOf : (t.releasePortsOf ids client).Tidy := by
  intro port g isEntry
  obtain ⟨old, -, isKept⟩ := Option.bind_eq_some_iff.mp isEntry
  obtain ⟨inhabited, rfl⟩ := PortGroup.kept_eq_some_iff.mp isKept
  exact inhabited

end PortTable

namespace VhostTable

variable {t after : VhostTable} {route : VhostRoute} {routes : List VhostRoute} {domain proxyName : List Char}
  {client : Nat} {stays : VhostRoute → Bool}

theorem lookup_list_exact {key : List Char} {found : List VhostRoute}
    (isFound : (t.list domain routes).exact.lookup key = some found) :
    suffixOf key = none ∨ t.exact.lookup key = some found := by
  rw [list] at isFound
  split at isFound
  · exact .inr isFound
  next noSuffix =>
    rw [lookup_insert_eq] at isFound
    split at isFound
    next same => exact .inl (same ▸ noSuffix)
    · exact .inr isFound

theorem Tidy.register (tidy : t.Tidy) (isAfter : t.register route = .ok after) : after.Tidy := by
  obtain ⟨-, rfl⟩ := register_eq_ok_iff.mp isAfter
  refine ⟨fun domain => ?_, fun key found isFound => ?_⟩
  · rw [listed_list]
    split
    · simp [VhostRoute.enlist]
    · exact tidy.inhabited domain
  · exact (lookup_list_exact isFound).elim id (tidy.exact key found)

theorem Tidy.registerAll (tidy : t.Tidy) : (t.registerAll routes).1.Tidy := by
  induction routes generalizing t with
  | nil => exact tidy
  | cons head rest ih =>
    rw [VhostTable.registerAll]
    cases isRegistered : t.register head with
    | error reason => exact tidy
    | ok after => exact ih (tidy.register isRegistered)

theorem listed_prune : (VhostTable.mk (prune stays t.exact) (prune stays t.wildcard)).listed domain =
    ((t.listed domain).map (List.filter stays)).filter (· ≠ []) := by
  rw [listed, listed]
  split <;> exact lookup_prune ..

theorem Tidy.prune (tidy : t.Tidy) (stays : VhostRoute → Bool) :
    (VhostTable.mk (prune stays t.exact) (prune stays t.wildcard)).Tidy where
  inhabited domain isEmpty := by
    rw [listed_prune] at isEmpty
    exact of_decide_eq_true (Option.filter_eq_some_iff.mp isEmpty).2 rfl
  exact key routes found := by
    rw [lookup_prune] at found
    obtain ⟨old, isOld, -⟩ := Option.map_eq_some_iff.mp (Option.filter_eq_some_iff.mp found).1
    exact tidy.exact key old isOld

theorem listed_removeProxy_of_absent (tidy : t.Tidy)
    (absent : ∀ route, t.Has route → ¬(route.client = client ∧ route.proxyName = proxyName)) :
    (t.removeProxy client proxyName).listed = t.listed := by
  funext domain
  rw [removeProxy, listed_prune]
  cases isListed : t.listed domain with
  | none => rfl
  | some routes =>
    have all : routes.filter (fun route => ¬(route.client = client ∧ route.proxyName = proxyName)) = routes := by
      refine List.filter_eq_self.mpr fun route isRoute => decide_eq_true (absent route ?_)
      exact has_of_listed (by rwa [isListed])
    rw [Option.map_some, all]
    exact Option.filter_eq_some_iff.mpr ⟨rfl, decide_eq_true fun empty => tidy.inhabited domain (empty ▸ isListed)⟩

theorem listed_removeProxy_registerAll (tidy : t.Tidy)
    (absent : ∀ route, t.Has route → ¬(route.client = client ∧ route.proxyName = proxyName))
    (one : VhostRoute.OneProxy routes) (own : ∀ route ∈ routes, route.client = client ∧ route.proxyName = proxyName) :
    ((t.registerAll routes).1.removeProxy client proxyName).listed = t.listed := by
  rw [← listed_removeProxy_of_absent tidy absent]
  funext domain
  rw [removeProxy, listed_prune, removeProxy, listed_prune]
  rcases @listed_registerAll t routes one domain with ⟨route, isEntered, -, isListed⟩ | ⟨-, isListed⟩
  · have isOwn := own route ((List.takeWhile_sublist _).subset isEntered)
    rw [isListed, Option.map_some]
    have others : (route.enlist ((t.listed domain).getD [])).filter
        (fun route => ¬(route.client = client ∧ route.proxyName = proxyName)) =
          ((t.listed domain).getD []).filter (fun route => ¬(route.client = client ∧ route.proxyName = proxyName)) := by
      rw [VhostRoute.enlist, List.filter_append, List.filter_filter, List.filter_singleton]
      simp [VhostRoute.SameProxy, isOwn]
    rw [others]
    cases t.listed domain with
    | none => rfl
    | some old => rfl
  · rw [isListed]

theorem has_iff_listed (tidy : t.Tidy) : t.Has route ↔ ∃ domain routes, t.listed domain = some routes ∧ route ∈ routes := by
  constructor
  · rintro (⟨key, routes, found, isRoute⟩ | ⟨key, routes, found, isRoute⟩)
    · refine ⟨key, routes, ?_, isRoute⟩
      rw [listed, tidy.exact key routes found]
      exact found
    · exact ⟨'*' :: '.' :: key, routes, found, isRoute⟩
  · rintro ⟨domain, routes, isListed, isRoute⟩
    exact has_of_listed (by rwa [isListed])

end VhostTable

namespace Tables

theorem stable_tidy (user : Nat → String) (ids : RunIds) (client : Nat) (name : String) :
    Stable user ids client name PortTable.Tidy VhostTable.Tidy fun _ => True where
  reserve tidy := tidy.reservePort
  attach tidy := tidy.attachListener
  release tidy := tidy.releasePort
  enter _ tidy := tidy.registerAll
  takeOut tidy := tidy.prune _
  name _ _ _ _ := trivial
  unname _ := trivial

variable {cfg : ServerConfig} {user : Nat → String} {ids : RunIds} {net : Net} {client : Nat} {m : NewProxy}
  {t after : Tables} {addr : String}

theorem clients_registerVisitorProxy {kind : String}
    (registered : t.registerVisitorProxy user client m kind = (after, .ok addr)) :
    ∃ addr, after.clients = Function.update t.clients client ((t.clients client).enter m addr) := by
  rw [registerVisitorProxy] at registered
  split at registered
  · cases (Prod.mk.inj registered).2
  · split at registered
    · cases (Prod.mk.inj registered).2
    · obtain ⟨rfl, -⟩ := Prod.mk.inj registered
      exact ⟨_, rfl⟩

/-- The port is the client's alone, or shared with the group that had it. -/
theorem registerTcp_eq_ok (registered : t.registerTcp cfg user ids net client m = (after, .ok addr)) :
    ∃ ports remoteAddr, after = ({ t with ports } : Tables).enter client m remoteAddr ∧
      ((t.ports m.remotePort = none ∧ ∃ handle, ports = PortTable.attachListener m.remotePort handle
          (Function.update t.ports m.remotePort (some (.new m.group m.groupKey (user client) client m.proxyName)))) ∨
        ∃ g, t.ports m.remotePort = some g ∧
          ports = Function.update t.ports m.remotePort (some (g.push ids client m.proxyName))) := by
  rw [registerTcp] at registered
  split at registered
  · cases (Prod.mk.inj registered).2
  rcases @PortTable.reservePort_cases user ids t.ports m.remotePort client m.group m.groupKey m.proxyName with
    ⟨vacant, isFresh⟩ | ⟨g, found, -, isJoined⟩ | ⟨g, -, -, isTaken⟩
  · simp only [isFresh] at registered
    split at registered
    · cases (Prod.mk.inj registered).2
    · split at registered
      · cases (Prod.mk.inj registered).2
      · exact ⟨_, _, (Prod.mk.inj registered).1.symm, .inl ⟨vacant, _, rfl⟩⟩
  · simp only [isJoined] at registered
    exact ⟨_, _, (Prod.mk.inj registered).1.symm, .inr ⟨g, found, rfl⟩⟩
  · simp only [isTaken] at registered
    cases (Prod.mk.inj registered).2

theorem registerUdp_eq_ok (registered : t.registerUdp cfg user ids net client m = (after, .ok addr)) :
    ∃ ports remoteAddr, after = ({ t with ports } : Tables).enter client m remoteAddr ∧
      t.ports m.remotePort = none ∧ ∃ handle, ports = PortTable.attachListener m.remotePort handle
        (Function.update t.ports m.remotePort (some (.new m.group m.groupKey (user client) client m.proxyName))) := by
  rw [registerUdp] at registered
  split at registered
  · cases (Prod.mk.inj registered).2
  rcases @PortTable.reservePort_cases user ids t.ports m.remotePort client m.group m.groupKey m.proxyName with
    ⟨vacant, isFresh⟩ | ⟨g, -, -, isJoined⟩ | ⟨g, -, -, isTaken⟩
  · simp only [isFresh] at registered
    split at registered
    · cases (Prod.mk.inj registered).2
    · exact ⟨_, _, (Prod.mk.inj registered).1.symm, vacant, _, rfl⟩
  · simp only [isJoined] at registered
    cases (Prod.mk.inj registered).2
  · simp only [isTaken] at registered
    cases (Prod.mk.inj registered).2

theorem clients_registerTcp (registered : t.registerTcp cfg user ids net client m = (after, .ok addr)) :
    ∃ addr, after.clients = Function.update t.clients client ((t.clients client).enter m addr) := by
  obtain ⟨_, remoteAddr, rfl, -⟩ := registerTcp_eq_ok registered
  exact ⟨remoteAddr, rfl⟩

theorem clients_registerUdp (registered : t.registerUdp cfg user ids net client m = (after, .ok addr)) :
    ∃ addr, after.clients = Function.update t.clients client ((t.clients client).enter m addr) := by
  obtain ⟨_, remoteAddr, rfl, -⟩ := registerUdp_eq_ok registered
  exact ⟨remoteAddr, rfl⟩

theorem clients_registerVhost {kind : VhostKind} (registered : t.registerVhost cfg client m kind = (after, .ok addr)) :
    ∃ addr, after.clients = Function.update t.clients client ((t.clients client).enter m addr) := by
  rw [registerVhost] at registered
  split at registered
  · cases (Prod.mk.inj registered).2
  · split at registered
    · cases (Prod.mk.inj registered).2
    · obtain ⟨rfl, -⟩ := Prod.mk.inj registered
      exact ⟨_, rfl⟩

theorem clients_registerKind (registered : t.registerKind cfg user ids net client m = (after, .ok addr)) :
    ∃ addr, after.clients = Function.update t.clients client ((t.clients client).enter m addr) := by
  rw [registerKind] at registered
  split at registered
  · exact clients_registerTcp registered
  · exact clients_registerUdp registered
  · exact clients_registerVhost registered
  · exact clients_registerVhost registered
  · exact clients_registerVhost registered
  · exact clients_registerVisitorProxy registered
  · exact clients_registerVisitorProxy registered
  · exact clients_registerVisitorProxy registered
  · cases (Prod.mk.inj registered).2

theorem clients_registerAfresh {outcome : String × Bool}
    (registered : t.registerAfresh cfg user ids net client m = (after, .ok outcome)) :
    ∃ addr, after.clients = Function.update t.clients client ((t.clients client).enter m addr) := by
  obtain ⟨-, _, _, _, -, isRegistered⟩ := registerAfresh_eq_ok registered
  obtain ⟨addr, isEntered⟩ := clients_registerKind isRegistered
  exact ⟨addr, isEntered⟩

theorem isSome_adopt {proxies : Proxies} {name signature : String} (present : (proxies.entries.lookup name).isSome) :
    ((proxies.adopt name signature addr).entries.lookup name).isSome := by
  obtain ⟨entry, found⟩ := Option.isSome_iff_exists.mp present
  rw [Proxies.adopt, found]
  exact Option.isSome_of_eq_some (AList.lookup_insert _)

theorem isSome_registerProxy {outcome : String × Bool}
    (registered : t.registerProxy cfg user ids net client m = (after, .ok outcome)) :
    ((after.clients client).entries.lookup m.proxyName).isSome := by
  have afresh : ∀ {t : Tables}, t.registerAfresh cfg user ids net client m = (after, .ok outcome) →
      ((after.clients client).entries.lookup m.proxyName).isSome := by
    intro t registered
    obtain ⟨addr, isEntered⟩ := clients_registerAfresh registered
    rw [isEntered, Function.update_self]
    exact Option.isSome_of_eq_some (AList.lookup_insert _)
  rw [registerProxy] at registered
  split at registered
  · cases (Prod.mk.inj registered).2
  dsimp only at registered
  split at registered
  next isReused =>
    obtain ⟨rfl, -⟩ := Prod.mk.inj registered
    show ((Function.update t.clients client _ client).entries.lookup m.proxyName).isSome
    rw [Function.update_self]
    refine isSome_adopt ?_
    split at isReused
    · obtain ⟨entry, isEntry, -⟩ := Option.map_eq_some_iff.mp isReused
      exact Option.isSome_of_eq_some (Option.filter_eq_some_iff.mp isEntry).1
    · cases isReused
  · split at registered
    · exact afresh registered
    · exact afresh registered

/-- To close the proxy takes out what was entered for it beside its entry. -/
structure Reverts (ids : RunIds) (client : Nat) (m : NewProxy) (before after : Tables) : Prop where
  slots : after.slots = before.slots
  ports : (m.entry.port.elim after.ports fun port => after.ports.releasePort ids port client m.proxyName) = before.ports
  routes : (after.vhosts.map (VhostTable.removeProxy client m.proxyName.toList)).map VhostTable.listed =
    before.vhosts.map VhostTable.listed
  visitors : after.visitors.remove client m.proxyName = before.visitors

theorem visitors_remove_of_absent {visitors : VisitorTable} {name : String}
    (absent : ∀ visitor ∈ visitors name, visitor.client ≠ client) : visitors.remove client name = visitors := by
  rw [VisitorTable.remove, Function.update_eq_iff]
  refine ⟨?_, fun _ _ => rfl⟩
  cases found : visitors name with
  | none => rfl
  | some visitor => exact Option.filter_eq_some_iff.mpr ⟨rfl, decide_eq_true (absent visitor found)⟩

theorem routes_removeProxy_of_absent (tidy : t.Tidy) {name : List Char}
    (absent : ∀ table ∈ t.vhosts, ∀ route, table.Has route → ¬(route.client = client ∧ route.proxyName = name)) :
    (t.vhosts.map (VhostTable.removeProxy client name)).map VhostTable.listed = t.vhosts.map VhostTable.listed := by
  cases isTable : t.vhosts with
  | none => rfl
  | some table =>
    refine congrArg some (VhostTable.listed_removeProxy_of_absent (tidy.vhosts table isTable) fun route => ?_)
    exact absent table isTable route

theorem reverts_visitor (gone : t.Gone client m.proxyName m.entry) (noPort : ¬isPortType m.proxyType) {kind : String}
    (tidy : t.Tidy) (registered : t.registerVisitorProxy user client m kind = (after, .ok addr)) :
    Reverts ids client m t after := by
  rw [registerVisitorProxy] at registered
  split at registered
  · cases (Prod.mk.inj registered).2
  · split at registered
    · cases (Prod.mk.inj registered).2
    next visitors isEntered =>
      obtain ⟨rfl, -⟩ := Prod.mk.inj registered
      rw [VisitorTable.register] at isEntered
      split at isEntered
      · cases isEntered
      next vacant =>
        obtain rfl := Except.ok.inj isEntered
        refine ⟨rfl, ?_, routes_removeProxy_of_absent tidy gone.routes, ?_⟩
        · rw [NewProxy.entry, if_neg noPort]
          rfl
        · show VisitorTable.remove (Function.update t.visitors m.proxyName _) client m.proxyName = t.visitors
          rw [VisitorTable.remove, Function.update_self, Function.update_idem, Function.update_eq_iff]
          refine ⟨?_, fun _ _ => rfl⟩
          rw [vacant]
          simp

theorem reverts_port (gone : t.Gone client m.proxyName m.entry) (takesPort : isPortType m.proxyType) (tidy : t.Tidy)
    {ports : PortTable} (released : ports.releasePort ids m.remotePort client m.proxyName = t.ports) (remoteAddr : String) :
    Reverts ids client m t (({ t with ports } : Tables).enter client m remoteAddr) := by
  refine ⟨rfl, ?_, routes_removeProxy_of_absent tidy gone.routes, visitors_remove_of_absent gone.visitor⟩
  rw [NewProxy.entry, if_pos takesPort]
  exact released

theorem reverts_tcp (gone : t.Gone client m.proxyName m.entry) (isTcp : isPortType m.proxyType) (tidy : t.Tidy)
    (registered : t.registerTcp cfg user ids net client m = (after, .ok addr)) : Reverts ids client m t after := by
  obtain ⟨_, remoteAddr, rfl, ⟨vacant, _, rfl⟩ | ⟨g, found, rfl⟩⟩ := registerTcp_eq_ok registered
  · exact reverts_port gone isTcp tidy (PortTable.releasePort_attached vacant) remoteAddr
  · refine reverts_port gone isTcp tidy ?_ remoteAddr
    have absent : ⟨client, m.proxyName⟩ ∉ t.ports.members m.remotePort := gone.port m.remotePort (if_pos isTcp)
    rw [PortTable.members_of_some found] at absent
    rw [PortTable.releasePort_push, PortTable.update_remove_eq_iff found]
    exact ⟨absent, tidy.ports _ g found⟩

theorem reverts_udp (gone : t.Gone client m.proxyName m.entry) (isUdp : isPortType m.proxyType) (tidy : t.Tidy)
    (registered : t.registerUdp cfg user ids net client m = (after, .ok addr)) : Reverts ids client m t after := by
  obtain ⟨_, remoteAddr, rfl, vacant, _, rfl⟩ := registerUdp_eq_ok registered
  exact reverts_port gone isUdp tidy (PortTable.releasePort_attached vacant) remoteAddr

theorem reverts_vhost (gone : t.Gone client m.proxyName m.entry) (noPort : ¬isPortType m.proxyType) (tidy : t.Tidy)
    {kind : VhostKind} (registered : t.registerVhost cfg client m kind = (after, .ok addr)) :
    Reverts ids client m t after := by
  rw [registerVhost] at registered
  split at registered
  · cases (Prod.mk.inj registered).2
  next port table domains isRequest =>
    have isTable : t.vhosts = some table := (of_vhostRequest isRequest).1
    split at registered
    · cases (Prod.mk.inj registered).2
    next entered isEntered =>
      obtain ⟨rfl, -⟩ := Prod.mk.inj registered
      refine ⟨rfl, ?_, ?_, visitors_remove_of_absent gone.visitor⟩
      · rw [NewProxy.entry, if_neg noPort]
        rfl
      · rw [isTable]
        refine congrArg some ?_
        have isAfter := congrArg Prod.fst isEntered
        rw [← show (table.registerAll (domains.map (vhostRoute client m kind))).1 = entered from isAfter]
        refine VhostTable.listed_removeProxy_registerAll (tidy.vhosts table isTable) (gone.routes table isTable)
          (oneProxy_vhostRoutes client m kind domains) fun route isRoute => ?_
        obtain ⟨domain, -, rfl⟩ := List.mem_map.mp isRoute
        exact ⟨rfl, rfl⟩

theorem reverts_kind (gone : t.Gone client m.proxyName m.entry) (tidy : t.Tidy)
    (registered : t.registerKind cfg user ids net client m = (after, .ok addr)) : Reverts ids client m t after := by
  rw [registerKind] at registered
  split at registered
  next isType => exact reverts_tcp gone (by rw [isType]; decide +kernel) tidy registered
  next isType => exact reverts_udp gone (by rw [isType]; decide +kernel) tidy registered
  next isType => exact reverts_vhost gone (by rw [isType]; decide +kernel) tidy registered
  next isType => exact reverts_vhost gone (by rw [isType]; decide +kernel) tidy registered
  next isType => exact reverts_vhost gone (by rw [isType]; decide +kernel) tidy registered
  next isType => exact reverts_visitor gone (by rw [isType]; decide +kernel) tidy registered
  next isType => exact reverts_visitor gone (by rw [isType]; decide +kernel) tidy registered
  next isType => exact reverts_visitor gone (by rw [isType]; decide +kernel) tidy registered
  · cases (Prod.mk.inj registered).2

theorem closeProxy_fst {name : String} : (t.closeProxy ids client name).1 = (t.closeProxyByName ids client name).1 := by
  rw [closeProxy, closeProxyByName]
  dsimp only
  cases (t.clients client).entries.lookup name with
  | none => rfl
  | some entry =>
    dsimp only
    cases entry.port with
    | none => rfl
    | some port => rfl

theorem lookup_enter : ((t.clients client).enter m addr).entries.lookup m.proxyName =
    some { m.entry with remoteAddr := addr, signature := proxySignature m, seenEpoch := (t.clients client).resumeEpoch } :=
  AList.lookup_insert _

theorem stopProxy_enter (unlisted : (t.clients client).entries.lookup m.proxyName = none) :
    ((t.clients client).enter m addr).stopProxy m.proxyName = t.clients client := by
  rw [Proxies.stopProxy, Proxies.enter]
  have same : (AList.insert m.proxyName
      { m.entry with remoteAddr := addr, signature := proxySignature m, seenEpoch := (t.clients client).resumeEpoch }
      (t.clients client).entries).erase m.proxyName = (t.clients client).entries := by
    have isNew : m.proxyName ∉ (t.clients client).entries := AList.lookup_eq_none.mp unlisted
    apply AList.ext
    rw [AList.insert_of_notMem isNew]
    exact List.kerase_cons_eq rfl
  rw [same]

theorem Reverts.same (reverts : Reverts ids client m t after) (isEntered : after.clients = Function.update t.clients client ((t.clients client).enter m addr))
    (gone : t.Gone client m.proxyName m.entry) {permit : Permit} {before : Tables} {limit : Limit}
    (acquired : (before.slots client).tryAcquire = some (permit, limit))
    (isTaken : t = { before with slots := Function.update before.slots client limit }) :
    (after.closeProxyByName ids client m.proxyName).1.Same before := by
  have ofClient : after.clients client = (t.clients client).enter m addr := by
    rw [isEntered]
    exact Function.update_self ..
  have stopped : Function.update after.clients client ((after.clients client).stopProxy m.proxyName) = t.clients := by
    rw [ofClient, stopProxy_enter gone.unlisted, isEntered]
    exact (Function.update_idem ..).trans (Function.update_eq_self ..)
  have slots := slots_giveBack acquired (reverts.slots.trans (congrArg Tables.slots isTaken))
  have ports := reverts.ports
  rw [closeProxyByName]
  simp only [ofClient, lookup_enter]
  subst isTaken
  cases isPort : m.entry.port with
  | none =>
    rw [isPort] at ports
    exact ⟨ports, reverts.routes, reverts.visitors, ofClient ▸ stopped, slots⟩
  | some port =>
    rw [isPort] at ports
    exact ⟨ports, reverts.routes, reverts.visitors, ofClient ▸ stopped, slots⟩

theorem same_closeProxyByName_registerAfresh (gone : t.Gone client m.proxyName m.entry) (tidy : t.Tidy)
    {outcome : String × Bool} (registered : t.registerAfresh cfg user ids net client m = (after, .ok outcome)) :
    (after.closeProxyByName ids client m.proxyName).1.Same t := by
  obtain ⟨-, permit, limit, addr, acquired, isRegistered⟩ := registerAfresh_eq_ok registered
  have taken : ({ t with slots := Function.update t.slots client limit } : Tables).Gone client m.proxyName m.entry :=
    ⟨gone.unlisted, gone.port, gone.routes, gone.visitor⟩
  obtain ⟨addr, isEntered⟩ := clients_registerKind isRegistered
  exact (reverts_kind taken ⟨tidy.ports, tidy.vhosts, tidy.visitors⟩ isRegistered).same isEntered taken acquired rfl

theorem same_closeProxyByName_registerProxy (gone : t.Gone client m.proxyName m.entry) (tidy : t.Tidy)
    {outcome : String × Bool} (registered : t.registerProxy cfg user ids net client m = (after, .ok outcome)) :
    (after.closeProxyByName ids client m.proxyName).1.Same t := by
  have reusesNothing : (if (t.clients client).resumedSession then
      (t.clients client).reusableProxy m.proxyName (proxySignature m) else none) = none := by
    rw [Proxies.reusableProxy, gone.unlisted]
    exact ite_self _
  rw [registerProxy] at registered
  split at registered
  · cases (Prod.mk.inj registered).2
  · dsimp only at registered
    rw [reusesNothing, gone.unlisted] at registered
    exact same_closeProxyByName_registerAfresh gone tidy registered

theorem Same.gone {name : String} {entry : ProxyEntry} (same : after.Same t) (tidy : t.Tidy) (isTidy : after.Tidy)
    (gone : after.Gone client name entry) : t.Gone client name entry where
  unlisted := same.clients ▸ gone.unlisted
  port := same.ports ▸ gone.port
  routes table isTable route has := by
    have tables := same.routes
    rw [isTable] at tables
    obtain ⟨other, isOther, listed⟩ := Option.map_eq_some_iff.mp tables
    refine gone.routes other isOther route ?_
    rw [VhostTable.has_iff_listed (isTidy.vhosts other isOther), listed]
    exact (VhostTable.has_iff_listed (tidy.vhosts table isTable)).mp has
  visitor := same.visitors ▸ gone.visitor

theorem stopProxy_of_absent {proxies : Proxies} {name : String} (absent : proxies.entries.lookup name = none) :
    proxies.stopProxy name = proxies := by
  have notListed : name ∉ proxies.entries.keys := AList.lookup_eq_none.mp absent
  have erased : proxies.entries.erase name = proxies.entries := AList.ext (List.kerase_of_notMem_keys notListed)
  rw [Proxies.stopProxy, erased]

theorem clients_closeProxyByName {name : String} : (t.closeProxyByName ids client name).1.clients =
    Function.update t.clients client ((t.clients client).stopProxy name) := by
  rw [closeProxyByName]
  dsimp only
  cases found : (t.clients client).entries.lookup name with
  | none => rw [stopProxy_of_absent found, Function.update_eq_self]
  | some entry =>
    cases isPort : entry.port with
    | none =>
      dsimp only
      rw [isPort]
      rfl
    | some port =>
      dsimp only
      rw [isPort]
      rfl

theorem isSome_closeProxyByName {name other : String} (different : other ≠ name)
    (present : ((t.clients client).entries.lookup other).isSome) :
    (((t.closeProxyByName ids client name).1.clients client).entries.lookup other).isSome := by
  rw [clients_closeProxyByName, Function.update_self, Proxies.stopProxy, AList.lookup_erase_ne different]
  exact present

end Tables

namespace Lifecycle

structure Enduring (kept : Tables → Prop) : Prop where
  cleanup : ∀ {t : Tables} {ids client}, kept t → kept (t.cleanupClient ids client)
  release : ∀ {t : Tables} {ids client}, kept t → kept { t with ports := t.ports.releasePortsOf ids client }

section Enduring

variable {kept : Tables → Prop} {ids : RunIds} {now client : Nat} {r : Registry} {id : Nlink.ConnectionId}
  {entry : SuspendedSession} {slot : Option Nat} {runId user clientId : String} (enduring : Enduring kept)

namespace Registry

theorem kept_dropSlot (holds : kept r.tables) : kept (r.dropSlot slot).tables := by
  rw [tables_dropSlot]
  exact holds

include enduring

theorem kept_remove (holds : kept r.tables) : kept (r.remove ids runId).tables := by
  rw [remove]
  split
  · exact holds
  · exact enduring.cleanup holds

theorem kept_kick (holds : kept r.tables) : kept (r.kick ids runId).tables := by
  rw [kick]
  split
  · exact holds
  · exact enduring.release (kept_remove enduring holds)

theorem kept_reclaimSuspended (holds : kept r.tables) : kept (r.reclaimSuspended ids entry).tables :=
  kept_dropSlot (enduring.cleanup holds)

theorem kept_sweepSuspended (holds : kept r.tables) : kept (r.sweepSuspended ids now).tables := by
  have reclaimed : ∀ (entries : List SuspendedSession) (r : Registry), kept r.tables →
      kept (entries.foldl (fun r entry => r.reclaimSuspended ids entry) r).tables := by
    intro entries
    induction entries with
    | nil => exact fun r holds => holds
    | cons entry rest ih =>
      exact fun r holds => ih _ (kept_reclaimSuspended enduring holds)
  exact reclaimed _ _ holds

theorem kept_suspend (holds : kept r.tables) : kept (r.suspend ids now id entry).1.tables := by
  have swept : kept (r.sweepSuspended ids now).tables := kept_sweepSuspended enduring holds
  rw [suspend]
  split
  · split
    · exact kept_reclaimSuspended enduring swept
    · exact kept_dropSlot swept
  · exact swept

theorem kept_takeSuspendedIf (holds : kept r.tables) : kept (r.takeSuspendedIf ids now id user clientId).1.tables := by
  rw [takeSuspendedIf]
  split
  · exact holds
  · split_ifs
    · exact kept_reclaimSuspended enduring holds
    · exact holds
    · exact holds

end Registry

namespace State

theorem kept_onHeld {s : State} {held : Held} {call : List Held → State} (holds : kept s.registry.tables)
    (each : ∀ rest, kept (call rest).registry.tables) : kept (s.onHeld held call).registry.tables := by
  rw [onHeld]
  split
  · exact each _
  · exact holds

include enduring

theorem kept_step {s : State} (event : Event) (holds : kept s.registry.tables)
    (registers : ∀ cfg user ids net client m, event = .newProxy cfg user ids net client m →
      kept (s.registry.tables.registerProxy cfg user ids net client m).1)
    (closes : ∀ ids client name, event = .closeProxy ids client name →
      kept (s.registry.tables.closeProxyByName ids client name).1)
    (rebinds : ∀ ids entry, event = .reattach ids entry → .taken entry ∈ s.hand →
      kept (s.registry.tables.rebindControl entry.client)) :
    kept (s.step event).registry.tables := by
  cases event with
  | elapsed time => exact holds
  | register ids =>
    rw [step, register, Registry.insert]
    split
    · exact holds
    next isInserted =>
      split at isInserted
      · cases (Prod.mk.inj isInserted).2
      · obtain ⟨rfl, -⟩ := Prod.mk.inj isInserted
        exact holds
  | newProxy cfg user ids net client m => exact registers cfg user ids net client m rfl
  | closeProxy ids client name => exact closes ids client name rfl
  | detach runId client slot =>
    refine kept_onHeld holds fun rest => ?_
    rw [Registry.detach]
    split
    · exact holds
    next isDetached =>
      split at isDetached
      · cases (Prod.mk.inj isDetached).2
      · obtain ⟨rfl, -⟩ := Prod.mk.inj isDetached
        exact holds
  | suspend ids id runId client slot user clientId ttl =>
    refine kept_onHeld holds fun rest => ?_
    have suspended := @Registry.kept_suspend kept ids s.clock s.registry id
      ⟨client, slot, runId, user, clientId, s.clock + ttl⟩ enduring holds
    split
    next isSuspended =>
      rw [isSuspended] at suspended
      exact suspended
    next isSuspended =>
      rw [isSuspended] at suspended
      exact suspended
  | take ids id user clientId =>
    have taken := @Registry.kept_takeSuspendedIf kept ids s.clock s.registry id user clientId enduring holds
    rw [step]
    split
    next isTaken =>
      rw [isTaken] at taken
      exact taken
    next isTaken =>
      rw [isTaken] at taken
      exact taken
  | reattach ids entry =>
    rw [step, onHeld]
    split
    next isHeld => exact rebinds ids entry rfl isHeld
    · exact holds
  | putBack ids id entry => exact kept_onHeld holds fun rest => Registry.kept_suspend enduring holds
  | reclaim ids entry => exact kept_onHeld holds fun rest => Registry.kept_reclaimSuspended enduring holds
  | fail runId client slot => exact kept_onHeld holds fun rest => Registry.kept_dropSlot holds
  | sweep ids => exact Registry.kept_sweepSuspended enduring holds
  | kick ids runId => exact Registry.kept_kick enduring holds
  | unregister ids runId client slot =>
    exact kept_onHeld holds fun rest => Registry.kept_dropSlot (Registry.kept_remove enduring holds)
  | leave ids runId => exact kept_onHeld holds fun rest => Registry.kept_remove enduring holds

end State

end Enduring

/-- Whatever a client enters and takes out, or leaves when it goes, it still holds. -/
structure Upheld (ports : PortTable → Prop) (vhosts : VhostTable → Prop) (visitors : VisitorTable → Prop) : Prop where
  stable : ∀ user ids client name, Tables.Stable user ids client name ports vhosts visitors
  releaseAll : ∀ {t : PortTable} {ids client}, ports t → ports (t.releasePortsOf ids client)
  unregister : ∀ {t : VhostTable} {client}, vhosts t → vhosts (t.unregisterClient client)
  unnameAll : ∀ {t : VisitorTable} {client}, visitors t → visitors (t.unregisterClient client)

section Upheld

variable {ports : PortTable → Prop} {vhosts : VhostTable → Prop} {visitors : VisitorTable → Prop}

theorem Upheld.enduring (upheld : Upheld ports vhosts visitors) : Enduring fun t => t.Holds ports vhosts visitors where
  cleanup holds := by
    refine ⟨upheld.releaseAll holds.ports, fun table isTable => ?_, upheld.unnameAll holds.visitors⟩
    obtain ⟨old, isOld, rfl⟩ := Option.mem_map.mp isTable
    exact upheld.unregister (holds.vhosts old isOld)
  release holds := ⟨upheld.releaseAll holds.ports, holds.vhosts, holds.visitors⟩

theorem Upheld.step (upheld : Upheld ports vhosts visitors) {s : State} (event : Event)
    (holds : s.registry.tables.Holds ports vhosts visitors) :
    (s.step event).registry.tables.Holds ports vhosts visitors := by
  refine State.kept_step upheld.enduring event holds ?_ ?_ ?_
  · rintro cfg user ids net client m -
    exact holds.registerProxy (upheld.stable user ids client m.proxyName)
  · rintro ids client name -
    exact holds.closeProxyByName (upheld.stable (fun _ => "") ids client name).toCloses
  · rintro ids entry - -
    exact ⟨holds.ports, holds.vhosts, holds.visitors⟩

end Upheld

theorem upheld_tidy : Upheld PortTable.Tidy VhostTable.Tidy fun _ => True where
  stable := Tables.stable_tidy
  releaseAll _ := PortTable.tidy_releasePortsOf
  unregister tidy := tidy.prune _
  unnameAll _ := trivial

theorem tidy_run (maxClients maxProxies : Nat) (vhosts : Bool) (events : List Event) :
    (run State.step (.start maxClients maxProxies vhosts) events).registry.tables.Tidy := by
  have kept : ∀ (s : State) (event : Event), s.registry.tables.Tidy → (s.step event).registry.tables.Tidy :=
    fun s event => upheld_tidy.step event
  refine @run_invariant _ _ _ (fun s : State => s.registry.tables.Tidy) kept _ ?_ events
  refine ⟨by rintro _ _ ⟨⟩, fun table isTable => ?_, trivial⟩
  cases vhosts with
  | false => cases isTable
  | true =>
    obtain rfl := Option.some.inj isTable
    refine ⟨fun domain => ?_, by rintro _ _ ⟨⟩⟩
    rw [VhostTable.listed]
    split
    · rintro ⟨⟩
    · rintro ⟨⟩

/-- A proxy that is closed by the name of its announcement leaves everything as it was, if
it is listed by that name and nothing was there for it before. -/
theorem closeProxy_undoes_iff (maxClients maxProxies : Nat) (vhosts : Bool) (events : List Event) {cfg : ServerConfig}
    {user : Nat → String} {ids : RunIds} {net : Net} {role : Role} {client : Nat} {m named : NewProxy}
    {verdict : Verdict NewProxy} {before after : Tables} {outcome : String × Bool}
    (isBefore : before = (run State.step (.start maxClients maxProxies vhosts) events).registry.tables)
    (isNamed : announced (user client) m verdict = some named)
    (registered : before.newProxy cfg user ids net role client named = (after, .ok outcome)) :
    ((after.closeProxy ids client m.proxyName).1.Gone client named.proxyName named.entry ∧
        (after.closeProxy ids client m.proxyName).1.Same before) ↔
      (announced (user client) m verdict).map (·.proxyName) = some m.proxyName ∧
        before.Gone client named.proxyName named.entry := by
  rw [isNamed, Option.map_some, Option.some_inj]
  have tidy : before.Tidy := isBefore ▸ tidy_run maxClients maxProxies vhosts events
  rw [Tables.newProxy] at registered
  split at registered
  · cases (Prod.mk.inj registered).2
  have tidyAfter : after.Tidy := by
    have kept : (before.registerProxy cfg user ids net client named).1.Tidy :=
      tidy.registerProxy (Tables.stable_tidy user ids client named.proxyName)
    rw [registered] at kept
    exact kept
  have present := Tables.isSome_registerProxy registered
  rw [Tables.closeProxy_fst]
  constructor
  · rintro ⟨gone, same⟩
    have tidyClosed : (after.closeProxyByName ids client m.proxyName).1.Tidy :=
      tidyAfter.closeProxyByName (Tables.stable_tidy user ids client named.proxyName).toCloses
    refine ⟨?_, same.gone tidy tidyClosed gone⟩
    by_contra renamed
    have stays := @Tables.isSome_closeProxyByName ids client after _ _ renamed present
    rw [gone.unlisted] at stays
    cases stays
  · rintro ⟨sameName, gone⟩
    rw [← sameName]
    obtain ⟨entry, isEntry⟩ := Option.isSome_iff_exists.mp present
    have same := Tables.same_closeProxyByName_registerProxy gone tidy registered
    refine ⟨?_, same⟩
    have closed := @Tables.gone_closeProxyByName ids client after _ _ isEntry
    exact ⟨closed.unlisted, same.ports ▸ gone.port, closed.routes, closed.visitor⟩

def shopBefore : Tables :=
  (run State.step (.start 1 5 true) [.register .counted]).registry.tables

def shopSite (name : String) : NewProxy :=
  { shopProxy "http" 0 ["a.shop"] with proxyName := name }

def shopAfter (name : String) : Tables × Except Refusal (String × Bool) :=
  shopBefore.newProxy shopConfig (fun _ => "shop") .counted (shopNet none) { name := "" } 0
    (shopSite (canonicalWireName "shop" name))

theorem closeProxy_undoes_shop :
    ((shopAfter "shop.web").1.closeProxy .counted 0 "shop.web").1.Same shopBefore := by
  have isName : canonicalWireName "shop" "shop.web" = "shop.web" := by decide +kernel
  have undoes := @closeProxy_undoes_iff 1 5 true [.register .counted] shopConfig (fun _ => "shop") .counted (shopNet none)
    { name := "" } 0 (shopSite "shop.web") (shopSite (canonicalWireName "shop" "shop.web")) .unasked shopBefore
    (shopAfter "shop.web").1 ("a.shop:8080", false) rfl rfl rfl
  refine (undoes.mpr ⟨congrArg some isName, rfl, nofun, fun table isTable route has => ?_, nofun⟩).2
  obtain rfl := Option.some.inj isTable
  rcases has with ⟨_, _, found, _⟩ | ⟨_, _, found, _⟩
  · cases found
  · cases found

/-- Announced as it is called in the settings, the site stays when it is closed. -/
theorem closeProxy_keeps_shop :
    (shopAfter "web").2 = .ok ("a.shop:8080", false) ∧
      (((shopAfter "web").1.closeProxy .counted 0 "web").1.clients 0).entries.lookup "shop.web" ≠ none ∧
      ((shopAfter "web").1.closeProxy .counted 0 "web").1.vhosts.map (fun table => (table.listed "a.shop".toList).isSome) =
        some true ∧
      ¬((shopAfter "web").1.closeProxy .counted 0 "web").1.Same shopBefore := by
  refine ⟨by decide +kernel, by decide +kernel, by decide +kernel, fun same => ?_⟩
  have entries := congrArg (fun clients => (clients 0).entries.entries.length) same.clients
  revert entries
  decide +kernel

end Lifecycle

end Nfrp
