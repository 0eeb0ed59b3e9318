import Nfrp.Server.Withdrawal

/-!
# The number of active proxies

Every path that enters a proxy or takes one out counts for itself.  What is shown is the
number of the entries as long as every path counts an entry as the others do.
-/

namespace Nfrp.Lifecycle

open Lib Nfrp.Client

/-- The registry, and the number of active proxies that is shown. -/
structure Metered where
  registry : Registry
  proxiesActive : Int := 0

namespace Metered

variable (cfg : ServerConfig) (user : Nat → String) (ids : RunIds) (net : Net) (now : Nat)

def outstanding (m : Metered) (client : Nat) : Nat := (m.registry.tables.clients client).proxyCount

def onTables (tables : Tables) (m : Metered) : Metered :=
  { m with registry := { m.registry with tables } }

def cleanupClient (client : Nat) (m : Metered) : Metered where
  registry := m.registry.cleanupClient ids client
  proxiesActive := m.proxiesActive - m.outstanding client

def remove (runId : String) (m : Metered) : Metered :=
  match m.registry.clients.lookup runId with
  | none => m
  | some client =>
    ({ m with
        registry :=
          { m.registry with
            clients := m.registry.clients.erase runId
            clientsActive := m.registry.clientsActive - 1 } } : Metered).cleanupClient ids client

def reclaimSuspended (entry : SuspendedSession) (m : Metered) : Metered :=
  let m := m.cleanupClient ids entry.client
  { m with registry := m.registry.dropSlot entry.slot }

def sweepSuspended (m : Metered) : Metered :=
  (m.registry.expired now).foldl (fun m entry => m.reclaimSuspended ids entry)
    { m with
      registry := { m.registry with suspended := dropExpired SuspendedSession.expiresAt now m.registry.suspended } }

def suspend (id : Nlink.ConnectionId) (entry : SuspendedSession) (m : Metered) : Metered × Bool :=
  let m := m.sweepSuspended ids now
  let waiting := { m.registry with suspended := m.registry.suspended.insert id entry }
  match m.registry.suspended.lookup id with
  | some old =>
    if old.client ≠ entry.client then (m.reclaimSuspended ids entry, false)
    else ({ m with registry := waiting.dropSlot old.slot }, true)
  | none => ({ m with registry := waiting }, true)

def takeSuspendedIf (id : Nlink.ConnectionId) (user clientId : String) (m : Metered) : Metered × Option SuspendedSession :=
  let taken := { m.registry with suspended := m.registry.suspended.erase id }
  match m.registry.suspended.lookup id with
  | none => (m, none)
  | some entry =>
    if entry.expiresAt ≤ now then (({ m with registry := taken } : Metered).reclaimSuspended ids entry, none)
    else if entry.user ≠ user ∨ entry.clientId ≠ clientId then (m, none)
    else ({ m with registry := taken }, some entry)

def kick (runId : String) (m : Metered) : Metered :=
  match m.registry.clients.lookup runId with
  | none => m
  | some client =>
    let m := m.remove ids runId
    m.onTables { m.registry.tables with ports := m.registry.tables.ports.releasePortsOf ids client }

/-- A proxy that is closed is counted off, whether it had a port or not. -/
def closeProxyByName (client : Nat) (name : String) (m : Metered) : Metered :=
  let (tables, closed) := m.registry.tables.closeProxyByName ids client name
  { m.onTables tables with proxiesActive := if closed then m.proxiesActive - 1 else m.proxiesActive }

def closeProxy (client : Nat) (name : String) (m : Metered) : Metered :=
  let (tables, hadPort) := m.registry.tables.closeProxy ids client name
  { m.onTables tables with proxiesActive := if hadPort then m.proxiesActive - 1 else m.proxiesActive }

def registerProxy (client : Nat) (msg : NewProxy) (m : Metered) : Metered × Except Refusal (String × Bool) :=
  if msg.proxyName = "" then (m, .error (.other "代理名为空"))
  else
    let proxies := m.registry.tables.clients client
    match if proxies.resumedSession then proxies.reusableProxy msg.proxyName (proxySignature msg) else none with
    | some addr =>
      (m.onTables (m.registry.tables.withClient client (proxies.adopt msg.proxyName (proxySignature msg) addr)),
        .ok (addr, true))
    | none =>
      let m := if (proxies.entries.lookup msg.proxyName).isSome then m.closeProxyByName ids client msg.proxyName else m
      let (tables, outcome) := m.registry.tables.registerAfresh cfg user ids net client msg
      (m.onTables tables, outcome)

def newProxy (client : Nat) (msg : NewProxy) (m : Metered) : Metered :=
  match m.registerProxy cfg user ids net client msg with
  | (m, .ok (_, false)) => { m with proxiesActive := m.proxiesActive + 1 }
  | (m, _) => m

/-- The panel closes the proxy of a client that is there, by its whole name. -/
def panelRemove (role : Role) (runId user name : String) (m : Metered) : Metered :=
  if name = "" then m
  else
    match m.registry.clients.lookup runId with
    | none => m
    | some client => if role.allowManage then m.closeProxy ids client (canonicalWireName user name) else m

variable {ids now} {m : Metered} {runId : String} {client : Nat} {id : Nlink.ConnectionId} {entry : SuspendedSession}

theorem registry_remove : (m.remove ids runId).registry = m.registry.remove ids runId := by
  rw [remove, Registry.remove]
  cases m.registry.clients.lookup runId with
  | none => rfl
  | some client => rfl

theorem registry_sweepSuspended : (m.sweepSuspended ids now).registry = m.registry.sweepSuspended ids now := by
  have reclaimed : ∀ (entries : List SuspendedSession) (m : Metered),
      (entries.foldl (fun m entry => m.reclaimSuspended ids entry) m).registry =
        entries.foldl (fun r entry => r.reclaimSuspended ids entry) m.registry := by
    intro entries
    induction entries with
    | nil => exact fun m => rfl
    | cons entry rest ih => exact fun m => ih _
  exact reclaimed _ _

theorem registry_suspend : (m.suspend ids now id entry).1.registry = (m.registry.suspend ids now id entry).1 := by
  rw [suspend, Registry.suspend, ← registry_sweepSuspended]
  dsimp only
  cases (m.sweepSuspended ids now).registry.suspended.lookup id with
  | none => rfl
  | some old =>
    dsimp only
    split
    · rfl
    · rfl

theorem registry_takeSuspendedIf {user clientId : String} :
    (m.takeSuspendedIf ids now id user clientId).1.registry = (m.registry.takeSuspendedIf ids now id user clientId).1 := by
  rw [takeSuspendedIf, Registry.takeSuspendedIf]
  dsimp only
  cases m.registry.suspended.lookup id with
  | none => rfl
  | some entry =>
    dsimp only
    split_ifs
    · rfl
    · rfl
    · rfl

theorem takeSuspendedIf_snd {user clientId : String} :
    (m.takeSuspendedIf ids now id user clientId).2 = (m.registry.takeSuspendedIf ids now id user clientId).2 := by
  rw [takeSuspendedIf, Registry.takeSuspendedIf]
  dsimp only
  cases m.registry.suspended.lookup id with
  | none => rfl
  | some entry =>
    dsimp only
    split_ifs
    · rfl
    · rfl
    · rfl

theorem registry_kick : (m.kick ids runId).registry = m.registry.kick ids runId := by
  rw [kick, Registry.kick, ← registry_remove]
  cases m.registry.clients.lookup runId with
  | none => rfl
  | some client => rfl

variable {cfg : ServerConfig} {user : Nat → String} {net : Net} {msg : NewProxy}

theorem registry_newProxy : (m.newProxy cfg user ids net client msg).registry =
    { m.registry with tables := (m.registry.tables.registerProxy cfg user ids net client msg).1 } := by
  have registered : (m.registerProxy cfg user ids net client msg).1.registry =
      { m.registry with tables := (m.registry.tables.registerProxy cfg user ids net client msg).1 } := by
    rw [registerProxy, Tables.registerProxy]
    split
    · rfl
    · dsimp only
      cases (if (m.registry.tables.clients client).resumedSession then
          (m.registry.tables.clients client).reusableProxy msg.proxyName (proxySignature msg) else none) with
      | some addr => rfl
      | none =>
        dsimp only
        split
        · rfl
        · rfl
  rw [newProxy]
  split
  next isRegistered =>
    rw [isRegistered] at registered
    exact registered
  next isRegistered =>
    rw [isRegistered] at registered
    exact registered

/-- What the clients in the tables and those in hand have. -/
def total (clients : List Nat) (m : Metered) : Nat := ((m.registry.places ++ clients).map m.outstanding).sum

/-- It is shown what they have, and nobody else has anything. -/
structure Counted (clients : List Nat) (m : Metered) : Prop where
  total : m.proxiesActive = m.total clients
  nobody : ∀ client, client ∉ m.registry.places ++ clients → m.outstanding client = 0
  once : (m.registry.places ++ clients).Nodup
  known : ∀ client ∈ m.registry.places ++ clients, client < m.registry.issued

namespace Counted

variable {clients other : List Nat} {after : Metered}

theorem move (counted : m.Counted clients) (same : (m.registry.places ++ clients).Perm (after.registry.places ++ other))
    (sameActive : after.proxiesActive = m.proxiesActive) (sameTables : after.registry.tables = m.registry.tables)
    (sameIssued : after.registry.issued = m.registry.issued) : after.Counted other := by
  have sameCounts : after.outstanding = m.outstanding := by
    unfold outstanding
    rw [sameTables]
  refine ⟨?_, fun client nowhere => ?_, same.nodup_iff.mp counted.once, fun client isThere => ?_⟩
  · rw [sameActive, counted.total, Metered.total, Metered.total, sameCounts, (same.map _).sum_nat]
  · rw [sameCounts]
    exact counted.nobody client fun isThere => nowhere (same.mem_iff.mp isThere)
  · rw [sameIssued]
    exact counted.known client (same.mem_iff.mpr isThere)

theorem perm (counted : m.Counted clients) (same : clients.Perm other) : m.Counted other :=
  counted.move (same.append_left _) rfl rfl rfl

theorem change (counted : m.Counted clients) (samePlaces : after.registry.places = m.registry.places)
    (sameIssued : after.registry.issued = m.registry.issued)
    (others : ∀ other, other ≠ client → after.outstanding other = m.outstanding other)
    (isThere : client ∈ m.registry.places ++ clients)
    (gap : after.proxiesActive + m.outstanding client = m.proxiesActive + after.outstanding client) :
    after.Counted clients := by
  refine ⟨?_, fun other nowhere => ?_, samePlaces ▸ counted.once, samePlaces ▸ sameIssued ▸ counted.known⟩
  · have changed := sum_map_update others counted.once isThere
    have total := counted.total
    rw [Metered.total] at total ⊢
    rw [samePlaces]
    omega
  · rw [samePlaces] at nowhere
    have different : other ≠ client := fun same => nowhere (same ▸ isThere)
    rw [others other different]
    exact counted.nobody other nowhere

theorem outstanding_cleanupClient :
    (m.cleanupClient ids client).outstanding = Function.update m.outstanding client 0 := by
  funext other
  show ((Function.update m.registry.tables.clients client _) other).proxyCount = _
  by_cases same : other = client
  · rw [same, Function.update_self, Function.update_self]
    rfl
  · rw [Function.update_of_ne same, Function.update_of_ne same]
    rfl

theorem cleanupClient (counted : m.Counted (client :: clients)) : (m.cleanupClient ids client).Counted clients := by
  have isPerm : (m.registry.places ++ client :: clients).Perm (client :: (m.registry.places ++ clients)) :=
    List.perm_middle
  have apart : client ∉ m.registry.places ++ clients ∧ (m.registry.places ++ clients).Nodup :=
    List.nodup_cons.mp (isPerm.nodup_iff.mp counted.once)
  refine ⟨?_, fun other nowhere => ?_, apart.2, fun other isThere => ?_⟩
  · have same : (m.registry.places ++ clients).map (Function.update m.outstanding client 0) =
        (m.registry.places ++ clients).map m.outstanding := by
      refine List.map_congr_left fun other isOther => Function.update_of_ne ?_ _ _
      exact fun same => apart.1 (same ▸ isOther)
    have total := counted.total
    rw [Metered.total, (isPerm.map _).sum_nat, List.map_cons, List.sum_cons] at total
    show m.proxiesActive - m.outstanding client = (((m.registry.places ++ clients).map _).sum : Nat)
    rw [outstanding_cleanupClient, same]
    omega
  · rw [outstanding_cleanupClient]
    by_cases same : other = client
    · rw [same, Function.update_self]
    · rw [Function.update_of_ne same]
      refine counted.nobody other fun isThere => ?_
      exact nowhere ((List.mem_cons.mp (isPerm.mem_iff.mp isThere)).resolve_left same)
  · exact counted.known other (isPerm.mem_iff.mpr (List.mem_cons_of_mem _ isThere))

theorem dropSlot (counted : m.Counted clients) (slot : Option Nat) :
    ({ m with registry := m.registry.dropSlot slot } : Metered).Counted clients := by
  refine counted.move ?_ rfl Registry.tables_dropSlot (by cases slot <;> rfl)
  have same : (m.registry.dropSlot slot).places = m.registry.places := by
    rw [Registry.places, Registry.sameMaps_dropSlot.clients, Registry.sameMaps_dropSlot.suspended, Registry.places]
  show List.Perm _ ((m.registry.dropSlot slot).places ++ clients)
  rw [same]

theorem reclaimSuspended (counted : m.Counted (entry.client :: clients)) :
    (m.reclaimSuspended ids entry).Counted clients :=
  counted.cleanupClient.dropSlot entry.slot

theorem remove (counted : m.Counted clients) : (m.remove ids runId).Counted clients := by
  rw [Metered.remove]
  split
  · exact counted
  next found =>
    refine cleanupClient ?_
    exact counted.move (Registry.perm_unlist found) rfl rfl rfl

theorem sweepSuspended (counted : m.Counted clients) : (m.sweepSuspended ids now).Counted clients := by
  have reclaimed : ∀ (entries : List SuspendedSession) (m : Metered),
      m.Counted (entries.map SuspendedSession.client ++ clients) →
        (entries.foldl (fun m entry => m.reclaimSuspended ids entry) m).Counted clients := by
    intro entries
    induction entries with
    | nil => exact fun m counted => counted
    | cons entry rest ih =>
      exact fun m counted => ih _ (reclaimSuspended counted)
  refine reclaimed _ _ ?_
  exact counted.move Registry.perm_expired rfl rfl rfl

theorem suspend (counted : m.Counted (entry.client :: clients)) : (m.suspend ids now id entry).1.Counted clients := by
  have swept : (m.sweepSuspended ids now).Counted (entry.client :: clients) := counted.sweepSuspended
  rw [Metered.suspend]
  dsimp only
  split
  next old found =>
    split
    · exact swept.reclaimSuspended
    next same =>
      -- It would be in two places.
      have twice := (Registry.perm_takeOut found).nodup_iff.mp swept.once
      rw [not_not.mp same] at twice
      exact absurd List.mem_cons_self (List.nodup_cons.mp (List.nodup_append.mp twice).2.1).1
  next vacant => exact swept.move (Registry.perm_putIn vacant) rfl rfl rfl

theorem takeSuspendedIf {user clientId : String} (counted : m.Counted clients) :
    (m.takeSuspendedIf ids now id user clientId).1.Counted
      (((m.takeSuspendedIf ids now id user clientId).2.map SuspendedSession.client).toList ++ clients) := by
  rw [Metered.takeSuspendedIf]
  dsimp only
  split
  · exact counted
  next found =>
    split_ifs
    · refine reclaimSuspended ?_
      exact counted.move (Registry.perm_takeOut found) rfl rfl rfl
    · exact counted
    · exact counted.move (Registry.perm_takeOut found) rfl rfl rfl

theorem kick (counted : m.Counted clients) : (m.kick ids runId).Counted clients := by
  rw [Metered.kick]
  split
  · exact counted
  · have removed : (m.remove ids runId).Counted clients := counted.remove
    exact ⟨removed.total, removed.nobody, removed.once, removed.known⟩

theorem of_registry (counted : m.Counted clients) {registry : Registry} (same : m.registry = registry) :
    Counted clients ⟨registry, m.proxiesActive⟩ :=
  same ▸ counted

theorem isThere (counted : m.Counted clients) {name : String} {entry : ProxyEntry}
    (found : (m.registry.tables.clients client).entries.lookup name = some entry) :
    client ∈ m.registry.places ++ clients := by
  by_contra nowhere
  have isNone : (m.registry.tables.clients client).entries.entries.length = 0 := counted.nobody client nowhere
  have isEntry := lookup_eq_some_iff.mp found
  rw [List.length_eq_zero_iff.mp isNone] at isEntry
  cases isEntry

theorem same (counted : m.Counted clients) (samePlaces : after.registry.places = m.registry.places)
    (sameIssued : after.registry.issued = m.registry.issued)
    (sameCounts : after.outstanding = m.outstanding) (sameActive : after.proxiesActive = m.proxiesActive) :
    after.Counted clients := by
  refine ⟨?_, ?_, ?_, ?_⟩
  · rw [Metered.total, samePlaces, sameCounts, sameActive]
    exact counted.total
  · rw [samePlaces, sameCounts]
    exact counted.nobody
  · rw [samePlaces]
    exact counted.once
  · rw [samePlaces, sameIssued]
    exact counted.known

end Counted

variable {name : String} {tables : Tables} {proxies : Proxies}

theorem outstanding_onTables (same : tables.clients = Function.update m.registry.tables.clients client proxies) :
    (m.onTables tables).outstanding = Function.update m.outstanding client proxies.proxyCount := by
  funext other
  show (tables.clients other).proxyCount = _
  rw [same]
  by_cases isClient : other = client
  · rw [isClient, Function.update_self, Function.update_self]
  · rw [Function.update_of_ne isClient, Function.update_of_ne isClient]
    rfl

theorem proxyCount_stopProxy {entry : ProxyEntry} (found : proxies.entries.lookup name = some entry) :
    (proxies.stopProxy name).proxyCount + 1 = proxies.proxyCount :=
  (perm_erase found).length_eq.symm

theorem proxyCount_enter {remoteAddr : String} (absent : proxies.entries.lookup msg.proxyName = none) :
    (proxies.enter msg remoteAddr).proxyCount = proxies.proxyCount + 1 :=
  (perm_insert absent).length_eq

theorem proxyCount_adopt {signature remoteAddr : String} :
    (proxies.adopt name signature remoteAddr).proxyCount = proxies.proxyCount := by
  rw [Proxies.adopt]
  split
  next entry found =>
    have inserted : (proxies.entries.insert name { entry with
        remoteAddr, signature, seenEpoch := proxies.resumeEpoch }).entries =
          ⟨name, { entry with remoteAddr, signature, seenEpoch := proxies.resumeEpoch }⟩ ::
            (proxies.entries.erase name).entries := AList.entries_insert
    show (proxies.entries.insert name _).entries.length = proxies.entries.entries.length
    rw [inserted, (perm_erase found).length_eq]
    rfl
  · rfl

theorem closeProxyByName_snd {t : Tables} :
    (t.closeProxyByName ids client name).2 = ((t.clients client).entries.lookup name).isSome := by
  rw [Tables.closeProxyByName]
  dsimp only
  cases (t.clients client).entries.lookup name with
  | none => rfl
  | some entry => rfl

theorem closeProxy_snd {t : Tables} : (t.closeProxy ids client name).2 =
    (((t.clients client).entries.lookup name).bind (·.port)).isSome := by
  rw [Tables.closeProxy]
  dsimp only
  cases (t.clients client).entries.lookup name with
  | none => rfl
  | some entry =>
    dsimp only [Option.bind_some]
    cases entry.port with
    | none => rfl
    | some port => rfl

theorem outstanding_close {active : Int} :
    ({ m.onTables (m.registry.tables.closeProxyByName ids client name).1 with proxiesActive := active } : Metered).outstanding =
      Function.update m.outstanding client ((m.registry.tables.clients client).stopProxy name).proxyCount :=
  outstanding_onTables Tables.clients_closeProxyByName

def closeOld (ids : RunIds) (client : Nat) (msg : NewProxy) (m : Metered) : Metered :=
  if ((m.registry.tables.clients client).entries.lookup msg.proxyName).isSome then
    m.closeProxyByName ids client msg.proxyName
  else m

theorem registerProxy_snd : (m.registerProxy cfg user ids net client msg).2 =
    (m.registry.tables.registerProxy cfg user ids net client msg).2 := by
  rw [registerProxy, Tables.registerProxy]
  split
  · rfl
  · dsimp only
    cases (if (m.registry.tables.clients client).resumedSession then
        (m.registry.tables.clients client).reusableProxy msg.proxyName (proxySignature msg) else none) with
    | some addr => rfl
    | none =>
      dsimp only
      split
      · rfl
      · rfl

theorem newProxy_cases :
    (m.newProxy cfg user ids net client msg = m ∧
      ∃ r, (m.registry.tables.registerProxy cfg user ids net client msg).2 = .error r) ∨
    (∃ addr, m.newProxy cfg user ids net client msg = m.onTables (m.registry.tables.withClient client
      ((m.registry.tables.clients client).adopt msg.proxyName (proxySignature msg) addr)) ∧
        ((m.registry.tables.clients client).entries.lookup msg.proxyName).isSome) ∨
    ∃ after outcome,
      (m.closeOld ids client msg).registry.tables.registerAfresh cfg user ids net client msg = (after, outcome) ∧
      (m.registry.tables.registerProxy cfg user ids net client msg).2 = outcome ∧
      m.newProxy cfg user ids net client msg = { (m.closeOld ids client msg).onTables after with
        proxiesActive := (m.closeOld ids client msg).proxiesActive + if outcome.isOk then 1 else 0 } := by
  have result := @registerProxy_snd ids m client cfg user net msg
  rw [newProxy]
  rw [registerProxy] at result ⊢
  split at result
  next unnamed =>
    rw [if_pos unnamed]
    exact .inl ⟨rfl, _, result.symm⟩
  next named =>
    rw [if_neg named]
    dsimp only at result ⊢
    cases isReused : (if (m.registry.tables.clients client).resumedSession then
        (m.registry.tables.clients client).reusableProxy msg.proxyName (proxySignature msg) else none) with
    | some addr =>
      refine .inr (.inl ⟨addr, rfl, ?_⟩)
      split at isReused
      · obtain ⟨entry, isEntry, -⟩ := Option.map_eq_some_iff.mp isReused
        exact Option.isSome_of_eq_some (Option.filter_eq_some_iff.mp isEntry).1
      · cases isReused
    | none =>
      rw [isReused] at result
      dsimp only at result ⊢
      cases registered : (m.closeOld ids client msg).registry.tables.registerAfresh cfg user ids net client msg with
      | mk after outcome =>
        rw [closeOld] at registered
        rw [registered] at result ⊢
        refine .inr (.inr ⟨after, outcome, rfl, result.symm, ?_⟩)
        cases outcome with
        | error r =>
          rw [closeOld]
          exact congrArg (Metered.mk _) (add_zero _).symm
        | ok outcome =>
          obtain ⟨addr, adopted⟩ := outcome
          obtain rfl : adopted = false := (Tables.registerAfresh_eq_ok registered).1
          rfl

namespace Counted

variable {clients : List Nat} {active : Int}

theorem close (counted : m.Counted clients)
    (isActive : active = m.proxiesActive -
      if ((m.registry.tables.clients client).entries.lookup name).isSome then 1 else 0) :
    Counted clients { m.onTables (m.registry.tables.closeProxyByName ids client name).1 with proxiesActive := active } := by
  cases found : (m.registry.tables.clients client).entries.lookup name with
  | none =>
    rw [found] at isActive
    refine counted.same rfl rfl ?_ (isActive.trans (sub_zero _))
    have unchanged : ((m.registry.tables.clients client).stopProxy name).proxyCount = m.outstanding client := by
      have absent : name ∉ (m.registry.tables.clients client).entries.keys := AList.lookup_eq_none.mp found
      exact congrArg List.length (List.kerase_of_notMem_keys absent)
    rw [outstanding_close, unchanged, Function.update_eq_self]
  | some entry =>
    rw [found] at isActive
    have fewer : ((m.registry.tables.clients client).stopProxy name).proxyCount + 1 = m.outstanding client :=
      proxyCount_stopProxy found
    refine counted.change rfl rfl (fun other different => ?_) (counted.isThere found) ?_
    · rw [outstanding_close, Function.update_of_ne different]
    · rw [outstanding_close, Function.update_self]
      show active + _ = _
      rw [isActive, ← fewer]
      simp

theorem closeProxyByName (counted : m.Counted clients) : (m.closeProxyByName ids client name).Counted clients := by
  refine counted.close ?_
  show (if (m.registry.tables.closeProxyByName ids client name).2 then _ else _) = _
  rw [closeProxyByName_snd]
  split
  · rfl
  · exact (sub_zero _).symm

theorem closeProxy (counted : m.Counted clients)
    (hadPort : ∀ entry ∈ (m.registry.tables.clients client).entries.lookup name, entry.port.isSome) :
    (m.closeProxy ids client name).Counted clients := by
  rw [Metered.closeProxy]
  dsimp only
  rw [Tables.closeProxy_fst]
  refine counted.close ?_
  rw [closeProxy_snd]
  cases found : (m.registry.tables.clients client).entries.lookup name with
  | none => exact (sub_zero _).symm
  | some entry => exact if_pos (hadPort entry found)

theorem total_closeProxy (counted : m.Counted clients) {entry : ProxyEntry}
    (found : (m.registry.tables.clients client).entries.lookup name = some entry) (noPort : ¬entry.port.isSome) :
    (m.closeProxy ids client name).proxiesActive ≠ (m.closeProxy ids client name).total clients := by
  have closed := (@close ids m client name clients _ counted rfl).total
  rw [found] at closed
  rw [Metered.closeProxy]
  dsimp only
  rw [Tables.closeProxy_fst, closeProxy_snd, found, Option.bind_some, if_neg noPort]
  intro isTotal
  have same : m.proxiesActive - 1 = m.proxiesActive := closed.trans isTotal.symm
  omega

/-- As it comes out of a registration after its old one, if there was one, is closed. -/
theorem registerAfresh (counted : m.Counted clients)
    (absent : (m.registry.tables.clients client).entries.lookup msg.proxyName = none) {after : Tables}
    {outcome : Except Refusal (String × Bool)}
    (registered : m.registry.tables.registerAfresh cfg user ids net client msg = (after, outcome))
    (isThere : client ∈ m.registry.places ++ clients ∨ ∃ r, outcome = .error r) :
    Counted clients { m.onTables after with
      proxiesActive := m.proxiesActive + if outcome.isOk then 1 else 0 } := by
  cases outcome with
  | error r =>
    have same : after.clients = m.registry.tables.clients := by
      have unchanged := Tables.clients_registerAfresh_error (congrArg Prod.snd registered)
      rwa [registered] at unchanged
    refine counted.same rfl rfl ?_ (add_zero _)
    funext other
    show (after.clients other).proxyCount = _
    rw [same]
    rfl
  | ok outcome =>
    obtain ⟨addr, isEntered⟩ := Tables.clients_registerAfresh registered
    have outstanding : (m.onTables after).outstanding =
        Function.update m.outstanding client (m.outstanding client + 1) := by
      rw [← show _ = m.outstanding client + 1 from proxyCount_enter absent]
      exact outstanding_onTables isEntered
    refine counted.change rfl rfl (fun other different => ?_) (isThere.resolve_right nofun) ?_
    · exact (congrFun outstanding other).trans (Function.update_of_ne different _ _)
    · show m.proxiesActive + 1 + m.outstanding client = m.proxiesActive + (m.onTables after).outstanding client
      rw [outstanding, Function.update_self]
      push_cast
      ring

theorem closeOld (counted : m.Counted clients) : (m.closeOld ids client msg).Counted clients := by
  rw [Metered.closeOld]
  split
  · exact counted.closeProxyByName
  · exact counted

theorem lookup_closeOld :
    ((m.closeOld ids client msg).registry.tables.clients client).entries.lookup msg.proxyName = .none := by
  rw [Metered.closeOld]
  split
  · show ((m.registry.tables.closeProxyByName ids client msg.proxyName).1.clients client).entries.lookup _ = _
    rw [Tables.clients_closeProxyByName, Function.update_self]
    exact AList.lookup_erase _ _
  next absent => exact Option.not_isSome_iff_eq_none.mp absent

theorem places_closeOld : (m.closeOld ids client msg).registry.places = m.registry.places := by
  rw [Metered.closeOld]
  split
  · rfl
  · rfl

theorem newProxy (counted : m.Counted clients)
    (isThere : client ∈ m.registry.places ++ clients ∨
      ∀ outcome, (m.registry.tables.registerProxy cfg user ids net client msg).2 ≠ .ok outcome) :
    (m.newProxy cfg user ids net client msg).Counted clients := by
  rcases @newProxy_cases ids m client cfg user net msg with
    ⟨isSame, -⟩ | ⟨addr, isAdopted, -⟩ | ⟨after, outcome, registered, result, isAfter⟩
  · rw [isSame]
    exact counted
  · rw [isAdopted]
    refine counted.same rfl rfl ?_ rfl
    rw [outstanding_onTables rfl, proxyCount_adopt]
    exact Function.update_eq_self ..
  · rw [isAfter]
    refine counted.closeOld.registerAfresh lookup_closeOld registered ?_
    rw [places_closeOld]
    refine isThere.imp_right fun refused => ?_
    cases outcome with
    | error r => exact ⟨r, rfl⟩
    | ok outcome => exact absurd result (refused outcome)

theorem total_newProxy (counted : m.Counted clients) (nowhere : client ∉ m.registry.places ++ clients)
    {outcome : String × Bool}
    (registered : (m.registry.tables.registerProxy cfg user ids net client msg).2 = .ok outcome) :
    (m.newProxy cfg user ids net client msg).proxiesActive ≠ (m.newProxy cfg user ids net client msg).total clients := by
  have isNone : (m.registry.tables.clients client).entries.lookup msg.proxyName = .none := by
    by_contra found
    obtain ⟨entry, found⟩ := Option.ne_none_iff_exists'.mp found
    exact nowhere (counted.isThere found)
  have notClosed : m.closeOld ids client msg = m := by
    rw [Metered.closeOld, isNone]
    rfl
  rcases @newProxy_cases ids m client cfg user net msg with
    ⟨-, r, refused⟩ | ⟨addr, -, present⟩ | ⟨after, result, afresh, isResult, isAfter⟩
  · cases refused.symm.trans registered
  · rw [isNone] at present
    cases present
  · obtain rfl := isResult.symm.trans registered
    rw [notClosed] at afresh isAfter
    obtain ⟨addr, isEntered⟩ := Tables.clients_registerAfresh afresh
    have same : (m.registry.places ++ clients).map (m.onTables after).outstanding =
        (m.registry.places ++ clients).map m.outstanding := by
      refine List.map_congr_left fun other isOther => ?_
      have different : other ≠ client := fun isClient => nowhere (isClient ▸ isOther)
      rw [outstanding_onTables isEntered, Function.update_of_ne different]
    rw [isAfter]
    show m.proxiesActive + 1 ≠ (((m.registry.places ++ clients).map (m.onTables after).outstanding).sum : Nat)
    have total := counted.total
    rw [Metered.total] at total
    rw [same]
    omega

end Counted

end Metered

/-- What calls the server gets: `call` is one of the calls there are otherwise, where a
proxy is closed because the connection that resumed has not asked for it. -/
inductive MeteredEvent where
  | call (event : Event)
  | closeProxy (ids : RunIds) (client : Nat) (name : String)
  | panelRemove (ids : RunIds) (role : Role) (runId user name : String)

structure MeteredState where
  life : State
  proxiesActive : Int := 0

namespace MeteredState

def metered (s : MeteredState) : Metered := ⟨s.life.registry, s.proxiesActive⟩

def onMetered (s : MeteredState) (change : Metered → Metered) : MeteredState where
  life := { s.life with registry := (change s.metered).registry }
  proxiesActive := (change s.metered).proxiesActive

def shows (s : MeteredState) : Event → Int
  | .elapsed _ | .register _ | .detach .. | .reattach .. | .fail .. => s.proxiesActive
  | .newProxy cfg user ids net client m => (s.metered.newProxy cfg user ids net client m).proxiesActive
  | .closeProxy ids client name => (s.metered.closeProxyByName ids client name).proxiesActive
  | .suspend ids id runId client slot user clientId ttl =>
    if .detached runId client slot ∈ s.life.hand then
      (s.metered.suspend ids s.life.clock id ⟨client, slot, runId, user, clientId, s.life.clock + ttl⟩).1.proxiesActive
    else s.proxiesActive
  | .take ids id user clientId => (s.metered.takeSuspendedIf ids s.life.clock id user clientId).1.proxiesActive
  | .putBack ids id entry =>
    if .taken entry ∈ s.life.hand then (s.metered.suspend ids s.life.clock id entry).1.proxiesActive
    else s.proxiesActive
  | .reclaim ids entry =>
    if .taken entry ∈ s.life.hand then (s.metered.reclaimSuspended ids entry).proxiesActive else s.proxiesActive
  | .sweep ids => (s.metered.sweepSuspended ids s.life.clock).proxiesActive
  | .kick ids runId => (s.metered.kick ids runId).proxiesActive
  | .unregister ids runId client slot =>
    if .serving runId client slot ∈ s.life.hand then (s.metered.remove ids runId).proxiesActive else s.proxiesActive
  | .leave ids runId =>
    if .leaving runId ∈ s.life.hand then (s.metered.remove ids runId).proxiesActive else s.proxiesActive

def step (s : MeteredState) : MeteredEvent → MeteredState
  | .call event => ⟨s.life.step event, s.shows event⟩
  | .closeProxy ids client name => s.onMetered (·.closeProxy ids client name)
  | .panelRemove ids role runId user name => s.onMetered (·.panelRemove ids role runId user name)

def held (s : MeteredState) : List Nat := s.life.hand.flatMap fun held => held.client?.toList

/-- The clients that are online or suspended, or on the way from one to the other. -/
def live (s : MeteredState) : List Nat := s.life.registry.places ++ s.held

structure Shown (s : MeteredState) : Prop where
  total : s.proxiesActive = (s.live.toFinset.sum s.metered.outstanding : Nat)
  notNegative : 0 ≤ s.proxiesActive

def Distinct (s : MeteredState) : MeteredEvent → Prop
  | .call event => s.life.Distinct event
  | .closeProxy .. | .panelRemove .. => True

/-- Nothing without a port is closed by the name that a client or the panel gives, and
nothing is registered for a client that is gone. -/
def Countable (s : MeteredState) : MeteredEvent → Prop
  | .call (.newProxy cfg user ids net client m) =>
    client ∈ s.live ∨ ∀ outcome, (s.life.registry.tables.registerProxy cfg user ids net client m).2 ≠ .ok outcome
  | .closeProxy _ client name =>
    ∀ entry ∈ (s.life.registry.tables.clients client).entries.lookup name, entry.port.isSome
  | .panelRemove _ role runId user name =>
    name ≠ "" → role.allowManage → ∀ client ∈ s.life.registry.clients.lookup runId,
      ∀ entry ∈ (s.life.registry.tables.clients client).entries.lookup (canonicalWireName user name), entry.port.isSome
  | _ => True

structure Inv (s : MeteredState) : Prop where
  guards : s.life.Guards
  counted : s.metered.Counted s.held

variable {s : MeteredState} {held : Held} {ids : RunIds} {runId : String} {client : Nat} {slot : Option Nat}

theorem Inv.total_eq (inv : s.Inv) : s.metered.total s.held = s.live.toFinset.sum s.metered.outstanding :=
  (List.sum_toFinset _ inv.counted.once).symm

theorem Inv.shown (inv : s.Inv) : s.Shown where
  total := inv.total_eq ▸ inv.counted.total
  notNegative := by
    have total : s.proxiesActive = _ := inv.counted.total
    rw [total]
    exact Int.natCast_nonneg _

abbrev Counts (life : State) (active : Int) : Prop :=
  (⟨life.registry, active⟩ : Metered).Counted (life.hand.flatMap fun held => held.client?.toList)

theorem counts_onHeld (inv : s.Inv) {call : List Held → State} {active shown : Int}
    (isShown : shown = if held ∈ s.life.hand then active else s.proxiesActive)
    (each : ∀ rest : List Held, s.metered.Counted (held.client?.toList ++ rest.flatMap fun held => held.client?.toList) →
      Counts (call rest) active) : Counts (s.life.onHeld held call) shown := by
  rw [isShown, State.onHeld]
  split
  next isHeld => exact each _ (inv.counted.perm ((List.perm_cons_erase isHeld).flatMap_right _))
  · exact inv.counted

theorem counts_register (inv : s.Inv) (fresh : ids.of s.life.registry.issued ∉ s.life.used) :
    Counts (s.life.register ids) s.proxiesActive := by
  rw [State.register, Registry.insert]
  cases s.life.registry.clientLimit.tryAcquire with
  | none => exact inv.counted
  | some both =>
    have isNew : s.life.registry.issued ∉ s.life.registry.places ++ s.held := fun isThere =>
      absurd (inv.counted.known _ isThere) (lt_irrefl _)
    have nothing : s.metered.outstanding s.life.registry.issued = 0 := inv.counted.nobody _ isNew
    have isPerm : (s.life.registry.places ++ s.life.registry.issued :: s.held).Perm
        (s.life.registry.issued :: (s.life.registry.places ++ s.held)) := List.perm_middle
    have issued : (⟨{ s.life.registry with issued := s.life.registry.issued + 1 }, s.proxiesActive⟩ : Metered).Counted
        (s.life.registry.issued :: s.held) := by
      refine ⟨?_, fun other nowhere => ?_, ?_, fun other isThere => ?_⟩
      · show s.proxiesActive = (((s.life.registry.places ++ _ :: s.held).map s.metered.outstanding).sum : Nat)
        rw [(isPerm.map _).sum_nat, List.map_cons, List.sum_cons, nothing, Nat.zero_add]
        exact inv.counted.total
      · exact inv.counted.nobody other fun isThere =>
          nowhere (isPerm.mem_iff.mpr (List.mem_cons_of_mem _ isThere))
      · exact isPerm.nodup_iff.mpr (List.nodup_cons.mpr ⟨isNew, inv.counted.once⟩)
      · rcases List.mem_cons.mp (isPerm.mem_iff.mp isThere) with rfl | isThere
        · exact Nat.lt_succ_self _
        · exact Nat.lt_succ_of_lt (inv.counted.known other isThere)
    refine issued.move ?_ rfl rfl rfl
    exact @Registry.perm_enlist s.held { s.life.registry with issued := s.life.registry.issued + 1 } _ _
      (s.life.registry.clientsActive + 1) (inv.guards.lookup_of_fresh fresh)

theorem counts_detach (inv : s.Inv) : Counts (s.life.step (.detach runId client slot)) s.proxiesActive := by
  rw [State.step, State.onHeld]
  split
  next isHeld =>
    have isPerm := List.perm_cons_erase isHeld
    have picked := inv.guards.perm isPerm
    rw [Registry.detach]
    cases found : s.life.registry.clients.lookup runId with
    | none => exact inv.counted
    | some listed =>
      have isListed := picked.serves _ List.mem_cons_self runId rfl listed found
      obtain rfl : client = listed := Option.some.inj isListed
      refine (inv.counted.perm (isPerm.flatMap_right _)).move ?_ rfl rfl rfl
      exact Registry.perm_unlist found
  · exact inv.counted

theorem counts_suspend (inv : s.Inv) (id : Nlink.ConnectionId) (user clientId : String) (ttl : Nat) :
    Counts (s.life.step (.suspend ids id runId client slot user clientId ttl))
      (s.shows (.suspend ids id runId client slot user clientId ttl)) := by
  refine counts_onHeld inv rfl fun rest picked => ?_
  have suspended : (s.metered.suspend ids s.life.clock id
      ⟨client, slot, runId, user, clientId, s.life.clock + ttl⟩).1.Counted
        (rest.flatMap fun held => held.client?.toList) := Metered.Counted.suspend picked
  have sameRegistry := @Metered.registry_suspend ids s.life.clock s.metered id
    ⟨client, slot, runId, user, clientId, s.life.clock + ttl⟩
  split
  next isSuspended =>
    have isRegistry := sameRegistry.trans (congrArg Prod.fst isSuspended)
    exact Metered.Counted.of_registry suspended isRegistry
  next isSuspended =>
    have isRegistry := sameRegistry.trans (congrArg Prod.fst isSuspended)
    exact Metered.Counted.of_registry suspended isRegistry

theorem counts_take (inv : s.Inv) (id : Nlink.ConnectionId) (user clientId : String) :
    Counts (s.life.step (.take ids id user clientId)) (s.shows (.take ids id user clientId)) := by
  have taken : (s.metered.takeSuspendedIf ids s.life.clock id user clientId).1.Counted
      (((s.metered.takeSuspendedIf ids s.life.clock id user clientId).2.map SuspendedSession.client).toList ++ s.held) :=
    inv.counted.takeSuspendedIf
  have sameRegistry := @Metered.registry_takeSuspendedIf ids s.life.clock s.metered id user clientId
  rw [Metered.takeSuspendedIf_snd] at taken
  rw [State.step]
  split
  next isTaken =>
    have isRegistry := sameRegistry.trans (congrArg Prod.fst isTaken)
    rw [show (s.metered.registry.takeSuspendedIf ids s.life.clock id user clientId).2 = _ from congrArg Prod.snd isTaken]
      at taken
    exact Metered.Counted.of_registry taken isRegistry
  next isTaken =>
    have isRegistry := sameRegistry.trans (congrArg Prod.fst isTaken)
    rw [show (s.metered.registry.takeSuspendedIf ids s.life.clock id user clientId).2 = _ from congrArg Prod.snd isTaken]
      at taken
    exact Metered.Counted.of_registry taken isRegistry

theorem counts_reattach (inv : s.Inv) {entry : SuspendedSession} (fresh : ids.of entry.client ∉ s.life.used) :
    Counts (s.life.step (.reattach ids entry)) s.proxiesActive := by
  refine counts_onHeld inv (ite_self _).symm fun rest picked => ?_
  have rebound : (s.metered.onTables (s.life.registry.tables.rebindControl entry.client)).Counted
      (entry.client :: rest.flatMap fun held => held.client?.toList) := by
    refine Metered.Counted.same picked rfl rfl ?_ rfl
    rw [Metered.outstanding_onTables rfl]
    exact Function.update_eq_self ..
  refine rebound.move ?_ rfl rfl rfl
  exact @Registry.perm_enlist _ s.life.registry _ _ (s.life.registry.clientsActive + 1) (inv.guards.lookup_of_fresh fresh)

theorem counts_step (inv : s.Inv) (event : Event) (distinct : s.Distinct (.call event))
    (countable : s.Countable (.call event)) : Counts (s.life.step event) (s.shows event) := by
  cases event with
  | elapsed time => exact inv.counted
  | register ids => exact counts_register inv distinct
  | newProxy cfg user ids net client m => exact (inv.counted.newProxy countable).of_registry Metered.registry_newProxy
  | closeProxy ids client name => exact inv.counted.closeProxyByName
  | detach runId client slot => exact counts_detach inv
  | suspend ids id runId client slot user clientId ttl => exact counts_suspend inv id user clientId ttl
  | take ids id user clientId => exact counts_take inv id user clientId
  | reattach ids entry => exact counts_reattach inv distinct
  | putBack ids id entry =>
    refine counts_onHeld inv rfl fun rest picked => ?_
    exact (Metered.Counted.suspend picked).of_registry Metered.registry_suspend
  | reclaim ids entry => exact counts_onHeld inv rfl fun rest picked => Metered.Counted.reclaimSuspended picked
  | fail runId client slot => exact counts_onHeld inv (ite_self _).symm fun rest picked => picked.dropSlot slot
  | sweep ids => exact inv.counted.sweepSuspended.of_registry Metered.registry_sweepSuspended
  | kick ids runId => exact inv.counted.kick.of_registry Metered.registry_kick
  | unregister ids runId client slot =>
    refine counts_onHeld inv rfl fun rest picked => ?_
    have removed : (s.metered.remove ids runId).Counted (rest.flatMap fun held => held.client?.toList) := picked.remove
    refine (removed.dropSlot slot).of_registry ?_
    rw [Metered.registry_remove]
    rfl
  | leave ids runId =>
    refine counts_onHeld inv rfl fun rest picked => ?_
    have removed : (s.metered.remove ids runId).Counted (rest.flatMap fun held => held.client?.toList) := picked.remove
    exact removed.of_registry Metered.registry_remove

theorem inv_step (event : MeteredEvent) (distinct : s.Distinct event) (countable : s.Countable event) (inv : s.Inv) :
    (s.step event).Inv := by
  cases event with
  | call event => exact ⟨State.guards_step event distinct inv.guards, counts_step inv event distinct countable⟩
  | closeProxy ids client name => exact ⟨inv.guards, inv.counted.closeProxy countable⟩
  | panelRemove ids role runId user name =>
    have same : (s.metered.panelRemove ids role runId user name).registry.clients = s.life.registry.clients := by
      rw [Metered.panelRemove]
      split
      · rfl
      · split
        · rfl
        · split
          · rfl
          · rfl
    refine ⟨inv.guards.same same, ?_⟩
    show (s.metered.panelRemove ids role runId user name).Counted s.held
    rw [Metered.panelRemove]
    split
    · exact inv.counted
    next named =>
      split
      · exact inv.counted
      next client found =>
        split
        next allowed => exact inv.counted.closeProxy (countable named allowed client found)
        · exact inv.counted

theorem not_shown_of_total {after : MeteredState} (inv : s.Inv) (same : after.live = s.live)
    (isTotal : after.proxiesActive ≠ after.metered.total after.held) : ¬after.Shown := by
  intro shown
  refine isTotal (shown.total.trans (congrArg Nat.cast ?_))
  have once : after.live.Nodup := same ▸ inv.counted.once
  exact List.sum_toFinset _ once

theorem not_shown_closeProxy (inv : s.Inv) {name : String} {entry : ProxyEntry}
    (found : (s.life.registry.tables.clients client).entries.lookup name = some entry) (noPort : ¬entry.port.isSome) :
    ¬(s.onMetered (·.closeProxy ids client name)).Shown :=
  not_shown_of_total inv rfl (inv.counted.total_closeProxy found noPort)

theorem not_shown_step (event : MeteredEvent) (inv : s.Inv) (not : ¬s.Countable event) : ¬(s.step event).Shown := by
  cases event with
  | call event =>
    cases event with
    | newProxy cfg user ids net client m =>
      rw [Countable, not_or, not_forall] at not
      obtain ⟨nowhere, outcome, registered⟩ := not
      have isTotal := inv.counted.total_newProxy nowhere (not_not.mp registered)
      refine not_shown_of_total inv rfl ?_
      have sameMetered : (s.step (.call (.newProxy cfg user ids net client m))).metered =
          s.metered.newProxy cfg user ids net client m := by
        have isRegistry : (s.step (.call (.newProxy cfg user ids net client m))).life.registry =
            (s.metered.newProxy cfg user ids net client m).registry := by
          rw [Metered.registry_newProxy]
          rfl
        rw [metered, isRegistry]
        rfl
      show Metered.proxiesActive (s.step (.call (.newProxy cfg user ids net client m))).metered ≠ _
      rw [sameMetered]
      exact isTotal
    | _ => exact absurd trivial not
  | closeProxy ids client name =>
    rw [Countable] at not
    push Not at not
    obtain ⟨entry, found, noPort⟩ := not
    exact not_shown_closeProxy inv found noPort
  | panelRemove ids role runId user name =>
    rw [Countable] at not
    push Not at not
    obtain ⟨named, allowed, client, found, entry, isEntry, noPort⟩ := not
    have isClosed : s.step (.panelRemove ids role runId user name) =
        s.onMetered (·.closeProxy ids client (canonicalWireName user name)) := by
      have change : s.metered.panelRemove ids role runId user name =
          s.metered.closeProxy ids client (canonicalWireName user name) := by
        rw [Metered.panelRemove, if_neg named, show s.metered.registry.clients.lookup runId = some client from found]
        exact if_pos allowed
      rw [step, onMetered, onMetered, change]
    rw [isClosed]
    exact not_shown_closeProxy inv isEntry noPort

def start (maxClients maxProxies : Nat) (vhosts : Bool) : MeteredState where
  life := .start maxClients maxProxies vhosts

theorem inv_start (maxClients maxProxies : Nat) (vhosts : Bool) : (start maxClients maxProxies vhosts).Inv :=
  ⟨(State.inv_start maxClients maxProxies vhosts).guarded, rfl, fun _ _ => rfl, List.nodup_nil, nofun⟩

end MeteredState

/-- As many proxies are shown as there are, as long as every path that closes one finds a
port and none is registered for a client that is gone. -/
theorem proxiesActive_iff (maxClients maxProxies : Nat) (vhosts : Bool) {events : List MeteredEvent}
    (distinct : RunMeets MeteredState.step MeteredState.Distinct (.start maxClients maxProxies vhosts) events) :
    Throughout MeteredState.step MeteredState.Shown (.start maxClients maxProxies vhosts) events ↔
      RunMeets MeteredState.step MeteredState.Countable (.start maxClients maxProxies vhosts) events :=
  throughout_iff_runMeets (fun _ event distinct countable inv => MeteredState.inv_step event distinct countable inv)
    (fun _ inv => inv.shown) (fun _ event _ inv not => MeteredState.not_shown_step event inv not)
    (MeteredState.inv_start maxClients maxProxies vhosts) distinct

def shopRegistered (m : NewProxy) : MeteredState :=
  run MeteredState.step (.start 1 5 true)
    [.call (.register .counted),
      .call (.newProxy shopConfig (fun _ => "shop") .counted (shopNet (some "0.0.0.0:6000")) 0 m)]

/-- The shop closes a proxy that has a port. -/
theorem proxiesActive_shop :
    Throughout MeteredState.step MeteredState.Shown (.start 1 5 true)
      [.call (.register .counted),
        .call (.newProxy shopConfig (fun _ => "shop") .counted (shopNet (some "0.0.0.0:6000")) 0 (shopProxy "tcp" 6000 [])),
        .closeProxy .counted 0 "shop.web"] := by
  refine (proxiesActive_iff 1 5 true ?_).mpr ⟨trivial, ?_, ?_, trivial⟩
  · exact ⟨List.not_mem_nil, trivial, trivial, trivial⟩
  · exact .inl (List.mem_singleton_self 0)
  · intro entry found
    have hasPort : (((shopRegistered (shopProxy "tcp" 6000 [])).life.registry.tables.clients 0).entries.lookup
        "shop.web").all (·.port.isSome) := by decide +kernel
    exact Option.all_eq_true .. |>.mp hasPort entry found

/-- When its site is closed, which has no port, the shop has nothing, and one proxy is shown. -/
theorem proxiesActive_site :
    ((shopRegistered (shopSite "shop.web")).step (.closeProxy .counted 0 "shop.web")).proxiesActive = 1 ∧
      ((shopRegistered (shopSite "shop.web")).step (.closeProxy .counted 0 "shop.web")).live = [0] ∧
      ((shopRegistered (shopSite "shop.web")).step (.closeProxy .counted 0 "shop.web")).metered.outstanding 0 = 0 ∧
      ¬((shopRegistered (shopSite "shop.web")).step (.closeProxy .counted 0 "shop.web")).Shown := by
  have active : ((shopRegistered (shopSite "shop.web")).step (.closeProxy .counted 0 "shop.web")).proxiesActive = 1 := by
    decide +kernel
  have live : ((shopRegistered (shopSite "shop.web")).step (.closeProxy .counted 0 "shop.web")).live = [0] := by
    decide +kernel
  have nothing :
      ((shopRegistered (shopSite "shop.web")).step (.closeProxy .counted 0 "shop.web")).metered.outstanding 0 = 0 := by
    decide +kernel
  refine ⟨active, live, nothing, fun shown => ?_⟩
  have total := shown.total
  rw [active, live, List.toFinset_cons, List.toFinset_nil, LawfulSingleton.insert_empty_eq, Finset.sum_singleton, nothing] at total
  exact absurd total (by decide)

end Nfrp.Lifecycle
