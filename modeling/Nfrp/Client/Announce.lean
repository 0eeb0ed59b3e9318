import Nfrp.Client.Session

/-!
# What a login announces

The table changes while the client runs; a login announces the list the client
started with.  The two agree as long as no edit is in force that the list does not
show.
-/

namespace Nfrp.Client

open Lib

/-- What is in force under a name: the last edit, or the list. -/
def inForce (listed : List ProxyConfig) (edits : List Edit) (name : String) : Option ProxyConfig :=
  match edits.find? (·.name = name) with
  | some edit => edit.left
  | none => listed.reverse.find? (·.name = name)

def AnnouncesTable {Wire : Type} (announce : ProxyConfig → Wire) (table : String → Option ProxyConfig)
    (sent : List Wire) : Prop :=
  ∀ m, m ∈ sent ↔ ∃ name p, table name = some p ∧ announce p = m

/-- Proxies with one name are announced alike, and every edit in force leaves what
the list says. -/
structure Unedited {Wire : Type} (announce : ProxyConfig → Wire) (listed : List ProxyConfig)
    (edits : List Edit) : Prop where
  alike : ∀ p ∈ listed, ∀ q ∈ listed, p.name = q.name → announce p = announce q
  asListed : ∀ name, ∀ edit ∈ edits.find? (·.name = name),
    edit.left.map announce = (listed.find? (·.name = name)).map announce

theorem name_of_inForce {listed : List ProxyConfig} {edits : List Edit} {name : String} {p : ProxyConfig}
    (standing : inForce listed edits name = some p) : p.name = name := by
  rw [inForce] at standing
  split at standing
  next edit found =>
    have isName := key_of_find? found
    cases edit with
    | add q =>
      obtain rfl := Option.some.inj standing
      exact isName
    | remove _ => cases standing
  · exact key_of_find? standing

section

variable {Wire : Type} {announce : ProxyConfig → Wire} {listed : List ProxyConfig} {edits : List Edit}

theorem exists_find?_of_mem {p : ProxyConfig} (member : p ∈ listed) :
    ∃ q ∈ listed, listed.find? (·.name = p.name) = some q ∧ q.name = p.name := by
  cases found : listed.find? (·.name = p.name) with
  | none =>
    have absent := List.find?_eq_none.mp found p member
    exact absurd (decide_eq_true rfl) absent
  | some q => exact ⟨q, List.mem_of_find?_eq_some found, rfl, key_of_find? found⟩

/-- With no edit that the list does not show, every name stands for what the list
announces it with. -/
theorem Unedited.inForce_map (unedited : Unedited announce listed edits) (name : String) :
    (inForce listed edits name).map announce = (listed.find? (·.name = name)).map announce := by
  rw [inForce]
  split
  next edit found => exact unedited.asListed name edit found
  next =>
    cases found : listed.reverse.find? (·.name = name) with
    | none =>
      have absent : listed.find? (·.name = name) = none := by
        rw [List.find?_eq_none] at found ⊢
        exact fun p member => found p (List.mem_reverse.mpr member)
      rw [absent]
    | some p =>
      have member := List.mem_reverse.mp (List.mem_of_find?_eq_some found)
      have isName : p.name = name := key_of_find? found
      obtain ⟨q, alsoListed, isFound, sameName⟩ := exists_find?_of_mem member
      rw [← isName, isFound, Option.map_some, Option.map_some,
        unedited.alike p member q alsoListed sameName.symm]

/-- The list is what the table holds exactly if no edit is in force that the list
does not show. -/
theorem announcesTable_iff {table : String → Option ProxyConfig}
    (names : ∀ p q, announce p = announce q → p.name = q.name)
    (standing : ∀ name, table name = inForce listed edits name) :
    AnnouncesTable announce table (listed.map announce) ↔ Unedited announce listed edits := by
  have keyed : ∀ name p, table name = some p → p.name = name := fun name p held =>
    name_of_inForce ((standing name).symm.trans held)
  constructor
  · intro announces
    have tabled : ∀ p ∈ listed, ∃ q, table p.name = some q ∧ announce q = announce p := by
      intro p member
      obtain ⟨name, q, held, same⟩ := (announces (announce p)).mp (List.mem_map_of_mem member)
      have isName := names q p same
      rw [← isName, keyed name q held]
      exact ⟨q, held, same⟩
    constructor
    case alike =>
      intro p member q alsoListed sameName
      obtain ⟨r, held, same⟩ := tabled p member
      obtain ⟨other, alsoHeld, alsoSame⟩ := tabled q alsoListed
      rw [sameName, alsoHeld] at held
      rw [← same, ← alsoSame, Option.some.inj held]
    case asListed =>
      intro name edit found
      have isName : edit.name = name := key_of_find? found
      have left : table name = edit.left := by
        rw [standing, inForce, Option.mem_def.mp found]
      cases listedThere : listed.find? (·.name = name) with
      | some p =>
        have sameName : p.name = name := key_of_find? listedThere
        obtain ⟨q, held, same⟩ := tabled p (List.mem_of_find?_eq_some listedThere)
        rw [← left, ← sameName, held, Option.map_some, Option.map_some, same]
      | none =>
        cases edit with
        | remove _ => rfl
        | add p =>
          obtain ⟨q, member, same⟩ := List.mem_map.mp ((announces (announce p)).mpr ⟨name, p, left, rfl⟩)
          have absent := List.find?_eq_none.mp listedThere q member
          exact absurd (decide_eq_true ((names q p same).trans isName)) absent
  · intro unedited m
    rw [List.mem_map]
    constructor
    · rintro ⟨p, member, rfl⟩
      obtain ⟨q, alsoListed, isFound, sameName⟩ := exists_find?_of_mem member
      have said := unedited.inForce_map p.name
      rw [← standing, isFound, Option.map_some, Option.map_eq_some_iff] at said
      obtain ⟨r, held, same⟩ := said
      exact ⟨p.name, r, held, same.trans (unedited.alike q alsoListed p member sameName)⟩
    · rintro ⟨name, p, held, rfl⟩
      have said := unedited.inForce_map name
      rw [← standing, held, Option.map_some, eq_comm, Option.map_eq_some_iff] at said
      obtain ⟨q, isFound, same⟩ := said
      exact ⟨q, List.mem_of_find?_eq_some isFound, same⟩

end

def Output.newProxy? : Output → Option NewProxy
  | .newProxy m => some m
  | _ => none

def Output.resumeCommit? : Output → Option (List String)
  | .resumeCommit names => some names
  | _ => none

def ClientConfig.wireName (cfg : ClientConfig) (p : ProxyConfig) : String :=
  (NewProxy.fromConfig p cfg.user).proxyName

theorem name_of_wireName {cfg : ClientConfig} (p q : ProxyConfig) (same : cfg.wireName p = cfg.wireName q) :
    p.name = q.name := by
  rw [ClientConfig.wireName, ClientConfig.wireName, NewProxy.proxyName_fromConfig,
    NewProxy.proxyName_fromConfig] at same
  exact addUserPrefix_inj.mp same

theorem name_of_announce {cfg : ClientConfig} (p q : ProxyConfig) (same : cfg.announce p = cfg.announce q) :
    p.name = q.name := by
  have sameNames : (cfg.announce p).proxyName = (cfg.announce q).proxyName := by rw [same]
  exact @name_of_wireName cfg p q sameNames

namespace ClientState

theorem newProxies_registered (c : ClientState) (s : Session) (pending : List String) :
    (c.registered s pending).2.filterMap Output.newProxy? = [] := by
  rw [registered]
  split
  · split
    · rfl
    · rfl
  · rfl

theorem newProxies_login {c : ClientState} (loggedOut : c.session = none) (serverCmd resume : Bool) :
    (c.step (.login serverCmd resume)).2.filterMap Output.newProxy? = c.cfg.proxies.map c.cfg.announce := by
  simp only [step, loggedOut, login]
  rw [List.filterMap_append, newProxies_registered, List.append_nil, List.filterMap_map]
  exact congrFun List.filterMap_eq_map _

theorem resumeCommit_registered {c : ClientState} {s : Session} {pending names : List String}
    (committed : Output.resumeCommit names ∈ (c.registered s pending).2) :
    names = c.cfg.proxies.map c.cfg.wireName := by
  rw [registered] at committed
  split at committed
  · split at committed
    · have isNames : c.cfg.wireName = fun p => (NewProxy.fromConfig p c.cfg.user).proxyName := rfl
      rw [isNames]
      simpa using committed
    · simp at committed
  · cases committed

theorem resumeCommit_login {c : ClientState} {serverCmd resume : Bool} {names : List String}
    (committed : Output.resumeCommit names ∈ (c.login serverCmd resume).2) :
    names = c.cfg.proxies.map c.cfg.wireName := by
  rw [login] at committed
  dsimp only at committed
  rcases List.mem_append.mp committed with announced | registered
  · simp at announced
  · exact resumeCommit_registered registered

theorem not_resumeCommit_addLive (c : ClientState) (s : Session) (p : ProxyConfig) (sent : Except String Unit)
    (names : List String) : Output.resumeCommit names ∉ (c.addLive s p sent).2 := by
  rw [addLive]
  split
  · simp
  · cases sent with
    | error e => simp
    | ok _ => simp

theorem not_resumeCommit_addAnswered (c : ClientState) (s : Session) (p : ProxyConfig) (r : NewProxyResp)
    (names : List String) : Output.resumeCommit names ∉ (c.addAnswered s p r).2 := by
  rw [addAnswered]
  split
  · simp [withdraw]
  · simp

theorem not_resumeCommit_removeLive (c : ClientState) (name : String) (names : List String) :
    Output.resumeCommit names ∉ (c.removeLive name).2 := by
  rw [removeLive]
  split
  · simp
  · simp

/-- The names of a resumed session are those of the list, and are sent while no
request by hand waits. -/
theorem resumeCommit_step {c : ClientState} {event : Event} {names : List String}
    (committed : Output.resumeCommit names ∈ (c.step event).2) :
    names = c.cfg.proxies.map c.cfg.wireName ∧ c.adding = none := by
  obtain ⟨cfg, store, proxies, session⟩ := c
  cases session with
  | none =>
    cases event with
    | login serverCmd resume => exact ⟨resumeCommit_login committed, rfl⟩
    | _ => cases committed
  | some s =>
    obtain ⟨serverCmd, resume, phase⟩ := s
    cases phase with
    | registering pending =>
      refine ⟨?_, rfl⟩
      cases event with
      | received m =>
        cases m with
        | newProxyResp answers r => exact resumeCommit_registered committed
        | nlink frame => cases frame <;> simp [step, receive, handleNLinkFrame] at committed
        | _ => simp [step, receive] at committed
      | _ => cases committed
    | serving =>
      refine ⟨?_, rfl⟩
      cases event with
      | received m =>
        cases m with
        | serverCmd cmd =>
          cases serverCmd <;> simp [step, receive, command] at committed
        | nlink frame => cases frame <;> simp [step, receive, handleNLinkFrame] at committed
        | _ => simp [step, receive] at committed
      | addProxy p sent => exact (not_resumeCommit_addLive _ _ p sent names committed).elim
      | removeProxy name => exact (not_resumeCommit_removeLive _ name names committed).elim
      | _ => cases committed
    | adding p =>
      cases event with
      | received m =>
        cases m with
        | newProxyResp answers r => exact (not_resumeCommit_addAnswered _ _ p r names committed).elim
        | _ => simp [step, receive] at committed
      | timeout => simp [step, withdraw] at committed
      | disconnected e => simp [step, withdraw] at committed
      | _ => cases committed

end ClientState

/-- A client and the edits it has made since its start, the last one first. -/
structure Edited where
  client : ClientState
  edits : List Edit

namespace Edited

def start (cfg : ClientConfig) (storeEnabled : Bool) (file : Option StoreFile) : Edited :=
  ⟨.start cfg storeEnabled file, []⟩

def step (e : Edited) (event : ClientState.Event) : Edited :=
  ⟨(e.client.step event).1, (e.client.edit event).toList ++ e.edits⟩

/-- The list of the start stays, and the table is the list and the edits. -/
structure Tracks (listed : List ProxyConfig) (e : Edited) : Prop where
  isListed : e.client.cfg.proxies = listed
  admits : e.client.Admits
  settled : ∀ name, e.client.settled name = inForce listed e.edits name

theorem get_start (cfg : ClientConfig) (storeEnabled : Bool) (file : Option StoreFile) (name : String) :
    (start cfg storeEnabled file).client.proxies.get name =
      (start cfg storeEnabled file).client.cfg.proxies.reverse.find? (·.name = name) := by
  obtain ⟨restored, merged, isRestored, lookup⟩ :=
    exists_initialProxies cfg.proxies (.fromConfig storeEnabled file)
  rw [start, ClientState.start]
  dsimp only
  rw [ProxyTable.get, lookup, merged, List.reverse_append, List.find?_append, ProxyTable.lookup_fromIter,
    find?_key_reverse isRestored.nodup]
  cases found : restored.find? (·.name = name) with
  | none => simp [Option.map_map, Function.comp_def]
  | some p =>
    have absent : cfg.proxies.reverse.find? (·.name = name) = none := by
      rw [List.find?_eq_none]
      intro q member
      have isNew := isRestored.isNew p (List.mem_of_find?_eq_some found)
      rw [key_of_find? found] at isNew
      simpa using fun isName : q.name = name => isNew (isName ▸ List.mem_map_of_mem (List.mem_reverse.mp member))
    simp [absent]

theorem tracks_start (cfg : ClientConfig) (storeEnabled : Bool) (file : Option StoreFile) :
    Tracks (start cfg storeEnabled file).client.cfg.proxies (start cfg storeEnabled file) := by
  refine ⟨rfl, ClientState.admits_of_idle rfl, fun name => ?_⟩
  rw [ClientState.settled_of_idle rfl, get_start, inForce]
  rfl

theorem tracks_step {listed : List ProxyConfig} (e : Edited) (event : ClientState.Event)
    (tracks : Tracks listed e) : Tracks listed (e.step event) := by
  have stepped := ClientState.step_stepped tracks.admits event
  refine ⟨?_, stepped.admits, fun name => ?_⟩
  · rw [← tracks.isListed]
    exact congrArg ClientConfig.proxies stepped.cfg
  · refine (stepped.settled name).trans ?_
    rw [step]
    cases e.client.edit event with
    | none => exact tracks.settled name
    | some edit =>
      rw [ClientState.edited, inForce, Option.toList_some, List.singleton_append, List.find?_cons]
      by_cases isName : name = edit.name
      · simp [isName]
      · rw [if_neg isName, tracks.settled, inForce]
        simp [Ne.symm isName]

theorem tracks_run (cfg : ClientConfig) (storeEnabled : Bool) (file : Option StoreFile)
    (events : List ClientState.Event) :
    Tracks (start cfg storeEnabled file).client.cfg.proxies (run step (start cfg storeEnabled file) events) :=
  run_invariant tracks_step (tracks_start cfg storeEnabled file) events

/-- In every run: a login announces what is in the table at that moment, and a
resumed session keeps it, exactly if no edit is in force that the list of the start
does not show. -/
theorem reregisters_iff (cfg : ClientConfig) (storeEnabled : Bool) (file : Option StoreFile)
    (events : List ClientState.Event) :
    let listed := (start cfg storeEnabled file).client.cfg.proxies
    let e := run step (start cfg storeEnabled file) events
    (e.client.session = none → ∀ serverCmd resume,
      AnnouncesTable e.client.cfg.announce e.client.proxies.get
        ((e.client.step (.login serverCmd resume)).2.filterMap Output.newProxy?) ↔
        Unedited e.client.cfg.announce listed e.edits) ∧
      ∀ event, ∀ names ∈ (e.client.step event).2.filterMap Output.resumeCommit?,
        AnnouncesTable e.client.cfg.wireName e.client.proxies.get names ↔
          Unedited e.client.cfg.wireName listed e.edits := by
  intro listed e
  have tracks := tracks_run cfg storeEnabled file events
  have standing (idle : e.client.adding = none) (name : String) :
      e.client.proxies.get name = inForce listed e.edits name := by
    rw [← ClientState.settled_of_idle idle]
    exact tracks.settled name
  refine ⟨fun loggedOut serverCmd resume => ?_, fun event names committed => ?_⟩
  · have idle : e.client.adding = none := by
      rw [ClientState.adding, loggedOut]
    rw [ClientState.newProxies_login loggedOut, tracks.isListed]
    exact announcesTable_iff name_of_announce (standing idle)
  · obtain ⟨output, isOutput, isCommit⟩ := List.mem_filterMap.mp committed
    have isNames : output = .resumeCommit names := by
      cases output with
      | resumeCommit _ => rw [Option.some.inj isCommit]
      | _ => cases isCommit
    obtain ⟨rfl, idle⟩ := ClientState.resumeCommit_step (isNames ▸ isOutput)
    rw [tracks.isListed]
    exact announcesTable_iff name_of_wireName (standing idle)

/-- One proxy of the configuration, and one that the server does not answer. -/
theorem reregisters_iff_example :
    let ssh : ProxyConfig := { name := "ssh", localAddr := "127.0.0.1:22", remotePort := 6000 }
    let web : ProxyConfig := { name := "web", localAddr := "127.0.0.1:80", remotePort := 6001 }
    let e := run step (start { proxies := [ssh] } false none) [.login true true,
      .received (.newProxyResp 1 { proxyName := "ssh" }), .addProxy web (.ok ()), .timeout, .disconnected none]
    AnnouncesTable e.client.cfg.announce e.client.proxies.get
      ((e.client.step (.login true true)).2.filterMap Output.newProxy?) := by
  intro ssh web e
  have loggedOut : e.client.session = none := rfl
  refine ((reregisters_iff { proxies := [ssh] } false none _).1 loggedOut true true).mpr ⟨?_, ?_⟩
  · intro p isFirst q isFirstToo _
    rw [List.mem_singleton.mp isFirst, List.mem_singleton.mp isFirstToo]
  · exact fun _ _ none => nomatch none

/-- The server adds a proxy; after a reconnect the client announces nothing, and a
resumed session keeps nothing. -/
theorem added_proxy_lost :
    let web : ProxyConfig := { name := "web", localAddr := "127.0.0.1:80", remotePort := 6001 }
    let e := run step (start {} false none) [.login true true,
      .received (.serverCmd { op := "add_proxy", proxy := .ok web }), .disconnected none]
    e.client.session = none ∧ e.client.proxies.get "web" = some web ∧
      ¬ AnnouncesTable e.client.cfg.announce e.client.proxies.get
        ((e.client.step (.login true true)).2.filterMap Output.newProxy?) ∧
      ∃ names ∈ (e.client.step (.login true true)).2.filterMap Output.resumeCommit?,
        ¬ AnnouncesTable e.client.cfg.wireName e.client.proxies.get names := by
  intro web e
  have held : e.client.proxies.get "web" = some web := by decide +kernel
  refine ⟨by decide +kernel, held, fun announces => ?_, [], by decide +kernel, fun announces => ?_⟩
  · have announced := (announces (e.client.cfg.announce web)).mpr ⟨"web", web, held, rfl⟩
    have nothing : (e.client.step (.login true true)).2.filterMap Output.newProxy? = [] := by decide +kernel
    rw [nothing] at announced
    cases announced
  · cases (announces (e.client.cfg.wireName web)).mpr ⟨"web", web, held, rfl⟩

end Edited

end Nfrp.Client
