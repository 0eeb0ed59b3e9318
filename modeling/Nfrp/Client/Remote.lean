import Nfrp.Lib.Runs
import Nfrp.Client.Command

/-!
# What the server can make a client do

A client that takes commands of the server and is started again with whatever the
store holds by then.  The proxies of the configuration stay as they are, and what
came from outside connects to this host.
-/

namespace Nfrp.Client

open Lib

structure Process where
  cfg : ClientConfig
  store : Store
  proxies : ProxyTable

namespace Process

def start (cfg : ClientConfig) (storeEnabled : Bool) (file : Option StoreFile) : Process :=
  let store := Store.fromConfig storeEnabled file
  { cfg, store, proxies := (initialProxies cfg.proxies store).2 }

inductive Event where
  | serverCmd (cmd : ServerCmd)
  | restart (cfg : ClientConfig) (storeEnabled : Bool) (file : Option StoreFile)

def step (c : Process) : Event → Process
  | .serverCmd cmd =>
    let (_, proxies, store) := applyServerCmd c.proxies c.store cmd c.cfg.user
    { c with proxies, store }
  | .restart cfg storeEnabled file => start cfg storeEnabled file

def Event.Brings (p : ProxyConfig) : Event → Prop
  | .serverCmd cmd => cmd.proxy = .ok p
  | .restart _ _ file => ∃ f ∈ file, p ∈ f.proxies

def Event.Literal (event : Event) : Prop :=
  ∀ p, event.Brings p → validateRemoteProxy p true = .ok () → NotLookedUp p.localAddr.toList

/-- The proxies of the configuration are in the table as they were written, and
nothing else counts as such. -/
def KeepsConfig (c : Process) : Prop :=
  ∀ name, (c.proxies.lookup name).filter (·.origin = .config) = (ProxyTable.fromIter c.cfg.proxies).lookup name

/-- What came from outside. -/
def DynamicAll (holds : ProxyConfig → Prop) (c : Process) : Prop :=
  ∀ name entry, c.proxies.lookup name = some entry → entry.origin = .dynamic → holds entry.cfg

theorem filter_fromIter (proxies : List ProxyConfig) (name : String) :
    ((ProxyTable.fromIter proxies).lookup name).filter (·.origin = .config) =
      (ProxyTable.fromIter proxies).lookup name := by
  rw [ProxyTable.lookup_fromIter]
  cases proxies.reverse.find? (·.name = name) with
  | none => rfl
  | some _ => rfl

theorem origin_of_lookup_fromIter {proxies : List ProxyConfig} {name : String} {entry : ProxyEntry}
    (found : (ProxyTable.fromIter proxies).lookup name = some entry) : entry.origin = .config := by
  rw [← filter_fromIter, Option.filter_eq_some_iff] at found
  exact of_decide_eq_true found.2

theorem keepsConfig_start (cfg : ClientConfig) (storeEnabled : Bool) (file : Option StoreFile) :
    (start cfg storeEnabled file).KeepsConfig := by
  intro name
  obtain ⟨restored, -, -, lookup⟩ := exists_initialProxies cfg.proxies (.fromConfig storeEnabled file)
  rw [start, lookup]
  cases written : (ProxyTable.fromIter cfg.proxies).lookup name with
  | some entry => rw [Option.some_or, ← written, filter_fromIter]
  | none =>
    rw [Option.none_or]
    cases restored.find? (·.name = name) with
    | none => rfl
    | some _ => rfl

theorem dynamicAll_start {holds : ProxyConfig → Prop} {cfg : ClientConfig} {storeEnabled : Bool}
    {file : Option StoreFile}
    (met : ∀ p, (Event.restart cfg storeEnabled file).Brings p → validateRemoteProxy p true = .ok () → holds p) :
    (start cfg storeEnabled file).DynamicAll holds := by
  intro name entry found isDynamic
  obtain ⟨restored, -, isRestored, lookup⟩ := exists_initialProxies cfg.proxies (.fromConfig storeEnabled file)
  rw [start, lookup, Option.or_eq_some_iff] at found
  rcases found with written | ⟨-, kept⟩
  · cases isDynamic.symm.trans (origin_of_lookup_fromIter written)
  · obtain ⟨p, isFound, rfl⟩ := Option.map_eq_some_iff.mp kept
    have member := List.mem_of_find?_eq_some isFound
    exact met p (Store.exists_file_of_mem_dynamic (isRestored.isStored p member)) (isRestored.passed p member)

theorem keepsConfig_step (c : Process) (event : Event) (kept : c.KeepsConfig) : (c.step event).KeepsConfig := by
  cases event with
  | restart cfg storeEnabled file => exact keepsConfig_start cfg storeEnabled file
  | serverCmd cmd =>
    intro name
    rw [step, ← kept name]
    rcases applyServerCmd_cases c.proxies c.store cmd c.cfg.user with ⟨-, same⟩ | ⟨edit, -, -, commanded⟩
    · exact congrArg (fun t : ProxyTable => (t.lookup name).filter _) same
    · dsimp only
      rw [commanded.lookup]
      split
      next isName =>
        have before : (c.proxies.lookup name).filter (·.origin = .config) = none := by
          rw [Option.filter_eq_none_iff]
          intro entry found isConfig
          refine commanded.notConfig ?_
          rw [ProxyTable.originOf, ← isName, found, Option.map_some, of_decide_eq_true isConfig]
        rw [before]
        cases edit.left with
        | none => rfl
        | some _ => rfl
      · rfl

theorem dynamicAll_step {holds : ProxyConfig → Prop} (c : Process) (event : Event)
    (met : ∀ p, event.Brings p → validateRemoteProxy p true = .ok () → holds p)
    (before : c.DynamicAll holds) : (c.step event).DynamicAll holds := by
  cases event with
  | restart cfg storeEnabled file => exact dynamicAll_start met
  | serverCmd cmd =>
    intro name entry found isDynamic
    rw [step] at found
    rcases applyServerCmd_cases c.proxies c.store cmd c.cfg.user with ⟨-, same⟩ | ⟨edit, -, isBrought, commanded⟩
    · exact before name entry (same ▸ found) isDynamic
    · dsimp only at found
      rw [commanded.lookup] at found
      split at found
      · cases edit with
        | add p =>
          obtain rfl := Option.some.inj found
          exact met p (isBrought p rfl) (commanded.passed p rfl)
        | remove _ => cases found
      · exact before name entry found isDynamic

/-- Whatever the server sends and the store holds, in whatever order: the proxies
of the configuration stay in the table as they were written.  If what the check
lets through needs no resolver, everything that came from outside connects to this
host and runs no plugin. -/
theorem remote_confined (cfg : ClientConfig) (storeEnabled : Bool) (file : Option StoreFile) (events : List Event)
    (literalStart : (Event.restart cfg storeEnabled file).Literal)
    (literal : RunMeets step (fun _ event => event.Literal) (start cfg storeEnabled file) events) :
    (run step (start cfg storeEnabled file) events).KeepsConfig ∧
      (run step (start cfg storeEnabled file) events).DynamicAll Harmless := by
  have harmless : ∀ event : Event, event.Literal →
      ∀ p, event.Brings p → validateRemoteProxy p true = .ok () → Harmless p :=
    fun event isLiteral p brought passed => (harmless_iff passed).mpr (isLiteral p brought passed)
  refine ⟨run_invariant keepsConfig_step (keepsConfig_start cfg storeEnabled file) events, ?_⟩
  exact run_invariant_of_meets (fun c event isLiteral => dynamicAll_step c event (harmless event isLiteral))
    (dynamicAll_start (harmless _ literalStart)) literal

/-- A client with one proxy of its own; the server adds one and tries to remove
the first. -/
theorem remote_confined_example :
    let ssh : ProxyConfig := { name := "ssh", localAddr := "192.168.1.2:22", remotePort := 6000 }
    let web : ProxyConfig := { name := "web", localAddr := "127.0.0.1:80", remotePort := 6001 }
    let events := [Event.serverCmd { op := "add_proxy", proxy := .ok web },
      .serverCmd { op := "remove_proxy", proxyName := "ssh" }]
    (run step (start { proxies := [ssh] } false none) events).KeepsConfig ∧
      (run step (start { proxies := [ssh] } false none) events).DynamicAll Harmless := by
  intro ssh web events
  refine remote_confined { proxies := [ssh] } false none events ?_ ⟨?_, ?_, trivial⟩
  · rintro p ⟨_, absent, _⟩
    cases absent
  · intro p brought _
    obtain rfl := Except.ok.inj brought
    exact .inl (by decide)
  · exact fun _ brought => nomatch brought

def numericLookup (host : String) (port : Nat) : List SocketAddr :=
  (IpAddr.parse host.toList).toList.map (⟨·, port⟩)

/-- `::0:1` is accepted as a way to write `::1`.  The connection goes to port 1
of `::`. -/
theorem remote_redirected :
    let p : ProxyConfig := { name := "web", localAddr := "::0:1", remotePort := 6001 }
    let c := run step (start {} false none) [.serverCmd { op := "add_proxy", proxy := .ok p }]
    c.proxies.lookup "web" = some ⟨p, .dynamic⟩ ∧
      resolveAddr numericLookup p.localAddr.toList = some ⟨.v6 0, 1⟩ ∧ ¬ c.DynamicAll Harmless := by
  intro p c
  have added : c.proxies.lookup "web" = some ⟨p, .dynamic⟩ := by decide +kernel
  have resolved : resolveAddr numericLookup p.localAddr.toList = some ⟨.v6 0, 1⟩ := by decide +kernel
  refine ⟨added, resolved, fun confined => ?_⟩
  have loopback := (confined "web" ⟨p, .dynamic⟩ added rfl).staysLocal numericLookup ⟨.v6 0, 1⟩ resolved
  exact absurd loopback (by decide)

end Process

end Nfrp.Client
