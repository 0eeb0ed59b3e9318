import Nfrp.Lib.Runs
import Nfrp.Client.Command

/-!
# The control connection of a client

After each login the client announces its proxies and waits for the answers; then
it serves.  A proxy that is added by hand is announced on the same connection, and
the session waits for its answer before it serves on.
-/

namespace Nfrp.Client

open Lib

/-- An empty error is success. -/
structure NewProxyResp where
  proxyName : String
  remoteAddr : String := ""
  error : String := ""
  deriving DecidableEq, Repr

inductive NLinkFrame where
  | batchReq (count : Option Nat)
  | other

/-- What arrives on the control connection.  `answers` is the number of the
announcement that a response is about; the client does not see it. -/
inductive ServerMsg where
  | newProxyResp (answers : Nat) (r : NewProxyResp)
  | reqWorkConn
  | pong (error : String)
  | serverCmd (cmd : ServerCmd)
  | nlink (frame : NLinkFrame)
  | other

/-- Which loop reads the connection. -/
inductive Phase where
  | registering (pending : List String)
  | serving
  | adding (p : ProxyConfig)

structure Session where
  serverCmd : Bool
  resume : Bool
  phase : Phase

structure ClientState where
  cfg : ClientConfig
  store : Store
  proxies : ProxyTable
  session : Option Session

inductive Output where
  | newProxy (m : NewProxy)
  | resumeCommit (names : List String)
  | closeProxy (proxyName : String)
  | serverCmdResp (r : ServerCmdResp)
  | reply (result : Except String String)
  | workConns (count : Nat)

/-- What a login announces a proxy with: a client that encrypts everything says
so of each proxy. -/
def ClientConfig.announce (cfg : ClientConfig) (p : ProxyConfig) : NewProxy :=
  let m := NewProxy.fromConfig p cfg.user
  { m with
    useEncryption := m.useEncryption || cfg.useEncryption
    useCompression := m.useCompression || cfg.useCompression }

def registerTimeout : Nat := 15

def handleNLinkFrame : NLinkFrame → List Output
  | .batchReq count => [.workConns (max 1 (min 256 (count.getD 1)))]
  | .other => []

namespace ClientState

/-- The configuration with what the store holds, and the table of both. -/
def start (cfg : ClientConfig) (storeEnabled : Bool) (file : Option StoreFile) : ClientState :=
  let store := Store.fromConfig storeEnabled file
  let (proxies, table) := initialProxies cfg.proxies store
  { cfg := { cfg with proxies }, store, proxies := table, session := none }

inductive Event where
  | login (serverCmd resume : Bool)
  | received (m : ServerMsg)
  | timeout
  | disconnected (error : Option String)
  | addProxy (p : ProxyConfig) (sent : Except String Unit)
  | removeProxy (name : String)

variable (c : ClientState) (s : Session)

def enter (phase : Phase) : ClientState :=
  { c with session := some { s with phase } }

/-- What is left of the registration: more answers to wait for, or the names that
a resumed session keeps. -/
def registered (pending : List String) : ClientState × List Output :=
  if pending = [] then
    (c.enter s .serving,
      (if s.resume then [.resumeCommit (c.cfg.proxies.map fun p => (NewProxy.fromConfig p c.cfg.user).proxyName)]
        else []) ++ [.workConns c.cfg.poolCount.toNat])
  else (c.enter s (.registering pending), [])

def login (serverCmd resume : Bool) : ClientState × List Output :=
  let announced := c.cfg.proxies.map fun p => Output.newProxy (c.cfg.announce p)
  let (after, outputs) := c.registered ⟨serverCmd, resume, .serving⟩ (c.cfg.proxies.map (·.name))
  (after, announced ++ outputs)

/-- The table admits the proxy before the server does. -/
def addLive (p : ProxyConfig) (sent : Except String Unit) : ClientState × List Output :=
  if (c.proxies.get p.name).isSome then (c, [.reply (.error ("已存在同名代理 [" ++ p.name ++ "]"))])
  else
    let admitted := c.proxies.insert p
    match sent with
    | .error e =>
      ({ c with proxies := admitted.remove p.name }, [.reply (.error ("向服务端发送 NewProxy 失败：" ++ e))])
    | .ok _ =>
      ({ c with proxies := admitted }.enter s (.adding p), [.newProxy (NewProxy.fromConfig p c.cfg.user)])

def withdraw (p : ProxyConfig) (reason : String) : ClientState × List Output :=
  ({ c with proxies := c.proxies.remove p.name }.enter s .serving, [.reply (.error reason)])

/-- The first answer that arrives is taken for the answer. -/
def addAnswered (p : ProxyConfig) (r : NewProxyResp) : ClientState × List Output :=
  if r.error ≠ "" then c.withdraw s p ("服务端拒绝：" ++ r.error)
  else
    ({ c with store := c.store.put p }.enter s .serving,
      [.reply (.ok ("代理 [" ++ p.name ++ "] 已生效：" ++ r.remoteAddr))])

def removeLive (name : String) : ClientState × List Output :=
  match c.proxies.get name with
  | none => (c, [.reply (.error ("本地没有代理 [" ++ name ++ "]"))])
  | some _ =>
    ({ c with proxies := c.proxies.remove name, store := c.store.remove name },
      [.closeProxy (addUserPrefix c.cfg.user name), .reply (.ok ("代理 [" ++ name ++ "] 已移除"))])

def command (cmd : ServerCmd) : ClientState × List Output :=
  if s.serverCmd then
    let (resp, proxies, store) := applyServerCmd c.proxies c.store cmd c.cfg.user
    ({ c with proxies, store }, [.serverCmdResp resp])
  else (c, [])

def receive : Phase → ServerMsg → ClientState × List Output
  | .registering pending, .newProxyResp _ r =>
    c.registered s (pending.filter (· ≠ stripUserPrefix c.cfg.user r.proxyName))
  | .adding p, .newProxyResp _ r => c.addAnswered s p r
  | .serving, .serverCmd cmd => c.command s cmd
  | _, .reqWorkConn => (c, [.workConns 1])
  | .registering _, .nlink frame => (c, handleNLinkFrame frame)
  | .serving, .nlink frame => (c, handleNLinkFrame frame)
  | _, _ => (c, [])

def noAnswer : String :=
  toString registerTimeout ++ " 秒内没等到服务端的回应（已撤回本地改动）"

def lost : Option String → String
  | some e => "控制连接出错：" ++ e
  | none => "服务端关闭了控制连接"

/-- One event; a request by hand that finds the session busy waits, and is a later
event. -/
def step (event : Event) : ClientState × List Output :=
  match c.session, event with
  | none, .login serverCmd resume => c.login serverCmd resume
  | some s, .received m => c.receive s s.phase m
  | some s, .timeout =>
    match s.phase with
    | .adding p => c.withdraw s p noAnswer
    | _ => ({ c with session := none }, [])
  | some s, .disconnected e =>
    match s.phase with
    | .adding p => c.withdraw s p (lost e)
    | _ => ({ c with session := none }, [])
  | some s, .addProxy p sent =>
    match s.phase with
    | .serving => c.addLive s p sent
    | _ => (c, [])
  | some s, .removeProxy name =>
    match s.phase with
    | .serving => c.removeLive name
    | _ => (c, [])
  | _, _ => (c, [])

def adding : Option ProxyConfig :=
  match c.session with
  | some ⟨_, _, .adding p⟩ => some p
  | _ => none

def settled (name : String) : Option ProxyConfig :=
  if c.adding.any (·.name = name) then none else c.proxies.get name

def edit (event : Event) : Option Edit :=
  match c.session, event with
  | some s, .received m =>
    match s.phase, m with
    | .serving, .serverCmd cmd => if s.serverCmd then cmd.made c.proxies c.store c.cfg.user else none
    | .adding p, .newProxyResp _ r => if r.error = "" then some (.add p) else none
    | _, _ => none
  | some s, .removeProxy name =>
    match s.phase with
    | .serving => (c.proxies.get name).map fun _ => .remove name
    | _ => none
  | _, _ => none

def Admits : Prop :=
  ∀ p ∈ c.adding, c.proxies.get p.name = some p

def edited (edit : Option Edit) (table : String → Option ProxyConfig) (name : String) : Option ProxyConfig :=
  match edit with
  | some edit => if name = edit.name then edit.left else table name
  | none => table name

variable {c s}

theorem settled_of_idle (idle : c.adding = none) (name : String) : c.settled name = c.proxies.get name := by
  rw [settled, idle]
  rfl

theorem admits_of_idle (idle : c.adding = none) : c.Admits := by
  intro p isAdding
  rw [idle] at isAdding
  cases isAdding

theorem get_insert (t : ProxyTable) (p : ProxyConfig) (name : String) :
    (t.insert p).get name = if name = p.name then some p else t.get name := by
  rw [ProxyTable.get, ProxyTable.lookup_insert]
  split
  · rfl
  · rfl

theorem get_remove (t : ProxyTable) (removed name : String) :
    (t.remove removed).get name = if name = removed then none else t.get name := by
  rw [ProxyTable.get, ProxyTable.lookup_remove]
  split
  · rfl
  · rfl

/-- How one event changes the client: the configuration never, the table by its
edit, once the proxy that is waited for is left out. -/
structure Stepped (before : ClientState) (edit : Option Edit) (after : ClientState) : Prop where
  cfg : after.cfg = before.cfg
  admits : after.Admits
  settled : ∀ name, after.settled name = edited edit before.settled name

theorem Stepped.of_idle {before after : ClientState} {edit : Option Edit} (cfg : after.cfg = before.cfg)
    (idleBefore : before.adding = none) (idleAfter : after.adding = none)
    (get : ∀ name, after.proxies.get name = edited edit before.proxies.get name) : Stepped before edit after := by
  refine ⟨cfg, admits_of_idle idleAfter, fun name => ?_⟩
  rw [settled_of_idle idleAfter, get]
  cases edit with
  | none => exact (settled_of_idle idleBefore name).symm
  | some edit => rw [edited, edited, settled_of_idle idleBefore]

theorem Stepped.refl (admits : c.Admits) : Stepped c none c :=
  ⟨rfl, admits, fun _ => rfl⟩

theorem withdraw_stepped {p : ProxyConfig} (isAdding : c.adding = some p) (reason : String) :
    Stepped c none (c.withdraw s p reason).1 := by
  refine ⟨rfl, admits_of_idle rfl, fun name => ?_⟩
  rw [settled_of_idle rfl, edited, settled, isAdding]
  exact (get_remove c.proxies p.name name).trans (by simp [eq_comm])

theorem addAnswered_stepped {p : ProxyConfig} (isAdding : c.adding = some p) (admits : c.Admits)
    (r : NewProxyResp) :
    Stepped c (if r.error = "" then some (.add p) else none) (c.addAnswered s p r).1 := by
  rw [addAnswered]
  by_cases accepted : r.error = ""
  · rw [if_pos accepted, if_neg (not_not.mpr accepted)]
    refine ⟨rfl, admits_of_idle rfl, fun name => ?_⟩
    rw [settled_of_idle rfl, edited, Edit.name, Edit.left, settled, isAdding]
    by_cases isName : name = p.name
    · rw [if_pos isName, isName]
      exact admits p isAdding
    · rw [if_neg isName, Option.any_some, if_neg (by simpa using fun same => isName same.symm)]
      rfl
  · rw [if_neg accepted, if_pos accepted]
    exact withdraw_stepped isAdding _

theorem addLive_stepped {p : ProxyConfig} (idle : c.adding = none) (sent : Except String Unit) :
    Stepped c none (c.addLive s p sent).1 := by
  rw [addLive]
  split
  · exact .refl (admits_of_idle idle)
  next isNew =>
    rw [Option.not_isSome_iff_eq_none] at isNew
    cases sent with
    | error e =>
      refine .of_idle rfl idle idle fun name => ?_
      rw [get_remove, get_insert, edited]
      by_cases isName : name = p.name
      · rw [if_pos isName, isName, isNew]
      · rw [if_neg isName, if_neg isName]
    | ok _ =>
      refine ⟨rfl, fun q isAdding => ?_, fun name => ?_⟩
      · obtain rfl := Option.some.inj isAdding
        exact (get_insert c.proxies _ _).trans (if_pos rfl)
      · rw [edited, settled_of_idle idle, settled]
        simp only [enter, adding, Option.any_some, get_insert, decide_eq_true_eq]
        by_cases isName : p.name = name
        · rw [if_pos isName, ← isName, isNew]
        · rw [if_neg isName, if_neg (Ne.symm isName)]

theorem removeLive_stepped (idle : c.adding = none) (name : String) :
    Stepped c ((c.proxies.get name).map fun _ => .remove name) (c.removeLive name).1 := by
  rw [removeLive]
  cases present : c.proxies.get name with
  | none => exact .refl (admits_of_idle idle)
  | some _ => exact .of_idle rfl idle idle fun other => get_remove c.proxies name other

theorem get_command (cmd : ServerCmd) (name : String) :
    (c.command s cmd).1.proxies.get name =
      edited (if s.serverCmd then cmd.made c.proxies c.store c.cfg.user else none) c.proxies.get name := by
  rw [command]
  split
  · rcases applyServerCmd_cases c.proxies c.store cmd c.cfg.user with ⟨made, same⟩ | ⟨edit, made, -, commanded⟩
    · rw [made]
      exact congrArg (ProxyTable.get · name) same
    · simp only [made, edited, ProxyTable.get, commanded.lookup]
      split
      · cases edit <;> rfl
      · rfl
  · rfl

theorem command_stepped (idle : c.adding = none) (cmd : ServerCmd) :
    Stepped c (if s.serverCmd then cmd.made c.proxies c.store c.cfg.user else none) (c.command s cmd).1 := by
  have same : (c.command s cmd).1.cfg = c.cfg ∧ (c.command s cmd).1.session = c.session := by
    rw [command]
    split <;> exact ⟨rfl, rfl⟩
  refine .of_idle same.1 idle ?_ (get_command cmd)
  rw [adding, same.2]
  exact idle

theorem registered_stepped (idle : c.adding = none) (pending : List String) :
    Stepped c none (c.registered s pending).1 := by
  rw [registered]
  split
  · exact .of_idle rfl idle rfl fun _ => rfl
  · exact .of_idle rfl idle rfl fun _ => rfl

theorem step_stepped (admits : c.Admits) (event : Event) : Stepped c (c.edit event) (c.step event).1 := by
  obtain ⟨cfg, store, proxies, session⟩ := c
  cases session with
  | none =>
    cases event with
    | login serverCmd resume => exact registered_stepped rfl _
    | _ => exact .refl admits
  | some s =>
    obtain ⟨serverCmd, resume, phase⟩ := s
    cases phase with
    | registering pending =>
      cases event with
      | received m =>
        cases m with
        | newProxyResp answers r => exact registered_stepped rfl _
        | _ => exact .refl admits
      | timeout => exact .of_idle rfl rfl rfl fun _ => rfl
      | disconnected e => exact .of_idle rfl rfl rfl fun _ => rfl
      | _ => exact .refl admits
    | serving =>
      cases event with
      | received m =>
        cases m with
        | serverCmd cmd => exact command_stepped rfl cmd
        | _ => exact .refl admits
      | timeout => exact .of_idle rfl rfl rfl fun _ => rfl
      | disconnected e => exact .of_idle rfl rfl rfl fun _ => rfl
      | addProxy p sent => exact addLive_stepped rfl sent
      | removeProxy name => exact removeLive_stepped rfl name
      | login _ _ => exact .refl admits
    | adding p =>
      cases event with
      | received m =>
        cases m with
        | newProxyResp answers r => exact addAnswered_stepped rfl admits r
        | _ => exact .refl admits
      | timeout => exact withdraw_stepped rfl _
      | disconnected e => exact withdraw_stepped rfl _
      | _ => exact .refl admits

end ClientState

end Nfrp.Client
