import Nfrp.Client.Answers
import Nfrp.Server.Register

/-!
# Adding and removing by the panel

A request of the panel asks the client first, then registers at the server, and takes
back at the client what the server refuses; a removal begins at the server.  In between
both sides go on with their own traffic.
-/

namespace Nfrp.Panel

open Lib Nfrp.Client

structure Sides where
  client : ClientState
  server : Proxies

inductive Op where
  | add (p : ProxyConfig)
  | remove (name : String)

inductive AdminError where
  | invalid (reason : String)
  | denied (r : Refusal)
  | client (reason : String)
  | register (r : Refusal)
  deriving DecidableEq

/-- How far the request has come; in the first and the fourth it waits for an answer. -/
inductive Phase where
  | asking (id : String)
  | accepted
  | binding
  | rollingBack (id : String) (r : Refusal)
  | returned (result : Except AdminError String)

/-- `inFlight` are the commands of the request that the client has not read, and `answers`
the answers to them that the server has not. -/
structure Request where
  sides : Sides
  phase : Phase
  inFlight : List ServerCmd := []
  answers : List ServerCmdResp := []

inductive Event where
  | client (e : ClientState.Event)
  | server (e : Proxies.Event)
  | delivered
  | answered
  | gaveUp (reason : String)
  | lost
  | register (answer : Answer) (rollbackId : String)
  | bound (index : Nat) (result : Except String String) (rollbackId : String)

variable (t : Terms)

def Op.localName : Op → String
  | .add p => p.name
  | .remove name => stripUserPrefix t.user (canonicalWireName t.user name)

def Op.wireName : Op → String
  | .add p => (Proxies.wire t.user p).proxyName
  | .remove name => canonicalWireName t.user name

def addCmd (id : String) (p : ProxyConfig) : ServerCmd :=
  { id, op := cmdAddProxy, proxyName := p.name, proxy := .ok p }

def removeCmd (id name : String) : ServerCmd :=
  { id, op := cmdRemoveProxy, proxyName := name }

def notManaged : String := "所属角色不允许被面板管理（allowManage = false）"

def begin (s : Sides) (id : String) : Op → Request
  | .add p =>
    if p.name = "" then ⟨s, .returned (.error (.invalid "代理配置缺少 name")), [], []⟩
    else if p.proxyType = "" then ⟨s, .returned (.error (.invalid "代理配置缺少 type")), [], []⟩
    else if ¬t.role.allowManage then ⟨s, .returned (.error (.invalid notManaged)), [], []⟩
    else
      match checkProxy t.role p.name p.proxyType p.remotePort s.server.proxyCount with
      | .error r => ⟨s, .returned (.error (.denied r)), [], []⟩
      | .ok _ => ⟨s, .asking id, [addCmd id p], []⟩
  | .remove name =>
    if name = "" then ⟨s, .returned (.error (.invalid "缺少代理名")), [], []⟩
    else if ¬t.role.allowManage then ⟨s, .returned (.error (.invalid notManaged)), [], []⟩
    else
      ⟨{ s with server := s.server.stopProxy (canonicalWireName t.user name) }, .asking id,
        [removeCmd id ((Op.remove name).localName t)], []⟩

namespace Request

variable (r : Request)

def deliver : Request :=
  match r.inFlight with
  | [] => r
  | cmd :: rest =>
    let (client, outputs) := r.sides.client.step (.received (.serverCmd cmd))
    { r with
      sides := { r.sides with client }
      inFlight := rest
      answers := r.answers ++ outputs.filterMap Output.serverCmdResp? }

def answer (op : Op) : Request :=
  match r.answers with
  | [] => r
  | resp :: rest =>
    { r with
      answers := rest
      phase :=
        match r.phase with
        | .asking id =>
          if resp.id ≠ id then .asking id
          else if resp.error ≠ "" then .returned (.error (.client resp.error))
          else
            match op with
            | .add _ => .accepted
            | .remove name => .returned (.ok ("代理 [" ++ name ++ "] 已移除"))
        | .rollingBack id reason =>
          if resp.id ≠ id then .rollingBack id reason else .returned (.error (.register reason))
        | phase => phase }

/-- Without an answer in time, or without a connection, the request fails; a rollback is
left as it is. -/
def giveUp (reason : String) : Request :=
  { r with
    phase :=
      match r.phase with
      | .asking _ => .returned (.error (.client reason))
      | .rollingBack _ reason => .returned (.error (.register reason))
      | phase => phase }

/-- What becomes of the request when the registration has ended, or waits for its port. -/
def conclude (p : ProxyConfig) (rollbackId : String) (server : Proxies) : Outcome → Request
  | .registered remoteAddr _ =>
    { r with
      sides := { r.sides with server }
      phase := .returned (.ok ("代理 [" ++ p.name ++ "] 已生效：" ++ remoteAddr)) }
  | .refused reason =>
    { r with
      sides := { r.sides with server }
      phase := .rollingBack rollbackId reason
      inFlight := r.inFlight ++ [removeCmd rollbackId p.name] }
  | .waiting => { r with sides := { r.sides with server }, phase := .binding }
  | .nothing => r

def step (op : Op) (r : Request) : Event → Request
  | .client e => { r with sides := { r.sides with client := (r.sides.client.step e).1 } }
  | .server e => { r with sides := { r.sides with server := (r.sides.server.step t e).1 } }
  | .delivered => r.deliver
  | .answered => r.answer op
  | .gaveUp reason => r.giveUp reason
  | .lost => { r with inFlight := [], answers := [] }
  | .register answer rollbackId =>
    match r.phase, op with
    | .accepted, .add p =>
      let (server, outcome) := r.sides.server.registerProxy t.cfg (Proxies.wire t.user p) false answer
      r.conclude p rollbackId server outcome
    | _, _ => r
  | .bound index result rollbackId =>
    match r.phase, op with
    | .binding, .add p =>
      if (r.sides.server.binding[index]?).any fun b => b.m = Proxies.wire t.user p && !b.byControl then
        let (server, outcome) := r.sides.server.step t (.bound index result)
        r.conclude p rollbackId server outcome
      else r
    | _, _ => r

end Request

/-- The entries after a registration that has come so far: its own name, and the others. -/
structure Registers (m : NewProxy) (before after : ProxyMap) (outcome : Outcome) : Prop where
  own : match outcome with
    | .registered _ _ => ∃ e, after.lookup m.proxyName = some e ∧ e.signature = proxySignature m
    | .refused _ | .waiting => after.lookup m.proxyName = none
    | .nothing => False
  others : ∀ w, w ≠ m.proxyName → after.lookup w = before.lookup w

section Registers

variable {cfg : ServerConfig} {s : Proxies} {m : NewProxy} {byControl : Bool} {answer : Answer}

theorem registers_enter (remoteAddr : String) (adopted : Bool) :
    Registers m s.entries (s.enter m remoteAddr).entries (.registered remoteAddr adopted) where
  own := ⟨_, AList.lookup_insert s.entries, rfl⟩
  others := fun _ different => AList.lookup_insert_ne different

theorem registers_refused (absent : s.entries.lookup m.proxyName = none) (r : Refusal) :
    Registers m s.entries s.entries (.refused r) :=
  ⟨absent, fun _ _ => rfl⟩

theorem registers_waiting (absent : s.entries.lookup m.proxyName = none) :
    Registers m s.entries s.entries .waiting :=
  ⟨absent, fun _ _ => rfl⟩

theorem registers_registerKind (absent : s.entries.lookup m.proxyName = none) :
    Registers m s.entries (s.registerKind cfg m byControl answer).1.entries (s.registerKind cfg m byControl answer).2 := by
  rw [Proxies.registerKind]
  split
  · split
    · exact registers_refused absent _
    · split
      · exact registers_refused absent _
      · exact registers_waiting absent
      · exact registers_enter _ _
  split
  · split
    · exact registers_refused absent _
    · split
      · exact registers_refused absent _
      · exact registers_waiting absent
      · exact registers_refused absent _
  split
  · split
    · exact registers_refused absent _
    · exact registers_enter _ _
  · exact registers_refused absent _

theorem registers_adopt {entry : ProxyEntry} (present : s.entries.lookup m.proxyName = some entry) (remoteAddr : String) :
    Registers m s.entries (s.adopt m.proxyName (proxySignature m) remoteAddr).entries (.registered remoteAddr true) := by
  rw [Proxies.adopt, present]
  exact ⟨⟨_, AList.lookup_insert s.entries, rfl⟩, fun _ different => AList.lookup_insert_ne different⟩

theorem Registers.of_stopProxy {after : ProxyMap} {outcome : Outcome}
    (registers : Registers m (s.stopProxy m.proxyName).entries after outcome) : Registers m s.entries after outcome :=
  ⟨registers.own, fun w different => (registers.others w different).trans (AList.lookup_erase_ne different)⟩

theorem registers_registerProxy (named : m.proxyName ≠ "") :
    Registers m s.entries (s.registerProxy cfg m byControl answer).1.entries
      (s.registerProxy cfg m byControl answer).2 := by
  have absent : (s.stopProxy m.proxyName).entries.lookup m.proxyName = none :=
    AList.lookup_erase m.proxyName s.entries
  rw [Proxies.registerProxy, if_neg named]
  split
  next reusable =>
    split at reusable
    · obtain ⟨entry, isEntry, -⟩ := Option.map_eq_some_iff.mp reusable
      exact registers_adopt (Option.filter_eq_some_iff.mp isEntry).1 _
    · cases reusable
  · dsimp only
    split
    · exact (registers_refused absent _).of_stopProxy
    · split
      · exact (registers_refused absent _).of_stopProxy
      · exact (registers_registerKind absent).of_stopProxy

end Registers

theorem wire_ne_empty {user : String} {p : ProxyConfig} (named : p.name ≠ "") :
    (Proxies.wire user p).proxyName ≠ "" := by
  have isName : (Proxies.wire user p).proxyName = addUserPrefix user p.name :=
    NewProxy.proxyName_fromConfig p user
  rw [isName, addUserPrefix]
  split
  · exact named
  · intro empty
    exact absurd (String.append_eq_empty_iff.mp empty).2 named

/-- What reading a command does: nothing, where the client does not take it. -/
theorem read_cases (c : ClientState) (cmd : ServerCmd) :
    (c.step (.received (.serverCmd cmd))).1.proxies = c.proxies ∧ c.respond (.received (.serverCmd cmd)) = [] ∨
      (c.step (.received (.serverCmd cmd))).1.proxies = (applyServerCmd c.proxies c.store cmd c.cfg.user).2.1 ∧
        c.respond (.received (.serverCmd cmd)) = [(applyServerCmd c.proxies c.store cmd c.cfg.user).1] := by
  obtain ⟨cfg, store, proxies, session⟩ := c
  cases session with
  | none => exact .inl ⟨rfl, rfl⟩
  | some s =>
    obtain ⟨serverCmd, resume, phase⟩ := s
    cases phase with
    | registering pending => cases serverCmd <;> exact .inl ⟨rfl, rfl⟩
    | adding p => cases serverCmd <;> exact .inl ⟨rfl, rfl⟩
    | serving =>
      cases serverCmd with
      | false => exact .inl ⟨rfl, rfl⟩
      | true => exact .inr ⟨rfl, rfl⟩

def Refuses (c : ClientState) (cmd : ServerCmd) : Prop :=
  ∀ resp ∈ c.respond (.received (.serverCmd cmd)), resp.error ≠ ""

def Accepts (c : ClientState) (cmd : ServerCmd) : Prop :=
  ∃ resp, c.respond (.received (.serverCmd cmd)) = [resp] ∧ resp.error = ""

theorem Accepts.not_refuses {c : ClientState} {cmd : ServerCmd} (accepts : Accepts c cmd) : ¬Refuses c cmd := by
  obtain ⟨resp, answered, succeeded⟩ := accepts
  intro refuses
  refine refuses resp ?_ succeeded
  rw [answered]
  exact List.mem_singleton_self resp

theorem refuses_of_silent {c : ClientState} {cmd : ServerCmd} (silent : c.respond (.received (.serverCmd cmd)) = []) :
    Refuses c cmd := by
  rw [Refuses, silent]
  exact nofun

/-- A client that reads a command makes the edit it asks for, or leaves its table alone. -/
theorem read_edit (c : ClientState) (cmd : ServerCmd) (readable : ∀ e, cmd.proxy = .error e → e ≠ "") :
    ((∀ name, (c.step (.received (.serverCmd cmd))).1.proxies.lookup name = c.proxies.lookup name) ∧ Refuses c cmd) ∨
      ∃ edit, cmd.edit c.proxies c.cfg.user = some edit ∧ Accepts c cmd ∧
        ∀ name, (c.step (.received (.serverCmd cmd))).1.proxies.lookup name =
          if name = edit.name then edit.left.map (⟨·, .dynamic⟩) else c.proxies.lookup name := by
  rcases read_cases c cmd with ⟨same, silent⟩ | ⟨done, answered⟩
  · rw [same]
    exact .inl ⟨fun _ => rfl, refuses_of_silent silent⟩
  · rw [done]
    cases executed : execServerCmd c.proxies c.store cmd c.cfg.user with
    | error reason =>
      rw [applyServerCmd, executed] at answered ⊢
      refine .inl ⟨fun _ => rfl, fun resp isResp => ?_⟩
      rw [answered, List.mem_singleton] at isResp
      rw [isResp]
      exact execServerCmd_ne_empty readable executed
    | ok kept =>
      obtain ⟨edit, isEdit, -, commanded⟩ := execServerCmd_eq_ok executed
      rw [applyServerCmd, executed] at answered ⊢
      exact .inr ⟨edit, isEdit, ⟨_, answered, rfl⟩, commanded.lookup⟩

/-- A client that is asked to add takes the proxy, or leaves its table alone. -/
theorem read_add (c : ClientState) (id : String) (p : ProxyConfig) :
    ((∀ name, (c.step (.received (.serverCmd (addCmd id p)))).1.proxies.lookup name = c.proxies.lookup name) ∧
        Refuses c (addCmd id p)) ∨
      ((∀ name, (c.step (.received (.serverCmd (addCmd id p)))).1.proxies.lookup name =
          if name = p.name then some ⟨p, .dynamic⟩ else c.proxies.lookup name) ∧
        Accepts c (addCmd id p)) := by
  refine (read_edit c (addCmd id p) ?_).imp_right ?_
  · rintro e ⟨⟩
  · rintro ⟨_, ⟨⟩, accepts, lookup⟩
    exact ⟨lookup, accepts⟩

/-- A client that is asked to remove takes out what it has under the name, or something
else where it has nothing under it, or leaves its table alone. -/
theorem read_remove (c : ClientState) (id name : String) :
    ((∀ other, (c.step (.received (.serverCmd (removeCmd id name)))).1.proxies.lookup other = c.proxies.lookup other) ∧
        Refuses c (removeCmd id name)) ∨
      ((∃ removed, (removed = name ∨ c.proxies.lookup name = none) ∧
          ∀ other, (c.step (.received (.serverCmd (removeCmd id name)))).1.proxies.lookup other =
            if other = removed then none else c.proxies.lookup other) ∧
        Accepts c (removeCmd id name)) := by
  refine (read_edit c (removeCmd id name) ?_).imp_right ?_
  · rintro e ⟨⟩
    decide
  · rintro ⟨_, ⟨⟩, accepts, lookup⟩
    exact ⟨⟨_, findRemoved_requested c.proxies (removeCmd id name) c.cfg.user, lookup⟩, accepts⟩

theorem lookup_of_not_refuses {c : ClientState} {id name : String} (carriedOut : ¬Refuses c (removeCmd id name)) :
    (c.step (.received (.serverCmd (removeCmd id name)))).1.proxies.lookup name = none := by
  rcases read_remove c id name with ⟨-, refuses⟩ | ⟨⟨removed, isRemoved, lookup⟩, -⟩
  · exact absurd refuses carriedOut
  · rw [lookup name]
    rcases isRemoved with rfl | absent
    · exact if_pos rfl
    · rw [absent, ite_self]

namespace Sides

def clientHas (s : Sides) (name : String) : Option Client.ProxyEntry :=
  s.client.proxies.lookup name

def serverHas (s : Sides) (name : String) : Option ProxyEntry :=
  s.server.entries.lookup name

def Lacks (s : Sides) (op : Op) : Prop :=
  s.clientHas (op.localName t) = none ∧ s.serverHas (op.wireName t) = none

end Sides

namespace Request

/-- What the two sides do besides leaves a name of each alone. -/
def Spares (op : Op) (name wireName : String) (r : Request) (event : Event) : Prop :=
  match event with
  | .client _ => (r.step t op event).sides.clientHas name = r.sides.clientHas name
  | .server _ => (r.step t op event).sides.serverHas wireName = r.sides.serverHas wireName
  | _ => True

/-- A step that cannot leave half of an addition: a command that is read late is refused,
or says what was there before, and one that takes back is not refused; where the panel
gives up, and where the connection goes, the client is as it was before; what the server
refuses is new. -/
def Whole (op : Op) (before : Sides) (r : Request) (event : Event) : Prop :=
  match op, event, r.phase with
  | .add _, .delivered, .asking _ => True
  | .add p, .delivered, .rollingBack _ _ => ∀ cmd ∈ r.inFlight.head?, ¬Refuses r.sides.client cmd
  | .add p, .delivered, .returned _ =>
    ∀ cmd ∈ r.inFlight.head?,
      if cmd.op = cmdAddProxy then Refuses r.sides.client cmd ∨ before.clientHas p.name = some ⟨p, .dynamic⟩
      else ¬Refuses r.sides.client cmd
  | .add p, .gaveUp _, .asking _ => r.sides.clientHas p.name = before.clientHas p.name
  | .add p, .lost, _ => r.inFlight ≠ [] → r.sides.clientHas p.name = before.clientHas p.name
  | .add p, .register answer _, .accepted =>
    ∀ reason, (r.sides.server.registerProxy t.cfg (Proxies.wire t.user p) false answer).2 = .refused reason →
      before.Lacks t op
  | .add _, .bound _ result _, .binding => ∀ e, result = .error e → before.Lacks t op
  | _, _, _ => True

def Fair (op : Op) (before : Sides) (r : Request) (event : Event) : Prop :=
  r.Spares t op (op.localName t) (op.wireName t) event ∧ r.Whole t op before event

/-- What a request that has returned leaves under its name, when nothing that it sent is
on its way any more. -/
def Kept (op : Op) (before : Sides) (r : Request) : Prop :=
  match op, r.phase with
  | .add p, .returned (.error _) =>
    r.inFlight = [] →
      r.sides.clientHas p.name = before.clientHas p.name ∧
        r.sides.serverHas (op.wireName t) = before.serverHas (op.wireName t)
  | .add p, .returned (.ok _) =>
    r.sides.clientHas p.name = some ⟨p, .dynamic⟩ ∧
      ∃ e, r.sides.serverHas (op.wireName t) = some e ∧ e.signature = proxySignature (Proxies.wire t.user p)
  | .remove _, .returned (.ok _) => r.sides.Lacks t op
  | _, _ => True

def Untouched (name wireName : String) (before : Sides) (r : Request) : Prop :=
  r.sides.clientHas name = before.clientHas name ∧ r.sides.serverHas wireName = before.serverHas wireName

def Admitted (p : ProxyConfig) (r : Request) : Prop :=
  r.sides.clientHas p.name = some ⟨p, .dynamic⟩

/-- The tables under the name of what is added, at each point of the request. -/
def Progress (p : ProxyConfig) (before : Sides) (r : Request) : Prop :=
  let name := p.name
  let wireName := (Op.add p).wireName t
  match r.phase with
  | .asking id =>
    name ≠ "" ∧ r.sides.serverHas wireName = before.serverHas wireName ∧
      (r.inFlight = [addCmd id p] ∧ r.answers = [] ∧
          r.sides.clientHas name = before.clientHas name ∨
        r.inFlight = [] ∧ r.answers.length ≤ 1 ∧
          ((∀ resp ∈ r.answers, resp.error ≠ "") ∧ r.sides.clientHas name = before.clientHas name ∨
            (∀ resp ∈ r.answers, resp.error = "") ∧ r.Admitted p))
  | .accepted =>
    name ≠ "" ∧ r.inFlight = [] ∧ r.answers = [] ∧ r.Admitted p ∧
      r.sides.serverHas wireName = before.serverHas wireName
  | .binding => r.inFlight = [] ∧ r.answers = [] ∧ r.Admitted p ∧ r.sides.serverHas wireName = none
  | .rollingBack id _ =>
    before.Lacks t (.add p) ∧ r.sides.serverHas wireName = none ∧
      (r.inFlight = [removeCmd id p.name] ∧ r.answers = [] ∧ r.Admitted p ∨
        r.inFlight = [] ∧ r.sides.clientHas name = none)
  | .returned (.ok _) =>
    r.inFlight = [] ∧ r.Admitted p ∧
      ∃ e, r.sides.serverHas wireName = some e ∧ e.signature = proxySignature (Proxies.wire t.user p)
  | .returned (.error _) =>
    r.sides.serverHas wireName = before.serverHas wireName ∧
      (r.inFlight = [] ∧ r.sides.clientHas name = before.clientHas name ∨
        (∃ id, r.inFlight = [addCmd id p]) ∧ r.sides.clientHas name = before.clientHas name ∨
        (∃ id, r.inFlight = [removeCmd id p.name]) ∧ r.Admitted p ∧ before.clientHas name = none)

section Progress

variable {t} {p : ProxyConfig} {before : Sides} {r : Request}

theorem Progress.of_spared {s : Sides} (progress : r.Progress t p before)
    (sameClient : s.clientHas p.name = r.sides.clientHas p.name)
    (sameServer : s.serverHas ((Op.add p).wireName t) = r.sides.serverHas ((Op.add p).wireName t)) :
    Progress t p before { r with sides := s } := by
  rw [Progress] at progress ⊢
  simp only [Admitted] at progress ⊢
  rw [sameClient, sameServer]
  exact progress

theorem progress_begin (id : String) : (begin t before id (.add p)).Progress t p before := by
  rw [begin]
  split
  · exact ⟨rfl, .inl ⟨rfl, rfl⟩⟩
  next named =>
    split
    · exact ⟨rfl, .inl ⟨rfl, rfl⟩⟩
    split
    · exact ⟨rfl, .inl ⟨rfl, rfl⟩⟩
    split
    · exact ⟨rfl, .inl ⟨rfl, rfl⟩⟩
    · exact ⟨named, rfl, .inl ⟨rfl, rfl, rfl⟩⟩

theorem deliver_of_cons {cmd : ServerCmd} {rest : List ServerCmd} (isNext : r.inFlight = cmd :: rest) :
    r.deliver =
      { r with
        sides := { r.sides with client := (r.sides.client.step (.received (.serverCmd cmd))).1 }
        inFlight := rest
        answers := r.answers ++ r.sides.client.respond (.received (.serverCmd cmd)) } := by
  rw [deliver, isNext, ← ClientState.serverCmdResps_step]

theorem deliver_of_nil (isIdle : r.inFlight = []) : r.deliver = r := by
  rw [deliver, isIdle]

theorem length_respond_le (c : ClientState) (cmd : ServerCmd) : (c.respond (.received (.serverCmd cmd))).length ≤ 1 := by
  rcases read_cases c cmd with ⟨-, silent⟩ | ⟨-, answered⟩
  · rw [silent]
    exact Nat.zero_le _
  · rw [answered]
    exact le_rfl

theorem progress_deliver (progress : r.Progress t p before) (whole : r.Whole t (.add p) before .delivered) :
    r.deliver.Progress t p before := by
  by_cases isIdle : r.inFlight = []
  · rw [deliver_of_nil isIdle]
    exact progress
  obtain ⟨cmd, rest, isNext⟩ := List.exists_cons_of_ne_nil isIdle
  have delivered := deliver_of_cons isNext
  obtain ⟨sides, phase, inFlight, answers⟩ := r
  obtain rfl : inFlight = cmd :: rest := isNext
  cases phase with
  | asking id =>
    obtain ⟨named, sameServer, ⟨isAdd, noAnswer, sameClient⟩ | ⟨noCommand, -⟩⟩ := progress
    · obtain ⟨rfl, rfl⟩ := List.cons.inj isAdd
      obtain rfl : answers = [] := noAnswer
      rw [delivered]
      refine ⟨named, sameServer, .inr ⟨rfl, length_respond_le _ _, ?_⟩⟩
      rcases read_add sides.client id p with ⟨same, refused⟩ | ⟨added, accepted⟩
      · exact .inl ⟨refused, (same p.name).trans sameClient⟩
      · obtain ⟨resp, answered, succeeded⟩ := accepted
        refine .inr ⟨fun other isAnswer => ?_, (added p.name).trans (if_pos rfl)⟩
        dsimp only at isAnswer
        rw [answered] at isAnswer
        exact List.mem_singleton.mp isAnswer ▸ succeeded
    · cases noCommand
  | accepted => cases progress.2.1
  | binding => cases progress.1
  | rollingBack id reason =>
    obtain ⟨lacks, noEntry, ⟨isRemove, -, -⟩ | ⟨noCommand, -⟩⟩ := progress
    · obtain ⟨rfl, rfl⟩ := List.cons.inj isRemove
      rw [delivered]
      exact ⟨lacks, noEntry, .inr ⟨rfl, lookup_of_not_refuses (whole _ rfl)⟩⟩
    · cases noCommand
  | returned result =>
    cases result with
    | ok text => cases progress.1
    | error e =>
      obtain ⟨sameServer, ⟨noCommand, -⟩ | ⟨⟨id, isAdd⟩, sameClient⟩ | ⟨⟨id, isRemove⟩, -, absent⟩⟩ := progress
      · cases noCommand
      · obtain ⟨rfl, rfl⟩ := List.cons.inj isAdd
        rw [delivered]
        refine ⟨sameServer, .inl ⟨rfl, ?_⟩⟩
        rcases read_add sides.client id p with ⟨same, -⟩ | ⟨added, accepted⟩
        · exact (same p.name).trans sameClient
        · have isSame := (whole _ rfl).resolve_left accepted.not_refuses
          exact ((added p.name).trans (if_pos rfl)).trans isSame.symm
      · obtain ⟨rfl, rfl⟩ := List.cons.inj isRemove
        rw [delivered]
        exact ⟨sameServer, .inl ⟨rfl, (lookup_of_not_refuses (whole _ rfl)).trans absent.symm⟩⟩

theorem progress_answer (progress : r.Progress t p before) : (r.answer (.add p)).Progress t p before := by
  obtain ⟨sides, phase, inFlight, answers⟩ := r
  cases answers with
  | nil => exact progress
  | cons resp rest =>
    cases phase with
    | asking id =>
      obtain ⟨named, sameServer, ⟨-, noAnswer, -⟩ | ⟨rfl, single, tables⟩⟩ := progress
      · cases noAnswer
      · obtain rfl : rest = [] := List.length_eq_zero_iff.mp (Nat.le_zero.mp (Nat.le_of_succ_le_succ single))
        rw [answer]
        dsimp only
        split
        · refine ⟨named, sameServer, .inr ⟨rfl, Nat.zero_le _, ?_⟩⟩
          rcases tables with ⟨-, same⟩ | ⟨-, admitted⟩
          · exact .inl ⟨nofun, same⟩
          · exact .inr ⟨nofun, admitted⟩
        split
        next failed =>
          rcases tables with ⟨-, same⟩ | ⟨succeeded, -⟩
          · exact ⟨sameServer, .inl ⟨rfl, same⟩⟩
          · exact absurd (succeeded resp List.mem_cons_self) failed
        next succeeded =>
          rcases tables with ⟨failed, -⟩ | ⟨-, admitted⟩
          · exact absurd (failed resp List.mem_cons_self) succeeded
          · exact ⟨named, rfl, rfl, admitted, sameServer⟩
    | accepted => cases progress.2.2.1
    | binding => cases progress.2.1
    | rollingBack id reason =>
      obtain ⟨lacks, noEntry, ⟨-, noAnswer, -⟩ | ⟨rfl, absent⟩⟩ := progress
      · cases noAnswer
      · rw [answer]
        dsimp only
        split
        · exact ⟨lacks, noEntry, .inr ⟨rfl, absent⟩⟩
        · exact ⟨noEntry.trans lacks.2.symm, .inl ⟨rfl, absent.trans lacks.1.symm⟩⟩
    | returned result =>
      cases result with
      | ok text => exact progress
      | error e => exact progress

theorem progress_giveUp {reason : String} (progress : r.Progress t p before)
    (whole : r.Whole t (.add p) before (.gaveUp reason)) : (r.giveUp reason).Progress t p before := by
  obtain ⟨sides, phase, inFlight, answers⟩ := r
  cases phase with
  | asking id =>
    obtain ⟨-, sameServer, ⟨rfl, -⟩ | ⟨rfl, -⟩⟩ := progress
    · exact ⟨sameServer, .inr (.inl ⟨⟨id, rfl⟩, whole⟩)⟩
    · exact ⟨sameServer, .inl ⟨rfl, whole⟩⟩
  | accepted => exact progress
  | binding => exact progress
  | rollingBack id refusal =>
    obtain ⟨lacks, noEntry, ⟨rfl, -, admitted⟩ | ⟨rfl, absent⟩⟩ := progress
    · exact ⟨noEntry.trans lacks.2.symm, .inr (.inr ⟨⟨id, rfl⟩, admitted, lacks.1⟩)⟩
    · exact ⟨noEntry.trans lacks.2.symm, .inl ⟨rfl, absent.trans lacks.1.symm⟩⟩
  | returned result =>
    cases result with
    | ok text => exact progress
    | error e => exact progress

theorem progress_lost (progress : r.Progress t p before) (whole : r.Whole t (.add p) before .lost) :
    Progress t p before { r with inFlight := [], answers := [] } := by
  obtain ⟨sides, phase, inFlight, answers⟩ := r
  cases phase with
  | asking id =>
    obtain ⟨named, sameServer, ⟨-, -, same⟩ | ⟨-, -, tables⟩⟩ := progress
    · exact ⟨named, sameServer, .inr ⟨rfl, Nat.zero_le _, .inl ⟨nofun, same⟩⟩⟩
    · refine ⟨named, sameServer, .inr ⟨rfl, Nat.zero_le _, ?_⟩⟩
      rcases tables with ⟨-, same⟩ | ⟨-, admitted⟩
      · exact .inl ⟨nofun, same⟩
      · exact .inr ⟨nofun, admitted⟩
  | accepted => exact ⟨progress.1, rfl, rfl, progress.2.2.2⟩
  | binding => exact ⟨rfl, rfl, progress.2.2⟩
  | rollingBack id refusal =>
    obtain ⟨lacks, noEntry, ⟨rfl, -, -⟩ | ⟨rfl, absent⟩⟩ := progress
    · exact ⟨lacks, noEntry, .inr ⟨rfl, (whole (List.cons_ne_nil _ _)).trans lacks.1⟩⟩
    · exact ⟨lacks, noEntry, .inr ⟨rfl, absent⟩⟩
  | returned result =>
    cases result with
    | ok text => exact ⟨rfl, progress.2⟩
    | error e =>
      obtain ⟨sameServer, ⟨-, same⟩ | ⟨-, same⟩ | ⟨⟨id, rfl⟩, -⟩⟩ := progress
      · exact ⟨sameServer, .inl ⟨rfl, same⟩⟩
      · exact ⟨sameServer, .inl ⟨rfl, same⟩⟩
      · exact ⟨sameServer, .inl ⟨rfl, whole (List.cons_ne_nil _ _)⟩⟩

theorem progress_conclude {server : Proxies} {outcome : Outcome} {rollbackId : String} (noCommand : r.inFlight = [])
    (noAnswer : r.answers = []) (admitted : r.Admitted p)
    (registers : match outcome with
      | .registered _ _ => ∃ e, server.entries.lookup (Proxies.wire t.user p).proxyName = some e ∧
          e.signature = proxySignature (Proxies.wire t.user p)
      | .refused _ | .waiting => server.entries.lookup (Proxies.wire t.user p).proxyName = none
      | .nothing => False)
    (new : ∀ reason, outcome = .refused reason → before.Lacks t (.add p)) :
    (r.conclude p rollbackId server outcome).Progress t p before := by
  obtain ⟨sides, phase, inFlight, answers⟩ := r
  obtain rfl : inFlight = [] := noCommand
  obtain rfl : answers = [] := noAnswer
  cases outcome with
  | nothing => exact registers.elim
  | waiting => exact ⟨rfl, rfl, admitted, registers⟩
  | registered remoteAddr adopted => exact ⟨rfl, admitted, registers⟩
  | refused reason => exact ⟨new reason rfl, registers, .inl ⟨rfl, rfl, admitted⟩⟩

theorem progress_register {answer : Answer} {rollbackId : String}
    (progress : r.Progress t p before) (whole : r.Whole t (.add p) before (.register answer rollbackId)) :
    (r.step t (.add p) (.register answer rollbackId)).Progress t p before := by
  obtain ⟨sides, phase, inFlight, answers⟩ := r
  cases phase with
  | accepted =>
    obtain ⟨named, noCommand, noAnswer, admitted, -⟩ := progress
    exact progress_conclude noCommand noAnswer admitted (registers_registerProxy (wire_ne_empty named)).own whole
  | asking | binding | rollingBack | returned => exact progress

theorem bound_cases {s : Proxies} {index : Nat} {b : Binding} (isBinding : s.binding[index]? = some b)
    (result : Except String String) :
    (∃ e, result = .error e ∧ (s.step t (.bound index result)).2 = .refused (.other e) ∧
        (s.step t (.bound index result)).1.entries = s.entries) ∨
      ∃ addr, result = .ok addr ∧
        Registers b.m s.entries (s.step t (.bound index result)).1.entries (s.step t (.bound index result)).2 := by
  rw [Proxies.step, isBinding]
  cases result with
  | error e => exact .inl ⟨e, rfl, rfl, rfl⟩
  | ok addr =>
    refine .inr ⟨addr, rfl, ?_⟩
    exact @registers_enter { s with binding := s.binding.eraseIdx index } b.m addr false

theorem progress_bound {index : Nat} {result : Except String String} {rollbackId : String}
    (progress : r.Progress t p before) (whole : r.Whole t (.add p) before (.bound index result rollbackId)) :
    (r.step t (.add p) (.bound index result rollbackId)).Progress t p before := by
  obtain ⟨sides, phase, inFlight, answers⟩ := r
  cases phase with
  | binding =>
    dsimp only [step]
    split
    next isOurs =>
      obtain ⟨b, isBinding, isWire⟩ := (Option.any_eq_true _ _).mp isOurs
      rw [Bool.and_eq_true, decide_eq_true_eq] at isWire
      obtain ⟨noCommand, noAnswer, admitted, noEntry⟩ := progress
      rcases @bound_cases t _ _ _ isBinding result with ⟨e, isError, isRefused, sameEntries⟩ | ⟨addr, isOk, registers⟩
      · refine progress_conclude noCommand noAnswer admitted ?_ fun _ _ => whole e isError
        rw [isRefused]
        exact (congrArg (AList.lookup _) sameEntries).trans noEntry
      · rw [isWire.1] at registers
        refine progress_conclude noCommand noAnswer admitted registers.own fun reason isRefused => ?_
        rw [Proxies.step, isBinding, isOk] at isRefused
        cases isRefused
    · exact progress
  | asking | accepted | rollingBack | returned => exact progress

theorem progress_step (progress : r.Progress t p before) {event : Event}
    (fair : r.Fair t (.add p) before event) : (r.step t (.add p) event).Progress t p before := by
  obtain ⟨spares, whole⟩ := fair
  cases event with
  | client e => exact progress.of_spared spares rfl
  | server e => exact progress.of_spared rfl spares
  | delivered => exact progress_deliver progress whole
  | answered => exact progress_answer progress
  | gaveUp reason => exact progress_giveUp progress whole
  | lost => exact progress_lost progress whole
  | register answer rollbackId => exact progress_register progress whole
  | bound index result rollbackId => exact progress_bound progress whole

theorem Progress.kept (progress : r.Progress t p before) : r.Kept t (.add p) before := by
  obtain ⟨sides, phase, inFlight, answers⟩ := r
  cases phase with
  | asking | accepted | binding | rollingBack => exact trivial
  | returned result =>
    cases result with
    | ok text => exact progress.2
    | error e =>
      rintro rfl
      obtain ⟨sameServer, ⟨-, sameClient⟩ | ⟨⟨_, isAdd⟩, -⟩ | ⟨⟨_, isRemove⟩, -⟩⟩ := progress
      · exact ⟨sameClient, sameServer⟩
      · cases isAdd
      · cases isRemove

/-- What the client takes back is there, so that it does not take another for it. -/
theorem Progress.inFlight (progress : r.Progress t p before) :
    r.inFlight = [] ∨ (∃ id, r.inFlight = [addCmd id p]) ∨ (∃ id, r.inFlight = [removeCmd id p.name]) ∧ r.Admitted p := by
  obtain ⟨sides, phase, inFlight, answers⟩ := r
  cases phase with
  | asking id =>
    obtain ⟨-, -, ⟨isAdd, -⟩ | ⟨isIdle, -⟩⟩ := progress
    · exact .inr (.inl ⟨id, isAdd⟩)
    · exact .inl isIdle
  | accepted => exact .inl progress.2.1
  | binding => exact .inl progress.1
  | rollingBack id reason =>
    obtain ⟨-, -, ⟨isRemove, -, admitted⟩ | ⟨isIdle, -⟩⟩ := progress
    · exact .inr (.inr ⟨⟨id, isRemove⟩, admitted⟩)
    · exact .inl isIdle
  | returned result =>
    cases result with
    | ok text => exact .inl progress.1
    | error e =>
      obtain ⟨-, ⟨isIdle, -⟩ | ⟨isAdd, -⟩ | ⟨isRemove, admitted, -⟩⟩ := progress
      · exact .inl isIdle
      · exact .inr (.inl isAdd)
      · exact .inr (.inr ⟨isRemove, admitted⟩)

end Progress

section Untouched

variable {t} {p : ProxyConfig} {before : Sides} {r : Request} {name wireName : String}

theorem sides_answer (op : Op) : (r.answer op).sides = r.sides := by
  obtain ⟨sides, phase, inFlight, answers⟩ := r
  cases answers with
  | nil | cons _ _ => rfl

theorem clientHas_conclude (rollbackId : String) (server : Proxies) (outcome : Outcome) :
    (r.conclude p rollbackId server outcome).sides.clientHas name = r.sides.clientHas name := by
  cases outcome with
  | nothing | waiting | registered _ _ | refused _ => rfl

theorem serverHas_conclude (rollbackId : String) {server : Proxies} (outcome : Outcome)
    (same : server.entries.lookup wireName = r.sides.serverHas wireName) :
    (r.conclude p rollbackId server outcome).sides.serverHas wireName = r.sides.serverHas wireName := by
  cases outcome with
  | nothing => rfl
  | waiting | registered _ _ | refused _ => exact same

theorem clientHas_deliver (different : name ≠ p.name) (progress : r.Progress t p before) :
    r.deliver.sides.clientHas name = r.sides.clientHas name := by
  rcases progress.inFlight with isIdle | ⟨id, isAdd⟩ | ⟨⟨id, isRemove⟩, admitted⟩
  · rw [deliver_of_nil isIdle]
  · rw [deliver_of_cons isAdd]
    rcases read_add r.sides.client id p with ⟨same, -⟩ | ⟨added, -⟩
    · exact same name
    · exact (added name).trans (if_neg different)
  · rw [deliver_of_cons isRemove]
    rcases read_remove r.sides.client id p.name with ⟨same, -⟩ | ⟨⟨removed, isRemoved, lookup⟩, -⟩
    · exact same name
    · have isOwn : removed = p.name := isRemoved.resolve_right fun absent => nomatch absent.symm.trans admitted
      exact (lookup name).trans (if_neg (isOwn ▸ different))

theorem serverHas_deliver : r.deliver.sides.serverHas wireName = r.sides.serverHas wireName := by
  rw [deliver]
  split
  · rfl
  · rfl

theorem serverHas_register {answer : Answer} {rollbackId : String} (different : wireName ≠ (Op.add p).wireName t)
    (progress : r.Progress t p before) :
    (r.step t (.add p) (.register answer rollbackId)).sides.serverHas wireName = r.sides.serverHas wireName := by
  obtain ⟨sides, phase, inFlight, answers⟩ := r
  cases phase with
  | accepted =>
    exact serverHas_conclude rollbackId _
      ((registers_registerProxy (wire_ne_empty progress.1)).others wireName different)
  | asking | binding | rollingBack | returned => rfl

theorem serverHas_bound {index : Nat} {result : Except String String} {rollbackId : String}
    (different : wireName ≠ (Op.add p).wireName t) :
    (r.step t (.add p) (.bound index result rollbackId)).sides.serverHas wireName = r.sides.serverHas wireName := by
  obtain ⟨sides, phase, inFlight, answers⟩ := r
  cases phase with
  | binding =>
    dsimp only [step]
    split
    next isOurs =>
      obtain ⟨b, isBinding, isWire⟩ := (Option.any_eq_true _ _).mp isOurs
      rw [Bool.and_eq_true, decide_eq_true_eq] at isWire
      refine serverHas_conclude rollbackId _ ?_
      rcases @bound_cases t _ _ _ isBinding result with ⟨e, -, -, sameEntries⟩ | ⟨addr, -, registers⟩
      · exact congrArg (AList.lookup _) sameEntries
      · rw [isWire.1] at registers
        exact registers.others wireName different
    · rfl
  | asking | accepted | rollingBack | returned => rfl

theorem clientHas_bound {index : Nat} {result : Except String String} {rollbackId : String} :
    (r.step t (.add p) (.bound index result rollbackId)).sides.clientHas name = r.sides.clientHas name := by
  obtain ⟨sides, phase, inFlight, answers⟩ := r
  cases phase with
  | binding =>
    dsimp only [step]
    split
    · exact clientHas_conclude rollbackId _ _
    · rfl
  | asking | accepted | rollingBack | returned => rfl

theorem clientHas_register {answer : Answer} {rollbackId : String} :
    (r.step t (.add p) (.register answer rollbackId)).sides.clientHas name = r.sides.clientHas name := by
  obtain ⟨sides, phase, inFlight, answers⟩ := r
  cases phase with
  | accepted => exact clientHas_conclude rollbackId _ _
  | asking | binding | rollingBack | returned => rfl

theorem untouched_step (different : name ≠ p.name) (differentWire : wireName ≠ (Op.add p).wireName t)
    (progress : r.Progress t p before) (untouched : r.Untouched name wireName before) {event : Event}
    (spares : r.Spares t (.add p) name wireName event) :
    (r.step t (.add p) event).Untouched name wireName before := by
  obtain ⟨sameClient, sameServer⟩ := untouched
  cases event with
  | client e => exact ⟨spares.trans sameClient, sameServer⟩
  | server e => exact ⟨sameClient, spares.trans sameServer⟩
  | delivered => exact ⟨(clientHas_deliver different progress).trans sameClient, serverHas_deliver.trans sameServer⟩
  | answered =>
    rw [Untouched, step, sides_answer]
    exact ⟨sameClient, sameServer⟩
  | gaveUp reason => exact ⟨sameClient, sameServer⟩
  | lost => exact ⟨sameClient, sameServer⟩
  | register answer rollbackId =>
    exact ⟨clientHas_register.trans sameClient, (serverHas_register differentWire progress).trans sameServer⟩
  | bound index result rollbackId =>
    exact ⟨clientHas_bound.trans sameClient, (serverHas_bound differentWire).trans sameServer⟩

theorem sides_begin (id : String) : (begin t before id (.add p)).sides = before := by
  rw [begin]
  repeat' split
  all_goals rfl

end Untouched

/-- The tables under the name of what is removed, at each point of the request. -/
def Removing (name : String) (r : Request) : Prop :=
  let localName := (Op.remove name).localName t
  match r.phase with
  | .asking id =>
    r.sides.serverHas ((Op.remove name).wireName t) = none ∧
      (r.inFlight = [removeCmd id localName] ∧ r.answers = [] ∨
        r.inFlight = [] ∧ ((∀ resp ∈ r.answers, resp.error ≠ "") ∨ r.sides.clientHas localName = none))
  | .returned (.ok _) => r.inFlight = [] ∧ r.sides.Lacks t (.remove name)
  | .returned (.error _) => True
  | .accepted | .binding | .rollingBack _ _ => False

section Removing

variable {t} {name : String} {r : Request}

theorem removing_begin (before : Sides) (id : String) : (begin t before id (.remove name)).Removing t name := by
  rw [begin]
  split
  · exact trivial
  split
  · exact trivial
  · exact ⟨AList.lookup_erase _ before.server.entries, .inl ⟨rfl, rfl⟩⟩

theorem removing_deliver (removing : r.Removing t name) : r.deliver.Removing t name := by
  by_cases isIdle : r.inFlight = []
  · rw [deliver_of_nil isIdle]
    exact removing
  obtain ⟨cmd, rest, isNext⟩ := List.exists_cons_of_ne_nil isIdle
  have delivered := deliver_of_cons isNext
  obtain ⟨sides, phase, inFlight, answers⟩ := r
  obtain rfl : inFlight = cmd :: rest := isNext
  cases phase with
  | asking id =>
    obtain ⟨noEntry, ⟨isRemove, noAnswer⟩ | ⟨noCommand, -⟩⟩ := removing
    · obtain ⟨rfl, rfl⟩ := List.cons.inj isRemove
      obtain rfl : answers = [] := noAnswer
      rw [delivered]
      refine ⟨noEntry, .inr ⟨rfl, ?_⟩⟩
      by_cases refuses : Refuses sides.client (removeCmd id ((Op.remove name).localName t))
      · exact .inl refuses
      · exact .inr (lookup_of_not_refuses refuses)
    · cases noCommand
  | accepted | binding | rollingBack => exact removing.elim
  | returned result =>
    cases result with
    | ok text => cases removing.1
    | error e =>
      rw [delivered]
      exact trivial

theorem removing_answer (removing : r.Removing t name) : (r.answer (.remove name)).Removing t name := by
  obtain ⟨sides, phase, inFlight, answers⟩ := r
  cases answers with
  | nil => exact removing
  | cons resp rest =>
    cases phase with
    | asking id =>
      obtain ⟨noEntry, ⟨-, noAnswer⟩ | ⟨rfl, tables⟩⟩ := removing
      · cases noAnswer
      · rw [answer]
        dsimp only
        split
        · exact ⟨noEntry, .inr ⟨rfl, tables.imp_left fun refused other isLater =>
            refused other (List.mem_cons_of_mem resp isLater)⟩⟩
        split
        · exact trivial
        next succeeded =>
          rcases tables with refused | absent
          · exact absurd (refused resp List.mem_cons_self) succeeded
          · exact ⟨rfl, absent, noEntry⟩
    | accepted | binding | rollingBack => exact removing.elim
    | returned result =>
      cases result with
      | ok text => exact removing
      | error e => exact trivial

theorem removing_giveUp (reason : String) (removing : r.Removing t name) : (r.giveUp reason).Removing t name := by
  obtain ⟨sides, phase, inFlight, answers⟩ := r
  cases phase with
  | asking id => exact trivial
  | accepted | binding | rollingBack => exact removing.elim
  | returned result => exact removing

theorem removing_lost (removing : r.Removing t name) : Removing t name { r with inFlight := [], answers := [] } := by
  obtain ⟨sides, phase, inFlight, answers⟩ := r
  cases phase with
  | asking id => exact ⟨removing.1, .inr ⟨rfl, .inl nofun⟩⟩
  | accepted | binding | rollingBack => exact removing.elim
  | returned result =>
    cases result with
    | ok text => exact ⟨rfl, removing.2⟩
    | error e => exact trivial

theorem Removing.of_spared {s : Sides} (removing : r.Removing t name)
    (sameClient : s.clientHas ((Op.remove name).localName t) = r.sides.clientHas ((Op.remove name).localName t))
    (sameServer : s.serverHas ((Op.remove name).wireName t) = r.sides.serverHas ((Op.remove name).wireName t)) :
    Removing t name { r with sides := s } := by
  rw [Removing] at removing ⊢
  simp only [Sides.Lacks] at removing ⊢
  rw [sameClient, sameServer]
  exact removing

theorem removing_step (removing : r.Removing t name) {event : Event}
    (spares : r.Spares t (.remove name) ((Op.remove name).localName t) ((Op.remove name).wireName t) event) :
    (r.step t (.remove name) event).Removing t name := by
  cases event with
  | client e => exact removing.of_spared spares rfl
  | server e => exact removing.of_spared rfl spares
  | delivered => exact removing_deliver removing
  | answered => exact removing_answer removing
  | gaveUp reason => exact removing_giveUp reason removing
  | lost => exact removing_lost removing
  | register answer rollbackId | bound index result rollbackId =>
    obtain ⟨sides, phase, inFlight, answers⟩ := r
    cases phase with
    | asking | accepted | binding | rollingBack | returned => exact removing

theorem Removing.kept {before : Sides} (removing : r.Removing t name) : r.Kept t (.remove name) before := by
  obtain ⟨sides, phase, inFlight, answers⟩ := r
  cases phase with
  | asking | accepted | binding | rollingBack => exact trivial
  | returned result =>
    cases result with
    | ok text => exact removing.2
    | error e => exact trivial

end Removing

end Request

section Whole

open Request

variable {t} {before : Sides} {id : String} {events : List Event}

theorem progress_run {p : ProxyConfig}
    (fair : RunMeets (step t (.add p)) (Fair t (.add p) before) (begin t before id (.add p)) events) :
    (run (step t (.add p)) (begin t before id (.add p)) events).Progress t p before := by
  refine @run_invariant_of_meets _ _ _ _ (Progress t p before) ?_ _ (progress_begin id) _ fair
  exact fun r event fair progress => progress_step progress fair

theorem untouched_run {p : ProxyConfig} {name wireName : String} (different : name ≠ p.name)
    (differentWire : wireName ≠ (Op.add p).wireName t)
    (fair : RunMeets (step t (.add p)) (Fair t (.add p) before) (begin t before id (.add p)) events)
    (spares : RunMeets (step t (.add p)) (Spares t (.add p) name wireName) (begin t before id (.add p)) events) :
    (run (step t (.add p)) (begin t before id (.add p)) events).Untouched name wireName before := by
  have initially : (begin t before id (.add p)).Untouched name wireName before := by
    rw [Untouched, sides_begin]
    exact ⟨rfl, rfl⟩
  refine (@run_invariant_of_meets _ _ _ _ (fun r => Progress t p before r ∧ Untouched name wireName before r) ?_ _
    ⟨progress_begin id, initially⟩ _ (runMeets_and.mpr ⟨fair, spares⟩)).2
  intro r event met invariants
  exact ⟨progress_step invariants.1 met.1, untouched_step different differentWire invariants.1 invariants.2 met.2⟩

theorem removing_run {name : String}
    (fair : RunMeets (step t (.remove name)) (Fair t (.remove name) before) (begin t before id (.remove name)) events) :
    (run (step t (.remove name)) (begin t before id (.remove name)) events).Removing t name := by
  refine @run_invariant_of_meets _ _ _ _ (Removing t name) ?_ _ (removing_begin before id) _ fair
  exact fun r event fair removing => removing_step removing fair.1

end Whole

def deskTerms : Terms where
  cfg := { allowPorts := [⟨6000, 6010⟩] }
  rbac := {}
  user := ""
  role := Role.unrestricted
  isRole := rfl

def deskProxy (remotePort : Nat) : ProxyConfig where
  name := "web"
  localAddr := "127.0.0.1:80"
  remotePort := remotePort

def desk (client : ProxyTable) (server : Proxies) : Sides where
  client := ⟨{}, ⟨false, ∅⟩, client, some ⟨true, true, .serving⟩⟩
  server := server

def newDesk : Sides := desk ⟨∅⟩ {}

def usedDesk : Sides :=
  desk ⟨AList.insert "web" ⟨deskProxy 6000, .dynamic⟩ ∅⟩
    (Proxies.enter {} (Proxies.wire "" (deskProxy 6000)) "0.0.0.0:6000")

/-- The client takes the proxy, the server does not, and the client takes it out again. -/
def refusedRun : List Event :=
  [.delivered, .answered, .register {} "2", .delivered, .answered]

def afterRefusal (before : Sides) : Request :=
  run (Request.step deskTerms (.add (deskProxy 22))) (begin deskTerms before "1" (.add (deskProxy 22))) refusedRun

end Nfrp.Panel
