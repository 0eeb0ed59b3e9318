import Nfrp.Nlink.Commit
import Nfrp.Server.Withdrawal

/-!
# What is left after a resumption

A client whose session goes on announces its proxies again and says which it still has;
the server closes those that are not named.  For a client that never says so it closes,
after ten seconds, what was not announced again.
-/

namespace Nfrp

open Lib

/-- A list of names, chunk by chunk, and when the session of the client was last taken up;
`confirmed` are the proxies that were registered or adopted since and are still there. -/
structure Resuming where
  life : Lifecycle.State
  commitAsm : Nlink.CommitAssembler := .new
  resumedAt : Option Nat := none
  confirmed : List String := []

/-- A call of anybody, and what the loop of the client's connection does by itself. -/
inductive ResumeEvent where
  | call (event : Lifecycle.Event)
  | nlink (ids : RunIds) (f : Nlink.Frame)
  | tick (ids : RunIds)

/-- The proxy that a call registers for the client or adopts. -/
def Lifecycle.State.enters (client : Nat) (s : Lifecycle.State) : Lifecycle.Event → Option String
  | .newProxy cfg user ids net other m =>
    if other = client then
      (s.registry.tables.registerProxy cfg user ids net client m).2.toOption.map fun _ => m.proxyName
    else none
  | _ => none

namespace Resuming

variable (client : Nat)

def proxies (s : Resuming) : Proxies := s.life.registry.tables.clients client

def served (s : Resuming) : Bool := s.life.hand.any (·.serves? = some client)

def Resumes (s : Resuming) : Lifecycle.Event → Prop
  | .reattach _ entry => entry.client = client ∧ .taken entry ∈ s.life.hand
  | _ => False

instance (s : Resuming) (event : Lifecycle.Event) : Decidable (s.Resumes client event) := by
  unfold Resumes
  split <;> infer_instance

def recount (names : List String) (s : Resuming) : Resuming :=
  { s with confirmed := names.filter fun name => ((s.proxies client).entries.lookup name).isSome }

/-- The proxies of these names are closed, and the resumption is over. -/
def settle (ids : RunIds) (names : List String) (s : Resuming) : Resuming :=
  ({ s with
      life := s.life.onTables fun t => (t.closeAll ids client names).finishResume client
      resumedAt := none } : Resuming).recount client s.confirmed

def onResumeCommit (ids : RunIds) (f : Nlink.Frame) (s : Resuming) : Resuming :=
  match Nlink.onResumeCommit s.commitAsm f with
  | none => s
  | some (commitAsm, none) => { s with commitAsm }
  | some (commitAsm, some wanted) =>
    { s with commitAsm }.settle client ids ((s.proxies client).proxyNames.filter (· ∉ wanted))

def step (s : Resuming) : ResumeEvent → Resuming
  | .call event =>
    if s.Resumes client event then { life := s.life.step event, resumedAt := some s.life.clock }
    else { s with life := s.life.step event }.recount client (s.confirmed ++ (s.life.enters client event).toList)
  | .nlink ids f =>
    if s.served client ∧ f.kind = .resumeCommit ∧ (s.proxies client).resumedSession then s.onResumeCommit client ids f
    else s
  | .tick ids =>
    if s.served client ∧ (s.proxies client).resumedSession ∧
        ∃ at_ ∈ s.resumedAt, at_ + 10 * Nlink.second ≤ s.life.clock then
      s.settle client ids (s.proxies client).staleProxies
    else s

def start (maxClients maxProxies : Nat) (vhosts : Bool) : Resuming where
  life := .start maxClients maxProxies vhosts

/-- The step closes what the client no longer has, by the names it has sent if it sent any. -/
def Reconciles (s : Resuming) : ResumeEvent → Option (List String) → Prop
  | .nlink _ f, some names =>
    s.served client ∧ f.kind = .resumeCommit ∧ (s.proxies client).resumedSession ∧
      ∃ asm, Nlink.onResumeCommit s.commitAsm f = some (asm, some names)
  | .tick _, none =>
    s.served client ∧ (s.proxies client).resumedSession ∧ ∃ at_ ∈ s.resumedAt, at_ + 10 * Nlink.second ≤ s.life.clock
  | _, _ => False

/-- Only what was confirmed is left, and named if names were sent, and nothing is left of
the others that were there when the session waited. -/
structure Confirmed (waited : ProxyMap) (named : Option (List String)) (before after : Resuming) : Prop where
  registered : ∀ name, ((after.proxies client).entries.lookup name).isSome ↔
    name ∈ before.confirmed ∧ ∀ names ∈ named, name ∈ names
  freed : ∀ name entry, waited.lookup name = some entry → (after.proxies client).entries.lookup name = none →
    after.life.registry.tables.Gone client name entry

/-- What is named is left if it is there, and without names what was confirmed; nothing is
left of what is closed. -/
structure Reconciled (named : Option (List String)) (before after : Resuming) : Prop where
  registered : ∀ name entry, (after.proxies client).entries.lookup name = some entry ↔
    (before.proxies client).entries.lookup name = some entry ∧ named.elim (name ∈ before.confirmed) (name ∈ ·)
  confirmed : ∀ name ∈ before.confirmed, ((before.proxies client).entries.lookup name).isSome
  closed : ∀ name entry, (before.proxies client).entries.lookup name = some entry →
    (after.proxies client).entries.lookup name = none → after.life.registry.tables.Gone client name entry

/-- What is refused under this name leaves nothing behind. -/
def Spotless (name : String) (s : Resuming) : ResumeEvent → Prop
  | .call (.newProxy cfg user ids net other m) =>
    let t := s.life.registry.tables
    other = client → m.proxyName = name → ∀ r, (t.registerProxy cfg user ids net client m).2 = .error r →
      ¬(if ((t.clients client).entries.lookup name).isSome then (t.closeProxyByName ids client name).1
        else t).LeavesBehind cfg user net client m
  | _ => True

end Resuming

namespace Tables

/-- The client has this name only at such ports, and elsewhere only if it is listed. -/
abbrev Within (client : Nat) (name : String) (taken : Nat → Prop) (listed : Prop) (t : Tables) : Prop :=
  t.Holds (PortTable.Each fun port b => b = ⟨client, name⟩ → taken port)
    (VhostTable.Each fun route => route.client = client → route.proxyName = name.toList → listed)
    (VisitorTable.Each fun at_ visitor => at_ = name → visitor.client = client → listed)

/-- What the client has under this name belongs to a proxy that is there. -/
def Backed (client : Nat) (name : String) (t : Tables) : Prop :=
  t.Within client name (fun port => ∃ entry, (t.clients client).entries.lookup name = some entry ∧ entry.port = some port)
    ((t.clients client).entries.lookup name).isSome

variable {cfg : ServerConfig} {user : Nat → String} {ids : RunIds} {net : Net} {client other : Nat} {name : String}
  {names : List String} {entry : ProxyEntry} {m : NewProxy} {t : Tables} {taken : Nat → Prop} {listed : Prop}

theorem closes_within (ids : RunIds) (other : Nat) :
    Closes ids other (PortTable.Each fun port b => b = ⟨client, name⟩ → taken port)
      (VhostTable.Each fun route => route.client = client → route.proxyName = name.toList → listed)
      (VisitorTable.Each fun at_ visitor => at_ = name → visitor.client = client → listed) :=
  closes_each ids other

theorem Within.mono (within : t.Within client name taken listed) {moreTaken : Nat → Prop} {alsoListed : Prop}
    (ports : ∀ port, taken port → moreTaken port) (lists : listed → alsoListed) :
    t.Within client name moreTaken alsoListed where
  ports port g found b isMember same := ports port (within.ports port g found b isMember same)
  vhosts table isTable route has own isName := lists (within.vhosts table isTable route has own isName)
  visitors at_ visitor found isName own := lists (within.visitors at_ visitor found isName own)

theorem Within.gone (within : t.Within client name (· ∉ entry.port) False)
    (unlisted : (t.clients client).entries.lookup name = none) : t.Gone client name entry where
  unlisted := unlisted
  port port isPort isMember := by
    rw [PortTable.members] at isMember
    cases found : t.ports port with
    | none => simp [found] at isMember
    | some g => exact within.ports port g found _ (by simpa [found] using isMember) rfl isPort
  routes table isTable route has own := within.vhosts table isTable route has own.1 own.2
  visitor visitor isVisitor := within.visitors name visitor isVisitor rfl

theorem Gone.within (gone : t.Gone client name entry) : t.Within client name (· ∉ entry.port) False where
  ports port g found b isMember same isPort := by
    subst same
    exact gone.port port isPort (PortTable.members_of_some found ▸ isMember)
  vhosts table isTable route has own isName := gone.routes table isTable route has ⟨own, isName⟩
  visitors at_ visitor found isName own := gone.visitor visitor (isName ▸ found) own

theorem Backed.nowhere (backed : t.Backed client name) (unlisted : (t.clients client).entries.lookup name = none) :
    t.Within client name (fun _ => False) False := by
  refine Within.mono backed ?_ ?_
  · rintro port ⟨entry, found, -⟩
    cases unlisted.symm.trans found
  · intro listed
    rw [unlisted] at listed
    cases listed

theorem Backed.gone (backed : t.Backed client name) (unlisted : (t.clients client).entries.lookup name = none) :
    t.Gone client name entry :=
  Within.gone ((backed.nowhere unlisted).mono (fun _ => False.elim) id) unlisted

theorem Backed.same_entries (backed : t.Backed client name) {clients : Nat → Proxies} {proxies : Proxies}
    (isClient : clients client = proxies) (same : proxies.entries = (t.clients client).entries) :
    ({ t with clients } : Tables).Backed client name := by
  show ({ t with clients } : Tables).Within client name
    (fun port => ∃ entry, (clients client).entries.lookup name = some entry ∧ entry.port = some port)
    ((clients client).entries.lookup name).isSome
  rw [isClient, same]
  exact ⟨backed.ports, backed.vhosts, backed.visitors⟩

theorem Within.backed (within : t.Within client name (fun _ => False) False) : t.Backed client name :=
  within.mono (fun _ => False.elim) False.elim

theorem lookup_closeProxyByName {closed : String} :
    ((t.closeProxyByName ids client closed).1.clients client).entries.lookup name =
      if name = closed then none else (t.clients client).entries.lookup name := by
  rw [clients_closeProxyByName, Function.update_self, Proxies.stopProxy, lookup_erase_eq]

theorem Gone.closeProxyByName {closed : String} (gone : t.Gone client name entry) :
    (t.closeProxyByName ids client closed).1.Gone client name entry := by
  refine Within.gone (gone.within.closeProxyByName (closes_within ids client)) ?_
  rw [lookup_closeProxyByName, gone.unlisted]
  exact ite_self none

theorem clients_closeProxyByName_of_ne (different : client ≠ other) :
    (t.closeProxyByName ids other name).1.clients client = t.clients client := by
  rw [clients_closeProxyByName, Function.update_of_ne different]

theorem Within.closed (within : t.Within client name taken listed) {closed : String} :
    (t.closeProxyByName ids other closed).1.Within client name taken listed :=
  within.closeProxyByName (closes_within ids other)

theorem Backed.closed (backed : t.Backed client name) :
    (t.closeProxyByName ids client name).1.Within client name (fun _ => False) False := by
  cases found : (t.clients client).entries.lookup name with
  | none => exact (backed.nowhere found).closed
  | some entry =>
    have gone : (t.closeProxyByName ids client name).1.Gone client name entry := gone_closeProxyByName found
    have within : (t.closeProxyByName ids client name).1.Within client name
        (fun port => ∃ entry, (t.clients client).entries.lookup name = some entry ∧ entry.port = some port)
        ((t.clients client).entries.lookup name).isSome := Within.closed backed
    refine ⟨fun port g isGroup b isMember same => ?_, fun table isTable route has own isName => ?_,
      fun at_ visitor isVisitor isName own => ?_⟩
    · obtain ⟨other, isOther, isPort⟩ := within.ports port g isGroup b isMember same
      obtain rfl := Option.some.inj (found.symm.trans isOther)
      exact gone.within.ports port g isGroup b isMember same isPort
    · exact gone.within.vhosts table isTable route has own isName
    · exact gone.within.visitors at_ visitor isVisitor isName own

theorem Backed.closeProxyByName {closed : String} (backed : t.Backed client name) :
    (t.closeProxyByName ids other closed).1.Backed client name := by
  by_cases same : client = other
  · subst same
    by_cases isName : name = closed
    · subst isName
      exact backed.closed.backed
    · have sameLookup := @lookup_closeProxyByName ids client name t closed
      rw [if_neg isName] at sameLookup
      rw [Backed, sameLookup]
      exact Within.closed backed
  · rw [Backed, clients_closeProxyByName_of_ne same]
    exact Within.closed backed

theorem lookup_closeAll : ((t.closeAll ids client names).clients client).entries.lookup name =
    if name ∈ names then none else (t.clients client).entries.lookup name := by
  induction names generalizing t with
  | nil => rfl
  | cons closed rest ih =>
    show ((closeAll ids client rest (t.closeProxyByName ids client closed).1).clients client).entries.lookup name = _
    rw [ih, lookup_closeProxyByName]
    by_cases isLater : name ∈ rest
    · rw [if_pos isLater, if_pos (List.mem_cons_of_mem _ isLater)]
    · rw [if_neg isLater]
      exact if_congr (by simp [isLater]) rfl rfl

theorem gone_closeAll (found : (t.clients client).entries.lookup name = some entry) (isClosed : name ∈ names) :
    (t.closeAll ids client names).Gone client name entry := by
  have kept : ∀ (names : List String) (t : Tables), t.Gone client name entry →
      (t.closeAll ids client names).Gone client name entry := by
    intro names
    induction names with
    | nil => exact fun t gone => gone
    | cons closed rest ih => exact fun t gone => ih _ gone.closeProxyByName
  induction names generalizing t with
  | nil => exact absurd isClosed List.not_mem_nil
  | cons closed rest ih =>
    by_cases isFirst : name = closed
    · subst isFirst
      exact kept rest _ (gone_closeProxyByName found)
    · refine ih ?_ ((List.mem_cons.mp isClosed).resolve_left isFirst)
      rw [lookup_closeProxyByName, if_neg isFirst]
      exact found

theorem Backed.closeAll (backed : t.Backed client name) : (t.closeAll ids client names).Backed client name := by
  induction names generalizing t with
  | nil => exact backed
  | cons closed rest ih => exact ih backed.closeProxyByName

theorem Tidy.closeAll (tidy : t.Tidy) : (t.closeAll ids client names).Tidy := by
  induction names generalizing t with
  | nil => exact tidy
  | cons closed rest ih =>
    exact ih (tidy.closeProxyByName (stable_tidy (fun _ => "") ids client closed).toCloses)

/-- What a registration makes of the proxies of its client. -/
inductive Registers (m : NewProxy) (before : Proxies) : Proxies → Except Refusal (String × Bool) → Prop where
  | adopted (addr : String) (outcome : String × Bool) (present : (before.entries.lookup m.proxyName).isSome) :
      Registers m before (before.adopt m.proxyName (proxySignature m) addr) (.ok outcome)
  | entered (addr : String) (outcome : String × Bool) :
      Registers m before ((before.stopProxy m.proxyName).enter m addr) (.ok outcome)
  | refused (r : Refusal) : Registers m before before (.error r)
  | closed (r : Refusal) : Registers m before (before.stopProxy m.proxyName) (.error r)

theorem registers_registerAfresh {before : Proxies} (isClosed : t.clients client = before.stopProxy m.proxyName) :
    ∃ after, (t.registerAfresh cfg user ids net client m).1.clients = Function.update t.clients client after ∧
      Registers m before after (t.registerAfresh cfg user ids net client m).2 := by
  cases registered : t.registerAfresh cfg user ids net client m with
  | mk after outcome =>
    cases outcome with
    | ok outcome =>
      obtain ⟨addr, isEntered⟩ := clients_registerAfresh registered
      rw [isClosed] at isEntered
      exact ⟨_, isEntered, .entered addr outcome⟩
    | error r =>
      have same := clients_registerAfresh_error (congrArg Prod.snd registered)
      rw [registered] at same
      refine ⟨before.stopProxy m.proxyName, ?_, .closed r⟩
      rw [← isClosed, Function.update_eq_self]
      exact same

theorem registers_registerProxy : ∃ after,
    (t.registerProxy cfg user ids net client m).1.clients = Function.update t.clients client after ∧
      Registers m (t.clients client) after (t.registerProxy cfg user ids net client m).2 := by
  rw [registerProxy]
  split
  · exact ⟨_, (Function.update_eq_self ..).symm, .refused _⟩
  dsimp only
  split
  next addr isReused =>
    refine ⟨_, rfl, .adopted addr _ ?_⟩
    split at isReused
    · obtain ⟨entry, isEntry, -⟩ := Option.map_eq_some_iff.mp isReused
      exact Option.isSome_of_eq_some (Option.filter_eq_some_iff.mp isEntry).1
    · cases isReused
  · split
    · have isClosed : ((t.closeProxyByName ids client m.proxyName).1.clients) client =
          (t.clients client).stopProxy m.proxyName := by
        rw [clients_closeProxyByName, Function.update_self]
      obtain ⟨after, isAfter, registers⟩ := @registers_registerAfresh cfg user ids net client m _ _ isClosed
      refine ⟨after, ?_, registers⟩
      rw [isAfter, clients_closeProxyByName, Function.update_idem]
    next absent =>
      have same := stopProxy_of_absent (Option.not_isSome_iff_eq_none.mp absent)
      exact registers_registerAfresh same.symm

theorem Registers.lookup_of_ne {before after : Proxies} {outcome : Except Refusal (String × Bool)}
    (registers : Registers m before after outcome) (different : name ≠ m.proxyName) :
    after.entries.lookup name = before.entries.lookup name := by
  cases registers with
  | adopted addr outcome present =>
    rw [Proxies.adopt]
    split
    · exact AList.lookup_insert_ne different
    · rfl
  | entered addr outcome =>
    exact (AList.lookup_insert_ne different).trans (AList.lookup_erase_ne different)
  | refused r => rfl
  | closed r => exact AList.lookup_erase_ne different

theorem Backed.registerProxy_of_ne (backed : t.Backed client name) (different : ¬(other = client ∧ m.proxyName = name)) :
    (t.registerProxy cfg user ids net other m).1.Backed client name := by
  have stable : Stable user ids other m.proxyName
      (PortTable.Each fun port b => b = ⟨client, name⟩ →
        ∃ entry, (t.clients client).entries.lookup name = some entry ∧ entry.port = some port)
      (VhostTable.Each fun route => route.client = client → route.proxyName = name.toList →
        ((t.clients client).entries.lookup name).isSome)
      (VisitorTable.Each fun at_ visitor => at_ = name → visitor.client = client →
        ((t.clients client).entries.lookup name).isSome) := by
    refine stable_each user ids (fun port same => ?_) (fun route own isName same isOther => ?_)
      fun visitor own isName isOther same => ?_
    · exact absurd (Backend.mk.inj same) different
    · exact absurd ⟨own.symm.trans same, String.toList_injective (isName.symm.trans isOther)⟩ different
    · exact absurd ⟨own.symm.trans same, isOther⟩ different
  have sameLookup : ((t.registerProxy cfg user ids net other m).1.clients client).entries.lookup name =
      (t.clients client).entries.lookup name := by
    obtain ⟨after, isAfter, registers⟩ := @registers_registerProxy cfg user ids net other m t
    rw [isAfter]
    by_cases same : client = other
    · subst same
      rw [Function.update_self]
      exact registers.lookup_of_ne fun isName => different ⟨rfl, isName.symm⟩
    · rw [Function.update_of_ne same]
  rw [Backed, sameLookup]
  exact Holds.registerProxy stable backed

theorem ports_closeProxyByName_of_notMem {port : Nat} (found : (t.clients client).entries.lookup name = some entry)
    (notPort : entry.port ≠ some port) : (t.closeProxyByName ids client name).1.ports port = t.ports port := by
  rw [Tables.closeProxyByName]
  simp only [found]
  cases isPort : entry.port with
  | none => rfl
  | some own => exact PortTable.releasePort_of_ne fun same => notPort (same ▸ isPort)

theorem Same.nowhere {after : Tables} (same : after.Same t) (isTidy : after.Tidy) (tidy : t.Tidy)
    (nowhere : t.Within client name (fun _ => False) False) : after.Within client name (fun _ => False) False where
  ports := same.ports ▸ nowhere.ports
  vhosts table isTable route has own isName := by
    have tables := same.routes
    rw [isTable] at tables
    obtain ⟨other, isOther, listed⟩ := Option.map_eq_some_iff.mp tables.symm
    refine nowhere.vhosts other isOther route ?_ own isName
    rw [VhostTable.has_iff_listed (tidy.vhosts other isOther), listed]
    exact (VhostTable.has_iff_listed (isTidy.vhosts table isTable)).mp has
  visitors := same.visitors ▸ nowhere.visitors

/-- A new proxy has the port of its entry, and one that is refused has nothing if nothing is
left behind. -/
theorem backed_registerAfresh (nowhere : t.Within client m.proxyName (fun _ => False) False)
    (unlisted : (t.clients client).entries.lookup m.proxyName = none) (tidy : t.Tidy) (named : m.proxyName ≠ "")
    (spotless : ∀ r, (t.registerAfresh cfg user ids net client m).2 = .error r → ¬t.LeavesBehind cfg user net client m) :
    (t.registerAfresh cfg user ids net client m).1.Backed client m.proxyName := by
  have isTidy : (t.registerAfresh cfg user ids net client m).1.Tidy :=
    tidy.registerAfresh (stable_tidy user ids client m.proxyName)
  cases registered : t.registerAfresh cfg user ids net client m with
  | mk after outcome =>
    rw [registered] at isTidy
    cases outcome with
    | error r =>
      have refused : (t.registerAfresh cfg user ids net client m).2 = .error r := congrArg Prod.snd registered
      have same := (registerAfresh_same_iff named refused).mpr (spotless r refused)
      rw [registered] at same
      exact (same.nowhere isTidy tidy nowhere).backed
    | ok outcome =>
      obtain ⟨addr, isEntered⟩ := clients_registerAfresh registered
      have found : (after.clients client).entries.lookup m.proxyName = some
          { m.entry with
            remoteAddr := addr, signature := proxySignature m, seenEpoch := (t.clients client).resumeEpoch } := by
        rw [isEntered, Function.update_self]
        exact lookup_enter
      have gone : t.Gone client m.proxyName m.entry := Within.gone (nowhere.mono (fun _ => False.elim) id) unlisted
      have same := same_closeProxyByName_registerAfresh gone tidy registered
      refine ⟨fun port g isGroup b isMember isOwn => ?_, fun _ _ _ _ _ _ => Option.isSome_of_eq_some found,
        fun _ _ _ _ _ => Option.isSome_of_eq_some found⟩
      by_contra elsewhere
      have notPort : m.entry.port ≠ some port := fun isPort => elsewhere ⟨_, found, isPort⟩
      rw [← @ports_closeProxyByName_of_notMem ids _ _ _ _ _ found notPort, same.ports] at isGroup
      exact nowhere.ports port g isGroup b isMember isOwn

theorem Backed.adopt (backed : t.Backed client name) (signature addr : String) :
    (t.withClient client ((t.clients client).adopt name signature addr)).Backed client name := by
  have kept : ∀ entry, (t.clients client).entries.lookup name = some entry →
      ((Function.update t.clients client ((t.clients client).adopt name signature addr)) client).entries.lookup name =
        some { entry with remoteAddr := addr, signature, seenEpoch := (t.clients client).resumeEpoch } := by
    intro entry found
    rw [Function.update_self, Proxies.adopt, found]
    exact AList.lookup_insert _
  refine Within.mono (t := t.withClient client _) ⟨backed.ports, backed.vhosts, backed.visitors⟩ ?_ ?_
  · rintro port ⟨entry, found, isPort⟩
    exact ⟨_, kept entry found, isPort⟩
  · intro listed
    obtain ⟨entry, found⟩ := Option.isSome_iff_exists.mp listed
    exact Option.isSome_of_eq_some (kept entry found)

theorem Backed.registerProxy (backed : t.Backed client m.proxyName) (tidy : t.Tidy)
    (spotless : ∀ r, (t.registerProxy cfg user ids net client m).2 = .error r →
      ¬(if ((t.clients client).entries.lookup m.proxyName).isSome then (t.closeProxyByName ids client m.proxyName).1
        else t).LeavesBehind cfg user net client m) :
    (t.registerProxy cfg user ids net client m).1.Backed client m.proxyName := by
  rw [Tables.registerProxy] at spotless ⊢
  split at spotless
  next noName =>
    rw [if_pos noName]
    exact backed
  next named =>
    rw [if_neg named]
    dsimp only at spotless ⊢
    split at spotless
    next addr isReused => exact backed.adopt _ addr
    next notReused =>
      have isFresh : ((t.closeProxyByName ids client m.proxyName).1.clients client).entries.lookup m.proxyName = none := by
        rw [lookup_closeProxyByName, if_pos rfl]
      have isTidy : (t.closeProxyByName ids client m.proxyName).1.Tidy :=
        tidy.closeProxyByName (stable_tidy user ids client m.proxyName).toCloses
      split at spotless
      next present =>
        rw [if_pos present]
        exact backed_registerAfresh backed.closed isFresh isTidy named spotless
      next absent =>
        rw [if_neg absent]
        have unlisted := Option.not_isSome_iff_eq_none.mp absent
        exact backed_registerAfresh (backed.nowhere unlisted) unlisted tidy named spotless

end Tables

/-- The confirmed proxies are those of this epoch, and none is of a later one. -/
structure Stamped (confirmed : List String) (p : Proxies) : Prop where
  bound : ∀ name entry, p.entries.lookup name = some entry → entry.seenEpoch ≤ p.resumeEpoch
  stamp : ∀ name, name ∈ confirmed ↔ ∃ entry, p.entries.lookup name = some entry ∧ entry.seenEpoch = p.resumeEpoch

structure Fewer (before after : Proxies) : Prop where
  epoch : after.resumeEpoch = before.resumeEpoch
  entries : ∀ name entry, after.entries.lookup name = some entry → before.entries.lookup name = some entry

namespace Stamped

variable {before after : Proxies} {confirmed : List String} {name : String}

theorem fewer (stamped : Stamped confirmed before) (fewer : Fewer before after) :
    Stamped (confirmed.filter fun name => (after.entries.lookup name).isSome) after where
  bound name entry found := fewer.epoch ▸ stamped.bound name entry (fewer.entries name entry found)
  stamp name := by
    rw [List.mem_filter, stamped.stamp, fewer.epoch]
    constructor
    · rintro ⟨⟨entry, found, isSeen⟩, stays⟩
      obtain ⟨other, isOther⟩ := Option.isSome_iff_exists.mp stays
      obtain rfl := Option.some.inj (found.symm.trans (fewer.entries name other isOther))
      exact ⟨entry, isOther, isSeen⟩
    · rintro ⟨entry, found, isSeen⟩
      exact ⟨⟨entry, fewer.entries name entry found, isSeen⟩, Option.isSome_of_eq_some found⟩

theorem see (stamped : Stamped confirmed before) (epoch : after.resumeEpoch = before.resumeEpoch) {seen : ProxyEntry}
    (found : after.entries.lookup name = some seen) (isSeen : seen.seenEpoch = before.resumeEpoch)
    (others : ∀ other, other ≠ name → after.entries.lookup other = before.entries.lookup other) :
    Stamped ((confirmed ++ [name]).filter fun name => (after.entries.lookup name).isSome) after where
  bound other entry isEntry := by
    by_cases same : other = name
    · subst same
      obtain rfl := Option.some.inj (found.symm.trans isEntry)
      exact (isSeen.trans epoch.symm).le
    · rw [others other same] at isEntry
      exact epoch ▸ stamped.bound other entry isEntry
  stamp other := by
    rw [List.mem_filter, List.mem_append, List.mem_singleton, epoch]
    by_cases same : other = name
    · subst same
      exact iff_of_true ⟨.inr rfl, Option.isSome_of_eq_some found⟩ ⟨seen, found, isSeen⟩
    · rw [or_iff_left same, others other same, stamped.stamp]
      constructor
      · exact And.left
      · rintro ⟨entry, isEntry, isStamped⟩
        exact ⟨⟨entry, isEntry, isStamped⟩, Option.isSome_of_eq_some isEntry⟩

theorem rebind (stamped : Stamped confirmed before) (resumed : Bool) :
    Stamped [] { before with resumedSession := resumed, resumeEpoch := before.resumeEpoch + 1 } where
  bound name entry found := (stamped.bound name entry found).trans (Nat.le_succ _)
  stamp name := by
    refine iff_of_false List.not_mem_nil ?_
    rintro ⟨entry, found, isSeen⟩
    exact absurd (stamped.bound name entry found) (by rw [isSeen]; exact Nat.not_succ_le_self _)

theorem isSome (stamped : Stamped confirmed before) (isConfirmed : name ∈ confirmed) :
    (before.entries.lookup name).isSome := by
  obtain ⟨entry, found, -⟩ := (stamped.stamp name).mp isConfirmed
  exact Option.isSome_of_eq_some found

end Stamped

theorem fewer_stopProxy (p : Proxies) (name : String) : Fewer p (p.stopProxy name) :=
  ⟨rfl, fun _ _ => lookup_of_erase⟩

theorem Tables.Registers.stamped {m : NewProxy} {before after : Proxies} {outcome : Except Refusal (String × Bool)}
    (registers : Tables.Registers m before after outcome) {confirmed : List String} (stamped : Stamped confirmed before) :
    Stamped ((confirmed ++ (outcome.toOption.map fun _ => m.proxyName).toList).filter
      fun name => (after.entries.lookup name).isSome) after := by
  have others : ∀ other, other ≠ m.proxyName → after.entries.lookup other = before.entries.lookup other :=
    fun other different => registers.lookup_of_ne different
  cases registers with
  | adopted addr outcome present =>
    obtain ⟨entry, found⟩ := Option.isSome_iff_exists.mp present
    have isAdopted : before.adopt m.proxyName (proxySignature m) addr =
        { before with
          entries := before.entries.insert m.proxyName
            { entry with remoteAddr := addr, signature := proxySignature m, seenEpoch := before.resumeEpoch } } := by
      rw [Proxies.adopt, found]
    rw [isAdopted] at others ⊢
    exact stamped.see rfl (AList.lookup_insert _) rfl others
  | entered addr outcome => exact stamped.see rfl (AList.lookup_insert _) rfl others
  | refused r =>
    rw [show (Except.toOption (.error r : Except Refusal (String × Bool))) = none from rfl, Option.map_none,
      Option.toList_none, List.append_nil]
    exact stamped.fewer ⟨rfl, fun _ _ => id⟩
  | closed r =>
    rw [show (Except.toOption (.error r : Except Refusal (String × Bool))) = none from rfl, Option.map_none,
      Option.toList_none, List.append_nil]
    exact stamped.fewer (fewer_stopProxy before _)

namespace Resuming

variable {client : Nat} {s : Resuming} {ids : RunIds} {name : String} {names : List String} {entry : ProxyEntry}

theorem enduring_fewer (before : Proxies) : Lifecycle.Enduring fun t => Fewer before (t.clients client) where
  cleanup := by
    intro t ids other kept
    by_cases same : client = other
    · subst same
      have emptied : (t.cleanupClient ids client).clients client = { t.clients client with entries := ∅ } :=
        Function.update_self ..
      rw [emptied]
      exact ⟨kept.epoch, nofun⟩
    · have spared : (t.cleanupClient ids other).clients client = t.clients client := Function.update_of_ne same ..
      rw [spared]
      exact kept
  release kept := kept

/-- Calls that do not register for the client, and do not take it up, bring it nothing new. -/
theorem fewer_call {event : Lifecycle.Event} (foreign : ∀ cfg user ids net m, event ≠ .newProxy cfg user ids net client m)
    (goesOn : ¬s.Resumes client event) :
    Fewer (s.proxies client) ((s.life.step event).registry.tables.clients client) := by
  refine Lifecycle.State.kept_step (enduring_fewer (s.proxies client)) event ⟨rfl, fun _ _ => id⟩ ?_ ?_ ?_
  · rintro cfg user ids net other m rfl
    have different : client ≠ other := fun same => foreign cfg user ids net m (same ▸ rfl)
    obtain ⟨after, isAfter, -⟩ := @Tables.registers_registerProxy cfg user ids net other m s.life.registry.tables
    rw [isAfter, Function.update_of_ne different]
    exact ⟨rfl, fun _ _ => id⟩
  · rintro ids other name -
    rw [Tables.clients_closeProxyByName]
    by_cases same : client = other
    · subst same
      rw [Function.update_self]
      exact fewer_stopProxy _ name
    · rw [Function.update_of_ne same]
      exact ⟨rfl, fun _ _ => id⟩
  · rintro ids entry rfl isHeld
    have different : client ≠ entry.client := fun same => goesOn ⟨same.symm, isHeld⟩
    have kept : (s.life.registry.tables.rebindControl entry.client).clients client =
        s.life.registry.tables.clients client := Function.update_of_ne different ..
    rw [kept]
    exact ⟨rfl, fun _ _ => id⟩

theorem proxies_settle : (s.settle client ids names).proxies client =
    { (s.life.registry.tables.closeAll ids client names).clients client with resumedSession := false } :=
  Function.update_self ..

theorem lookup_settle : ((s.settle client ids names).proxies client).entries.lookup name =
    if name ∈ names then none else (s.proxies client).entries.lookup name := by
  rw [proxies_settle]
  exact Tables.lookup_closeAll

theorem gone_settle (found : (s.proxies client).entries.lookup name = some entry) (isClosed : name ∈ names) :
    (s.settle client ids names).life.registry.tables.Gone client name entry := by
  have gone : (s.life.registry.tables.closeAll ids client names).Gone client name entry :=
    Tables.gone_closeAll found isClosed
  refine ⟨?_, gone.port, gone.routes, gone.visitor⟩
  have lookup := @lookup_settle client s ids name names
  rw [if_pos isClosed] at lookup
  exact lookup

theorem stamped_settle (stamped : Stamped s.confirmed (s.proxies client)) :
    Stamped (s.settle client ids names).confirmed ((s.settle client ids names).proxies client) := by
  have epochs : ∀ (names : List String) (t : Tables),
      ((t.closeAll ids client names).clients client).resumeEpoch = (t.clients client).resumeEpoch := by
    intro names
    induction names with
    | nil => exact fun t => rfl
    | cons closed rest ih =>
      intro t
      refine (ih _).trans ?_
      rw [Tables.clients_closeProxyByName, Function.update_self]
      rfl
  refine stamped.fewer ⟨?_, fun name entry found => ?_⟩
  · show ((s.settle client ids names).proxies client).resumeEpoch = (s.proxies client).resumeEpoch
    rw [proxies_settle]
    exact epochs names _
  · have isLeft : ((s.settle client ids names).proxies client).entries.lookup name = some entry := found
    rw [lookup_settle] at isLeft
    split at isLeft
    · cases isLeft
    · exact isLeft

/-- What closing proxies keeps, and the calls of anybody, every step keeps. -/
theorem kept_step (kept : Tables → Prop) (event : ResumeEvent)
    (settles : ∀ ids names, kept s.life.registry.tables →
      kept ((s.life.registry.tables.closeAll ids client names).finishResume client))
    (calls : ∀ call, event = .call call → kept s.life.registry.tables → kept (s.life.step call).registry.tables)
    (holds : kept s.life.registry.tables) : kept (s.step client event).life.registry.tables := by
  cases event with
  | call event =>
    have called := calls event rfl holds
    rw [step]
    split
    · exact called
    · exact called
  | nlink ids f =>
    rw [step]
    split
    · rw [onResumeCommit]
      split
      · exact holds
      · exact holds
      · exact settles ids _ holds
    · exact holds
  | tick ids =>
    rw [step]
    split
    · exact settles ids _ holds
    · exact holds

theorem tidy_step (event : ResumeEvent) (tidy : s.life.registry.tables.Tidy) :
    (s.step client event).life.registry.tables.Tidy := by
  refine kept_step (fun t => t.Tidy) event (fun ids names tidy => ?_) (fun call _ tidy => ?_) tidy
  · have closed : (s.life.registry.tables.closeAll ids client names).Tidy := tidy.closeAll
    exact ⟨closed.ports, closed.vhosts, closed.visitors⟩
  · exact Lifecycle.upheld_tidy.step call tidy

theorem enduring_backed : Lifecycle.Enduring fun t => t.Backed client name where
  cleanup := by
    intro t ids other backed
    by_cases same : client = other
    · subst same
      have cleared : (t.cleanupClient ids client).Clear client := Tables.clear_cleanupClient
      refine Tables.Within.backed ⟨fun port g found b isMember same => ?_, fun table isTable route has own _ => ?_,
        fun at_ visitor found _ own => ?_⟩
      · exact cleared.ports port g found b isMember (congrArg Backend.client same)
      · exact cleared.vhosts table isTable route has own
      · exact cleared.visitors at_ visitor found own
    · have spared : (t.cleanupClient ids other).clients client = t.clients client := Function.update_of_ne same ..
      rw [Tables.Backed, spared]
      refine ⟨PortTable.Each.releasePortsOf backed.ports, fun table isTable => ?_,
        VisitorTable.Each.unregisterClient backed.visitors⟩
      obtain ⟨old, isOld, rfl⟩ := Option.mem_map.mp isTable
      exact VhostTable.Each.unregisterClient (backed.vhosts old isOld) other
  release backed := ⟨PortTable.Each.releasePortsOf backed.ports, backed.vhosts, backed.visitors⟩

theorem backed_step (event : ResumeEvent) (spotless : s.Spotless client name event)
    (tidy : s.life.registry.tables.Tidy) (backed : s.life.registry.tables.Backed client name) :
    (s.step client event).life.registry.tables.Backed client name := by
  refine kept_step (fun t => t.Backed client name) event (fun ids names backed => ?_) ?_ backed
  · have closed : (s.life.registry.tables.closeAll ids client names).Backed client name := backed.closeAll
    exact closed.same_entries (Function.update_self ..) rfl
  · rintro call rfl backed
    refine Lifecycle.State.kept_step enduring_backed call backed ?_ ?_ ?_
    · rintro cfg user ids net other m rfl
      by_cases same : other = client ∧ m.proxyName = name
      · obtain ⟨rfl, rfl⟩ := same
        exact backed.registerProxy tidy (spotless rfl rfl)
      · exact backed.registerProxy_of_ne same
    · rintro ids other closed -
      exact backed.closeProxyByName
    · rintro ids entry - -
      by_cases same : client = entry.client
      · subst same
        exact backed.same_entries (Function.update_self ..) rfl
      · exact backed.same_entries (Function.update_of_ne same ..) rfl

theorem stamped_step (event : ResumeEvent) (stamped : Stamped s.confirmed (s.proxies client)) :
    Stamped (s.step client event).confirmed ((s.step client event).proxies client) := by
  cases event with
  | call event =>
    rw [step]
    split
    next resumes =>
      cases event with
      | reattach ids entry =>
        obtain ⟨rfl, isHeld⟩ := resumes
        have rebound : (s.life.step (.reattach ids entry)).registry.tables.clients entry.client =
            { s.proxies entry.client with
              resumedSession := true
              resumeEpoch := (s.proxies entry.client).resumeEpoch + 1 } := by
          rw [Lifecycle.State.step, Lifecycle.State.onHeld, if_pos isHeld]
          exact Function.update_self ..
        show Stamped [] ((s.life.step (.reattach ids entry)).registry.tables.clients entry.client)
        rw [rebound]
        exact stamped.rebind true
      | _ => exact resumes.elim
    next goesOn =>
      by_cases own : ∃ cfg user ids net m, event = .newProxy cfg user ids net client m
      · obtain ⟨cfg, user, ids, net, m, rfl⟩ := own
        obtain ⟨after, isAfter, registers⟩ :=
          @Tables.registers_registerProxy cfg user ids net client m s.life.registry.tables
        have isClient : (s.life.step (.newProxy cfg user ids net client m)).registry.tables.clients client = after := by
          show (s.life.registry.tables.registerProxy cfg user ids net client m).1.clients client = after
          rw [isAfter, Function.update_self]
        have isEntered : s.life.enters client (.newProxy cfg user ids net client m) =
            (s.life.registry.tables.registerProxy cfg user ids net client m).2.toOption.map fun _ => m.proxyName :=
          if_pos rfl
        have seen := registers.stamped stamped
        rw [← isClient, ← isEntered] at seen
        exact seen
      · have foreign : ∀ cfg user ids net m, event ≠ .newProxy cfg user ids net client m :=
          fun cfg user ids net m isOwn => own ⟨cfg, user, ids, net, m, isOwn⟩
        have nothing : s.life.enters client event = none := by
          cases event with
          | newProxy cfg user ids net other m =>
            exact if_neg fun same : other = client => foreign cfg user ids net m (same ▸ rfl)
          | _ => rfl
        rw [nothing, Option.toList_none, List.append_nil]
        exact stamped.fewer (fewer_call foreign goesOn)
  | nlink ids f =>
    rw [step]
    split
    · rw [onResumeCommit]
      split
      · exact stamped
      · exact stamped
      · exact stamped_settle stamped
    · exact stamped
  | tick ids =>
    rw [step]
    split
    · exact stamped_settle stamped
    · exact stamped

theorem mem_staleProxies {p : Proxies} :
    name ∈ p.staleProxies ↔ ∃ entry, p.entries.lookup name = some entry ∧ entry.seenEpoch ≠ p.resumeEpoch := by
  rw [Proxies.staleProxies, List.mem_insertionSort, List.mem_map]
  constructor
  · rintro ⟨⟨name, entry⟩, isStale, rfl⟩
    obtain ⟨isEntry, old⟩ := List.mem_filter.mp isStale
    exact ⟨entry, lookup_eq_some_iff.mpr isEntry, of_decide_eq_true old⟩
  · rintro ⟨entry, found, old⟩
    exact ⟨⟨name, entry⟩, List.mem_filter.mpr ⟨lookup_eq_some_iff.mp found, decide_eq_true old⟩, rfl⟩

theorem mem_proxyNames {p : Proxies} : name ∈ p.proxyNames ↔ (p.entries.lookup name).isSome := by
  rw [Proxies.proxyNames, List.mem_insertionSort, AList.lookup_isSome]
  rfl

theorem reconciled_settle {named : Option (List String)} (stamped : Stamped s.confirmed (s.proxies client))
    (closes : ∀ name, name ∈ names ↔
      ((s.proxies client).entries.lookup name).isSome ∧ ¬named.elim (name ∈ s.confirmed) (name ∈ ·)) :
    Reconciled client named s (s.settle client ids names) where
  registered name entry := by
    rw [lookup_settle]
    constructor
    · intro found
      split at found
      · cases found
      next isLeft =>
        refine ⟨found, ?_⟩
        by_contra unnamed
        exact isLeft ((closes name).mpr ⟨Option.isSome_of_eq_some found, unnamed⟩)
    · rintro ⟨found, isNamed⟩
      rw [if_neg fun isClosed => ((closes name).mp isClosed).2 isNamed]
      exact found
  confirmed name isConfirmed := stamped.isSome isConfirmed
  closed name entry found unlisted := by
    refine gone_settle found ?_
    by_contra isLeft
    rw [lookup_settle, if_neg isLeft, found] at unlisted
    cases unlisted

theorem Reconciled.commitAsm {asm : Nlink.CommitAssembler} {named : Option (List String)} {after : Resuming}
    (reconciled : Reconciled client named { s with commitAsm := asm } after) : Reconciled client named s after :=
  ⟨reconciled.registered, reconciled.confirmed, reconciled.closed⟩

theorem reconciled_step {event : ResumeEvent} {named : Option (List String)}
    (stamped : Stamped s.confirmed (s.proxies client)) (reconciles : s.Reconciles client event named) :
    Reconciled client named s (s.step client event) := by
  cases event with
  | call event =>
    cases named with
    | none => exact reconciles.elim
    | some names => exact reconciles.elim
  | nlink ids f =>
    cases named with
    | none => exact reconciles.elim
    | some names =>
      obtain ⟨served, isCommit, resumed, asm, isList⟩ := reconciles
      rw [step, if_pos ⟨served, isCommit, resumed⟩, onResumeCommit, isList]
      refine Reconciled.commitAsm (reconciled_settle stamped fun name => ?_)
      rw [List.mem_filter, mem_proxyNames, decide_eq_true_iff]
      rfl
  | tick ids =>
    cases named with
    | some names => exact reconciles.elim
    | none =>
      have isSettled : s.step client (.tick ids) = s.settle client ids (s.proxies client).staleProxies :=
        if_pos reconciles
      rw [isSettled]
      refine reconciled_settle stamped fun name => ?_
      rw [mem_staleProxies, Option.elim_none, stamped.stamp]
      constructor
      · rintro ⟨entry, found, old⟩
        refine ⟨Option.isSome_of_eq_some found, ?_⟩
        rintro ⟨other, isOther, isSeen⟩
        obtain rfl := Option.some.inj (found.symm.trans isOther)
        exact old isSeen
      · rintro ⟨listed, unseen⟩
        obtain ⟨entry, found⟩ := Option.isSome_iff_exists.mp listed
        exact ⟨entry, found, fun isSeen => unseen ⟨entry, found, isSeen⟩⟩

theorem tidy_start (maxClients maxProxies : Nat) (vhosts : Bool) :
    (start maxClients maxProxies vhosts).life.registry.tables.Tidy :=
  Lifecycle.tidy_run maxClients maxProxies vhosts []

theorem stamped_run (maxClients maxProxies : Nat) (vhosts : Bool) (events : List ResumeEvent) :
    Stamped (run (step client) (start maxClients maxProxies vhosts) events).confirmed
      ((run (step client) (start maxClients maxProxies vhosts) events).proxies client) := by
  have steps : ∀ (s : Resuming) (event : ResumeEvent), Stamped s.confirmed (s.proxies client) →
      Stamped (s.step client event).confirmed ((s.step client event).proxies client) := fun s event => stamped_step event
  refine @run_invariant _ _ _ (fun s : Resuming => Stamped s.confirmed (s.proxies client)) steps _ ?_ events
  refine ⟨nofun, fun name => iff_of_false List.not_mem_nil ?_⟩
  rintro ⟨entry, found, -⟩
  cases found

theorem backed_start (maxClients maxProxies : Nat) (vhosts : Bool) (name : String) :
    (start maxClients maxProxies vhosts).life.registry.tables.Backed client name := by
  refine ⟨nofun, fun table isTable route has => ?_, nofun⟩
  cases vhosts with
  | false => cases isTable
  | true =>
    obtain rfl := Option.some.inj isTable
    rcases has with ⟨key, routes, found, -⟩ | ⟨key, routes, found, -⟩
    · cases found
    · cases found

theorem backed_run {maxClients maxProxies : Nat} {vhosts : Bool} {events : List ResumeEvent}
    (spotless : RunMeets (step client) (Spotless client name) (start maxClients maxProxies vhosts) events) :
    (run (step client) (start maxClients maxProxies vhosts) events).life.registry.tables.Tidy ∧
      (run (step client) (start maxClients maxProxies vhosts) events).life.registry.tables.Backed client name := by
  have steps : ∀ (s : Resuming) (event : ResumeEvent), s.Spotless client name event →
      s.life.registry.tables.Tidy ∧ s.life.registry.tables.Backed client name →
        (s.step client event).life.registry.tables.Tidy ∧ (s.step client event).life.registry.tables.Backed client name :=
    fun s event spotless both => ⟨tidy_step event both.1, backed_step event spotless both.1 both.2⟩
  exact @run_invariant_of_meets _ _ _ _ (fun s : Resuming => s.life.registry.tables.Tidy ∧
    s.life.registry.tables.Backed client name) steps _
      ⟨tidy_start maxClients maxProxies vhosts, backed_start maxClients maxProxies vhosts name⟩ events spotless

theorem Reconciles.spotless {event : ResumeEvent} {named : Option (List String)}
    (reconciles : s.Reconciles client event named) (name : String) : s.Spotless client name event := by
  cases event with
  | call event => cases named <;> exact reconciles.elim
  | nlink ids f => exact trivial
  | tick ids => exact trivial

end Resuming

/-- After a reconciliation the proxies are those that were named, or else those that were
confirmed, and nothing is left of the others, now or of any time before, unless something of
a refused one. -/
theorem resuming_reconciled (client maxClients maxProxies : Nat) (vhosts : Bool) (begun resumed : List ResumeEvent)
    {event : ResumeEvent} {named : Option (List String)} {waited before after : Resuming}
    (isWaited : waited = run (Resuming.step client) (.start maxClients maxProxies vhosts) begun)
    (isBefore : before = run (Resuming.step client) waited resumed) (isAfter : after = before.step client event)
    (reconciles : before.Reconciles client event named) :
    Resuming.Reconciled client named before after ∧
      ∀ name entry, (waited.proxies client).entries.lookup name = some entry →
        (after.proxies client).entries.lookup name = none →
          RunMeets (Resuming.step client) (Resuming.Spotless client name) (.start maxClients maxProxies vhosts)
              (begun ++ resumed) →
            after.life.registry.tables.Gone client name entry := by
  subst isWaited isBefore isAfter
  rw [← run_append] at reconciles ⊢
  refine ⟨Resuming.reconciled_step (Resuming.stamped_run maxClients maxProxies vhosts _) reconciles, ?_⟩
  intro name entry _ unlisted spotless
  obtain ⟨tidy, backed⟩ := Resuming.backed_run spotless
  exact (Resuming.backed_step event (reconciles.spotless name) tidy backed).gone unlisted

/-- The connection of the till is lost, and another takes its session up. -/
def tillReturns : List ResumeEvent :=
  [.call (.detach "" 0 (some 0)), .call (.suspend .counted Lifecycle.tillSession "" 0 (some 0) "shop" "till" 60),
    .call (.take .counted Lifecycle.tillSession "shop" "till"), .call (.reattach Lifecycle.laterRuns Lifecycle.tillEntry)]

def tillAnnounces (net : Net) (m : NewProxy) : ResumeEvent :=
  .call (.newProxy shopConfig (fun _ => "shop") .counted net 0 m)

def tillShell : NewProxy :=
  { shopProxy "tcp" 6000 [] with proxyName := "shop.ssh" }

def tillOpens : List ResumeEvent :=
  [.call (.register .counted), tillAnnounces (shopNet none) (Lifecycle.shopSite "shop.web"),
    tillAnnounces (shopNet (some "0.0.0.0:6000")) tillShell]

def tillBack (again : List ResumeEvent) : Resuming :=
  run (Resuming.step 0) (run (Resuming.step 0) (.start 1 5 true) tillOpens) (tillReturns ++ again)

def tillReopens : List ResumeEvent :=
  [tillAnnounces (shopNet none) (Lifecycle.shopSite "shop.web"), .call (.elapsed (10 * Nlink.second))]

/-- The site is left, and nothing of the shell. -/
theorem resuming_reconciled_till :
    ((((tillBack tillReopens).step 0 (.tick .counted)).proxies 0).entries.lookup "shop.web").isSome ∧
      ∀ entry, ((tillBack tillReopens).proxies 0).entries.lookup "shop.ssh" = some entry →
        ((tillBack tillReopens).step 0 (.tick .counted)).life.registry.tables.Gone 0 "shop.ssh" entry := by
  have reconciles : (tillBack tillReopens).Reconciles 0 (.tick .counted) none :=
    ⟨by decide +kernel, by decide +kernel, 0, by decide +kernel, by decide +kernel⟩
  have isBefore : tillBack tillReopens =
      run (Resuming.step 0) (run (Resuming.step 0) (.start 1 5 true) tillOpens) (tillReturns ++ tillReopens) := rfl
  obtain ⟨reconciled, -⟩ := resuming_reconciled 0 1 5 true tillOpens (tillReturns ++ tillReopens) rfl isBefore rfl reconciles
  have announced : "shop.web" ∈ (tillBack tillReopens).confirmed := by decide +kernel
  have unlisted : (((tillBack tillReopens).step 0 (.tick .counted)).proxies 0).entries.lookup "shop.ssh" = none := by
    decide +kernel
  constructor
  · obtain ⟨entry, found⟩ := Option.isSome_iff_exists.mp (reconciled.confirmed "shop.web" announced)
    exact Option.isSome_of_eq_some ((reconciled.registered "shop.web" entry).mpr ⟨found, announced⟩)
  · exact fun entry found => reconciled.closed "shop.ssh" entry found unlisted

/-- The till announces its shell again at an address that does not resolve. -/
def tillLeaves : Resuming :=
  tillBack [tillAnnounces (shopNet none) { tillShell with useEncryption := true }]

/-- What is named is left though it was not announced again; and a shell that was refused
keeps its port though nothing is named. -/
theorem not_confirmed_till :
    (tillBack []).Reconciles 0 (.nlink .counted (Nlink.commitFrame ["shop.web"])) (some ["shop.web"]) ∧
      ¬Resuming.Confirmed 0 ((tillBack []).proxies 0).entries (some ["shop.web"]) (tillBack [])
        ((tillBack []).step 0 (.nlink .counted (Nlink.commitFrame ["shop.web"]))) ∧
      tillLeaves.Reconciles 0 (.nlink .counted (Nlink.commitFrame [])) (some []) ∧
      ¬Resuming.Confirmed 0 ((tillBack []).proxies 0).entries (some []) tillLeaves
        (tillLeaves.step 0 (.nlink .counted (Nlink.commitFrame []))) := by
  refine ⟨⟨by decide +kernel, rfl, by decide +kernel, .new, ?_⟩, fun confirmed => ?_,
    ⟨by decide +kernel, rfl, by decide +kernel, .new, ?_⟩, fun confirmed => ?_⟩
  · decide +kernel
  · have isLeft : (((tillBack []).step 0 (.nlink .counted (Nlink.commitFrame ["shop.web"]))).proxies 0).entries.lookup
        "shop.web" ≠ none := by decide +kernel
    have isNamed := (confirmed.registered "shop.web").mp (Option.isSome_iff_ne_none.mpr isLeft)
    exact absurd isNamed.1 (by decide +kernel)
  · decide +kernel
  · have hasShell : ((tillBack []).proxies 0).entries.lookup "shop.ssh" = some
        { tillShell.entry with
          remoteAddr := "0.0.0.0:6000"
          signature := proxySignature tillShell } := by decide +kernel
    have gone := confirmed.freed "shop.ssh" _ hasShell (by decide +kernel)
    exact absurd (gone.port 6000 (by decide +kernel)) (by decide +kernel)

end Nfrp
