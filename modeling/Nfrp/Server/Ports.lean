import Nfrp.Server.Register

/-!
# Who has a port

A port is held by one proxy, or by a group of proxies of one user that know the name and
the key of the group.  Clients are numbered; the id of a run, which a client is told by
too, changes when it comes back.
-/

namespace Nfrp

open Lib

@[ext]
structure Backend where
  client : Nat
  proxyName : String
  deriving DecidableEq, Repr

/-- `handle` is the listener of the port, once there is one. -/
structure PortGroup where
  name : String
  key : String
  ownerUser : String
  members : List Backend
  handle : Option Nat := none
  deriving DecidableEq, Repr

structure RunIds where
  of : Nat → String
  injective : Function.Injective of

def RunIds.sameClient (ids : RunIds) (a b : Nat) : Bool :=
  a == b || ids.of a == ids.of b

@[simp]
theorem RunIds.sameClient_eq (ids : RunIds) (a b : Nat) : ids.sameClient a b = decide (a = b) := by
  by_cases same : a = b
  · simp [sameClient, same]
  · have different : ids.of a ≠ ids.of b := fun equal => same (ids.injective equal)
    simp [sameClient, same, different]

def RunIds.counted : RunIds where
  of n := String.ofList (List.replicate n '0')
  injective a b same := by
    have sameLength := congrArg (fun id => id.toList.length) same
    simpa using sameLength

namespace PortGroup

variable (ids : RunIds)

def new (name key user : String) (client : Nat) (proxyName : String) : PortGroup where
  name := name
  key := key
  ownerUser := user
  members := [⟨client, proxyName⟩]

def remove (client : Nat) (proxyName : String) (g : PortGroup) : PortGroup :=
  { g with members := g.members.filter fun b => !(ids.sameClient b.client client && b.proxyName == proxyName) }

def push (client : Nat) (proxyName : String) (g : PortGroup) : PortGroup :=
  { g with members := (g.remove ids client proxyName).members ++ [⟨client, proxyName⟩] }

def removeAllOf (client : Nat) (g : PortGroup) : PortGroup :=
  { g with members := g.members.filter fun b => !ids.sameClient b.client client }

def Admits (g : PortGroup) (user group groupKey : String) : Prop :=
  g.name ≠ "" ∧ g.ownerUser = user ∧ g.name = group ∧ g.key = groupKey

instance (g : PortGroup) (user group groupKey : String) : Decidable (g.Admits user group groupKey) :=
  inferInstanceAs (Decidable (_ ∧ _ ∧ _ ∧ _))

def kept (g : PortGroup) : Option PortGroup :=
  if g.members = [] then none else some g

variable {ids} {client : Nat} {proxyName : String} {g : PortGroup} {b : Backend}

theorem mem_remove : b ∈ (g.remove ids client proxyName).members ↔ b ∈ g.members ∧ b ≠ ⟨client, proxyName⟩ := by
  simp [remove, Backend.ext_iff, imp_iff_not_or]

theorem mem_push : b ∈ (g.push ids client proxyName).members ↔ b ∈ g.members ∨ b = ⟨client, proxyName⟩ := by
  simp only [push, List.mem_append, mem_remove, List.mem_singleton]
  tauto

theorem mem_removeAllOf : b ∈ (g.removeAllOf ids client).members ↔ b ∈ g.members ∧ b.client ≠ client := by
  simp [removeAllOf]

theorem kept_eq_some_iff {other : PortGroup} : g.kept = some other ↔ g.members ≠ [] ∧ g = other := by
  simp [kept]

end PortGroup

abbrev PortTable := Nat → Option PortGroup

namespace PortTable

variable (user : Nat → String) (ids : RunIds)

def taken (port : Nat) : String :=
  s!"端口 {port} 已被占用（可能与 group / group_key 配置有关，详情见服务端日志）"

def reservePort (port : Nat) (group groupKey proxyName : String) (client : Nat) (t : PortTable) :
    PortTable × Except String PortClaim :=
  match t port with
  | none => (Function.update t port (some (.new group groupKey (user client) client proxyName)), .ok .fresh)
  | some g =>
    if g.name = "" then (t, .error (taken port))
    else if group = "" then (t, .error (taken port))
    else if g.ownerUser ≠ user client then (t, .error (taken port))
    else if g.name ≠ group then (t, .error (taken port))
    else if g.key ≠ groupKey then (t, .error (taken port))
    else (Function.update t port (some (g.push ids client proxyName)), .ok .joined)

def attachListener (port handle : Nat) (t : PortTable) : PortTable :=
  Function.update t port ((t port).map fun g => { g with handle := some handle })

def releasePort (port client : Nat) (proxyName : String) (t : PortTable) : PortTable :=
  Function.update t port ((t port).bind fun g => (g.remove ids client proxyName).kept)

def releasePortsOf (client : Nat) (t : PortTable) : PortTable :=
  fun port => (t port).bind fun g => (g.removeAllOf ids client).kept

def members (t : PortTable) (port : Nat) : List Backend :=
  ((t port).map PortGroup.members).getD []

theorem eq_some_of_update {t : PortTable} {port other : Nat} {entry : Option PortGroup} {g : PortGroup}
    (found : Function.update t port entry other = some g) : other = port ∧ entry = some g ∨ other ≠ port ∧ t other = some g := by
  by_cases same : other = port
  · subst same
    rw [Function.update_self] at found
    exact .inl ⟨rfl, found⟩
  · rw [Function.update_of_ne same] at found
    exact .inr ⟨same, found⟩

variable {user ids} {t : PortTable} {port other client : Nat} {group groupKey proxyName : String} {g : PortGroup}

/-- What a reservation finds: nobody, a group that admits it, or someone else. -/
theorem reservePort_cases :
    (t port = none ∧ t.reservePort user ids port group groupKey proxyName client =
        (Function.update t port (some (.new group groupKey (user client) client proxyName)), .ok .fresh)) ∨
      (∃ g, t port = some g ∧ g.Admits (user client) group groupKey ∧
        t.reservePort user ids port group groupKey proxyName client =
          (Function.update t port (some (g.push ids client proxyName)), .ok .joined)) ∨
      ∃ g, t port = some g ∧ ¬g.Admits (user client) group groupKey ∧
        t.reservePort user ids port group groupKey proxyName client = (t, .error (taken port)) := by
  cases found : t port with
  | none => exact .inl ⟨rfl, by rw [reservePort, found]⟩
  | some g =>
    by_cases joins : g.Admits (user client) group groupKey
    · obtain ⟨named, sameUser, rfl, rfl⟩ := joins
      exact .inr (.inl ⟨g, rfl, ⟨named, sameUser, rfl, rfl⟩, by simp [reservePort, found, named, sameUser]⟩)
    · refine .inr (.inr ⟨g, rfl, joins, ?_⟩)
      simp only [reservePort, found]
      split_ifs with unnamed ungrouped foreign otherName otherKey
      · rfl
      · rfl
      · rfl
      · rfl
      · rfl
      · exact absurd ⟨unnamed, not_not.mp foreign, not_not.mp otherName, not_not.mp otherKey⟩ joins

theorem releasePort_self : t.releasePort ids port client proxyName port =
    (t port).bind fun g => (g.remove ids client proxyName).kept :=
  Function.update_self ..

theorem releasePort_of_ne (different : other ≠ port) : t.releasePort ids port client proxyName other = t other :=
  Function.update_of_ne different ..

theorem attachListener_of_ne {handle : Nat} (different : other ≠ port) : t.attachListener port handle other = t other :=
  Function.update_of_ne different ..

theorem members_of_some (found : t port = some g) : t.members port = g.members := by
  rw [members, found, Option.map_some, Option.getD_some]

theorem members_kept : ((g.kept).map PortGroup.members).getD [] = g.members := by
  by_cases empty : g.members = []
  · simp [PortGroup.kept, empty]
  · simp [PortGroup.kept, empty]

theorem members_releasePort : (t.releasePort ids port client proxyName).members port =
    (t.members port).filter (· ≠ ⟨client, proxyName⟩) := by
  rw [members, releasePort_self]
  cases found : t port with
  | none => simp [members, found]
  | some g =>
    rw [Option.bind_some, members_kept, members_of_some found, PortGroup.remove]
    refine List.filter_congr fun b _ => ?_
    simp [Backend.ext_iff, beq_eq_decide]

theorem members_releasePortsOf : (t.releasePortsOf ids client).members port =
    (t.members port).filter (·.client ≠ client) := by
  rw [members, releasePortsOf]
  cases found : t port with
  | none => simp [members, found]
  | some g =>
    rw [Option.bind_some, members_kept, members_of_some found, PortGroup.removeAllOf]
    refine List.filter_congr fun b _ => ?_
    simp

end PortTable

inductive PortOp where
  | reserve (port : Nat) (group groupKey proxyName : String) (client : Nat)
  | attach (port handle : Nat)
  | release (port client : Nat) (proxyName : String)
  | releaseOf (client : Nat)

/-- The runs of the clients are what they are when the call is made. -/
structure PortCall where
  ids : RunIds
  op : PortOp

/-- Beside the table, the group and the key that each asked for when it was last given the port. -/
structure PortState where
  table : PortTable := fun _ => none
  asked : Nat → Backend → String × String := fun _ _ => ("", "")

namespace PortState

variable (user : Nat → String)

def step (s : PortState) (call : PortCall) : PortState :=
  match call.op with
  | .reserve port group groupKey proxyName client =>
    let (table, claim) := s.table.reservePort user call.ids port group groupKey proxyName client
    match claim with
    | .ok _ =>
      { table, asked := Function.update s.asked port (Function.update (s.asked port) ⟨client, proxyName⟩ (group, groupKey)) }
    | .error _ => { s with table }
  | .attach port handle => { s with table := s.table.attachListener port handle }
  | .release port client proxyName => { s with table := s.table.releasePort call.ids port client proxyName }
  | .releaseOf client => { s with table := s.table.releasePortsOf call.ids client }

end PortState

structure PortGroup.Valid (user : Nat → String) (g : PortGroup) : Prop where
  inhabited : g.members ≠ []
  oneUser : ∀ b ∈ g.members, user b.client = g.ownerUser
  alone : g.name = "" → g.members.length = 1
  unrepeated : g.members.Nodup

/-- Every entry is valid, and its members asked for its group with its key. -/
structure PortState.Sound (user : Nat → String) (s : PortState) : Prop where
  valid : ∀ port g, s.table port = some g → g.Valid user
  alike : ∀ port g, s.table port = some g → ∀ b ∈ g.members, s.asked port b = (g.name, g.key)

def PortState.Contained (user : Nat → String) (s : PortState) (call : PortCall) : Prop :=
  match call.op with
  | .reserve port group groupKey proxyName client =>
    ∀ reason, (s.table.reservePort user call.ids port group groupKey proxyName client).2 = .error reason →
      (s.step user call).table = s.table
  | .attach port _ =>
    (∀ other, (s.step user call).table.members other = s.table.members other) ∧
      ∀ other ≠ port, (s.step user call).table other = s.table other
  | .release port client proxyName =>
    (∀ other ≠ port, (s.step user call).table other = s.table other) ∧
      (s.step user call).table.members port = (s.table.members port).filter (· ≠ ⟨client, proxyName⟩) ∧
        ∀ g, (s.step user call).table port = some g → ∃ old, s.table port = some old ∧ { g with members := old.members } = old
  | .releaseOf client =>
    ∀ port, (s.step user call).table.members port = (s.table.members port).filter (·.client ≠ client) ∧
      ∀ g, (s.step user call).table port = some g → ∃ old, s.table port = some old ∧ { g with members := old.members } = old

namespace PortGroup

variable {user : Nat → String} {ids : RunIds} {g after : PortGroup} {client : Nat} {proxyName : String} {b : Backend}

theorem valid_new (name key : String) : (PortGroup.new name key (user client) client proxyName).Valid user where
  inhabited := List.cons_ne_nil _ _
  oneUser := by
    intro b isMember
    rw [List.mem_singleton.mp isMember]
    rfl
  alone _ := rfl
  unrepeated := List.nodup_singleton _

theorem Valid.filter (valid : g.Valid user) (stays : Backend → Bool)
    (isAfter : ({ g with members := g.members.filter stays } : PortGroup).kept = some after) : after.Valid user := by
  obtain ⟨inhabited, rfl⟩ := kept_eq_some_iff.mp isAfter
  refine ⟨inhabited, fun b isMember => valid.oneUser b (List.mem_of_mem_filter isMember), fun unnamed => ?_,
    valid.unrepeated.filter _⟩
  have alone := valid.alone unnamed
  have positive := List.length_pos_iff.mpr inhabited
  have fewer := List.length_filter_le stays g.members
  exact Nat.le_antisymm (alone ▸ fewer) positive

theorem Valid.push (valid : g.Valid user) (named : g.name ≠ "") (sameUser : g.ownerUser = user client) :
    (g.push ids client proxyName).Valid user where
  inhabited := by simp [PortGroup.push]
  oneUser := by
    intro b isMember
    rcases mem_push.mp isMember with isMember | rfl
    · exact valid.oneUser b isMember
    · exact sameUser.symm
  alone unnamed := absurd unnamed named
  unrepeated := by
    refine List.Nodup.append (valid.unrepeated.filter _) (List.nodup_singleton _) ?_
    intro b isMember isNew
    exact (mem_remove.mp isMember).2 (List.mem_singleton.mp isNew)

theorem exists_of_kept {stays : Backend → Bool}
    (isAfter : ({ g with members := g.members.filter stays } : PortGroup).kept = some after) :
    { after with members := g.members } = g := by
  obtain ⟨-, rfl⟩ := kept_eq_some_iff.mp isAfter
  rfl

end PortGroup

namespace PortState

variable {user : Nat → String} {s : PortState} {call : PortCall}

theorem sound_initially : ({} : PortState).Sound user where
  valid _ _ found := nomatch found
  alike _ _ found := nomatch found

theorem Sound.fewer (sound : s.Sound user) {table : PortTable}
    (lost : ∀ port g, table port = some g → s.table port = some g ∨
      ∃ old stays, s.table port = some old ∧ ({ old with members := old.members.filter stays } : PortGroup).kept = some g) :
    ({ s with table } : PortState).Sound user where
  valid port g found := by
    rcases lost port g found with same | ⟨old, stays, isOld, isAfter⟩
    · exact sound.valid port g same
    · exact (sound.valid port old isOld).filter stays isAfter
  alike port g found b isMember := by
    rcases lost port g found with same | ⟨old, stays, isOld, isAfter⟩
    · exact sound.alike port g same b isMember
    · obtain ⟨-, rfl⟩ := PortGroup.kept_eq_some_iff.mp isAfter
      exact sound.alike port old isOld b (List.mem_of_mem_filter isMember)

theorem sound_reserve (sound : s.Sound user) (ids : RunIds) (port : Nat) (group groupKey proxyName : String) (client : Nat) :
    (s.step user ⟨ids, .reserve port group groupKey proxyName client⟩).Sound user := by
  have others : ∀ other b, (other ≠ port ∨ b ≠ ⟨client, proxyName⟩) →
      Function.update s.asked port (Function.update (s.asked port) ⟨client, proxyName⟩ (group, groupKey)) other b =
        s.asked other b := by
    rintro other b (different | different)
    · rw [Function.update_of_ne different]
    · by_cases same : other = port
      · rw [same, Function.update_self, Function.update_of_ne different]
      · rw [Function.update_of_ne same]
  have own : Function.update s.asked port (Function.update (s.asked port) ⟨client, proxyName⟩ (group, groupKey)) port
      ⟨client, proxyName⟩ = (group, groupKey) := by
    rw [Function.update_self, Function.update_self]
  rcases @PortTable.reservePort_cases user ids s.table port client group groupKey proxyName with
    ⟨vacant, isFresh⟩ | ⟨g, isEntry, ⟨named, sameUser, rfl, rfl⟩, isJoined⟩ | ⟨g, -, -, isTaken⟩
  · simp only [step, isFresh]
    refine ⟨fun other g found => ?_, fun other g found b isMember => ?_⟩
    · rcases PortTable.eq_some_of_update found with ⟨-, isNew⟩ | ⟨-, found⟩
      · exact Option.some.inj isNew ▸ PortGroup.valid_new group groupKey
      · exact sound.valid other g found
    · rcases PortTable.eq_some_of_update found with ⟨rfl, isNew⟩ | ⟨different, found⟩
      · obtain rfl := Option.some.inj isNew
        rw [List.mem_singleton.mp isMember]
        exact own
      · exact (others other b (.inl different)).trans (sound.alike other g found b isMember)
  · simp only [step, isJoined]
    refine ⟨fun other h found => ?_, fun other h found b isMember => ?_⟩
    · rcases PortTable.eq_some_of_update found with ⟨-, isNew⟩ | ⟨-, found⟩
      · exact Option.some.inj isNew ▸ (sound.valid port g isEntry).push named sameUser
      · exact sound.valid other h found
    · rcases PortTable.eq_some_of_update found with ⟨rfl, isNew⟩ | ⟨different, found⟩
      · obtain rfl := Option.some.inj isNew
        by_cases new : b = ⟨client, proxyName⟩
        · rw [new]
          exact own
        · have isOld := (PortGroup.mem_push.mp isMember).resolve_right new
          exact (others other b (.inr new)).trans (sound.alike other g isEntry b isOld)
      · exact (others other b (.inl different)).trans (sound.alike other h found b isMember)
  · simp only [step, isTaken]
    exact sound

theorem Sound.step (sound : s.Sound user) (call : PortCall) : (s.step user call).Sound user := by
  obtain ⟨ids, op⟩ := call
  cases op with
  | reserve port group groupKey proxyName client => exact sound_reserve sound ids port group groupKey proxyName client
  | attach port handle =>
    have unchanged : ∀ other g, s.table.attachListener port handle other = some g →
        ∃ old listens, s.table other = some old ∧ g = { old with handle := listens } := by
      intro other g found
      rcases PortTable.eq_some_of_update found with ⟨rfl, isNew⟩ | ⟨-, found⟩
      · obtain ⟨old, isOld, rfl⟩ := Option.map_eq_some_iff.mp isNew
        exact ⟨old, _, isOld, rfl⟩
      · exact ⟨g, _, found, rfl⟩
    refine ⟨fun other g found => ?_, fun other g found b isMember => ?_⟩
    · obtain ⟨old, listens, isOld, rfl⟩ := unchanged other g found
      obtain ⟨inhabited, oneUser, alone, unrepeated⟩ := sound.valid other old isOld
      exact ⟨inhabited, oneUser, alone, unrepeated⟩
    · obtain ⟨old, listens, isOld, rfl⟩ := unchanged other g found
      exact sound.alike other old isOld b isMember
  | release port client proxyName =>
    refine sound.fewer fun other g found => ?_
    rcases PortTable.eq_some_of_update found with ⟨rfl, isNew⟩ | ⟨-, found⟩
    · obtain ⟨old, isOld, isAfter⟩ := Option.bind_eq_some_iff.mp isNew
      exact .inr ⟨old, _, isOld, isAfter⟩
    · exact .inl found
  | releaseOf client =>
    refine sound.fewer fun other g found => ?_
    obtain ⟨old, isOld, isAfter⟩ := Option.bind_eq_some_iff.mp found
    exact .inr ⟨old, _, isOld, isAfter⟩

theorem contained (s : PortState) (call : PortCall) : s.Contained user call := by
  obtain ⟨ids, op⟩ := call
  cases op with
  | reserve port group groupKey proxyName client =>
    intro reason refused
    rcases @PortTable.reservePort_cases user ids s.table port client group groupKey proxyName with
      ⟨-, isFresh⟩ | ⟨g, -, -, isJoined⟩ | ⟨g, -, -, isTaken⟩
    · cases isFresh ▸ refused
    · cases isJoined ▸ refused
    · simp only [step, isTaken]
  | attach port handle =>
    have others : ∀ other ≠ port, s.table.attachListener port handle other = s.table other :=
      fun other different => PortTable.attachListener_of_ne different
    refine ⟨fun other => ?_, others⟩
    by_cases same : other = port
    · rw [PortTable.members, PortTable.members, same]
      show ((s.table.attachListener port handle port).map _).getD [] = _
      rw [PortTable.attachListener, Function.update_self, Option.map_map]
      rfl
    · rw [PortTable.members, PortTable.members]
      show ((s.table.attachListener port handle other).map _).getD [] = _
      rw [others other same]
  | release port client proxyName =>
    refine ⟨fun other different => PortTable.releasePort_of_ne different, PortTable.members_releasePort, fun g found => ?_⟩
    obtain ⟨old, isOld, isAfter⟩ := Option.bind_eq_some_iff.mp (PortTable.releasePort_self.symm.trans found)
    exact ⟨old, isOld, PortGroup.exists_of_kept isAfter⟩
  | releaseOf client =>
    refine fun port => ⟨PortTable.members_releasePortsOf, fun g found => ?_⟩
    obtain ⟨old, isOld, isAfter⟩ := Option.bind_eq_some_iff.mp found
    exact ⟨old, isOld, PortGroup.exists_of_kept isAfter⟩

end PortState

/-- Whatever calls were made, the table is sound, and a call touches only what it is about. -/
theorem ports_sound (user : Nat → String) (calls : List PortCall) (call : PortCall) :
    (run (PortState.step user) {} calls).Sound user ∧ (run (PortState.step user) {} calls).Contained user call := by
  have preserved : ∀ (s : PortState) call, s.Sound user → (s.step user call).Sound user := fun _ call sound => sound.step call
  exact ⟨run_invariant preserved PortState.sound_initially calls, PortState.contained _ call⟩

end Nfrp
