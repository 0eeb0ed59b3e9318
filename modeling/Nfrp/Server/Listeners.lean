import Nfrp.Server.Registrations

/-!
# Who listens on a port

A registration takes its port, waits until the port is bound, and hands the listener to
the entry of the port; others come and go in the meantime.  Who joins a group listens
with the one that is there.
-/

namespace Nfrp

open Lib

structure Registration where
  client : Nat
  name : String
  port : Nat
  udp : Bool
  deriving DecidableEq, Repr

def Registration.backend (reg : Registration) : Backend :=
  ⟨reg.client, reg.name⟩

structure Waiting where
  number : Nat
  reg : Registration
  deriving DecidableEq, Repr

/-- A task that accepts on a port, by the number of the registration that bound it. -/
structure Listener where
  number : Nat
  port : Nat
  udp : Bool
  deriving DecidableEq, Repr

/-- `creator` is the registration that made the entry of a port, and `done` are those that
returned without an error and were not removed since. -/
structure Listening where
  ports : PortTable := fun _ => none
  proxies : Nat → String → Option Nat := fun _ _ => none
  waiting : List Waiting := []
  listening : List Listener := []
  creator : Nat → Option Nat := fun _ => none
  done : List Registration := []
  next : Nat := 0

inductive ListenEvent where
  | register (ids : RunIds) (reg : Registration) (group groupKey : String)
  | unresolved (number : Nat)
  | bound (ids : RunIds) (number : Nat) (listens : Bool)
  | remove (ids : RunIds) (client : Nat) (name : String)
  | cleanup (ids : RunIds) (client : Nat)

namespace Listening

variable (user : Nat → String)

def stays (before after : PortTable) (l : Listener) : Bool :=
  (after l.port).isSome || (before l.port).bind PortGroup.handle != some l.number

def shrink (ports : PortTable) (s : Listening) : Listening :=
  { s with ports, listening := s.listening.filter (stays s.ports ports) }

def addProxy (reg : Registration) (s : Listening) : Listening :=
  { s with
    proxies := Function.update s.proxies reg.client (Function.update (s.proxies reg.client) reg.name (some reg.port))
    done := reg :: s.done }

def settle (number : Nat) (s : Listening) : Listening :=
  { s with waiting := s.waiting.filter (·.number ≠ number) }

def step (s : Listening) : ListenEvent → Listening
  | .register ids reg group groupKey =>
    if reg.port = 0 then s
    else
      match s.ports.reservePort user ids reg.port group groupKey reg.name reg.client with
      | (_, .error _) => s
      | (ports, .ok .joined) =>
        if reg.udp then { s with ports }.shrink (ports.releasePort ids reg.port reg.client reg.name)
        else { s with ports }.addProxy reg
      | (ports, .ok .fresh) =>
        { s with
          ports
          creator := Function.update s.creator reg.port (some s.next)
          waiting := ⟨s.next, reg⟩ :: s.waiting
          next := s.next + 1 }
  | .unresolved number =>
    match s.waiting.find? (·.number = number) with
    | some w => if w.reg.udp then s else s.settle number
    | none => s
  | .bound ids number listens =>
    match s.waiting.find? (·.number = number) with
    | some w =>
      let s := s.settle number
      if listens then
        ({ s with
          ports := s.ports.attachListener w.reg.port number
          listening := ⟨number, w.reg.port, w.reg.udp⟩ :: s.listening } : Listening).addProxy w.reg
      else s.shrink (s.ports.releasePort ids w.reg.port w.reg.client w.reg.name)
    | none => s
  | .remove ids client name =>
    match s.proxies client name with
    | some port =>
      ({ s with
        proxies := Function.update s.proxies client (Function.update (s.proxies client) name none)
        done := s.done.filter fun reg => ¬(reg.backend = ⟨client, name⟩ ∧ reg.port = port) } : Listening).shrink
          (s.ports.releasePort ids port client name)
    | none => s
  | .cleanup ids client =>
    ({ s with
      proxies := Function.update s.proxies client fun _ => none
      done := s.done.filter fun reg => reg.client ≠ client } : Listening).shrink (s.ports.releasePortsOf ids client)

/-- While no registration is under way, whoever is registered is on a port with a listener
of its protocol, and a listener belongs to the entry that was made for it. -/
structure Matches (s : Listening) : Prop where
  served : ∀ reg ∈ s.done, ∃ l ∈ s.listening, l.port = reg.port ∧ l.udp = reg.udp
  owned : ∀ l ∈ s.listening, (s.ports l.port).isSome ∧ s.creator l.port = some l.number

/-- TCP joins TCP, and a UDP proxy is not refused by a group it is in.  A port is bound for
the entry it was taken for, and where it is not bound, nobody has joined that entry. -/
def Clean (s : Listening) : ListenEvent → Prop
  | .register _ reg group groupKey =>
    ∀ g, s.ports reg.port = some g → g.Admits (user reg.client) group groupKey →
      if reg.udp then reg.backend ∉ g.members
      else
        (∃ l ∈ s.listening, l.port = reg.port ∧ ¬l.udp) ∨
          ∃ w ∈ s.waiting, s.creator reg.port = some w.number ∧ w.reg.port = reg.port ∧ ¬w.reg.udp
  | .unresolved number =>
    ∀ w ∈ s.waiting, w.number = number → s.creator w.reg.port = some number → ∀ reg ∈ s.done, reg.port ≠ w.reg.port
  | .bound _ number listens =>
    ∀ w ∈ s.waiting, w.number = number →
      if listens then s.creator w.reg.port = some number ∧ w.reg.backend ∈ s.ports.members w.reg.port
      else if s.creator w.reg.port = some number then ∀ reg ∈ s.done, reg.port ≠ w.reg.port
      else w.reg.backend ∉ s.ports.members w.reg.port
  | .remove .. | .cleanup .. => True

/-- Who is registered is in a group with a listener, or with one that is being bound. -/
structure Inv (s : Listening) : Prop where
  inhabited : ∀ port g, s.ports port = some g → g.members ≠ []
  served : ∀ reg ∈ s.done, ∃ g, s.ports reg.port = some g ∧ reg.backend ∈ g.members ∧
    ((∃ l ∈ s.listening, l.port = reg.port ∧ l.udp = reg.udp) ∨
      ∃ w ∈ s.waiting, s.creator reg.port = some w.number ∧ w.reg.port = reg.port ∧ w.reg.udp = reg.udp)
  owned : ∀ l ∈ s.listening, ∃ g, s.ports l.port = some g ∧ g.handle = some l.number ∧ s.creator l.port = some l.number
  fresh : ∀ w ∈ s.waiting, w.number < s.next
  older : ∀ l ∈ s.listening, l.number < s.next
  apart : ∀ w ∈ s.waiting, ∀ l ∈ s.listening, w.number ≠ l.number
  numbered : (s.waiting.map Waiting.number).Nodup

variable {user} {s : Listening} {ids : RunIds} {reg : Registration} {group groupKey : String}

theorem inv_initially : ({} : Listening).Inv where
  inhabited := nofun
  served := nofun
  owned := nofun
  fresh := nofun
  older := nofun
  apart := nofun
  numbered := List.nodup_nil

theorem Inv.shrink (inv : s.Inv) {after : PortTable} {proxies : Nat → String → Option Nat} {done : List Registration}
    (fewer : done ⊆ s.done)
    (lost : ∀ port g, after port = some g → g.members ≠ [] ∧ ∃ old, s.ports port = some old ∧ g.handle = old.handle)
    (kept : ∀ reg ∈ done, ∀ g, s.ports reg.port = some g → reg.backend ∈ g.members →
      ∃ g, after reg.port = some g ∧ reg.backend ∈ g.members) :
    (({ s with proxies, done } : Listening).shrink after).Inv where
  inhabited port g found := (lost port g found).1
  served reg isDone := by
    obtain ⟨g, found, isMember, serves⟩ := inv.served reg (fewer isDone)
    obtain ⟨g, foundAfter, isMember⟩ := kept reg isDone g found isMember
    refine ⟨g, foundAfter, isMember, ?_⟩
    rcases serves with ⟨l, isListener, isPort, sameUdp⟩ | waits
    · refine .inl ⟨l, List.mem_filter.mpr ⟨isListener, ?_⟩, isPort, sameUdp⟩
      simp [stays, isPort, foundAfter]
    · exact .inr waits
  owned l isListener := by
    obtain ⟨wasListener, isStaying⟩ := List.mem_filter.mp isListener
    obtain ⟨g, found, isHandle, isCreator⟩ := inv.owned l wasListener
    have there : (after l.port).isSome := by simpa [stays, found, isHandle] using isStaying
    obtain ⟨g, foundAfter⟩ := Option.isSome_iff_exists.mp there
    obtain ⟨-, old, isOld, sameHandle⟩ := (lost l.port g foundAfter)
    obtain rfl := Option.some.inj (found.symm.trans isOld)
    exact ⟨g, foundAfter, sameHandle.trans isHandle, isCreator⟩
  fresh := inv.fresh
  older l isListener := inv.older l (List.mem_of_mem_filter isListener)
  apart w isWaiting l isListener := inv.apart w isWaiting l (List.mem_of_mem_filter isListener)
  numbered := inv.numbered

theorem lost_releasePort (inv : s.Inv) {port client : Nat} {name : String} (other : Nat) (g : PortGroup)
    (found : s.ports.releasePort ids port client name other = some g) :
    g.members ≠ [] ∧ ∃ old, s.ports other = some old ∧ g.handle = old.handle := by
  rcases PortTable.eq_some_of_update found with ⟨rfl, isAfter⟩ | ⟨-, found⟩
  · obtain ⟨old, isOld, isKept⟩ := Option.bind_eq_some_iff.mp isAfter
    obtain ⟨inhabited, rfl⟩ := PortGroup.kept_eq_some_iff.mp isKept
    exact ⟨inhabited, old, isOld, rfl⟩
  · exact ⟨inv.inhabited other g found, g, found, rfl⟩

theorem kept_releasePort {port client : Nat} {name : String} (spared : ¬(reg.backend = ⟨client, name⟩ ∧ reg.port = port))
    {g : PortGroup} (found : s.ports reg.port = some g) (isMember : reg.backend ∈ g.members) :
    ∃ g, s.ports.releasePort ids port client name reg.port = some g ∧ reg.backend ∈ g.members := by
  by_cases same : reg.port = port
  · have different : reg.backend ≠ ⟨client, name⟩ := fun sameBackend => spared ⟨sameBackend, same⟩
    have stays : reg.backend ∈ (g.remove ids client name).members := PortGroup.mem_remove.mpr ⟨isMember, different⟩
    refine ⟨_, ?_, stays⟩
    rw [same, PortTable.releasePort_self, ← same, found, Option.bind_some]
    exact PortGroup.kept_eq_some_iff.mpr ⟨List.ne_nil_of_mem stays, rfl⟩
  · exact ⟨g, (PortTable.releasePort_of_ne same).trans found, isMember⟩

theorem inv_remove (inv : s.Inv) (client : Nat) (name : String) : (s.step user (.remove ids client name)).Inv := by
  rw [step]
  cases s.proxies client name with
  | none => exact inv
  | some port =>
    refine inv.shrink (fun reg isDone => List.mem_of_mem_filter isDone) (lost_releasePort inv) ?_
    intro reg isDone g found isMember
    exact kept_releasePort (of_decide_eq_true (List.mem_filter.mp isDone).2) found isMember

theorem inv_cleanup (inv : s.Inv) (client : Nat) : (s.step user (.cleanup ids client)).Inv := by
  refine inv.shrink (fun reg isDone => List.mem_of_mem_filter isDone) ?_ ?_
  · intro port g found
    obtain ⟨old, isOld, isKept⟩ := Option.bind_eq_some_iff.mp found
    obtain ⟨inhabited, rfl⟩ := PortGroup.kept_eq_some_iff.mp isKept
    exact ⟨inhabited, old, isOld, rfl⟩
  · intro reg isDone g found isMember
    have different : reg.client ≠ client := of_decide_eq_true (List.mem_filter.mp isDone).2
    have stays : reg.backend ∈ (g.removeAllOf ids client).members := PortGroup.mem_removeAllOf.mpr ⟨isMember, different⟩
    refine ⟨_, ?_, stays⟩
    rw [PortTable.releasePortsOf, found, Option.bind_some]
    exact PortGroup.kept_eq_some_iff.mpr ⟨List.ne_nil_of_mem stays, rfl⟩

theorem Inv.settle (inv : s.Inv) {number : Nat}
    (nobody : ∀ w ∈ s.waiting, w.number = number → s.creator w.reg.port = some number → ∀ reg ∈ s.done, reg.port ≠ w.reg.port) :
    (s.settle number).Inv where
  inhabited := inv.inhabited
  served reg isDone := by
    obtain ⟨g, found, isMember, serves⟩ := inv.served reg isDone
    refine ⟨g, found, isMember, serves.imp_right ?_⟩
    rintro ⟨w, isWaiting, isCreator, samePort, sameUdp⟩
    refine ⟨w, List.mem_filter.mpr ⟨isWaiting, decide_eq_true fun same => ?_⟩, isCreator, samePort, sameUdp⟩
    exact nobody w isWaiting same (by rw [samePort, isCreator, same]) reg isDone samePort.symm
  owned := inv.owned
  fresh w isWaiting := inv.fresh w (List.mem_of_mem_filter isWaiting)
  older := inv.older
  apart w isWaiting := inv.apart w (List.mem_of_mem_filter isWaiting)
  numbered := inv.numbered.sublist (List.filter_sublist.map _)

theorem eq_of_find? {number : Nat} {w : Waiting} (found : s.waiting.find? (·.number = number) = some w) :
    w ∈ s.waiting ∧ w.number = number :=
  ⟨List.mem_of_find?_eq_some found, of_decide_eq_true (List.find?_some (p := fun w : Waiting => decide (w.number = number)) found)⟩

theorem inv_unresolved (inv : s.Inv) {number : Nat} (clean : s.Clean user (.unresolved number)) :
    (s.step user (.unresolved number)).Inv := by
  rw [step]
  cases s.waiting.find? (·.number = number) with
  | none => exact inv
  | some w =>
    dsimp only
    split
    · exact inv
    · exact inv.settle clean

theorem inv_fresh (inv : s.Inv) (vacant : s.ports reg.port = none) :
    ({ s with
        ports := Function.update s.ports reg.port (some (.new group groupKey (user reg.client) reg.client reg.name))
        creator := Function.update s.creator reg.port (some s.next)
        waiting := ⟨s.next, reg⟩ :: s.waiting
        next := s.next + 1 } : Listening).Inv where
  inhabited port g found := by
    rcases PortTable.eq_some_of_update found with ⟨-, isNew⟩ | ⟨-, found⟩
    · exact Option.some.inj isNew ▸ List.cons_ne_nil _ _
    · exact inv.inhabited port g found
  served other isDone := by
    obtain ⟨g, found, isMember, serves⟩ := inv.served other isDone
    have different : other.port ≠ reg.port := fun same => nomatch (same ▸ found).symm.trans vacant
    refine ⟨g, (Function.update_of_ne different ..).trans found, isMember, serves.imp_right ?_⟩
    rintro ⟨w, isWaiting, isCreator, rest⟩
    exact ⟨w, List.mem_cons_of_mem _ isWaiting, (Function.update_of_ne different ..).trans isCreator, rest⟩
  owned l isListener := by
    obtain ⟨g, found, isHandle, isCreator⟩ := inv.owned l isListener
    have different : l.port ≠ reg.port := fun same => nomatch (same ▸ found).symm.trans vacant
    exact ⟨g, (Function.update_of_ne different ..).trans found, isHandle, (Function.update_of_ne different ..).trans isCreator⟩
  fresh w isWaiting := by
    rcases List.mem_cons.mp isWaiting with rfl | isWaiting
    · exact Nat.lt_succ_self _
    · exact Nat.lt_succ_of_lt (inv.fresh w isWaiting)
  older l isListener := Nat.lt_succ_of_lt (inv.older l isListener)
  apart w isWaiting l isListener := by
    rcases List.mem_cons.mp isWaiting with rfl | isWaiting
    · exact Nat.ne_of_gt (inv.older l isListener)
    · exact inv.apart w isWaiting l isListener
  numbered := by
    refine List.nodup_cons.mpr ⟨fun isNumber => ?_, inv.numbered⟩
    obtain ⟨w, isWaiting, isNext⟩ := List.mem_map.mp isNumber
    exact absurd isNext (Nat.ne_of_lt (inv.fresh w isWaiting))

theorem inv_joined (inv : s.Inv) {g : PortGroup} (found : s.ports reg.port = some g)
    (serves : (∃ l ∈ s.listening, l.port = reg.port ∧ l.udp = reg.udp) ∨
      ∃ w ∈ s.waiting, s.creator reg.port = some w.number ∧ w.reg.port = reg.port ∧ w.reg.udp = reg.udp) :
    (({ s with ports := Function.update s.ports reg.port (some (g.push ids reg.client reg.name)) } : Listening).addProxy
      reg).Inv where
  inhabited port h isEntry := by
    rcases PortTable.eq_some_of_update isEntry with ⟨-, isNew⟩ | ⟨-, isEntry⟩
    · exact Option.some.inj isNew ▸ List.ne_nil_of_mem (PortGroup.mem_push.mpr (.inr rfl))
    · exact inv.inhabited port h isEntry
  served other isDone := by
    rcases List.mem_cons.mp isDone with rfl | isDone
    · exact ⟨_, Function.update_self .., PortGroup.mem_push.mpr (.inr rfl), serves⟩
    · obtain ⟨h, isEntry, isMember, otherServes⟩ := inv.served other isDone
      by_cases same : other.port = reg.port
      · obtain rfl := Option.some.inj (isEntry.symm.trans (same ▸ found))
        refine ⟨h.push ids reg.client reg.name, ?_, PortGroup.mem_push.mpr (.inl isMember), otherServes⟩
        show Function.update s.ports reg.port _ other.port = _
        rw [same, Function.update_self]
      · exact ⟨h, (Function.update_of_ne same ..).trans isEntry, isMember, otherServes⟩
  owned l isListener := by
    obtain ⟨h, isEntry, isHandle, isCreator⟩ := inv.owned l isListener
    by_cases same : l.port = reg.port
    · obtain rfl := Option.some.inj (isEntry.symm.trans (same ▸ found))
      refine ⟨h.push ids reg.client reg.name, ?_, isHandle, isCreator⟩
      show Function.update s.ports reg.port _ l.port = _
      rw [same, Function.update_self]
    · exact ⟨h, (Function.update_of_ne same ..).trans isEntry, isHandle, isCreator⟩
  fresh := inv.fresh
  older := inv.older
  apart := inv.apart
  numbered := inv.numbered

theorem refused_udp (inv : s.Inv) {g : PortGroup} (found : s.ports reg.port = some g) (absent : reg.backend ∉ g.members) :
    ({ s with ports := Function.update s.ports reg.port (some (g.push ids reg.client reg.name)) } : Listening).shrink
      (PortTable.releasePort ids reg.port reg.client reg.name
        (Function.update s.ports reg.port (some (g.push ids reg.client reg.name)))) = s := by
  have samePorts : PortTable.releasePort ids reg.port reg.client reg.name
      (Function.update s.ports reg.port (some (g.push ids reg.client reg.name))) = s.ports := by
    rw [PortTable.releasePort_push]
    exact (PortTable.update_remove_eq_iff found).mpr ⟨absent, inv.inhabited _ _ found⟩
  have sameListening : s.listening.filter
      (stays (Function.update s.ports reg.port (some (g.push ids reg.client reg.name))) s.ports) = s.listening := by
    refine List.filter_eq_self.mpr fun l isListener => ?_
    obtain ⟨h, isEntry, -⟩ := inv.owned l isListener
    simp [stays, isEntry]
  rw [samePorts, shrink, sameListening]

theorem inv_register (inv : s.Inv) (clean : s.Clean user (.register ids reg group groupKey)) :
    (s.step user (.register ids reg group groupKey)).Inv := by
  rw [step]
  split
  · exact inv
  rcases @PortTable.reservePort_cases user ids s.ports reg.port reg.client group groupKey reg.name with
    ⟨vacant, isFresh⟩ | ⟨g, found, admits, isJoined⟩ | ⟨g, -, -, isTaken⟩
  · rw [isFresh]
    exact inv_fresh inv vacant
  · rw [isJoined]
    have allowed := clean g found admits
    dsimp only
    by_cases isUdp : reg.udp
    · rw [if_pos isUdp] at allowed ⊢
      rw [refused_udp inv found allowed]
      exact inv
    · rw [if_neg isUdp] at allowed ⊢
      refine inv_joined inv found ?_
      simpa [isUdp] using allowed
  · rw [isTaken]
    exact inv

theorem inv_listens (inv : s.Inv) {w : Waiting} (isWaiting : w ∈ s.waiting) (isCreator : s.creator w.reg.port = some w.number)
    {g : PortGroup} (found : s.ports w.reg.port = some g) (isMember : w.reg.backend ∈ g.members) :
    (({ s.settle w.number with
        ports := s.ports.attachListener w.reg.port w.number
        listening := ⟨w.number, w.reg.port, w.reg.udp⟩ :: s.listening } : Listening).addProxy w.reg).Inv := by
  have attached : s.ports.attachListener w.reg.port w.number w.reg.port = some { g with handle := some w.number } := by
    rw [PortTable.attachListener, Function.update_self, found, Option.map_some]
  have nobody : ∀ l ∈ s.listening, l.port ≠ w.reg.port := by
    intro l isListener same
    obtain ⟨-, -, -, isOther⟩ := inv.owned l isListener
    rw [same, isCreator] at isOther
    exact inv.apart w isWaiting l isListener (Option.some.inj isOther)
  have alone : ∀ other ∈ s.waiting, other.number = w.number → other = w := fun other isOther same =>
    List.inj_on_of_nodup_map inv.numbered isOther isWaiting same
  refine ⟨fun port h isEntry => ?_, fun other isDone => ?_, fun l isListener => ?_,
    fun other isOther => inv.fresh other (List.mem_of_mem_filter isOther), fun l isListener => ?_,
    fun other isOther l isListener => ?_, inv.numbered.sublist (List.filter_sublist.map _)⟩
  · rcases PortTable.eq_some_of_update isEntry with ⟨-, isNew⟩ | ⟨-, isEntry⟩
    · rw [found, Option.map_some] at isNew
      obtain rfl := Option.some.inj isNew
      exact inv.inhabited w.reg.port g found
    · exact inv.inhabited port h isEntry
  · rcases List.mem_cons.mp isDone with rfl | isDone
    · exact ⟨_, attached, isMember, .inl ⟨_, List.mem_cons_self, rfl, rfl⟩⟩
    · obtain ⟨h, isEntry, isOther, serves⟩ := inv.served other isDone
      by_cases same : other.port = w.reg.port
      · obtain rfl := Option.some.inj (isEntry.symm.trans (same ▸ found))
        refine ⟨{ h with handle := some w.number }, ?_, isOther, .inl ⟨_, List.mem_cons_self, same.symm, ?_⟩⟩
        · exact (congrArg _ same).trans attached
        rcases serves with ⟨l, isListener, isPort, -⟩ | ⟨v, isV, isAlso, -, sameUdp⟩
        · exact absurd (isPort.trans same) (nobody l isListener)
        · rw [same, isCreator] at isAlso
          rw [← alone v isV (Option.some.inj isAlso).symm]
          exact sameUdp
      · refine ⟨h, (PortTable.attachListener_of_ne same).trans isEntry, isOther, serves.imp ?_ ?_⟩
        · rintro ⟨l, isListener, rest⟩
          exact ⟨l, List.mem_cons_of_mem _ isListener, rest⟩
        · rintro ⟨v, isV, isAlso, samePort, sameUdp⟩
          refine ⟨v, List.mem_filter.mpr ⟨isV, decide_eq_true fun sameNumber => ?_⟩, isAlso, samePort, sameUdp⟩
          exact same (alone v isV sameNumber ▸ samePort).symm
  · rcases List.mem_cons.mp isListener with rfl | isListener
    · exact ⟨_, attached, rfl, isCreator⟩
    · obtain ⟨h, isEntry, rest⟩ := inv.owned l isListener
      exact ⟨h, (PortTable.attachListener_of_ne (nobody l isListener)).trans isEntry, rest⟩
  · rcases List.mem_cons.mp isListener with rfl | isListener
    · exact inv.fresh w isWaiting
    · exact inv.older l isListener
  · obtain ⟨isOther, different⟩ := List.mem_filter.mp isOther
    rcases List.mem_cons.mp isListener with rfl | isListener
    · exact of_decide_eq_true different
    · exact inv.apart other isOther l isListener

theorem inv_bound (inv : s.Inv) {number : Nat} {listens : Bool} (clean : s.Clean user (.bound ids number listens)) :
    (s.step user (.bound ids number listens)).Inv := by
  rw [step]
  cases isFound : s.waiting.find? (·.number = number) with
  | none => exact inv
  | some w =>
    obtain ⟨isWaiting, rfl⟩ := eq_of_find? isFound
    have allowed := clean w isWaiting rfl
    dsimp only
    cases listens with
    | true =>
      obtain ⟨isCreator, isMember⟩ := allowed
      cases found : s.ports w.reg.port with
      | none => simp [PortTable.members, found] at isMember
      | some g => exact inv_listens inv isWaiting isCreator found (PortTable.members_of_some found ▸ isMember)
    | false =>
      simp only [Bool.false_eq_true, if_false] at allowed ⊢
      have nobody : ∀ v ∈ s.waiting, v.number = w.number → s.creator v.reg.port = some w.number →
          ∀ reg ∈ s.done, reg.port ≠ v.reg.port := by
        intro v isV same isCreator
        rw [List.inj_on_of_nodup_map inv.numbered isV isWaiting same] at isCreator ⊢
        rwa [if_pos isCreator] at allowed
      have settled := inv.settle nobody
      refine settled.shrink (fun _ isDone => isDone) (lost_releasePort settled) ?_
      intro reg isDone g found isMember
      refine kept_releasePort ?_ found isMember
      rintro ⟨sameBackend, samePort⟩
      by_cases isCreator : s.creator w.reg.port = some w.number
      · exact nobody w isWaiting rfl isCreator reg isDone samePort
      · rw [if_neg isCreator] at allowed
        refine allowed ?_
        have isEntry : s.ports reg.port = some g := found
        have isSame : w.reg.backend = reg.backend := sameBackend.symm
        rw [← samePort, PortTable.members_of_some isEntry, isSame]
        exact isMember

theorem inv_step (event : ListenEvent) (clean : s.Clean user event) (inv : s.Inv) : (s.step user event).Inv := by
  cases event with
  | register ids reg group groupKey => exact inv_register inv clean
  | unresolved number => exact inv_unresolved inv clean
  | bound ids number listens => exact inv_bound inv clean
  | remove ids client name => exact inv_remove inv client name
  | cleanup ids client => exact inv_cleanup inv client

theorem Inv.matches (inv : s.Inv) (idle : s.waiting = []) : s.Matches where
  served reg isDone := by
    obtain ⟨g, -, -, serves⟩ := inv.served reg isDone
    rcases serves with listens | ⟨w, isWaiting, -⟩
    · exact listens
    · exact absurd (idle ▸ isWaiting) List.not_mem_nil
  owned l isListener := by
    obtain ⟨g, found, -, isCreator⟩ := inv.owned l isListener
    exact ⟨by rw [found]; rfl, isCreator⟩

end Listening

def pages (client : Nat) (name : String) : Registration :=
  ⟨client, name, 6000, false⟩

def names : Registration :=
  ⟨0, "names", 6000, true⟩

end Nfrp
