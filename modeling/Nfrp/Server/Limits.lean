import Nfrp.Server.Register

/-!
# What roles and port limits promise

A client holds only proxies its role and the server allow, and no more of them than
it may.  The checks look at what is registered when they are made, so what is still
under way has to fit in beside it.
-/

namespace Nfrp

open Lib Nfrp.Client

structure Allowed (t : Terms) (e : ProxyEntry) : Prop where
  proxyType : t.role.allowProxyType (toAsciiLowercase e.proxyType)
  port : isPortType e.proxyType → ∃ port, e.port = some port ∧ t.role.allowPort port ∧ t.cfg.portAllowed port
  visitors : isVisitorType (toAsciiLowercase e.proxyType) → t.role.allowVisitors

instance (t : Terms) (e : ProxyEntry) : Decidable (Allowed t e) :=
  decidable_of_iff
    (t.role.allowProxyType (toAsciiLowercase e.proxyType) ∧
      (isPortType e.proxyType → ∃ port ∈ e.port, t.role.allowPort port ∧ t.cfg.portAllowed port) ∧
      (isVisitorType (toAsciiLowercase e.proxyType) → t.role.allowVisitors))
    ⟨fun holds => ⟨holds.1, holds.2.1, holds.2.2⟩, fun allowed => ⟨allowed.proxyType, allowed.port, allowed.visitors⟩⟩

namespace Proxies

structure Limits (t : Terms) (s : Proxies) : Prop where
  allowed : ∀ {name e}, s.entries.lookup name = some e → Allowed t e
  proxies : t.role.maxProxies = 0 ∨ s.proxyCount ≤ t.role.maxProxies
  ports : t.cfg.maxPortsPerClient ≤ 0 ∨ (portsUsed s.entries : Int) ≤ t.cfg.maxPortsPerClient

instance (t : Terms) (s : Proxies) : Decidable (Limits t s) :=
  decidable_of_iff
    ((∀ entry ∈ s.entries.entries, Allowed t entry.2) ∧
      (t.role.maxProxies = 0 ∨ s.proxyCount ≤ t.role.maxProxies) ∧
      (t.cfg.maxPortsPerClient ≤ 0 ∨ (portsUsed s.entries : Int) ≤ t.cfg.maxPortsPerClient))
    ⟨fun holds => ⟨fun found => holds.1 _ (lookup_eq_some_iff.mp found), holds.2.1, holds.2.2⟩,
      fun limits => ⟨fun _ member => limits.allowed (lookup_eq_some_iff.mpr member), limits.proxies, limits.ports⟩⟩

/-- The proxies as they were if the message was accepted. -/
def accept (s : Proxies) (m : NewProxy) : Proxies :=
  { s with entries := s.entries.insert m.proxyName m.entry }

def announced (t : Terms) (s : Proxies) : Event → Option NewProxy
  | .newProxy m _ => some { m with proxyName := canonicalWireName t.user m.proxyName }
  | .panelAdd p => some (wire t.user p)
  | .panelAck index _ _ => s.asked[index]?.map (wire t.user)
  | _ => none

def Fair (t : Terms) (s : Proxies) (event : Event) : Prop :=
  ∀ m r, s.announced t event = some m → (s.step t event).2 = .refused r → r.OfLimits → ¬Limits t (s.accept m)

def held (s : Proxies) : Finset String := s.entries.keys.toFinset

def ported (s : Proxies) : Finset String :=
  ((s.entries.entries.filter fun entry => entry.2.port.isSome).map (·.1)).toFinset

def beingBound (s : Proxies) : Finset String := (s.binding.map (·.m.proxyName)).toFinset

def underWay (t : Terms) (s : Proxies) : Finset String :=
  (s.asked.map fun p => addUserPrefix t.user p.name).toFinset ∪ s.beingBound

/-- While there is room a registration starts only if there is room for it beside what
is under way; when there is none, nothing is registered again. -/
def Roomy (t : Terms) (s : Proxies) (name : String) : Prop :=
  t.role.maxProxies = 0 ∨
    if s.proxyCount < t.role.maxProxies then (insert name (s.held ∪ s.underWay t)).card ≤ t.role.maxProxies
    else name ∉ s.held

/-- The same for ports, which are counted without the proxy that is replaced. -/
def RoomyPorts (t : Terms) (s : Proxies) (m : NewProxy) : Prop :=
  t.cfg.maxPortsPerClient ≤ 0 ∨ ¬isPortType m.proxyType ∨
    t.cfg.maxPortsPerClient < portsUsed (s.entries.erase m.proxyName) + 1 ∨
    ((insert m.proxyName (s.ported ∪ s.beingBound)).card : Int) ≤ t.cfg.maxPortsPerClient

def Uncrowded (t : Terms) (s : Proxies) (event : Event) : Prop :=
  match event with
  | .newProxy m _ =>
    s.Roomy t (canonicalWireName t.user m.proxyName) ∧
      s.RoomyPorts t { m with proxyName := canonicalWireName t.user m.proxyName }
  | .panelAdd p => s.Roomy t (addUserPrefix t.user p.name)
  | .panelAck index _ _ => ∀ p ∈ s.asked[index]?, s.RoomyPorts t (wire t.user p)
  | _ => True

instance (t : Terms) (s : Proxies) (name : String) : Decidable (s.Roomy t name) :=
  inferInstanceAs (Decidable (_ ∨ _))

instance (t : Terms) (s : Proxies) (m : NewProxy) : Decidable (s.RoomyPorts t m) :=
  inferInstanceAs (Decidable (_ ∨ _ ∨ _ ∨ _))

instance (t : Terms) (s : Proxies) (event : Event) : Decidable (s.Uncrowded t event) :=
  match event with
  | .newProxy .. => inferInstanceAs (Decidable (_ ∧ _))
  | .panelAdd p => inferInstanceAs (Decidable (s.Roomy t (addUserPrefix t.user p.name)))
  | .panelAck index .. => inferInstanceAs (Decidable (∀ p ∈ s.asked[index]?, s.RoomyPorts t (wire t.user p)))
  | .bound .. | .closeProxy _ | .panelRemove _ | .resume | .resumeCommit _ | .graceExpired | .stop => .isTrue trivial

theorem mem_held {s : Proxies} {name : String} : name ∈ s.held ↔ ∃ e, s.entries.lookup name = some e := by
  rw [held, List.mem_toFinset, ← AList.mem_keys, mem_iff_lookup]

theorem mem_ported {s : Proxies} {name : String} :
    name ∈ s.ported ↔ ∃ e, s.entries.lookup name = some e ∧ e.port.isSome := by
  rw [ported, List.mem_toFinset, List.mem_map]
  constructor
  · rintro ⟨⟨_, e⟩, member, rfl⟩
    obtain ⟨isEntry, takesPort⟩ := List.mem_filter.mp member
    exact ⟨e, lookup_eq_some_iff.mpr isEntry, takesPort⟩
  · rintro ⟨e, found, takesPort⟩
    exact ⟨⟨name, e⟩, List.mem_filter.mpr ⟨lookup_eq_some_iff.mp found, takesPort⟩, rfl⟩

theorem card_held (s : Proxies) : s.held.card = s.proxyCount := by
  rw [held, List.toFinset_card_of_nodup s.entries.keys_nodup, AList.keys, List.keys, List.length_map]
  rfl

theorem card_ported (s : Proxies) : s.ported.card = portsUsed s.entries := by
  have nodup : ((s.entries.entries.filter fun entry => entry.2.port.isSome).map (·.1)).Nodup :=
    s.entries.keys_nodup.sublist (List.filter_sublist.map _)
  rw [ported, List.toFinset_card_of_nodup nodup, List.length_map]
  rfl

theorem portsUsed_insert (entries : ProxyMap) (name : String) (e : ProxyEntry) :
    portsUsed (entries.insert name e) = portsUsed (entries.erase name) + if e.port.isSome then 1 else 0 := by
  rw [portsUsed, AList.entries_insert, List.filter_cons]
  split
  next => rfl
  next => rfl

end Proxies

theorem NewProxy.port_entry {m : NewProxy} (takesPort : isPortType m.proxyType) : m.entry.port = some m.remotePort :=
  if_pos takesPort

theorem Allowed.allows {t : Terms} {m : NewProxy} (allowed : Allowed t m.entry) :
    t.role.Allows m.proxyType m.remotePort where
  proxyType := allowed.proxyType
  port := by
    intro takesPort _
    obtain ⟨port, isPort, inRange, -⟩ := allowed.port takesPort
    obtain rfl := Option.some.inj ((NewProxy.port_entry takesPort).symm.trans isPort)
    exact inRange
  visitors := allowed.visitors

theorem NewProxy.proxyType_fromConfig (p : ProxyConfig) (user : String) :
    (NewProxy.fromConfig p user).proxyType = p.proxyType := by
  simp only [NewProxy.fromConfig]
  repeat' split
  all_goals rfl

theorem NewProxy.remotePort_fromConfig {p : ProxyConfig} (takesPort : isPortType p.proxyType) (user : String) :
    (NewProxy.fromConfig p user).remotePort = p.remotePort := by
  have isNot : ∀ {ty : String}, ¬isPortType ty → p.proxyType ≠ ty := by
    rintro _ other rfl
    exact other takesPort
  simp only [NewProxy.fromConfig]
  rw [if_neg (not_or.mpr ⟨isNot (by decide +kernel), isNot (by decide +kernel)⟩),
    if_neg (not_or.mpr ⟨isNot (by decide +kernel), not_or.mpr ⟨isNot (by decide +kernel), isNot (by decide +kernel)⟩⟩),
    if_neg (isNot (by decide +kernel))]

namespace Proxies

variable {t : Terms} {s : Proxies} {m : NewProxy} {name : String}

structure Kept (t : Terms) (s : Proxies) : Prop where
  allowed : ∀ {name e}, s.entries.lookup name = some e → Allowed t e
  asked : ∀ p ∈ s.asked, t.role.Allows p.proxyType p.remotePort
  binding : ∀ b ∈ s.binding, Allowed t b.m.entry
  proxies : t.role.maxProxies = 0 ∨ (s.held ∪ s.underWay t).card ≤ t.role.maxProxies
  ports : t.cfg.maxPortsPerClient ≤ 0 ∨ ((s.ported ∪ s.beingBound).card : Int) ≤ t.cfg.maxPortsPerClient

theorem kept_start (t : Terms) : Kept t {} where
  allowed := fun found => nomatch found
  asked := fun _ member => nomatch member
  binding := fun _ member => nomatch member
  proxies := .inr (Nat.zero_le _)
  ports := (Int.le_total t.cfg.maxPortsPerClient 0).imp_right id

theorem Kept.limits (kept : Kept t s) : Limits t s where
  allowed := kept.allowed
  proxies := by
    refine kept.proxies.imp_right fun room => ?_
    rw [← card_held]
    exact (Finset.card_le_card Finset.subset_union_left).trans room
  ports := by
    refine kept.ports.imp_right fun room => ?_
    rw [← card_ported]
    exact (Int.ofNat_le.mpr (Finset.card_le_card Finset.subset_union_left)).trans room

theorem Kept.shrink (kept : Kept t s) {after : Proxies}
    (allowed : ∀ {name e}, after.entries.lookup name = some e → Allowed t e)
    (asked : ∀ p ∈ after.asked, p ∈ s.asked) (binding : ∀ b ∈ after.binding, b ∈ s.binding)
    (names : after.held ∪ after.underWay t ⊆ s.held ∪ s.underWay t)
    (ports : after.ported ∪ after.beingBound ⊆ s.ported ∪ s.beingBound) : Kept t after where
  allowed := allowed
  asked := fun p member => kept.asked p (asked p member)
  binding := fun b member => kept.binding b (binding b member)
  proxies := kept.proxies.imp_right fun room => (Finset.card_le_card names).trans room
  ports := kept.ports.imp_right fun room => (Int.ofNat_le.mpr (Finset.card_le_card ports)).trans room

theorem Kept.fewer (kept : Kept t s) {entries : ProxyMap}
    (fewer : ∀ {name e}, entries.lookup name = some e → s.entries.lookup name = some e) (resumed : Bool) :
    Kept t { s with entries, resumedSession := resumed } := by
  refine kept.shrink (fun found => kept.allowed (fewer found)) (fun _ => id) (fun _ => id) ?_ ?_
  · refine Finset.union_subset_union_left fun name member => ?_
    obtain ⟨e, found⟩ := mem_held.mp member
    exact mem_held.mpr ⟨e, fewer found⟩
  · refine Finset.union_subset_union_left fun name member => ?_
    obtain ⟨e, found, takesPort⟩ := mem_ported.mp member
    exact mem_ported.mpr ⟨e, fewer found, takesPort⟩

theorem lookup_of_erase {entries : ProxyMap} {other : String} {e : ProxyEntry}
    (found : (entries.erase name).lookup other = some e) : other ≠ name ∧ entries.lookup other = some e := by
  rw [lookup_erase_eq] at found
  split at found
  next => cases found
  next different => exact ⟨different, found⟩

theorem kept_stopProxy (kept : Kept t s) (name : String) : Kept t (s.stopProxy name) :=
  kept.fewer (fun found => (lookup_of_erase found).2) s.resumedSession

theorem kept_adopt (kept : Kept t s) (name signature remoteAddr : String) :
    Kept t (s.adopt name signature remoteAddr) := by
  rw [adopt]
  cases found : s.entries.lookup name with
  | none => exact kept
  | some e =>
    have same : ∀ {other entry},
        (s.entries.insert name { e with remoteAddr, signature, seenEpoch := s.resumeEpoch }).lookup other = some entry →
          ∃ old, s.entries.lookup other = some old ∧ entry.port = old.port ∧ entry.proxyType = old.proxyType := by
      intro other entry isEntry
      rw [lookup_insert_eq] at isEntry
      split at isEntry
      next isName =>
        obtain rfl := Option.some.inj isEntry
        exact ⟨e, isName ▸ found, rfl, rfl⟩
      next => exact ⟨entry, isEntry, rfl, rfl⟩
    refine kept.shrink ?_ (fun _ => id) (fun _ => id) ?_ ?_
    · intro other entry isEntry
      obtain ⟨old, isOld, samePort, sameType⟩ := same isEntry
      have allowed := kept.allowed isOld
      exact ⟨sameType ▸ allowed.proxyType, samePort ▸ sameType ▸ allowed.port, sameType ▸ allowed.visitors⟩
    · refine Finset.union_subset_union_left fun other member => ?_
      obtain ⟨entry, isEntry⟩ := mem_held.mp member
      obtain ⟨old, isOld, -⟩ := same isEntry
      exact mem_held.mpr ⟨old, isOld⟩
    · refine Finset.union_subset_union_left fun other member => ?_
      obtain ⟨entry, isEntry, takesPort⟩ := mem_ported.mp member
      obtain ⟨old, isOld, samePort, -⟩ := same isEntry
      exact mem_ported.mpr ⟨old, isOld, samePort ▸ takesPort⟩

theorem held_insert (s : Proxies) (name : String) (e : ProxyEntry) :
    held { s with entries := s.entries.insert name e } = insert name s.held := by
  ext other
  rw [Finset.mem_insert, mem_held, mem_held]
  simp only [lookup_insert_eq]
  by_cases same : other = name
  · simp [same]
  · simp [same]

theorem held_enter (s : Proxies) (m : NewProxy) (remoteAddr : String) :
    (s.enter m remoteAddr).held = insert m.proxyName s.held := held_insert s _ _

theorem ported_enter_subset (s : Proxies) (m : NewProxy) (remoteAddr : String) :
    (s.enter m remoteAddr).ported ⊆ if isPortType m.proxyType then insert m.proxyName s.ported else s.ported := by
  intro other member
  obtain ⟨e, found, takesPort⟩ := mem_ported.mp member
  rw [enter] at found
  simp only [lookup_insert_eq] at found
  split at found
  next same =>
    obtain rfl := Option.some.inj found
    have isPort : isPortType m.proxyType := by
      by_contra noPort
      have noEntry : m.entry.port = none := if_neg noPort
      rw [noEntry] at takesPort
      cases takesPort
    rw [if_pos isPort, same]
    exact Finset.mem_insert_self _ _
  next =>
    have inOld : other ∈ s.ported := mem_ported.mpr ⟨e, found, takesPort⟩
    split
    next => exact Finset.mem_insert_of_mem inOld
    next => exact inOld

theorem allowed_enter (kept : Kept t s) (isAllowed : Allowed t m.entry) (remoteAddr : String) {e : ProxyEntry}
    (found : (s.enter m remoteAddr).entries.lookup name = some e) : Allowed t e := by
  rw [enter] at found
  simp only [lookup_insert_eq] at found
  split at found
  next =>
    obtain rfl := Option.some.inj found
    exact ⟨isAllowed.proxyType, isAllowed.port, isAllowed.visitors⟩
  next => exact kept.allowed found

theorem beingBound_subset {binding : List Binding} (fewer : ∀ b ∈ binding, b ∈ s.binding) :
    beingBound { s with binding } ⊆ s.beingBound := by
  intro name member
  obtain ⟨b, isBinding, same⟩ := List.mem_map.mp (List.mem_toFinset.mp member)
  exact List.mem_toFinset.mpr (List.mem_map.mpr ⟨b, fewer b isBinding, same⟩)

theorem kept_ended (kept : Kept t s) {asked : List ProxyConfig} {binding : List Binding}
    (fewerAsked : ∀ p ∈ asked, p ∈ s.asked) (fewerBinding : ∀ b ∈ binding, b ∈ s.binding) :
    Kept t { s with asked, binding } := by
  refine kept.shrink kept.allowed fewerAsked fewerBinding ?_ ?_
  · refine Finset.union_subset_union_right (Finset.union_subset_union ?_ (beingBound_subset fewerBinding))
    intro name member
    obtain ⟨p, isAsked, same⟩ := List.mem_map.mp (List.mem_toFinset.mp member)
    exact List.mem_toFinset.mpr (List.mem_map.mpr ⟨p, fewerAsked p isAsked, same⟩)
  · exact Finset.union_subset_union_right (beingBound_subset fewerBinding)

theorem kept_bound (kept : Kept t s) {index : Nat} {b : Binding} (found : s.binding[index]? = some b)
    (remoteAddr : String) : Kept t ({ s with binding := s.binding.eraseIdx index }.enter b.m remoteAddr) := by
  have member : b ∈ s.binding := List.mem_of_getElem? found
  have isBound : b.m.proxyName ∈ s.beingBound := List.mem_toFinset.mpr (List.mem_map_of_mem member)
  have fewer : ∀ other ∈ s.binding.eraseIdx index, other ∈ s.binding := fun _ => List.mem_of_mem_eraseIdx
  have ended : Kept t { s with binding := s.binding.eraseIdx index } := kept_ended kept (fun _ => id) fewer
  refine kept.shrink (allowed_enter ended (kept.binding b member) remoteAddr) (fun _ => id) fewer ?_ ?_
  · rw [held_enter]
    refine Finset.union_subset (Finset.insert_subset ?_ Finset.subset_union_left) ?_
    · exact Finset.mem_union_right _ (Finset.mem_union_right _ isBound)
    · exact (Finset.union_subset_union_right (beingBound_subset fewer)).trans Finset.subset_union_right
  · refine Finset.union_subset ((ported_enter_subset _ _ _).trans ?_) ?_
    · split
      next => exact Finset.insert_subset (Finset.mem_union_right _ isBound) Finset.subset_union_left
      next => exact Finset.subset_union_left
    · exact (beingBound_subset fewer).trans Finset.subset_union_right

def Room (t : Terms) (s : Proxies) (name : String) : Prop :=
  t.role.maxProxies = 0 ∨ (insert name (s.held ∪ s.underWay t)).card ≤ t.role.maxProxies

def RoomPorts (t : Terms) (s : Proxies) (m : NewProxy) : Prop :=
  isPortType m.proxyType → t.cfg.maxPortsPerClient ≤ 0 ∨
    ((insert m.proxyName (s.ported ∪ s.beingBound)).card : Int) ≤ t.cfg.maxPortsPerClient

theorem kept_enter (kept : Kept t s) (isAllowed : Allowed t m.entry) (room : s.Room t m.proxyName)
    (roomPorts : s.RoomPorts t m) (remoteAddr : String) : Kept t (s.enter m remoteAddr) where
  allowed := allowed_enter kept isAllowed remoteAddr
  asked := kept.asked
  binding := kept.binding
  proxies := by
    refine room.imp_right fun fits => ?_
    rw [held_enter, Finset.insert_union]
    exact fits
  ports := by
    have subset := ported_enter_subset s m remoteAddr
    by_cases takesPort : isPortType m.proxyType
    · rw [if_pos takesPort] at subset
      refine (roomPorts takesPort).imp_right fun fits => le_trans (Int.ofNat_le.mpr (Finset.card_le_card ?_)) fits
      rw [← Finset.insert_union]
      exact Finset.union_subset_union_left subset
    · rw [if_neg takesPort] at subset
      exact kept.ports.imp_right fun fits =>
        le_trans (Int.ofNat_le.mpr (Finset.card_le_card (Finset.union_subset_union_left subset))) fits

theorem kept_wait (kept : Kept t s) (isAllowed : Allowed t m.entry) (takesPort : isPortType m.proxyType)
    (room : s.Room t m.proxyName) (roomPorts : s.RoomPorts t m) (byControl : Bool) :
    Kept t { s with binding := s.binding ++ [{ m, byControl }] } := by
  have bound : beingBound { s with binding := s.binding ++ [{ m, byControl }] } = insert m.proxyName s.beingBound := by
    rw [beingBound, List.map_append, List.toFinset_append, Finset.union_comm]
    rfl
  constructor
  · exact kept.allowed
  · exact kept.asked
  · intro b member
    rcases List.mem_append.mp member with old | new
    · exact kept.binding b old
    · rw [List.mem_singleton.mp new]
      exact isAllowed
  · refine room.imp_right fun fits => ?_
    rw [underWay, bound, Finset.union_insert, Finset.union_insert]
    exact fits
  · refine (roomPorts takesPort).imp_right fun fits => ?_
    rw [bound, Finset.union_insert]
    exact fits

theorem allowed_of_portRefusal (allows : t.role.Allows m.proxyType m.remotePort)
    (exact : isPortType m.proxyType → (m.proxyType = "tcp" ∨ m.proxyType = "udp") ∧ m.remotePort ≠ 0)
    (passed : portRefusal t.cfg s m = none) : Allowed t m.entry := by
  refine ⟨allows.proxyType, fun takesPort => ⟨m.remotePort, if_pos takesPort, ?_⟩, allows.visitors⟩
  obtain ⟨isType, given⟩ := exact takesPort
  refine ⟨allows.port takesPort given, ?_⟩
  rw [portRefusal, if_pos ⟨isType, given⟩] at passed
  split at passed
  next => cases passed
  next inList => exact not_not.mp inList

theorem kept_registerKind (kept : Kept t s) (allows : t.role.Allows m.proxyType m.remotePort)
    (passed : portRefusal t.cfg s m = none) (room : s.Room t m.proxyName)
    (roomPorts : (m.proxyType = "tcp" ∨ m.proxyType = "udp") ∧ m.remotePort ≠ 0 → s.RoomPorts t m)
    (byControl : Bool) (answer : Answer) : Kept t (s.registerKind t.cfg m byControl answer).1 := by
  rw [registerKind]
  split
  next isTcp =>
    split
    next => exact kept
    next given =>
      have isAllowed : Allowed t m.entry := allowed_of_portRefusal allows (fun _ => ⟨.inl isTcp, given⟩) passed
      have takesPort : isPortType m.proxyType := by
        rw [isTcp]
        decide +kernel
      split
      next => exact kept
      next => exact kept_wait kept isAllowed takesPort room (roomPorts ⟨.inl isTcp, given⟩) byControl
      next => exact kept_enter kept isAllowed room (roomPorts ⟨.inl isTcp, given⟩) _
  next =>
    split
    next isUdp =>
      split
      next => exact kept
      next given =>
        have isAllowed : Allowed t m.entry := allowed_of_portRefusal allows (fun _ => ⟨.inr isUdp, given⟩) passed
        have takesPort : isPortType m.proxyType := by
          rw [isUdp]
          decide +kernel
        split
        next => exact kept
        next => exact kept_wait kept isAllowed takesPort room (roomPorts ⟨.inr isUdp, given⟩) byControl
        next => exact kept
    next =>
      split
      next listed =>
        have noPort : ¬isPortType m.proxyType := by
          have each : ∀ ty ∈ ["http", "https", "tcpmux", "stcp", "xtcp", "sudp"], ¬isPortType ty := by decide +kernel
          exact each _ listed
        split
        next => exact kept
        next =>
          refine kept_enter kept ?_ room (fun takesPort => absurd takesPort noPort) _
          exact allowed_of_portRefusal allows (fun takesPort => absurd takesPort noPort) passed
      next => exact kept

theorem held_stopProxy_subset (s : Proxies) (name : String) : (s.stopProxy name).held ⊆ s.held := by
  intro other member
  obtain ⟨e, found⟩ := mem_held.mp member
  exact mem_held.mpr ⟨e, (lookup_of_erase found).2⟩

theorem ported_stopProxy_subset (s : Proxies) (name : String) : (s.stopProxy name).ported ⊆ s.ported := by
  intro other member
  obtain ⟨e, found, takesPort⟩ := mem_ported.mp member
  exact mem_ported.mpr ⟨e, (lookup_of_erase found).2, takesPort⟩

theorem Room.stopProxy (room : s.Room t name) : (s.stopProxy name).Room t name :=
  room.imp_right fun fits => (Finset.card_le_card (Finset.insert_subset_insert _
    (Finset.union_subset_union_left (held_stopProxy_subset s name)))).trans fits

theorem RoomyPorts.stopProxy (roomy : s.RoomyPorts t m) (passed : portRefusal t.cfg (s.stopProxy m.proxyName) m = none)
    (counted : (m.proxyType = "tcp" ∨ m.proxyType = "udp") ∧ m.remotePort ≠ 0) :
    (s.stopProxy m.proxyName).RoomPorts t m := by
  intro takesPort
  rw [portRefusal, if_pos counted] at passed
  split at passed
  next => cases passed
  next =>
    split at passed
    next => cases passed
    next notFull =>
      rcases roomy with noLimit | other | full | fits
      · exact .inl noLimit
      · exact absurd takesPort other
      · by_cases noLimit : t.cfg.maxPortsPerClient ≤ 0
        · exact .inl noLimit
        · exact absurd ⟨not_le.mp noLimit, full⟩ notFull
      · refine .inr (le_trans (Int.ofNat_le.mpr (Finset.card_le_card (Finset.insert_subset_insert _ ?_))) fits)
        exact Finset.union_subset_union_left (ported_stopProxy_subset s m.proxyName)

theorem kept_registerProxy (kept : Kept t s) (allows : t.role.Allows m.proxyType m.remotePort)
    (room : s.Room t m.proxyName) (roomy : s.RoomyPorts t m) (byControl : Bool) (answer : Answer) :
    Kept t (s.registerProxy t.cfg m byControl answer).1 := by
  rw [registerProxy]
  split
  next => exact kept
  next =>
    split
    next => exact kept_adopt kept _ _ _
    next =>
      have stopped := kept_stopProxy kept m.proxyName
      simp only
      split
      next => exact stopped
      next =>
        split
        next => exact stopped
        next passed => exact kept_registerKind stopped allows passed room.stopProxy (roomy.stopProxy passed) byControl answer

theorem Roomy.room (roomy : s.Roomy t name) (passed : t.role.maxProxies = 0 ∨ s.proxyCount < t.role.maxProxies) :
    s.Room t name := by
  rcases roomy with noLimit | fits
  · exact .inl noLimit
  · rcases passed with noLimit | below
    · exact .inl noLimit
    · rw [if_pos below] at fits
      exact .inr fits

theorem kept_asked (kept : Kept t s) {p : ProxyConfig} (allows : t.role.Allows p.proxyType p.remotePort)
    (room : s.Room t (addUserPrefix t.user p.name)) : Kept t { s with asked := s.asked ++ [p] } where
  allowed := kept.allowed
  asked := by
    intro other member
    rcases List.mem_append.mp member with old | new
    · exact kept.asked other old
    · rw [List.mem_singleton.mp new]
      exact allows
  binding := kept.binding
  proxies := by
    have names : underWay t { s with asked := s.asked ++ [p] } = insert (addUserPrefix t.user p.name) (s.underWay t) := by
      rw [underWay, List.map_append, List.toFinset_append, Finset.union_comm (List.toFinset _), Finset.union_assoc]
      rfl
    refine room.imp_right fun fits => ?_
    rw [names, Finset.union_insert]
    exact fits
  ports := kept.ports

/-- What was asked about is registered: it was counted already. -/
theorem kept_panelAck (kept : Kept t s) {index : Nat} {p : ProxyConfig} (found : s.asked[index]? = some p)
    (roomy : s.RoomyPorts t (wire t.user p)) (answer : Answer) :
    Kept t (registerProxy t.cfg { s with asked := s.asked.eraseIdx index } (wire t.user p) false answer).1 := by
  have member : p ∈ s.asked := List.mem_of_getElem? found
  have fewer : ∀ other ∈ s.asked.eraseIdx index, other ∈ s.asked := fun _ => List.mem_of_mem_eraseIdx
  have ended : Kept t { s with asked := s.asked.eraseIdx index } := kept_ended kept fewer fun _ => id
  have allows : t.role.Allows (wire t.user p).proxyType (wire t.user p).remotePort := by
    have asked := kept.asked p member
    have sameType : (wire t.user p).proxyType = p.proxyType := NewProxy.proxyType_fromConfig p t.user
    refine ⟨sameType ▸ asked.proxyType, ?_, sameType ▸ asked.visitors⟩
    intro takesPort
    rw [sameType] at takesPort
    have samePort : (wire t.user p).remotePort = p.remotePort := NewProxy.remotePort_fromConfig takesPort t.user
    rw [samePort]
    exact asked.port takesPort
  refine kept_registerProxy ended allows ?_ roomy false answer
  have isNamed : (wire t.user p).proxyName = addUserPrefix t.user p.name := NewProxy.proxyName_fromConfig p t.user
  refine kept.proxies.imp_right fun fits => (Finset.card_le_card ?_).trans fits
  refine Finset.insert_subset ?_ (Finset.union_subset_union_right (Finset.union_subset_union_left ?_))
  · rw [isNamed]
    refine Finset.mem_union_right _ (Finset.mem_union_left _ ?_)
    exact List.mem_toFinset.mpr (List.mem_map_of_mem member)
  · intro other isOther
    obtain ⟨q, isAsked, same⟩ := List.mem_map.mp (List.mem_toFinset.mp isOther)
    exact List.mem_toFinset.mpr (List.mem_map.mpr ⟨q, fewer q isAsked, same⟩)

theorem lookup_of_retain {keep : String → ProxyEntry → Bool} {e : ProxyEntry}
    (found : (retain keep s.entries).lookup name = some e) : s.entries.lookup name = some e := by
  rw [lookup_retain] at found
  exact (Option.filter_eq_some_iff.mp found).1

theorem kept_change {event : Event} {after : Proxies} (change : s.Change t event after) (uncrowded : s.Uncrowded t event)
    (kept : Kept t s) : Kept t after := by
  cases change with
  | same => exact kept
  | newProxy m answer passed =>
    obtain ⟨allows, notFull⟩ := checkProxy_eq_ok_iff.mp passed
    have room : s.Room t (canonicalWireName t.user m.proxyName) := uncrowded.1.room notFull
    refine kept_registerProxy kept ?_ ?_ ?_ true answer
    · exact allows
    · exact room
    · exact uncrowded.2
  | panelAdd p passed =>
    obtain ⟨allows, notFull⟩ := checkProxy_eq_ok_iff.mp passed
    exact kept_asked kept allows (Roomy.room uncrowded notFull)
  | panelFailed => exact kept_ended kept (fun _ => List.mem_of_mem_eraseIdx) fun _ => id
  | panelAck index answer p found => exact kept_panelAck kept found (uncrowded p found) answer
  | unbound => exact kept_ended kept (fun _ => id) fun _ => List.mem_of_mem_eraseIdx
  | bound index remoteAddr b found => exact kept_bound kept found remoteAddr
  | close _ name => exact kept_stopProxy kept name
  | resume =>
    have ended : Kept t { s with binding := s.binding.filter (¬·.byControl) } :=
      kept_ended kept (fun _ => id) fun _ => List.mem_of_mem_filter
    exact ⟨ended.allowed, ended.asked, ended.binding, ended.proxies, ended.ports⟩
  | sweep => exact kept.fewer lookup_of_retain false
  | stop =>
    have nothing : ∀ {name e}, (∅ : ProxyMap).lookup name = some e → s.entries.lookup name = some e := by
      intro name e found
      rw [AList.lookup_empty] at found
      cases found
    exact kept.fewer nothing s.resumedSession

theorem kept_step (s : Proxies) (event : Event) (uncrowded : s.Uncrowded t event) (kept : Kept t s) :
    Kept t (s.step t event).1 :=
  kept_change (change_step t s event) uncrowded kept

theorem lookup_accept (s : Proxies) (m : NewProxy) : (s.accept m).entries.lookup m.proxyName = some m.entry := by
  rw [accept]
  exact AList.lookup_insert _

theorem Limits.allows (limits : Limits t (s.accept m)) : t.role.Allows m.proxyType m.remotePort :=
  (limits.allowed (lookup_accept s m)).allows

/-- The count of ports leaves out the proxy that is replaced. -/
theorem not_limits_of_portRefusal {r : Refusal} (refused : portRefusal t.cfg (s.stopProxy m.proxyName) m = some r) :
    ¬Limits t (s.accept m) := by
  intro limits
  rw [portRefusal] at refused
  split at refused
  next counted =>
    have takesPort : isPortType m.proxyType := by
      rcases counted.1 with isTcp | isUdp
      · rw [isTcp]
        decide +kernel
      · rw [isUdp]
        decide +kernel
    have isPort : m.entry.port = some m.remotePort := NewProxy.port_entry takesPort
    split at refused
    next notInList =>
      obtain ⟨port, same, -, inList⟩ := (limits.allowed (lookup_accept s m)).port takesPort
      obtain rfl := Option.some.inj (isPort.symm.trans same)
      exact notInList inList
    next =>
      split at refused
      next full =>
        rcases limits.ports with noLimit | fits
        · omega
        · rw [accept, portsUsed_insert, isPort] at fits
          have more : t.cfg.maxPortsPerClient < (portsUsed (s.entries.erase m.proxyName) : Int) + 1 := full.2
          exact absurd fits (not_le.mpr more)
      next => cases refused
  next => cases refused

theorem not_ofLimits_registerKind {cfg : ServerConfig} {byControl : Bool} {answer : Answer} {r : Refusal}
    (refused : (s.registerKind cfg m byControl answer).2 = .refused r) : ¬r.OfLimits := by
  have other : ∀ {reason}, Outcome.refused (.other reason) = .refused r → ¬r.OfLimits := by
    rintro _ same ofLimits
    obtain rfl := Outcome.refused.inj same
    exact ofLimits
  rw [registerKind] at refused
  repeat' split at refused
  all_goals first | exact other refused | cases refused

theorem portRefusal_of_registerProxy {cfg : ServerConfig} {byControl : Bool} {answer : Answer} {r : Refusal}
    (refused : (s.registerProxy cfg m byControl answer).2 = .refused r) (ofLimits : r.OfLimits) :
    portRefusal cfg (s.stopProxy m.proxyName) m = some r := by
  rw [registerProxy] at refused
  split at refused
  next =>
    obtain rfl := Outcome.refused.inj refused
    exact ofLimits.elim
  next =>
    split at refused
    next => cases refused
    next =>
      simp only at refused
      split at refused
      next =>
        obtain rfl := Outcome.refused.inj refused
        exact ofLimits.elim
      next =>
        split at refused
        next isRefusal =>
          obtain rfl := Outcome.refused.inj refused
          exact isRefusal
        next => exact absurd ofLimits (not_ofLimits_registerKind refused)

theorem not_limits_of_checkProxy {r : Refusal} {name : String} (roomy : s.Roomy t m.proxyName)
    (refused : checkProxy t.role name m.proxyType m.remotePort s.proxyCount = .error r) : ¬Limits t (s.accept m) := by
  intro limits
  rcases checkProxy_eq_error refused with forbidden | ⟨-, limited, full⟩
  · exact forbidden limits.allows
  · rcases roomy with noLimit | isNew
    · omega
    · rw [if_neg (by omega)] at isNew
      rcases limits.proxies with noLimit | fits
      · omega
      · have grows : (s.accept m).proxyCount = s.proxyCount + 1 := by
          rw [← card_held, ← card_held, ← Finset.card_insert_of_notMem isNew]
          exact congrArg Finset.card (held_insert s m.proxyName m.entry)
        omega

theorem checkProxy_wire {p : ProxyConfig} {r : Refusal} {usedProxies : Nat}
    (refused : checkProxy t.role p.name p.proxyType p.remotePort usedProxies = .error r) :
    checkProxy t.role p.name (wire t.user p).proxyType (wire t.user p).remotePort usedProxies = .error r := by
  have sameType : (wire t.user p).proxyType = p.proxyType := NewProxy.proxyType_fromConfig p t.user
  rw [sameType]
  by_cases takesPort : isPortType p.proxyType
  · have samePort : (wire t.user p).remotePort = p.remotePort := NewProxy.remotePort_fromConfig takesPort t.user
    rw [samePort]
    exact refused
  · rw [← refused]
    simp only [checkProxy, takesPort, Bool.false_eq_true, false_and, if_false]

theorem fair_step (s : Proxies) (event : Event) (uncrowded : s.Uncrowded t event) : s.Fair t event := by
  intro m r isMessage refused ofLimits
  cases event with
  | newProxy sent answer =>
    obtain rfl := Option.some.inj isMessage
    rw [step] at refused
    split at refused
    next => cases refused
    next =>
      simp only at refused
      split at refused
      next isRefusal =>
        obtain rfl := Outcome.refused.inj refused
        exact not_limits_of_checkProxy uncrowded.1 isRefusal
      next => exact not_limits_of_portRefusal (portRefusal_of_registerProxy refused ofLimits)
  | panelAdd p =>
    obtain rfl := Option.some.inj isMessage
    have isNamed : (wire t.user p).proxyName = addUserPrefix t.user p.name := NewProxy.proxyName_fromConfig p t.user
    have other : ∀ {reason}, Outcome.refused (.other reason) ≠ .refused r := by
      rintro _ same
      obtain rfl := Outcome.refused.inj same
      exact ofLimits
    rw [step] at refused
    split at refused
    next => exact absurd refused other
    next =>
      split at refused
      next => exact absurd refused other
      next =>
        split at refused
        next => exact absurd refused other
        next =>
          split at refused
          next isRefusal =>
            obtain rfl := Outcome.refused.inj refused
            exact not_limits_of_checkProxy (isNamed ▸ uncrowded) (checkProxy_wire isRefusal)
          next => cases refused
  | panelAck index accepted answer =>
    obtain ⟨p, found, rfl⟩ := Option.map_eq_some_iff.mp isMessage
    rw [step, found] at refused
    cases accepted with
    | error e =>
      obtain rfl := Outcome.refused.inj refused
      exact ofLimits.elim
    | ok _ =>
      have isRefusal : portRefusal t.cfg (s.stopProxy (wire t.user p).proxyName) (wire t.user p) = some r :=
        portRefusal_of_registerProxy (s := { s with asked := s.asked.eraseIdx index }) refused ofLimits
      exact not_limits_of_portRefusal isRefusal
  | bound => cases isMessage
  | closeProxy => cases isMessage
  | panelRemove => cases isMessage
  | resume => cases isMessage
  | resumeCommit => cases isMessage
  | graceExpired => cases isMessage
  | stop => cases isMessage

theorem fair_run {events : List Event} (uncrowded : RunMeets (fun s event => (s.step t event).1) (Uncrowded t) s events) :
    RunMeets (fun s event => (s.step t event).1) (Fair t) s events := by
  induction events generalizing s with
  | nil => trivial
  | cons event events ih => exact ⟨fair_step s event uncrowded.1, ih uncrowded.2⟩

theorem limits_run (kept : Kept t s) {events : List Event}
    (uncrowded : RunMeets (fun s event => (s.step t event).1) (Uncrowded t) s events) :
    Throughout (fun s event => (s.step t event).1) (Limits t) s events :=
  throughout_of_runMeets (fun s event => kept_step s event) (fun _ kept => kept.limits) kept uncrowded

/-- Where no registration starts that may not fit in and nothing is registered again
when there is no room, the limits hold all along and nothing is refused for nothing. -/
theorem limits_of_uncrowded (t : Terms) (events : List Event)
    (uncrowded : RunMeets (fun s event => (step t s event).1) (Uncrowded t) {} events) :
    Throughout (fun s event => (step t s event).1) (Limits t) {} events ∧
      RunMeets (fun s event => (step t s event).1) (Fair t) {} events :=
  ⟨limits_run (kept_start t) uncrowded, fair_run uncrowded⟩

def officeRole : Role where
  name := "office"
  users := ["alice"]
  allowProxyTypes := ["tcp"]
  portRange := some ⟨6000, 6010⟩
  maxProxies := 1

def officeTerms : Terms where
  cfg := { maxPortsPerClient := 1 }
  rbac := { roles := [officeRole] }
  user := "alice"
  role := officeRole
  isRole := rfl

def officeProxy (name : String) (remotePort : Nat) : ProxyConfig where
  name := name
  localAddr := "127.0.0.1:80"
  remotePort := remotePort

def movedRun : List Event :=
  [.newProxy (wire "alice" (officeProxy "web" 6000)) {}, .bound 0 (.ok "0.0.0.0:6000"), .closeProxy "alice.web",
    .panelAdd (officeProxy "ssh" 6001), .panelAck 0 (.ok ()) {}, .bound 0 (.ok "0.0.0.0:6001")]

theorem limits_movedRun :
    Throughout (fun s event => (step officeTerms s event).1) (Limits officeTerms) {} movedRun ∧
      RunMeets (fun s event => (step officeTerms s event).1) (Fair officeTerms) {} movedRun :=
  limits_of_uncrowded officeTerms movedRun (by decide +kernel)

/-- The client comes back and announces its proxy again. -/
def resumedRun : List Event :=
  [.newProxy (wire "alice" (officeProxy "web" 6000)) {}, .bound 0 (.ok "0.0.0.0:6000"), .resume,
    .newProxy (wire "alice" (officeProxy "web" 6000)) {}]

/-- The panel adds a proxy while the client is asked about another. -/
def crowdedRun : List Event :=
  [.panelAdd (officeProxy "web" 6000), .panelAdd (officeProxy "ssh" 6001), .panelAck 0 (.ok ()) {},
    .panelAck 0 (.ok ()) {}, .bound 0 (.ok "0.0.0.0:6000"), .bound 0 (.ok "0.0.0.0:6001")]

theorem not_limits_resumedRun_crowdedRun :
    ¬RunMeets (fun s event => (step officeTerms s event).1) (Fair officeTerms) {} resumedRun ∧
      ¬Throughout (fun s event => (step officeTerms s event).1) (Limits officeTerms) {} crowdedRun := by
  constructor
  · rintro ⟨-, -, -, fair, -⟩
    exact fair (wire "alice" (officeProxy "web" 6000)) (.maxProxies "office" 1 1) (by decide +kernel) (by decide +kernel)
      trivial (by decide +kernel)
  · rintro ⟨-, -, -, -, -, -, limits⟩
    have crowded : ¬Limits officeTerms (run (fun s event => (step officeTerms s event).1) {} crowdedRun) := by
      decide +kernel
    exact crowded limits

end Proxies

end Nfrp
