import Mathlib.Data.List.AList
import Nfrp.Lib.Runs
import Nfrp.Kcp.Segment

/-!
# The KCP listener

One UDP port serves many sessions: the accept loop passes each datagram on to
the session its source address has an entry for, and opens a new session where
there is none.  Three parties share the table: the loop, the driver task of each
session, and whoever drops its stream.  A step is what a party does while it
holds the lock, or on its own.

An entry is removed by address.  That is the entry of the session meant only if
no later session of the same address has taken its place.
-/

namespace Nfrp

open Lib Nfrp.Kcp

/-- A stream being dropped has aborted its driver and not yet run `on_drop`. -/
inductive StreamState where
  | held
  | dropping
  | dropped
  deriving DecidableEq, Repr

structure KcpSession (Addr : Type) where
  peer : Addr
  conv : U32
  /-- The first datagram, then those passed on. -/
  inbox : List (List UInt8)
  running : Bool
  stream : StreamState
  deriving DecidableEq, Repr

/-- The driver still runs and the stream is not dropped. -/
def KcpSession.Live {Addr : Type} (s : KcpSession Addr) : Prop :=
  s.running ∧ s.stream = .held

instance {Addr : Type} (s : KcpSession Addr) : Decidable s.Live :=
  inferInstanceAs (Decidable (_ ∧ _))

/-- Where the accept loop is between two locks of the table. -/
inductive Accepting (Addr : Type) where
  | receiving
  | found (source : Addr) (session : Nat) (pkt : List UInt8)
  | stale (source : Addr)
  | fresh (source : Addr) (pkt : List UInt8)
  deriving DecidableEq, Repr

/-- Sessions are named by their position in the list of all ever spawned. -/
structure KcpListener (Addr : Type) where
  sessions : AList fun _ : Addr => Nat
  maxSessions : Nat
  spawned : List (KcpSession Addr)
  accepting : Accepting Addr

namespace KcpListener

variable {Addr : Type} [DecidableEq Addr]

def maxKcpSessions : Nat := 1024
def minKcpSessions : Nat := 64

def bind : KcpListener Addr where
  sessions := ∅
  maxSessions := maxKcpSessions
  spawned := []
  accepting := .receiving

def withMaxSessions (l : KcpListener Addr) (max : Nat) : KcpListener Addr :=
  { l with maxSessions := if max < minKcpSessions then minKcpSessions else max }

def forceMaxSessions (l : KcpListener Addr) (max : Nat) : KcpListener Addr :=
  { l with maxSessions := max }

omit [DecidableEq Addr] in
inductive Event (Addr : Type) where
  /-- `recv_from` returns, and the loop looks the source up. -/
  | datagram (source : Addr) (pkt : List UInt8)
  /-- The loop sends the datagram to the session it found. -/
  | forward
  /-- The loop removes the entry of a session that no longer listens. -/
  | clean
  /-- The loop opens a session for a source without one. -/
  | spawnServed
  | driverExit (session : Nat)
  | beginDrop (session : Nat)
  | finishDrop (session : Nat)
  deriving DecidableEq, Repr

def datagram (l : KcpListener Addr) (source : Addr) (pkt : List UInt8) : KcpListener Addr :=
  match l.accepting with
  | .receiving =>
    if pkt.length < header then l
    else
      match l.sessions.lookup source with
      | some session => { l with accepting := .found source session pkt }
      | none => { l with accepting := .fresh source pkt }
  | .found _ _ _ | .stale _ | .fresh _ _ => l

def forward (l : KcpListener Addr) : KcpListener Addr :=
  match l.accepting with
  | .found source session pkt =>
    if (l.spawned[session]?).any KcpSession.running then
      { l with
        spawned := l.spawned.modify session fun s => { s with inbox := s.inbox ++ [pkt] }
        accepting := .receiving }
    else
      { l with accepting := .stale source }
  | .receiving | .stale _ | .fresh _ _ => l

def clean (l : KcpListener Addr) : KcpListener Addr :=
  match l.accepting with
  | .stale source => { l with sessions := l.sessions.erase source, accepting := .receiving }
  | .receiving | .found _ _ _ | .fresh _ _ => l

def spawnServed (l : KcpListener Addr) : KcpListener Addr :=
  match l.accepting with
  | .fresh source pkt =>
    if l.maxSessions ≤ l.sessions.keys.length then { l with accepting := .receiving }
    else
      { l with
        sessions := l.sessions.insert source l.spawned.length
        spawned := l.spawned ++ [⟨source, (readU32 pkt 0).getD 0, [pkt], true, .held⟩]
        accepting := .receiving }
  | .receiving | .found _ _ _ | .stale _ => l

def driverExit (l : KcpListener Addr) (session : Nat) : KcpListener Addr :=
  { l with spawned := l.spawned.modify session fun s => { s with running := false } }

def beginDrop (l : KcpListener Addr) (session : Nat) : KcpListener Addr :=
  { l with
    spawned := l.spawned.modify session fun s =>
      if s.stream = .held then { s with stream := .dropping } else s }

/-- `on_drop` removes whatever entry the address of the session has. -/
def finishDrop (l : KcpListener Addr) (session : Nat) : KcpListener Addr :=
  match l.spawned[session]? with
  | some s =>
    if s.stream = .dropping then
      { l with
        sessions := l.sessions.erase s.peer
        spawned := l.spawned.modify session fun s => { s with stream := .dropped } }
    else l
  | none => l

def step (l : KcpListener Addr) : Event Addr → KcpListener Addr
  | .datagram source pkt => l.datagram source pkt
  | .forward => l.forward
  | .clean => l.clean
  | .spawnServed => l.spawnServed
  | .driverExit session => l.driverExit session
  | .beginDrop session => l.beginDrop session
  | .finishDrop session => l.finishDrop session

def Live (l : KcpListener Addr) (session : Nat) (peer : Addr) : Prop :=
  ∃ s, l.spawned[session]? = some s ∧ s.peer = peer ∧ s.Live

/-- When `on_drop` runs, no session of the same address is live. -/
def DropsAlone (l : KcpListener Addr) : Event Addr → Prop
  | .finishDrop session =>
    ∀ s ∈ l.spawned[session]?.toList, s.stream = .dropping →
      ∀ other ∈ l.spawned, other.peer = s.peer → ¬ other.Live
  | .datagram _ _ | .forward | .clean | .spawnServed | .driverExit _ | .beginDrop _ => True

instance (l : KcpListener Addr) : (event : Event Addr) → Decidable (l.DropsAlone event)
  | .finishDrop session =>
    inferInstanceAs (Decidable (∀ s ∈ l.spawned[session]?.toList, s.stream = .dropping →
      ∀ other ∈ l.spawned, other.peer = s.peer → ¬ other.Live))
  | .datagram _ _ | .forward | .clean | .spawnServed | .driverExit _ | .beginDrop _ => .isTrue trivial

/-- What the accept loop may rely on between two locks. -/
def Consistent (l : KcpListener Addr) : Prop :=
  match l.accepting with
  | .receiving => True
  | .found source session _ => ∀ other, l.sessions.lookup source = some other → other = session
  | .stale source => ∀ other, l.sessions.lookup source = some other → ¬ l.Live other source
  | .fresh source _ => l.sessions.lookup source = none

/-- Every live session has its entry, and the table is within its limit. -/
structure Exact (max : Nat) (l : KcpListener Addr) : Prop where
  owns : ∀ session peer, l.Live session peer → l.sessions.lookup peer = some session
  limit : l.maxSessions = max
  bounded : l.sessions.keys.length ≤ max
  consistent : l.Consistent

omit [DecidableEq Addr] in
theorem Live.of_modify {l : KcpListener Addr} {change : KcpSession Addr → KcpSession Addr}
    (samePeer : ∀ s, (change s).peer = s.peer) (fades : ∀ s, (change s).Live → s.Live)
    {sessions : AList fun _ : Addr => Nat} {accepting : Accepting Addr} {changed session : Nat} {peer : Addr}
    (live : Live { l with sessions, accepting, spawned := l.spawned.modify changed change } session peer) :
    l.Live session peer := by
  obtain ⟨s, found, hasPeer, isLive⟩ := live
  rw [List.getElem?_modify] at found
  obtain ⟨before, foundBefore, rfl⟩ := Option.map_eq_some_iff.mp found
  refine ⟨before, foundBefore, ?_⟩
  by_cases isChanged : changed = session
  · rw [if_pos isChanged] at hasPeer isLive
    exact ⟨(samePeer before).symm.trans hasPeer, fades before isLive⟩
  · rw [if_neg isChanged] at hasPeer isLive
    exact ⟨hasPeer, isLive⟩

/-- Removing an entry, or ending a session, breaks nothing the loop relies on. -/
theorem Consistent.shrink {l after : KcpListener Addr} (consistent : l.Consistent)
    (sameLoop : after.accepting = l.accepting)
    (fewerEntries : ∀ peer session, after.sessions.lookup peer = some session →
      l.sessions.lookup peer = some session)
    (fewerLive : ∀ session peer, after.Live session peer → l.Live session peer) : after.Consistent := by
  unfold Consistent at consistent ⊢
  rw [sameLoop]
  cases loop : l.accepting with
  | receiving => trivial
  | found source session pkt =>
    rw [loop] at consistent
    exact fun other isEntry => consistent other (fewerEntries source other isEntry)
  | stale source =>
    rw [loop] at consistent
    exact fun other isEntry live =>
      consistent other (fewerEntries source other isEntry) (fewerLive other source live)
  | fresh source pkt =>
    rw [loop] at consistent
    by_contra present
    obtain ⟨session, isEntry⟩ := Option.ne_none_iff_exists'.mp present
    simp only at consistent
    rw [fewerEntries source session isEntry] at consistent
    exact absurd consistent (by simp)

theorem lookup_of_lookup_erase {sessions : AList fun _ : Addr => Nat} {removed peer : Addr} {session : Nat}
    (isEntry : (sessions.erase removed).lookup peer = some session) : sessions.lookup peer = some session := by
  by_cases isRemoved : peer = removed
  · subst isRemoved
    rw [AList.lookup_erase] at isEntry
    exact absurd isEntry (by simp)
  · rwa [AList.lookup_erase_ne isRemoved] at isEntry

theorem length_keys_erase_le (sessions : AList fun _ : Addr => Nat) (removed : Addr) :
    (sessions.erase removed).keys.length ≤ sessions.keys.length := by
  rw [AList.keys_erase]
  exact List.length_erase_le

/-- A step that only ends things keeps the table exact, as long as the entries
of live sessions stay. -/
theorem Exact.shrink {max : Nat} {l after : KcpListener Addr} (exact : l.Exact max)
    (sameLimit : after.maxSessions = l.maxSessions)
    (fewerKeys : after.sessions.keys.length ≤ l.sessions.keys.length)
    (fewerLive : ∀ session peer, after.Live session peer → l.Live session peer)
    (kept : ∀ session peer, after.Live session peer →
      l.sessions.lookup peer = some session → after.sessions.lookup peer = some session)
    (consistent : after.Consistent) : after.Exact max :=
  ⟨fun session peer live => kept session peer live (exact.owns session peer (fewerLive session peer live)),
    sameLimit.trans exact.limit, fewerKeys.trans exact.bounded, consistent⟩

theorem datagram_exact {max : Nat} {l : KcpListener Addr} (exact : l.Exact max) (source : Addr)
    (pkt : List UInt8) : (l.datagram source pkt).Exact max := by
  unfold datagram
  split
  next _ =>
    by_cases short : pkt.length < header
    · rw [if_pos short]
      exact exact
    · rw [if_neg short]
      cases entry : l.sessions.lookup source with
      | none => exact ⟨exact.owns, exact.limit, exact.bounded, entry⟩
      | some session =>
        refine ⟨exact.owns, exact.limit, exact.bounded, ?_⟩
        intro other isEntry
        exact Option.some.inj (isEntry.symm.trans entry)
  all_goals exact exact

theorem forward_exact {max : Nat} {l : KcpListener Addr} (exact : l.Exact max) :
    l.forward.Exact max := by
  unfold forward
  split
  next source session pkt loop =>
    have consistent := exact.consistent
    simp only [Consistent, loop] at consistent
    split
    · refine exact.shrink rfl (le_refl _) ?_ (fun _ _ _ isEntry => isEntry) trivial
      intro other peer live
      refine Live.of_modify ?_ ?_ live
      · exact fun _ => rfl
      · exact fun _ isLive => isLive
    next notRunning =>
      refine ⟨exact.owns, exact.limit, exact.bounded, ?_⟩
      rintro other isEntry ⟨s, found, -, isRunning, -⟩
      apply notRunning
      rw [← consistent other isEntry, found]
      exact isRunning
  all_goals exact exact

theorem clean_exact {max : Nat} {l : KcpListener Addr} (exact : l.Exact max) : l.clean.Exact max := by
  unfold clean
  split
  next source loop =>
    have consistent := exact.consistent
    simp only [Consistent, loop] at consistent
    refine exact.shrink rfl (length_keys_erase_le _ _) (fun _ _ live => live) ?_ trivial
    intro session peer live isEntry
    have other : peer ≠ source := by
      rintro rfl
      exact consistent session isEntry live
    exact (AList.lookup_erase_ne other).trans isEntry
  all_goals exact exact

theorem spawnServed_exact {max : Nat} {l : KcpListener Addr} (exact : l.Exact max) :
    l.spawnServed.Exact max := by
  unfold spawnServed
  split
  next source pkt loop =>
    have absent : l.sessions.lookup source = none := by
      have consistent := exact.consistent
      simpa only [Consistent, loop] using consistent
    split
    · exact ⟨exact.owns, exact.limit, exact.bounded, trivial⟩
    next room =>
      refine ⟨?_, exact.limit, ?_, trivial⟩
      · rintro session peer ⟨s, found, rfl, isLive⟩
        rcases Nat.lt_or_ge session l.spawned.length with old | new
        · have foundBefore : l.spawned[session]? = some s := by
            rwa [List.getElem?_append_left old] at found
          have isEntry := exact.owns session s.peer ⟨s, foundBefore, rfl, isLive⟩
          have other : s.peer ≠ source := by
            intro same
            rw [same, absent] at isEntry
            exact absurd isEntry (by simp)
          exact (AList.lookup_insert_ne other).trans isEntry
        · obtain ⟨inside, isNew⟩ := List.getElem?_eq_some_iff.mp found
          have isLast : session = l.spawned.length := by
            rw [List.length_append, List.length_singleton] at inside
            omega
          subst isLast
          rw [List.getElem_concat_length rfl] at isNew
          rw [← isNew]
          exact AList.lookup_insert _
      · have notMember : source ∉ l.sessions := AList.lookup_eq_none.mp absent
        have notKey : source ∉ l.sessions.keys := notMember
        have limit := exact.limit
        simp only [AList.keys_insert, List.erase_of_not_mem notKey, List.length_cons]
        omega
  all_goals exact exact

theorem driverExit_exact {max : Nat} {l : KcpListener Addr} (exact : l.Exact max) (session : Nat) :
    (l.driverExit session).Exact max := by
  have fewerLive : ∀ other peer, (l.driverExit session).Live other peer → l.Live other peer := by
    intro other peer live
    refine Live.of_modify ?_ ?_ live
    · exact fun _ => rfl
    · exact fun _ isLive => nomatch isLive.1
  exact exact.shrink rfl (le_refl _) fewerLive (fun _ _ _ isEntry => isEntry)
    (exact.consistent.shrink rfl (fun _ _ isEntry => isEntry) fewerLive)

theorem beginDrop_exact {max : Nat} {l : KcpListener Addr} (exact : l.Exact max) (session : Nat) :
    (l.beginDrop session).Exact max := by
  have fewerLive : ∀ other peer, (l.beginDrop session).Live other peer → l.Live other peer := by
    intro other peer live
    refine Live.of_modify ?_ ?_ live
    · intro s
      split <;> rfl
    · intro s isLive
      split at isLive
      · cases isLive.2
      · exact isLive
  exact exact.shrink rfl (le_refl _) fewerLive (fun _ _ _ isEntry => isEntry)
    (exact.consistent.shrink rfl (fun _ _ isEntry => isEntry) fewerLive)

theorem finishDrop_exact {max : Nat} {l : KcpListener Addr} (exact : l.Exact max) {session : Nat}
    (alone : l.DropsAlone (.finishDrop session)) : (l.finishDrop session).Exact max := by
  unfold finishDrop
  split
  next s found =>
    by_cases dropping : s.stream = .dropping
    · rw [if_pos dropping]
      have fewerLive : ∀ other peer,
          Live
            { l with
              sessions := l.sessions.erase s.peer
              spawned := l.spawned.modify session fun s => { s with stream := .dropped } } other peer →
            l.Live other peer := by
        intro other peer live
        refine Live.of_modify ?_ ?_ live
        · exact fun _ => rfl
        · exact fun _ isLive => nomatch isLive.2
      refine exact.shrink rfl (length_keys_erase_le _ _) fewerLive ?_
        (exact.consistent.shrink rfl (fun _ _ isEntry => lookup_of_lookup_erase isEntry) fewerLive)
      intro other peer live isEntry
      obtain ⟨t, foundOther, rfl, isLive⟩ := fewerLive other peer live
      have elsewhere : t.peer ≠ s.peer := fun same =>
        alone s (by simp [found]) dropping t (List.mem_of_getElem? foundOther) same isLive
      exact (AList.lookup_erase_ne elsewhere).trans isEntry
    · rw [if_neg dropping]
      exact exact
  next _ => exact exact

theorem step_exact {max : Nat} {l : KcpListener Addr} {event : Event Addr} (alone : l.DropsAlone event)
    (exact : l.Exact max) : (l.step event).Exact max := by
  cases event with
  | datagram source pkt => exact datagram_exact exact source pkt
  | forward => exact forward_exact exact
  | clean => exact clean_exact exact
  | spawnServed => exact spawnServed_exact exact
  | driverExit session => exact driverExit_exact exact session
  | beginDrop session => exact beginDrop_exact exact session
  | finishDrop session => exact finishDrop_exact exact alone

/-- In every run in which `on_drop` never runs while a session of the same
address is live, each live session keeps its entry and the table stays within
its limit. -/
theorem table_exact (max : Nat) (events : List (Event Addr))
    (alone : RunMeets step DropsAlone ((bind : KcpListener Addr).forceMaxSessions max) events) :
    let l := run step ((bind : KcpListener Addr).forceMaxSessions max) events
    (∀ session peer, l.Live session peer → l.sessions.lookup peer = some session) ∧
      l.sessions.keys.length ≤ max := by
  intro l
  have initially : Exact max ((bind : KcpListener Addr).forceMaxSessions max) := by
    refine ⟨?_, rfl, by simp [bind, forceMaxSessions], trivial⟩
    rintro session peer ⟨s, found, -⟩
    simp [bind, forceMaxSessions] at found
  have exact : l.Exact max :=
    @run_invariant_of_meets _ _ step DropsAlone (Exact max)
      (fun _ _ alone exact => step_exact alone exact) _ initially _ alone
  exact ⟨exact.owns, exact.bounded⟩

/-- The driver of a session gives up, the next two datagrams of its peer clear
the entry and open a second session, and then the first stream is dropped. -/
def reopened : List (Event Nat) :=
  let pkt := List.replicate 24 0
  [.datagram 1 pkt, .spawnServed, .driverExit 0, .datagram 1 pkt, .forward, .clean,
    .datagram 1 pkt, .spawnServed, .beginDrop 0, .finishDrop 0]

/-- The second session is live and its entry is gone. -/
theorem entry_removed :
    let l := run step (bind : KcpListener Nat) reopened
    l.Live 1 1 ∧ l.sessions.lookup 1 = none := by
  refine ⟨⟨⟨1, 0, [List.replicate 24 0], true, .held⟩, ?_, rfl, rfl, rfl⟩, ?_⟩ <;> decide

theorem table_exact_example :
    let l := run step ((bind : KcpListener Nat).forceMaxSessions 64)
      [.datagram 1 (List.replicate 24 0), .spawnServed, .beginDrop 0, .finishDrop 0,
        .datagram 1 (List.replicate 24 0), .spawnServed]
    (∀ session peer, l.Live session peer → l.sessions.lookup peer = some session) ∧
      l.sessions.keys.length ≤ 64 :=
  table_exact 64 _ (by decide)

end KcpListener

end Nfrp
