import Nfrp.Lib.Rotation
import Nfrp.Server.Ports

/-!
# Which member of a group serves a connection

A group counts the connections of each of its members and takes them by turns, or takes the one
with the fewest.  A count is shared with the guards that were made of it, and a member that
registers again has a new one.
-/

namespace Nfrp

open Lib

inductive LbPolicy where
  | roundRobin
  | leastConn
  deriving DecidableEq, Repr

namespace Balance

/-- `load` is the count that a member shares with its guards. -/
structure Member extends Backend where
  load : Nat
  deriving DecidableEq

/-- `inflight` are the counts and `guards` those of the guards that are held.  A count has as many
guards as can be referred to, so it never overflows; the cursor wraps. -/
structure Group where
  members : List Member
  cursor : Nat := 0
  inflight : Nat → Nat := fun _ => 0
  guards : List Nat := []
  fresh : Nat
  picked : List Member := []

inductive Op where
  | push (client : Nat) (proxyName : String)
  | remove (client : Nat) (proxyName : String)
  | removeAllOf (client : Nat)
  | pick (policy : LbPolicy)
  | hold (load : Nat)
  | drop (guard : Nat)

namespace Group

variable (ids : RunIds)

def new (client : Nat) (proxyName : String) : Group where
  members := [⟨⟨client, proxyName⟩, 0⟩]
  fresh := 1

def remove (client : Nat) (proxyName : String) (g : Group) : Group :=
  { g with members := g.members.filter fun b => !(ids.sameClient b.client client && b.proxyName == proxyName) }

def push (client : Nat) (proxyName : String) (g : Group) : Group :=
  { g with
    members := (g.remove ids client proxyName).members ++ [⟨⟨client, proxyName⟩, g.fresh⟩]
    fresh := g.fresh + 1 }

def removeAllOf (client : Nat) (g : Group) : Group :=
  { g with members := g.members.filter fun b => !ids.sameClient b.client client }

/-- How many connections the member at an index has; `none` is an index outside. -/
def inflightAt (g : Group) (i : Nat) : Option Nat := g.members[i]?.map fun b => g.inflight b.load

/-- One round of the scan: the best so far and its count. -/
def compare (g : Group) (start : Nat) (best : Nat × Nat) (k : Nat) : Option (Nat × Nat) := do
  let i := (start + k) % g.members.length
  let l ← g.inflightAt i
  return if l < best.2 then (i, l) else best

/-- The index of the first of the fewest, from `start` on and once around. -/
def least (g : Group) (start : Nat) : Option Nat := do
  let n := g.members.length
  let load ← g.inflightAt start
  let found ← List.foldlM (g.compare start) (start, load) (List.range' 1 (n - 1))
  return found.1

def pick (g : Group) (policy : LbPolicy) : Option Member × Group :=
  let n := g.members.length
  if n = 0 then (none, g)
  else
    let start := g.cursor % n
    let g := { g with cursor := (g.cursor + 1) % 2 ^ 64 }
    match policy with
    | .roundRobin => (g.members[start]?, g)
    | .leastConn => ((g.least start).bind fun best => g.members[best]?, g)

def hold (load : Nat) (g : Group) : Group :=
  { g with inflight := Function.update g.inflight load (g.inflight load + 1), guards := load :: g.guards }

def dropGuard (guard : Nat) (g : Group) : Group :=
  match g.guards[guard]? with
  | none => g
  | some load =>
    { g with
      inflight := Function.update g.inflight load (g.inflight load - 1)
      guards := g.guards.eraseIdx guard }

def step (g : Group) : Op → Group
  | .push client proxyName => g.push ids client proxyName
  | .remove client proxyName => g.remove ids client proxyName
  | .removeAllOf client => g.removeAllOf ids client
  | .pick policy =>
    let (found, g) := g.pick policy
    { g with picked := g.picked ++ found.toList }
  | .hold load => if load < g.fresh then g.hold load else g
  | .drop guard => g.dropGuard guard

variable {ids} {port : PortGroup} {g : Group}

/-- Every count is that of its guards, and no two members share one. -/
structure Counted (g : Group) : Prop where
  counts : ∀ load, g.inflight load = g.guards.count load
  given : ∀ b ∈ g.members, b.load < g.fresh
  distinct : (g.members.map Member.load).Nodup
  small : g.cursor < 2 ^ 64

theorem counted_new (client : Nat) (proxyName : String) : (new client proxyName).Counted where
  counts _ := rfl
  given := by simp [new]
  distinct := by simp [new]
  small := by simp [new]

theorem Counted.fewer (counted : g.Counted) (keep : Member → Bool) :
    ({ g with members := g.members.filter keep } : Group).Counted where
  counts := counted.counts
  given b isMember := counted.given b (List.mem_of_mem_filter isMember)
  distinct := counted.distinct.sublist (List.filter_sublist.map _)
  small := counted.small

theorem Counted.push (counted : g.Counted) (client : Nat) (proxyName : String) :
    (g.push ids client proxyName).Counted := by
  have fewer := counted.fewer fun b => !(ids.sameClient b.client client && b.proxyName == proxyName)
  refine ⟨counted.counts, ?_, ?_, counted.small⟩
  · intro b isMember
    rcases List.mem_append.mp isMember with isOld | isNew
    · exact Nat.lt_succ_of_lt (fewer.given b isOld)
    · rw [List.mem_singleton.mp isNew]
      exact Nat.lt_succ_self _
  · rw [Group.push, List.map_append]
    apply List.nodup_append'.mpr
    refine ⟨fewer.distinct, List.nodup_singleton _, ?_⟩
    rintro load isOld isNew
    obtain ⟨b, isMember, rfl⟩ := List.mem_map.mp isOld
    exact absurd (fewer.given b isMember) (List.mem_singleton.mp isNew ▸ Nat.lt_irrefl _)

theorem Counted.hold (counted : g.Counted) (load : Nat) : (g.hold load).Counted where
  counts other := by
    by_cases same : other = load
    · subst same
      simp [Group.hold, counted.counts]
    · simp [Group.hold, counted.counts, same, List.count_cons, Ne.symm same]
  given := counted.given
  distinct := counted.distinct
  small := counted.small

theorem Counted.dropGuard (counted : g.Counted) (guard : Nat) : (g.dropGuard guard).Counted := by
  rw [Group.dropGuard]
  split
  · exact counted
  · next load isGuard =>
    obtain ⟨inside, isLoad⟩ := List.getElem?_eq_some_iff.mp isGuard
    refine ⟨?_, counted.given, counted.distinct, counted.small⟩
    intro other
    dsimp only
    have taken : g.guards.Perm (load :: g.guards.eraseIdx guard) := by
      rw [← isLoad]
      exact (List.getElem_cons_eraseIdx_perm inside).symm
    have before := (counted.counts other).trans (taken.count_eq other)
    by_cases same : other = load
    · subst same
      rw [Function.update_self, before, List.count_cons_self, Nat.add_sub_cancel]
    · rw [Function.update_of_ne same, before, List.count_cons_of_ne (Ne.symm same)]

theorem members_pick (g : Group) (policy : LbPolicy) : (g.pick policy).2 = g ∨
    (g.pick policy).2 = { g with cursor := (g.cursor + 1) % 2 ^ 64 } := by
  rw [pick]
  split
  · exact .inl rfl
  · cases policy with
    | roundRobin => exact .inr rfl
    | leastConn => exact .inr rfl

theorem Counted.step (counted : g.Counted) (op : Op) : (g.step ids op).Counted := by
  cases op with
  | push client proxyName => exact counted.push client proxyName
  | remove client proxyName => exact counted.fewer _
  | removeAllOf client => exact counted.fewer _
  | pick policy =>
    rw [Group.step]
    rcases members_pick g policy with same | moved
    · dsimp only
      rw [same]
      exact ⟨counted.counts, counted.given, counted.distinct, counted.small⟩
    · dsimp only
      rw [moved]
      exact ⟨counted.counts, counted.given, counted.distinct, Nat.mod_lt _ (by decide)⟩
  | hold load =>
    rw [Group.step]
    split
    · exact counted.hold load
    · exact counted
  | drop guard => exact counted.dropGuard guard

theorem inflightAt_eq_some {i : Nat} (inside : i < g.members.length) :
    ∃ b, g.members[i]? = some b ∧ g.inflightAt i = some (g.inflight b.load) := by
  have isMember := List.getElem?_eq_getElem inside
  refine ⟨_, isMember, ?_⟩
  rw [inflightAt, isMember, Option.map_some]

/-- A round keeps the best so far, or takes the member it looks at. -/
theorem compare_eq_some {start : Nat} (isGroup : 0 < g.members.length) (k : Nat) {best : Nat × Nat}
    (isBest : g.inflightAt best.1 = some best.2) :
    ∃ next, g.compare start best k = some next ∧ g.inflightAt next.1 = some next.2 ∧ next.2 ≤ best.2 ∧
      ∀ l, g.inflightAt ((start + k) % g.members.length) = some l → next.2 ≤ l := by
  obtain ⟨b, -, isCount⟩ := inflightAt_eq_some (Nat.mod_lt (start + k) isGroup)
  have compared : g.compare start best k =
      some (if g.inflight b.load < best.2 then ((start + k) % g.members.length, g.inflight b.load) else best) := by
    rw [compare, isCount]
    rfl
  rw [compared]
  refine ⟨_, rfl, ?_⟩
  by_cases fewer : g.inflight b.load < best.2
  · rw [if_pos fewer]
    refine ⟨isCount, Nat.le_of_lt fewer, ?_⟩
    intro l isThere
    exact Nat.le_of_eq (Option.some.inj (isCount.symm.trans isThere))
  · rw [if_neg fewer]
    refine ⟨isBest, Nat.le_refl _, ?_⟩
    intro l isThere
    exact Option.some.inj (isCount.symm.trans isThere) ▸ Nat.le_of_not_lt fewer

/-- The best of a scan is the best that it began with or one of those it went through. -/
theorem scan_eq_some {start : Nat} (isGroup : 0 < g.members.length) (ks : List Nat) (best : Nat × Nat)
    (isBest : g.inflightAt best.1 = some best.2) :
    ∃ found, List.foldlM (g.compare start) best ks = some found ∧ g.inflightAt found.1 = some found.2 ∧
      found.2 ≤ best.2 ∧
      ∀ k ∈ ks, ∀ l, g.inflightAt ((start + k) % g.members.length) = some l → found.2 ≤ l := by
  induction ks generalizing best with
  | nil =>
    refine ⟨best, rfl, isBest, Nat.le_refl _, ?_⟩
    intro k isNone
    exact absurd isNone List.not_mem_nil
  | cons k ks ih =>
    obtain ⟨next, compared, isNext, better, seen⟩ := compare_eq_some isGroup k isBest
    obtain ⟨found, isFound, isAt, least, among⟩ := ih next isNext
    refine ⟨found, ?_, isAt, least.trans better, ?_⟩
    · rw [List.foldlM_cons, compared]
      exact isFound
    · intro other isOther l isThere
      rcases List.mem_cons.mp isOther with rfl | isLater
      · exact least.trans (seen l isThere)
      · exact among other isLater l isThere

theorem around {n start i : Nat} (isStart : start < n) (inside : i < n) :
    i = start ∨ ∃ k ∈ List.range' 1 (n - 1), (start + k) % n = i := by
  rcases Nat.lt_trichotomy i start with before | same | after
  · right
    refine ⟨i + n - start, List.mem_range'_1.mpr (by omega), ?_⟩
    rw [show start + (i + n - start) = i + n by omega, Nat.add_mod_right, Nat.mod_eq_of_lt inside]
  · exact .inl same
  · right
    refine ⟨i - start, List.mem_range'_1.mpr (by omega), ?_⟩
    rw [Nat.add_sub_cancel' (Nat.le_of_lt after), Nat.mod_eq_of_lt inside]

theorem least_eq_some {start : Nat} (isStart : start < g.members.length) :
    ∃ b, (g.least start).bind (fun best => g.members[best]?) = some b ∧
      ∀ other ∈ g.members, g.inflight b.load ≤ g.inflight other.load := by
  obtain ⟨first, -, isFirst⟩ := inflightAt_eq_some isStart
  obtain ⟨found, isFound, isAt, least, among⟩ :=
    @scan_eq_some g start (Nat.zero_lt_of_lt isStart) (List.range' 1 (g.members.length - 1))
      (start, g.inflight first.load) isFirst
  have isLeast : g.least start = some found.1 := by
    rw [Group.least, isFirst]
    change (List.foldlM (g.compare start) (start, g.inflight first.load) _).bind _ = _
    rw [isFound]
    rfl
  obtain ⟨b, isMember, isCount⟩ := Option.map_eq_some_iff.mp isAt
  refine ⟨b, ?_, ?_⟩
  · rw [isLeast, Option.bind_some, isMember]
  · intro other isOther
    obtain ⟨i, inside, rfl⟩ := List.getElem_of_mem isOther
    obtain ⟨other, isOther, isThere⟩ := inflightAt_eq_some inside
    obtain rfl : g.members[i] = other := Option.some.inj ((List.getElem?_eq_getElem inside).symm.trans isOther)
    rw [isCount]
    rcases around isStart inside with same | ⟨k, isTurn, isIndex⟩
    · have isStartCount : g.inflightAt start = some _ := (congrArg g.inflightAt same).symm.trans isThere
      exact Option.some.inj (isFirst.symm.trans isStartCount) ▸ least
    · exact among k isTurn _ (isIndex ▸ isThere)

/-- Whoever is picked is a member, and one is picked where there is one. -/
theorem pick_eq_some (policy : LbPolicy) (isGroup : g.members ≠ []) :
    ∃ b ∈ g.members, (g.pick policy).1 = some b := by
  have positive := List.length_pos_iff.mpr isGroup
  have isStart : g.cursor % g.members.length < g.members.length := Nat.mod_lt _ positive
  rw [pick]
  dsimp only
  rw [if_neg (Nat.ne_of_gt positive)]
  cases policy with
  | roundRobin =>
    dsimp only
    refine ⟨_, List.getElem_mem isStart, ?_⟩
    exact List.getElem?_eq_getElem isStart
  | leastConn =>
    dsimp only
    obtain ⟨b, isFound, -⟩ :=
      @least_eq_some { g with cursor := (g.cursor + 1) % 2 ^ 64 } _ isStart
    obtain ⟨best, -, isMember⟩ := Option.bind_eq_some_iff.mp isFound
    exact ⟨b, List.mem_of_getElem? isMember, isFound⟩

theorem pick_least {b : Member} (isPicked : (g.pick .leastConn).1 = some b) :
    ∀ other ∈ g.members, g.inflight b.load ≤ g.inflight other.load := by
  rw [pick] at isPicked
  dsimp only at isPicked
  split at isPicked
  · exact absurd isPicked (Option.some_ne_none b).symm
  · next isGroup =>
    have isStart := Nat.mod_lt g.cursor (Nat.pos_of_ne_zero isGroup)
    obtain ⟨found, isFound, least⟩ :=
      @least_eq_some { g with cursor := (g.cursor + 1) % 2 ^ 64 } _ isStart
    rw [isFound] at isPicked
    exact Option.some.inj isPicked ▸ least

/-- Operations among which the members stay, and each picks in turn. -/
def Quiet : Op → Prop
  | .pick policy => policy = .roundRobin
  | .hold _ => True
  | .drop _ => True
  | _ => False

def picks (ops : List Op) : Nat := ops.countP fun
  | .pick _ => true
  | _ => false

/-- The cursor does not wrap in that many picks, or wraps to where it would be anyway. -/
def Unwrapped (g : Group) (k : Nat) : Prop := g.cursor + k ≤ 2 ^ 64 ∨ g.members.length ∣ 2 ^ 64

/-- Every member is picked as often as every other, as far as that can be. -/
def Fair (ids : RunIds) (g : Group) (ops : List Op) : Prop :=
  ∀ b ∈ g.members, ∃ later, (run (step ids) g ops).picked = g.picked ++ later ∧
    IsShare (picks ops) g.members.length (later.count b)

def served (g : Group) (k : Nat) : List Member :=
  (turns g.members.length g.cursor k).filterMap fun i => g.members[i]?

theorem step_turn (isGroup : g.members ≠ []) : ∃ b, g.members[g.cursor % g.members.length]? = some b ∧
    g.step ids (.pick .roundRobin) =
      { g with cursor := (g.cursor + 1) % 2 ^ 64, picked := g.picked ++ [b] } := by
  have positive := List.length_pos_iff.mpr isGroup
  have isMember := List.getElem?_eq_getElem (Nat.mod_lt g.cursor positive)
  refine ⟨_, isMember, ?_⟩
  rw [step, pick]
  dsimp only
  rw [if_neg (Nat.ne_of_gt positive)]
  dsimp only
  rw [isMember, Option.toList_some]

theorem dropGuard_keeps (g : Group) (guard : Nat) : (g.dropGuard guard).members = g.members ∧
    (g.dropGuard guard).cursor = g.cursor ∧ (g.dropGuard guard).picked = g.picked := by
  rw [dropGuard]
  split
  · exact ⟨rfl, rfl, rfl⟩
  · exact ⟨rfl, rfl, rfl⟩

theorem step_still {op : Op} (quiet : Quiet op) (isPick : picks [op] = 0) :
    (g.step ids op).members = g.members ∧ (g.step ids op).cursor = g.cursor ∧
      (g.step ids op).picked = g.picked := by
  cases op with
  | push client proxyName => exact quiet.elim
  | remove client proxyName => exact quiet.elim
  | removeAllOf client => exact quiet.elim
  | pick policy => exact absurd isPick Nat.one_ne_zero
  | hold load =>
    rw [step]
    split
    · exact ⟨rfl, rfl, rfl⟩
    · exact ⟨rfl, rfl, rfl⟩
  | drop guard => exact dropGuard_keeps g guard

theorem step_quiet {op : Op} (isGroup : g.members ≠ []) (isCursor : g.cursor < 2 ^ 64) (quiet : Quiet op) :
    (g.step ids op).members = g.members ∧ (g.step ids op).cursor = (g.cursor + picks [op]) % 2 ^ 64 ∧
      (g.step ids op).picked = g.picked ++ g.served (picks [op]) := by
  by_cases isPick : picks [op] = 0
  · obtain ⟨sameMembers, sameCursor, samePicked⟩ := @step_still ids g op quiet isPick
    rw [isPick, sameMembers, sameCursor, samePicked, Nat.add_zero, Nat.mod_eq_of_lt isCursor]
    exact ⟨rfl, rfl, (List.append_nil g.picked).symm⟩
  · obtain ⟨policy, rfl⟩ : ∃ policy, op = .pick policy := by
      cases op with
      | pick policy => exact ⟨policy, rfl⟩
      | push client proxyName => exact absurd rfl isPick
      | remove client proxyName => exact absurd rfl isPick
      | removeAllOf client => exact absurd rfl isPick
      | hold load => exact absurd rfl isPick
      | drop guard => exact absurd rfl isPick
    obtain rfl : policy = .roundRobin := quiet
    obtain ⟨b, isMember, isStep⟩ := @step_turn ids g isGroup
    have isServed : g.served (picks [.pick .roundRobin]) = [b] := by
      change (turns g.members.length g.cursor 1).filterMap _ = _
      rw [turns_one, List.filterMap_cons_some isMember, List.filterMap_nil]
    rw [isStep, isServed]
    exact ⟨rfl, rfl, rfl⟩

theorem picks_cons (op : Op) (ops : List Op) : picks (op :: ops) = picks [op] + picks ops := @List.countP_append _ _ [op] ops

theorem Unwrapped.later {g' : Group} {m k : Nat} (unwrapped : g.Unwrapped (m + k)) (members : g'.members = g.members)
    (cursor : g'.cursor = (g.cursor + m) % 2 ^ 64) : g'.Unwrapped k := by
  rw [Unwrapped, members, cursor]
  rcases unwrapped with small | divides
  · have moved := Nat.mod_le (g.cursor + m) (2 ^ 64)
    left
    omega
  · exact .inr divides

theorem served_add {g' : Group} {m k : Nat} (unwrapped : g.Unwrapped (m + k)) (members : g'.members = g.members)
    (cursor : g'.cursor = (g.cursor + m) % 2 ^ 64) : g.served (m + k) = g.served m ++ g'.served k := by
  rw [served, turns_add, List.filterMap_append, served, served, members, cursor, turns_wrapped unwrapped]

theorem run_quiet {ops : List Op} (isGroup : g.members ≠ []) (isCursor : g.cursor < 2 ^ 64)
    (quiet : ∀ op ∈ ops, Quiet op) (unwrapped : g.Unwrapped (picks ops)) :
    (run (step ids) g ops).members = g.members ∧
      (run (step ids) g ops).cursor = (g.cursor + picks ops) % 2 ^ 64 ∧
      (run (step ids) g ops).picked = g.picked ++ g.served (picks ops) := by
  induction ops generalizing g with
  | nil =>
    refine ⟨rfl, (Nat.mod_eq_of_lt isCursor).symm, ?_⟩
    exact (List.append_nil g.picked).symm
  | cons op ops ih =>
    rw [picks_cons] at unwrapped ⊢
    rw [run_cons]
    obtain ⟨sameMembers, isMoved, isPicked⟩ := @step_quiet ids g op isGroup isCursor (quiet op List.mem_cons_self)
    obtain ⟨members, cursor, picked⟩ := @ih (g.step ids op) (by rwa [sameMembers])
      (isMoved ▸ Nat.mod_lt _ (by decide)) (fun later isLater => quiet later (List.mem_cons_of_mem op isLater))
      (unwrapped.later sameMembers isMoved)
    refine ⟨members.trans sameMembers, ?_, ?_⟩
    · rw [cursor, isMoved, Nat.mod_add_mod, Nat.add_assoc]
    · rw [picked, isPicked, served_add unwrapped sameMembers isMoved, List.append_assoc]

theorem count_served (distinct : g.members.Nodup) {b : Member} (isMember : b ∈ g.members) (k : Nat) :
    IsShare k g.members.length ((g.served k).count b) := by
  obtain ⟨i, inside, rfl⟩ := List.getElem_of_mem isMember
  have counted : (g.served k).count g.members[i] = (turns g.members.length g.cursor k).count i := by
    rw [served, List.count_filterMap, List.count_eq_countP]
    apply List.countP_congr
    intro j _
    rw [beq_iff_eq, beq_iff_eq, ← List.getElem?_eq_getElem inside]
    constructor
    · intro same
      exact ((List.getElem?_inj inside distinct).mp same.symm).symm
    · rintro rfl
      rfl
  rw [counted]
  exact isShare_turns g.cursor k inside

structure Sound (ids : RunIds) (g : Group) : Prop where
  /-- A count is that of the guards which are held. -/
  counts : ∀ b ∈ g.members, g.inflight b.load = g.guards.count b.load
  /-- A pick never falls outside, and so fails only where there is no one. -/
  inside : ∀ policy, g.members ≠ [] → ∃ b ∈ g.members, (g.pick policy).1 = some b
  /-- Nobody has fewer than who is picked. -/
  least : ∀ b, (g.pick .leastConn).1 = some b → ∀ other ∈ g.members, g.inflight b.load ≤ g.inflight other.load
  /-- Picks in turn reach everybody alike. -/
  fair : ∀ ops, (∀ op ∈ ops, Quiet op) → g.Unwrapped (picks ops) → g.Fair ids ops

theorem Counted.sound (counted : g.Counted) : g.Sound ids where
  counts b _ := counted.counts b.load
  inside := pick_eq_some
  least _ := pick_least
  fair ops quiet unwrapped b isMember := by
    have ran := @run_quiet ids g ops (List.ne_nil_of_mem isMember) counted.small quiet unwrapped
    exact ⟨g.served (picks ops), ran.2.2, count_served (List.Nodup.of_map _ counted.distinct) isMember _⟩

/-- Whoever came and went, whatever was picked and in whatever order guards were dropped. -/
theorem sound_run (ids : RunIds) (client : Nat) (proxyName : String) (ops : List Op) :
    (run (step ids) (new client proxyName) ops).Sound ids := by
  have counted : (run (step ids) (new client proxyName) ops).Counted :=
    @run_invariant _ _ (step ids) Counted (fun _ op counted => counted.step op) _ (counted_new client proxyName) ops
  exact counted.sound

theorem run_turns (isGroup : g.members ≠ []) (isCursor : g.cursor < 2 ^ 64) (k : Nat) :
    ∃ picked, run (step ids) g (List.replicate k (.pick .roundRobin)) =
      { g with cursor := (g.cursor + k) % 2 ^ 64, picked := picked } := by
  induction k generalizing g with
  | zero =>
    refine ⟨g.picked, ?_⟩
    rw [Nat.add_zero, Nat.mod_eq_of_lt isCursor]
    rfl
  | succ k ih =>
    obtain ⟨b, -, isStep⟩ := @step_turn ids g isGroup
    obtain ⟨picked, isRun⟩ := @ih
      { g with cursor := (g.cursor + 1) % 2 ^ 64, picked := g.picked ++ [b] } isGroup (Nat.mod_lt _ (by decide))
    refine ⟨picked, ?_⟩
    rw [List.replicate_succ, run_cons, isStep, isRun]
    dsimp only
    rw [Nat.mod_add_mod, Nat.add_assoc, Nat.add_comm 1]

/-- Three members, and as many picks as there are numbers of 64 bits, less one. -/
def longRun : List Op :=
  [.push 0 "b", .push 0 "c"] ++ List.replicate (2 ^ 64 - 1) (.pick .roundRobin)

def three : Group where
  members := [⟨⟨0, "a"⟩, 0⟩, ⟨⟨0, "b"⟩, 1⟩, ⟨⟨0, "c"⟩, 2⟩]
  fresh := 3

theorem run_longRun : ∃ picked, run (step .counted) (new 0 "a") longRun =
    { three with cursor := 2 ^ 64 - 1, picked := picked } := by
  have joined : run (step .counted) (new 0 "a") [.push 0 "b", .push 0 "c"] = three := by
    simp [run, step, push, remove, new, three]
  rw [longRun, run_append, joined]
  exact @run_turns .counted three (by simp [three]) (by simp [three]) (2 ^ 64 - 1)

/-- A cursor that wraps where the members are three picks the same one twice. -/
theorem not_fair_wrapped :
    ¬∀ (ids : RunIds) (client : Nat) (proxyName : String) (before ops : List Op),
      (∀ op ∈ ops, Quiet op) → Fair ids (run (step ids) (new client proxyName) before) ops := by
  intro fair
  obtain ⟨picked, isLast⟩ := run_longRun
  have again := fair .counted 0 "a" longRun [.pick .roundRobin, .pick .roundRobin]
    (by simp [Quiet])
  rw [isLast] at again
  obtain ⟨later, isLater, share⟩ := again ⟨⟨0, "a"⟩, 0⟩ List.mem_cons_self
  have twice : (run (step .counted) { three with cursor := 2 ^ 64 - 1, picked := picked }
      [.pick .roundRobin, .pick .roundRobin]).picked = picked ++ [⟨⟨0, "a"⟩, 0⟩, ⟨⟨0, "a"⟩, 0⟩] := by
    simp [run, step, pick, three]
  obtain rfl := List.append_cancel_left (twice.symm.trans isLater)
  have few : IsShare 2 3 2 := share
  revert few
  rw [IsShare]
  decide

end Group

end Balance

end Nfrp
