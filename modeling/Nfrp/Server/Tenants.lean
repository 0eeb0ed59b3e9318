import Nfrp.Server.Lookup

/-!
# Routes of different clients

A client enters and takes out only what is its own.  What was found for another client is
found still, or the client has a route that is more to the point.
-/

namespace Nfrp

open Lib

namespace VhostTable

def Event.client : Event → Nat
  | .register route => route.client
  | .removeProxy client _ => client
  | .unregisterClient client => client

/-- The domain is asked before that of the other route; or it is the same domain, and the
route is for one user where the other is for all, or its location is longer. -/
def Outranks (domains : List (List Char)) (found other : VhostRoute × List Char) : Prop :=
  found.1.domain ∈ domains.takeWhile (· ≠ other.1.domain) ∨
    found.1.domain = other.1.domain ∧
      (other.1.routeByHttpUser = [] ∧ found.1.routeByHttpUser ≠ [] ∨
        other.1.routeByHttpUser = found.1.routeByHttpUser ∧ other.2.length < found.2.length)

section Foreign

variable {t : VhostTable} {route : VhostRoute} {client : Nat}

theorem has_step_iff (proper : t.Proper) {event : Event} (foreign : route.client ≠ event.client) :
    (t.step event).Has route ↔ t.Has route := by
  rw [(proper.step event).has_iff, proper.has_iff]
  cases event with
  | register entered =>
    rw [routes_step_register]
    split
    next =>
      have other : ¬route.SameProxy entered := fun same => foreign same.1
      have different : route ≠ entered := fun same => foreign (congrArg VhostRoute.client same)
      rw [VhostRoute.mem_enlist, or_iff_left different, and_iff_left other]
    next => rfl
  | removeProxy client proxyName =>
    dsimp only [VhostTable.step, removeProxy]
    have stays : ¬(route.client = client ∧ route.proxyName = proxyName) := fun same => foreign same.1
    rw [routes_prune, List.mem_filter, and_iff_left (decide_eq_true stays)]
  | unregisterClient client =>
    have foreign : route.client ≠ client := foreign
    dsimp only [VhostTable.step, unregisterClient]
    rw [routes_prune, List.mem_filter, and_iff_left (decide_eq_true foreign)]

theorem has_run_iff (proper : t.Proper) {events : List Event} (own : ∀ event ∈ events, event.client = client)
    (foreign : route.client ≠ client) : (run step t events).Has route ↔ t.Has route := by
  induction events generalizing t with
  | nil => rfl
  | cons event events ih =>
    obtain ⟨isOwn, areOwn⟩ := List.forall_mem_cons.mp own
    exact (ih (proper.step event) areOwn).trans (has_step_iff proper (isOwn ▸ foreign))

end Foreign

section Ranks

variable {t : VhostTable} {path : List Char} {authUser : Option (List Char)} {kind : VhostKind} {domain : List Char}
  {domains : List (List Char)} {exactUser : Bool} {found other : VhostRoute × List Char}

theorem Takes.congr {after : VhostTable} (same : after.Has found.1 ↔ t.Has found.1) :
    after.Takes path authUser kind domain exactUser found ↔ t.Takes path authUser kind domain exactUser found := by
  constructor
  · exact fun takes => { takes with has := same.mp takes.has }
  · exact fun takes => { takes with has := same.mpr takes.has }

theorem Takes.forAll_iff (takes : t.Takes path authUser kind domain exactUser found) :
    found.1.routeByHttpUser = [] ↔ exactUser = false := by
  have serves := takes.serves
  cases exactUser with
  | true =>
    simp only [VhostRoute.serves, if_true, Bool.and_eq_true, bne_iff_ne] at serves
    exact iff_of_false serves.1 (by decide)
  | false => simpa [VhostRoute.serves] using serves

theorem takeWhile_ne {before after : List (List Char)} (notBefore : domain ∉ before) (next : List Char) :
    (before ++ next :: after).takeWhile (· ≠ domain) =
      before ++ if next = domain then [] else next :: after.takeWhile (· ≠ domain) := by
  have passed : ∀ first ∈ before, decide (first ≠ domain) := by
    intro first isFirst
    exact decide_eq_true fun same => notBefore (same ▸ isFirst)
  rw [List.takeWhile_append_of_pos passed, List.takeWhile_cons]
  by_cases same : next = domain <;> simp [same]

theorem Chosen.not_outranks (chosen : t.Chosen path authUser kind domains found)
    (takes : t.Takes path authUser kind domain exactUser other) : ¬Outranks domains other found := by
  obtain rfl := takes.domain
  obtain ⟨⟨before, after, isDomains, noneBefore⟩, exactFound, isTaken, notExact, longest⟩ := chosen
  have notBefore : found.1.domain ∉ before := fun isBefore => noneBefore _ isBefore _ _ isTaken
  rintro (isBefore | ⟨sameDomain, ⟨forAll, forOne⟩ | ⟨sameUser, longer⟩⟩)
  · rw [isDomains, takeWhile_ne notBefore, if_pos rfl, List.append_nil] at isBefore
    exact noneBefore _ isBefore _ _ takes
  · rw [sameDomain] at takes
    have isExact : exactUser = true := by simpa using mt takes.forAll_iff.mpr forOne
    exact notExact (isTaken.forAll_iff.mp forAll) other (isExact ▸ takes)
  · rw [sameDomain] at takes
    have sameScope : exactUser = exactFound := by
      have iff := takes.forAll_iff.symm.trans (sameUser ▸ isTaken.forAll_iff)
      cases exactUser <;> cases exactFound <;> simp_all
    exact absurd (longest other (sameScope ▸ takes)) (Nat.not_le_of_lt longer)

/-- What is chosen outranks all else that takes the request at one of the domains. -/
theorem Chosen.outranks (proper : t.Proper) (chosen : t.Chosen path authUser kind domains found)
    (takes : t.Takes path authUser kind domain exactUser other) (isDomain : domain ∈ domains) :
    found = other ∨ Outranks domains found other := by
  obtain rfl := takes.domain
  obtain ⟨⟨before, after, isDomains, noneBefore⟩, exactFound, isTaken, notExact, longest⟩ := chosen
  have notBefore : other.1.domain ∉ before := fun isBefore => noneBefore _ isBefore _ _ takes
  by_cases sameDomain : found.1.domain = other.1.domain
  · rw [← sameDomain] at takes
    by_cases sameScope : exactUser = exactFound
    · subst sameScope
      rcases (longest other takes).lt_or_eq with shorter | same
      · exact .inr (.inr ⟨sameDomain, .inr ⟨takes.sameUser isTaken, shorter⟩⟩)
      · exact .inl (isTaken.unique proper takes same.symm)
    · have isExact : exactFound = true ∧ exactUser = false := by
        cases exactFound with
        | true => exact ⟨rfl, by simpa using sameScope⟩
        | false =>
          obtain rfl : exactUser = true := by simpa using sameScope
          exact absurd takes (notExact rfl other)
      obtain ⟨rfl, rfl⟩ := isExact
      refine .inr (.inr ⟨sameDomain, .inl ⟨takes.forAll_iff.mpr rfl, fun forAll => ?_⟩⟩)
      cases isTaken.forAll_iff.mp forAll
  · refine .inr (.inl ?_)
    rw [isDomains, takeWhile_ne notBefore, if_neg sameDomain]
    exact List.mem_append_right _ List.mem_cons_self

/-- What was found for another is found still, or a route of the client outranks it. -/
theorem lookup_of_own (proper : t.Proper) {client : Nat} {events : List Event} (own : ∀ event ∈ events, event.client = client)
    {host : List Char} (isFound : t.lookup host path authUser kind = some found) (foreign : found.1.client ≠ client) :
    (run step t events).lookup host path authUser kind = some found ∨
      ∃ other, (run step t events).lookup host path authUser kind = some other ∧ other.1.client = client ∧
        Outranks (levels (wildcards (normalHost host)) (normalHost host)) other found := by
  have properAfter : (run step t events).Proper := run_invariant (fun _ event proper => proper.step event) proper events
  have chosen := (lookup_eq_some_iff_chosen proper).mp isFound
  obtain ⟨⟨before, later, isDomains, -⟩, exactUser, takes, -, -⟩ := id chosen
  have isDomain : found.1.domain ∈ levels (wildcards (normalHost host)) (normalHost host) := by
    rw [isDomains]
    exact List.mem_append_right _ List.mem_cons_self
  have still := (Takes.congr (has_run_iff proper own foreign)).mpr takes
  cases isLater : (run step t events).lookup host path authUser kind with
  | none =>
    rw [lookup_eq_findSome? properAfter.toTidy, List.findSome?_eq_none_iff] at isLater
    exact absurd still ((inTable_eq_none_iff properAfter).mp (isLater _ isDomain) exactUser found)
  | some other =>
    have chosenAfter := (lookup_eq_some_iff_chosen properAfter).mp isLater
    rcases chosenAfter.outranks properAfter still isDomain with rfl | outranks
    · exact .inl rfl
    · refine .inr ⟨other, rfl, ?_, outranks⟩
      by_contra alsoForeign
      obtain ⟨-, otherExact, otherTakes, -⟩ := chosenAfter
      have tookBefore := (Takes.congr (has_run_iff proper own alsoForeign)).mp otherTakes
      exact chosen.not_outranks tookBefore outranks

end Ranks

end VhostTable

namespace VisitorTable

inductive Event where
  | register (entry : VisitorEntry)
  | remove (client : Nat) (name : String)
  | unregisterClient (client : Nat)

def Event.client : Event → Nat
  | .register entry => entry.client
  | .remove client _ => client
  | .unregisterClient client => client

/-- A name that is taken is refused, and nothing is changed. -/
def step (t : VisitorTable) : Event → VisitorTable
  | .register entry =>
    match t.register entry with
    | .ok after => after
    | .error _ => t
  | .remove client name => t.remove client name
  | .unregisterClient client => t.unregisterClient client

variable {t : VisitorTable} {name : String} {entry : VisitorEntry}

theorem step_of_foreign (isEntry : t name = some entry) {event : Event} (foreign : entry.client ≠ event.client) :
    t.step event name = some entry := by
  cases event with
  | register entered =>
    rw [step, register]
    cases isTaken : t entered.proxyName with
    | some old => exact isEntry
    | none =>
      have other : name ≠ entered.proxyName := by
        rintro rfl
        cases isEntry.symm.trans isTaken
      exact (Function.update_of_ne other _ _).trans isEntry
  | remove client at_ =>
    have stays : (some entry).filter (fun entry => entry.client ≠ client) = some entry :=
      Option.filter_some_pos (decide_eq_true foreign)
    by_cases same : name = at_
    · subst same
      rw [step, remove, Function.update_self, isEntry, stays]
    · rw [step, remove, Function.update_of_ne same, isEntry]
  | unregisterClient client =>
    rw [step, unregisterClient, isEntry]
    exact Option.filter_some_pos (decide_eq_true foreign)

end VisitorTable

/-- The tables of the names that requests are sent to. -/
structure Routing where
  vhosts : VhostTable
  visitors : VisitorTable

namespace Routing

inductive Op where
  | vhosts (event : VhostTable.Event)
  | visitors (event : VisitorTable.Event)

def Op.client : Op → Nat
  | .vhosts event => event.client
  | .visitors event => event.client

def step (s : Routing) : Op → Routing
  | .vhosts event => { s with vhosts := s.vhosts.step event }
  | .visitors event => { s with visitors := s.visitors.step event }

def empty : Routing := ⟨.empty, fun _ => none⟩

def Op.vhosts? : Op → Option VhostTable.Event
  | .vhosts event => some event
  | .visitors _ => none

theorem vhosts_run (s : Routing) (ops : List Op) :
    (run step s ops).vhosts = run VhostTable.step s.vhosts (ops.filterMap Op.vhosts?) := by
  induction ops generalizing s with
  | nil => rfl
  | cons op ops ih =>
    rw [run_cons, ih]
    cases op with
    | vhosts event => rfl
    | visitors event => rfl

/-- What the operations of a client leave to the others: a request that another had is taken
from it by a route only that outranks the other's, and a name of another stays. -/
structure Isolated (client : Nat) (s after : Routing) : Prop where
  route : ∀ host path authUser kind found, s.vhosts.lookup host path authUser kind = some found →
    found.1.client ≠ client →
      after.vhosts.lookup host path authUser kind = some found ∨
        ∃ other, after.vhosts.lookup host path authUser kind = some other ∧ other.1.client = client ∧
          VhostTable.Outranks (VhostTable.levels (VhostTable.wildcards (normalHost host)) (normalHost host)) other found
  visitor : ∀ name entry, s.visitors name = some entry → entry.client ≠ client → after.visitors name = some entry

theorem visitors_run_of_own {s : Routing} {client : Nat} {ops : List Op} (own : ∀ op ∈ ops, op.client = client)
    {name : String} {entry : VisitorEntry} (isEntry : s.visitors name = some entry) (foreign : entry.client ≠ client) :
    (run step s ops).visitors name = some entry := by
  induction ops generalizing s with
  | nil => exact isEntry
  | cons op ops ih =>
    obtain ⟨isOwn, areOwn⟩ := List.forall_mem_cons.mp own
    refine ih areOwn ?_
    cases op with
    | vhosts event => exact isEntry
    | visitors event =>
      have other : entry.client ≠ event.client := fun same => foreign (same.trans isOwn)
      exact VisitorTable.step_of_foreign isEntry other

theorem isolated_run (past : List Op) {client : Nat} {mine : List Op} (own : ∀ op ∈ mine, op.client = client) :
    Isolated client (run step empty past) (run step (run step empty past) mine) where
  route host path authUser kind found isFound foreign := by
    have proper : (run step empty past).vhosts.Proper := by
      rw [vhosts_run]
      exact VhostTable.proper_run _
    rw [vhosts_run]
    refine VhostTable.lookup_of_own proper ?_ isFound foreign
    intro event isEvent
    obtain ⟨op, isOp, isSome⟩ := List.mem_filterMap.mp isEvent
    cases op with
    | vhosts other =>
      obtain rfl := Option.some.inj isSome
      exact own _ isOp
    | visitors other => cases isSome
  visitor _ _ isEntry foreign := visitors_run_of_own own isEntry foreign

def sitePast : List Op :=
  [.vhosts (.register { proxyName := "alice.site".toList, client := 0, domain := "*.example.com".toList }),
    .visitors (.register ⟨"alice.ssh", "sk", [], "alice", 0, "stcp"⟩)]

/-- What a second client of the same user tries with the names of the first. -/
def siteOps : List Op :=
  [.vhosts (.removeProxy 1 "alice.site".toList), .visitors (.remove 1 "alice.ssh"),
    .vhosts (.register { proxyName := "alice.site".toList, client := 1, domain := "*.example.com".toList,
                         routeByHttpUser := "bob".toList }),
    .visitors (.register ⟨"alice.ssh", "other", ["*"], "alice", 1, "stcp"⟩),
    .vhosts (.unregisterClient 1), .visitors (.unregisterClient 1)]

theorem isolated_site : Isolated 1 (run step empty sitePast) (run step (run step empty sitePast) siteOps) :=
  isolated_run sitePast (by decide)

/-- A longer location on the domain of another takes the requests under it. -/
theorem not_unmoved_nested : ¬∀ (past : List Op) (client : Nat) (mine : List Op), (∀ op ∈ mine, op.client = client) →
    ∀ host path authUser kind found, (run step empty past).vhosts.lookup host path authUser kind = some found →
      found.1.client ≠ client →
        (run step (run step empty past) mine).vhosts.lookup host path authUser kind = some found := by
  intro unmoved
  let site : VhostRoute := { proxyName := "site".toList, client := 0, domain := "example.com".toList }
  let api : VhostRoute :=
    { proxyName := "api".toList, client := 1, domain := "example.com".toList, locations := ["/api".toList] }
  have isFound : (run step empty [.vhosts (.register site)]).vhosts.lookup "example.com".toList "/api/x".toList none .http =
      some (site, ['/']) := by decide +kernel
  have still := unmoved [.vhosts (.register site)] 1 [.vhosts (.register api)] (by decide) _ _ _ _ _ isFound (by decide)
  revert still
  decide +kernel

end Routing

end Nfrp
