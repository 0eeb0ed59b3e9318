import Nfrp.Server.Withdrawal

/-!
# Which route is found

The routes of a table say which of them takes a request, whatever the order they were
entered in: the domain tells first, then the user, and then the longest location.
-/

namespace Nfrp

open Lib

namespace VhostTable

inductive Event where
  | register (route : VhostRoute)
  | removeProxy (client : Nat) (proxyName : List Char)
  | unregisterClient (client : Nat)

def empty : VhostTable := ⟨∅, ∅⟩

def step (t : VhostTable) : Event → VhostTable
  | .register route =>
    match t.register route with
    | .ok after => after
    | .error _ => t
  | .removeProxy client proxyName => t.removeProxy client proxyName
  | .unregisterClient client => t.unregisterClient client

def routes (t : VhostTable) (domain : List Char) : List VhostRoute := (t.listed domain).getD []

end VhostTable

def VhostRoute.Apart (a b : VhostRoute) : Prop := ¬a.SameProxy b ∧ ¬a.Clashes b

theorem VhostRoute.Apart.symm {a b : VhostRoute} (apart : a.Apart b) : b.Apart a := by
  refine ⟨fun same => apart.1 same.symm, fun clashes => apart.2 ⟨apart.1, ?_, ?_⟩⟩
  · obtain ⟨location, ofB, ofA⟩ := clashes.2.1
    exact ⟨location, ofA, ofB⟩
  · exact clashes.2.2.imp Ne.symm Eq.symm

instance : Std.Symm VhostRoute.Apart := ⟨fun _ _ => VhostRoute.Apart.symm⟩

/-- Every route is under its domain, and is told apart from the others there. -/
structure VhostTable.Proper (t : VhostTable) : Prop extends t.Tidy where
  placed : ∀ domain, ∀ route ∈ t.routes domain, route.domain = domain
  apart : ∀ domain, (t.routes domain).Pairwise VhostRoute.Apart

namespace VhostTable

section Tables

variable {t after : VhostTable} {route : VhostRoute} {domain : List Char}

theorem routes_register (isAfter : t.register route = .ok after) : after.routes domain =
    if domain = route.domain then route.enlist (t.routes domain) else t.routes domain := by
  obtain ⟨-, rfl⟩ := register_eq_ok_iff.mp isAfter
  rw [routes, listed_list]
  split
  next same => rw [same]; rfl
  next => rfl

theorem routes_step_register : (t.step (.register route)).routes domain =
    if ¬t.Clashes route ∧ domain = route.domain then route.enlist (t.routes domain) else t.routes domain := by
  dsimp only [VhostTable.step]
  cases isAfter : t.register route with
  | error =>
    have clashes : t.Clashes route := by
      by_contra free
      simp [register, free] at isAfter
    rw [if_neg fun both => both.1 clashes]
  | ok after =>
    obtain ⟨free, -⟩ := register_eq_ok_iff.mp isAfter
    rw [routes_register isAfter]
    simp only [free, not_false_iff, true_and]

theorem routes_prune (stays : VhostRoute → Bool) :
    (VhostTable.mk (prune stays t.exact) (prune stays t.wildcard)).routes domain = (t.routes domain).filter stays := by
  rw [routes, listed_prune, routes]
  cases t.listed domain with
  | none => rfl
  | some listed =>
    by_cases none : listed.filter stays = [] <;> simp [Option.filter, none]

theorem Proper.has_iff (proper : t.Proper) : t.Has route ↔ route ∈ t.routes route.domain := by
  constructor
  · intro has
    obtain ⟨domain, routes, isListed, isRoute⟩ := (has_iff_listed proper.toTidy).mp has
    have isRoute : route ∈ t.routes domain := by
      unfold VhostTable.routes
      rwa [isListed]
    rwa [proper.placed domain route isRoute]
  · exact has_of_listed

theorem proper_empty : empty.Proper where
  inhabited domain := by
    unfold listed
    split <;> exact nofun
  exact := nofun
  placed domain route isRoute := by
    unfold routes listed at isRoute
    split at isRoute <;> cases isRoute
  apart domain := by
    unfold routes listed
    split <;> exact .nil

theorem Proper.register (proper : t.Proper) (isAfter : t.register route = .ok after) : after.Proper where
  toTidy := proper.toTidy.register isAfter
  placed domain other isOther := by
    rw [routes_register isAfter] at isOther
    split at isOther
    next same =>
      rcases VhostRoute.mem_enlist.mp isOther with ⟨wasThere, -⟩ | rfl
      · exact proper.placed domain other wasThere
      · exact same.symm
    next => exact proper.placed domain other isOther
  apart domain := by
    rw [routes_register isAfter]
    split
    next same =>
      obtain ⟨free, -⟩ := register_eq_ok_iff.mp isAfter
      refine List.pairwise_append.mpr ⟨(proper.apart domain).filter _, List.pairwise_singleton _ _, ?_⟩
      intro existing isExisting last isLast
      obtain rfl := List.mem_singleton.mp isLast
      obtain ⟨wasThere, foreign⟩ := List.mem_filter.mp isExisting
      subst same
      exact ⟨of_decide_eq_true foreign, fun clashes => free ⟨existing, wasThere, clashes⟩⟩
    next => exact proper.apart domain

theorem Proper.prune (proper : t.Proper) (stays : VhostRoute → Bool) :
    (VhostTable.mk (prune stays t.exact) (prune stays t.wildcard)).Proper where
  toTidy := proper.toTidy.prune stays
  placed domain route isRoute := by
    rw [routes_prune] at isRoute
    exact proper.placed domain route (List.mem_of_mem_filter isRoute)
  apart domain := by
    rw [routes_prune]
    exact (proper.apart domain).filter _

theorem Proper.step (proper : t.Proper) (event : Event) : (t.step event).Proper := by
  cases event with
  | register route =>
    dsimp only [VhostTable.step]
    cases isAfter : t.register route with
    | error => exact proper
    | ok after => exact proper.register isAfter
  | removeProxy client proxyName => exact proper.prune _
  | unregisterClient client => exact proper.prune _

theorem proper_run (events : List Event) : (run step empty events).Proper :=
  run_invariant (fun _ event proper => proper.step event) proper_empty events

end Tables

/-- The routes of a domain take a request under one of their locations. -/
structure Takes (t : VhostTable) (path : List Char) (authUser : Option (List Char)) (kind : VhostKind)
    (domain : List Char) (exactUser : Bool) (found : VhostRoute × List Char) : Prop where
  has : t.Has found.1
  domain : found.1.domain = domain
  kind : found.1.kind = kind
  serves : found.1.serves authUser exactUser
  location : found.2 ∈ found.1.locations
  under : found.2 <+: path

/-- At the first domain where a request is taken, a route for just this user comes before
those for all, and the longest location is chosen. -/
structure Chosen (t : VhostTable) (path : List Char) (authUser : Option (List Char)) (kind : VhostKind)
    (domains : List (List Char)) (found : VhostRoute × List Char) : Prop where
  first : ∃ before after, domains = before ++ found.1.domain :: after ∧
    ∀ domain ∈ before, ∀ exactUser other, ¬t.Takes path authUser kind domain exactUser other
  best : ∃ exactUser, t.Takes path authUser kind found.1.domain exactUser found ∧
    (exactUser = false → ∀ other, ¬t.Takes path authUser kind found.1.domain true other) ∧
    ∀ other, t.Takes path authUser kind found.1.domain exactUser other → other.2.length ≤ found.2.length

/-- A domain that begins with `*.` is listed by what follows. -/
def starred (suffix : List Char) : List Char := '*' :: '.' :: suffix

/-- The host itself, whatever a star may stand for in it, and the star alone. -/
def levels (suffixes : List (List Char)) (host : List Char) : List (List Char) :=
  (if suffixOf host = none then [host] else []) ++ suffixes.map starred ++ [['*']]

/-- What follows the first labels, down to the last label. -/
def allSuffixes (host : List Char) : List (List Char) :=
  let labels := host.splitOn '.'
  (List.range' 1 (labels.length - 1)).map fun i => ['.'].intercalate (labels.drop i)

section Lookup

variable {t : VhostTable} {path host domain : List Char} {authUser : Option (List Char)} {kind : VhostKind}
  {exactUser : Bool} {found other : VhostRoute × List Char}

theorem lookup_eq_findSome? (tidy : t.Tidy) : t.lookup host path authUser kind =
    (levels (wildcards (normalHost host)) (normalHost host)).findSome? fun domain =>
      inTable path authUser kind (t.listed domain) := by
  unfold lookup levels
  generalize normalHost host = host
  have itself : (if suffixOf host = none then [host] else []).findSome? (fun domain =>
      inTable path authUser kind (t.listed domain)) = inTable path authUser kind (t.exact.lookup host) := by
    split
    next whole => simp [listed, whole]
    next isStarred =>
      cases isListed : t.exact.lookup host with
      | none => rfl
      | some routes => exact absurd (tidy.exact host routes isListed) isStarred
  rw [List.findSome?_append, List.findSome?_append, itself, List.findSome?_map, Option.or_assoc]
  have whole : [['*']].findSome? (fun domain => inTable path authUser kind (t.listed domain)) =
      inTable path authUser kind (t.exact.lookup ['*']) := by
    simp [listed, suffixOf]
  rw [whole]
  rfl

theorem Takes.sameUser (takes : t.Takes path authUser kind domain exactUser found)
    (also : t.Takes path authUser kind domain exactUser other) : found.1.routeByHttpUser = other.1.routeByHttpUser := by
  have serves := takes.serves
  have alsoServes := also.serves
  cases exactUser <;> simp_all [VhostRoute.serves]

/-- In a table whose routes are told apart, a location leads to one route. -/
theorem Takes.unique (proper : t.Proper) (takes : t.Takes path authUser kind domain exactUser found)
    (also : t.Takes path authUser kind domain exactUser other) (same : found.2.length = other.2.length) :
    found = other := by
  obtain ⟨route, location⟩ := found
  obtain ⟨otherRoute, otherLocation⟩ := other
  obtain rfl : location = otherLocation := (List.prefix_of_prefix_length_le takes.under also.under same.le).eq_of_length same
  have isRoute := proper.has_iff.mp takes.has
  have isOther := proper.has_iff.mp also.has
  rw [takes.domain] at isRoute
  rw [also.domain] at isOther
  have sameScope := takes.sameUser also
  by_contra different
  have differs : route ≠ otherRoute := fun same => different (by rw [same])
  have apart : route.Apart otherRoute := (proper.apart domain).forall isRoute isOther differs
  exact apart.2 ⟨apart.1, ⟨location, takes.location, also.location⟩, .inr sameScope⟩

theorem Takes.of_candidate (proper : t.Proper) (isCandidate : found ∈ (t.routes domain).filterMap
    (VhostRoute.candidate path authUser kind exactUser)) : t.Takes path authUser kind domain exactUser found := by
  obtain ⟨route, isRoute, taken⟩ := List.mem_filterMap.mp isCandidate
  obtain ⟨chosen, location⟩ := found
  obtain ⟨rfl, isLocation, under⟩ := VhostRoute.candidate_eq_some taken
  rw [VhostRoute.candidate] at taken
  split at taken
  next fits => exact ⟨has_of_listed isRoute, proper.placed domain _ isRoute, fits.1, fits.2, isLocation, under⟩
  next => cases taken

/-- What takes a request is among the candidates, with a location no shorter. -/
theorem Takes.candidate (proper : t.Proper) (takes : t.Takes path authUser kind domain exactUser found) :
    ∃ longest ∈ (t.routes domain).filterMap (VhostRoute.candidate path authUser kind exactUser),
      found.2.length ≤ longest.2.length := by
  have isRoute := proper.has_iff.mp takes.has
  rw [takes.domain] at isRoute
  have isMatch : found.2 ∈ found.1.locations.filter fun location => location.isPrefixOf path :=
    List.mem_filter.mpr ⟨takes.location, List.isPrefixOf_iff_prefix.mpr takes.under⟩
  cases isLongest : found.1.matchLocation path with
  | none =>
    rw [VhostRoute.matchLocation, List.argmax_eq_none] at isLongest
    rw [isLongest] at isMatch
    cases isMatch
  | some longest =>
    refine ⟨(found.1, longest), List.mem_filterMap.mpr ⟨found.1, isRoute, ?_⟩, List.le_of_mem_argmax isMatch isLongest⟩
    rw [VhostRoute.candidate, if_pos ⟨takes.kind, takes.serves⟩, isLongest]
    rfl

theorem matched_eq_none_iff (proper : t.Proper) : matched (t.routes domain) path authUser kind exactUser = none ↔
    ∀ found, ¬t.Takes path authUser kind domain exactUser found := by
  rw [matched, List.argmax_eq_none, List.eq_nil_iff_forall_not_mem]
  constructor
  · intro none found takes
    obtain ⟨longest, isCandidate, -⟩ := takes.candidate proper
    exact none longest isCandidate
  · exact fun none found isCandidate => none found (.of_candidate proper isCandidate)

theorem matched_eq_some_iff (proper : t.Proper) : matched (t.routes domain) path authUser kind exactUser = some found ↔
    t.Takes path authUser kind domain exactUser found ∧
      ∀ other, t.Takes path authUser kind domain exactUser other → other.2.length ≤ found.2.length := by
  have longest {best : VhostRoute × List Char} (isBest : matched (t.routes domain) path authUser kind exactUser = some best) :
      t.Takes path authUser kind domain exactUser best ∧
        ∀ other, t.Takes path authUser kind domain exactUser other → other.2.length ≤ best.2.length := by
    refine ⟨.of_candidate proper (List.argmax_mem isBest), fun other takes => ?_⟩
    obtain ⟨candidate, isCandidate, longer⟩ := takes.candidate proper
    have atMost := List.le_of_mem_argmax isCandidate isBest
    exact longer.trans atMost
  refine ⟨longest, fun ⟨takes, isLongest⟩ => ?_⟩
  cases isBest : matched (t.routes domain) path authUser kind exactUser with
  | none => exact absurd takes ((matched_eq_none_iff proper).mp isBest found)
  | some best =>
    obtain ⟨bestTakes, bestLongest⟩ := longest isBest
    have same := le_antisymm (isLongest best bestTakes) (bestLongest found takes)
    rw [bestTakes.unique proper takes same]

theorem inTable_routes : inTable path authUser kind (t.listed domain) =
    (matched (t.routes domain) path authUser kind true).or (matched (t.routes domain) path authUser kind false) := by
  unfold inTable routes
  cases t.listed domain with
  | none => rfl
  | some list => rfl

theorem inTable_eq_none_iff (proper : t.Proper) : inTable path authUser kind (t.listed domain) = none ↔
    ∀ exactUser found, ¬t.Takes path authUser kind domain exactUser found := by
  rw [inTable_routes, Option.or_eq_none_iff, matched_eq_none_iff proper, matched_eq_none_iff proper, Bool.forall_bool,
    and_comm]

theorem inTable_eq_some_iff (proper : t.Proper) : inTable path authUser kind (t.listed domain) = some found ↔
    ∃ exactUser, t.Takes path authUser kind domain exactUser found ∧
      (exactUser = false → ∀ other, ¬t.Takes path authUser kind domain true other) ∧
      ∀ other, t.Takes path authUser kind domain exactUser other → other.2.length ≤ found.2.length := by
  rw [inTable_routes, Option.or_eq_some_iff, matched_eq_none_iff proper, matched_eq_some_iff proper,
    matched_eq_some_iff proper, Bool.exists_bool, or_comm]
  simp only [true_imp_iff, Bool.true_eq_false, false_imp_iff, true_and]
  exact or_congr_left and_left_comm

theorem findSome?_eq_some_iff_chosen (proper : t.Proper) {domains : List (List Char)} :
    domains.findSome? (fun domain => inTable path authUser kind (t.listed domain)) = some found ↔
      t.Chosen path authUser kind domains found := by
  rw [List.findSome?_eq_some_iff]
  constructor
  · rintro ⟨before, domain, after, isDomains, inDomain, noneBefore⟩
    obtain ⟨exactUser, takes, best⟩ := (inTable_eq_some_iff proper).mp inDomain
    obtain rfl := takes.domain
    exact ⟨⟨before, after, isDomains, fun domain isBefore => (inTable_eq_none_iff proper).mp (noneBefore domain isBefore)⟩,
      exactUser, takes, best⟩
  · rintro ⟨⟨before, after, isDomains, noneBefore⟩, best⟩
    exact ⟨before, found.1.domain, after, isDomains, (inTable_eq_some_iff proper).mpr best,
      fun domain isBefore => (inTable_eq_none_iff proper).mpr (noneBefore domain isBefore)⟩

theorem lookup_eq_some_iff_chosen (proper : t.Proper) : t.lookup host path authUser kind = some found ↔
    t.Chosen path authUser kind (levels (wildcards (normalHost host)) (normalHost host)) found := by
  rw [lookup_eq_findSome? proper.toTidy, findSome?_eq_some_iff_chosen proper]

theorem Chosen.congr {domains : List (List Char)} {t' : VhostTable} (same : ∀ route, t.Has route ↔ t'.Has route)
    (chosen : t.Chosen path authUser kind domains found) : t'.Chosen path authUser kind domains found := by
  have takes {domain : List Char} {exactUser : Bool} {other : VhostRoute × List Char} :
      t.Takes path authUser kind domain exactUser other ↔ t'.Takes path authUser kind domain exactUser other := by
    constructor
    · exact fun takes => { takes with has := (same other.1).mp takes.has }
    · exact fun takes => { takes with has := (same other.1).mpr takes.has }
  obtain ⟨⟨before, after, isDomains, noneBefore⟩, exactUser, isTaken, notExact, longest⟩ := chosen
  exact ⟨⟨before, after, isDomains, fun domain isBefore user other => mt takes.mpr (noneBefore domain isBefore user other)⟩,
    exactUser, takes.mp isTaken, fun all other => mt takes.mpr (notExact all other),
    fun other isOther => longest other (takes.mpr isOther)⟩

end Lookup

/-- The routes of the table alone decide, and for each request on one of them at most. -/
structure Specified (suffixes : List Char → List (List Char)) (t : VhostTable) : Prop where
  chosen : ∀ host path authUser kind found, t.lookup host path authUser kind = some found ↔
    t.Chosen path authUser kind (levels (suffixes (normalHost host)) (normalHost host)) found
  unique : ∀ path authUser kind domains found other,
    t.Chosen path authUser kind domains found → t.Chosen path authUser kind domains other → found = other
  order : ∀ events, (∀ route, t.Has route ↔ (run step empty events).Has route) →
    t.lookup = (run step empty events).lookup

/-- What a star stands for leaves two labels at least. -/
theorem lookup_specified (events : List Event) : Specified wildcards (run step empty events) := by
  have proper := proper_run events
  refine ⟨fun host path authUser kind found => lookup_eq_some_iff_chosen proper, ?_, fun others same => ?_⟩
  · intro path authUser kind domains found other isChosen alsoChosen
    rw [← findSome?_eq_some_iff_chosen proper] at isChosen alsoChosen
    exact Option.some.inj (isChosen.symm.trans alsoChosen)
  · funext host path authUser kind
    refine Option.ext fun found => ?_
    rw [lookup_eq_some_iff_chosen proper, lookup_eq_some_iff_chosen (proper_run others)]
    exact ⟨Chosen.congr same, Chosen.congr fun route => (same route).symm⟩

/-- A star before a single label stands for nothing. -/
theorem not_specified_single_label : ¬∀ events, Specified allSuffixes (run step empty events) := by
  intro specified
  let route : VhostRoute := { proxyName := "tld".toList, client := 0, domain := "*.com".toList }
  have spec := (specified [.register route]).chosen "example.com".toList ['/'] none .http (route, ['/'])
  have isChosen := (findSome?_eq_some_iff_chosen (proper_run [.register route])).mp
    (show (levels (allSuffixes (normalHost "example.com".toList)) (normalHost "example.com".toList)).findSome?
      (fun domain => inTable ['/'] none .http ((run step empty [.register route]).listed domain)) = some (route, ['/'])
      by decide +kernel)
  have notFound : (run step empty [.register route]).lookup "example.com".toList ['/'] none .http = none := by
    decide +kernel
  cases notFound.symm.trans (spec.mpr isChosen)

end VhostTable

end Nfrp
