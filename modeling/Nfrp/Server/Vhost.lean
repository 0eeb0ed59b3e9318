import Nfrp.Lib.Maps
import Nfrp.Server.HttpHead
import Mathlib.Data.List.MinMax

/-!
The routing table of the virtual hosts.

Routes are listed by domain, those of a domain with a leading `*.` by what follows
it.  The domain itself is tried first, then its suffixes, and `*` at last; within
a list the routes for the visitor's user come before those for all users, and the
longest location wins.
-/

namespace Nfrp

open Lib

inductive VhostKind where
  | http
  | https
  | tcpMux
  deriving DecidableEq, Repr

structure VhostRoute where
  proxyName : List Char
  client : Nat
  domain : List Char
  locations : List (List Char) := [['/']]
  httpUser : List Char := []
  httpPwd : List Char := []
  routeByHttpUser : List Char := []
  rewriteHost : List Char := []
  reqHeaders : List (List Char × List Char) := []
  kind : VhostKind := .http
  deriving DecidableEq, Repr

def VhostRoute.matchLocation (route : VhostRoute) (path : List Char) : Option (List Char) :=
  (route.locations.filter fun location => location.isPrefixOf path).argmax List.length

structure VhostTable where
  exact : AList fun _ : List Char => List VhostRoute
  wildcard : AList fun _ : List Char => List VhostRoute

def normalHost (host : List Char) : List Char :=
  ((trimmed host).rdropWhile (· == '.')).map Char.toLower

namespace VhostRoute

def serves (route : VhostRoute) (authUser : Option (List Char)) (exactUser : Bool) : Bool :=
  if exactUser then route.routeByHttpUser != [] && route.routeByHttpUser == authUser.getD []
  else route.routeByHttpUser == []

def candidate (path : List Char) (authUser : Option (List Char)) (kind : VhostKind) (exactUser : Bool)
    (route : VhostRoute) : Option (VhostRoute × List Char) :=
  if route.kind = kind ∧ route.serves authUser exactUser then (route.matchLocation path).map (route, ·) else none

theorem matchLocation_under {route : VhostRoute} {path location : List Char}
    (found : route.matchLocation path = some location) : location ∈ route.locations ∧ location <+: path := by
  have member := List.mem_filter.mp (List.argmax_mem found)
  exact ⟨member.1, List.isPrefixOf_iff_prefix.mp member.2⟩

theorem candidate_eq_some {path : List Char} {authUser : Option (List Char)} {kind : VhostKind} {exactUser : Bool}
    {route chosen : VhostRoute} {location : List Char}
    (found : route.candidate path authUser kind exactUser = some (chosen, location)) :
    chosen = route ∧ location ∈ route.locations ∧ location <+: path := by
  rw [candidate] at found
  split at found
  next =>
    obtain ⟨matching, isMatch, same⟩ := Option.map_eq_some_iff.mp found
    obtain ⟨rfl, rfl⟩ := Prod.mk.inj same
    exact ⟨rfl, matchLocation_under isMatch⟩
  next => cases found

end VhostRoute

namespace VhostTable

/-- Of the routes that take the request, the first with a longest location. -/
def matched (list : List VhostRoute) (path : List Char) (authUser : Option (List Char)) (kind : VhostKind)
    (exactUser : Bool) : Option (VhostRoute × List Char) :=
  (list.filterMap (VhostRoute.candidate path authUser kind exactUser)).argmax fun found => found.2.length

def inTable (path : List Char) (authUser : Option (List Char)) (kind : VhostKind) (list : Option (List VhostRoute)) :
    Option (VhostRoute × List Char) :=
  list.bind fun list => (matched list path authUser kind true).or (matched list path authUser kind false)

/-- At least three labels are left with the `*` in place of the first ones. -/
def wildcards (host : List Char) : List (List Char) :=
  let labels := host.splitOn '.'
  (List.range' 1 (labels.length - 2)).map fun i => ['.'].intercalate (labels.drop i)

def lookup (table : VhostTable) (host path : List Char) (authUser : Option (List Char)) (kind : VhostKind) :
    Option (VhostRoute × List Char) :=
  let host := normalHost host
  (inTable path authUser kind (table.exact.lookup host)).or
    (((wildcards host).findSome? fun suffix => inTable path authUser kind (table.wildcard.lookup suffix)).or
      (inTable path authUser kind (table.exact.lookup ['*'])))

variable {table : VhostTable} {host path location : List Char} {authUser : Option (List Char)} {kind : VhostKind}
  {route : VhostRoute}

theorem matched_under {list : List VhostRoute} {exactUser : Bool}
    (found : matched list path authUser kind exactUser = some (route, location)) :
    route ∈ list ∧ location ∈ route.locations ∧ location <+: path := by
  obtain ⟨listed, member, isCandidate⟩ := List.mem_filterMap.mp (List.argmax_mem found)
  obtain ⟨rfl, inRoute, isPrefix⟩ := VhostRoute.candidate_eq_some isCandidate
  exact ⟨member, inRoute, isPrefix⟩

theorem inTable_under {list : Option (List VhostRoute)}
    (found : inTable path authUser kind list = some (route, location)) : location ∈ route.locations ∧ location <+: path := by
  obtain ⟨list, _, inList⟩ := Option.bind_eq_some_iff.mp found
  rcases Option.or_eq_some_iff.mp inList with exactly | ⟨_, anyUser⟩
  · exact (matched_under exactly).2
  · exact (matched_under anyUser).2

theorem lookup_under (found : table.lookup host path authUser kind = some (route, location)) :
    location ∈ route.locations ∧ location <+: path := by
  rcases Option.or_eq_some_iff.mp found with exactly | ⟨_, later⟩
  · exact inTable_under exactly
  rcases Option.or_eq_some_iff.mp later with wild | ⟨_, whole⟩
  · obtain ⟨suffix, _, inSuffix⟩ := List.exists_of_findSome?_eq_some wild
    exact inTable_under inSuffix
  · exact inTable_under whole

theorem lookup_congr {other : List Char} (same : normalHost other = normalHost host) :
    table.lookup other path authUser kind = table.lookup host path authUser kind := by
  rw [lookup, lookup, same]

theorem lookup_of_alone (alone : table.exact.lookup (normalHost host) = some [route]) (sameKind : route.kind = kind)
    (allUsers : route.routeByHttpUser = []) (only : route.locations = [location]) (isPrefix : location <+: path) :
    table.lookup host path authUser kind = some (route, location) := by
  have matching : route.matchLocation path = some location := by
    have kept : location.isPrefixOf path := List.isPrefixOf_iff_prefix.mpr isPrefix
    simp [VhostRoute.matchLocation, only, kept]
  have exactly : matched [route] path authUser kind true = none := by
    simp [matched, VhostRoute.candidate, VhostRoute.serves, allUsers]
  have anyUser : matched [route] path authUser kind false = some (route, location) := by
    simp [matched, VhostRoute.candidate, VhostRoute.serves, allUsers, sameKind, matching]
  rw [lookup, alone, inTable, Option.bind_some, exactly, anyUser]
  rfl

end VhostTable

end Nfrp
