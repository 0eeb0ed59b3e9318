import Nfrp.Server.Lookup

/-!
# Kinds of routes in one table

The routes of every kind are in one table.  It is used as a table for each kind would be as
long as routes of two kinds do not get in each other's way.
-/

namespace Nfrp

open Lib

instance (a b : VhostRoute) : Decidable (a.Apart b) :=
  inferInstanceAs (Decidable (_ ∧ _))

namespace VhostTable

theorem forall_has_iff {t : VhostTable} {p : VhostRoute → Prop} : (∀ route, t.Has route → p route) ↔
    ∀ entry ∈ t.exact.entries ++ t.wildcard.entries, ∀ route ∈ entry.2, p route := by
  constructor
  · intro all entry isEntry route isRoute
    rcases List.mem_append.mp isEntry with inExact | inWildcard
    · exact all route (.inl ⟨entry.1, entry.2, AList.mem_lookup_iff.mpr inExact, isRoute⟩)
    · exact all route (.inr ⟨entry.1, entry.2, AList.mem_lookup_iff.mpr inWildcard, isRoute⟩)
  · rintro all route (⟨key, routes, isEntry, isRoute⟩ | ⟨key, routes, isEntry, isRoute⟩)
    · exact all _ (List.mem_append_left _ (AList.mem_lookup_iff.mp isEntry)) route isRoute
    · exact all _ (List.mem_append_right _ (AList.mem_lookup_iff.mp isEntry)) route isRoute

instance (t : VhostTable) (p : VhostRoute → Prop) [DecidablePred p] : Decidable (∀ route, t.Has route → p route) :=
  decidable_of_iff' _ forall_has_iff

def answer (t : VhostTable) (route : VhostRoute) : Except String Unit :=
  (t.register route).map fun _ => ()

/-- A table for each kind: a route is entered in its own, and taken out wherever it is. -/
def stepSeparate (tables : VhostKind → VhostTable) : Event → VhostKind → VhostTable
  | .register route => Function.update tables route.kind ((tables route.kind).step (.register route))
  | .removeProxy client proxyName => fun kind => (tables kind).removeProxy client proxyName
  | .unregisterClient client => fun kind => (tables kind).unregisterClient client

def separate (events : List Event) : VhostKind → VhostTable := run stepSeparate (fun _ => empty) events

/-- A route of another kind is registered or taken out.  Who leaves takes along all there is. -/
def Another (t : VhostTable) (kind : VhostKind) : Event → Prop
  | .register route => route.kind ≠ kind
  | .removeProxy client proxyName =>
    ∃ route, t.Has route ∧ route.client = client ∧ route.proxyName = proxyName ∧ route.kind ≠ kind
  | .unregisterClient _ => False

/-- The one table is used as a table for each kind would be. -/
structure Separate (events : List Event) : Prop where
  answered : ∀ before route after, events = before ++ .register route :: after →
    (run step empty before).answer route = (separate before route.kind).answer route
  found : ∀ before after, events = before ++ after → ∀ host path authUser kind,
    (run step empty before).lookup host path authUser kind = (separate before kind).lookup host path authUser kind
  untouched : ∀ before event after, events = before ++ event :: after → ∀ kind,
    (run step empty before).Another kind event →
      (∀ host path authUser, ((run step empty before).step event).lookup host path authUser kind =
        (run step empty before).lookup host path authUser kind) ∧
      ∀ route, route.kind = kind →
        (separate (before ++ [event]) kind).answer route = (separate before kind).answer route

/-- A route is refused for one of its own kind or stands apart from those of others, and no
proxy has routes of two kinds when it is taken out. -/
def KeepsKinds (t : VhostTable) : Event → Prop
  | .register route =>
    (∃ existing ∈ t.routes route.domain, existing.kind = route.kind ∧ existing.Clashes route) ∨
      ∀ existing ∈ t.routes route.domain, existing.kind ≠ route.kind → existing.Apart route
  | .removeProxy client proxyName =>
    ∀ a, t.Has a → a.client = client → a.proxyName = proxyName → ∀ b, t.Has b → a.SameProxy b → a.kind = b.kind
  | .unregisterClient _ => True

instance (t : VhostTable) : (event : Event) → Decidable (t.KeepsKinds event)
  | .register route => inferInstanceAs (Decidable ((∃ existing ∈ t.routes route.domain, _) ∨ ∀ existing ∈ _, _))
  | .removeProxy _ _ => inferInstanceAs (Decidable (∀ a, t.Has a → _ → _ → ∀ b, t.Has b → _ → _))
  | .unregisterClient _ => .isTrue trivial

structure OfKind (kind : VhostKind) (t own : VhostTable) : Prop where
  proper : t.Proper
  ownProper : own.Proper
  routes : ∀ domain, own.routes domain = (t.routes domain).filter fun route => route.kind = kind

section Kinds

variable {t own : VhostTable} {kind : VhostKind} {route : VhostRoute}

theorem matched_filter (list : List VhostRoute) (path : List Char) (authUser : Option (List Char)) (exactUser : Bool) :
    matched (list.filter fun route => route.kind = kind) path authUser kind exactUser =
      matched list path authUser kind exactUser := by
  have same : (list.filter fun route => route.kind = kind).filterMap (VhostRoute.candidate path authUser kind exactUser) =
      list.filterMap (VhostRoute.candidate path authUser kind exactUser) := by
    rw [List.filterMap_filter]
    refine List.filterMap_congr fun route _ => ?_
    by_cases isKind : route.kind = kind <;> simp [VhostRoute.candidate, isKind]
  rw [matched, same]
  rfl

theorem OfKind.lookup (ofKind : OfKind kind t own) (host path : List Char) (authUser : Option (List Char)) :
    t.lookup host path authUser kind = own.lookup host path authUser kind := by
  rw [lookup_eq_findSome? ofKind.proper.toTidy, lookup_eq_findSome? ofKind.ownProper.toTidy]
  refine congrArg (List.findSome? · _) (funext fun domain => ?_)
  rw [inTable_routes, inTable_routes, ofKind.routes, matched_filter, matched_filter]

theorem OfKind.clashes_iff (ofKind : OfKind kind t own) : own.Clashes route ↔
    ∃ existing ∈ t.routes route.domain, existing.kind = kind ∧ existing.Clashes route := by
  have isOwn := ofKind.routes route.domain
  unfold VhostTable.routes at isOwn ⊢
  rw [Clashes, isOwn]
  simp only [List.mem_filter, decide_eq_true_eq, and_assoc]

theorem OfKind.clashes_of_keeps (ofKind : OfKind route.kind t own) (keeps : t.KeepsKinds (.register route)) :
    t.Clashes route ↔ own.Clashes route := by
  rw [ofKind.clashes_iff]
  constructor
  · rintro ⟨existing, isExisting, clashes⟩
    rcases keeps with isOwn | apart
    · exact isOwn
    · by_cases isKind : existing.kind = route.kind
      · exact ⟨existing, isExisting, isKind, clashes⟩
      · exact absurd clashes (apart existing isExisting isKind).2
  · rintro ⟨existing, isExisting, -, clashes⟩
    exact ⟨existing, isExisting, clashes⟩

theorem OfKind.register_own (ofKind : OfKind route.kind t own) (keeps : t.KeepsKinds (.register route)) :
    OfKind route.kind (t.step (.register route)) (own.step (.register route)) where
  proper := ofKind.proper.step _
  ownProper := ofKind.ownProper.step _
  routes domain := by
    rw [routes_step_register, routes_step_register]
    simp only [ofKind.clashes_of_keeps keeps, ofKind.routes]
    split
    · rw [VhostRoute.enlist, VhostRoute.enlist, List.filter_append, List.filter_comm]
      simp
    · rfl

theorem OfKind.register_another (ofKind : OfKind kind t own) (keeps : t.KeepsKinds (.register route))
    (another : route.kind ≠ kind) : OfKind kind (t.step (.register route)) own where
  proper := ofKind.proper.step _
  ownProper := ofKind.ownProper
  routes domain := by
    rw [routes_step_register, ofKind.routes]
    split
    next both =>
      obtain ⟨free, rfl⟩ := both
      -- nothing of this kind is replaced
      have apart : ∀ existing ∈ t.routes route.domain, existing.kind ≠ route.kind → existing.Apart route := by
        refine keeps.resolve_left ?_
        rintro ⟨existing, isExisting, -, clashes⟩
        exact free ⟨existing, isExisting, clashes⟩
      rw [VhostRoute.enlist, List.filter_append, List.filter_filter]
      simp only [another, decide_false, List.filter_cons, List.filter_nil, Bool.false_eq_true, if_false, List.append_nil]
      refine List.filter_congr fun existing isExisting => ?_
      by_cases isKind : existing.kind = kind
      · have differs : existing.kind ≠ route.kind := fun same => another (same.symm.trans isKind)
        simp [isKind, (apart existing isExisting differs).1]
      · simp [isKind]
    next => rfl

theorem OfKind.prune (ofKind : OfKind kind t own) (stays : VhostRoute → Bool) :
    OfKind kind (VhostTable.mk (prune stays t.exact) (prune stays t.wildcard))
      (VhostTable.mk (prune stays own.exact) (prune stays own.wildcard)) where
  proper := ofKind.proper.prune stays
  ownProper := ofKind.ownProper.prune stays
  routes domain := by
    rw [routes_prune, routes_prune, ofKind.routes, List.filter_comm]

def Separated (t : VhostTable) (tables : VhostKind → VhostTable) : Prop :=
  ∀ kind, OfKind kind t (tables kind)

theorem separated_empty : Separated empty fun _ => empty := by
  intro kind
  refine ⟨proper_empty, proper_empty, fun domain => ?_⟩
  have none : empty.routes domain = [] := by
    unfold VhostTable.routes listed
    split <;> rfl
  rw [none]
  rfl

theorem Separated.step {tables : VhostKind → VhostTable} (event : Event) (keeps : t.KeepsKinds event)
    (separated : t.Separated tables) : (t.step event).Separated (stepSeparate tables event) := by
  intro kind
  cases event with
  | register route =>
    by_cases isKind : route.kind = kind
    · subst isKind
      rw [stepSeparate, Function.update_self]
      exact (separated route.kind).register_own keeps
    · rw [stepSeparate, Function.update_of_ne (Ne.symm isKind)]
      exact (separated kind).register_another keeps isKind
  | removeProxy client proxyName => exact (separated kind).prune _
  | unregisterClient client => exact (separated kind).prune _

theorem separated_run {events : List Event} (keeps : RunMeets step KeepsKinds empty events) :
    (run step empty events).Separated (separate events) :=
  run_related (fun _ event _ keeps separated => separated.step event keeps) separated_empty keeps

/-- A registration of another kind leaves the routes of this kind as they are. -/
theorem OfKind.another {event : Event} (ofKind : OfKind kind t own) (keeps : t.KeepsKinds event)
    (another : t.Another kind event) : OfKind kind (t.step event) own := by
  cases event with
  | register route => exact ofKind.register_another keeps another
  | removeProxy client proxyName =>
    obtain ⟨route, has, rfl, rfl, differs⟩ := another
    refine ⟨ofKind.proper.step _, ofKind.ownProper, fun domain => ?_⟩
    dsimp only [VhostTable.step, removeProxy]
    rw [routes_prune, ofKind.routes, List.filter_filter]
    refine List.filter_congr fun existing isExisting => ?_
    by_cases isKind : existing.kind = kind
    · have foreign : ¬(existing.client = route.client ∧ existing.proxyName = route.proxyName) := by
        rintro ⟨sameClient, sameName⟩
        have isThere : t.Has existing := by
          obtain rfl := ofKind.proper.placed domain existing isExisting
          exact ofKind.proper.has_iff.mpr isExisting
        exact differs ((keeps route has rfl rfl existing isThere ⟨sameClient.symm, sameName.symm⟩).trans isKind)
      simp [isKind, foreign]
    · simp [isKind]
  | unregisterClient client => exact another.elim

theorem answer_eq : t.answer route =
    if t.Clashes route then .error ("域名 " ++ String.ofList route.domain ++ " 的路径已被占用（详情见服务端日志）")
    else .ok () := by
  unfold answer register
  split <;> rfl

theorem answer_congr (same : own.routes route.domain = t.routes route.domain) : own.answer route = t.answer route := by
  have clashes : own.Clashes route ↔ t.Clashes route := by
    unfold VhostTable.routes at same
    rw [Clashes, Clashes, same]
  rw [answer_eq, answer_eq, if_congr clashes rfl rfl]

end Kinds

/-- In every run whose steps keep the kinds apart. -/
theorem separate_of_keepsKinds {events : List Event} (keeps : RunMeets step KeepsKinds empty events) : Separate events where
  answered before route after isEvents := by
    subst isEvents
    obtain ⟨keepsBefore, keepsRoute, -⟩ := runMeets_append.mp keeps
    have clashes := (separated_run keepsBefore route.kind).clashes_of_keeps keepsRoute
    rw [answer_eq, answer_eq, if_congr clashes rfl rfl]
  found before after isEvents host path authUser kind := by
    subst isEvents
    exact (separated_run (runMeets_append.mp keeps).1 kind).lookup host path authUser
  untouched before event after isEvents kind another := by
    subst isEvents
    obtain ⟨keepsBefore, keepsEvent, -⟩ := runMeets_append.mp keeps
    have isBefore := separated_run keepsBefore
    have still := (isBefore kind).another keepsEvent another
    constructor
    · intro host path authUser
      rw [still.lookup, (isBefore kind).lookup]
    · intro route _
      have isAfter := isBefore.step event keepsEvent kind
      have same : separate (before ++ [event]) = stepSeparate (separate before) event := run_append _ _ _ _
      rw [same]
      refine answer_congr ?_
      rw [isAfter.routes, still.routes]

def siteRoute (kind : VhostKind) (proxyName domain : String) (locations : List String) : VhostRoute where
  proxyName := proxyName.toList
  client := 0
  domain := domain.toList
  locations := locations.map String.toList
  kind := kind

theorem separate_site : Separate [.register (siteRoute .http "web" "example.com" ["/static"]),
    .register (siteRoute .https "web-tls" "example.com" ["/"]), .removeProxy 0 "web".toList] :=
  separate_of_keepsKinds (by decide +kernel)

/-- A route of another kind refuses one, and is replaced or taken out with one of its name. -/
theorem not_separate_site :
    ¬Separate [.register (siteRoute .http "web" "example.com" ["/"]),
      .register (siteRoute .https "web-tls" "example.com" ["/"])] ∧
    ¬Separate [.register (siteRoute .http "web" "example.com" ["/"]),
      .register (siteRoute .https "web" "example.com" ["/"])] ∧
    ¬Separate [.register (siteRoute .http "web" "example.com" ["/"]),
      .register (siteRoute .https "web" "www.example.com" ["/"]), .removeProxy 0 "web".toList] := by
  let plain := siteRoute .http "web" "example.com" ["/"]
  let secure := siteRoute .https "web" "www.example.com" ["/"]
  refine ⟨fun isSeparate => ?_, fun isSeparate => ?_, fun isSeparate => ?_⟩
  · have same := isSeparate.answered [.register plain] (siteRoute .https "web-tls" "example.com" ["/"]) [] rfl
    revert same
    decide +kernel
  · have same := isSeparate.found _ [] (List.append_nil _).symm "example.com".toList ['/'] none .http
    revert same
    decide +kernel
  · have hasPlain : (run step empty [.register plain, .register secure]).Has plain :=
      has_of_listed (show plain ∈ (run step empty [.register plain, .register secure]).routes plain.domain by decide +kernel)
    have untouched := isSeparate.untouched [.register plain, .register secure] (.removeProxy 0 "web".toList) [] rfl
      .https ⟨plain, hasPlain, rfl, rfl, nofun⟩
    have same := untouched.1 "www.example.com".toList ['/'] none
    revert same
    decide +kernel

end VhostTable

end Nfrp
