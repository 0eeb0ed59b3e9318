import Nfrp.Server.Vhost

/-!
# Whose domains and whose names

Routes are entered under their domain, and the secret proxies under their name.  Of a
client and a proxy there is one route under a domain; what someone else has entered is
neither replaced nor taken out.
-/

namespace Nfrp

open Lib

namespace VhostRoute

def SameProxy (a b : VhostRoute) : Prop :=
  a.client = b.client ∧ a.proxyName = b.proxyName

instance (a b : VhostRoute) : Decidable (SameProxy a b) :=
  inferInstanceAs (Decidable (_ ∧ _))

/-- A client may tell its routes apart by the user who visits, and nobody else's. -/
def Clashes (existing route : VhostRoute) : Prop :=
  ¬existing.SameProxy route ∧ (∃ a ∈ existing.locations, a ∈ route.locations) ∧
    (existing.client ≠ route.client ∨ existing.routeByHttpUser = route.routeByHttpUser)

instance (existing route : VhostRoute) : Decidable (existing.Clashes route) :=
  inferInstanceAs (Decidable (_ ∧ _ ∧ _))

def enlist (route : VhostRoute) (list : List VhostRoute) : List VhostRoute :=
  list.filter (fun existing => ¬existing.SameProxy route) ++ [route]

end VhostRoute

/-- Where a domain is listed: what follows a leading `*.`, or the whole. -/
def suffixOf (domain : List Char) : Option (List Char) :=
  match domain with
  | '*' :: '.' :: suffix => some suffix
  | _ => none

namespace VhostTable

def listed (t : VhostTable) (domain : List Char) : Option (List VhostRoute) :=
  match suffixOf domain with
  | some suffix => t.wildcard.lookup suffix
  | none => t.exact.lookup domain

def list (t : VhostTable) (domain : List Char) (routes : List VhostRoute) : VhostTable :=
  match suffixOf domain with
  | some suffix => { t with wildcard := t.wildcard.insert suffix routes }
  | none => { t with exact := t.exact.insert domain routes }

def Clashes (t : VhostTable) (route : VhostRoute) : Prop :=
  ∃ existing ∈ (t.listed route.domain).getD [], existing.Clashes route

instance (t : VhostTable) (route : VhostRoute) : Decidable (t.Clashes route) :=
  inferInstanceAs (Decidable (∃ existing ∈ _, _))

def register (t : VhostTable) (route : VhostRoute) : Except String VhostTable :=
  if t.Clashes route then .error ("域名 " ++ String.ofList route.domain ++ " 的路径已被占用（详情见服务端日志）")
  else .ok (t.list route.domain (route.enlist ((t.listed route.domain).getD [])))

/-- One after the other, up to one that clashes; what was entered before stays. -/
def registerAll (t : VhostTable) : List VhostRoute → VhostTable × Except String Unit
  | [] => (t, .ok ())
  | route :: routes =>
    match t.register route with
    | .error reason => (t, .error reason)
    | .ok entered => entered.registerAll routes

def prune (stays : VhostRoute → Bool) (map : AList fun _ : List Char => List VhostRoute) :
    AList fun _ : List Char => List VhostRoute :=
  retain (fun _ routes => routes ≠ []) (mapValues (List.filter stays) map)

def removeProxy (client : Nat) (proxyName : List Char) (t : VhostTable) : VhostTable where
  exact := prune (fun route => ¬(route.client = client ∧ route.proxyName = proxyName)) t.exact
  wildcard := prune (fun route => ¬(route.client = client ∧ route.proxyName = proxyName)) t.wildcard

def unregisterClient (client : Nat) (t : VhostTable) : VhostTable where
  exact := prune (fun route => route.client ≠ client) t.exact
  wildcard := prune (fun route => route.client ≠ client) t.wildcard

def Has (t : VhostTable) (route : VhostRoute) : Prop :=
  (∃ key routes, t.exact.lookup key = some routes ∧ route ∈ routes) ∨
    ∃ key routes, t.wildcard.lookup key = some routes ∧ route ∈ routes

def entered (t : VhostTable) (routes : List VhostRoute) : List VhostRoute :=
  routes.takeWhile fun route => ¬t.Clashes route

/-- The route is there already, and nothing of the proxy beside it. -/
def Stands (t : VhostTable) (route : VhostRoute) : Prop :=
  t.listed route.domain = some (route.enlist ((t.listed route.domain).getD []))

instance (t : VhostTable) (route : VhostRoute) : Decidable (t.Stands route) :=
  inferInstanceAs (Decidable (_ = _))

end VhostTable

structure VhostRoute.OneProxy (routes : List VhostRoute) : Prop where
  sameProxy : ∀ a ∈ routes, ∀ b ∈ routes, a.SameProxy b
  oneEach : ∀ a ∈ routes, ∀ b ∈ routes, a.domain = b.domain → a = b

namespace VhostRoute

variable {a b c route other : VhostRoute} {list routes : List VhostRoute}

theorem SameProxy.symm (same : a.SameProxy b) : b.SameProxy a :=
  ⟨same.1.symm, same.2.symm⟩

theorem SameProxy.trans (first : a.SameProxy b) (second : b.SameProxy c) : a.SameProxy c :=
  ⟨first.1.trans second.1, first.2.trans second.2⟩

theorem mem_enlist : other ∈ route.enlist list ↔ other ∈ list ∧ ¬other.SameProxy route ∨ other = route := by
  simp [enlist]

theorem enlist_enlist : route.enlist (route.enlist list) = route.enlist list := by
  simp [enlist, List.filter_append, List.filter_filter, SameProxy]

theorem clashes_enlist_iff (same : route.SameProxy other) :
    (∃ existing ∈ route.enlist list, existing.Clashes other) ↔ ∃ existing ∈ list, existing.Clashes other := by
  constructor
  · rintro ⟨existing, isListed, clashes⟩
    rcases mem_enlist.mp isListed with ⟨wasListed, -⟩ | rfl
    · exact ⟨existing, wasListed, clashes⟩
    · exact absurd same clashes.1
  · rintro ⟨existing, wasListed, clashes⟩
    have foreign : ¬existing.SameProxy route := fun own => clashes.1 (own.trans same)
    exact ⟨existing, mem_enlist.mpr (.inl ⟨wasListed, foreign⟩), clashes⟩

theorem OneProxy.tail (one : OneProxy (route :: routes)) : OneProxy routes where
  sameProxy a isA b isB := one.sameProxy a (List.mem_cons_of_mem _ isA) b (List.mem_cons_of_mem _ isB)
  oneEach a isA b isB := one.oneEach a (List.mem_cons_of_mem _ isA) b (List.mem_cons_of_mem _ isB)

end VhostRoute

theorem suffixOf_inj {domain other suffix : List Char} (isSuffix : suffixOf domain = some suffix)
    (alsoSuffix : suffixOf other = some suffix) : domain = other := by
  have whole : ∀ {domain : List Char}, suffixOf domain = some suffix → domain = '*' :: '.' :: suffix := by
    intro domain isSuffix
    unfold suffixOf at isSuffix
    split at isSuffix
    · rw [Option.some.inj isSuffix]
    · cases isSuffix
  rw [whole isSuffix, whole alsoSuffix]

namespace VhostTable

variable {t after : VhostTable} {route other : VhostRoute} {routes : List VhostRoute} {domain otherDomain : List Char}

theorem listed_list : (t.list domain routes).listed otherDomain =
    if otherDomain = domain then some routes else t.listed otherDomain := by
  by_cases same : otherDomain = domain
  · subst same
    rw [if_pos rfl, listed, list]
    cases suffixOf otherDomain <;> simp
  · rw [if_neg same, listed, listed, list]
    cases isOther : suffixOf otherDomain with
    | none =>
      cases suffixOf domain with
      | none => simp [AList.lookup_insert_ne same]
      | some suffix => rfl
    | some otherSuffix =>
      cases isSuffix : suffixOf domain with
      | none => rfl
      | some suffix =>
        have different : otherSuffix ≠ suffix := by
          rintro rfl
          exact same (suffixOf_inj isOther isSuffix)
        simp [AList.lookup_insert_ne different]

theorem register_eq_ok_iff : t.register route = .ok after ↔
    ¬t.Clashes route ∧ t.list route.domain (route.enlist ((t.listed route.domain).getD [])) = after := by
  by_cases clashes : t.Clashes route <;> simp [register, clashes]

theorem clashes_of_register (isAfter : t.register route = .ok after) (same : route.SameProxy other) :
    after.Clashes other ↔ t.Clashes other := by
  obtain ⟨-, rfl⟩ := register_eq_ok_iff.mp isAfter
  rw [Clashes, Clashes, listed_list]
  split
  next sameDomain =>
    rw [sameDomain, Option.getD_some]
    exact VhostRoute.clashes_enlist_iff same
  · rfl

theorem entered_of_register (isAfter : t.register route = .ok after) (one : VhostRoute.OneProxy (route :: routes)) :
    after.entered routes = t.entered routes := by
  have agree : ∀ other ∈ routes, after.Clashes other ↔ t.Clashes other := fun other isOther =>
    clashes_of_register isAfter (one.sameProxy route List.mem_cons_self other (List.mem_cons_of_mem _ isOther))
  clear isAfter one
  induction routes with
  | nil => rfl
  | cons head rest ih =>
    have isRest := ih fun other isOther => agree other (List.mem_cons_of_mem _ isOther)
    have isHead := agree head List.mem_cons_self
    rw [entered, entered] at isRest ⊢
    by_cases clashes : t.Clashes head
    · simp [isHead, clashes]
    · rw [List.takeWhile_cons_of_pos (by simpa [isHead] using clashes),
        List.takeWhile_cons_of_pos (by simpa using clashes), isRest]

theorem lookup_prune (stays : VhostRoute → Bool) (map : AList fun _ : List Char => List VhostRoute) (key : List Char) :
    (prune stays map).lookup key = ((map.lookup key).map (List.filter stays)).filter (· ≠ []) := by
  rw [prune, lookup_retain, lookup_mapValues]

theorem stays_of_lookup_prune {stays : VhostRoute → Bool} {map : AList fun _ : List Char => List VhostRoute}
    {key : List Char} (found : (prune stays map).lookup key = some routes) (isRoute : route ∈ routes) : stays route := by
  rw [lookup_prune] at found
  obtain ⟨isMapped, -⟩ := Option.filter_eq_some_iff.mp found
  obtain ⟨old, -, rfl⟩ := Option.map_eq_some_iff.mp isMapped
  exact (List.mem_filter.mp isRoute).2

theorem not_of_has_removeProxy {client : Nat} {proxyName : List Char} (has : (t.removeProxy client proxyName).Has route) :
    ¬(route.client = client ∧ route.proxyName = proxyName) := by
  rcases has with ⟨key, routes, found, isRoute⟩ | ⟨key, routes, found, isRoute⟩
  · exact of_decide_eq_true (stays_of_lookup_prune found isRoute)
  · exact of_decide_eq_true (stays_of_lookup_prune found isRoute)

theorem client_ne_of_has_unregisterClient {client : Nat} (has : (t.unregisterClient client).Has route) :
    route.client ≠ client := by
  rcases has with ⟨key, routes, found, isRoute⟩ | ⟨key, routes, found, isRoute⟩
  · exact of_decide_eq_true (stays_of_lookup_prune found isRoute)
  · exact of_decide_eq_true (stays_of_lookup_prune found isRoute)

theorem listed_registerAll (one : VhostRoute.OneProxy routes) (domain : List Char) :
    (∃ route ∈ t.entered routes, route.domain = domain ∧
        (t.registerAll routes).1.listed domain = some (route.enlist ((t.listed domain).getD []))) ∨
      (∀ route ∈ t.entered routes, route.domain ≠ domain) ∧ (t.registerAll routes).1.listed domain = t.listed domain := by
  induction routes generalizing t with
  | nil => exact .inr ⟨nofun, rfl⟩
  | cons head rest ih =>
    rw [registerAll]
    cases registered : t.register head with
    | error reason =>
      have clashes : t.Clashes head := by
        by_contra free
        rw [register, if_neg free] at registered
        cases registered
      refine .inr ⟨?_, rfl⟩
      simp [entered, clashes]
    | ok after =>
      obtain ⟨free, isAfter⟩ := register_eq_ok_iff.mp registered
      have listedAfter : after.listed domain =
          if domain = head.domain then some (head.enlist ((t.listed head.domain).getD [])) else t.listed domain := by
        rw [← isAfter, listed_list]
      have splits : t.entered (head :: rest) = head :: after.entered rest := by
        rw [entered_of_register registered one, entered, List.takeWhile_cons_of_pos (by simpa using free)]
        rfl
      rw [splits]
      dsimp only
      rcases @ih after one.tail with ⟨route, isEntered, isDomain, isListed⟩ | ⟨elsewhere, isListed⟩
      · refine .inl ⟨route, List.mem_cons_of_mem _ isEntered, isDomain, ?_⟩
        rw [isListed, listedAfter]
        split
        next sameDomain =>
          have isRest : route ∈ rest := (List.takeWhile_sublist _).subset isEntered
          have same : route = head :=
            one.oneEach route (List.mem_cons_of_mem _ isRest) head List.mem_cons_self (isDomain.trans sameDomain)
          rw [same, Option.getD_some, VhostRoute.enlist_enlist, sameDomain]
        · rfl
      · by_cases sameDomain : domain = head.domain
        · refine .inl ⟨head, List.mem_cons_self, sameDomain.symm, ?_⟩
          rw [isListed, listedAfter, if_pos sameDomain, sameDomain]
        · refine .inr ⟨?_, by rw [isListed, listedAfter, if_neg sameDomain]⟩
          intro route isEntered
          rcases List.mem_cons.mp isEntered with rfl | isEntered
          · exact fun same => sameDomain same.symm
          · exact elsewhere route isEntered

theorem listed_registerAll_eq_iff (one : VhostRoute.OneProxy routes) :
    (t.registerAll routes).1.listed = t.listed ↔ ∀ route ∈ t.entered routes, t.Stands route := by
  constructor
  · intro same route isEntered
    rcases @listed_registerAll t routes one route.domain with ⟨other, isOther, sameDomain, isListed⟩ | ⟨elsewhere, -⟩
    · have isRoute : other = route := one.oneEach other ((List.takeWhile_sublist _).subset isOther) route
        ((List.takeWhile_sublist _).subset isEntered) sameDomain
      rw [isRoute] at isListed
      exact (congrFun same route.domain).symm.trans isListed
    · exact absurd rfl (elsewhere route isEntered)
  · intro stands
    funext domain
    rcases @listed_registerAll t routes one domain with ⟨route, isEntered, rfl, isListed⟩ | ⟨-, isListed⟩
    · exact isListed.trans (stands route isEntered).symm
    · exact isListed

end VhostTable

structure VisitorEntry where
  proxyName : String
  secretKey : String
  allowUsers : List String
  providerUser : String
  client : Nat
  proxyType : String
  deriving DecidableEq, Repr

abbrev VisitorTable := String → Option VisitorEntry

namespace VisitorTable

def register (t : VisitorTable) (entry : VisitorEntry) : Except String VisitorTable :=
  match t entry.proxyName with
  | some _ => .error ("custom listener for [" ++ entry.proxyName ++ "] is repeated")
  | none => .ok (Function.update t entry.proxyName (some entry))

def remove (t : VisitorTable) (client : Nat) (name : String) : VisitorTable :=
  Function.update t name ((t name).filter (·.client ≠ client))

def unregisterClient (t : VisitorTable) (client : Nat) : VisitorTable :=
  fun name => (t name).filter (·.client ≠ client)

end VisitorTable

end Nfrp
