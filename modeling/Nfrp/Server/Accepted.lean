import Nfrp.Server.Lookup

/-!
# What is accepted is found

A domain that a client registers is the name under which its routes are looked up, and a
star in it stands for one label or more.
-/

namespace Nfrp

open Lib Nfrp.Client

section Text

variable {text front back label suffix : List Char} {p : Char → Bool}

theorem isWhitespace_toLower (c : Char) : isWhitespace c.toLower = isWhitespace c := by
  simp only [isWhitespace, toNat_toLower]
  split <;> grind

theorem dropWhile_append_cons {c : Char} (stops : p c = false) (label rest : List Char) :
    (label ++ c :: rest).dropWhile p = label.dropWhile p ++ c :: rest := by
  induction label with
  | nil => simp [stops]
  | cons head tail ih =>
    by_cases passes : p head <;> simp [passes, ih]

theorem rdropWhile_append (solid : back.rdropWhile p = back) (some : back ≠ []) :
    (front ++ back).rdropWhile p = front ++ back := by
  rw [List.rdropWhile_eq_self_iff] at solid ⊢
  intro _
  rw [List.getLast_append_of_ne_nil _ some]
  exact solid some

/-- There is no blank around it, and no capital in it. -/
structure Settled (text : List Char) : Prop where
  front : text.dropWhile isWhitespace = text
  back : text.rdropWhile isWhitespace = text
  small : text.map Char.toLower = text

theorem dropWhile_of_front (solid : (front ++ back).dropWhile p = front ++ back) : front.dropWhile p = front := by
  cases front with
  | nil => rfl
  | cons head tail =>
    cases passes : p head with
    | false => simp [passes]
    | true =>
      have shorter : ((tail ++ back).dropWhile p).length ≤ (tail ++ back).length :=
        (List.dropWhile_sublist p).length_le
      rw [List.cons_append, List.dropWhile_cons_of_pos passes] at solid
      simp [solid] at shorter

theorem settled_trimmed (text : List Char) : Settled ((trimmed text).map Char.toLower) := by
  have sameBlank : isWhitespace ∘ Char.toLower = isWhitespace := funext isWhitespace_toLower
  have front : (trimmed text).dropWhile isWhitespace = trimmed text := by
    obtain ⟨after, whole⟩ := List.rdropWhile_prefix isWhitespace (text.dropWhile isWhitespace)
    have idle : (trimmed text ++ after).dropWhile isWhitespace = trimmed text ++ after := by
      rw [trimmed, whole]
      exact List.dropWhile_idempotent _ _
    exact dropWhile_of_front idle
  have back : (trimmed text).rdropWhile isWhitespace = trimmed text := List.rdropWhile_idempotent _ _
  constructor
  · rw [List.dropWhile_map, sameBlank, front]
  · rw [List.rdropWhile, ← List.map_reverse, List.dropWhile_map, sameBlank, ← List.map_reverse]
    exact congrArg _ back
  · rw [List.map_map]
    exact List.map_congr_left fun c _ => toLower_toLower c

theorem Settled.join (first : Settled front) (second : Settled back) : Settled (front ++ '.' :: back) where
  front := by rw [dropWhile_append_cons rfl, first.front]
  back := by
    have solid : ('.' :: back).rdropWhile isWhitespace = '.' :: back := by
      cases back with
      | nil => rfl
      | cons c rest => exact @rdropWhile_append ['.'] _ _ second.back (List.cons_ne_nil _ _)
    exact rdropWhile_append solid (List.cons_ne_nil _ _)
  small := by
    rw [List.map_append, List.map_cons, first.small, second.small]
    rfl

theorem normalHost_of_settled (settled : Settled text) (noDot : text.rdropWhile (· == '.') = text) :
    normalHost text = text := by
  rw [normalHost, trimmed, settled.front, settled.back, noDot, settled.small]

theorem rdropWhile_dot_iff : text.rdropWhile (· == '.') = text ↔ text.getLast? ≠ some '.' := by
  rw [List.rdropWhile_eq_self_iff]
  cases text using List.reverseRecOn with
  | nil => simp
  | append_singleton front last => simp

theorem settled_vhostDomains {cfg : ServerConfig} {m : NewProxy} {kind : VhostKind} {domains : List String}
    (isDomains : vhostDomains cfg m kind = .ok domains) : ∀ domain ∈ domains, Settled domain.toList := by
  have lowered (s : String) : (toAsciiLowercase (trim s)).toList = (trimmed s.toList).map Char.toLower := by
    simp [toAsciiLowercase, trim]
  have custom : ∀ domain ∈ (m.customDomains.map fun domain => toAsciiLowercase (trim domain)).filter (· ≠ ""),
      Settled domain.toList := by
    intro domain isCustom
    obtain ⟨asked, -, rfl⟩ := List.mem_map.mp (List.mem_of_mem_filter isCustom)
    rw [lowered]
    exact settled_trimmed _
  have joined : Settled (toAsciiLowercase (trim m.subdomain) ++ "." ++ toAsciiLowercase (trim cfg.subdomainHost)).toList := by
    rw [String.toList_append, String.toList_append, lowered, lowered, List.append_assoc]
    exact (settled_trimmed _).join (settled_trimmed _)
  unfold vhostDomains at isDomains
  split_ifs at isDomains
  · dsimp only at isDomains
    split_ifs at isDomains
    obtain rfl := Except.ok.inj isDomains
    exact custom
  · dsimp only at isDomains
    split_ifs at isDomains
    obtain rfl := Except.ok.inj isDomains
    exact List.forall_mem_append.mpr ⟨custom, List.forall_mem_singleton.mpr joined⟩

theorem normalHost_starred (settled : Settled (VhostTable.starred suffix)) (noDot : suffix.getLast? ≠ some '.')
    (some : suffix ≠ []) (label : List Char) :
    normalHost (label ++ '.' :: suffix) = (label.dropWhile isWhitespace).map Char.toLower ++ '.' :: suffix := by
  have solid : suffix.rdropWhile isWhitespace = suffix := by
    have last := List.rdropWhile_eq_self_iff.mp settled.back (List.cons_ne_nil _ _)
    refine List.rdropWhile_eq_self_iff.mpr fun _ => ?_
    unfold VhostTable.starred at last
    rwa [List.getLast_cons_cons, List.getLast_cons some] at last
  have small : suffix.map Char.toLower = suffix := by
    have all := settled.small
    simp only [VhostTable.starred, List.map_cons, List.cons.injEq] at all
    exact all.2.2
  have whole : label.dropWhile isWhitespace ++ '.' :: suffix = (label.dropWhile isWhitespace ++ ['.']) ++ suffix := by simp
  rw [normalHost, trimmed, dropWhile_append_cons rfl, whole, rdropWhile_append solid some,
    rdropWhile_append (rdropWhile_dot_iff.mpr noDot) some, List.map_append, List.map_append, small, List.append_assoc]
  rfl

end Text

namespace VhostTable

def StandsFor (domain host : List Char) : Prop :=
  match suffixOf domain with
  | some suffix => ∃ label, '.' ∉ label ∧ host = label ++ '.' :: suffix
  | none => if domain = ['*'] then '.' ∉ host else host = domain

/-- It does not end in a dot, and two labels at least follow a star. -/
def Plain (domain : List Char) : Prop :=
  domain.getLast? ≠ some '.' ∧ ∀ suffix, suffixOf domain = some suffix → '.' ∈ suffix

section Levels

variable {label suffix host domain : List Char}

theorem wildcards_label (alone : '.' ∉ host) : wildcards host = [] := by
  simp [wildcards, List.splitOn_eq_singleton alone]

theorem wildcards_cons (alone : '.' ∉ label) (dotted : '.' ∈ suffix) :
    ∃ rest, wildcards (label ++ '.' :: suffix) = suffix :: rest := by
  have parts : (label ++ '.' :: suffix).splitOn '.' = label :: suffix.splitOn '.' :=
    List.splitOn_append_cons_self_of_not_mem alone suffix
  obtain ⟨front, back, isSuffix⟩ := List.append_of_mem dotted
  have more : 2 ≤ (suffix.splitOn '.').length := by
    rw [isSuffix, List.splitOn_append_cons_self, List.length_append]
    have some := List.length_pos_iff.mpr (List.splitOn_ne_nil '.' front)
    have someMore := List.length_pos_iff.mpr (List.splitOn_ne_nil '.' back)
    omega
  obtain ⟨count, isCount⟩ := Nat.exists_eq_add_of_le more
  have first : (label :: suffix.splitOn '.').length - 2 = count + 1 := by
    rw [List.length_cons, isCount]
    omega
  unfold wildcards
  rw [parts]
  dsimp only
  rw [first, List.range'_succ, List.map_cons, List.drop_one, List.tail_cons, List.intercalate_splitOn]
  exact ⟨_, rfl⟩

theorem suffixOf_eq_some_iff : suffixOf domain = some suffix ↔ domain = starred suffix := by
  unfold suffixOf starred
  split
  · simp
  next other => exact ⟨nofun, fun same => absurd same (other suffix)⟩

theorem eq_star_of_starred {other : List Char} (alone : '.' ∉ label) (same : label ++ '.' :: suffix = starred other) :
    label = ['*'] := by
  unfold starred at same
  cases label with
  | nil => simp at same
  | cons c rest =>
    obtain ⟨rfl, isRest⟩ := List.cons.inj same
    cases rest with
    | nil => rfl
    | cons d rest =>
      obtain ⟨rfl, -⟩ := List.cons.inj isRest
      simp at alone

theorem not_mem_normalHost (alone : '.' ∉ host) : '.' ∉ normalHost host := by
  intro member
  obtain ⟨c, isC, lower⟩ := List.mem_map.mp member
  obtain rfl := (toLower_eq_iff (by decide)).mp lower
  have inTrimmed := (List.rdropWhile_prefix _ _).subset isC
  have inFront := (List.rdropWhile_prefix _ _).subset inTrimmed
  exact alone ((List.dropWhile_sublist _).subset inFront)

/-- Only the host itself comes before a domain that stands for it. -/
theorem levels_of_standsFor (settled : Settled domain) (plain : Plain domain) (stands : StandsFor domain host) :
    (∃ after, normalHost host ≠ domain ∧
        levels (wildcards (normalHost host)) (normalHost host) = normalHost host :: domain :: after) ∨
      ∃ after, normalHost host = domain ∧
        levels (wildcards (normalHost host)) (normalHost host) = domain :: after := by
  unfold StandsFor at stands
  split at stands
  next suffix isStarred =>
    obtain ⟨label, alone, rfl⟩ := stands
    have dotted := plain.2 suffix isStarred
    obtain rfl := suffixOf_eq_some_iff.mp isStarred
    have some : suffix ≠ [] := List.ne_nil_of_mem dotted
    have noDot : suffix.getLast? ≠ Option.some '.' := by
      have last := plain.1
      obtain ⟨c, rest, rfl⟩ := List.exists_cons_of_ne_nil some
      simpa [starred] using last
    rw [normalHost_starred settled noDot some]
    generalize isLabel : (label.dropWhile isWhitespace).map Char.toLower = front
    have stillAlone : '.' ∉ front := by
      rw [← isLabel]
      intro member
      obtain ⟨c, isC, lower⟩ := List.mem_map.mp member
      obtain rfl := (toLower_eq_iff (by decide)).mp lower
      exact alone ((List.dropWhile_sublist _).subset isC)
    obtain ⟨rest, isWildcards⟩ := wildcards_cons stillAlone dotted
    rw [levels, isWildcards]
    split
    next isWhole =>
      refine .inl ⟨_, fun same => ?_, rfl⟩
      rw [same, isStarred] at isWhole
      cases isWhole
    next notWhole =>
      refine .inr ⟨_, ?_, rfl⟩
      obtain ⟨other, isOther⟩ := Option.ne_none_iff_exists'.mp notWhole
      have same := suffixOf_eq_some_iff.mp isOther
      rw [eq_star_of_starred stillAlone same]
      rfl
  next isWhole =>
    split at stands
    next isStar =>
      have alone := not_mem_normalHost stands
      have whole : suffixOf (normalHost host) = none := by
        by_contra notWhole
        obtain ⟨other, isOther⟩ := Option.ne_none_iff_exists'.mp notWhole
        rw [suffixOf_eq_some_iff.mp isOther] at alone
        exact alone (by simp [starred])
      rw [levels, if_pos whole, wildcards_label alone, isStar]
      by_cases same : normalHost host = ['*']
      · exact .inr ⟨_, same, by rw [same]; rfl⟩
      · exact .inl ⟨_, same, rfl⟩
    next =>
      subst stands
      rw [normalHost_of_settled settled (rdropWhile_dot_iff.mpr plain.1), levels, if_pos isWhole]
      exact .inr ⟨_, rfl, rfl⟩

end Levels

/-- An exact domain that the host is, and that takes the request, comes before a star. -/
def Shadowed (t : VhostTable) (path : List Char) (authUser : Option (List Char)) (kind : VhostKind)
    (host domain : List Char) : Prop :=
  normalHost host ≠ domain ∧ ∃ exactUser other, t.Takes path authUser kind (normalHost host) exactUser other

section Registered

variable {t : VhostTable} {route : VhostRoute} {routes : List VhostRoute}

theorem Proper.registerAll (proper : t.Proper) : (t.registerAll routes).1.Proper := by
  induction routes generalizing t with
  | nil => exact proper
  | cons head rest ih =>
    rw [VhostTable.registerAll]
    cases isAfter : t.register head with
    | error => exact proper
    | ok after => exact ih (proper.register isAfter)

theorem entered_of_registerAll (one : VhostRoute.OneProxy routes) (accepted : (t.registerAll routes).2 = .ok ()) :
    t.entered routes = routes := by
  induction routes generalizing t with
  | nil => rfl
  | cons head rest ih =>
    rw [VhostTable.registerAll] at accepted
    cases isAfter : t.register head with
    | error =>
      rw [isAfter] at accepted
      cases accepted
    | ok after =>
      rw [isAfter] at accepted
      obtain ⟨free, -⟩ := register_eq_ok_iff.mp isAfter
      have isRest := ih one.tail accepted
      rw [entered_of_register isAfter one] at isRest
      rw [entered, List.takeWhile_cons_of_pos (by simpa using free)]
      exact congrArg _ isRest

theorem has_registerAll (one : VhostRoute.OneProxy routes) (accepted : (t.registerAll routes).2 = .ok ())
    (isRoute : route ∈ routes) : (t.registerAll routes).1.Has route := by
  have entered := entered_of_registerAll one accepted
  rcases @listed_registerAll t routes one route.domain with ⟨other, isOther, sameDomain, isListed⟩ | ⟨elsewhere, -⟩
  · rw [entered] at isOther
    obtain rfl := one.oneEach other isOther route isRoute sameDomain
    have isThere : other ∈ ((t.registerAll routes).1.listed other.domain).getD [] := by
      rw [isListed, Option.getD_some]
      exact VhostRoute.mem_enlist.mpr (.inr rfl)
    exact has_of_listed isThere
  · rw [entered] at elsewhere
    exact absurd rfl (elsewhere route isRoute)

/-- A route that stands in the table is found under each of its locations and for its user,
unless another stands for the host alone. -/
theorem lookup_eq_iff_not_shadowed (proper : t.Proper) (has : t.Has route) (settled : Settled route.domain)
    (plain : Plain route.domain) {host location : List Char} {authUser : Option (List Char)}
    (stands : StandsFor route.domain host) (isLocation : location ∈ route.locations)
    (isUser : authUser.getD [] = route.routeByHttpUser) :
    t.lookup host location authUser route.kind = some (route, location) ↔
      ¬t.Shadowed location authUser route.kind host route.domain := by
  have best : ∃ exactUser, t.Takes location authUser route.kind route.domain exactUser (route, location) ∧
      (exactUser = false → ∀ other, ¬t.Takes location authUser route.kind route.domain true other) ∧
      ∀ other, t.Takes location authUser route.kind route.domain exactUser other →
        other.2.length ≤ (route, location).2.length := by
    have takes (exactUser : Bool) (serves : route.serves authUser exactUser) :
        t.Takes location authUser route.kind route.domain exactUser (route, location) :=
      ⟨has, rfl, rfl, serves, isLocation, List.prefix_refl location⟩
    by_cases everyone : route.routeByHttpUser = []
    · refine ⟨false, takes false (by simp [VhostRoute.serves, everyone]), fun _ other isTaken => ?_,
        fun other isTaken => isTaken.under.length_le⟩
      have serves := isTaken.serves
      simp_all [VhostRoute.serves]
    · exact ⟨true, takes true (by simp [VhostRoute.serves, everyone, isUser]), by rintro ⟨⟩,
        fun other isTaken => isTaken.under.length_le⟩
  rw [lookup_eq_some_iff_chosen proper]
  rcases levels_of_standsFor settled plain stands with ⟨after, differs, isLevels⟩ | ⟨after, same, isLevels⟩
  · rw [isLevels]
    constructor
    · rintro ⟨⟨before, later, splits, noneBefore⟩, -⟩ ⟨-, exactUser, other, isTaken⟩
      cases before with
      | nil => exact differs (List.cons.inj splits).1
      | cons first rest =>
        obtain ⟨rfl, -⟩ := List.cons.inj splits
        exact noneBefore _ List.mem_cons_self exactUser other isTaken
    · intro clear
      refine ⟨⟨[normalHost host], after, rfl, fun domain isBefore exactUser other isTaken => ?_⟩, best⟩
      rw [List.mem_singleton.mp isBefore] at isTaken
      exact clear ⟨differs, exactUser, other, isTaken⟩
  · rw [isLevels]
    exact iff_of_true ⟨⟨[], after, rfl, List.forall_mem_nil _⟩, best⟩ fun shadowed => shadowed.1 same

end Registered

def Reached (t : VhostTable) (route : VhostRoute) : Prop :=
  ∀ host location authUser, StandsFor route.domain host → location ∈ route.locations →
    authUser.getD [] = route.routeByHttpUser →
      t.lookup host location authUser route.kind = some (route, location)

/-- Requests for the route are led to it, or to a route for the host alone. -/
def ReachedUnlessShadowed (t : VhostTable) (route : VhostRoute) : Prop :=
  Plain route.domain → ∀ host location authUser, StandsFor route.domain host → location ∈ route.locations →
    authUser.getD [] = route.routeByHttpUser →
      (t.lookup host location authUser route.kind = some (route, location) ↔
        ¬t.Shadowed location authUser route.kind host route.domain)

end VhostTable

/-- Once a proxy is accepted there is a route for each of its domains, and it is reached for
as long as it stands in the table. -/
def Tables.AcceptedReached (reached : VhostTable → VhostRoute → Prop) (cfg : ServerConfig) (client : Nat) (m : NewProxy)
    (kind : VhostKind) (t : Tables) : Prop :=
  ∀ t' addr, t.registerVhost cfg client m kind = (t', .ok addr) →
    ∃ domains after, vhostDomains cfg m kind = .ok domains ∧ t'.vhosts = some after ∧
      ∀ domain ∈ domains, after.Has (vhostRoute client m kind domain) ∧
        ∀ later, (run VhostTable.step after later).Has (vhostRoute client m kind domain) →
          reached (run VhostTable.step after later) (vhostRoute client m kind domain)

namespace Tables

variable {cfg : ServerConfig} {client : Nat} {m : NewProxy} {kind : VhostKind} {t : Tables}

theorem accepted_reached {events : List VhostTable.Event}
    (isTable : t.vhosts = some (run VhostTable.step VhostTable.empty events)) :
    t.AcceptedReached VhostTable.ReachedUnlessShadowed cfg client m kind := by
  intro t' addr accepted
  rw [registerVhost] at accepted
  cases isRequest : vhostRequest cfg m kind t.vhosts with
  | error e =>
    rw [isRequest] at accepted
    cases (Prod.mk.inj accepted).2
  | ok request =>
    obtain ⟨port, table, domains⟩ := request
    rw [isRequest] at accepted
    dsimp only at accepted
    obtain ⟨sameTable, isDomains⟩ := of_vhostRequest isRequest
    have proper : table.Proper := by
      rw [isTable] at sameTable
      rw [← Option.some.inj sameTable]
      exact VhostTable.proper_run events
    have one := oneProxy_vhostRoutes client m kind domains
    split at accepted
    · cases (Prod.mk.inj accepted).2
    next after isAfter =>
      obtain ⟨rfl, -⟩ := Prod.mk.inj accepted
      have isOk := congrArg Prod.snd isAfter
      have isTableAfter := congrArg Prod.fst isAfter
      dsimp only at isOk isTableAfter
      have properAfter : after.Proper := isTableAfter ▸ proper.registerAll
      refine ⟨domains, after, isDomains, rfl, fun domain isDomain => ⟨?_, fun later stands plain => ?_⟩⟩
      · rw [← isTableAfter]
        exact VhostTable.has_registerAll one isOk (List.mem_map_of_mem isDomain)
      · intro host location authUser standsFor isLocation isUser
        have preserved (t : VhostTable) (event : VhostTable.Event) (proper : t.Proper) := proper.step event
        have properLater := run_invariant preserved properAfter later
        exact VhostTable.lookup_eq_iff_not_shadowed properLater stands (settled_vhostDomains isDomains domain isDomain)
          plain standsFor isLocation isUser

theorem accepted_reached_shop : shopTables.AcceptedReached VhostTable.ReachedUnlessShadowed shopConfig 0
    (shopProxy "http" 0 ["*.example.com"]) .http :=
  @accepted_reached shopConfig 0 (shopProxy "http" 0 ["*.example.com"]) .http shopTables [] rfl

def shopRoute (client : Nat) (domain : String) : VhostRoute := vhostRoute client (shopProxy "http" 0 [domain]) .http domain

theorem reached_shop {domain addr : String} {t' : Tables} {after : VhostTable} {later : List VhostTable.Event}
    (all : shopTables.AcceptedReached VhostTable.Reached shopConfig 0 (shopProxy "http" 0 [domain]) .http)
    (accepted : shopTables.registerVhost shopConfig 0 (shopProxy "http" 0 [domain]) .http = (t', .ok addr))
    (isDomains : vhostDomains shopConfig (shopProxy "http" 0 [domain]) .http = .ok [domain])
    (isAfter : t'.vhosts = some after)
    (isListed : shopRoute 0 domain ∈ (run VhostTable.step after later).routes domain.toList) :
    (run VhostTable.step after later).Reached (shopRoute 0 domain) := by
  obtain ⟨domains, others, alsoDomains, alsoAfter, each⟩ := all t' addr accepted
  rw [isDomains] at alsoDomains
  rw [isAfter] at alsoAfter
  obtain rfl := Except.ok.inj alsoDomains
  obtain rfl := Option.some.inj alsoAfter
  exact (each domain List.mem_cons_self).2 later (VhostTable.has_of_listed isListed)

/-- A star before a single label is accepted and stands for nothing, a domain that ends in a
dot is accepted and never looked up, and a route for the host alone comes before a star. -/
theorem not_accepted_reached_shop :
    ¬shopTables.AcceptedReached VhostTable.Reached shopConfig 0 (shopProxy "http" 0 ["*.com"]) .http ∧
    ¬shopTables.AcceptedReached VhostTable.Reached shopConfig 0 (shopProxy "http" 0 ["example.com."]) .http ∧
    ¬shopTables.AcceptedReached VhostTable.Reached shopConfig 0 (shopProxy "http" 0 ["*.example.com"]) .http := by
  refine ⟨fun all => ?_, fun all => ?_, fun all => ?_⟩
  · have reached : (run VhostTable.step (VhostTable.empty.step (.register (shopRoute 0 "*.com"))) []).Reached
        (shopRoute 0 "*.com") := reached_shop all rfl rfl rfl (by decide +kernel)
    have found := reached "example.com".toList ['/'] none ⟨"example".toList, by decide, rfl⟩ (by decide) rfl
    revert found
    decide +kernel
  · have reached : (run VhostTable.step (VhostTable.empty.step (.register (shopRoute 0 "example.com."))) []).Reached
        (shopRoute 0 "example.com.") := reached_shop all rfl rfl rfl (by decide +kernel)
    have found := reached "example.com.".toList ['/'] none rfl (by decide) rfl
    revert found
    decide +kernel
  · have reached : (run VhostTable.step (VhostTable.empty.step (.register (shopRoute 0 "*.example.com")))
        [.register (shopRoute 1 "www.example.com")]).Reached (shopRoute 0 "*.example.com") :=
      reached_shop all rfl rfl rfl (by decide +kernel)
    have found := reached "www.example.com".toList ['/'] none ⟨"www".toList, by decide, rfl⟩ (by decide) rfl
    revert found
    decide +kernel

end Tables

end Nfrp
