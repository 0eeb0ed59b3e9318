import Mathlib.Data.String.Basic
import Nfrp.Lib.Framing
import Nfrp.Lib.Numerals
import Nfrp.Lib.Url

/-!
# Lists by the API

Every request goes through the tables in whatever order they have then, keeps what the
filters let through, sorts it and cuts a page out of it.  The pages fit together where
nothing of it sorts alike.
-/

namespace Nfrp.ApiV2

open Lib

abbrev Query := String → Option String

structure ApiError where
  status : Nat
  code : String
  message : String
  deriving DecidableEq, Repr

def badRequest (message : String) : ApiError where
  status := 400
  code := "bad_request"
  message

structure Page where
  page : Nat := 1
  size : Nat := 20
  deriving DecidableEq, Repr

def maxPageSize : Nat := 500

def wordMax : Nat := 2 ^ 64 - 1

namespace Page

def offset (p : Page) : Nat := min ((p.page - 1) * p.size) wordMax

def totalPages (p : Page) (total : Nat) : Nat :=
  if p.size = 0 then 1 else max ((total + p.size - 1) / p.size) 1

-- How a text is shown between quotation marks.
variable (shown : List Char → String)

/-- A positive number, or the default where the text is blank or missing. -/
def positive (name zero : String) (default : Nat) (value : Option String) : Except ApiError Nat :=
  let t := (value.map fun v => trimmed v.toList).getD []
  if t = [] then .ok default
  else
    match parseUnsigned wordMax t with
    | none => .error (badRequest s!"{name} 必须是正整数，收到 {shown t}")
    | some n => if n = 0 then .error (badRequest zero) else .ok n

def fromQuery (q : Query) : Except ApiError Page := do
  let page ← positive shown "page" "page 从 1 开始" 1 (q "page")
  let size ← positive shown "page_size" "page_size 必须大于 0" 20 ((q "page_size").or (q "pageSize"))
  if maxPageSize < size then .error (badRequest s!"page_size 最大 {maxPageSize}，收到 {size}")
  else .ok { page, size }

end Page

structure ListResponse (Item : Type) where
  data : List Item
  page : Nat
  pageSize : Nat
  total : Nat
  totalPages : Nat
  deriving DecidableEq, Repr

def listResponse {Item : Type} (all : List Item) (page : Page) : ListResponse Item where
  data := (all.drop page.offset).take page.size
  page := page.page
  pageSize := page.size
  total := all.length
  totalPages := page.totalPages all.length

def hasFilter (q : Query) : Bool :=
  ["user", "client", "q", "kind", "ok"].any fun k => (q k).any fun v => trimmed v.toList ≠ []

def wantsAll (q : Query) : Bool :=
  (q "all").any fun v => (trimmed v.toList).map Char.toLower ∈ ["1".toList, "true".toList, "yes".toList]

def enumerationRefused (what : String) : ApiError :=
  badRequest s!"{what} 的全量枚举需要显式确认：请加过滤条件（?user= / ?client= / ?q=），或显式写 ?all=1 表明你要导出全平台数据。\n注意：面板凭据在全平台范围内有效，默认配置下没有租户隔离。"

def requireExplicitEnumeration (q : Query) (what : String) : Except ApiError Unit :=
  if hasFilter q then .ok ()
  else if wantsAll q then .ok ()
  else .error (enumerationRefused what)

structure ClientInfo where
  runId : String
  clientId : String
  user : String
  proxies : List String
  backlog : Nat
  idleWorkConns : Nat
  managed : Bool
  deriving DecidableEq, Repr

structure VisitorInfo where
  proxyName : String
  proxyType : String
  providerUser : String
  allowUsers : List String
  clientId : String
  deriving DecidableEq, Repr

structure ClientItem where
  runId : String
  clientId : String
  user : String
  proxies : Nat
  proxyNames : List String
  backlog : Nat
  idleWorkConns : Nat
  managed : Bool
  deriving DecidableEq, Repr

structure ProxyItem where
  name : String
  user : String
  clientId : String
  runId : String
  deriving DecidableEq, Repr

def ClientInfo.item (c : ClientInfo) : ClientItem where
  runId := c.runId
  clientId := c.clientId
  user := c.user
  proxies := c.proxies.length
  proxyNames := c.proxies
  backlog := c.backlog
  idleWorkConns := c.idleWorkConns
  managed := c.managed

def ClientInfo.proxy (c : ClientInfo) (name : String) : ProxyItem where
  name
  user := c.user
  clientId := c.clientId
  runId := c.runId

def lower (text : String) : List Char := text.toList.map Char.toLower

/-- The text to look for, in small letters; none is empty. -/
def needle (q : Query) : List Char := ((q "q").map lower).getD []

def contains (text : String) (needle : List Char) : Prop := needle <:+: lower text

instance (text : String) (needle : List Char) : Decidable (contains text needle) :=
  inferInstanceAs (Decidable (needle <:+: lower text))

def clientMatches (q : Query) (c : ClientInfo) : Prop :=
  ((q "user").getD "" = "" ∨ c.user = (q "user").getD "") ∧
    (needle q = [] ∨ contains c.clientId (needle q) ∨ contains c.runId (needle q) ∨ contains c.user (needle q))

def clientServes (q : Query) (c : ClientInfo) : Prop :=
  ((q "user").getD "" = "" ∨ c.user = (q "user").getD "") ∧
    ((q "client").getD "" = "" ∨ c.runId = (q "client").getD "" ∨ c.clientId = (q "client").getD "")

def nameMatches (q : Query) (name : String) : Prop := needle q = [] ∨ contains name (needle q)

instance (q : Query) : DecidablePred (clientMatches q) := fun _ => inferInstanceAs (Decidable (_ ∧ _))

instance (q : Query) : DecidablePred (clientServes q) := fun _ => inferInstanceAs (Decidable (_ ∧ _))

instance (q : Query) : DecidablePred (nameMatches q) := fun _ => inferInstanceAs (Decidable (_ ∨ _))

def sortBy {Item : Type} (key : Item → String) (all : List Item) : List Item :=
  all.mergeSort fun a b => decide (key a ≤ key b)

def clientItems (q : Query) (clients : List ClientInfo) : List ClientItem :=
  (clients.filter fun c => clientMatches q c).map ClientInfo.item

def proxyItems (q : Query) (clients : List ClientInfo) : List ProxyItem :=
  (clients.filter fun c => clientServes q c).flatMap fun c =>
    (c.proxies.filter fun name => nameMatches q name).map c.proxy

def visitorItems (q : Query) (visitors : List VisitorInfo) : List VisitorInfo :=
  visitors.filter fun v => nameMatches q v.proxyName

section

variable (shown : List Char → String)

-- `clients` and `visitors` are in the order that the tables have at the time.
def clientsResponse (clients : List ClientInfo) (q : Query) : Except ApiError (ListResponse ClientItem) := do
  requireExplicitEnumeration q "/api/v2/clients"
  let page ← Page.fromQuery shown q
  return listResponse (sortBy ClientItem.runId (clientItems q clients)) page

def proxiesResponse (clients : List ClientInfo) (q : Query) : Except ApiError (ListResponse ProxyItem) := do
  requireExplicitEnumeration q "/api/v2/proxies"
  let page ← Page.fromQuery shown q
  return listResponse (sortBy ProxyItem.name (proxyItems q clients)) page

def visitorsResponse (visitors : List VisitorInfo) (q : Query) : Except ApiError (ListResponse VisitorInfo) := do
  requireExplicitEnumeration q "/api/v2/visitors"
  let page ← Page.fromQuery shown q
  return listResponse (sortBy VisitorInfo.proxyName (visitorItems q visitors)) page

end

section

variable {Item : Type} {key : Item → String}

theorem sortBy_perm (key : Item → String) (all : List Item) : (sortBy key all).Perm all :=
  List.mergeSort_perm _ _

/-- Where no two items sort alike, the order before does not matter. -/
theorem sortBy_eq {all other : List Item} (distinct : (all.map key).Nodup) (same : other.Perm all) :
    sortBy key other = sortBy key all := by
  have trans : ∀ a b c : Item, decide (key a ≤ key b) = true → decide (key b ≤ key c) = true → decide (key a ≤ key c) = true := by
    intro a b c first second
    rw [decide_eq_true_eq] at first second ⊢
    exact first.trans second
  have total : ∀ a b : Item, (decide (key a ≤ key b) || decide (key b ≤ key a)) = true := by
    intro a b
    rw [Bool.or_eq_true, decide_eq_true_eq, decide_eq_true_eq]
    exact le_total _ _
  refine List.Perm.eq_of_pairwise ?_ (List.pairwise_mergeSort trans total other) (List.pairwise_mergeSort trans total all)
    ((sortBy_perm key other).trans (same.trans (sortBy_perm key all).symm))
  intro a b inOther inAll first second
  rw [decide_eq_true_eq] at first second
  have inAllToo := same.subset ((sortBy_perm key other).subset inOther)
  exact List.inj_on_of_nodup_map distinct inAllToo ((sortBy_perm key all).subset inAll) (le_antisymm first second)

theorem flatMap_pages {all : List Item} (small : all.length ≤ wordMax) {size : Nat} (positive : 0 < size) :
    ((List.range (Page.totalPages { size } all.length)).flatMap fun i =>
      (listResponse all { page := i + 1, size }).data) = all := by
  have ceiling := Nat.lt_div_mul_add (a := all.length + size - 1) positive
  have covers : all.length ≤ Page.totalPages { size } all.length * size := by
    rw [Page.totalPages, if_neg (Nat.ne_of_gt positive)]
    have most : (all.length + size - 1) / size ≤ max ((all.length + size - 1) / size) 1 := Nat.le_max_left _ _
    have enough := Nat.mul_le_mul_right size most
    dsimp only
    omega
  have page : ∀ i, (listResponse all { page := i + 1, size }).data = (all.drop (i * size)).take size := by
    intro i
    rw [listResponse, Page.offset]
    dsimp only
    rw [Nat.add_sub_cancel]
    by_cases inside : i * size ≤ wordMax
    · rw [Nat.min_eq_left inside]
    · rw [Nat.min_eq_right (Nat.le_of_not_le inside), List.drop_eq_nil_of_le small,
        List.drop_eq_nil_of_le (small.trans (Nat.le_of_not_le inside))]
  simp only [page]
  rw [flatMap_take_drop]
  exact List.take_of_length_le covers

end

def collected {Item : Type} (respond : Nat → Except ApiError (ListResponse Item)) (pages : Nat) : List Item :=
  (List.range pages).flatMap fun i =>
    match respond (i + 1) with
    | .ok r => r.data
    | .error _ => []

/-- Every page is answered, all with the same number of pages, and together they hold the
items, each once. -/
structure Exact {Item : Type} (respond : Nat → Except ApiError (ListResponse Item)) (size : Nat) (items : List Item) :
    Prop where
  answered : ∀ k, 1 ≤ k → k ≤ Page.totalPages { size } items.length →
    ∃ r, respond k = .ok r ∧ r.page = k ∧ r.total = items.length ∧ r.totalPages = Page.totalPages { size } items.length
  once : (collected respond (Page.totalPages { size } items.length)).Nodup
  complete : ∀ item, item ∈ collected respond (Page.totalPages { size } items.length) ↔ item ∈ items

theorem totalPages_le {size total : Nat} (positive : 0 < size) (small : total ≤ wordMax) :
    Page.totalPages { size } total ≤ wordMax := by
  rw [Page.totalPages, if_neg (Nat.ne_of_gt positive)]
  have fewer : (total + size - 1) / size ≤ total := by
    rw [Nat.div_le_iff_le_mul_add_pred positive]
    have more := Nat.le_mul_of_pos_left total positive
    omega
  exact Nat.max_le.mpr ⟨fewer.trans small, by decide⟩

theorem exact_of_found {Item : Type} {key : Item → String} {items : List Item} (distinct : (items.map key).Nodup)
    (small : items.length ≤ wordMax) {size : Nat} (positive : 0 < size) {found : Nat → List Item}
    (same : ∀ k, (found k).Perm items) {respond : Nat → Except ApiError (ListResponse Item)}
    (responds : ∀ k, 1 ≤ k → k ≤ wordMax → respond k = .ok (listResponse (sortBy key (found k)) { page := k, size })) :
    Exact respond size items := by
  have sorted : ∀ k, sortBy key (found k) = sortBy key items := fun k => sortBy_eq distinct (same k)
  have sameLength := (sortBy_perm key items).length_eq
  have few := totalPages_le positive small
  have whole : collected respond (Page.totalPages { size } items.length) = sortBy key items := by
    have pages := @flatMap_pages _ (sortBy key items) (by rwa [sameLength]) size positive
    rw [sameLength] at pages
    rw [← pages, collected]
    apply List.flatMap_congr
    intro i member
    have isPage := List.mem_range.mp member
    rw [responds (i + 1) (Nat.le_add_left _ _) (by omega), sorted]
  refine ⟨?_, ?_, ?_⟩
  · intro k atLeast atMost
    refine ⟨_, responds k atLeast (atMost.trans few), rfl, ?_, ?_⟩
    · rw [sorted]
      exact sameLength
    · rw [sorted]
      exact congrArg (Page.totalPages _) sameLength
  · rw [whole, (sortBy_perm key items).nodup_iff]
    exact List.Nodup.of_map key distinct
  · intro item
    rw [whole]
    exact (sortBy_perm key items).mem_iff

/-- What the tables hold, in some order.  Clients are kept by their run ids, the proxies
of a client and the visitors by their names, and all of it fits into memory. -/
structure Held where
  clients : List ClientInfo
  visitors : List VisitorInfo
  runIds : (clients.map ClientInfo.runId).Nodup
  visitorNames : (visitors.map VisitorInfo.proxyName).Nodup
  fewClients : clients.length ≤ wordMax
  fewProxies : (clients.map fun c => c.proxies.length).sum ≤ wordMax
  fewVisitors : visitors.length ≤ wordMax

/-- One request for every page of a size, with the same filters, and explicit where there
are none; the tables are the same each time, in any order. -/
structure Requests (shown : List Char → String) (held : Held) (q : Query) (size : Nat) (requests : Nat → Query)
    (clients : Nat → List ClientInfo) (visitors : Nat → List VisitorInfo) : Prop where
  filters : ∀ k, ∀ name ∈ ["user", "client", "q", "kind", "ok", "all"], requests k name = q name
  paged : ∀ k, 1 ≤ k → k ≤ wordMax → Page.fromQuery shown (requests k) = .ok { page := k, size }
  positive : 0 < size
  explicit : hasFilter q ∨ wantsAll q
  clients : ∀ k, (clients k).Perm held.clients
  visitors : ∀ k, (visitors k).Perm held.visitors

section

variable {shown : List Char → String} {held : Held} {q : Query} {size : Nat} {requests : Nat → Query}
  {clients : Nat → List ClientInfo} {visitors : Nat → List VisitorInfo}

theorem Requests.allowed (asked : Requests shown held q size requests clients visitors) (k : Nat) (what : String) :
    requireExplicitEnumeration (requests k) what = .ok () := by
  have user := asked.filters k "user" (by decide)
  have client := asked.filters k "client" (by decide)
  have text := asked.filters k "q" (by decide)
  have kind := asked.filters k "kind" (by decide)
  have ok := asked.filters k "ok" (by decide)
  have all := asked.filters k "all" (by decide)
  have sameFilter : hasFilter (requests k) = hasFilter q := by
    simp only [hasFilter, List.any_cons, List.any_nil, user, client, text, kind, ok]
  have sameAll : wantsAll (requests k) = wantsAll q := by rw [wantsAll, wantsAll, all]
  rw [requireExplicitEnumeration, sameFilter, sameAll]
  rcases asked.explicit with filtered | explicit
  · exact if_pos filtered
  · rw [if_pos explicit, ite_self]

theorem Requests.same_filters (asked : Requests shown held q size requests clients visitors) (k : Nat) :
    clientItems (requests k) = clientItems q ∧ proxyItems (requests k) = proxyItems q ∧
      visitorItems (requests k) = visitorItems q := by
  have user := asked.filters k "user" (by decide)
  have client := asked.filters k "client" (by decide)
  have text := asked.filters k "q" (by decide)
  have sameNeedle : needle (requests k) = needle q := by rw [needle, needle, text]
  have sameClients : clientMatches (requests k) = clientMatches q := by
    funext c
    rw [clientMatches, clientMatches, user, sameNeedle]
  have sameServes : clientServes (requests k) = clientServes q := by
    funext c
    rw [clientServes, clientServes, user, client]
  have sameNames : nameMatches (requests k) = nameMatches q := by
    funext name
    rw [nameMatches, nameMatches, sameNeedle]
  refine ⟨?_, ?_, ?_⟩
  · funext found
    simp only [clientItems, sameClients]
  · funext found
    simp only [proxyItems, sameServes, sameNames]
  · funext found
    simp only [visitorItems, sameNames]

theorem length_proxyItems_le (q : Query) (clients : List ClientInfo) :
    (proxyItems q clients).length ≤ (clients.map fun c => c.proxies.length).sum := by
  induction clients with
  | nil => exact Nat.le_refl 0
  | cons c clients ih =>
    rw [List.map_cons, List.sum_cons, proxyItems, List.filter_cons]
    split
    · rw [List.flatMap_cons, List.length_append, List.length_map]
      exact Nat.add_le_add (List.length_filter_le _ _) ih
    · exact ih.trans (Nat.le_add_left _ _)

theorem Requests.exact_clients (asked : Requests shown held q size requests clients visitors) :
    Exact (fun k => clientsResponse shown (clients k) (requests k)) size (clientItems q held.clients) := by
  have distinct : ((clientItems q held.clients).map ClientItem.runId).Nodup := by
    rw [clientItems, List.map_map]
    exact held.runIds.sublist (List.filter_sublist.map _)
  have small : (clientItems q held.clients).length ≤ wordMax := by
    rw [clientItems, List.length_map]
    exact (List.length_filter_le _ _).trans held.fewClients
  have same : ∀ k, (clientItems q (clients k)).Perm (clientItems q held.clients) := fun k =>
    ((asked.clients k).filter _).map _
  refine exact_of_found distinct small asked.positive same fun k atLeast atMost => ?_
  rw [clientsResponse, asked.allowed, asked.paged k atLeast atMost, (asked.same_filters k).1]
  rfl

theorem Requests.exact_visitors (asked : Requests shown held q size requests clients visitors) :
    Exact (fun k => visitorsResponse shown (visitors k) (requests k)) size (visitorItems q held.visitors) := by
  have distinct : ((visitorItems q held.visitors).map VisitorInfo.proxyName).Nodup :=
    held.visitorNames.sublist (List.filter_sublist.map _)
  have small : (visitorItems q held.visitors).length ≤ wordMax := (List.length_filter_le _ _).trans held.fewVisitors
  have same : ∀ k, (visitorItems q (visitors k)).Perm (visitorItems q held.visitors) := fun k =>
    (asked.visitors k).filter _
  refine exact_of_found distinct small asked.positive same fun k atLeast atMost => ?_
  rw [visitorsResponse, asked.allowed, asked.paged k atLeast atMost, (asked.same_filters k).2.2]
  rfl

theorem Requests.exact_proxies (asked : Requests shown held q size requests clients visitors)
    (distinct : ((proxyItems q held.clients).map ProxyItem.name).Nodup) :
    Exact (fun k => proxiesResponse shown (clients k) (requests k)) size (proxyItems q held.clients) := by
  have small := (length_proxyItems_le q held.clients).trans held.fewProxies
  have same : ∀ k, (proxyItems q (clients k)).Perm (proxyItems q held.clients) := fun k =>
    ((asked.clients k).filter _).flatMap_right _
  refine exact_of_found distinct small asked.positive same fun k atLeast atMost => ?_
  rw [proxiesResponse, asked.allowed, asked.paged k atLeast atMost, (asked.same_filters k).2.1]
  rfl

/-- Lists of clients and of visitors are exact, and one of proxies is where no two proxies of
it have the same name; without a filter or a word that all is wanted there is no list. -/
theorem lists_exact (asked : Requests shown held q size requests clients visitors) :
    Exact (fun k => clientsResponse shown (clients k) (requests k)) size (clientItems q held.clients) ∧
    Exact (fun k => visitorsResponse shown (visitors k) (requests k)) size (visitorItems q held.visitors) ∧
    (((proxyItems q held.clients).map ProxyItem.name).Nodup →
      Exact (fun k => proxiesResponse shown (clients k) (requests k)) size (proxyItems q held.clients)) ∧
    ∀ other : Query, ¬hasFilter other → ¬wantsAll other → ∀ (cs : List ClientInfo) (vs : List VisitorInfo),
      clientsResponse shown cs other = .error (enumerationRefused "/api/v2/clients") ∧
      proxiesResponse shown cs other = .error (enumerationRefused "/api/v2/proxies") ∧
      visitorsResponse shown vs other = .error (enumerationRefused "/api/v2/visitors") := by
  refine ⟨asked.exact_clients, asked.exact_visitors, asked.exact_proxies, ?_⟩
  intro other noFilter notAll cs vs
  have refused : ∀ what, requireExplicitEnumeration other what = .error (enumerationRefused what) := by
    intro what
    rw [requireExplicitEnumeration, if_neg noFilter, if_neg notAll]
  rw [clientsResponse, proxiesResponse, visitorsResponse, refused, refused, refused]
  exact ⟨rfl, rfl, rfl⟩

end

def decimal (n : Nat) : String := String.ofList (Nat.toDigits 10 n)

def Query.paged (q : Query) (page size : Nat) : Query := fun name =>
  if name = "page" then some (decimal page) else if name = "page_size" then some (decimal size) else q name

theorem positive_decimal (shown : List Char → String) (name zero : String) (default : Nat) {n : Nat} (positive : 0 < n)
    (small : n ≤ wordMax) : Page.positive shown name zero default (some (decimal n)) = .ok n := by
  have visible : ∀ c ∈ Nat.toDigits 10 n, isVisible c := fun c member =>
    isVisible_of_isDigit (isDigit_of_mem_toDigits (by decide) (by decide) n c member)
  rw [Page.positive, Option.map_some, Option.getD_some, decimal, String.toList_ofList, trimmed_of_visible visible,
    parseUnsigned_toDigits small]
  simp only [Nat.toDigits_ne_nil, if_false, Nat.ne_of_gt positive]

theorem requests_paged (shown : List Char → String) (held : Held) {q : Query} (explicit : hasFilter q ∨ wantsAll q)
    {size : Nat} (positive : 0 < size) (small : size ≤ maxPageSize) :
    Requests shown held q size (fun k => q.paged k size) (fun _ => held.clients) (fun _ => held.visitors) where
  filters := by
    intro k name member
    have notPage : name ≠ "page" := by
      rintro rfl
      exact absurd member (by decide)
    have notSize : name ≠ "page_size" := by
      rintro rfl
      exact absurd member (by decide)
    rw [Query.paged, if_neg notPage, if_neg notSize]
  paged := by
    intro k atLeast atMost
    have isPage : q.paged k size "page" = some (decimal k) := if_pos rfl
    have isSize : q.paged k size "page_size" = some (decimal size) := (if_neg (by decide)).trans (if_pos rfl)
    have fits : size ≤ wordMax := small.trans (by decide)
    rw [Page.fromQuery, isPage, isSize, Option.some_or, positive_decimal shown _ _ _ atLeast atMost,
      positive_decimal shown _ _ _ positive fits]
    exact if_neg (Nat.not_lt_of_le small)
  positive := positive
  explicit := explicit
  clients := fun _ => List.Perm.refl _
  visitors := fun _ => List.Perm.refl _

def twoClients : Held where
  clients := ["b", "a"].map fun runId =>
    { runId, clientId := "c", user := "u", proxies := ["u.web"], backlog := 0, idleWorkConns := 0, managed := true }
  visitors := []
  runIds := by decide
  visitorNames := by decide
  fewClients := by decide
  fewProxies := by decide
  fewVisitors := by decide

def byUser : Query := fun name => if name = "user" then some "u" else none

theorem lists_exact_twoClients :
    Requests (fun _ => "") twoClients byUser 1 (fun k => byUser.paged k 1) (fun _ => twoClients.clients)
      (fun _ => twoClients.visitors) ∧
    Exact (fun k => clientsResponse (fun _ => "") twoClients.clients (byUser.paged k 1)) 1
      (clientItems byUser twoClients.clients) := by
  have asked := requests_paged (fun _ => "") twoClients (.inl (by decide) : hasFilter byUser ∨ wantsAll byUser)
    (by decide : 0 < 1) (by decide)
  exact ⟨asked, (lists_exact asked).1⟩

/-- Another word than `1` will do. -/
theorem not_only_one :
    ¬∀ (shown : List Char → String) (clients : List ClientInfo) (q : Query), (q "user").getD "" = "" →
      (q "q").getD "" = "" → (∃ r, clientsResponse shown clients q = .ok r) → q "all" = some "1" := by
  intro onlyOne
  have answered : ∃ r, clientsResponse (fun _ => "") [] (fun name => if name = "all" then some "true" else none) = .ok r :=
    ⟨_, rfl⟩
  exact absurd (onlyOne _ _ _ rfl rfl answered) (by decide)

end Nfrp.ApiV2
