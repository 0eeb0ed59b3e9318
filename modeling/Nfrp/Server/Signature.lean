import Nfrp.Lib.Joining
import Nfrp.Lib.Tags
import Nfrp.Server.Registrations
import Nfrp.Server.Sourced

/-!
# What a signature tells apart

The signature joins the texts of a message: the fields with a zero between them, the items
of a list with commas, the entries of a map with `&` and `=`.  What has these characters
in it, or an empty item, can look like something else.
-/

namespace Nfrp

open Lib Nfrp.Client

def sortedMap (map : List (String × String)) : String :=
  join '&' ((map.insertionSort fun a b => ¬b.1 < a.1).map fun (k, v) => k ++ "=" ++ v)

def sortedVec (v : List String) : String :=
  join ',' (v.insertionSort fun a b => ¬b < a)

def signatureLabels : List String :=
  ["name=", "type=", "enc=", "comp=", "bw=", "bwmode=", "group=", "gkey=", "metas=", "ann=", "port=", "domains=", "sub=",
    "locations=", "http_user=", "http_pwd=", "host=", "headers=", "resp_headers=", "route_user=", "mux=", "sk=", "allow="]

def signatureTexts (m : NewProxy) : List String :=
  [m.proxyName, m.proxyType, toString m.useEncryption, toString m.useCompression, m.bandwidthLimit, m.bandwidthLimitMode,
    m.group, m.groupKey, sortedMap m.metas, sortedMap m.annotations, toString m.remotePort, sortedVec m.customDomains,
    m.subdomain, sortedVec m.locations, m.httpUser, m.httpPwd, m.hostHeaderRewrite, sortedMap m.headers,
    sortedMap m.responseHeaders, m.routeByHttpUser, m.multiplexer, m.sk, sortedVec m.allowUsers]

theorem proxySignature_eq (m : NewProxy) :
    proxySignature m = join nul (signatureLabels.zipWith (· ++ ·) (signatureTexts m)) := rfl

namespace NewProxy

def scalars (m : NewProxy) : NewProxy :=
  { m with
    metas := []
    annotations := []
    customDomains := []
    locations := []
    allowUsers := []
    headers := []
    responseHeaders := [] }

def lists (m : NewProxy) : List (List String) :=
  [m.customDomains, m.locations, m.allowUsers]

def maps (m : NewProxy) : List (List (String × String)) :=
  [m.metas, m.annotations, m.headers, m.responseHeaders]

/-- The same configuration: lists and maps are in no order. -/
structure Agrees (a b : NewProxy) : Prop where
  scalars : a.scalars = b.scalars
  lists : List.Forall₂ List.Perm a.lists b.lists
  maps : List.Forall₂ List.Perm a.maps b.maps

def Keyed (m : NewProxy) : Prop :=
  ∀ map ∈ m.maps, (map.map Prod.fst).Nodup

instance (m : NewProxy) : Decidable m.Keyed :=
  inferInstanceAs (Decidable (∀ map ∈ m.maps, (map.map Prod.fst).Nodup))

def texts (m : NewProxy) : List String :=
  [m.proxyName, m.proxyType, m.bandwidthLimit, m.bandwidthLimitMode, m.group, m.groupKey, m.subdomain, m.httpUser,
    m.httpPwd, m.hostHeaderRewrite, m.routeByHttpUser, m.multiplexer, m.sk]

structure Nulless (m : NewProxy) : Prop where
  texts : ∀ text ∈ m.texts, nul ∉ text.toList
  lists : ∀ v ∈ m.lists, ∀ item ∈ v, nul ∉ item.toList
  maps : ∀ map ∈ m.maps, ∀ entry ∈ map, nul ∉ entry.1.toList ∧ nul ∉ entry.2.toList

end NewProxy

def CleanList (v : List String) : Prop :=
  ∀ item ∈ v, item ≠ "" ∧ ',' ∉ item.toList

instance (v : List String) : Decidable (CleanList v) :=
  inferInstanceAs (Decidable (∀ item ∈ v, item ≠ "" ∧ ',' ∉ item.toList))

/-- No key has one of the separators in it, and no value the one between entries. -/
def CleanMap (map : List (String × String)) : Prop :=
  ∀ entry ∈ map, '=' ∉ entry.1.toList ∧ '&' ∉ entry.1.toList ∧ '&' ∉ entry.2.toList

/-- Some field that is written without separators is not the same in both. -/
def NewProxy.TellsApart (a b : NewProxy) : Prop :=
  a.scalars ≠ b.scalars ∨
    (∃ lists ∈ a.lists.zip b.lists, ¬lists.1.Perm lists.2 ∧ CleanList lists.1 ∧ CleanList lists.2) ∨
    ∃ maps ∈ a.maps.zip b.maps, ¬maps.1.Perm maps.2 ∧ CleanMap maps.1 ∧ CleanMap maps.2

section Texts

variable {v w : List String} {map other : List (String × String)}

theorem sortedVec_of_perm (same : v.Perm w) : sortedVec v = sortedVec w :=
  congrArg (join ',') (@insertionSort_eq_of_perm _ _ _ id _ _ (fun _ _ _ _ => id) same)

theorem CleanList.perm (clean : CleanList v) (same : w.Perm v) : CleanList w :=
  fun item isItem => clean item (same.mem_iff.mp isItem)

theorem sortedVec_inj (clean : CleanList v) (isClean : CleanList w) : sortedVec v = sortedVec w ↔ v.Perm w := by
  refine ⟨fun same => ?_, sortedVec_of_perm⟩
  have isV := List.perm_insertionSort (fun a b : String => ¬b < a) v
  have isW := List.perm_insertionSort (fun a b : String => ¬b < a) w
  have sorted := (join_inj_of_full (fun item isItem => (clean.perm isV item isItem).1)
    (fun item isItem => (isClean.perm isW item isItem).1) (fun item isItem => (clean.perm isV item isItem).2)
    fun item isItem => (isClean.perm isW item isItem).2).mp same
  exact isV.symm.trans (sorted ▸ isW)

theorem sortedMap_of_perm (keyed : (map.map Prod.fst).Nodup) (same : map.Perm other) : sortedMap map = sortedMap other := by
  have apart : ∀ x ∈ map, ∀ y ∈ map, x.1 = y.1 → x = y := fun x isX y isY => List.inj_on_of_nodup_map keyed isX isY
  rw [sortedMap, insertionSort_eq_of_perm apart same, sortedMap]

def entryText (entry : String × String) : String := entry.1 ++ "=" ++ entry.2

theorem CleanMap.entryText (clean : CleanMap map) : ∀ text ∈ map.map entryText, text ≠ "" ∧ '&' ∉ text.toList := by
  intro text isText
  obtain ⟨entry, isEntry, rfl⟩ := List.mem_map.mp isText
  obtain ⟨-, noneInKey, noneInValue⟩ := clean entry isEntry
  constructor
  · intro isEmpty
    have nothing := congrArg String.toList isEmpty
    simp [Nfrp.entryText] at nothing
  · simp [Nfrp.entryText, noneInKey, noneInValue]

theorem entryText_injOn (clean : CleanMap map) (isClean : CleanMap other)
    (same : map.map Nfrp.entryText = other.map Nfrp.entryText) : map = other := by
  induction map generalizing other with
  | nil => exact (List.map_eq_nil_iff.mp same.symm).symm
  | cons entry map ih =>
    cases other with
    | nil => cases same
    | cons first other =>
      obtain ⟨sameEntry, sameRest⟩ := List.cons.inj same
      have isFirst := (append_separator_inj (clean entry List.mem_cons_self).1 (isClean first List.mem_cons_self).1).mp
        sameEntry
      rw [Prod.ext isFirst.1 isFirst.2, ih (fun entry isEntry => clean entry (List.mem_cons_of_mem _ isEntry))
        (fun entry isEntry => isClean entry (List.mem_cons_of_mem _ isEntry)) sameRest]

theorem CleanMap.perm (clean : CleanMap map) (same : other.Perm map) : CleanMap other :=
  fun entry isEntry => clean entry (same.mem_iff.mp isEntry)

theorem sortedMap_inj (keyed : (map.map Prod.fst).Nodup) (clean : CleanMap map) (isClean : CleanMap other) :
    sortedMap map = sortedMap other ↔ map.Perm other := by
  refine ⟨fun same => ?_, sortedMap_of_perm keyed⟩
  have isMap := List.perm_insertionSort (fun a b : String × String => ¬b.1 < a.1) map
  have isOther := List.perm_insertionSort (fun a b : String × String => ¬b.1 < a.1) other
  have texts := (clean.perm isMap).entryText
  have otherTexts := (isClean.perm isOther).entryText
  have sorted := (join_inj_of_full (fun text isText => (texts text isText).1) (fun text isText => (otherTexts text isText).1)
    (fun text isText => (texts text isText).2) fun text isText => (otherTexts text isText).2).mp same
  exact isMap.symm.trans (entryText_injOn (clean.perm isMap) (isClean.perm isOther) sorted ▸ isOther)

end Texts

namespace NewProxy

variable {a b m : NewProxy}

theorem toString_inj {p q : Nat} : toString p = toString q ↔ p = q := by
  refine ⟨fun same => ?_, congrArg _⟩
  have digits : Nat.toDigits 10 p = Nat.toDigits 10 q := by
    rw [← Nat.toList_repr, ← Nat.toList_repr]
    exact congrArg String.toList same
  rw [← ofDigits_toDigits (by decide : 1 < 10) (by decide) p, digits, ofDigits_toDigits (by decide) (by decide) q]

theorem signatureTexts_eq_iff : signatureTexts a = signatureTexts b ↔
    a.scalars = b.scalars ∧ a.lists.map sortedVec = b.lists.map sortedVec ∧ a.maps.map sortedMap = b.maps.map sortedMap := by
  have flag : ∀ p q : Bool, toString p = toString q ↔ p = q := by decide
  simp only [signatureTexts, scalars, lists, maps, List.map_cons, List.map_nil, List.cons.injEq, NewProxy.mk.injEq,
    Client.NewProxy.mk.injEq, flag, toString_inj, and_true, true_and]
  constructor
  · intro same
    simp only [same, and_self]
  · intro same
    simp only [same, and_self]

theorem nul_not_mem_sortedVec {v : List String} (nulless : ∀ item ∈ v, nul ∉ item.toList) : nul ∉ (sortedVec v).toList := by
  intro isIn
  rcases mem_join isIn with isComma | ⟨item, isItem, inItem⟩
  · exact absurd isComma (by decide)
  · exact nulless item ((List.mem_insertionSort _).mp isItem) inItem

theorem nul_not_mem_sortedMap {map : List (String × String)}
    (nulless : ∀ entry ∈ map, nul ∉ entry.1.toList ∧ nul ∉ entry.2.toList) : nul ∉ (sortedMap map).toList := by
  intro isIn
  rcases mem_join isIn with isSeparator | ⟨text, isText, inText⟩
  · exact absurd isSeparator (by decide)
  · obtain ⟨entry, isEntry, rfl⟩ := List.mem_map.mp isText
    obtain ⟨inKey, inValue⟩ := nulless entry ((List.mem_insertionSort _).mp isEntry)
    have isEqualsSign : nul ≠ '=' := by decide
    simp [inKey, inValue, isEqualsSign] at inText

theorem nul_not_mem_toString (n : Nat) : nul ∉ (toString n).toList := by
  intro isIn
  have isDigit := isDigit_of_mem_toDigits (by decide : 1 < 10) (by decide) n nul (Nat.toList_repr ▸ isIn)
  exact absurd isDigit (by decide)

theorem nul_not_mem_signatureTexts (nulless : m.Nulless) : ∀ text ∈ signatureTexts m, nul ∉ text.toList := by
  have flag : ∀ p : Bool, nul ∉ (toString p).toList := by decide
  have ofList : ∀ v ∈ m.lists, nul ∉ (sortedVec v).toList := fun v isList => nul_not_mem_sortedVec (nulless.lists v isList)
  have ofMap : ∀ map ∈ m.maps, nul ∉ (sortedMap map).toList := fun map isMap => nul_not_mem_sortedMap (nulless.maps map isMap)
  have plain := nulless.texts
  simp only [signatureTexts, texts, lists, maps, List.forall_mem_cons] at plain ofList ofMap ⊢
  simp only [plain, ofList, ofMap, flag, nul_not_mem_toString, not_false_eq_true, List.not_mem_nil, false_implies,
    implies_true, and_self]

theorem proxySignature_eq_iff_texts (nulless : a.Nulless) (isNulless : b.Nulless) :
    proxySignature a = proxySignature b ↔ signatureTexts a = signatureTexts b := by
  have noLabel : ∀ label ∈ signatureLabels, nul ∉ label.toList := by decide
  have clean : ∀ {m : NewProxy}, m.Nulless → ∀ part ∈ signatureLabels.zipWith (· ++ ·) (signatureTexts m),
      nul ∉ part.toList := by
    intro m nulless part isPart isIn
    obtain ⟨label, isLabel, text, isText, rfl⟩ := mem_zipWith_append isPart
    rcases List.mem_append.mp (String.toList_append ▸ isIn) with inLabel | inText
    · exact noLabel label isLabel inLabel
    · exact nul_not_mem_signatureTexts nulless text isText inText
  have someParts : ∀ m : NewProxy, signatureLabels.zipWith (· ++ ·) (signatureTexts m) ≠ [] :=
    fun m => List.cons_ne_nil _ _
  rw [proxySignature_eq, proxySignature_eq, join_inj (someParts a) (someParts b) (clean nulless) (clean isNulless)]
  exact zipWith_append_inj rfl (le_refl _)

theorem map_eq_of_forall₂ {Item Text : Type} {f : Item → Text} {same : Item → Item → Prop} {v w : List Item}
    (alike : List.Forall₂ same v w) (isSame : ∀ x ∈ v, ∀ y, same x y → f x = f y) : v.map f = w.map f := by
  induction alike with
  | nil => rfl
  | cons isAlike rest ih =>
    rw [List.map_cons, List.map_cons, isSame _ List.mem_cons_self _ isAlike,
      ih fun x isX => isSame x (List.mem_cons_of_mem _ isX)]

theorem Agrees.proxySignature_eq (keyed : a.Keyed) (agrees : a.Agrees b) : proxySignature a = proxySignature b := by
  have texts : signatureTexts a = signatureTexts b := by
    refine signatureTexts_eq_iff.mpr ⟨agrees.scalars, ?_, ?_⟩
    · exact map_eq_of_forall₂ agrees.lists fun _ _ _ => sortedVec_of_perm
    · exact map_eq_of_forall₂ agrees.maps fun map isMap _ => sortedMap_of_perm (keyed map isMap)
  rw [Nfrp.proxySignature_eq, Nfrp.proxySignature_eq, texts]

theorem mem_zip_of_map_eq {Item Text : Type} {f : Item → Text} {v w : List Item} (same : v.map f = w.map f) :
    ∀ pair ∈ v.zip w, f pair.1 = f pair.2 := by
  induction v generalizing w with
  | nil => exact fun pair isPair => nomatch isPair
  | cons x v ih =>
    cases w with
    | nil => exact fun pair isPair => nomatch isPair
    | cons y w =>
      obtain ⟨sameFirst, sameRest⟩ := List.cons.inj same
      intro pair isPair
      rcases List.mem_cons.mp isPair with rfl | isLater
      · exact sameFirst
      · exact ih sameRest pair isLater

theorem TellsApart.proxySignature_ne (keyed : a.Keyed) (nulless : a.Nulless) (isNulless : b.Nulless)
    (tells : a.TellsApart b) : proxySignature a ≠ proxySignature b := by
  intro same
  obtain ⟨scalars, lists, maps⟩ := signatureTexts_eq_iff.mp ((proxySignature_eq_iff_texts nulless isNulless).mp same)
  rcases tells with differ | ⟨pair, isPair, differ, clean, isClean⟩ | ⟨pair, isPair, differ, clean, isClean⟩
  · exact differ scalars
  · exact differ ((sortedVec_inj clean isClean).mp (mem_zip_of_map_eq lists pair isPair))
  · have isMap : pair.1 ∈ a.maps := (List.of_mem_zip isPair).1
    exact differ ((sortedMap_inj (keyed pair.1 isMap) clean isClean).mp (mem_zip_of_map_eq maps pair isPair))

/-- The two agree, or nothing hides where they do not. -/
def Told (a b : NewProxy) : Prop :=
  a.Agrees b ∨ a.Nulless ∧ b.Nulless ∧ a.TellsApart b

theorem Told.proxySignature_eq_iff (keyed : a.Keyed) (told : a.Told b) :
    proxySignature a = proxySignature b ↔ a.Agrees b := by
  refine ⟨fun same => ?_, Agrees.proxySignature_eq keyed⟩
  exact told.resolve_right fun ⟨nulless, isNulless, tells⟩ => tells.proxySignature_ne keyed nulless isNulless same

end NewProxy

/-- One item, which is not the text of two that are in order. -/
def LoneList (v : List String) : Prop :=
  ∃ item, v = [item] ∧ item ≠ "" ∧ ∀ x y : String, item = x ++ "," ++ y → y < x

def LoneMap (map : List (String × String)) : Prop :=
  map = [] ∨ ∃ key value, map = [(key, value)] ∧ '=' ∉ key.toList ∧ '=' ∉ value.toList

section Lone

variable {v w : List String} {map other : List (String × String)}

theorem le_join_cons (item : String) (items : List String) : item ≤ join ',' (item :: items) := by
  cases items with
  | nil => exact (join_singleton item).ge
  | cons next items =>
    rw [join_cons_cons, ← not_lt, String.lt_iff_toList_lt, String.toList_append, String.toList_append, List.append_assoc]
    exact @List.le_append_left Char _ ⟨lt_irrefl⟩ _ _

theorem LoneList.perm (lone : LoneList v) (same : sortedVec v = sortedVec w) : v.Perm w := by
  obtain ⟨item, rfl, some, alone⟩ := lone
  have isW := List.perm_insertionSort (fun a b : String => ¬b < a) w
  have text : item = join ',' (w.insertionSort fun a b => ¬b < a) := by
    rw [← sortedVec, ← same]
    exact (join_singleton item).symm
  have sorted : (w.insertionSort fun a b : String => ¬b < a).Pairwise fun a b => ¬b < a :=
    @pairwise_sorted _ _ _ id w
  match isSorted : w.insertionSort fun a b => ¬b < a with
  | [] =>
    rw [isSorted, join_nil] at text
    exact absurd text some
  | [one] =>
    rw [isSorted] at text isW
    rw [text.trans (join_singleton one)]
    exact isW
  | first :: second :: rest =>
    -- What comes after the first comma is not less than what comes before.
    rw [isSorted] at text sorted
    have less := alone first (join ',' (second :: rest)) (text.trans (join_cons_cons first second rest))
    have inOrder : ¬second < first := (List.pairwise_cons.mp sorted).1 second List.mem_cons_self
    exact absurd (lt_of_le_of_lt (le_join_cons second rest) less) inOrder

theorem not_loneList (not : ¬LoneList v) (nulless : ∀ item ∈ v, nul ∉ item.toList) :
    ∃ w, sortedVec v = sortedVec w ∧ ¬v.Perm w ∧ ∀ item ∈ w, nul ∉ item.toList := by
  match v with
  | [] =>
    refine ⟨[""], rfl, by simp, ?_⟩
    decide
  | [item] =>
    by_cases isEmpty : item = ""
    · exact ⟨[], by rw [isEmpty]; rfl, by simp, nofun⟩
    · have split : ∃ x y : String, item = x ++ "," ++ y ∧ ¬y < x := by
        by_contra none
        push Not at none
        exact not ⟨item, rfl, isEmpty, none⟩
      obtain ⟨x, y, rfl, inOrder⟩ := split
      have noNul := nulless _ List.mem_cons_self
      rw [String.toList_append, String.toList_append, List.mem_append, List.mem_append, not_or, not_or] at noNul
      refine ⟨[x, y], ?_, ?_, ?_⟩
      · have sorted : [x, y].insertionSort (fun a b => ¬b < a) = [x, y] := if_pos inOrder
        rw [sortedVec, sortedVec, sorted, join_cons_cons, join_singleton]
        exact join_singleton _
      · exact fun same => nomatch same.length_eq
      · simp [noNul]
  | first :: second :: rest =>
    refine ⟨[sortedVec (first :: second :: rest)], ?_, ?_, ?_⟩
    · exact (join_singleton _).symm
    · exact fun same => nomatch same.length_eq
    · intro item isItem
      rw [List.mem_singleton.mp isItem]
      exact NewProxy.nul_not_mem_sortedVec nulless

theorem sortedMap_singleton (entry : String × String) : sortedMap [entry] = entry.1 ++ "=" ++ entry.2 :=
  join_singleton _

theorem toList_entry (key value : String) : (key ++ "=" ++ value).toList = key.toList ++ '=' :: value.toList := by
  rw [String.toList_append, String.toList_append, List.append_assoc]
  rfl

theorem sortedMap_of_sorted {first second : String × String} {rest : List (String × String)}
    (isSorted : (map.insertionSort fun a b => ¬b.1 < a.1) = first :: second :: rest) :
    sortedMap map = first.1 ++ "=" ++ (first.2 ++ "&" ++ join '&' ((second :: rest).map entryText)) := by
  rw [sortedMap, isSorted]
  refine (join_cons_cons _ _ _).trans ?_
  rw [← String.append_assoc, ← String.append_assoc]
  rfl

theorem LoneMap.perm (lone : LoneMap map) (same : sortedMap map = sortedMap other) : map.Perm other := by
  have isOther := List.perm_insertionSort (fun a b : String × String => ¬b.1 < a.1) other
  rcases lone with rfl | ⟨key, value, rfl, noneInKey, noneInValue⟩
  · have full : ∀ text ∈ (other.insertionSort fun a b => ¬b.1 < a.1).map entryText, text ≠ "" := by
      intro text isText isEmpty
      obtain ⟨entry, -, rfl⟩ := List.mem_map.mp isText
      have nothing := congrArg String.toList isEmpty
      simp [entryText] at nothing
    have none := List.map_eq_nil_iff.mp (join_eq_empty full same.symm)
    exact none ▸ isOther
  · rw [sortedMap_singleton] at same
    match isSorted : other.insertionSort fun a b => ¬b.1 < a.1 with
    | [] =>
      rw [sortedMap, isSorted, List.map_nil, join_nil] at same
      have nothing := congrArg String.toList same
      simp at nothing
    | [entry] =>
      rw [sortedMap, isSorted, List.map_singleton, join_singleton] at same
      have texts := congrArg String.toList same
      rw [toList_entry, toList_entry] at texts
      obtain ⟨sameKey, sameValue⟩ := separated_inj noneInKey noneInValue texts
      rw [isSorted] at isOther
      rw [String.toList_injective sameKey, String.toList_injective sameValue]
      exact isOther
    | first :: second :: rest =>
      -- The text of the second entry has a separator, too.
      rw [sortedMap_of_sorted isSorted] at same
      have texts := congrArg String.toList same
      rw [toList_entry, toList_entry] at texts
      obtain ⟨-, sameValue⟩ := separated_inj noneInKey noneInValue texts
      refine absurd ?_ noneInValue
      rw [sameValue, String.toList_append]
      refine List.mem_append_right _ (mem_join_cons ?_)
      rw [entryText, toList_entry]
      exact List.mem_append_right _ List.mem_cons_self

theorem split_of_mem {c : Char} {text : String} (isIn : c ∈ text.toList) :
    ∃ before after : String, text = before ++ String.singleton c ++ after := by
  obtain ⟨before, after, isText⟩ := List.append_of_mem isIn
  refine ⟨String.ofList before, String.ofList after, String.toList_injective ?_⟩
  rw [isText, String.toList_append, String.toList_append, String.toList_ofList, String.toList_ofList, String.toList_singleton,
    List.append_assoc, List.singleton_append]

theorem reread {key value : String} (text : sortedMap map = key ++ "=" ++ value) (different : ¬map.Perm [(key, value)])
    (nulless : ∀ entry ∈ map, nul ∉ entry.1.toList ∧ nul ∉ entry.2.toList) :
    ∃ other, sortedMap map = sortedMap other ∧ ¬map.Perm other ∧ (other.map Prod.fst).Nodup ∧
      ∀ entry ∈ other, nul ∉ entry.1.toList ∧ nul ∉ entry.2.toList := by
  refine ⟨[(key, value)], text.trans (sortedMap_singleton (key, value)).symm, different, List.nodup_singleton _, ?_⟩
  intro entry isEntry
  have noNul := NewProxy.nul_not_mem_sortedMap nulless
  rw [text, toList_entry, List.mem_append, List.mem_cons, not_or, not_or] at noNul
  rw [List.mem_singleton.mp isEntry]
  exact ⟨noNul.1, noNul.2.2⟩

theorem ne_append_separator (before after : String) : before ++ "=" ++ after ≠ before := by
  intro same
  have lengths := congrArg (fun text : String => text.toList.length) same
  simp at lengths

theorem not_loneMap (not : ¬LoneMap map) (nulless : ∀ entry ∈ map, nul ∉ entry.1.toList ∧ nul ∉ entry.2.toList) :
    ∃ other, sortedMap map = sortedMap other ∧ ¬map.Perm other ∧ (other.map Prod.fst).Nodup ∧
      ∀ entry ∈ other, nul ∉ entry.1.toList ∧ nul ∉ entry.2.toList := by
  have isMap := List.perm_insertionSort (fun a b : String × String => ¬b.1 < a.1) map
  match isSorted : map.insertionSort fun a b => ¬b.1 < a.1 with
  | [] =>
    rw [isSorted] at isMap
    exact absurd (.inl (List.nil_perm.mp isMap)) not
  | [(key, value)] =>
    rw [isSorted] at isMap
    obtain rfl := List.singleton_perm.mp isMap
    have text : sortedMap [(key, value)] = key ++ "=" ++ value := sortedMap_singleton (key, value)
    by_cases inKey : '=' ∈ key.toList
    · obtain ⟨before, after, rfl⟩ := split_of_mem inKey
      refine reread (show _ = before ++ "=" ++ (after ++ "=" ++ value) from text.trans ?_) (fun same => ?_) nulless
      · simp only [String.append_assoc]
        rfl
      · exact ne_append_separator _ _ (congrArg Prod.fst (List.singleton_perm_singleton.mp same))
    · have inValue : '=' ∈ value.toList := by
        by_contra none
        exact not (.inr ⟨key, value, rfl, inKey, none⟩)
      obtain ⟨before, after, rfl⟩ := split_of_mem inValue
      refine reread (show _ = key ++ "=" ++ before ++ "=" ++ after from text.trans ?_) (fun same => ?_) nulless
      · simp only [String.append_assoc]
        rfl
      · exact ne_append_separator _ _ (congrArg Prod.fst (List.singleton_perm_singleton.mp same)).symm
  | first :: second :: rest =>
    refine reread (sortedMap_of_sorted isSorted) (fun same => ?_) nulless
    rw [isSorted] at isMap
    cases isMap.length_eq.trans same.length_eq

theorem alike_list (nulless : ∀ item ∈ v, nul ∉ item.toList) :
    ∃ w, sortedVec v = sortedVec w ∧ (v.Perm w → LoneList v) ∧ ∀ item ∈ w, nul ∉ item.toList := by
  by_cases lone : LoneList v
  · exact ⟨v, rfl, fun _ => lone, nulless⟩
  · obtain ⟨w, same, differ, noNul⟩ := not_loneList lone nulless
    exact ⟨w, same, fun isPerm => absurd isPerm differ, noNul⟩

theorem alike_map (keyed : (map.map Prod.fst).Nodup)
    (nulless : ∀ entry ∈ map, nul ∉ entry.1.toList ∧ nul ∉ entry.2.toList) :
    ∃ other, sortedMap map = sortedMap other ∧ (map.Perm other → LoneMap map) ∧ (other.map Prod.fst).Nodup ∧
      ∀ entry ∈ other, nul ∉ entry.1.toList ∧ nul ∉ entry.2.toList := by
  by_cases lone : LoneMap map
  · exact ⟨map, rfl, fun _ => lone, keyed, nulless⟩
  · obtain ⟨other, same, differ, isKeyed, noNul⟩ := not_loneMap lone nulless
    exact ⟨other, same, fun isPerm => absurd isPerm differ, isKeyed, noNul⟩

end Lone

namespace NewProxy

variable {a b : NewProxy}

def Lone (m : NewProxy) : Prop :=
  (∀ v ∈ m.lists, LoneList v) ∧ ∀ map ∈ m.maps, LoneMap map

theorem forall₂_of_map_eq {Item Text : Type} {f : Item → Text} {same : Item → Item → Prop} {v w : List Item}
    (sameTexts : v.map f = w.map f) (isSame : ∀ x ∈ v, ∀ y, f x = f y → same x y) : List.Forall₂ same v w := by
  induction v generalizing w with
  | nil =>
    rw [List.map_eq_nil_iff.mp sameTexts.symm]
    exact .nil
  | cons x v ih =>
    cases w with
    | nil => cases sameTexts
    | cons y w =>
      obtain ⟨sameFirst, sameRest⟩ := List.cons.inj sameTexts
      exact .cons (isSame x List.mem_cons_self y sameFirst)
        (ih sameRest fun x isX => isSame x (List.mem_cons_of_mem _ isX))

theorem Lone.agrees (lone : a.Lone) (nulless : a.Nulless) (isNulless : b.Nulless)
    (same : proxySignature a = proxySignature b) : a.Agrees b := by
  obtain ⟨scalars, lists, maps⟩ := signatureTexts_eq_iff.mp ((proxySignature_eq_iff_texts nulless isNulless).mp same)
  exact ⟨scalars, forall₂_of_map_eq lists fun v isV _ => (lone.1 v isV).perm,
    forall₂_of_map_eq maps fun map isMap _ => (lone.2 map isMap).perm⟩

/-- Where no other message looks like it, every list and every map stands alone. -/
theorem determined_iff (keyed : a.Keyed) (nulless : a.Nulless) :
    (∀ b : NewProxy, b.Keyed → b.Nulless → (proxySignature a = proxySignature b ↔ a.Agrees b)) ↔ a.Lone := by
  refine ⟨fun told => ?_, fun lone b _ isNulless =>
    ⟨lone.agrees nulless isNulless, Agrees.proxySignature_eq keyed⟩⟩
  -- Another message with every list and every map read another way, where there is one.
  have ofList := nulless.lists
  have ofMap := nulless.maps
  have isKeyed : ∀ map ∈ a.maps, (map.map Prod.fst).Nodup := keyed
  simp only [lists, maps, List.forall_mem_cons, List.not_mem_nil, false_implies, implies_true, and_true] at ofList ofMap isKeyed
  obtain ⟨domains, sameDomains, loneDomains, noNulDomains⟩ := alike_list ofList.1
  obtain ⟨locations, sameLocations, loneLocations, noNulLocations⟩ := alike_list ofList.2.1
  obtain ⟨users, sameUsers, loneUsers, noNulUsers⟩ := alike_list ofList.2.2
  obtain ⟨metas, sameMetas, loneMetas, keyedMetas, noNulMetas⟩ := alike_map isKeyed.1 ofMap.1
  obtain ⟨notes, sameNotes, loneNotes, keyedNotes, noNulNotes⟩ := alike_map isKeyed.2.1 ofMap.2.1
  obtain ⟨headers, sameHeaders, loneHeaders, keyedHeaders, noNulHeaders⟩ := alike_map isKeyed.2.2.1 ofMap.2.2.1
  obtain ⟨answers, sameAnswers, loneAnswers, keyedAnswers, noNulAnswers⟩ := alike_map isKeyed.2.2.2 ofMap.2.2.2
  let b : NewProxy :=
    { a with
      customDomains := domains
      locations := locations
      allowUsers := users
      metas := metas
      annotations := notes
      headers := headers
      responseHeaders := answers }
  have isNulless : b.Nulless := by
    refine ⟨nulless.texts, ?_, ?_⟩
    · simp only [b, lists, List.forall_mem_cons, List.not_mem_nil, false_implies, implies_true, and_true]
      exact ⟨noNulDomains, noNulLocations, noNulUsers⟩
    · simp only [b, maps, List.forall_mem_cons, List.not_mem_nil, false_implies, implies_true, and_true]
      exact ⟨noNulMetas, noNulNotes, noNulHeaders, noNulAnswers⟩
  have keyedB : b.Keyed := by
    simp only [Keyed, b, maps, List.forall_mem_cons, List.not_mem_nil, false_implies, implies_true, and_true]
    exact ⟨keyedMetas, keyedNotes, keyedHeaders, keyedAnswers⟩
  have same : proxySignature a = proxySignature b := by
    rw [proxySignature_eq_iff_texts nulless isNulless, signatureTexts_eq_iff]
    simp only [b, scalars, lists, maps, List.map_cons, List.map_nil, sameDomains, sameLocations, sameUsers, sameMetas,
      sameNotes, sameHeaders, sameAnswers, and_self]
  have agrees := (told b keyedB isNulless).mp same
  have listsAgree := agrees.lists
  have mapsAgree := agrees.maps
  simp only [b, lists, maps, List.forall₂_cons] at listsAgree mapsAgree
  constructor
  · simp only [lists, List.forall_mem_cons, List.not_mem_nil, false_implies, implies_true, and_true]
    exact ⟨loneDomains listsAgree.1, loneLocations listsAgree.2.1, loneUsers listsAgree.2.2.1⟩
  · simp only [maps, List.forall_mem_cons, List.not_mem_nil, false_implies, implies_true, and_true]
    exact ⟨loneMetas mapsAgree.1, loneNotes mapsAgree.2.1, loneHeaders mapsAgree.2.2.1, loneAnswers mapsAgree.2.2.2.1⟩

end NewProxy

namespace Proxies

def heard (t : Terms) : Proxies → List Event → List NewProxy
  | _, [] => []
  | s, event :: events => heard t (s.step t event).1 events ++ event.messages t.user s

theorem sourced_run {t : Terms} {s : Proxies} {known : List NewProxy} (sourced : Sourced known s) (events : List Event) :
    Sourced (heard t s events ++ known) (run (fun s event => (s.step t event).1) s events) := by
  induction events generalizing s known with
  | nil => exact sourced
  | cons event events ih =>
    have later := ih (sourced_step t event sourced)
    rw [← List.append_assoc] at later
    exact later

theorem registerKind_ne_adopted {cfg : ServerConfig} {s : Proxies} {m : NewProxy} {byControl : Bool} {answer : Answer}
    {addr : String} : (registerKind cfg s m byControl answer).2 ≠ .registered addr true := by
  have joined : ∀ remoteAddr : String, Outcome.registered remoteAddr false ≠ .registered addr true := by
    intro remoteAddr same
    injection same with _ adopted
    cases adopted
  rw [Proxies.registerKind]
  split
  · split
    · rintro ⟨⟩
    · split
      · rintro ⟨⟩
      · rintro ⟨⟩
      · exact joined _
  · split
    · split
      · rintro ⟨⟩
      · split
        · rintro ⟨⟩
        · rintro ⟨⟩
        · rintro ⟨⟩
    · split
      · split
        · rintro ⟨⟩
        · exact joined _
      · rintro ⟨⟩

/-- A registration is used again for a message with the signature of the one it was made for. -/
theorem Sourced.adopted {known : List NewProxy} {s after : Proxies} (sourced : Sourced known s) {cfg : ServerConfig}
    {m : NewProxy} {byControl : Bool} {answer : Answer} {addr : String}
    (adopted : s.registerProxy cfg m byControl answer = (after, .registered addr true)) :
    ∃ old ∈ known, old.proxyName = m.proxyName ∧ proxySignature old = proxySignature m := by
  rw [Proxies.registerProxy] at adopted
  split at adopted
  · cases (Prod.mk.inj adopted).2
  split at adopted
  next addr isReused =>
    split at isReused
    · obtain ⟨entry, isEntry, -⟩ := Option.map_eq_some_iff.mp isReused
      obtain ⟨found, sameSignature⟩ := Option.filter_eq_some_iff.mp isEntry
      obtain ⟨old, isOld, sameName, registers⟩ := sourced.entries _ entry found
      exact ⟨old, isOld, sameName, registers.signature.symm.trans (of_decide_eq_true sameSignature)⟩
    · cases isReused
  · dsimp only at adopted
    split at adopted
    · cases (Prod.mk.inj adopted).2
    · split at adopted
      · cases (Prod.mk.inj adopted).2
      · exact absurd (congrArg Prod.snd adopted) registerKind_ne_adopted

end Proxies

/-- The signature tells a message from all others if its lists and maps stand alone, and it
tells two messages apart if nothing hides where they differ; where it does, a registration
is used again for the same configuration only. -/
theorem proxySignature_identifies (m : NewProxy) :
    (m.Keyed → m.Nulless →
      ((∀ b : NewProxy, b.Keyed → b.Nulless → (proxySignature m = proxySignature b ↔ m.Agrees b)) ↔ m.Lone)) ∧
      (∀ b : NewProxy, m.Keyed → m.Told b → (proxySignature m = proxySignature b ↔ m.Agrees b)) ∧
      ∀ (t : Terms) (events : List Proxies.Event) (byControl : Bool) (answer : Answer) (after : Proxies) (addr : String),
        (run (fun s event => (Proxies.step t s event).1) {} events).registerProxy t.cfg m byControl answer =
          (after, .registered addr true) →
        (∀ old ∈ Proxies.heard t {} events, old.proxyName = m.proxyName → old.Keyed ∧ old.Told m) →
        ∃ old ∈ Proxies.heard t {} events, old.proxyName = m.proxyName ∧ old.Agrees m := by
  refine ⟨NewProxy.determined_iff, fun b keyed told => told.proxySignature_eq_iff keyed, ?_⟩
  intro t events byControl answer after addr adopted told
  have sourced := Proxies.sourced_run (Proxies.sourced_start []) (t := t) events
  rw [List.append_nil] at sourced
  obtain ⟨old, isOld, sameName, sameSignature⟩ := sourced.adopted adopted
  obtain ⟨keyed, isTold⟩ := told old isOld sameName
  exact ⟨old, isOld, sameName, (isTold.proxySignature_eq_iff keyed).mp sameSignature⟩

def siteTerms : Terms where
  cfg := shopConfig
  rbac := {}
  user := "shop"
  role := .unrestricted
  isRole := rfl

def siteOf (customDomains : List String) : NewProxy := shopProxy "http" 0 customDomains

def siteResumed (customDomains : List String) : Proxies :=
  run (fun s event => (Proxies.step siteTerms s event).1) {} [.newProxy (siteOf customDomains) {}, .resume]

theorem proxySignature_identifies_shop :
    proxySignature (siteOf ["a.shop"]) ≠ proxySignature (siteOf ["b.shop"]) := by
  have keyed : (siteOf ["a.shop"]).Keyed := by decide
  have differ : ¬(["a.shop"] : List String).Perm ["b.shop"] := by decide
  have told : (siteOf ["a.shop"]).Told (siteOf ["b.shop"]) := by
    refine .inr ⟨⟨?_, ?_, ?_⟩, ⟨?_, ?_, ?_⟩, .inr (.inl ⟨(["a.shop"], ["b.shop"]), List.mem_cons_self, differ, ?_, ?_⟩)⟩
    · decide
    · decide
    · decide
    · decide
    · decide
    · decide
    · decide
    · decide
  refine mt ((proxySignature_identifies _).2.1 _ keyed told).mp fun agrees => differ ?_
  exact (List.forall₂_cons.mp agrees.lists).1

/-- One domain with a comma in it looks like two, and what was registered for the one is
used again for the two. -/
theorem proxySignature_hides_shop :
    proxySignature (siteOf ["a.shop,b.shop"]) = proxySignature (siteOf ["a.shop", "b.shop"]) ∧
      ¬(siteOf ["a.shop,b.shop"]).Agrees (siteOf ["a.shop", "b.shop"]) ∧
      ((siteResumed ["a.shop,b.shop"]).registerProxy shopConfig (siteOf ["a.shop", "b.shop"]) true {}).2 =
        .registered "" true := by
  refine ⟨by decide +kernel, fun agrees => ?_, by decide +kernel⟩
  have domains := (List.forall₂_cons.mp agrees.lists).1
  exact absurd domains.length_eq (by decide)

end Nfrp
