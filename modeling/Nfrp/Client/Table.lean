import Mathlib.Data.List.Sort
import Nfrp.Lib.Maps
import Nfrp.Client.Validate

/-!
# The proxies of a client

The table in which the connections look up their proxy, the store that keeps what
was added at run time, and how the two are put together with the configuration
at the start.
-/

namespace Nfrp.Client

open Lib

inductive ProxyOrigin where
  | config
  | dynamic
  deriving DecidableEq, Repr

structure ProxyEntry where
  cfg : ProxyConfig
  origin : ProxyOrigin
  deriving DecidableEq, Repr

/-- By the name in the configuration, without the user. -/
structure ProxyTable where
  inner : AList fun _ : String => ProxyEntry

namespace ProxyTable

def fromIter (items : List ProxyConfig) : ProxyTable :=
  ⟨items.foldl (fun map p => map.insert p.name ⟨p, .config⟩) ∅⟩

variable (t : ProxyTable)

def loadDynamic (items : List ProxyConfig) : ProxyTable :=
  ⟨items.foldl (fun map p => if (map.lookup p.name).isSome then map else map.insert p.name ⟨p, .dynamic⟩) t.inner⟩

def lookup (name : String) : Option ProxyEntry :=
  t.inner.lookup name

def get (name : String) : Option ProxyConfig :=
  (t.lookup name).map (·.cfg)

def originOf (name : String) : Option ProxyOrigin :=
  (t.lookup name).map (·.origin)

/-- In no particular order. -/
def names : List String :=
  t.inner.keys

def insertDynamic (p : ProxyConfig) : Except String (Option ProxyConfig × ProxyTable) :=
  if t.originOf p.name = some .config then
    .error ("代理 [" ++ p.name ++ "] 来自本机配置文件，远程下发不能覆盖它；请在本机改配置文件（或换个名字）")
  else .ok (t.get p.name, ⟨t.inner.insert p.name ⟨p, .dynamic⟩⟩)

def removeDynamic (name : String) : Except String (Option ProxyConfig × ProxyTable) :=
  if t.originOf name = some .config then
    .error ("代理 [" ++ name ++ "] 来自本机配置文件，远程下发不能删除它；请在本机改配置文件")
  else .ok (t.get name, ⟨t.inner.erase name⟩)

def insert (p : ProxyConfig) : ProxyTable :=
  ⟨t.inner.insert p.name ⟨p, (t.originOf p.name).getD .dynamic⟩⟩

def remove (name : String) : ProxyTable :=
  ⟨t.inner.erase name⟩

variable {t}

theorem lookup_insert (p : ProxyConfig) (name : String) :
    (t.insert p).lookup name =
      if name = p.name then some ⟨p, (t.originOf p.name).getD .dynamic⟩ else t.lookup name :=
  lookup_insert_eq ..

theorem lookup_remove (removed name : String) :
    (t.remove removed).lookup name = if name = removed then none else t.lookup name :=
  lookup_erase_eq ..

theorem insertDynamic_eq_ok {p : ProxyConfig} {old : Option ProxyConfig} {after : ProxyTable}
    (inserted : t.insertDynamic p = .ok (old, after)) :
    t.originOf p.name ≠ some .config ∧
      ∀ name, after.lookup name = if name = p.name then some ⟨p, .dynamic⟩ else t.lookup name := by
  rw [insertDynamic] at inserted
  split at inserted
  · cases inserted
  next notConfig =>
    refine ⟨notConfig, fun name => ?_⟩
    rw [← (Prod.mk.inj (Except.ok.inj inserted)).2]
    exact lookup_insert_eq ..

theorem removeDynamic_eq_ok {removed : String} {old : Option ProxyConfig} {after : ProxyTable}
    (done : t.removeDynamic removed = .ok (old, after)) :
    t.originOf removed ≠ some .config ∧ old = t.get removed ∧
      ∀ name, after.lookup name = if name = removed then none else t.lookup name := by
  rw [removeDynamic] at done
  split at done
  · cases done
  next notConfig =>
    obtain ⟨isOld, rfl⟩ := Prod.mk.inj (Except.ok.inj done)
    exact ⟨notConfig, isOld.symm, fun name => lookup_erase_eq ..⟩

theorem lookup_fromIter (items : List ProxyConfig) (name : String) :
    (fromIter items).lookup name = ((items.reverse.find? (·.name = name)).map (⟨·, .config⟩) : Option ProxyEntry) := by
  rw [lookup, fromIter, lookup_foldl_insert ProxyConfig.name, AList.lookup_empty, Option.or_none]

/-- Of several proxies with a name the first is taken, if the table has none. -/
theorem lookup_loadDynamic (items : List ProxyConfig) (name : String) :
    (t.loadDynamic items).lookup name =
      (t.lookup name).or ((items.find? (·.name = name)).map (⟨·, .dynamic⟩)) := by
  rw [lookup, loadDynamic, lookup]
  generalize t.inner = map
  induction items generalizing map with
  | nil => exact (Option.or_none).symm
  | cons p rest ih =>
    rw [List.foldl_cons, ih, List.find?_cons]
    by_cases isName : p.name = name
    · subst isName
      cases present : map.lookup p.name with
      | some _ => simp [present]
      | none => simp
    · have other : name ≠ p.name := fun same => isName same.symm
      split
      · simp [isName]
      · simp [isName, other]

end ProxyTable

structure StoreFile where
  version : Nat := 1
  proxies : List ProxyConfig := []

/-- What was added at run time.  Without a path nothing is kept. -/
structure Store where
  isEnabled : Bool
  inner : AList fun _ : String => ProxyConfig

namespace Store

def storeVersion : Nat := 1

/-- A file that is missing or cannot be read is passed over. -/
def fromConfig (isEnabled : Bool) (file : Option StoreFile) : Store :=
  let proxies := match file with
    | some f => if isEnabled ∧ f.version ≤ storeVersion then f.proxies else []
    | none => []
  let kept := proxies.filter fun p => p.name ≠ "" ∧ (validateRemoteProxy p true).isOk
  ⟨isEnabled, kept.foldl (fun map p => map.insert p.name p) ∅⟩

variable (s : Store)

/-- In the order of their names. -/
def dynamic : List ProxyConfig :=
  (s.inner.entries.map (·.2)).insertionSort fun p q => p.name ≤ q.name

def put (p : ProxyConfig) : Store :=
  if s.isEnabled then { s with inner := s.inner.insert p.name p } else s

def remove (name : String) : Store :=
  if s.isEnabled then { s with inner := s.inner.erase name } else s

theorem exists_file_of_mem_dynamic {isEnabled : Bool} {file : Option StoreFile} {p : ProxyConfig}
    (member : p ∈ (fromConfig isEnabled file).dynamic) : ∃ f ∈ file, p ∈ f.proxies := by
  have general : ∀ (kept : List ProxyConfig) (map : AList fun _ : String => ProxyConfig) name,
      (kept.foldl (fun map p => map.insert p.name p) map).lookup name = some p → p ∈ kept ∨ map.lookup name = some p := by
    intro kept
    induction kept with
    | nil => exact fun _ _ found => .inr found
    | cons q rest ih =>
      intro map name found
      rcases ih _ _ found with later | earlier
      · exact .inl (List.mem_cons_of_mem _ later)
      · rw [lookup_insert_eq] at earlier
        split at earlier
        · exact .inl (Option.some.inj earlier ▸ List.mem_cons_self)
        · exact .inr earlier
  rw [dynamic, List.mem_insertionSort, List.mem_map] at member
  obtain ⟨⟨name, _⟩, isEntry, rfl⟩ := member
  rcases general _ _ _ (lookup_eq_some_iff.mpr isEntry) with kept | absent
  · have isProxy := (List.mem_filter.mp kept).1
    cases file with
    | none => cases isProxy
    | some f =>
      dsimp only at isProxy
      split at isProxy
      · exact ⟨f, rfl, isProxy⟩
      · cases isProxy
  · cases absent

end Store

def mergeOne (out : List ProxyConfig) (p : ProxyConfig) : List ProxyConfig :=
  if p.name ∈ out.map (·.name) ∨ p.name = "" ∨ ¬ (validateRemoteProxy p true).isOk then out else out ++ [p]

/-- The proxies of the configuration, and those of the store with another name. -/
def mergeInitial (config stored : List ProxyConfig) : List ProxyConfig :=
  stored.foldl mergeOne config

/-- What is merged in has names of its own, and passed the check. -/
structure Restored (config stored restored : List ProxyConfig) : Prop where
  nodup : (restored.map (·.name)).Nodup
  isNew : ∀ p ∈ restored, p.name ∉ config.map (·.name)
  isStored : ∀ p ∈ restored, p ∈ stored
  passed : ∀ p ∈ restored, validateRemoteProxy p true = .ok ()

theorem Restored.nil (config stored : List ProxyConfig) : Restored config stored [] :=
  ⟨List.nodup_nil, fun _ member => (nomatch member), fun _ member => (nomatch member),
    fun _ member => (nomatch member)⟩

theorem Restored.concat {config stored restored : List ProxyConfig} {p : ProxyConfig}
    (earlier : Restored config stored restored) (isStored : p ∈ stored)
    (isNew : p.name ∉ (config ++ restored).map (·.name)) (isOk : (validateRemoteProxy p true).isOk) :
    Restored config stored (restored ++ [p]) := by
  rw [List.map_append, List.mem_append, not_or] at isNew
  have passed : validateRemoteProxy p true = .ok () := by
    cases outcome : validateRemoteProxy p true with
    | ok _ => rfl
    | error _ =>
      rw [outcome] at isOk
      cases isOk
  refine ⟨?_, ?_, ?_, ?_⟩
  · rw [List.map_append, List.map_singleton, ← List.concat_eq_append]
    exact earlier.nodup.concat isNew.2
  · exact List.forall_mem_append.mpr ⟨earlier.isNew, List.forall_mem_singleton.mpr isNew.1⟩
  · exact List.forall_mem_append.mpr ⟨earlier.isStored, List.forall_mem_singleton.mpr isStored⟩
  · exact List.forall_mem_append.mpr ⟨earlier.passed, List.forall_mem_singleton.mpr passed⟩

theorem exists_mergeInitial (config stored : List ProxyConfig) :
    ∃ restored, mergeInitial config stored = config ++ restored ∧ Restored config stored restored := by
  have general : ∀ rest : List ProxyConfig, ∀ restored, (∀ p ∈ rest, p ∈ stored) → Restored config stored restored →
      ∃ more, rest.foldl mergeOne (config ++ restored) = config ++ more ∧ Restored config stored more := by
    intro rest
    induction rest with
    | nil => exact fun restored _ earlier => ⟨restored, rfl, earlier⟩
    | cons p rest ih =>
      intro restored areStored earlier
      have restStored := fun q member => areStored q (List.mem_cons_of_mem _ member)
      rw [List.foldl_cons, mergeOne]
      split
      · exact ih restored restStored earlier
      next isNew =>
        rw [not_or, not_or, not_not] at isNew
        rw [List.append_assoc]
        exact ih (restored ++ [p]) restStored
          (earlier.concat (areStored p List.mem_cons_self) isNew.1 isNew.2.2)
  have started := general stored [] (fun _ member => member) (.nil config stored)
  rw [List.append_nil] at started
  exact started

/-- The table and the merged list of proxies a client starts with. -/
def initialProxies (proxies : List ProxyConfig) (store : Store) : List ProxyConfig × ProxyTable :=
  let configProxyNames := proxies.map (·.name)
  let merged := if store.isEnabled then mergeInitial proxies store.dynamic else proxies
  let table := (ProxyTable.fromIter (merged.filter (·.name ∈ configProxyNames))).loadDynamic
    (merged.filter (·.name ∉ configProxyNames))
  (merged, table)

/-- The merged list is the configuration and what was restored; the table holds
the one, then the other. -/
theorem exists_initialProxies (proxies : List ProxyConfig) (store : Store) :
    ∃ restored, (initialProxies proxies store).1 = proxies ++ restored ∧
      Restored proxies store.dynamic restored ∧
      ∀ name, (initialProxies proxies store).2.lookup name =
        ((ProxyTable.fromIter proxies).lookup name).or ((restored.find? (·.name = name)).map (⟨·, .dynamic⟩)) := by
  have merged : ∃ restored, (if store.isEnabled then mergeInitial proxies store.dynamic else proxies) =
      proxies ++ restored ∧ Restored proxies store.dynamic restored := by
    cases store.isEnabled with
    | false => exact ⟨[], (List.append_nil _).symm, .nil _ _⟩
    | true => exact exists_mergeInitial proxies store.dynamic
  obtain ⟨restored, isMerged, isRestored⟩ := merged
  refine ⟨restored, isMerged, isRestored, fun name => ?_⟩
  have configPart : (proxies ++ restored).filter (·.name ∈ proxies.map (·.name)) = proxies := by
    rw [List.filter_append, List.filter_eq_self.mpr, List.filter_eq_nil_iff.mpr, List.append_nil]
    · exact fun p member => by simpa using isRestored.isNew p member
    · exact fun p member => by simpa using ⟨p, member, rfl⟩
  have storePart : (proxies ++ restored).filter (·.name ∉ proxies.map (·.name)) = restored := by
    rw [List.filter_append, List.filter_eq_nil_iff.mpr, List.nil_append, List.filter_eq_self.mpr]
    · exact fun p member => by simpa using isRestored.isNew p member
    · exact fun p member => by simpa using ⟨p, member, rfl⟩
  rw [initialProxies]
  dsimp only
  rw [ProxyTable.lookup_loadDynamic, isMerged, configPart, storePart]

end Nfrp.Client
