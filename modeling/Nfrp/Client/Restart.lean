import Nfrp.Client.Session

/-!
# A client that is started again

Every change at run time is written to the file of the store, and the next start
reads it back.  What is kept are the proxies that were added at run time: the file
of the configuration alone says which proxies come from there.
-/

namespace Nfrp.Client

open Lib

inductive Disk where
  | missing
  | unreadable (raw : String)
  | parsed (f : StoreFile)

def Disk.read : Disk → Option StoreFile
  | .parsed f => some f
  | _ => none

namespace Store

variable (s : Store)

def flush : Disk :=
  .parsed ⟨storeVersion, s.dynamic⟩

def edited : Option Edit → Store
  | some (.add p) => s.put p
  | some (.remove name) => s.remove name
  | none => s

/-- What an edit leaves in the file: to forget a proxy that is not there is no
reason to write. -/
def written (disk : Disk) : Option Edit → Disk
  | some (.add p) => if s.isEnabled then (s.put p).flush else disk
  | some (.remove name) => if s.isEnabled ∧ name ∈ s.inner then (s.remove name).flush else disk
  | none => disk

def Accepts (p : ProxyConfig) : Prop :=
  p.name ≠ "" ∧ validateRemoteProxy p true = .ok ()

/-- Every proxy stands under its name, and would be let in again. -/
def Sound : Prop :=
  ∀ name p, s.inner.lookup name = some p → p.name = name ∧ Accepts p

variable {s}

theorem accepts_iff (p : ProxyConfig) : Accepts p ↔ p.name ≠ "" ∧ (validateRemoteProxy p true).isOk := by
  rw [Accepts]
  refine and_congr_right fun _ => ?_
  cases validateRemoteProxy p true with
  | ok _ => exact ⟨fun _ => rfl, fun _ => rfl⟩
  | error _ => exact ⟨fun same => (nomatch same), fun isOk => (nomatch isOk)⟩

/-- What is kept of a list of proxies: of several with a name the last. -/
theorem lookup_fromConfig {file : StoreFile} (isOld : file.version ≤ storeVersion) (name : String) :
    (fromConfig true (some file)).inner.lookup name =
      (file.proxies.filter fun p => p.name ≠ "" ∧ (validateRemoteProxy p true).isOk).reverse.find? (·.name = name) := by
  rw [fromConfig]
  simp only [isOld, and_self, if_true]
  rw [lookup_foldl_insert ProxyConfig.name (fun p => p), AList.lookup_empty, Option.or_none, Option.map_id']

theorem isEnabled_fromConfig (file : Option StoreFile) : (fromConfig true file).isEnabled = true := rfl

theorem sound_fromConfig (file : Option StoreFile) : (fromConfig true file).Sound := by
  intro name p found
  cases file with
  | none => cases found
  | some f =>
    by_cases isOld : f.version ≤ storeVersion
    · rw [lookup_fromConfig isOld] at found
      have member := List.mem_filter.mp (List.mem_reverse.mp (List.mem_of_find?_eq_some found))
      exact ⟨key_of_find? found, (accepts_iff p).mpr (of_decide_eq_true member.2)⟩
    · simp [fromConfig, isOld] at found

theorem lookup_put (enabled : s.isEnabled = true) (p : ProxyConfig) (name : String) :
    (s.put p).inner.lookup name = if name = p.name then some p else s.inner.lookup name := by
  rw [put, if_pos enabled]
  exact lookup_insert_eq ..

theorem lookup_remove (enabled : s.isEnabled = true) (removed name : String) :
    (s.remove removed).inner.lookup name = if name = removed then none else s.inner.lookup name := by
  rw [remove, if_pos enabled]
  exact lookup_erase_eq ..

theorem lookup_edited (enabled : s.isEnabled = true) (edit : Option Edit) (name : String) :
    (s.edited edit).inner.lookup name = ClientState.edited edit s.inner.lookup name := by
  cases edit with
  | none => rfl
  | some edit =>
    cases edit with
    | add p => exact lookup_put enabled p name
    | remove removed => exact lookup_remove enabled removed name

theorem isEnabled_edited (edit : Option Edit) : (s.edited edit).isEnabled = s.isEnabled := by
  cases edit with
  | none => rfl
  | some edit =>
    cases edit with
    | add p => exact (apply_ite Store.isEnabled _ _ _).trans (ite_self _)
    | remove removed => exact (apply_ite Store.isEnabled _ _ _).trans (ite_self _)

theorem Sound.after_edit (sound : s.Sound) (enabled : s.isEnabled = true) {edit : Option Edit}
    (accepts : ∀ p, edit = some (.add p) → Accepts p) : (s.edited edit).Sound := by
  intro name p found
  rw [lookup_edited enabled] at found
  cases edit with
  | none => exact sound name p found
  | some edit =>
    rw [ClientState.edited] at found
    split at found
    next isName =>
      cases edit with
      | add q =>
        obtain rfl := Option.some.inj found
        exact ⟨isName.symm, accepts q rfl⟩
      | remove _ => cases found
    · exact sound name p found

theorem mem_dynamic {p : ProxyConfig} : p ∈ s.dynamic ↔ ∃ name, s.inner.lookup name = some p := by
  rw [dynamic, List.mem_insertionSort, List.mem_map]
  constructor
  · rintro ⟨⟨name, _⟩, isEntry, rfl⟩
    exact ⟨name, lookup_eq_some_iff.mpr isEntry⟩
  · rintro ⟨name, found⟩
    exact ⟨⟨name, p⟩, lookup_eq_some_iff.mp found, rfl⟩

theorem Sound.nodup_dynamic (sound : s.Sound) : (s.dynamic.map (·.name)).Nodup := by
  have sameNames : (s.inner.entries.map (·.2)).map (·.name) = s.inner.entries.map Sigma.fst := by
    rw [List.map_map]
    exact List.map_congr_left fun entry isEntry => (sound entry.1 entry.2 (lookup_eq_some_iff.mpr isEntry)).1
  have sorted : (s.dynamic.map (·.name)).Perm (s.inner.entries.map Sigma.fst) := by
    rw [← sameNames]
    exact (List.perm_insertionSort _ _).map _
  exact sorted.nodup_iff.mpr s.inner.nodupKeys

theorem Sound.find?_dynamic (sound : s.Sound) (name : String) :
    s.dynamic.find? (·.name = name) = s.inner.lookup name := by
  ext p
  rw [find?_key_eq_some_iff sound.nodup_dynamic, mem_dynamic]
  constructor
  · rintro ⟨⟨other, found⟩, rfl⟩
    rw [(sound other p found).1]
    exact found
  · exact fun found => ⟨⟨name, found⟩, (sound name p found).1⟩

theorem Sound.lookup_flush (sound : s.Sound) (name : String) :
    (fromConfig true s.flush.read).inner.lookup name = s.inner.lookup name := by
  rw [flush, Disk.read, lookup_fromConfig le_rfl, List.filter_eq_self.mpr, find?_key_reverse sound.nodup_dynamic,
    sound.find?_dynamic]
  intro p member
  obtain ⟨other, found⟩ := mem_dynamic.mp member
  exact decide_eq_true ((accepts_iff p).mp (sound other p found).2)

/-- A file that holds what the store holds still does after an edit. -/
theorem Sound.lookup_written (sound : s.Sound) (enabled : s.isEnabled = true) {edit : Option Edit}
    (accepts : ∀ p, edit = some (.add p) → Accepts p) {disk : Disk}
    (onDisk : ∀ name, (fromConfig true disk.read).inner.lookup name = s.inner.lookup name) (name : String) :
    (fromConfig true (s.written disk edit).read).inner.lookup name = (s.edited edit).inner.lookup name := by
  have afterwards := sound.after_edit enabled accepts
  cases edit with
  | none => exact onDisk name
  | some edit =>
    cases edit with
    | add p =>
      rw [written, if_pos enabled]
      exact afterwards.lookup_flush name
    | remove removed =>
      rw [written]
      by_cases isThere : removed ∈ s.inner
      · rw [if_pos ⟨enabled, isThere⟩]
        exact afterwards.lookup_flush name
      · rw [if_neg fun both => isThere both.2, onDisk]
        have absent : s.inner.lookup removed = none := by rwa [AList.lookup_eq_none]
        rw [edited, lookup_remove enabled]
        split
        next isName => rw [isName, absent]
        · rfl

end Store

/-- A proxy with a name of its own that would be let in is merged in. -/
theorem mem_mergeInitial {config stored : List ProxyConfig} {p : ProxyConfig} (member : p ∈ stored)
    (nodup : (stored.map (·.name)).Nodup) (isNew : p.name ∉ config.map (·.name)) (accepts : Store.Accepts p) :
    p ∈ mergeInitial config stored := by
  have grows : ∀ (rest out : List ProxyConfig), p ∈ out → p ∈ rest.foldl mergeOne out := by
    intro rest
    induction rest with
    | nil => exact fun _ there => there
    | cons q rest ih =>
      intro out there
      refine ih _ ?_
      rw [mergeOne]
      split
      · exact there
      · exact List.mem_append_left _ there
  rw [mergeInitial]
  induction stored generalizing config with
  | nil => cases member
  | cons q rest ih =>
    rw [List.map_cons, List.nodup_cons] at nodup
    rw [List.foldl_cons]
    rcases List.mem_cons.mp member with rfl | later
    · refine grows rest _ ?_
      have admitted := (Store.accepts_iff p).mp accepts
      rw [mergeOne, if_neg (by simp [isNew, admitted.1, admitted.2])]
      exact List.mem_append_right _ List.mem_cons_self
    · refine ih later nodup.2 ?_
      rw [mergeOne]
      split
      · exact isNew
      · rw [List.map_append, List.mem_append, not_or]
        refine ⟨isNew, fun same => nodup.1 ?_⟩
        have sameName : p.name = q.name := List.mem_singleton.mp same
        rw [← sameName]
        exact List.mem_map_of_mem later

/-- The table a client starts with: the proxies of the configuration, and under
every other name what the store holds. -/
theorem get_initialProxies {config : List ProxyConfig} {store : Store} (sound : store.Sound)
    (enabled : store.isEnabled = true) (name : String) :
    (initialProxies config store).2.get name =
      ((ProxyTable.fromIter config).get name).or (store.inner.lookup name) := by
  obtain ⟨restored, isMerged, isRestored, lookup⟩ := exists_initialProxies config store
  rw [ProxyTable.get, lookup, ProxyTable.get]
  cases written : (ProxyTable.fromIter config).lookup name with
  | some entry => rfl
  | none =>
    rw [ProxyTable.lookup_fromIter, Option.map_eq_none_iff, List.find?_eq_none] at written
    have isNew : name ∉ config.map (·.name) := by
      rw [List.mem_map]
      rintro ⟨p, member, isName⟩
      exact written p (List.mem_reverse.mpr member) (decide_eq_true isName)
    rw [Option.none_or, Option.map_none, Option.none_or, Option.map_map]
    refine (Option.map_id' (x := _)).trans ?_
    ext p
    rw [find?_key_eq_some_iff isRestored.nodup]
    constructor
    · rintro ⟨member, rfl⟩
      obtain ⟨other, found⟩ := Store.mem_dynamic.mp (isRestored.isStored p member)
      rw [(sound other p found).1]
      exact found
    · intro found
      obtain ⟨rfl, accepts⟩ := sound name p found
      refine ⟨?_, rfl⟩
      have merged := mem_mergeInitial (Store.mem_dynamic.mpr ⟨_, found⟩) sound.nodup_dynamic isNew accepts
      rw [initialProxies, if_pos enabled] at isMerged
      dsimp only at isMerged
      rw [isMerged] at merged
      refine (List.mem_append.mp merged).resolve_left fun ofConfig => ?_
      exact isNew (List.mem_map_of_mem ofConfig)

theorem execServerCmd_store {proxies after : ProxyTable} {store stored : Store} {cmd : ServerCmd} {user : String}
    (done : execServerCmd proxies store cmd user = .ok (after, stored)) :
    stored = store.edited (cmd.edit proxies user) ∧
      ∀ p, cmd.edit proxies user = some (.add p) → Store.Accepts p := by
  rw [execServerCmd] at done
  rw [ServerCmd.edit]
  split at done
  next isAdd =>
    rw [if_pos isAdd]
    rw [addProxyCmd] at done
    split at done
    · cases done
    next p isProxy =>
      rw [isProxy]
      split at done
      · cases done
      next isNamed =>
        split at done
        · cases done
        split at done
        · cases done
        next passed =>
          split at done
          · cases done
          · obtain ⟨-, rfl⟩ := Prod.mk.inj (Except.ok.inj done)
            refine ⟨rfl, fun q same => ?_⟩
            obtain rfl := Edit.add.inj (Option.some.inj same)
            exact ⟨isNamed, passed⟩
  next notAdd =>
    rw [if_neg notAdd]
    split at done
    next isRemove =>
      rw [if_pos isRemove]
      simp only [removeProxyCmd] at done
      split at done
      · cases done
      split at done
      · cases done
      · cases done
      · obtain ⟨-, rfl⟩ := Prod.mk.inj (Except.ok.inj done)
        refine ⟨rfl, ?_⟩
        rintro _ ⟨⟩
    · cases done

theorem applyServerCmd_store (proxies : ProxyTable) (store : Store) (cmd : ServerCmd) (user : String) :
    (applyServerCmd proxies store cmd user).2.2 = store.edited (cmd.made proxies store user) ∧
      ∀ p, cmd.made proxies store user = some (.add p) → Store.Accepts p := by
  rw [applyServerCmd, ServerCmd.made]
  cases done : execServerCmd proxies store cmd user with
  | ok kept => exact execServerCmd_store done
  | error _ =>
    refine ⟨rfl, ?_⟩
    rintro _ ⟨⟩

namespace ClientState

/-- The proxy of the configuration is in the table, and is not waited for. -/
structure FromConfig (c : ClientState) (name : String) (p : ProxyConfig) : Prop where
  lookup : c.proxies.lookup name = some ⟨p, .config⟩
  notAdding : ∀ q ∈ c.adding, q.name ≠ name

/-- What one event does to what a restart depends on: the store follows the edits,
what it is given would be let in again unless a hand added it, and proxies of the
configuration go by hand only. -/
structure Saved (before : ClientState) (event : Event) (after : ClientState) : Prop where
  store : after.store = before.store.edited (before.edit event)
  accepts : ∀ p, before.edit event = some (.add p) → before.adding = some p ∨ Store.Accepts p
  adding : ∀ p, after.adding = some p → before.adding = some p ∨ ∃ sent, event = .addProxy p sent
  fromConfig : ∀ name p, before.FromConfig name p → event ≠ .removeProxy name → after.FromConfig name p

variable {c : ClientState} {s : Session}

theorem Saved.of_idle {before after : ClientState} {event : Event} (edit : before.edit event = none)
    (store : after.store = before.store) (proxies : after.proxies = before.proxies)
    (adding : after.adding = before.adding ∨ after.adding = none) : Saved before event after := by
  refine ⟨?_, fun p same => ?_, fun p isAdding => ?_, fun name p isConfig _ => ⟨?_, fun q isAdding => ?_⟩⟩
  · rw [edit, store]
    rfl
  · rw [edit] at same
    cases same
  · rcases adding with same | none
    · exact .inl (same ▸ isAdding)
    · rw [none] at isAdding
      cases isAdding
  · rw [proxies]
    exact isConfig.lookup
  · rcases adding with same | none
    · exact isConfig.notAdding q (same ▸ isAdding)
    · rw [none] at isAdding
      cases isAdding

theorem Saved.refl {event : Event} (edit : c.edit event = none) : Saved c event c :=
  .of_idle edit rfl rfl (.inl rfl)

theorem withdraw_saved {p : ProxyConfig} {event : Event} (isAdding : c.adding = some p)
    (edit : c.edit event = none) (reason : String) : Saved c event (c.withdraw s p reason).1 := by
  refine ⟨?_, fun q same => ?_, fun _ waits => (nomatch waits), fun name q isConfig _ => ⟨?_, fun _ waits => (nomatch waits)⟩⟩
  · rw [edit]
    rfl
  · rw [edit] at same
    cases same
  · have other := isConfig.notAdding p isAdding
    rw [withdraw, enter, ProxyTable.lookup_remove, if_neg (Ne.symm other)]
    exact isConfig.lookup

theorem addAnswered_saved {p : ProxyConfig} {answers : Nat} {r : NewProxyResp} (isAdding : c.adding = some p)
    (edit : c.edit (.received (.newProxyResp answers r)) = if r.error = "" then some (.add p) else none) :
    Saved c (.received (.newProxyResp answers r)) (c.addAnswered s p r).1 := by
  rw [addAnswered]
  by_cases accepted : r.error = ""
  · rw [if_neg (not_not.mpr accepted)]
    rw [if_pos accepted] at edit
    refine ⟨?_, fun q same => .inl ?_, ?_, fun name q isConfig _ => ⟨isConfig.lookup, ?_⟩⟩
    · rw [edit]
      rfl
    · rw [edit] at same
      rw [isAdding, Edit.add.inj (Option.some.inj same)]
    · rintro _ ⟨⟩
    · rintro _ ⟨⟩
  · rw [if_pos accepted]
    rw [if_neg accepted] at edit
    exact withdraw_saved isAdding edit _

theorem addLive_saved {p : ProxyConfig} {sent : Except String Unit} (edit : c.edit (.addProxy p sent) = none) :
    Saved c (.addProxy p sent) (c.addLive s p sent).1 := by
  rw [addLive]
  split
  · exact .refl edit
  next isNew =>
    have other : ∀ name q, c.FromConfig name q → name ≠ p.name := by
      rintro name q isConfig rfl
      rw [ProxyTable.get, isConfig.lookup] at isNew
      exact isNew rfl
    have kept : ∀ name q, c.FromConfig name q → (c.proxies.insert p).lookup name = some ⟨q, .config⟩ := by
      intro name q isConfig
      rw [ProxyTable.lookup_insert, if_neg (other name q isConfig)]
      exact isConfig.lookup
    cases sent with
    | error e =>
      refine ⟨?_, fun q same => ?_, fun _ isAdding => .inl isAdding, fun name q isConfig _ =>
        ⟨?_, isConfig.notAdding⟩⟩
      · rw [edit]
        rfl
      · rw [edit] at same
        cases same
      · rw [ProxyTable.lookup_remove, if_neg (other name q isConfig)]
        exact kept name q isConfig
    | ok _ =>
      refine ⟨?_, fun q same => ?_, fun q isAdding => .inr ⟨.ok (), ?_⟩, fun name q isConfig _ =>
        ⟨kept name q isConfig, fun r isAdding => ?_⟩⟩
      · rw [edit]
        rfl
      · rw [edit] at same
        cases same
      · obtain rfl := Option.some.inj isAdding
        rfl
      · obtain rfl := Option.some.inj isAdding
        exact Ne.symm (other name q isConfig)

theorem removeLive_saved {name : String}
    (edit : c.edit (.removeProxy name) = (c.proxies.get name).map fun _ => .remove name) :
    Saved c (.removeProxy name) (c.removeLive name).1 := by
  rw [removeLive]
  cases present : c.proxies.get name with
  | none =>
    rw [present] at edit
    exact .refl edit
  | some _ =>
    rw [present] at edit
    refine ⟨?_, fun p same => ?_, fun _ isAdding => .inl isAdding, fun other p isConfig stays =>
      ⟨?_, isConfig.notAdding⟩⟩
    · rw [edit]
      rfl
    · rw [edit] at same
      cases same
    · have isOther : other ≠ name := fun same => stays (same ▸ rfl)
      rw [ProxyTable.lookup_remove, if_neg isOther]
      exact isConfig.lookup

theorem command_saved {cmd : ServerCmd} (edit : c.edit (.received (.serverCmd cmd)) =
      if s.serverCmd then cmd.made c.proxies c.store c.cfg.user else none) :
    Saved c (.received (.serverCmd cmd)) (c.command s cmd).1 := by
  rw [command]
  split
  next serves =>
    rw [if_pos serves] at edit
    obtain ⟨store, accepts⟩ := applyServerCmd_store c.proxies c.store cmd c.cfg.user
    refine ⟨?_, fun p same => .inr (accepts p (edit ▸ same)), fun _ isAdding => .inl isAdding, fun name p isConfig _ =>
      ⟨?_, isConfig.notAdding⟩⟩
    · rw [edit]
      exact store
    · dsimp only
      rcases applyServerCmd_cases c.proxies c.store cmd c.cfg.user with ⟨-, same⟩ | ⟨edit, -, -, commanded⟩
      · rw [same]
        exact isConfig.lookup
      · rw [commanded.lookup, if_neg ?_]
        · exact isConfig.lookup
        · rintro rfl
          refine commanded.notConfig ?_
          rw [ProxyTable.originOf, isConfig.lookup]
          rfl
  next serves =>
    rw [if_neg serves] at edit
    exact .refl edit

theorem registered_saved {pending : List String} {event : Event} (edit : c.edit event = none) :
    Saved c event (c.registered s pending).1 := by
  rw [registered]
  split
  · exact .of_idle edit rfl rfl (.inr rfl)
  · exact .of_idle edit rfl rfl (.inr rfl)

theorem step_saved (c : ClientState) (event : Event) : Saved c event (c.step event).1 := by
  obtain ⟨cfg, store, proxies, session⟩ := c
  cases session with
  | none =>
    cases event with
    | login serverCmd resume => exact registered_saved rfl
    | _ => exact .refl rfl
  | some s =>
    obtain ⟨serverCmd, resume, phase⟩ := s
    cases phase with
    | registering pending =>
      cases event with
      | received m =>
        cases m with
        | newProxyResp answers r => exact registered_saved rfl
        | _ => exact .refl rfl
      | timeout => exact .of_idle rfl rfl rfl (.inr rfl)
      | disconnected e => exact .of_idle rfl rfl rfl (.inr rfl)
      | _ => exact .refl rfl
    | serving =>
      cases event with
      | received m =>
        cases m with
        | serverCmd cmd => exact command_saved rfl
        | _ => exact .refl rfl
      | timeout => exact .of_idle rfl rfl rfl (.inr rfl)
      | disconnected e => exact .of_idle rfl rfl rfl (.inr rfl)
      | addProxy p sent => exact addLive_saved rfl
      | removeProxy name => exact removeLive_saved rfl
      | login _ _ => exact .refl rfl
    | adding p =>
      cases event with
      | received m =>
        cases m with
        | newProxyResp answers r => exact addAnswered_saved rfl rfl
        | _ => exact .refl rfl
      | timeout => exact withdraw_saved rfl rfl _
      | disconnected e => exact withdraw_saved rfl rfl _
      | _ => exact .refl rfl

end ClientState

/-- What the page of the client lets in: who asks there sits at this host. -/
def hubAccepts (p : ProxyConfig) : Prop :=
  ¬ isBlank p.name ∧ ¬ isBlank p.proxyType ∧ validateRemoteProxy p false = .ok ()

structure Installation where
  client : ClientState
  disk : Disk

namespace Installation

open ClientState (Event)

def start (cfg : ClientConfig) (disk : Disk) : Installation :=
  ⟨.start cfg true disk.read, disk⟩

def step (i : Installation) (event : Event) : Installation :=
  ⟨(i.client.step event).1, i.client.store.written i.disk (i.client.edit event)⟩

def restart (i : Installation) (cfg : ClientConfig) : Installation :=
  start cfg i.disk

/-- A proxy that is added by hand is one the store would let in. -/
def Portable (_ : Installation) (event : Event) : Prop :=
  ∀ p sent, event = .addProxy p sent → hubAccepts p ∧ validateRemoteProxy p true = .ok ()

/-- The store has what was added at run time, and so has the file. -/
structure Durable (cfg : ClientConfig) (i : Installation) : Prop where
  admits : i.client.Admits
  enabled : i.client.store.isEnabled = true
  sound : i.client.store.Sound
  adding : ∀ p ∈ i.client.adding, Store.Accepts p
  onDisk : ∀ name, (Store.fromConfig true i.disk.read).inner.lookup name = i.client.store.inner.lookup name
  settled : ∀ name, (ProxyTable.fromIter cfg.proxies).get name = none →
    i.client.settled name = i.client.store.inner.lookup name

variable {cfg : ClientConfig} {disk : Disk} {i : Installation}

theorem durable_start (cfg : ClientConfig) (disk : Disk) : (start cfg disk).Durable cfg := by
  refine ⟨fun p isAdding => (nomatch isAdding), Store.isEnabled_fromConfig _, Store.sound_fromConfig _,
    fun p isAdding => (nomatch isAdding), fun name => rfl, fun name isNew => ?_⟩
  rw [ClientState.settled_of_idle rfl, start, ClientState.start]
  dsimp only
  rw [get_initialProxies (Store.sound_fromConfig _) rfl, isNew, Option.none_or]

theorem Durable.step (durable : i.Durable cfg) {event : Event} (portable : i.Portable event) :
    (i.step event).Durable cfg := by
  have stepped := ClientState.step_stepped durable.admits event
  have saved := ClientState.step_saved i.client event
  have accepts : ∀ p, i.client.edit event = some (.add p) → Store.Accepts p := by
    intro p isEdit
    rcases saved.accepts p isEdit with waiting | passed
    · exact durable.adding p waiting
    · exact passed
  refine ⟨stepped.admits, ?_, ?_, fun p isAdding => ?_, fun name => ?_, fun name isNew => ?_⟩
  · exact (congrArg Store.isEnabled saved.store).trans ((Store.isEnabled_edited _).trans durable.enabled)
  · rw [Installation.step, saved.store]
    exact durable.sound.after_edit durable.enabled accepts
  · rcases saved.adding p isAdding with earlier | ⟨sent, isAdd⟩
    · exact durable.adding p earlier
    · obtain ⟨byHand, passed⟩ := portable p sent isAdd
      refine ⟨fun empty => byHand.1 ?_, passed⟩
      rw [empty]
      rfl
  · rw [Installation.step, saved.store]
    exact durable.sound.lookup_written durable.enabled accepts durable.onDisk name
  · rw [Installation.step, stepped.settled, saved.store, Store.lookup_edited durable.enabled]
    cases i.client.edit event with
    | none => exact durable.settled name isNew
    | some edit => rw [ClientState.edited, ClientState.edited, durable.settled name isNew]

theorem Durable.get_restart (durable : i.Durable cfg) (name : String) :
    (i.restart cfg).client.proxies.get name =
      ((ProxyTable.fromIter cfg.proxies).get name).or (i.client.store.inner.lookup name) := by
  rw [restart, start, ClientState.start]
  dsimp only
  rw [get_initialProxies (Store.sound_fromConfig _) rfl, durable.onDisk]

theorem disk_step (i : Installation) (event : Event) :
    (i.step event).disk = i.disk ∨ ∃ proxies, (i.step event).disk = .parsed ⟨Store.storeVersion, proxies⟩ := by
  rw [Installation.step]
  cases i.client.edit event with
  | none => exact .inl rfl
  | some edit =>
    cases edit with
    | add p =>
      dsimp only
      rw [Store.written]
      split
      · exact .inr ⟨_, rfl⟩
      · exact .inl rfl
    | remove name =>
      dsimp only
      rw [Store.written]
      split
      · exact .inr ⟨_, rfl⟩
      · exact .inl rfl

theorem disk_run (cfg : ClientConfig) (disk : Disk) (events : List Event) :
    let reached := run step (start cfg disk) events
    reached.disk = disk ∨ ∃ proxies, reached.disk = .parsed ⟨Store.storeVersion, proxies⟩ := by
  have preserved : ∀ (i : Installation) (event : Event),
      (i.disk = disk ∨ ∃ proxies, i.disk = .parsed ⟨Store.storeVersion, proxies⟩) →
      (i.step event).disk = disk ∨ ∃ proxies, (i.step event).disk = .parsed ⟨Store.storeVersion, proxies⟩ := by
    intro i event earlier
    rcases disk_step i event with same | written
    · rw [same]
      exact earlier
    · exact .inr written
  exact run_invariant preserved (.inl rfl) events

theorem fromConfig_run {name : String} {p : ProxyConfig} {events : List Event}
    (initially : i.client.FromConfig name p) (stays : .removeProxy name ∉ events) :
    (run step i events).client.FromConfig name p := by
  induction events generalizing i with
  | nil => exact initially
  | cons event events ih =>
    rw [List.mem_cons, not_or] at stays
    have next := (ClientState.step_saved i.client event).fromConfig name p initially (Ne.symm stays.1)
    exact ih (i := i.step event) next stays.2

theorem fromConfig_start {name : String} {p : ProxyConfig}
    (found : (ProxyTable.fromIter cfg.proxies).get name = some p) :
    (start cfg disk).client.FromConfig name p := by
  obtain ⟨entry, lookup, rfl⟩ := Option.map_eq_some_iff.mp found
  refine ⟨?_, fun q isAdding => (nomatch isAdding)⟩
  obtain ⟨restored, -, -, lookupInitial⟩ := exists_initialProxies cfg.proxies (.fromConfig true disk.read)
  rw [start, ClientState.start]
  dsimp only
  rw [lookupInitial, lookup, Option.some_or]
  rw [ProxyTable.lookup_fromIter, Option.map_eq_some_iff] at lookup
  obtain ⟨q, -, rfl⟩ := lookup
  rfl

theorem settled_of_fromConfig {name : String} {p : ProxyConfig} (isConfig : i.client.FromConfig name p) :
    i.client.settled name = some p := by
  rw [ClientState.settled, if_neg ?_, ProxyTable.get, isConfig.lookup]
  · rfl
  · cases adding : i.client.adding with
    | none => exact Bool.false_ne_true
    | some q => simpa using isConfig.notAdding q adding

/-- Wherever a run is stopped, the next start has the proxies the client had, but for
those of the configuration that a hand had removed; these come back.  A file that
was passed over stays as it is until a proxy is added or removed, and then is
written anew. -/
theorem restart_restores (cfg : ClientConfig) (disk : Disk) (events : List Event)
    (portable : RunMeets step Portable (start cfg disk) events) :
    let reached := run step (start cfg disk) events
    (∀ name, (reached.restart cfg).client.proxies.get name = reached.client.settled name ∨
      .removeProxy name ∈ events ∧ ∃ p, (ProxyTable.fromIter cfg.proxies).get name = some p ∧
        (reached.restart cfg).client.proxies.get name = some p) ∧
    (RunMeets step (fun i event => i.client.edit event = none) (start cfg disk) events → reached.disk = disk) ∧
    (reached.disk = disk ∨ ∃ proxies, reached.disk = .parsed ⟨Store.storeVersion, proxies⟩) := by
  have durable : (run step (start cfg disk) events).Durable cfg :=
    run_invariant_of_meets (fun i event isPortable (earlier : i.Durable cfg) => earlier.step isPortable)
      (durable_start cfg disk) portable
  refine ⟨fun name => ?_, fun unedited => ?_, disk_run cfg disk events⟩
  · rw [durable.get_restart]
    cases configured : (ProxyTable.fromIter cfg.proxies).get name with
    | none =>
      rw [Option.none_or]
      exact .inl (durable.settled name configured).symm
    | some p =>
      by_cases removed : .removeProxy name ∈ events
      · exact .inr ⟨removed, p, rfl, rfl⟩
      · exact .inl (settled_of_fromConfig (fromConfig_run (fromConfig_start configured) removed)).symm
  · have preserved : ∀ (i : Installation) (event : Event), i.client.edit event = none →
        i.disk = disk → (i.step event).disk = disk := by
      intro i event isNone same
      rw [step, isNone]
      exact same
    exact run_invariant_of_meets preserved rfl unedited

def web : ProxyConfig :=
  { name := "web", localAddr := "127.0.0.1:80" }

def ssh : ProxyConfig :=
  { name := "ssh", localAddr := "127.0.0.1:22" }

theorem restart_restores_ssh :
    let events : List Event := [.login true true, .received (.newProxyResp 0 ⟨"web", "", ""⟩),
      .addProxy ssh (.ok ()), .received (.newProxyResp 1 ⟨"ssh", "", ""⟩)]
    let reached := run step (start { proxies := [web] } .missing) events
    reached.client.settled "ssh" = some ssh ∧
      (reached.restart { proxies := [web] }).client.proxies.get "ssh" = some ssh := by
  intro events reached
  have portable : RunMeets step Portable (start { proxies := [web] } .missing) events := by
    refine ⟨fun p sent same => (nomatch same), fun p sent same => (nomatch same), fun p sent same => ?_,
      fun p sent same => (nomatch same), trivial⟩
    obtain ⟨rfl, -⟩ := Event.addProxy.inj same
    exact ⟨⟨by decide +kernel, by decide +kernel, by decide +kernel⟩, by decide +kernel⟩
  have held : reached.client.settled "ssh" = some ssh := by decide +kernel
  refine ⟨held, ?_⟩
  rcases (restart_restores { proxies := [web] } .missing events portable).1 "ssh" with same | ⟨removed, -⟩
  · exact same.trans held
  · simp [events] at removed

/-- A proxy of the configuration that was removed by hand, and a file that could not
be read and was written anew. -/
theorem not_restart_restores :
    let events : List Event := [.login true true, .received (.newProxyResp 0 ⟨"web", "", ""⟩),
      .removeProxy "web", .addProxy ssh (.ok ()), .received (.newProxyResp 1 ⟨"ssh", "", ""⟩)]
    let reached := run step (start { proxies := [web] } (.unreadable "")) events
    hubAccepts ssh ∧ reached.client.adding = none ∧ reached.client.proxies.get "web" = none ∧
      (reached.restart { proxies := [web] }).client.proxies.get "web" = some web ∧
      reached.disk ≠ .unreadable "" := by
  refine ⟨⟨by decide +kernel, by decide +kernel, by decide +kernel⟩, rfl, by decide +kernel, by decide +kernel, ?_⟩
  exact fun same => (nomatch same)

end Installation

end Nfrp.Client
