import Nfrp.Client.Session

/-!
# Health checks

At the start of a client a task begins for each proxy that asks for it, which probes the
service behind the proxy again and again.  What it finds is kept under the name of the proxy,
and a work connection for that name is refused after so many failures in a row.
-/

namespace Nfrp.Client.ClientState

variable (c : ClientState)

/-- What an event changes in the table, with the proxy that is waited for. -/
def change (event : Event) : Option Edit :=
  match c.session, event with
  | some s, .received m =>
    match s.phase, m with
    | .serving, .serverCmd cmd => if s.serverCmd then cmd.made c.proxies c.store c.cfg.user else none
    | .adding p, .newProxyResp _ r => if r.error = "" then none else some (.remove p.name)
    | _, _ => none
  | some ⟨_, _, .serving⟩, .addProxy p (.ok _) => if (c.proxies.get p.name).isSome then none else some (.add p)
  | some ⟨_, _, .serving⟩, .removeProxy name => (c.proxies.get name).map fun _ => .remove name
  | some ⟨_, _, .adding p⟩, .timeout | some ⟨_, _, .adding p⟩, .disconnected _ => some (.remove p.name)
  | _, _ => none

variable {c} {s : Session}

theorem get_registered (pending : List String) : (c.registered s pending).1.proxies = c.proxies := by
  simp only [registered]
  split <;> rfl

theorem get_addLive (p : ProxyConfig) (sent : Except String Unit) (name : String) :
    (c.addLive s p sent).1.proxies.get name =
      edited (match sent with
        | .ok _ => if (c.proxies.get p.name).isSome then none else some (.add p)
        | .error _ => none) c.proxies.get name := by
  by_cases present : (c.proxies.get p.name).isSome
  · cases sent <;> simp [addLive, present, edited]
  · cases sent with
    | error e =>
      simp only [addLive, present, Bool.false_eq_true, if_false, edited, get_remove, get_insert]
      by_cases isName : name = p.name <;> simp_all
    | ok _ =>
      simp only [addLive, present, Bool.false_eq_true, if_false]
      exact get_insert ..

theorem get_addAnswered (p : ProxyConfig) (r : NewProxyResp) (name : String) :
    (c.addAnswered s p r).1.proxies.get name =
      edited (if r.error = "" then none else some (.remove p.name)) c.proxies.get name := by
  by_cases accepted : r.error = ""
  · simp [addAnswered, accepted, enter, edited]
  · simp only [addAnswered, accepted, ne_eq, not_false_eq_true, if_true, if_false]
    exact get_remove ..

theorem get_step (event : Event) (name : String) :
    (c.step event).1.proxies.get name = edited (c.change event) c.proxies.get name := by
  obtain ⟨cfg, store, proxies, session⟩ := c
  rcases session with _ | ⟨serverCmd, resume, phase⟩
  · cases event with
    | login serverCmd resume => exact congrArg (·.get name) (get_registered _)
    | _ => rfl
  cases event with
  | login _ _ => cases phase <;> rfl
  | received m =>
    cases phase with
    | registering pending =>
      cases m with
      | newProxyResp _ r => exact congrArg (·.get name) (get_registered _)
      | _ => rfl
    | serving =>
      cases m with
      | serverCmd cmd => exact get_command cmd name
      | _ => rfl
    | adding p =>
      cases m with
      | newProxyResp _ r => exact get_addAnswered p r name
      | _ => rfl
  | timeout | disconnected _ =>
    cases phase with
    | adding p => exact get_remove ..
    | _ => rfl
  | addProxy p sent =>
    cases phase with
    | serving =>
      refine (get_addLive p sent name).trans ?_
      cases sent <;> rfl
    | _ => cases sent <;> rfl
  | removeProxy removed =>
    cases phase with
    | serving =>
      simp only [step, removeLive, change]
      cases proxies.get removed with
      | none => rfl
      | some _ => exact get_remove ..
    | _ => rfl

end Nfrp.Client.ClientState

namespace Nfrp.Health

open Lib Nfrp.Client

structure State where
  healthy : Bool := false
  consecutiveFailures : Nat := 0
  deriving DecidableEq, Repr

def State.new : State := ⟨true, 0⟩

abbrev States := AList fun _ : String => State

def Checked (p : ProxyConfig) : Prop :=
  p.healthCheckType ≠ ""

instance : DecidablePred Checked := fun _ => inferInstanceAs (Decidable (_ ≠ _))

def maxFailed (p : ProxyConfig) : Nat :=
  max p.healthCheckMaxFailed.toNat 1

theorem one_le_maxFailed (p : ProxyConfig) : 1 ≤ maxFailed p :=
  le_max_right _ _

theorem maxFailed_lt (p : ProxyConfig) : maxFailed p < 2 ^ 32 :=
  max_lt p.healthCheckMaxFailed.toNat_lt (by decide)

def startMonitor (proxies : List ProxyConfig) : States :=
  (proxies.filter Checked).foldl (fun states p => states.insert p.name .new) ∅

def isHealthy (states : States) (proxy : String) : Bool :=
  (states.lookup proxy).all (·.healthy)

def State.record (st : State) (ok : Bool) (maxFailed : Nat) : State :=
  if ok then ⟨true, 0⟩
  else
    let consecutiveFailures := min (st.consecutiveFailures + 1) (2 ^ 32 - 1)
    ⟨if maxFailed ≤ consecutiveFailures then false else st.healthy, consecutiveFailures⟩

def record (states : States) (wire : String) (ok : Bool) (maxFailed : Nat) : States :=
  states.insert wire (((states.lookup wire).getD {}).record ok maxFailed)

/-- The table knows proxies by their names in the configuration. -/
def resolveUploadedProxy (user wireName : String) (proxies : ProxyTable) : Option (String × ProxyConfig) :=
  let raw := stripUserPrefix user wireName
  (proxies.get raw).map (raw, ·)

inductive Refused where
  | unknown (proxyName : String)
  | unhealthy (proxyName : String)
  deriving DecidableEq, Repr

def Refused.text : Refused → String
  | unknown proxyName => "服务端指定了未知代理：" ++ proxyName
  | unhealthy proxyName => "代理 [" ++ proxyName ++ "] 健康检查未通过，暂不提供服务"

/-- A client with the proxies it probes.  `results` is what came of the probes for the proxy that
is now in the table under a name, the last first; the client does not keep it. -/
structure Watched where
  client : ClientState
  probed : List ProxyConfig
  states : States
  results : String → List Bool

inductive Event where
  | client (event : ClientState.Event)
  | probe (p : ProxyConfig) (ok : Bool)

def Event.client? : Event → Option ClientState.Event
  | client event => some event
  | probe _ _ => none

namespace Watched

variable (w : Watched)

def start (cfg : ClientConfig) (storeEnabled : Bool) (file : Option StoreFile) : Watched :=
  let client := ClientState.start cfg storeEnabled file
  ⟨client, client.cfg.proxies.filter Checked, startMonitor client.cfg.proxies, fun _ => []⟩

def step : Event → Watched
  | .client event =>
    { w with
      client := (w.client.step event).1
      results := fun name => if (w.client.change event).any (·.name = name) then [] else w.results name }
  | .probe p ok =>
    if p ∈ w.probed then
      { w with
        states := record w.states p.name ok (maxFailed p)
        results := fun name =>
          if name = p.name ∧ w.client.proxies.get name = some p then ok :: w.results name else w.results name }
    else w

def workConnFlow (proxyName : String) : Except Refused (String × ProxyConfig) :=
  match resolveUploadedProxy w.client.cfg.user proxyName w.client.proxies with
  | none => .error (.unknown proxyName)
  | some (name, p) => if isHealthy w.states name then .ok (name, p) else .error (.unhealthy name)

end Watched

def LastFailed (n : Nat) (results : List Bool) : Prop :=
  List.replicate n false <+: results

/-- A proxy is refused for its health exactly if it asks to be checked and its last probes
failed, and a proxy that asks for it is probed. -/
def Gated (w : Watched) : Prop :=
  ∀ proxyName name p, resolveUploadedProxy w.client.cfg.user proxyName w.client.proxies = some (name, p) →
    (w.workConnFlow proxyName = .error (.unhealthy name) ↔ Checked p ∧ LastFailed (maxFailed p) (w.results name)) ∧
      (Checked p → p ∈ w.probed)

theorem gated_iff_get {w : Watched} :
    Gated w ↔ ∀ name p, w.client.proxies.get name = some p →
      (isHealthy w.states name = false ↔ Checked p ∧ LastFailed (maxFailed p) (w.results name)) ∧
        (Checked p → p ∈ w.probed) := by
  have refused {proxyName name : String} {p : ProxyConfig}
      (resolved : resolveUploadedProxy w.client.cfg.user proxyName w.client.proxies = some (name, p)) :
      w.workConnFlow proxyName = .error (.unhealthy name) ↔ isHealthy w.states name = false := by
    cases healthy : isHealthy w.states name <;> simp [Watched.workConnFlow, resolved, healthy]
  constructor
  · intro gated name p found
    have resolved : resolveUploadedProxy w.client.cfg.user (addUserPrefix w.client.cfg.user name) w.client.proxies =
        some (name, p) := by simp [resolveUploadedProxy, found]
    rw [← refused resolved]
    exact gated _ name p resolved
  · intro all proxyName name p resolved
    rw [refused resolved]
    obtain ⟨q, found, same⟩ := Option.map_eq_some_iff.mp resolved
    obtain ⟨isName, rfl⟩ := Prod.mk.inj same
    exact all name q (isName ▸ found)

theorem lastFailed_cons {n : Nat} {ok : Bool} {results : List Bool} :
    LastFailed n (ok :: results) ↔ n = 0 ∨ ok = false ∧ LastFailed (n - 1) results := by
  cases n with
  | zero => simp [LastFailed]
  | succ n => simp [LastFailed, List.replicate_succ, List.cons_prefix_cons, eq_comm]

theorem lastFailed_nil {n : Nat} : LastFailed n [] ↔ n = 0 := by
  simp [LastFailed]

/-- What is kept counts the failures since the last success. -/
structure Counts (n : Nat) (results : List Bool) (st : State) : Prop where
  counted : ∀ k < 2 ^ 32, LastFailed k results ↔ k ≤ st.consecutiveFailures
  healthy : st.healthy = false ↔ n ≤ st.consecutiveFailures

theorem Counts.new {n : Nat} (positive : 1 ≤ n) : Counts n [] .new :=
  ⟨fun _ _ => lastFailed_nil.trans Nat.le_zero.symm, by simp [State.new]; omega⟩

theorem Counts.record {n : Nat} {results : List Bool} {st : State} (counts : Counts n results st) (positive : 1 ≤ n)
    (fits : n < 2 ^ 32) (ok : Bool) : Counts n (ok :: results) (st.record ok n) := by
  obtain ⟨counted, healthy⟩ := counts
  cases ok with
  | true =>
    refine ⟨fun k _ => ?_, ?_⟩
    · simp [lastFailed_cons, State.record]
    · simp [State.record]
      omega
  | false =>
    refine ⟨fun k small => ?_, ?_⟩
    · rw [lastFailed_cons, counted _ (by omega)]
      simp only [State.record, Bool.false_eq_true, if_false, true_and]
      omega
    · simp only [State.record, Bool.false_eq_true, if_false]
      split
      next reached => exact iff_of_true rfl reached
      next below =>
        rw [healthy]
        omega

/-- What is kept agrees with the table: a proxy that is probed is the one of its name, and
nothing is kept under other names. -/
structure Tracked (w : Watched) : Prop where
  keyed : ∀ name p, w.client.proxies.get name = some p → p.name = name
  isProbed : ∀ name p, w.client.proxies.get name = some p → Checked p → p ∈ w.probed
  isChecked : ∀ q ∈ w.probed, Checked q
  own : ∀ q ∈ w.probed, ∀ p, w.client.proxies.get q.name = some p →
    p = q ∧ ∃ st, w.states.lookup q.name = some st ∧ Counts (maxFailed q) (w.results q.name) st
  untouched : ∀ name, (∀ q ∈ w.probed, q.name ≠ name) → w.states.lookup name = none

theorem Tracked.gated {w : Watched} (tracked : Tracked w) : Gated w := by
  rw [gated_iff_get]
  intro name p found
  refine ⟨?_, tracked.isProbed name p found⟩
  obtain rfl := tracked.keyed name p found
  by_cases checked : Checked p
  · obtain ⟨-, st, isState, counted, healthy⟩ := tracked.own p (tracked.isProbed _ p found checked) p found
    simp [isHealthy, isState, healthy, checked, counted _ (maxFailed_lt p)]
  · have nothing : w.states.lookup p.name = none := by
      refine tracked.untouched _ fun q probed isName => checked ?_
      obtain ⟨rfl, -⟩ := tracked.own q probed p (isName ▸ found)
      exact tracked.isChecked _ probed
    simp [isHealthy, nothing, checked]

/-- Nothing that is put in the table asks to be checked or has the name of what is probed. -/
def Unprobed (probed : List ProxyConfig) (c : ClientState) (event : ClientState.Event) : Prop :=
  ∀ p, c.change event = some (.add p) → ¬Checked p ∧ ∀ q ∈ probed, q.name ≠ p.name

theorem edited_eq_some {change : Option Edit} {table : String → Option ProxyConfig} {name : String} {p : ProxyConfig}
    (found : ClientState.edited change table name = some p) :
    change = some (.add p) ∧ p.name = name ∨ ¬change.any (·.name = name) ∧ table name = some p := by
  rcases change with _ | edit
  · exact .inr ⟨by simp, found⟩
  · simp only [ClientState.edited] at found
    split at found
    next isName =>
      cases edit with
      | add q =>
        obtain rfl := Option.some.inj found
        exact .inl ⟨rfl, isName.symm⟩
      | remove _ => cases found
    next other => exact .inr ⟨by simpa [eq_comm] using other, found⟩

theorem Tracked.client {w : Watched} (tracked : Tracked w) {event : ClientState.Event}
    (unprobed : Unprobed w.probed w.client event) : Tracked (w.step (.client event)) := by
  have after : ∀ name p, (w.step (.client event)).client.proxies.get name = some p →
      w.client.change event = some (.add p) ∧ p.name = name ∨
        ¬(w.client.change event).any (·.name = name) ∧ w.client.proxies.get name = some p := fun name p found =>
    edited_eq_some ((ClientState.get_step event name).symm.trans found)
  refine ⟨fun name p found => ?_, fun name p found checked => ?_, tracked.isChecked, fun q probed p found => ?_,
    tracked.untouched⟩
  · rcases after name p found with ⟨-, isName⟩ | ⟨-, before⟩
    · exact isName
    · exact tracked.keyed name p before
  · rcases after name p found with ⟨isNew, -⟩ | ⟨-, before⟩
    · exact absurd checked (unprobed p isNew).1
    · exact tracked.isProbed name p before checked
  · rcases after q.name p found with ⟨isNew, isName⟩ | ⟨kept, before⟩
    · exact absurd isName.symm ((unprobed p isNew).2 q probed)
    · simp only [Watched.step, kept]
      exact tracked.own q probed p before

theorem Tracked.probe {w : Watched} (tracked : Tracked w) (q : ProxyConfig) (ok : Bool) :
    Tracked (w.step (.probe q ok)) := by
  simp only [Watched.step]
  split
  next probed =>
    refine ⟨tracked.keyed, tracked.isProbed, tracked.isChecked, fun r isProbed p found => ?_, fun name other => ?_⟩
    · obtain ⟨rfl, st, isState, counts⟩ := tracked.own r isProbed p found
      refine ⟨rfl, ?_⟩
      by_cases isName : p.name = q.name
      · obtain ⟨rfl, -⟩ := tracked.own q probed p (isName ▸ found)
        simp only [record, lookup_insert_eq, if_true, isState, Option.getD_some, found, and_self]
        exact ⟨_, rfl, counts.record (one_le_maxFailed p) (maxFailed_lt p) ok⟩
      · simp only [record, lookup_insert_eq, isName, false_and, if_false]
        exact ⟨st, isState, counts⟩
    · simp only [record, lookup_insert_eq, if_neg (Ne.symm (other q probed))]
      exact tracked.untouched name other
  next => exact tracked

section

variable (cfg : ClientConfig) (storeEnabled : Bool) (file : Option StoreFile)

/-- The table has the names of the merged list, each with a proxy of the list. -/
theorem start_get (name : String) :
    ((∃ p ∈ (Watched.start cfg storeEnabled file).client.cfg.proxies, p.name = name) →
      ∃ p, (Watched.start cfg storeEnabled file).client.proxies.get name = some p) ∧
    ∀ p, (Watched.start cfg storeEnabled file).client.proxies.get name = some p →
      p ∈ (Watched.start cfg storeEnabled file).client.cfg.proxies ∧ p.name = name := by
  obtain ⟨restored, isMerged, -, lookup⟩ := exists_initialProxies cfg.proxies (.fromConfig storeEnabled file)
  simp only [Watched.start, ClientState.start, isMerged, ProxyTable.get, lookup, ProxyTable.lookup_fromIter]
  constructor
  · rintro ⟨p, member, isName⟩
    rcases List.mem_append.mp member with inConfig | inStore
    · have found : (cfg.proxies.reverse.find? (·.name = name)).isSome := by
        simpa [List.find?_isSome] using ⟨p, inConfig, isName⟩
      obtain ⟨q, isFound⟩ := Option.isSome_iff_exists.mp found
      exact ⟨q, by simp [isFound]⟩
    · have found : (restored.find? (·.name = name)).isSome := by
        simpa [List.find?_isSome] using ⟨p, inStore, isName⟩
      obtain ⟨q, isFound⟩ := Option.isSome_iff_exists.mp found
      cases cfg.proxies.reverse.find? (·.name = name) <;> simp [isFound]
  · intro p found
    obtain ⟨entry, isEntry, rfl⟩ := Option.map_eq_some_iff.mp found
    rcases Option.or_eq_some_iff.mp isEntry with written | ⟨-, kept⟩
    · obtain ⟨q, isFound, rfl⟩ := Option.map_eq_some_iff.mp written
      exact ⟨List.mem_append_left _ (List.mem_reverse.mp (List.mem_of_find?_eq_some isFound)), key_of_find? isFound⟩
    · obtain ⟨q, isFound, rfl⟩ := Option.map_eq_some_iff.mp kept
      exact ⟨List.mem_append_right _ (List.mem_of_find?_eq_some isFound), key_of_find? isFound⟩

theorem lookup_startMonitor (proxies : List ProxyConfig) (name : String) :
    (startMonitor proxies).lookup name =
      ((proxies.filter (Checked ·)).reverse.find? (·.name = name)).map fun _ => State.new := by
  rw [startMonitor, lookup_foldl_insert ProxyConfig.name (fun _ => State.new), AList.lookup_empty, Option.or_none]

variable {cfg storeEnabled file}

theorem tracked_start
    (own : ∀ q ∈ (Watched.start cfg storeEnabled file).probed,
      (Watched.start cfg storeEnabled file).client.proxies.get q.name = some q) :
    Tracked (.start cfg storeEnabled file) := by
  have inTable := fun name p found => (start_get cfg storeEnabled file name).2 p found
  refine ⟨fun name p found => (inTable name p found).2, fun name p found checked => ?_, fun q probed => ?_,
    fun q probed p found => ⟨Option.some.inj (found.symm.trans (own q probed)), .new, ?_, .new (one_le_maxFailed q)⟩,
    fun name other => ?_⟩
  · exact List.mem_filter.mpr ⟨(inTable name p found).1, decide_eq_true checked⟩
  · exact of_decide_eq_true (List.mem_filter.mp probed).2
  · have found : ((Watched.start cfg storeEnabled file).probed.reverse.find? (·.name = q.name)).isSome :=
      List.find?_isSome.mpr ⟨q, List.mem_reverse.mpr probed, decide_eq_true rfl⟩
    obtain ⟨r, isFound⟩ := Option.isSome_iff_exists.mp found
    exact (lookup_startMonitor _ _).trans (congrArg (Option.map fun _ => State.new) isFound)
  · refine (lookup_startMonitor _ _).trans (Option.map_eq_none_iff.mpr (List.find?_eq_none.mpr ?_))
    exact fun q member isName => other q (List.mem_reverse.mp member) (of_decide_eq_true isName)

end

def clientStep (c : ClientState) (event : ClientState.Event) : ClientState :=
  (c.step event).1

/-- The probed proxies are those of their names at the start, and nothing that is put in the
table later asks to be checked or has the name of one of them. -/
def Heeds (w : Watched) (events : List ClientState.Event) : Prop :=
  (∀ q ∈ w.probed, w.client.proxies.get q.name = some q) ∧ RunMeets clientStep (Unprobed w.probed) w.client events

theorem step_probe (w : Watched) (q : ProxyConfig) (ok : Bool) :
    (w.step (.probe q ok)).client = w.client ∧ (w.step (.probe q ok)).probed = w.probed := by
  simp only [Watched.step]
  split <;> exact ⟨rfl, rfl⟩

theorem Tracked.run {w : Watched} (tracked : Tracked w) (events : List Event) {edits : List ClientState.Event}
    (made : events.filterMap Event.client? <+: edits) (meets : RunMeets clientStep (Unprobed w.probed) w.client edits) :
    Tracked (run Watched.step w events) := by
  induction events generalizing w edits with
  | nil => exact tracked
  | cons event events ih =>
    cases event with
    | client event =>
      obtain ⟨rest, rfl⟩ := made
      exact ih (tracked.client meets.1) (List.prefix_append _ rest) meets.2
    | probe q ok =>
      refine ih (tracked.probe q ok) made ?_
      rw [(step_probe w q ok).1, (step_probe w q ok).2]
      exact meets

/-- Failures in a row, of which the client learns while nothing else happens. -/
theorem exists_failing (w : Watched) {q : ProxyConfig} (probed : q ∈ w.probed) (n : Nat) :
    ∃ states results, run Watched.step w (List.replicate n (.probe q false)) = ⟨w.client, w.probed, states, results⟩ ∧
      (w.client.proxies.get q.name ≠ some q → results = w.results) ∧
      min n (2 ^ 32 - 1) ≤ ((states.lookup q.name).getD {}).consecutiveFailures ∧
      (maxFailed q ≤ n → isHealthy states q.name = false) := by
  induction n with
  | zero => exact ⟨_, _, rfl, fun _ => rfl, by simp, fun none => absurd (one_le_maxFailed q) (by omega)⟩
  | succ n ih =>
    obtain ⟨states, results, isRun, kept, counted, -⟩ := ih
    rw [List.replicate_succ', run_append, isRun, run_cons, Watched.step, if_pos probed]
    refine ⟨_, _, rfl, fun other => ?_, ?_, fun enough => ?_⟩
    · funext name
      rw [kept other]
      refine if_neg ?_
      rintro ⟨rfl, isTable⟩
      exact other isTable
    · simp only [record, AList.lookup_insert, Option.getD_some, State.record, Bool.false_eq_true, if_false]
      omega
    · have reached : maxFailed q ≤ min (((states.lookup q.name).getD {}).consecutiveFailures + 1) (2 ^ 32 - 1) := by
        have := maxFailed_lt q
        omega
      simp only [isHealthy, record, AList.lookup_insert, Option.all_some, State.record, Bool.false_eq_true, if_false,
        if_pos reached]

/-- Where the runs with one more step are right, the step puts nothing in the table that asks to
be checked, and nothing under a name of the probed. -/
theorem unprobed_of_gated {w : Watched} {event : ClientState.Event}
    (gated : ∀ events : List Event, events.filterMap Event.client? = [event] → Gated (run Watched.step w events)) :
    Unprobed w.probed w.client event := by
  intro p isNew
  have found (v : Watched) (same : v.client = w.client) :
      (v.step (.client event)).client.proxies.get p.name = some p ∧ (v.step (.client event)).results p.name = [] := by
    simp [Watched.step, ClientState.get_step, same, isNew, ClientState.edited, Edit.name, Edit.left]
  have noneProbed : ∀ q ∈ w.probed, q.name ≠ p.name := by
    intro q probed isName
    obtain ⟨states, results, isRun, -, -, failed⟩ := exists_failing w probed (maxFailed q)
    have wrong := gated (List.replicate (maxFailed q) (.probe q false) ++ [.client event])
      (by simp [List.filterMap_replicate, Event.client?])
    rw [run_append, isRun] at wrong
    obtain ⟨inTable, noResults⟩ := found ⟨w.client, w.probed, states, results⟩ rfl
    obtain ⟨-, lastFailed⟩ := ((gated_iff_get.mp wrong) _ p inTable).1.mp (isName ▸ failed le_rfl)
    rw [run_cons, run, noResults, lastFailed_nil] at lastFailed
    exact absurd (one_le_maxFailed p) (by omega)
  refine ⟨fun checked => ?_, noneProbed⟩
  exact noneProbed p (((gated_iff_get.mp (gated [.client event] rfl)) _ p (found w rfl).1).2 checked) rfl

theorem runMeets_of_gated {w : Watched} {edits : List ClientState.Event}
    (gated : ∀ events : List Event, events.filterMap Event.client? <+: edits → Gated (run Watched.step w events)) :
    RunMeets clientStep (Unprobed w.probed) w.client edits := by
  induction edits generalizing w with
  | nil => exact trivial
  | cons edit edits ih =>
    refine ⟨unprobed_of_gated fun events made => gated events (made ▸ List.prefix_append [edit] edits), ?_⟩
    exact @ih (w.step (.client edit)) fun events made =>
      gated (.client edit :: events) (List.cons_prefix_cons.mpr ⟨rfl, made⟩)

/-- Whatever the probes find between the steps of a client, exactly the proxies whose last
probes failed are refused for their health and every proxy that asks for it is probed, if and only if
the steps heed what is probed from the start. -/
theorem healthGated_iff (cfg : ClientConfig) (storeEnabled : Bool) (file : Option StoreFile)
    (edits : List ClientState.Event) :
    (∀ events : List Event, events.filterMap Event.client? <+: edits →
      Gated (run Watched.step (.start cfg storeEnabled file) events)) ↔
      Heeds (.start cfg storeEnabled file) edits := by
  constructor
  · intro gated
    constructor
    · intro q probed
      by_contra other
      obtain ⟨p, inTable⟩ := (start_get cfg storeEnabled file q.name).1 ⟨q, (List.mem_filter.mp probed).1, rfl⟩
      obtain ⟨states, results, isRun, kept, -, failed⟩ := exists_failing _ probed (maxFailed q)
      have wrong := gated (List.replicate (maxFailed q) (.probe q false)) (by simp [List.filterMap_replicate, Event.client?])
      rw [isRun, kept other] at wrong
      obtain ⟨-, lastFailed⟩ := ((gated_iff_get.mp wrong) _ p inTable).1.mp (failed le_rfl)
      rw [Watched.start, lastFailed_nil] at lastFailed
      exact absurd (one_le_maxFailed p) (by omega)
    · exact runMeets_of_gated gated
  · rintro ⟨own, meets⟩ events made
    exact ((tracked_start own).run events made meets).gated

/-- A proxy that takes the place of a failed one is refused without a check of its own; one that
asks for a check is not probed. -/
theorem not_gated_added :
    let web : ProxyConfig :=
      { name := "web", localAddr := "127.0.0.1:80", healthCheckType := "tcp", healthCheckMaxFailed := 1 }
    let served : List Event :=
      [.client (.login false false), .client (.received (.newProxyResp 0 { proxyName := "web" })), .probe web false,
        .client (.removeProxy "web")]
    let added (p : ProxyConfig) : Watched :=
      run Watched.step (.start { proxies := [web] } false none) (served ++ [.client (.addProxy p (.ok ()))])
    ¬Gated (added { name := "web", localAddr := "127.0.0.1:8080" }) ∧
      ¬Gated (added { name := "api", localAddr := "127.0.0.1:8080", healthCheckType := "tcp" }) := by
  constructor
  · intro gated
    exact (((gated_iff_get.mp gated) "web" { name := "web", localAddr := "127.0.0.1:8080" } rfl).1.mp rfl).1 rfl
  · intro gated
    have probed := ((gated_iff_get.mp gated) "api"
      { name := "api", localAddr := "127.0.0.1:8080", healthCheckType := "tcp" } rfl).2 (by decide)
    exact absurd (congrArg ProxyConfig.name (List.mem_singleton.mp probed)) (by decide)

end Nfrp.Health
