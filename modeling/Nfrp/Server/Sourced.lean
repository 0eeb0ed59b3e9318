import Nfrp.Server.Limits

/-!
# Where the entries of the proxy table come from

Every entry is the registration of one of the messages that came, and so is everything
that waits for a port.
-/

namespace Nfrp

open Lib Nfrp.Client

structure Registers (m : NewProxy) (e : ProxyEntry) : Prop where
  port : e.port = m.entry.port
  useEncryption : e.useEncryption = m.useEncryption
  useCompression : e.useCompression = m.useCompression
  proxyType : e.proxyType = m.proxyType
  signature : e.signature = proxySignature m

namespace Proxies

/-- Nothing is in the table, or about to be, but registrations of these messages. -/
structure Sourced (known : List NewProxy) (s : Proxies) : Prop where
  entries : ∀ name e, s.entries.lookup name = some e → ∃ m ∈ known, m.proxyName = name ∧ Registers m e
  binding : ∀ b ∈ s.binding, b.m ∈ known

def Event.messages (user : String) (s : Proxies) : Event → List NewProxy
  | .newProxy m _ => [{ m with proxyName := canonicalWireName user m.proxyName }]
  | .panelAck index _ _ => (s.asked[index]?.map (wire user)).toList
  | _ => []

section

variable {t : Terms} {s after : Proxies} {m : NewProxy} {known more : List NewProxy}

theorem sourced_start (known : List NewProxy) : Sourced known {} where
  entries := fun _ _ found => nomatch found
  binding := fun _ member => nomatch member

theorem Sourced.mono (sourced : Sourced known s) (subset : known ⊆ more) : Sourced more s where
  entries := by
    intro name e found
    obtain ⟨m, member, same⟩ := sourced.entries name e found
    exact ⟨m, subset member, same⟩
  binding := fun b member => subset (sourced.binding b member)

theorem Sourced.fewer (sourced : Sourced known s)
    (entries : ∀ name e, after.entries.lookup name = some e → s.entries.lookup name = some e)
    (binding : ∀ b ∈ after.binding, b ∈ s.binding) : Sourced known after where
  entries := fun name e found => sourced.entries name e (entries name e found)
  binding := fun b member => sourced.binding b (binding b member)

theorem Sourced.stopProxy (sourced : Sourced known s) (name : String) : Sourced known (s.stopProxy name) :=
  sourced.fewer (fun _ _ found => (lookup_of_erase found).2) fun _ => id

theorem Sourced.enter (sourced : Sourced known s) (member : m ∈ known) (remoteAddr : String) :
    Sourced known (s.enter m remoteAddr) where
  entries := by
    intro name e found
    rw [Proxies.enter, lookup_insert_eq] at found
    split at found
    next isName =>
      obtain rfl := Option.some.inj found
      exact ⟨m, member, isName.symm, rfl, rfl, rfl, rfl, rfl⟩
    next => exact sourced.entries name e found
  binding := sourced.binding

/-- An entry is adopted for a message it is the registration of. -/
theorem Sourced.adopt (sourced : Sourced known s) {name signature addr : String}
    (reusable : s.reusableProxy name signature = some addr) : Sourced known (s.adopt name signature addr) := by
  rw [Proxies.adopt]
  cases found : s.entries.lookup name with
  | none => exact sourced
  | some old =>
    have sameSignature : old.signature = signature := by
      rw [reusableProxy, found] at reusable
      obtain ⟨kept, isKept, -⟩ := Option.map_eq_some_iff.mp reusable
      obtain ⟨isOld, same⟩ := Option.filter_eq_some_iff.mp isKept
      rw [Option.some.inj isOld]
      exact of_decide_eq_true same
    refine ⟨forall_lookup_insert ?_ sourced.entries, sourced.binding⟩
    obtain ⟨m, member, named, registers⟩ := sourced.entries name old found
    exact ⟨m, member, named, { registers with signature := sameSignature.symm.trans registers.signature }⟩

theorem Sourced.wait (sourced : Sourced known s) (member : m ∈ known) (byControl : Bool) :
    Sourced known { s with binding := s.binding ++ [{ m, byControl }] } where
  entries := sourced.entries
  binding := by
    intro b isBound
    rcases List.mem_append.mp isBound with before | isNew
    · exact sourced.binding b before
    · rw [List.mem_singleton.mp isNew]
      exact member

theorem Sourced.registerKind (sourced : Sourced known s) (member : m ∈ known) (cfg : ServerConfig) (byControl : Bool)
    (answer : Answer) : Sourced known (registerKind cfg s m byControl answer).1 := by
  rw [Proxies.registerKind]
  split
  next =>
    split
    next => exact sourced
    next =>
      split
      next => exact sourced
      next => exact sourced.wait member byControl
      next => exact sourced.enter member _
  next =>
    split
    next =>
      split
      next => exact sourced
      next =>
        split
        next => exact sourced
        next => exact sourced.wait member byControl
        next => exact sourced
    next =>
      split
      next =>
        split
        next => exact sourced
        next => exact sourced.enter member _
      next => exact sourced

theorem Sourced.registerProxy (sourced : Sourced known s) (member : m ∈ known) (cfg : ServerConfig) (byControl : Bool)
    (answer : Answer) : Sourced known (registerProxy cfg s m byControl answer).1 := by
  rw [Proxies.registerProxy]
  split
  next => exact sourced
  next =>
    split
    next addr isReusable =>
      have reusable : s.reusableProxy m.proxyName (proxySignature m) = some addr := by
        split at isReusable
        next => exact isReusable
        next => cases isReusable
      exact sourced.adopt reusable
    next =>
      have stopped := sourced.stopProxy m.proxyName
      dsimp only
      split
      next => exact stopped
      next =>
        split
        next => exact stopped
        next => exact stopped.registerKind member cfg byControl answer

theorem sourced_change {t : Terms} {event : Event} {after : Proxies} (change : s.Change t event after)
    (sourced : Sourced known s) : Sourced (event.messages t.user s ++ known) after := by
  have kept : Sourced (event.messages t.user s ++ known) s := sourced.mono (List.subset_append_right _ _)
  cases change with
  | same => exact kept
  | newProxy m answer => exact kept.registerProxy List.mem_cons_self t.cfg true answer
  | panelAdd | panelFailed => exact kept.fewer (fun _ _ => id) fun _ => id
  | panelAck index answer p found =>
    have ended : Sourced (Event.messages t.user s (.panelAck index (.ok ()) answer) ++ known)
        { s with asked := s.asked.eraseIdx index } := kept.fewer (fun _ _ => id) fun _ => id
    have member : wire t.user p ∈ Event.messages t.user s (.panelAck index (.ok ()) answer) ++ known := by
      rw [Event.messages, found]
      exact List.mem_cons_self
    exact ended.registerProxy member t.cfg false answer
  | unbound => exact kept.fewer (fun _ _ => id) fun _ member => List.mem_of_mem_eraseIdx member
  | bound index remoteAddr b found =>
    have ended : Sourced (Event.messages t.user s (.bound index (.ok remoteAddr)) ++ known)
        { s with binding := s.binding.eraseIdx index } :=
      kept.fewer (fun _ _ => id) fun _ member => List.mem_of_mem_eraseIdx member
    exact ended.enter (kept.binding b (List.mem_of_getElem? found)) remoteAddr
  | close _ name => exact kept.stopProxy name
  | resume => exact kept.fewer (fun _ _ => id) fun _ member => (List.mem_filter.mp member).1
  | sweep => exact kept.fewer (fun _ _ found => lookup_of_retain found) fun _ => id
  | stop => exact kept.fewer (fun _ _ found => (nomatch found)) fun _ => id

theorem sourced_step (t : Terms) (event : Event) (sourced : Sourced known s) :
    Sourced (event.messages t.user s ++ known) (step t s event).1 :=
  sourced_change (change_step t s event) sourced

end

end Proxies

end Nfrp
