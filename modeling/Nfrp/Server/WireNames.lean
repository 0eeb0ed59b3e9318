import Nfrp.Server.Tenants

/-!
# Names on the wire

A proxy is known to the server as `{user}.{name}`, and a visitor asks for it by the same name.
Within one user this is a key.  Two users share names where one is empty, or where one is the
other with a dot and more.
-/

namespace Nfrp

open Lib Nfrp.Client

section Names

variable {user other name sent : String}

@[simp]
theorem canonicalWireName_addUserPrefix (user name : String) :
    canonicalWireName user (addUserPrefix user name) = addUserPrefix user name := by
  rw [canonicalWireName, stripUserPrefix_addUserPrefix]

theorem canonicalWireName_idempotent (user sent : String) :
    canonicalWireName user (canonicalWireName user sent) = canonicalWireName user sent :=
  canonicalWireName_addUserPrefix user _

theorem toList_addUserPrefix (nonempty : user ≠ "") (name : String) :
    (addUserPrefix user name).toList = user.toList ++ '.' :: name.toList := by
  simp [addUserPrefix, nonempty]

def Extends (user other : String) : Prop := user.toList ++ ['.'] <+: other.toList

instance (user other : String) : Decidable (Extends user other) :=
  inferInstanceAs (Decidable (_ <+: _))

structure Apart (user other : String) : Prop where
  left : user ≠ ""
  right : other ≠ ""
  notLonger : ¬ Extends user other
  notShorter : ¬ Extends other user

/-- Two names with a dot after the user have the same text only where one user goes on over the
dot of the other. -/
theorem eq_or_extends_of_append {left right n m : List Char} (same : left ++ '.' :: n = right ++ '.' :: m) :
    left = right ∨ left ++ ['.'] <+: right ∨ right ++ ['.'] <+: left := by
  rcases List.append_eq_append_iff.mp same with ⟨more, rfl, rest⟩ | ⟨more, rfl, rest⟩
  · cases more with
    | nil => exact .inl (List.append_nil left).symm
    | cons c more =>
      obtain ⟨rfl, -⟩ := List.cons.inj rest
      exact .inr (.inl ⟨more, by simp⟩)
  · cases more with
    | nil => exact .inl (List.append_nil right)
    | cons c more =>
      obtain ⟨rfl, -⟩ := List.cons.inj rest
      exact .inr (.inr ⟨more, by simp⟩)

theorem Apart.addUserPrefix_ne (apart : Apart user other) (different : user ≠ other) (name sent : String) :
    addUserPrefix user name ≠ addUserPrefix other sent := by
  intro same
  have texts := congrArg String.toList same
  rw [toList_addUserPrefix apart.left, toList_addUserPrefix apart.right] at texts
  rcases eq_or_extends_of_append texts with equal | longer | shorter
  · exact different (String.toList_injective equal)
  · exact apart.notLonger longer
  · exact apart.notShorter shorter

theorem exists_addUserPrefix_of_extends (extended : Extends user other) (sent : String) :
    ∃ name, addUserPrefix user name = addUserPrefix other sent := by
  by_cases empty : user = ""
  · exact ⟨addUserPrefix other sent, by simp [addUserPrefix, empty]⟩
  obtain ⟨more, whole⟩ := extended
  have nonempty : other ≠ "" := by
    rintro rfl
    simp at whole
  refine ⟨String.ofList (more ++ '.' :: sent.toList), String.toList_injective ?_⟩
  rw [toList_addUserPrefix empty, toList_addUserPrefix nonempty, String.toList_ofList, ← whole]
  simp

theorem exists_shared_of_not_apart (shared : ¬ Apart user other) :
    ∃ name sent, addUserPrefix user name = addUserPrefix other sent := by
  by_cases noUser : user = ""
  · exact ⟨addUserPrefix other "", "", by simp [addUserPrefix, noUser]⟩
  by_cases noOther : other = ""
  · exact ⟨"", addUserPrefix user "", by simp [addUserPrefix, noOther]⟩
  by_cases longer : Extends user other
  · obtain ⟨name, same⟩ := exists_addUserPrefix_of_extends longer ""
    exact ⟨name, "", same⟩
  by_cases shorter : Extends other user
  · obtain ⟨name, same⟩ := exists_addUserPrefix_of_extends shorter ""
    exact ⟨"", name, same.symm⟩
  · exact absurd ⟨noUser, noOther, longer, shorter⟩ shared

end Names

namespace VisitorTable

inductive Request where
  | newProxy (client : Nat) (m : NewProxy) (kind : String)
  | closeProxy (client : Nat) (name : String)
  | leave (client : Nat)

/-- `user` is whom each client has logged in as.  An announcement may bring the name with the
user or without. -/
def serve (user : Nat → String) (t : VisitorTable) : Request → VisitorTable
  | .newProxy client m kind =>
    if m.sk = "" then t
    else
      t.step (.register
        ⟨canonicalWireName (user client) m.proxyName, m.sk, m.allowUsers, user client, client, kind⟩)
  | .closeProxy client name => t.step (.remove client name)
  | .leave client => t.step (.unregisterClient client)

def empty : VisitorTable := fun _ => none

def Owned (user : Nat → String) (t : VisitorTable) : Prop :=
  ∀ name entry, t name = some entry →
    ∃ client sent, entry.providerUser = user client ∧ name = canonicalWireName (user client) sent

variable {user : Nat → String} {t : VisitorTable}

theorem Owned.filter (owned : t.Owned user) {after : VisitorTable}
    (fewer : ∀ name entry, after name = some entry → t name = some entry) : after.Owned user :=
  fun name entry isEntry => owned name entry (fewer name entry isEntry)

theorem step_register (t : VisitorTable) (entry : VisitorEntry) :
    t.step (.register entry) = t ∨ t.step (.register entry) = Function.update t entry.proxyName (some entry) := by
  rw [step, VisitorTable.register]
  cases t entry.proxyName with
  | some old => exact .inl rfl
  | none => exact .inr rfl

theorem Owned.register (owned : t.Owned user) {entry : VisitorEntry} {client : Nat} {sent : String}
    (isUser : entry.providerUser = user client) (isName : entry.proxyName = canonicalWireName (user client) sent) :
    (t.step (.register entry)).Owned user := by
  rcases step_register t entry with same | entered
  · rw [same]
    exact owned
  · rw [entered]
    intro name listed isListed
    by_cases atName : name = entry.proxyName
    · rw [atName, Function.update_self] at isListed
      cases isListed
      exact ⟨client, sent, isUser, atName.trans isName⟩
    · rw [Function.update_of_ne atName] at isListed
      exact owned name listed isListed

theorem Owned.serve (owned : t.Owned user) (request : Request) : (t.serve user request).Owned user := by
  cases request with
  | newProxy client m kind =>
    rw [VisitorTable.serve]
    split
    · exact owned
    · exact owned.register rfl rfl
  | closeProxy client name =>
    apply owned.filter
    intro listed entry isEntry
    rw [VisitorTable.serve, step, remove] at isEntry
    by_cases same : listed = name
    · rw [same, Function.update_self] at isEntry
      rw [same]
      exact (Option.filter_eq_some_iff.mp isEntry).1
    · rwa [Function.update_of_ne same] at isEntry
  | leave client =>
    apply owned.filter
    intro listed entry isEntry
    exact (Option.filter_eq_some_iff.mp isEntry).1

theorem owned_run (user : Nat → String) (requests : List Request) : (run (serve user) empty requests).Owned user := by
  apply run_invariant
  · exact fun t request owned => owned.serve request
  · rintro name entry ⟨⟩

end VisitorTable

/-- A visitor asks for the proxies of its own user, or of the one it is configured with. -/
def askedUser (own serverUser : String) : String := if serverUser = "" then own else serverUser

def visitorTarget (own serverUser serverName : String) : String := addUserPrefix (askedUser own serverUser) serverName

/-- The names on the wire are a key of the proxies of these users. -/
structure WireNames.Faithful (users : Set String) : Prop where
  idempotent : ∀ user ∈ users, ∀ sent,
    canonicalWireName user (canonicalWireName user sent) = canonicalWireName user sent
  stripped : ∀ user ∈ users, ∀ name, stripUserPrefix user (addUserPrefix user name) = name
  own : ∀ user ∈ users, ∀ p q : ProxyConfig, p.name ≠ q.name →
    canonicalWireName user (Client.NewProxy.fromConfig p user).proxyName ≠
      canonicalWireName user (Client.NewProxy.fromConfig q user).proxyName
  others : ∀ user ∈ users, ∀ other ∈ users, user ≠ other → ∀ sent received,
    canonicalWireName user sent ≠ canonicalWireName other received
  reached : ∀ (user : Nat → String), (∀ client, user client ∈ users) → ∀ requests own serverUser serverName entry,
    askedUser own serverUser ∈ users →
      run (VisitorTable.serve user) VisitorTable.empty requests (visitorTarget own serverUser serverName) = some entry →
        entry.providerUser = askedUser own serverUser

theorem wireNames_faithful_iff (users : Set String) :
    WireNames.Faithful users ↔ ∀ user ∈ users, ∀ other ∈ users, user ≠ other → Apart user other := by
  constructor
  · intro faithful user isUser other isOther different
    by_contra shared
    obtain ⟨name, sent, same⟩ := exists_shared_of_not_apart shared
    apply faithful.others user isUser other isOther different (addUserPrefix user name) (addUserPrefix other sent)
    rw [canonicalWireName_addUserPrefix, canonicalWireName_addUserPrefix, same]
  · intro apart
    have others : ∀ user ∈ users, ∀ other ∈ users, user ≠ other → ∀ sent received,
        canonicalWireName user sent ≠ canonicalWireName other received :=
      fun user isUser other isOther different sent received =>
        (apart user isUser other isOther different).addUserPrefix_ne different _ _
    refine ⟨fun user _ => canonicalWireName_idempotent user, fun user _ => stripUserPrefix_addUserPrefix user, ?_, others, ?_⟩
    · intro user _ p q different same
      rw [NewProxy.proxyName_fromConfig, NewProxy.proxyName_fromConfig, canonicalWireName_addUserPrefix,
        canonicalWireName_addUserPrefix] at same
      exact different (addUserPrefix_inj.mp same)
    · intro user areUsers requests own serverUser serverName entry isUser isEntry
      obtain ⟨client, sent, isProvider, isName⟩ := VisitorTable.owned_run user requests _ _ isEntry
      rw [isProvider]
      by_contra different
      apply others _ (areUsers client) _ isUser different sent (visitorTarget own serverUser serverName)
      rw [← isName, visitorTarget, canonicalWireName_addUserPrefix]

/-- A secret service of the user `a`, as its client announces it. -/
def dottedService : NewProxy :=
  { Client.NewProxy.fromConfig
      { name := "b.c", proxyType := "stcp", localAddr := "127.0.0.1:22", secretKey := "sk" } "a" with }

/-- The user `a` has names of the user `a.b`, and a visitor that asks for a secret service of `a.b`
gets to the one of `a`. -/
theorem not_faithful_dottedUser :
    ¬ WireNames.Faithful {"a", "a.b"} ∧
      (run (VisitorTable.serve fun _ => "a") VisitorTable.empty [.newProxy 0 dottedService "stcp"]
        (visitorTarget "a.b" "" "c")).map (·.providerUser) = some "a" := by
  constructor
  · intro faithful
    exact faithful.others "a" (by simp) "a.b" (by simp) (by decide) "b.c" "c" (by decide)
  · decide

end Nfrp
