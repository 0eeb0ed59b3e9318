import Nfrp.Lib.Runs
import Nfrp.Nlink.Genuine
import Nfrp.Nlink.Pending

/-!
# Tokens that are used once

The table of tokens that wait is used by all connections, one operation after the other.
Whether a token is accepted is told by the operations before: the last that decided about
its session has to be the one that issued it.
-/

namespace Nfrp.Nlink

open Lib

/-- The operations of the table with what their clocks show.  The clock is read before the
table is locked, or while it is; `wall` is the clock that tokens are signed by. -/
inductive TokenEvent where
  | issue (now : Nat) (session : ConnectionId) (token : String) (ttl : Nat)
  | consume (now wall : Nat) (session : ConnectionId) (token user clientId : String)
  | forget (session : ConnectionId)
  | sweep (now : Nat)

/-- What the clock showed; where it is not read, nothing. -/
def TokenEvent.now : TokenEvent → Nat
  | .issue now _ _ _ | .consume now _ _ _ _ _ | .sweep now => now
  | .forget _ => 0

def TokenEvent.issues (session : ConnectionId) (token : String) : TokenEvent → Bool
  | .issue _ owner issued _ => owner = session ∧ issued = token
  | _ => false

namespace PendingTokens

def forget (session : ConnectionId) (pending : PendingTokens) : PendingTokens :=
  pending.erase session

def sweep (now : Nat) (pending : PendingTokens) : PendingTokens :=
  dropExpired IssuedToken.expiresAt now pending

variable (prims : Primitives) (key : List UInt8)

def step (pending : PendingTokens) : TokenEvent → PendingTokens
  | .issue now session token ttl => pending.issue now session token ttl
  | .consume now wall session token user clientId => (pending.consume prims key now wall session token user clientId).1
  | .forget session => pending.forget session
  | .sweep now => pending.sweep now

def spends (pending : PendingTokens) : TokenEvent → Bool
  | .consume now wall session token user clientId =>
    (pending.consume prims key now wall session token user clientId).2.map Except.isOk = some true
  | _ => false

/-- The operation decides about the session: another token waits there, or none. -/
def Decides (session : ConnectionId) (pending : PendingTokens) : TokenEvent → Prop
  | .issue _ owner _ _ | .forget owner => owner = session
  | .consume now wall owner token user clientId =>
    owner = session ∧ spends prims key pending (.consume now wall owner token user clientId)
  | .sweep _ => False

def accepts (session : ConnectionId) (token : String) (pending : PendingTokens) (event : TokenEvent) : Bool :=
  match event with
  | .consume _ _ owner presented _ _ => owner = session ∧ presented = token ∧ spends prims key pending event
  | _ => false

def spent (session : ConnectionId) (token : String) : PendingTokens → List TokenEvent → Nat
  | _, [] => 0
  | pending, event :: events =>
    (if accepts prims key session token pending event then 1 else 0) +
      spent session token (step prims key pending event) events

variable {prims key} {pending : PendingTokens} {session : ConnectionId} {token user clientId : String} {now wall : Nat}
  {entry : IssuedToken}

theorem spends_iff : spends prims key pending (.consume now wall session token user clientId) ↔
    ∃ entry, live IssuedToken.expiresAt now pending session = some entry ∧ entry.token = token ∧
      verifyResume prims key token session user clientId wall = some (.ok ()) := by
  have spending := congrArg Prod.snd (@spends_of_consume prims key now wall session token user clientId pending)
  dsimp only at spending
  rw [spends, spending, decide_eq_true_eq, spend_accepts_iff]

theorem spend_of_refused {waits : Option IssuedToken}
    (refused : (spend prims key wall session token user clientId waits).2 ≠ some true) :
    (spend prims key wall session token user clientId waits).1 = waits := by
  cases waits with
  | none => rfl
  | some entry =>
    rw [spend] at refused ⊢
    split at refused
    next verified =>
      split at refused
      · exact absurd rfl refused
      next other => rw [if_neg other]
    · rfl
    · rfl

theorem live_of_spends (spends : spends prims key pending (.consume now wall session token user clientId)) :
    live IssuedToken.expiresAt now (pending.consume prims key now wall session token user clientId).1 session = none := by
  have spending := congrArg Prod.fst (@spends_of_consume prims key now wall session token user clientId pending)
  obtain ⟨entry, waits, same, verified⟩ := spends_iff.mp spends
  dsimp only at spending
  rw [spending, waits, spend, verified]
  dsimp only
  rw [if_pos same]

/-- What waits under a name stays where the operation does not decide about it. -/
theorem live_step {later : Nat} {event : TokenEvent} (order : event.now ≤ later)
    (undecided : ¬Decides prims key session pending event) :
    live IssuedToken.expiresAt later (step prims key pending event) session =
      live IssuedToken.expiresAt later pending session := by
  cases event with
  | issue now owner token ttl =>
    have order : now ≤ later := order
    rw [live_later order, live_later order, step, live_issue_of_ne (Ne.symm undecided)]
  | consume now wall owner token user clientId =>
    have order : now ≤ later := order
    rw [live_later order, live_later order, step]
    by_cases same : owner = session
    · subst same
      have refused : ¬spends prims key pending (.consume now wall owner token user clientId) :=
        fun accepted => undecided ⟨rfl, accepted⟩
      have spending := @spends_of_consume prims key now wall owner token user clientId pending
      have isVerdict := congrArg Prod.snd spending
      have isLeft := congrArg Prod.fst spending
      dsimp only at isVerdict isLeft
      rw [spends, isVerdict, decide_eq_true_eq] at refused
      rw [isLeft, spend_of_refused refused]
    · rw [live_consume_of_ne (Ne.symm same)]
  | forget owner => exact live_erase_of_ne (Ne.symm undecided)
  | sweep now =>
    have order : now ≤ later := order
    rw [live_later order, live_later order, step, PendingTokens.sweep, live_dropExpired]

/-- Where the operation decides and a token waits behind it, it is the one it issued. -/
theorem live_step_of_decides {later : Nat} {event : TokenEvent} (order : event.now ≤ later)
    (decides : Decides prims key session pending event) :
    live IssuedToken.expiresAt later (step prims key pending event) session = some entry ↔
      ∃ now ttl, event = .issue now session entry.token ttl ∧ entry.expiresAt = now + ttl ∧ later < now + ttl := by
  have nothing : live IssuedToken.expiresAt later (step prims key pending event) session = none →
      (∀ now token ttl, event ≠ .issue now session token ttl) →
      (live IssuedToken.expiresAt later (step prims key pending event) session = some entry ↔
        ∃ now ttl, event = .issue now session entry.token ttl ∧ entry.expiresAt = now + ttl ∧ later < now + ttl) := by
    intro isNone other
    rw [isNone]
    constructor
    · rintro ⟨⟩
    · rintro ⟨now, ttl, isIssue, -⟩
      exact absurd isIssue (other _ _ _)
  cases event with
  | issue now owner token ttl =>
    obtain rfl : owner = session := decides
    rw [live_eq_some_iff, step, PendingTokens.issue, AList.lookup_insert, Option.some_inj]
    constructor
    · rintro ⟨rfl, counts⟩
      exact ⟨now, ttl, rfl, rfl, counts⟩
    · rintro ⟨issued, given, isIssue, isExpiry, counts⟩
      obtain ⟨rfl, -, rfl, rfl⟩ := TokenEvent.issue.inj isIssue
      exact ⟨by rw [← isExpiry], isExpiry ▸ counts⟩
  | consume now wall owner token user clientId =>
    obtain ⟨rfl, accepted⟩ := decides
    refine nothing ?_ (by rintro _ _ _ ⟨⟩)
    have order : now ≤ later := order
    rw [live_later order, step, live_of_spends accepted]
    rfl
  | forget owner =>
    obtain rfl : owner = session := decides
    exact nothing live_erase_self (by rintro _ _ _ ⟨⟩)
  | sweep now => exact absurd decides id

/-- A token is accepted exactly where it is right, the last operation that decided about the
session issued it, and its time is not over. -/
theorem spends_run_iff {history : List TokenEvent} (order : ∀ event ∈ history, event.now ≤ now) :
    spends prims key (run (step prims key) ∅ history) (.consume now wall session token user clientId) ↔
      verifyResume prims key token session user clientId wall = some (.ok ()) ∧
        ∃ before issued ttl after, history = before ++ .issue issued session token ttl :: after ∧ now < issued + ttl ∧
          RunMeets (step prims key) (fun pending event => ¬Decides prims key session pending event)
            (step prims key (run (step prims key) ∅ before) (.issue issued session token ttl)) after := by
  have waits := fun entry => @observed_run_iff _ _ _ (step prims key)
    (fun pending => live IssuedToken.expiresAt now pending session) (Decides prims key session) history
    (fun event member _ => live_step (order event member)) ∅ entry
  rw [spends_iff]
  constructor
  · rintro ⟨entry, isWaiting, rfl, verified⟩
    refine ⟨verified, ?_⟩
    rcases (waits entry).mp isWaiting with ⟨before, event, after, isHistory, decides, isSet, kept⟩ | ⟨isThere, -⟩
    · have member : event ∈ history := by
        rw [isHistory]
        exact List.mem_append_right _ List.mem_cons_self
      obtain ⟨issued, ttl, rfl, -, counts⟩ := (live_step_of_decides (order event member) decides).mp isSet
      exact ⟨before, issued, ttl, after, isHistory, counts, kept⟩
    · rw [live_empty] at isThere
      cases isThere
  · rintro ⟨verified, before, issued, ttl, after, isHistory, counts, kept⟩
    have member : .issue issued session token ttl ∈ history := by
      rw [isHistory]
      exact List.mem_append_right _ List.mem_cons_self
    refine ⟨⟨token, issued + ttl⟩, (waits _).mpr (.inl ⟨before, _, after, isHistory, rfl, ?_, kept⟩), rfl, verified⟩
    exact (live_step_of_decides (order _ member) rfl).mpr ⟨issued, ttl, rfl, rfl, counts⟩

/-- Whether the token waits under the name of the session, though its time may be over. -/
def waiting (session : ConnectionId) (token : String) (pending : PendingTokens) : Nat :=
  if (pending.lookup session).any (·.token = token) then 1 else 0

theorem waiting_le_one : pending.waiting session token ≤ 1 := by
  rw [waiting]
  split
  · exact Nat.le_refl 1
  · exact Nat.zero_le 1

theorem waiting_of_lookup {other : PendingTokens} (same : ∀ entry, other.lookup session = some entry →
    pending.lookup session = some entry) : other.waiting session token ≤ pending.waiting session token := by
  rw [waiting, waiting]
  cases found : other.lookup session with
  | none => exact Nat.zero_le _
  | some entry => rw [same entry found]

theorem lookup_of_lookup_dropExpired {entry : IssuedToken}
    (found : (dropExpired IssuedToken.expiresAt now pending).lookup session = some entry) :
    pending.lookup session = some entry := by
  rw [lookup_dropExpired] at found
  exact (live_eq_some_iff.mp found).1

theorem lookup_of_lookup_erase {owner : ConnectionId} {entry : IssuedToken}
    (found : (pending.erase owner).lookup session = some entry) : pending.lookup session = some entry := by
  by_cases same : session = owner
  · rw [same, AList.lookup_erase] at found
    cases found
  · rwa [AList.lookup_erase_ne same] at found

theorem lookup_of_lookup_consume {owner : ConnectionId} {entry : IssuedToken}
    (found : (pending.consume prims key now wall owner token user clientId).1.lookup session = some entry) :
    pending.lookup session = some entry := by
  rw [consume] at found
  split at found
  · exact found
  split at found
  · exact lookup_of_lookup_erase found
  split at found
  · split at found
    · exact found
    · exact lookup_of_lookup_erase found
  · exact found

theorem waiting_of_spends (spends : spends prims key pending (.consume now wall session token user clientId)) :
    pending.waiting session token = 1 ∧
      (pending.consume prims key now wall session token user clientId).1.waiting session token = 0 := by
  obtain ⟨entry, isLive, same, verified⟩ := spends_iff.mp spends
  obtain ⟨found, counts⟩ := live_eq_some_iff.mp isLive
  constructor
  · rw [waiting, found, Option.any_some, if_pos (decide_eq_true same)]
  · rw [consume, found]
    dsimp only
    rw [if_neg (Nat.not_le_of_lt counts), verified]
    dsimp only
    rw [if_neg (not_not.mpr same), waiting, AList.lookup_erase]
    rfl

/-- Where the operation does not issue the token, it waits only if it waited before, and not if it is accepted. -/
theorem waiting_step {event : TokenEvent} (noIssue : event.issues session token = false) :
    (if accepts prims key session token pending event then 1 else 0) + (step prims key pending event).waiting session token ≤
      pending.waiting session token := by
  cases event with
  | issue now owner issued ttl =>
    have other : ¬(owner = session ∧ issued = token) := of_decide_eq_false noIssue
    have fewer : (step prims key pending (.issue now owner issued ttl)).waiting session token ≤
        pending.waiting session token := by
      by_cases same : owner = session
      · subst same
        rw [step, issue, waiting, AList.lookup_insert, Option.any_some,
          if_neg fun isToken => other ⟨rfl, of_decide_eq_true isToken⟩]
        exact Nat.zero_le _
      · refine waiting_of_lookup fun entry found => ?_
        rw [step, issue, AList.lookup_insert_ne (Ne.symm same)] at found
        exact lookup_of_lookup_dropExpired found
    have notSpent : accepts prims key session token pending (.issue now owner issued ttl) = false := rfl
    rwa [notSpent, if_neg Bool.false_ne_true, Nat.zero_add]
  | consume now wall owner presented user clientId =>
    rw [accepts]
    split
    next accepted =>
      obtain ⟨rfl, rfl, spends⟩ := of_decide_eq_true accepted
      obtain ⟨before, after⟩ := waiting_of_spends spends
      rw [step, after, before]
    next =>
      rw [Nat.zero_add]
      exact waiting_of_lookup fun _ found => lookup_of_lookup_consume found
  | forget owner =>
    have notSpent : accepts prims key session token pending (.forget owner) = false := rfl
    rw [notSpent, if_neg Bool.false_ne_true, Nat.zero_add]
    exact waiting_of_lookup fun _ found => lookup_of_lookup_erase found
  | sweep now =>
    have notSpent : accepts prims key session token pending (.sweep now) = false := rfl
    rw [notSpent, if_neg Bool.false_ne_true, Nat.zero_add]
    exact waiting_of_lookup fun _ found => lookup_of_lookup_dropExpired found

theorem accepts_of_issues {event : TokenEvent} (isIssue : event.issues session token = true) :
    accepts prims key session token pending event = false := by
  cases event with
  | issue => rfl
  | consume => exact absurd isIssue Bool.false_ne_true
  | forget => rfl
  | sweep => rfl

/-- A token is accepted no more often than it was issued or waits already. -/
theorem spent_le (prims : Primitives) (key : List UInt8) (session : ConnectionId) (token : String) (pending : PendingTokens)
    (events : List TokenEvent) :
    spent prims key session token pending events ≤
      pending.waiting session token + events.countP (·.issues session token) := by
  induction events generalizing pending with
  | nil => exact Nat.zero_le _
  | cons event events ih =>
    have later := ih (step prims key pending event)
    rw [spent, List.countP_cons]
    cases isIssue : event.issues session token with
    | true =>
      have most := @waiting_le_one (step prims key pending event) session token
      rw [accepts_of_issues isIssue, if_neg Bool.false_ne_true, if_pos rfl]
      omega
    | false =>
      have fewer := @waiting_step prims key pending session token event isIssue
      rw [if_neg Bool.false_ne_true]
      omega

end PendingTokens

/-- Whatever the operations before, a token is accepted exactly where the last one that decided
about its session issued it and its time is not over; and in no run more often than it was issued. -/
theorem oneTime (prims : Primitives) (key : List UInt8) (history : List TokenEvent) (session : ConnectionId)
    (token : String) :
    (∀ now wall user clientId, (∀ event ∈ history, event.now ≤ now) →
      (PendingTokens.spends prims key (run (PendingTokens.step prims key) ∅ history)
          (.consume now wall session token user clientId) ↔
        verifyResume prims key token session user clientId wall = some (.ok ()) ∧
          ∃ before issued ttl after, history = before ++ .issue issued session token ttl :: after ∧ now < issued + ttl ∧
            RunMeets (PendingTokens.step prims key)
              (fun pending event => ¬PendingTokens.Decides prims key session pending event)
              (PendingTokens.step prims key (run (PendingTokens.step prims key) ∅ before)
                (.issue issued session token ttl)) after)) ∧
      PendingTokens.spent prims key session token ∅ history ≤ history.countP (·.issues session token) := by
  refine ⟨fun now wall user clientId order => PendingTokens.spends_run_iff order, ?_⟩
  have most := PendingTokens.spent_le prims key session token ∅ history
  have nothing : PendingTokens.waiting session token ∅ = 0 := rfl
  rwa [nothing, Nat.zero_add] at most

/-- A token of a branch office, and one for another session that is issued behind it. -/
theorem oneTime_branch :
    ∃ token, PendingTokens.spends (resumeCodes branchSession "alice" "laptop") []
      (run (PendingTokens.step (resumeCodes branchSession "alice" "laptop") []) ∅
        [.issue 0 branchSession token 60, .issue 5 (.replicate 16 9) token 60, .sweep 10])
      (.consume 20 20 branchSession token "alice" "laptop") := by
  have issued := checkedAdd_of_lt (show 0 + max 60 1 < 2 ^ 64 by decide)
  obtain ⟨token, isToken⟩ : ∃ token, issueResume (resumeCodes branchSession "alice" "laptop") [] branchSession "alice"
      "laptop" 60 0 (.replicate 16 0) = some token := by
    rw [issueResume, issued]
    exact ⟨_, rfl⟩
  refine ⟨token, ((oneTime _ _ _ _ _).1 20 20 "alice" "laptop" (by simp [TokenEvent.now])).mpr ⟨?_, [], 0, 60, _, rfl,
    by decide, ?_, ?_, trivial⟩⟩
  · exact verifyResume_issueResume isToken (by decide) (by decide)
  · exact fun same => absurd (show (.replicate 16 9 : ConnectionId) = branchSession from same) (by decide)
  · exact id

end Nfrp.Nlink
