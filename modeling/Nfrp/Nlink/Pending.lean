import Nfrp.Lib.Expiring
import Nfrp.Nlink.Frame
import Nfrp.Server.Work

/-!
# Tokens and sessions that wait

Under the name of a session wait the token that was issued last and the client of a
connection that broke.  Each operation goes by what waits under its own name, unexpired,
and leaves the other names as they are.
-/

namespace Nfrp.Nlink

open Lib

structure IssuedToken where
  token : String
  expiresAt : Nat
  deriving DecidableEq, Repr

abbrev PendingTokens := AList fun _ : ConnectionId => IssuedToken

namespace PendingTokens

def issue (now : Nat) (session : ConnectionId) (token : String) (ttl : Nat) (pending : PendingTokens) : PendingTokens :=
  (dropExpired IssuedToken.expiresAt now pending).insert session ⟨token, now + ttl⟩

variable (prims : Primitives)

/-- `wall` is what the clock on the wall shows, which the token was signed by. -/
def consume (key : List UInt8) (now wall : Nat) (session : ConnectionId) (token user clientId : String)
    (pending : PendingTokens) : PendingTokens × Option (Except String Unit) :=
  match pending.lookup session with
  | none => (pending, some (.error "该会话没有待用的续传令牌（未签发或已被使用）"))
  | some entry =>
    if entry.expiresAt ≤ now then (pending.erase session, some (.error "续传令牌已过期"))
    else
      match verifyResume prims key token session user clientId wall with
      | some (.ok ()) =>
        if entry.token ≠ token then (pending, some (.error "续传令牌与本次签发的不一致"))
        else (pending.erase session, some (.ok ()))
      | verdict => (pending, verdict)

/-- What becomes of a token that waits when one is presented. -/
def spend (key : List UInt8) (wall : Nat) (session : ConnectionId) (token user clientId : String) :
    Option IssuedToken → Option IssuedToken × Option Bool
  | none => (none, some false)
  | some entry =>
    match verifyResume prims key token session user clientId wall with
    | some (.ok ()) => if entry.token = token then (none, some true) else (some entry, some false)
    | some (.error _) => (some entry, some false)
    | none => (some entry, none)

variable {prims} {key : List UInt8} {now wall ttl : Nat} {session other : ConnectionId} {token user clientId : String}
  {pending : PendingTokens}

theorem live_issue_self (positive : 0 < ttl) :
    live IssuedToken.expiresAt now (pending.issue now session token ttl) session = some ⟨token, now + ttl⟩ :=
  live_insert_self (Nat.lt_add_of_pos_right positive)

theorem live_issue_of_ne (different : other ≠ session) :
    live IssuedToken.expiresAt now (pending.issue now session token ttl) other =
      live IssuedToken.expiresAt now pending other := by
  rw [issue, live_insert_of_ne different, live_dropExpired]

theorem spends_of_consume :
    (live IssuedToken.expiresAt now (pending.consume prims key now wall session token user clientId).1 session,
      (pending.consume prims key now wall session token user clientId).2.map Except.isOk) =
      spend prims key wall session token user clientId (live IssuedToken.expiresAt now pending session) := by
  rw [consume]
  cases found : pending.lookup session with
  | none =>
    have nothing : live IssuedToken.expiresAt now pending session = none := by rw [live, found, Option.filter_none]
    rw [nothing]
    rfl
  | some entry =>
    dsimp only
    by_cases expired : entry.expiresAt ≤ now
    · have nothing : live IssuedToken.expiresAt now pending session = none := by
        rw [live, found, Option.filter_some_neg]
        simpa using expired
      rw [if_pos expired, nothing, live_erase_self]
      rfl
    · have waits : live IssuedToken.expiresAt now pending session = some entry :=
        live_eq_some_iff.mpr ⟨found, Nat.lt_of_not_le expired⟩
      rw [if_neg expired, waits, spend]
      rcases verifyResume prims key token session user clientId wall with _ | _ | _
      · rw [waits]
        rfl
      · rw [waits]
        rfl
      · dsimp only
        by_cases same : entry.token = token
        · rw [if_neg (not_not.mpr same), if_pos same, live_erase_self]
          rfl
        · rw [if_pos same, if_neg same, waits]
          rfl

theorem spend_accepts_iff {waits : Option IssuedToken} :
    (spend prims key wall session token user clientId waits).2 = some true ↔
      ∃ entry, waits = some entry ∧ entry.token = token ∧
        verifyResume prims key token session user clientId wall = some (.ok ()) := by
  constructor
  · intro accepts
    cases waits with
    | none => cases accepts
    | some entry =>
      rw [spend] at accepts
      split at accepts
      next verified =>
        split at accepts
        next same => exact ⟨entry, rfl, same, verified⟩
        · cases accepts
      · cases accepts
      · cases accepts
  · rintro ⟨entry, rfl, same, verified⟩
    rw [spend, verified]
    dsimp only
    rw [if_pos same]

theorem live_consume_of_ne (different : other ≠ session) :
    live IssuedToken.expiresAt now (pending.consume prims key now wall session token user clientId).1 other =
      live IssuedToken.expiresAt now pending other := by
  rw [consume]
  cases pending.lookup session with
  | none => rfl
  | some entry =>
    dsimp only
    split
    · exact live_erase_of_ne different
    split
    · split
      · rfl
      · exact live_erase_of_ne different
    · rfl

end PendingTokens

/-- Of every connection that has been, the one there is of these. -/
structure ConnKey where
  user : String
  clientId : String
  number : Nat
  deriving DecidableEq, Repr

structure Identity where
  user : String
  clientId : String
  deriving DecidableEq, Repr

def ConnKey.identity (key : ConnKey) : Identity :=
  ⟨key.user, key.clientId⟩

/-- A client is made by a connection, and two are the same one where that is. -/
structure ClientState where
  made : ConnKey
  version : WireVersion
  udpBinary : Bool
  caps : NfrpCaps
  stopped : Bool := false
  deriving DecidableEq, Repr

structure SuspendedSession where
  client : ClientState
  expiresAt : Nat
  deriving DecidableEq, Repr

def SuspendedSession.identity (entry : SuspendedSession) : Identity :=
  entry.client.made.identity

abbrev Suspended := AList fun _ : ConnectionId => SuspendedSession

namespace Suspended

def sweep (now : Nat) (suspended : Suspended) : Suspended :=
  dropExpired SuspendedSession.expiresAt now suspended

/-- Another client is not pushed out. -/
def suspend (now : Nat) (id : ConnectionId) (entry : SuspendedSession) (suspended : Suspended) : Suspended × Bool :=
  let kept := suspended.sweep now
  match kept.lookup id with
  | some old => if old.client.made ≠ entry.client.made then (kept, false) else (kept.insert id entry, true)
  | none => (kept.insert id entry, true)

def takeSuspendedIf (now : Nat) (id : ConnectionId) (user clientId : String) (suspended : Suspended) :
    Suspended × Option SuspendedSession :=
  match suspended.lookup id with
  | none => (suspended, none)
  | some entry =>
    if entry.expiresAt ≤ now then (suspended.erase id, none)
    else if entry.identity ≠ ⟨user, clientId⟩ then (suspended, none)
    else (suspended.erase id, some entry)

/-- What becomes of a session that waits when another is to wait in its place. -/
def park (now : Nat) (entry : SuspendedSession) : Option SuspendedSession → Option SuspendedSession
  | some old =>
    if old.client.made ≠ entry.client.made then some old else (some entry).filter fun entry => now < entry.expiresAt
  | none => (some entry).filter fun entry => now < entry.expiresAt

/-- What becomes of a session that waits when someone asks for it. -/
def reclaim (claimant : Identity) : Option SuspendedSession → Option SuspendedSession × Option SuspendedSession
  | none => (none, none)
  | some entry => if entry.identity ≠ claimant then (some entry, none) else (none, some entry)

variable {now : Nat} {id other : ConnectionId} {entry : SuspendedSession} {user clientId : String}
  {suspended : Suspended}

theorem live_suspend_self :
    live SuspendedSession.expiresAt now (suspended.suspend now id entry).1 id =
      park now entry (live SuspendedSession.expiresAt now suspended id) := by
  have inserted : live SuspendedSession.expiresAt now ((suspended.sweep now).insert id entry) id =
      (some entry).filter fun entry => now < entry.expiresAt := by
    rw [live, AList.lookup_insert]
  rw [suspend, sweep, lookup_dropExpired]
  cases waits : live SuspendedSession.expiresAt now suspended id with
  | none => exact inserted
  | some old =>
    dsimp only [park]
    split
    · rw [live_dropExpired, waits]
    · exact inserted

theorem live_suspend_of_ne (different : other ≠ id) :
    live SuspendedSession.expiresAt now (suspended.suspend now id entry).1 other =
      live SuspendedSession.expiresAt now suspended other := by
  have inserted : live SuspendedSession.expiresAt now ((suspended.sweep now).insert id entry) other =
      live SuspendedSession.expiresAt now suspended other := by
    rw [live_insert_of_ne different, sweep, live_dropExpired]
  rw [suspend]
  cases (suspended.sweep now).lookup id with
  | none => exact inserted
  | some old =>
    dsimp only
    split
    · exact live_dropExpired other
    · exact inserted

theorem reclaims_of_takeSuspendedIf :
    (live SuspendedSession.expiresAt now (suspended.takeSuspendedIf now id user clientId).1 id,
      (suspended.takeSuspendedIf now id user clientId).2) =
      reclaim ⟨user, clientId⟩ (live SuspendedSession.expiresAt now suspended id) := by
  rw [takeSuspendedIf]
  cases found : suspended.lookup id with
  | none =>
    have nothing : live SuspendedSession.expiresAt now suspended id = none := by
      rw [live, found, Option.filter_none]
    rw [nothing]
    rfl
  | some entry =>
    dsimp only
    by_cases expired : entry.expiresAt ≤ now
    · have nothing : live SuspendedSession.expiresAt now suspended id = none := by
        rw [live, found, Option.filter_some_neg]
        simpa using expired
      rw [if_pos expired, nothing, live_erase_self]
      rfl
    · have waits : live SuspendedSession.expiresAt now suspended id = some entry :=
        live_eq_some_iff.mpr ⟨found, Nat.lt_of_not_le expired⟩
      rw [if_neg expired, waits, reclaim]
      split
      · rw [waits]
      · rw [live_erase_self]

theorem live_takeSuspendedIf_of_ne (different : other ≠ id) :
    live SuspendedSession.expiresAt now (suspended.takeSuspendedIf now id user clientId).1 other =
      live SuspendedSession.expiresAt now suspended other := by
  rw [takeSuspendedIf]
  cases suspended.lookup id with
  | none => rfl
  | some entry =>
    dsimp only
    split
    · exact live_erase_of_ne different
    split
    · rfl
    · exact live_erase_of_ne different

end Suspended

end Nfrp.Nlink
