import Nfrp.Lib.Expiring
import Nfrp.Server.Auth
import Nfrp.Server.NatFeature

/-!
Port knocking.

The accept loop of a protected port asks the table of addresses that have
knocked, and reads the probe of everyone else itself, for two seconds at most.
So a connection is judged when the loop comes to it, which is when it arrives
only where no probe is being read.
-/

namespace Nfrp.Server

open Lib Nfrp.NatHole

def knockMagic : List UInt8 := bytesOf "NFRPKNOCK"

def knockLen : Nat := knockMagic.length + 8 + 16

structure KnockRule where
  port : UInt16
  secret : String := ""
  window : Nat := 30

namespace KnockRule

def effective (rule : KnockRule) : Bool :=
  rule.secret != "" && 0 < rule.window && 0 < rule.port.toNat

def admits (rule : KnockRule) : Nat :=
  max 1 (min 3600 rule.window) * 1000

end KnockRule

def knockMac (prims : Primitives) (secret : String) (ip : IpAddr) (port : UInt16) (ts : Nat) : List UInt8 :=
  (prims.hmacSha256 (bytesOf secret)
    (bytesOf "nlink-knock-v1|" ++ bytesOf (ipText ip) ++ bytesOf "|" ++ beBytes 2 port.toNat ++ bytesOf "|" ++
      beBytes 8 ts)).toList.take 16

def buildKnock (prims : Primitives) (secret : String) (ip : IpAddr) (port : UInt16) (now : Nat) : List UInt8 :=
  knockMagic ++ (beBytes 8 now ++ knockMac prims secret ip port now)

def absDiff (a b : Nat) : Nat := (a - b) + (b - a)

def verifyKnock (prims : Primitives) (rule : KnockRule) (seq : List UInt8) (ip : IpAddr) (now : Nat) :
    Except String Unit :=
  if rule.effective = false then .error "敲门规则未启用"
  else if seq.length ≠ knockLen then .error s!"敲门序列长度不对（{seq.length}）"
  else if seq.take knockMagic.length ≠ knockMagic then .error "敲门序列魔术字不对"
  else
    let ts := ofBeBytes ((seq.drop 9).take 8)
    if rule.window < absDiff now ts then .error s!"敲门序列已过期（偏差 {absDiff now ts} 秒）"
    else
      let want := knockMac prims rule.secret ip rule.port ts
      let got := (seq.drop 17).take 16
      let diff := (got.zip want).foldl (fun acc pair => acc ||| (pair.1 ^^^ pair.2)) (0 : UInt8)
      if diff ≠ 0 then .error "敲门序列签名不匹配" else .ok ()

/-- A sequence for this address and port, made at a time no further off than the window. -/
def IsKnock (prims : Primitives) (rule : KnockRule) (ip : IpAddr) (now : Nat) (seq : List UInt8) : Prop :=
  ∃ ts < 2 ^ 64, absDiff now ts ≤ rule.window ∧ seq = buildKnock prims rule.secret ip rule.port ts

section Sequence

variable {prims : Primitives} {rule : KnockRule} {ip : IpAddr} {now : Nat} {seq : List UInt8}

theorem length_knockMagic : knockMagic.length = 9 := by decide

theorem length_knockMac (secret : String) (port : UInt16) (ts : Nat) :
    (knockMac prims secret ip port ts).length = 16 := by
  simp [knockMac]

theorem length_buildKnock (secret : String) (port : UInt16) (now : Nat) :
    (buildKnock prims secret ip port now).length = knockLen := by
  simp [buildKnock, knockLen, length_knockMac]

theorem take_drop_buildKnock (prims : Primitives) (secret : String) (ip : IpAddr) (port : UInt16) (ts : Nat) :
    (buildKnock prims secret ip port ts).take knockMagic.length = knockMagic ∧
      ((buildKnock prims secret ip port ts).drop 9).take 8 = beBytes 8 ts ∧
      ((buildKnock prims secret ip port ts).drop 17).take 16 = knockMac prims secret ip port ts := by
  have behindMagic : (buildKnock prims secret ip port ts).drop 9 = beBytes 8 ts ++ knockMac prims secret ip port ts :=
    List.drop_left' length_knockMagic
  refine ⟨List.take_left' rfl, ?_, ?_⟩
  · rw [behindMagic]
    exact List.take_left' (length_beBytes 8 ts)
  · have behindTime : (buildKnock prims secret ip port ts).drop 17 = knockMac prims secret ip port ts := by
      rw [show 17 = 9 + 8 from rfl, ← List.drop_drop, behindMagic]
      exact List.drop_left' (length_beBytes 8 ts)
    rw [behindTime]
    exact List.take_of_length_le (length_knockMac secret port ts).le

theorem fields_of_length (isLong : seq.length = knockLen) :
    seq = seq.take knockMagic.length ++ ((seq.drop 9).take 8 ++ (seq.drop 17).take 16) := by
  rw [knockLen, length_knockMagic] at isLong
  have last : (seq.drop 17).take 16 = seq.drop 17 := List.take_of_length_le (by simp; omega)
  rw [last, length_knockMagic, show 17 = 9 + 8 from rfl, ← List.drop_drop, List.take_append_drop,
    List.take_append_drop]

theorem verifyKnock_iff (isEffective : rule.effective) :
    verifyKnock prims rule seq ip now = .ok () ↔ IsKnock prims rule ip now seq := by
  have notDisabled : ¬rule.effective = false := by simp [isEffective]
  constructor
  · intro verified
    rw [verifyKnock, if_neg notDisabled] at verified
    split at verified
    · cases verified
    next isLong =>
      split at verified
      · cases verified
      next isMagic =>
        dsimp only at verified
        split at verified
        · cases verified
        next near =>
          split at verified
          · cases verified
          next same =>
            replace isLong := not_not.mp isLong
            have stampLength : ((seq.drop 9).take 8).length = 8 := by
              simp [isLong, knockLen, length_knockMagic]
            have macLength : ((seq.drop 17).take 16).length = 16 := by
              simp [isLong, knockLen, length_knockMagic]
            have isMac := ((gathered_eq_zero_iff (by rw [macLength, length_knockMac]) 0).mp (not_not.mp same)).2
            refine ⟨ofBeBytes ((seq.drop 9).take 8), ?_, not_lt.mp near, ?_⟩
            · have bound := ofLeBytes_lt ((seq.drop 9).take 8).reverse
              rwa [List.length_reverse, stampLength] at bound
            · rw [buildKnock, beBytes_ofBeBytes stampLength, ← isMac]
              conv => lhs; rw [fields_of_length isLong, not_not.mp isMagic]
  · rintro ⟨ts, bound, near, rfl⟩
    obtain ⟨isMagic, isStamp, isMac⟩ := take_drop_buildKnock prims rule.secret ip rule.port ts
    have stamp : ofBeBytes (beBytes 8 ts) = ts := by
      rw [ofBeBytes_beBytes]
      exact Nat.mod_eq_of_lt bound
    have same := (gathered_eq_zero_iff (a := knockMac prims rule.secret ip rule.port ts) rfl 0).mpr ⟨rfl, rfl⟩
    rw [verifyKnock, if_neg notDisabled, if_neg (not_not.mpr (length_buildKnock _ _ _)), if_neg (not_not.mpr isMagic)]
    dsimp only
    rw [isStamp, stamp, isMac, if_neg (not_lt.mpr near), if_neg (not_not.mpr same)]

end Sequence

def capPortKnock : UInt64 := 256

structure NLinkRuntime where
  enable : Bool := false
  active : UInt64 := 0
  knock : List KnockRule := []

namespace NLinkRuntime

def enabled (runtime : NLinkRuntime) : Bool :=
  runtime.enable && runtime.active != 0

/-- What is switched off, or was not agreed on, protects nothing. -/
def knockRule (runtime : NLinkRuntime) (port : UInt16) : Option KnockRule :=
  if runtime.enabled = false ∨ runtime.active &&& capPortKnock = 0 then none
  else runtime.knock.find? fun rule => rule.port == port && rule.effective

theorem knockRule_spec {runtime : NLinkRuntime} {port : UInt16} {rule : KnockRule}
    (found : runtime.knockRule port = some rule) : rule.port = port ∧ rule.effective := by
  rw [knockRule] at found
  split at found
  · cases found
  · simpa using List.find?_some found

end NLinkRuntime

/-- What comes from a connection, each byte with the moment it is there, and when the
sender closed if it did. -/
structure Conn where
  ip : IpAddr
  arrival : Nat
  sent : List (Nat × UInt8) := []
  closed : Option Nat := none

def probeTimeout : Nat := 2000

namespace Conn

/-- The first bytes of a sequence's length, once they are all there, and when that is. -/
def whole (c : Conn) (turn : Nat) : Option (Nat × List UInt8) :=
  if knockLen ≤ c.sent.length then
    some (((c.sent.take knockLen).map (·.1)).foldl max turn, (c.sent.take knockLen).map (·.2))
  else none

/-- Reading a sequence from the turn on: when the reading ends, and what was read. -/
def readExact (c : Conn) (turn : Nat) : Nat × Option (List UInt8) :=
  match c.whole turn with
  | some (ready, seq) => if ready ≤ turn + probeTimeout then (ready, some seq) else (turn + probeTimeout, none)
  | none => (min (turn + probeTimeout) (max turn (c.closed.getD (turn + probeTimeout))), none)

end Conn

abbrev KnockAuthorizer := Expiring (IpAddr × UInt16)

/-- What the loop of another port does with the table, some time before. -/
structure Touch (port : UInt16) where
  before : Nat
  ip : IpAddr
  other : UInt16
  isOther : other ≠ port
  admits : Option Nat

def Touch.apply {port : UInt16} (turn : Nat) (auth : KnockAuthorizer) (touch : Touch port) : KnockAuthorizer :=
  match touch.admits with
  | none => auth.current (turn - touch.before)
  | some window => auth.allow (turn - touch.before) (touch.ip, touch.other) (turn - touch.before + window)

/-- The next connection, and what happened to the table since the one before. -/
structure Accepted (port : UInt16) where
  meanwhile : List (Touch port) := []
  conn : Conn

inductive Verdict where
  | denied
  | probed
  | handedOn
  deriving DecidableEq

/-- The loop of one port: until when it is busy, and the table of all of them. -/
structure AcceptLoop where
  free : Nat := 0
  auth : KnockAuthorizer := ∅

section Loop

variable (prims : Primitives) (checkIp : IpAddr → Except String Unit) (rule : KnockRule) (clock : Nat → Nat)
  {port : UInt16}

def tryKnock (c : Conn) (turn : Nat) (auth : KnockAuthorizer) : Nat × KnockAuthorizer :=
  match c.readExact turn with
  | (ended, none) => (ended, auth)
  | (ended, some seq) =>
    match verifyKnock prims rule seq c.ip (clock ended) with
    | .ok () => (ended, auth.allow ended (c.ip, rule.port) (ended + rule.admits))
    | .error _ => (ended, auth)

namespace AcceptLoop

/-- The loop comes to a connection when it is there and the loop is free. -/
def turn (s : AcceptLoop) (c : Conn) : Nat := max c.arrival s.free

def touched (s : AcceptLoop) (e : Accepted port) : KnockAuthorizer :=
  e.meanwhile.foldl (Touch.apply (s.turn e.conn)) s.auth

/-- One round of `proxy_accept_loop`; a port without a rule is not protected. -/
def accept (runtime : NLinkRuntime) (s : AcceptLoop) (e : Accepted port) : Verdict × AcceptLoop :=
  let turn := s.turn e.conn
  match checkIp e.conn.ip with
  | .error _ => (.denied, { free := turn, auth := s.touched e })
  | .ok () =>
    match runtime.knockRule port with
    | none => (.handedOn, { free := turn, auth := s.touched e })
    | some rule =>
      let auth := (s.touched e).current turn
      if (e.conn.ip, port) ∈ auth then (.handedOn, { free := turn, auth })
      else
        let (ended, auth) := tryKnock prims rule clock e.conn turn auth
        (.probed, { free := ended, auth })

def step (runtime : NLinkRuntime) (s : AcceptLoop) (e : Accepted port) : AcceptLoop :=
  (s.accept prims checkIp clock runtime e).2

end AcceptLoop

end Loop

/-- Read from the turn on, the connection completes a sequence at that moment. -/
def Conn.Knocks (prims : Primitives) (rule : KnockRule) (clock : Nat → Nat) (c : Conn) (turn moment : Nat) : Prop :=
  ∃ seq, c.whole turn = some (moment, seq) ∧ moment ≤ turn + probeTimeout ∧ IsKnock prims rule c.ip (clock moment) seq

section Knocks

variable {prims : Primitives} {rule : KnockRule} {clock : Nat → Nat} {c : Conn} {turn moment : Nat} {seq : List UInt8}

theorem le_foldl_max (moments : List Nat) (start : Nat) : start ≤ moments.foldl max start := by
  induction moments generalizing start with
  | nil => exact le_rfl
  | cons moment moments ih => exact (le_max_left _ _).trans (ih _)

namespace Conn

theorem turn_le_of_whole (isWhole : c.whole turn = some (moment, seq)) : turn ≤ moment := by
  rw [whole] at isWhole
  split at isWhole
  · obtain ⟨rfl, -⟩ := Prod.mk.inj (Option.some.inj isWhole)
    exact le_foldl_max _ turn
  · cases isWhole

theorem readExact_eq_iff :
    c.readExact turn = (moment, some seq) ↔ c.whole turn = some (moment, seq) ∧ moment ≤ turn + probeTimeout := by
  rw [readExact]
  cases c.whole turn with
  | none => simp
  | some found =>
    obtain ⟨ready, first⟩ := found
    by_cases inTime : ready ≤ turn + probeTimeout
    · simp only [inTime, if_true, Prod.mk.injEq, Option.some.injEq]
      constructor
      · rintro ⟨rfl, rfl⟩
        exact ⟨⟨rfl, rfl⟩, inTime⟩
      · rintro ⟨both, -⟩
        exact both
    · simp only [inTime, if_false, Prod.mk.injEq, reduceCtorEq, and_false, Option.some.injEq, false_iff, not_and]
      rintro ⟨rfl, -⟩
      exact inTime

theorem turn_le_readExact : turn ≤ (c.readExact turn).1 := by
  rw [readExact]
  cases isWhole : c.whole turn with
  | none => exact le_min (Nat.le_add_right _ _) (le_max_left _ _)
  | some found =>
    dsimp only
    split
    · exact turn_le_of_whole isWhole
    · exact Nat.le_add_right _ _

theorem readExact_le : (c.readExact turn).1 ≤ turn + probeTimeout := by
  rw [readExact]
  cases c.whole turn with
  | none => exact min_le_left _ _
  | some found =>
    dsimp only
    split
    next inTime => exact inTime
    · exact le_rfl

theorem Knocks.turn_le (knocks : c.Knocks prims rule clock turn moment) : turn ≤ moment := by
  obtain ⟨seq, isWhole, -⟩ := knocks
  exact turn_le_of_whole isWhole

theorem Knocks.unique {other : Nat} (one : c.Knocks prims rule clock turn moment)
    (another : c.Knocks prims rule clock turn other) : moment = other := by
  obtain ⟨seq, isWhole, -⟩ := one
  obtain ⟨_, isOther, -⟩ := another
  exact congrArg Prod.fst (Option.some.inj (isWhole.symm.trans isOther))

end Conn

/-- A probe that knocks lets its address in; any other leaves the table alone. -/
theorem tryKnock_cases (prims : Primitives) (clock : Nat → Nat) (c : Conn) (turn : Nat)
    (isEffective : rule.effective) (auth : KnockAuthorizer) :
    (∃ moment, c.Knocks prims rule clock turn moment ∧
      tryKnock prims rule clock c turn auth =
        (moment, auth.allow moment (c.ip, rule.port) (moment + rule.admits))) ∨
    ((∀ moment, ¬c.Knocks prims rule clock turn moment) ∧
      tryKnock prims rule clock c turn auth = ((c.readExact turn).1, auth)) := by
  rcases isRead : c.readExact turn with ⟨ended, _ | seq⟩
  · right
    constructor
    · rintro moment ⟨seq, isWhole, inTime, -⟩
      rw [Conn.readExact_eq_iff.mpr ⟨isWhole, inTime⟩] at isRead
      cases isRead
    · simp only [tryKnock, isRead]
  · obtain ⟨isWhole, inTime⟩ := Conn.readExact_eq_iff.mp isRead
    cases verified : verifyKnock prims rule seq c.ip (clock ended) with
    | ok _ =>
      exact .inl ⟨ended, ⟨seq, isWhole, inTime, (verifyKnock_iff isEffective).mp verified⟩,
        by simp only [tryKnock, isRead, verified]⟩
    | error reason =>
      right
      constructor
      · rintro moment ⟨other, isOther, -, isKnock⟩
        obtain ⟨rfl, rfl⟩ := Prod.mk.inj (Option.some.inj (isOther.symm.trans isWhole))
        rw [(verifyKnock_iff isEffective).mpr isKnock] at verified
        cases verified
      · simp only [tryKnock, isRead, verified]

theorem turn_le_tryKnock (isEffective : rule.effective) (auth : KnockAuthorizer) :
    turn ≤ (tryKnock prims rule clock c turn auth).1 := by
  rcases tryKnock_cases prims clock c turn isEffective auth with ⟨moment, knocks, tried⟩ | ⟨-, tried⟩
  · exact tried ▸ knocks.turn_le
  · exact tried ▸ Conn.turn_le_readExact

theorem KnockRule.admits_eq (isEffective : rule.effective) : rule.admits = min rule.window 3600 * 1000 := by
  have given : 0 < rule.window := by
    simp only [effective, Bool.and_eq_true, decide_eq_true_eq] at isEffective
    exact isEffective.1.2
  rw [admits]
  omega

end Knocks

section Loop

variable (prims : Primitives) (checkIp : IpAddr → Except String Unit) (rule : KnockRule) (clock : Nat → Nat)
  (runtime : NLinkRuntime) {port : UInt16}

namespace AcceptLoop

/-- The connection is probed, and knocks at that moment. -/
structure Grants (s : AcceptLoop) (e : Accepted port) (ip : IpAddr) (moment : Nat) : Prop where
  isFrom : e.conn.ip = ip
  permitted : checkIp ip = .ok ()
  unknown : ¬s.auth.Fresh (s.turn e.conn) (ip, port)
  knocks : e.conn.Knocks prims rule clock (s.turn e.conn) moment

def Granted : AcceptLoop → List (Accepted port) → IpAddr → Nat → Prop
  | _, [], _, _ => False
  | s, e :: events, ip, moment =>
    s.Grants prims checkIp rule clock e ip moment ∨
      Granted (s.step prims checkIp clock runtime e) events ip moment

end AcceptLoop

variable {prims checkIp rule clock runtime} {s : AcceptLoop} {e : Accepted port} {events : List (Accepted port)}
  {ip : IpAddr} {now moment : Nat}

theorem fresh_touch {turn : Nat} {auth : KnockAuthorizer} (touch : Touch port) (order : turn ≤ now) :
    (touch.apply turn auth).Fresh now (ip, port) ↔ auth.Fresh now (ip, port) := by
  have before : turn - touch.before ≤ now := (Nat.sub_le _ _).trans order
  rw [Touch.apply]
  cases touch.admits with
  | none => exact Expiring.fresh_current_iff before
  | some window =>
    refine Expiring.fresh_allow_of_ne ?_ before
    rintro same
    exact touch.isOther (Prod.mk.inj same).2.symm

theorem AcceptLoop.fresh_touched (order : s.turn e.conn ≤ now) :
    (s.touched e).Fresh now (ip, port) ↔ s.auth.Fresh now (ip, port) := by
  rw [touched]
  generalize s.auth = auth
  induction e.meanwhile generalizing auth with
  | nil => exact Iff.rfl
  | cons touch rest ih =>
    rw [List.foldl_cons, ih]
    exact fresh_touch touch order

section Protected

variable (found : runtime.knockRule port = some rule)
include found

theorem AcceptLoop.accept_cases (prims : Primitives) (clock : Nat → Nat) (s : AcceptLoop)
    (permitted : checkIp e.conn.ip = .ok ()) :
    (s.auth.Fresh (s.turn e.conn) (e.conn.ip, port) ∧
      s.accept prims checkIp clock runtime e =
        (.handedOn, { free := s.turn e.conn, auth := (s.touched e).current (s.turn e.conn) })) ∨
    (¬s.auth.Fresh (s.turn e.conn) (e.conn.ip, port) ∧
      s.accept prims checkIp clock runtime e =
        (.probed,
          { free := (tryKnock prims rule clock e.conn (s.turn e.conn) ((s.touched e).current (s.turn e.conn))).1
            auth := (tryKnock prims rule clock e.conn (s.turn e.conn)
              ((s.touched e).current (s.turn e.conn))).2 })) := by
  have known : (e.conn.ip, port) ∈ (s.touched e).current (s.turn e.conn) ↔
      s.auth.Fresh (s.turn e.conn) (e.conn.ip, port) :=
    Expiring.mem_current_iff.trans (fresh_touched le_rfl)
  by_cases fresh : s.auth.Fresh (s.turn e.conn) (e.conn.ip, port)
  · exact .inl ⟨fresh, by simp only [accept, permitted, found, known.mpr fresh, if_true]⟩
  · exact .inr ⟨fresh, by simp only [accept, permitted, found, known, fresh, if_false]⟩

theorem AcceptLoop.handedOn_iff (permitted : checkIp e.conn.ip = .ok ()) :
    (s.accept prims checkIp clock runtime e).1 = .handedOn ↔
      s.auth.Fresh (s.turn e.conn) (e.conn.ip, port) := by
  rcases accept_cases found prims clock s permitted with ⟨fresh, same⟩ | ⟨stale, same⟩
  · simp [same, fresh]
  · simp [same, stale]

theorem AcceptLoop.turn_le_free (s : AcceptLoop) (e : Accepted port) :
    s.turn e.conn ≤ (s.step prims checkIp clock runtime e).free := by
  cases permitted : checkIp e.conn.ip with
  | error reason => simp [step, accept, permitted]
  | ok _ =>
    rw [step]
    rcases accept_cases found prims clock s permitted with ⟨-, same⟩ | ⟨-, same⟩
    · rw [same]
    · rw [same]
      exact turn_le_tryKnock (NLinkRuntime.knockRule_spec found).2 _

/-- A connection keeps the loop for two seconds at most. -/
theorem AcceptLoop.free_le_turn_add (s : AcceptLoop) (e : Accepted port) :
    (s.step prims checkIp clock runtime e).free ≤ s.turn e.conn + probeTimeout := by
  cases permitted : checkIp e.conn.ip with
  | error reason => simp [step, accept, permitted]
  | ok _ =>
    rw [step]
    rcases accept_cases found prims clock s permitted with ⟨-, same⟩ | ⟨-, same⟩
    · rw [same]
      exact Nat.le_add_right _ _
    · rw [same]
      rcases tryKnock_cases prims clock e.conn (s.turn e.conn) (NLinkRuntime.knockRule_spec found).2
        ((s.touched e).current (s.turn e.conn)) with ⟨moment, ⟨-, -, inTime, -⟩, tried⟩ | ⟨-, tried⟩
      · rw [tried]
        exact inTime
      · rw [tried]
        exact Conn.readExact_le

theorem AcceptLoop.free_le_free (s : AcceptLoop) (e : Accepted port) :
    s.free ≤ (s.step prims checkIp clock runtime e).free :=
  (le_max_right _ _).trans (turn_le_free found s e)

/-- After a round an address counts as let in where it did before, or knocked in it. -/
theorem AcceptLoop.fresh_step_iff (order : (s.step prims checkIp clock runtime e).free ≤ now) :
    (s.step prims checkIp clock runtime e).auth.Fresh now (ip, port) ↔
      s.auth.Fresh now (ip, port) ∨
        ∃ moment, s.Grants prims checkIp rule clock e ip moment ∧ now < moment + rule.admits := by
  have isTurn : s.turn e.conn ≤ now := (turn_le_free found s e).trans order
  cases permitted : checkIp e.conn.ip with
  | error reason =>
    have untouched : (s.step prims checkIp clock runtime e).auth = s.touched e := by simp [step, accept, permitted]
    rw [untouched, fresh_touched isTurn]
    refine (or_iff_left ?_).symm
    rintro ⟨moment, ⟨rfl, isPermitted, -, -⟩, -⟩
    cases permitted.symm.trans isPermitted
  | ok _ =>
    have kept : ((s.touched e).current (s.turn e.conn)).Fresh now (ip, port) ↔ s.auth.Fresh now (ip, port) :=
      (Expiring.fresh_current_iff isTurn).trans (fresh_touched isTurn)
    rcases accept_cases found prims clock s permitted with ⟨fresh, same⟩ | ⟨stale, same⟩
    · rw [step, same]
      refine kept.trans (or_iff_left ?_).symm
      rintro ⟨moment, ⟨rfl, -, unknown, -⟩, -⟩
      exact unknown fresh
    · rw [step, same] at order ⊢
      rcases tryKnock_cases prims clock e.conn (s.turn e.conn) (NLinkRuntime.knockRule_spec found).2
          ((s.touched e).current (s.turn e.conn)) with
        ⟨moment, knocks, tried⟩ | ⟨silent, tried⟩
      · rw [tried, (NLinkRuntime.knockRule_spec found).1] at order ⊢
        by_cases isSender : e.conn.ip = ip
        · subst isSender
          rw [Expiring.fresh_allow_self]
          constructor
          · intro counts
            exact .inr ⟨moment, ⟨rfl, permitted, stale, knocks⟩, counts⟩
          · rintro (fresh | ⟨other, grants, counts⟩)
            · exact absurd (fresh.earlier isTurn) stale
            · exact grants.knocks.unique knocks ▸ counts
        · rw [Expiring.fresh_allow_of_ne (by simp [Ne.symm isSender]) order, kept]
          refine (or_iff_left ?_).symm
          rintro ⟨other, grants, -⟩
          exact isSender grants.isFrom
      · rw [tried, kept]
        refine (or_iff_left ?_).symm
        rintro ⟨moment, grants, -⟩
        exact silent moment grants.knocks

theorem AcceptLoop.free_le_run (s : AcceptLoop) (events : List (Accepted port)) :
    s.free ≤ (run (step prims checkIp clock runtime) s events).free := by
  induction events generalizing s with
  | nil => exact le_rfl
  | cons e events ih => exact (free_le_free found s e).trans (ih _)

theorem AcceptLoop.free_run_le {latest : Nat} (isFree : s.free ≤ latest) (before : ∀ e ∈ events, e.conn.arrival ≤ latest) :
    (run (step prims checkIp clock runtime) s events).free ≤ latest + events.length * probeTimeout := by
  induction events generalizing s latest with
  | nil => exact isFree.trans (Nat.le_add_right _ _)
  | cons e events ih =>
    obtain ⟨first, later⟩ := List.forall_mem_cons.mp before
    rw [List.length_cons, Nat.succ_mul, Nat.add_comm (_ * _), ← Nat.add_assoc]
    exact ih ((free_le_turn_add found s e).trans (Nat.add_le_add_right (max_le first isFree) _))
      fun e member => (later e member).trans (Nat.le_add_right _ _)

/-- The loop reads from one connection at a time, and each can keep all behind it for two seconds. -/
theorem AcceptLoop.turn_run_le (before : ∀ other ∈ events, other.conn.arrival ≤ e.conn.arrival) :
    (run (step prims checkIp clock runtime) {} events).turn e.conn ≤ e.conn.arrival + events.length * probeTimeout :=
  max_le (Nat.le_add_right _ _) (free_run_le found (Nat.zero_le _) before)

theorem AcceptLoop.Grants.le_free (grants : s.Grants prims checkIp rule clock e ip moment) :
    moment ≤ (s.step prims checkIp clock runtime e).free := by
  obtain ⟨rfl, permitted, unknown, knocks⟩ := grants
  rcases accept_cases found prims clock s permitted with ⟨fresh, -⟩ | ⟨-, same⟩
  · exact absurd fresh unknown
  · rw [step, same]
    rcases tryKnock_cases prims clock e.conn (s.turn e.conn) (NLinkRuntime.knockRule_spec found).2
        ((s.touched e).current (s.turn e.conn)) with
      ⟨other, isKnock, tried⟩ | ⟨silent, -⟩
    · rw [tried]
      exact (knocks.unique isKnock).le
    · exact absurd knocks (silent moment)

theorem AcceptLoop.Granted.le_free (granted : Granted prims checkIp rule clock runtime s events ip moment) :
    moment ≤ (run (step prims checkIp clock runtime) s events).free := by
  induction events generalizing s with
  | nil => exact granted.elim
  | cons e events ih =>
    rcases granted with grants | later
    · exact (grants.le_free found).trans (free_le_run found _ events)
    · exact ih later

theorem AcceptLoop.fresh_run_iff
    (order : (run (step prims checkIp clock runtime) s events).free ≤ now) :
    (run (step prims checkIp clock runtime) s events).auth.Fresh now (ip, port) ↔
      s.auth.Fresh now (ip, port) ∨
        ∃ moment, Granted prims checkIp rule clock runtime s events ip moment ∧ now < moment + rule.admits := by
  induction events generalizing s with
  | nil =>
    refine (or_iff_left ?_).symm
    rintro ⟨moment, granted, -⟩
    exact granted
  | cons e events ih =>
    rw [run_cons] at order ⊢
    rw [ih order, fresh_step_iff found ((free_le_run found _ events).trans order), or_assoc,
      ← exists_or]
    refine or_congr_right (exists_congr fun moment => ?_)
    rw [Granted, or_and_right]

/-- In every run, who is handed on has knocked before the loop came to him, no longer
ago than the rule lets in. -/
theorem AcceptLoop.handedOn_run_iff (permitted : checkIp e.conn.ip = .ok ()) :
    ((run (step prims checkIp clock runtime) {} events).accept prims checkIp clock runtime e).1 = .handedOn ↔
      ∃ moment, Granted prims checkIp rule clock runtime {} events e.conn.ip moment ∧
        (run (step prims checkIp clock runtime) {} events).turn e.conn < moment + rule.admits := by
  have isTurn : (run (step prims checkIp clock runtime) {} events).free ≤
      (run (step prims checkIp clock runtime) {} events).turn e.conn := le_max_right _ _
  rw [handedOn_iff found permitted, fresh_run_iff found isTurn]
  exact or_iff_right Expiring.not_fresh_empty

end Protected

/-- The loop is free when a connection comes, and who is let in does not knock again. -/
structure AcceptLoop.Spares (prims : Primitives) (checkIp : IpAddr → Except String Unit) (rule : KnockRule)
    (clock : Nat → Nat) (s : AcceptLoop) (e : Accepted port) : Prop where
  isFree : s.free ≤ e.conn.arrival
  once : checkIp e.conn.ip = .ok () → s.auth.Fresh e.conn.arrival (e.conn.ip, port) →
    ∀ moment, ¬e.conn.Knocks prims rule clock e.conn.arrival moment

/-- Every permitted connection of the run is handed on just where an earlier one of its
address completed a sequence, not too long before it arrived. -/
def Exact (prims : Primitives) (checkIp : IpAddr → Except String Unit) (rule : KnockRule) (clock : Nat → Nat)
    (runtime : NLinkRuntime) (events : List (Accepted port)) : Prop :=
  ∀ earlier e later, events = earlier ++ e :: later → checkIp e.conn.ip = .ok () →
    (((run (AcceptLoop.step prims checkIp clock runtime) {} earlier).accept prims checkIp clock runtime e).1 = .handedOn ↔
      ∃ past ∈ earlier, past.conn.ip = e.conn.ip ∧
        ∃ moment, past.conn.Knocks prims rule clock past.conn.arrival moment ∧
          moment ≤ e.conn.arrival ∧ e.conn.arrival < moment + min rule.window 3600 * 1000)

section Spared

theorem AcceptLoop.Spares.turn_eq (spares : s.Spares prims checkIp rule clock e) : s.turn e.conn = e.conn.arrival :=
  max_eq_left spares.isFree

theorem AcceptLoop.Spares.grants_iff (spares : s.Spares prims checkIp rule clock e) (permitted : checkIp ip = .ok ()) :
    s.Grants prims checkIp rule clock e ip moment ↔
      e.conn.ip = ip ∧ e.conn.Knocks prims rule clock e.conn.arrival moment := by
  constructor
  · rintro ⟨isFrom, -, -, knocks⟩
    exact ⟨isFrom, spares.turn_eq ▸ knocks⟩
  · rintro ⟨rfl, knocks⟩
    refine ⟨rfl, permitted, ?_, spares.turn_eq.symm ▸ knocks⟩
    intro fresh
    exact spares.once permitted (spares.turn_eq ▸ fresh) moment knocks

theorem AcceptLoop.granted_iff (permitted : checkIp ip = .ok ())
    (spares : RunMeets (step prims checkIp clock runtime) (Spares prims checkIp rule clock) s events) :
    Granted prims checkIp rule clock runtime s events ip moment ↔
      ∃ past ∈ events, past.conn.ip = ip ∧ past.conn.Knocks prims rule clock past.conn.arrival moment := by
  induction events generalizing s with
  | nil => simp [Granted]
  | cons e events ih =>
    rw [Granted, spares.1.grants_iff permitted, ih spares.2, List.exists_mem_cons_iff]

/-- Knocking is exact in the runs in which every connection finds the loop free, and no
one knocks who is let in. -/
theorem exact_of_spares (found : runtime.knockRule port = some rule)
    (spares : RunMeets (AcceptLoop.step prims checkIp clock runtime) (AcceptLoop.Spares prims checkIp rule clock) {}
      events) : Exact prims checkIp rule clock runtime events := by
  rintro earlier e later rfl permitted
  obtain ⟨before, here, -⟩ := runMeets_append.mp spares
  rw [AcceptLoop.handedOn_run_iff found permitted, here.turn_eq,
    KnockRule.admits_eq (NLinkRuntime.knockRule_spec found).2]
  constructor
  · rintro ⟨moment, granted, counts⟩
    obtain ⟨past, isPast, isFrom, knocks⟩ := (AcceptLoop.granted_iff permitted before).mp granted
    exact ⟨past, isPast, isFrom, moment, knocks, (granted.le_free found).trans here.isFree, counts⟩
  · rintro ⟨past, isPast, isFrom, moment, knocks, -, counts⟩
    exact ⟨moment, (AcceptLoop.granted_iff permitted before).mpr ⟨past, isPast, isFrom, knocks⟩, counts⟩

end Spared

end Loop

def officeIp : IpAddr := .v4 0xC6336407#32

def strangerIp : IpAddr := .v4 0xCB007109#32

def officeMac : Primitives where
  md5 _ := .replicate 16 0
  sha256 _ := .replicate 32 0
  hmacSha256 _ _ :=
    #v[141, 103, 156, 105, 88, 75, 46, 97, 157, 162, 110, 55, 114, 126, 248, 231, 253, 154, 167, 193, 179, 62, 192, 3,
      152, 52, 198, 195, 38, 157, 92, 87]
  b64url _ := .error "不是 base64url"
  jwtHeader _ := .error "不是 JWT"
  json _ := .error "不是 JSON"
  verifySignature _ _ _ _ := .ok false

def officeRule (window : Nat) : KnockRule where
  port := 7001
  secret := "s3cret"
  window := window

def officeRuntime (window : Nat) : NLinkRuntime where
  enable := true
  active := capPortKnock
  knock := [officeRule window]

def officeKnock (arrival : Nat) : Conn where
  ip := officeIp
  arrival := arrival
  sent := (buildKnock officeMac "s3cret" officeIp 7001 1700000000).map fun byte => (arrival, byte)

theorem officeKnock_knocks (window : Nat) :
    (officeKnock 0).Knocks officeMac (officeRule window) (fun _ => 1700000000) 0 0 := by
  have sentWhole : (officeKnock 0).whole 0 = some (0, buildKnock officeMac "s3cret" officeIp 7001 1700000000) := by
    have isLong : (buildKnock officeMac "s3cret" officeIp 7001 1700000000).length = knockLen := length_buildKnock _ _ _
    generalize sent : buildKnock officeMac "s3cret" officeIp 7001 1700000000 = seq at isLong
    simp only [Conn.whole, officeKnock, sent, List.length_map, isLong, le_refl, if_true, ← List.map_take,
      List.take_of_length_le isLong.le, List.map_map]
    have atOnce : ∀ bytes : List UInt8, (bytes.map fun _ => 0).foldl max 0 = 0 := by
      intro bytes
      induction bytes with
      | nil => rfl
      | cons byte bytes ih => simpa using ih
    exact congrArg some (Prod.ext (atOnce seq) (List.map_id seq))
  refine ⟨_, sentWhole, Nat.zero_le _, 1700000000, by decide, ?_, rfl⟩
  simp [absDiff]

/-- An address knocks and comes back, and a stranger says nothing in between. -/
def knockThenUser (stranger user : Nat) : List (Accepted 7001) :=
  [{ conn := officeKnock 0 }, { conn := { ip := strangerIp, arrival := stranger } },
    { conn := { ip := officeIp, arrival := user } }]

theorem turn_run_le_knockThenUser :
    (run (AcceptLoop.step officeMac (fun _ => .ok ()) (fun _ => 1700000000) (officeRuntime 30)) {}
      (knockThenUser 100 500)).turn (officeKnock 600) ≤ 600 + 3 * probeTimeout :=
  AcceptLoop.turn_run_le (e := { conn := officeKnock 600 }) rfl (by decide)

theorem exact_knockThenUser :
    Exact officeMac (fun _ => .ok ()) (officeRule 30) (fun _ => 1700000000) (officeRuntime 30)
      (knockThenUser 5000 9000) := by
  have silent : ∀ ip arrival moment, ¬Conn.Knocks officeMac (officeRule 30) (fun _ => 1700000000)
      { ip := ip, arrival := arrival } arrival moment := by
    rintro ip arrival moment ⟨seq, isWhole, -⟩
    cases isWhole
  have isRule : (officeRuntime 30).knockRule 7001 = some (officeRule 30) := rfl
  refine exact_of_spares isRule ⟨⟨Nat.zero_le _, ?_⟩, ⟨?_, fun _ _ => silent _ _⟩, ⟨?_, fun _ _ => silent _ _⟩, trivial⟩
  · exact fun _ fresh => absurd fresh Expiring.not_fresh_empty
  · decide +kernel
  · decide +kernel

/-- A port that is open for a second, and a stranger who stays silent while it is. -/
theorem not_exact_silentStranger :
    ¬Exact officeMac (fun _ => .ok ()) (officeRule 1) (fun _ => 1700000000) (officeRuntime 1)
      (knockThenUser 100 500) := by
  intro isExact
  have judged := isExact [{ conn := officeKnock 0 }, { conn := { ip := strangerIp, arrival := 100 } }]
    { conn := { ip := officeIp, arrival := 500 } } [] rfl rfl
  have handedOn := judged.mpr
    ⟨_, List.mem_cons_self, rfl, 0, officeKnock_knocks 1, Nat.zero_le _, by decide⟩
  revert handedOn
  decide +kernel

end Nfrp.Server
