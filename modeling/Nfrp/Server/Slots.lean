import Nfrp.Server.Quota

/-!
# The slots of user connections

What each limit has left and what is held of it always makes the limit.  That every
connection holds a slot is another matter: it depends on the way it came.
-/

namespace Nfrp

open Lib

/-- What is left and what is held make the limit, where there is one. -/
def Limit.Accounts (l : Limit) (max held : Nat) : Prop :=
  l.max = max ∧ (max = 0 ∨ l.available + held = max)

namespace Limit.Accounts

variable {l after : Limit} {max held count : Nat} {permit : Permit}

theorem new (max : Nat) : (Limit.new max).Accounts max 0 := ⟨rfl, .inr rfl⟩

theorem release (accounts : l.Accounts max (held + count)) : (l.release count).Accounts max held :=
  ⟨accounts.1, accounts.2.imp_right fun same => by
    rw [← same]
    show l.available + count + held = l.available + (held + count)
    omega⟩

theorem acquire (accounts : l.Accounts max held) (acquired : l.tryAcquire = some (permit, after)) :
    permit = (if max = 0 then .unlimited else .counted) ∧
      after.Accounts max (held + if permit = .counted then 1 else 0) := by
  rw [Limit.tryAcquire, accounts.1] at acquired
  split at acquired
  next unlimited =>
    obtain ⟨rfl, rfl⟩ := Prod.mk.inj (Option.some.inj acquired)
    exact ⟨(if_pos unlimited).symm, accounts.1, .inl unlimited⟩
  next limited =>
    split at acquired
    next => cases acquired
    next left =>
      obtain ⟨rfl, rfl⟩ := Prod.mk.inj (Option.some.inj acquired)
      refine ⟨(if_neg limited).symm, rfl, .inr ?_⟩
      have same : l.available + held = max := accounts.2.resolve_left limited
      show l.available - 1 + (held + if Permit.counted = .counted then 1 else 0) = max
      rw [if_pos rfl]
      omega

end Limit.Accounts

namespace Quota

def ServerLimits.slot (limits : ServerLimits) : ConnSlot where
  global := if limits.maxTotalConns = 0 then .unlimited else .counted
  client := if limits.maxConnsPerClient = 0 then .unlimited else .counted

def heldOf (c : Nat) (conns : List UserConn) : Nat :=
  conns.countP fun u => u.client == c && u.holdsClient

structure Balanced (s : Server) : Prop where
  known : ∀ u ∈ s.conns, (s.clients u.client).isSome
  total : s.connLimit.Accounts s.limits.maxTotalConns (s.conns.countP (·.holdsGlobal))
  client : ∀ c client, s.clients c = some client →
    client.connLimit.Accounts s.limits.maxConnsPerClient (heldOf c s.conns)

section Operations

variable {s : Server} {c id now : Nat} {client after : ClientState}

theorem put_clients (s : Server) (c other : Nat) (client : ClientState) :
    (s.put c client).clients other = if other = c then some client else s.clients other :=
  Function.update_apply _ _ _ _

theorem Balanced.put (balanced : Balanced s) (found : s.clients c = some client)
    (same : after.connLimit = client.connLimit) : Balanced (s.put c after) where
  known := by
    intro u member
    rw [put_clients]
    split
    next => rfl
    next => exact balanced.known u member
  total := balanced.total
  client := by
    intro other otherClient isOther
    rw [put_clients] at isOther
    split at isOther
    next isSame =>
      obtain rfl := Option.some.inj isOther
      rw [same, isSame]
      exact balanced.client c client found
    next => exact balanced.client other otherClient isOther

theorem Balanced.change (balanced : Balanced s) (id : Nat) {f : UserConn → UserConn}
    (sameClient : ∀ u, (f u).client = u.client) (sameSlot : ∀ u, (f u).slot = u.slot) : Balanced (s.change id f) := by
  have counted (p : UserConn → Bool) (ignores : ∀ u, p (f u) = p u) :
      (s.change id f).conns.countP p = s.conns.countP p := by
    rw [Server.change, List.countP_map]
    refine List.countP_congr fun u _ => ?_
    rw [Function.comp_apply]
    split
    next => rw [ignores]
    next => rfl
  constructor
  · intro u member
    obtain ⟨before, isBefore, rfl⟩ := List.mem_map.mp member
    have same : (if before.id = id then f before else before).client = before.client := by
      split
      next => exact sameClient before
      next => rfl
    rw [same]
    exact balanced.known before isBefore
  · rw [counted]
    · exact balanced.total
    · intro u
      rw [UserConn.holdsGlobal, sameSlot, UserConn.holdsGlobal]
  · intro c client found
    rw [heldOf, counted]
    · exact balanced.client c client found
    · intro u
      rw [sameClient, UserConn.holdsClient, sameSlot, UserConn.holdsClient]

theorem Balanced.drop (balanced : Balanced s) (gone : UserConn → Bool) : Balanced (s.drop gone) where
  known := by
    intro u member
    have before := balanced.known u (List.mem_filter.mp member).1
    rw [Server.drop, Option.isSome_map]
    exact before
  total := by
    refine Limit.Accounts.release ?_
    rw [show (s.drop gone).conns = s.conns.filter fun u => !gone u from rfl, countP_filter_not_add]
    exact balanced.total
  client := by
    intro c client found
    obtain ⟨before, isBefore, rfl⟩ := Option.map_eq_some_iff.mp found
    refine Limit.Accounts.release ?_
    rw [heldOf, show (s.drop gone).conns = s.conns.filter fun u => !gone u from rfl, countP_filter_not_add]
    exact balanced.client c before isBefore

theorem Balanced.dropSlot (balanced : Balanced s) (id : Nat) : Balanced (s.dropSlot id) := by
  have counted (p : UserConn → Bool) (free : ∀ u : UserConn, p u.takeSlot = false) :
      (s.dropSlot id).conns.countP p + s.conns.countP (fun u => u.id == id && p u) = s.conns.countP p := by
    have split := countP_filter_not_add p (fun u => u.id == id) s.conns
    rw [← split, List.countP_filter]
    refine congrArg (· + s.conns.countP fun u => u.id == id && p u) ?_
    rw [Server.dropSlot, List.countP_map]
    refine List.countP_congr fun u _ => ?_
    rw [Function.comp_apply]
    split
    next same => simp [free, same]
    next other => simp [other]
  constructor
  · intro u member
    obtain ⟨before, isBefore, rfl⟩ := List.mem_map.mp member
    have same : (if before.id = id then before.takeSlot else before).client = before.client := by
      split <;> rfl
    rw [same, Server.dropSlot, Option.isSome_map]
    exact balanced.known before isBefore
  · refine Limit.Accounts.release ?_
    rw [counted]
    · exact balanced.total
    · exact fun _ => rfl
  · intro c client found
    obtain ⟨before, isBefore, rfl⟩ := Option.map_eq_some_iff.mp found
    refine Limit.Accounts.release ?_
    rw [heldOf, counted]
    · exact balanced.client c before isBefore
    · exact fun _ => Bool.and_false _

theorem Balanced.append (balanced : Balanced s) (found : s.clients c = some client) {u : UserConn}
    (goesTo : u.client = c) (slotless : u.slot = none) : Balanced { s with conns := s.conns ++ [u] } where
  known := by
    intro other member
    rcases List.mem_append.mp member with before | isNew
    · exact balanced.known other before
    · rw [List.mem_singleton.mp isNew, goesTo]
      exact Option.isSome_iff_exists.mpr ⟨client, found⟩
  total := by
    rw [List.countP_append, List.countP_singleton, UserConn.holdsGlobal, slotless]
    exact balanced.total
  client := by
    intro other otherClient isOther
    rw [heldOf, List.countP_append, List.countP_singleton, UserConn.holdsClient, slotless, Option.any_none,
      Bool.and_false]
    exact balanced.client other otherClient isOther

/-- A connection that is let in holds what both limits have less. -/
theorem Balanced.enter (balanced : Balanced s) {path : Path} {entered : Server}
    (isIn : s.enter id c path = some entered) : Balanced entered ∧ entered.limits = s.limits ∧
      entered.conns = s.conns ++ [{ id, client := c, path, stage := .accepted, slot := some s.limits.slot }] := by
  rw [Server.enter] at isIn
  cases found : s.clients c with
  | none =>
    rw [found] at isIn
    cases isIn
  | some client =>
    simp only [found, ConnSlot.acquire] at isIn
    cases global : s.connLimit.tryAcquire with
    | none =>
      simp only [global] at isIn
      cases isIn
    | some acquired =>
      obtain ⟨globalPermit, globalLimit⟩ := acquired
      simp only [global] at isIn
      cases ofClient : client.connLimit.tryAcquire with
      | none =>
        simp only [ofClient] at isIn
        cases isIn
      | some acquiredToo =>
        obtain ⟨clientPermit, clientLimit⟩ := acquiredToo
        simp only [ofClient] at isIn
        obtain rfl := Option.some.inj isIn
        obtain ⟨isGlobal, globalAccounts⟩ := balanced.total.acquire global
        obtain ⟨isClient, clientAccounts⟩ := (balanced.client c client found).acquire ofClient
        have isSlot : (⟨globalPermit, clientPermit⟩ : ConnSlot) = s.limits.slot := by
          rw [isGlobal, isClient]
          rfl
        have after (limit : Limit) (conns : List UserConn) (other : Nat) :
            ({ s.put c { client with connLimit := clientLimit } with connLimit := limit, conns } : Server).clients
              other = if other = c then some { client with connLimit := clientLimit } else s.clients other :=
          put_clients s c other _
        refine ⟨⟨?_, ?_, ?_⟩, rfl, by rw [isSlot]⟩
        · intro u member
          rw [after]
          split
          next => rfl
          next elsewhere =>
            rcases List.mem_append.mp member with before | isNew
            · exact balanced.known u before
            · rw [List.mem_singleton.mp isNew] at elsewhere
              exact absurd rfl elsewhere
        · rw [List.countP_append, List.countP_singleton]
          change globalLimit.Accounts s.limits.maxTotalConns _
          simpa [UserConn.holdsGlobal] using globalAccounts
        · intro other otherClient isOther
          rw [heldOf, List.countP_append, List.countP_singleton, ← heldOf]
          change otherClient.connLimit.Accounts s.limits.maxConnsPerClient _
          rw [after] at isOther
          split at isOther
          next same =>
            obtain rfl := Option.some.inj isOther
            simpa [UserConn.holdsClient, same] using clientAccounts
          next elsewhere =>
            have notHeld : (c == other) = false := beq_eq_false_iff_ne.mpr (Ne.symm elsewhere)
            simpa [notHeld] using balanced.client other otherClient isOther

theorem Balanced.login (balanced : Balanced s) (absent : s.clients c = none) :
    Balanced (s.put c (.new s.limits)) where
  known := by
    intro u member
    rw [put_clients]
    split
    next => rfl
    next => exact balanced.known u member
  total := balanced.total
  client := by
    intro other otherClient isOther
    rw [put_clients] at isOther
    split at isOther
    next same =>
      obtain rfl := Option.some.inj isOther
      have none : heldOf other s.conns = 0 := by
        refine List.countP_eq_zero.mpr fun u member held => ?_
        rw [Bool.and_eq_true, beq_iff_eq] at held
        have isKnown := balanced.known u member
        rw [held.1, same, absent] at isKnown
        cases isKnown
      show (Limit.new s.limits.maxConnsPerClient).Accounts _ (heldOf other s.conns)
      rw [none]
      exact .new _
    next => exact balanced.client other otherClient isOther

end Operations

/-- No connection loses its slot in one of these, and none comes without. -/
inductive Move (s : Server) : Server → Prop
  | put {c : Nat} {client after : ClientState} (found : s.clients c = some client)
      (same : after.connLimit = client.connLimit) : Move s (s.put c after)
  | login {c : Nat} (absent : s.clients c = none) : Move s (s.put c (.new s.limits))
  | change (id : Nat) {f : UserConn → UserConn} (sameClient : ∀ u, (f u).client = u.client)
      (sameSlot : ∀ u, (f u).slot = u.slot) : Move s (s.change id f)
  | drop (gone : UserConn → Bool) : Move s (s.drop gone)
  | enter {id c : Nat} {path : Path} {entered : Server} (isIn : s.enter id c path = some entered) : Move s entered

def Moves : Server → Server → Prop := Relation.ReflTransGen Move

theorem Moves.keeps {invariant : Server → Prop} (each : ∀ s t, Move s t → invariant s → invariant t)
    {s t : Server} (moves : Moves s t) (initially : invariant s) : invariant t := by
  induction moves with
  | refl => exact initially
  | tail _ move ih => exact each _ _ move ih

theorem Move.balanced {s t : Server} (move : Move s t) (balanced : Balanced s) : Balanced t := by
  cases move with
  | put found same => exact balanced.put found same
  | login absent => exact balanced.login absent
  | change id sameClient sameSlot => exact balanced.change id sameClient sameSlot
  | drop gone => exact balanced.drop gone
  | enter isIn => exact (balanced.enter isIn).1

structure Slotted (limits : ServerLimits) (s : Server) : Prop where
  balanced : Balanced s
  same : s.limits = limits
  slots : ∀ u ∈ s.conns, u.slot = some limits.slot

theorem Move.slotted {limits : ServerLimits} {s t : Server} (move : Move s t) (slotted : Slotted limits s) :
    Slotted limits t := by
  refine ⟨move.balanced slotted.balanced, ?_, ?_⟩
  · cases move with
    | enter isIn => exact (slotted.balanced.enter isIn).2.1.trans slotted.same
    | _ => exact slotted.same
  · intro u member
    cases move with
    | put found same => exact slotted.slots u member
    | login absent => exact slotted.slots u member
    | change id sameClient sameSlot =>
      obtain ⟨before, isBefore, rfl⟩ := List.mem_map.mp member
      split
      next => exact (sameSlot before).trans (slotted.slots before isBefore)
      next => exact slotted.slots before isBefore
    | drop gone => exact slotted.slots u (List.mem_filter.mp member).1
    | enter isIn =>
      rw [(slotted.balanced.enter isIn).2.2, slotted.same] at member
      rcases List.mem_append.mp member with before | isNew
      · exact slotted.slots u before
      · rw [List.mem_singleton.mp isNew]

section Moves

variable {s : Server} {c : Nat} {client : ClientState}

theorem moves_reap (s : Server) (c now : Nat) : Moves s (s.reap c now) := by
  rw [Server.reap]
  have dropped : Moves s _ := .single (.drop fun u =>
    ((s.users c).takeWhile (·.stage.expired now s.limits.userConnTimeout)).any (·.id == u.id))
  dsimp only
  split
  next => exact dropped
  next client found => exact dropped.tail (.put found rfl)

theorem moves_pair (found : s.clients c = some client) (id : Nat) (item : WorkItem) (rest : List WorkItem) :
    Moves s (s.pair id c client item rest) := by
  rw [Server.pair]
  refine .tail (.single (.put found ?_)) (.change id (fun _ => rfl) fun _ => rfl)
  rfl

theorem moves_submitUser (s : Server) (id c now : Nat) : Moves s (s.submitUser id c now) := by
  rw [Server.submitUser]
  split
  next =>
    have reaped := moves_reap s c now
    dsimp only
    split
    next => exact reaped
    next client found =>
      split
      next item rest isWork => exact reaped.trans (moves_pair found id item rest)
      next =>
        rw [Server.enqueue]
        split
        next => exact reaped.tail (.drop _)
        next =>
          refine .tail (reaped.tail (.put found ?_)) (.change id (fun _ => rfl) fun _ => rfl)
          rfl
  next => exact .single (.drop _)

theorem moves_submitWork (s : Server) (c now : Nat) : Moves s (s.submitWork c now) := by
  rw [Server.submitWork]
  have reaped := moves_reap s c now
  split
  next u _ _ => exact reaped.tail (.change u.id (fun _ => rfl) fun _ => rfl)
  next =>
    split
    next => exact reaped
    next client found =>
      split
      next => exact reaped
      next => exact reaped.tail (.put found rfl)

theorem moves_stop (s : Server) (c : Nat) : Moves s (s.stop c) := by
  rw [Server.stop]
  split
  next => exact .refl
  next client found => exact .single (.put found rfl)

theorem moves_acquireWorkConn (s : Server) (u : UserConn)
    (usual : ∀ client item rest, s.clients u.client = some client → client.stopped = false →
      client.work = item :: rest → u.path ≠ .sudpVisitor) : Moves s (s.acquireWorkConn u) := by
  rw [Server.acquireWorkConn]
  split
  next => exact .refl
  next client found =>
    split
    next => exact .single (.drop _)
    next running =>
      split
      next => exact .refl
      next item rest isWork =>
        dsimp only
        rw [if_neg (usual client item rest found (by simpa using running) isWork)]
        exact moves_pair found u.id item rest

theorem step_moves (event : Event) (usual : ¬Unslotted s event) : Moves s (step s event) := by
  cases event with
  | login c =>
    rw [step]
    split
    next => exact .refl
    next absent => exact .single (.login (by simpa using absent))
  | suspend c =>
    rw [step]
    split
    next client found =>
      split
      next => exact .refl
      next => exact .single (.put found rfl)
    next => exact .refl
  | resume c =>
    rw [step]
    split
    next client found =>
      split
      next => exact .refl
      next => exact .single (.put found rfl)
    next => exact .refl
  | stop c => exact moves_stop s c
  | forgotten c =>
    rw [step]
    split
    next => exact .single (.drop _)
    next => exact .refl
  | user id c now =>
    rw [step]
    split
    next => exact .refl
    next =>
      split
      next entered isIn => exact .head (.enter isIn) (moves_submitUser entered id c now)
      next => exact .refl
  | visitor id c sudp =>
    rw [step]
    split
    next => exact .refl
    next =>
      cases isIn : s.enter id c (if sudp then .sudpVisitor else .relayVisitor) with
      | none => exact .refl
      | some entered => exact .single (.enter isIn)
  | request id c =>
    rw [step]
    split
    next => exact .refl
    next fresh =>
      rw [if_neg fun isLive => usual ⟨by simpa using fresh, isLive⟩]
      exact .refl
  | awaits id =>
    rw [step]
    split
    next u found =>
      split
      next =>
        split
        next => exact .single (.change id (fun _ => rfl) fun _ => rfl)
        next => exact .single (.drop _)
      next => exact .refl
    next => exact .refl
  | woken id =>
    rw [step]
    split
    next u found =>
      split
      next isAwaiting =>
        exact moves_acquireWorkConn s u fun client item rest isClient running isWork isSudp =>
          usual ⟨u, client, item, rest, found, isAwaiting, isSudp, isClient, running, isWork⟩
      next => exact .refl
    next => exact .refl
  | timeout id =>
    rw [step]
    split
    next u found =>
      split
      next => exact .single (.drop _)
      next => exact .refl
    next => exact .refl
  | work c now => exact moves_submitWork s c now
  | ended id =>
    rw [step]
    split
    next u found =>
      split
      next => exact .single (.drop _)
      next => exact .refl
    next => exact .refl

end Moves

/-- The other steps: a connection comes without a slot, or goes on without it. -/
theorem step_unslotted {s : Server} {event : Event} (unslotted : Unslotted s event) :
    (∃ c client u, s.clients c = some client ∧ u.client = c ∧ u.slot = none ∧
      step s event = { s with conns := s.conns ++ [u] }) ∨
    ∃ t u, Moves s t ∧ u ∈ t.conns ∧ step s event = t.dropSlot u.id := by
  cases event with
  | request id c =>
    obtain ⟨fresh, isLive⟩ := unslotted
    cases found : s.clients c with
    | none =>
      rw [Server.live, found] at isLive
      cases isLive
    | some client =>
      refine .inl ⟨c, client, .requested id c, found, rfl, rfl, ?_⟩
      rw [step, fresh, if_neg (by simp), if_pos isLive]
  | woken id =>
    obtain ⟨u, client, item, rest, found, isAwaiting, isSudp, isClient, running, isWork⟩ := unslotted
    have member : u ∈ s.conns := List.mem_of_find?_eq_some found
    refine .inr ⟨s.pair u.id u.client client item rest, { u with stage := .relaying, idlePermit := item.idlePermit },
      moves_pair isClient u.id item rest, ?_, ?_⟩
    · exact List.mem_map.mpr ⟨u, member, if_pos rfl⟩
    · rw [step, found]
      simp only [isAwaiting, if_true]
      rw [Server.acquireWorkConn, isClient]
      simp only [running, isWork, isSudp, if_true]
      rfl
  | _ => exact unslotted.elim

theorem balanced_run (limits : ServerLimits) (events : List Event) : Balanced (run step (.start limits) events) := by
  have initially : Balanced (.start limits) :=
    ⟨fun _ member => (nomatch member), .new _, fun _ _ found => (nomatch found)⟩
  refine run_invariant (fun s event balanced => ?_) initially events
  by_cases unslotted : Unslotted s event
  · rcases step_unslotted unslotted with
      ⟨c, client, u, found, goesTo, slotless, isStep⟩ | ⟨t, u, moves, -, isStep⟩
    · rw [isStep]
      exact balanced.append found goesTo slotless
    · rw [isStep]
      exact (moves.keeps (fun _ _ => Move.balanced) balanced).dropSlot u.id
  · exact (step_moves event unslotted).keeps (fun _ _ => Move.balanced) balanced

theorem slotted_start (limits : ServerLimits) : Slotted limits (.start limits) where
  balanced := balanced_run limits []
  same := rfl
  slots := fun _ member => nomatch member

theorem Slotted.kept {limits : ServerLimits} {s : Server} (slotted : Slotted limits s) : Kept s := by
  obtain ⟨balanced, rfl, slots⟩ := slotted
  have total : s.limits.maxTotalConns = 0 ∨ s.connLimit.available + s.conns.length = s.limits.maxTotalConns := by
    by_cases unlimited : s.limits.maxTotalConns = 0
    · exact .inl unlimited
    · have held : s.conns.countP (·.holdsGlobal) = s.conns.length := by
        refine List.countP_eq_length.mpr fun u member => ?_
        rw [UserConn.holdsGlobal, slots u member, ServerLimits.slot, if_neg unlimited]
        rfl
      exact .inr (held ▸ balanced.total.2.resolve_left unlimited)
  have perClient : ∀ c client, s.clients c = some client → s.limits.maxConnsPerClient = 0 ∨
      client.connLimit.available + s.conns.countP (fun u => u.client == c) = s.limits.maxConnsPerClient := by
    intro c client found
    by_cases unlimited : s.limits.maxConnsPerClient = 0
    · exact .inl unlimited
    · have held : heldOf c s.conns = s.conns.countP fun u => u.client == c := by
        refine List.countP_congr fun u member => ?_
        rw [UserConn.holdsClient, slots u member, ServerLimits.slot, if_neg unlimited]
        simp
      exact .inr (held ▸ (balanced.client c client found).2.resolve_left unlimited)
  constructor
  case total => exact total.imp_right fun same => Nat.le.intro (Nat.add_comm _ _ |>.trans same)
  case perClient =>
    intro c
    cases found : s.clients c with
    | none =>
      have none : s.conns.countP (fun u => u.client == c) = 0 := by
        refine List.countP_eq_zero.mpr fun u member isClient => ?_
        have isKnown := balanced.known u member
        rw [beq_iff_eq.mp isClient, found] at isKnown
        cases isKnown
      exact .inr (none ▸ Nat.zero_le _)
    | some client => exact (perClient c client found).imp_right fun same => Nat.le.intro (Nat.add_comm _ _ |>.trans same)
  case slots =>
    intro u member
    rw [slots u member]
    rfl
  case totalUsed => exact total
  case clientUsed => exact perClient

theorem not_kept_of_unslotted {s : Server} {event : Event} (unslotted : Unslotted s event) :
    ¬Kept (step s event) := by
  intro kept
  rcases step_unslotted unslotted with
    ⟨c, client, u, found, goesTo, slotless, isStep⟩ | ⟨t, u, moves, member, isStep⟩
  · rw [isStep] at kept
    have slot := kept.slots u (List.mem_append_right _ List.mem_cons_self)
    rw [slotless] at slot
    cases slot
  · rw [isStep] at kept
    have slot := kept.slots u.takeSlot (List.mem_map.mpr ⟨u, member, if_pos rfl⟩)
    cases slot

/-- The quotas hold throughout a run exactly where no user comes through a virtual host
and no visitor of a UDP service is given a work connection. -/
theorem kept_iff (limits : ServerLimits) (events : List Event) :
    Throughout step Kept (.start limits) events ↔
      RunMeets step (fun s event => ¬Unslotted s event) (.start limits) events := by
  refine throughout_iff_runMeets (fun s event (_ : True) usual slotted => ?_) (fun s slotted => slotted.kept)
    (fun s event _ _ unslotted => not_kept_of_unslotted (not_not.mp unslotted)) (slotted_start limits)
    (runMeets_of_forall (fun _ _ => trivial) _ _)
  exact (step_moves event usual).keeps (fun _ _ => Move.slotted) slotted

def oneEach : ServerLimits where
  maxTotalConns := 1
  maxConnsPerClient := 1

/-- Two requests to a virtual host of one client, and two visitors of its UDP service. -/
theorem not_kept_oneEach :
    let requests := run step (.start oneEach) [.login 0, .request 0 0, .request 1 0]
    let visitors := run step (.start oneEach)
      [.login 0, .work 0 0, .visitor 0 0 true, .awaits 0, .woken 0, .work 0 0, .visitor 1 0 true, .awaits 1, .woken 1]
    requests.conns.map (·.client) = [0, 0] ∧ visitors.conns.map (fun u => (u.client, u.stage)) =
        [(0, .relaying), (0, .relaying)] ∧
      ¬Throughout step Kept (.start oneEach) [.login 0, .request 0 0, .request 1 0] := by
  refine ⟨by decide, by decide, ?_⟩
  rintro ⟨-, -, -, kept⟩
  exact absurd (kept.total.resolve_left (by decide)) (by decide)

end Quota

end Nfrp
