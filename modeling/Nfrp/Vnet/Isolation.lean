import Nfrp.Vnet.Registration

/-!
# Networks apart

The switch serves one network, whatever network a registration names.  Sources
are genuine all the same; that packets stay in the network of their sender, and
that other networks do not notice them, needs every packet to be addressed that
way.
-/

namespace Nfrp.Vnet

open Lib

namespace Net

variable {w : Net}

/-- The queues a packet of a session is put into, if there is room. -/
def addressees (w : Net) (client : SessionKey) (pkt : Packet) : List Nat :=
  match parseIpv4 pkt with
  | none => []
  | some h =>
    if h.src ∉ w.hub.routes.ipsOf w.hub.network client ∨ h.dst = w.hub.gateway then []
    else if h.dst = BitVec.allOnes 32 ∨ h.dst = w.hub.subnet.broadcast then w.others client
    else ((w.hub.routes.lookup w.hub.network h.dst).bind w.hub.sinks.lookup).toList

theorem getElem?_trySend (pkt : Packet) (i j : Nat) :
    (w.trySend pkt i).members[j]? =
      w.members[j]?.map fun m => if j = i ∧ m.hasRoom then m.push pkt else m := by
  rw [trySend]
  cases isMember : w.members[j]? with
  | none =>
    split
    · simp [List.getElem?_modify, isMember]
    · exact isMember
  | some m =>
    by_cases isAddressee : j = i
    · subst isAddressee
      rw [isMember, Option.any_some]
      split
      next room => simp [isMember, room]
      next full => simp [isMember, full]
    · split
      · simp [List.getElem?_modify_ne _ _ (Ne.symm isAddressee), isMember, isAddressee]
      · simp [isMember, isAddressee]

theorem getElem?_flood (pkt : Packet) {targets : List Nat} (once : targets.Nodup) (j : Nat) :
    (targets.foldl (fun w i => w.trySend pkt i) w).members[j]? =
      w.members[j]?.map fun m => if j ∈ targets ∧ m.hasRoom then m.push pkt else m := by
  induction targets generalizing w with
  | nil => simp
  | cons i targets ih =>
    obtain ⟨notLater, onceLater⟩ := List.nodup_cons.mp once
    rw [List.foldl_cons, ih onceLater, getElem?_trySend, Option.map_map]
    congr 1
    funext m
    by_cases isFirst : j = i
    · subst isFirst
      simp [notLater]
    · simp [isFirst]

theorem Inv.sink_inj (inv : w.Inv) {client other : SessionKey} {i : Nat}
    (isSink : w.hub.sinks.lookup client = some i) (isSinkToo : w.hub.sinks.lookup other = some i) :
    client = other := by
  obtain ⟨m, isMember, isKey, -⟩ := inv.current client i isSink
  obtain ⟨m', isMember', isKey', -⟩ := inv.current other i isSinkToo
  rw [isMember] at isMember'
  rw [← isKey, ← isKey', Option.some.inj isMember']

theorem Inv.nodup_others (inv : w.Inv) (client : SessionKey) : (w.others client).Nodup := by
  refine List.Nodup.map_on ?_ (w.hub.sinks.nodupKeys.nodup.filter _)
  intro one isOne two isTwo same
  have isSink := lookup_eq_some_iff.mpr (List.mem_of_mem_filter isOne)
  have isSinkToo := lookup_eq_some_iff.mpr (List.mem_of_mem_filter isTwo)
  rw [← same] at isSinkToo
  exact Sigma.ext (inv.sink_inj isSink isSinkToo) (heq_of_eq same)

theorem Inv.nodup_addressees (inv : w.Inv) (client : SessionKey) (pkt : Packet) :
    (w.addressees client pkt).Nodup := by
  rw [addressees]
  split
  · exact List.nodup_nil
  split
  · exact List.nodup_nil
  split
  · exact inv.nodup_others client
  · exact Option.toList_nodup _

def echo (w : Net) (client : SessionKey) (pkt : Packet) : Option Packet :=
  match parseIpv4 pkt with
  | none => none
  | some h =>
    if h.src ∈ w.hub.routes.ipsOf w.hub.network client ∧ h.dst = w.hub.gateway then icmpEchoReply pkt
    else none

theorem echo_eq_some {client : SessionKey} {pkt reply : Packet} (answered : w.echo client pkt = some reply) :
    (∃ h, parseIpv4 pkt = some h ∧ h.dst = w.hub.gateway ∧ icmpEchoReply pkt = some reply) ∧
      w.addressees client pkt = [] := by
  rw [echo] at answered
  rw [addressees]
  split at answered
  · cases answered
  next h isHeader =>
    split at answered
    next toGateway => exact ⟨⟨h, isHeader, toGateway.2, answered⟩, if_pos (.inr toGateway.2)⟩
    · cases answered

/-- A packet of a session is answered by the gateway, or else reaches its addressees. -/
theorem members_route (i : Nat) (client : SessionKey) (pkt : Packet) :
    (w.route i client pkt).members =
      match w.echo client pkt with
      | some reply => w.members.modify i (Member.holdReply (some reply))
      | none => ((w.addressees client pkt).foldl (fun w i => w.trySend pkt i) w).members := by
  rw [route, addressees, echo]
  cases isHeader : parseIpv4 pkt with
  | none => rfl
  | some h =>
    by_cases genuine : h.src ∈ w.hub.routes.ipsOf w.hub.network client
    swap
    · simp [genuine]
    by_cases toGateway : h.dst = w.hub.gateway
    · simp only [genuine, toGateway, not_true_eq_false, if_false, if_true, or_true, and_self]
      cases icmpEchoReply pkt with
      | none => rfl
      | some reply => rfl
    · simp only [genuine, toGateway, not_true_eq_false, if_false, or_false, and_false]
      split
      · rfl
      cases w.hub.routes.lookup w.hub.network h.dst with
      | none => rfl
      | some owner =>
        rw [Option.bind_some]
        cases isSink : w.hub.sinks.lookup owner with
        | none => simp [isSink]
        | some j => simp [isSink]

def afterPacket (w : Net) (i : Nat) (sender : Member) (pkt : Packet) (j : Nat) (m : Member) : Member :=
  if sender.reply.isSome then m
  else
    match w.echo sender.key pkt with
    | some reply => if j = i then m.holdReply (some reply) else m
    | none => if j ∈ w.addressees sender.key pkt ∧ m.hasRoom then m.push pkt else m

theorem getElem?_packet (inv : w.Inv) {i : Nat} {sender : Member} (isSender : w.members[i]? = some sender)
    (pkt : Packet) (j : Nat) :
    (w.step (.packet i pkt)).members[j]? = w.members[j]?.map (w.afterPacket i sender pkt j) := by
  rw [step, isSender]
  unfold afterPacket
  simp only
  by_cases busy : sender.reply.isSome
  · simp only [busy, if_true]
    exact Option.map_id'.symm
  · simp only [busy, Bool.false_eq_true, if_false]
    rw [members_route]
    cases w.echo sender.key pkt with
    | none => exact getElem?_flood pkt (inv.nodup_addressees sender.key pkt) j
    | some reply =>
      simp only [List.getElem?_modify, eq_comm (a := i)]
      rfl

theorem network_afterPacket (i : Nat) (sender : Member) (pkt : Packet) (j : Nat) (m : Member) :
    (w.afterPacket i sender pkt j m).network = m.network := by
  rw [afterPacket]
  split
  · rfl
  split <;> split <;> rfl

def Delivered (w : Net) (event : Event) (j : Nat) (p : Packet) : Prop :=
  ∃ m after, w.members[j]? = some m ∧ (w.step event).members[j]? = some after ∧ after.inbox = m.inbox ++ [p]

theorem inbox_ne_append (m : Member) (p : Packet) : m.inbox ≠ m.inbox ++ [p] := by simp

theorem inbox_afterPacket {i j : Nat} {sender m : Member} {pkt p : Packet} :
    (w.afterPacket i sender pkt j m).inbox = m.inbox ++ [p] ↔
      p = pkt ∧ sender.reply = none ∧ j ∈ w.addressees sender.key pkt ∧ m.hasRoom := by
  have unchanged := inbox_ne_append m p
  rw [afterPacket]
  cases isIdle : sender.reply with
  | some reply => simp [unchanged]
  | none =>
    cases isEcho : w.echo sender.key pkt with
    | none =>
      simp only [Option.isSome_none, Bool.false_eq_true, if_false, true_and]
      split
      next got => simp [Member.push, got, eq_comm]
      next missed => simp [unchanged, missed]
    | some reply =>
      simp only [Option.isSome_none, Bool.false_eq_true, if_false, (echo_eq_some isEcho).2, List.not_mem_nil,
        false_and, and_false, iff_false]
      split <;> exact unchanged

theorem delivered_packet_iff (inv : w.Inv) {i j : Nat} {pkt p : Packet} :
    w.Delivered (.packet i pkt) j p ↔
      p = pkt ∧ ∃ sender ∈ w.members[i]?, sender.reply = none ∧ j ∈ w.addressees sender.key pkt ∧
        ∃ receiver ∈ w.members[j]?, receiver.hasRoom := by
  rw [Delivered]
  cases isSender : w.members[i]? with
  | none =>
    constructor
    · rintro ⟨m, after, isMember, isAfter, grown⟩
      rw [step, isSender, isMember] at isAfter
      exact absurd (Option.some.inj isAfter ▸ grown) (inbox_ne_append m p)
    · rintro ⟨-, sender, isNone, -⟩
      cases isNone
  | some sender =>
    rw [getElem?_packet inv isSender]
    cases isReceiver : w.members[j]? with
    | none => simp
    | some receiver =>
      simp only [Option.map_some, Option.some.injEq, exists_eq_left', Option.mem_def]
      constructor
      · rintro ⟨m, after, rfl, rfl, grown⟩
        exact inbox_afterPacket.mp grown
      · exact fun got => ⟨receiver, _, rfl, rfl, inbox_afterPacket.mpr got⟩

theorem getElem?_of_not_traffic {event : Event} (notTraffic : ¬ event.IsTraffic) {j : Nat} {m : Member}
    (isMember : w.members[j]? = some m) : (w.step event).members[j]? = some m := by
  cases event with
  | join client network want =>
    rw [step]
    cases w.hub.join client want w.members.length with
    | mk result hub =>
      cases result with
      | error reason => exact isMember
      | ok joined =>
        exact (List.getElem?_append_left (List.getElem?_eq_some_iff.mp isMember).1).trans isMember
  | leave client => exact isMember
  | dropGuard i =>
    rw [step]
    split
    · exact isMember
    · exact isMember
  | packet | deliver | recv => exact absurd trivial notTraffic

theorem eq_of_new {event : Event} (notTraffic : ¬ event.IsTraffic) {j : Nat} {after : Member}
    (isNew : w.members[j]? = none) (isAfter : (w.step event).members[j]? = some after) :
    after = ⟨after.key, after.network, after.generation, [], [], none⟩ := by
  have absent {before : List Member} (same : before = w.members) (isMember : before[j]? = some after) : False := by
    rw [same, isNew] at isMember
    cases isMember
  cases event with
  | join client network want =>
    rw [step] at isAfter
    cases joined : w.hub.join client want w.members.length with
    | mk result hub =>
      rw [joined] at isAfter
      cases result with
      | error reason => exact (absent rfl isAfter).elim
      | ok joined =>
        simp only [List.getElem?_append_right (List.getElem?_eq_none_iff.mp isNew),
          List.getElem?_singleton] at isAfter
        split at isAfter
        · obtain rfl := Option.some.inj isAfter
          rfl
        · cases isAfter
  | leave client => exact (absent rfl isAfter).elim
  | dropGuard i =>
    rw [step] at isAfter
    split at isAfter
    · exact (absent rfl isAfter).elim
    · exact (absent rfl isAfter).elim
  | packet | deliver | recv => exact absurd trivial notTraffic

def Distinct (w : Net) : Prop :=
  (w.members.map Member.key).Nodup

theorem Distinct.of_registrations (distinct : w.Distinct) {after : Net}
    (same : after.registrations = w.registrations) : after.Distinct := by
  have keys (members : List Member) :
      members.map Member.key = (members.map Member.registration).map (·.1) := by
    rw [List.map_map]
    rfl
  have sameMembers : after.members.map Member.registration = w.members.map Member.registration :=
    (Prod.mk.inj same).2
  rw [Distinct, keys, sameMembers, ← keys]
  exact distinct

theorem Distinct.inj (distinct : w.Distinct) {i j : Nat} {m other : Member} (isMember : w.members[i]? = some m)
    (isOther : w.members[j]? = some other) (sameKey : m.key = other.key) : i = j := by
  have inside : i < (w.members.map Member.key).length := by
    rw [List.length_map]
    exact (List.getElem?_eq_some_iff.mp isMember).1
  apply (List.getElem?_inj inside distinct).mp
  rw [List.getElem?_map, List.getElem?_map, isMember, isOther, Option.map_some, Option.map_some, sameKey]

theorem Distinct.sink (distinct : w.Distinct) (inv : w.Inv) {i j : Nat} {m : Member}
    (isMember : w.members[i]? = some m) (isSink : w.hub.sinks.lookup m.key = some j) : j = i := by
  obtain ⟨owner, isOwner, isKey, -⟩ := inv.current m.key j isSink
  exact distinct.inj isOwner isMember isKey

/-- What an answer of the gateway does: it is put into the queue of the one that
asked, if that is still there. -/
theorem getElem?_deliver (inv : w.Inv) (distinct : w.Distinct) {i : Nat} {m : Member} {reply : Packet}
    (isMember : w.members[i]? = some m) (isReply : m.reply = some reply) (j : Nat) :
    (w.step (.deliver i)).members[j]? =
      if j = i then
        some (if m.key ∈ w.hub.sinks ∧ m.hasRoom then (m.holdReply none).push reply else m.holdReply none)
      else w.members[j]? := by
  rw [step, isMember]
  simp only [isReply, deliver]
  cases isSink : w.hub.sinks.lookup m.key with
  | none =>
    have absent : m.key ∉ w.hub.sinks := AList.lookup_eq_none.mp isSink
    rw [List.getElem?_modify]
    by_cases isIndex : j = i
    · simp [isIndex, isMember, absent]
    · simp [isIndex, Ne.symm isIndex]
  | some k =>
    have present : m.key ∈ w.hub.sinks := mem_iff_lookup.mpr ⟨k, isSink⟩
    obtain rfl := distinct.sink inv isMember isSink
    rw [getElem?_trySend, List.getElem?_modify]
    by_cases isIndex : j = k
    · simp [isIndex, isMember, present, Member.holdReply, Member.hasRoom]
    · simp [isIndex, Ne.symm isIndex]

theorem getElem?_deliver_of_ne (inv : w.Inv) (distinct : w.Distinct) {i j : Nat} (elsewhere : j ≠ i) :
    (w.step (.deliver i)).members[j]? = w.members[j]? := by
  cases isMember : w.members[i]? with
  | none => rw [step, isMember]
  | some m =>
    cases isReply : m.reply with
    | none =>
      rw [step, isMember]
      simp only [isReply]
    | some reply => rw [getElem?_deliver inv distinct isMember isReply, if_neg elsewhere]

/-- A registration has a name of its own, and a packet is not addressed to a
queue of another network that has room for it. -/
def Confined (w : Net) : Event → Prop
  | .join client _ _ => client ∉ w.members.map Member.key
  | .packet i pkt => ∀ sender ∈ w.members[i]?, sender.reply = none → ∀ j ∈ w.addressees sender.key pkt,
      ∀ receiver ∈ w.members[j]?, receiver.hasRoom → receiver.network = sender.network
  | _ => True

instance (w : Net) : (event : Event) → Decidable (w.Confined event)
  | .join client _ _ => inferInstanceAs (Decidable (client ∉ w.members.map Member.key))
  | .packet i pkt => inferInstanceAs (Decidable (∀ sender ∈ w.members[i]?, sender.reply = none →
      ∀ j ∈ w.addressees sender.key pkt, ∀ receiver ∈ w.members[j]?, receiver.hasRoom →
        receiver.network = sender.network))
  | .leave _ | .dropGuard _ | .deliver _ | .recv _ => .isTrue trivial

theorem confined_packet_iff (inv : w.Inv) (i : Nat) (pkt : Packet) :
    w.Confined (.packet i pkt) ↔ ∀ j p, w.Delivered (.packet i pkt) j p →
      ∀ sender ∈ w.members[i]?, ∀ receiver ∈ w.members[j]?, receiver.network = sender.network := by
  simp only [delivered_packet_iff inv, Confined]
  constructor
  · rintro confined j p ⟨-, sender, isSender, idle, isAddressee, receiver, isReceiver, room⟩ other isOther
      last isLast
    rw [← Option.some.inj (isSender.symm.trans isOther), ← Option.some.inj (isReceiver.symm.trans isLast)]
    exact confined sender isSender idle j isAddressee receiver isReceiver room
  · intro reaches sender isSender idle j isAddressee receiver isReceiver room
    exact reaches j pkt ⟨rfl, sender, isSender, idle, isAddressee, receiver, isReceiver, room⟩ sender isSender
      receiver isReceiver

theorem Distinct.step (distinct : w.Distinct) {event : Event} (confined : w.Confined event) :
    (w.step event).Distinct := by
  cases event with
  | join client network want =>
    rw [Net.step]
    cases w.hub.join client want w.members.length with
    | mk result hub =>
      cases result with
      | error reason => exact distinct
      | ok joined =>
        rw [Distinct, List.map_append, List.map_singleton, ← List.concat_eq_append]
        exact distinct.concat confined
  | leave client => exact distinct
  | dropGuard i =>
    rw [Net.step]
    split
    · exact distinct
    · exact distinct
  | packet | deliver | recv => exact distinct.of_registrations (registrations_step trivial)

theorem gateway_step (event : Event) : (w.step event).hub.gateway = w.hub.gateway := by
  cases event with
  | join client network want =>
    rw [step, VnetHub.join]
    cases (w.hub.forget client).assign client want with
    | error reason => exact VnetHub.gateway_forget client
    | ok given => exact VnetHub.gateway_forget client
  | leave client => rfl
  | dropGuard i =>
    rw [step]
    split
    · rw [VnetHub.leaveIfCurrent]
      split <;> rfl
    · rfl
  | packet i pkt =>
    have isTraffic : (Event.packet i pkt).IsTraffic := trivial
    exact congrArg (fun r => VnetHub.gateway r.1) (registrations_step isTraffic)
  | deliver i =>
    have isTraffic : (Event.deliver i).IsTraffic := trivial
    exact congrArg (fun r => VnetHub.gateway r.1) (registrations_step isTraffic)
  | recv i =>
    have isTraffic : (Event.recv i).IsTraffic := trivial
    exact congrArg (fun r => VnetHub.gateway r.1) (registrations_step isTraffic)

/-- An answer to something the registration asked the gateway. -/
def Answers (past : List Event) (gateway : Ipv4Addr) (i : Nat) (reply : Packet) : Prop :=
  ∃ request h, .packet i request ∈ past ∧ parseIpv4 request = some h ∧ h.dst = gateway ∧
    icmpEchoReply request = some reply

def Asked (past : List Event) (w : Net) : Prop :=
  ∀ i m reply, w.members[i]? = some m → m.reply = some reply → Answers past w.hub.gateway i reply

/-- Where the answers under way come from: they were there before, or the step
is the request. -/
theorem reply_step (inv : w.Inv) (distinct : w.Distinct) {event : Event} {j : Nat} {after : Member} {reply : Packet}
    (isAfter : (w.step event).members[j]? = some after) (isReply : after.reply = some reply) :
    (∃ m, w.members[j]? = some m ∧ m.reply = some reply) ∨ Answers [event] w.hub.gateway j reply := by
  cases event with
  | join client network want =>
    rw [step] at isAfter
    cases joined : w.hub.join client want w.members.length with
    | mk result hub =>
      rw [joined] at isAfter
      cases result with
      | error reason => exact .inl ⟨after, isAfter, isReply⟩
      | ok joined =>
        simp only [List.getElem?_append, List.getElem?_singleton] at isAfter
        split at isAfter
        · exact .inl ⟨after, isAfter, isReply⟩
        split at isAfter
        · obtain rfl := Option.some.inj isAfter
          cases isReply
        · cases isAfter
  | leave client => exact .inl ⟨after, isAfter, isReply⟩
  | dropGuard i =>
    rw [step] at isAfter
    split at isAfter
    · exact .inl ⟨after, isAfter, isReply⟩
    · exact .inl ⟨after, isAfter, isReply⟩
  | packet i pkt =>
    cases isSender : w.members[i]? with
    | none =>
      rw [step, isSender] at isAfter
      exact .inl ⟨after, isAfter, isReply⟩
    | some sender =>
      rw [getElem?_packet inv isSender, Option.map_eq_some_iff] at isAfter
      obtain ⟨m, isMember, rfl⟩ := isAfter
      rw [afterPacket] at isReply
      split at isReply
      · exact .inl ⟨m, isMember, isReply⟩
      split at isReply
      next answer isEcho =>
        split at isReply
        next isIndex =>
          subst isIndex
          obtain rfl := Option.some.inj isReply
          obtain ⟨h, isHeader, toGateway, isAnswer⟩ := (echo_eq_some isEcho).1
          exact .inr ⟨pkt, h, List.mem_singleton.mpr rfl, isHeader, toGateway, isAnswer⟩
        · exact .inl ⟨m, isMember, isReply⟩
      · refine .inl ⟨m, isMember, ?_⟩
        split at isReply
        · exact isReply
        · exact isReply
  | deliver i =>
    cases isMember : w.members[i]? with
    | none =>
      rw [step, isMember] at isAfter
      exact .inl ⟨after, isAfter, isReply⟩
    | some m =>
      cases isAnswer : m.reply with
      | none =>
        rw [step, isMember] at isAfter
        simp only [isAnswer] at isAfter
        exact .inl ⟨after, isAfter, isReply⟩
      | some answer =>
        rw [getElem?_deliver inv distinct isMember isAnswer] at isAfter
        split at isAfter
        · obtain rfl := Option.some.inj isAfter
          split at isReply
          · cases isReply
          · cases isReply
        · exact .inl ⟨after, isAfter, isReply⟩
  | recv i =>
    rw [step, List.getElem?_modify, Option.map_eq_map, Option.map_eq_some_iff] at isAfter
    obtain ⟨m, isMember, rfl⟩ := isAfter
    refine .inl ⟨m, isMember, ?_⟩
    split at isReply
    · exact isReply
    · exact isReply

theorem Asked.step {past : List Event} (asked : Asked past w) (inv : w.Inv) (distinct : w.Distinct)
    (event : Event) : Asked (past ++ [event]) (w.step event) := by
  intro j after reply isAfter isReply
  rw [gateway_step]
  rcases reply_step inv distinct isAfter isReply with ⟨m, isMember, wasReply⟩ | ⟨request, h, isEvent, rest⟩
  · obtain ⟨request, h, isEvent, rest⟩ := asked j m reply isMember wasReply
    exact ⟨request, h, List.mem_append_left _ isEvent, rest⟩
  · exact ⟨request, h, List.mem_append_right _ isEvent, rest⟩

theorem asked_run {past events : List Event} (asked : Asked past w) (inv : w.Inv) (distinct : w.Distinct)
    (meets : RunMeets Net.step Net.Confined w events) : Asked (past ++ events) (run Net.step w events) := by
  induction events generalizing past w with
  | nil => rwa [List.append_nil]
  | cons event events ih =>
    rw [List.append_cons]
    exact ih (asked.step inv distinct event) (inv.step event) (distinct.step meets.1) meets.2

/-- A packet that is delivered comes from the network of the one that gets it and
has a source its sender holds, or it is the gateway's answer to that very member. -/
def Genuine (past : List Event) (w : Net) (event : Event) (j : Nat) (p : Packet) : Prop :=
  match event with
  | .packet i pkt => p = pkt ∧ ∃ sender ∈ w.members[i]?, ∃ receiver ∈ w.members[j]?,
      receiver.network = sender.network ∧ ∃ h, parseIpv4 p = some h ∧
        w.hub.pool.leases.held.lookup sender.key = some h.src
  | .deliver i => j = i ∧ Answers past w.hub.gateway i p
  | _ => False

theorem src_of_mem_addressees (inv : w.Inv) {client : SessionKey} {pkt : Packet} {j : Nat}
    (isAddressee : j ∈ w.addressees client pkt) :
    ∃ h, parseIpv4 pkt = some h ∧ w.hub.pool.leases.held.lookup client = some h.src := by
  rw [addressees] at isAddressee
  split at isAddressee
  · cases isAddressee
  next h isHeader =>
    split at isAddressee
    · cases isAddressee
    next passed =>
      rw [not_or, not_not, Switch.mem_ipsOf, inv.consistent.routed] at passed
      exact ⟨h, isHeader, passed.1⟩

theorem genuine_of_delivered {past : List Event} (asked : Asked past w) (inv : w.Inv) (distinct : w.Distinct)
    {event : Event} (confined : w.Confined event) {j : Nat} {p : Packet} (delivered : w.Delivered event j p) :
    Genuine past w event j p := by
  have unchanged {m : Member} := inbox_ne_append m p
  by_cases traffic : event.IsTraffic
  swap
  · obtain ⟨m, after, isMember, isAfter, grown⟩ := delivered
    rw [getElem?_of_not_traffic traffic isMember] at isAfter
    exact absurd (Option.some.inj isAfter ▸ grown) unchanged
  cases event with
  | packet i pkt =>
    have sameNetwork := (confined_packet_iff inv i pkt).mp confined j p delivered
    obtain ⟨rfl, sender, isSender, -, isAddressee, receiver, isReceiver, -⟩ :=
      (delivered_packet_iff inv).mp delivered
    exact ⟨rfl, sender, isSender, receiver, isReceiver, sameNetwork sender isSender receiver isReceiver,
      src_of_mem_addressees inv isAddressee⟩
  | deliver i =>
    obtain ⟨m, after, isMember, isAfter, grown⟩ := delivered
    cases isAsker : w.members[i]? with
    | none =>
      rw [step, isAsker, isMember] at isAfter
      exact absurd (Option.some.inj isAfter ▸ grown) unchanged
    | some asker =>
      cases isAnswer : asker.reply with
      | none =>
        rw [step, isAsker] at isAfter
        simp only [isAnswer, isMember] at isAfter
        exact absurd (Option.some.inj isAfter ▸ grown) unchanged
      | some answer =>
        rw [getElem?_deliver inv distinct isAsker isAnswer] at isAfter
        split at isAfter
        next isIndex =>
          subst isIndex
          obtain rfl := Option.some.inj isAfter
          obtain rfl := Option.some.inj (isMember.symm.trans isAsker)
          split at grown
          · obtain rfl := List.singleton_inj.mp (List.append_cancel_left grown)
            exact ⟨rfl, asked j m answer isMember isAnswer⟩
          · exact absurd grown unchanged
        · rw [isMember] at isAfter
          exact absurd (Option.some.inj isAfter ▸ grown) unchanged
  | join | leave | dropGuard => exact absurd traffic not_false
  | recv i =>
    obtain ⟨m, after, isMember, isAfter, grown⟩ := delivered
    rw [step, List.getElem?_modify, isMember, Option.map_eq_map, Option.map_some] at isAfter
    obtain rfl := Option.some.inj isAfter
    split at grown
    · have shorter := congrArg List.length grown
      simp only [Member.write, List.length_tail, List.length_append, List.length_singleton] at shorter
      omega
    · exact absurd grown unchanged

def Foreign (network : String) (w : Net) : Event → Prop
  | .packet i _ => w.members[i]?.any (·.network ≠ network)
  | _ => False

instance (network : String) (w : Net) : (event : Event) → Decidable (w.Foreign network event)
  | .packet i _ => inferInstanceAs (Decidable (w.members[i]?.any (·.network ≠ network) = true))
  | .join .. | .leave _ | .dropGuard _ | .deliver _ | .recv _ => .isFalse not_false

/-- The same registrations, and the same to see for the members of one network. -/
structure Alike (network : String) (w other : Net) : Prop where
  registrations : other.registrations = w.registrations
  same : ∀ (j : Nat) (m : Member), w.members[j]? = some m → m.network = network → other.members[j]? = some m

variable {other : Net}

theorem tables_forget (g : VnetHub) (client : SessionKey) :
    g.tables.forget client = (g.forget client).tables := by
  by_cases present : client ∈ g.sinks
  · have forgotten : g.forget client = g.leaveLocked client := if_pos present
    rw [forgotten]
    exact if_pos present
  · have kept : g.forget client = g := if_neg present
    rw [kept]
    exact if_neg present

theorem tables_leaveIfCurrent (g : VnetHub) (client : SessionKey) (generation : Nat) :
    g.tables.leaveIfCurrent client generation = (g.leaveIfCurrent client generation).tables := by
  by_cases late : g.owners.lookup client ≠ some generation
  · have kept : g.leaveIfCurrent client generation = g := if_pos late
    rw [kept]
    exact if_pos late
  · have left : g.leaveIfCurrent client generation = g.leaveLocked client := if_neg late
    rw [left]
    exact if_neg late

theorem tables_join (g : VnetHub) (client : SessionKey) (want : Option Ipv4Addr) (sink : Nat) :
    g.tables.join client want sink = ((g.join client want sink).1, (g.join client want sink).2.tables) := by
  rw [VnetHub.join, VnetHub.join, tables_forget]
  have sameAnswer : (g.forget client).tables.assign client want = (g.forget client).assign client want := rfl
  simp only [sameAnswer]
  cases (g.forget client).assign client want with
  | error reason => rfl
  | ok given => rfl

theorem registrations_congr {event : Event} (notTraffic : ¬ event.IsTraffic)
    (same : other.registrations = w.registrations) :
    (other.step event).registrations = (w.step event).registrations := by
  have sameTables : other.hub.tables = w.hub.tables := (Prod.mk.inj same).1
  have sameMembers : other.members.map Member.registration = w.members.map Member.registration :=
    (Prod.mk.inj same).2
  have sameLength : other.members.length = w.members.length := by
    simpa only [List.length_map] using congrArg List.length sameMembers
  cases event with
  | join client network want =>
    have joined := tables_join other.hub client want w.members.length
    rw [sameTables, tables_join] at joined
    obtain ⟨sameResult, sameAfter⟩ := Prod.mk.inj joined
    rw [step, step, sameLength]
    cases ours : w.hub.join client want w.members.length with
    | mk result hub =>
      cases theirs : other.hub.join client want w.members.length with
      | mk result' hub' =>
        simp only [ours, theirs] at sameResult sameAfter
        subst sameResult
        cases result with
        | error reason => exact Prod.ext sameAfter.symm sameMembers
        | ok joined =>
          refine Prod.ext sameAfter.symm ?_
          simp only [registrations, List.map_append, sameMembers]
  | leave client => exact Prod.ext (congrArg (·.leaveLocked client) sameTables) sameMembers
  | dropGuard i =>
    have sameMember := congrArg (·[i]?) sameMembers
    simp only [List.getElem?_map] at sameMember
    rw [step, step]
    cases ours : w.members[i]? with
    | none =>
      rw [ours, Option.map_none, Option.map_eq_none_iff] at sameMember
      rw [sameMember]
      exact same
    | some m =>
      rw [ours, Option.map_some, Option.map_eq_some_iff] at sameMember
      obtain ⟨m', theirs, isSame⟩ := sameMember
      have sameKey : m'.key = m.key := congrArg (·.1) isSame
      have sameGeneration : m'.generation = m.generation := congrArg (·.2.2) isSame
      rw [theirs]
      simp only [sameKey, sameGeneration]
      refine Prod.ext ?_ sameMembers
      have left := tables_leaveIfCurrent other.hub m.key m.generation
      rw [sameTables, tables_leaveIfCurrent] at left
      exact left.symm
  | packet | deliver | recv => exact absurd trivial notTraffic

theorem addressees_congr (same : other.registrations = w.registrations) (client : SessionKey) (pkt : Packet) :
    other.addressees client pkt = w.addressees client pkt := by
  have sameTables : other.hub.tables = w.hub.tables := (Prod.mk.inj same).1
  exact (congrArg (fun g => addressees ⟨g, []⟩ client pkt) sameTables :)

theorem echo_congr (same : other.registrations = w.registrations) (client : SessionKey) (pkt : Packet) :
    other.echo client pkt = w.echo client pkt := by
  have sameTables : other.hub.tables = w.hub.tables := (Prod.mk.inj same).1
  exact (congrArg (fun g => echo ⟨g, []⟩ client pkt) sameTables :)

theorem alike_skip {network : String} (inv : w.Inv) {event : Event} (confined : w.Confined event)
    (alike : Alike network w other) (foreign : w.Foreign network event) :
    Alike network (w.step event) other := by
  cases event with
  | packet i pkt =>
    have isTraffic : (Event.packet i pkt).IsTraffic := trivial
    refine ⟨alike.registrations.trans (registrations_step isTraffic).symm, ?_⟩
    intro j after isAfter isOurs
    obtain ⟨sender, isSender, elsewhere⟩ := (Option.any_eq_true _ _).mp foreign
    rw [decide_eq_true_eq] at elsewhere
    rw [getElem?_packet inv isSender, Option.map_eq_some_iff] at isAfter
    obtain ⟨m, isMember, rfl⟩ := isAfter
    have unseen : w.afterPacket i sender pkt j m = m := by
      rw [network_afterPacket] at isOurs
      rw [afterPacket]
      split
      · rfl
      next idle =>
        split
        · refine if_neg fun isIndex => elsewhere ?_
          subst isIndex
          rw [← isOurs, Option.some.inj (isSender.symm.trans isMember)]
        · refine if_neg fun reached => elsewhere ?_
          have isIdle : sender.reply = none := by simpa using idle
          rw [← isOurs]
          exact (confined sender isSender isIdle j reached.1 m isMember reached.2).symm
    rw [unseen] at isOurs ⊢
    exact alike.same j m isMember isOurs
  | join | leave | dropGuard | deliver | recv => exact foreign.elim

theorem lookup_member_congr (same : other.registrations = w.registrations) {i : Nat} :
    other.members[i]? = none ↔ w.members[i]? = none := by
  have sameMember := congrArg (·[i]?) (Prod.mk.inj same).2
  simp only [List.getElem?_map] at sameMember
  rw [← Option.map_eq_none_iff (f := Member.registration), sameMember, Option.map_eq_none_iff]

/-- Any other step shows the members of the network the same. -/
theorem alike_follow {network : String} (inv : w.Inv) (distinct : w.Distinct) {event : Event}
    (alike : Alike network w other) (notForeign : ¬ w.Foreign network event) :
    Alike network (w.step event) (other.step event) := by
  have invToo := inv.of_registrations alike.registrations
  have distinctToo := distinct.of_registrations alike.registrations
  by_cases traffic : event.IsTraffic
  · refine ⟨(registrations_step traffic).trans (alike.registrations.trans (registrations_step traffic).symm), ?_⟩
    intro j after isAfter isOurs
    obtain ⟨before, isBefore, sameRegistration⟩ :=
      getElem?_of_registrations (registrations_step traffic).symm isAfter
    have wasOurs : before.network = network := (congrArg (·.2.1) sameRegistration).trans isOurs
    have isTheirs := alike.same j before isBefore wasOurs
    cases event with
    | packet i pkt =>
      cases isSender : w.members[i]? with
      | none =>
        rw [step, isSender] at isAfter
        rw [step, (lookup_member_congr alike.registrations).mpr isSender]
        exact alike.same j after isAfter isOurs
      | some sender =>
        have ofNetwork : sender.network = network := by
          by_contra elsewhere
          exact notForeign ((Option.any_eq_true _ _).mpr ⟨sender, isSender, decide_eq_true elsewhere⟩)
        have isSenderToo := alike.same i sender isSender ofNetwork
        rw [getElem?_packet inv isSender, isBefore] at isAfter
        rw [getElem?_packet invToo isSenderToo, isTheirs, ← isAfter, Option.map_some, Option.map_some,
          afterPacket, afterPacket, echo_congr alike.registrations, addressees_congr alike.registrations]
    | deliver i =>
      by_cases isIndex : j = i
      · subst isIndex
        have sameTables : other.hub.tables = w.hub.tables := (Prod.mk.inj alike.registrations).1
        have sameSinks : other.hub.sinks = w.hub.sinks := (congrArg VnetHub.sinks sameTables :)
        cases isReply : before.reply with
        | none =>
          rw [step, isBefore] at isAfter
          rw [step, isTheirs]
          simp only [isReply] at isAfter ⊢
          exact alike.same j after isAfter isOurs
        | some reply =>
          rw [getElem?_deliver inv distinct isBefore isReply, if_pos rfl] at isAfter
          rw [getElem?_deliver invToo distinctToo isTheirs isReply, if_pos rfl, sameSinks]
          exact isAfter
      · rw [getElem?_deliver_of_ne inv distinct isIndex] at isAfter
        rw [getElem?_deliver_of_ne invToo distinctToo isIndex]
        exact alike.same j after isAfter isOurs
    | recv i =>
      rw [step, List.getElem?_modify, isBefore] at isAfter
      rw [step, List.getElem?_modify, isTheirs]
      exact isAfter
    | join | leave | dropGuard => exact absurd traffic not_false
  · have sameAfter := registrations_congr traffic alike.registrations
    refine ⟨sameAfter, ?_⟩
    intro j after isAfter isOurs
    cases isBefore : w.members[j]? with
    | some before =>
      rw [getElem?_of_not_traffic traffic isBefore] at isAfter
      obtain rfl := Option.some.inj isAfter
      exact getElem?_of_not_traffic traffic (alike.same j before isBefore isOurs)
    | none =>
      have isBeforeToo := (lookup_member_congr alike.registrations).mpr isBefore
      obtain ⟨later, isLater, sameRegistration⟩ := getElem?_of_registrations sameAfter isAfter
      rw [isLater, eq_of_new traffic isBeforeToo isLater, eq_of_new traffic isBefore isAfter]
      simp only [Member.registration, Prod.mk.injEq] at sameRegistration
      obtain ⟨sameKey, sameNetwork, sameGeneration⟩ := sameRegistration
      rw [sameKey, sameNetwork, sameGeneration]

end Net

/-- In every run whose registrations have names of their own and whose packets are
not addressed to other networks: what is delivered is genuine, and the members
of a network see what they would see without the packets of the others. -/
theorem vnet_isolated {cfg : VirtualNetConfig} {hub : VnetHub} (accepted : VnetHub.fromConfig cfg = .ok hub)
    {events : List Event} (meets : RunMeets Net.step Net.Confined (Net.start hub) events) :
    (∀ event, (run Net.step (Net.start hub) events).Confined event → ∀ j p,
      (run Net.step (Net.start hub) events).Delivered event j p →
        (run Net.step (Net.start hub) events).Genuine events event j p) ∧
      ∀ network (j : Nat) m, (run Net.step (Net.start hub) events).members[j]? = some m → m.network = network →
        (run Net.step (Net.start hub)
          (erased Net.step (Net.Foreign network) (Net.start hub) events)).members[j]? = some m := by
  have inv := Net.inv_start accepted
  have distinct : (Net.start hub).Distinct := List.nodup_nil
  constructor
  · have preserved : ∀ (w : Net) event, w.Confined event → w.Inv ∧ w.Distinct →
        (w.step event).Inv ∧ (w.step event).Distinct :=
      fun w event confined holds => ⟨holds.1.step event, holds.2.step confined⟩
    have kept := run_invariant_of_meets preserved ⟨inv, distinct⟩ meets
    have noneAsked : Net.Asked [] (Net.start hub) := fun _ _ _ isMember => nomatch isMember
    have asked := Net.asked_run noneAsked inv distinct meets
    intro event confined j p delivered
    exact Net.genuine_of_delivered asked kept.1 kept.2 confined delivered
  · intro network
    let related := fun w other : Net => w.Inv ∧ w.Distinct ∧ Net.Alike network w other
    have skipped : ∀ (w other : Net) event, w.Confined event → related w other → w.Foreign network event →
        related (w.step event) other :=
      fun w other event confined holds foreign =>
        ⟨holds.1.step event, holds.2.1.step confined, Net.alike_skip holds.1 confined holds.2.2 foreign⟩
    have followed : ∀ (w other : Net) event, w.Confined event → related w other → ¬ w.Foreign network event →
        related (w.step event) (other.step event) :=
      fun w other event confined holds notForeign =>
        ⟨holds.1.step event, holds.2.1.step confined,
          Net.alike_follow holds.1 holds.2.1 holds.2.2 notForeign⟩
    have initially : related (Net.start hub) (Net.start hub) :=
      ⟨inv, distinct, rfl, fun _ _ isMember _ => isMember⟩
    exact (run_erased skipped followed initially meets).2.2.same

def officeConfig : VirtualNetConfig := { subnet := "10.0.0.0/29" }

def officeHub : VnetHub :=
  VnetHub.new officeConfig (Subnet.ofAddr 0x0a000000#32 29 (by decide)) 0x0a000001#32

def hello : Packet := [0x45, 0, 0, 20, 0, 0, 0, 0, 64, 17, 0, 0, 10, 0, 0, 6, 10, 0, 0, 5]

/-- A laptop of the red network reaches a server of the blue one. -/
theorem networks_mix :
    VnetHub.fromConfig officeConfig = .ok officeHub ∧
      serveConn { client := "laptop", network := "red" } "1f" true = .ok (.join "laptop-1f" "red" none) ∧
      serveConn { client := "server", network := "blue" } "2e" true = .ok (.join "server-2e" "blue" none) ∧
      (run Net.step (Net.start officeHub)
        [.join "laptop-1f" "red" none, .join "server-2e" "blue" none]).Delivered (.packet 0 hello) 1 hello := by
  refine ⟨rfl, rfl, rfl, ⟨"server-2e", "blue", 2, [], [], none⟩, ⟨"server-2e", "blue", 2, [hello], [], none⟩, ?_⟩
  decide

theorem vnet_isolated_example :
    (run Net.step (Net.start officeHub) (erased Net.step (Net.Foreign "blue") (Net.start officeHub)
      [.join "laptop-1f" "red" none, .join "phone-3d" "red" none, .join "server-2e" "blue" none,
        .packet 0 hello, .recv 1])).members[2]? = some ⟨"server-2e", "blue", 3, [], [], none⟩ := by
  have accepted : VnetHub.fromConfig officeConfig = .ok officeHub := rfl
  exact (vnet_isolated accepted (by decide)).2 "blue" 2 _ (by decide) rfl

end Nfrp.Vnet
