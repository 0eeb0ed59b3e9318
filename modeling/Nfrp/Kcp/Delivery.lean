import Nfrp.Kcp.Sending
import Nfrp.Lib.Duplex

/-!
# Reliable delivery

Two sessions and a network between them.  The network keeps every datagram that
was put on it and may hand any of them to the other side at any time: one never
handed over is lost, one handed over twice is duplicated, and the order is its
own.  In either direction the sessions refine a reliable channel of messages.
-/

namespace Nfrp.Kcp

open Lib

/-- A session, with what `send` accepted, what `recv` returned, and the
datagrams passed to the network so far. -/
structure Party where
  kcp : Kcp
  accepted : List (List UInt8)
  got : List (List UInt8)
  sent : List Datagram

inductive Action where
  | send (buf : List UInt8)
  | update (current : U32)
  | flushNow (current : U32)
  | setNodelay (nodelay : Bool) (interval fastresend : U32)
  | recv
  /-- The next datagram of `out` goes to the network. -/
  | output
  /-- The network hands over one of the datagrams of the peer. -/
  | deliver (index : Nat)
  deriving DecidableEq, Repr

def Party.act (p : Party) (peerSent : List Datagram) : Action → Party
  | .send buf =>
    { p with
      kcp := p.kcp.apply (.send buf)
      accepted := p.accepted ++ if p.kcp.Accepts buf then [buf] else [] }
  | .update current => { p with kcp := p.kcp.apply (.update current) }
  | .flushNow current => { p with kcp := p.kcp.apply (.flushNow current) }
  | .setNodelay nodelay interval fastresend =>
    { p with kcp := p.kcp.apply (.setNodelay nodelay interval fastresend) }
  | .recv => { p with kcp := p.kcp.apply .recv, got := p.got ++ p.kcp.recv.2.toList }
  | .output => { p with kcp := p.kcp.apply .pump, sent := p.sent ++ p.kcp.out.head?.toList }
  | .deliver index =>
    match peerSent[index]? with
    | none => p
    | some pkt => { p with kcp := p.kcp.apply (.input pkt) }

abbrev World := Side → Party

namespace World

def start (conv : U32) (mtu : Side → Nat) : World :=
  fun side => ⟨Kcp.new conv (mtu side), [], [], []⟩

def step (w : World) (event : Side × Action) : World :=
  duplexStep (fun p peer => p.act peer.sent) w event

end World

def Party.segmentsSent (p : Party) : Nat :=
  (p.accepted.flatMap (pieces p.kcp.mss)).length - p.kcp.sndQueue.length

def Action.Short : Action → Prop
  | .send buf => buf.length ≤ maxRecvMsg
  | .update _ | .flushNow _ | .setNodelay _ _ _ | .recv | .output | .deliver _ => True

instance : DecidablePred Action.Short
  | .send buf => inferInstanceAs (Decidable (buf.length ≤ maxRecvMsg))
  | .update _ | .flushNow _ | .setNodelay _ _ _ | .recv | .output | .deliver _ => .isTrue trivial

/-- One side sends short messages only, and has used fewer than half of the
numbers so far. -/
def World.Sized (side : Side) (w : World) (event : Side × Action) : Prop :=
  (event.1 = side → event.2.Short) ∧ (w side).segmentsSent < 2 ^ 31

instance (side : Side) (w : World) (event : Side × Action) : Decidable (World.Sized side w event) :=
  inferInstanceAs (Decidable (_ ∧ _))

/-- One direction: the sender's stream, a front of it sent, a front of that
handed out, and nothing on the network that is not genuine. -/
structure Linked (sender receiver : Party) (channel : Fifo (List UInt8)) (sent : List Piece) : Prop where
  accepted : sender.accepted = channel.accepted
  handed : receiver.got = channel.handed
  short : ∀ buf ∈ sender.accepted, buf.length ≤ maxRecvMsg
  whole : ∀ buf ∈ sender.accepted, Whole EndsMessage (pieces sender.kcp.mss buf) ∧
    (pieces sender.kcp.mss buf).flatMap Prod.snd = buf
  sends : Sends (sender.accepted.flatMap (pieces sender.kcp.mss)) sent sender.kcp
  network : ∀ pkt ∈ sender.sent, Honest sent pkt
  receives : Reassembles 0 sent (receiver.got.flatMap (pieces sender.kcp.mss)) receiver.kcp.receiveSide

namespace Linked

variable {sender receiver : Party} {channel : Fifo (List UInt8)} {sent : List Piece}

theorem narrow (linked : Linked sender receiver channel sent) :
    ∀ piece ∈ sender.accepted.flatMap (pieces sender.kcp.mss), piece.2.length < 2 ^ 32 := by
  intro piece membership
  obtain ⟨buf, isAccepted, inPieces⟩ := List.mem_flatMap.mp membership
  have short := linked.short buf isAccepted
  have bounded := piece_length_le inPieces
  rw [maxRecvMsg] at short
  omega

theorem apply (linked : Linked sender receiver channel sent) (op : Op) (notSend : ∀ buf, op ≠ .send buf)
    (got : List (List UInt8)) :
    ∃ more, sent <+: more ∧
      Linked { sender with kcp := sender.kcp.apply op, got } receiver channel more := by
  obtain ⟨more, grown, sends⟩ := linked.sends.apply linked.narrow notSend
  have sameMss := apply_mss sender.kcp op
  refine ⟨more, grown, linked.accepted, linked.handed, linked.short, ?_, ?_, ?_, ?_⟩
  · simpa only [sameMss] using linked.whole
  · simpa only [sameMss] using sends
  · exact fun pkt membership => (linked.network pkt membership).mono grown
  · simpa only [sameMss] using linked.receives.mono grown

theorem send (linked : Linked sender receiver channel sent) {buf : List UInt8}
    (short : buf.length ≤ maxRecvMsg) (peerSent : List Datagram) :
    ∃ next, Relation.ReflTransGen Fifo.Step channel next ∧
      Linked (sender.act peerSent (.send buf)) receiver next sent := by
  rcases apply_send_cases sender.kcp buf with ⟨refuses, refused⟩ | ⟨accepts, queued⟩
  · refine ⟨channel, .refl, ?_⟩
    simp only [Party.act, refused, if_neg refuses, List.append_nil]
    exact linked
  · obtain ⟨positive, nonempty, few⟩ := accepts_iff.mp accepts
    refine ⟨channel.accept [buf], .single (.accept channel [buf]), ?_⟩
    simp only [Party.act, queued, if_pos accepts]
    refine ⟨?_, linked.handed, ?_, ?_, ?_, linked.network, linked.receives⟩
    · rw [linked.accepted]
      rfl
    · exact List.forall_mem_append.mpr ⟨linked.short, by simpa using short⟩
    · exact List.forall_mem_append.mpr ⟨linked.whole, by
        simpa using ⟨pieces_whole positive nonempty few, pieces_flatten positive buf⟩⟩
    · rw [List.flatMap_append, List.flatMap_singleton]
      exact linked.sends.send buf

/-- Whatever the sender does, the channel accepts a message or does nothing. -/
theorem act_sender (linked : Linked sender receiver channel sent) (peerSent : List Datagram)
    {action : Action} (short : action.Short) :
    ∃ next more, Relation.ReflTransGen Fifo.Step channel next ∧
      Linked (sender.act peerSent action) receiver next more := by
  cases action with
  | send buf =>
    obtain ⟨next, steps, linked⟩ := linked.send short peerSent
    exact ⟨next, sent, steps, linked⟩
  | update current =>
    obtain ⟨more, -, linked⟩ := linked.apply (.update current) (by simp) sender.got
    exact ⟨channel, more, .refl, linked⟩
  | flushNow current =>
    obtain ⟨more, -, linked⟩ := linked.apply (.flushNow current) (by simp) sender.got
    exact ⟨channel, more, .refl, linked⟩
  | setNodelay nodelay interval fastresend =>
    obtain ⟨more, -, linked⟩ :=
      linked.apply (.setNodelay nodelay interval fastresend) (by simp) sender.got
    exact ⟨channel, more, .refl, linked⟩
  | recv =>
    obtain ⟨more, -, linked⟩ := linked.apply .recv (by simp)
      (sender.got ++ sender.kcp.recv.2.toList)
    exact ⟨channel, more, .refl, linked⟩
  | output =>
    obtain ⟨more, grown, pumped⟩ := linked.apply .pump (by simp) sender.got
    refine ⟨channel, more, .refl, pumped.accepted, pumped.handed, pumped.short, pumped.whole,
      pumped.sends, ?_, pumped.receives⟩
    refine List.forall_mem_append.mpr ⟨pumped.network, ?_⟩
    intro pkt membership
    have inOut := List.mem_of_mem_head? (Option.mem_toList.mp membership)
    exact (linked.sends.out pkt inOut).mono grown
  | deliver index =>
    simp only [Party.act]
    split
    · exact ⟨channel, sent, .refl, linked⟩
    next pkt _ =>
      obtain ⟨more, -, linked⟩ := linked.apply (.input pkt) (by simp) sender.got
      exact ⟨channel, more, .refl, linked⟩

theorem deliver (linked : Linked sender receiver channel sent) (small : sent.length < 2 ^ 32)
    {pkt : Datagram} (onNetwork : pkt ∈ sender.sent) :
    Linked sender { receiver with kcp := receiver.kcp.apply (.input pkt) } channel sent := by
  obtain ⟨seg, rfl, bounded, genuine⟩ := linked.network pkt onNetwork
  refine ⟨linked.accepted, linked.handed, linked.short, linked.whole, linked.sends, linked.network, ?_⟩
  have side := input_encode_receiveSide receiver.kcp bounded
  simp only [Kcp.apply, side]
  split
  next pushed => exact linked.receives.push small (genuine pushed.2.2)
  next _ => exact linked.receives

theorem recv (linked : Linked sender receiver channel sent) :
    ∃ next, Relation.ReflTransGen Fifo.Step channel next ∧
      Linked sender (receiver.act sender.sent .recv) next sent := by
  obtain ⟨sameSide, sameResult⟩ := recv_receiveSide receiver.kcp
  have inOrder : receiver.got <+: sender.accepted := by
    rw [linked.accepted, linked.handed]
    exact channel.inOrder
  have isSent : sent <+: sender.accepted.flatMap (pieces sender.kcp.mss) :=
    ⟨_, linked.sends.queue.symm⟩
  rcases linked.receives.recv linked.whole isSent inOrder with nothing | ⟨buf, isNext, -, received⟩
  · refine ⟨channel, .refl, ?_⟩
    rw [nothing] at sameSide sameResult
    refine ⟨linked.accepted, ?_, linked.short, linked.whole, linked.sends, linked.network, ?_⟩
    · simpa only [Party.act, sameResult, Option.toList_none, List.append_nil] using linked.handed
    · simpa only [Party.act, sameResult, Option.toList_none, List.append_nil, Kcp.apply, sameSide]
        using linked.receives
  · have isAccepted : buf ∈ sender.accepted := isNext.subset (by simp)
    rcases received with ⟨tooLong, -⟩ | ⟨-, result, receives⟩
    · exact absurd (linked.short buf isAccepted) (not_le.mpr tooLong)
    · rw [result] at sameResult
      have isHanded : channel.handed ++ [buf] <+: channel.accepted := by
        rw [← linked.handed, ← linked.accepted]
        exact isNext
      refine ⟨_, .single (.hand channel [buf] isHanded), linked.accepted, ?_, linked.short, linked.whole,
        linked.sends, linked.network, ?_⟩
      · simp only [Party.act, sameResult, Option.toList_some, linked.handed]
      · simpa only [Party.act, sameResult, Option.toList_some, Kcp.apply, sameSide] using receives

/-- Whatever the receiver does, the channel hands out its next message or does
nothing. -/
theorem act_receiver (linked : Linked sender receiver channel sent) (small : sent.length < 2 ^ 32)
    (action : Action) :
    ∃ next, Relation.ReflTransGen Fifo.Step channel next ∧
      Linked sender (receiver.act sender.sent action) next sent := by
  have unchanged : ∀ acted : Party, acted.got = receiver.got →
      acted.kcp.receiveSide = receiver.kcp.receiveSide → Linked sender acted channel sent := by
    intro acted sameGot sameSide
    exact ⟨linked.accepted, sameGot.trans linked.handed, linked.short, linked.whole, linked.sends,
      linked.network, by simpa only [sameGot, sameSide] using linked.receives⟩
  cases action with
  | send buf => exact ⟨channel, .refl, unchanged _ rfl (apply_send_receiveSide _ buf)⟩
  | update current => exact ⟨channel, .refl, unchanged _ rfl (update_receiveSide _ current)⟩
  | flushNow current => exact ⟨channel, .refl, unchanged _ rfl (flushNow_receiveSide _ current)⟩
  | setNodelay nodelay interval fastresend => exact ⟨channel, .refl, unchanged _ rfl rfl⟩
  | recv => exact linked.recv
  | output => exact ⟨channel, .refl, unchanged _ rfl rfl⟩
  | deliver index =>
    simp only [Party.act]
    split
    next _ => exact ⟨channel, .refl, linked⟩
    next pkt found => exact ⟨channel, .refl, linked.deliver small (List.mem_of_getElem? found)⟩

theorem segmentsSent (linked : Linked sender receiver channel sent) :
    sender.segmentsSent = sent.length := by
  rw [Party.segmentsSent, linked.sends.queue, List.length_append, List.length_map,
    Nat.add_sub_cancel]

end Linked

namespace World

/-- Either direction of the world refines a reliable channel of messages. -/
theorem step_refines {w : World} {event : Side × Action} {side : Side} {channel : Fifo (List UInt8)}
    (sized : World.Sized side w event) (linked : ∃ sent, Linked (w side) (w side.peer) channel sent) :
    ∃ next, Relation.ReflTransGen Fifo.Step channel next ∧
      ∃ sent, Linked (w.step event side) (w.step event side.peer) next sent := by
  obtain ⟨sent, linked⟩ := linked
  have small : sent.length < 2 ^ 32 := by
    have bounded := sized.2
    rw [linked.segmentsSent] at bounded
    omega
  rcases duplexStep_cases (fun p peer => Party.act p peer.sent) w event side with
    ⟨isSender, acted, kept⟩ | ⟨-, kept, acted⟩
  · obtain ⟨next, more, steps, linked⟩ := linked.act_sender (w side.peer).sent (sized.1 isSender)
    rw [← acted, ← kept] at linked
    exact ⟨next, steps, more, linked⟩
  · obtain ⟨next, steps, linked⟩ := linked.act_receiver small event.2
    rw [← acted] at linked
    refine ⟨next, steps, sent, ?_⟩
    rw [step, kept]
    exact linked

end World

/-- Under loss, duplication, delay and reordering, what one side's `recv` has
returned is a prefix of what the other side's `send` accepted. -/
theorem reliable_delivery (conv : U32) (mtu : Side → Nat) (events : List (Side × Action)) (side : Side)
    (sized : RunMeets World.step (World.Sized side) (World.start conv mtu) events) :
    let w := run World.step (World.start conv mtu) events
    (w side.peer).got <+: (w side).accepted := by
  intro w
  have initially : ∃ sent, Linked (World.start conv mtu side) (World.start conv mtu side.peer)
      Fifo.empty sent := by
    refine ⟨[], rfl, rfl, by simp [World.start], by simp [World.start], ⟨rfl, rfl, ?_, ?_⟩, ?_, ⟨?_, rfl, ?_⟩⟩
    all_goals simp [World.start, Kcp.new, receiveSide]
  obtain ⟨channel, -, sent, linked⟩ := run_simulates
    (fun w event channel sized linked => @World.step_refines w event side channel sized linked)
    initially sized
  rw [linked.accepted, linked.handed]
  exact channel.inOrder

/-- A message whose datagram arrives twice, and is acknowledged. -/
theorem reliable_delivery_example :
    let w := run World.step (World.start 1 fun _ => 0)
      [(.left, .send [1, 2, 3]), (.left, .flushNow 0), (.left, .output), (.right, .deliver 0),
        (.right, .deliver 0), (.right, .recv), (.right, .flushNow 5), (.right, .output),
        (.left, .deliver 0)]
    (w .right).got <+: (w .left).accepted :=
  reliable_delivery 1 (fun _ => 0) _ .left (by decide)

end Nfrp.Kcp
