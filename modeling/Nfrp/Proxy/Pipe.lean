import Nfrp.Lib.Duplex
import Nfrp.Lib.Framing
import Nfrp.Lib.Runs
import Nfrp.Proxy.Stream

/-!
# The two ends of a connection

Two wrapped streams with the same key and the same setting over one connection,
which carries the bytes of either side to the other in order.  How much arrives
at a time, and how much is taken at a time, is up to the events.
-/

namespace Nfrp.ProxyStream

open Lib Nfrp.Snappy

/-- A stream, with what `poll_write` accepted and `poll_read` handed over, and
the bytes written into and received from the connection. -/
structure Party (σ : Type) where
  stream : ProxyStream σ
  accepted : List UInt8
  got : List UInt8
  written : List UInt8
  received : List UInt8

inductive Action where
  | write (buf : List UInt8) (iv : Block) (first second : List Nat)
  | flush (iv : Block) (taken : List Nat) (inner : Poll Unit)
  | shutdown (iv : Block) (taken : List Nat) (inner : Poll Unit)
  | read (remaining : Nat) (amounts : List Nat)

variable {σ : Type}

def Party.wire (p peer : Party σ) : List UInt8 :=
  peer.written.drop p.received.length

section

variable (aes : Block → Block → Block) (snap : Snap σ)

def Party.act (p peer : Party σ) : Action → Party σ
  | .write buf iv first second =>
    let wrote := p.stream.pollWrite aes snap buf iv first second
    { p with
      stream := wrote.stream
      accepted := p.accepted ++ buf.take (wrote.poll.getD 0)
      written := p.written ++ wrote.written }
  | .flush iv taken inner =>
    let wrote := pollFlush aes snap p.stream iv taken inner
    { p with stream := wrote.stream, written := p.written ++ wrote.written }
  | .shutdown iv taken inner =>
    let wrote := pollShutdown aes snap p.stream iv taken inner
    { p with stream := wrote.stream, written := p.written ++ wrote.written }
  | .read remaining amounts =>
    let read := p.stream.pollRead aes snap remaining (p.wire peer) amounts
    { p with
      stream := read.stream
      got := p.got ++ read.poll.getD []
      received := p.received ++ read.taken }

end

abbrev World (σ : Type) := Side → Party σ

namespace World

variable (aes : Block → Block → Block) (snap : Snap σ)

def start (key : Option Block) (compress : Bool) : World σ :=
  fun _ => ⟨.new snap key compress, [], [], [], []⟩

def step (w : World σ) (event : Side × Action) : World σ :=
  duplexStep (Party.act aes snap) w event

end World

/-- The inner stream does not fail once the text is encoded, and a read without
compression brings no more text than the caller has room for. -/
def Action.Fits (p peer : Party σ) : Action → Prop
  | .write _ _ _ second => 0 ∉ second
  | .flush _ _ _ | .shutdown _ _ _ => True
  | .read remaining amounts =>
    p.stream.comp.isSome ∨ remaining = 0 ∨
      firstData p.stream.ivMissing amounts (p.wire peer).length ≤ remaining

instance (p peer : Party σ) : (action : Action) → Decidable (action.Fits p peer)
  | .write _ _ _ second => inferInstanceAs (Decidable (0 ∉ second))
  | .flush _ _ _ | .shutdown _ _ _ => .isTrue trivial
  | .read remaining amounts =>
    inferInstanceAs (Decidable (p.stream.comp.isSome ∨ remaining = 0 ∨
      firstData p.stream.ivMissing amounts (p.wire peer).length ≤ remaining))

def World.Fits (w : World σ) (event : Side × Action) : Prop :=
  event.2.Fits (w event.1) (w event.1.peer)

instance (w : World σ) (event : Side × Action) : Decidable (w.Fits event) :=
  inferInstanceAs (Decidable (event.2.Fits _ _))

/-- One direction, in which the sender's text was encoded as `body`, and of that
the receiver has `plain`. -/
structure Linked (aes : Block → Block → Block) (snap : Snap σ) (key : Option Block) (compress : Bool)
    (sender receiver : Party σ) : Prop where
  arrived : receiver.received <+: sender.written
  sides : ∃ chunks body plain,
    Sends aes snap key compress sender.stream chunks body sender.accepted sender.written ∧
      Receives aes snap key compress receiver.stream chunks receiver.received plain receiver.got

namespace Linked

variable {aes : Block → Block → Block} {snap : Snap σ} {key : Option Block} {compress : Bool}
  {sender receiver : Party σ}

theorem act_sender (linked : Linked aes snap key compress sender receiver) (framed : snap.Framed)
    {action : Action} (fits : action.Fits sender receiver) :
    Linked aes snap key compress (sender.act aes snap receiver action) receiver := by
  obtain ⟨arrived, chunks, body, plain, sends, receives⟩ := linked
  have written : ∀ more, receiver.received <+: sender.written ++ more := fun more =>
    arrived.trans (List.prefix_append _ _)
  cases action with
  | write buf iv first second =>
    obtain ⟨more, body', valid, sends⟩ := sends.pollWrite framed buf iv first fits
    exact ⟨written _, _, body', plain, sends, receives.more valid⟩
  | flush iv taken inner =>
    obtain ⟨more, body', valid, sends⟩ := sends.flushThen framed iv taken inner
    exact ⟨written _, _, body', plain, sends, receives.more valid⟩
  | shutdown iv taken inner =>
    obtain ⟨more, body', valid, sends⟩ := sends.flushThen framed iv taken inner
    exact ⟨written _, _, body', plain, sends, receives.more valid⟩
  | read remaining amounts =>
    exact ⟨arrived, chunks, body, plain, sends.pollRead remaining _ amounts, receives⟩

theorem act_receiver (linked : Linked aes snap key compress sender receiver) {action : Action}
    (fits : action.Fits receiver sender) :
    Linked aes snap key compress sender (receiver.act aes snap sender action) := by
  obtain ⟨arrived, chunks, body, plain, sends, receives⟩ := linked
  cases action with
  | write buf iv first second =>
    exact ⟨arrived, chunks, body, plain, sends, receives.pollWrite buf iv first second⟩
  | flush iv taken inner => exact ⟨arrived, chunks, body, plain, sends, receives.flushThen iv taken inner⟩
  | shutdown iv taken inner =>
    exact ⟨arrived, chunks, body, plain, sends, receives.flushThen iv taken inner⟩
  | read remaining amounts =>
    have whole : receiver.received ++ receiver.wire sender = sender.written := by
      obtain ⟨rest, split⟩ := arrived
      rw [Party.wire, ← split, List.drop_left]
    have room : receiver.stream.comp = none → remaining ≠ 0 →
        firstData receiver.stream.ivMissing amounts (receiver.wire sender).length ≤ remaining := by
      intro plainMode positive
      rcases fits with compressed | zero | room
      · rw [plainMode] at compressed
        cases compressed
      · exact absurd zero positive
      · exact room
    obtain ⟨taken, plain', receives⟩ := receives.pollRead sends ⟨[], (List.append_nil _).trans whole⟩ room
    refine ⟨?_, chunks, body, plain', sends, receives⟩
    rw [← whole]
    exact (List.prefix_append_right_inj _).mpr taken

end Linked

namespace World

variable {aes : Block → Block → Block} {snap : Snap σ}

theorem step_linked {key : Option Block} {compress : Bool} (framed : snap.Framed) {w : World σ}
    {event : Side × Action} {side : Side} (fits : w.Fits event)
    (linked : Linked aes snap key compress (w side) (w side.peer)) :
    Linked aes snap key compress (w.step aes snap event side) (w.step aes snap event side.peer) := by
  have peers : side.peer.peer = side := by cases side <;> rfl
  rcases duplexStep_cases (Party.act aes snap) w event side with
    ⟨isSender, acted, kept⟩ | ⟨isReceiver, kept, acted⟩
  · rw [step, acted, kept]
    rw [Fits, isSender] at fits
    exact linked.act_sender framed fits
  · rw [step, acted, kept]
    rw [Fits, isReceiver, peers] at fits
    exact linked.act_receiver fits

theorem start_linked (key : Option Block) (compress : Bool) (side : Side) :
    Linked aes snap key compress (start snap key compress side) (start snap key compress side.peer) :=
  ⟨List.prefix_refl _, [], [], [], .new, .new⟩

theorem linked_of_fits (framed : snap.Framed) (key : Option Block) (compress : Bool) {events : List (Side × Action)}
    (fits : RunMeets (step aes snap) Fits (start snap key compress) events) (side : Side) :
    Linked aes snap key compress (run (step aes snap) (start snap key compress) events side)
      (run (step aes snap) (start snap key compress) events side.peer) :=
  @run_invariant_of_meets _ _ (step aes snap) Fits (fun w => Linked aes snap key compress (w side) (w side.peer))
    (fun _ _ fits linked => step_linked framed fits linked) _ (start_linked key compress side) _ fits

end World

/-- With any key and setting, whatever both sides do, the text handed over on one
side is a front of the text accepted on the other, and all of it when everything
was flushed, has arrived and was read. -/
theorem transparent_pipe (aes : Block → Block → Block) (snap : Snap σ) (framed : snap.Framed)
    (key : Option Block) (compress : Bool) (events : List (Side × Action))
    (fits : RunMeets (World.step aes snap) World.Fits (World.start snap key compress) events) (side : Side) :
    let w := run (World.step aes snap) (World.start snap key compress) events
    (w side.peer).got <+: (w side).accepted ∧
      ((w side).stream.pendingOut.rest = [] → (w side.peer).received = (w side).written →
        (w side.peer).stream.undelivered = [] → (w side.peer).got = (w side).accepted) := by
  intro w
  obtain ⟨arrived, chunks, body, plain, sends, receives⟩ := World.linked_of_fits framed key compress fits side
  exact receives.inOrder sends arrived

/-- Without encryption and compression, two bytes arrive together and the reader
has room for one: the second is never handed over, and a third one is. -/
def shortRead : List (Side × Action) :=
  [(.left, .write [1, 2] (Vector.replicate 16 0) [] [2]), (.right, .read 1 [2]),
    (.left, .write [3] (Vector.replicate 16 0) [] [1]), (.right, .read 1 [1])]

def crc32c (data : List UInt8) : UInt32 :=
  let shift (crc : UInt32) : UInt32 := if crc &&& 1 = 1 then (crc >>> 1) ^^^ 0x82f63b78 else crc >>> 1
  ~~~ data.foldl (fun crc byte => shift^[8] (crc ^^^ byte.toUInt32)) 0xffffffff

def maskedCrc (data : List UInt8) : List UInt8 :=
  let crc := crc32c data
  leBytes 4 (((crc >>> 15) ||| (crc <<< 17)) + 0xa282ead8).toNat

/-- The encoder on text that compression does not make shorter: the stream
identifier first, then blocks as they are. -/
def storing : Snap Bool where
  encoder := false
  writeAndFlush started plain :=
    if plain = [] then (started, some [])
    else
      let stored := (blocks 65536 plain).map fun block => Chunk.uncompressed (maskedCrc block) block
      (true, some ((if started then stored else .streamId :: stored).flatMap Chunk.encode))
  decompressVec _ := none

theorem storing_framed : storing.Framed := by
  intro started plain
  by_cases nothing : plain = []
  · exact ⟨[], by simp, by simp [storing, nothing], by simp [nothing]⟩
  · have stored : ∀ chunk ∈ (blocks 65536 plain).map fun block => Chunk.uncompressed (maskedCrc block) block,
        chunk.Valid storing.decompressVec := by
      intro chunk membership
      obtain ⟨block, isBlock, rfl⟩ := List.mem_map.mp membership
      have bounded := length_le_of_mem_blocks isBlock
      have four : (maskedCrc block).length = 4 := length_leBytes _ _
      exact ⟨four, by omega⟩
    have contents : ((blocks 65536 plain).map fun block => Chunk.uncompressed (maskedCrc block) block).flatMap
        (Chunk.contents storing.decompressVec) = plain := by
      rw [List.flatMap_map]
      exact List.flatMap_id'.trans (flatten_blocks (by decide) plain)
    cases started with
    | true => exact ⟨_, stored, by simp only [storing, if_neg nothing, if_true], contents⟩
    | false =>
      refine ⟨.streamId :: _, List.forall_mem_cons.mpr ⟨trivial, stored⟩, ?_, ?_⟩
      · simp only [storing, if_neg nothing]
        rfl
      · rw [List.flatMap_cons, contents]
        rfl

theorem byte_lost :
    let w := run (World.step (fun _ block => block) storing) (World.start storing none false) shortRead
    (w .left).accepted = [1, 2, 3] ∧ (w .right).got = [1, 3] ∧ ¬ (w .right).got <+: (w .left).accepted := by
  decide

/-- A compressed message, flushed while the connection is slow, and read byte by
byte. -/
theorem transparent_pipe_example :
    let w := run (World.step (fun _ block => block) storing) (World.start storing none true)
      [(.left, .write [7, 8] (Vector.replicate 16 0) [] [3]), (.left, .flush (Vector.replicate 16 0) [100] (.ready ())),
        (.right, .read 1 [2, 100]), (.right, .read 1 [])]
    (w .right).got <+: (w .left).accepted ∧
      ((w .left).stream.pendingOut.rest = [] → (w .right).received = (w .left).written →
        (w .right).stream.undelivered = [] → (w .right).got = (w .left).accepted) :=
  transparent_pipe _ storing storing_framed none true _ (by decide) .left

end Nfrp.ProxyStream
