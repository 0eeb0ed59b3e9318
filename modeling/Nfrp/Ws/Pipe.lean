import Nfrp.Lib.Duplex
import Nfrp.Lib.Runs
import Nfrp.Ws.Stream

/-!
# The two ends of a WebSocket connection

A client and a server over one connection, which carries the bytes of either
side to the other in order.  A write that is pending is retried with the same
buffer until it returns, and pings may stand between the frames of either side.
-/

namespace Nfrp.Ws

open Lib

abbrev Slice := { buf : List UInt8 // buf.length < 2 ^ 64 }

/-- Where a caller is with a write that has not returned. -/
inductive Writing where
  | idle
  /-- Pending, and no frame of the buffer exists yet. -/
  | waiting (buf : Slice)
  /-- Pending, with a frame of the buffer built. -/
  | built (buf : Slice)

namespace Writing

/-- The buffer of the next call: that of a pending write, or a new one. -/
def retry (writing : Writing) (buf : Slice) : Slice :=
  match writing with
  | .idle => buf
  | .waiting pending | .built pending => pending

def buffer : Writing → List UInt8
  | .idle => []
  | .waiting buf | .built buf => buf.val

def framed : Writing → List UInt8
  | .idle | .waiting _ => []
  | .built buf => buf.val

def after (writing : Writing) (buf : Slice) (builds : Bool) : Poll Nat → Writing
  | .ready _ | .error _ => .idle
  | .pending =>
    match writing with
    | .built pending => .built pending
    | .idle | .waiting _ => if builds then .built buf else .waiting buf

theorem framed_waiting (writing : Writing) (buf : Slice) :
    (writing.after (writing.retry buf) false .pending).framed = writing.framed := by
  cases writing with
  | idle => rfl
  | waiting buf => rfl
  | built buf => rfl

theorem framed_built (writing : Writing) (buf : Slice) :
    (writing.after (writing.retry buf) true .pending).framed = (writing.retry buf).val := by
  cases writing with
  | idle => rfl
  | waiting buf => rfl
  | built buf => rfl

theorem framed_isFront (writing : Writing) : writing.framed <+: writing.buffer := by
  cases writing with
  | idle => exact List.prefix_refl _
  | waiting buf => exact List.nil_prefix
  | built buf => exact List.prefix_refl _

end Writing

/-- A stream, with the write that is pending, what `poll_write` accepted and
`poll_read` handed over, and the bytes written into and received from the
connection. -/
structure Party where
  stream : WsStream
  writing : Writing
  accepted : List UInt8
  got : List UInt8
  written : List UInt8
  received : List UInt8

inductive Action where
  | write (buf : Slice) (key : MaskKey) (first second : List Nat)
  | flush (taken : List Nat) (inner : Poll Unit)
  | shutdown (key : MaskKey) (taken : List Nat) (inner : Poll Unit)
  | read (remaining : Nat) (amounts : List Nat) (answers : List Answer)
  /-- A ping is put behind the frames that wait. -/
  | ping (payload : Slice) (key : MaskKey)
  /-- Bytes that came along with the handshake are put behind those not parsed. -/
  | leftover (n : Nat)

def Party.wire (p peer : Party) : List UInt8 :=
  peer.written.drop p.received.length

def Party.act (p peer : Party) : Action → Party
  | .write buf key first second =>
    let buf := p.writing.retry buf
    let wrote := p.stream.pollWrite buf.val key first second
    { p with
      stream := wrote.stream
      writing := p.writing.after buf ((p.stream.pollDrain first).poll = .ready ()) wrote.poll
      accepted := p.accepted ++ buf.val.take (wrote.poll.getD 0)
      written := p.written ++ wrote.written }
  | .flush taken inner =>
    let wrote := p.stream.pollFlush taken inner
    { p with stream := wrote.stream, written := p.written ++ wrote.written }
  | .shutdown key taken inner =>
    let wrote := p.stream.pollShutdown key taken inner
    { p with stream := wrote.stream, written := p.written ++ wrote.written }
  | .read remaining amounts answers =>
    let read := p.stream.pollRead remaining (p.wire peer) amounts answers
    { p with
      stream := read.stream
      got := p.got ++ read.poll.getD []
      written := p.written ++ read.written
      received := p.received ++ read.taken }
  | .ping payload key =>
    let ping := buildFrame opPing payload.val (p.stream.mask key)
    { p with stream := { p.stream with tx := p.stream.tx.extend ping } }
  | .leftover n =>
    let early := (p.wire peer).take n
    { p with
      stream := { p.stream with raw := p.stream.raw ++ early }
      received := p.received ++ early }

abbrev World := Side → Party

namespace World

def start : World :=
  fun side => ⟨.new (side = .left) [], .idle, [], [], [], []⟩

def step (w : World) (event : Side × Action) : World :=
  duplexStep Party.act w event

end World

/-- In a call of `poll_write` the inner stream does not fail, and if there is a
frame of the buffer already, the inner stream does not take all that is left of
what was to be written. -/
def Action.Fits (p : Party) : Action → Prop
  | .write _ _ first second =>
    0 ∉ first ∧ 0 ∉ second ∧ (p.writing.framed = [] ∨ first.sum < p.stream.tx.rest.length)
  | .flush _ _ | .shutdown _ _ _ | .read _ _ _ | .ping _ _ | .leftover _ => True

instance (p : Party) : (action : Action) → Decidable (action.Fits p)
  | .write _ _ first second =>
    inferInstanceAs (Decidable (0 ∉ first ∧ 0 ∉ second ∧
      (p.writing.framed = [] ∨ first.sum < p.stream.tx.rest.length)))
  | .flush _ _ | .shutdown _ _ _ | .read _ _ _ | .ping _ _ | .leftover _ => .isTrue trivial

def World.Fits (w : World) (event : Side × Action) : Prop :=
  event.2.Fits (w event.1)

instance (w : World) (event : Side × Action) : Decidable (w.Fits event) :=
  inferInstanceAs (Decidable (event.2.Fits _))

/-- One direction: the frames sent carry each accepted buffer once, and then the
buffer of a pending write of which there is a frame. -/
structure Linked (sender receiver : Party) (frames : List Frame) : Prop where
  sends : sender.stream.Sends frames sender.written
  carries : frames.flatMap Frame.text = sender.accepted ++ sender.writing.framed
  arrived : receiver.received <+: sender.written
  reads : Reads frames receiver.received receiver.stream.raw (receiver.got ++ receiver.stream.rx)

namespace Linked

variable {sender receiver : Party} {frames : List Frame}

theorem quietly {stream : WsStream} {written : List UInt8} (linked : Linked sender receiver frames)
    (sends : stream.SendsQuietly frames (sender.written ++ written)) (got received : List UInt8) :
    ∃ more, Linked { sender with stream, written := sender.written ++ written, got, received } receiver more := by
  obtain ⟨more, noText, sends⟩ := sends
  refine ⟨_, sends, ?_, linked.arrived.trans (List.prefix_append _ _), linked.reads.more more⟩
  rw [List.flatMap_append, noText, List.append_nil]
  exact linked.carries

theorem write (linked : Linked sender receiver frames) {buf : Slice} {key : MaskKey} {first second : List Nat}
    (fits : (Action.write buf key first second).Fits sender) :
    ∃ more, Linked (sender.act receiver (.write buf key first second)) receiver (frames ++ more) := by
  obtain ⟨takesFirst, takesSecond, fresh⟩ := fits
  have arrived : ∀ more, receiver.received <+: sender.written ++ more := fun more =>
    linked.arrived.trans (List.prefix_append _ _)
  rcases linked.sends.pollWrite (sender.writing.retry buf).property key takesFirst takesSecond with
    ⟨notBuilt, pending, sends⟩ | ⟨builds, result, frame, isText, sends⟩
  · refine ⟨[], ?_⟩
    rw [List.append_nil]
    refine ⟨sends, ?_, arrived _, linked.reads⟩
    simp only [Party.act, pending, Poll.getD, List.take_zero, List.append_nil, notBuilt, decide_false]
    rw [Writing.framed_waiting]
    exact linked.carries
  · refine ⟨[frame], sends, ?_, arrived _, linked.reads.more _⟩
    have nothing : sender.writing.framed = [] := by
      rcases fresh with nothing | short
      · exact nothing
      · exact absurd builds (Outbox.drain_ne_ready _ short)
    rw [List.flatMap_append, List.flatMap_singleton, isText, linked.carries, nothing, List.append_nil]
    simp only [Party.act, builds, decide_true]
    rcases result with pending | ready
    · simp only [pending, Poll.getD, List.take_zero, List.append_nil]
      rw [Writing.framed_built]
    · simp only [ready, Poll.getD, List.take_length]
      exact (List.append_nil _).symm

theorem act_sender (linked : Linked sender receiver frames) {action : Action} (fits : action.Fits sender) :
    ∃ more, Linked (sender.act receiver action) receiver more := by
  cases action with
  | write buf key first second =>
    obtain ⟨more, linked⟩ := linked.write fits
    exact ⟨_, linked⟩
  | flush taken inner =>
    exact linked.quietly (linked.sends.drainThen taken inner).quietly sender.got sender.received
  | shutdown key taken inner =>
    exact linked.quietly (linked.sends.pollShutdown key taken inner) sender.got sender.received
  | read remaining amounts answers =>
    exact linked.quietly (linked.sends.pollRead remaining (sender.wire receiver) amounts answers) _ _
  | ping payload key =>
    let frame : Frame := ⟨opPing, payload.val, sender.stream.mask key, by decide, payload.property⟩
    have sends := linked.sends.extend frame
    refine ⟨frames ++ [frame], sends, ?_, linked.arrived, linked.reads.more _⟩
    rw [List.flatMap_append, linked.carries]
    exact List.append_nil _
  | leftover n => exact ⟨frames, linked.sends, linked.carries, linked.arrived, linked.reads⟩

theorem act_receiver (linked : Linked sender receiver frames) (action : Action) :
    Linked sender (receiver.act sender action) frames := by
  have whole : receiver.received ++ receiver.wire sender = sender.written := by
    obtain ⟨rest, split⟩ := linked.arrived
    rw [Party.wire, ← split, List.drop_left]
  have unchanged : ∀ acted : Party, acted.received = receiver.received → acted.got = receiver.got →
      acted.stream.unread = receiver.stream.unread → Linked sender acted frames := by
    intro acted sameReceived sameGot sameUnread
    obtain ⟨sameRaw, sameRx⟩ := Prod.mk.inj sameUnread
    refine ⟨linked.sends, linked.carries, ?_, ?_⟩
    · rw [sameReceived]
      exact linked.arrived
    · rw [sameReceived, sameRaw, sameGot, sameRx]
      exact linked.reads
  cases action with
  | write buf key first second => exact unchanged _ rfl rfl (WsStream.pollWrite_unread _ _ _ _ _)
  | flush taken inner => exact unchanged _ rfl rfl (WsStream.drainThen_unread _ _ _)
  | shutdown key taken inner => exact unchanged _ rfl rfl (WsStream.pollShutdown_unread _ _ _ _)
  | read remaining amounts answers =>
    have arrived : receiver.received ++ receiver.wire sender <+: frames.flatMap Frame.encode := by
      rw [whole, ← linked.sends]
      exact List.prefix_append _ _
    obtain ⟨taken, reads⟩ := WsStream.pollRead_reads linked.reads arrived remaining amounts answers
    refine ⟨linked.sends, linked.carries, ?_, ?_⟩
    · rw [← whole]
      exact (List.prefix_append_right_inj _).mpr taken
    · rw [← List.append_assoc] at reads
      exact reads
  | ping payload key => exact unchanged _ rfl rfl rfl
  | leftover n =>
    refine ⟨linked.sends, linked.carries, ?_, linked.reads.receive _⟩
    conv => rhs; rw [← whole]
    exact (List.prefix_append_right_inj _).mpr (List.take_prefix _ _)

end Linked

namespace World

theorem step_linked {w : World} {event : Side × Action} {side : Side} (fits : w.Fits event)
    (linked : ∃ frames, Linked (w side) (w side.peer) frames) :
    ∃ frames, Linked (w.step event side) (w.step event side.peer) frames := by
  obtain ⟨frames, linked⟩ := linked
  rcases duplexStep_cases Party.act w event side with ⟨isSender, acted, kept⟩ | ⟨-, kept, acted⟩
  · rw [step, acted, kept]
    rw [Fits, isSender] at fits
    exact linked.act_sender fits
  · rw [step, acted, kept]
    exact ⟨frames, linked.act_receiver event.2⟩

end World

/-- Whatever both sides do, what one side hands over is a front of the buffers
that the other accepted, in order and each once, and then of the buffer of the
write that is pending. -/
theorem buffers_in_order (events : List (Side × Action))
    (fits : RunMeets World.step World.Fits World.start events) (side : Side) :
    let w := run World.step World.start events
    (w side.peer).got <+: (w side).accepted ++ (w side).writing.buffer := by
  intro w
  have initially : ∃ frames, Linked (World.start side) (World.start side.peer) frames :=
    ⟨[], rfl, rfl, List.prefix_refl _, [], [], rfl, rfl, rfl⟩
  obtain ⟨frames, linked⟩ : ∃ frames, Linked (w side) (w side.peer) frames :=
    @run_invariant_of_meets _ _ World.step World.Fits
      (fun w => ∃ frames, Linked (w side) (w side.peer) frames)
      (fun _ _ fits linked => World.step_linked fits linked) _ initially _ fits
  have inFrames := linked.reads.isFront
  rw [linked.carries] at inFrames
  have inBuffers := (List.prefix_append_right_inj (w side).accepted).mpr (w side).writing.framed_isFront
  exact (List.prefix_append _ _).trans (inFrames.trans inBuffers)

/-- The connection takes nothing of the frame at first; the retry writes that frame
and then another one of the same buffer. -/
def retried : List (Side × Action) :=
  let key := Vector.replicate 4 5
  [(.left, .write ⟨[7], by decide⟩ key [] []), (.left, .write ⟨[7], by decide⟩ key [100] [100]),
    (.right, .read 10 [100] []), (.right, .read 10 [] [])]

theorem buffer_twice :
    let w := run World.step World.start retried
    (w .left).accepted = [7] ∧ (w .left).writing.buffer = [] ∧ (w .right).got = [7, 7] ∧
      ¬ (w .right).got <+: (w .left).accepted ++ (w .left).writing.buffer := by
  decide +kernel

/-- Back-pressure in a flush, a ping in between, and a short read. -/
theorem buffers_in_order_example :
    let key := Vector.replicate 4 5
    let w := run World.step World.start
      [(.left, .ping ⟨[1], by decide⟩ key), (.left, .write ⟨[7, 8], by decide⟩ key [3] []),
        (.left, .write ⟨[7, 8], by decide⟩ key [100] [100]), (.right, .read 1 [9, 100] [(key, [100])]),
        (.right, .read 1 [] [])]
    (w .right).got <+: (w .left).accepted ++ (w .left).writing.buffer :=
  buffers_in_order _ (by decide) .left

end Nfrp.Ws
