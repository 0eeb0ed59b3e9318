import Nfrp.Lib.Outbox
import Nfrp.Ws.Frame

/-!
# The byte stream over frames

Each write sends one binary frame and reports success when all of it is written.
Reading hands over the payloads of data frames and answers a ping on the spot.
What the inner stream does is part of the arguments, as are the mask keys.
-/

namespace Nfrp.Ws

open Lib

def readChunk : Nat := 16 * 1024

structure WsStream where
  isClient : Bool
  /-- Payload that was not handed over yet. -/
  rx : List UInt8
  /-- Bytes that were not parsed yet. -/
  raw : List UInt8
  tx : Outbox UInt8
  closed : Bool

/-- What a read hands over, the bytes it took from the inner stream and wrote
into it, and the stream after it. -/
structure Got where
  poll : Poll (List UInt8)
  taken : List UInt8
  written : List UInt8
  stream : WsStream

/-- What becomes of frames that have arrived: a result for the caller, unless the
loop goes on, the bytes written, and the stream after them. -/
structure Handled where
  poll : Option (Poll (List UInt8))
  written : List UInt8
  stream : WsStream

/-- The key of a reply, and what the inner stream takes of it. -/
abbrev Answer := MaskKey × List Nat

namespace WsStream

def new (isClient : Bool) (leftover : List UInt8) : WsStream where
  isClient := isClient
  rx := []
  raw := leftover
  tx := .ofList []
  closed := false

def mask (s : WsStream) (key : MaskKey) : Option MaskKey :=
  if s.isClient then some key else none

def pollDrain (s : WsStream) (taken : List Nat) : Wrote WsStream UInt8 Unit :=
  let drained := s.tx.drain "WebSocket 底层流写不进数据" taken
  ⟨drained.poll, drained.written, { s with tx := drained.stream }⟩

/-- What an earlier call left is written first, and then a frame of the buffer,
all of which has to be written for the buffer to be consumed. -/
def pollWrite (s : WsStream) (buf : List UInt8) (key : MaskKey) (first second : List Nat) :
    Wrote WsStream UInt8 Nat :=
  let before := s.pollDrain first
  match before.poll with
  | .pending => ⟨.pending, before.written, before.stream⟩
  | .error message => ⟨.error message, before.written, before.stream⟩
  | .ready _ =>
    let frame := buildFrame opBinary buf (s.mask key)
    let after := { before.stream with tx := .ofList frame }.pollDrain second
    match after.poll with
    | .pending => ⟨.pending, before.written ++ after.written, after.stream⟩
    | .error message => ⟨.error message, before.written ++ after.written, after.stream⟩
    | .ready _ => ⟨.ready buf.length, before.written ++ after.written, after.stream⟩

/-- `inner` is what the inner stream answers to the same request. -/
def drainThen (s : WsStream) (taken : List Nat) (inner : Poll Unit) : Wrote WsStream UInt8 Unit :=
  let drained := s.pollDrain taken
  match drained.poll with
  | .pending | .error _ => drained
  | .ready _ => { drained with poll := inner }

def pollFlush (s : WsStream) (taken : List Nat) (inner : Poll Unit) : Wrote WsStream UInt8 Unit :=
  s.drainThen taken inner

def pollShutdown (s : WsStream) (key : MaskKey) (taken : List Nat) (inner : Poll Unit) :
    Wrote WsStream UInt8 Unit :=
  let s := if s.tx.bytes = [] then { s with tx := .ofList (buildFrame opClose [] (s.mask key)) } else s
  s.drainThen taken inner

def handleFrame (s : WsStream) (remaining : Nat) (frame : Taken) (answer : Answer) : Handled :=
  let payload := frame.payload
  if isData frame.opcode then
    if payload = [] then ⟨none, [], s⟩
    else
      let n := min payload.length remaining
      ⟨some (.ready (payload.take n)), [], if n < payload.length then { s with rx := payload.drop n } else s⟩
  else if frame.opcode = opPing then
    let pong := buildFrame opPong payload (s.mask answer.1)
    let drained := { s with tx := s.tx.extend pong }.pollDrain answer.2
    match drained.poll with
    | .ready _ => ⟨none, drained.written, drained.stream⟩
    | .error message => ⟨some (.error message), drained.written, drained.stream⟩
    | .pending => ⟨some .pending, drained.written, drained.stream⟩
  else if frame.opcode = opPong then ⟨none, [], s⟩
  else if frame.opcode = opClose then ⟨some (.ready []), [], { s with closed := true }⟩
  else ⟨some (.error s!"未知的 WebSocket opcode 0x{hex frame.opcode}"), [], s⟩

/-- The frames that have arrived, at most `fuel` of them, and the answers that
are left. -/
def handleFrames (remaining : Nat) : (fuel : Nat) → (answers : List Answer) → WsStream → Handled × List Answer
  | 0, answers, s => (⟨none, [], s⟩, answers)
  | fuel + 1, answers, s =>
    match takeFrame s.raw s.isClient with
    | .error message => (⟨some (.error ("WebSocket 协议错误：" ++ message)), [], s⟩, answers)
    | .ok none => (⟨none, [], s⟩, answers)
    | .ok (some frame) =>
      let answer := answers.headD (Vector.replicate 4 0, [])
      let handled := { s with raw := frame.rest }.handleFrame remaining frame answer
      match handled.poll with
      | some _ => (handled, answers.tail)
      | none =>
        let later := handleFrames remaining fuel answers.tail handled.stream
        ({ later.1 with written := handled.written ++ later.1.written }, later.2)

def readLoop (remaining : Nat) :
    (amounts : List Nat) → (wire : List UInt8) → (answers : List Answer) → WsStream → Got
  | amounts, wire, answers, s =>
    let handled := handleFrames remaining (s.raw.length + 1) answers s
    let s := handled.1.stream
    match handled.1.poll with
    | some poll => ⟨poll, [], handled.1.written, s⟩
    | none =>
      match amounts with
      | [] => ⟨.pending, [], handled.1.written, s⟩
      | n :: amounts =>
        let chunk := wire.take (min n readChunk)
        if chunk = [] then ⟨.ready [], [], handled.1.written, { s with closed := true }⟩
        else if maxFrame * 2 < s.raw.length + chunk.length then
          ⟨.error "WebSocket 读缓冲区超限", chunk, handled.1.written, s⟩
        else
          let later := readLoop remaining amounts (wire.drop (min n readChunk)) handled.2
            { s with raw := s.raw ++ chunk }
          ⟨later.poll, chunk ++ later.taken, handled.1.written ++ later.written, later.stream⟩

/-- `wire` is what has arrived at the inner stream. -/
def pollRead (s : WsStream) (remaining : Nat) (wire : List UInt8) (amounts : List Nat)
    (answers : List Answer) : Got :=
  if s.rx ≠ [] then
    let n := min s.rx.length remaining
    ⟨.ready (s.rx.take n), [], [], { s with rx := s.rx.drop n }⟩
  else if s.closed then ⟨.ready [], [], [], s⟩
  else s.readLoop remaining amounts wire answers

/-- All of the frames, in order, were written or are about to be. -/
def Sends (s : WsStream) (frames : List Frame) (written : List UInt8) : Prop :=
  written ++ s.tx.rest = frames.flatMap Frame.encode

/-- The frames are sent, and behind them others that carry no text. -/
def SendsQuietly (s : WsStream) (frames : List Frame) (written : List UInt8) : Prop :=
  ∃ more : List Frame, more.flatMap Frame.text = [] ∧ s.Sends (frames ++ more) written

variable {s : WsStream} {frames : List Frame} {written received got : List UInt8}

theorem SendsQuietly.trans {later : WsStream} {all : List UInt8} (quiet : s.SendsQuietly frames written)
    (next : ∀ {frames}, s.Sends frames written → later.SendsQuietly frames all) :
    later.SendsQuietly frames all := by
  obtain ⟨more, noText, sends⟩ := quiet
  obtain ⟨others, noOtherText, sends⟩ := next sends
  rw [List.append_assoc] at sends
  refine ⟨more ++ others, ?_, sends⟩
  rw [List.flatMap_append, noText, noOtherText, List.append_nil]

namespace Sends

theorem quietly (sends : s.Sends frames written) : s.SendsQuietly frames written := by
  refine ⟨[], rfl, ?_⟩
  rw [List.append_nil]
  exact sends

theorem pollDrain (sends : s.Sends frames written) (taken : List Nat) :
    (s.pollDrain taken).stream.Sends frames (written ++ (s.pollDrain taken).written) := by
  rw [Sends, WsStream.pollDrain, List.append_assoc, Outbox.drain_written]
  exact sends

theorem extend (sends : s.Sends frames written) (frame : Frame) :
    Sends { s with tx := s.tx.extend frame.encode } (frames ++ [frame]) written := by
  rw [Sends, Outbox.rest_extend, ← List.append_assoc, sends, List.flatMap_append, List.flatMap_singleton]

theorem restart (sends : s.Sends frames written) (nothing : s.tx.rest = []) (frame : Frame) :
    Sends { s with tx := .ofList frame.encode } (frames ++ [frame]) written := by
  rw [Sends, nothing, List.append_nil] at sends
  rw [Sends, Outbox.rest_ofList, sends, List.flatMap_append, List.flatMap_singleton]

theorem drainThen (sends : s.Sends frames written) (taken : List Nat) (inner : Poll Unit) :
    (s.drainThen taken inner).stream.Sends frames (written ++ (s.drainThen taken inner).written) := by
  have drained := sends.pollDrain taken
  simp only [WsStream.drainThen]
  split <;> exact drained

/-- Either the frame of the buffer is not built, and the write is pending, or it
is, and follows all others. -/
theorem pollWrite (sends : s.Sends frames written) {buf : List UInt8} (fits : buf.length < 2 ^ 64) (key : MaskKey)
    {first second : List Nat} (takesFirst : 0 ∉ first) (takesSecond : 0 ∉ second) :
    ((s.pollDrain first).poll ≠ .ready () ∧ (s.pollWrite buf key first second).poll = .pending ∧
      (s.pollWrite buf key first second).stream.Sends frames
        (written ++ (s.pollWrite buf key first second).written)) ∨
    ((s.pollDrain first).poll = .ready () ∧
      ((s.pollWrite buf key first second).poll = .pending ∨
        (s.pollWrite buf key first second).poll = .ready buf.length) ∧
      ∃ frame : Frame, frame.text = buf ∧ (s.pollWrite buf key first second).stream.Sends (frames ++ [frame])
        (written ++ (s.pollWrite buf key first second).written)) := by
  have drained := sends.pollDrain first
  cases before : (s.pollDrain first).poll with
  | pending =>
    simp only [WsStream.pollWrite, before]
    exact .inl ⟨nofun, trivial, drained⟩
  | error message => exact absurd before (Outbox.drain_ne_error _ takesFirst _ _)
  | ready =>
    have nothing := Outbox.drain_ready before
    let frame : Frame := ⟨opBinary, buf, s.mask key, by decide, fits⟩
    have sent := (drained.restart nothing frame).pollDrain second
    rw [List.append_assoc] at sent
    simp only [WsStream.pollWrite, before]
    split
    · exact .inr ⟨trivial, .inl rfl, frame, rfl, sent⟩
    next failed => exact absurd failed (Outbox.drain_ne_error _ takesSecond _ _)
    · exact .inr ⟨trivial, .inr rfl, frame, rfl, sent⟩

theorem pollShutdown (sends : s.Sends frames written) (key : MaskKey) (taken : List Nat) (inner : Poll Unit) :
    (s.pollShutdown key taken inner).stream.SendsQuietly frames
      (written ++ (s.pollShutdown key taken inner).written) := by
  unfold WsStream.pollShutdown
  split
  next empty =>
    have nothing : s.tx.rest = [] := by rw [Outbox.rest, empty, List.drop_nil]
    let frame : Frame := ⟨opClose, [], s.mask key, by decide, by decide⟩
    exact ⟨[frame], rfl, (sends.restart nothing frame).drainThen taken inner⟩
  · exact (sends.drainThen taken inner).quietly

theorem handleFrame (sends : s.Sends frames written) (remaining : Nat) {frame : Taken}
    (bounded : frame.payload.length ≤ maxFrame) (answer : Answer) :
    (s.handleFrame remaining frame answer).stream.SendsQuietly frames
      (written ++ (s.handleFrame remaining frame answer).written) := by
  have unchanged : s.SendsQuietly frames (written ++ []) := by
    rw [List.append_nil]
    exact sends.quietly
  simp only [WsStream.handleFrame]
  split
  · split
    · exact unchanged
    · split <;> exact unchanged
  split
  · have fits : frame.payload.length < 2 ^ 64 := by
      rw [maxFrame] at bounded
      omega
    let pong : Frame := ⟨opPong, frame.payload, s.mask answer.1, by decide, fits⟩
    have sent := (sends.extend pong).pollDrain answer.2
    split <;> exact ⟨[pong], rfl, sent⟩
  split
  · exact unchanged
  split
  · exact unchanged
  · exact unchanged

theorem handleFrames (sends : s.Sends frames written) (remaining fuel : Nat) (answers : List Answer) :
    (s.handleFrames remaining fuel answers).1.stream.SendsQuietly frames
      (written ++ (s.handleFrames remaining fuel answers).1.written) := by
  induction fuel generalizing s frames written answers with
  | zero =>
    rw [WsStream.handleFrames, List.append_nil]
    exact sends.quietly
  | succ fuel ih =>
    simp only [WsStream.handleFrames]
    split
    · rw [List.append_nil]
      exact sends.quietly
    · rw [List.append_nil]
      exact sends.quietly
    next frame found =>
      have sentSoFar : Sends { s with raw := frame.rest } frames written := sends
      have handled := sentSoFar.handleFrame remaining (takeFrame_shorter found).2
        (answers.headD (Vector.replicate 4 0, []))
      split
      · exact handled
      · rw [← List.append_assoc]
        exact handled.trans fun sent => ih sent answers.tail

theorem readLoop (sends : s.Sends frames written) (remaining : Nat) (amounts : List Nat) (wire : List UInt8)
    (answers : List Answer) :
    (s.readLoop remaining amounts wire answers).stream.SendsQuietly frames
      (written ++ (s.readLoop remaining amounts wire answers).written) := by
  induction amounts generalizing s frames written wire answers with
  | nil =>
    have handled := sends.handleFrames remaining (s.raw.length + 1) answers
    unfold WsStream.readLoop
    simp only
    split <;> exact handled
  | cons n amounts ih =>
    have handled := sends.handleFrames remaining (s.raw.length + 1) answers
    unfold WsStream.readLoop
    simp only
    split
    · exact handled
    split
    · exact handled
    split
    · exact handled
    · rw [← List.append_assoc]
      refine handled.trans fun sent => ?_
      exact @ih
        { (s.handleFrames remaining (s.raw.length + 1) answers).1.stream with
          raw := (s.handleFrames remaining (s.raw.length + 1) answers).1.stream.raw ++
            wire.take (min n readChunk) }
        _ _ sent (wire.drop (min n readChunk)) (s.handleFrames remaining (s.raw.length + 1) answers).2

theorem pollRead (sends : s.Sends frames written) (remaining : Nat) (wire : List UInt8) (amounts : List Nat)
    (answers : List Answer) :
    (s.pollRead remaining wire amounts answers).stream.SendsQuietly frames
      (written ++ (s.pollRead remaining wire amounts answers).written) := by
  unfold WsStream.pollRead
  split
  · rw [List.append_nil]
    exact sends.quietly
  split
  · rw [List.append_nil]
    exact sends.quietly
  · exact sends.readLoop remaining amounts wire answers

end Sends

def unread (s : WsStream) : List UInt8 × List UInt8 :=
  (s.raw, s.rx)

theorem pollWrite_unread (s : WsStream) (buf : List UInt8) (key : MaskKey) (first second : List Nat) :
    (s.pollWrite buf key first second).stream.unread = s.unread := by
  simp only [pollWrite]
  split
  · rfl
  · rfl
  · split <;> rfl

theorem drainThen_unread (s : WsStream) (taken : List Nat) (inner : Poll Unit) :
    (s.drainThen taken inner).stream.unread = s.unread := by
  simp only [drainThen]
  split <;> rfl

theorem pollShutdown_unread (s : WsStream) (key : MaskKey) (taken : List Nat) (inner : Poll Unit) :
    (s.pollShutdown key taken inner).stream.unread = s.unread := by
  simp only [pollShutdown]
  split <;> exact drainThen_unread _ _ _

/-- What the frames that were handled yield: what is handed over and what is kept. -/
def handed (handled : Handled) : List UInt8 :=
  handled.poll.elim [] fun poll => poll.getD []

theorem handleFrame_raw (s : WsStream) (remaining : Nat) (frame : Taken) (answer : Answer) :
    (s.handleFrame remaining frame answer).stream.raw = s.raw := by
  simp only [handleFrame]
  split
  · split
    · rfl
    · split <;> rfl
  split
  · split <;> rfl
  split
  · rfl
  split <;> rfl

theorem handleFrame_text (nothing : s.rx = []) (remaining : Nat) (frame : Taken) (answer : Answer) :
    handed (s.handleFrame remaining frame answer) ++ (s.handleFrame remaining frame answer).stream.rx =
        (if isData frame.opcode then frame.payload else []) ∧
      ((s.handleFrame remaining frame answer).poll = none →
        (s.handleFrame remaining frame answer).stream.rx = []) := by
  simp only [handleFrame]
  split
  · split
    next empty => exact ⟨by rw [handed, nothing, empty]; rfl, fun _ => nothing⟩
    · split
      next some => exact ⟨List.take_append_drop _ _, nofun⟩
      next all =>
        refine ⟨?_, nofun⟩
        rw [nothing, List.append_nil, handed, Option.elim_some, Poll.getD, List.take_of_length_le]
        omega
  split
  · split
    · exact ⟨nothing, fun _ => nothing⟩
    · exact ⟨nothing, nofun⟩
    · exact ⟨nothing, nofun⟩
  split
  · exact ⟨nothing, fun _ => nothing⟩
  split
  · exact ⟨nothing, nofun⟩
  · exact ⟨nothing, nofun⟩

theorem handleFrames_reads (reads : Reads frames received s.raw got) (nothing : s.rx = [])
    (arrived : received <+: frames.flatMap Frame.encode) (remaining fuel : Nat) (answers : List Answer) :
    Reads frames received (s.handleFrames remaining fuel answers).1.stream.raw
        (got ++ (handed (s.handleFrames remaining fuel answers).1 ++
          (s.handleFrames remaining fuel answers).1.stream.rx)) ∧
      ((s.handleFrames remaining fuel answers).1.poll = none →
        (s.handleFrames remaining fuel answers).1.stream.rx = []) := by
  induction fuel generalizing s got answers with
  | zero =>
    simp only [handleFrames, handed, Option.elim_none, nothing, List.append_nil]
    exact ⟨reads, fun _ => trivial⟩
  | succ fuel ih =>
    simp only [handleFrames]
    split
    · simp only [handed, Option.elim_some, Poll.getD, nothing, List.append_nil]
      exact ⟨reads, nofun⟩
    · simp only [handed, Option.elim_none, nothing, List.append_nil]
      exact ⟨reads, fun _ => trivial⟩
    next frame found =>
      have readsRest := reads.takeFrame arrived found
      have rest := handleFrame_raw { s with raw := frame.rest } remaining frame
        (answers.headD (Vector.replicate 4 0, []))
      obtain ⟨text, kept⟩ := @handleFrame_text { s with raw := frame.rest } nothing remaining frame
        (answers.headD (Vector.replicate 4 0, []))
      rw [← text] at readsRest
      generalize handleFrame { s with raw := frame.rest } remaining frame
        (answers.headD (Vector.replicate 4 0, [])) = one at *
      split
      next poll now =>
        rw [rest]
        exact ⟨readsRest, kept⟩
      next goesOn =>
        have nothing := kept goesOn
        rw [handed, goesOn, Option.elim_none, nothing, List.append_nil, List.append_nil] at readsRest
        have rest : one.stream.raw = frame.rest := rest
        rw [← rest] at readsRest
        exact ih readsRest nothing answers.tail

theorem handleFrames_more {remaining fuel : Nat} {answers : List Answer} (enough : s.raw.length < fuel)
    (goesOn : (s.handleFrames remaining fuel answers).1.poll = none) :
    takeFrame (s.handleFrames remaining fuel answers).1.stream.raw
      (s.handleFrames remaining fuel answers).1.stream.isClient = .ok none := by
  induction fuel generalizing s answers with
  | zero => exact absurd enough (Nat.not_lt_zero _)
  | succ fuel ih =>
    cases parsed : takeFrame s.raw s.isClient with
    | error message =>
      simp only [handleFrames, parsed] at goesOn
      cases goesOn
    | ok found =>
      cases found with
      | none => simp only [handleFrames, parsed]
      | some frame =>
        have rest := handleFrame_raw { s with raw := frame.rest } remaining frame
          (answers.headD (Vector.replicate 4 0, []))
        simp only [handleFrames, parsed] at goesOn ⊢
        generalize handleFrame { s with raw := frame.rest } remaining frame
          (answers.headD (Vector.replicate 4 0, [])) = one at *
        cases now : one.poll with
        | some poll =>
          simp only [now] at goesOn
          cases goesOn
        | none =>
          simp only [now] at goesOn ⊢
          have shorter : one.stream.raw.length < fuel := by
            rw [rest]
            have := (takeFrame_shorter parsed).1
            simp only
            omega
          exact ih shorter goesOn

/-- What a read hands over continues what was handed over, with the bytes it
takes. -/
theorem readLoop_reads {wire : List UInt8} (reads : Reads frames received s.raw got) (nothing : s.rx = [])
    (arrived : received ++ wire <+: frames.flatMap Frame.encode) (remaining : Nat) (amounts : List Nat)
    (answers : List Answer) :
    (s.readLoop remaining amounts wire answers).taken <+: wire ∧
      Reads frames (received ++ (s.readLoop remaining amounts wire answers).taken)
        (s.readLoop remaining amounts wire answers).stream.raw
        (got ++ ((s.readLoop remaining amounts wire answers).poll.getD [] ++
          (s.readLoop remaining amounts wire answers).stream.rx)) := by
  induction amounts generalizing s received got wire answers with
  | nil =>
    have inOrder := (List.prefix_append _ _).trans arrived
    obtain ⟨handledReads, kept⟩ :=
      handleFrames_reads reads nothing inOrder remaining (s.raw.length + 1) answers
    unfold readLoop
    simp only
    generalize s.handleFrames remaining (s.raw.length + 1) answers = handled at *
    split
    next poll now =>
      rw [handed, now] at handledReads
      rw [List.append_nil]
      exact ⟨List.nil_prefix, handledReads⟩
    next goesOn =>
      rw [handed, goesOn] at handledReads
      rw [List.append_nil]
      exact ⟨List.nil_prefix, handledReads⟩
  | cons n amounts ih =>
    have inOrder := (List.prefix_append _ _).trans arrived
    obtain ⟨handledReads, kept⟩ :=
      handleFrames_reads reads nothing inOrder remaining (s.raw.length + 1) answers
    have wantsMore := @handleFrames_more s remaining (s.raw.length + 1) answers (Nat.lt_succ_self _)
    unfold readLoop
    simp only
    generalize s.handleFrames remaining (s.raw.length + 1) answers = handled at *
    split
    next poll now =>
      rw [handed, now] at handledReads
      rw [List.append_nil]
      exact ⟨List.nil_prefix, handledReads⟩
    next goesOn =>
      have nothing := kept goesOn
      rw [handed, goesOn, Option.elim_none, nothing, List.append_nil, List.append_nil] at handledReads
      split
      · simp only [Poll.getD, nothing, List.append_nil]
        exact ⟨List.nil_prefix, handledReads⟩
      split
      next tooLong =>
        have short := length_lt_of_takeFrame (wantsMore goesOn)
        have chunk : (wire.take (min n readChunk)).length ≤ 16 * 1024 :=
          (List.length_take_le _ _).trans (Nat.min_le_right n readChunk)
        rw [maxFrame] at short tooLong
        omega
      · have whole := List.take_append_drop (min n readChunk) wire
        rw [← whole, ← List.append_assoc] at arrived
        obtain ⟨isFront, later⟩ := @ih
          { handled.1.stream with raw := handled.1.stream.raw ++ wire.take (min n readChunk) } _ _ _
          (handledReads.receive (wire.take (min n readChunk))) nothing arrived handled.2
        refine ⟨?_, ?_⟩
        · conv => rhs; rw [← whole]
          exact (List.prefix_append_right_inj _).mpr isFront
        · rw [← List.append_assoc]
          exact later

theorem pollRead_reads {wire : List UInt8} (reads : Reads frames received s.raw (got ++ s.rx))
    (arrived : received ++ wire <+: frames.flatMap Frame.encode) (remaining : Nat) (amounts : List Nat)
    (answers : List Answer) :
    (s.pollRead remaining wire amounts answers).taken <+: wire ∧
      Reads frames (received ++ (s.pollRead remaining wire amounts answers).taken)
        (s.pollRead remaining wire amounts answers).stream.raw
        (got ++ ((s.pollRead remaining wire amounts answers).poll.getD [] ++
          (s.pollRead remaining wire amounts answers).stream.rx)) := by
  unfold pollRead
  split
  · simp only [Poll.getD, List.take_append_drop, List.append_nil]
    exact ⟨List.nil_prefix, reads⟩
  next nothing =>
    split
    · simp only [Poll.getD, List.nil_append, List.append_nil]
      exact ⟨List.nil_prefix, reads⟩
    · rw [not_not.mp nothing, List.append_nil] at reads
      exact readLoop_reads reads (not_not.mp nothing) arrived remaining amounts answers

end WsStream

end Nfrp.Ws
