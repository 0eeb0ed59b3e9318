import Nfrp.Lib.Outbox
import Nfrp.Proxy.Compression
import Nfrp.Proxy.Encryption

/-!
# The wrapped connection

Text is compressed, then encrypted, and then waits until the inner stream takes
it; reading goes the other way.  What the inner stream does is part of the
arguments: how much it takes at each attempt to write, how much it yields at
each attempt to read, and after that it is not ready.
-/

namespace Nfrp

open Lib Nfrp.Snappy

def readChunk : Nat := 16 * 1024

structure ProxyStream (σ : Type) where
  enc : Option EncState
  comp : Option (CompState σ)
  /-- Encoded, and not yet taken by the inner stream. -/
  pendingOut : Outbox UInt8

/-- What a poll hands over, what it took from the inner stream, and the stream after it. -/
structure Got (σ : Type) where
  poll : Poll (List UInt8)
  taken : List UInt8
  stream : ProxyStream σ

namespace ProxyStream

variable {σ : Type}

section

variable (aes : Block → Block → Block) (snap : Snap σ)

def new (key : Option Block) (compress : Bool) : ProxyStream σ where
  enc := key.map EncState.new
  comp := if compress then some (CompState.new snap) else none
  pendingOut := .ofList []

def encodeIntoPending (s : ProxyStream σ) (plain : List UInt8) (iv : Block) : ProxyStream σ :=
  let packed := through (CompState.compress snap) s.comp plain
  let encrypted := through (EncState.encrypt aes iv) s.enc packed.2
  ⟨encrypted.1, packed.1, s.pendingOut.extend encrypted.2⟩

def flushPending (s : ProxyStream σ) (taken : List Nat) : Wrote (ProxyStream σ) UInt8 Unit :=
  let drained := s.pendingOut.drain "内层流不再接收数据" taken
  ⟨drained.poll, drained.written, { s with pendingOut := drained.stream }⟩

/-- The buffer is consumed even if the inner stream does not take all of it. -/
def pollWrite (s : ProxyStream σ) (buf : List UInt8) (iv : Block) (first second : List Nat) :
    Wrote (ProxyStream σ) UInt8 Nat :=
  let before := s.flushPending first
  match before.poll with
  | .pending => ⟨.pending, before.written, before.stream⟩
  | .error message => ⟨.error message, before.written, before.stream⟩
  | .ready _ =>
    let after := (before.stream.encodeIntoPending aes snap buf iv).flushPending second
    match after.poll with
    | .pending | .ready _ => ⟨.ready buf.length, before.written ++ after.written, after.stream⟩
    | .error message => ⟨.error message, before.written ++ after.written, after.stream⟩

/-- Get everything out of the encoder and into the inner stream, and then ask the
inner stream, which answers `inner`. -/
def flushThen (s : ProxyStream σ) (iv : Block) (taken : List Nat) (inner : Poll Unit) : Wrote (ProxyStream σ) UInt8 Unit :=
  let flushed := (s.encodeIntoPending aes snap [] iv).flushPending taken
  match flushed.poll with
  | .pending | .error _ => flushed
  | .ready _ => { flushed with poll := inner }

def pollFlush : ProxyStream σ → Block → List Nat → Poll Unit → Wrote (ProxyStream σ) UInt8 Unit :=
  flushThen aes snap

def pollShutdown : ProxyStream σ → Block → List Nat → Poll Unit → Wrote (ProxyStream σ) UInt8 Unit :=
  flushThen aes snap

def leftover (s : ProxyStream σ) (remaining : Nat) : Option (ProxyStream σ × List UInt8) :=
  match s.comp with
  | some c =>
    if c.outPos < c.out.length then
      some ({ s with comp := some (c.deliver remaining).1 }, (c.deliver remaining).2)
    else none
  | none => none

/-- What becomes of the bytes of one read; none at all are the end of the stream. -/
def receive (s : ProxyStream σ) (remaining : Nat) (raw : List UInt8) :
    ProxyStream σ × Option (List UInt8) :=
  if raw = [] then (s, some [])
  else
    let decrypted := through (EncState.decrypt aes) s.enc raw
    let unpacked := CompState.unpack snap remaining s.comp decrypted.2
    ({ s with enc := decrypted.1, comp := unpacked.1 }, unpacked.2)

def readLoop (remaining : Nat) : (amounts : List Nat) → (wire : List UInt8) → ProxyStream σ → Got σ
  | amounts, wire, s =>
    match s.leftover remaining with
    | some delivered => ⟨.ready delivered.2, [], delivered.1⟩
    | none =>
      match amounts with
      | [] => ⟨.pending, [], s⟩
      | n :: amounts =>
        let raw := wire.take (min n readChunk)
        let received := s.receive aes snap remaining raw
        match received.2 with
        | some handed => ⟨.ready handed, raw, received.1⟩
        | none =>
          let later := readLoop remaining amounts (wire.drop (min n readChunk)) received.1
          { later with taken := raw ++ later.taken }

/-- `wire` is what has arrived at the inner stream. -/
def pollRead (s : ProxyStream σ) (remaining : Nat) (wire : List UInt8) (amounts : List Nat) : Got σ :=
  if remaining = 0 then ⟨.ready [], [], s⟩ else readLoop aes snap remaining amounts wire s

def undelivered (s : ProxyStream σ) : List UInt8 :=
  s.comp.elim [] CompState.undelivered

def ivMissing (s : ProxyStream σ) : Nat :=
  s.enc.elim 0 EncState.ivMissing

/-- How much text, after the missing part of the vector, the first read that
brings any has. -/
def firstData : (missing : Nat) → (amounts : List Nat) → (available : Nat) → Nat
  | _, [], _ => 0
  | missing, n :: amounts, available =>
    let taken := min (min n readChunk) available
    if taken = 0 then 0
    else if taken ≤ missing then firstData (missing - taken) amounts (available - taken)
    else taken - missing

/-- The writing side: the text accepted, encoded as `body`, and what of that was
written. -/
structure Sends (key : Option Block) (compress : Bool) (s : ProxyStream σ) (chunks : List Chunk)
    (body accepted written : List UInt8) : Prop where
  packs : Packs snap compress s.comp chunks accepted body
  enciphers : Enciphers aes key s.enc body (written ++ s.pendingOut.rest)

/-- The reading side: the bytes received, decrypted as `plain`, and the text
handed over. -/
structure Receives (key : Option Block) (compress : Bool) (s : ProxyStream σ) (chunks : List Chunk)
    (received plain got : List UInt8) : Prop where
  deciphers : Deciphers aes key s.enc received plain
  unpacks : Unpacks snap compress s.comp chunks plain got

end

variable {aes : Block → Block → Block} {snap : Snap σ} {key : Option Block} {compress : Bool}
  {s : ProxyStream σ} {chunks : List Chunk} {body accepted written received plain got : List UInt8}

theorem undelivered_of_leftover {remaining : Nat} (nothing : s.leftover remaining = none) :
    ∀ c ∈ s.comp, c.undelivered = [] := by
  intro c present
  simp only [leftover, Option.mem_def.mp present] at nothing
  split at nothing
  · cases nothing
  next all => exact List.drop_eq_nil_of_le (Nat.le_of_not_lt all)

theorem length_decrypt (s : ProxyStream σ) (raw : List UInt8) :
    (through (EncState.decrypt aes) s.enc raw).2.length = raw.length - s.ivMissing := by
  rw [ivMissing]
  cases s.enc with
  | none => rfl
  | some e => exact (EncState.decrypt_length e raw).1

/-- When a read yields nothing yet, without compression, all of it belonged to
the vector. -/
theorem receive_again {remaining : Nat} {raw : List UInt8}
    (again : (s.receive aes snap remaining raw).2 = none)
    (plainMode : (s.receive aes snap remaining raw).1.comp = none) :
    s.comp = none ∧ raw ≠ [] ∧ raw.length ≤ s.ivMissing ∧
      (s.receive aes snap remaining raw).1.ivMissing = s.ivMissing - raw.length := by
  unfold receive at again plainMode ⊢
  by_cases empty : raw = []
  · rw [if_pos empty] at again
    cases again
  · rw [if_neg empty] at again plainMode ⊢
    have missing : (through (EncState.decrypt aes) s.enc raw).1.elim 0 EncState.ivMissing =
        s.enc.elim 0 EncState.ivMissing - raw.length := by
      cases s.enc with
      | none => exact (Nat.zero_sub _).symm
      | some e => exact (EncState.decrypt_length e raw).2
    simp only [CompState.unpack] at again plainMode
    split at again
    next noData =>
      rw [if_pos noData] at plainMode
      have short := congrArg List.length noData
      rw [length_decrypt, List.length_nil] at short
      exact ⟨plainMode, empty, Nat.sub_eq_zero_iff_le.mp short, missing⟩
    next data =>
      rw [if_neg data] at plainMode
      cases comp : s.comp with
      | none =>
        rw [comp] at again
        cases again
      | some c =>
        rw [comp] at plainMode
        simp only at plainMode
        split at plainMode <;> cases plainMode

namespace Sends

theorem new : Sends aes snap key compress (.new snap key compress) [] [] [] [] := by
  constructor
  · cases compress with
    | false => rfl
    | true => exact ⟨by simp, rfl, rfl⟩
  · cases key with
    | none => rfl
    | some key => exact ⟨rfl, rfl, rfl⟩

theorem encode (sends : Sends aes snap key compress s chunks body accepted written)
    (framed : snap.Framed) (text : List UInt8) (iv : Block) :
    ∃ more body', (∀ chunk ∈ more, chunk.Valid snap.decompressVec) ∧
      Sends aes snap key compress (s.encodeIntoPending aes snap text iv) (chunks ++ more) body'
        (accepted ++ text) written := by
  obtain ⟨more, valid, packs⟩ := sends.packs.compress framed text
  refine ⟨more, _, valid, packs, ?_⟩
  rw [encodeIntoPending, Outbox.rest_extend, ← List.append_assoc]
  exact sends.enciphers.encrypt iv _

theorem flushPending (sends : Sends aes snap key compress s chunks body accepted written)
    (taken : List Nat) :
    Sends aes snap key compress (s.flushPending taken).stream chunks body accepted
      (written ++ (s.flushPending taken).written) := by
  refine ⟨sends.packs, ?_⟩
  rw [ProxyStream.flushPending, List.append_assoc, Outbox.drain_written]
  exact sends.enciphers

/-- Unless it fails, exactly the text that `poll_write` accepts is sent. -/
theorem pollWrite_of_ok (sends : Sends aes snap key compress s chunks body accepted written)
    (framed : snap.Framed) (buf : List UInt8) (iv : Block) {first second : List Nat}
    (ok : (s.flushPending first).poll = .ready () →
      ∀ message, (((s.flushPending first).stream.encodeIntoPending aes snap buf iv).flushPending second).poll
        ≠ .error message) :
    ∃ more body', (∀ chunk ∈ more, chunk.Valid snap.decompressVec) ∧
      Sends aes snap key compress (s.pollWrite aes snap buf iv first second).stream (chunks ++ more) body'
        (accepted ++ buf.take ((s.pollWrite aes snap buf iv first second).poll.getD 0))
        (written ++ (s.pollWrite aes snap buf iv first second).written) := by
  have flushed := sends.flushPending first
  have unchanged : ∃ more body', (∀ chunk ∈ more, chunk.Valid snap.decompressVec) ∧
      Sends aes snap key compress (s.flushPending first).stream (chunks ++ more) body' (accepted ++ buf.take 0)
        (written ++ (s.flushPending first).written) := by
    refine ⟨[], body, by simp, ?_⟩
    rw [List.append_nil, List.take_zero, List.append_nil]
    exact flushed
  cases before : (s.flushPending first).poll with
  | pending =>
    simp only [ProxyStream.pollWrite, before]
    exact unchanged
  | error =>
    simp only [ProxyStream.pollWrite, before]
    exact unchanged
  | ready =>
    obtain ⟨more, body', valid, encoded⟩ := flushed.encode framed buf iv
    have sent := encoded.flushPending second
    rw [List.append_assoc] at sent
    simp only [ProxyStream.pollWrite, before]
    split
    · exact ⟨more, body', valid, by simpa only [Poll.getD, List.take_length] using sent⟩
    · exact ⟨more, body', valid, by simpa only [Poll.getD, List.take_length] using sent⟩
    next failed => exact absurd failed (ok before _)

/-- Unless the inner stream fails after the text was encoded, exactly the text
that `poll_write` accepts is sent. -/
theorem pollWrite (sends : Sends aes snap key compress s chunks body accepted written)
    (framed : snap.Framed) (buf : List UInt8) (iv : Block) (first : List Nat) {second : List Nat}
    (takes : 0 ∉ second) :
    ∃ more body', (∀ chunk ∈ more, chunk.Valid snap.decompressVec) ∧
      Sends aes snap key compress (s.pollWrite aes snap buf iv first second).stream (chunks ++ more) body'
        (accepted ++ buf.take ((s.pollWrite aes snap buf iv first second).poll.getD 0))
        (written ++ (s.pollWrite aes snap buf iv first second).written) :=
  sends.pollWrite_of_ok framed buf iv fun _ => Outbox.drain_ne_error _ takes _

theorem flushThen (sends : Sends aes snap key compress s chunks body accepted written)
    (framed : snap.Framed) (iv : Block) (taken : List Nat) (inner : Poll Unit) :
    ∃ more body', (∀ chunk ∈ more, chunk.Valid snap.decompressVec) ∧
      Sends aes snap key compress (s.flushThen aes snap iv taken inner).stream (chunks ++ more) body' accepted
        (written ++ (s.flushThen aes snap iv taken inner).written) := by
  obtain ⟨more, body', valid, encoded⟩ := sends.encode framed [] iv
  rw [List.append_nil] at encoded
  have sent := encoded.flushPending taken
  refine ⟨more, body', valid, ?_⟩
  simp only [ProxyStream.flushThen]
  split <;> exact sent

theorem leftover (sends : Sends aes snap key compress s chunks body accepted written) {remaining : Nat}
    {delivered : ProxyStream σ × List UInt8} (found : s.leftover remaining = some delivered) :
    Sends aes snap key compress delivered.1 chunks body accepted written := by
  unfold ProxyStream.leftover at found
  split at found
  next c present =>
    split at found
    · obtain rfl := Option.some.inj found
      exact ⟨(present ▸ sends.packs).reading _, sends.enciphers⟩
    · cases found
  · cases found

theorem receive (sends : Sends aes snap key compress s chunks body accepted written) (remaining : Nat)
    (raw : List UInt8) :
    Sends aes snap key compress (s.receive aes snap remaining raw).1 chunks body accepted written := by
  unfold ProxyStream.receive
  split
  · exact sends
  · exact ⟨sends.packs.unpack remaining _, sends.enciphers.decrypt raw⟩

theorem pollRead (sends : Sends aes snap key compress s chunks body accepted written) (remaining : Nat)
    (wire : List UInt8) (amounts : List Nat) :
    Sends aes snap key compress (s.pollRead aes snap remaining wire amounts).stream chunks body accepted
      written := by
  unfold ProxyStream.pollRead
  split
  · exact sends
  · induction amounts generalizing wire s with
    | nil =>
      unfold readLoop
      split
      next found => exact sends.leftover found
      · exact sends
    | cons n amounts ih =>
      unfold readLoop
      split
      next found => exact sends.leftover found
      · have received := sends.receive remaining (wire.take (min n readChunk))
        simp only
        split
        · exact received
        · exact ih received _

end Sends

namespace Receives

theorem new : Receives aes snap key compress (.new snap key compress) [] [] [] [] := by
  constructor
  · cases key with
    | none => rfl
    | some key => exact ⟨rfl, rfl, Nat.zero_lt_succ _, rfl⟩
  · cases compress with
    | false => rfl
    | true => exact ⟨[], [], rfl, rfl, rfl, rfl⟩

theorem more (receives : Receives aes snap key compress s chunks received plain got) {more : List Chunk}
    (valid : ∀ chunk ∈ more, chunk.Valid snap.decompressVec) :
    Receives aes snap key compress s (chunks ++ more) received plain got :=
  ⟨receives.deciphers, receives.unpacks.more valid⟩

theorem encode (receives : Receives aes snap key compress s chunks received plain got) (text : List UInt8)
    (iv : Block) :
    Receives aes snap key compress (s.encodeIntoPending aes snap text iv) chunks received plain got :=
  ⟨receives.deciphers.encrypt iv _, receives.unpacks.writing text⟩

theorem pollWrite (receives : Receives aes snap key compress s chunks received plain got) (buf : List UInt8)
    (iv : Block) (first second : List Nat) :
    Receives aes snap key compress (s.pollWrite aes snap buf iv first second).stream chunks received plain
      got := by
  have unchanged : Receives aes snap key compress (s.flushPending first).stream chunks received plain got :=
    ⟨receives.deciphers, receives.unpacks⟩
  cases before : (s.flushPending first).poll with
  | pending =>
    simp only [ProxyStream.pollWrite, before]
    exact unchanged
  | error =>
    simp only [ProxyStream.pollWrite, before]
    exact unchanged
  | ready =>
    have encoded := unchanged.encode buf iv
    simp only [ProxyStream.pollWrite, before]
    split <;> exact ⟨encoded.deciphers, encoded.unpacks⟩

theorem flushThen (receives : Receives aes snap key compress s chunks received plain got) (iv : Block)
    (taken : List Nat) (inner : Poll Unit) :
    Receives aes snap key compress (s.flushThen aes snap iv taken inner).stream chunks received plain got := by
  have encoded := receives.encode [] iv
  simp only [ProxyStream.flushThen]
  split <;> exact ⟨encoded.deciphers, encoded.unpacks⟩

theorem leftover (receives : Receives aes snap key compress s chunks received plain got) {remaining : Nat}
    {delivered : ProxyStream σ × List UInt8} (found : s.leftover remaining = some delivered) :
    Receives aes snap key compress delivered.1 chunks received plain (got ++ delivered.2) := by
  have unpacks := receives.unpacks
  unfold ProxyStream.leftover at found
  split at found
  next c present =>
    rw [present] at unpacks
    split at found
    · obtain rfl := Option.some.inj found
      cases compress with
      | false => exact unpacks.elim
      | true => exact ⟨receives.deciphers, CompState.Decoded.deliver unpacks remaining⟩
    · cases found
  · cases found

/-- The bytes of one read, of which without compression there are no more than
the caller has room for. -/
theorem receive {writer : ProxyStream σ} {raw : List UInt8}
    (receives : Receives aes snap key compress s chunks received plain got)
    (sends : Sends aes snap key compress writer chunks body accepted written)
    (arrived : received ++ raw <+: written) {remaining : Nat} (nothing : s.leftover remaining = none)
    (fits : s.comp = none → raw.length - s.ivMissing ≤ remaining) :
    ∃ plain', Receives aes snap key compress (s.receive aes snap remaining raw).1 chunks (received ++ raw) plain'
      (got ++ (s.receive aes snap remaining raw).2.getD []) := by
  unfold ProxyStream.receive
  split
  next empty =>
    subst empty
    exact ⟨plain, by simpa only [List.append_nil, Option.getD_some] using receives⟩
  · have deciphers := receives.deciphers.decrypt raw
    have isFront := (deciphers.front sends.enciphers (arrived.trans (List.prefix_append _ _))).1
    refine ⟨_, deciphers, receives.unpacks.unpack sends.packs isFront (undelivered_of_leftover nothing) ?_⟩
    intro plainMode
    rw [length_decrypt]
    exact fits plainMode

theorem readLoop {writer : ProxyStream σ}
    (receives : Receives aes snap key compress s chunks received plain got)
    (sends : Sends aes snap key compress writer chunks body accepted written) {wire : List UInt8}
    (arrived : received ++ wire <+: written) {remaining : Nat} {amounts : List Nat}
    (fits : s.comp = none → firstData s.ivMissing amounts wire.length ≤ remaining) :
    (s.readLoop aes snap remaining amounts wire).taken <+: wire ∧
      ∃ plain', Receives aes snap key compress (s.readLoop aes snap remaining amounts wire).stream chunks
        (received ++ (s.readLoop aes snap remaining amounts wire).taken) plain'
        (got ++ (s.readLoop aes snap remaining amounts wire).poll.getD []) := by
  induction amounts generalizing s received plain got wire with
  | nil =>
    unfold ProxyStream.readLoop
    split
    next delivered found =>
      refine ⟨List.nil_prefix, plain, ?_⟩
      rw [List.append_nil]
      exact receives.leftover found
    · refine ⟨List.nil_prefix, plain, ?_⟩
      simp only [Poll.getD, List.append_nil]
      exact receives
  | cons n amounts ih =>
    unfold ProxyStream.readLoop
    split
    next delivered found =>
      refine ⟨List.nil_prefix, plain, ?_⟩
      rw [List.append_nil]
      exact receives.leftover found
    next nothing =>
      simp only
      have length : (wire.take (min n readChunk)).length = min (min n readChunk) wire.length :=
        List.length_take
      have whole := List.take_append_drop (min n readChunk) wire
      have fitsNow : s.comp = none → (wire.take (min n readChunk)).length - s.ivMissing ≤ remaining := by
        intro plainMode
        have bounded := fits plainMode
        rw [firstData, ← length] at bounded
        split at bounded
        · omega
        · split at bounded <;> omega
      rw [← whole, ← List.append_assoc] at arrived
      obtain ⟨plain', received'⟩ :=
        receives.receive sends ((List.prefix_append _ _).trans arrived) nothing fitsNow
      split
      next handed now =>
        rw [now] at received'
        exact ⟨List.take_prefix _ _, plain', received'⟩
      next again =>
        rw [again, Option.getD_none, List.append_nil] at received'
        have fitsLater : (s.receive aes snap remaining (wire.take (min n readChunk))).1.comp = none →
            firstData (s.receive aes snap remaining (wire.take (min n readChunk))).1.ivMissing amounts
              (wire.drop (min n readChunk)).length ≤ remaining := by
          intro plainMode
          obtain ⟨plainMode, nonempty, inVector, missing⟩ := receive_again again plainMode
          have bounded := fits plainMode
          have positive := List.length_pos_iff.mpr nonempty
          have left : (wire.drop (min n readChunk)).length = wire.length - min (min n readChunk) wire.length := by
            rw [List.length_drop]
            omega
          rw [firstData, ← length, if_neg positive.ne', if_pos inVector] at bounded
          rw [missing, left, ← length]
          exact bounded
        obtain ⟨isFront, plain'', later⟩ := ih received' arrived fitsLater
        refine ⟨?_, plain'', ?_⟩
        · conv => rhs; rw [← whole]
          exact (List.prefix_append_right_inj _).mpr isFront
        · rw [← List.append_assoc]
          exact later

/-- What `poll_read` hands over continues what was handed over, unless without
compression the caller lacks room. -/
theorem pollRead {writer : ProxyStream σ}
    (receives : Receives aes snap key compress s chunks received plain got)
    (sends : Sends aes snap key compress writer chunks body accepted written) {wire : List UInt8}
    (arrived : received ++ wire <+: written) {remaining : Nat} {amounts : List Nat}
    (fits : s.comp = none → remaining ≠ 0 → firstData s.ivMissing amounts wire.length ≤ remaining) :
    (s.pollRead aes snap remaining wire amounts).taken <+: wire ∧
      ∃ plain', Receives aes snap key compress (s.pollRead aes snap remaining wire amounts).stream chunks
        (received ++ (s.pollRead aes snap remaining wire amounts).taken) plain'
        (got ++ (s.pollRead aes snap remaining wire amounts).poll.getD []) := by
  unfold ProxyStream.pollRead
  split
  · refine ⟨List.nil_prefix, plain, ?_⟩
    simp only [Poll.getD, List.append_nil]
    exact receives
  next room => exact receives.readLoop sends arrived fun plainMode => fits plainMode room

/-- The reader has handed over a front of what the writer accepted, and all of it
when nothing is left anywhere on the way. -/
theorem inOrder {writer : ProxyStream σ}
    (receives : Receives aes snap key compress s chunks received plain got)
    (sends : Sends aes snap key compress writer chunks body accepted written) (arrived : received <+: written) :
    got <+: accepted ∧
      (writer.pendingOut.rest = [] → received = written → s.undelivered = [] → got = accepted) := by
  obtain ⟨isFront, allPlain⟩ :=
    receives.deciphers.front sends.enciphers (arrived.trans (List.prefix_append _ _))
  obtain ⟨inOrder, allText⟩ := receives.unpacks.front sends.packs isFront
  refine ⟨inOrder, ?_⟩
  intro flushed allArrived nothing
  apply allText
  · apply allPlain
    rw [flushed, List.append_nil]
    exact allArrived
  · intro c present
    rwa [undelivered, Option.mem_def.mp present] at nothing

end Receives

end ProxyStream

end Nfrp
