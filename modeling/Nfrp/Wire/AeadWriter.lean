import Nfrp.Lib.Framing
import Nfrp.Wire.Control

/-!
# The writer of the second version

A write is cut into chunks, and each of them is sealed under the next nonce, up to a
limit on the number of records.  The nonces of a run count up from the nonce of the
stream, so none of them is used twice.
-/

namespace Nfrp.Wire

open Lib

theorem length_carry (bytes : List UInt8) : (incrementNonce.carry bytes).length = bytes.length := by
  induction bytes with
  | nil => rfl
  | cons byte rest ih =>
    rw [incrementNonce.carry]
    split
    · rw [List.length_cons, ih, List.length_cons]
    · rfl

theorem ofLeBytes_carry (bytes : List UInt8) :
    ofLeBytes (incrementNonce.carry bytes) = (ofLeBytes bytes + 1) % 256 ^ bytes.length := by
  induction bytes with
  | nil => rfl
  | cons byte rest ih =>
    have bound := ofLeBytes_lt rest
    rw [incrementNonce.carry, List.length_cons, Nat.pow_succ]
    split
    next full =>
      subst full
      have carried : (UInt8.toNat 255 + 256 * ofLeBytes rest + 1) = 256 * (ofLeBytes rest + 1) := by
        show 255 + 256 * ofLeBytes rest + 1 = _
        omega
      rw [ofLeBytes, ih, ofLeBytes, carried, Nat.mul_comm (256 ^ rest.length), Nat.mul_mod_mul_left]
      exact Nat.zero_add _
    next room =>
      have below : byte.toNat < 255 := by
        have small := byte.toNat_lt
        have notFull : byte.toNat ≠ 255 := fun same => room (UInt8.toNat_inj.mp same)
        omega
      have one : (byte + 1).toNat = byte.toNat + 1 := by
        rw [UInt8.toNat_add]
        exact Nat.mod_eq_of_lt (by show byte.toNat + 1 < 256; omega)
      rw [ofLeBytes, ofLeBytes, one, Nat.mod_eq_of_lt (by omega)]
      omega

@[simp]
theorem length_incrementNonce (nonce : List UInt8) : (incrementNonce nonce).length = nonce.length := by
  rw [incrementNonce, List.length_reverse, length_carry, List.length_reverse]

theorem ofBeBytes_incrementNonce (nonce : List UInt8) :
    ofBeBytes (incrementNonce nonce) = (ofBeBytes nonce + 1) % 256 ^ nonce.length := by
  rw [ofBeBytes, incrementNonce, List.reverse_reverse, ofLeBytes_carry, List.length_reverse, ofBeBytes]

abbrev nonceAt (nonce : List UInt8) (count : Nat) : List UInt8 :=
  stateAfter incrementNonce count nonce

theorem ofBeBytes_nonceAt (nonce : List UInt8) (count : Nat) :
    ofBeBytes (nonceAt nonce count) = (ofBeBytes nonce + count) % 256 ^ nonce.length := by
  induction count generalizing nonce with
  | zero =>
    have bound := ofLeBytes_lt nonce.reverse
    rw [List.length_reverse] at bound
    exact (Nat.mod_eq_of_lt bound).symm
  | succ count ih =>
    refine (ih (incrementNonce nonce)).trans ?_
    rw [ofBeBytes_incrementNonce, length_incrementNonce, Nat.mod_add_mod, Nat.add_assoc, Nat.add_comm 1 count]

theorem nonceAt_inj {nonce : List UInt8} {first second : Nat} (isFirst : first < 256 ^ nonce.length)
    (isSecond : second < 256 ^ nonce.length) (same : nonceAt nonce first = nonceAt nonce second) : first = second := by
  have sameNumber := congrArg ofBeBytes same
  rw [ofBeBytes_nonceAt, ofBeBytes_nonceAt] at sameNumber
  have cancelled : first ≡ second [MOD 256 ^ nonce.length] := Nat.ModEq.add_left_cancel' _ sameNumber
  exact cancelled.eq_of_lt_of_lt isFirst isSecond

structure Record where
  nonce : List UInt8
  aad : List UInt8
  sealed : List UInt8
  text : List UInt8
  deriving DecidableEq

def Record.bytes (r : Record) : List UInt8 :=
  recordHeader r.text ++ r.sealed

def maxFrames : Nat := 2 ^ 32

structure AeadWriter where
  streamNonce : List UInt8
  nonce : List UInt8
  headerSent : Bool := false
  frameCount : Nat := 0

namespace AeadWriter

variable (aead : Aead)

def new (streamNonce : List UInt8) : AeadWriter where
  streamNonce := streamNonce
  nonce := streamNonce

def sealChunk (w : AeadWriter) (chunk : List UInt8) : Record :=
  let aad := w.streamNonce ++ recordHeader chunk
  ⟨w.nonce, aad, aead.encrypt w.nonce aad chunk, chunk⟩

def sealChunks : AeadWriter → List (List UInt8) → AeadWriter × List Record × Bool
  | w, [] => (w, [], true)
  | w, chunk :: chunks =>
    if maxFrames ≤ w.frameCount then (w, [], false)
    else
      let later :=
        sealChunks { w with nonce := incrementNonce w.nonce, frameCount := w.frameCount + 1 } chunks
      (later.1, w.sealChunk aead chunk :: later.2.1, later.2.2)

end AeadWriter

/-- The records that were sealed, and the bytes to write; at the limit there are none,
whatever was sealed before it. -/
def AeadWriter.seal (aead : Aead) (w : AeadWriter) (plaintext : List UInt8) : AeadWriter × List Record × Option (List UInt8) :=
  let header := if w.headerSent then [] else w.streamNonce
  let done := sealChunks aead { w with headerSent := true } (blocks maxPayload plaintext)
  (done.1, done.2.1, if done.2.2 then some (header ++ done.2.1.flatMap Record.bytes) else none)

def recordsFrom (aead : Aead) (streamNonce : List UInt8) : List UInt8 → List (List UInt8) → List Record
  | _, [] => []
  | nonce, chunk :: chunks =>
    ⟨nonce, streamNonce ++ recordHeader chunk, aead.encrypt nonce (streamNonce ++ recordHeader chunk) chunk, chunk⟩ ::
      recordsFrom aead streamNonce (incrementNonce nonce) chunks

section Records

variable {aead : Aead} {streamNonce : List UInt8}

theorem bytes_recordsFrom (nonce : List UInt8) (chunks : List (List UInt8)) :
    (recordsFrom aead streamNonce nonce chunks).flatMap Record.bytes =
      (encodeFrom (sealRecord aead streamNonce) incrementNonce nonce chunks).flatten := by
  induction chunks generalizing nonce with
  | nil => rfl
  | cons chunk chunks ih =>
    rw [recordsFrom, List.flatMap_cons, ih, encodeFrom, List.flatten_cons]
    rfl

theorem texts_recordsFrom (nonce : List UInt8) (chunks : List (List UInt8)) :
    (recordsFrom aead streamNonce nonce chunks).map Record.text = chunks := by
  induction chunks generalizing nonce with
  | nil => rfl
  | cons chunk chunks ih => exact congrArg (chunk :: ·) (ih _)

theorem length_recordsFrom (nonce : List UInt8) (chunks : List (List UInt8)) :
    (recordsFrom aead streamNonce nonce chunks).length = chunks.length := by
  have sameLength := congrArg List.length (@texts_recordsFrom aead streamNonce nonce chunks)
  rwa [List.length_map] at sameLength

theorem recordsFrom_append (nonce : List UInt8) (chunks more : List (List UInt8)) :
    recordsFrom aead streamNonce nonce (chunks ++ more) =
      recordsFrom aead streamNonce nonce chunks ++ recordsFrom aead streamNonce (nonceAt nonce chunks.length) more := by
  induction chunks generalizing nonce with
  | nil => rfl
  | cons chunk chunks ih => exact congrArg (_ :: ·) (ih _)

theorem nonces_recordsFrom (nonce : List UInt8) (chunks : List (List UInt8)) :
    (recordsFrom aead streamNonce nonce chunks).map Record.nonce = (List.range chunks.length).map (nonceAt nonce) := by
  induction chunks generalizing nonce with
  | nil => rfl
  | cons chunk chunks ih =>
    rw [recordsFrom, List.map_cons, ih, List.length_cons, List.range_succ_eq_map, List.map_cons,
      List.map_map]
    rfl

theorem nodup_nonces {nonce : List UInt8} {chunks : List (List UInt8)} (few : chunks.length ≤ 256 ^ nonce.length) :
    ((recordsFrom aead streamNonce nonce chunks).map Record.nonce).Nodup := by
  rw [nonces_recordsFrom]
  refine List.Nodup.map_on ?_ List.nodup_range
  intro first isFirst second isSecond same
  exact nonceAt_inj ((List.mem_range.mp isFirst).trans_le few) ((List.mem_range.mp isSecond).trans_le few) same

end Records

theorem AeadWriter.sealChunks_eq (aead : Aead) (w : AeadWriter) (chunks : List (List UInt8)) :
    w.sealChunks aead chunks =
      ({ w with
          nonce := nonceAt w.nonce (chunks.take (maxFrames - w.frameCount)).length
          frameCount := w.frameCount + (chunks.take (maxFrames - w.frameCount)).length },
        recordsFrom aead w.streamNonce w.nonce (chunks.take (maxFrames - w.frameCount)),
        decide (chunks.length ≤ maxFrames - w.frameCount)) := by
  induction chunks generalizing w with
  | nil =>
    rw [List.take_nil]
    simp [sealChunks, recordsFrom, stateAfter]
  | cons chunk chunks ih =>
    rw [sealChunks]
    split
    next atLimit =>
      rw [Nat.sub_eq_zero_of_le atLimit]
      simp [recordsFrom, stateAfter]
    next below =>
      have oneLess : maxFrames - w.frameCount = maxFrames - (w.frameCount + 1) + 1 := by omega
      rw [ih, oneLess, List.take_succ_cons]
      simp only [List.length_cons, stateAfter, recordsFrom, Nat.add_le_add_iff_right, sealChunk,
        Nat.add_assoc, Nat.add_comm 1]

/-- A writer after some writes: the records it has sealed, what has been written, and the
text of the writes that were. -/
structure Sent where
  writer : AeadWriter
  log : List Record := []
  wire : List UInt8 := []
  text : List UInt8 := []

namespace Sent

variable (aead : Aead)

def send (s : Sent) (plaintext : List UInt8) : Sent :=
  let sealed := s.writer.seal aead plaintext
  match sealed.2.2 with
  | some bytes =>
    { writer := sealed.1, log := s.log ++ sealed.2.1, wire := s.wire ++ bytes, text := s.text ++ plaintext }
  | none => { s with writer := sealed.1, log := s.log ++ sealed.2.1 }

def sendAll (streamNonce : List UInt8) (writes : List (List UInt8)) : Sent :=
  writes.foldl (send aead) { writer := .new streamNonce }

/-- The chunks of the records that were written, and of those lost at the limit. -/
structure Holds (streamNonce : List UInt8) (chunks written lost : List (List UInt8)) (s : Sent) : Prop where
  sealed : written ++ lost <+: chunks
  log : s.log = recordsFrom aead streamNonce streamNonce (written ++ lost)
  sameNonce : s.writer.streamNonce = streamNonce
  nonce : s.writer.nonce = nonceAt streamNonce (written ++ lost).length
  count : s.writer.frameCount = (written ++ lost).length
  room : chunks.length ≤ maxFrames → written = chunks ∧ lost = []
  tooMany : maxFrames < chunks.length → (written ++ lost).length = maxFrames
  fresh : s.writer.headerSent = false → s.wire = [] ∧ chunks = []
  wire : s.writer.headerSent = true →
    s.wire = streamNonce ++ (encodeFrom (sealRecord aead streamNonce) incrementNonce streamNonce written).flatten ∨
      s.wire = [] ∧ written = [] ∧ maxFrames < chunks.length
  text : s.text = written.flatten

variable {aead} {streamNonce : List UInt8} {chunks written lost : List (List UInt8)} {s : Sent}

theorem send_of_some {plaintext bytes : List UInt8} {writer : AeadWriter} {log : List Record}
    (sealed : s.writer.seal aead plaintext = (writer, log, some bytes)) :
    s.send aead plaintext = ⟨writer, s.log ++ log, s.wire ++ bytes, s.text ++ plaintext⟩ := by
  rw [send, sealed]

theorem send_of_none {plaintext : List UInt8} {writer : AeadWriter} {log : List Record}
    (sealed : s.writer.seal aead plaintext = (writer, log, none)) :
    s.send aead plaintext = ⟨writer, s.log ++ log, s.wire, s.text⟩ := by
  rw [send, sealed]

theorem Holds.initially : Holds aead streamNonce [] [] [] { writer := .new streamNonce } where
  sealed := List.nil_prefix
  log := rfl
  sameNonce := rfl
  nonce := rfl
  count := rfl
  room _ := ⟨rfl, rfl⟩
  tooMany many := absurd many (Nat.not_lt_zero _)
  fresh _ := ⟨rfl, rfl⟩
  wire isSent := nomatch isSent
  text := rfl

theorem Holds.seal_eq (holds : Holds aead streamNonce chunks written lost s) (plaintext : List UInt8) :
    s.writer.seal aead plaintext =
      let taken := (blocks maxPayload plaintext).take (maxFrames - (written ++ lost).length)
      let nonce := nonceAt streamNonce (written ++ lost).length
      (⟨streamNonce, nonceAt nonce taken.length, true, (written ++ lost).length + taken.length⟩,
        recordsFrom aead streamNonce nonce taken,
        if (blocks maxPayload plaintext).length ≤ maxFrames - (written ++ lost).length then
          some ((if s.writer.headerSent then [] else streamNonce) ++
            (encodeFrom (sealRecord aead streamNonce) incrementNonce nonce taken).flatten)
        else none) := by
  rw [AeadWriter.seal, AeadWriter.sealChunks_eq]
  simp only [holds.sameNonce, holds.nonce, holds.count, bytes_recordsFrom, decide_eq_true_eq]

theorem Holds.written_of_room (holds : Holds aead streamNonce chunks written lost s)
    (room : (written ++ lost).length < maxFrames) : written = chunks ∧ lost = [] := by
  apply holds.room
  by_contra tooMany
  have full := holds.tooMany (Nat.lt_of_not_le tooMany)
  omega

theorem Holds.send_fits (holds : Holds aead streamNonce chunks written lost s) {plaintext : List UInt8}
    (fits : (chunks ++ blocks maxPayload plaintext).length ≤ maxFrames) :
    Holds aead streamNonce (chunks ++ blocks maxPayload plaintext) (chunks ++ blocks maxPayload plaintext) []
      (send aead s plaintext) := by
  have few := fits
  rw [List.length_append] at few
  obtain ⟨rfl, rfl⟩ := holds.room (by omega)
  have sealed := holds.seal_eq plaintext
  rw [List.append_nil] at sealed
  have accepted : (blocks maxPayload plaintext).length ≤ maxFrames - written.length := by omega
  rw [List.take_of_length_le accepted] at sealed
  dsimp only at sealed
  rw [if_pos accepted] at sealed
  rw [send_of_some sealed]
  refine ⟨?_, ?_, rfl, ?_, ?_, fun _ => ⟨rfl, rfl⟩, fun tooMany => absurd fits (Nat.not_le_of_lt tooMany), nofun, ?_, ?_⟩
  · rw [List.append_nil]
  · rw [List.append_nil, recordsFrom_append, holds.log, List.append_nil]
  · rw [List.append_nil, List.length_append]
    exact (stateAfter_add _ _ _ _).symm
  · rw [List.append_nil, List.length_append]
  · intro _
    left
    rw [encodeFrom_append, List.flatten_append, ← List.append_assoc, ← List.append_assoc]
    cases isSent : s.writer.headerSent with
    | false =>
      obtain ⟨noWire, rfl⟩ := holds.fresh isSent
      rw [noWire, if_neg (by decide), encodeFrom, List.flatten_nil, List.append_nil, List.nil_append]
    | true =>
      rcases holds.wire isSent with isWire | ⟨-, -, tooMany⟩
      · rw [isWire, if_pos rfl, List.append_nil]
      · omega
  · rw [holds.text, List.flatten_append, flatten_blocks (by decide)]

theorem Holds.send_nil (holds : Holds aead streamNonce chunks written lost s) (tooMany : maxFrames < chunks.length) :
    Holds aead streamNonce chunks written lost (send aead s []) := by
  have isSent : s.writer.headerSent = true := by
    cases isSent : s.writer.headerSent with
    | false =>
      obtain ⟨-, rfl⟩ := holds.fresh isSent
      exact absurd tooMany (Nat.not_lt_zero _)
    | true => rfl
  have sealed := holds.seal_eq []
  have noBlocks : blocks maxPayload ([] : List UInt8) = [] := rfl
  rw [noBlocks, List.take_nil, isSent] at sealed
  dsimp only at sealed
  rw [if_pos (show ([] : List (List UInt8)).length ≤ _ from Nat.zero_le _), if_pos rfl] at sealed
  rw [send_of_some sealed]
  refine ⟨holds.sealed, ?_, rfl, rfl, rfl, holds.room, holds.tooMany, nofun, ?_, ?_⟩
  · exact (List.append_nil _).trans holds.log
  · intro _
    have same : s.wire ++ ([] ++ (encodeFrom (sealRecord aead streamNonce) incrementNonce
        (nonceAt streamNonce (written ++ lost).length) []).flatten) = s.wire := by
      rw [encodeFrom, List.flatten_nil, List.append_nil, List.append_nil]
    rw [same]
    exact holds.wire isSent
  · exact (List.append_nil _).trans holds.text

theorem Holds.send_over (holds : Holds aead streamNonce chunks written lost s) {plaintext : List UInt8}
    (someText : blocks maxPayload plaintext ≠ [])
    (tooMany : maxFrames < (chunks ++ blocks maxPayload plaintext).length) :
    ∃ more, Holds aead streamNonce (chunks ++ blocks maxPayload plaintext) written (lost ++ more)
      (send aead s plaintext) := by
  have positive := List.length_pos_iff.mpr someText
  have rejected : ¬(blocks maxPayload plaintext).length ≤ maxFrames - (written ++ lost).length := by
    intro accepted
    obtain ⟨rfl, rfl⟩ := holds.written_of_room (by omega)
    rw [List.append_nil] at accepted
    rw [List.length_append] at tooMany
    omega
  have sealed := holds.seal_eq plaintext
  dsimp only at sealed
  rw [if_neg rejected] at sealed
  refine ⟨(blocks maxPayload plaintext).take (maxFrames - (written ++ lost).length), ?_⟩
  rw [send_of_none sealed]
  have few : (written ++ lost).length ≤ maxFrames := by
    by_cases many : maxFrames < chunks.length
    · exact (holds.tooMany many).le
    · exact holds.sealed.length_le.trans (Nat.le_of_not_lt many)
  have counted (more : List (List UInt8)) : (written ++ (lost ++ more)).length = (written ++ lost).length + more.length := by
    rw [← List.append_assoc, List.length_append]
  refine ⟨?_, ?_, rfl, ?_, ?_, fun fits => absurd tooMany (Nat.not_lt_of_le fits), ?_, nofun, ?_, holds.text⟩
  · by_cases room : (written ++ lost).length < maxFrames
    · obtain ⟨rfl, rfl⟩ := holds.written_of_room room
      rw [List.nil_append]
      exact (List.prefix_append_right_inj _).mpr (List.take_prefix _ _)
    · rw [Nat.sub_eq_zero_of_le (Nat.le_of_not_lt room), List.take_zero, List.append_nil]
      exact holds.sealed.trans (List.prefix_append _ _)
  · rw [← List.append_assoc, recordsFrom_append, holds.log]
  · rw [counted]
    exact (stateAfter_add _ _ _ _).symm
  · rw [counted]
  · intro _
    rw [counted, List.length_take]
    omega
  · intro _
    cases isSent : s.writer.headerSent with
    | false =>
      obtain ⟨noWire, rfl⟩ := holds.fresh isSent
      have nothing := List.prefix_nil.mp holds.sealed
      exact .inr ⟨noWire, (List.append_eq_nil_iff.mp nothing).1, tooMany⟩
    | true =>
      rcases holds.wire isSent with isWire | ⟨noWire, nothing, many⟩
      · exact .inl isWire
      · exact .inr ⟨noWire, nothing, by rw [List.length_append]; omega⟩

theorem Holds.send (holds : Holds aead streamNonce chunks written lost s) (plaintext : List UInt8) :
    ∃ written' lost', Holds aead streamNonce (chunks ++ blocks maxPayload plaintext) written' lost'
      (s.send aead plaintext) := by
  by_cases fits : (chunks ++ blocks maxPayload plaintext).length ≤ maxFrames
  · exact ⟨_, _, holds.send_fits fits⟩
  · have tooMany := Nat.lt_of_not_le fits
    by_cases noText : blocks maxPayload plaintext = []
    · have isEmpty : plaintext = [] := by
        rw [← flatten_blocks (show 0 < maxPayload by decide) plaintext, noText, List.flatten_nil]
      subst isEmpty
      rw [noText, List.append_nil] at tooMany ⊢
      exact ⟨written, lost, holds.send_nil tooMany⟩
    · obtain ⟨more, after⟩ := holds.send_over noText tooMany
      exact ⟨written, _, after⟩

theorem exists_holds_sendAll (aead : Aead) (streamNonce : List UInt8) (writes : List (List UInt8)) :
    ∃ written lost, Holds aead streamNonce (writes.flatMap (blocks maxPayload)) written lost
      (sendAll aead streamNonce writes) := by
  induction writes using List.reverseRecOn with
  | nil => exact ⟨[], [], .initially⟩
  | append_singleton writes plaintext ih =>
    obtain ⟨written, lost, holds⟩ := ih
    have next := holds.send plaintext
    rwa [sendAll, List.foldl_append, List.foldl_cons, List.foldl_nil, List.flatMap_append, List.flatMap_singleton]

end Sent

end Nfrp.Wire
