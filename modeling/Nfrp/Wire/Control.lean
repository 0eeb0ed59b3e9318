import Nfrp.Lib.Pieces
import Nfrp.Proxy.Encryption
import Nfrp.Wire.Frame

/-!
# The cipher of a control connection

The first version enciphers with CFB behind a plain initialisation vector, the second
seals records behind a plain nonce.  Both take as much text out of the bytes that have
arrived as there is, and keep the rest.
-/

namespace Nfrp.Wire

open Lib

/-- The reading half; `none` until the vector is read. -/
structure CryptoStream where
  inp : Option Cfb := none

/-- `encryptBlock` is the block cipher under the key of the connection. -/
def CryptoStream.decrypt (encryptBlock : Block → Block) (s : CryptoStream) (cipher : List UInt8) :
    CryptoStream × List UInt8 × List UInt8 :=
  match s.inp with
  | some cfb => (⟨some (cfb.decrypt cipher).1⟩, [], (cfb.decrypt cipher).2)
  | none =>
    if short : cipher.length < ivLen then (s, cipher, [])
    else
      let iv : Block := ⟨(cipher.take ivLen).toArray, by simp [ivLen] at short ⊢; omega⟩
      let cfb := Cfb.new encryptBlock iv
      (⟨some (cfb.decrypt (cipher.drop ivLen)).1⟩, [], (cfb.decrypt (cipher.drop ivLen)).2)

def nonceLen : Nat := 12

def tagLen : Nat := 16

def maxPayload : Nat := 64 * 1024

/-- A cipher that seals under the key of the connection, a nonce and associated data. -/
structure Aead where
  encrypt : (nonce aad text : List UInt8) → List UInt8
  decrypt : (nonce aad sealed : List UInt8) → Option (List UInt8)
  length_encrypt : ∀ nonce aad text, (encrypt nonce aad text).length = text.length + tagLen
  decrypt_encrypt : ∀ nonce aad text, decrypt nonce aad (encrypt nonce aad text) = some text

/-- One more, as a number with its last byte least significant. -/
def incrementNonce (nonce : List UInt8) : List UInt8 :=
  let rec carry : List UInt8 → List UInt8
    | [] => []
    | byte :: rest => if byte = 255 then 0 :: carry rest else (byte + 1) :: rest
  (carry nonce.reverse).reverse

section Records

variable (aead : Aead) (streamNonce : List UInt8)

def recordHeader (chunk : List UInt8) : List UInt8 :=
  beBytes 4 (chunk.length + tagLen)

def sealRecord (nonce chunk : List UInt8) : List UInt8 :=
  recordHeader chunk ++ aead.encrypt nonce (streamNonce ++ recordHeader chunk) chunk

def openRecord (nonce buf : List UInt8) : Parsed (List UInt8) :=
  if buf.length < 4 then .incomplete
  else
    let ctLen := ofBeBytes (buf.take 4)
    if ctLen < tagLen ∨ maxPayload + tagLen < ctLen then .broken
    else if buf.length < 4 + ctLen then .incomplete
    else
      match aead.decrypt nonce (streamNonce ++ buf.take 4) ((buf.drop 4).take ctLen) with
      | none => .broken
      | some text => .item text (4 + ctLen)

structure IsChunk (chunk : List UInt8) : Prop where
  some : chunk ≠ []
  fits : chunk.length ≤ maxPayload

theorem openRecord_header {chunk : List UInt8} (isChunk : IsChunk chunk) (nonce after : List UInt8) :
    openRecord aead streamNonce nonce (recordHeader chunk ++ after) =
      if after.length < chunk.length + tagLen then .incomplete
      else
        match aead.decrypt nonce (streamNonce ++ recordHeader chunk) (after.take (chunk.length + tagLen)) with
        | none => .broken
        | some text => .item text (4 + (chunk.length + tagLen)) := by
  have fits := isChunk.fits
  have front : (recordHeader chunk ++ after).take 4 = recordHeader chunk := List.take_left' (length_beBytes 4 _)
  have behind : (recordHeader chunk ++ after).drop 4 = after := List.drop_left' (length_beBytes 4 _)
  have isLength : ofBeBytes (recordHeader chunk) = chunk.length + tagLen := by
    rw [maxPayload] at fits
    rw [recordHeader, ofBeBytes_beBytes, tagLen, Nat.mod_eq_of_lt (by omega)]
  have inRange : ¬(chunk.length + tagLen < tagLen ∨ maxPayload + tagLen < chunk.length + tagLen) := by omega
  have whole : (recordHeader chunk ++ after).length = 4 + after.length := by
    rw [List.length_append, recordHeader, length_beBytes]
  rw [openRecord, if_neg (by omega), front]
  simp only [isLength, inRange, if_false, behind, whole, Nat.add_lt_add_iff_left]

theorem recognises_openRecord (nonce : List UInt8) :
    Recognises (openRecord aead streamNonce nonce) (sealRecord aead streamNonce nonce) id IsChunk := by
  refine Recognises.of_header (fun chunk => ?_) ?_ ?_ ?_
  · exact List.ne_nil_of_length_pos (by rw [recordHeader, length_beBytes]; decide)
  · intro chunk input _ _ short
    rw [recordHeader, length_beBytes] at short
    rw [openRecord, if_pos short]
  · intro chunk after isChunk short
    rw [aead.length_encrypt] at short
    rw [openRecord_header aead streamNonce isChunk, if_pos short]
  · intro chunk rest isChunk
    have sealed := aead.length_encrypt nonce (streamNonce ++ recordHeader chunk) chunk
    rw [openRecord_header aead streamNonce isChunk, if_neg, List.take_left' sealed, aead.decrypt_encrypt,
      List.length_append, sealed, recordHeader, length_beBytes]
    · rfl
    · rw [List.length_append, sealed]
      omega

end Records

/-- `streamNonce` is not known until it is read. -/
structure AeadReader where
  streamNonce : Option (List UInt8) := none
  nonce : List UInt8 := List.replicate nonceLen 0

namespace AeadReader

/-- The nonce of the stream is taken off as soon as it is there. -/
def start (r : AeadReader) (buf : List UInt8) : AeadReader × List UInt8 :=
  match r.streamNonce with
  | some _ => (r, buf)
  | none =>
    if buf.length < nonceLen then (r, buf)
    else (⟨some (buf.take nonceLen), buf.take nonceLen⟩, buf.drop nonceLen)

def openAll (aead : Aead) (r : AeadReader) (buf : List UInt8) : Option (AeadReader × List UInt8 × List UInt8) :=
  let started := r.start buf
  match started.1.streamNonce with
  | none => some (started.1, started.2, [])
  | some streamNonce =>
    (drainFrom (openRecord aead streamNonce) incrementNonce (started.2.length + 1) started.1.nonce started.2).map
      fun drained => (⟨some streamNonce, drained.2.1⟩, drained.2.2, drained.1.flatten)

end AeadReader

structure Keys where
  encryptBlock : Block → Block
  aead : Aead

inductive ControlCrypto where
  | none
  | v1 (s : CryptoStream)
  | v2 (r : AeadReader)

/-- The state after it, what is not yet text, and the text. -/
def ControlCrypto.decrypt (keys : Keys) : ControlCrypto → List UInt8 → Option (ControlCrypto × List UInt8 × List UInt8)
  | .none, raw => some (.none, raw, [])
  | .v1 s, raw =>
    let decrypted := s.decrypt keys.encryptBlock raw
    some (.v1 decrypted.1, decrypted.2.1, decrypted.2.2)
  | .v2 r, raw => (r.openAll keys.aead raw).map fun opened => (.v2 opened.1, opened.2.1, opened.2.2)

def maxHeld : Nat := 70000

/-- A cipher that takes the text out of a stream as it arrives: `Holds` relates what has
arrived to the state, to the bytes kept and to the text. -/
structure Deciphering (keys : Keys) (initial : ControlCrypto) (cipher plain : List (List UInt8)) where
  Holds : (received : List UInt8) → ControlCrypto → (raw text : List UInt8) → Prop
  initially : Holds [] initial [] []
  isCipher : ∀ {received crypto raw text}, Holds received crypto raw text → crypto ≠ .none
  step : ∀ {received crypto raw text more}, Holds received crypto raw text → received ++ more <+: cipher.flatten →
    ∃ after kept found, crypto.decrypt keys (raw ++ more) = some (after, kept, found) ∧
      Holds (received ++ more) after kept (text ++ found) ∧ found.length ≤ (raw ++ more).length
  counts : ∀ {received crypto raw text}, Holds received crypto raw text → received <+: cipher.flatten →
    text <+: plain.flatten ∧ whole cipher received.length = whole plain text.length
  small : ∀ {received crypto raw text}, Holds received crypto raw text → raw.length < maxHeld

section V1

variable (keys : Keys) (iv : Block) (plain : List (List UInt8))

def v1Pieces : List (List UInt8) :=
  withHeader iv.toList (outputs Cfb.encrypt (Cfb.new keys.encryptBlock iv) plain)

/-- A part of the vector, or the vector and some ciphertext. -/
def V1Holds (received : List UInt8) (crypto : ControlCrypto) (raw text : List UInt8) : Prop :=
  (received.length < ivLen ∧ crypto = .v1 {} ∧ raw = received ∧ text = []) ∨
    ∃ body, received = iv.toList ++ body ∧ raw = [] ∧
      crypto = .v1 ⟨some ((Cfb.new keys.encryptBlock iv).decrypt body).1⟩ ∧
      text = ((Cfb.new keys.encryptBlock iv).decrypt body).2

variable {keys iv plain}

theorem flatten_outputs_encrypt (cfb : Cfb) (plain : List (List UInt8)) :
    (outputs Cfb.encrypt cfb plain).flatten = (cfb.encrypt plain.flatten).2 := by
  induction plain generalizing cfb with
  | nil => rfl
  | cons text plain ih =>
    rw [outputs, List.flatten_cons, ih, List.flatten_cons, Cfb.encrypt, transduce_append]

theorem lengths_outputs_encrypt (cfb : Cfb) (plain : List (List UInt8)) :
    (outputs Cfb.encrypt cfb plain).map List.length = plain.map List.length := by
  induction plain generalizing cfb with
  | nil => rfl
  | cons text plain ih =>
    rw [outputs, List.map_cons, ih, List.map_cons, Cfb.encrypt, length_transduce]

theorem prefix_v1 {received : List UInt8} (arrived : received <+: (v1Pieces keys iv plain).flatten) :
    received <+: iv.toList ++ ((Cfb.new keys.encryptBlock iv).encrypt plain.flatten).2 := by
  rw [← flatten_outputs_encrypt]
  exact arrived.trans (withHeader_flatten_isPrefix _ _)

theorem take_iv {received : List UInt8} (arrived : received <+: (v1Pieces keys iv plain).flatten)
    (enough : ¬received.length < ivLen) : ∃ body, received = iv.toList ++ body := by
  have isFront : iv.toList <+: received :=
    List.prefix_of_prefix_length_le (List.prefix_append _ _) (prefix_v1 arrived) (by simpa [ivLen] using enough)
  obtain ⟨body, rfl⟩ := isFront
  exact ⟨body, rfl⟩

omit keys in
theorem decrypt_iv (encryptBlock : Block → Block) (body : List UInt8) :
    CryptoStream.decrypt encryptBlock {} (iv.toList ++ body) =
      (⟨some ((Cfb.new encryptBlock iv).decrypt body).1⟩, [], ((Cfb.new encryptBlock iv).decrypt body).2) := by
  have isIv : (iv.toList ++ body).take ivLen = iv.toList := List.take_left' (by simp [ivLen])
  have isBody : (iv.toList ++ body).drop ivLen = body := List.drop_left' (by simp [ivLen])
  have long : ¬(iv.toList ++ body).length < ivLen := by simp [ivLen]
  rw [CryptoStream.decrypt]
  simp only [dif_neg long, isIv, isBody]
  rfl

theorem V1Holds.step {received raw text more : List UInt8} {crypto : ControlCrypto}
    (holds : V1Holds keys iv received crypto raw text) (arrived : received ++ more <+: (v1Pieces keys iv plain).flatten) :
    ∃ after kept found, crypto.decrypt keys (raw ++ more) = some (after, kept, found) ∧
      V1Holds keys iv (received ++ more) after kept (text ++ found) ∧ found.length ≤ (raw ++ more).length := by
  rcases holds with ⟨-, rfl, rfl, rfl⟩ | ⟨body, rfl, rfl, rfl, rfl⟩
  · by_cases short : (raw ++ more).length < ivLen
    · refine ⟨.v1 {}, raw ++ more, [], ?_, .inl ⟨short, rfl, rfl, rfl⟩, Nat.zero_le _⟩
      simp only [ControlCrypto.decrypt, CryptoStream.decrypt, dif_pos short]
    · obtain ⟨body, isBody⟩ := take_iv arrived short
      refine ⟨_, _, _, by rw [ControlCrypto.decrypt, isBody, decrypt_iv], .inr ⟨body, isBody, rfl, rfl, rfl⟩, ?_⟩
      rw [isBody, Cfb.decrypt, length_transduce, List.length_append]
      exact Nat.le_add_left _ _
  · refine ⟨_, _, _, rfl, .inr ⟨body ++ more, List.append_assoc _ _ _, rfl, ?_, ?_⟩, ?_⟩
    · rw [Cfb.decrypt, transduce_append]
      rfl
    · rw [Cfb.decrypt, transduce_append]
      rfl
    · show (((Cfb.new keys.encryptBlock iv).decrypt body).1.decrypt more).2.length ≤ more.length
      exact (length_transduce _ _).le

theorem V1Holds.counts (nonempty : ∀ text ∈ plain, text ≠ []) {received raw text : List UInt8} {crypto : ControlCrypto}
    (holds : V1Holds keys iv received crypto raw text) (arrived : received <+: (v1Pieces keys iv plain).flatten) :
    text <+: plain.flatten ∧ whole (v1Pieces keys iv plain) received.length = whole plain text.length := by
  rcases holds with ⟨short, -, -, rfl⟩ | ⟨body, rfl, -, -, rfl⟩
  · refine ⟨List.nil_prefix, ?_⟩
    have inVector : received.length < iv.toList.length := by simpa [ivLen] using short
    rw [v1Pieces, whole_withHeader_of_lt inVector, List.length_nil, whole_zero nonempty]
  · have inBody := (List.prefix_append_right_inj _).mp (prefix_v1 arrived)
    constructor
    · have recovered := Cfb.decrypt_encrypt (Cfb.new keys.encryptBlock iv) plain.flatten
      have decrypted : ((Cfb.new keys.encryptBlock iv).decrypt body).2 <+: (Cfb.decrypt _ _).2 :=
        transduce_front inBody (Cfb.new keys.encryptBlock iv)
      rwa [recovered] at decrypted
    · rw [v1Pieces, List.length_append, whole_withHeader, Cfb.decrypt, length_transduce]
      exact whole_congr (lengths_outputs_encrypt _ _) _

variable (keys iv) in
def v1Deciphering (nonempty : ∀ text ∈ plain, text ≠ []) :
    Deciphering keys (.v1 {}) (v1Pieces keys iv plain) plain where
  Holds := V1Holds keys iv
  initially := .inl ⟨by decide, rfl, rfl, rfl⟩
  isCipher := by
    rintro received crypto raw text (⟨-, rfl, -, -⟩ | ⟨body, -, -, rfl, -⟩) <;> exact nofun
  step := V1Holds.step
  counts := V1Holds.counts nonempty
  small := by
    rintro received crypto raw text (⟨short, -, rfl, -⟩ | ⟨body, -, rfl, -, -⟩)
    · exact short.trans (by decide)
    · decide

end V1

section V2

variable (keys : Keys) (streamNonce : List UInt8) (chunks : List (List (List UInt8)))

def v2Pieces : List (List UInt8) :=
  withHeader streamNonce
    (outputs (writeGroup (sealRecord keys.aead streamNonce) incrementNonce) streamNonce chunks)

def records (done : List (List UInt8)) : List UInt8 :=
  (encodeFrom (sealRecord keys.aead streamNonce) incrementNonce streamNonce done).flatten

/-- A part of the nonce, or the nonce, some records and a part of the next. -/
def V2Holds (received : List UInt8) (crypto : ControlCrypto) (raw text : List UInt8) : Prop :=
  (received.length < nonceLen ∧ crypto = .v2 {} ∧ raw = received ∧ text = []) ∨
    ∃ done later, chunks.flatten = done ++ later ∧ received = streamNonce ++ (records keys streamNonce done ++ raw) ∧
      crypto = .v2 ⟨some streamNonce, stateAfter incrementNonce done.length streamNonce⟩ ∧ text = done.flatten ∧
      Unfinished (sealRecord keys.aead streamNonce (stateAfter incrementNonce done.length streamNonce)) later raw

variable {keys streamNonce chunks}

theorem prefix_v2 {received : List UInt8} (arrived : received <+: (v2Pieces keys streamNonce chunks).flatten) :
    received <+: streamNonce ++ records keys streamNonce chunks.flatten := by
  rw [records, ← flatten_outputs_writeGroup]
  exact arrived.trans (withHeader_flatten_isPrefix _ _)

theorem records_append (done found : List (List UInt8)) :
    records keys streamNonce (done ++ found) =
      records keys streamNonce done ++
        (encodeFrom (sealRecord keys.aead streamNonce) incrementNonce
          (stateAfter incrementNonce done.length streamNonce) found).flatten := by
  rw [records, encodeFrom_append, List.flatten_append, records]

theorem openAll_front {nonce : List UInt8} {items : List (List UInt8)} {input : List UInt8}
    (valid : ∀ chunk ∈ items, IsChunk chunk)
    (arrived : input <+: (encodeFrom (sealRecord keys.aead streamNonce) incrementNonce nonce items).flatten) :
    ∃ done later rest, items = done ++ later ∧
      input = (encodeFrom (sealRecord keys.aead streamNonce) incrementNonce nonce done).flatten ++ rest ∧
      drainFrom (openRecord keys.aead streamNonce) incrementNonce (input.length + 1) nonce input =
        some (done, stateAfter incrementNonce done.length nonce, rest) ∧
      Unfinished (sealRecord keys.aead streamNonce (stateAfter incrementNonce done.length nonce)) later rest := by
  have front := drainFrom_front (recognises_openRecord keys.aead streamNonce) (fun _ => rfl) valid arrived
    (Nat.lt_succ_self _)
  simpa only [List.map_id] using front

theorem length_flatten_le_records {nonce : List UInt8} (done : List (List UInt8)) :
    done.flatten.length ≤ (encodeFrom (sealRecord keys.aead streamNonce) incrementNonce nonce done).flatten.length := by
  induction done generalizing nonce with
  | nil => exact Nat.le_refl _
  | cons chunk done ih =>
    have recursive := @ih (incrementNonce nonce)
    have sealed := keys.aead.length_encrypt nonce (streamNonce ++ recordHeader chunk) chunk
    rw [List.flatten_cons, encodeFrom, List.flatten_cons, List.length_append, List.length_append, sealRecord,
      List.length_append, sealed]
    omega

theorem openAll_started {nonce : List UInt8} {items : List (List UInt8)} {input : List UInt8}
    (valid : ∀ chunk ∈ items, IsChunk chunk)
    (arrived : input <+: (encodeFrom (sealRecord keys.aead streamNonce) incrementNonce nonce items).flatten) :
    ∃ done later rest, items = done ++ later ∧
      input = (encodeFrom (sealRecord keys.aead streamNonce) incrementNonce nonce done).flatten ++ rest ∧
      AeadReader.openAll keys.aead ⟨some streamNonce, nonce⟩ input =
        some (⟨some streamNonce, stateAfter incrementNonce done.length nonce⟩, rest, done.flatten) ∧
      Unfinished (sealRecord keys.aead streamNonce (stateAfter incrementNonce done.length nonce)) later rest ∧
      done.flatten.length ≤ input.length := by
  obtain ⟨done, later, rest, split, isInput, drained, unfinished⟩ := openAll_front valid arrived
  refine ⟨done, later, rest, split, isInput, ?_, unfinished, ?_⟩
  · simp only [AeadReader.openAll, AeadReader.start, drained, Option.map_some]
  · have shorter := @length_flatten_le_records keys streamNonce nonce done
    rw [isInput, List.length_append]
    omega

theorem openAll_nonce (isNonce : streamNonce.length = nonceLen) (body : List UInt8) :
    AeadReader.openAll keys.aead {} (streamNonce ++ body) =
      AeadReader.openAll keys.aead ⟨some streamNonce, streamNonce⟩ body := by
  have long : ¬(streamNonce ++ body).length < nonceLen := by
    rw [List.length_append]
    omega
  simp only [AeadReader.openAll, AeadReader.start, if_neg long, List.take_left' isNonce, List.drop_left' isNonce]

theorem V2Holds.step (isNonce : streamNonce.length = nonceLen) (valid : ∀ chunk ∈ chunks.flatten, IsChunk chunk)
    {received raw text more : List UInt8} {crypto : ControlCrypto}
    (holds : V2Holds keys streamNonce chunks received crypto raw text)
    (arrived : received ++ more <+: (v2Pieces keys streamNonce chunks).flatten) :
    ∃ after kept found, crypto.decrypt keys (raw ++ more) = some (after, kept, found) ∧
      V2Holds keys streamNonce chunks (received ++ more) after kept (text ++ found) ∧
      found.length ≤ (raw ++ more).length := by
  have inStream := prefix_v2 arrived
  rcases holds with ⟨-, rfl, rfl, rfl⟩ | ⟨done, later, split, rfl, rfl, rfl, unfinished⟩
  · by_cases short : (raw ++ more).length < nonceLen
    · refine ⟨.v2 {}, raw ++ more, [], ?_, .inl ⟨short, rfl, rfl, rfl⟩, Nat.zero_le _⟩
      simp only [ControlCrypto.decrypt, AeadReader.openAll, AeadReader.start, if_pos short, Option.map_some]
    · have isFront : streamNonce <+: raw ++ more :=
        List.prefix_of_prefix_length_le (List.prefix_append _ _) inStream (by omega)
      obtain ⟨body, isBody⟩ := isFront
      rw [← isBody, List.prefix_append_right_inj, records] at inStream
      obtain ⟨done, later, rest, split, rfl, opened, unfinished, shorter⟩ := openAll_started valid inStream
      refine ⟨_, _, _, ?_, .inr ⟨done, later, split, isBody.symm, rfl, rfl, unfinished⟩, ?_⟩
      · rw [ControlCrypto.decrypt, ← isBody, openAll_nonce isNonce, opened, Option.map_some]
      · rw [← isBody, List.length_append]
        exact shorter.trans (Nat.le_add_left _ _)
  · rw [List.append_assoc, List.prefix_append_right_inj, List.append_assoc, split, records_append,
      List.prefix_append_right_inj] at inStream
    have validLater : ∀ chunk ∈ later, IsChunk chunk := by
      intro chunk member
      exact valid chunk (split ▸ List.mem_append_right _ member)
    obtain ⟨found, last, rest, splitLater, isInput, opened, unfinished, shorter⟩ := openAll_started validLater inStream
    have sameNonce : stateAfter incrementNonce found.length (stateAfter incrementNonce done.length streamNonce) =
        stateAfter incrementNonce (done ++ found).length streamNonce := by
      rw [List.length_append, stateAfter_add]
    rw [sameNonce] at opened unfinished
    refine ⟨_, _, _, ?_, .inr ⟨done ++ found, last, ?_, ?_, rfl, List.flatten_append.symm, unfinished⟩, shorter⟩
    · rw [ControlCrypto.decrypt, opened, Option.map_some]
    · rw [split, splitLater, List.append_assoc]
    · rw [records_append, List.append_assoc, List.append_assoc, List.append_assoc, isInput]

theorem V2Holds.counts (isNonce : streamNonce.length = nonceLen) (valid : ∀ chunk ∈ chunks.flatten, IsChunk chunk)
    (someChunk : ∀ group ∈ chunks, group ≠ []) {received raw text : List UInt8} {crypto : ControlCrypto}
    (holds : V2Holds keys streamNonce chunks received crypto raw text) :
    text <+: (chunks.map List.flatten).flatten ∧
      whole (v2Pieces keys streamNonce chunks) received.length = whole (chunks.map List.flatten) text.length := by
  have nonempty : ∀ piece ∈ chunks.map List.flatten, piece ≠ [] := by
    intro piece member
    obtain ⟨group, isGroup, rfl⟩ := List.mem_map.mp member
    obtain ⟨chunk, rest, rfl⟩ := List.exists_cons_of_ne_nil (someChunk group isGroup)
    have isChunk := valid chunk (List.mem_flatten.mpr ⟨_, isGroup, List.mem_cons_self⟩)
    exact List.append_ne_nil_of_left_ne_nil isChunk.some _
  rcases holds with ⟨short, -, -, rfl⟩ | ⟨done, later, split, rfl, -, rfl, unfinished⟩
  · refine ⟨List.nil_prefix, ?_⟩
    rw [v2Pieces, whole_withHeader_of_lt (isNonce.symm ▸ short), List.length_nil, whole_zero nonempty]
  · constructor
    · rw [← List.flatten_flatten, split, List.flatten_append]
      exact List.prefix_append _ _
    · rw [v2Pieces, List.length_append, whole_withHeader, List.length_append]
      exact whole_outputs_writeGroup (fun chunk member => (valid chunk member).some) split unfinished

variable (keys) in
def v2Deciphering (isNonce : streamNonce.length = nonceLen) (valid : ∀ chunk ∈ chunks.flatten, IsChunk chunk)
    (someChunk : ∀ group ∈ chunks, group ≠ []) :
    Deciphering keys (.v2 {}) (v2Pieces keys streamNonce chunks) (chunks.map List.flatten) where
  Holds := V2Holds keys streamNonce chunks
  initially := .inl ⟨by decide, rfl, rfl, rfl⟩
  isCipher := by
    rintro received crypto raw text (⟨-, rfl, -, -⟩ | ⟨done, later, -, -, rfl, -⟩) <;> exact nofun
  step := V2Holds.step isNonce valid
  counts holds _ := V2Holds.counts isNonce valid someChunk holds
  small := by
    rintro received crypto raw text (⟨short, -, rfl, -⟩ | ⟨done, later, split, -, -, -, unfinished⟩)
    · exact short.trans (by decide)
    · cases later with
      | nil =>
        obtain rfl : raw = [] := unfinished
        decide
      | cons chunk later =>
        have fits := (valid chunk (split ▸ by simp)).fits
        have short := unfinished.1.length_le
        rw [sealRecord, List.length_append, keys.aead.length_encrypt, recordHeader, length_beBytes] at short
        rw [maxPayload] at fits
        rw [maxHeld]
        rw [tagLen] at short
        omega

end V2

end Nfrp.Wire
