import Nfrp.Lib.Bytes
import Nfrp.Lib.Incremental

/-!
# Snappy framing

A compressed stream is a sequence of chunks: a type, a length of three bytes,
and that many bytes.  `decodeAvailable` turns the whole chunks at the front of
what has arrived into plain text; it stops at a chunk that is not all there, and
gives up on one that cannot be.
-/

namespace Nfrp.Snappy

open Lib

def snappyStreamId : List UInt8 := [0x73, 0x4e, 0x61, 0x50, 0x70, 0x59]

def snappyMaxChunk : Nat := 16 * 1024 * 1024

variable (decompressVec : List UInt8 → Option (List UInt8))

/-- What a chunk of type `ctype` and length `clen` is, given what follows its
header.  The checksum is skipped, and so is a block that does not decompress. -/
def parseBody (ctype : UInt8) (clen : Nat) (body : List UInt8) : Parsed (List UInt8) :=
  if ctype = 0xff then
    if body.length < clen then .incomplete
    else if body.take clen ≠ snappyStreamId then .broken
    else .item [] (4 + clen)
  else if ctype = 0x00 ∨ ctype = 0x01 then
    if clen < 4 ∨ snappyMaxChunk < clen then .broken
    else if body.length < clen then .incomplete
    else
      let payload := (body.take clen).drop 4
      .item (if ctype = 0x00 then (decompressVec payload).getD [] else payload) (4 + clen)
  else if ctype ≤ 0x7f ∨ ctype = 0xfe then
    if body.length < clen then .incomplete else .item [] (4 + clen)
  else .broken

def parseChunk : List UInt8 → Parsed (List UInt8)
  | ctype :: len0 :: len1 :: len2 :: body =>
    parseBody decompressVec ctype (ofLeBytes [len0, len1, len2]) body
  | _ => .incomplete

/-- The plain text of the chunks that are all there, and the input left. -/
def decodeAvailable (inbuf : List UInt8) : List UInt8 × List UInt8 :=
  let decoded := drain (parseChunk decompressVec) (inbuf.length + 1) inbuf
  (decoded.1.flatten, decoded.2)

inductive Chunk where
  | streamId
  | compressed (crc payload : List UInt8)
  | uncompressed (crc data : List UInt8)
  deriving DecidableEq, Repr

namespace Chunk

def ctype : Chunk → UInt8
  | .streamId => 0xff
  | .compressed _ _ => 0x00
  | .uncompressed _ _ => 0x01

def body : Chunk → List UInt8
  | .streamId => snappyStreamId
  | .compressed crc payload => crc ++ payload
  | .uncompressed crc data => crc ++ data

def encode (chunk : Chunk) : List UInt8 :=
  chunk.ctype :: (leBytes 3 chunk.body.length ++ chunk.body)

def contents : Chunk → List UInt8
  | .streamId => []
  | .compressed _ payload => (decompressVec payload).getD []
  | .uncompressed _ data => data

/-- A checksum of four bytes, a length that fits its field, and a block that
decompresses. -/
def Valid : Chunk → Prop
  | .streamId => True
  | .compressed crc payload =>
    crc.length = 4 ∧ crc.length + payload.length < 2 ^ 24 ∧ (decompressVec payload).isSome
  | .uncompressed crc data => crc.length = 4 ∧ crc.length + data.length < 2 ^ 24

def Sized : Chunk → Prop
  | .streamId => True
  | .compressed crc payload => crc.length = 4 ∧ crc.length + payload.length < 2 ^ 24
  | .uncompressed crc data => crc.length = 4 ∧ crc.length + data.length < 2 ^ 24

variable {decompressVec}

theorem Valid.sized {chunk : Chunk} (valid : chunk.Valid decompressVec) : chunk.Sized := by
  cases chunk with
  | streamId => exact valid
  | compressed crc payload => exact ⟨valid.1, valid.2.1⟩
  | uncompressed crc data => exact valid

theorem Sized.body_lt {chunk : Chunk} (sized : chunk.Sized) : chunk.body.length < 2 ^ 24 := by
  cases chunk with
  | streamId => decide
  | compressed crc payload =>
    rw [body, List.length_append]
    exact sized.2
  | uncompressed crc data =>
    rw [body, List.length_append]
    exact sized.2

theorem parseChunk_header (ctype : UInt8) {clen : Nat} (fits : clen < 2 ^ 24) (body : List UInt8) :
    parseChunk decompressVec (ctype :: (leBytes 3 clen ++ body)) =
      parseBody decompressVec ctype clen body := by
  have readBack : ofLeBytes (leBytes 3 clen) = clen := by
    rw [ofLeBytes_leBytes]
    exact Nat.mod_eq_of_lt fits
  have spelled : leBytes 3 clen =
      [UInt8.ofNat clen, UInt8.ofNat (clen / 256), UInt8.ofNat (clen / 256 / 256)] := rfl
  rw [spelled] at readBack ⊢
  simp only [List.cons_append, List.nil_append, parseChunk, readBack]

theorem parseBody_streamId (clen : Nat) (arrived : List UInt8) :
    parseBody decompressVec 0xff clen arrived =
      if arrived.length < clen then .incomplete
      else if arrived.take clen ≠ snappyStreamId then .broken
      else .item [] (4 + clen) :=
  if_pos rfl

theorem parseBody_data {ctype : UInt8} (isData : ctype = 0x00 ∨ ctype = 0x01) {crc : List UInt8}
    (four : crc.length = 4) {payload : List UInt8} (fits : (crc ++ payload).length < 2 ^ 24)
    (arrived : List UInt8) :
    parseBody decompressVec ctype (crc ++ payload).length arrived =
      if arrived.length < (crc ++ payload).length then .incomplete
      else
        let found := (arrived.take (crc ++ payload).length).drop 4
        .item (if ctype = 0x00 then (decompressVec found).getD [] else found)
          (4 + (crc ++ payload).length) := by
  have notId : ctype ≠ 0xff := by
    rcases isData with rfl | rfl <;> decide
  have inRange : ¬ ((crc ++ payload).length < 4 ∨ snappyMaxChunk < (crc ++ payload).length) := by
    rw [List.length_append] at fits ⊢
    rw [snappyMaxChunk]
    omega
  rw [parseBody, if_neg notId, if_pos isData, if_neg inRange]

theorem parseBody_whole {chunk : Chunk} (sized : chunk.Sized) (rest : List UInt8) :
    parseBody decompressVec chunk.ctype chunk.body.length (chunk.body ++ rest) =
      .item (chunk.contents decompressVec) (4 + chunk.body.length) := by
  have available : ¬ (chunk.body ++ rest).length < chunk.body.length := by simp
  have fits := sized.body_lt
  cases chunk with
  | streamId =>
    have isId : ¬ (snappyStreamId ++ rest).take snappyStreamId.length ≠ snappyStreamId :=
      not_not.mpr List.take_left
    exact (parseBody_streamId _ _).trans ((if_neg available).trans (if_neg isId))
  | compressed crc payload =>
    obtain ⟨four, -⟩ := sized
    refine (parseBody_data (.inl rfl) four fits _).trans ((if_neg available).trans ?_)
    have found : ((crc ++ payload ++ rest).take (crc ++ payload).length).drop 4 = payload := by
      rw [List.take_left, List.drop_left' four]
    exact congrArg (fun data => Parsed.item ((decompressVec data).getD []) _) found
  | uncompressed crc data =>
    obtain ⟨four, -⟩ := sized
    refine (parseBody_data (.inr rfl) four fits _).trans ((if_neg available).trans ?_)
    have found : ((crc ++ data ++ rest).take (crc ++ data).length).drop 4 = data := by
      rw [List.take_left, List.drop_left' four]
    exact congrArg (fun data => Parsed.item data _) found

theorem parseChunk_whole {chunk : Chunk} (sized : chunk.Sized) (rest : List UInt8) :
    parseChunk decompressVec (chunk.encode ++ rest) =
      .item (chunk.contents decompressVec) chunk.encode.length := by
  rw [encode, List.cons_append, List.append_assoc, parseChunk_header _ sized.body_lt, parseBody_whole sized,
    List.length_cons, List.length_append, length_leBytes]
  congr 1
  omega

theorem parseBody_partly {chunk : Chunk} (valid : chunk.Valid decompressVec) {arrived : List UInt8}
    (short : arrived.length < chunk.body.length) :
    parseBody decompressVec chunk.ctype chunk.body.length arrived = .incomplete := by
  have fits := valid.sized.body_lt
  cases chunk with
  | streamId => exact if_pos short
  | compressed crc payload => exact (parseBody_data (.inl rfl) valid.1 fits _).trans (if_pos short)
  | uncompressed crc data => exact (parseBody_data (.inr rfl) valid.1 fits _).trans (if_pos short)

theorem parseChunk_short {input : List UInt8} (short : input.length < 4) :
    parseChunk decompressVec input = .incomplete := by
  match input with
  | [] => rfl
  | [_] => rfl
  | [_, _] => rfl
  | [_, _, _] => rfl
  | _ :: _ :: _ :: _ :: _ =>
    simp only [List.length_cons] at short
    omega

/-- Chunks are parsed from a stream exactly when they have arrived whole. -/
theorem recognises :
    Recognises (parseChunk decompressVec) encode (contents decompressVec) (Valid decompressVec) where
  nonempty chunk _ := by simp [encode]
  whole chunk rest valid := parseChunk_whole valid.sized rest
  partly chunk input valid arrived notAll := by
    by_cases short : input.length < 4
    · exact parseChunk_short short
    · have spelled : chunk.encode = (chunk.ctype :: leBytes 3 chunk.body.length) ++ chunk.body := rfl
      rw [spelled] at arrived notAll
      have hasHeader : chunk.ctype :: leBytes 3 chunk.body.length <+: input :=
        List.prefix_of_prefix_length_le (List.prefix_append _ _) arrived (by simpa using short)
      obtain ⟨got, rfl⟩ := hasHeader
      rw [List.prefix_append_right_inj] at arrived
      have short : got.length < chunk.body.length := by
        refine lt_of_le_of_ne arrived.length_le ?_
        intro same
        exact notAll (by rw [arrived.eq_of_length same])
      rw [List.cons_append, parseChunk_header _ valid.sized.body_lt, parseBody_partly valid short]

end Chunk

/-- Decoding a front of a stream of chunks: the text of those that have arrived,
and the front of the next one. -/
theorem decodeAvailable_front {chunks : List Chunk} (valid : ∀ chunk ∈ chunks, chunk.Valid decompressVec)
    {inbuf : List UInt8} (arrived : inbuf <+: chunks.flatMap Chunk.encode) :
    ∃ done later rest, chunks = done ++ later ∧ inbuf = done.flatMap Chunk.encode ++ rest ∧
      decodeAvailable decompressVec inbuf = (done.flatMap (Chunk.contents decompressVec), rest) ∧
      Unfinished Chunk.encode later rest := by
  obtain ⟨done, later, rest, split, input, drained, unfinished⟩ :=
    drain_front Chunk.recognises rfl valid arrived (Nat.lt_succ_self _)
  refine ⟨done, later, rest, split, input, ?_, unfinished⟩
  rw [decodeAvailable, drained, List.flatMap_def]

end Nfrp.Snappy
