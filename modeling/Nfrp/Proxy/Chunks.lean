import Nfrp.Proxy.Compression

/-!
# Chunks in pieces

However the compressed stream is cut on its way, it is decoded to the same text.
A block that cannot be decompressed is left out, and checksums go unread.
-/

namespace Nfrp

open Lib Nfrp.Snappy

namespace Snappy

variable {decompressVec : List UInt8 → Option (List UInt8)}

/-- Where the length of a body matters, nothing is said before all of it is there. -/
theorem parseBody_keeps {ctype : UInt8} {clen : Nat} {body : List UInt8}
    (found : parseBody decompressVec ctype clen body ≠ .incomplete) (more : List UInt8) :
    parseBody decompressVec ctype clen (body ++ more) = parseBody decompressVec ctype clen body := by
  by_cases short : body.length < clen
  · unfold parseBody at found ⊢
    by_cases isId : ctype = 0xff
    · rw [if_pos isId, if_pos short] at found
      exact absurd rfl found
    · rw [if_neg isId] at found
      rw [if_neg isId, if_neg isId]
      by_cases isData : ctype = 0x00 ∨ ctype = 0x01
      · rw [if_pos isData] at found
        rw [if_pos isData, if_pos isData]
        by_cases outOfRange : clen < 4 ∨ snappyMaxChunk < clen
        · rw [if_pos outOfRange, if_pos outOfRange]
        · rw [if_neg outOfRange, if_pos short] at found
          exact absurd rfl found
      · rw [if_neg isData] at found
        rw [if_neg isData, if_neg isData]
        by_cases skippable : ctype ≤ 0x7f ∨ ctype = 0xfe
        · rw [if_pos skippable, if_pos short] at found
          exact absurd rfl found
        · rw [if_neg skippable, if_neg skippable]
  · have whole : ¬(body ++ more).length < clen := by
      rw [List.length_append]
      omega
    have sameFront : (body ++ more).take clen = body.take clen :=
      List.take_append_of_le_length (Nat.le_of_not_lt short)
    simp only [parseBody, if_neg short, if_neg whole, sameFront]

theorem parseBody_length {ctype : UInt8} {clen length : Nat} {body text : List UInt8}
    (item : parseBody decompressVec ctype clen body = .item text length) :
    length = 4 + clen ∧ clen ≤ body.length := by
  unfold parseBody at item
  split_ifs at item
  all_goals cases item
  all_goals exact ⟨rfl, Nat.le_of_not_lt ‹¬body.length < clen›⟩

theorem settled : Settled (parseChunk decompressVec) where
  advances := by
    intro input text length item
    match input with
    | ctype :: len0 :: len1 :: len2 :: body =>
      obtain ⟨rfl, inBody⟩ := parseBody_length item
      simp only [List.length_cons]
      omega
  keeps := by
    intro input found more
    match input with
    | [] | [_] | [_, _] | [_, _, _] => exact absurd rfl found
    | ctype :: len0 :: len1 :: len2 :: body => exact parseBody_keeps found more

theorem decodeAvailable_eq (inbuf : List UInt8) :
    decodeAvailable decompressVec inbuf =
      ((drainAll (parseChunk decompressVec) inbuf).1.flatten, (drainAll (parseChunk decompressVec) inbuf).2) :=
  rfl

theorem decodeAvailable_chunk {chunk : Chunk} (sized : chunk.Sized) (rest : List UInt8) :
    decodeAvailable decompressVec (chunk.encode ++ rest) =
      (chunk.contents decompressVec ++ (decodeAvailable decompressVec rest).1,
        (decodeAvailable decompressVec rest).2) := by
  have whole : parseChunk decompressVec (chunk.encode ++ rest) = _ := Chunk.parseChunk_whole sized rest
  rw [decodeAvailable_eq, settled.drainAll_item whole, List.drop_left]
  rfl

/-- One bit of the division by the polynomial of CRC-32C, lowest bit first. -/
def crcStep (crc : UInt32) : UInt32 :=
  if crc &&& 1 = 1 then (crc >>> 1) ^^^ 0x82f63b78 else crc >>> 1

def crc32c (data : List UInt8) : UInt32 :=
  data.foldl (fun crc byte => crcStep^[8] (crc ^^^ byte.toUInt32)) 0xffffffff ^^^ 0xffffffff

example : crc32c [0x31, 0x32, 0x33, 0x34, 0x35, 0x36, 0x37, 0x38, 0x39] = 0xe3069283 := by decide +kernel

/-- The four bytes in front of a block: the checksum of its text, rotated and shifted. -/
def checksum (data : List UInt8) : List UInt8 :=
  let crc := crc32c data
  leBytes 4 (((crc >>> 15) ||| (crc <<< 17)) + 0xa282ead8).toNat

/-- The block does not decompress, or not to a text of that checksum. -/
def Chunk.Corrupt (decompressVec : List UInt8 → Option (List UInt8)) : Chunk → Prop
  | .streamId => False
  | .compressed crc payload => ∀ data ∈ decompressVec payload, crc ≠ checksum data
  | .uncompressed crc data => crc ≠ checksum data

/-- A block that was changed on its way is passed like any other. -/
theorem not_breaks_of_corrupt :
    ¬∀ (decompressVec : List UInt8 → Option (List UInt8)) (chunk : Chunk), chunk.Sized →
      chunk.Corrupt decompressVec → Breaks (parseChunk decompressVec) chunk.encode := by
  intro reported
  have corrupt : [0, 0, 0, 0] ≠ checksum [0x61] := by decide +kernel
  have breaks := reported (fun _ => none) (.uncompressed [0, 0, 0, 0] [0x61]) ⟨rfl, by decide⟩ corrupt
  have passed : parseChunk (fun _ => none) (Chunk.uncompressed [0, 0, 0, 0] [0x61]).encode = .item [0x61] 9 := rfl
  exact (breaks.behind passed).not_incomplete rfl

end Snappy

namespace CompState

variable {σ : Type} (snap : Snap σ)

/-- Decoding what was held and a piece ends at a chunk that cannot be. -/
def GivesUp (c : CompState σ) (piece : List UInt8) : Prop :=
  Breaks (parseChunk snap.decompressVec) (c.inbuf ++ piece)

def decodeEach (c : CompState σ) (pieces : List (List UInt8)) : CompState σ × List UInt8 :=
  ((transduce (decode snap) c pieces).1, (transduce (decode snap) c pieces).2.flatten)

variable {snap}

theorem decodeEach_eq (c : CompState σ) (pieces : List (List UInt8)) :
    c.decodeEach snap pieces =
      ({ c with inbuf := (transduce (absorb (parseChunk snap.decompressVec)) c.inbuf pieces).1 },
        (transduce (absorb (parseChunk snap.decompressVec)) c.inbuf pieces).2.flatten.flatten) := by
  induction pieces generalizing c with
  | nil => rfl
  | cons piece pieces ih =>
    have later := ih (c.decode snap piece).1
    have state := congrArg Prod.fst later
    have text := congrArg (fun found => (c.decode snap piece).2 ++ found.2) later
    refine Prod.ext state (text.trans ?_)
    rw [transduce, List.flatten_cons, List.flatten_append]
    rfl

theorem decode_new (data : List UInt8) :
    (new snap).decode snap data =
      ({ new snap with inbuf := (drainAll (parseChunk snap.decompressVec) data).2 },
        (drainAll (parseChunk snap.decompressVec) data).1.flatten) :=
  rfl

/-- Where one call on the whole stream goes on to the end, so do the calls on its
pieces; the text is the same, and so is what is left, the front of a chunk. -/
theorem decodeEach_whole {pieces : List (List UInt8)} (goesOn : ¬(new snap).GivesUp snap pieces.flatten) :
    (new snap).decodeEach snap pieces = (new snap).decode snap pieces.flatten ∧
      (∀ before piece after, pieces = before ++ piece :: after →
        ¬((new snap).decodeEach snap before).1.GivesUp snap piece) ∧
      parseChunk snap.decompressVec ((new snap).decodeEach snap pieces).1.inbuf = .incomplete ∧
      ((new snap).decodeEach snap pieces).1.inbuf <:+ pieces.flatten := by
  obtain ⟨drained, noneBreaks⟩ := settled.absorb_pieces (rfl : parseChunk snap.decompressVec [] = _) pieces goesOn
  obtain ⟨waits, isEnd⟩ := settled.drainAll_rest goesOn
  have same : (new snap).decodeEach snap pieces = (new snap).decode snap pieces.flatten := by
    rw [decodeEach_eq, decode_new]
    exact congrArg (fun found : List (List UInt8) × List UInt8 =>
      ({ new snap with inbuf := found.2 }, found.1.flatten)) drained
  rw [same]
  refine ⟨rfl, ?_, waits, isEnd⟩
  intro before piece after split
  rw [decodeEach_eq]
  exact noneBreaks before piece after split

/-- Where one call on the whole gives up, a call on some piece is the first to do so,
and up to it the text is the same. -/
theorem decodeEach_givesUp {pieces : List (List UInt8)} (givesUp : (new snap).GivesUp snap pieces.flatten) :
    ∃ before piece after, pieces = before ++ piece :: after ∧ ¬(new snap).GivesUp snap before.flatten ∧
      ((new snap).decodeEach snap before).1.GivesUp snap piece ∧
      (new snap).decodeEach snap (before ++ [piece]) = (new snap).decode snap pieces.flatten := by
  obtain ⟨before, piece, after, split, goesOn, breaks, drained⟩ :=
    settled.absorb_breaks (rfl : parseChunk snap.decompressVec [] = _) pieces givesUp
  refine ⟨before, piece, after, split, goesOn, ?_, ?_⟩
  · rw [decodeEach_eq]
    exact breaks
  · rw [decodeEach_eq, decode_new]
    exact congrArg (fun found : List (List UInt8) × List UInt8 =>
      ({ new snap with inbuf := found.2 }, found.1.flatten)) drained

/-- Decoding is incremental, up to a chunk that makes the decoder give up; a block
counts for what it decompresses to, whatever its checksum. -/
theorem decode_pieces (snap : Snap σ) (pieces : List (List UInt8)) :
    (¬(new snap).GivesUp snap pieces.flatten →
      (new snap).decodeEach snap pieces = (new snap).decode snap pieces.flatten ∧
      (∀ before piece after, pieces = before ++ piece :: after →
        ¬((new snap).decodeEach snap before).1.GivesUp snap piece) ∧
      parseChunk snap.decompressVec ((new snap).decodeEach snap pieces).1.inbuf = .incomplete ∧
      ((new snap).decodeEach snap pieces).1.inbuf <:+ pieces.flatten) ∧
    ((new snap).GivesUp snap pieces.flatten →
      ∃ before piece after, pieces = before ++ piece :: after ∧ ¬(new snap).GivesUp snap before.flatten ∧
        ((new snap).decodeEach snap before).1.GivesUp snap piece ∧
        (new snap).decodeEach snap (before ++ [piece]) = (new snap).decode snap pieces.flatten) ∧
    ∀ chunk : Chunk, chunk.Sized → ∀ rest,
      decodeAvailable snap.decompressVec (chunk.encode ++ rest) =
        (chunk.contents snap.decompressVec ++ (decodeAvailable snap.decompressVec rest).1,
          (decodeAvailable snap.decompressVec rest).2) :=
  ⟨decodeEach_whole, decodeEach_givesUp, fun _ sized rest => decodeAvailable_chunk sized rest⟩

end CompState

end Nfrp
