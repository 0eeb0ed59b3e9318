import Nfrp.Proxy.Snappy

/-!
# Compression

The writer turns what it is given into whole chunks.  The reader keeps the front
of a chunk that is not all there, and the text that did not fit the buffer of
its caller.
-/

namespace Nfrp

open Lib Nfrp.Snappy

/-- The frame encoder, which writes into a buffer, and the decompression of a block. -/
structure Snap (σ : Type) where
  encoder : σ
  /-- `write_all` and `flush`, and then the buffer, emptied unless they failed. -/
  writeAndFlush : σ → List UInt8 → σ × Option (List UInt8)
  decompressVec : List UInt8 → Option (List UInt8)

variable {σ : Type}

/-- After a flush the encoder has written whole chunks of all it was given. -/
def Snap.Framed (snap : Snap σ) : Prop :=
  ∀ enc plain, ∃ chunks : List Chunk, (∀ chunk ∈ chunks, chunk.Valid snap.decompressVec) ∧
    (snap.writeAndFlush enc plain).2 = some (chunks.flatMap Chunk.encode) ∧
    chunks.flatMap (Chunk.contents snap.decompressVec) = plain

structure CompState (σ : Type) where
  enc : σ
  /-- What has arrived of chunks that are not all there. -/
  inbuf : List UInt8
  /-- Text that was decoded, handed over up to `outPos`. -/
  out : List UInt8
  outPos : Nat

namespace CompState

def new (snap : Snap σ) : CompState σ where
  enc := snap.encoder
  inbuf := []
  out := []
  outPos := 0

/-- When the encoder fails the text goes through as it is. -/
def compress (snap : Snap σ) (c : CompState σ) (plain : List UInt8) : CompState σ × List UInt8 :=
  let produced := snap.writeAndFlush c.enc plain
  ({ c with enc := produced.1 }, produced.2.getD plain)

def decode (snap : Snap σ) (c : CompState σ) (data : List UInt8) : CompState σ × List UInt8 :=
  let decoded := decodeAvailable snap.decompressVec (c.inbuf ++ data)
  ({ c with inbuf := decoded.2 }, decoded.1)

def undelivered (c : CompState σ) : List UInt8 :=
  c.out.drop c.outPos

def deliver (c : CompState σ) (remaining : Nat) : CompState σ × List UInt8 :=
  let n := min (c.out.length - c.outPos) remaining
  (if c.out.length ≤ c.outPos + n then { c with out := [], outPos := 0 }
    else { c with outPos := c.outPos + n },
    c.undelivered.take n)

def keep (c : CompState σ) (v : List UInt8) (remaining : Nat) : CompState σ :=
  if min v.length remaining < v.length then { c with out := v, outPos := min v.length remaining } else c

/-- What becomes of decrypted bytes: something for the caller, or nothing yet.
Without compression what does not fit the buffer of the caller is not kept. -/
def unpack (snap : Snap σ) (remaining : Nat) (comp : Option (CompState σ)) (data : List UInt8) :
    Option (CompState σ) × Option (List UInt8) :=
  if data = [] then (comp, none)
  else
    match comp with
    | none => (none, some (data.take remaining))
    | some c =>
      let decoded := c.decode snap data
      if decoded.2 = [] then (some decoded.1, none)
      else (some (decoded.1.keep decoded.2 remaining), some (decoded.2.take remaining))

/-- The chunks that have arrived whole were decoded, and the text was handed over
up to what is kept. -/
def Decoded (snap : Snap σ) (c : CompState σ) (chunks : List Chunk) (plain got : List UInt8) : Prop :=
  ∃ done later, chunks = done ++ later ∧ plain = done.flatMap Chunk.encode ++ c.inbuf ∧
    got ++ c.undelivered = done.flatMap (Chunk.contents snap.decompressVec) ∧
    Unfinished Chunk.encode later c.inbuf

end CompState

section

variable (snap : Snap σ)

/-- What the writing side made of the text it accepted, with compression or without. -/
def Packs : (compress : Bool) → Option (CompState σ) → List Chunk → (accepted body : List UInt8) → Prop
  | false, none, _, accepted, body => body = accepted
  | true, some _, chunks, accepted, body =>
    (∀ chunk ∈ chunks, chunk.Valid snap.decompressVec) ∧ body = chunks.flatMap Chunk.encode ∧
      accepted = chunks.flatMap (Chunk.contents snap.decompressVec)
  | false, some _, _, _, _ | true, none, _, _, _ => False

/-- What the reading side made of the text it took in, with compression or without. -/
def Unpacks : (compress : Bool) → Option (CompState σ) → List Chunk → (plain got : List UInt8) → Prop
  | false, none, _, plain, got => got = plain
  | true, some c, chunks, plain, got => c.Decoded snap chunks plain got
  | false, some _, _, _, _ | true, none, _, _, _ => False

end

variable {snap : Snap σ}

namespace CompState

theorem undelivered_deliver (c : CompState σ) (remaining : Nat) :
    (c.deliver remaining).2 ++ (c.deliver remaining).1.undelivered = c.undelivered := by
  unfold deliver
  simp only
  split
  next all =>
    have whole : c.undelivered.length ≤ min (c.out.length - c.outPos) remaining := by
      rw [undelivered, List.length_drop]
      omega
    rw [List.take_of_length_le whole]
    exact List.append_nil _
  next _ =>
    simp only [undelivered]
    rw [← List.drop_drop, List.take_append_drop]

theorem undelivered_keep {c : CompState σ} (nothing : c.undelivered = []) (v : List UInt8)
    (remaining : Nat) : v.take remaining ++ (c.keep v remaining).undelivered = v := by
  unfold keep
  split
  next more =>
    have fits : min v.length remaining = remaining := by omega
    rw [fits]
    exact List.take_append_drop _ _
  next all =>
    rw [nothing, List.append_nil, List.take_of_length_le]
    omega

theorem Decoded.deliver {c : CompState σ} {chunks : List Chunk} {plain got : List UInt8}
    (decoded : c.Decoded snap chunks plain got) (remaining : Nat) :
    (c.deliver remaining).1.Decoded snap chunks plain (got ++ (c.deliver remaining).2) := by
  obtain ⟨done, later, split, arrived, text, unfinished⟩ := decoded
  have sameInbuf : (c.deliver remaining).1.inbuf = c.inbuf := by
    unfold CompState.deliver
    simp only
    split <;> rfl
  rw [← sameInbuf] at arrived unfinished
  refine ⟨done, later, split, arrived, ?_, unfinished⟩
  rw [List.append_assoc, undelivered_deliver, text]

theorem Decoded.decode {c : CompState σ} {chunks : List Chunk} {plain got data : List UInt8}
    (decoded : c.Decoded snap chunks plain got) (valid : ∀ chunk ∈ chunks, chunk.Valid snap.decompressVec)
    (arrived : plain ++ data <+: chunks.flatMap Chunk.encode) (nothing : c.undelivered = [])
    (remaining : Nat) :
    ((c.decode snap data).1.keep (c.decode snap data).2 remaining).Decoded snap chunks (plain ++ data)
      (got ++ (c.decode snap data).2.take remaining) := by
  obtain ⟨done, later, rfl, rfl, text, unfinished⟩ := decoded
  rw [nothing, List.append_nil] at text
  rw [List.flatMap_append, List.append_assoc, List.prefix_append_right_inj] at arrived
  have laterValid : ∀ chunk ∈ later, chunk.Valid snap.decompressVec := fun chunk membership =>
    valid chunk (List.mem_append_right _ membership)
  obtain ⟨more, later, _, rfl, input, result, unfinished⟩ :=
    decodeAvailable_front snap.decompressVec laterValid arrived
  have sameInbuf : ((c.decode snap data).1.keep (c.decode snap data).2 remaining).inbuf =
      (decodeAvailable snap.decompressVec (c.inbuf ++ data)).2 := by
    unfold keep
    split <;> rfl
  have newText : (c.decode snap data).2 = more.flatMap (Chunk.contents snap.decompressVec) :=
    congrArg Prod.fst result
  refine ⟨done ++ more, later, (List.append_assoc _ _ _).symm, ?_, ?_, ?_⟩
  · rw [sameInbuf, result, List.flatMap_append, List.append_assoc, List.append_assoc, ← input]
  · have kept := @undelivered_keep _ (c.decode snap data).1 nothing (c.decode snap data).2 remaining
    rw [List.append_assoc, kept, text, newText, List.flatMap_append]
  · rw [sameInbuf, result]
    exact unfinished

theorem keep_nil (c : CompState σ) (remaining : Nat) : c.keep [] remaining = c :=
  if_neg (by simp)

/-- What was handed over is a front of what the chunks contain, and all of it
when all of them have arrived and nothing is kept. -/
theorem Decoded.front {c : CompState σ} {chunks : List Chunk} {plain got : List UInt8}
    (decoded : c.Decoded snap chunks plain got) :
    got <+: chunks.flatMap (Chunk.contents snap.decompressVec) ∧
      (plain = chunks.flatMap Chunk.encode → c.undelivered = [] →
        got = chunks.flatMap (Chunk.contents snap.decompressVec)) := by
  obtain ⟨done, later, rfl, rfl, text, unfinished⟩ := decoded
  rw [List.flatMap_append, ← text]
  refine ⟨(List.prefix_append _ _).trans (List.prefix_append _ _), ?_⟩
  intro all nothing
  rw [List.flatMap_append, List.append_cancel_left_eq] at all
  obtain ⟨rfl, -⟩ := unfinished.eq_nil all
  rw [nothing, List.append_nil, List.flatMap_nil, List.append_nil]

end CompState

theorem Packs.compress {compress : Bool} {comp : Option (CompState σ)} {chunks : List Chunk}
    {accepted body : List UInt8} (packs : Packs snap compress comp chunks accepted body)
    (framed : snap.Framed) (plain : List UInt8) :
    ∃ more, (∀ chunk ∈ more, chunk.Valid snap.decompressVec) ∧
      Packs snap compress (through (CompState.compress snap) comp plain).1 (chunks ++ more)
        (accepted ++ plain) (body ++ (through (CompState.compress snap) comp plain).2) := by
  match compress, comp with
  | false, none => exact ⟨[], by simp, congrArg (· ++ plain) packs⟩
  | true, some c =>
    obtain ⟨valid, rfl, rfl⟩ := packs
    obtain ⟨more, moreValid, produced, contents⟩ := framed c.enc plain
    refine ⟨more, moreValid, List.forall_mem_append.mpr ⟨valid, moreValid⟩, ?_, ?_⟩
    · rw [List.flatMap_append, through, CompState.compress, produced, Option.getD_some]
    · rw [List.flatMap_append, contents]

theorem Packs.reading {compress : Bool} {c : CompState σ} {chunks : List Chunk} {accepted body : List UInt8}
    (packs : Packs snap compress (some c) chunks accepted body) (c' : CompState σ) :
    Packs snap compress (some c') chunks accepted body := by
  cases compress with
  | false => exact packs
  | true => exact packs

theorem Packs.unpack {compress : Bool} {comp : Option (CompState σ)} {chunks : List Chunk}
    {accepted body : List UInt8} (packs : Packs snap compress comp chunks accepted body) (remaining : Nat)
    (data : List UInt8) :
    Packs snap compress (CompState.unpack snap remaining comp data).1 chunks accepted body := by
  unfold CompState.unpack
  split
  · exact packs
  · cases comp with
    | none => exact packs
    | some c =>
      simp only
      split
      · exact packs.reading _
      · exact packs.reading _

theorem Unpacks.writing {compress : Bool} {comp : Option (CompState σ)} {chunks : List Chunk}
    {plain got : List UInt8} (unpacks : Unpacks snap compress comp chunks plain got) (text : List UInt8) :
    Unpacks snap compress (through (CompState.compress snap) comp text).1 chunks plain got := by
  match compress, comp with
  | false, none => exact unpacks
  | true, some c => exact unpacks

theorem Unpacks.more {compress : Bool} {comp : Option (CompState σ)} {chunks : List Chunk}
    {plain got : List UInt8} (unpacks : Unpacks snap compress comp chunks plain got) {more : List Chunk}
    (valid : ∀ chunk ∈ more, chunk.Valid snap.decompressVec) :
    Unpacks snap compress comp (chunks ++ more) plain got := by
  match compress, comp with
  | false, none => exact unpacks
  | true, some c =>
    obtain ⟨done, later, rfl, arrived, text, unfinished⟩ := unpacks
    refine ⟨done, later ++ more, List.append_assoc _ _ _, arrived, text, ?_⟩
    exact unfinished.append Chunk.recognises valid

/-- Without compression the reading side keeps up as long as the caller has room
for all that was decrypted. -/
theorem Unpacks.unpack {compress : Bool} {writer reader : Option (CompState σ)} {chunks : List Chunk}
    {accepted body plain got data : List UInt8} (unpacks : Unpacks snap compress reader chunks plain got)
    (packs : Packs snap compress writer chunks accepted body) (arrived : plain ++ data <+: body)
    (nothing : ∀ c ∈ reader, c.undelivered = []) {remaining : Nat}
    (fits : reader = none → data.length ≤ remaining) :
    Unpacks snap compress (CompState.unpack snap remaining reader data).1 chunks (plain ++ data)
      (got ++ (CompState.unpack snap remaining reader data).2.getD []) := by
  unfold CompState.unpack
  split
  next noData => simpa only [noData, List.append_nil, Option.getD_none] using unpacks
  · match compress, writer, reader with
    | false, none, none =>
      rw [Option.getD_some, List.take_of_length_le (fits rfl)]
      exact congrArg (· ++ data) unpacks
    | true, some _, some c =>
      obtain ⟨valid, rfl, -⟩ := packs
      have decoded := CompState.Decoded.decode unpacks valid arrived (nothing c rfl) remaining
      simp only
      split
      next noText =>
        rw [noText, CompState.keep_nil, List.take_nil] at decoded
        exact decoded
      · exact decoded

theorem Unpacks.front {compress : Bool} {writer reader : Option (CompState σ)} {chunks : List Chunk}
    {accepted body plain got : List UInt8} (unpacks : Unpacks snap compress reader chunks plain got)
    (packs : Packs snap compress writer chunks accepted body) (arrived : plain <+: body) :
    got <+: accepted ∧
      (plain = body → (∀ c ∈ reader, c.undelivered = []) → got = accepted) := by
  match compress, writer, reader with
  | false, none, none =>
    obtain rfl : got = plain := unpacks
    obtain rfl : body = accepted := packs
    exact ⟨arrived, fun all _ => all⟩
  | true, some _, some c =>
    obtain ⟨valid, rfl, rfl⟩ := packs
    obtain ⟨isFront, allText⟩ := CompState.Decoded.front unpacks
    exact ⟨isFront, fun all nothing => allText all (nothing c rfl)⟩

end Nfrp
