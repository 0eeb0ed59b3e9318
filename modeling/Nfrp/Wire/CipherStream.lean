import Nfrp.Wire.Control

/-!
# The cipher stream of the first version

The writer puts its vector in front of what it writes first, and enciphers every write
where the last one ended.  The reader waits for the vector and deciphers every read
where the last one ended, so what it makes of a stream does not depend on how either end
cuts it.
-/

namespace Nfrp.Wire

open Lib

/-- The writing half of a `CryptoStream`; `out` is set up by the first write. -/
structure CryptoWriter where
  out : Option Cfb := none
  outIv : Block
  outIvSent : Bool := false

namespace CryptoWriter

variable (encryptBlock : Block → Block)

def encrypt (w : CryptoWriter) (plain : List UInt8) : CryptoWriter × List UInt8 :=
  let cfb := w.out.getD (Cfb.new encryptBlock w.outIv)
  let enciphered := cfb.encrypt plain
  if w.outIvSent then ({ w with out := some enciphered.1 }, enciphered.2)
  else ({ w with out := some enciphered.1, outIvSent := true }, w.outIv.toList ++ enciphered.2)

theorem outputs_sent (cfb : Cfb) (iv : Block) (writes : List (List UInt8)) :
    outputs (encrypt encryptBlock) ⟨some cfb, iv, true⟩ writes = outputs Cfb.encrypt cfb writes := by
  induction writes generalizing cfb with
  | nil => rfl
  | cons plain writes ih =>
    exact congrArg ((cfb.encrypt plain).2 :: ·) (ih (cfb.encrypt plain).1)

theorem outputs_encrypt (iv : Block) (writes : List (List UInt8)) :
    outputs (encrypt encryptBlock) { outIv := iv } writes =
      withHeader iv.toList (outputs Cfb.encrypt (Cfb.new encryptBlock iv) writes) := by
  cases writes with
  | nil => rfl
  | cons plain writes =>
    exact congrArg ((iv.toList ++ ((Cfb.new encryptBlock iv).encrypt plain).2) :: ·)
      (outputs_sent encryptBlock _ iv writes)

end CryptoWriter

/-- A reader with the ciphertext it could not use yet, and the text so far. -/
structure CryptoReading where
  s : CryptoStream := {}
  raw : List UInt8 := []
  text : List UInt8 := []

namespace CryptoReading

variable (encryptBlock : Block → Block)

def read (r : CryptoReading) (chunk : List UInt8) : CryptoReading :=
  let decrypted := r.s.decrypt encryptBlock (r.raw ++ chunk)
  ⟨decrypted.1, decrypted.2.1, r.text ++ decrypted.2.2⟩

def readAll (reads : List (List UInt8)) : CryptoReading :=
  reads.foldl (read encryptBlock) {}

def whole (received : List UInt8) : CryptoReading :=
  read encryptBlock {} received

theorem vector_cases (received : List UInt8) :
    received.length < ivLen ∨ ∃ (iv : Block) (body : List UInt8), received = iv.toList ++ body := by
  by_cases short : received.length < ivLen
  · exact .inl short
  · have long : (received.take ivLen).length = 16 := List.length_take_of_le (Nat.le_of_not_lt short)
    refine .inr ⟨⟨(received.take ivLen).toArray, by rw [List.size_toArray, long]⟩, received.drop ivLen, ?_⟩
    exact (List.take_append_drop ivLen received).symm

theorem whole_short {received : List UInt8} (short : received.length < ivLen) :
    whole encryptBlock received = ⟨{}, received, []⟩ := by
  simp only [whole, read, CryptoStream.decrypt, List.nil_append, dif_pos short]

theorem whole_vector (iv : Block) (body : List UInt8) :
    whole encryptBlock (iv.toList ++ body) =
      ⟨⟨some ((Cfb.new encryptBlock iv).decrypt body).1⟩, [], ((Cfb.new encryptBlock iv).decrypt body).2⟩ := by
  rw [whole, read, List.nil_append, decrypt_iv]
  rfl

theorem read_whole (received chunk : List UInt8) :
    read encryptBlock (whole encryptBlock received) chunk = whole encryptBlock (received ++ chunk) := by
  rcases vector_cases received with short | ⟨iv, body, rfl⟩
  · rw [whole_short encryptBlock short]
    rfl
  · have continued : read encryptBlock
        ⟨⟨some ((Cfb.new encryptBlock iv).decrypt body).1⟩, [], ((Cfb.new encryptBlock iv).decrypt body).2⟩ chunk =
        ⟨⟨some (((Cfb.new encryptBlock iv).decrypt body).1.decrypt chunk).1⟩, [],
          ((Cfb.new encryptBlock iv).decrypt body).2 ++ (((Cfb.new encryptBlock iv).decrypt body).1.decrypt chunk).2⟩ :=
      rfl
    rw [whole_vector, List.append_assoc, whole_vector, continued]
    simp only [Cfb.decrypt, transduce_append]

theorem readAll_eq (reads : List (List UInt8)) : readAll encryptBlock reads = whole encryptBlock reads.flatten := by
  have run : ∀ received, reads.foldl (read encryptBlock) (whole encryptBlock received) =
      whole encryptBlock (received ++ reads.flatten) := by
    induction reads with
    | nil =>
      intro received
      rw [List.flatten_nil, List.append_nil]
      rfl
    | cons chunk reads ih =>
      intro received
      rw [List.foldl_cons, read_whole, ih, List.append_assoc, List.flatten_cons]
  exact run []

end CryptoReading

def written (encryptBlock : Block → Block) (iv : Block) (writes : List (List UInt8)) : List (List UInt8) :=
  outputs (CryptoWriter.encrypt encryptBlock) { outIv := iv } writes

/-- The stream of one writer, for any cut of the text and any cut of the stream. -/
structure Transparent (encryptBlock : Block → Block) (iv : Block) (writes : List (List UInt8)) : Prop where
  /-- The vector stands at the head, and besides it each write gives as many bytes as it has. -/
  vector : ∃ pieces, written encryptBlock iv writes = withHeader iv.toList pieces ∧
    pieces.map List.length = writes.map List.length
  /-- How the text is cut into writes does not show, once there is a write. -/
  uncut : ∀ others, writes ≠ [] → others ≠ [] → others.flatten = writes.flatten →
    (written encryptBlock iv others).flatten = (written encryptBlock iv writes).flatten
  /-- Whatever front of the stream has been read, the text is the front of that length. -/
  front : ∀ reads, reads.flatten <+: (written encryptBlock iv writes).flatten →
    (CryptoReading.readAll encryptBlock reads).text = writes.flatten.take (reads.flatten.length - ivLen)
  /-- When all of it has been read, all of the text is there, and no ciphertext is held. -/
  all : ∀ reads, reads.flatten = (written encryptBlock iv writes).flatten →
    (CryptoReading.readAll encryptBlock reads).text = writes.flatten ∧ (CryptoReading.readAll encryptBlock reads).raw = []

theorem flatten_written (encryptBlock : Block → Block) (iv : Block) {writes : List (List UInt8)} (some : writes ≠ []) :
    (written encryptBlock iv writes).flatten =
      iv.toList ++ ((Cfb.new encryptBlock iv).encrypt writes.flatten).2 := by
  have pieces : outputs Cfb.encrypt (Cfb.new encryptBlock iv) writes ≠ [] := by
    apply List.ne_nil_of_length_pos
    rw [length_outputs]
    exact List.length_pos_iff.mpr some
  rw [written, CryptoWriter.outputs_encrypt, flatten_withHeader _ pieces, flatten_outputs_encrypt]

theorem text_front (encryptBlock : Block → Block) (iv : Block) (writes : List (List UInt8)) {received : List UInt8}
    (arrived : received <+: iv.toList ++ ((Cfb.new encryptBlock iv).encrypt writes.flatten).2) :
    (CryptoReading.whole encryptBlock received).text = writes.flatten.take (received.length - ivLen) := by
  by_cases short : received.length < ivLen
  · rw [CryptoReading.whole_short encryptBlock short, Nat.sub_eq_zero_of_le (Nat.le_of_lt short), List.take_zero]
  · have isVector : iv.toList.length ≤ received.length := by simpa [ivLen] using short
    obtain ⟨body, rfl, inBody⟩ := exists_of_front arrived isVector
    have isText : ((Cfb.new encryptBlock iv).decrypt body).2 <+: writes.flatten := by
      have recovered := Cfb.decrypt_encrypt (Cfb.new encryptBlock iv) writes.flatten
      have decrypted : ((Cfb.new encryptBlock iv).decrypt body).2 <+: (Cfb.decrypt _ _).2 :=
        transduce_front inBody (Cfb.new encryptBlock iv)
      rwa [recovered] at decrypted
    have sameLength : ((Cfb.new encryptBlock iv).decrypt body).2.length = (iv.toList ++ body).length - ivLen := by
      rw [Cfb.decrypt, length_transduce, List.length_append, Vector.length_toList]
      exact (Nat.add_sub_cancel_left _ _).symm
    rw [CryptoReading.whole_vector, ← sameLength]
    exact List.prefix_iff_eq_take.mp isText

theorem transparent (encryptBlock : Block → Block) (iv : Block) (writes : List (List UInt8)) :
    Transparent encryptBlock iv writes where
  vector :=
    ⟨outputs Cfb.encrypt (Cfb.new encryptBlock iv) writes, CryptoWriter.outputs_encrypt encryptBlock iv writes,
      lengths_outputs_encrypt _ _⟩
  uncut others some someOther sameText := by
    rw [flatten_written encryptBlock iv some, flatten_written encryptBlock iv someOther, sameText]
  front reads inStream := by
    rw [CryptoReading.readAll_eq]
    cases writes with
    | nil =>
      have nothing : reads.flatten = [] := List.prefix_nil.mp inStream
      rw [nothing]
      rfl
    | cons plain writes =>
      rw [flatten_written encryptBlock iv (List.cons_ne_nil _ _)] at inStream
      exact text_front encryptBlock iv _ inStream
  all reads allRead := by
    rw [CryptoReading.readAll_eq, allRead]
    cases writes with
    | nil => exact ⟨rfl, rfl⟩
    | cons plain writes =>
      rw [flatten_written encryptBlock iv (List.cons_ne_nil _ _), CryptoReading.whole_vector]
      exact ⟨congrArg Prod.snd (Cfb.decrypt_encrypt (Cfb.new encryptBlock iv) _), rfl⟩

end Nfrp.Wire
