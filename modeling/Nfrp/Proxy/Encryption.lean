import Mathlib.Logic.Function.Iterate
import Nfrp.Lib.Transducer

/-!
# Encryption

Each direction of an encrypted stream starts with a plain initialisation vector;
everything after it is one ciphertext.  A reader may get the vector in pieces,
and sets up its cipher when the last one is there.
-/

namespace Nfrp

open Lib

/-! ## AES-128-CFB128

The cipher works byte by byte.  Encryption and decryption differ in which side
of a byte is the ciphertext that goes into the feedback register; the state
after a byte is the same on both sides.
-/

abbrev Block := Vector UInt8 16

/-- `encryptBlock` is the block cipher under the key of the stream. -/
structure Cfb where
  encryptBlock : Block → Block
  keystream : Block
  feedback : Block
  /-- How many bytes of the keystream block are used up. -/
  used : Fin 16

namespace Cfb

def new (encryptBlock : Block → Block) (iv : Block) : Cfb where
  encryptBlock := encryptBlock
  keystream := Vector.replicate 16 0
  feedback := iv
  used := 0

/-- The state with the keystream block it needs for the next byte. -/
def refill (c : Cfb) : Cfb :=
  if c.used = 0 then { c with keystream := c.encryptBlock c.feedback } else c

def keystreamByte (c : Cfb) : UInt8 :=
  c.refill.keystream[c.used]

def absorb (c : Cfb) (cipher : UInt8) : Cfb :=
  { c.refill with feedback := c.feedback.set c.used cipher, used := c.used + 1 }

def encryptByte (c : Cfb) (plain : UInt8) : Cfb × UInt8 :=
  let cipher := plain ^^^ c.keystreamByte
  (c.absorb cipher, cipher)

def decryptByte (c : Cfb) (cipher : UInt8) : Cfb × UInt8 :=
  (c.absorb cipher, cipher ^^^ c.keystreamByte)

def encrypt : Cfb → List UInt8 → Cfb × List UInt8 :=
  transduce encryptByte

def decrypt : Cfb → List UInt8 → Cfb × List UInt8 :=
  transduce decryptByte

theorem decryptByte_encryptByte (c : Cfb) (plain : UInt8) :
    c.decryptByte (c.encryptByte plain).2 = ((c.encryptByte plain).1, plain) := by
  simp [decryptByte, encryptByte, UInt8.xor_assoc]

/-- A reader that starts in the state of the writer recovers the text, and ends
in the state of the writer. -/
theorem decrypt_encrypt (c : Cfb) (plain : List UInt8) :
    c.decrypt (c.encrypt plain).2 = ((c.encrypt plain).1, plain) :=
  transduce_undo decryptByte_encryptByte c plain

end Cfb

def ivLen : Nat := 16

def defaultSalt : List UInt8 := [0x66, 0x72, 0x70]

def pbkdf2Iterations : Nat := 64

/-- PBKDF2 with HMAC-SHA1, of which a key takes one block. -/
def deriveKey (hmacSha1 : List UInt8 → List UInt8 → Vector UInt8 20) (token : List UInt8) : Block :=
  let first := hmacSha1 token (defaultSalt ++ [0, 0, 0, 1])
  let iterate : Vector UInt8 20 × Vector UInt8 20 → Vector UInt8 20 × Vector UInt8 20 := fun (block, acc) =>
    let next := hmacSha1 token block.toList
    (next, acc.zipWith (· ^^^ ·) next)
  ((Nat.iterate iterate (pbkdf2Iterations - 1) (first, first)).2.take 16).cast (by decide)

structure EncState where
  /-- `none` until the vector is written. -/
  writeCfb : Option Cfb
  /-- `none` until the vector is read. -/
  readCfb : Option Cfb
  key : Block
  ivBuf : List UInt8
  ivFits : ivBuf.length ≤ ivLen

namespace EncState

-- `aes key` encrypts one block.
variable (aes : Block → Block → Block)

def new (key : Block) : EncState where
  writeCfb := none
  readCfb := none
  key := key
  ivBuf := []
  ivFits := Nat.zero_le _

/-- `iv` is what the random source yields. -/
def encrypt (iv : Block) (e : EncState) (body : List UInt8) : EncState × List UInt8 :=
  match e.writeCfb with
  | some cfb =>
    let encrypted := cfb.encrypt body
    ({ e with writeCfb := some encrypted.1 }, encrypted.2)
  | none =>
    let encrypted := (Cfb.new (aes e.key) iv).encrypt body
    ({ e with writeCfb := some encrypted.1 }, iv.toList ++ encrypted.2)

def gather (e : EncState) (data : List UInt8) : List UInt8 :=
  e.ivBuf ++ data.take (ivLen - e.ivBuf.length)

theorem gather_fits (e : EncState) (data : List UInt8) : (e.gather data).length ≤ ivLen := by
  have fits := e.ivFits
  rw [gather, List.length_append, List.length_take]
  omega

def vector (e : EncState) (data : List UInt8) (complete : ¬ (e.gather data).length < ivLen) : Block :=
  ⟨(e.gather data).toArray, Nat.le_antisymm (e.gather_fits data) (Nat.le_of_not_lt complete)⟩

def decrypt (e : EncState) (data : List UInt8) : EncState × List UInt8 :=
  match e.readCfb with
  | some cfb =>
    let decrypted := cfb.decrypt data
    ({ e with readCfb := some decrypted.1 }, decrypted.2)
  | none =>
    if short : (e.gather data).length < ivLen then
      ({ e with ivBuf := e.gather data, ivFits := e.gather_fits data }, [])
    else
      let decrypted := (Cfb.new (aes e.key) (e.vector data short)).decrypt
        (data.drop (ivLen - e.ivBuf.length))
      ({ e with
          readCfb := some decrypted.1
          ivBuf := e.gather data
          ivFits := e.gather_fits data }, decrypted.2)

def ivMissing (e : EncState) : Nat :=
  match e.readCfb with
  | some _ => 0
  | none => ivLen - e.ivBuf.length

/-- The writer has put out the vector and the ciphertext of `body`, or nothing yet. -/
def Encrypts (e : EncState) (body emitted : List UInt8) : Prop :=
  match e.writeCfb with
  | none => body = [] ∧ emitted = []
  | some cfb => ∃ iv : Block, cfb = ((Cfb.new (aes e.key) iv).encrypt body).1 ∧
      emitted = iv.toList ++ ((Cfb.new (aes e.key) iv).encrypt body).2

/-- The reader has taken in a part of the vector, or the vector and a ciphertext. -/
def Decrypts (e : EncState) (received plain : List UInt8) : Prop :=
  match e.readCfb with
  | none => received = e.ivBuf ∧ received.length < ivLen ∧ plain = []
  | some cfb => ∃ (iv : Block) (cipher : List UInt8), received = iv.toList ++ cipher ∧
      (Cfb.new (aes e.key) iv).decrypt cipher = (cfb, plain)

end EncState

section

variable (aes : Block → Block → Block)

/-- What the writing side has put out, with encryption or without. -/
def Enciphers : (key : Option Block) → Option EncState → (body emitted : List UInt8) → Prop
  | none, none, body, emitted => emitted = body
  | some key, some e, body, emitted => e.key = key ∧ e.Encrypts aes body emitted
  | none, some _, _, _ | some _, none, _, _ => False

/-- What the reading side has taken in, with encryption or without. -/
def Deciphers : (key : Option Block) → Option EncState → (received plain : List UInt8) → Prop
  | none, none, received, plain => plain = received
  | some key, some e, received, plain => e.key = key ∧ e.Decrypts aes received plain
  | none, some _, _, _ | some _, none, _, _ => False

end

variable {aes : Block → Block → Block}

namespace EncState

@[simp]
theorem encrypt_key (iv : Block) (e : EncState) (body : List UInt8) : (e.encrypt aes iv body).1.key = e.key := by
  unfold encrypt
  split <;> rfl

@[simp]
theorem decrypt_key (e : EncState) (data : List UInt8) : (e.decrypt aes data).1.key = e.key := by
  unfold decrypt
  split
  · rfl
  · split <;> rfl

@[simp]
theorem decrypt_writeCfb (e : EncState) (data : List UInt8) :
    (e.decrypt aes data).1.writeCfb = e.writeCfb := by
  unfold decrypt
  split
  · rfl
  · split <;> rfl

theorem Encrypts.encrypt {e : EncState} {body emitted : List UInt8} (encrypts : e.Encrypts aes body emitted)
    (iv : Block) (more : List UInt8) :
    (e.encrypt aes iv more).1.Encrypts aes (body ++ more) (emitted ++ (e.encrypt aes iv more).2) := by
  unfold Encrypts at encrypts
  unfold EncState.encrypt
  split
  next cfb started =>
    simp only [started] at encrypts
    obtain ⟨iv, rfl, rfl⟩ := encrypts
    refine ⟨iv, ?_, ?_⟩
    · rw [Cfb.encrypt, transduce_append]
    · rw [List.append_assoc, Cfb.encrypt, transduce_append]
  next notStarted =>
    simp only [notStarted] at encrypts
    obtain ⟨rfl, rfl⟩ := encrypts
    exact ⟨iv, rfl, rfl⟩

theorem Encrypts.decrypt {e : EncState} {body emitted : List UInt8} (encrypts : e.Encrypts aes body emitted)
    (data : List UInt8) : (e.decrypt aes data).1.Encrypts aes body emitted := by
  unfold Encrypts at encrypts ⊢
  rwa [decrypt_writeCfb, decrypt_key]

theorem Decrypts.encrypt {e : EncState} {received plain : List UInt8} (decrypts : e.Decrypts aes received plain)
    (iv : Block) (body : List UInt8) : (e.encrypt aes iv body).1.Decrypts aes received plain := by
  unfold EncState.encrypt
  split <;> exact decrypts

theorem Decrypts.decrypt {e : EncState} {received plain : List UInt8} (decrypts : e.Decrypts aes received plain)
    (data : List UInt8) :
    (e.decrypt aes data).1.Decrypts aes (received ++ data) (plain ++ (e.decrypt aes data).2) := by
  unfold Decrypts at decrypts
  unfold EncState.decrypt
  split
  next cfb started =>
    simp only [started] at decrypts
    obtain ⟨iv, cipher, rfl, decrypted⟩ := decrypts
    refine ⟨iv, cipher ++ data, List.append_assoc _ _ _, ?_⟩
    rw [Cfb.decrypt] at decrypted ⊢
    rw [transduce_append, decrypted]
  next notStarted =>
    simp only [notStarted] at decrypts
    obtain ⟨rfl, -, rfl⟩ := decrypts
    split
    next short =>
      have all : e.gather data = e.ivBuf ++ data := by
        rw [gather, List.length_append, List.length_take] at short
        rw [gather, List.take_of_length_le (by omega)]
      unfold Decrypts
      simp only [notStarted]
      rw [all] at short
      exact ⟨all.symm, short, rfl⟩
    next complete =>
      refine ⟨e.vector data complete, data.drop (ivLen - e.ivBuf.length), ?_, rfl⟩
      rw [vector, Vector.toList_mk, gather, List.append_assoc, List.take_append_drop]

theorem decrypt_length (e : EncState) (data : List UInt8) :
    (e.decrypt aes data).2.length = data.length - e.ivMissing ∧
      (e.decrypt aes data).1.ivMissing = e.ivMissing - data.length := by
  have gathered : (e.gather data).length = e.ivBuf.length + min (ivLen - e.ivBuf.length) data.length := by
    rw [gather, List.length_append, List.length_take]
  unfold EncState.decrypt ivMissing
  split
  next cfb started => exact ⟨length_transduce _ _, (Nat.zero_sub _).symm⟩
  next notStarted =>
    split
    next short =>
      simp only [notStarted]
      rw [gathered] at short ⊢
      rw [List.length_nil]
      omega
    next complete =>
      rw [gathered] at complete
      refine ⟨(length_transduce _ _).trans List.length_drop, ?_⟩
      have fits := e.ivFits
      simp only
      omega

/-- The reader has a front of what the writer encrypted, and all of it when
everything has arrived. -/
theorem Decrypts.front {writer reader : EncState} {body emitted received plain : List UInt8}
    (decrypts : reader.Decrypts aes received plain) (encrypts : writer.Encrypts aes body emitted)
    (sameKey : reader.key = writer.key) (arrived : received <+: emitted) :
    plain <+: body ∧ (received = emitted → plain = body) := by
  unfold Decrypts at decrypts
  split at decrypts
  next notStarted =>
    obtain ⟨-, short, rfl⟩ := decrypts
    refine ⟨List.nil_prefix, ?_⟩
    rintro rfl
    unfold Encrypts at encrypts
    split at encrypts
    · exact encrypts.1.symm
    · obtain ⟨iv, -, rfl⟩ := encrypts
      rw [List.length_append, Vector.length_toList] at short
      exact absurd short (Nat.not_lt_of_le (Nat.le_add_right _ _))
  next cfb started =>
    obtain ⟨iv, cipher, rfl, decrypted⟩ := decrypts
    unfold Encrypts at encrypts
    split at encrypts
    · rw [encrypts.2, List.prefix_nil, List.append_eq_nil_iff] at arrived
      have noVector := congrArg List.length arrived.1
      rw [Vector.length_toList] at noVector
      exact absurd noVector (by decide)
    · obtain ⟨written, -, rfl⟩ := encrypts
      have sameVector : iv.toList = written.toList := by
        have isFront := (List.prefix_append iv.toList cipher).trans arrived
        exact (List.prefix_of_prefix_length_le isFront (List.prefix_append _ _) (by simp)).eq_of_length (by simp)
      obtain rfl : iv = written := Vector.toList_inj.mp sameVector
      rw [List.prefix_append_right_inj] at arrived
      rw [sameKey] at decrypted
      generalize Cfb.new (aes writer.key) iv = start at *
      -- The ciphertext that has arrived is that of a front of the body.
      have isFront : cipher = (start.encrypt (body.take cipher.length)).2 := by
        have shorter := arrived.length_le
        rw [Cfb.encrypt, length_transduce] at shorter
        refine (List.prefix_of_prefix_length_le arrived (transduce_front (List.take_prefix _ _) start) ?_).eq_of_length ?_
        all_goals
          rw [length_transduce, List.length_take]
          omega
      have plainText : plain = body.take cipher.length := by
        rw [isFront, Cfb.decrypt_encrypt] at decrypted
        exact (congrArg Prod.snd decrypted).symm
      subst plainText
      refine ⟨List.take_prefix _ _, ?_⟩
      intro all
      have sameLength := congrArg List.length (List.append_cancel_left all)
      rw [Cfb.encrypt, length_transduce] at sameLength
      rw [sameLength, List.take_length]

end EncState

theorem Enciphers.encrypt {key : Option Block} {enc : Option EncState} {body emitted : List UInt8}
    (enciphers : Enciphers aes key enc body emitted) (iv : Block) (more : List UInt8) :
    Enciphers aes key (through (EncState.encrypt aes iv) enc more).1 (body ++ more)
      (emitted ++ (through (EncState.encrypt aes iv) enc more).2) := by
  match key, enc with
  | none, none => exact congrArg (· ++ more) enciphers
  | some key, some e => exact ⟨(EncState.encrypt_key _ _ _).trans enciphers.1, enciphers.2.encrypt iv more⟩

theorem Enciphers.decrypt {key : Option Block} {enc : Option EncState} {body emitted : List UInt8}
    (enciphers : Enciphers aes key enc body emitted) (data : List UInt8) :
    Enciphers aes key (through (EncState.decrypt aes) enc data).1 body emitted := by
  match key, enc with
  | none, none => exact enciphers
  | some key, some e => exact ⟨(EncState.decrypt_key _ _).trans enciphers.1, enciphers.2.decrypt data⟩

theorem Deciphers.encrypt {key : Option Block} {enc : Option EncState} {received plain : List UInt8}
    (deciphers : Deciphers aes key enc received plain) (iv : Block) (body : List UInt8) :
    Deciphers aes key (through (EncState.encrypt aes iv) enc body).1 received plain := by
  match key, enc with
  | none, none => exact deciphers
  | some key, some e => exact ⟨(EncState.encrypt_key _ _ _).trans deciphers.1, deciphers.2.encrypt iv body⟩

theorem Deciphers.decrypt {key : Option Block} {enc : Option EncState} {received plain : List UInt8}
    (deciphers : Deciphers aes key enc received plain) (data : List UInt8) :
    Deciphers aes key (through (EncState.decrypt aes) enc data).1 (received ++ data)
      (plain ++ (through (EncState.decrypt aes) enc data).2) := by
  match key, enc with
  | none, none => exact congrArg (· ++ data) deciphers
  | some key, some e => exact ⟨(EncState.decrypt_key _ _).trans deciphers.1, deciphers.2.decrypt data⟩

theorem Deciphers.front {key : Option Block} {writer reader : Option EncState}
    {body emitted received plain : List UInt8} (deciphers : Deciphers aes key reader received plain)
    (enciphers : Enciphers aes key writer body emitted) (arrived : received <+: emitted) :
    plain <+: body ∧ (received = emitted → plain = body) := by
  match key, writer, reader with
  | none, none, none =>
    obtain rfl : plain = received := deciphers
    obtain rfl : emitted = body := enciphers
    exact ⟨arrived, id⟩
  | some key, some writer, some reader =>
    exact deciphers.2.front enciphers.2 (deciphers.1.trans enciphers.1.symm) arrived

end Nfrp
