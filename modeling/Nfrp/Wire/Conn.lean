import Nfrp.Server.Work
import Nfrp.Wire.Control

/-!
# Receiving control messages

A connection is in clear until the last message of the login is there; then it is
switched to its cipher, and what was read too far is ciphertext.  The first version
leaves that to the next read, and the second deciphers it at once.
-/

namespace Nfrp.Wire

open Lib

def maxBuffer : Nat := 8 * 1024 * 1024

def maxPlain : Nat := 8 * 1024 * 1024

def fillLen : Nat := 16 * 1024

def take : WireVersion → List UInt8 → Parsed Frame
  | .v1 => takeMsg
  | .v2 => takeFrame

def encode : WireVersion → Frame → List UInt8
  | .v1 => encodeMsg
  | .v2 => encodeFrame

def Valid : WireVersion → Frame → Prop
  | .v1 => IsMsg
  | .v2 => IsFrame

theorem recognises_take (version : WireVersion) : Recognises (take version) (encode version) id (Valid version) := by
  cases version with
  | v1 => exact recognises_takeMsg
  | v2 => exact recognises_takeFrame

theorem length_encode_le {version : WireVersion} {f : Frame} (valid : Valid version f) :
    (encode version f).length ≤ 65544 := by
  cases version with
  | v1 =>
    have short := valid.short
    rw [defaultMaxMsgLength] at short
    rw [encode, encodeMsg, List.length_append, msgHeader, List.length_cons, length_beBytes]
    omega
  | v2 =>
    have short := valid.short
    rw [maxFramePayload] at short
    rw [encode, encodeFrame, List.length_append, length_frameHeader]
    omega

structure Codec (Message Extension : Type) where
  decode : (typeId : Nat) → List UInt8 → Option Message
  decodeUdpBinary : List UInt8 → Option Message
  /-- Of an unknown version or kind, nothing. -/
  decodeNLink : List UInt8 → Option (Option Extension)

inductive ConnEvent (Message Extension : Type) where
  | msg (m : Message)
  | nlink (f : Extension)

structure Settings where
  v1UdpBinary : Bool := false
  nlink : Bool := false

def v2FrameType : Nat := 0x4e

def v1TypeByte : Nat := 0x7f

def frameMessage : Nat := 16

def typeUdpPacketBinary : Nat := 19

def typeUdpPacket : Nat := 0x75

section Events

variable {Message Extension : Type} (codec : Codec Message Extension)

def nlinkEvent (settings : Settings) (payload : List UInt8) : Option (Option (ConnEvent Message Extension)) :=
  if settings.nlink then (codec.decodeNLink payload).map (Option.map .nlink) else none

/-- The event of a frame, or none where it is skipped; nothing is an error. -/
def eventOf : WireVersion → Settings → Frame → Option (Option (ConnEvent Message Extension))
  | .v2, settings, f =>
    if f.kind = v2FrameType then nlinkEvent codec settings f.payload
    else if f.kind ≠ frameMessage then some none
    else if f.payload.length < 2 then none
    else
      let typeId := ofBeBytes (f.payload.take 2)
      let message :=
        if typeId = typeUdpPacketBinary then codec.decodeUdpBinary (f.payload.drop 2)
        else codec.decode typeId (f.payload.drop 2)
      message.map fun m => some (.msg m)
  | .v1, settings, f =>
    if f.kind = v1TypeByte then nlinkEvent codec settings f.payload
    else
      (typeId (UInt8.ofNat f.kind)).bind fun id =>
        let message :=
          if settings.v1UdpBinary ∧ f.kind = typeUdpPacket then codec.decodeUdpBinary f.payload
          else codec.decode id f.payload
        message.map fun m => some (.msg m)

end Events

structure FrpConn where
  version : WireVersion
  raw : List UInt8 := []
  plain : List UInt8 := []
  crypto : ControlCrypto := .none
  settings : Settings := {}

namespace FrpConn

variable (keys : Keys)

def decryptRawIntoPlain (conn : FrpConn) : Option FrpConn :=
  match conn.crypto with
  | .none => some conn
  | crypto =>
    (crypto.decrypt keys conn.raw).bind fun decrypted =>
      if maxPlain < conn.plain.length + decrypted.2.2.length then none
      else
        some { conn with crypto := decrypted.1, raw := decrypted.2.1, plain := conn.plain ++ decrypted.2.2 }

def fill (conn : FrpConn) (chunk : List UInt8) : Option FrpConn :=
  if maxBuffer < conn.raw.length + chunk.length then none
  else decryptRawIntoPlain keys { conn with raw := conn.raw ++ chunk }

def enableV1Crypto (conn : FrpConn) : Option FrpConn :=
  if conn.version ≠ .v1 then none else some { conn with crypto := .v1 {} }

def upgrade (conn : FrpConn) : Option FrpConn :=
  if conn.version ≠ .v2 then none else decryptRawIntoPlain keys { conn with crypto := .v2 {} }

def switch (settings : Settings) (conn : FrpConn) : Option FrpConn :=
  match conn.version with
  | .v1 => conn.enableV1Crypto.map fun conn => { conn with settings }
  | .v2 => (conn.upgrade keys).map fun conn => { conn with settings }

def isEncrypted (conn : FrpConn) : Bool :=
  match conn.crypto with
  | .none => false
  | _ => true

def readBuf (conn : FrpConn) : List UInt8 :=
  if conn.isEncrypted then conn.plain else conn.raw

def consume (conn : FrpConn) (length : Nat) : FrpConn :=
  if conn.isEncrypted then { conn with plain := conn.plain.drop length }
  else { conn with raw := conn.raw.drop length }

end FrpConn

/-- A connection and who receives from it: how many frames of the login are still to
come, and what came. -/
structure Receiver (Message Extension : Type) where
  conn : FrpConn
  left : Nat
  got : List (ConnEvent Message Extension) := []

namespace Receiver

variable {Message Extension : Type} (keys : Keys) (codec : Codec Message Extension) (agreed : Settings)

/-- One round of `recv_event`; none where a read has to come first. -/
def recv (r : Receiver Message Extension) : Option (Option (Receiver Message Extension)) :=
  match take r.conn.version r.conn.readBuf with
  | .incomplete => some none
  | .broken => none
  | .item f length =>
    (eventOf codec r.conn.version r.conn.settings f).bind fun event =>
      let taken : Receiver Message Extension :=
        { conn := r.conn.consume length, left := r.left - 1, got := r.got ++ event.toList }
      if r.left = 1 then (taken.conn.switch keys agreed).map fun conn => some { taken with conn }
      else some (some taken)

def pump : Nat → Receiver Message Extension → Option (Receiver Message Extension)
  | 0, r => some r
  | fuel + 1, r =>
    (r.recv keys codec agreed).bind fun
      | none => some r
      | some r => pump fuel r

/-- A read, and everything that can be received after it: each round takes a byte at
least, and the switch turns what is left of them into text. -/
def read (r : Receiver Message Extension) (chunk : List UInt8) : Option (Receiver Message Extension) :=
  (r.conn.fill keys chunk).bind fun conn =>
    pump keys codec agreed (2 * (conn.raw.length + conn.plain.length) + 2) { r with conn }

def readAll (reads : List (List UInt8)) (r : Receiver Message Extension) : Option (Receiver Message Extension) :=
  reads.foldlM (read keys codec agreed) r

end Receiver

end Nfrp.Wire
