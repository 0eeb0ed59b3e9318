import Nfrp.Lib.Bytes
import Nfrp.Lib.Incremental

/-!
# Messages and frames

A message of the first version is a type byte, eight bytes of length and a body; a
frame of the second is two bytes of type, two of flags, four of length and a payload.
Both are recognised as soon as they are there, and not before.
-/

namespace Nfrp.Wire

open Lib

/-- A message or a frame; the kind of a message is its type byte. -/
structure Frame where
  kind : Nat
  payload : List UInt8
  deriving DecidableEq, Repr

def typeIds : List (UInt8 × Nat) :=
  [(0x6f, 1), (0x31, 2), (0x70, 3), (0x32, 4), (0x63, 5), (0x77, 6), (0x72, 7), (0x73, 8), (0x76, 9), (0x33, 10),
    (0x68, 11), (0x34, 12), (0x75, 13), (0x69, 14), (0x6e, 15), (0x6d, 16), (0x35, 17), (0x36, 18), (0x5a, 100),
    (0x59, 101), (0x7f, 150)]

def typeId (byte : UInt8) : Option Nat :=
  typeIds.lookup byte

def defaultMaxMsgLength : Nat := 10240

def msgHeader (f : Frame) : List UInt8 :=
  UInt8.ofNat f.kind :: beBytes 8 f.payload.length

def encodeMsg (f : Frame) : List UInt8 :=
  msgHeader f ++ f.payload

def takeMsg : List UInt8 → Parsed Frame
  | [] => .incomplete
  | byte :: rest =>
    if typeId byte = none then .broken
    else if rest.length < 8 then .incomplete
    else
      let len := (BitVec.ofNat 64 (ofBeBytes (rest.take 8))).toInt
      if defaultMaxMsgLength < len ∨ len < 0 then .broken
      else if (rest.drop 8).length < len.toNat then .incomplete
      else .item ⟨byte.toNat, (rest.drop 8).take len.toNat⟩ (9 + len.toNat)

structure IsMsg (f : Frame) : Prop where
  kind : f.kind < 256
  known : typeId (UInt8.ofNat f.kind) ≠ none
  short : f.payload.length ≤ defaultMaxMsgLength

theorem takeMsg_msgHeader {f : Frame} (isMsg : IsMsg f) (after : List UInt8) :
    takeMsg (msgHeader f ++ after) =
      if after.length < f.payload.length then .incomplete
      else .item ⟨f.kind, after.take f.payload.length⟩ (9 + f.payload.length) := by
  have short := isMsg.short
  rw [defaultMaxMsgLength] at short
  have isByte : (UInt8.ofNat f.kind).toNat = f.kind := by
    rw [UInt8.toNat_ofNat']
    exact Nat.mod_eq_of_lt isMsg.kind
  have front : (beBytes 8 f.payload.length ++ after).take 8 = beBytes 8 f.payload.length :=
    List.take_left' (length_beBytes 8 _)
  have behind : (beBytes 8 f.payload.length ++ after).drop 8 = after := List.drop_left' (length_beBytes 8 _)
  have isLength : (BitVec.ofNat 64 (ofBeBytes (beBytes 8 f.payload.length))).toInt = f.payload.length := by
    rw [ofBeBytes_beBytes, Nat.mod_eq_of_lt (by omega), BitVec.toInt_eq_toNat_of_lt]
    · rw [BitVec.toNat_ofNat, Nat.mod_eq_of_lt (by omega)]
    · rw [BitVec.toNat_ofNat, Nat.mod_eq_of_lt (by omega)]
      omega
  have inRange : ¬((defaultMaxMsgLength : Int) < f.payload.length ∨ (f.payload.length : Int) < 0) := by
    rw [defaultMaxMsgLength]
    omega
  rw [msgHeader, List.cons_append, takeMsg, if_neg isMsg.known, if_neg (by simp)]
  simp only [front, behind, isLength, inRange, if_false, Int.toNat_natCast, isByte]

theorem recognises_takeMsg : Recognises takeMsg encodeMsg id IsMsg := by
  refine Recognises.of_header (fun f => List.cons_ne_nil _ _) ?_ ?_ ?_
  · rintro f input isMsg ⟨missing, whole⟩ short
    cases input with
    | nil => rfl
    | cons byte input =>
      obtain ⟨rfl, -⟩ := List.cons.inj whole
      rw [msgHeader, List.length_cons, List.length_cons, length_beBytes] at short
      rw [takeMsg, if_neg isMsg.known, if_pos (Nat.lt_of_succ_lt_succ short)]
  · intro f after isMsg short
    rw [takeMsg_msgHeader isMsg, if_pos short]
  · intro f rest isMsg
    rw [takeMsg_msgHeader isMsg, if_neg (by simp), List.take_left' rfl, List.length_append, msgHeader, List.length_cons,
      length_beBytes]
    rfl

def maxFramePayload : Nat := 64 * 1024

def frameHeader (f : Frame) : List UInt8 :=
  beBytes 2 f.kind ++ (beBytes 2 0 ++ beBytes 4 f.payload.length)

def encodeFrame (f : Frame) : List UInt8 :=
  frameHeader f ++ f.payload

def takeFrame (buf : List UInt8) : Parsed Frame :=
  if buf.length < 8 then .incomplete
  else if ofBeBytes ((buf.drop 2).take 2) ≠ 0 then .broken
  else
    let len := ofBeBytes ((buf.drop 4).take 4)
    if maxFramePayload < len then .broken
    else if buf.length < 8 + len then .incomplete
    else .item ⟨ofBeBytes (buf.take 2), (buf.drop 8).take len⟩ (8 + len)

structure IsFrame (f : Frame) : Prop where
  kind : f.kind < 2 ^ 16
  short : f.payload.length ≤ maxFramePayload

theorem length_frameHeader (f : Frame) : (frameHeader f).length = 8 := by
  simp [frameHeader]

theorem takeFrame_frameHeader {f : Frame} (isFrame : IsFrame f) (after : List UInt8) :
    takeFrame (frameHeader f ++ after) =
      if after.length < f.payload.length then .incomplete
      else .item ⟨f.kind, after.take f.payload.length⟩ (8 + f.payload.length) := by
  have short := isFrame.short
  have isKind := isFrame.kind
  rw [maxFramePayload] at short
  have first : (frameHeader f ++ after).take 2 = beBytes 2 f.kind := by
    rw [frameHeader, List.append_assoc]
    exact List.take_left' (length_beBytes 2 _)
  have afterKind : (frameHeader f ++ after).drop 2 = beBytes 2 0 ++ (beBytes 4 f.payload.length ++ after) := by
    rw [frameHeader, List.append_assoc, List.append_assoc]
    exact List.drop_left' (length_beBytes 2 _)
  have flags : ((frameHeader f ++ after).drop 2).take 2 = beBytes 2 0 := by
    rw [afterKind]
    exact List.take_left' (length_beBytes 2 _)
  have afterFlags : (frameHeader f ++ after).drop 4 = beBytes 4 f.payload.length ++ after := by
    rw [show 4 = 2 + 2 from rfl, ← List.drop_drop, afterKind]
    exact List.drop_left' (length_beBytes 2 _)
  have lengthField : ((frameHeader f ++ after).drop 4).take 4 = beBytes 4 f.payload.length := by
    rw [afterFlags]
    exact List.take_left' (length_beBytes 4 _)
  have behind : (frameHeader f ++ after).drop 8 = after := List.drop_left' (length_frameHeader f)
  have isLength : ofBeBytes (beBytes 4 f.payload.length) = f.payload.length := by
    rw [ofBeBytes_beBytes, Nat.mod_eq_of_lt (by omega)]
  have isType : ofBeBytes (beBytes 2 f.kind) = f.kind := by
    rw [ofBeBytes_beBytes, Nat.mod_eq_of_lt (by omega)]
  have noFlags : ofBeBytes (beBytes 2 0) = 0 := by rw [ofBeBytes_beBytes, Nat.zero_mod]
  have long : ¬(frameHeader f ++ after).length < 8 := by
    rw [List.length_append, length_frameHeader]
    omega
  have inRange : ¬maxFramePayload < f.payload.length := by
    rw [maxFramePayload]
    omega
  have enough : (frameHeader f ++ after).length < 8 + f.payload.length ↔ after.length < f.payload.length := by
    rw [List.length_append, length_frameHeader]
    omega
  rw [takeFrame, if_neg long, flags, if_neg (not_not.mpr noFlags)]
  simp only [lengthField, isLength, inRange, if_false, first, isType, behind]
  exact if_congr enough rfl rfl

theorem recognises_takeFrame : Recognises takeFrame encodeFrame id IsFrame := by
  refine Recognises.of_header (fun f => ?_) ?_ ?_ ?_
  · exact List.ne_nil_of_length_pos (by rw [length_frameHeader]; decide)
  · intro f input _ _ short
    rw [length_frameHeader] at short
    rw [takeFrame, if_pos short]
  · intro f after isFrame short
    rw [takeFrame_frameHeader isFrame, if_pos short]
  · intro f rest isFrame
    rw [takeFrame_frameHeader isFrame, if_neg (by simp), List.take_left' rfl, List.length_append, length_frameHeader]
    rfl

end Nfrp.Wire
