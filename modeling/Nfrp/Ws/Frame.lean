import Nfrp.Lib.Bytes

/-!
# WebSocket frames

Two bytes, then a length of two or eight more where seven bits are not enough,
then the mask of a client, then the payload.  `takeFrame` takes the first frame
off what has arrived, if all of it is there.
-/

namespace Nfrp.Ws

open Lib

def maxFrame : Nat := 16 * 1024 * 1024
def maxControlPayload : Nat := 125

def opCont : UInt8 := 0x0
def opText : UInt8 := 0x1
def opBinary : UInt8 := 0x2
def opClose : UInt8 := 0x8
def opPing : UInt8 := 0x9
def opPong : UInt8 := 0xa

abbrev MaskKey := Vector UInt8 4

def applyMask (key payload : List UInt8) : List UInt8 :=
  payload.mapIdx fun i byte => byte ^^^ key.getD (i % 4) 0

/-- The seven bits of a length, and the bytes that follow them. -/
def lengthField (n : Nat) : Nat × List UInt8 :=
  if n < 126 then (n, []) else if n ≤ 65535 then (126, beBytes 2 n) else (127, beBytes 8 n)

def maskBit (mask : Option MaskKey) : UInt8 :=
  if mask.isSome then 0x80 else 0

def maskedPayload (mask : Option MaskKey) (payload : List UInt8) : List UInt8 :=
  match mask with
  | some key => key.toList ++ applyMask key.toList payload
  | none => payload

/-- `mask` is the random key of a client. -/
def buildFrame (opcode : UInt8) (payload : List UInt8) (mask : Option MaskKey) : List UInt8 :=
  let len := lengthField payload.length
  (0x80 ||| opcode) :: (maskBit mask ||| UInt8.ofNat len.1) :: (len.2 ++ maskedPayload mask payload)

def hex (opcode : UInt8) : String :=
  String.ofList (Nat.toDigits 16 opcode.toNat)

/-- The payload length and what follows it; `none` asks for more input. -/
def readLength (len7 : Nat) (rest : List UInt8) : Except String (Option (Nat × List UInt8)) :=
  if len7 = 126 then
    if rest.length < 2 then .ok none else .ok (some (ofBeBytes (rest.take 2), rest.drop 2))
  else if len7 = 127 then
    if rest.length < 8 then .ok none
    else
      let v := ofBeBytes (rest.take 8)
      if maxFrame < v then .error s!"帧载荷 {v} 超过上限" else .ok (some (v, rest.drop 8))
  else .ok (some (len7, rest))

/-- The payload, unmasked, and what follows it; `none` asks for more input. -/
def readPayload (masked : Bool) (payloadLen : Nat) (rest : List UInt8) : Option (List UInt8 × List UInt8) :=
  if masked then
    if rest.length < 4 + payloadLen then none
    else some (applyMask (rest.take 4) ((rest.drop 4).take payloadLen), rest.drop (4 + payloadLen))
  else
    if rest.length < payloadLen then none else some (rest.take payloadLen, rest.drop payloadLen)

def isControl (opcode : UInt8) : Prop :=
  opcode = opPing ∨ opcode = opPong ∨ opcode = opClose

instance : DecidablePred isControl :=
  fun opcode => inferInstanceAs (Decidable (opcode = opPing ∨ opcode = opPong ∨ opcode = opClose))

def isData (opcode : UInt8) : Prop :=
  opcode = opBinary ∨ opcode = opText ∨ opcode = opCont

instance : DecidablePred isData :=
  fun opcode => inferInstanceAs (Decidable (opcode = opBinary ∨ opcode = opText ∨ opcode = opCont))

structure Taken where
  opcode : UInt8
  fin : Bool
  payload : List UInt8
  /-- The input after the frame. -/
  rest : List UInt8
  deriving DecidableEq, Repr

/-- `none` asks for more input. -/
def takeFrame (buf : List UInt8) (ourRoleIsClient : Bool) : Except String (Option Taken) :=
  match buf with
  | b0 :: b1 :: rest =>
    let fin := b0 &&& 0x80 != 0
    let opcode := b0 &&& 0x0f
    let masked := b1 &&& 0x80 != 0
    if b0 &&& 0x70 ≠ 0 then .error "RSV 位被置位但没有协商扩展"
    else if ourRoleIsClient && masked then .error "服务端发来的帧不该带掩码（RFC 6455 §5.1）"
    else if !ourRoleIsClient && !masked then .error "客户端发来的帧必须带掩码（RFC 6455 §5.1）"
    else
      match readLength (b1 &&& 0x7f).toNat rest with
      | .error message => .error message
      | .ok none => .ok none
      | .ok (some (payloadLen, rest)) =>
        if maxFrame < payloadLen then .error s!"帧载荷 {payloadLen} 超过上限 {maxFrame}"
        else if isControl opcode ∧ maxControlPayload < payloadLen then
          .error s!"控制帧（opcode 0x{hex opcode}）载荷 {payloadLen} 超过 {maxControlPayload} 字节上限（RFC 6455 §5.5）"
        else
          match readPayload masked payloadLen rest with
          | none => .ok none
          | some (payload, rest) => .ok (some ⟨opcode, fin, payload, rest⟩)
  | _ => .ok none

theorem applyMask_applyMask (key payload : List UInt8) : applyMask key (applyMask key payload) = payload := by
  rw [applyMask, applyMask, List.mapIdx_mapIdx]
  refine List.ext_getElem (by simp) ?_
  intro i _ _
  simp [UInt8.xor_assoc]

@[simp]
theorem length_applyMask (key payload : List UInt8) : (applyMask key payload).length = payload.length :=
  List.length_mapIdx

/-- Unless it fails, `takeFrame` reads a length, and then a payload of that length. -/
theorem takeFrame_eq_ok {b0 b1 : UInt8} {rest : List UInt8} {role : Bool} {result : Option Taken}
    (ok : takeFrame (b0 :: b1 :: rest) role = .ok result) :
    (readLength (b1 &&& 0x7f).toNat rest = .ok none ∧ result = none) ∨
    ∃ payloadLen after, payloadLen ≤ maxFrame ∧
      readLength (b1 &&& 0x7f).toNat rest = .ok (some (payloadLen, after)) ∧
      result = (readPayload (b1 &&& 0x80 != 0) payloadLen after).map fun found =>
        ⟨b0 &&& 0x0f, b0 &&& 0x80 != 0, found.1, found.2⟩ := by
  simp only [takeFrame] at ok
  split at ok
  · cases ok
  split at ok
  · cases ok
  split at ok
  · cases ok
  split at ok
  · cases ok
  next length => exact .inl ⟨length, (Except.ok.inj ok).symm⟩
  next payloadLen after length =>
    split at ok
    · cases ok
    next bounded =>
      split at ok
      · cases ok
      refine .inr ⟨payloadLen, after, Nat.le_of_not_lt bounded, length, ?_⟩
      split at ok
      next body =>
        rw [body]
        exact (Except.ok.inj ok).symm
      next body =>
        rw [body]
        exact (Except.ok.inj ok).symm

theorem takeFrame_eq_some {b0 b1 : UInt8} {rest : List UInt8} {role : Bool} {taken : Taken}
    (found : takeFrame (b0 :: b1 :: rest) role = .ok (some taken)) :
    taken.opcode = b0 &&& 0x0f ∧ ∃ payloadLen after, payloadLen ≤ maxFrame ∧
      readLength (b1 &&& 0x7f).toNat rest = .ok (some (payloadLen, after)) ∧
      readPayload (b1 &&& 0x80 != 0) payloadLen after = some (taken.payload, taken.rest) := by
  rcases takeFrame_eq_ok found with ⟨-, nothing⟩ | ⟨payloadLen, after, bounded, length, result⟩
  · cases nothing
  · obtain ⟨⟨payload, left⟩, body, rfl⟩ := Option.map_eq_some_iff.mp result.symm
    exact ⟨rfl, payloadLen, after, bounded, length, body⟩

theorem readLength_front {n : Nat} (fits : n < 2 ^ 64) {arrived later : List UInt8}
    (isFront : arrived <+: (lengthField n).2 ++ later) {found : Nat} {after : List UInt8}
    (read : readLength (lengthField n).1 arrived = .ok (some (found, after))) :
    found = n ∧ arrived = (lengthField n).2 ++ after := by
  unfold lengthField at isFront read ⊢
  split
  next short =>
    have not126 : n ≠ 126 := by omega
    have not127 : n ≠ 127 := by omega
    rw [if_pos short, readLength, if_neg not126, if_neg not127] at read
    obtain ⟨rfl, rfl⟩ := Prod.mk.inj (Option.some.inj (Except.ok.inj read))
    exact ⟨rfl, rfl⟩
  next long =>
    rw [if_neg long] at isFront read
    split
    next word =>
      rw [if_pos word] at isFront read
      rw [readLength, if_pos rfl] at read
      split at read
      · cases read
      next enough =>
        have all : (beBytes 2 n).length ≤ arrived.length := by
          rw [length_beBytes]
          exact Nat.le_of_not_lt enough
        obtain ⟨rest, rfl, -⟩ := exists_of_front isFront all
        rw [List.take_left' (length_beBytes 2 n), List.drop_left' (length_beBytes 2 n), ofBeBytes_beBytes] at read
        obtain ⟨rfl, rfl⟩ := Prod.mk.inj (Option.some.inj (Except.ok.inj read))
        exact ⟨Nat.mod_eq_of_lt (by omega), rfl⟩
    next wide =>
      rw [if_neg wide] at isFront read
      rw [readLength, if_neg (by simp), if_pos rfl] at read
      split at read
      · cases read
      next enough =>
        have all : (beBytes 8 n).length ≤ arrived.length := by
          rw [length_beBytes]
          exact Nat.le_of_not_lt enough
        obtain ⟨rest, rfl, -⟩ := exists_of_front isFront all
        rw [List.take_left' (length_beBytes 8 n), List.drop_left' (length_beBytes 8 n), ofBeBytes_beBytes] at read
        simp only at read
        split at read
        · cases read
        · obtain ⟨rfl, rfl⟩ := Prod.mk.inj (Option.some.inj (Except.ok.inj read))
          exact ⟨Nat.mod_eq_of_lt (by omega), rfl⟩

theorem readPayload_front {mask : Option MaskKey} {payload arrived later : List UInt8}
    (isFront : arrived <+: maskedPayload mask payload ++ later) {found after : List UInt8}
    (read : readPayload mask.isSome payload.length arrived = some (found, after)) :
    found = payload ∧ arrived = maskedPayload mask payload ++ after := by
  cases mask with
  | none =>
    simp only [readPayload, Option.isSome_none, Bool.false_eq_true, if_false] at read
    split at read
    · cases read
    next enough =>
      obtain ⟨rest, rfl, -⟩ := exists_of_front isFront (Nat.le_of_not_lt enough)
      simp only [maskedPayload, List.take_left, List.drop_left] at read
      obtain ⟨rfl, rfl⟩ := Prod.mk.inj (Option.some.inj read)
      exact ⟨rfl, rfl⟩
  | some key =>
    have length : (maskedPayload (some key) payload).length = 4 + payload.length := by
      simp [maskedPayload]
    simp only [readPayload, Option.isSome_some, if_true] at read
    split at read
    · cases read
    next enough =>
      obtain ⟨rest, rfl, -⟩ := exists_of_front isFront (by omega)
      rw [List.drop_left' length] at read
      have four : key.toList.length = 4 := Vector.length_toList
      rw [maskedPayload, List.append_assoc, List.take_left' four, List.drop_left' four,
        List.take_left' (length_applyMask _ _), applyMask_applyMask] at read
      obtain ⟨rfl, rfl⟩ := Prod.mk.inj (Option.some.inj read)
      exact ⟨rfl, rfl⟩

theorem opcode_bits {opcode : UInt8} (isOpcode : opcode < 16) : (0x80 ||| opcode) &&& 0x0f = opcode := by
  have all : ∀ n : Fin 16, (0x80 ||| UInt8.ofNat n) &&& 0x0f = UInt8.ofNat n := by decide
  simpa using all ⟨opcode.toNat, isOpcode⟩

theorem length_bits {len7 : Nat} (fits : len7 < 128) (mask : Option MaskKey) :
    ((maskBit mask ||| UInt8.ofNat len7) &&& 0x7f).toNat = len7 ∧
      ((maskBit mask ||| UInt8.ofNat len7) &&& 0x80 != 0) = mask.isSome := by
  have all : ∀ n : Fin 128, ∀ masked : Bool,
      (((if masked then 0x80 else 0) ||| UInt8.ofNat n) &&& 0x7f).toNat = n ∧
        (((if masked then 0x80 else 0) ||| UInt8.ofNat n) &&& 0x80 != 0) = masked := by decide
  exact all ⟨len7, fits⟩ mask.isSome

theorem lengthField_lt (n : Nat) : (lengthField n).1 < 128 := by
  unfold lengthField
  split
  · omega
  · split <;> simp

/-- What is taken off a front of a stream is its first frame. -/
theorem takeFrame_front {opcode : UInt8} (isOpcode : opcode < 16) {payload : List UInt8}
    (fits : payload.length < 2 ^ 64) {mask : Option MaskKey} {raw later : List UInt8}
    (arrived : raw <+: buildFrame opcode payload mask ++ later) {role : Bool} {taken : Taken}
    (found : takeFrame raw role = .ok (some taken)) :
    raw = buildFrame opcode payload mask ++ taken.rest ∧ taken.opcode = opcode ∧ taken.payload = payload := by
  match raw with
  | [] => cases found
  | [_] => cases found
  | b0 :: b1 :: rest =>
    rw [buildFrame, List.cons_append, List.cons_append, List.cons_prefix_cons, List.cons_prefix_cons,
      List.append_assoc] at arrived
    obtain ⟨rfl, rfl, isFront⟩ := arrived
    obtain ⟨sameOpcode, payloadLen, after, -, length, body⟩ := takeFrame_eq_some found
    obtain ⟨len7, masked⟩ := length_bits (lengthField_lt payload.length) mask
    rw [len7] at length
    rw [masked] at body
    obtain ⟨rfl, rfl⟩ := readLength_front fits isFront length
    rw [List.prefix_append_right_inj] at isFront
    obtain ⟨samePayload, rfl⟩ := readPayload_front isFront body
    refine ⟨?_, sameOpcode.trans (opcode_bits isOpcode), samePayload⟩
    rw [buildFrame, List.cons_append, List.cons_append, List.append_assoc]

theorem readLength_spec {len7 : Nat} {rest : List UInt8} {result : Option (Nat × List UInt8)}
    (read : readLength len7 rest = .ok result) :
    match result with
    | none => rest.length < 8
    | some (_, after) => after.length ≤ rest.length ∧ rest.length ≤ after.length + 8 := by
  unfold readLength at read
  split at read
  · split at read
    · obtain rfl := Except.ok.inj read
      simp only
      omega
    · obtain rfl := Except.ok.inj read
      simp only [List.length_drop]
      omega
  · split at read
    · split at read
      next short =>
        obtain rfl := Except.ok.inj read
        exact short
      next enough =>
        simp only at read
        split at read
        · cases read
        · obtain rfl := Except.ok.inj read
          simp only [List.length_drop]
          omega
    · obtain rfl := Except.ok.inj read
      exact ⟨le_refl _, Nat.le_add_right _ _⟩

theorem readPayload_spec (masked : Bool) (payloadLen : Nat) (rest : List UInt8) :
    match readPayload masked payloadLen rest with
    | none => rest.length < 4 + payloadLen
    | some (payload, after) => payload.length ≤ payloadLen ∧ after.length ≤ rest.length := by
  unfold readPayload
  cases masked with
  | true =>
    simp only [if_true]
    by_cases short : rest.length < 4 + payloadLen
    · rw [if_pos short]
      exact short
    · rw [if_neg short]
      simp only [length_applyMask, List.length_take, List.length_drop]
      omega
  | false =>
    simp only [Bool.false_eq_true, if_false]
    by_cases short : rest.length < payloadLen
    · rw [if_pos short]
      exact Nat.lt_add_left 4 short
    · rw [if_neg short]
      simp only [List.length_take, List.length_drop]
      omega

/-- A reader that wants more has less than the longest frame. -/
theorem length_lt_of_takeFrame {raw : List UInt8} {role : Bool} (more : takeFrame raw role = .ok none) :
    raw.length < maxFrame + 14 := by
  match raw with
  | [] => exact Nat.zero_lt_succ _
  | [_] => exact Nat.succ_lt_succ (Nat.zero_lt_succ _)
  | b0 :: b1 :: rest =>
    rw [List.length_cons, List.length_cons]
    rcases takeFrame_eq_ok more with ⟨length, -⟩ | ⟨payloadLen, after, bounded, length, result⟩
    · have short := readLength_spec length
      simp only at short
      omega
    · obtain ⟨-, header⟩ := readLength_spec length
      have body := readPayload_spec (b1 &&& 0x80 != 0) payloadLen after
      rw [Option.map_eq_none_iff.mp result.symm] at body
      simp only at body
      omega

theorem takeFrame_shorter {raw : List UInt8} {role : Bool} {taken : Taken}
    (found : takeFrame raw role = .ok (some taken)) :
    taken.rest.length < raw.length ∧ taken.payload.length ≤ maxFrame := by
  match raw with
  | [] => cases found
  | [_] => cases found
  | b0 :: b1 :: rest =>
    obtain ⟨-, payloadLen, after, bounded, length, body⟩ := takeFrame_eq_some found
    obtain ⟨header, -⟩ := readLength_spec length
    have payload := readPayload_spec (b1 &&& 0x80 != 0) payloadLen after
    rw [body] at payload
    obtain ⟨inLength, inRest⟩ := payload
    rw [List.length_cons, List.length_cons]
    exact ⟨by omega, inLength.trans bounded⟩

structure Frame where
  opcode : UInt8
  payload : List UInt8
  mask : Option MaskKey
  isOpcode : opcode < 16
  fits : payload.length < 2 ^ 64

def Frame.encode (frame : Frame) : List UInt8 :=
  buildFrame frame.opcode frame.payload frame.mask

def Frame.text (frame : Frame) : List UInt8 :=
  if isData frame.opcode then frame.payload else []

/-- The reading side has gone through the first frames of the stream, and what it
received beyond them is `raw`. -/
def Reads (frames : List Frame) (received raw text : List UInt8) : Prop :=
  ∃ done later, frames = done ++ later ∧ received = done.flatMap Frame.encode ++ raw ∧
    text = done.flatMap Frame.text

namespace Reads

variable {frames : List Frame} {received raw text : List UInt8}

theorem more (reads : Reads frames received raw text) (more : List Frame) :
    Reads (frames ++ more) received raw text := by
  obtain ⟨done, later, rfl, arrived, isText⟩ := reads
  exact ⟨done, later ++ more, List.append_assoc _ _ _, arrived, isText⟩

theorem receive (reads : Reads frames received raw text) (chunk : List UInt8) :
    Reads frames (received ++ chunk) (raw ++ chunk) text := by
  obtain ⟨done, later, split, rfl, isText⟩ := reads
  exact ⟨done, later, split, List.append_assoc _ _ _, isText⟩

theorem takeFrame (reads : Reads frames received raw text) (arrived : received <+: frames.flatMap Frame.encode)
    {role : Bool} {taken : Taken} (found : takeFrame raw role = .ok (some taken)) :
    Reads frames received taken.rest (text ++ if isData taken.opcode then taken.payload else []) := by
  obtain ⟨done, later, rfl, rfl, rfl⟩ := reads
  rw [List.flatMap_append, List.prefix_append_right_inj] at arrived
  cases later with
  | nil =>
    rw [List.flatMap_nil, List.prefix_nil] at arrived
    subst arrived
    cases found
  | cons frame later =>
    obtain ⟨rfl, opcode, payload⟩ := takeFrame_front frame.isOpcode frame.fits arrived found
    refine ⟨done ++ [frame], later, by simp, ?_, ?_⟩
    · rw [List.flatMap_append, List.flatMap_singleton, List.append_assoc]
      rfl
    · rw [List.flatMap_append, List.flatMap_singleton, opcode, payload]
      rfl

theorem isFront (reads : Reads frames received raw text) : text <+: frames.flatMap Frame.text := by
  obtain ⟨done, later, rfl, -, rfl⟩ := reads
  rw [List.flatMap_append]
  exact List.prefix_append _ _

end Reads

end Nfrp.Ws
