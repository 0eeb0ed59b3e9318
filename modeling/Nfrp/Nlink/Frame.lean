import Mathlib.Algebra.Order.BigOperators.Group.List
import Mathlib.Data.UInt
import Nfrp.Nlink.Tokens

/-!
# Extension frames and preambles

Both carry fields of a tag, four bytes of length and a value; fields with unknown tags
are kept.  A frame is read to its end, and a preamble says in two bytes how many bytes of
fields it has.
-/

namespace Nfrp.Nlink

open Lib

structure Tlv where
  tag : UInt16
  value : List UInt8
  deriving DecidableEq, Repr

abbrev TlvMap := List Tlv

def Tlv.bytes (tlv : Tlv) : List UInt8 :=
  beBytes 2 tlv.tag.toNat ++ (beBytes 4 tlv.value.length ++ tlv.value)

namespace TlvMap

/-- What has been written when it returns, and whether it got to the end. -/
def encodeInto (out : List UInt8) : TlvMap → List UInt8 × Except String Unit
  | [] => (out, .ok ())
  | tlv :: items =>
    if 2 ^ 32 - 1 < tlv.value.length then (out, .error "TLV 值过长") else encodeInto (out ++ tlv.bytes) items

/-- The loop of `decode_all`; nothing where an index is out of range. -/
def decodeFrom (buf : List UInt8) : (fuel pos : Nat) → TlvMap → Option (Except String TlvMap)
  | 0, _, _ => none
  | fuel + 1, pos, map =>
    if pos < buf.length then
      (checkedSub buf.length pos).bind fun remaining =>
        if remaining < 6 then some (.error s!"TLV 头不完整（剩 {remaining} 字节）")
        else
          (slice buf pos (pos + 2)).bind fun tag =>
            (slice buf (pos + 2) (pos + 6)).bind fun lenBytes =>
              let len := ofBeBytes lenBytes
              (checkedSub buf.length (pos + 6)).bind fun remaining =>
                if remaining < len then some (.error s!"TLV 长度 {len} 超出剩余缓冲 {remaining}")
                else
                  (slice buf (pos + 6) (pos + 6 + len)).bind fun value =>
                    decodeFrom buf fuel (pos + 6 + len) (map ++ [⟨UInt16.ofNat (ofBeBytes tag), value⟩])
    else some (.ok map)

def decodeAll (buf : List UInt8) (pos : Nat) : Option (Except String TlvMap) :=
  decodeFrom buf (buf.length + 1) pos []

def Complete (items : TlvMap) : Prop :=
  ∀ tlv ∈ items, tlv.value.length < 2 ^ 32

def bytes (items : TlvMap) : List UInt8 :=
  items.flatMap Tlv.bytes

theorem encodeInto_of_complete (out : List UInt8) {items : TlvMap} (complete : Complete items) :
    encodeInto out items = (out ++ bytes items, .ok ()) := by
  induction items generalizing out with
  | nil => rw [encodeInto, bytes, List.flatMap_nil, List.append_nil]
  | cons tlv items ih =>
    obtain ⟨fits, complete⟩ := List.forall_mem_cons.mp complete
    rw [encodeInto, if_neg (by omega), ih _ complete, List.append_assoc]
    rfl

theorem encodeInto_isPrefix (out : List UInt8) (items : TlvMap) : out <+: (encodeInto out items).1 := by
  induction items generalizing out with
  | nil => exact List.prefix_refl _
  | cons tlv items ih =>
    rw [encodeInto]
    split
    · exact List.prefix_refl _
    · exact (List.prefix_append _ _).trans (ih _)

theorem complete_of_encodeInto {out : List UInt8} {items : TlvMap} (written : (encodeInto out items).2 = .ok ()) :
    Complete items := by
  induction items generalizing out with
  | nil => exact List.forall_mem_nil _
  | cons tlv items ih =>
    rw [encodeInto] at written
    split at written
    · cases written
    next fits => exact List.forall_mem_cons.mpr ⟨by omega, ih written⟩

theorem decodeFrom_succ {buf : List UInt8} {pos : Nat} (inside : pos ≤ buf.length) (fuel : Nat) (map : TlvMap) :
    decodeFrom buf (fuel + 1) pos map =
      let rest := buf.drop pos
      let len := ofBeBytes ((rest.drop 2).take 4)
      if rest = [] then some (.ok map)
      else if rest.length < 6 then some (.error s!"TLV 头不完整（剩 {rest.length} 字节）")
      else if rest.length - 6 < len then some (.error s!"TLV 长度 {len} 超出剩余缓冲 {rest.length - 6}")
      else
        decodeFrom buf fuel (pos + 6 + len)
          (map ++ [⟨UInt16.ofNat (ofBeBytes (rest.take 2)), (rest.drop 6).take len⟩]) := by
  have isLength : (buf.drop pos).length = buf.length - pos := List.length_drop
  rw [decodeFrom]
  dsimp only
  by_cases atEnd : buf.drop pos = []
  · have noMore : ¬pos < buf.length := by
      rw [List.drop_eq_nil_iff] at atEnd
      exact Nat.not_lt_of_le atEnd
    rw [if_neg noMore, if_pos atEnd]
  have more : pos < buf.length := by
    rw [List.drop_eq_nil_iff] at atEnd
    exact Nat.lt_of_not_le atEnd
  rw [if_pos more, if_neg atEnd, checkedSub_of_le inside, Option.bind_some, ← isLength]
  by_cases short : (buf.drop pos).length < 6
  · rw [if_pos short, if_pos short]
  have tagSlice : slice buf pos (pos + 2) = some ((buf.drop pos).take 2) := by
    rw [slice_of_le (by omega) (by omega), Nat.add_sub_cancel_left]
  have lenSlice : slice buf (pos + 2) (pos + 6) = some (((buf.drop pos).drop 2).take 4) := by
    rw [slice_of_le (by omega) (by omega), List.drop_drop, show pos + 6 - (pos + 2) = 4 by omega]
  have remaining : buf.length - (pos + 6) = (buf.drop pos).length - 6 := by omega
  rw [if_neg short, if_neg short, tagSlice, Option.bind_some, lenSlice, Option.bind_some, checkedSub_of_le (by omega),
    Option.bind_some, remaining]
  by_cases tooLong : (buf.drop pos).length - 6 < ofBeBytes (((buf.drop pos).drop 2).take 4)
  · rw [if_pos tooLong, if_pos tooLong]
  have valueSlice : slice buf (pos + 6) (pos + 6 + ofBeBytes (((buf.drop pos).drop 2).take 4)) =
      some (((buf.drop pos).drop 6).take (ofBeBytes (((buf.drop pos).drop 2).take 4))) := by
    have behind : (buf.drop pos).drop 6 = buf.drop (pos + 6) := List.drop_drop
    rw [slice_of_le (Nat.le_add_right _ _) (by omega), Nat.add_sub_cancel_left, behind]
  rw [if_neg tooLong, if_neg tooLong, valueSlice, Option.bind_some]

theorem bytes_field {rest : List UInt8} (long : 6 ≤ rest.length)
    (enough : ofBeBytes ((rest.drop 2).take 4) ≤ rest.length - 6) :
    let value := (rest.drop 6).take (ofBeBytes ((rest.drop 2).take 4))
    value.length < 2 ^ 32 ∧
      Tlv.bytes ⟨UInt16.ofNat (ofBeBytes (rest.take 2)), value⟩ = rest.take (6 + ofBeBytes ((rest.drop 2).take 4)) := by
  have isTag : (rest.take 2).length = 2 := List.length_take_of_le (by omega)
  have isLen : ((rest.drop 2).take 4).length = 4 := List.length_take_of_le (by rw [List.length_drop]; omega)
  have isValue : ((rest.drop 6).take (ofBeBytes ((rest.drop 2).take 4))).length = ofBeBytes ((rest.drop 2).take 4) :=
    List.length_take_of_le (by rw [List.length_drop]; exact enough)
  have tagBound := ofBeBytes_lt isTag
  have sameTag : (UInt16.ofNat (ofBeBytes (rest.take 2))).toNat = ofBeBytes (rest.take 2) := by
    rw [UInt16.toNat_ofNat']
    exact Nat.mod_eq_of_lt tagBound
  refine ⟨by rw [isValue]; exact ofBeBytes_lt isLen, ?_⟩
  rw [Tlv.bytes, sameTag, isValue, beBytes_ofBeBytes isTag, beBytes_ofBeBytes isLen, ← List.append_assoc, ← List.take_add,
    ← List.take_add]

theorem bytes_of_decodeFrom {buf : List UInt8} {fuel pos : Nat} {map result : TlvMap} (inside : pos ≤ buf.length)
    (decoded : decodeFrom buf fuel pos map = some (.ok result)) :
    ∃ items, Complete items ∧ result = map ++ items ∧ buf.drop pos = bytes items := by
  induction fuel generalizing pos map with
  | zero => cases decoded
  | succ fuel ih =>
    rw [decodeFrom_succ inside] at decoded
    dsimp only at decoded
    split at decoded
    next atEnd =>
      obtain rfl := Except.ok.inj (Option.some.inj decoded)
      exact ⟨[], List.forall_mem_nil _, (List.append_nil _).symm, atEnd⟩
    split at decoded
    · cases decoded
    next long =>
    split at decoded
    · cases decoded
    next enough =>
    have isLength : (buf.drop pos).length = buf.length - pos := List.length_drop
    obtain ⟨items, complete, isResult, isRest⟩ := ih (by omega) decoded
    obtain ⟨fits, isField⟩ := bytes_field (Nat.le_of_not_lt long) (Nat.le_of_not_lt enough)
    rw [List.append_assoc, List.singleton_append] at isResult
    refine ⟨_, ?_, isResult, ?_⟩
    · exact List.forall_mem_cons.mpr ⟨fits, complete⟩
    · rw [bytes, List.flatMap_cons, isField]
      rw [bytes, Nat.add_assoc, ← List.drop_drop] at isRest
      rw [← isRest, List.take_append_drop]

theorem decodeFrom_bytes {buf : List UInt8} {fuel pos : Nat} {map items : TlvMap} (inside : pos ≤ buf.length)
    (enough : buf.length - pos < fuel) (complete : Complete items) (isRest : buf.drop pos = bytes items) :
    decodeFrom buf fuel pos map = some (.ok (map ++ items)) := by
  induction items generalizing fuel pos map with
  | nil =>
    obtain ⟨fuel, rfl⟩ := Nat.exists_eq_succ_of_ne_zero (Nat.ne_of_gt (Nat.zero_lt_of_lt enough))
    rw [decodeFrom_succ inside]
    dsimp only
    rw [if_pos (show buf.drop pos = [] from isRest), List.append_nil]
  | cons tlv items ih =>
    obtain ⟨fuel, rfl⟩ := Nat.exists_eq_succ_of_ne_zero (Nat.ne_of_gt (Nat.zero_lt_of_lt enough))
    obtain ⟨fits, complete⟩ := List.forall_mem_cons.mp complete
    rw [bytes, List.flatMap_cons, Tlv.bytes, List.append_assoc, List.append_assoc] at isRest
    have isTag : (buf.drop pos).take 2 = beBytes 2 tlv.tag.toNat := by
      rw [isRest]
      exact List.take_left' (length_beBytes 2 _)
    have behindTag : (buf.drop pos).drop 2 = beBytes 4 tlv.value.length ++ (tlv.value ++ items.flatMap Tlv.bytes) := by
      rw [isRest]
      exact List.drop_left' (length_beBytes 2 _)
    have isLen : ((buf.drop pos).drop 2).take 4 = beBytes 4 tlv.value.length := by
      rw [behindTag]
      exact List.take_left' (length_beBytes 4 _)
    have behindLen : (buf.drop pos).drop 6 = tlv.value ++ items.flatMap Tlv.bytes := by
      have split : (buf.drop pos).drop 6 = ((buf.drop pos).drop 2).drop 4 := (@List.drop_drop _ 4 2 (buf.drop pos)).symm
      rw [split, behindTag]
      exact List.drop_left' (length_beBytes 4 _)
    have sameLen : ofBeBytes (beBytes 4 tlv.value.length) = tlv.value.length :=
      ofBeBytes_beBytes_of_lt fits
    have sameTag : UInt16.ofNat (ofBeBytes (beBytes 2 tlv.tag.toNat)) = tlv.tag := by
      rw [ofBeBytes_beBytes_of_lt tlv.tag.toNat_lt, UInt16.ofNat_toNat]
    have whole : (buf.drop pos).length = 6 + (tlv.value.length + (items.flatMap Tlv.bytes).length) := by
      rw [isRest, List.length_append, List.length_append, List.length_append, length_beBytes, length_beBytes]
      omega
    have isLength : (buf.drop pos).length = buf.length - pos := List.length_drop
    have isRound := decodeFrom_succ inside fuel map
    dsimp only at isRound
    rw [isTag, isLen, sameLen, sameTag, behindLen, List.take_left, if_neg (List.ne_nil_of_length_pos (by omega)),
      if_neg (by omega), if_neg (by omega)] at isRound
    have isNext : buf.drop (pos + 6 + tlv.value.length) = bytes items := by
      rw [← List.drop_drop, ← List.drop_drop, behindLen]
      exact List.drop_left
    rw [isRound, ih (by omega) (by omega) complete isNext, List.append_assoc, List.singleton_append]

theorem isSome_decodeFrom {buf : List UInt8} {fuel pos : Nat} (map : TlvMap) (inside : pos ≤ buf.length)
    (enough : buf.length - pos < fuel) : (decodeFrom buf fuel pos map).isSome := by
  induction fuel generalizing pos map with
  | zero => exact absurd enough (Nat.not_lt_zero _)
  | succ fuel ih =>
    have isLength : (buf.drop pos).length = buf.length - pos := List.length_drop
    rw [decodeFrom_succ inside]
    dsimp only
    split
    · rfl
    split
    · rfl
    split
    · rfl
    · exact ih _ (by omega) (by omega)

theorem decodeAll_of_le {buf : List UInt8} {pos : Nat} (outside : buf.length ≤ pos) :
    decodeAll buf pos = some (.ok []) := by
  rw [decodeAll, decodeFrom, if_neg (Nat.not_lt_of_le outside)]

theorem isSome_decodeAll (buf : List UInt8) (pos : Nat) : (decodeAll buf pos).isSome := by
  by_cases inside : pos ≤ buf.length
  · exact isSome_decodeFrom [] inside (by omega)
  · rw [decodeAll_of_le (by omega)]
    rfl

/-- What is accepted are the concatenations of complete fields. -/
theorem decodeAll_eq_ok_iff {buf : List UInt8} {pos : Nat} {items : TlvMap} :
    decodeAll buf pos = some (.ok items) ↔ Complete items ∧ buf.drop pos = bytes items := by
  by_cases inside : pos ≤ buf.length
  · constructor
    · intro decoded
      obtain ⟨found, complete, rfl, isRest⟩ := bytes_of_decodeFrom inside decoded
      exact ⟨complete, isRest⟩
    · rintro ⟨complete, isRest⟩
      exact decodeFrom_bytes inside (by omega) complete isRest
  · have outside : buf.length ≤ pos := by omega
    rw [decodeAll_of_le outside, List.drop_eq_nil_of_le outside]
    constructor
    · intro same
      obtain rfl := Except.ok.inj (Option.some.inj same)
      exact ⟨List.forall_mem_nil _, rfl⟩
    · rintro ⟨-, nothing⟩
      cases items with
      | nil => rfl
      | cons tlv items =>
        have length := congrArg List.length nothing
        rw [bytes, List.flatMap_cons, Tlv.bytes, List.length_append, List.length_append, length_beBytes,
          List.length_nil] at length
        omega

end TlvMap

inductive FrameKind where
  | trace
  | knock
  | batchReq
  | batchResp
  | resumeReq
  | resumeResp
  | identity
  | rateLimit
  | natProbe
  | natResult
  | xtcpPolicy
  | failure
  | compatProbe
  | compatResp
  | resumeCommit
  deriving DecidableEq, Repr

namespace FrameKind

def asU8 : FrameKind → UInt8
  | trace => 1
  | knock => 2
  | batchReq => 3
  | batchResp => 4
  | resumeReq => 5
  | resumeResp => 6
  | identity => 7
  | rateLimit => 8
  | natProbe => 9
  | natResult => 10
  | xtcpPolicy => 11
  | failure => 12
  | compatProbe => 13
  | compatResp => 14
  | resumeCommit => 15

def fromU8 (v : UInt8) : Option FrameKind :=
  if v = 1 then some trace
  else if v = 2 then some knock
  else if v = 3 then some batchReq
  else if v = 4 then some batchResp
  else if v = 5 then some resumeReq
  else if v = 6 then some resumeResp
  else if v = 7 then some identity
  else if v = 8 then some rateLimit
  else if v = 9 then some natProbe
  else if v = 10 then some natResult
  else if v = 11 then some xtcpPolicy
  else if v = 12 then some failure
  else if v = 13 then some compatProbe
  else if v = 14 then some compatResp
  else if v = 15 then some resumeCommit
  else none

theorem fromU8_asU8 (kind : FrameKind) : fromU8 kind.asU8 = some kind := by
  cases kind <;> rfl

end FrameKind

structure Frame where
  kind : FrameKind
  flags : UInt16
  tlvs : TlvMap

/-- A frame of an unknown version or kind is left alone. -/
inductive Decoded (α : Type) where
  | known (value : α)
  | unknown (version kind : UInt8)

def protocolVersion : UInt8 := 1

namespace Frame

/-- The result of writing the fields is not looked at. -/
def encode (f : Frame) : List UInt8 :=
  (f.tlvs.encodeInto ([protocolVersion, f.kind.asU8] ++ beBytes 2 f.flags.toNat)).1

def decode (buf : List UInt8) : Option (Except String (Decoded Frame)) :=
  if buf.length < 4 then some (.error s!"扩展帧头不完整（{buf.length} 字节）")
  else
    buf[0]?.bind fun version =>
      buf[1]?.bind fun kind =>
        (slice buf 2 4).bind fun flags =>
          if version ≠ protocolVersion then some (.ok (.unknown version kind))
          else
            match FrameKind.fromU8 kind with
            | none => some (.ok (.unknown version kind))
            | some kind =>
              (TlvMap.decodeAll buf 4).map fun decoded =>
                decoded.map fun tlvs => .known ⟨kind, UInt16.ofNat (ofBeBytes flags), tlvs⟩

end Frame

def allCaps : UInt64 := 2 ^ 11 - 1

/-- Capabilities; bits that are not known are not kept. -/
structure Caps where
  bits : UInt64
  known : bits &&& allCaps = bits

def Caps.new (bits : UInt64) : Caps where
  bits := bits &&& allCaps
  known := by rw [UInt64.and_assoc, UInt64.and_self]

structure Preamble where
  version : UInt8
  caps : Caps
  flags : UInt8
  session : ConnectionId
  tlvs : TlvMap

def magic : List UInt8 := bytesOf "NFRPLNK1"

def preambleFixed : Nat := 36

/-- Sixteen bytes copied from a slice; of any other length there is no copy. -/
def copyFromSlice (bytes : List UInt8) : Option ConnectionId :=
  if isLong : bytes.length = 16 then some ⟨bytes.toArray, by rw [List.size_toArray, isLong]⟩ else none

namespace Preamble

/-- The result of writing the fields is not looked at, and their length is cut to two bytes. -/
def encode (p : Preamble) : List UInt8 :=
  let body := (p.tlvs.encodeInto []).1
  magic ++ ([p.version] ++ (beBytes 8 p.caps.bits.toNat ++ ([p.flags] ++ (p.session.toList ++
    (beBytes 2 body.length ++ body)))))

def decodeAfterMagic (buf : List UInt8) : Option (Except String Preamble) :=
  (checkedSub preambleFixed 8).bind fun fixed =>
    if buf.length < fixed then some (.error s!"preamble 不完整（{buf.length} 字节）")
    else
      buf[0]?.bind fun version =>
        (slice buf 1 9).bind fun caps =>
          buf[9]?.bind fun flags =>
            ((slice buf 10 26).bind copyFromSlice).bind fun session =>
              (slice buf 26 28).bind fun lenBytes =>
                let tlvLen := ofBeBytes lenBytes
                if buf.length < 28 + tlvLen then some (.error s!"preamble 的 TLV 长度 {tlvLen} 超出缓冲")
                else
                  (slice buf 28 (28 + tlvLen)).bind fun body =>
                    (TlvMap.decodeAll body 0).map fun decoded =>
                      decoded.map fun tlvs =>
                        ⟨version, Caps.new (UInt64.ofNat (ofBeBytes caps)), flags, session, tlvs⟩

end Preamble

namespace Frame

def Accepted (f : Frame) : Prop :=
  (f.tlvs.encodeInto ([protocolVersion, f.kind.asU8] ++ beBytes 2 f.flags.toNat)).2 = .ok ()

theorem decode_header (kind : FrameKind) (flags : UInt16) (body : List UInt8) :
    decode ([protocolVersion, kind.asU8] ++ beBytes 2 flags.toNat ++ body) =
      (TlvMap.decodeAll ([protocolVersion, kind.asU8] ++ beBytes 2 flags.toNat ++ body) 4).map fun decoded =>
        decoded.map fun tlvs => .known ⟨kind, flags, tlvs⟩ := by
  have long : ¬([protocolVersion, kind.asU8] ++ beBytes 2 flags.toNat ++ body).length < 4 := by
    rw [List.length_append, List.length_append, length_beBytes]
    simp
  have isFlags : slice ([protocolVersion, kind.asU8] ++ beBytes 2 flags.toNat ++ body) 2 4 =
      some (beBytes 2 flags.toNat) := by
    rw [slice_of_le (by decide) (Nat.le_of_not_lt long), List.append_assoc]
    exact congrArg some (List.take_left' (length_beBytes 2 _))
  have sameFlags : UInt16.ofNat (ofBeBytes (beBytes 2 flags.toNat)) = flags := by
    rw [ofBeBytes_beBytes_of_lt flags.toNat_lt, UInt16.ofNat_toNat]
  have isVersion : ([protocolVersion, kind.asU8] ++ beBytes 2 flags.toNat ++ body)[0]? = some protocolVersion := rfl
  have isKind : ([protocolVersion, kind.asU8] ++ beBytes 2 flags.toNat ++ body)[1]? = some kind.asU8 := rfl
  rw [decode, if_neg long, isVersion, Option.bind_some, isKind, Option.bind_some, isFlags, Option.bind_some,
    if_neg (not_not.mpr rfl), FrameKind.fromU8_asU8, sameFlags]

/-- A frame comes back exactly where its fields could be written. -/
theorem decode_encode_iff (f : Frame) : decode f.encode = some (.ok (.known f)) ↔ f.Accepted := by
  have header : ([protocolVersion, f.kind.asU8] ++ beBytes 2 f.flags.toNat).length = 4 := by
    rw [List.length_append, length_beBytes]
    rfl
  constructor
  · intro decoded
    obtain ⟨body, isBody⟩ := TlvMap.encodeInto_isPrefix ([protocolVersion, f.kind.asU8] ++ beBytes 2 f.flags.toNat) f.tlvs
    rw [encode, ← isBody, decode_header] at decoded
    obtain ⟨read, isRead, isFrame⟩ := Option.map_eq_some_iff.mp decoded
    obtain ⟨tlvs, rfl, same⟩ := map_eq_ok_iff.mp isFrame
    have sameTlvs : tlvs = f.tlvs := congrArg Frame.tlvs (Decoded.known.inj same)
    have complete := (TlvMap.decodeAll_eq_ok_iff.mp isRead).1
    rw [sameTlvs] at complete
    rw [Accepted, TlvMap.encodeInto_of_complete _ complete]
  · intro accepted
    have complete := TlvMap.complete_of_encodeInto accepted
    have behind : ([protocolVersion, f.kind.asU8] ++ beBytes 2 f.flags.toNat ++ f.tlvs.bytes).drop 4 = f.tlvs.bytes :=
      List.drop_left' header
    rw [encode, TlvMap.encodeInto_of_complete _ complete, decode_header,
      TlvMap.decodeAll_eq_ok_iff.mpr ⟨complete, behind⟩]
    rfl

end Frame

namespace Preamble

def bodyLength (p : Preamble) : Nat :=
  (p.tlvs.map fun tlv => 6 + tlv.value.length).sum

/-- How many bytes behind the magic word a preamble takes. -/
def taken (buf : List UInt8) : Nat :=
  28 + ofBeBytes ((buf.drop 26).take 2)

/-- Behind the magic word the same preamble is read, whatever follows it, and no byte of
what follows is taken. -/
def RoundTrips (p : Preamble) : Prop :=
  ∃ after, p.encode = magic ++ after ∧
    ∀ rest, decodeAfterMagic (after ++ rest) = some (.ok p) ∧ taken (after ++ rest) = after.length

theorem length_bytes (items : TlvMap) : items.bytes.length = (items.map fun tlv => 6 + tlv.value.length).sum := by
  induction items with
  | nil => rfl
  | cons tlv items ih =>
    rw [TlvMap.bytes, List.flatMap_cons, List.length_append, List.map_cons, List.sum_cons, ← ih,
      Tlv.bytes, List.length_append, List.length_append, length_beBytes, length_beBytes, ← Nat.add_assoc]
    rfl

theorem complete_of_bodyLength {p : Preamble} (short : p.bodyLength ≤ 65535) : p.tlvs.Complete := by
  intro tlv member
  have single : 6 + tlv.value.length ≤ p.bodyLength :=
    List.single_le_sum (fun _ _ => Nat.zero_le _) _ (List.mem_map_of_mem member)
  omega

theorem new_bits (caps : Caps) : Caps.new caps.bits = caps := by
  obtain ⟨bits, known⟩ := caps
  simp only [Caps.new, known]

theorem copyFromSlice_toList (session : ConnectionId) : copyFromSlice session.toList = some session := by
  rw [copyFromSlice, dif_pos Vector.length_toList]
  exact congrArg some (Vector.toArray_inj.mp Array.toArray_toList)

def fixedBytes (p : Preamble) (length : Nat) : List UInt8 :=
  [p.version] ++ (beBytes 8 p.caps.bits.toNat ++ ([p.flags] ++ (p.session.toList ++ beBytes 2 length)))

theorem length_fixedBytes (p : Preamble) (length : Nat) : (p.fixedBytes length).length = 28 := by
  simp [fixedBytes]

theorem length_field (length : Nat) : ofBeBytes (beBytes 2 length) = length % 65536 :=
  ofBeBytes_beBytes 2 length

theorem decodeAfterMagic_fixed (p : Preamble) (length : Nat) (body : List UInt8) :
    decodeAfterMagic (p.fixedBytes length ++ body) =
      if body.length < length % 65536 then some (.error s!"preamble 的 TLV 长度 {length % 65536} 超出缓冲")
      else
        (TlvMap.decodeAll (body.take (length % 65536)) 0).map fun decoded =>
          decoded.map fun tlvs => { p with tlvs } := by
  have whole : (p.fixedBytes length ++ body).length = 28 + body.length := by
    rw [List.length_append, length_fixedBytes]
  have isCaps : slice (p.fixedBytes length ++ body) 1 9 = some (beBytes 8 p.caps.bits.toNat) := by
    rw [fixedBytes, List.append_assoc, List.append_assoc]
    exact slice_field rfl (by rw [length_beBytes])
  have isFlags : (p.fixedBytes length ++ body)[9]? = some p.flags := by
    have shape : p.fixedBytes length ++ body =
        ([p.version] ++ beBytes 8 p.caps.bits.toNat) ++ ([p.flags] ++ (p.session.toList ++ (beBytes 2 length ++ body))) := by
      simp only [fixedBytes, List.append_assoc]
    have front : ([p.version] ++ beBytes 8 p.caps.bits.toNat).length = 9 := by
      rw [List.length_append, length_beBytes]
      rfl
    rw [shape, List.getElem?_append_right (Nat.le_of_eq front), front]
    rfl
  have isSession : slice (p.fixedBytes length ++ body) 10 26 = some p.session.toList := by
    have shape : p.fixedBytes length ++ body =
        ([p.version] ++ (beBytes 8 p.caps.bits.toNat ++ [p.flags])) ++ (p.session.toList ++ (beBytes 2 length ++ body)) := by
      simp only [fixedBytes, List.append_assoc]
    rw [shape]
    exact slice_field (by simp) (by rw [Vector.length_toList])
  have isLength : slice (p.fixedBytes length ++ body) 26 28 = some (beBytes 2 length) := by
    have shape : p.fixedBytes length ++ body =
        ([p.version] ++ (beBytes 8 p.caps.bits.toNat ++ ([p.flags] ++ p.session.toList))) ++
          (beBytes 2 length ++ body) := by
      simp only [fixedBytes, List.append_assoc]
    rw [shape]
    exact slice_field (by simp) (by rw [length_beBytes])
  have sameCaps : Caps.new (UInt64.ofNat (ofBeBytes (beBytes 8 p.caps.bits.toNat))) = p.caps := by
    rw [ofBeBytes_beBytes_of_lt p.caps.bits.toNat_lt, UInt64.ofNat_toNat, new_bits]
  have isVersion : (p.fixedBytes length ++ body)[0]? = some p.version := rfl
  rw [decodeAfterMagic, checkedSub_of_le (by decide), Option.bind_some, if_neg (by rw [whole, preambleFixed]; omega),
    isVersion, Option.bind_some, isCaps, Option.bind_some, isFlags, Option.bind_some, isSession, Option.bind_some,
    copyFromSlice_toList, Option.bind_some, isLength, Option.bind_some, sameCaps, length_field, whole]
  dsimp only
  by_cases short : body.length < length % 65536
  · rw [if_pos short, if_pos (by omega)]
  · have isBody : slice (p.fixedBytes length ++ body) 28 (28 + length % 65536) = some (body.take (length % 65536)) := by
      rw [slice_of_le (Nat.le_add_right _ _) (by rw [whole]; omega), Nat.add_sub_cancel_left,
        List.drop_left' (length_fixedBytes p length)]
    rw [if_neg short, if_neg (by omega), isBody, Option.bind_some]

theorem taken_fixed (p : Preamble) (length : Nat) (body : List UInt8) :
    taken (p.fixedBytes length ++ body) = 28 + length % 65536 := by
  have shape : p.fixedBytes length ++ body =
      ([p.version] ++ (beBytes 8 p.caps.bits.toNat ++ ([p.flags] ++ p.session.toList))) ++
        (beBytes 2 length ++ body) := by
    simp only [fixedBytes, List.append_assoc]
  rw [taken, shape, List.drop_left' (by simp), List.take_left' (length_beBytes 2 _), length_field]

theorem encode_eq (p : Preamble) :
    p.encode = magic ++ (p.fixedBytes (p.tlvs.encodeInto []).1.length ++ (p.tlvs.encodeInto []).1) := by
  simp only [encode, fixedBytes, List.append_assoc]

/-- A preamble comes back exactly where the length of its fields can be said in two bytes. -/
theorem roundTrips_iff (p : Preamble) : p.RoundTrips ↔ p.bodyLength ≤ 65535 := by
  constructor
  · rintro ⟨after, isAfter, reads⟩
    rw [encode_eq] at isAfter
    obtain rfl := List.append_cancel_left isAfter
    have decoded := (reads []).1
    rw [List.append_nil, decodeAfterMagic_fixed] at decoded
    split at decoded
    · cases decoded
    next enough =>
      obtain ⟨read, isRead, isPreamble⟩ := Option.map_eq_some_iff.mp decoded
      obtain ⟨tlvs, rfl, same⟩ := map_eq_ok_iff.mp isPreamble
      have sameTlvs : tlvs = p.tlvs := congrArg Preamble.tlvs same
      subst sameTlvs
      have isBody := congrArg List.length (TlvMap.decodeAll_eq_ok_iff.mp isRead).2
      rw [List.drop_zero, List.length_take, length_bytes] at isBody
      rw [bodyLength, ← isBody]
      omega
  · intro short
    have complete := complete_of_bodyLength short
    have isBody : (p.tlvs.encodeInto []).1 = p.tlvs.bytes := by
      rw [TlvMap.encodeInto_of_complete _ complete, List.nil_append]
    have isLength : p.tlvs.bytes.length % 65536 = p.tlvs.bytes.length := by
      rw [bodyLength, ← length_bytes] at short
      exact Nat.mod_eq_of_lt (by omega)
    refine ⟨_, p.encode_eq, fun rest => ?_⟩
    rw [isBody, List.append_assoc, decodeAfterMagic_fixed, taken_fixed, isLength]
    constructor
    · rw [if_neg (by rw [List.length_append]; omega), List.take_left' rfl,
        TlvMap.decodeAll_eq_ok_iff.mpr ⟨complete, List.drop_zero⟩]
      rfl
    · rw [List.length_append, length_fixedBytes]

theorem bodyLength_single {p : Preamble} {tlv : Tlv} (single : p.tlvs = [tlv]) :
    p.bodyLength = 6 + tlv.value.length := by
  rw [bodyLength, single]
  exact Nat.add_zero _

def officePreamble (value : List UInt8) : Preamble where
  version := protocolVersion
  caps := Caps.new 0
  flags := 1
  session := Vector.replicate 16 7
  tlvs := [⟨0x4e01, value⟩]

/-- With one byte of fields too many, it is read without the field, whose bytes are left. -/
theorem reads_officePreamble {value : List UInt8} (isLong : value.length = 65530) :
    ¬(officePreamble value).RoundTrips ∧ ∃ after, (officePreamble value).encode = magic ++ after ∧
      decodeAfterMagic after = some (.ok { officePreamble value with tlvs := [] }) ∧ taken after = 28 ∧
      after.length = 28 + 65536 := by
  have isBodyLength : (officePreamble value).bodyLength = 65536 := by
    rw [@bodyLength_single (officePreamble value) _ rfl, isLong]
  have complete : (officePreamble value).tlvs.Complete := by
    intro tlv member
    obtain rfl := List.mem_singleton.mp member
    show value.length < 2 ^ 32
    rw [isLong]
    decide
  have isBody : ((officePreamble value).tlvs.encodeInto []).1.length = 65536 := by
    rw [TlvMap.encodeInto_of_complete _ complete, List.nil_append, length_bytes]
    exact isBodyLength
  refine ⟨by rw [roundTrips_iff, isBodyLength]; decide, _, (officePreamble value).encode_eq, ?_, ?_, ?_⟩
  · rw [decodeAfterMagic_fixed, isBody, if_neg (Nat.not_lt_zero _), List.take_zero,
      @TlvMap.decodeAll_of_le [] 0 (Nat.le_refl _)]
    rfl
  · rw [taken_fixed, isBody]
  · rw [List.length_append, length_fixedBytes, isBody]

theorem not_roundTrips_officePreamble :
    ¬(officePreamble (List.replicate 65530 0)).RoundTrips ∧
      ∃ after, (officePreamble (List.replicate 65530 0)).encode = magic ++ after ∧
        decodeAfterMagic after = some (.ok { officePreamble (List.replicate 65530 0) with tlvs := [] }) ∧
        taken after = 28 ∧ after.length = 28 + 65536 :=
  reads_officePreamble List.length_replicate

end Preamble

/-- Frames come back where they are accepted, of bytes just the concatenations of complete
fields are accepted, with a verdict on all others, and preambles come back where the
length of their fields can be said. -/
theorem codec (f : Frame) (p : Preamble) (buf : List UInt8) (pos : Nat) (items : TlvMap) :
    (Frame.decode f.encode = some (.ok (.known f)) ↔ f.Accepted) ∧
      (TlvMap.decodeAll buf pos).isSome ∧
      (TlvMap.decodeAll buf pos = some (.ok items) ↔ TlvMap.Complete items ∧ buf.drop pos = TlvMap.bytes items) ∧
      (p.RoundTrips ↔ p.bodyLength ≤ 65535) :=
  ⟨Frame.decode_encode_iff f, TlvMap.isSome_decodeAll buf pos, TlvMap.decodeAll_eq_ok_iff, Preamble.roundTrips_iff p⟩

end Nfrp.Nlink
