import Nfrp.Wire.Conn

/-!
# Taking frames off a buffer

Both parsers index their buffer by what its length field says.  They never run past its
end, take off exactly what some frame is encoded as, and leave everything else; so a
stream of frames is taken off frame by frame however it arrives.
-/

namespace Nfrp.Wire

open Lib

abbrev Taking := Parsed Frame × List UInt8

def takeMsgChecked (buf : List UInt8) : Option Taking :=
  if buf.isEmpty then some (.incomplete, buf)
  else
    buf[0]?.bind fun typeByte =>
      if typeId typeByte = none then some (.broken, buf)
      else if buf.length < 9 then some (.incomplete, buf)
      else
        (slice buf 1 9).bind fun lenBytes =>
          let len := (BitVec.ofNat 64 (ofBeBytes lenBytes)).toInt
          if defaultMaxMsgLength < len then some (.broken, buf)
          else if len < 0 then some (.broken, buf)
          else
            (checkedAdd 64 9 len.toNat).bind fun stop =>
              if buf.length < stop then some (.incomplete, buf)
              else
                (slice buf 9 stop).bind fun body =>
                  (checkedDrain buf stop).map fun left => (.item ⟨typeByte.toNat, body⟩ stop, left)

def takeFrameChecked (buf : List UInt8) : Option Taking :=
  if buf.length < 8 then some (.incomplete, buf)
  else
    (slice buf 0 2).bind fun frameType =>
      (slice buf 2 4).bind fun flags =>
        if ofBeBytes flags ≠ 0 then some (.broken, buf)
        else
          (slice buf 4 8).bind fun lenBytes =>
            let len := ofBeBytes lenBytes
            if maxFramePayload < len then some (.broken, buf)
            else
              (checkedAdd 64 8 len).bind fun stop =>
                if buf.length < stop then some (.incomplete, buf)
                else
                  (slice buf 8 stop).bind fun payload =>
                    (checkedDrain buf stop).map fun left => (.item ⟨ofBeBytes frameType, payload⟩ stop, left)

def takeChecked : WireVersion → List UInt8 → Option Taking
  | .v1 => takeMsgChecked
  | .v2 => takeFrameChecked

def left : Parsed Frame → List UInt8 → List UInt8
  | .item _ length, buf => buf.drop length
  | _, buf => buf

theorem takeMsgChecked_eq (buf : List UInt8) : takeMsgChecked buf = some (takeMsg buf, left (takeMsg buf) buf) := by
  cases buf with
  | nil => rfl
  | cons byte rest =>
    rw [takeMsgChecked, if_neg (by simp), takeMsg, List.getElem?_cons_zero, Option.bind_some]
    by_cases unknown : typeId byte = none
    · rw [if_pos unknown, if_pos unknown]
      rfl
    rw [if_neg unknown, if_neg unknown]
    have sameShort : (byte :: rest).length < 9 ↔ rest.length < 8 := by
      rw [List.length_cons]
      omega
    by_cases short : rest.length < 8
    · rw [if_pos (sameShort.mpr short), if_pos short]
      rfl
    rw [if_neg (sameShort.not.mpr short), if_neg short]
    have isLength : slice (byte :: rest) 1 9 = some (rest.take 8) :=
      slice_of_le (by omega) (Nat.le_of_not_lt (sameShort.not.mpr short))
    rw [isLength, Option.bind_some]
    dsimp only
    generalize (BitVec.ofNat 64 (ofBeBytes (rest.take 8))).toInt = len
    by_cases tooLong : (defaultMaxMsgLength : Int) < len
    · rw [if_pos tooLong, if_pos (.inl tooLong)]
      rfl
    by_cases negative : len < 0
    · rw [if_neg tooLong, if_pos negative, if_pos (.inr negative)]
      rfl
    rw [if_neg tooLong, if_neg negative, if_neg (not_or.mpr ⟨tooLong, negative⟩),
      checkedAdd_of_lt (by rw [defaultMaxMsgLength] at tooLong; omega), Option.bind_some]
    have sameMissing : (byte :: rest).length < 9 + len.toNat ↔ (rest.drop 8).length < len.toNat := by
      rw [List.length_cons, List.length_drop]
      omega
    by_cases missing : (rest.drop 8).length < len.toNat
    · rw [if_pos (sameMissing.mpr missing), if_pos missing]
      rfl
    have inside := Nat.le_of_not_lt (sameMissing.not.mpr missing)
    rw [if_neg (sameMissing.not.mpr missing), if_neg missing, slice_of_le (Nat.le_add_right _ _) inside,
      Option.bind_some, checkedDrain_of_le inside, Option.map_some, Nat.add_sub_cancel_left]
    rfl

theorem takeFrameChecked_eq (buf : List UInt8) :
    takeFrameChecked buf = some (takeFrame buf, left (takeFrame buf) buf) := by
  rw [takeFrameChecked, takeFrame]
  by_cases short : buf.length < 8
  · rw [if_pos short, if_pos short]
    rfl
  rw [if_neg short, if_neg short, slice_of_le (by omega) (by omega), Option.bind_some,
    slice_of_le (by omega) (by omega), Option.bind_some]
  by_cases flagged : ofBeBytes ((buf.drop 2).take 2) ≠ 0
  · rw [if_pos flagged, if_pos flagged]
    rfl
  rw [if_neg flagged, if_neg flagged, slice_of_le (by omega) (by omega), Option.bind_some]
  dsimp only
  generalize ofBeBytes ((buf.drop 4).take 4) = len
  by_cases tooLong : maxFramePayload < len
  · rw [if_pos tooLong, if_pos tooLong]
    rfl
  rw [if_neg tooLong, if_neg tooLong, checkedAdd_of_lt (by rw [maxFramePayload] at tooLong; omega), Option.bind_some]
  by_cases missing : buf.length < 8 + len
  · rw [if_pos missing, if_pos missing]
    rfl
  have inside := Nat.le_of_not_lt missing
  rw [if_neg missing, if_neg missing, slice_of_le (Nat.le_add_right _ _) inside, Option.bind_some,
    checkedDrain_of_le inside, Option.map_some, Nat.add_sub_cancel_left]
  rfl

theorem takeChecked_eq (version : WireVersion) (buf : List UInt8) :
    takeChecked version buf = some (take version buf, left (take version buf) buf) := by
  cases version with
  | v1 => exact takeMsgChecked_eq buf
  | v2 => exact takeFrameChecked_eq buf

theorem takeMsg_eq_item {buf : List UInt8} {f : Frame} {length : Nat} (taken : takeMsg buf = .item f length) :
    IsMsg f ∧ encodeMsg f <+: buf ∧ length = (encodeMsg f).length := by
  cases buf with
  | nil => cases taken
  | cons byte rest =>
    rw [takeMsg] at taken
    split at taken
    · cases taken
    next known =>
    split at taken
    · cases taken
    next long =>
    dsimp only at taken
    split at taken
    · cases taken
    next inRange =>
    split at taken
    · cases taken
    next enough =>
    obtain ⟨rfl, rfl⟩ := Parsed.item.inj taken
    have wide : (rest.take 8).length = 8 := List.length_take_of_le (Nat.le_of_not_lt long)
    have small : ofBeBytes (rest.take 8) < 2 ^ 64 := by
      have bound := ofLeBytes_lt (rest.take 8).reverse
      rw [List.length_reverse, wide] at bound
      exact bound
    have isLength : (BitVec.ofNat 64 (ofBeBytes (rest.take 8))).toInt.toNat = ofBeBytes (rest.take 8) := by
      have nonnegative := (not_or.mp inRange).2
      rw [BitVec.toInt_eq_toNat_cond, BitVec.toNat_ofNat, Nat.mod_eq_of_lt small] at nonnegative ⊢
      split at nonnegative <;> omega
    have short := (not_or.mp inRange).1
    rw [isLength] at enough ⊢
    have isBody : ((rest.drop 8).take (ofBeBytes (rest.take 8))).length = ofBeBytes (rest.take 8) :=
      List.length_take_of_le (Nat.le_of_not_lt enough)
    have isByte : UInt8.ofNat byte.toNat = byte := UInt8.ofNat_toNat
    refine ⟨⟨byte.toNat_lt, by rwa [isByte], ?_⟩, ?_, ?_⟩
    · rw [isBody]
      rw [defaultMaxMsgLength] at short ⊢
      omega
    · rw [encodeMsg, msgHeader, isByte, isBody, beBytes_ofBeBytes wide, List.cons_append, List.prefix_cons_inj]
      conv => rhs; rw [← List.take_append_drop 8 rest]
      exact (List.prefix_append_right_inj _).mpr (List.take_prefix _ _)
    · rw [encodeMsg, List.length_append, msgHeader, List.length_cons, length_beBytes, isBody]

theorem takeFrame_eq_item {buf : List UInt8} {f : Frame} {length : Nat} (taken : takeFrame buf = .item f length) :
    IsFrame f ∧ encodeFrame f <+: buf ∧ length = (encodeFrame f).length := by
  rw [takeFrame] at taken
  split at taken
  · cases taken
  next long =>
  split at taken
  · cases taken
  next noFlags =>
  dsimp only at taken
  split at taken
  · cases taken
  next short =>
  split at taken
  · cases taken
  next enough =>
  obtain ⟨rfl, rfl⟩ := Parsed.item.inj taken
  have isType : (buf.take 2).length = 2 := List.length_take_of_le (by omega)
  have areFlags : ((buf.drop 2).take 2).length = 2 := List.length_take_of_le (by rw [List.length_drop]; omega)
  have isLength : ((buf.drop 4).take 4).length = 4 := List.length_take_of_le (by rw [List.length_drop]; omega)
  have isBody : ((buf.drop 8).take (ofBeBytes ((buf.drop 4).take 4))).length = ofBeBytes ((buf.drop 4).take 4) :=
    List.length_take_of_le (by rw [List.length_drop]; omega)
  have header : frameHeader ⟨ofBeBytes (buf.take 2), (buf.drop 8).take (ofBeBytes ((buf.drop 4).take 4))⟩ =
      buf.take 8 := by
    rw [frameHeader, isBody, beBytes_ofBeBytes isType, beBytes_ofBeBytes isLength, ← not_not.mp noFlags,
      beBytes_ofBeBytes areFlags, ← List.append_assoc, ← List.take_add, ← List.take_add]
  refine ⟨⟨?_, by rw [isBody]; omega⟩, ?_, ?_⟩
  · have bound := ofLeBytes_lt (buf.take 2).reverse
    rw [List.length_reverse, isType] at bound
    exact bound
  · rw [encodeFrame, header]
    conv => rhs; rw [← List.take_append_drop 8 buf]
    exact (List.prefix_append_right_inj _).mpr (List.take_prefix _ _)
  · rw [encodeFrame, List.length_append, length_frameHeader, isBody]

theorem take_eq_item_iff {version : WireVersion} {buf : List UInt8} {f : Frame} {length : Nat} :
    take version buf = .item f length ↔
      Valid version f ∧ encode version f <+: buf ∧ length = (encode version f).length := by
  constructor
  · intro taken
    cases version with
    | v1 => exact takeMsg_eq_item taken
    | v2 => exact takeFrame_eq_item taken
  · rintro ⟨valid, ⟨rest, rfl⟩, rfl⟩
    exact (recognises_take version).whole f rest valid

theorem take_nil (version : WireVersion) : take version [] = .incomplete := by
  cases version <;> rfl

/-- The parser of a version: for every buffer, and for every stream of frames however it
arrives and whenever the parser is called. -/
structure TakesExactly (version : WireVersion) : Prop where
  /-- No index is out of range, and what is no frame leaves the buffer as it was. -/
  total : ∀ buf, takeChecked version buf = some (take version buf, left (take version buf) buf)
  /-- A frame is returned where it is there whole, and its bytes are those taken off. -/
  item : ∀ buf f length, take version buf = .item f length ↔
    Valid version f ∧ encode version f <+: buf ∧ length = (encode version f).length
  /-- Any calls return the frames in order, as many as are there at most, and lose nothing. -/
  front : ∀ frames, (∀ f ∈ frames, Valid version f) → ∀ events,
    Feed.arrived events <+: frames.flatMap (encode version) →
    ∃ done later held, frames = done ++ later ∧ Feed.run (take version) events {} = some held ∧ held.got = done ∧
      Feed.arrived events = done.flatMap (encode version) ++ held.buffer
  /-- Enough calls return all that are there whole, and of a whole stream they leave nothing. -/
  whole : ∀ frames, (∀ f ∈ frames, Valid version f) → ∀ events count,
    Feed.arrived events <+: frames.flatMap (encode version) → frames.length ≤ count →
    ∃ held, Feed.run (take version) (events ++ List.replicate count .call) {} = some held ∧
      held.got = frames.take (Lib.whole (frames.map (encode version)) (Feed.arrived events).length) ∧
      (Feed.arrived events = frames.flatMap (encode version) → held.got = frames ∧ held.buffer = [])

theorem unfinished_map_encode {version : WireVersion} {later : List Frame} {rest : List UInt8}
    (unfinished : Unfinished (encode version) later rest) : Unfinished id (later.map (encode version)) rest := by
  cases later with
  | nil => exact unfinished
  | cons next later => exact unfinished

theorem takesExactly (version : WireVersion) : TakesExactly version where
  total := takeChecked_eq version
  item _ _ _ := take_eq_item_iff
  front frames valid events inStream := by
    obtain ⟨done, later, held, ran, returned⟩ :=
      Feed.Returned.initially.run (recognises_take version) (take_nil version) valid inStream
    rw [List.nil_append, List.nil_append] at returned
    exact ⟨done, later, held, returned.split, ran, by rw [returned.got, List.map_id], returned.seen⟩
  whole frames valid events count inStream enough := by
    obtain ⟨first, others, middle, ran, returned⟩ :=
      Feed.Returned.initially.run (recognises_take version) (take_nil version) valid inStream
    rw [List.nil_append, List.nil_append] at returned
    have fewer : others.length ≤ count := by
      have split := congrArg List.length returned.split
      rw [List.length_append] at split
      omega
    obtain ⟨more, later, held, called, final, unfinished⟩ :=
      returned.calls (recognises_take version) (take_nil version) valid inStream fewer
    generalize first ++ more = done at final
    have isGot : held.got = done := by rw [final.got, List.map_id]
    refine ⟨held, by rw [Feed.run_append, ran, Option.bind_some, called], ?_, ?_⟩
    · have counted := @whole_eq_of_unfinished _ (done.map (encode version)) _ _ (unfinished_map_encode unfinished)
      rw [← List.map_append, ← final.split, List.length_map, ← List.flatMap_def, ← List.length_append,
        ← final.seen] at counted
      rw [counted, isGot, final.split, List.take_left]
    · intro all
      have rest : held.buffer = later.flatMap (encode version) := by
        rw [final.seen, final.split, List.flatMap_append] at all
        exact List.append_cancel_left all
      obtain ⟨rfl, isEmpty⟩ := unfinished.eq_nil rest
      exact ⟨by rw [isGot, final.split, List.append_nil], isEmpty⟩

end Nfrp.Wire
