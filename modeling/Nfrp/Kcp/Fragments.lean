import Nfrp.Lib.Framing
import Nfrp.Kcp.Session

/-!
# Fragments and messages

The number and the data of a fragment are what its message is rebuilt from.
`send` cuts a message into pieces that make one whole framed message, and
`recv` splits the first whole message off the queue.
-/

namespace Nfrp.Kcp

open Lib

/-- What of a segment belongs to the message it is a fragment of: its countdown
and its data. -/
abbrev Piece := UInt8 × List UInt8

def Seg.piece (seg : Seg) : Piece :=
  (seg.frg, seg.data)

def EndsMessage (piece : Piece) : Prop :=
  piece.1 = 0

instance : DecidablePred EndsMessage :=
  fun piece => inferInstanceAs (Decidable (piece.1 = 0))

def pieces (mss : Nat) (buf : List UInt8) : List Piece :=
  (fragments mss buf).map Seg.piece

theorem pieces_flatten {mss : Nat} (positive : 0 < mss) (buf : List UInt8) :
    (pieces mss buf).flatMap Prod.snd = buf := by
  have data : (pieces mss buf).map Prod.snd = blocks mss buf := by
    rw [pieces, fragments, List.map_map, List.map_map]
    rfl
  rw [List.flatMap_def, data, flatten_blocks positive]

@[simp]
theorem length_pieces (mss : Nat) (buf : List UInt8) :
    (pieces mss buf).length = fragmentCount mss buf.length := by
  simp [pieces, fragments]

theorem fragmentCount_pos {mss len : Nat} (positive : 0 < mss) (nonempty : 0 < len) :
    0 < fragmentCount mss len :=
  Nat.div_pos (by omega) positive

/-- As long as the countdown fits its byte, only the last fragment carries
zero. -/
theorem pieces_whole {mss : Nat} {buf : List UInt8} (positive : 0 < mss) (nonempty : buf ≠ [])
    (fits : fragmentCount mss buf.length ≤ 255) : Whole EndsMessage (pieces mss buf) := by
  obtain ⟨count, countEq⟩ := Nat.exists_eq_succ_of_ne_zero
    (fragmentCount_pos positive (List.length_pos_iff.mpr nonempty)).ne'
  let chunk (i : Nat) : Piece :=
    (UInt8.ofNat (count + 1 - 1 - i), (buf.drop (i * mss)).take mss)
  have split : pieces mss buf = (List.range count).map chunk ++ [chunk count] := by
    simp only [pieces, fragments, countEq, List.range_succ, List.map_append, List.map_cons,
      List.map_nil, List.map_map]
    rfl
  refine ⟨_, _, split, ?_, ?_⟩
  · simp [EndsMessage, chunk]
  · intro piece membership
    obtain ⟨i, inRange, rfl⟩ := List.mem_map.mp membership
    have before : i < count := List.mem_range.mp inRange
    intro isZero
    have number := congrArg UInt8.toNat isZero
    simp only [chunk, UInt8.toNat_ofNat', UInt8.toNat_zero] at number
    omega

theorem piece_length_le {mss : Nat} {buf : List UInt8} {piece : Piece}
    (membership : piece ∈ pieces mss buf) : piece.2.length ≤ min buf.length mss := by
  simp only [pieces, fragments, List.map_map] at membership
  obtain ⟨i, -, rfl⟩ := List.mem_map.mp membership
  simp only [Function.comp_apply, Seg.piece, Seg.new, List.length_take, List.length_drop]
  omega

theorem exists_longest_piece {mss : Nat} {buf : List UInt8} (positive : 0 < mss) (nonempty : buf ≠ []) :
    ∃ piece ∈ pieces mss buf, piece.2.length = min buf.length mss := by
  have some : 0 < fragmentCount mss buf.length :=
    fragmentCount_pos positive (List.length_pos_iff.mpr nonempty)
  simp only [pieces, fragments, List.map_map]
  refine ⟨_, List.mem_map_of_mem (List.mem_range.mpr some), ?_⟩
  simp [Seg.piece, Seg.new, Nat.min_comm]

theorem completeLength_eq (queue : List Seg) :
    completeLength queue =
      (firstWhole EndsMessage (queue.map Seg.piece)).map
        fun found => (found.1.flatMap Prod.snd).length := by
  induction queue with
  | nil => rfl
  | cons seg rest ih =>
    rw [completeLength, List.map_cons, firstWhole]
    by_cases ends : seg.frg = 0
    · have endsMessage : EndsMessage seg.piece := ends
      rw [if_pos ends, if_pos endsMessage]
      simp [Seg.piece]
    · have goesOn : ¬ EndsMessage seg.piece := ends
      rw [if_neg ends, if_neg goesOn, ih, Option.map_map, Option.map_map]
      simp [Function.comp_def, Seg.piece]

theorem popMessage_eq {queue : List Seg} {message rest : List Piece}
    (found : firstWhole EndsMessage (queue.map Seg.piece) = some (message, rest)) :
    (popMessage queue).1 = message.flatMap Prod.snd ∧ (popMessage queue).2.map Seg.piece = rest := by
  induction queue generalizing message with
  | nil => simp [firstWhole] at found
  | cons seg later ih =>
    rw [List.map_cons, firstWhole] at found
    rw [popMessage]
    by_cases ends : seg.frg = 0
    · have endsMessage : EndsMessage seg.piece := ends
      rw [if_pos endsMessage] at found
      obtain ⟨rfl, rfl⟩ := Prod.mk.inj (Option.some.inj found)
      rw [if_pos ends]
      exact ⟨by simp [Seg.piece], rfl⟩
    · have goesOn : ¬ EndsMessage seg.piece := ends
      rw [if_neg goesOn] at found
      obtain ⟨⟨first, remaining⟩, foundLater, pair⟩ := Option.map_eq_some_iff.mp found
      obtain ⟨rfl, rfl⟩ := Prod.mk.inj pair
      obtain ⟨data, queue⟩ := ih foundLater
      rw [if_neg ends]
      exact ⟨by simp [data, Seg.piece], queue⟩

theorem ReceiveSide.recv_of_found {r : ReceiveSide} {message rest : List Piece}
    (found : firstWhole EndsMessage (r.rcvQueue.map Seg.piece) = some (message, rest)) :
    (maxRecvMsg < (message.flatMap Prod.snd).length ∧
        r.recv = ({ r with rcvQueue := [], rcvBuf := [] }, none)) ∨
      ((message.flatMap Prod.snd).length ≤ maxRecvMsg ∧
        ∃ rcvQueue, rcvQueue.map Seg.piece = rest ∧
          r.recv = ({ r with rcvQueue }, some (message.flatMap Prod.snd))) := by
  have complete : completeLength r.rcvQueue = some (message.flatMap Prod.snd).length := by
    rw [completeLength_eq, found]
    rfl
  obtain ⟨data, queue⟩ := popMessage_eq found
  unfold ReceiveSide.recv
  simp only [complete]
  by_cases tooLong : maxRecvMsg < (message.flatMap Prod.snd).length
  · exact .inl ⟨tooLong, if_pos tooLong⟩
  · exact .inr ⟨not_lt.mp tooLong, _, queue, by rw [if_neg tooLong, data]⟩

theorem ReceiveSide.recv_of_not_found {r : ReceiveSide}
    (notFound : firstWhole EndsMessage (r.rcvQueue.map Seg.piece) = none) : r.recv = (r, none) := by
  have incomplete : completeLength r.rcvQueue = none := by
    rw [completeLength_eq, notFound]
    rfl
  unfold ReceiveSide.recv
  simp only [incomplete]

end Nfrp.Kcp
