import Nfrp.Lib.Octets

/-!
Tags of messages, and messages that are made of texts.

Who does not know the key has no tags but those of messages that were signed.  What has
to be shown of a message that is accepted is then what has to be shown of every way to
sign it.  Texts with a separator between them make one message exactly where none of
them has the separator in it.
-/

namespace Nfrp.Lib

universe u v w

variable {Message : Type u} {Tag : Type v} {Call : Type w} {mac : Message → Tag} {claimed : Message}

/-- It is the tag of no message but of those that were signed. -/
def Unforged (mac : Message → Tag) (signed : List Message) (tag : Tag) : Prop :=
  ∀ message, mac message = tag → message ∈ signed

/-- No other message has its tag. -/
def Sole (mac : Message → Tag) (message : Message) : Prop :=
  ∀ other, mac other = mac message → other = message

/-- Behind every tag that is accepted there is a good call, exactly where all calls that sign
the message are good. -/
theorem forall_unforged_iff (sole : Sole mac claimed) {message : Call → Message} {good : Call → Prop} :
    (∀ calls : List Call, Unforged mac (calls.map message) (mac claimed) → ∃ call ∈ calls, good call) ↔
      ∀ call, message call = claimed → good call := by
  constructor
  · intro all call isClaimed
    have unforged : Unforged mac ([call].map message) (mac claimed) := by
      intro other same
      rw [sole other same, List.map_singleton, isClaimed]
      exact List.mem_singleton_self _
    obtain ⟨other, member, isGood⟩ := all [call] unforged
    exact List.mem_singleton.mp member ▸ isGood
  · intro all calls unforged
    obtain ⟨call, member, isClaimed⟩ := List.mem_map.mp (unforged claimed rfl)
    exact ⟨call, member, all call isClaimed⟩

theorem separated_inj {separator : Message} {a b c d : List Message} (noneInA : separator ∉ a) (noneInB : separator ∉ b)
    (same : a ++ separator :: b = c ++ separator :: d) : a = c ∧ b = d := by
  rcases List.append_eq_append_iff.mp same with ⟨more, isC, isB⟩ | ⟨more, isA, isD⟩
  · cases more with
    | nil => exact ⟨by rw [isC, List.append_nil], (List.cons.inj isB).2⟩
    | cons head more =>
      have inB : separator ∈ b := by
        rw [(List.cons.inj isB).2]
        exact List.mem_append_right _ List.mem_cons_self
      exact absurd inB noneInB
  · cases more with
    | nil => exact ⟨by rw [isA, List.append_nil], (List.cons.inj isD).2.symm⟩
    | cons head more =>
      have inA : separator ∈ a := by
        rw [isA, (List.cons.inj isD).1]
        exact List.mem_append_right _ List.mem_cons_self
      exact absurd inA noneInA

def nul : Char := Char.ofNat 0

theorem bytesOf_append (a b : String) : bytesOf (a ++ b) = bytesOf a ++ bytesOf b := by
  rw [bytesOf, bytesOf, bytesOf, String.toUTF8_eq_toByteArray, String.toUTF8_eq_toByteArray, String.toUTF8_eq_toByteArray,
    String.toByteArray_append]
  simp

theorem bytesOf_nul : bytesOf (String.ofList [nul]) = [0] := by
  rw [bytesOf_ofList fun c member => List.mem_singleton.mp member ▸ by decide]
  rfl

theorem zero_mem_bytesOf_iff (s : String) : 0 ∈ bytesOf s ↔ nul ∈ s.toList := by
  have same := (SameAscii.octets s.toList).mem_iff (show isAscii nul by decide)
  rw [octets, String.ofList_toList, latin1, List.mem_map] at same
  rw [← same]
  constructor
  · intro member
    exact ⟨0, member, rfl⟩
  · rintro ⟨byte, member, isNul⟩
    have isZero : byte = 0 := by
      rw [← UInt8.toNat_inj, ← toNat_ofNat_toNat byte, isNul]
      rfl
    exact isZero ▸ member

/-- Two texts with a zero between them are those two and no others. -/
def Separable (a b : String) : Prop :=
  nul ∉ a.toList ∧ nul ∉ b.toList

instance (a b : String) : Decidable (Separable a b) :=
  inferInstanceAs (Decidable (nul ∉ a.toList ∧ nul ∉ b.toList))

theorem separable_iff (a b : String) :
    Separable a b ↔ ∀ c d : String, bytesOf c ++ 0 :: bytesOf d = bytesOf a ++ 0 :: bytesOf b → c = a ∧ d = b := by
  constructor
  · rintro ⟨noneInA, noneInB⟩ c d same
    rw [← zero_mem_bytesOf_iff] at noneInA noneInB
    obtain ⟨isA, isB⟩ := separated_inj noneInA noneInB same.symm
    exact ⟨(bytesOf_inj.mp isA).symm, (bytesOf_inj.mp isB).symm⟩
  · -- a zero inside a text can be the one between two others
    intro unique
    have cut : ∀ s : String, nul ∈ s.toList → ∃ before after : String, bytesOf s = bytesOf before ++ 0 :: bytesOf after ∧
        before.toList.length < s.toList.length := by
      intro s member
      obtain ⟨before, after, isText⟩ := List.append_of_mem member
      refine ⟨String.ofList before, String.ofList after, ?_, ?_⟩
      · have isSum : s = String.ofList before ++ (String.ofList [nul] ++ String.ofList after) := by
          rw [← @String.ofList_toList s, isText, ← String.ofList_append, ← String.ofList_append, List.singleton_append]
        rw [isSum, bytesOf_append, bytesOf_append, bytesOf_nul]
        rfl
      · rw [isText, String.toList_ofList, List.length_append, List.length_cons]
        omega
    constructor
    · intro inA
      obtain ⟨before, after, isA, shorter⟩ := cut a inA
      have isBoth : bytesOf (after ++ String.ofList [nul] ++ b) = bytesOf after ++ 0 :: bytesOf b := by
        rw [bytesOf_append, bytesOf_append, bytesOf_nul, List.append_assoc]
        rfl
      have same := (unique before (after ++ String.ofList [nul] ++ b) (by
        rw [isBoth, isA, List.append_assoc, List.cons_append])).1
      rw [same] at shorter
      exact absurd shorter (Nat.lt_irrefl _)
    · intro inB
      obtain ⟨before, after, isB, shorter⟩ := cut b inB
      have isBoth : bytesOf (a ++ String.ofList [nul] ++ before) = bytesOf a ++ 0 :: bytesOf before := by
        rw [bytesOf_append, bytesOf_append, bytesOf_nul, List.append_assoc]
        rfl
      have same := (unique (a ++ String.ofList [nul] ++ before) after (by
        rw [isBoth, isB, List.append_assoc, List.cons_append])).1
      have length := congrArg (List.length ∘ String.toList) same
      simp only [Function.comp_apply, String.toList_append, List.length_append, String.toList_ofList,
        List.length_singleton] at length
      omega

end Nfrp.Lib
