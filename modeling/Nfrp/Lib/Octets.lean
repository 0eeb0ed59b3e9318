import Nfrp.Lib.Framing
import Nfrp.Lib.Http

/-!
Texts that differ only in characters that are no ASCII.

A text goes out as UTF-8 and is read octet by octet, and bytes that are no UTF-8 become
replacement characters; neither touches what is ASCII.  A reader that looks for ASCII
characters only reads such texts alike.
-/

namespace Nfrp.Lib

def octetsOf (c : Char) : List Char := latin1 (String.utf8EncodeChar c)

/-- The octets of a text, each as a character. -/
def octets (text : List Char) : List Char := latin1 (bytesOf (String.ofList text))

instance : DecidablePred isAscii := fun c => inferInstanceAs (Decidable (c.toNat < 128))

/-- The same ASCII characters, and where the one has others, so has the other. -/
inductive SameAscii : List Char → List Char → Prop
  | nil : SameAscii [] []
  | ascii {c : Char} {a b : List Char} (isAscii : isAscii c) : SameAscii a b → SameAscii (c :: a) (c :: b)
  | other {x y a b : List Char} (some : x ≠ []) (alsoSome : y ≠ []) (foreign : ∀ c ∈ x, ¬isAscii c)
      (alsoForeign : ∀ c ∈ y, ¬isAscii c) : SameAscii a b → SameAscii (x ++ a) (y ++ b)

theorem bytesOf_ofList_cons (c : Char) (text : List Char) :
    bytesOf (String.ofList (c :: text)) = String.utf8EncodeChar c ++ bytesOf (String.ofList text) := by
  rw [bytesOf, bytesOf, String.toUTF8_eq_toByteArray, String.toUTF8_eq_toByteArray, String.toByteArray_ofList,
    String.toByteArray_ofList, List.utf8Encode_cons, List.utf8Encode_singleton]
  simp

theorem octets_cons (c : Char) (text : List Char) : octets (c :: text) = octetsOf c ++ octets text := by
  rw [octets, bytesOf_ofList_cons, latin1, List.map_append]
  rfl

theorem octetsOf_ascii {c : Char} (ascii : isAscii c) : octetsOf c = [c] := by
  rw [octetsOf, String.utf8EncodeChar_eq_singleton (utf8Size_of_ascii ascii)]
  exact @latin1_map_asciiByte [c] fun d member => List.mem_singleton.mp member ▸ ascii

theorem not_isAscii_ofNat {byte : UInt8} (high : 128 ≤ byte.toNat) : ¬isAscii (Char.ofNat byte.toNat) := by
  rw [isAscii, toNat_ofNat_toNat]
  omega

theorem octetsOf_foreign {c : Char} (foreign : ¬isAscii c) : octetsOf c ≠ [] ∧ ∀ d ∈ octetsOf c, ¬isAscii d := by
  constructor
  · intro empty
    exact String.utf8EncodeChar_ne_nil (List.map_eq_nil_iff.mp empty)
  · intro d member
    obtain ⟨byte, inBytes, rfl⟩ := List.mem_map.mp member
    apply not_isAscii_ofNat
    have above : ¬c.val.toNat ≤ 0x7f := fun below => foreign (Nat.lt_succ_of_le below)
    rw [String.utf8EncodeChar] at inBytes
    rw [if_neg above] at inBytes
    have small : ∀ n, 128 ≤ n → n < 256 → byte = UInt8.ofNat n → 128 ≤ byte.toNat := by
      rintro n atLeast below rfl
      rw [UInt8.toNat_ofNat_of_lt' below]
      exact atLeast
    split at inBytes
    · simp only [List.mem_cons, List.not_mem_nil, or_false] at inBytes
      rcases inBytes with same | same
      · exact small _ (by omega) (by omega) same
      · exact small _ (by omega) (by omega) same
    split at inBytes
    · simp only [List.mem_cons, List.not_mem_nil, or_false] at inBytes
      rcases inBytes with same | same | same
      · exact small _ (by omega) (by omega) same
      · exact small _ (by omega) (by omega) same
      · exact small _ (by omega) (by omega) same
    · simp only [List.mem_cons, List.not_mem_nil, or_false] at inBytes
      rcases inBytes with same | same | same | same
      · exact small _ (by omega) (by omega) same
      · exact small _ (by omega) (by omega) same
      · exact small _ (by omega) (by omega) same
      · exact small _ (by omega) (by omega) same

namespace SameAscii

theorem octets (text : List Char) : SameAscii (octets text) text := by
  induction text with
  | nil => exact .nil
  | cons c text ih =>
    rw [octets_cons]
    by_cases ascii : isAscii c
    · rw [octetsOf_ascii ascii]
      exact .ascii ascii ih
    · have foreign : ∀ d ∈ [c], ¬isAscii d := fun d member => List.mem_singleton.mp member ▸ ascii
      exact .other (octetsOf_foreign ascii).1 (List.cons_ne_nil _ _) (octetsOf_foreign ascii).2 foreign
        ih

theorem append {a b c d : List Char} (first : SameAscii a b) (second : SameAscii c d) : SameAscii (a ++ c) (b ++ d) := by
  induction first with
  | nil => exact second
  | ascii isAscii _ ih => exact .ascii isAscii ih
  | other some alsoSome foreign alsoForeign _ ih =>
    rw [List.append_assoc, List.append_assoc]
    exact .other some alsoSome foreign alsoForeign ih

theorem symm {a b : List Char} (same : SameAscii a b) : SameAscii b a := by
  induction same with
  | nil => exact .nil
  | ascii isAscii _ ih => exact .ascii isAscii ih
  | other some alsoSome foreign alsoForeign _ ih =>
    exact .other alsoSome some alsoForeign foreign ih

theorem reverse {a b : List Char} (same : SameAscii a b) : SameAscii a.reverse b.reverse := by
  induction same with
  | nil => exact .nil
  | ascii isAscii _ ih =>
    rw [List.reverse_cons, List.reverse_cons]
    exact ih.append (.ascii isAscii .nil)
  | other some alsoSome foreign alsoForeign _ ih =>
    rw [List.reverse_append, List.reverse_append]
    refine ih.append ?_
    have last := SameAscii.other (a := []) (b := []) (mt List.reverse_eq_nil_iff.mp some)
      (mt List.reverse_eq_nil_iff.mp alsoSome) (fun c member => foreign c (List.mem_reverse.mp member))
      (fun c member => alsoForeign c (List.mem_reverse.mp member)) .nil
    rwa [List.append_nil, List.append_nil] at last

theorem eq_nil_iff {a b : List Char} (same : SameAscii a b) : a = [] ↔ b = [] := by
  cases same with
  | nil => exact Iff.rfl
  | ascii _ _ => exact iff_of_false (List.cons_ne_nil _ _) (List.cons_ne_nil _ _)
  | other some alsoSome _ _ _ =>
    exact iff_of_false (mt (fun h => (List.append_eq_nil_iff.mp h).1) some)
      (mt (fun h => (List.append_eq_nil_iff.mp h).1) alsoSome)

/-- Texts of ASCII characters have nothing else to differ in. -/
theorem eq_of_ascii {a b : List Char} (same : SameAscii a b) (ascii : ∀ c ∈ a, isAscii c) : a = b := by
  induction same with
  | nil => rfl
  | ascii _ _ ih =>
    rw [ih fun d member => ascii d (List.mem_cons_of_mem _ member)]
  | other some _ foreign _ _ _ =>
    obtain ⟨c, rest, rfl⟩ := List.exists_cons_of_ne_nil some
    exact absurd (ascii c (List.mem_append_left _ List.mem_cons_self)) (foreign c List.mem_cons_self)

theorem mem_iff {a b : List Char} (same : SameAscii a b) {c : Char} (ascii : isAscii c) : c ∈ a ↔ c ∈ b := by
  induction same with
  | nil => exact Iff.rfl
  | ascii _ _ ih => rw [List.mem_cons, List.mem_cons, ih]
  | other _ _ foreign alsoForeign _ ih =>
    rw [List.mem_append, List.mem_append, ih]
    exact or_congr_left (iff_of_false (fun member => foreign c member ascii) fun member => alsoForeign c member ascii)

section Readers

variable {a b : List Char} {p : Char → Bool}

/-- Where foreign characters end the front, the fronts are the same. -/
theorem takeWhile_of_stopped (same : SameAscii a b) (stops : ∀ c, ¬isAscii c → p c = false) :
    a.takeWhile p = b.takeWhile p ∧ SameAscii (a.dropWhile p) (b.dropWhile p) := by
  induction same with
  | nil => exact ⟨rfl, .nil⟩
  | @ascii c a b isAscii rest ih =>
    rw [List.takeWhile_cons, List.takeWhile_cons, List.dropWhile_cons, List.dropWhile_cons]
    split
    · exact ⟨congrArg (c :: ·) ih.1, ih.2⟩
    · exact ⟨rfl, .ascii isAscii rest⟩
  | @other x y a b some alsoSome foreign alsoForeign rest ih =>
    have whole := SameAscii.other some alsoSome foreign alsoForeign rest
    obtain ⟨c, x, rfl⟩ := List.exists_cons_of_ne_nil some
    obtain ⟨d, y, rfl⟩ := List.exists_cons_of_ne_nil alsoSome
    have first := stops c (foreign c List.mem_cons_self)
    have second := stops d (alsoForeign d List.mem_cons_self)
    simp only [List.cons_append, List.takeWhile_cons, List.dropWhile_cons, first, second, Bool.false_eq_true, if_false]
    exact ⟨trivial, whole⟩

theorem all_of_stopped (same : SameAscii a b) (stops : ∀ c, ¬isAscii c → p c = false) :
    (a.all p = true ↔ b.all p = true) ∧ (a.all p = true → a = b) := by
  have ascii : ∀ text : List Char, text.all p = true → ∀ c ∈ text, isAscii c := by
    intro text passes c member
    by_contra foreign
    exact absurd (List.all_eq_true.mp passes c member) (by rw [stops c foreign]; exact Bool.false_ne_true)
  refine ⟨⟨fun passes => ?_, fun passes => ?_⟩, fun passes => same.eq_of_ascii (ascii a passes)⟩
  · rwa [← same.eq_of_ascii (ascii a passes)]
  · rwa [← same.symm.eq_of_ascii (ascii b passes)]

theorem map_toLower (same : SameAscii a b) : SameAscii (a.map Char.toLower) (b.map Char.toLower) := by
  have lowered : ∀ c : Char, isAscii c.toLower ↔ isAscii c := by
    intro c
    rw [isAscii, isAscii, toNat_toLower]
    split <;> omega
  have foreignMap : ∀ x : List Char, (∀ c ∈ x, ¬isAscii c) → ∀ c ∈ x.map Char.toLower, ¬isAscii c := by
    intro x foreign c member
    obtain ⟨d, inText, rfl⟩ := List.mem_map.mp member
    exact mt (lowered d).mp (foreign d inText)
  induction same with
  | nil => exact .nil
  | ascii isAscii _ ih => exact .ascii ((lowered _).mpr isAscii) ih
  | other some alsoSome foreign alsoForeign _ ih =>
    rw [List.map_append, List.map_append]
    exact .other (mt List.map_eq_nil_iff.mp some) (mt List.map_eq_nil_iff.mp alsoSome) (foreignMap _ foreign)
      (foreignMap _ alsoForeign) ih

theorem eq_iff_of_ascii {word : List Char} (same : SameAscii a b) (ascii : ∀ c ∈ word, isAscii c) : a = word ↔ b = word :=
  ⟨fun isWord => same.eq_of_ascii (isWord ▸ ascii) ▸ isWord, fun isWord => same.symm.eq_of_ascii (isWord ▸ ascii) ▸ isWord⟩

theorem unblanked (same : SameAscii a b) : SameAscii (unblanked a) (unblanked b) := by
  have stops : ∀ c, ¬isAscii c → isBlank c = false := by
    intro c foreign
    rw [isBlank, Bool.or_eq_false_iff, beq_eq_false_iff_ne, beq_eq_false_iff_ne]
    exact ⟨fun isSpace => foreign (isSpace ▸ by decide), fun isTab => foreign (isTab ▸ by decide)⟩
  have front := (same.takeWhile_of_stopped stops).2
  exact (front.reverse.takeWhile_of_stopped stops).2.reverse

theorem splitOnce {separator : Char} (ascii : isAscii separator) (same : SameAscii a b) :
    (splitOnce separator a = none ∧ splitOnce separator b = none) ∨
      ∃ front behind front' behind', splitOnce separator a = some (front, behind) ∧
        splitOnce separator b = some (front', behind') ∧ SameAscii front front' ∧ SameAscii behind behind' := by
  have skip : ∀ (x text : List Char), (∀ c ∈ x, ¬isAscii c) → Lib.splitOnce separator (x ++ text) =
      (Lib.splitOnce separator text).map fun parts => (x ++ parts.1, parts.2) := by
    intro x text foreign
    induction x with
    | nil => exact Option.map_id'.symm
    | cons c x ih =>
      have different : c ≠ separator := fun isSeparator => foreign c List.mem_cons_self (isSeparator ▸ ascii)
      rw [List.cons_append, Lib.splitOnce, if_neg different,
        ih fun d member => foreign d (List.mem_cons_of_mem _ member), Option.map_map]
      rfl
  induction same with
  | nil => exact .inl ⟨rfl, rfl⟩
  | @ascii c a b isAscii rest ih =>
    rw [Lib.splitOnce, Lib.splitOnce]
    by_cases isSeparator : c = separator
    · rw [if_pos isSeparator, if_pos isSeparator]
      exact .inr ⟨_, _, _, _, rfl, rfl, .nil, rest⟩
    · rw [if_neg isSeparator, if_neg isSeparator]
      rcases ih with ⟨first, second⟩ | ⟨front, behind, front', behind', first, second, sameFront, sameRest⟩
      · rw [first, second]
        exact .inl ⟨rfl, rfl⟩
      · rw [first, second]
        exact .inr ⟨_, _, _, _, rfl, rfl, .ascii isAscii sameFront, sameRest⟩
  | other some alsoSome foreign alsoForeign _ ih =>
    rw [skip _ _ foreign, skip _ _ alsoForeign]
    rcases ih with ⟨first, second⟩ | ⟨front, behind, front', behind', first, second, sameFront, sameRest⟩
    · rw [first, second]
      exact .inl ⟨rfl, rfl⟩
    · rw [first, second]
      exact .inr ⟨_, _, _, _, rfl, rfl, .other some alsoSome foreign alsoForeign sameFront, sameRest⟩

theorem splitOn {separator : Char} (ascii : isAscii separator) (same : SameAscii a b) :
    List.Forall₂ SameAscii (a.splitOn separator) (b.splitOn separator) := by
  have split : ∀ (c : Char) (text : List Char), (c :: text).splitOn separator =
      if c = separator then [] :: text.splitOn separator else (text.splitOn separator).modifyHead (c :: ·) := by
    intro c text
    rw [List.splitOn_eq_splitOnP, List.splitOn_eq_splitOnP, List.splitOnP_cons_eq_if_modifyHead]
    simp only [beq_iff_eq]
  have skip : ∀ (x text : List Char), (∀ c ∈ x, ¬isAscii c) → (x ++ text).splitOn separator =
      (text.splitOn separator).modifyHead (x ++ ·) := by
    intro x text foreign
    induction x with
    | nil => exact (congrFun List.modifyHead_id _).symm
    | cons c x ih =>
      have different : c ≠ separator := fun isSeparator => foreign c List.mem_cons_self (isSeparator ▸ ascii)
      rw [List.cons_append, split, if_neg different,
        ih fun d member => foreign d (List.mem_cons_of_mem _ member), List.modifyHead_modifyHead]
      rfl
  have onHead : ∀ {f g : List Char → List Char} {xs ys : List (List Char)},
      (∀ x y, SameAscii x y → SameAscii (f x) (g y)) → List.Forall₂ SameAscii xs ys →
        List.Forall₂ SameAscii (xs.modifyHead f) (ys.modifyHead g) := by
    intro f g xs ys preserved pieces
    cases pieces with
    | nil => exact .nil
    | cons first rest => exact .cons (preserved _ _ first) rest
  induction same with
  | nil => exact .cons .nil .nil
  | @ascii c a b isAscii rest ih =>
    rw [split, split]
    by_cases isSeparator : c = separator
    · rw [if_pos isSeparator, if_pos isSeparator]
      exact .cons .nil ih
    · rw [if_neg isSeparator, if_neg isSeparator]
      exact onHead (fun _ _ => .ascii isAscii) ih
  | other some alsoSome foreign alsoForeign _ ih =>
    rw [skip _ _ foreign, skip _ _ alsoForeign]
    exact onHead (fun _ _ => .other some alsoSome foreign alsoForeign) ih

end Readers

end SameAscii

theorem toNat_ofNat_of_valid {n : Nat} (valid : n.isValidChar) : (Char.ofNat n).toNat = n := by
  rw [Char.ofNat, dif_pos valid]
  rfl

theorem following_cases (first : UInt8) (rest : List UInt8) :
    following first rest = [] ∨ ∃ second later, following first rest = second :: later ∧ mayFollow first second ∧
      (∀ byte ∈ later, isContinuation byte) ∧ second :: later <+: rest := by
  rw [following]
  have front := List.take_prefix (announced first) rest
  split
  next => exact .inl rfl
  next second more isTaken =>
    rw [isTaken] at front
    split
    next follows =>
      refine .inr ⟨second, _, rfl, follows, fun byte member => List.mem_takeWhile_imp member, ?_⟩
      exact (List.cons_prefix_cons.mpr ⟨rfl, List.takeWhile_prefix _⟩).trans front
    next => exact .inl rfl

theorem toNat_of_isContinuation {byte : UInt8} (continues : isContinuation byte) : 128 ≤ byte.toNat ∧ byte.toNat ≤ 191 := by
  rw [isContinuation, Bool.and_eq_true, decide_eq_true_eq, decide_eq_true_eq, UInt8.le_iff_toNat_le,
    UInt8.le_iff_toNat_le] at continues
  exact continues

theorem toNat_of_mayFollow {first second : UInt8} (follows : mayFollow first second) :
    (128 ≤ second.toNat ∧ second.toNat ≤ 191) ∧ (first.toNat = 0xe0 → 160 ≤ second.toNat) ∧
      (first.toNat = 0xed → second.toNat ≤ 159) ∧ (first.toNat = 0xf0 → 144 ≤ second.toNat) ∧
        (first.toNat = 0xf4 → second.toNat ≤ 143) := by
  have is : ∀ n : UInt8, first = n ↔ first.toNat = n.toNat := fun n => UInt8.toNat_inj.symm
  rw [mayFollow] at follows
  simp only [isContinuation, is, UInt8.reduceToNat] at follows
  split_ifs at follows <;>
    simp only [Bool.and_eq_true, decide_eq_true_eq, UInt8.le_iff_toNat_le, UInt8.reduceToNat] at follows <;> omega

theorem announced_cases (first : UInt8) :
    announced first = 0 ∨ announced first = 1 ∧ 0xc2 ≤ first.toNat ∧ first.toNat ≤ 0xdf ∨
      announced first = 2 ∧ 0xe0 ≤ first.toNat ∧ first.toNat ≤ 0xef ∨
        announced first = 3 ∧ 0xf0 ≤ first.toNat ∧ first.toNat ≤ 0xf4 := by
  rw [announced]
  simp only [UInt8.le_iff_toNat_le, UInt8.reduceToNat]
  split
  · omega
  split
  · omega
  split
  · omega
  · omega

theorem not_isAscii_scalar {first : UInt8} {rest : List UInt8} (some : announced first ≠ 0)
    (whole : (following first rest).length = announced first) : ¬isAscii (scalar first (following first rest)) := by
  have high : ∀ n : Nat, 128 ≤ n → n < 0xd800 ∨ 0xdfff < n ∧ n < 0x110000 → ¬isAscii (Char.ofNat n) := by
    intro n above valid
    rw [isAscii, toNat_ofNat_of_valid valid]
    omega
  rcases following_cases first rest with isEmpty | ⟨second, later, isMore, follows, continues, -⟩
  · rw [isEmpty] at whole
    exact absurd whole.symm some
  rw [isMore] at whole ⊢
  have bounds := toNat_of_mayFollow follows
  rcases announced_cases first with none | ⟨count, least, most⟩ | ⟨count, least, most⟩ | ⟨count, least, most⟩
  · exact absurd none some
  · obtain rfl : later = [] := List.length_eq_zero_iff.mp (Nat.succ.inj (whole.trans count))
    rw [scalar, leadingBits, count]
    apply high
    · simp only [List.foldl_cons, List.foldl_nil]
      omega
    · simp only [List.foldl_cons, List.foldl_nil]
      omega
  · obtain ⟨third, rfl⟩ : ∃ third, later = [third] := List.length_eq_one_iff.mp (Nat.succ.inj (whole.trans count))
    rw [scalar, leadingBits, count]
    apply high
    · simp only [List.foldl_cons, List.foldl_nil]
      omega
    · simp only [List.foldl_cons, List.foldl_nil]
      omega
  · obtain ⟨third, fourth, rfl⟩ : ∃ third fourth, later = [third, fourth] :=
      List.length_eq_two.mp (Nat.succ.inj (whole.trans count))
    rw [scalar, leadingBits, count]
    apply high
    · simp only [List.foldl_cons, List.foldl_nil]
      omega
    · simp only [List.foldl_cons, List.foldl_nil]
      omega

theorem lossyFrom_drop (skip : Nat) (bytes : List UInt8) : lossyFrom skip bytes = lossyTextOf (bytes.drop skip) := by
  induction skip generalizing bytes with
  | zero => rfl
  | succ skip ih =>
    cases bytes with
    | nil => rfl
    | cons first rest => exact ih rest

/-- The next character is ASCII, or it is not and neither are the bytes that it takes. -/
theorem lossyTextOf_cons (first : UInt8) (rest : List UInt8) :
    first.toNat < 128 ∧ lossyTextOf (first :: rest) = Char.ofNat first.toNat :: lossyTextOf rest ∨
      128 ≤ first.toNat ∧ ∃ c count, ¬isAscii c ∧ (∀ byte ∈ rest.take count, 128 ≤ byte.toNat) ∧
        lossyTextOf (first :: rest) = c :: lossyTextOf (rest.drop count) := by
  by_cases low : first < 0x80
  · refine .inl ⟨UInt8.lt_iff_toNat_lt.mp low, ?_⟩
    have isNext : lossyNext first rest = (Char.ofNat first.toNat, 0) := if_pos low
    rw [lossyTextOf, lossyFrom, isNext]
    rfl
  · refine .inr ⟨Nat.le_of_not_lt fun below => low (UInt8.lt_iff_toNat_lt.mpr below), (lossyNext first rest).1,
      (lossyNext first rest).2, ?_, ?_, ?_⟩
    · rw [lossyNext, if_neg low]
      dsimp only
      split
      next whole => exact not_isAscii_scalar whole.1 whole.2
      next => decide
    · rw [lossyNext, if_neg low]
      dsimp only
      rcases following_cases first rest with isEmpty | ⟨second, later, isMore, follows, continues, isPrefix⟩
      · rw [isEmpty]
        exact List.forall_mem_nil _
      · rw [isMore, ← List.prefix_iff_eq_take.mp isPrefix]
        intro byte member
        rcases List.mem_cons.mp member with rfl | inLater
        · exact (toNat_of_mayFollow follows).1.1
        · exact (toNat_of_isContinuation (continues byte inLater)).1
    · rw [lossyTextOf, lossyFrom, lossyFrom_drop]

/-- Writing ASCII characters as they are and others in some way. -/
structure KeepsAscii (write : Char → List Char) : Prop where
  ascii : ∀ c, isAscii c → write c = [c]
  other : ∀ c, ¬isAscii c → write c ≠ [] ∧ ∀ d ∈ write c, ¬isAscii d

theorem keepsAscii_singleton : KeepsAscii fun c => [c] where
  ascii := fun _ _ => rfl
  other := fun _ foreign => ⟨List.cons_ne_nil _ _, fun _ member => List.mem_singleton.mp member ▸ foreign⟩

theorem keepsAscii_octetsOf : KeepsAscii octetsOf where
  ascii := fun _ => octetsOf_ascii
  other := fun _ => octetsOf_foreign

theorem octets_eq_flatMap (text : List Char) : octets text = text.flatMap octetsOf := by
  induction text with
  | nil => rfl
  | cons c text ih => rw [octets_cons, List.flatMap_cons, ih]

/-- Bytes of any kind, taken for a text and written out again, are read alike. -/
theorem KeepsAscii.lossyTextOf {write : Char → List Char} (keeps : KeepsAscii write) (bytes : List UInt8) :
    SameAscii ((lossyTextOf bytes).flatMap write) (latin1 bytes) := by
  match bytes with
  | [] => exact .nil
  | first :: rest =>
    rcases lossyTextOf_cons first rest with ⟨low, isText⟩ | ⟨high, c, count, foreign, taken, isText⟩
    · have ascii : isAscii (Char.ofNat first.toNat) := by
        rw [isAscii, toNat_ofNat_toNat]
        exact low
      rw [isText, List.flatMap_cons, keeps.ascii _ ascii]
      exact .ascii ascii (keeps.lossyTextOf rest)
    · have pieces : latin1 (first :: rest) = latin1 (first :: rest.take count) ++ latin1 (rest.drop count) := by
        rw [latin1, latin1, latin1, ← List.map_append, List.cons_append, List.take_append_drop]
      rw [isText, List.flatMap_cons, pieces]
      refine .other (keeps.other c foreign).1 (List.cons_ne_nil _ _) (keeps.other c foreign).2 ?_
        (keeps.lossyTextOf (rest.drop count))
      intro d member
      obtain ⟨byte, inBytes, rfl⟩ := List.mem_map.mp member
      apply not_isAscii_ofNat
      rcases List.mem_cons.mp inBytes with rfl | inRest
      · exact high
      · exact taken byte inRest
termination_by bytes.length
decreasing_by
  · exact Nat.lt_succ_self _
  · rw [List.length_drop, List.length_cons]
    omega

theorem SameAscii.lossyTextOf (bytes : List UInt8) : SameAscii (lossyTextOf bytes) (latin1 bytes) := by
  have same := keepsAscii_singleton.lossyTextOf bytes
  rwa [List.flatMap_singleton'] at same

theorem SameAscii.octets_lossyTextOf (bytes : List UInt8) :
    SameAscii (Lib.octets (Lib.lossyTextOf bytes)) (latin1 bytes) := by
  rw [octets_eq_flatMap]
  exact keepsAscii_octetsOf.lossyTextOf bytes

theorem mayFollow_of_toNat {first second : UInt8} (continues : 128 ≤ second.toNat ∧ second.toNat ≤ 191)
    (e0 : first.toNat = 0xe0 → 160 ≤ second.toNat) (ed : first.toNat = 0xed → second.toNat ≤ 159)
    (f0 : first.toNat = 0xf0 → 144 ≤ second.toNat) (f4 : first.toNat = 0xf4 → second.toNat ≤ 143) :
    mayFollow first second := by
  have is : ∀ n : UInt8, first = n ↔ first.toNat = n.toNat := fun n => UInt8.toNat_inj.symm
  rw [mayFollow]
  simp only [isContinuation, is, UInt8.reduceToNat]
  split_ifs <;> simp only [Bool.and_eq_true, decide_eq_true_eq, UInt8.le_iff_toNat_le, UInt8.reduceToNat] <;> omega

/-- A first byte and as many bytes as it announces are a character. -/
theorem lossyTextOf_whole {first second : UInt8} {later : List UInt8} (rest : List UInt8)
    (isCount : announced first = later.length + 1) (follows : mayFollow first second)
    (continues : ∀ byte ∈ later, isContinuation byte) :
    lossyTextOf (first :: second :: later ++ rest) = scalar first (second :: later) :: lossyTextOf rest := by
  have isMore : following first (second :: later ++ rest) = second :: later := by
    have isTaken : (second :: later ++ rest).take (announced first) = second :: later :=
      List.take_left' (by rw [isCount, List.length_cons])
    rw [following, isTaken]
    dsimp only
    rw [if_pos follows, List.takeWhile_eq_self_iff.mpr continues]
  have high : ¬first < 0x80 := by
    rw [UInt8.lt_iff_toNat_lt]
    show ¬first.toNat < 128
    rcases announced_cases first with none | ⟨-, least, -⟩ | ⟨-, least, -⟩ | ⟨-, least, -⟩ <;> omega
  have isNext : lossyNext first (second :: later ++ rest) = (scalar first (second :: later), later.length + 1) := by
    rw [lossyNext, if_neg high, isMore]
    dsimp only
    rw [if_pos ⟨by omega, by rw [isCount, List.length_cons]⟩, List.length_cons]
  rw [List.cons_append, lossyTextOf, lossyFrom, isNext, lossyFrom_drop]
  exact congrArg (_ :: lossyTextOf ·) (List.drop_left' (List.length_cons ..))

theorem announced_eq_of_toNat {first : UInt8} {count : Nat}
    (isCount : count = 1 ∧ 0xc2 ≤ first.toNat ∧ first.toNat ≤ 0xdf ∨ count = 2 ∧ 0xe0 ≤ first.toNat ∧ first.toNat ≤ 0xef ∨
      count = 3 ∧ 0xf0 ≤ first.toNat ∧ first.toNat ≤ 0xf4) : announced first = count := by
  rw [announced]
  simp only [UInt8.le_iff_toNat_le, UInt8.reduceToNat]
  split_ifs <;> omega

theorem lossyTextOf_utf8EncodeChar (c : Char) (rest : List UInt8) :
    lossyTextOf (String.utf8EncodeChar c ++ rest) = c :: lossyTextOf rest := by
  have valid : c.toNat < 0xd800 ∨ 0xdfff < c.toNat ∧ c.toNat < 0x110000 := c.valid
  have isByte : ∀ n < 256, (UInt8.ofNat n).toNat = n := fun n below => UInt8.toNat_ofNat_of_lt' below
  have continues : ∀ n, isContinuation (UInt8.ofNat (n % 0x40 + 0x80)) := by
    intro n
    rw [isContinuation, Bool.and_eq_true, decide_eq_true_eq, decide_eq_true_eq, UInt8.le_iff_toNat_le,
      UInt8.le_iff_toNat_le, isByte _ (by omega)]
    simp only [UInt8.reduceToNat]
    omega
  have same : ∀ n, n = c.toNat → Char.ofNat n = c := by
    rintro n rfl
    exact Char.ofNat_toNat c
  have isNat : c.val.toNat = c.toNat := rfl
  rw [String.utf8EncodeChar]
  simp only [isNat]
  split
  next ascii =>
    have low : UInt8.ofNat c.toNat < 0x80 := by
      rw [UInt8.lt_iff_toNat_lt, isByte _ (by omega)]
      exact Nat.lt_succ_of_le ascii
    have isNext : lossyNext (UInt8.ofNat c.toNat) rest = (Char.ofNat (UInt8.ofNat c.toNat).toNat, 0) := if_pos low
    rw [List.singleton_append, lossyTextOf, lossyFrom, isNext, isByte _ (by omega), same _ rfl]
    rfl
  -- by the length of the code; the bits that are taken apart are put together again
  split
  next two =>
    have first := isByte (c.toNat / 64 % 0x20 + 0xc0) (by omega)
    have second := isByte (c.toNat % 0x40 + 0x80) (by omega)
    have isCount : announced (UInt8.ofNat (c.toNat / 64 % 0x20 + 0xc0)) = 1 :=
      announced_eq_of_toNat (.inl ⟨rfl, by omega, by omega⟩)
    have follows : mayFollow (UInt8.ofNat (c.toNat / 64 % 0x20 + 0xc0)) (UInt8.ofNat (c.toNat % 0x40 + 0x80)) := by
      apply mayFollow_of_toNat <;> omega
    refine (@lossyTextOf_whole _ _ [] rest isCount follows (List.forall_mem_nil _)).trans (congrArg (· :: lossyTextOf rest) (same _ ?_))
    rw [leadingBits, isCount, first]
    simp only [List.foldl_cons, List.foldl_nil, second]
    omega
  split
  next three =>
    have first := isByte (c.toNat / 4096 % 0x10 + 0xe0) (by omega)
    have second := isByte (c.toNat / 64 % 0x40 + 0x80) (by omega)
    have third := isByte (c.toNat % 0x40 + 0x80) (by omega)
    have isCount : announced (UInt8.ofNat (c.toNat / 4096 % 0x10 + 0xe0)) = 2 :=
      announced_eq_of_toNat (.inr (.inl ⟨rfl, by omega, by omega⟩))
    have follows : mayFollow (UInt8.ofNat (c.toNat / 4096 % 0x10 + 0xe0)) (UInt8.ofNat (c.toNat / 64 % 0x40 + 0x80)) := by
      apply mayFollow_of_toNat <;> omega
    have later : ∀ byte ∈ [UInt8.ofNat (c.toNat % 0x40 + 0x80)], isContinuation byte := by
      intro byte member
      obtain rfl := List.mem_singleton.mp member
      exact continues _
    refine (lossyTextOf_whole rest isCount follows later).trans (congrArg (· :: lossyTextOf rest) (same _ ?_))
    rw [leadingBits, isCount, first]
    simp only [List.foldl_cons, List.foldl_nil, second, third]
    omega
  next four =>
    have first := isByte (c.toNat / 262144 % 0x08 + 0xf0) (by omega)
    have second := isByte (c.toNat / 4096 % 0x40 + 0x80) (by omega)
    have third := isByte (c.toNat / 64 % 0x40 + 0x80) (by omega)
    have fourth := isByte (c.toNat % 0x40 + 0x80) (by omega)
    have isCount : announced (UInt8.ofNat (c.toNat / 262144 % 0x08 + 0xf0)) = 3 :=
      announced_eq_of_toNat (.inr (.inr ⟨rfl, by omega, by omega⟩))
    have follows : mayFollow (UInt8.ofNat (c.toNat / 262144 % 0x08 + 0xf0))
        (UInt8.ofNat (c.toNat / 4096 % 0x40 + 0x80)) := by
      apply mayFollow_of_toNat <;> omega
    have later : ∀ byte ∈ [UInt8.ofNat (c.toNat / 64 % 0x40 + 0x80), UInt8.ofNat (c.toNat % 0x40 + 0x80)],
        isContinuation byte := by
      intro byte member
      rcases List.mem_pair.mp member with rfl | rfl <;> exact continues _
    refine (lossyTextOf_whole rest isCount follows later).trans (congrArg (· :: lossyTextOf rest) (same _ ?_))
    rw [leadingBits, isCount, first]
    simp only [List.foldl_cons, List.foldl_nil, second, third, fourth]
    omega

theorem lossyTextOf_bytesOf (text : List Char) : lossyTextOf (bytesOf (String.ofList text)) = text := by
  induction text with
  | nil => rfl
  | cons c text ih => rw [bytesOf_ofList_cons, lossyTextOf_utf8EncodeChar, ih]

theorem following_append (first : UInt8) (before : List UInt8) {byte : UInt8} (ascii : byte.toNat < 128)
    (rest : List UInt8) : following first (before ++ byte :: rest) = following first before := by
  have stops : isContinuation byte = false := by
    rw [← Bool.not_eq_true]
    intro continues
    exact absurd (toNat_of_isContinuation continues).1 (Nat.not_le_of_lt ascii)
  have notNext : ¬mayFollow first byte := fun follows =>
    absurd (toNat_of_mayFollow follows).1.1 (Nat.not_le_of_lt ascii)
  have sameFront : ∀ (count : Nat) (before : List UInt8),
      ((before ++ byte :: rest).take count).takeWhile isContinuation = (before.take count).takeWhile isContinuation := by
    intro count before
    induction before generalizing count with
    | nil =>
      cases count with
      | zero => rfl
      | succ count => simp [stops]
    | cons second before ih =>
      cases count with
      | zero => rfl
      | succ count =>
        rw [List.cons_append, List.take_succ_cons, List.take_succ_cons, List.takeWhile_cons, List.takeWhile_cons,
          ih]
  rw [following, following]
  cases count : announced first with
  | zero => rfl
  | succ count =>
    cases before with
    | nil => simp [notNext]
    | cons second before =>
      simp only [List.cons_append, List.take_succ_cons]
      rw [sameFront]

theorem lossyTextOf_append (before : List UInt8) {byte : UInt8} (ascii : byte.toNat < 128) (rest : List UInt8) :
    lossyTextOf (before ++ byte :: rest) = lossyTextOf before ++ Char.ofNat byte.toNat :: lossyTextOf rest := by
  match before with
  | [] =>
    rcases lossyTextOf_cons byte rest with ⟨-, isText⟩ | ⟨high, -⟩
    · exact isText
    · exact absurd high (Nat.not_le_of_lt ascii)
  | first :: before =>
    have sameNext : lossyNext first (before ++ byte :: rest) = lossyNext first before := by
      rw [lossyNext, lossyNext, following_append first before ascii]
    have inside : (lossyNext first before).2 ≤ before.length := by
      rw [lossyNext]
      split
      · exact Nat.zero_le _
      · rcases following_cases first before with isEmpty | ⟨second, later, isMore, -, -, isFront⟩
        · simp [isEmpty]
        · rw [isMore]
          exact isFront.length_le
    have isText : lossyTextOf (first :: before) =
        (lossyNext first before).1 :: lossyTextOf (before.drop (lossyNext first before).2) := by
      rw [lossyTextOf, lossyFrom, lossyFrom_drop]
    rw [List.cons_append, lossyTextOf, lossyFrom, sameNext, lossyFrom_drop, List.drop_append_of_le_length inside,
      lossyTextOf_append (before.drop (lossyNext first before).2) ascii rest, isText]
    rfl
termination_by before.length
decreasing_by
  rw [List.length_drop, List.length_cons]
  omega

variable {mark : List UInt8}

theorem lossyTextOf_mark (before : List UInt8) (ascii : ∀ byte ∈ mark, byte.toNat < 128) (rest : List UInt8)
    (someMark : mark ≠ []) :
    lossyTextOf (before ++ (mark ++ rest)) = lossyTextOf before ++ (latin1 mark ++ lossyTextOf rest) := by
  induction mark generalizing before with
  | nil => exact absurd rfl someMark
  | cons byte mark ih =>
    obtain ⟨first, later⟩ := List.forall_mem_cons.mp ascii
    rw [List.cons_append, lossyTextOf_append before first]
    by_cases isLast : mark = []
    · subst isLast
      rfl
    · have behind := ih [] later isLast
      rw [List.nil_append] at behind
      rw [behind]
      rfl

/-- The mark is at the front of the bytes when it is at the front of the text. -/
theorem isPrefix_of_lossyTextOf (ascii : ∀ byte ∈ mark, byte.toNat < 128) {bytes : List UInt8}
    (begins : latin1 mark <+: lossyTextOf bytes) : mark <+: bytes := by
  induction mark generalizing bytes with
  | nil => exact List.nil_prefix
  | cons byte mark ih =>
    obtain ⟨first, later⟩ := List.forall_mem_cons.mp ascii
    cases bytes with
    | nil => exact absurd (List.prefix_nil.mp begins) (List.cons_ne_nil _ _)
    | cons other rest =>
      rcases lossyTextOf_cons other rest with ⟨low, isText⟩ | ⟨-, c, count, foreign, -, isText⟩
      · rw [isText] at begins
        obtain ⟨sameChar, behind⟩ := List.cons_prefix_cons.mp begins
        have sameByte : byte = other := by
          rw [← asciiByte_ofNat byte, ← asciiByte_ofNat other]
          exact congrArg asciiByte sameChar
        exact List.cons_prefix_cons.mpr ⟨sameByte, ih later behind⟩
      · rw [isText] at begins
        obtain ⟨sameChar, -⟩ := List.cons_prefix_cons.mp begins
        refine absurd ?_ foreign
        rw [← sameChar, isAscii, toNat_ofNat_toNat]
        exact first

/-- Where a mark begins first in the bytes it begins first in the text. -/
theorem position_lossyTextOf {mark : List UInt8} (ascii : ∀ byte ∈ mark, byte.toNat < 128) (someMark : mark ≠ [])
    {bytes : List UInt8} {i : Nat} (found : position mark bytes = some i) :
    position (latin1 mark) (lossyTextOf bytes) = some (lossyTextOf (bytes.take i)).length := by
  match bytes with
  | [] => cases found
  | first :: rest =>
    by_cases begins : mark <+: first :: rest
    · rw [position_eq_zero someMark begins] at found
      cases found
      obtain ⟨behind, isBytes⟩ := begins
      have isText := lossyTextOf_mark [] ascii behind someMark
      rw [List.nil_append] at isText
      rw [← isBytes, isText]
      exact position_eq_zero (mt List.map_eq_nil_iff.mp someMark) (List.prefix_append _ _)
    · have notInText : ¬latin1 mark <+: lossyTextOf (first :: rest) := mt (isPrefix_of_lossyTextOf ascii) begins
      rw [position, if_neg begins] at found
      obtain ⟨j, later, rfl⟩ := Option.map_eq_some_iff.mp found
      rcases lossyTextOf_cons first rest with ⟨low, isText⟩ | ⟨-, c, count, -, taken, isText⟩
      · rw [isText] at notInText ⊢
        rw [position, if_neg notInText, position_lossyTextOf ascii someMark later, List.take_succ_cons]
        rcases lossyTextOf_cons first (rest.take j) with ⟨-, same⟩ | ⟨high, -⟩
        · rw [same]
          rfl
        · exact absurd high (Nat.not_le_of_lt low)
      · -- the bytes of the character are passed together, and none of them begins the mark
        obtain ⟨byte, mark, rfl⟩ := List.exists_cons_of_ne_nil someMark
        have absent : byte ∉ rest.take count := fun member =>
          absurd (taken byte member) (Nat.not_le_of_lt (ascii byte List.mem_cons_self))
        have passed : position (byte :: mark) (rest.take count ++ rest.drop count) = _ :=
          position_append_of_notMem absent
        rw [List.take_append_drop, later] at passed
        obtain ⟨k, behind, isSum⟩ := Option.map_eq_some_iff.mp passed.symm
        have inside : count ≤ rest.length := by
          by_contra outside
          rw [List.drop_eq_nil_of_le (Nat.le_of_not_le outside)] at behind
          cases behind
        rw [List.length_take, Nat.min_eq_left inside] at isSum
        obtain ⟨tail, isTail⟩ := position_isPrefix behind
        have front : lossyTextOf ((first :: rest).take (j + 1)) = c :: lossyTextOf ((rest.drop count).take k) := by
          have whole : (first :: rest).take (j + 1) ++ (byte :: mark ++ tail) = first :: rest := by
            rw [isTail, List.drop_drop, Nat.add_comm count k, isSum]
            exact List.take_append_drop (j + 1) (first :: rest)
          have dropped : (rest.drop count).take k ++ (byte :: mark ++ tail) = rest.drop count := by
            rw [isTail, List.take_append_drop]
          rw [← whole, ← dropped, lossyTextOf_mark _ ascii tail someMark, lossyTextOf_mark _ ascii tail someMark,
            ← List.cons_append] at isText
          exact List.append_cancel_right isText
        rw [front]
        rw [isText] at notInText ⊢
        rw [position, if_neg notInText, position_lossyTextOf ascii someMark behind]
        rfl
termination_by bytes.length
decreasing_by
  · exact Nat.lt_succ_self _
  · rw [List.length_drop, List.length_cons]
    omega

end Nfrp.Lib
