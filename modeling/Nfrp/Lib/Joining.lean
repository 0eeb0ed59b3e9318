import Mathlib.Data.List.Sort
import Mathlib.Data.String.Basic

/-!
Texts joined with a separator.

What is joined can be told from the whole if no part has the separator in it, and if
either there is a part or none of them is empty.  A key and a value are told apart by
the first separator.
-/

namespace Nfrp.Lib

universe u

/-- What stands in the whole stands in a part, or between two. -/
theorem mem_intercalate {separator c : Char} {parts : List (List Char)}
    (member : c ∈ [separator].intercalate parts) : c = separator ∨ ∃ part ∈ parts, c ∈ part := by
  induction parts with
  | nil => cases member
  | cons part parts ih =>
    cases parts with
    | nil =>
      rw [List.intercalate_singleton] at member
      exact .inr ⟨part, List.mem_cons_self, member⟩
    | cons next parts =>
      rw [List.intercalate_cons_cons, List.mem_append, List.mem_append, List.mem_singleton] at member
      rcases member with (here | isSeparator) | later
      · exact .inr ⟨part, List.mem_cons_self, here⟩
      · exact .inl isSeparator
      · rcases ih later with isSeparator | ⟨other, isPart, inPart⟩
        · exact .inl isSeparator
        · exact .inr ⟨other, List.mem_cons_of_mem _ isPart, inPart⟩

section Join

variable {separator c : Char} {a b : List String}

/-- The parts with the separator between them. -/
def join (separator : Char) (parts : List String) : String :=
  (String.singleton separator).intercalate parts

theorem toList_join : (join separator a).toList = [separator].intercalate (a.map String.toList) := by
  rw [join, String.toList_intercalate, String.toList_singleton]

theorem mem_join (member : c ∈ (join separator a).toList) : c = separator ∨ ∃ part ∈ a, c ∈ part.toList := by
  rw [toList_join] at member
  refine (mem_intercalate member).imp_right ?_
  rintro ⟨text, isText, inText⟩
  obtain ⟨part, isPart, rfl⟩ := List.mem_map.mp isText
  exact ⟨part, isPart, inText⟩

theorem splitOn_join (some : a ≠ []) (clean : ∀ part ∈ a, separator ∉ part.toList) :
    (join separator a).toList.splitOn separator = a.map String.toList := by
  rw [toList_join]
  refine List.splitOn_intercalate separator (fun text isText => ?_) (mt List.map_eq_nil_iff.mp some)
  obtain ⟨part, isPart, rfl⟩ := List.mem_map.mp isText
  exact clean part isPart

theorem join_inj (someA : a ≠ []) (someB : b ≠ []) (cleanA : ∀ part ∈ a, separator ∉ part.toList)
    (cleanB : ∀ part ∈ b, separator ∉ part.toList) : join separator a = join separator b ↔ a = b := by
  refine ⟨fun same => ?_, congrArg _⟩
  have split : (join separator a).toList.splitOn separator = (join separator b).toList.splitOn separator := by
    rw [same]
  rw [splitOn_join someA cleanA, splitOn_join someB cleanB] at split
  exact List.map_injective_iff.mpr (fun _ _ => String.toList_injective) split

theorem join_nil : join separator [] = "" :=
  String.intercalate_nil

theorem join_singleton (part : String) : join separator [part] = part :=
  String.intercalate_singleton

theorem join_cons_cons (first second : String) (rest : List String) :
    join separator (first :: second :: rest) = first ++ String.singleton separator ++ join separator (second :: rest) :=
  String.intercalate_cons_cons

theorem mem_join_cons {part : String} {parts : List String} (isIn : c ∈ part.toList) :
    c ∈ (join separator (part :: parts)).toList := by
  cases parts with
  | nil => exact (join_singleton part).symm ▸ isIn
  | cons next parts =>
    rw [join_cons_cons, String.toList_append, String.toList_append]
    exact List.mem_append_left _ (List.mem_append_left _ isIn)

theorem join_eq_empty (full : ∀ part ∈ a, part ≠ "") (isEmpty : join separator a = "") : a = [] := by
  cases a with
  | nil => rfl
  | cons part rest =>
    have nothing := congrArg String.toList isEmpty
    rw [toList_join, List.map_cons] at nothing
    have isPart : part.toList = [] := by
      cases rest with
      | nil => exact List.intercalate_singleton.symm.trans nothing
      | cons next rest =>
        rw [List.map_cons, List.intercalate_cons_cons] at nothing
        exact (List.append_eq_nil_iff.mp (List.append_eq_nil_iff.mp nothing).1).1
    exact absurd (String.toList_eq_nil_iff.mp isPart) (full part List.mem_cons_self)

/-- Where no part is empty, it does not matter that there may be none. -/
theorem join_inj_of_full (fullA : ∀ part ∈ a, part ≠ "") (fullB : ∀ part ∈ b, part ≠ "")
    (cleanA : ∀ part ∈ a, separator ∉ part.toList) (cleanB : ∀ part ∈ b, separator ∉ part.toList) :
    join separator a = join separator b ↔ a = b := by
  refine ⟨fun same => ?_, congrArg _⟩
  by_cases noA : a = []
  · rw [noA, join_nil] at same
    rw [noA, join_eq_empty fullB same.symm]
  by_cases noB : b = []
  · rw [noB, join_nil] at same
    rw [noB, join_eq_empty fullA same]
  exact (join_inj noA noB cleanA cleanB).mp same

end Join

theorem first_separator_inj {Symbol : Type u} {separator : Symbol} {before after other another : List Symbol}
    (clean : separator ∉ before) (isClean : separator ∉ other)
    (same : before ++ separator :: after = other ++ separator :: another) : before = other ∧ after = another := by
  induction before generalizing other with
  | nil =>
    cases other with
    | nil => exact ⟨rfl, (List.cons.inj same).2⟩
    | cons symbol other => exact absurd ((List.cons.inj same).1 ▸ List.mem_cons_self) isClean
  | cons symbol before ih =>
    cases other with
    | nil => exact absurd ((List.cons.inj same).1 ▸ List.mem_cons_self) clean
    | cons first other =>
      obtain ⟨rfl, rest⟩ := List.cons.inj same
      obtain ⟨sameBefore, sameAfter⟩ := ih (fun isIn => clean (List.mem_cons_of_mem _ isIn))
        (fun isIn => isClean (List.mem_cons_of_mem _ isIn)) rest
      exact ⟨congrArg _ sameBefore, sameAfter⟩

theorem append_separator_inj {separator : Char} {key value other another : String} (clean : separator ∉ key.toList)
    (isClean : separator ∉ other.toList) :
    key ++ String.singleton separator ++ value = other ++ String.singleton separator ++ another ↔
      key = other ∧ value = another := by
  refine ⟨fun same => ?_, fun ⟨sameKey, sameValue⟩ => by rw [sameKey, sameValue]⟩
  have texts := congrArg String.toList same
  simp only [String.toList_append, String.toList_singleton, List.append_assoc, List.singleton_append] at texts
  obtain ⟨sameKey, sameValue⟩ := first_separator_inj clean isClean texts
  exact ⟨String.toList_injective sameKey, String.toList_injective sameValue⟩

theorem zipWith_append_inj {labels a b : List String} (sameLength : a.length = b.length) (enough : a.length ≤ labels.length) :
    labels.zipWith (· ++ ·) a = labels.zipWith (· ++ ·) b ↔ a = b := by
  refine ⟨fun same => ?_, congrArg _⟩
  induction labels generalizing a b with
  | nil =>
    rw [List.length_eq_zero_iff.mp (Nat.le_zero.mp enough)] at sameLength ⊢
    exact (List.length_eq_zero_iff.mp sameLength.symm).symm
  | cons label labels ih =>
    cases a with
    | nil => exact (List.length_eq_zero_iff.mp sameLength.symm).symm
    | cons text a =>
      cases b with
      | nil => cases sameLength
      | cons other b =>
        obtain ⟨sameText, sameRest⟩ := List.cons.inj same
        rw [(String.append_right_inj label).mp sameText,
          ih (Nat.succ.inj sameLength) (Nat.le_of_succ_le_succ enough) sameRest]

theorem mem_zipWith_append {labels texts : List String} {part : String} (isPart : part ∈ labels.zipWith (· ++ ·) texts) :
    ∃ label ∈ labels, ∃ text ∈ texts, part = label ++ text := by
  induction labels generalizing texts with
  | nil => cases isPart
  | cons label labels ih =>
    cases texts with
    | nil => cases isPart
    | cons text texts =>
      rcases List.mem_cons.mp isPart with isFirst | isLater
      · exact ⟨label, List.mem_cons_self, text, List.mem_cons_self, isFirst⟩
      · obtain ⟨other, isLabel, another, isText, isPart⟩ := ih isLater
        exact ⟨other, List.mem_cons_of_mem _ isLabel, another, List.mem_cons_of_mem _ isText, isPart⟩

section Sorted

variable {Item : Type u} {Key : Type*} [LinearOrder Key] {key : Item → Key} {a b : List Item}

theorem pairwise_sorted (items : List Item) :
    (items.insertionSort fun x y => ¬key y < key x).Pairwise fun x y => ¬key y < key x := by
  have isTotal : Std.Total fun x y : Item => ¬key y < key x := ⟨fun x y => by
    rw [not_lt, not_lt]
    exact le_total _ _⟩
  have isTrans : IsTrans Item fun x y => ¬key y < key x := ⟨fun x y z first second => by
    rw [not_lt] at first second ⊢
    exact first.trans second⟩
  exact List.pairwise_insertionSort _ items

/-- Sorted by what tells them apart, the same items make one list. -/
theorem insertionSort_eq_of_perm (apart : ∀ x ∈ a, ∀ y ∈ a, key x = key y → x = y) (same : a.Perm b) :
    a.insertionSort (fun x y => ¬key y < key x) = b.insertionSort (fun x y => ¬key y < key x) := by
  have samePerm : (a.insertionSort fun x y => ¬key y < key x).Perm (b.insertionSort fun x y => ¬key y < key x) :=
    (List.perm_insertionSort _ a).trans (same.trans (List.perm_insertionSort _ b).symm)
  refine samePerm.eq_of_pairwise (fun x y isX isY first second => ?_) (pairwise_sorted a) (pairwise_sorted b)
  rw [List.mem_insertionSort] at isX isY
  rw [not_lt] at first second
  exact apart x isX y (same.mem_iff.mpr isY) (le_antisymm first second)

end Sorted

end Nfrp.Lib
