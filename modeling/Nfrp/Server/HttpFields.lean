import Nfrp.Server.HttpIo

/-!
# Fields as they are read behind the connection

A field is looked at under the name that it came with, and goes out without carriage
returns, line feeds and zero characters; who reads it next finds the name up to the first
colon.  The two names need not be the same.
-/

namespace Nfrp

open Lib

def sentName (name : List Char) : List Char :=
  (stripCrlf name).takeWhile (· ≠ ':')

def namesField (key name : List Char) : Bool :=
  sameIgnoringCase (sentName name) key

def sentValues (key : List Char) (headers : List (List Char × List Char)) : List (List Char) :=
  fieldValues key (headers.map HeadParts.fieldLine)

def IsName (name : List Char) : Prop :=
  name ≠ [] ∧ name.all isTokenChar

instance : DecidablePred IsName := fun name => inferInstanceAs (Decidable (name ≠ [] ∧ name.all isTokenChar))

theorem map_toLower_sentName (name : List Char) : (sentName name).map Char.toLower = sentName (name.map Char.toLower) := by
  have dropped : (fun c : Char => !decide (c ∈ ['\r', '\n', Char.ofNat 0])) ∘ Char.toLower
      = fun c => !decide (c ∈ ['\r', '\n', Char.ofNat 0]) := by
    funext c
    simp only [Function.comp_apply, List.mem_cons, List.not_mem_nil, or_false,
      toLower_eq_iff (show '\r'.toNat < 65 by decide), toLower_eq_iff (show '\n'.toNat < 65 by decide),
      toLower_eq_iff (show (Char.ofNat 0).toNat < 65 by decide)]
  have stops : (fun c : Char => decide (c ≠ ':')) ∘ Char.toLower = fun c => decide (c ≠ ':') := by
    funext c
    simp only [Function.comp_apply, ne_eq, toLower_eq_iff (show ':'.toNat < 65 by decide)]
  rw [sentName, sentName, stripCrlf, stripCrlf, List.filter_map, List.takeWhile_map, dropped, stops]

theorem namesField_congr {key name other : List Char} (same : sameIgnoringCase name other) :
    namesField key name = namesField key other := by
  rw [sameIgnoringCase, beq_iff_eq] at same
  rw [namesField, namesField, sameIgnoringCase, sameIgnoringCase, map_toLower_sentName, map_toLower_sentName, same]

theorem isTokenChar_toLower (c : Char) : isTokenChar c.toLower = isTokenChar c := by
  by_cases letter : 65 ≤ c.toNat ∧ c.toNat ≤ 90
  · have upper : c.isAlphanum := isAlphanum_iff.mpr (.inl letter)
    have lower : c.toLower.isAlphanum := by
      rw [isAlphanum_iff, toNat_toLower, if_pos letter]
      omega
    rw [isTokenChar, isTokenChar, upper, lower]
    rfl
  · have same : c.toLower = c := by
      rw [← Char.toNat_inj, toNat_toLower, if_neg letter]
    rw [same]

theorem isName_congr {name other : List Char} (same : sameIgnoringCase name other) :
    IsName (sentName name) ↔ IsName (sentName other) := by
  have lowered : ∀ word : List Char, IsName word ↔ IsName (word.map Char.toLower) := by
    intro word
    have sameToken : isTokenChar ∘ Char.toLower = isTokenChar := funext isTokenChar_toLower
    rw [IsName, IsName, List.all_map, sameToken, ne_eq, ne_eq, List.map_eq_nil_iff]
  rw [sameIgnoringCase, beq_iff_eq] at same
  rw [lowered (sentName name), lowered (sentName other), map_toLower_sentName, map_toLower_sentName, same]

theorem stripCrlf_stripCrlf (text : List Char) : stripCrlf (stripCrlf text) = stripCrlf text := by
  rw [stripCrlf, stripCrlf, List.filter_filter]
  simp only [Bool.and_self]

theorem sentName_stripCrlf (name : List Char) : sentName (stripCrlf name) = sentName name := by
  rw [sentName, stripCrlf_stripCrlf]
  rfl

/-- The line of a field is read as the name sent, and what follows the colon. -/
theorem splitOnce_fieldLine (field : List Char × List Char) :
    ∃ value, splitOnce ':' (HeadParts.fieldLine field) = some (sentName field.1, value) := by
  have whole : HeadParts.fieldLine field = stripCrlf field.1 ++ ':' :: ' ' :: stripCrlf field.2 := by
    rw [HeadParts.fieldLine, List.append_assoc]
    rfl
  have noColon : ':' ∉ sentName field.1 := fun member => absurd (List.mem_takeWhile_imp member) (by decide)
  rw [whole]
  conv in stripCrlf field.1 ++ _ => rw [← List.takeWhile_append_dropWhile (p := (· ≠ ':')) (l := stripCrlf field.1)]
  rw [List.append_assoc]
  cases behind : (stripCrlf field.1).dropWhile (· ≠ ':') with
  | nil => exact ⟨_, splitOnce_append noColon⟩
  | cons c more =>
    have isColon : c = ':' := by
      have stopped := List.head?_dropWhile_not (· ≠ ':') (stripCrlf field.1)
      rw [behind] at stopped
      simpa using stopped
    rw [isColon]
    exact ⟨_, splitOnce_append noColon⟩

section Values

variable {key : List Char} {field : List Char × List Char} {headers : List (List Char × List Char)}

theorem sentValues_cons (field : List Char × List Char) (later : List (List Char × List Char)) :
    sentValues key (field :: later) = sentValues key [field] ++ sentValues key later := by
  rw [sentValues, sentValues, sentValues, List.map_cons, fieldValues, fieldValues, fieldValues, List.map_singleton,
    ← List.filterMap_append, List.singleton_append]

theorem sentValues_singleton_of_other (other : namesField key field.1 = false) : sentValues key [field] = [] := by
  obtain ⟨value, isSplit⟩ := splitOnce_fieldLine field
  rw [namesField] at other
  rw [sentValues, List.map_singleton, fieldValues, List.filterMap_cons_none]
  · rfl
  · rw [isSplit, Option.bind_some, other]
    rfl

theorem sentValues_cons_of_other (other : namesField key field.1 = false) :
    sentValues key (field :: headers) = sentValues key headers := by
  rw [sentValues_cons, sentValues_singleton_of_other other]
  rfl

theorem sentValues_filter (kept : List Char × List Char → Bool) (others : ∀ field, namesField key field.1 → kept field) :
    sentValues key (headers.filter kept) = sentValues key headers := by
  induction headers with
  | nil => rfl
  | cons field later ih =>
    by_cases isKept : kept field
    · rw [List.filter_cons_of_pos isKept, sentValues_cons, ih, ← sentValues_cons]
    · have other : namesField key field.1 = false := Bool.eq_false_iff.mpr fun named => isKept (others field named)
      rw [List.filter_cons_of_neg isKept, ih, sentValues_cons_of_other other]

theorem sentValues_remove {name : List Char} (other : namesField key name = false) (head : HeadParts) :
    sentValues key (head.remove name).headers = sentValues key head.headers := by
  refine sentValues_filter _ fun field named => ?_
  by_contra same
  rw [Bool.not_eq_true, Bool.not_eq_false'] at same
  rw [namesField_congr same, other] at named
  exact Bool.false_ne_true named

theorem sentValues_setField {name : List Char} (other : namesField key name = false) (value : List Char) :
    sentValues key (HeadParts.setField name value headers) = sentValues key headers := by
  induction headers with
  | nil => exact sentValues_cons_of_other other
  | cons field later ih =>
    rw [HeadParts.setField]
    split
    next same =>
      have otherField : namesField key field.1 = false := (namesField_congr same).trans other
      have otherPair : namesField key (field.1, value).1 = false := otherField
      rw [sentValues_cons_of_other otherField, sentValues_cons_of_other otherPair]
    next => rw [sentValues_cons, ih, ← sentValues_cons]

theorem sentValues_set {name : List Char} (other : namesField key name = false) (value : List Char) (head : HeadParts) :
    sentValues key (head.set name value).headers = sentValues key head.headers := by
  refine sentValues_setField ?_ _
  rw [namesField, sentName_stripCrlf]
  exact other

end Values

def firstOfEach : List (List Char × List Char) → List (List Char × List Char)
  | [] => []
  | field :: later => field :: (firstOfEach later).filter fun other => !sameIgnoringCase other.1 field.1

namespace HeadParts

/-- Fields for this hop only: those that are known, and those that the first Connection field names. -/
def drops (req : HeadParts) (name : List Char) : Bool :=
  (hopByHop ++ req.connectionTokens).any (sameIgnoringCase name ·)

/-- The values under which the fields of the name that are left go on, each name once. -/
def standing (req : HeadParts) (key : List Char) : List (List Char) :=
  sentValues key (firstOfEach (req.headers.filter fun field => !req.drops field.1))

theorem headers_foldl_remove (names : List (List Char)) (head : HeadParts) :
    (names.foldl remove head).headers = head.headers.filter fun field => !names.any (sameIgnoringCase field.1 ·) := by
  induction names generalizing head with
  | nil => exact (List.filter_eq_self.mpr fun _ _ => rfl).symm
  | cons name names ih =>
    rw [List.foldl_cons, ih, remove, List.filter_filter]
    refine List.filter_congr fun field _ => ?_
    rw [List.any_cons, Bool.not_or, Bool.and_comm]

theorem startLine_set (name value : List Char) (head : HeadParts) : (head.set name value).startLine = head.startLine := rfl

theorem startLine_foldl_remove (names : List (List Char)) (head : HeadParts) :
    (names.foldl remove head).startLine = head.startLine := by
  induction names generalizing head with
  | nil => rfl
  | cons name names ih => exact ih _

theorem startLine_stripHopByHop (head : HeadParts) : head.stripHopByHop.startLine = head.startLine := by
  rw [stripHopByHop]
  exact startLine_foldl_remove _ head

theorem headers_stripHopByHop (head : HeadParts) :
    head.stripHopByHop.headers = head.headers.filter fun field => !head.drops field.1 :=
  headers_foldl_remove _ head

theorem filter_dedupFields {key : List Char} (single : ∀ name, namesField key name → name.map Char.toLower ∉ allowMulti)
    (seen : List (List Char)) (headers : List (List Char × List Char)) :
    (dedupFields seen headers).filter (fun field => namesField key field.1) =
      ((firstOfEach headers).filter fun field => namesField key field.1).filter
        fun field => field.1.map Char.toLower ∉ seen := by
  induction headers generalizing seen with
  | nil => rfl
  | cons field later ih =>
    have later_eq : ∀ kept : List Char × List Char → Bool,
        (∀ other, namesField key other.1 → (kept other ↔
          other.1.map Char.toLower ≠ field.1.map Char.toLower ∧ other.1.map Char.toLower ∉ seen)) →
        (((firstOfEach later).filter fun other => !sameIgnoringCase other.1 field.1).filter
            fun other => namesField key other.1).filter (fun other => other.1.map Char.toLower ∉ seen) =
          ((firstOfEach later).filter fun other => namesField key other.1).filter kept := by
      intro kept agree
      rw [List.filter_filter, List.filter_filter, List.filter_filter]
      refine List.filter_congr fun other _ => ?_
      by_cases named : namesField key other.1
      · rw [Bool.eq_iff_iff, named, Bool.and_true, Bool.and_eq_true, Bool.and_eq_true, agree other named, Bool.not_eq_true',
          sameIgnoringCase, beq_eq_false_iff_ne, decide_eq_true_eq, and_comm, and_iff_left rfl]
      · rw [Bool.eq_false_iff.mpr named, Bool.and_false, Bool.false_and, Bool.and_false]
    have takes : ∀ rest, (field :: rest).filter (fun field => namesField key field.1) =
        if namesField key field.1 then field :: rest.filter (fun field => namesField key field.1)
        else rest.filter fun field => namesField key field.1 := fun rest => List.filter_cons
    have leaves : ∀ rest, (field :: rest).filter (fun field => field.1.map Char.toLower ∉ seen) =
        if field.1.map Char.toLower ∉ seen then field :: rest.filter (fun field => field.1.map Char.toLower ∉ seen)
        else rest.filter fun field => field.1.map Char.toLower ∉ seen := by
      intro rest
      rw [List.filter_cons]
      simp only [decide_eq_true_eq]
    rw [dedupFields, firstOfEach]
    split
    next several =>
      have other : ¬namesField key field.1 := fun named => single field.1 named several
      rw [takes, takes, if_neg other, if_neg other, ih, later_eq]
      intro other named
      rw [decide_eq_true_eq, and_iff_right]
      exact fun same => single other.1 named (same ▸ several)
    next =>
      split
      next isSeen =>
        rw [ih]
        by_cases named : namesField key field.1
        · rw [takes, if_pos named, leaves, if_neg (not_not.mpr isSeen), later_eq]
          intro other _
          rw [decide_eq_true_eq, and_iff_right_of_imp]
          exact fun unseen same => unseen (same ▸ isSeen)
        · rw [takes, if_neg named, later_eq]
          intro other _
          rw [decide_eq_true_eq, and_iff_right_of_imp]
          exact fun unseen same => unseen (same ▸ isSeen)
      next unseen =>
        have agree : ∀ other : List Char × List Char, namesField key other.1 →
            (decide (other.1.map Char.toLower ∉ field.1.map Char.toLower :: seen) = true ↔
              other.1.map Char.toLower ≠ field.1.map Char.toLower ∧ other.1.map Char.toLower ∉ seen) := by
          intro other _
          rw [decide_eq_true_eq, List.mem_cons, not_or]
        by_cases named : namesField key field.1
        · rw [takes, takes, if_pos named, if_pos named, leaves, if_pos unseen, ih, later_eq _ agree]
        · rw [takes, takes, if_neg named, if_neg named, ih, later_eq _ agree]

theorem sentValues_stripped {key : List Char} (single : ∀ name, namesField key name → name.map Char.toLower ∉ allowMulti)
    (req : HeadParts) : sentValues key req.stripHopByHop.dedupHeaders.headers = req.standing key := by
  rw [dedupHeaders, standing, headers_stripHopByHop,
    ← sentValues_filter (fun field => namesField key field.1) fun _ named => named, filter_dedupFields single,
    List.filter_eq_self.mpr fun field _ => decide_eq_true List.not_mem_nil,
    sentValues_filter (fun field => namesField key field.1) fun _ named => named]

def apart (dropped : List Char → Bool) (head : HeadParts) : HeadParts :=
  { head with headers := head.headers.filter fun field => !dropped field.1 }

section Apart

variable {dropped : List Char → Bool} (sameNames : ∀ name other, sameIgnoringCase name other → dropped name = dropped other)

include sameNames

theorem filter_setField (name value : List Char) (headers : List (List Char × List Char)) :
    (setField name value headers).filter (fun field => !dropped field.1) =
      if dropped name then headers.filter fun field => !dropped field.1
      else setField name value (headers.filter fun field => !dropped field.1) := by
  have takes : ∀ (field : List Char × List Char) later, (field :: later).filter (fun field => !dropped field.1) =
      if dropped field.1 then later.filter fun field => !dropped field.1
      else field :: later.filter fun field => !dropped field.1 := by
    intro field later
    rw [List.filter_cons]
    cases dropped field.1 with
    | true => rfl
    | false => rfl
  induction headers with
  | nil =>
    rw [setField, takes]
    rfl
  | cons field later ih =>
    rw [setField, takes]
    split
    next same =>
      rw [takes, sameNames _ _ same]
      split
      next => rfl
      next => rw [setField, if_pos same]
    next different =>
      rw [takes, ih]
      by_cases isDropped : dropped field.1
      · rw [if_pos isDropped, if_pos isDropped]
      · rw [if_neg isDropped, if_neg isDropped]
        split
        next => rfl
        next => rw [setField, if_neg different]

theorem apart_set (name value : List Char) (head : HeadParts) : (head.set name value).apart dropped =
    if dropped (stripCrlf name) then head.apart dropped else (head.apart dropped).set name value := by
  rw [HeadParts.set, apart, filter_setField sameNames]
  split
  next => rfl
  next => rfl

theorem apart_foldl_set {head other : HeadParts} (same : head.apart dropped = other.apart dropped)
    (fields : List (List Char × List Char)) :
    (fields.foldl (fun head field => head.set field.1 field.2) head).apart dropped =
      (fields.foldl (fun head field => head.set field.1 field.2) other).apart dropped := by
  induction fields generalizing head other with
  | nil => exact same
  | cons field fields ih =>
    apply ih
    rw [apart_set sameNames, apart_set sameNames, same]

theorem get_apart {key : List Char} (isKept : dropped key = false) (head : HeadParts) :
    (head.apart dropped).get key = head.get key := by
  have sameTest : (fun field : List Char × List Char => decide ((!dropped field.1) = true ∧ sameIgnoringCase field.1 key = true)) =
      fun field => sameIgnoringCase field.1 key := by
    funext field
    cases named : sameIgnoringCase field.1 key with
    | false => simp
    | true => simp [sameNames _ _ named, isKept]
  rw [HeadParts.get, HeadParts.get, apart, List.find?_filter, sameTest]

theorem get_congr {key : List Char} (isKept : dropped key = false) {head other : HeadParts}
    (same : head.apart dropped = other.apart dropped) : head.get key = other.get key := by
  rw [← get_apart sameNames isKept head, same, get_apart sameNames isKept]

omit sameNames in
theorem sentValues_congr {key : List Char} (isKept : ∀ name, namesField key name → dropped name = false)
    {head other : HeadParts} (same : head.apart dropped = other.apart dropped) :
    sentValues key head.headers = sentValues key other.headers := by
  have passes : ∀ field : List Char × List Char, namesField key field.1 → (!dropped field.1) = true := by
    intro field named
    rw [isKept field.1 named]
    rfl
  rw [← sentValues_filter (fun field => !dropped field.1) passes, ← @sentValues_filter _ other.headers (fun field => !dropped field.1) passes]
  exact congrArg (fun head => sentValues key head.headers) same

end Apart

theorem sentValues_ne_nil {key : List Char} {head : HeadParts} (named : namesField key key) (found : (head.get key).isSome) :
    sentValues key head.headers ≠ [] := by
  rw [HeadParts.get, Option.isSome_map, List.find?_isSome] at found
  obtain ⟨field, member, same⟩ := found
  intro none
  rw [sentValues, fieldValues, List.filterMap_eq_nil_iff] at none
  have absent := none _ (List.mem_map_of_mem member)
  obtain ⟨value, isSplit⟩ := splitOnce_fieldLine field
  rw [← namesField_congr same, namesField] at named
  rw [isSplit, Option.bind_some, if_pos named] at absent
  cases absent

/-- A property of names that does not look at small and large letters. -/
def Caseless (property : List Char → Prop) : Prop :=
  ∀ name other, sameIgnoringCase name other → (property name ↔ property other)

section Names

variable {property : List Char → Prop} (caseless : Caseless property) (head : HeadParts)

include caseless

theorem forall_setField (name value : List Char) (headers : List (List Char × List Char)) :
    (∀ field ∈ setField name value headers, property field.1) ↔ property name ∧ ∀ field ∈ headers, property field.1 := by
  induction headers with
  | nil =>
    rw [setField, List.forall_mem_singleton]
    exact (and_iff_left nofun).symm
  | cons field later ih =>
    rw [setField]
    split
    next same =>
      rw [List.forall_mem_cons, List.forall_mem_cons, ← caseless _ _ same]
      exact (and_self_left).symm
    next => rw [List.forall_mem_cons, List.forall_mem_cons, ih, and_left_comm]

theorem forall_set (name value : List Char) :
    (∀ field ∈ (head.set name value).headers, property field.1) ↔
      property (stripCrlf name) ∧ ∀ field ∈ head.headers, property field.1 :=
  forall_setField caseless _ _ _

theorem forall_foldl_set (fields : List (List Char × List Char)) :
    (∀ field ∈ (fields.foldl (fun head field => head.set field.1 field.2) head).headers, property field.1) ↔
      (∀ field ∈ fields, property (stripCrlf field.1)) ∧ ∀ field ∈ head.headers, property field.1 := by
  induction fields generalizing head with
  | nil => exact (and_iff_right nofun).symm
  | cons field fields ih =>
    rw [List.foldl_cons, ih, forall_set caseless, List.forall_mem_cons, and_assoc, and_left_comm]

theorem forall_dedupFields (seen : List (List Char)) (headers : List (List Char × List Char))
    (known : ∀ name, name.map Char.toLower ∈ seen → property name) :
    (∀ field ∈ dedupFields seen headers, property field.1) ↔ ∀ field ∈ headers, property field.1 := by
  induction headers generalizing seen with
  | nil => exact Iff.rfl
  | cons field later ih =>
    rw [dedupFields]
    split
    next => rw [List.forall_mem_cons, List.forall_mem_cons, ih seen known]
    next =>
      split
      next isSeen =>
        rw [List.forall_mem_cons, ih seen known]
        exact (and_iff_right (known field.1 isSeen)).symm
      next =>
        rw [List.forall_mem_cons, List.forall_mem_cons]
        refine and_congr_right fun isKnown => ih _ fun name isSeen => ?_
        rcases List.mem_cons.mp isSeen with same | isSeen
        · exact (caseless field.1 name (beq_iff_eq.mpr same.symm)).mp isKnown
        · exact known name isSeen

end Names

theorem forall_filter {property : List Char → Prop} (dropped : List Char → Bool) (headers : List (List Char × List Char)) :
    (∀ field ∈ headers.filter fun field => !dropped field.1, property field.1) ↔
      ∀ field ∈ headers, property field.1 ∨ dropped field.1 := by
  refine forall_congr' fun field => ?_
  rw [List.mem_filter]
  cases dropped field.1 with
  | true => simp
  | false => simp

theorem toBytes_append (head : HeadParts) (body : List UInt8) :
    head.toBytes ++ body = headBytes (head.toLines.map encoded) body := by
  rw [toBytes, headBytes, List.flatMap_map]

theorem not_mem_stripCrlf (text : List Char) : '\r' ∉ stripCrlf text ∧ '\n' ∉ stripCrlf text := by
  constructor
  · exact fun member => absurd (List.mem_filter.mp member).2 (by decide)
  · exact fun member => absurd (List.mem_filter.mp member).2 (by decide)

theorem areLines_toLines {head : HeadParts} (some : stripCrlf head.startLine ≠ []) : AreLines head.toLines := by
  intro line member
  rcases List.mem_cons.mp member with rfl | inFields
  · exact ⟨some, not_mem_stripCrlf _⟩
  · obtain ⟨field, -, rfl⟩ := List.mem_map.mp inFields
    obtain ⟨noReturn, noFeed⟩ := not_mem_stripCrlf field.1
    obtain ⟨noReturn', noFeed'⟩ := not_mem_stripCrlf field.2
    have separator : '\r' ∉ ": ".toList ∧ '\n' ∉ ": ".toList := by decide
    rw [fieldLine]
    refine ⟨by simp, ?_, ?_⟩
    · simp only [List.mem_append, not_or]
      exact ⟨⟨noReturn, separator.1⟩, noReturn'⟩
    · simp only [List.mem_append, not_or]
      exact ⟨⟨noFeed, separator.2⟩, noFeed'⟩

theorem fieldIn_fieldLine (field : List Char × List Char) :
    (fieldIn (fieldLine field)).isSome ↔ IsName (sentName field.1) := by
  obtain ⟨value, isSplit⟩ := splitOnce_fieldLine field
  rw [fieldIn, isSplit, Option.bind_some]
  dsimp only
  split
  next isName => exact iff_of_true rfl isName
  next noName => exact iff_of_false Bool.false_ne_true noName

theorem isSome_mapM_fieldIn (headers : List (List Char × List Char)) :
    ((headers.map fieldLine).mapM fieldIn).isSome ↔ ∀ field ∈ headers, IsName (sentName field.1) := by
  induction headers with
  | nil => exact iff_of_true rfl nofun
  | cons field later ih =>
    rw [List.map_cons, List.mapM_cons, List.forall_mem_cons, ← ih, ← fieldIn_fieldLine]
    cases fieldIn (fieldLine field) with
    | none => simp
    | some first =>
      cases (later.map fieldLine).mapM fieldIn with
      | none => simp
      | some fields => simp

theorem valuesOf_mapM_fieldIn {key : List Char} (small : key.map Char.toLower = key) {lines : List (List Char)} {fields : Fields}
    (areFields : lines.mapM fieldIn = some fields) : valuesOf key fields = fieldValues key lines := by
  induction lines generalizing fields with
  | nil =>
    obtain rfl := Option.some.inj areFields
    rfl
  | cons line lines ih =>
    rw [List.mapM_cons] at areFields
    obtain ⟨field, isField, areFields⟩ := Option.bind_eq_some_iff.mp areFields
    obtain ⟨later, isLater, isFields⟩ := Option.bind_eq_some_iff.mp areFields
    obtain rfl := Option.some.inj isFields
    have rest := ih isLater
    rw [fieldIn] at isField
    obtain ⟨parts, isSplit, isField⟩ := Option.bind_eq_some_iff.mp isField
    split at isField
    next =>
      obtain rfl := Option.some.inj isField
      have sameName : parts.1.map Char.toLower = key ↔ sameIgnoringCase parts.1 key := by
        rw [sameIgnoringCase, beq_iff_eq, small]
      rw [valuesOf] at rest ⊢
      rw [fieldValues, List.filterMap_cons, isSplit, Option.bind_some, List.filter_cons]
      simp only [sameName, decide_eq_true_eq]
      by_cases named : sameIgnoringCase parts.1 key
      · rw [if_pos named, if_pos named, List.map_cons, rest]
        rfl
      · rw [if_neg named, if_neg named, rest]
        rfl
    next => cases isField

section Read

variable {head : HeadParts}

theorem exists_headOf_toLines {found : List Char → Option Framing → Prop} :
    (∃ start fields, headOf head.toLines = some (start, fields) ∧ found start (framingOf fields)) ↔
      (∀ field ∈ head.headers, IsName (sentName field.1)) ∧
        found (stripCrlf head.startLine)
          (framing (sentValues "transfer-encoding".toList head.headers) (sentValues "content-length".toList head.headers)) := by
  have framed : ∀ {fields}, (head.headers.map fieldLine).mapM fieldIn = some fields → framingOf fields =
      framing (sentValues "transfer-encoding".toList head.headers) (sentValues "content-length".toList head.headers) := by
    intro fields areFields
    rw [framingOf, valuesOf_mapM_fieldIn (by decide) areFields, valuesOf_mapM_fieldIn (by decide) areFields]
    rfl
  rw [← isSome_mapM_fieldIn, toLines]
  constructor
  · rintro ⟨start, fields, isHead, isFound⟩
    obtain ⟨fields', areFields, same⟩ := Option.map_eq_some_iff.mp isHead
    obtain ⟨rfl, rfl⟩ := Prod.mk.inj same
    rw [areFields]
    exact ⟨rfl, framed areFields ▸ isFound⟩
  · rintro ⟨areFields, isFound⟩
    obtain ⟨fields, areFields⟩ := Option.isSome_iff_exists.mp areFields
    refine ⟨stripCrlf head.startLine, fields, ?_, (framed areFields).symm ▸ isFound⟩
    rw [headOf, areFields]
    rfl

theorem requestMessage_crlf (bytes : List UInt8) : requestMessage (crlf ++ bytes) = none := rfl

theorem responseMessage_crlf (toHead : Bool) (bytes : List UInt8) : responseMessage toHead (crlf ++ bytes) = none := rfl

variable {body left content : List UInt8} {length : BodyLength}

theorem requestMessage_toBytes :
    (∃ start, requestMessage (head.toBytes ++ body) = some (⟨start, length, content⟩, left)) ↔
      (requestLine (stripCrlf head.startLine)).isSome ∧ (∀ field ∈ head.headers, IsName (sentName field.1)) ∧
        (framing (sentValues "transfer-encoding".toList head.headers)
          (sentValues "content-length".toList head.headers)).bind Framing.ofRequest = some length ∧
        bodyOf length body = some (content, left) := by
  rw [toBytes_append]
  by_cases some : stripCrlf head.startLine = []
  · rw [toLines, List.map_cons, headBytes_cons, some]
    refine iff_of_false ?_ (fun read => nomatch read.1)
    rintro ⟨start, isMessage⟩
    cases (requestMessage_crlf _).symm.trans isMessage
  · rw [requestMessage_iff (areLines_toLines some)]
    refine (@exists_headOf_toLines head fun start framing => (requestLine start).isSome ∧
      framing.bind Framing.ofRequest = Option.some length ∧ bodyOf length body = Option.some (content, left)).trans ?_
    exact and_left_comm

theorem responseMessage_toBytes {toHead : Bool} {status : Nat} :
    (∃ start, responseMessage toHead (head.toBytes ++ body) = some ((status, ⟨start, length, content⟩), left)) ↔
      statusOf (stripCrlf head.startLine) = some status ∧ (∀ field ∈ head.headers, IsName (sentName field.1)) ∧
        (if isBodiless toHead status then some (.bytes 0)
        else (framing (sentValues "transfer-encoding".toList head.headers)
          (sentValues "content-length".toList head.headers)).bind Framing.ofResponse) = some length ∧
        bodyOf length body = some (content, left) := by
  rw [toBytes_append]
  by_cases some : stripCrlf head.startLine = []
  · rw [toLines, List.map_cons, headBytes_cons, some]
    refine iff_of_false ?_ (fun read => nomatch read.1)
    rintro ⟨start, isMessage⟩
    cases (responseMessage_crlf toHead _).symm.trans isMessage
  · rw [responseMessage_iff (areLines_toLines some)]
    refine (@exists_headOf_toLines head fun start framing => statusOf start = Option.some status ∧
      (if isBodiless toHead status then Option.some (.bytes 0) else framing.bind Framing.ofResponse) = Option.some length ∧
        bodyOf length body = Option.some (content, left)).trans ?_
    exact and_left_comm

theorem isBodiless_of_isInterim {toHead : Bool} {status : Nat} (interim : isInterim status) : isBodiless toHead status := by
  rw [isBodiless, interim, Bool.or_true]
  rfl

theorem areResponses_toBytes {toHead : Bool} :
    AreResponses toHead (head.toBytes ++ body) ↔
      ∃ status, statusOf (stripCrlf head.startLine) = some status ∧ (∀ field ∈ head.headers, IsName (sentName field.1)) ∧
        if isInterim status then AreResponses toHead body
        else ∃ length content, (if isBodiless toHead status then some (.bytes 0)
          else (framing (sentValues "transfer-encoding".toList head.headers)
            (sentValues "content-length".toList head.headers)).bind Framing.ofResponse) = some length ∧
              bodyOf length body = some (content, []) := by
  rw [areResponses_iff]
  constructor
  · rintro ⟨status, ⟨start, length, content⟩, left, isMessage, more⟩
    obtain ⟨isStatus, names, isLength, isBody⟩ := responseMessage_toBytes.mp ⟨start, isMessage⟩
    refine ⟨status, isStatus, names, ?_⟩
    split at more
    next interim =>
      rw [if_pos (show isInterim status from interim)]
      rw [if_pos (isBodiless_of_isInterim interim), Option.some_inj] at isLength
      rw [← isLength] at isBody
      obtain ⟨-, isLeft⟩ := Prod.mk.inj (Option.some.inj isBody)
      subst isLeft
      exact more
    next last =>
      rw [if_neg (show ¬isInterim status from last)]
      exact ⟨length, content, isLength, more ▸ isBody⟩
  · rintro ⟨status, isStatus, names, more⟩
    split at more
    next interim =>
      have isMessage : ∃ start, responseMessage toHead (head.toBytes ++ body) =
          some ((status, ⟨start, .bytes 0, []⟩), body) :=
        responseMessage_toBytes.mpr ⟨isStatus, names, if_pos (isBodiless_of_isInterim interim), rfl⟩
      obtain ⟨start, isMessage⟩ := isMessage
      refine ⟨status, _, body, isMessage, ?_⟩
      rw [if_pos (show isInterim status from interim)]
      exact more
    next last =>
      obtain ⟨length, content, isLength, isBody⟩ := more
      obtain ⟨start, isMessage⟩ := responseMessage_toBytes.mpr ⟨isStatus, names, isLength, isBody⟩
      refine ⟨status, _, [], isMessage, ?_⟩
      rw [if_neg (show ¬isInterim status from last)]

end Read

end HeadParts

/-! ## Answers, and what is none

An answer in the interim may stand before the answer to a request.  A body in chunks is
never an answer, whatever it holds: it begins with a number.
-/

namespace HttpResponse

open HeadParts

/-- Sent before the request is passed on, where the visitor waits for it. -/
def continueAnswer : List UInt8 := bytesOf "HTTP/1.1 100 Continue\r\n\r\n"

theorem areResponses_continueAnswer {toHead : Bool} {bytes : List UInt8} :
    AreResponses toHead (continueAnswer ++ bytes) ↔ AreResponses toHead bytes := by
  have isHead : continueAnswer = HeadParts.toBytes ⟨"HTTP/1.1 100 Continue".toList, []⟩ := by decide +kernel
  rw [isHead, areResponses_toBytes]
  constructor
  · rintro ⟨status, isStatus, -, more⟩
    obtain rfl : 100 = status := Option.some.inj isStatus
    exact more
  · exact fun more => ⟨100, rfl, nofun, more⟩

theorem head?_of_statusOf {line : List Char} {status : Nat} (isStatus : statusOf line = some status) :
    line.head? = some 'H' := by
  rw [statusOf] at isStatus
  obtain ⟨⟨version, more⟩, isSplit, isCode⟩ := Option.bind_eq_some_iff.mp isStatus
  obtain ⟨whole, -⟩ := splitOnce_eq_some isSplit
  subst whole
  dsimp only at isCode
  split at isCode
  next isLine =>
    rcases isLine.1 with rfl | rfl
    · rfl
    · rfl
  next => cases isCode

theorem chunkLength_of_head {line : List Char} (isHead : line.head? = some 'H') : HttpIo.chunkLength line = none := by
  cases line with
  | nil => cases isHead
  | cons c line =>
    obtain rfl := Option.some.inj isHead
    have solid : ∀ c ∈ ['H'], isWhitespace c = false := forall_of_all (by decide)
    rw [HttpIo.chunkLength, List.takeWhile_cons_of_pos (by decide), ← List.singleton_append,
      HttpIo.trimmed_append (by decide) solid, fromStrRadix]
    rfl

theorem not_areResponses_of_readChunked {tooLong : Nat → Bool} {io taken rest : List UInt8}
    (isBody : HttpIo.readChunked tooLong io = some (taken, rest)) (toHead : Bool) : ¬AreResponses toHead taken := by
  obtain ⟨bytes, more, rfl, uncut, isLength⟩ := HttpIo.exists_chunkLine isBody
  rw [areResponses_iff]
  rintro ⟨status, message, left, isMessage, -⟩
  obtain ⟨line, behind, isLine, isStatus⟩ := exists_statusOf isMessage
  obtain ⟨same, unbroken⟩ := crlfLine_eq_some isLine
  obtain ⟨uncutText, -, -⟩ := HttpIo.encoded_lossyTextOf uncut
  obtain ⟨unbrokenText, rfl, -⟩ := HttpIo.of_append_crlf uncutText unbroken same
  rw [latin1_encoded, statusOf_alike (SameAscii.octets _)] at isStatus
  rw [chunkLength_of_head (head?_of_statusOf isStatus)] at isLength
  cases isLength

theorem ne_nil_of_readChunked {tooLong : Nat → Bool} {io taken rest : List UInt8} (isBody : HttpIo.readChunked tooLong io = some (taken, rest)) :
    taken ≠ [] := by
  obtain ⟨bytes, more, rfl, -, -⟩ := HttpIo.exists_chunkLine isBody
  simp [crlf]

end HttpResponse

end Nfrp
