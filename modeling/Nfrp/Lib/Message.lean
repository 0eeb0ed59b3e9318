import Nfrp.Lib.Numerals
import Nfrp.Lib.Octets

/-!
Messages as HTTP frames them.

The fields of a head say how long the body is; the rules differ for requests and for
responses, which may also go on to the end of the connection or have no body whatever
their fields say.  What a field means otherwise is not looked at.  Chunked bodies are
given by a grammar; the reader of `Http` takes exactly these.
-/

namespace Nfrp.Lib

/-- The name, in small letters, and the value as it stands. -/
def fieldIn (line : List Char) : Option (List Char × List Char) :=
  (splitOnce ':' line).bind fun parts =>
    if parts.1 ≠ [] ∧ parts.1.all isTokenChar then some (parts.1.map Char.toLower, unblanked parts.2) else none

def headOf : List (List Char) → Option (List Char × Fields)
  | [] => none
  | start :: lines => (lines.mapM fieldIn).map fun fields => (start, fields)

inductive Framing where
  | absent
  | bytes (count : Nat)
  | chunked
  /-- Coded, and the coding does not say where the body ends. -/
  | coded
  deriving DecidableEq, Repr

def codingsOf (values : List (List Char)) : List (List Char) :=
  (listedOf values).filter (· ≠ [])

/-- Two lengths, and a length beside a coding, are errors. -/
def framing : (codings lengths : List (List Char)) → Option Framing
  | [], [] => some .absent
  | [], [value] =>
    if value ≠ [] ∧ value.all (isDigit 10) then some (.bytes (ofDigits 10 value)) else none
  | first :: more, [] =>
    some (if (codingsOf (first :: more)).getLast? = some "chunked".toList then .chunked else .coded)
  | _, _ => none

def framingOf (fields : Fields) : Option Framing :=
  framing (valuesOf "transfer-encoding".toList fields) (valuesOf "content-length".toList fields)

def Framing.ofRequest : Framing → Option BodyLength
  | .absent => some (.bytes 0)
  | .bytes count => some (.bytes count)
  | .chunked => some .chunked
  | .coded => none

/-- There is none where the body goes on to the end of the connection. -/
def Framing.ofResponse : Framing → Option BodyLength
  | .absent => none
  | .bytes count => some (.bytes count)
  | .chunked => some .chunked
  | .coded => none

theorem framing_eq_absent {codings lengths : List (List Char)} :
    framing codings lengths = some .absent ↔ codings = [] ∧ lengths = [] := by
  match codings, lengths with
  | [], [] => exact iff_of_true rfl ⟨rfl, rfl⟩
  | [], [value] =>
    rw [framing]
    split
    next => exact iff_of_false nofun fun none => nomatch none.2
    next => exact iff_of_false nofun fun none => nomatch none.2
  | [], _ :: _ :: _ => exact iff_of_false nofun fun none => nomatch none.2
  | first :: more, [] =>
    rw [framing]
    split
    next => exact iff_of_false nofun fun none => nomatch none.1
    next => exact iff_of_false nofun fun none => nomatch none.1
  | _ :: _, _ :: _ => exact iff_of_false nofun fun none => nomatch none.1

theorem framing_eq_bytes {codings lengths : List (List Char)} {n : Nat} :
    framing codings lengths = some (.bytes n) ↔ codings = [] ∧
      ∃ value, lengths = [value] ∧ value ≠ [] ∧ value.all (isDigit 10) ∧ ofDigits 10 value = n := by
  match codings, lengths with
  | [], [] => exact iff_of_false nofun fun found => nomatch found.2
  | [], [value] =>
    rw [framing, and_iff_right rfl]
    split
    next isNumber =>
      rw [Option.some_inj, Framing.bytes.injEq]
      constructor
      · exact fun same => ⟨value, rfl, isNumber.1, isNumber.2, same⟩
      · rintro ⟨_, same, -, -, isLength⟩
        obtain rfl := (List.cons.inj same).1
        exact isLength
    next noNumber =>
      refine iff_of_false nofun ?_
      rintro ⟨_, same, some, digits, -⟩
      obtain rfl := (List.cons.inj same).1
      exact noNumber ⟨some, digits⟩
  | [], _ :: _ :: _ => exact iff_of_false nofun fun found => nomatch found.2
  | first :: more, [] =>
    rw [framing]
    split
    next => exact iff_of_false nofun fun found => nomatch found.1
    next => exact iff_of_false nofun fun found => nomatch found.1
  | _ :: _, _ :: _ => exact iff_of_false nofun fun found => nomatch found.1

theorem framing_eq_chunked {codings lengths : List (List Char)} :
    framing codings lengths = some .chunked ↔
      lengths = [] ∧ (codingsOf codings).getLast? = some "chunked".toList := by
  match codings, lengths with
  | [], [] => exact iff_of_false nofun fun found => nomatch found.2
  | [], [value] =>
    rw [framing]
    split
    next => exact iff_of_false nofun fun found => nomatch found.1
    next => exact iff_of_false nofun fun found => nomatch found.1
  | [], _ :: _ :: _ => exact iff_of_false nofun fun found => nomatch found.1
  | first :: more, [] =>
    rw [framing, and_iff_right rfl]
    split
    next isLast => exact iff_of_true rfl isLast
    next otherwise => exact iff_of_false nofun otherwise
  | _ :: _, _ :: _ => exact iff_of_false nofun fun found => nomatch found.1

theorem ofRequest_eq_bytes {found : Option Framing} {n : Nat} :
    found.bind Framing.ofRequest = some (.bytes n) ↔ found = some .absent ∧ n = 0 ∨ found = some (.bytes n) := by
  match found with
  | none => simp
  | some .absent => simp [Framing.ofRequest, eq_comm]
  | some (.bytes _) => simp [Framing.ofRequest]
  | some .chunked => simp [Framing.ofRequest]
  | some .coded => simp [Framing.ofRequest]

theorem ofRequest_eq_chunked {found : Option Framing} :
    found.bind Framing.ofRequest = some .chunked ↔ found = some .chunked := by
  match found with
  | none => simp
  | some .absent => simp [Framing.ofRequest]
  | some (.bytes _) => simp [Framing.ofRequest]
  | some .chunked => simp [Framing.ofRequest]
  | some .coded => simp [Framing.ofRequest]

theorem ofResponse_eq_bytes {found : Option Framing} {n : Nat} :
    found.bind Framing.ofResponse = some (.bytes n) ↔ found = some (.bytes n) := by
  match found with
  | none => simp
  | some .absent => simp [Framing.ofResponse]
  | some (.bytes _) => simp [Framing.ofResponse]
  | some .chunked => simp [Framing.ofResponse]
  | some .coded => simp [Framing.ofResponse]

theorem ofResponse_eq_chunked {found : Option Framing} :
    found.bind Framing.ofResponse = some .chunked ↔ found = some .chunked := by
  match found with
  | none => simp
  | some .absent => simp [Framing.ofResponse]
  | some (.bytes _) => simp [Framing.ofResponse]
  | some .chunked => simp [Framing.ofResponse]
  | some .coded => simp [Framing.ofResponse]

structure Message where
  start : List Char
  length : BodyLength
  body : List UInt8
  deriving DecidableEq

def requestMessage (bytes : List UInt8) : Option (Message × List UInt8) := do
  let (lines, rest) ← headLines bytes.length bytes
  let (start, fields) ← headOf (lines.map latin1)
  if (requestLine start).isSome then
    let length ← (framingOf fields).bind Framing.ofRequest
    let (body, rest) ← bodyOf length rest
    return (⟨start, length, body⟩, rest)
  else none

/-- A version, three digits, and what else there is behind a blank. -/
def statusOf (start : List Char) : Option Nat :=
  (splitOnce ' ' start).bind fun parts =>
    let code := ((splitOnce ' ' parts.2).map Prod.fst).getD parts.2
    if (parts.1 = "HTTP/1.1".toList ∨ parts.1 = "HTTP/1.0".toList) ∧ code.length = 3 ∧ code.all (isDigit 10) then
      some (ofDigits 10 code)
    else none

def isInterim (status : Nat) : Bool := 100 ≤ status && status < 200

/-- Answers to HEAD and answers with these codes have no body. -/
def isBodiless (toHead : Bool) (status : Nat) : Bool :=
  toHead || isInterim status || status == 204 || status == 304

def responseLength (toHead : Bool) (status : Nat) (fields : Fields) : Option BodyLength :=
  if isBodiless toHead status then some (.bytes 0) else (framingOf fields).bind Framing.ofResponse

def responseMessage (toHead : Bool) (bytes : List UInt8) : Option ((Nat × Message) × List UInt8) := do
  let (lines, rest) ← headLines bytes.length bytes
  let (start, fields) ← headOf (lines.map latin1)
  let status ← statusOf start
  let length ← responseLength toHead status fields
  let (body, rest) ← bodyOf length rest
  return ((status, ⟨start, length, body⟩), rest)

/-- The answers to a request: those in the interim, and the last. -/
def responses (toHead : Bool) : Nat → List UInt8 → Option (List (Nat × Message) × List UInt8)
  | 0, _ => none
  | fuel + 1, bytes =>
    (responseMessage toHead bytes).bind fun found =>
      if isInterim found.1.1 then
        (responses toHead fuel found.2).map fun later => (found.1 :: later.1, later.2)
      else some ([found.1], found.2)

/-- The same name, and values that differ in foreign characters only. -/
def SameField (field other : List Char × List Char) : Prop :=
  field.1 = other.1 ∧ SameAscii field.2 other.2

theorem isAscii_of_isTokenChar {c : Char} (token : isTokenChar c) : isAscii c := by
  rw [isTokenChar, Bool.or_eq_true] at token
  rcases token with letter | mark
  · rw [isAlphanum_iff] at letter
    rw [isAscii]
    omega
  · have allAscii : ∀ d ∈ "!#$%&'*+-.^_`|~".toList, isAscii d := forall_of_all (by decide)
    exact allAscii c (List.contains_iff_mem.mp mark)

theorem token_stops (c : Char) (foreign : ¬isAscii c) : isTokenChar c = false :=
  Bool.eq_false_iff.mpr fun token => foreign (isAscii_of_isTokenChar token)

theorem fieldIn_alike {line other : List Char} (same : SameAscii line other) :
    (fieldIn line = none ∧ fieldIn other = none) ∨
      ∃ field field', fieldIn line = some field ∧ fieldIn other = some field' ∧ SameField field field' := by
  rw [fieldIn, fieldIn]
  rcases same.splitOnce (show isAscii ':' by decide) with ⟨first, second⟩ | ⟨name, value, name', value', first, second, sameName, sameValue⟩
  · rw [first, second]
    exact .inl ⟨rfl, rfl⟩
  · rw [first, second, Option.bind_some, Option.bind_some]
    obtain ⟨token, isName⟩ := sameName.all_of_stopped token_stops
    dsimp only
    by_cases passes : name ≠ [] ∧ name.all isTokenChar
    · obtain rfl := isName passes.2
      rw [if_pos passes, if_pos passes]
      exact .inr ⟨_, _, rfl, rfl, rfl, sameValue.unblanked⟩
    · have fails : ¬(name' ≠ [] ∧ name'.all isTokenChar) := by
        rw [ne_eq, ← sameName.eq_nil_iff, ← token]
        exact passes
      rw [if_neg passes, if_neg fails]
      exact .inl ⟨rfl, rfl⟩

theorem mapM_fieldIn_alike {lines others : List (List Char)} (same : List.Forall₂ SameAscii lines others) :
    (lines.mapM fieldIn = none ∧ others.mapM fieldIn = none) ∨
      ∃ fields fields', lines.mapM fieldIn = some fields ∧ others.mapM fieldIn = some fields' ∧
        List.Forall₂ SameField fields fields' := by
  induction same with
  | nil => exact .inr ⟨[], [], rfl, rfl, .nil⟩
  | cons sameLine _ ih =>
    rw [List.mapM_cons, List.mapM_cons]
    rcases fieldIn_alike sameLine with ⟨first, second⟩ | ⟨field, field', first, second, sameField⟩
    · rw [first, second]
      exact .inl ⟨rfl, rfl⟩
    · rw [first, second]
      rcases ih with ⟨first, second⟩ | ⟨fields, fields', first, second, sameFields⟩
      · rw [first, second]
        exact .inl ⟨rfl, rfl⟩
      · rw [first, second]
        exact .inr ⟨_, _, rfl, rfl, .cons sameField sameFields⟩

theorem valuesOf_alike {fields others : Fields} (same : List.Forall₂ SameField fields others) (name : List Char) :
    List.Forall₂ SameAscii (valuesOf name fields) (valuesOf name others) := by
  rw [valuesOf, valuesOf]
  induction same with
  | nil => exact .nil
  | @cons field other _ _ sameField _ ih =>
    rw [List.filter_cons, List.filter_cons, sameField.1]
    split
    · exact .cons sameField.2 ih
    · exact ih

theorem codingsOf_alike {values others : List (List Char)} (same : List.Forall₂ SameAscii values others) :
    List.Forall₂ SameAscii (codingsOf values) (codingsOf others) := by
  rw [codingsOf, codingsOf, listedOf, listedOf]
  induction same with
  | nil => exact .nil
  | @cons value other _ _ sameValue _ ih =>
    rw [List.flatMap_cons, List.flatMap_cons, List.filter_append, List.filter_append]
    refine List.rel_append ?_ ih
    have parts := sameValue.splitOn (show isAscii ',' by decide)
    generalize value.splitOn ',' = words at parts ⊢
    generalize other.splitOn ',' = words' at parts ⊢
    induction parts with
    | nil => exact .nil
    | @cons part part' _ _ samePart _ later =>
      have sameWord := samePart.unblanked.map_toLower
      rw [List.map_cons, List.map_cons, List.filter_cons, List.filter_cons]
      have together : decide ((unblanked part).map Char.toLower ≠ []) = decide ((unblanked part').map Char.toLower ≠ []) :=
        decide_eq_decide.mpr (not_congr sameWord.eq_nil_iff)
      rw [together]
      split
      · exact .cons sameWord later
      · exact later

theorem getLast?_alike {words others : List (List Char)} (same : List.Forall₂ SameAscii words others)
    {word : List Char} (ascii : ∀ c ∈ word, isAscii c) : words.getLast? = some word ↔ others.getLast? = some word := by
  rw [← List.head?_reverse, ← List.head?_reverse]
  have reversed := List.rel_reverse same
  generalize words.reverse = front at reversed ⊢
  generalize others.reverse = front' at reversed ⊢
  cases reversed with
  | nil => exact Iff.rfl
  | cons sameWord _ =>
    rw [List.head?_cons, List.head?_cons, Option.some_inj, Option.some_inj]
    exact sameWord.eq_iff_of_ascii ascii

theorem digit_stops (radix : Nat) (c : Char) (foreign : ¬isAscii c) : isDigit radix c = false :=
  Bool.eq_false_iff.mpr fun digit => foreign (isAscii_of_isDigit digit)

theorem framing_alike {codings codings' lengths lengths' : List (List Char)}
    (sameCodings : List.Forall₂ SameAscii codings codings') (sameLengths : List.Forall₂ SameAscii lengths lengths') :
    framing codings lengths = framing codings' lengths' := by
  have ascii : ∀ c ∈ "chunked".toList, isAscii c := forall_of_all (by decide)
  have last := getLast?_alike (codingsOf_alike sameCodings) ascii
  cases sameCodings with
  | nil =>
    cases sameLengths with
    | nil => rfl
    | @cons value value' _ _ sameValue more =>
      cases more with
      | nil =>
        obtain ⟨digits, isValue⟩ := sameValue.all_of_stopped (digit_stops 10)
        rw [framing, framing]
        by_cases passes : value ≠ [] ∧ value.all (isDigit 10)
        · obtain rfl := isValue passes.2
          rfl
        · rw [if_neg passes, if_neg]
          rw [ne_eq, ← sameValue.eq_nil_iff, ← digits]
          exact passes
      | cons _ _ => rfl
  | cons _ _ =>
    cases sameLengths with
    | nil =>
      rw [framing, framing]
      simp only [last]
    | cons _ _ => rfl

theorem framingOf_alike {fields others : Fields} (same : List.Forall₂ SameField fields others) :
    framingOf fields = framingOf others :=
  framing_alike (valuesOf_alike same _) (valuesOf_alike same _)

theorem isAscii_of_isUriChar {c : Char} (uriChar : isUriChar c) : isAscii c :=
  isAscii_of_isVisible (isVisible_of_isUriChar uriChar)

theorem requestLine_alike {line other : List Char} (same : SameAscii line other) :
    (requestLine line).isSome = (requestLine other).isSome := by
  have words := same.splitOn (show isAscii ' ' by decide)
  rw [requestLine, requestLine]
  generalize line.splitOn ' ' = front at words ⊢
  generalize other.splitOn ' ' = front' at words ⊢
  rcases words with _ | ⟨sameMethod, _ | ⟨sameTarget, _ | ⟨-, _ | _⟩⟩⟩
  · rfl
  · rfl
  · rfl
  · have visible := (sameMethod.all_of_stopped (p := isVisible)
      fun c foreign => Bool.eq_false_iff.mpr fun isVisible => foreign (isAscii_of_isVisible isVisible)).1
    have uriChars := (sameTarget.all_of_stopped (p := isUriChar)
      fun c foreign => Bool.eq_false_iff.mpr fun uriChar => foreign (isAscii_of_isUriChar uriChar)).1
    dsimp only
    simp only [ne_eq, sameMethod.eq_nil_iff, sameTarget.eq_nil_iff, visible, uriChars]
    split
    · rfl
    · rfl
  · rfl

theorem statusOf_alike {line other : List Char} (same : SameAscii line other) : statusOf line = statusOf other := by
  have blank : isAscii ' ' := by decide
  rw [statusOf, statusOf]
  rcases same.splitOnce blank with ⟨first, second⟩ | ⟨version, rest, version', rest', first, second, sameVersion, sameRest⟩
  · rw [first, second]
  · rw [first, second, Option.bind_some, Option.bind_some]
    have sameCode : SameAscii (((splitOnce ' ' rest).map Prod.fst).getD rest) (((splitOnce ' ' rest').map Prod.fst).getD rest') := by
      rcases sameRest.splitOnce blank with ⟨first, second⟩ | ⟨code, reason, code', reason', first, second, sameCode, -⟩
      · rw [first, second]
        exact sameRest
      · rw [first, second]
        exact sameCode
    dsimp only
    generalize ((splitOnce ' ' rest).map Prod.fst).getD rest = code at sameCode ⊢
    generalize ((splitOnce ' ' rest').map Prod.fst).getD rest' = code' at sameCode ⊢
    obtain ⟨digits, isCode⟩ := sameCode.all_of_stopped (digit_stops 10)
    have versions : ∀ {word : List Char}, (∀ c ∈ word, isAscii c) → (version = word ↔ version' = word) :=
      fun ascii => sameVersion.eq_iff_of_ascii ascii
    by_cases passes : code.all (isDigit 10)
    · obtain rfl := isCode passes
      simp only [versions (show ∀ c ∈ "HTTP/1.1".toList, isAscii c from forall_of_all (by decide)),
        versions (show ∀ c ∈ "HTTP/1.0".toList, isAscii c from forall_of_all (by decide))]
    · rw [if_neg fun all => passes all.2.2, if_neg fun all => passes (digits.mpr all.2.2)]

theorem headOf_alike {lines others : List (List Char)} (same : List.Forall₂ SameAscii lines others) :
    (headOf lines = none ∧ headOf others = none) ∨
      ∃ start fields start' fields', headOf lines = some (start, fields) ∧ headOf others = some (start', fields') ∧
        SameAscii start start' ∧ List.Forall₂ SameField fields fields' := by
  cases same with
  | nil => exact .inl ⟨rfl, rfl⟩
  | cons sameStart sameLines =>
    rw [headOf, headOf]
    rcases mapM_fieldIn_alike sameLines with ⟨first, second⟩ | ⟨fields, fields', first, second, sameFields⟩
    · rw [first, second]
      exact .inl ⟨rfl, rfl⟩
    · rw [first, second]
      exact .inr ⟨_, _, _, _, rfl, rfl, sameStart, sameFields⟩

def encoded (line : List Char) : List UInt8 := bytesOf (String.ofList line)

theorem latin1_encoded (line : List Char) : latin1 (encoded line) = octets line := rfl

theorem unbroken_iff_latin1 {bytes : List UInt8} : Unbroken bytes ↔ '\r' ∉ latin1 bytes ∧ '\n' ∉ latin1 bytes := by
  have code : ∀ {byte control : UInt8}, Char.ofNat byte.toNat = Char.ofNat control.toNat ↔ byte = control := by
    intro byte control
    rw [← Char.toNat_inj, toNat_ofNat_toNat, toNat_ofNat_toNat, UInt8.toNat_inj]
  constructor
  · intro unbroken
    constructor
    · intro member
      obtain ⟨byte, inBytes, isReturn⟩ := List.mem_map.mp member
      exact (unbroken byte inBytes).1 (code.mp isReturn)
    · intro member
      obtain ⟨byte, inBytes, isFeed⟩ := List.mem_map.mp member
      exact (unbroken byte inBytes).2 (code.mp isFeed)
  · rintro ⟨noReturn, noFeed⟩ byte member
    constructor
    · rintro rfl
      exact noReturn (List.mem_map.mpr ⟨_, member, rfl⟩)
    · rintro rfl
      exact noFeed (List.mem_map.mpr ⟨_, member, rfl⟩)

/-- Lines that are there, and end where they should. -/
def AreLines (lines : List (List Char)) : Prop :=
  ∀ line ∈ lines, line ≠ [] ∧ '\r' ∉ line ∧ '\n' ∉ line

theorem headLines_encoded {lines : List (List Char)} (areLines : AreLines lines) (rest : List UInt8) :
    headLines (headBytes (lines.map encoded) rest).length (headBytes (lines.map encoded) rest) =
      some (lines.map encoded, rest) := by
  apply headLines_headBytes
  · intro bytes member
    obtain ⟨line, inLines, rfl⟩ := List.mem_map.mp member
    obtain ⟨someLine, noReturn, noFeed⟩ := areLines line inLines
    constructor
    · intro empty
      refine someLine ((SameAscii.octets line).eq_nil_iff.mp ?_)
      rw [← latin1_encoded, empty]
      rfl
    · rw [unbroken_iff_latin1, latin1_encoded, (SameAscii.octets line).mem_iff (by decide),
        (SameAscii.octets line).mem_iff (by decide)]
      exact ⟨noReturn, noFeed⟩
  · exact (Nat.le_add_right _ _).trans_lt (length_le_headBytes _ rest)

theorem alike_encoded (lines : List (List Char)) : List.Forall₂ SameAscii ((lines.map encoded).map latin1) lines := by
  rw [List.map_map]
  induction lines with
  | nil => exact .nil
  | cons line lines ih => exact .cons (SameAscii.octets line) ih

section Written

variable {lines : List (List Char)} {rest left content : List UInt8} {length : BodyLength}

/-- A request that is written line by line is read as it is written. -/
theorem requestMessage_iff (areLines : AreLines lines) :
    (∃ start, requestMessage (headBytes (lines.map encoded) rest) = some (⟨start, length, content⟩, left)) ↔
      ∃ start fields, headOf lines = some (start, fields) ∧ (requestLine start).isSome ∧
        (framingOf fields).bind Framing.ofRequest = some length ∧ bodyOf length rest = some (content, left) := by
  have same := headOf_alike (alike_encoded lines)
  simp only [requestMessage, headLines_encoded areLines, Option.bind_eq_bind, Option.bind_some]
  rcases same with ⟨first, second⟩ | ⟨start, fields, start', fields', first, second, sameStart, sameFields⟩
  · rw [first, second]
    simp
  · rw [first, second, Option.bind_some]
    dsimp only
    rw [requestLine_alike sameStart, framingOf_alike sameFields]
    constructor
    · rintro ⟨found, isRequest⟩
      split at isRequest
      next isLine =>
        obtain ⟨length', isLength, isRequest⟩ := Option.bind_eq_some_iff.mp isRequest
        obtain ⟨⟨content', left'⟩, isBody, isRequest⟩ := Option.bind_eq_some_iff.mp isRequest
        obtain ⟨isMessage, rfl⟩ := Prod.mk.inj (Option.some.inj isRequest)
        obtain ⟨-, rfl, rfl⟩ := Message.mk.inj isMessage
        exact ⟨start', fields', rfl, isLine, isLength, isBody⟩
      next => cases isRequest
    · rintro ⟨_, _, isHead, isLine, isLength, isBody⟩
      obtain ⟨rfl, rfl⟩ := Prod.mk.inj (Option.some.inj isHead)
      refine ⟨start, ?_⟩
      rw [if_pos isLine, isLength, Option.bind_some, isBody]
      rfl

theorem responseMessage_iff {toHead : Bool} {status : Nat} (areLines : AreLines lines) :
    (∃ start, responseMessage toHead (headBytes (lines.map encoded) rest) = some ((status, ⟨start, length, content⟩), left)) ↔
      ∃ start fields, headOf lines = some (start, fields) ∧ statusOf start = some status ∧
        responseLength toHead status fields = some length ∧ bodyOf length rest = some (content, left) := by
  have same := headOf_alike (alike_encoded lines)
  simp only [responseMessage, headLines_encoded areLines, Option.bind_eq_bind, Option.bind_some]
  rcases same with ⟨first, second⟩ | ⟨start, fields, start', fields', first, second, sameStart, sameFields⟩
  · rw [first, second]
    simp
  · rw [first, second, Option.bind_some]
    dsimp only
    rw [statusOf_alike sameStart]
    constructor
    · rintro ⟨found, isResponse⟩
      obtain ⟨status', isStatus, isResponse⟩ := Option.bind_eq_some_iff.mp isResponse
      obtain ⟨length', isLength, isResponse⟩ := Option.bind_eq_some_iff.mp isResponse
      obtain ⟨⟨content', left'⟩, isBody, isResponse⟩ := Option.bind_eq_some_iff.mp isResponse
      obtain ⟨answered, rfl⟩ := Prod.mk.inj (Option.some.inj isResponse)
      obtain ⟨rfl, isMessage⟩ := Prod.mk.inj answered
      obtain ⟨-, rfl, rfl⟩ := Message.mk.inj isMessage
      rw [responseLength, framingOf_alike sameFields] at isLength
      exact ⟨start', fields', rfl, isStatus, isLength, isBody⟩
    · rintro ⟨_, _, isHead, isStatus, isLength, isBody⟩
      obtain ⟨rfl, rfl⟩ := Prod.mk.inj (Option.some.inj isHead)
      refine ⟨start, ?_⟩
      rw [responseLength, ← framingOf_alike sameFields] at isLength
      rw [isStatus, Option.bind_some, responseLength, isLength, Option.bind_some, isBody]
      rfl

end Written

/-- Chunks of some size, up to one of none, and the trailer; then the content, and what is behind. -/
inductive Chunked : List UInt8 → List UInt8 → List UInt8 → Prop
  | last {line : List UInt8} {trailer : List (List UInt8)} {rest : List UInt8} (unbroken : Unbroken line)
      (isLast : chunkSize (latin1 line) = some 0) (areLines : ∀ field ∈ trailer, field ≠ [] ∧ Unbroken field) :
      Chunked (line ++ crlf ++ headBytes trailer rest) [] rest
  | chunk {line data bytes content rest : List UInt8} (unbroken : Unbroken line)
      (isSize : chunkSize (latin1 line) = some data.length) (some : data ≠ []) (later : Chunked bytes content rest) :
      Chunked (line ++ crlf ++ (data ++ (crlf ++ bytes))) (data ++ content) rest

theorem length_lt_of_crlfLine {bytes line rest : List UInt8} (isLine : crlfLine bytes = some (line, rest)) :
    rest.length < bytes.length := by
  rw [(crlfLine_eq_some isLine).1]
  simp only [List.length_append, crlf, List.length_cons, List.length_nil]
  omega

theorem chunkedBody_eq_some_iff {fuel : Nat} {bytes content rest : List UInt8} (enough : bytes.length ≤ fuel) :
    chunkedBody fuel bytes = some (content, rest) ↔ Chunked bytes content rest := by
  constructor
  · intro isBody
    induction fuel generalizing bytes content with
    | zero => cases isBody
    | succ fuel ih =>
      rw [chunkedBody] at isBody
      obtain ⟨⟨line, behind⟩, isLine, isBody⟩ := Option.bind_eq_some_iff.mp isBody
      obtain ⟨size, isSize, isBody⟩ := Option.bind_eq_some_iff.mp isBody
      have shorter := length_lt_of_crlfLine isLine
      obtain ⟨rfl, unbroken⟩ := crlfLine_eq_some isLine
      split at isBody
      next isLast =>
        obtain ⟨⟨trailer, left⟩, isTrailer, same⟩ := Option.map_eq_some_iff.mp isBody
        obtain ⟨rfl, rfl⟩ := Prod.mk.inj same
        obtain ⟨rfl, areLines⟩ := headLines_eq_some isTrailer
        exact .last unbroken (isLast ▸ isSize) areLines
      next notLast =>
        split at isBody
        next => cases isBody
        next fits =>
          obtain ⟨⟨ending, later⟩, isEnding, isBody⟩ := Option.bind_eq_some_iff.mp isBody
          split at isBody
          next => cases isBody
          next isEmpty =>
            obtain ⟨⟨more, left⟩, isLater, same⟩ := Option.map_eq_some_iff.mp isBody
            obtain ⟨rfl, rfl⟩ := Prod.mk.inj same
            have lastShorter := length_lt_of_crlfLine isEnding
            obtain ⟨isDrop, -⟩ := crlfLine_eq_some isEnding
            obtain rfl : ending = [] := not_not.mp isEmpty
            have taken : (behind.take size).length = size := List.length_take_of_le (not_lt.mp fits)
            have whole : behind = behind.take size ++ (crlf ++ later) := by
              conv => lhs; rw [← List.take_append_drop size behind, isDrop]
              rw [List.nil_append]
            have below : later.length ≤ fuel := by
              dsimp only at shorter lastShorter
              rw [List.length_drop] at lastShorter
              omega
            have further := ih below isLater
            rw [whole, List.take_append_of_le_length taken.ge, List.take_of_length_le taken.le]
            refine .chunk unbroken (taken.symm ▸ isSize) ?_ further
            intro empty
            rw [empty] at taken
            exact notLast taken.symm
  · intro chunked
    induction chunked generalizing fuel with
    | @last line trailer rest unbroken isLast areLines =>
      obtain ⟨fuel, rfl⟩ := Nat.exists_eq_add_one_of_ne_zero (show fuel ≠ 0 by
        rintro rfl
        simp [crlf] at enough)
      rw [chunkedBody, crlfLine_append unbroken, Option.bind_some, isLast, Option.bind_some, if_pos rfl,
        headLines_headBytes areLines]
      · rfl
      · have counted := length_le_headBytes trailer rest
        simp only [List.length_append]
        omega
    | @chunk line data bytes content rest unbroken isSize some later ih =>
      obtain ⟨fuel, rfl⟩ := Nat.exists_eq_add_one_of_ne_zero (show fuel ≠ 0 by
        rintro rfl
        simp [crlf] at enough)
      simp only [List.length_append, crlf, List.length_cons, List.length_nil] at enough
      have ending : crlfLine (crlf ++ bytes) = Option.some ([], bytes) :=
        @crlfLine_append [] (List.forall_mem_nil _) bytes
      have notLast : data.length ≠ 0 := mt List.length_eq_zero_iff.mp some
      have fits : ¬(data ++ (crlf ++ bytes)).length < data.length := by
        rw [List.length_append]
        omega
      rw [chunkedBody, crlfLine_append unbroken, Option.bind_some, isSize, Option.bind_some, if_neg notLast, if_neg fits,
        List.drop_left, ending, Option.bind_some, if_neg (not_not.mpr rfl), ih (by omega), List.take_left]
      rfl

/-- All of the bytes are the answers to one request. -/
def AreResponses (toHead : Bool) (bytes : List UInt8) : Prop :=
  ∃ fuel found, responses toHead fuel bytes = some (found, [])

theorem areResponses_iff {toHead : Bool} {bytes : List UInt8} :
    AreResponses toHead bytes ↔ ∃ status message left, responseMessage toHead bytes = some ((status, message), left) ∧
      if isInterim status then AreResponses toHead left else left = [] := by
  constructor
  · rintro ⟨fuel, found, areFound⟩
    cases fuel with
    | zero => cases areFound
    | succ fuel =>
      rw [responses] at areFound
      obtain ⟨⟨⟨status, message⟩, left⟩, isMessage, areFound⟩ := Option.bind_eq_some_iff.mp areFound
      refine ⟨status, message, left, isMessage, ?_⟩
      split at areFound
      next interim =>
        obtain ⟨⟨later, behind⟩, areLater, same⟩ := Option.map_eq_some_iff.mp areFound
        obtain ⟨-, rfl⟩ := Prod.mk.inj same
        rw [if_pos (show isInterim status from interim)]
        exact ⟨fuel, later, areLater⟩
      next last =>
        rw [if_neg (show ¬isInterim status from last)]
        exact (Prod.mk.inj (Option.some.inj areFound)).2
  · rintro ⟨status, message, left, isMessage, more⟩
    split at more
    next interim =>
      obtain ⟨fuel, found, areFound⟩ := more
      refine ⟨fuel + 1, (status, message) :: found, ?_⟩
      rw [responses, isMessage, Option.bind_some]
      dsimp only
      rw [if_pos interim, areFound]
      rfl
    next last =>
      refine ⟨1, [(status, message)], ?_⟩
      rw [responses, isMessage, Option.bind_some]
      dsimp only
      rw [if_neg last, more]

theorem exists_statusOf {toHead : Bool} {bytes left : List UInt8} {found : Nat × Message}
    (isMessage : responseMessage toHead bytes = some (found, left)) :
    ∃ line behind, crlfLine bytes = some (line, behind) ∧ statusOf (latin1 line) = some found.1 := by
  simp only [responseMessage, Option.bind_eq_bind] at isMessage
  obtain ⟨⟨lines, rest⟩, isHead, isMessage⟩ := Option.bind_eq_some_iff.mp isMessage
  obtain ⟨⟨start, fields⟩, isStart, isMessage⟩ := Option.bind_eq_some_iff.mp isMessage
  obtain ⟨status, isStatus, isMessage⟩ := Option.bind_eq_some_iff.mp isMessage
  obtain ⟨length, -, isMessage⟩ := Option.bind_eq_some_iff.mp isMessage
  obtain ⟨body, -, isMessage⟩ := Option.bind_eq_some_iff.mp isMessage
  obtain ⟨rfl, -⟩ := Prod.mk.inj (Option.some.inj isMessage)
  obtain ⟨rfl, areLines⟩ := headLines_eq_some isHead
  cases lines with
  | nil => cases isStart
  | cons line lines =>
    obtain ⟨fields', -, same⟩ := Option.map_eq_some_iff.mp isStart
    obtain ⟨rfl, -⟩ := Prod.mk.inj same
    rw [headBytes_cons]
    exact ⟨line, _, crlfLine_append (areLines line List.mem_cons_self).2 _, isStatus⟩

theorem not_areResponses_nil (toHead : Bool) : ¬AreResponses toHead [] := by
  rw [areResponses_iff]
  rintro ⟨_, _, _, isMessage, -⟩
  cases isMessage

section Whole

variable {bodiless : Bool} {found : Option Framing} {body : List UInt8}

/-- A body of so many bytes is the body where that is what the fields say. -/
theorem exists_bodyOf_bytes (chunked : found = some .chunked → body = []) :
    (∃ length content, (if bodiless then some (.bytes 0) else found.bind Framing.ofResponse) = some length ∧
      bodyOf length body = some (content, [])) ↔ if bodiless then body.length = 0 else found = some (.bytes body.length) := by
  cases bodiless with
  | true =>
    rw [if_pos rfl, if_pos rfl, List.length_eq_zero_iff]
    constructor
    · rintro ⟨length, content, isLength, isBody⟩
      obtain rfl := Option.some.inj isLength
      exact (Prod.mk.inj (Option.some.inj isBody)).2
    · rintro rfl
      exact ⟨_, _, rfl, rfl⟩
  | false =>
    rw [if_neg Bool.false_ne_true, if_neg Bool.false_ne_true]
    constructor
    · rintro ⟨length, content, isLength, isBody⟩
      cases length with
      | bytes count =>
        rw [ofResponse_eq_bytes] at isLength
        rw [bodyOf] at isBody
        split at isBody
        next => cases isBody
        next fits =>
          obtain ⟨-, noneLeft⟩ := Prod.mk.inj (Option.some.inj isBody)
          rw [isLength, Nat.le_antisymm (not_lt.mp fits) (List.drop_eq_nil_iff.mp noneLeft)]
      | chunked =>
        rw [chunked (ofResponse_eq_chunked.mp isLength)] at isBody
        cases isBody
    · intro isFound
      refine ⟨.bytes body.length, body, ofResponse_eq_bytes.mpr isFound, ?_⟩
      rw [bodyOf, if_neg (lt_irrefl _), List.take_length, List.drop_length]

theorem exists_bodyOf_chunked (someBody : body ≠ []) (noLength : ∀ n, found ≠ some (.bytes n)) :
    (∃ length content, (if bodiless then some (.bytes 0) else found.bind Framing.ofResponse) = some length ∧
      bodyOf length body = some (content, [])) ↔
        ¬bodiless ∧ found = some .chunked ∧ ∃ content, bodyOf .chunked body = some (content, []) := by
  cases bodiless with
  | true =>
    refine iff_of_false ?_ fun holds => holds.1 rfl
    rintro ⟨length, content, isLength, isBody⟩
    obtain rfl := Option.some.inj isLength
    exact someBody (Prod.mk.inj (Option.some.inj isBody)).2
  | false =>
    rw [if_neg Bool.false_ne_true, and_iff_right Bool.false_ne_true]
    constructor
    · rintro ⟨length, content, isLength, isBody⟩
      cases length with
      | bytes count => exact absurd (ofResponse_eq_bytes.mp isLength) (noLength count)
      | chunked => exact ⟨ofResponse_eq_chunked.mp isLength, content, isBody⟩
    · rintro ⟨isFound, content, isBody⟩
      exact ⟨.chunked, content, ofResponse_eq_chunked.mpr isFound, isBody⟩

end Whole

section More

variable {bytes rest content more : List UInt8}

theorem headBytes_append (lines : List (List UInt8)) : headBytes lines rest ++ more = headBytes lines (rest ++ more) := by
  rw [headBytes, headBytes, List.append_assoc]

theorem headLines_more {lines : List (List UInt8)} (isHead : headLines bytes.length bytes = some (lines, rest)) :
    headLines (bytes ++ more).length (bytes ++ more) = some (lines, rest ++ more) := by
  obtain ⟨rfl, areLines⟩ := headLines_eq_some isHead
  rw [headBytes_append]
  exact headLines_headBytes areLines _ ((Nat.le_add_right _ _).trans_lt (length_le_headBytes _ _))

theorem Chunked.followed (chunked : Chunked bytes content rest) : Chunked (bytes ++ more) content (rest ++ more) := by
  induction chunked with
  | last unbroken isLast areLines =>
    rw [List.append_assoc, headBytes_append]
    exact .last unbroken isLast areLines
  | chunk unbroken isSize some _ ih =>
    simp only [List.append_assoc]
    rw [← List.append_assoc]
    exact .chunk unbroken isSize some ih

theorem bodyOf_more {length : BodyLength} (isBody : bodyOf length bytes = some (content, rest)) :
    bodyOf length (bytes ++ more) = some (content, rest ++ more) := by
  cases length with
  | bytes count =>
    rw [bodyOf] at isBody ⊢
    split at isBody
    next => cases isBody
    next fits =>
      obtain ⟨rfl, rfl⟩ := Prod.mk.inj (Option.some.inj isBody)
      have enough : count ≤ bytes.length := not_lt.mp fits
      rw [if_neg, List.take_append_of_le_length enough, List.drop_append_of_le_length enough]
      rw [List.length_append]
      omega
  | chunked =>
    rw [bodyOf, chunkedBody_eq_some_iff le_rfl] at isBody ⊢
    exact isBody.followed

/-- What follows does not matter to an answer that is complete. -/
theorem responseMessage_more {toHead : Bool} {found : Nat × Message}
    (isMessage : responseMessage toHead bytes = some (found, rest)) :
    responseMessage toHead (bytes ++ more) = some (found, rest ++ more) := by
  simp only [responseMessage, Option.bind_eq_bind] at isMessage ⊢
  obtain ⟨⟨lines, behind⟩, isHead, isMessage⟩ := Option.bind_eq_some_iff.mp isMessage
  obtain ⟨⟨start, fields⟩, isStart, isMessage⟩ := Option.bind_eq_some_iff.mp isMessage
  obtain ⟨status, isStatus, isMessage⟩ := Option.bind_eq_some_iff.mp isMessage
  obtain ⟨length, isLength, isMessage⟩ := Option.bind_eq_some_iff.mp isMessage
  obtain ⟨⟨body, left⟩, isBody, isMessage⟩ := Option.bind_eq_some_iff.mp isMessage
  obtain ⟨rfl, rfl⟩ := Prod.mk.inj (Option.some.inj isMessage)
  rw [headLines_more isHead, Option.bind_some, isStart, Option.bind_some, isStatus, Option.bind_some, isLength,
    Option.bind_some, bodyOf_more isBody]
  rfl

theorem responses_more {toHead : Bool} {fuel : Nat} {found : List (Nat × Message)}
    (areFound : responses toHead fuel bytes = some (found, rest)) :
    responses toHead fuel (bytes ++ more) = some (found, rest ++ more) := by
  induction fuel generalizing bytes found with
  | zero => cases areFound
  | succ fuel ih =>
    rw [responses] at areFound ⊢
    obtain ⟨⟨first, left⟩, isMessage, areFound⟩ := Option.bind_eq_some_iff.mp areFound
    rw [responseMessage_more isMessage, Option.bind_some]
    dsimp only at areFound ⊢
    split at areFound
    next interim =>
      obtain ⟨⟨later, behind⟩, areLater, same⟩ := Option.map_eq_some_iff.mp areFound
      obtain ⟨rfl, rfl⟩ := Prod.mk.inj same
      rw [if_pos interim, ih areLater]
      rfl
    next last =>
      obtain ⟨rfl, rfl⟩ := Prod.mk.inj (Option.some.inj areFound)
      rw [if_neg last]

end More

/-- All of the bytes are the answers to some requests, in their order; of each is given whether it was a HEAD. -/
def AreAnswersTo : List Bool → List UInt8 → Prop
  | [], bytes => bytes = []
  | toHead :: asked, bytes =>
    ∃ fuel found left, responses toHead fuel bytes = some (found, left) ∧ AreAnswersTo asked left

theorem AreResponses.answersTo_cons {toHead : Bool} {asked : List Bool} {bytes more : List UInt8}
    (first : AreResponses toHead bytes) (later : AreAnswersTo asked more) :
    AreAnswersTo (toHead :: asked) (bytes ++ more) := by
  obtain ⟨fuel, found, areFound⟩ := first
  exact ⟨fuel, found, [] ++ more, responses_more areFound, later⟩

end Nfrp.Lib
