import Nfrp.Server.HttpHead

/-!
# Reading messages off a connection

A head goes up to the first empty line.  A body of a given length is taken as it is, and so
is one in chunks, but for its lines, which are read as text: the data of a chunk and the
two bytes behind it are not looked at.
-/

namespace Nfrp

open Lib

def maxHead : Nat := 64 * 1024

def findSubslice (needle : List UInt8) : List UInt8 → Option Nat
  | [] => none
  | byte :: rest =>
    if needle.isPrefixOf (byte :: rest) then some 0 else (findSubslice needle rest).map (· + 1)

def splitCrlf : List Char → List (List Char)
  | [] => [[]]
  | '\r' :: '\n' :: rest => [] :: splitCrlf rest
  | c :: rest => (splitCrlf rest).modifyHead (c :: ·)

namespace HttpIo

/-- The lines of the head, none of them empty, and what is behind it. -/
def readHead (io : List UInt8) : Option (List (List Char) × List UInt8) :=
  (findSubslice (crlf ++ crlf) io).bind fun idx =>
    if maxHead < idx + 4 then none
    else some ((splitCrlf (lossyTextOf (io.take (idx + 4)))).filter (· ≠ []), io.drop (idx + 4))

def readN (n : Nat) (io : List UInt8) : Option (List UInt8 × List UInt8) :=
  if maxBody < n ∨ io.length < n then none else some (io.take n, io.drop n)

-- Whether a line of so many bytes is given up; for one longer than the buffer that depends
-- on how the bytes arrive.
variable (tooLong : Nat → Bool)

def readLine (io : List UInt8) : Option (List Char × List UInt8) :=
  (findSubslice crlf io).bind fun idx =>
    if tooLong idx then none else some (lossyTextOf (io.take idx), io.drop (idx + 2))

def readTrailer : Nat → (out io : List UInt8) → Option (List UInt8 × List UInt8)
  | 0, _, _ => none
  | fuel + 1, out, io =>
    (readLine tooLong io).bind fun (line, io) =>
      let out := out ++ encoded line ++ crlf
      if line = [] then some (out, io) else readTrailer fuel out io

def chunkLength (line : List Char) : Option Nat :=
  fromStrRadix 16 (2 ^ 64 - 1) (trimmed (line.takeWhile (· ≠ ';')))

/-- Each line takes two bytes at least. -/
def readChunks : Nat → (out io : List UInt8) → Option (List UInt8 × List UInt8)
  | 0, _, _ => none
  | fuel + 1, out, io =>
    (readLine tooLong io).bind fun (line, io) =>
      (chunkLength line).bind fun size =>
        let out := out ++ encoded line ++ crlf
        if size = 0 then readTrailer tooLong (io.length + 1) out io
        else if maxBody < out.length + size then none
        else
          (readN size io).bind fun (data, io) =>
            (readN 2 io).bind fun (ending, io) => readChunks fuel (out ++ data ++ ending) io

def readChunked (io : List UInt8) : Option (List UInt8 × List UInt8) :=
  readChunks tooLong (io.length + 1) [] io

def relayFixed (n : Nat) (io : List UInt8) : Option (List UInt8 × List UInt8) :=
  if io.length < n then none else some (io.take n, io.drop n)

/-! ## Chunked bodies as they are taken

What was taken is a chunked body exactly where the connection holds one.
-/

def hasCrlf : List Char → Bool
  | [] => false
  | c :: rest => (c == '\r' && rest.head? == some '\n') || hasCrlf rest

theorem head?_alike {a b : List Char} (same : SameAscii a b) {p : Char → Bool} (stops : ∀ c, ¬isAscii c → p c = false) :
    a.head?.any p = b.head?.any p ∧ a.head?.all p = b.head?.all p := by
  cases same with
  | nil => exact ⟨rfl, rfl⟩
  | ascii _ _ => exact ⟨rfl, rfl⟩
  | @other x y a b some alsoSome foreign alsoForeign _ =>
    obtain ⟨c, x, rfl⟩ := List.exists_cons_of_ne_nil some
    obtain ⟨d, y, rfl⟩ := List.exists_cons_of_ne_nil alsoSome
    have first := stops c (foreign c List.mem_cons_self)
    have second := stops d (alsoForeign d List.mem_cons_self)
    exact ⟨first.trans second.symm, first.trans second.symm⟩

theorem hasCrlf_alike {a b : List Char} (same : SameAscii a b) : hasCrlf a = hasCrlf b := by
  have isFeed : ∀ text : List Char, (text.head? == some '\n') = text.head?.any (· == '\n') := by
    intro text
    cases text with
    | nil => rfl
    | cons _ _ => rfl
  have feedStops : ∀ c, ¬isAscii c → (c == '\n') = false := by
    intro c foreign
    exact beq_eq_false_iff_ne.mpr fun isFeed => foreign (isFeed ▸ by decide)
  have skip : ∀ x text : List Char, (∀ c ∈ x, ¬isAscii c) → hasCrlf (x ++ text) = hasCrlf text := by
    intro x text foreign
    induction x with
    | nil => rfl
    | cons c x ih =>
      have noReturn : (c == '\r') = false :=
        beq_eq_false_iff_ne.mpr fun isReturn => foreign c List.mem_cons_self (isReturn ▸ by decide)
      rw [List.cons_append, hasCrlf, noReturn, ih fun d member => foreign d (List.mem_cons_of_mem _ member)]
      rfl
  induction same with
  | nil => rfl
  | ascii _ rest ih =>
    rw [hasCrlf, hasCrlf, ih, isFeed, isFeed, (head?_alike rest feedStops).1]
  | other _ _ foreign alsoForeign _ ih => rw [skip _ _ foreign, skip _ _ alsoForeign, ih]

theorem chunkSize_alike {a b : List Char} (same : SameAscii a b) : chunkSize a = chunkSize b := by
  obtain ⟨sameDigits, sameRest⟩ := same.takeWhile_of_stopped (digit_stops 16)
  have ends := (head?_alike sameRest (p := fun c => c == ';' || isBlank c) fun c foreign => by
    rw [isBlank, Bool.or_eq_false_iff, Bool.or_eq_false_iff, beq_eq_false_iff_ne, beq_eq_false_iff_ne, beq_eq_false_iff_ne]
    exact ⟨fun is => foreign (is ▸ by decide), fun is => foreign (is ▸ by decide), fun is => foreign (is ▸ by decide)⟩).2
  rw [chunkSize, chunkSize, sameDigits, ends]

theorem ofNat_toNat_inj {byte control : UInt8} : Char.ofNat byte.toNat = Char.ofNat control.toNat ↔ byte = control := by
  rw [← Char.toNat_inj, toNat_ofNat_toNat, toNat_ofNat_toNat, UInt8.toNat_inj]

def Uncut (line : List UInt8) : Prop := hasCrlf (latin1 line) = false

theorem crlfLine_of_uncut {line : List UInt8} (uncut : Uncut line) (broken : ¬Unbroken line) (rest : List UInt8) :
    crlfLine (line ++ crlf ++ rest) = none := by
  induction line with
  | nil => exact absurd (fun _ member => nomatch member) broken
  | cons byte line ih =>
    rw [Uncut, latin1, List.map_cons, hasCrlf, Bool.or_eq_false_iff] at uncut
    obtain ⟨noPair, uncutRest⟩ := uncut
    rw [List.cons_append, List.cons_append, crlfLine.eq_def]
    dsimp only
    by_cases isReturn : byte = carriageReturn
    · rw [if_pos isReturn]
      cases line with
      | nil => rfl
      | cons next line =>
        have noFeed : next ≠ lineFeed := by
          rintro rfl
          rw [isReturn] at noPair
          cases (show true = false from noPair)
        rw [List.cons_append, List.cons_append]
        exact if_neg noFeed
    · rw [if_neg isReturn]
      by_cases isFeed : byte = lineFeed
      · exact if_pos isFeed
      · rw [if_neg isFeed, ih uncutRest]
        · rfl
        · intro unbroken
          refine broken fun other member => ?_
          rcases List.mem_cons.mp member with rfl | inLine
          · exact ⟨isReturn, isFeed⟩
          · exact unbroken other inLine

theorem of_append_crlf {line found rest left : List UInt8} (uncut : Uncut line) (unbroken : Unbroken found)
    (same : line ++ crlf ++ rest = found ++ crlf ++ left) : Unbroken line ∧ found = line ∧ left = rest := by
  have isFound : crlfLine (line ++ crlf ++ rest) = some (found, left) := by
    rw [same]
    exact crlfLine_append unbroken left
  by_cases whole : Unbroken line
  · rw [crlfLine_append whole] at isFound
    obtain ⟨rfl, rfl⟩ := Prod.mk.inj (Option.some.inj isFound)
    exact ⟨whole, rfl, rfl⟩
  · rw [crlfLine_of_uncut uncut whole] at isFound
    cases isFound

def IsTrailer (bytes rest : List UInt8) : Prop :=
  ∃ fields : List (List UInt8), bytes = headBytes fields rest ∧ ∀ field ∈ fields, field ≠ [] ∧ Unbroken field

theorem isTrailer_nil {more rest : List UInt8} : IsTrailer (crlf ++ more) rest ↔ more = rest := by
  constructor
  · rintro ⟨fields, same, areLines⟩
    cases fields with
    | nil => exact List.append_cancel_left same
    | cons field fields =>
      obtain ⟨someField, unbroken⟩ := areLines field List.mem_cons_self
      rw [headBytes_cons] at same
      have isLine := @of_append_crlf [] field _ _ rfl unbroken same
      exact absurd isLine.2.1 someField
  · rintro rfl
    exact ⟨[], rfl, nofun⟩

theorem isTrailer_cons {line more rest : List UInt8} (uncut : Uncut line) (some : line ≠ []) :
    IsTrailer (line ++ crlf ++ more) rest ↔ Unbroken line ∧ IsTrailer more rest := by
  constructor
  · rintro ⟨fields, same, areLines⟩
    cases fields with
    | nil =>
      have isLine := @of_append_crlf line [] _ _ uncut (fun _ member => nomatch member) same
      exact absurd isLine.2.1.symm some
    | cons field fields =>
      obtain ⟨someField, unbroken⟩ := areLines field List.mem_cons_self
      rw [headBytes_cons] at same
      obtain ⟨whole, rfl, rfl⟩ := of_append_crlf uncut unbroken same
      exact ⟨whole, fields, rfl, fun other member => areLines other (List.mem_cons_of_mem _ member)⟩
  · rintro ⟨unbroken, fields, rfl, areLines⟩
    refine ⟨line :: fields, (headBytes_cons line fields rest).symm, fun other member => ?_⟩
    rcases List.mem_cons.mp member with rfl | inFields
    · exact ⟨some, unbroken⟩
    · exact areLines other inFields

theorem chunked_iff {line more content rest : List UInt8} (uncut : Uncut line) :
    Chunked (line ++ crlf ++ more) content rest ↔ Unbroken line ∧
      (chunkSize (latin1 line) = some 0 ∧ content = [] ∧ IsTrailer more rest ∨
        ∃ data bytes later, chunkSize (latin1 line) = some data.length ∧ data ≠ [] ∧ more = data ++ (crlf ++ bytes) ∧
          content = data ++ later ∧ Chunked bytes later rest) := by
  constructor
  · intro chunked
    generalize whole : line ++ crlf ++ more = bytes at chunked
    cases chunked with
    | last unbroken isLast areLines =>
      obtain ⟨isLine, rfl, rfl⟩ := of_append_crlf uncut unbroken whole
      exact ⟨isLine, .inl ⟨isLast, rfl, _, rfl, areLines⟩⟩
    | chunk unbroken isSize some later =>
      obtain ⟨isLine, rfl, rfl⟩ := of_append_crlf uncut unbroken whole
      exact ⟨isLine, .inr ⟨_, _, _, isSize, some, rfl, rfl, later⟩⟩
  · rintro ⟨unbroken, ⟨isLast, rfl, trailer, rfl, areLines⟩ | ⟨data, bytes, later, isSize, some, rfl, rfl, chunked⟩⟩
    · exact .last unbroken isLast areLines
    · exact .chunk unbroken isSize some chunked

section Taken

variable {tooLong : Nat → Bool}

theorem findSubslice_crlf {io : List UInt8} {idx : Nat} (found : findSubslice crlf io = some idx) :
    io = io.take idx ++ crlf ++ io.drop (idx + 2) ∧ Uncut (io.take idx) := by
  induction io generalizing idx with
  | nil => cases found
  | cons byte rest ih =>
    rw [findSubslice] at found
    split at found
    next isHere =>
      obtain rfl := Option.some.inj found
      obtain ⟨behind, same⟩ := List.isPrefixOf_iff_prefix.mp isHere
      rw [← same]
      exact ⟨rfl, rfl⟩
    next notHere =>
      obtain ⟨later, isLater, rfl⟩ := Option.map_eq_some_iff.mp found
      obtain ⟨whole, uncut⟩ := ih isLater
      refine ⟨congrArg (byte :: ·) whole, ?_⟩
      rw [List.take_succ_cons, Uncut, latin1, List.map_cons, hasCrlf, Bool.or_eq_false_iff]
      refine ⟨?_, uncut⟩
      rw [Bool.and_eq_false_iff]
      by_contra pair
      rw [not_or, Bool.not_eq_false, Bool.not_eq_false, beq_iff_eq, beq_iff_eq] at pair
      obtain ⟨isReturn, isFeed⟩ := pair
      apply notHere
      cases rest with
      | nil => cases isLater
      | cons next rest =>
        cases later with
        | zero => cases isFeed
        | succ later =>
          obtain rfl : byte = carriageReturn := ofNat_toNat_inj.mp isReturn
          obtain rfl : next = lineFeed := ofNat_toNat_inj.mp (Option.some.inj isFeed)
          rfl

theorem readLine_eq_some {io rest : List UInt8} {line : List Char} (isLine : readLine tooLong io = some (line, rest)) :
    ∃ bytes, io = bytes ++ crlf ++ rest ∧ Uncut bytes ∧ line = lossyTextOf bytes := by
  rw [readLine] at isLine
  obtain ⟨idx, found, isLine⟩ := Option.bind_eq_some_iff.mp isLine
  split at isLine
  next => cases isLine
  next =>
    obtain ⟨rfl, rfl⟩ := Prod.mk.inj (Option.some.inj isLine)
    obtain ⟨whole, uncut⟩ := findSubslice_crlf found
    exact ⟨io.take idx, whole, uncut, rfl⟩

theorem encoded_lossyTextOf {bytes : List UInt8} (uncut : Uncut bytes) :
    Uncut (encoded (lossyTextOf bytes)) ∧ (Unbroken (encoded (lossyTextOf bytes)) ↔ Unbroken bytes) ∧
      chunkSize (latin1 (encoded (lossyTextOf bytes))) = chunkSize (latin1 bytes) := by
  have same : SameAscii (latin1 (encoded (lossyTextOf bytes))) (latin1 bytes) := SameAscii.octets_lossyTextOf bytes
  refine ⟨(hasCrlf_alike same).trans uncut, ?_, chunkSize_alike same⟩
  rw [unbroken_iff_latin1, unbroken_iff_latin1, same.mem_iff (by decide), same.mem_iff (by decide)]

theorem encoded_ne_nil {line : List Char} (some : line ≠ []) : encoded line ≠ [] := by
  intro empty
  refine some ((SameAscii.octets line).eq_nil_iff.mp ?_)
  rw [← latin1_encoded, empty]
  rfl

theorem readTrailer_eq_some {fuel : Nat} {out io taken rest : List UInt8}
    (isTrailer : readTrailer tooLong fuel out io = some (taken, rest)) :
    ∃ piece, taken = out ++ piece ∧ ∀ left, IsTrailer io left ↔ left = rest ∧ IsTrailer piece [] := by
  induction fuel generalizing out io with
  | zero => cases isTrailer
  | succ fuel ih =>
    rw [readTrailer] at isTrailer
    obtain ⟨⟨line, behind⟩, isLine, isTrailer⟩ := Option.bind_eq_some_iff.mp isTrailer
    obtain ⟨bytes, rfl, uncut, rfl⟩ := readLine_eq_some isLine
    dsimp only at isTrailer
    by_cases isEmpty : bytes = []
    · subst isEmpty
      rw [if_pos (show lossyTextOf [] = [] from rfl)] at isTrailer
      obtain ⟨rfl, rfl⟩ := Prod.mk.inj (Option.some.inj isTrailer)
      refine ⟨crlf, List.append_assoc _ _ _, fun left => ?_⟩
      have isPiece : IsTrailer crlf [] := isTrailer_nil.mpr rfl
      rw [List.nil_append, isTrailer_nil, and_iff_left isPiece]
      exact eq_comm
    · have someText := lossyTextOf_ne_nil isEmpty
      rw [if_neg someText] at isTrailer
      obtain ⟨piece, rfl, same⟩ := ih isTrailer
      obtain ⟨uncutText, unbroken, -⟩ := encoded_lossyTextOf uncut
      refine ⟨encoded (lossyTextOf bytes) ++ crlf ++ piece, by simp only [List.append_assoc], fun left => ?_⟩
      rw [isTrailer_cons uncutText (encoded_ne_nil someText), isTrailer_cons uncut isEmpty, same, unbroken, and_left_comm]

theorem fromStrRadix_eq_some {radix limit n : Nat} {text : List Char} (isNumber : fromStrRadix radix limit text = some n)
    (unsigned : text.head? ≠ some '+') : text ≠ [] ∧ text.all (isDigit radix) ∧ n = ofDigits radix text := by
  rw [fromStrRadix, if_neg unsigned] at isNumber
  split at isNumber
  next => cases isNumber
  next digits =>
    split at isNumber
    next => cases isNumber
    next =>
      rw [not_or, not_not] at digits
      exact ⟨digits.1, digits.2, (Option.some.inj isNumber).symm⟩

theorem trimmed_append {solid more : List Char} (some : solid ≠ []) (noBlank : ∀ c ∈ solid, isWhitespace c = false) :
    trimmed (solid ++ more) = solid ++ more.rdropWhile isWhitespace := by
  have front : (solid ++ more).dropWhile isWhitespace = solid ++ more := by
    obtain ⟨c, solid, rfl⟩ := List.exists_cons_of_ne_nil some
    exact List.dropWhile_cons_of_neg (Bool.not_eq_true _ ▸ noBlank c List.mem_cons_self)
  have back : solid.reverse.dropWhile isWhitespace = solid.reverse := by
    refine List.dropWhile_eq_self_iff.mpr fun positive => ?_
    rw [noBlank _ (List.mem_reverse.mp (List.getElem_mem positive))]
    exact Bool.false_ne_true
  rw [trimmed, front, List.rdropWhile, List.rdropWhile, List.reverse_append, List.dropWhile_append]
  split
  next isEmpty => rw [back, List.isEmpty_iff.mp isEmpty, List.reverse_reverse, List.reverse_nil, List.append_nil]
  next => rw [List.reverse_append, List.reverse_reverse]

theorem chunkLength_of_chunkSize {line : List Char} {size length : Nat} (isSize : chunkSize line = some size)
    (isLength : chunkLength line = some length) : length = size := by
  rw [chunkSize] at isSize
  split at isSize
  next => cases isSize
  next someDigits =>
    split at isSize
    next ends =>
      obtain rfl := Option.some.inj isSize
      have whole : line = line.takeWhile (isDigit 16) ++ line.dropWhile (isDigit 16) := List.takeWhile_append_dropWhile.symm
      have digits : ∀ c ∈ line.takeWhile (isDigit 16), isDigit 16 c := fun c member => List.mem_takeWhile_imp member
      generalize line.takeWhile (isDigit 16) = number at someDigits whole digits ⊢
      generalize line.dropWhile (isDigit 16) = more at ends whole
      have solid : ∀ c ∈ number, isWhitespace c = false := by
        intro c member
        by_contra blank
        exact Bool.false_ne_true ((Reader.isDigit_of_isWhitespace (Bool.eq_true_of_not_eq_false blank) 16).symm.trans (digits c member))
      have noSeparator : ∀ c ∈ number, decide (c ≠ ';') = true := by
        intro c member
        exact decide_eq_true fun isSeparator => absurd (isSeparator ▸ digits c member) (by decide)
      rw [chunkLength, whole, List.takeWhile_append_of_pos noSeparator, trimmed_append someDigits solid] at isLength
      have unsigned : (number ++ (more.takeWhile (· ≠ ';')).rdropWhile isWhitespace).head? ≠ some '+' := by
        obtain ⟨c, number, rfl⟩ := List.exists_cons_of_ne_nil someDigits
        intro isSign
        rw [List.cons_append, List.head?_cons, Option.some_inj] at isSign
        exact absurd (isSign ▸ digits c List.mem_cons_self) (by decide)
      obtain ⟨-, allDigits, rfl⟩ := fromStrRadix_eq_some isLength unsigned
      have noMore : (more.takeWhile (· ≠ ';')).rdropWhile isWhitespace = [] := by
        by_contra someMore
        obtain ⟨c, later, isMore⟩ := List.exists_cons_of_ne_nil someMore
        obtain ⟨behind, isFront⟩ := List.rdropWhile_prefix isWhitespace (l := more.takeWhile (· ≠ ';'))
        rw [isMore] at isFront
        have isDigitC : isDigit 16 c := by
          refine List.all_eq_true.mp allDigits c (List.mem_append_right _ ?_)
          rw [isMore]
          exact List.mem_cons_self
        have isHead : more.head? = some c := by
          cases more with
          | nil => cases isFront
          | cons d more =>
            rw [List.takeWhile_cons] at isFront
            split at isFront
            · exact congrArg some (List.cons.inj isFront).1.symm
            · cases isFront
        rw [isHead, Option.all_some, Bool.or_eq_true, isBlank, Bool.or_eq_true, beq_iff_eq, beq_iff_eq, beq_iff_eq] at ends
        rcases ends with rfl | rfl | rfl
        · exact absurd isDigitC (by decide)
        · exact absurd isDigitC (by decide)
        · exact absurd isDigitC (by decide)
      rw [noMore, List.append_nil]
    next => cases isSize

theorem readN_eq_some {n : Nat} {io taken rest : List UInt8} (isTaken : readN n io = some (taken, rest)) :
    io = taken ++ rest ∧ taken.length = n := by
  rw [readN] at isTaken
  split at isTaken
  next => cases isTaken
  next fits =>
    obtain ⟨rfl, rfl⟩ := Prod.mk.inj (Option.some.inj isTaken)
    rw [not_or] at fits
    exact ⟨(List.take_append_drop n io).symm, List.length_take_of_le (not_lt.mp fits.2)⟩

/-- What was taken is the chunked body that the connection holds, where it holds one. -/
theorem readChunks_eq_some {fuel : Nat} {out io taken rest : List UInt8}
    (isBody : readChunks tooLong fuel out io = some (taken, rest)) :
    ∃ piece, taken = out ++ piece ∧ ∀ content left, Chunked io content left ↔ left = rest ∧ Chunked piece content [] := by
  induction fuel generalizing out io with
  | zero => cases isBody
  | succ fuel ih =>
    rw [readChunks] at isBody
    obtain ⟨⟨line, behind⟩, isLine, isBody⟩ := Option.bind_eq_some_iff.mp isBody
    obtain ⟨bytes, rfl, uncut, rfl⟩ := readLine_eq_some isLine
    obtain ⟨length, isLength, isBody⟩ := Option.bind_eq_some_iff.mp isBody
    obtain ⟨uncutText, unbroken, sameSize⟩ := encoded_lossyTextOf uncut
    have agree : ∀ size, chunkSize (latin1 bytes) = some size → length = size := by
      intro size isSize
      rw [← chunkSize_alike (SameAscii.lossyTextOf bytes)] at isSize
      exact chunkLength_of_chunkSize isSize isLength
    dsimp only at isBody
    split at isBody
    next isLast =>
      obtain ⟨piece, rfl, same⟩ := readTrailer_eq_some isBody
      refine ⟨encoded (lossyTextOf bytes) ++ crlf ++ piece, by simp only [List.append_assoc], fun content left => ?_⟩
      simp only [chunked_iff uncut, chunked_iff uncutText, unbroken, sameSize]
      constructor
      · rintro ⟨whole, ⟨isZero, isEmpty, isTrailer⟩ | ⟨data, _, _, isSize, some, -⟩⟩
        · obtain ⟨isLeft, isTrailer⟩ := (same left).mp isTrailer
          exact ⟨isLeft, whole, .inl ⟨isZero, isEmpty, isTrailer⟩⟩
        · exact absurd (List.length_eq_zero_iff.mp ((agree _ isSize).symm.trans isLast)) some
      · rintro ⟨isLeft, whole, ⟨isZero, isEmpty, isTrailer⟩ | ⟨data, _, _, isSize, some, -⟩⟩
        · exact ⟨whole, .inl ⟨isZero, isEmpty, (same left).mpr ⟨isLeft, isTrailer⟩⟩⟩
        · exact absurd (List.length_eq_zero_iff.mp ((agree _ isSize).symm.trans isLast)) some
    next notLast =>
      split at isBody
      next => cases isBody
      next =>
        obtain ⟨⟨data, afterData⟩, isData, withEnding⟩ := Option.bind_eq_some_iff.mp isBody
        obtain ⟨⟨ending, later⟩, isEnding, isLater⟩ := Option.bind_eq_some_iff.mp withEnding
        obtain ⟨rfl, dataLength⟩ := readN_eq_some isData
        obtain ⟨rfl, endingLength⟩ := readN_eq_some isEnding
        obtain ⟨piece, rfl, same⟩ := ih isLater
        refine ⟨encoded (lossyTextOf bytes) ++ crlf ++ (data ++ (ending ++ piece)),
          by simp only [List.append_assoc], fun content left => ?_⟩
        simp only [chunked_iff uncut, chunked_iff uncutText, unbroken, sameSize]
        have parts : ∀ {other more after : List UInt8}, chunkSize (latin1 bytes) = some other.length →
            data ++ (ending ++ more) = other ++ (crlf ++ after) → other = data ∧ ending = crlf ∧ after = more := by
          intro other more after isSize whole
          obtain ⟨sameData, whole⟩ := List.append_inj whole (dataLength.trans (agree _ isSize))
          obtain ⟨sameEnding, sameRest⟩ := List.append_inj whole endingLength
          exact ⟨sameData.symm, sameEnding, sameRest.symm⟩
        constructor
        · rintro ⟨whole, ⟨isZero, -, -⟩ | ⟨other, after, more, isSize, some, isWhole, rfl, chunked⟩⟩
          · exact absurd (agree _ isZero) notLast
          · obtain ⟨rfl, rfl, rfl⟩ := parts isSize isWhole
            obtain ⟨isLeft, chunked⟩ := (same more left).mp chunked
            exact ⟨isLeft, whole, .inr ⟨_, _, more, isSize, some, rfl, rfl, chunked⟩⟩
        · rintro ⟨isLeft, whole, ⟨isZero, -, -⟩ | ⟨other, after, more, isSize, some, isWhole, rfl, chunked⟩⟩
          · exact absurd (agree _ isZero) notLast
          · obtain ⟨rfl, rfl, rfl⟩ := parts isSize isWhole
            exact ⟨whole, .inr ⟨_, _, more, isSize, some, rfl, rfl, (same more left).mpr ⟨isLeft, chunked⟩⟩⟩

theorem exists_chunkLine {io taken rest : List UInt8} (isBody : readChunked tooLong io = some (taken, rest)) :
    ∃ bytes more, taken = encoded (lossyTextOf bytes) ++ crlf ++ more ∧ Uncut bytes ∧
      (chunkLength (lossyTextOf bytes)).isSome := by
  rw [readChunked, readChunks] at isBody
  obtain ⟨⟨line, behind⟩, isLine, isBody⟩ := Option.bind_eq_some_iff.mp isBody
  obtain ⟨bytes, rfl, uncut, rfl⟩ := readLine_eq_some isLine
  obtain ⟨length, isLength, isBody⟩ := Option.bind_eq_some_iff.mp isBody
  dsimp only at isBody
  split at isBody
  next =>
    obtain ⟨piece, rfl, -⟩ := readTrailer_eq_some isBody
    exact ⟨bytes, piece, rfl, uncut, isLength ▸ rfl⟩
  next =>
    split at isBody
    next => cases isBody
    next =>
      obtain ⟨⟨data, afterData⟩, -, isBody⟩ := Option.bind_eq_some_iff.mp isBody
      obtain ⟨⟨ending, later⟩, -, isLater⟩ := Option.bind_eq_some_iff.mp isBody
      obtain ⟨piece, rfl, -⟩ := readChunks_eq_some isLater
      exact ⟨bytes, data ++ (ending ++ piece), by simp only [List.append_assoc, List.nil_append], uncut, isLength ▸ rfl⟩

theorem bodyOf_readChunked {io taken rest : List UInt8} (isBody : readChunked tooLong io = some (taken, rest))
    (content left : List UInt8) :
    bodyOf .chunked io = some (content, left) ↔ left = rest ∧ bodyOf .chunked taken = some (content, []) := by
  obtain ⟨piece, rfl, same⟩ := readChunks_eq_some isBody
  simp only [bodyOf, chunkedBody_eq_some_iff le_rfl]
  exact same content left

theorem readChunked_eq_some {io taken rest : List UInt8} (isBody : readChunked tooLong io = some (taken, rest)) :
    (∃ content, bodyOf .chunked taken = some (content, [])) ↔ ∃ content left, bodyOf .chunked io = some (content, left) := by
  simp only [bodyOf_readChunked isBody, exists_eq_left]

end Taken

end HttpIo

end Nfrp
