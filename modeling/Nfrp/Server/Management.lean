import Nfrp.Nlink.Commit
import Nfrp.Server.HttpIo

/-!
# Requests to the local page and to the panel

Both read one request a connection: the head up to the first empty line, and then as many
bytes as it announces.  Both keep what else came with the last read, and both go on with
what they have once that is more than the limit.
-/

namespace Nfrp

open Lib

def emptyLine : List UInt8 := crlf ++ crlf

/-- The text before the first empty line, and the text behind it. -/
def splitHead (raw : List Char) : List Char × List Char :=
  match position (latin1 emptyLine) raw with
  | some i => (raw.take i, raw.drop (i + 4))
  | none => (raw, [])

def announcedLength (value : Option (List Char)) : Nat :=
  (value.bind (fromStrRadix 10 (2 ^ 64 - 1))).getD 0

def fieldNamed (name : List Char) (field : List Char × List Char) : Bool :=
  sameIgnoringCase (trimmed field.1) name

namespace Http1

structure Request where
  method : List Char
  path : List Char
  query : List Char
  body : List Char
  head : List Char
  deriving DecidableEq, Repr

def headerInHead (head name : List Char) : Option (List Char) :=
  ((((splitCrlf head).drop 1).filterMap (splitOnce ':')).find? (fieldNamed name)).map fun field => trimmed field.2

def contentLength (head : List Char) : Nat := announcedLength (headerInHead head "content-length".toList)

def bodyOffset (buf : List UInt8) : Option Nat := (position emptyLine buf).map (· + 4)

def ofHead (head body : List Char) : Request :=
  let parts := splitWhitespace ((splitCrlf head).head?.getD [])
  let target := parts[1]?.getD ['/']
  let path := ((splitOnce '?' target).map Prod.fst).getD target
  { method := (parts[0]?.getD []).map Char.toUpper
    path := if path = [] then ['/'] else path
    query := ((splitOnce '?' target).map Prod.snd).getD []
    body
    head }

def parseStr (raw : List Char) : Request := ofHead (splitHead raw).1 (splitHead raw).2

def parse (buf : List UInt8) : Request := parseStr (lossyTextOf buf)

/-- What is in the buffer when the loop ends; it ends the stream when nothing is read. -/
def readLoop : (buf : List UInt8) → (wantBody : Nat) → (reads : List (List UInt8)) → List UInt8
  | buf, _, [] | buf, _, [] :: _ => buf
  | buf, wantBody, (byte :: more) :: later =>
    let buf := buf ++ byte :: more
    if maxHead * 4 < buf.length then buf
    else
      match bodyOffset buf with
      | none => readLoop buf wantBody later
      | some off =>
        let wantBody := if wantBody = 0 then contentLength (lossyTextOf (buf.take off)) else wantBody
        if wantBody ≤ buf.length - off then buf else readLoop buf wantBody later

def readRequest (reads : List (List UInt8)) : Request := parse (readLoop [] 0 reads)

end Http1

namespace Dashboard

def maxLine : Nat := 8 * 1024

/-- The first value, looked for in the head only, and in its first line too. -/
def headerValue (req name : List Char) : Option (List Char) :=
  (((Nlink.lines (splitHead req).1).filterMap (splitOnce ':')).find? (fieldNamed name)).map fun field => trimmed field.2

/-- A field that may be there once; twice is an error. -/
def uniqueHeader (req name : List Char) : Except Unit (Option (List Char)) :=
  match ((Nlink.lines (splitHead req).1).filterMap (splitOnce ':')).filter (fieldNamed name) with
  | [] => .ok none
  | [field] => .ok (some (trimmed field.2))
  | _ => .error ()

def contentLengthOf (req : List Char) : Nat := announcedLength (headerValue req "content-length".toList)

def bufBodyLen (buf : List UInt8) : Nat :=
  match position emptyLine buf with
  | some i => buf.length - (i + 4)
  | none => 0

def parseRequestLine (req : List Char) : List Char × List Char :=
  let parts := splitWhitespace req
  let path := (parts[1]?.getD ['/']).takeWhile (· ≠ '?')
  ((parts[0]?.getD []).map Char.toUpper, if path = [] then ['/'] else path)

def queryOf (req : List Char) : List Char :=
  ((splitOnce '?' ((splitWhitespace req)[1]?.getD [])).map Prod.snd).getD []

def bodyOf (req : List Char) : List Char := (splitHead req).2

def readLoop : (buf : List UInt8) → (reads : List (List UInt8)) → List UInt8
  | buf, [] | buf, [] :: _ => buf
  | buf, (byte :: more) :: later =>
    let buf := buf ++ byte :: more
    if position emptyLine buf = none then
      if maxLine * 4 < buf.length then buf else readLoop buf later
    else if contentLengthOf (lossyTextOf buf) ≤ bufBodyLen buf ∨ maxLine * 4 < buf.length then buf
    else readLoop buf later

/-- The text that all the parts of a request are taken from. -/
def received (reads : List (List UInt8)) : List Char := lossyTextOf (readLoop [] reads)

end Dashboard

/-- The request in a stream: its head, the body that the head announces, and what follows. -/
structure InStream (contentLength : List Char → Nat) (stream head body more : List UInt8) : Prop where
  cut : stream = head ++ (emptyLine ++ (body ++ more))
  first : position emptyLine stream = some head.length
  announced : contentLength (lossyTextOf (head ++ emptyLine)) = body.length

def sizeIn (contentLength : List Char → Nat) (stream : List UInt8) : Option Nat :=
  (position emptyLine stream).map fun i => i + 4 + contentLength (lossyTextOf (stream.take (i + 4)))

/-- A request that has come whole, or more than the limit. -/
def Enough (limit : Nat) (contentLength : List Char → Nat) (buf : List UInt8) : Prop :=
  limit < buf.length ∨ ∃ n ∈ sizeIn contentLength buf, n ≤ buf.length

def TooLong (limit : Nat) (contentLength : List Char → Nat) (stream : List UInt8) : Prop :=
  limit < stream.length ∧ ∀ n ∈ sizeIn contentLength stream, limit < n

section

variable {limit n : Nat} {contentLength : List Char → Nat} {stream front head body more : List UInt8}

instance decidableEnough : DecidablePred (Enough limit contentLength) := fun buf =>
  inferInstanceAs (Decidable (limit < buf.length ∨ ∃ n ∈ sizeIn contentLength buf, n ≤ buf.length))

theorem emptyLine_ne_nil : emptyLine ≠ [] := List.cons_ne_nil _ _

/-- A front holds a whole request when it is as long as the request. -/
theorem exists_sizeIn_front (isSize : sizeIn contentLength stream = some n) (isFront : front <+: stream) :
    (∃ m ∈ sizeIn contentLength front, m ≤ front.length) ↔ n ≤ front.length := by
  obtain ⟨i, found, rfl⟩ := Option.map_eq_some_iff.mp isSize
  have inFront := position_front emptyLine_ne_nil found isFront
  rw [sizeIn, inFront]
  split
  next covers =>
    obtain ⟨rest, rfl⟩ := isFront
    have sameHead : (front ++ rest).take (i + 4) = front.take (i + 4) := List.take_append_of_le_length covers
    simp [sameHead]
  next short =>
    have shorter : front.length < i + 4 := Nat.lt_of_not_le short
    refine iff_of_false ?_ (by omega)
    rintro ⟨m, isSize, -⟩
    cases isSize

theorem sizeIn_front_none (noSize : sizeIn contentLength stream = none) (isFront : front <+: stream) :
    sizeIn contentLength front = none := by
  rw [sizeIn, Option.map_eq_none_iff] at noSize ⊢
  exact position_front_none noSize isFront

theorem InStream.sizeIn_eq (inStream : InStream contentLength stream head body more) :
    sizeIn contentLength stream = some (head ++ (emptyLine ++ body)).length := by
  have isHead : stream.take (head.length + 4) = head ++ emptyLine := by
    rw [inStream.cut, ← List.append_assoc]
    exact List.take_left' (List.length_append ..)
  rw [sizeIn, inStream.first, Option.map_some, isHead, inStream.announced, List.length_append, List.length_append,
    ← Nat.add_assoc]
  rfl

theorem InStream.enough_iff (inStream : InStream contentLength stream head body more)
    (fits : (head ++ (emptyLine ++ body)).length ≤ limit) (isFront : front <+: stream) :
    Enough limit contentLength front ↔ (head ++ (emptyLine ++ body)).length ≤ front.length := by
  rw [Enough, exists_sizeIn_front inStream.sizeIn_eq isFront]
  omega

theorem TooLong.enough_iff (tooLong : TooLong limit contentLength stream) (isFront : front <+: stream) :
    Enough limit contentLength front ↔ limit + 1 ≤ front.length := by
  rw [Enough]
  cases isSize : sizeIn contentLength stream with
  | none =>
    rw [sizeIn_front_none isSize isFront]
    simp
  | some n =>
    have longer := tooLong.2 n isSize
    rw [exists_sizeIn_front isSize isFront]
    omega

/-- Reading a request that fits the limit stops behind its body, with what else came with the last read. -/
theorem InStream.readUntil_eq {reads : List (List UInt8)} (inStream : InStream contentLength reads.flatten head body more)
    (fits : (head ++ (emptyLine ++ body)).length ≤ limit) (nonempty : ∀ piece ∈ reads, piece ≠ []) :
    ∃ extra, extra <+: more ∧
      readUntil (Enough limit contentLength) [] reads = head ++ (emptyLine ++ (body ++ extra)) := by
  have isWhole : reads.flatten = head ++ (emptyLine ++ body) ++ more := by simp only [inStream.cut, List.append_assoc]
  have covers : (head ++ (emptyLine ++ body)).length ≤ reads.flatten.length := by
    rw [isWhole]
    exact (List.prefix_append _ more).length_le
  have isEnough := fun front (isFront : front <+: [] ++ reads.flatten) => inStream.enough_iff fits isFront
  have some : ([] : List UInt8).length < (head ++ (emptyLine ++ body)).length := by
    rw [List.length_append, List.length_append]
    exact Nat.lt_add_left _ (Nat.lt_add_right _ (by decide))
  obtain ⟨before, piece, after, split, result, -, reached⟩ :=
    Lib.readUntil_eq nonempty isEnough some covers
  have isFront : (before ++ [piece]).flatten <+: head ++ (emptyLine ++ body) ++ more := by
    rw [← isWhole, split]
    simp
  obtain ⟨extra, isExtra⟩ := List.prefix_of_prefix_length_le (List.prefix_append _ more) isFront reached
  rw [← isExtra, List.prefix_append_right_inj] at isFront
  refine ⟨extra, isFront, ?_⟩
  rw [result, List.nil_append, ← isExtra]
  simp only [List.append_assoc]

theorem TooLong.readUntil_eq {reads : List (List UInt8)} (tooLong : TooLong limit contentLength reads.flatten)
    (nonempty : ∀ piece ∈ reads, piece ≠ []) :
    ∃ before piece after, reads = before ++ piece :: after ∧ before.flatten.length ≤ limit ∧
      limit < (before ++ [piece]).flatten.length ∧
      readUntil (Enough limit contentLength) [] reads = (before ++ [piece]).flatten := by
  have isEnough := fun front (isFront : front <+: [] ++ reads.flatten) => tooLong.enough_iff isFront
  obtain ⟨before, piece, after, split, result, short, reached⟩ :=
    Lib.readUntil_eq nonempty isEnough (Nat.zero_lt_succ _) tooLong.1
  exact ⟨before, piece, after, split, Nat.le_of_lt_succ short, reached, result⟩

end

theorem position_append {buf : List UInt8} {i : Nat} (found : position emptyLine buf = some i) (more : List UInt8) :
    position emptyLine (buf ++ more) = some i ∧ (buf ++ more).take (i + 4) = buf.take (i + 4) ∧ i + 4 ≤ buf.length := by
  have inside := (position_isPrefix found).length_le
  rw [List.length_drop] at inside
  have covers : i + 4 ≤ buf.length := by
    have four : emptyLine.length = 4 := rfl
    omega
  exact ⟨position_of_front emptyLine_ne_nil found (List.prefix_append _ _), List.take_append_of_le_length covers, covers⟩

theorem ascii_emptyLine : ∀ byte ∈ emptyLine, byte.toNat < 128 := by
  simp [emptyLine, crlf, carriageReturn, lineFeed]

theorem splitHead_lossyTextOf {buf : List UInt8} {i : Nat} (found : position emptyLine buf = some i) :
    splitHead (lossyTextOf buf) = (lossyTextOf (buf.take i), lossyTextOf (buf.drop (i + 4))) := by
  have ascii := ascii_emptyLine
  obtain ⟨behind, isBehind⟩ := position_isPrefix found
  have isRest : buf.drop (i + 4) = behind := by
    rw [← List.drop_drop, ← isBehind]
    exact List.drop_left' rfl
  have isText : lossyTextOf buf = lossyTextOf (buf.take i) ++ (latin1 emptyLine ++ lossyTextOf behind) := by
    rw [← lossyTextOf_mark _ ascii _ emptyLine_ne_nil, isBehind, List.take_append_drop]
  rw [splitHead, position_lossyTextOf ascii emptyLine_ne_nil found, isRest, isText]
  simp only [List.take_left]
  rw [← List.drop_drop, List.drop_left]
  exact congrArg _ (List.drop_left' rfl)

namespace Http1

/-- The length that was read off the head stays what the head says. -/
theorem readLoop_eq (buf : List UInt8) (wantBody : Nat) (reads : List (List UInt8))
    (known : wantBody = 0 ∨ ∃ i, position emptyLine buf = some i ∧ wantBody = contentLength (lossyTextOf (buf.take (i + 4)))) :
    readLoop buf wantBody reads = readUntil (Enough (maxHead * 4) contentLength) buf reads := by
  induction reads generalizing buf wantBody with
  | nil => rfl
  | cons piece later ih =>
    cases piece with
    | nil => rfl
    | cons byte more =>
      rw [readLoop, readUntil]
      simp only
      by_cases tooLong : maxHead * 4 < (buf ++ byte :: more).length
      · rw [if_pos tooLong, if_pos (.inl tooLong)]
      · rw [if_neg tooLong, bodyOffset]
        cases found : position emptyLine (buf ++ byte :: more) with
        | none =>
          have notEnough : ¬Enough (maxHead * 4) contentLength (buf ++ byte :: more) := by
            rintro (longer | ⟨n, isSize, -⟩)
            · exact tooLong longer
            · rw [sizeIn, found] at isSize
              cases isSize
          have unknown : wantBody = 0 := by
            rcases known with unknown | ⟨i, inBuf, -⟩
            · exact unknown
            · rw [(position_append inBuf _).1] at found
              cases found
          rw [if_neg notEnough]
          exact ih _ _ (.inl unknown)
        | some i =>
          have announced : (if wantBody = 0 then contentLength (lossyTextOf ((buf ++ byte :: more).take (i + 4)))
              else wantBody) = contentLength (lossyTextOf ((buf ++ byte :: more).take (i + 4))) := by
            split
            next => rfl
            next isKnown =>
              obtain ⟨j, inBuf, isLength⟩ := known.resolve_left isKnown
              obtain ⟨here, sameHead, -⟩ := position_append inBuf (byte :: more)
              rw [here] at found
              cases found
              rw [sameHead, isLength]
          have enough : Enough (maxHead * 4) contentLength (buf ++ byte :: more) ↔
              contentLength (lossyTextOf ((buf ++ byte :: more).take (i + 4))) ≤ (buf ++ byte :: more).length - (i + 4) := by
            have covers := (position_append found []).2.2
            rw [Enough, sizeIn, found, or_iff_right tooLong]
            simp only [Option.map_some, Option.mem_some_iff, exists_eq_left']
            omega
          simp only [Option.map_some, announced]
          rw [ih _ _ (.inr ⟨i, found, rfl⟩)]
          simp only [enough]

end Http1

namespace Dashboard

theorem contentLengthOf_lossyTextOf {buf : List UInt8} {i : Nat} (found : position emptyLine buf = some i) :
    contentLengthOf (lossyTextOf buf) = contentLengthOf (lossyTextOf (buf.take (i + 4))) := by
  have covers := (position_append found []).2.2
  have inHead : position emptyLine (buf.take (i + 4)) = some i := by
    rw [position_front emptyLine_ne_nil found (List.take_prefix _ _), List.length_take, Nat.min_eq_left covers]
    exact if_pos (Nat.le_refl _)
  rw [contentLengthOf, contentLengthOf, headerValue, headerValue, splitHead_lossyTextOf found,
    splitHead_lossyTextOf inHead, List.take_take, Nat.min_eq_left (Nat.le_add_right _ _)]

theorem readLoop_eq (buf : List UInt8) (reads : List (List UInt8)) :
    readLoop buf reads = readUntil (Enough (maxLine * 4) contentLengthOf) buf reads := by
  induction reads generalizing buf with
  | nil => rfl
  | cons piece later ih =>
    cases piece with
    | nil => rfl
    | cons byte more =>
      rw [readLoop, readUntil, ih]
      cases found : position emptyLine (buf ++ byte :: more) with
      | none =>
        have enough : Enough (maxLine * 4) contentLengthOf (buf ++ byte :: more) ↔
            maxLine * 4 < (buf ++ byte :: more).length := by
          rw [Enough, sizeIn, found]
          simp
        rw [if_pos rfl]
        simp only [enough]
      | some i =>
        have enough : Enough (maxLine * 4) contentLengthOf (buf ++ byte :: more) ↔
            contentLengthOf (lossyTextOf (buf ++ byte :: more)) ≤ bufBodyLen (buf ++ byte :: more) ∨
              maxLine * 4 < (buf ++ byte :: more).length := by
          have covers := (position_append found []).2.2
          rw [Enough, sizeIn, bufBodyLen, found, contentLengthOf_lossyTextOf found, or_comm]
          simp only [Option.map_some, Option.mem_some_iff, exists_eq_left']
          omega
        rw [if_neg (by simp)]
        simp only [enough]

end Dashboard

section

variable {contentLength : List Char → Nat} {stream head body more extra : List UInt8} {reads : List (List UInt8)}

theorem InStream.splitHead_eq (inStream : InStream contentLength stream head body more) (isFront : extra <+: more) :
    splitHead (lossyTextOf (head ++ (emptyLine ++ (body ++ extra)))) = (lossyTextOf head, lossyTextOf (body ++ extra)) := by
  have inFront : head ++ (emptyLine ++ (body ++ extra)) <+: stream := by
    obtain ⟨beyond, rfl⟩ := isFront
    rw [inStream.cut]
    exact ⟨beyond, by simp only [List.append_assoc]⟩
  have found : position emptyLine (head ++ (emptyLine ++ (body ++ extra))) = some head.length := by
    rw [position_front emptyLine_ne_nil inStream.first inFront]
    refine if_pos ?_
    rw [List.length_append, List.length_append]
    omega
  rw [splitHead_lossyTextOf found, List.take_left, ← List.drop_drop, List.drop_left]
  exact congrArg (fun rest => (lossyTextOf head, lossyTextOf rest)) (List.drop_left' rfl)

theorem splitWhitespace_append (before : List Char) {blank : Char} (isBlank : isWhitespace blank = true)
    (behind : List Char) :
    splitWhitespace (before ++ blank :: behind) = splitWhitespace before ++ splitWhitespace behind := by
  rw [splitWhitespace, List.splitOnP_append_cons before behind isBlank, List.filter_append]
  rfl

namespace Dashboard

theorem words_eq {text : List Char} (some : 2 ≤ (splitWhitespace text).length) {blank : Char}
    (isBlank : isWhitespace blank = true) (behind : List Char) :
    parseRequestLine (text ++ blank :: behind) = parseRequestLine text ∧
      queryOf (text ++ blank :: behind) = queryOf text := by
  have first : (splitWhitespace (text ++ blank :: behind))[0]? = (splitWhitespace text)[0]? := by
    rw [splitWhitespace_append text isBlank, List.getElem?_append_left (by omega)]
  have second : (splitWhitespace (text ++ blank :: behind))[1]? = (splitWhitespace text)[1]? := by
    rw [splitWhitespace_append text isBlank, List.getElem?_append_left (by omega)]
  rw [parseRequestLine, queryOf, first, second]
  exact ⟨rfl, rfl⟩

end Dashboard

end

def bareGet : List UInt8 := "GET / HTTP/1.1\r\n\r\n".toList.map asciiByte

end Nfrp
