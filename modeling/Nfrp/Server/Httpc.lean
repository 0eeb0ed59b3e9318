import Nfrp.Server.HttpChunks
import Nfrp.Server.Management

/-!
# Responses to the server's own requests

The server asks for the connection to be closed, and takes all that comes before that for
the response.  A body in chunks is put together; what ends a body otherwise is not looked at.
-/

namespace Nfrp.Httpc

open Lib

structure Response where
  status : Nat
  body : List UInt8
  deriving DecidableEq, Repr

def maxBody : Nat := 8 * 1024 * 1024

def header (head name : List Char) : Option (List Char) :=
  ((((Nlink.lines head).drop 1).filterMap (splitOnce ':')).find? (fieldNamed name)).map fun field => trimmed field.2

def statusIn (head : List Char) : Option Nat :=
  ((Nlink.lines head).head?.bind fun line => (splitWhitespace line)[1]?).bind (fromStrRadix 10 65535)

def isChunked (head : List Char) : Bool :=
  ((header head "transfer-encoding".toList).map fun v => decide ("chunked".toList <:+: v.map Char.toLower)).getD false

def readAll : (out : List UInt8) → (reads : List (List UInt8)) → Except String (List UInt8)
  | out, [] | out, [] :: _ => .ok out
  | out, (byte :: more) :: later =>
    let out := out ++ byte :: more
    if maxBody < out.length then .error s!"响应体超过 {maxBody} 字节" else readAll out later

section

-- How a text is shown between quotation marks.
variable (shown : List Char → String)

/-- Indices are machine words, and there is no result where one overflows or a range is
out of bounds. -/
def decodeChunked (raw : List UInt8) : (fuel i : Nat) → (out : List UInt8) → Option (Except String (List UInt8))
  | 0, _, _ => none
  | fuel + 1, i, out =>
    (checkedAdd 64 i 1).bind fun next =>
      if raw.length ≤ next then some (.ok out)
      else
        (slice raw i raw.length).bind fun rest =>
          match findSubslice crlf rest with
          | none => some (.ok out)
          | some p =>
            (checkedAdd 64 i p).bind fun lineEnd =>
              (slice raw i lineEnd).bind fun line =>
                let sizeText := trimmed ((lossyTextOf line).takeWhile (· ≠ ';'))
                match fromStrRadix 16 (2 ^ 64 - 1) sizeText with
                | none => some (.error s!"chunked 段长度非法：{shown sizeText}")
                | some size =>
                  (checkedAdd 64 lineEnd 2).bind fun i =>
                    if size = 0 then some (.ok out)
                    else
                      match checkedAdd 64 i size with
                      | none => some (.error s!"chunked 段长度溢出：{shown sizeText}")
                      | some stop =>
                        if raw.length < stop then some (.error "chunked 数据被截断")
                        else
                          (slice raw i stop).bind fun data =>
                            match checkedAdd 64 stop 2 with
                            | none => some (.ok (out ++ data))
                            | some i =>
                              if maxBody < (out ++ data).length then
                                some (.error s!"chunked 响应体超过 {maxBody} 字节")
                              else decodeChunked raw fuel i (out ++ data)

def parseResponse (raw : List UInt8) : Option (Except String Response) :=
  match position emptyLine raw with
  | none => some (.error "响应里没有头部结束标记")
  | some sep =>
    (slice raw 0 sep).bind fun headBytes =>
      let head := lossyTextOf headBytes
      match statusIn head with
      | none => some (.error s!"响应状态行无法解析：{String.ofList ((Nlink.lines head).head?.getD [])}")
      | some status =>
        (slice raw (sep + 4) raw.length).bind fun bodyRaw =>
          if isChunked head then
            (decodeChunked shown bodyRaw (bodyRaw.length + 3) 0 []).map fun decoded =>
              decoded.map fun body => { status, body }
          else some (.ok { status, body := bodyRaw })

/-- The response to a request, from what is read up to the closing of the connection. -/
def respond (reads : List (List UInt8)) : Option (Except String Response) :=
  match readAll [] reads with
  | .error e => some (.error e)
  | .ok raw => parseResponse shown raw

end

/-- The content that is put together from what has not been looked at; nothing where it is refused. -/
def decodeFrom : (fuel : Nat) → (bytes out : List UInt8) → Option (List UInt8)
  | 0, _, _ => none
  | fuel + 1, bytes, out =>
    if bytes.length < 2 then some out
    else
      match findSubslice crlf bytes with
      | none => some out
      | some p =>
        (HttpIo.chunkLength (lossyTextOf (bytes.take p))).bind fun size =>
          let after := bytes.drop (p + 2)
          if size = 0 then some out
          else if after.length < size then none
          else if maxBody < (out ++ after.take size).length then none
          else decodeFrom fuel (after.drop (size + 2)) (out ++ after.take size)

variable {shown : List Char → String} {raw : List UInt8}

theorem findSubslice_length {bytes : List UInt8} {p : Nat} (found : findSubslice crlf bytes = some p) :
    p + 2 ≤ bytes.length := by
  have whole := congrArg List.length (HttpIo.findSubslice_crlf found).1
  have two : crlf.length = 2 := rfl
  rw [List.length_append, List.length_append, List.length_take, List.length_drop, two] at whole
  omega

theorem decodeChunked_eq (small : raw.length < 2 ^ 63) {fuel i : Nat} (inside : i ≤ raw.length + 2)
    (enough : raw.length + 2 < fuel + i) (out : List UInt8) :
    ∃ result, decodeChunked shown raw fuel i out = some result ∧ result.toOption = decodeFrom fuel (raw.drop i) out := by
  induction fuel generalizing i out with
  | zero => omega
  | succ fuel ih =>
    have remaining : (raw.drop i).length = raw.length - i := List.length_drop
    rw [decodeChunked, decodeFrom, checkedAdd_of_lt (show i + 1 < 2 ^ 64 by omega), Option.bind_some]
    by_cases short : raw.length ≤ i + 1
    · rw [if_pos short, if_pos (by omega)]
      exact ⟨_, rfl, rfl⟩
    rw [if_neg short, if_neg (by omega), slice_of_le (by omega) (Nat.le_refl _), Option.bind_some, ← remaining,
      List.take_length]
    cases found : findSubslice crlf (raw.drop i) with
    | none => exact ⟨_, rfl, rfl⟩
    | some p =>
      have lineInside := findSubslice_length found
      have isAfter : (raw.drop i).drop (p + 2) = raw.drop (i + p + 2) := by
        rw [List.drop_drop, Nat.add_assoc]
      have afterLength : (raw.drop (i + p + 2)).length = raw.length - (i + p + 2) := List.length_drop
      simp only
      rw [checkedAdd_of_lt (show i + p < 2 ^ 64 by omega), Option.bind_some, slice_of_le (by omega) (by omega),
        Option.bind_some, Nat.add_sub_cancel_left, isAfter, HttpIo.chunkLength]
      cases isSize : fromStrRadix 16 (2 ^ 64 - 1) (trimmed ((lossyTextOf ((raw.drop i).take p)).takeWhile (· ≠ ';'))) with
      | none => exact ⟨_, rfl, rfl⟩
      | some size =>
        simp only [Option.bind_some]
        rw [checkedAdd_of_lt (show i + p + 2 < 2 ^ 64 by omega), Option.bind_some]
        by_cases isLast : size = 0
        · rw [if_pos isLast, if_pos isLast]
          exact ⟨_, rfl, rfl⟩
        rw [if_neg isLast, if_neg isLast]
        by_cases fits : i + p + 2 + size < 2 ^ 64
        · rw [checkedAdd_of_lt fits]
          simp only
          by_cases truncated : raw.length < i + p + 2 + size
          · rw [if_pos truncated, if_pos (by omega)]
            exact ⟨_, rfl, rfl⟩
          rw [if_neg truncated, if_neg (by omega), slice_of_le (by omega) (by omega), Option.bind_some,
            Nat.add_sub_cancel_left, checkedAdd_of_lt (show i + p + 2 + size + 2 < 2 ^ 64 by omega)]
          simp only
          by_cases tooLong : maxBody < (out ++ (raw.drop (i + p + 2)).take size).length
          · rw [if_pos tooLong, if_pos tooLong]
            exact ⟨_, rfl, rfl⟩
          rw [if_neg tooLong, if_neg tooLong, List.drop_drop, ← Nat.add_assoc]
          exact ih (by omega) (by omega) _
        · have overflows : checkedAdd 64 (i + p + 2) size = none := if_neg fits
          rw [overflows, if_pos (by omega)]
          exact ⟨_, rfl, rfl⟩

theorem uncut_of_unbroken {line : List UInt8} (unbroken : Unbroken line) : HttpIo.Uncut line := by
  induction line with
  | nil => rfl
  | cons byte line ih =>
    obtain ⟨first, later⟩ := List.forall_mem_cons.mp unbroken
    have noReturn : (Char.ofNat byte.toNat == '\r') = false :=
      beq_eq_false_iff_ne.mpr fun isReturn => first.1 (@HttpIo.ofNat_toNat_inj byte carriageReturn |>.mp isReturn)
    rw [HttpIo.Uncut, latin1, List.map_cons, HttpIo.hasCrlf, noReturn, Bool.false_and, Bool.false_or]
    exact ih later

variable {line after out : List UInt8} {fuel : Nat}

theorem decodeFrom_line (unbroken : Unbroken line) (after out : List UInt8) (fuel : Nat) :
    decodeFrom (fuel + 1) (line ++ (crlf ++ after)) out =
      (HttpIo.chunkLength (lossyTextOf line)).bind fun size =>
        if size = 0 then some out
        else if after.length < size then none
        else if maxBody < (out ++ after.take size).length then none
        else decodeFrom fuel (after.drop (size + 2)) (out ++ after.take size) := by
  have long : ¬(line ++ (crlf ++ after)).length < 2 := by
    have two : crlf.length = 2 := rfl
    rw [List.length_append, List.length_append, two]
    omega
  have behind : (line ++ (crlf ++ after)).drop (line.length + 2) = after := by
    rw [← List.drop_drop, List.drop_left]
    exact List.drop_left' rfl
  rw [decodeFrom, if_neg long, HttpIo.findSubslice_of_uncut (uncut_of_unbroken unbroken)]
  simp only [List.take_left, behind]

theorem length_eq_of_chunkSize {size length : Nat} (isSize : chunkSize (latin1 line) = some size)
    (isLength : HttpIo.chunkLength (lossyTextOf line) = some length) : length = size := by
  rw [← HttpIo.chunkSize_alike (SameAscii.lossyTextOf line)] at isSize
  exact HttpIo.chunkLength_of_chunkSize isSize isLength

/-- A body in chunks is put together to its content, or refused. -/
theorem decodeFrom_chunked {bytes content rest found : List UInt8} (chunked : Chunked bytes content rest)
    (isFound : decodeFrom fuel bytes out = some found) : found = out ++ content := by
  induction chunked generalizing fuel out with
  | last unbroken isLast areLines =>
    cases fuel with
    | zero => cases isFound
    | succ fuel =>
      rw [List.append_assoc, decodeFrom_line unbroken] at isFound
      obtain ⟨size, isLength, isFound⟩ := Option.bind_eq_some_iff.mp isFound
      rw [if_pos (length_eq_of_chunkSize isLast isLength)] at isFound
      cases isFound
      exact (List.append_nil _).symm
  | @chunk line data bytes content rest unbroken isSize someData later ih =>
    cases fuel with
    | zero => cases isFound
    | succ fuel =>
      rw [List.append_assoc, decodeFrom_line unbroken] at isFound
      obtain ⟨size, isLength, isFound⟩ := Option.bind_eq_some_iff.mp isFound
      obtain rfl := length_eq_of_chunkSize isSize isLength
      have behind : (data ++ (crlf ++ bytes)).drop (data.length + 2) = bytes := by
        rw [← List.drop_drop, List.drop_left]
        exact List.drop_left' rfl
      rw [if_neg (mt List.length_eq_zero_iff.mp someData), List.take_left, behind] at isFound
      split at isFound
      next => cases isFound
      split at isFound
      next => cases isFound
      rw [ih isFound, List.append_assoc]

inductive CutInData : List UInt8 → Prop where
  | here {line data : List UInt8} {size : Nat} (unbroken : Unbroken line) (isSize : chunkSize (latin1 line) = some size)
      (short : data.length < size) : CutInData (line ++ (crlf ++ data))
  | later {line data bytes : List UInt8} (unbroken : Unbroken line) (isSize : chunkSize (latin1 line) = some data.length)
      (someData : data ≠ []) (behind : CutInData bytes) : CutInData (line ++ (crlf ++ (data ++ (crlf ++ bytes))))

theorem decodeFrom_cutInData {bytes : List UInt8} (cut : CutInData bytes) : decodeFrom fuel bytes out = none := by
  induction cut generalizing fuel out with
  | @here line data size unbroken isSize short =>
    cases fuel with
    | zero => rfl
    | succ fuel =>
      rw [decodeFrom_line unbroken, Option.bind_eq_none_iff]
      intro length isLength
      obtain rfl := length_eq_of_chunkSize isSize isLength
      rw [if_neg (Nat.ne_of_gt (Nat.zero_lt_of_lt short)), if_pos short]
  | @later line data bytes unbroken isSize someData behind ih =>
    cases fuel with
    | zero => rfl
    | succ fuel =>
      rw [decodeFrom_line unbroken, Option.bind_eq_none_iff]
      intro length isLength
      obtain rfl := length_eq_of_chunkSize isSize isLength
      have dropped : (data ++ (crlf ++ bytes)).drop (data.length + 2) = bytes := by
        rw [← List.drop_drop, List.drop_left]
        exact List.drop_left' rfl
      rw [if_neg (mt List.length_eq_zero_iff.mp someData), List.take_left, dropped, ih, ite_self, ite_self]

theorem readAll_eq_ok {reads : List (List UInt8)} (nonempty : ∀ piece ∈ reads, piece ≠ []) (small : out.length ≤ maxBody)
    (isRead : readAll out reads = .ok raw) : raw = out ++ reads.flatten ∧ raw.length ≤ maxBody := by
  induction reads generalizing out with
  | nil =>
    cases isRead
    exact ⟨(List.append_nil _).symm, small⟩
  | cons piece later ih =>
    obtain ⟨somePiece, laterNonempty⟩ := List.forall_mem_cons.mp nonempty
    obtain ⟨byte, more, rfl⟩ := List.exists_cons_of_ne_nil somePiece
    rw [readAll] at isRead
    split at isRead
    next => cases isRead
    next fits =>
      obtain ⟨rfl, bound⟩ := ih laterNonempty (Nat.le_of_not_lt fits) isRead
      exact ⟨by rw [List.flatten_cons, List.append_assoc], bound⟩

/-- There is always a result.  A response that is accepted has a head with a status; its body
is all of the rest, or what is put together from chunks, none of which breaks off in its data. -/
theorem respond_ok (shown : List Char → String) {reads : List (List UInt8)} (nonempty : ∀ piece ∈ reads, piece ≠ []) :
    ∃ result, respond shown reads = some result ∧ ∀ r, result = .ok r →
      ∃ head body, reads.flatten = head ++ (emptyLine ++ body) ∧
        position emptyLine reads.flatten = some head.length ∧ statusIn (lossyTextOf head) = some r.status ∧
        (¬isChunked (lossyTextOf head) → r.body = body) ∧
        (isChunked (lossyTextOf head) → ¬CutInData body ∧ ∀ content rest, Chunked body content rest → r.body = content) := by
  rw [respond]
  cases isRead : readAll [] reads with
  | error e => exact ⟨_, rfl, fun r isOk => by cases isOk⟩
  | ok raw =>
    obtain ⟨rfl, small⟩ := readAll_eq_ok nonempty (Nat.zero_le _) isRead
    rw [List.nil_append] at small ⊢
    simp only [parseResponse]
    cases found : position emptyLine reads.flatten with
    | none => exact ⟨_, rfl, fun r isOk => by cases isOk⟩
    | some sep =>
      have covers := (position_append found []).2.2
      obtain ⟨body, isBody⟩ := position_isPrefix found
      have isRest : reads.flatten.drop (sep + 4) = body := by
        rw [← List.drop_drop, ← isBody]
        exact List.drop_left' rfl
      have whole : reads.flatten = reads.flatten.take sep ++ (emptyLine ++ body) := by
        rw [isBody, List.take_append_drop]
      have isLength : (reads.flatten.take sep).length = sep := List.length_take_of_le (by omega)
      have bodySmall : body.length < 2 ^ 63 := by
        rw [← isRest, List.length_drop]
        have limit : maxBody < 2 ^ 63 := by decide
        omega
      simp only
      rw [slice_of_le (Nat.zero_le _) (by omega), Option.bind_some, List.drop_zero, Nat.sub_zero]
      cases isStatus : statusIn (lossyTextOf (reads.flatten.take sep)) with
      | none => exact ⟨_, rfl, fun r isOk => by cases isOk⟩
      | some status =>
        simp only
        rw [slice_of_le covers (Nat.le_refl _), Option.bind_some, ← List.length_drop, List.take_length, isRest]
        split
        next chunked =>
          obtain ⟨decoded, isDecoded, agrees⟩ :=
            @decodeChunked_eq shown body bodySmall (body.length + 3) 0 (Nat.zero_le _) (by omega) []
          rw [isDecoded]
          refine ⟨_, rfl, ?_⟩
          intro r isOk
          cases decoded with
          | error e => cases isOk
          | ok content =>
            cases isOk
            have fromBody : decodeFrom (body.length + 3) body [] = some content := agrees.symm
            refine ⟨_, _, whole, by rw [isLength], isStatus, fun notChunked => absurd chunked notChunked, fun _ => ⟨?_, ?_⟩⟩
            · intro cut
              rw [decodeFrom_cutInData cut] at fromBody
              cases fromBody
            · intro other rest isChunkedBody
              exact decodeFrom_chunked isChunkedBody fromBody
        next notChunked =>
          refine ⟨_, rfl, ?_⟩
          rintro r isOk
          cases isOk
          refine ⟨_, _, whole, by rw [isLength], isStatus, fun _ => rfl, fun chunked => absurd chunked notChunked⟩

def cutShort : List UInt8 := "HTTP/1.1 200 OK\r\nContent-Length: 2\r\n\r\na".toList.map asciiByte

theorem respond_ok_cutShort :
    ∃ result, respond (fun _ => "") [cutShort] = some result ∧ ∀ r, result = .ok r →
      ∃ head body, [cutShort].flatten = head ++ (emptyLine ++ body) ∧
        position emptyLine [cutShort].flatten = some head.length ∧ statusIn (lossyTextOf head) = some r.status ∧
        (¬isChunked (lossyTextOf head) → r.body = body) ∧
        (isChunked (lossyTextOf head) → ¬CutInData body ∧ ∀ content rest, Chunked body content rest → r.body = content) :=
  respond_ok (fun _ => "") (by decide)

/-- What the head says of the length is not looked at. -/
theorem not_complete_cutShort :
    ¬∀ (shown : List Char → String) (reads : List (List UInt8)) (r : Response), respond shown reads = some (.ok r) →
      ∃ found, responseMessage false reads.flatten = some (found, []) ∧ found.2.body = r.body := by
  intro complete
  have accepted : respond (fun _ => "") [cutShort] = some (.ok { status := 200, body := [0x61] }) := by decide +kernel
  obtain ⟨found, isResponse, -⟩ := complete _ _ _ accepted
  have incomplete : (responseMessage false [cutShort].flatten).isNone := by decide +kernel
  rw [isResponse] at incomplete
  cases incomplete

end Nfrp.Httpc
