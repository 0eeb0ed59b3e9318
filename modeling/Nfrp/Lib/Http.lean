import Nfrp.Lib.Ascii
import Nfrp.Lib.Url

/-!
Requests as an HTTP server takes them off a stream.

A head is lines up to an empty one, each with a carriage return and a line feed at its
end and neither of them inside.  The fields of the head say how long the body is; what
is behind the body is no part of the request.

A target in absolute form names the host, the port and the target in origin form.
-/

namespace Nfrp.Lib

def carriageReturn : UInt8 := 13

def lineFeed : UInt8 := 10

def crlf : List UInt8 := [carriageReturn, lineFeed]

/-- A character a byte. -/
def latin1 (bytes : List UInt8) : List Char :=
  bytes.map fun byte => Char.ofNat byte.toNat

def crlfLine : List UInt8 → Option (List UInt8 × List UInt8)
  | [] => none
  | byte :: rest =>
    if byte = carriageReturn then
      match rest with
      | [] => none
      | next :: rest => if next = lineFeed then some ([], rest) else none
    else if byte = lineFeed then none
    else (crlfLine rest).map fun found => (byte :: found.1, found.2)

/-- The lines before the empty one, and what is behind it. -/
def headLines : Nat → List UInt8 → Option (List (List UInt8) × List UInt8)
  | 0, _ => none
  | fuel + 1, bytes =>
    (crlfLine bytes).bind fun found =>
      if found.1 = [] then some ([], found.2)
      else (headLines fuel found.2).map fun head => (found.1 :: head.1, head.2)

abbrev Fields := List (List Char × List Char)

def isTokenChar (c : Char) : Bool :=
  c.isAlphanum || "!#$%&'*+-.^_`|~".toList.contains c

def isFieldChar (c : Char) : Bool :=
  c == '\t' || (0x20 ≤ c.toNat && c.toNat ≠ 0x7f)

def unblanked (text : List Char) : List Char :=
  (text.dropWhile isBlank).rdropWhile isBlank

def fieldOf (line : List Char) : Option (List Char × List Char) :=
  (splitOnce ':' line).bind fun parts =>
    if parts.1 ≠ [] ∧ parts.1.all isTokenChar ∧ parts.2.all isFieldChar then
      some (parts.1.map Char.toLower, unblanked parts.2)
    else none

def valuesOf (name : List Char) (fields : Fields) : List (List Char) :=
  (fields.filter fun field => field.1 = name).map Prod.snd

/-- The parts of a list, without blanks and in small letters. -/
def listedOf (values : List (List Char)) : List (List Char) :=
  values.flatMap fun value => (value.splitOn ',').map fun part => (unblanked part).map Char.toLower

inductive BodyLength where
  | bytes (count : Nat)
  | chunked
  deriving DecidableEq, Repr

/-- Two lengths, and a coding that does not end the body, are errors. -/
def bodyLength (fields : Fields) : Option BodyLength :=
  match valuesOf "transfer-encoding".toList fields, valuesOf "content-length".toList fields with
  | [], [] => some (.bytes 0)
  | [], [value] =>
    if value ≠ [] ∧ value.all (isDigit 10) then some (.bytes (ofDigits 10 value)) else none
  | codings, [] => if (listedOf codings).getLast? = some "chunked".toList then some .chunked else none
  | _, _ => none

def chunkSize (line : List Char) : Option Nat :=
  let digits := line.takeWhile (isDigit 16)
  if digits = [] then none
  else if (line.dropWhile (isDigit 16)).head?.all fun c => c == ';' || isBlank c then some (ofDigits 16 digits)
  else none

/-- The trailer is dropped. -/
def chunkedBody : Nat → List UInt8 → Option (List UInt8 × List UInt8)
  | 0, _ => none
  | fuel + 1, bytes =>
    (crlfLine bytes).bind fun found =>
      (chunkSize (latin1 found.1)).bind fun size =>
        if size = 0 then (headLines bytes.length found.2).map fun trailer => ([], trailer.2)
        else if found.2.length < size then none
        else
          (crlfLine (found.2.drop size)).bind fun ending =>
            if ending.1 ≠ [] then none
            else (chunkedBody fuel ending.2).map fun body => (found.2.take size ++ body.1, body.2)

def bodyOf : BodyLength → List UInt8 → Option (List UInt8 × List UInt8)
  | .bytes count, bytes => if bytes.length < count then none else some (bytes.take count, bytes.drop count)
  | .chunked, bytes => chunkedBody bytes.length bytes

structure HttpRequest where
  method : List Char
  target : List Char
  fields : Fields
  body : List UInt8
  deriving DecidableEq

/-- A request has one Host field, and that is well formed. -/
def hasHost (fields : Fields) : Bool :=
  match valuesOf "host".toList fields with
  | [value] => (hostOf value).isSome
  | _ => false

def httpRequest (bytes : List UInt8) : Option (HttpRequest × List UInt8) := do
  let (lines, rest) ← headLines bytes.length bytes
  let (method, target, version) ← requestLine (latin1 (lines.headD []))
  let fields ← lines.tail.mapM fun line => fieldOf (latin1 line)
  if method.all isTokenChar ∧ version = "HTTP/1.1".toList ∧ hasHost fields then
    let length ← bodyLength fields
    let (body, rest) ← bodyOf length rest
    return ({ method, target, fields, body }, rest)
  else none

def afterHost : List Char → List Char
  | '[' :: rest => ((splitOnce ']' rest).map Prod.snd).getD []
  | authority => authority.dropWhile isRegNameChar

def hostPort (defaultPort : Option Nat) (authority : List Char) : Option (List Char × Nat) :=
  (hostOf authority).bind fun host =>
    let digits := (afterHost authority).tail
    if host = [] ∨ authority.head? = some '[' ∧ host.count ':' < 2 then none
    else if digits = [] then defaultPort.map fun port => (host, port)
    else if ofDigits 10 digits ≤ 65535 then some (host, ofDigits 10 digits)
    else none

/-- Neither of the two characters that end a line. -/
def Unbroken (line : List UInt8) : Prop :=
  ∀ byte ∈ line, byte ≠ carriageReturn ∧ byte ≠ lineFeed

def headBytes (lines : List (List UInt8)) (rest : List UInt8) : List UInt8 :=
  (lines.flatMap fun line => line ++ crlf) ++ crlf ++ rest

theorem headBytes_nil (rest : List UInt8) : headBytes [] rest = crlf ++ rest := rfl

theorem headBytes_cons (line : List UInt8) (lines : List (List UInt8)) (rest : List UInt8) :
    headBytes (line :: lines) rest = line ++ crlf ++ headBytes lines rest := by
  simp [headBytes]

theorem crlfLine_append {line : List UInt8} (unbroken : Unbroken line) (rest : List UInt8) :
    crlfLine (line ++ crlf ++ rest) = some (line, rest) := by
  induction line with
  | nil => rfl
  | cons byte line ih =>
    have later := ih fun other member => unbroken other (List.mem_cons_of_mem _ member)
    obtain ⟨noReturn, noFeed⟩ := unbroken byte List.mem_cons_self
    rw [List.cons_append, List.cons_append, crlfLine.eq_def]
    dsimp only
    rw [if_neg noReturn, if_neg noFeed, later]
    rfl

theorem crlfLine_eq_some {bytes line rest : List UInt8} (isLine : crlfLine bytes = some (line, rest)) :
    bytes = line ++ crlf ++ rest ∧ Unbroken line := by
  induction bytes generalizing line with
  | nil => cases isLine
  | cons byte bytes ih =>
    rw [crlfLine.eq_def] at isLine
    dsimp only at isLine
    split at isLine
    next isReturn =>
      cases bytes with
      | nil => cases isLine
      | cons next bytes =>
        dsimp only at isLine
        split at isLine
        next isFeed =>
          obtain ⟨rfl, rfl⟩ := Prod.mk.inj (Option.some.inj isLine)
          refine ⟨?_, fun other member => nomatch member⟩
          rw [isReturn, isFeed]
          rfl
        next => cases isLine
    next noReturn =>
      split at isLine
      next => cases isLine
      next noFeed =>
        obtain ⟨⟨front, behind⟩, isLater, same⟩ := Option.map_eq_some_iff.mp isLine
        obtain ⟨rfl, rfl⟩ := Prod.mk.inj same
        obtain ⟨rfl, unbroken⟩ := ih isLater
        refine ⟨rfl, ?_⟩
        intro other member
        rcases List.mem_cons.mp member with rfl | later
        · exact ⟨noReturn, noFeed⟩
        · exact unbroken other later

theorem headLines_headBytes {lines : List (List UInt8)} (areLines : ∀ line ∈ lines, line ≠ [] ∧ Unbroken line)
    (rest : List UInt8) {fuel : Nat} (enough : lines.length < fuel) :
    headLines fuel (headBytes lines rest) = some (lines, rest) := by
  induction lines generalizing fuel with
  | nil =>
    obtain ⟨fuel, rfl⟩ := Nat.exists_eq_add_of_lt enough
    rfl
  | cons line lines ih =>
    cases fuel with
    | zero => exact absurd enough (Nat.not_lt_zero _)
    | succ fuel =>
      obtain ⟨someLine, unbroken⟩ := areLines line List.mem_cons_self
      have later := ih (fun other member => areLines other (List.mem_cons_of_mem _ member))
        (Nat.lt_of_succ_lt_succ enough)
      rw [headBytes_cons, headLines, crlfLine_append unbroken, Option.bind_some, if_neg someLine, later]
      rfl

theorem headLines_eq_some {fuel : Nat} {bytes rest : List UInt8} {lines : List (List UInt8)}
    (isHead : headLines fuel bytes = some (lines, rest)) :
    bytes = headBytes lines rest ∧ ∀ line ∈ lines, line ≠ [] ∧ Unbroken line := by
  induction fuel generalizing bytes lines with
  | zero => cases isHead
  | succ fuel ih =>
    rw [headLines] at isHead
    obtain ⟨⟨line, behind⟩, isLine, continues⟩ := Option.bind_eq_some_iff.mp isHead
    obtain ⟨rfl, unbroken⟩ := crlfLine_eq_some isLine
    split at continues
    next isEmpty =>
      obtain ⟨rfl, rfl⟩ := Prod.mk.inj (Option.some.inj continues)
      obtain rfl : line = [] := isEmpty
      exact ⟨rfl, fun other member => nomatch member⟩
    next someLine =>
      obtain ⟨⟨more, left⟩, isLater, same⟩ := Option.map_eq_some_iff.mp continues
      obtain ⟨rfl, rfl⟩ := Prod.mk.inj same
      obtain ⟨rfl, areLines⟩ := ih isLater
      refine ⟨(headBytes_cons _ _ _).symm, ?_⟩
      intro other member
      rcases List.mem_cons.mp member with rfl | later
      · exact ⟨someLine, unbroken⟩
      · exact areLines other later

theorem length_le_headBytes (lines : List (List UInt8)) (rest : List UInt8) :
    lines.length + rest.length < (headBytes lines rest).length := by
  induction lines with
  | nil => simp [headBytes_nil, crlf]
  | cons line lines ih =>
    rw [headBytes_cons]
    simp only [List.length_cons, List.length_append, crlf]
    omega

theorem toNat_ofNat_toNat (byte : UInt8) : (Char.ofNat byte.toNat).toNat = byte.toNat := by
  have small := byte.toNat_lt
  have valid : byte.toNat.isValidChar := .inl (by omega)
  rw [Char.ofNat, dif_pos valid]
  rfl

theorem asciiByte_ofNat (byte : UInt8) : asciiByte (Char.ofNat byte.toNat) = byte := by
  rw [asciiByte, toNat_ofNat_toNat, UInt8.ofNat_toNat]

theorem latin1_map_asciiByte {text : List Char} (ascii : ∀ c ∈ text, isAscii c) : latin1 (text.map asciiByte) = text := by
  rw [latin1, List.map_map]
  refine (List.map_congr_left fun c member => ?_).trans (List.map_id text)
  have small : c.toNat < 128 := ascii c member
  have isByte : c.toNat < UInt8.size := small.trans (by decide)
  rw [Function.comp_apply, asciiByte, UInt8.toNat_ofNat_of_lt' isByte, Char.ofNat_toNat]
  rfl

theorem isAscii_of_isVisible {c : Char} (visible : isVisible c) : isAscii c := by
  rw [isVisible, Bool.and_eq_true, decide_eq_true_eq, decide_eq_true_eq] at visible
  exact Nat.lt_of_le_of_lt visible.2 (by decide)

theorem isAscii_requestLine {line method target : List Char}
    (isLine : requestLine line = some (method, target, "HTTP/1.1".toList)) : ∀ c ∈ line, isAscii c := by
  obtain ⟨rfl, -, methodVisible, -, targetChars⟩ := requestLine_eq_some isLine
  have versionAscii : ∀ c ∈ "HTTP/1.1".toList, c.toNat < 128 := forall_of_all (by decide)
  have spaceAscii : ' '.toNat < 128 := by decide
  simp only [List.mem_append, List.mem_cons]
  rintro c (member | rfl | member | rfl | member)
  · exact isAscii_of_isVisible (List.all_eq_true.mp methodVisible c member)
  · exact spaceAscii
  · exact isAscii_of_isVisible (isVisible_of_isUriChar (List.all_eq_true.mp targetChars c member))
  · exact spaceAscii
  · exact versionAscii c member

end Nfrp.Lib
