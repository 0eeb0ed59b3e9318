import Nfrp.Lib.Ip

/-!
What an HTTP server reads from the first lines of a request.

The effective request URI names the host and the path a request is about.  A target
in absolute form names both, and the Host field is not looked at; a target in origin
form is a path only.  A request a server has to answer with an error has no
effective URI.

A path is then taken apart: percent escapes are decoded once, and dot segments
removed.
-/

namespace Nfrp.Lib

def sameIgnoringCase (a b : List Char) : Bool :=
  a.map Char.toLower == b.map Char.toLower

structure Uri where
  host : List Char
  path : List Char
  deriving DecidableEq, Repr

/-- Unreserved characters, delimiters other than the number sign, and the percent sign. -/
def isUriChar (c : Char) : Bool :=
  let n := c.toNat
  n == 0x21 || (0x24 ≤ n && n ≤ 0x3b) || n == 0x3d || (0x3f ≤ n && n ≤ 0x5b) || n == 0x5d || n == 0x5f ||
    (0x61 ≤ n && n ≤ 0x7a) || n == 0x7e

def isVisible (c : Char) : Bool := 0x21 ≤ c.toNat && c.toNat ≤ 0x7e

def isRegNameChar (c : Char) : Bool :=
  isUriChar c && !(c ∈ [':', '/', '?', '@', '[', ']'])

def isPort : List Char → Bool
  | [] => true
  | c :: digits => c == ':' && digits.all (isDigit 10)

/-- The host of `host [":" port]`; the brackets are no part of an address. -/
def hostOf (authority : List Char) : Option (List Char) :=
  match authority with
  | '[' :: rest =>
    (splitOnce ']' rest).bind fun parts =>
      if isPort parts.2 && parts.1.all (fun c => isRegNameChar c || c == ':') then some parts.1 else none
  | _ =>
    let name := authority.takeWhile isRegNameChar
    if isPort (authority.dropWhile isRegNameChar) then some name else none

def requestLine (line : List Char) : Option (List Char × List Char × List Char) :=
  match line.splitOn ' ' with
  | [method, target, version] =>
    if method ≠ [] ∧ method.all isVisible ∧ target ≠ [] ∧ target.all isUriChar then some (method, target, version) else none
  | _ => none

def isBlank (c : Char) : Bool := c == ' ' || c == '\t'

def fieldValues (name : List Char) (fields : List (List Char)) : List (List Char) :=
  fields.filterMap fun line =>
    (splitOnce ':' line).bind fun parts =>
      if sameIgnoringCase parts.1 name then some ((parts.2.dropWhile isBlank).rdropWhile isBlank) else none

instance lawfulBEqChars : LawfulBEq (List Char) := inferInstance

/-- The host of the Host field, which a request of version 1.1 has to have, and none may have twice. -/
def fieldHost (version : List Char) (fields : List (List Char)) : Option (List Char) :=
  match fieldValues "host".toList fields with
  | [] => if version = "HTTP/1.0".toList then some [] else none
  | [authority] => if version ∈ ["HTTP/1.0".toList, "HTTP/1.1".toList] then hostOf authority else none
  | _ => none

def pathOf (target : List Char) : List Char :=
  target.takeWhile (· ≠ '?')

def afterScheme (target : List Char) : Option (List Char) :=
  if sameIgnoringCase (target.take 7) "http://".toList then some (target.drop 7)
  else if sameIgnoringCase (target.take 8) "https://".toList then some (target.drop 8)
  else none

def effectiveUri : List (List Char) → Option Uri
  | [] => none
  | start :: fields => do
      let (method, target, version) ← requestLine start
      let host ← fieldHost version fields
      if method = "CONNECT".toList then
        return { host := ← hostOf target, path := [] }
      if target.head? = some '/' then
        return { host, path := pathOf target }
      if method = "OPTIONS".toList ∧ target = ['*'] then
        return { host, path := [] }
      let rest ← afterScheme target
      let authority := rest.takeWhile fun c => c ≠ '/' && c ≠ '?'
      return { host := ← hostOf authority, path := pathOf (rest.drop authority.length) }

def percentDecode : List Char → List Char
  | '%' :: high :: low :: rest =>
    match digitValue 16 high, digitValue 16 low with
    | some high, some low => Char.ofNat (16 * high + low) :: percentDecode rest
    | _, _ => '%' :: percentDecode (high :: low :: rest)
  | c :: rest => c :: percentDecode rest
  | [] => []

/-- Servers read a backslash as a slash. -/
def slashed (path : List Char) : List Char :=
  path.map fun c => if c = '\\' then '/' else c

def isDots (segment : List Char) : Bool := segment == ['.'] || segment == ['.', '.']

/-- The segments kept so far, the last one first, after one more. -/
def climb (kept : List (List Char)) (segment : List Char) : List (List Char) :=
  if segment = ['.'] then kept else if segment = ['.', '.'] then kept.tail else segment :: kept

def segmentsOf (path : List Char) : List (List Char) :=
  ((slashed path).drop 1).splitOn '/'

/-- A dot segment at the end leaves the separator before it. -/
def removeDotSegments (path : List Char) : List Char :=
  let segments := segmentsOf path
  let kept := (segments.foldl climb []).reverse
  '/' :: ['/'].intercalate (if segments.getLast?.any isDots then kept ++ [[]] else kept)

theorem not_isWhitespace_of_isVisible {c : Char} (visible : isVisible c) : isWhitespace c = false := by
  rw [isVisible, Bool.and_eq_true, decide_eq_true_eq, decide_eq_true_eq] at visible
  simp only [isWhitespace, Bool.or_eq_false_iff, Bool.and_eq_false_iff, decide_eq_false_iff_not, beq_eq_false_iff_ne]
  omega

theorem isVisible_of_isUriChar {c : Char} (uriChar : isUriChar c) : isVisible c := by
  simp only [isUriChar, Bool.or_eq_true, Bool.and_eq_true, decide_eq_true_eq, beq_iff_eq] at uriChar
  simp only [isVisible, Bool.and_eq_true, decide_eq_true_eq]
  omega

theorem isVisible_of_isDigit {c : Char} (digit : isDigit 10 c) : isVisible c := by
  rw [isDigit, digitValue, Option.isSome_iff_exists] at digit
  obtain ⟨value, found⟩ := digit
  have between : ∀ low high : Char, low ≤ c ∧ c ≤ high → 0x21 ≤ low.toNat → high.toNat ≤ 0x7e → isVisible c := by
    rintro low high ⟨above, below⟩ least most
    rw [Char.le_def, UInt32.le_iff_toNat_le] at above below
    rw [isVisible, Bool.and_eq_true, decide_eq_true_eq, decide_eq_true_eq]
    exact ⟨least.trans above, below.trans most⟩
  split at found
  next decimal => exact between '0' '9' decimal (by decide) (by decide)
  split at found
  next lower => exact between 'a' 'z' lower (by decide) (by decide)
  split at found
  next upper => exact between 'A' 'Z' upper (by decide) (by decide)
  next => cases found

theorem trimmed_of_visible {text : List Char} (visible : ∀ c ∈ text, isVisible c) : trimmed text = text := by
  have solid : ∀ c ∈ text, isWhitespace c = false := fun c member => not_isWhitespace_of_isVisible (visible c member)
  have front : text.dropWhile isWhitespace = text := by
    cases text with
    | nil => rfl
    | cons c rest => rw [List.dropWhile_cons_of_neg (Bool.eq_false_iff.mp (solid c List.mem_cons_self))]
  rw [trimmed, front, List.rdropWhile_eq_self_iff]
  intro some
  exact Bool.eq_false_iff.mp (solid _ (List.getLast_mem some))

theorem requestLine_eq_some {line method target version : List Char}
    (isLine : requestLine line = some (method, target, version)) :
    line = method ++ ' ' :: (target ++ ' ' :: version) ∧
      (method ≠ [] ∧ method.all isVisible ∧ target ≠ [] ∧ target.all isUriChar) := by
  have joined : [' '].intercalate (line.splitOn ' ') = line := List.intercalate_splitOn ' '
  rw [requestLine] at isLine
  split at isLine
  next pieces =>
    split at isLine
    next checked =>
      obtain ⟨rfl, rest⟩ := Prod.mk.inj (Option.some.inj isLine)
      obtain ⟨rfl, rfl⟩ := Prod.mk.inj rest
      rw [pieces] at joined
      exact ⟨by rw [← joined]; simp [List.intercalate], checked⟩
    next => cases isLine
  next => cases isLine

/-- The path a server that decodes and normalises acts on. -/
def Uri.resource (uri : Uri) : List Char :=
  removeDotSegments (percentDecode uri.path)

end Nfrp.Lib
