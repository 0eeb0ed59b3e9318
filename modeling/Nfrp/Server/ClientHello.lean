import Nfrp.Lib.Octets
import Nfrp.Lib.Parsing

/-!
# The name a TLS client asks for

A TLS connection is not ended here.  The first message of the client is read as far as the name it
asks for, and handed on byte by byte with whatever follows.
-/

namespace Nfrp.Sni

open Lib

/-- Records that a message may come in. -/
def maxRecords : Nat := 4

def maxBytes : Nat := 32 * 1024

def hostName (data : List UInt8) (stop j : Nat) : Except Fault (Option String) :=
  if inside : j + 3 ≤ stop then do
    let nameType ← byteAt data j
    let nameLen ← beAt 2 data (j + 1)
    if stop < j + 3 + nameLen then return none
    else if nameType = 0 then do
      let name ← bytesAt data (j + 3) (j + 3 + nameLen)
      return some (String.ofList (lossyTextOf name))
    else hostName data stop (j + 3 + nameLen)
  else return none
termination_by stop - j

def serverName (data : List UInt8) : Except Fault (Option String) :=
  if data.length < 2 then return none
  else do
    let listLen ← beAt 2 data 0
    hostName data (min (2 + listLen) data.length) 2

def extensions (body : List UInt8) (extEnd i : Nat) : Except Fault (Option String) :=
  if inside : i + 4 ≤ extEnd then do
    let extType ← beAt 2 body i
    let extLen ← beAt 2 body (i + 2)
    if extEnd < i + 4 + extLen then return none
    else if extType = 0 then do
      let data ← bytesAt body (i + 4) (i + 4 + extLen)
      serverName data
    else extensions body extEnd (i + 4 + extLen)
  else return none
termination_by extEnd - i

def need (body : List UInt8) (i n : Nat) : Except Fault Unit :=
  if body.length < i + n then reject "ClientHello 截断" else return ()

def parseSni (body : List UInt8) : Except Fault (Option String) := do
  need body 4 2
  need body 6 32
  need body 38 1
  let sidLen ← byteAt body 38
  let i := 38 + (1 + sidLen.toNat)
  need body i 2
  let csLen ← beAt 2 body i
  let i := i + (2 + csLen)
  need body i 1
  let compLen ← byteAt body i
  let i := i + (1 + compLen.toNat)
  if body.length < i + 2 then return none
  else do
    let extTotal ← beAt 2 body i
    let i := i + 2
    extensions body (min (i + extTotal) body.length) i

def readExact (what : String) (n : Nat) (stream : List UInt8) : Except Fault (List UInt8 × List UInt8) :=
  if stream.length < n then reject (what ++ "early eof") else return (stream.take n, stream.drop n)

/-- The header of a record, its body, and what is left of the stream. -/
def readRecord (raw stream : List UInt8) : Except Fault (List UInt8 × List UInt8 × List UInt8) := do
  let (header, stream) ← readExact "读取 TLS record 头失败：" 5 stream
  let contentType ← byteAt header 0
  if contentType ≠ 0x16 then
    reject ("不是 TLS 握手记录（content type = 0x" ++ String.ofList (hex [contentType]) ++ "）")
  else do
    let recLen ← beAt 2 header 3
    if maxBytes < raw.length + 5 + recLen then reject s!"ClientHello 超过 {maxBytes} 字节"
    else do
      let (body, stream) ← readExact "读取 TLS record 体失败：" recLen stream
      return (header, body, stream)

/-- How long the message is, once its header is there. -/
def needed (payload : List UInt8) (need : Option Nat) : Except Fault (Option Nat) :=
  if 4 ≤ payload.length then do
    let kind ← byteAt payload 0
    if kind ≠ 1 then reject ("不是 ClientHello（handshake type = 0x" ++ String.ofList (hex [kind]) ++ "）")
    else do
      let bodyLen ← beAt 3 payload 1
      return some (4 + bodyLen)
  else return need

/-- The name, the bytes that were read, and what is left of the stream. -/
def sniffRecords : (rounds : Nat) → (raw payload : List UInt8) → (need : Option Nat) → (stream : List UInt8) →
    Except Fault (Option String × List UInt8 × List UInt8)
  | 0, _, _, _, _ => reject "ClientHello 不完整"
  | rounds + 1, raw, payload, need, stream => do
      let (header, body, stream) ← readRecord raw stream
      let raw := raw ++ header ++ body
      let payload := payload ++ body
      let need ← needed payload need
      match need.filter (· ≤ payload.length) with
      | some n => do
          let sni ← parseSni (payload.take n)
          return (sni, raw, stream)
      | none => sniffRecords rounds raw payload need stream

def sniffClientHello (stream : List UInt8) : Except Fault (Option String × List UInt8 × List UInt8) :=
  sniffRecords maxRecords [] [] none stream

theorem safe_hostName {data : List UInt8} {stop : Nat} (inside : stop ≤ data.length) (j : Nat) :
    Safe (hostName data stop j) fun _ => True := by
  induction left : stop - j using Nat.strongRecOn generalizing j with
  | ind left' ih =>
    rw [hostName]
    split
    · next entry =>
      refine (safe_byteAt (by omega)).bind fun nameType _ => ?_
      refine (safe_beAt (by omega)).bind fun nameLen _ => ?_
      split
      · exact safe_ok trivial
      split
      · refine (safe_bytesAt (by omega) (by omega)).bind fun name _ => ?_
        exact safe_ok trivial
      · exact ih (stop - (j + 3 + nameLen)) (by omega) _ rfl
    · exact safe_ok trivial

theorem safe_serverName (data : List UInt8) : Safe (serverName data) fun _ => True := by
  rw [serverName]
  split
  · exact safe_ok trivial
  · refine (safe_beAt (by omega)).bind fun listLen _ => ?_
    exact safe_hostName (Nat.min_le_right _ _) 2

theorem safe_extensions {body : List UInt8} {extEnd : Nat} (inside : extEnd ≤ body.length) (i : Nat) :
    Safe (extensions body extEnd i) fun _ => True := by
  induction left : extEnd - i using Nat.strongRecOn generalizing i with
  | ind left' ih =>
    rw [extensions]
    split
    · next header =>
      refine (safe_beAt (by omega)).bind fun extType _ => ?_
      refine (safe_beAt (by omega)).bind fun extLen _ => ?_
      split
      · exact safe_ok trivial
      split
      · refine (safe_bytesAt (by omega) (by omega)).bind fun data _ => ?_
        exact safe_serverName data
      · exact ih (extEnd - (i + 4 + extLen)) (by omega) _ rfl
    · exact safe_ok trivial

theorem safe_need (body : List UInt8) (i n : Nat) : Safe (need body i n) fun _ => i + n ≤ body.length := by
  rw [need]
  split
  · exact safe_reject _
  · next fits => exact safe_ok (Nat.le_of_not_lt fits)

theorem safe_parseSni (body : List UInt8) : Safe (parseSni body) fun _ => True := by
  rw [parseSni]
  refine (safe_need body 4 2).bind fun _ _ => ?_
  refine (safe_need body 6 32).bind fun _ _ => ?_
  refine (safe_need body 38 1).bind fun _ isSidLen => ?_
  refine (safe_byteAt (by omega)).bind fun sidLen _ => ?_
  refine (safe_need body _ 2).bind fun _ isCsLen => ?_
  refine (safe_beAt isCsLen).bind fun csLen _ => ?_
  refine (safe_need body _ 1).bind fun _ isCompLen => ?_
  refine (safe_byteAt (by omega)).bind fun compLen _ => ?_
  dsimp only
  split
  · exact safe_ok trivial
  · refine (safe_beAt (by omega)).bind fun extTotal _ => ?_
    exact safe_extensions (Nat.min_le_right _ _) _

theorem safe_readExact (what : String) (n : Nat) (stream : List UInt8) :
    Safe (readExact what n stream) fun found => found.1.length = n ∧ stream = found.1 ++ found.2 := by
  rw [readExact]
  split
  · exact safe_reject _
  · next enough =>
    exact safe_ok ⟨List.length_take_of_le (Nat.le_of_not_lt enough), (List.take_append_drop n stream).symm⟩

theorem safe_readRecord (raw stream : List UInt8) :
    Safe (readRecord raw stream) fun found => stream = found.1 ++ found.2.1 ++ found.2.2 := by
  rw [readRecord]
  refine (safe_readExact _ 5 stream).bind ?_
  rintro ⟨header, stream⟩ ⟨isHeader, rfl⟩
  dsimp only at isHeader ⊢
  refine (safe_byteAt (by omega)).bind fun contentType _ => ?_
  split
  · exact safe_reject _
  · refine (safe_beAt (by omega)).bind fun recLen _ => ?_
    split
    · exact safe_reject _
    · refine (safe_readExact _ recLen stream).bind ?_
      rintro ⟨body, stream⟩ ⟨-, rfl⟩
      exact safe_ok (List.append_assoc _ _ _).symm

theorem safe_needed (payload : List UInt8) (need : Option Nat) : Safe (needed payload need) fun _ => True := by
  rw [needed]
  split
  · refine (safe_byteAt (by omega)).bind fun kind _ => ?_
    split
    · exact safe_reject _
    · refine (safe_beAt (by omega)).bind fun bodyLen _ => ?_
      exact safe_ok trivial
  · exact safe_ok trivial

theorem safe_sniffRecords (rounds : Nat) (raw payload : List UInt8) (need : Option Nat) (stream : List UInt8) :
    Safe (sniffRecords rounds raw payload need stream) fun found => raw ++ stream = found.2.1 ++ found.2.2 := by
  induction rounds generalizing raw payload need stream with
  | zero => exact safe_reject _
  | succ rounds ih =>
    rw [sniffRecords]
    refine (safe_readRecord raw stream).bind ?_
    rintro ⟨header, body, stream⟩ rfl
    refine (safe_needed (payload ++ body) need).bind fun need _ => ?_
    have moved : raw ++ (header ++ body ++ stream) = raw ++ header ++ body ++ stream := by
      rw [List.append_assoc, List.append_assoc, List.append_assoc]
    dsimp only
    rw [moved]
    split
    · refine (safe_parseSni _).bind fun sni _ => ?_
      exact safe_ok rfl
    · exact ih _ _ _ _

structure ServerName where
  kind : UInt8
  name : List UInt8
  fits : name.length < 65536

def ServerName.bytes (n : ServerName) : List UInt8 := n.kind :: (beBytes 2 n.name.length ++ n.name)

def nameList (names : List ServerName) : List UInt8 :=
  beBytes 2 (names.flatMap ServerName.bytes).length ++ names.flatMap ServerName.bytes

structure Extension where
  kind : Nat
  data : List UInt8
  isKind : kind < 65536
  fits : data.length < 65536

def Extension.bytes (e : Extension) : List UInt8 := beBytes 2 e.kind ++ (beBytes 2 e.data.length ++ e.data)

structure ClientHello where
  version : List UInt8
  random : List UInt8
  sessionId : List UInt8
  cipherSuites : List UInt8
  compression : List UInt8
  extensions : List Extension
  isVersion : version.length = 2
  isRandom : random.length = 32
  sessionIdFits : sessionId.length < 256
  cipherSuitesFit : cipherSuites.length < 65536
  compressionFits : compression.length < 256
  extensionsFit : (extensions.flatMap Extension.bytes).length < 65536
  once : (extensions.map Extension.kind).Nodup

namespace ClientHello

def body (h : ClientHello) : List UInt8 :=
  h.version ++ (h.random ++ (UInt8.ofNat h.sessionId.length :: (h.sessionId ++
    (beBytes 2 h.cipherSuites.length ++ (h.cipherSuites ++ (UInt8.ofNat h.compression.length :: (h.compression ++
      (beBytes 2 (h.extensions.flatMap Extension.bytes).length ++ h.extensions.flatMap Extension.bytes))))))))

def bytes (h : ClientHello) : List UInt8 := 1 :: (beBytes 3 h.body.length ++ h.body)

/-- A name of each kind at most, and the name of a host among them. -/
def Names (h : ClientHello) (s : String) : Prop :=
  ∃ names e, e ∈ h.extensions ∧ e.kind = 0 ∧ e.data = nameList names ∧ (names.map ServerName.kind).Nodup ∧
    ∃ n ∈ names, n.kind = 0 ∧ n.name = bytesOf s

end ClientHello

structure Record where
  version : List UInt8
  body : List UInt8
  isVersion : version.length = 2
  fits : body.length < 65536

def Record.header (r : Record) : List UInt8 := 0x16 :: (r.version ++ beBytes 2 r.body.length)

def Record.bytes (r : Record) : List UInt8 := r.header ++ r.body

/-- A message cut into few records, whose bytes are few. -/
structure Cut (message : List UInt8) (records : List Record) : Prop where
  whole : records.flatMap Record.body = message
  few : records.length ≤ maxRecords
  short : (records.flatMap Record.bytes).length ≤ maxBytes

theorem hostName_of_mem {data : List UInt8} {names : List ServerName} {i : Nat} {s : String}
    (isList : At data i (names.flatMap ServerName.bytes)) (once : (names.map ServerName.kind).Nodup)
    (isThere : ∃ n ∈ names, n.kind = 0 ∧ n.name = bytesOf s) : hostName data data.length i = .ok (some s) := by
  induction names generalizing i with
  | nil =>
    obtain ⟨n, isNone, -⟩ := isThere
    exact absurd isNone List.not_mem_nil
  | cons first names ih =>
    have isFirst : At data i (first.kind :: (beBytes 2 first.name.length ++
        (first.name ++ names.flatMap ServerName.bytes))) := by
      rwa [List.flatMap_cons, ServerName.bytes, List.cons_append, List.append_assoc] at isList
    have isLength : At data (i + 1) (beBytes 2 first.name.length ++ _) := isFirst.next
    have isName : At data (i + 3) (first.name ++ _) := isLength.behind rfl
    have isRest : At data (i + 3 + first.name.length) (names.flatMap ServerName.bytes) := isName.behind rfl
    have enough := isRest.length
    rw [hostName, dif_pos (by omega), isFirst.byteAt, isLength.beAt first.fits]
    change (if data.length < i + 3 + first.name.length then _ else _) = _
    rw [if_neg (by omega)]
    obtain ⟨n, isMember, isHost, isName'⟩ := isThere
    by_cases isZero : first.kind = 0
    · have same : n = first :=
        List.inj_on_of_nodup_map once isMember List.mem_cons_self (isHost.trans isZero.symm)
      subst same
      rw [if_pos isZero, isName.bytesAt rfl]
      change Except.ok (some (String.ofList (lossyTextOf n.name))) = _
      rw [isName', ← @String.ofList_toList s, lossyTextOf_bytesOf]
    · rw [if_neg isZero]
      refine ih isRest (List.nodup_cons.mp once).2 ⟨n, ?_, isHost, isName'⟩
      refine (List.mem_cons.mp isMember).resolve_left ?_
      rintro rfl
      exact isZero isHost

theorem serverName_nameList {names : List ServerName} {s : String} (fits : (nameList names).length < 65536)
    (once : (names.map ServerName.kind).Nodup) (isThere : ∃ n ∈ names, n.kind = 0 ∧ n.name = bytesOf s) :
    serverName (nameList names) = .ok (some s) := by
  have isLength : At (nameList names) 0 (beBytes 2 (names.flatMap ServerName.bytes).length ++ _) := ⟨[], rfl, rfl⟩
  have isList : At (nameList names) 2 (names.flatMap ServerName.bytes) := isLength.behind rfl
  have whole := isList.length
  rw [serverName, if_neg (by omega), isLength.beAt (by omega)]
  change hostName (nameList names) (min (2 + (names.flatMap ServerName.bytes).length) (nameList names).length) 2 = _
  rw [← whole, Nat.min_self]
  exact hostName_of_mem isList once isThere

theorem extensions_of_mem {body : List UInt8} {exts : List Extension} {e : Extension} {i : Nat}
    (isList : At body i (exts.flatMap Extension.bytes)) (once : (exts.map Extension.kind).Nodup) (isThere : e ∈ exts)
    (isName : e.kind = 0) : extensions body body.length i = serverName e.data := by
  induction exts generalizing i with
  | nil => exact absurd isThere List.not_mem_nil
  | cons first exts ih =>
    have isFirst : At body i (beBytes 2 first.kind ++ (beBytes 2 first.data.length ++
        (first.data ++ exts.flatMap Extension.bytes))) := by
      rwa [List.flatMap_cons, Extension.bytes, List.append_assoc, List.append_assoc] at isList
    have isLength : At body (i + 2) (beBytes 2 first.data.length ++ _) := isFirst.behind rfl
    have isData : At body (i + 4) (first.data ++ _) := isLength.behind rfl
    have isRest : At body (i + 4 + first.data.length) (exts.flatMap Extension.bytes) := isData.behind rfl
    have enough := isRest.length
    rw [extensions, dif_pos (by omega), isFirst.beAt first.isKind, isLength.beAt first.fits]
    change (if body.length < i + 4 + first.data.length then _ else _) = _
    rw [if_neg (by omega)]
    by_cases isZero : first.kind = 0
    · have same : e = first :=
        List.inj_on_of_nodup_map once isThere List.mem_cons_self (isName.trans isZero.symm)
      subst same
      rw [if_pos isZero, isData.bytesAt rfl]
      rfl
    · rw [if_neg isZero]
      refine ih isRest (List.nodup_cons.mp once).2 ?_
      refine (List.mem_cons.mp isThere).resolve_left ?_
      rintro rfl
      exact isZero isName

theorem need_of_le {body : List UInt8} {i n : Nat} (enough : i + n ≤ body.length) : need body i n = .ok () :=
  if_neg (Nat.not_lt_of_le enough)

theorem toNat_ofNat_of_lt {n : Nat} (small : n < 256) : (UInt8.ofNat n).toNat = n := by
  rw [UInt8.toNat_ofNat', Nat.mod_eq_of_lt small]

theorem parseSni_bytes {h : ClientHello} {s : String} (names : h.Names s) : parseSni h.bytes = .ok (some s) := by
  obtain ⟨list, e, isThere, isName, isData, once, isHost⟩ := names
  have isHeader : At h.bytes 1 (beBytes 3 h.body.length ++ h.body) := At.next ⟨[], rfl, rfl⟩
  have isVersion : At h.bytes 4 (h.version ++ _) := isHeader.behind rfl
  have isRandom : At h.bytes 6 (h.random ++ _) := isVersion.behind (by rw [h.isVersion])
  have isSidLen : At h.bytes 38 (UInt8.ofNat h.sessionId.length :: _) := isRandom.behind (by rw [h.isRandom])
  have isSid : At h.bytes 39 (h.sessionId ++ _) := isSidLen.next
  have isCsLen : At h.bytes (38 + (1 + h.sessionId.length)) (beBytes 2 h.cipherSuites.length ++ _) :=
    isSid.behind (by omega)
  have isCs : At h.bytes (38 + (1 + h.sessionId.length) + 2) (h.cipherSuites ++ _) := isCsLen.behind rfl
  have isCompLen : At h.bytes (38 + (1 + h.sessionId.length) + (2 + h.cipherSuites.length))
      (UInt8.ofNat h.compression.length :: _) := isCs.behind (by omega)
  have isComp : At h.bytes (38 + (1 + h.sessionId.length) + (2 + h.cipherSuites.length) + 1) (h.compression ++ _) :=
    isCompLen.next
  have isTotal : At h.bytes (38 + (1 + h.sessionId.length) + (2 + h.cipherSuites.length) + (1 + h.compression.length))
      (beBytes 2 (h.extensions.flatMap Extension.bytes).length ++ _) := isComp.behind (by omega)
  have isList : At h.bytes
      (38 + (1 + h.sessionId.length) + (2 + h.cipherSuites.length) + (1 + h.compression.length) + 2)
      (h.extensions.flatMap Extension.bytes) := isTotal.behind rfl
  have whole := isList.length
  have sidLen := toNat_ofNat_of_lt h.sessionIdFits
  have compLen := toNat_ofNat_of_lt h.compressionFits
  rw [parseSni, need_of_le (by omega), ok_bind, need_of_le (by omega), ok_bind, need_of_le (by omega), ok_bind,
    isSidLen.byteAt, ok_bind]
  dsimp only
  rw [sidLen, need_of_le (by omega), ok_bind, isCsLen.beAt h.cipherSuitesFit, ok_bind, need_of_le (by omega), ok_bind,
    isCompLen.byteAt, ok_bind, compLen, if_neg (by omega), isTotal.beAt h.extensionsFit, ok_bind, ← whole, Nat.min_self,
    extensions_of_mem isList h.once isThere isName, isData]
  exact serverName_nameList (isData ▸ e.fits) once isHost

theorem readExact_append (what : String) {front rest : List UInt8} {n : Nat} (isFront : front.length = n) :
    readExact what n (front ++ rest) = .ok (front, rest) := by
  rw [readExact, if_neg (by rw [List.length_append]; omega), List.take_left' isFront, List.drop_left' isFront]
  rfl

theorem readRecord_bytes {raw rest : List UInt8} {r : Record} (short : raw.length + r.bytes.length ≤ maxBytes) :
    readRecord raw (r.bytes ++ rest) = .ok (r.header, r.body, rest) := by
  have isHeader : r.header.length = 5 := by
    rw [Record.header, List.length_cons, List.length_append, r.isVersion, length_beBytes]
  have isType : At r.header 0 (0x16 :: (r.version ++ beBytes 2 r.body.length)) := ⟨[], rfl, rfl⟩
  have isLength : At r.header 3 (beBytes 2 r.body.length ++ []) := by
    rw [List.append_nil]
    exact isType.next.behind (by rw [r.isVersion])
  have whole : r.bytes.length = 5 + r.body.length := by rw [Record.bytes, List.length_append, isHeader]
  rw [readRecord, Record.bytes, List.append_assoc, readExact_append _ isHeader, ok_bind]
  dsimp only
  rw [isType.byteAt, ok_bind, if_neg (not_not.mpr rfl), isLength.beAt r.fits, ok_bind, if_neg (by omega),
    readExact_append _ rfl]
  rfl

theorem ClientHello.length_body_lt (h : ClientHello) : h.body.length < 256 ^ 3 := by
  have version := h.isVersion
  have random := h.isRandom
  have sessionId := h.sessionIdFits
  have cipherSuites := h.cipherSuitesFit
  have compression := h.compressionFits
  have extensions := h.extensionsFit
  simp only [body, List.length_append, List.length_cons, length_beBytes]
  omega

theorem ClientHello.length_bytes (h : ClientHello) : h.bytes.length = 4 + h.body.length := by
  rw [bytes, List.length_cons, List.length_append, length_beBytes]
  omega

theorem needed_of_prefix {h : ClientHello} {payload rest : List UInt8} {need : Option Nat}
    (isFront : payload ++ rest = h.bytes) (known : ∀ n ∈ need, n = h.bytes.length) :
    ∃ need', needed payload need = .ok need' ∧ (∀ n ∈ need', n = h.bytes.length) ∧
      (4 ≤ payload.length → need' = some h.bytes.length) := by
  rw [needed]
  by_cases enough : 4 ≤ payload.length
  · have isHeader : (1 :: beBytes 3 h.body.length) <+: payload := by
      refine List.prefix_of_prefix_length_le (List.prefix_append _ h.body) ⟨rest, isFront⟩ ?_
      rwa [List.length_cons, length_beBytes]
    obtain ⟨more, rfl⟩ := isHeader
    have isKind : At ((1 :: beBytes 3 h.body.length) ++ more) 0 (1 :: (beBytes 3 h.body.length ++ more)) := ⟨[], rfl, rfl⟩
    rw [if_pos enough, isKind.byteAt, ok_bind, if_neg (not_not.mpr rfl), isKind.next.beAt h.length_body_lt, ok_bind,
      ← h.length_bytes]
    refine ⟨_, rfl, ?_, fun _ => rfl⟩
    intro n isNeeded
    exact (Option.some.inj isNeeded).symm
  · rw [if_neg enough]
    exact ⟨need, rfl, known, fun isEnough => absurd isEnough enough⟩

theorem sniffRecords_of_cut {h : ClientHello} {s : String} (names : h.Names s) (records : List Record) {rounds : Nat}
    {raw payload after : List UInt8} {need : Option Nat} (whole : payload ++ records.flatMap Record.body = h.bytes)
    (begun : payload.length < h.bytes.length) (known : ∀ n ∈ need, n = h.bytes.length) (few : records.length ≤ rounds)
    (short : raw.length + (records.flatMap Record.bytes).length ≤ maxBytes) :
    ∃ read rest, sniffRecords rounds raw payload need (records.flatMap Record.bytes ++ after) =
      .ok (some s, read, rest) := by
  induction records generalizing rounds raw payload need with
  | nil =>
    rw [List.flatMap_nil, List.append_nil] at whole
    exact absurd begun (by rw [whole]; exact Nat.lt_irrefl _)
  | cons r records ih =>
    obtain ⟨rounds, rfl⟩ : ∃ more, rounds = more + 1 := ⟨rounds - 1, by rw [List.length_cons] at few; omega⟩
    rw [List.flatMap_cons, List.length_append] at short
    rw [List.flatMap_cons, ← List.append_assoc] at whole
    obtain ⟨need', isNeeded, known', enough⟩ := needed_of_prefix whole known
    rw [List.flatMap_cons, List.append_assoc, sniffRecords, readRecord_bytes (by omega), ok_bind]
    dsimp only
    rw [isNeeded, ok_bind]
    by_cases goesOn : (payload ++ r.body).length < h.bytes.length
    · have isNone : need'.filter (· ≤ (payload ++ r.body).length) = none := by
        apply Option.filter_eq_none_iff.mpr
        intro n isThere
        rw [known' n isThere, decide_eq_true_eq]
        exact Nat.not_le_of_lt goesOn
      rw [isNone]
      apply ih whole goesOn known' (Nat.le_of_succ_le_succ few)
      rw [List.append_assoc, List.length_append]
      rwa [Nat.add_assoc]
    · have isWhole : payload ++ r.body = h.bytes := by
        have lengths := congrArg List.length whole
        rw [List.length_append] at lengths
        have isLast : records.flatMap Record.body = [] := List.eq_nil_of_length_eq_zero (by omega)
        rwa [isLast, List.append_nil] at whole
      have isSome : need'.filter (· ≤ (payload ++ r.body).length) = some h.bytes.length := by
        rw [enough (by rw [isWhole, h.length_bytes]; omega), isWhole]
        exact Option.filter_eq_some_iff.mpr ⟨rfl, decide_eq_true (Nat.le_refl _)⟩
      rw [isSome]
      dsimp only
      rw [isWhole, List.take_length, parseSni_bytes names, ok_bind]
      exact ⟨_, _, rfl⟩

/-- What is sniffed is never read out of range and never lost, and a name that is there is found. -/
structure Sound : Prop where
  safe : ∀ stream, sniffClientHello stream ≠ .error .outOfRange
  kept : ∀ stream sni raw rest, sniffClientHello stream = .ok (sni, raw, rest) → stream = raw ++ rest
  found : ∀ (h : ClientHello) (s : String) (records : List Record) (after : List UInt8), h.Names s →
    Cut h.bytes records → ∃ raw rest, sniffClientHello (records.flatMap Record.bytes ++ after) = .ok (some s, raw, rest)

theorem sniffClientHello_sound : Sound where
  safe stream := (safe_sniffRecords maxRecords [] [] none stream).ne_outOfRange
  kept stream _ _ _ isFound := (safe_sniffRecords maxRecords [] [] none stream).of_eq_ok isFound
  found h _ records _ names cut :=
    sniffRecords_of_cut names records cut.whole (by rw [h.length_bytes]; exact Nat.lt_add_right _ (by decide))
      (fun _ isNone => absurd isNone.symm (Option.some_ne_none _)) cut.few
      (by rw [List.length_nil, Nat.zero_add]; exact cut.short)

end Nfrp.Sni
