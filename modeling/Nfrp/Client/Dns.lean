import Nfrp.Lib.Ip
import Nfrp.Lib.Parsing
import Nfrp.Lib.Secret

/-!
# Answers of a DNS server

The client asks a DNS server of its own for the address of its server.  The answer is walked over
by its counts: of a name only the length is looked at, of a record its type and its data.
-/

namespace Nfrp.Dns

open Lib

def skipName (buf : List UInt8) (pos : Nat) : Except Fault Nat :=
  if inside : pos < buf.length then do
    let len ← byteAt buf pos
    if len = 0 then return pos + 1
    else if len &&& 0xc0 = 0xc0 then
      if buf.length < pos + 2 then reject "DNS 压缩指针越界" else return pos + 2
    else if len &&& 0xc0 ≠ 0 then reject ("DNS 名字段类型非法（0x" ++ String.ofList (hex [len]) ++ "）")
    else skipName buf (pos + 1 + len.toNat)
  else reject "DNS 名字越界"
termination_by buf.length - pos

def skipQuestions (buf : List UInt8) : (count pos : Nat) → Except Fault Nat
  | 0, pos => return pos
  | count + 1, pos => do
      let pos ← skipName buf pos
      if buf.length < pos + 4 then reject "DNS 问题段越界" else skipQuestions buf count (pos + 4)

def address (qtype : UInt16) (data : List UInt8) : Option IpAddr :=
  if qtype = 1 ∧ data.length = 4 then some (.v4 (BitVec.ofNat 32 (ofBeBytes data)))
  else if qtype = 28 ∧ data.length = 16 then some (.v6 (BitVec.ofNat 128 (ofBeBytes data)))
  else none

def readAnswers (buf : List UInt8) (qtype : UInt16) : (count pos : Nat) → (out : List IpAddr) →
    Except Fault (List IpAddr)
  | 0, _, out => return out
  | count + 1, pos, out => do
      let pos ← skipName buf pos
      if buf.length < pos + 10 then reject "DNS 资源记录头越界"
      else do
        let rtype ← beAt 2 buf pos
        let rdlen ← beAt 2 buf (pos + 8)
        if buf.length < pos + 10 + rdlen then reject "DNS 资源记录数据越界"
        else do
          let data ← bytesAt buf (pos + 10) (pos + 10 + rdlen)
          let found := if rtype = qtype.toNat then (address qtype data).toList else []
          readAnswers buf qtype count (pos + 10 + rdlen) (out ++ found)

def rcodeText : Nat → String
  | 1 => "格式错误"
  | 2 => "服务器故障"
  | 3 => "域名不存在（NXDOMAIN）"
  | 4 => "查询类型不支持"
  | 5 => "拒绝（REFUSED）"
  | _ => "未知"

def hexWord (n : Nat) : String := "0x" ++ String.ofList (hex (beBytes 2 n))

def parseResponse (buf : List UInt8) (id : UInt16) (name : String) (qtype : UInt16) : Except Fault (List IpAddr) :=
  if buf.length < 12 then reject s!"DNS 应答太短（{buf.length} 字节）"
  else do
    let rid ← beAt 2 buf 0
    if rid ≠ id.toNat then
      reject ("DNS 应答的事务 ID 不匹配（期望 " ++ hexWord id.toNat ++ "，实际 " ++ hexWord rid ++ "）")
    else do
      let flags ← beAt 2 buf 2
      if flags &&& 0x8000 = 0 then reject "收到的不是应答（QR=0）"
      else if flags &&& 0xf ≠ 0 then
        reject s!"DNS 服务器返回错误码 {flags &&& 0xf}（{rcodeText (flags &&& 0xf)}）"
      else do
        let qd ← beAt 2 buf 4
        let an ← beAt 2 buf 6
        let pos ← skipQuestions buf qd 12
        let out ← readAnswers buf qtype an pos []
        if out = [] then reject s!"DNS 应答里没有 {name} 的所求记录（type {qtype}）" else return out

theorem safe_skipName (buf : List UInt8) (pos : Nat) : Safe (skipName buf pos) fun _ => True := by
  induction left : buf.length - pos using Nat.strongRecOn generalizing pos with
  | ind left' ih =>
    rw [skipName]
    split
    · next inside =>
      refine (safe_byteAt inside).bind fun len _ => ?_
      split
      · exact safe_ok trivial
      split
      · split
        · exact safe_reject _
        · exact safe_ok trivial
      split
      · exact safe_reject _
      · exact ih (buf.length - (pos + 1 + len.toNat)) (by omega) _ rfl
    · exact safe_reject _

theorem safe_skipQuestions (buf : List UInt8) (count pos : Nat) : Safe (skipQuestions buf count pos) fun _ => True := by
  induction count generalizing pos with
  | zero => exact safe_ok trivial
  | succ count ih =>
    rw [skipQuestions]
    refine (safe_skipName buf pos).bind fun pos _ => ?_
    split
    · exact safe_reject _
    · exact ih _

theorem safe_readAnswers (buf : List UInt8) (qtype : UInt16) (count pos : Nat) (out : List IpAddr) :
    Safe (readAnswers buf qtype count pos out) fun _ => True := by
  induction count generalizing pos out with
  | zero => exact safe_ok trivial
  | succ count ih =>
    rw [readAnswers]
    refine (safe_skipName buf pos).bind fun pos _ => ?_
    split
    · exact safe_reject _
    refine (safe_beAt (by omega)).bind fun rtype _ => ?_
    refine (safe_beAt (by omega)).bind fun rdlen _ => ?_
    split
    · exact safe_reject _
    refine (safe_bytesAt (by omega) (by omega)).bind fun data _ => ?_
    exact ih _ _

theorem safe_parseResponse (buf : List UInt8) (id : UInt16) (name : String) (qtype : UInt16) :
    Safe (parseResponse buf id name qtype) fun _ => True := by
  rw [parseResponse]
  split
  · exact safe_reject _
  refine (safe_beAt (by omega)).bind fun rid _ => ?_
  split
  · exact safe_reject _
  refine (safe_beAt (by omega)).bind fun flags _ => ?_
  split
  · exact safe_reject _
  split
  · exact safe_reject _
  refine (safe_beAt (by omega)).bind fun qd _ => ?_
  refine (safe_beAt (by omega)).bind fun an _ => ?_
  refine (safe_skipQuestions buf qd 12).bind fun pos _ => ?_
  refine (safe_readAnswers buf qtype an pos []).bind fun out _ => ?_
  split
  · exact safe_reject _
  · exact safe_ok trivial

inductive Spans (buf : List UInt8) : Nat → Nat → Prop
  | root {pos : Nat} (isRoot : buf[pos]? = some 0) : Spans buf pos (pos + 1)
  | pointer {pos : Nat} {len : UInt8} (isLen : buf[pos]? = some len) (isPointer : len &&& 0xc0 = 0xc0)
      (inside : pos + 2 ≤ buf.length) : Spans buf pos (pos + 2)
  | label {pos stop : Nat} {len : UInt8} (isLen : buf[pos]? = some len) (isLabel : len &&& 0xc0 = 0) (notRoot : len ≠ 0)
      (more : Spans buf (pos + 1 + len.toNat) stop) : Spans buf pos stop

structure Question where
  owner : Nat
  kind : Nat
  deriving DecidableEq

/-- `owner` is where the name of its owner stands, and `start` where its data. -/
structure Answer where
  owner : Nat
  kind : Nat
  cls : Nat
  start : Nat
  data : List UInt8
  deriving DecidableEq

inductive Questions (buf : List UInt8) : Nat → List Question → Nat → Prop
  | nil {pos : Nat} : Questions buf pos [] pos
  | cons {pos mid stop kind : Nat} {questions : List Question} (name : Spans buf pos mid)
      (inside : mid + 4 ≤ buf.length) (isKind : beAt 2 buf mid = .ok kind)
      (more : Questions buf (mid + 4) questions stop) : Questions buf pos (⟨pos, kind⟩ :: questions) stop

inductive Answers (buf : List UInt8) : Nat → List Answer → Nat → Prop
  | nil {pos : Nat} : Answers buf pos [] pos
  | cons {pos mid stop kind cls size : Nat} {data : List UInt8} {answers : List Answer} (name : Spans buf pos mid)
      (inside : mid + 10 ≤ buf.length) (isKind : beAt 2 buf mid = .ok kind) (isClass : beAt 2 buf (mid + 2) = .ok cls)
      (isSize : beAt 2 buf (mid + 8) = .ok size) (isData : bytesAt buf (mid + 10) (mid + 10 + size) = .ok data)
      (more : Answers buf (mid + 10 + size) answers stop) :
      Answers buf pos (⟨pos, kind, cls, mid + 10, data⟩ :: answers) stop

structure Message where
  questions : List Question
  answers : List Answer

structure IsResponse (buf : List UInt8) (id : UInt16) (m : Message) : Prop where
  long : 12 ≤ buf.length
  isId : beAt 2 buf 0 = .ok id.toNat
  flags : ∃ flags, beAt 2 buf 2 = .ok flags ∧ flags &&& 0x8000 ≠ 0 ∧ flags &&& 0xf = 0
  asked : beAt 2 buf 4 = .ok m.questions.length
  answered : beAt 2 buf 6 = .ok m.answers.length
  walk : ∃ mid stop, Questions buf 12 m.questions mid ∧ Answers buf mid m.answers stop

def Answer.address (qtype : UInt16) (a : Answer) : Option IpAddr :=
  if a.kind = qtype.toNat then Dns.address qtype a.data else none

def Message.addresses (qtype : UInt16) (m : Message) : List IpAddr := m.answers.filterMap (Answer.address qtype)

theorem skipName_eq_ok_iff {buf : List UInt8} {pos stop : Nat} : skipName buf pos = .ok stop ↔ Spans buf pos stop := by
  constructor
  · intro skipped
    induction left : buf.length - pos using Nat.strongRecOn generalizing pos with
    | ind left' ih =>
      rw [skipName] at skipped
      split at skipped
      · next inside =>
        obtain ⟨len, isByte, skipped⟩ := bind_eq_ok_iff.mp skipped
        have isLen := byteAt_eq_ok_iff.mp isByte
        split at skipped
        · next isRoot =>
          obtain rfl := Except.ok.inj skipped
          exact .root (isRoot ▸ isLen)
        · next notRoot =>
          split at skipped
          · next isPointer =>
            split at skipped
            · cases skipped
            · next enough =>
              obtain rfl := Except.ok.inj skipped
              exact .pointer isLen isPointer (Nat.le_of_not_lt enough)
          · split at skipped
            · cases skipped
            · next isLabel =>
              exact .label isLen (not_not.mp isLabel) notRoot
                (ih (buf.length - (pos + 1 + len.toNat)) (by omega) skipped rfl)
      · cases skipped
  · intro spans
    induction spans with
    | @root pos isRoot =>
      rw [skipName, dif_pos (List.getElem?_eq_some_iff.mp isRoot).1, byteAt_eq_ok_iff.mpr isRoot]
      rfl
    | @pointer pos len isLen isPointer inside =>
      have notRoot : len ≠ 0 := by
        rintro rfl
        exact absurd isPointer (by decide)
      rw [skipName, dif_pos (by omega), byteAt_eq_ok_iff.mpr isLen, ok_bind, if_neg notRoot, if_pos isPointer,
        if_neg (Nat.not_lt_of_le inside)]
      rfl
    | @label pos stop len isLen isLabel notRoot _ ih =>
      have notPointer : len &&& 0xc0 ≠ 0xc0 := by
        rw [isLabel]
        decide
      rw [skipName, dif_pos (List.getElem?_eq_some_iff.mp isLen).1, byteAt_eq_ok_iff.mpr isLen, ok_bind, if_neg notRoot,
        if_neg notPointer, if_neg (not_not.mpr isLabel), ih]

theorem skipQuestions_eq_ok_iff {buf : List UInt8} {count pos stop : Nat} :
    skipQuestions buf count pos = .ok stop ↔ ∃ questions, questions.length = count ∧ Questions buf pos questions stop := by
  induction count generalizing pos with
  | zero =>
    constructor
    · intro skipped
      obtain rfl := Except.ok.inj skipped
      exact ⟨[], rfl, .nil⟩
    · rintro ⟨questions, isNone, walk⟩
      obtain rfl := List.eq_nil_of_length_eq_zero isNone
      cases walk
      rfl
  | succ count ih =>
    rw [skipQuestions, bind_eq_ok_iff]
    constructor
    · rintro ⟨mid, skipped, rest⟩
      split at rest
      · cases rest
      · next enough =>
        have inside := Nat.le_of_not_lt enough
        obtain ⟨questions, rfl, walk⟩ := ih.mp rest
        obtain ⟨kind, isKind⟩ := exists_beAt (show mid + 2 ≤ buf.length by omega)
        exact ⟨⟨pos, kind⟩ :: questions, rfl, .cons (skipName_eq_ok_iff.mp skipped) inside isKind walk⟩
    · rintro ⟨questions, isCount, walk⟩
      cases walk with
      | nil => cases isCount
      | @cons _ mid _ kind questions name inside isKind more =>
        refine ⟨mid, skipName_eq_ok_iff.mpr name, ?_⟩
        rw [if_neg (Nat.not_lt_of_le inside)]
        exact ih.mpr ⟨questions, Nat.succ.inj isCount, more⟩

theorem readAnswers_eq_ok_iff {buf : List UInt8} {qtype : UInt16} {count pos : Nat} {out all : List IpAddr} :
    readAnswers buf qtype count pos out = .ok all ↔
      ∃ answers stop, answers.length = count ∧ Answers buf pos answers stop ∧
        all = out ++ answers.filterMap (Answer.address qtype) := by
  induction count generalizing pos out with
  | zero =>
    constructor
    · intro read
      obtain rfl := Except.ok.inj read
      exact ⟨[], pos, rfl, .nil, (List.append_nil out).symm⟩
    · rintro ⟨answers, stop, isNone, -, rfl⟩
      obtain rfl := List.eq_nil_of_length_eq_zero isNone
      exact congrArg Except.ok (List.append_nil out).symm
  | succ count ih =>
    have found (pos mid cls kind : Nat) (data : List UInt8) (answers : List Answer) :
        out ++ (⟨pos, kind, cls, mid, data⟩ :: answers).filterMap (Answer.address qtype) =
          out ++ (if kind = qtype.toNat then (address qtype data).toList else []) ++
            answers.filterMap (Answer.address qtype) := by
      rw [List.append_assoc, List.filterMap_cons, Answer.address]
      dsimp only
      by_cases isKind : kind = qtype.toNat
      · rw [if_pos isKind, if_pos isKind]
        cases address qtype data with
        | none => rfl
        | some ip => rfl
      · rw [if_neg isKind, if_neg isKind]
        rfl
    rw [readAnswers, bind_eq_ok_iff]
    constructor
    · rintro ⟨mid, skipped, read⟩
      split at read
      · cases read
      next enough =>
      obtain ⟨kind, isKind, read⟩ := bind_eq_ok_iff.mp read
      obtain ⟨size, isSize, read⟩ := bind_eq_ok_iff.mp read
      split at read
      · cases read
      obtain ⟨data, isData, read⟩ := bind_eq_ok_iff.mp read
      obtain ⟨answers, stop, rfl, walk, rfl⟩ := ih.mp read
      obtain ⟨cls, isClass⟩ := exists_beAt (show mid + 2 + 2 ≤ buf.length by omega)
      refine ⟨⟨pos, kind, cls, mid + 10, data⟩ :: answers, stop, rfl, ?_, (found _ _ _ _ _ _).symm⟩
      exact .cons (skipName_eq_ok_iff.mp skipped) (Nat.le_of_not_lt enough) isKind isClass isSize isData walk
    · rintro ⟨answers, stop, isCount, walk, rfl⟩
      cases walk with
      | nil => cases isCount
      | @cons _ mid _ kind cls size data answers name inside isKind isClass isSize isData more =>
        refine ⟨mid, skipName_eq_ok_iff.mpr name, ?_⟩
        rw [if_neg (Nat.not_lt_of_le inside), isKind, ok_bind, isSize, ok_bind,
          if_neg (Nat.not_lt_of_le (le_of_bytesAt isData)), isData, ok_bind]
        exact ih.mpr ⟨answers, stop, Nat.succ.inj isCount, more, found _ _ _ _ _ _⟩

theorem parseResponse_eq_ok_iff {buf : List UInt8} {id : UInt16} {name : String} {qtype : UInt16} {out : List IpAddr} :
    parseResponse buf id name qtype = .ok out ↔
      ∃ m, IsResponse buf id m ∧ out = m.addresses qtype ∧ out ≠ [] := by
  rw [parseResponse]
  constructor
  · intro parsed
    split at parsed
    · cases parsed
    next long =>
    obtain ⟨rid, isId, parsed⟩ := bind_eq_ok_iff.mp parsed
    split at parsed
    · cases parsed
    next same =>
    obtain ⟨flags, isFlags, parsed⟩ := bind_eq_ok_iff.mp parsed
    split at parsed
    · cases parsed
    next isAnswer =>
    split at parsed
    · cases parsed
    next noError =>
    obtain ⟨qd, isQd, parsed⟩ := bind_eq_ok_iff.mp parsed
    obtain ⟨an, isAn, parsed⟩ := bind_eq_ok_iff.mp parsed
    obtain ⟨mid, skipped, parsed⟩ := bind_eq_ok_iff.mp parsed
    obtain ⟨all, read, parsed⟩ := bind_eq_ok_iff.mp parsed
    obtain ⟨questions, rfl, asked⟩ := skipQuestions_eq_ok_iff.mp skipped
    obtain ⟨answers, stop, rfl, answered, rfl⟩ := readAnswers_eq_ok_iff.mp read
    split at parsed
    · cases parsed
    next some =>
    obtain rfl := Except.ok.inj parsed
    refine ⟨⟨questions, answers⟩, ?_, rfl, some⟩
    exact ⟨Nat.le_of_not_lt long, not_not.mp same ▸ isId, ⟨flags, isFlags, isAnswer, not_not.mp noError⟩, isQd, isAn,
      mid, stop, asked, answered⟩
  · rintro ⟨m, isResponse, rfl, some⟩
    obtain ⟨flags, isFlags, isAnswer, noError⟩ := isResponse.flags
    obtain ⟨mid, stop, asked, answered⟩ := isResponse.walk
    have read := readAnswers_eq_ok_iff.mpr ⟨m.answers, stop, rfl, answered, (List.nil_append (m.addresses qtype)).symm⟩
    rw [if_neg (Nat.not_lt_of_le isResponse.long), isResponse.isId, ok_bind, if_neg (not_not.mpr rfl), isFlags, ok_bind,
      if_neg isAnswer, if_neg (not_not.mpr noError), isResponse.asked, ok_bind, isResponse.answered, ok_bind,
      skipQuestions_eq_ok_iff.mpr ⟨m.questions, rfl, asked⟩, ok_bind, read, ok_bind, if_neg some]
    rfl

section Unique

variable {buf : List UInt8} {pos stop other : Nat}

theorem Spans.unique (spans : Spans buf pos stop) (also : Spans buf pos other) : stop = other := by
  have skipped := skipName_eq_ok_iff.mpr spans
  rw [skipName_eq_ok_iff.mpr also] at skipped
  exact (Except.ok.inj skipped).symm

theorem Questions.unique {questions others : List Question} (walk : Questions buf pos questions stop)
    (also : Questions buf pos others other) (same : questions.length = others.length) :
    questions = others ∧ stop = other := by
  induction walk generalizing others with
  | nil =>
    obtain rfl := List.eq_nil_of_length_eq_zero same.symm
    cases also
    exact ⟨rfl, rfl⟩
  | @cons pos mid stop kind questions name inside isKind more ih =>
    cases also with
    | nil => cases same
    | @cons _ mid' _ kind' others name' inside' isKind' more' =>
      obtain rfl := name.unique name'
      obtain rfl := Except.ok.inj (isKind.symm.trans isKind')
      obtain ⟨rfl, rfl⟩ := ih more' (Nat.succ.inj same)
      exact ⟨rfl, rfl⟩

theorem Answers.unique {answers others : List Answer} (walk : Answers buf pos answers stop)
    (also : Answers buf pos others other) (same : answers.length = others.length) : answers = others := by
  induction walk generalizing others with
  | nil => exact (List.eq_nil_of_length_eq_zero same.symm).symm
  | @cons pos mid stop kind cls size data answers name inside isKind isClass isSize isData more ih =>
    cases also with
    | nil => cases same
    | @cons _ mid' _ kind' cls' size' data' others name' inside' isKind' isClass' isSize' isData' more' =>
      obtain rfl := name.unique name'
      obtain rfl := Except.ok.inj (isKind.symm.trans isKind')
      obtain rfl := Except.ok.inj (isClass.symm.trans isClass')
      obtain rfl := Except.ok.inj (isSize.symm.trans isSize')
      obtain rfl := Except.ok.inj (isData.symm.trans isData')
      obtain rfl := ih more' (Nat.succ.inj same)
      rfl

theorem IsResponse.unique {id : UInt16} {m m' : Message} (isResponse : IsResponse buf id m)
    (also : IsResponse buf id m') : m = m' := by
  obtain ⟨mid, stop, asked, answered⟩ := isResponse.walk
  obtain ⟨mid', stop', asked', answered'⟩ := also.walk
  have sameQuestions := Except.ok.inj (isResponse.asked.symm.trans also.asked)
  have sameAnswers := Except.ok.inj (isResponse.answered.symm.trans also.answered)
  obtain ⟨questions, rfl⟩ := asked.unique asked' sameQuestions
  have answers := answered.unique answered' sameAnswers
  cases m
  cases m'
  exact congrArg₂ Message.mk questions answers

end Unique

inductive NameAt (buf : List UInt8) : Nat → List (List UInt8) → Prop
  | root {pos : Nat} (isRoot : buf[pos]? = some 0) : NameAt buf pos []
  | pointer {pos n : Nat} {labels : List (List UInt8)} (isPointer : beAt 2 buf pos = .ok (0xc000 + n)) (small : n < 0x4000)
      (more : NameAt buf n labels) : NameAt buf pos labels
  | label {pos : Nat} {len : UInt8} {first : List UInt8} {labels : List (List UInt8)} (isLen : buf[pos]? = some len)
      (isLabel : len &&& 0xc0 = 0) (notRoot : len ≠ 0)
      (isFirst : bytesAt buf (pos + 1) (pos + 1 + len.toNat) = .ok first)
      (more : NameAt buf (pos + 1 + len.toNat) labels) : NameAt buf pos (first :: labels)

def lowercase (byte : UInt8) : UInt8 := if 65 ≤ byte ∧ byte ≤ 90 then byte + 32 else byte

def SameName (labels other : List (List UInt8)) : Prop :=
  labels.map (List.map lowercase) = other.map (List.map lowercase)

def labelsOf (name : String) : List (List UInt8) :=
  ((name.toList.rdropWhile (· == '.')).splitOn '.').map fun label => bytesOf (String.ofList label)

def Asks (buf : List UInt8) (m : Message) (name : String) (qtype : UInt16) : Prop :=
  ∃ q labels, m.questions = [q] ∧ q.kind = qtype.toNat ∧ NameAt buf q.owner labels ∧ SameName labels (labelsOf name)

def Answer.IsIn (a : Answer) : Prop := a.cls = 1

def Alias (buf : List UInt8) (m : Message) (labels other : List (List UInt8)) : Prop :=
  ∃ a ∈ m.answers, a.kind = 5 ∧ a.IsIn ∧ NameAt buf a.start other ∧
    ∃ owner, NameAt buf a.owner owner ∧ SameName owner labels

/-- The owner is the name, or what its aliases lead to. -/
def Owned (buf : List UInt8) (m : Message) (name : String) (a : Answer) : Prop :=
  ∃ labels owner, Relation.ReflTransGen (Alias buf m) (labelsOf name) labels ∧ NameAt buf a.owner owner ∧
    SameName owner labels

def Vouched (buf : List UInt8) (m : Message) (name : String) (qtype : UInt16) (ip : IpAddr) : Prop :=
  ∃ a ∈ m.answers, a.address qtype = some ip ∧ a.IsIn ∧ Owned buf m name a

def wireName : List (List UInt8) → List UInt8
  | [] => [0]
  | label :: labels => UInt8.ofNat label.length :: (label ++ wireName labels)

/-- `none` where there is no label, or one that is empty or too long. -/
def buildQuery (id : UInt16) (name : String) (qtype : UInt16) : Option (List UInt8) :=
  if name.toList.rdropWhile (· == '.') = [] then none
  else if (labelsOf name).any fun label => label.isEmpty || 63 < label.length then none
  else some (beBytes 2 id.toNat ++ beBytes 2 0x0100 ++ beBytes 2 1 ++ beBytes 2 0 ++ beBytes 2 0 ++ beBytes 2 0 ++
    (wireName (labelsOf name) ++ (beBytes 2 qtype.toNat ++ beBytes 2 1)))

theorem nameAt_wireName {buf rest : List UInt8} {labels : List (List UInt8)} {pos : Nat}
    (valid : ∀ label ∈ labels, label ≠ [] ∧ label.length ≤ 63) (holds : At buf pos (wireName labels ++ rest)) :
    NameAt buf pos labels ∧ Spans buf pos (pos + (wireName labels).length) := by
  induction labels generalizing pos with
  | nil =>
    have isRoot := byteAt_eq_ok_iff.mp holds.byteAt
    exact ⟨.root isRoot, .root isRoot⟩
  | cons label labels ih =>
    obtain ⟨some, short⟩ := valid label List.mem_cons_self
    have positive := List.length_pos_iff.mpr some
    have isFirst : At buf pos (UInt8.ofNat label.length :: (label ++ (wireName labels ++ rest))) := by
      rwa [wireName, List.cons_append, List.append_assoc] at holds
    have isLen : (UInt8.ofNat label.length).toNat = label.length := by
      rw [UInt8.toNat_ofNat', Nat.mod_eq_of_lt (by omega)]
    have isMore : At buf (pos + 1 + label.length) (wireName labels ++ rest) := isFirst.next.behind rfl
    obtain ⟨isName, spans⟩ :=
      ih (fun label member => valid label (List.mem_cons_of_mem _ member)) isMore
    have bits : ∀ n < 64, UInt8.ofNat n &&& 0xc0 = 0 := by decide
    have isLabel := bits label.length (by omega)
    have notRoot : UInt8.ofNat label.length ≠ 0 := by
      intro isRoot
      rw [isRoot] at isLen
      exact absurd isLen (Nat.ne_of_lt positive)
    have isByte := byteAt_eq_ok_iff.mp isFirst.byteAt
    have whole : pos + (wireName (label :: labels)).length = pos + 1 + label.length + (wireName labels).length := by
      rw [wireName, List.length_cons, List.length_append]
      omega
    rw [whole]
    exact ⟨.label isByte isLabel notRoot (isFirst.next.bytesAt (by rw [isLen])) (by rwa [isLen]),
      .label isByte isLabel notRoot (by rwa [isLen])⟩

/-- The parser never panics, and what it returns is bound to the query. -/
def Bound (buf : List UInt8) (id : UInt16) (name : String) (qtype : UInt16) : Prop :=
  parseResponse buf id name qtype ≠ .error .outOfRange ∧
    ∀ out, parseResponse buf id name qtype = .ok out →
      ∃ m, IsResponse buf id m ∧ Asks buf m name qtype ∧ ∀ ip ∈ out, Vouched buf m name qtype ip

/-- Exactly where a response with an address repeats the question and has its addresses from the
name asked for: none of it is looked at. -/
theorem bound_iff (buf : List UInt8) (id : UInt16) (name : String) (qtype : UInt16) :
    Bound buf id name qtype ↔
      ∀ m, IsResponse buf id m → m.addresses qtype ≠ [] →
        Asks buf m name qtype ∧ ∀ ip ∈ m.addresses qtype, Vouched buf m name qtype ip := by
  constructor
  · rintro ⟨-, bound⟩ m isResponse some
    obtain ⟨m', isResponse', asks, vouched⟩ := bound _ (parseResponse_eq_ok_iff.mpr ⟨m, isResponse, rfl, some⟩)
    obtain rfl := isResponse.unique isResponse'
    exact ⟨asks, vouched⟩
  · intro bound
    refine ⟨(safe_parseResponse buf id name qtype).ne_outOfRange, ?_⟩
    intro out parsed
    obtain ⟨m, isResponse, rfl, some⟩ := parseResponse_eq_ok_iff.mp parsed
    obtain ⟨asks, vouched⟩ := bound m isResponse some
    exact ⟨m, isResponse, asks, vouched⟩

def unasked : List UInt8 :=
  [0x12, 0x34, 0x81, 0x80, 0, 0, 0, 1, 0, 0, 0, 0, 0, 0, 1, 0, 1, 0, 0, 0, 60, 0, 4, 1, 2, 3, 4]

theorem not_bound_unasked : ¬∀ buf id name qtype, Bound buf id name qtype := by
  intro bound
  have answered : Answers unasked 12 [⟨12, 1, 1, 23, [1, 2, 3, 4]⟩] 27 :=
    @Answers.cons unasked 12 13 27 1 1 4 [1, 2, 3, 4] [] (.root (by decide)) (by decide) (by decide) (by decide)
      (by decide) (by decide) .nil
  have isResponse : IsResponse unasked 0x1234 ⟨[], [⟨12, 1, 1, 23, [1, 2, 3, 4]⟩]⟩ :=
    ⟨by decide, by decide, ⟨0x8180, by decide, by decide, by decide⟩, by decide, by decide, 12, 27, .nil, answered⟩
  obtain ⟨m, isResponse', ⟨q, labels, isQuestion, -⟩, -⟩ :=
    (bound unasked 0x1234 "a" 1).2 _ (parseResponse_eq_ok_iff.mpr ⟨_, isResponse, rfl, by decide⟩)
  obtain rfl := isResponse.unique isResponse'
  cases isQuestion

end Nfrp.Dns
