import Nfrp.Lib.Octets
import Nfrp.Lib.Packing
import Nfrp.Lib.Runs
import Nfrp.Nlink.Frame

/-!
# The list of names after a resumption

The client says which proxies it still has.  A list that is too long for one frame goes
out in chunks, each with its number and how many there are; the server puts them together
and settles once it has all of them.
-/

namespace Nfrp.Nlink

open Lib

def maxFrame : Nat := 8192

def tagBase : UInt16 := 0x4e00
def tagDetail : UInt16 := tagBase + 17
def tagChunk : UInt16 := tagBase + 19
def tagChunks : UInt16 := tagBase + 20

def maxCommitBytes : Nat := 8 * 1024 * 1024

def commitChunkBudget : Nat := maxFrame - 4 - (6 + 2) * 2 - 6 - 16

def maxCommitChunks : Nat :=
  let n := (maxCommitBytes + commitChunkBudget - 1) / commitChunkBudget
  if 65535 < n then 65535 else n

namespace TlvMap

def get (items : TlvMap) (tag : UInt16) : Option (List UInt8) :=
  (items.find? (·.tag = tag)).map Tlv.value

def getStr (items : TlvMap) (tag : UInt16) : Option (List Char) :=
  (items.get tag).map lossyTextOf

def getU16 (items : TlvMap) (tag : UInt16) : Option UInt16 :=
  (items.get tag).bind fun v => if 2 ≤ v.length then some (UInt16.ofNat (ofBeBytes (v.take 2))) else none

def commitChunkInfo (items : TlvMap) : Option (UInt16 × UInt16) :=
  (items.getU16 tagChunk).bind fun idx => (items.getU16 tagChunks).map fun total => (idx, total)

end TlvMap

namespace Frame

def new (kind : FrameKind) : Frame := ⟨kind, 0, []⟩

def push (f : Frame) (tag : UInt16) (value : List UInt8) : Frame :=
  { f with tlvs := f.tlvs ++ [⟨tag, value⟩] }

end Frame

/-- The loop of `split_commit_names`, with the chunk that is being filled. -/
def splitCommitNamesFrom (budget : Nat) : (cur : List String) → (curLen : Nat) → List String → List (List String)
  | cur, _, [] => if cur = [] then [] else [cur]
  | cur, curLen, name :: names =>
    let add := name.utf8ByteSize + if cur = [] then 0 else 1
    if cur ≠ [] ∧ budget < curLen + add then cur :: splitCommitNamesFrom budget [name] name.utf8ByteSize names
    else splitCommitNamesFrom budget (cur ++ [name]) (curLen + add) names

def splitCommitNames (names : List String) (budget : Nat) : List (List String) :=
  splitCommitNamesFrom (max budget 1) [] 0 names

def joined (part : List String) : List UInt8 :=
  bytesOf ("\n".intercalate part)

def commitFrame (part : List String) : Frame :=
  (Frame.new .resumeCommit).push tagDetail (joined part)

def commitChunkFrame (total i : Nat) (part : List String) : Frame :=
  ((commitFrame part).push tagChunk (beBytes 2 i)).push tagChunks (beBytes 2 total)

/-- Neither the number of a chunk nor how many there are is looked at before it is cut to two bytes. -/
def encodeResumeCommit (names : List String) : List Frame :=
  match splitCommitNames names commitChunkBudget with
  | [] => [commitFrame []]
  | [part] => [commitFrame part]
  | chunks => chunks.mapIdx fun i part => commitChunkFrame chunks.length i part

def commitBytes (names : List String) : Nat :=
  (names.map fun n => n.utf8ByteSize + 1).sum

structure CommitAssembler where
  total : Nat
  parts : List (Option (List String))
  received : Nat
  bytes : Nat
  deriving DecidableEq

namespace CommitAssembler

def new : CommitAssembler := ⟨0, [], 0, 0⟩

def opened (asm : CommitAssembler) (total : Nat) : CommitAssembler :=
  if asm.total ≠ total then ⟨total, List.replicate total none, 0, 0⟩ else asm

def slotBytes (slot : Option (List String)) : Nat :=
  (slot.map commitBytes).getD 0

/-- The chunk into its slot; nothing where a counter overflows or a slot is out of range.
The names are held in memory, so that counting their bytes does not overflow. -/
def push (asm : CommitAssembler) (idx total : UInt16) (names : List String) :
    Option (CommitAssembler × Except String (Option (List String))) :=
  if total = 0 then some (asm, .error "ResumeCommit 分片总数为 0")
  else if maxCommitChunks < total.toNat then
    some (asm, .error s!"ResumeCommit 分片数 {total} 超过上限 {maxCommitChunks}")
  else if total ≤ idx then some (asm, .error s!"ResumeCommit 分片序号 {idx} 越界（总数 {total}）")
  else
    let asm := asm.opened total.toNat
    asm.parts[idx.toNat]?.bind fun slot =>
      (checkedSub asm.bytes (slotBytes slot)).bind fun others =>
        let projected := others + commitBytes names
        if maxCommitBytes < projected then
          some (asm, .error s!"ResumeCommit 名单总量 {projected} 字节超过预算 {maxCommitBytes}")
        else
          (if slot.isNone then checkedAdd 16 asm.received 1 else some asm.received).map fun received =>
            let parts := asm.parts.set idx.toNat (some names)
            if received = asm.total then (new, .ok (some (parts.flatMap fun part => part.getD [])))
            else ({ asm with parts, received, bytes := projected }, .ok none)

end CommitAssembler

/-- The lines of a text without the ends of the lines; behind the last end there may be none. -/
def lines (text : List Char) : List (List Char) :=
  let pieces := text.splitOn '\n'
  (pieces.dropLast.map fun line => if line.getLast? = some '\r' then line.dropLast else line) ++
    (pieces.getLast?.filter (· ≠ [])).toList

def listedNames (f : Frame) : List String :=
  (((lines ((f.tlvs.getStr tagDetail).getD [])).map trimmed).filter (· ≠ [])).map String.ofList

/-- What the server does with a list or a chunk of one, and the whole list once it has it;
a chunk that is refused is left out. -/
def onResumeCommit (asm : CommitAssembler) (f : Frame) : Option (CommitAssembler × Option (List String)) :=
  match f.tlvs.commitChunkInfo with
  | some (idx, total) =>
    (asm.push idx total (listedNames f)).map fun pushed =>
      (pushed.1, match pushed.2 with
        | .ok done => done
        | .error _ => none)
  | none => some (asm, some (listedNames f))

theorem splitCommitNamesFrom_eq (budget : Nat) (cur names : List String) :
    splitCommitNamesFrom budget cur (load String.utf8ByteSize cur) names =
      packFrom String.utf8ByteSize budget cur names := by
  induction names generalizing cur with
  | nil => rfl
  | cons name names ih =>
    have isLoad : load String.utf8ByteSize cur + (name.utf8ByteSize + if cur = [] then 0 else 1) =
        load String.utf8ByteSize (cur ++ [name]) := by
      split
      next isEmpty =>
        rw [isEmpty]
        exact Nat.zero_add _
      next someName => exact (load_concat someName name).symm
    rw [splitCommitNamesFrom, packFrom]
    rw [isLoad, ih (cur ++ [name])]
    exact if_congr Iff.rfl (congrArg (cur :: ·) (ih [name])) rfl

theorem splitCommitNames_eq (names : List String) :
    splitCommitNames names commitChunkBudget = packFrom String.utf8ByteSize commitChunkBudget [] names :=
  splitCommitNamesFrom_eq commitChunkBudget [] names

theorem flatten_splitCommitNames (names : List String) :
    (splitCommitNames names commitChunkBudget).flatten = names := by
  rw [splitCommitNames_eq, flatten_packFrom, List.nil_append]

theorem fits_of_mem_splitCommitNames {names part : List String}
    (member : part ∈ splitCommitNames names commitChunkBudget) :
    part ≠ [] ∧ Fits String.utf8ByteSize commitChunkBudget part := by
  rw [splitCommitNames_eq] at member
  exact @fits_of_mem_packFrom _ _ _ [] _ (.inl (Nat.zero_le 1)) _ member

theorem subset_of_mem_splitCommitNames {names part : List String}
    (member : part ∈ splitCommitNames names commitChunkBudget) : part ⊆ names := by
  intro name inPart
  rw [← flatten_splitCommitNames names]
  exact List.mem_flatten.mpr ⟨part, member, inPart⟩

theorem length_joined (part : List String) : (joined part).length = load String.utf8ByteSize part := by
  have isSize : ∀ s : String, (bytesOf s).length = s.utf8ByteSize := fun s => by
    rw [bytesOf, Array.length_toList]
    rfl
  rw [joined, isSize]
  induction part with
  | nil => rfl
  | cons name part ih =>
    cases part with
    | nil => rw [String.intercalate_singleton, load_singleton]
    | cons next part =>
      rw [String.intercalate_cons_cons, String.utf8ByteSize_append, String.utf8ByteSize_append, ih]
      have newline : "\n".utf8ByteSize = 1 := rfl
      rw [newline]
      simp only [load, List.map_cons, List.sum_cons, List.length_cons]
      omega

/-- Each name takes a byte more in the account than in a chunk of its own. -/
theorem load_le_commitBytes (part : List String) : load String.utf8ByteSize part ≤ commitBytes part := by
  have isSum : commitBytes part = (part.map String.utf8ByteSize).sum + part.length := by
    rw [commitBytes, List.sum_map_add, List.map_const', List.sum_replicate_nat, Nat.mul_one]
  rw [load, isSum]
  omega

theorem commitBytes_flatten (parts : List (List String)) : commitBytes parts.flatten = (parts.map commitBytes).sum := by
  rw [commitBytes, List.map_flatten, List.sum_flatten, List.map_map]
  rfl

theorem length_encode {f : Frame} (complete : f.tlvs.Complete) :
    f.encode.length = 4 + (f.tlvs.map fun tlv => 6 + tlv.value.length).sum := by
  rw [Frame.encode, TlvMap.encodeInto_of_complete _ complete, List.length_append, Preamble.length_bytes,
    List.length_append, length_beBytes]
  rfl

theorem complete_commitFrame {part : List String} (short : load String.utf8ByteSize part < 2 ^ 32) :
    (commitFrame part).tlvs.Complete := by
  intro tlv member
  obtain rfl := List.mem_singleton.mp member
  exact (length_joined part).trans_lt short

theorem complete_commitChunkFrame {part : List String} (short : load String.utf8ByteSize part < 2 ^ 32) (total i : Nat) :
    (commitChunkFrame total i part).tlvs.Complete := by
  intro tlv member
  rcases List.mem_append.mp member with others | isTotal
  · rcases List.mem_append.mp others with isDetail | isNumber
    · exact complete_commitFrame short tlv isDetail
    · obtain rfl := List.mem_singleton.mp isNumber
      show (beBytes 2 i).length < 2 ^ 32
      rw [length_beBytes]
      decide
  · obtain rfl := List.mem_singleton.mp isTotal
    show (beBytes 2 total).length < 2 ^ 32
    rw [length_beBytes]
    decide

theorem length_encode_commitFrame {part : List String} (short : load String.utf8ByteSize part < 2 ^ 32) :
    (commitFrame part).encode.length = 10 + load String.utf8ByteSize part := by
  rw [length_encode (complete_commitFrame short), ← length_joined]
  show 4 + (6 + (joined part).length + 0) = _
  omega

theorem length_encode_commitChunkFrame {part : List String} (short : load String.utf8ByteSize part < 2 ^ 32)
    (total i : Nat) : (commitChunkFrame total i part).encode.length = 26 + load String.utf8ByteSize part := by
  rw [length_encode (complete_commitChunkFrame short total i), ← length_joined]
  show 4 + (6 + (joined part).length + (6 + (beBytes 2 i).length + (6 + (beBytes 2 total).length + 0))) = _
  rw [length_beBytes, length_beBytes]
  omega

theorem decode_encode_of_complete {f : Frame} (complete : f.tlvs.Complete) :
    Frame.decode f.encode = some (.ok (.known f)) :=
  (Frame.decode_encode_iff f).mpr (by rw [Frame.Accepted, TlvMap.encodeInto_of_complete _ complete])

theorem commitChunkInfo_commitFrame (part : List String) : (commitFrame part).tlvs.commitChunkInfo = none := rfl

theorem commitChunkInfo_commitChunkFrame (total i : Nat) (part : List String) :
    (commitChunkFrame total i part).tlvs.commitChunkInfo = some (UInt16.ofNat i, UInt16.ofNat total) := by
  have isU16 : ∀ n, UInt16.ofNat (ofBeBytes ((beBytes 2 n).take 2)) = UInt16.ofNat n := fun n => by
    rw [List.take_of_length_le (Nat.le_of_eq (length_beBytes 2 n)), ofBeBytes_beBytes, ← UInt16.toNat_inj,
      UInt16.toNat_ofNat', UInt16.toNat_ofNat']
    exact Nat.mod_mod _ _
  have long : ∀ n, 2 ≤ (beBytes 2 n).length := fun n => Nat.le_of_eq (length_beBytes 2 n).symm
  have isChunk : (commitChunkFrame total i part).tlvs.get tagChunk = some (beBytes 2 i) := rfl
  have isChunks : (commitChunkFrame total i part).tlvs.get tagChunks = some (beBytes 2 total) := rfl
  rw [TlvMap.commitChunkInfo, TlvMap.getU16, TlvMap.getU16, isChunk, isChunks, Option.bind_some, Option.bind_some,
    if_pos (long i), if_pos (long total), isU16, isU16]
  rfl

theorem lines_intercalate {texts : List (List Char)} (someText : ∀ text ∈ texts, text ≠ [])
    (oneLine : ∀ text ∈ texts, '\n' ∉ text) (noReturn : ∀ text ∈ texts, text.getLast? ≠ some '\r') :
    lines (['\n'].intercalate texts) = texts := by
  by_cases isEmpty : texts = []
  · rw [isEmpty]
    rfl
  have same : texts.dropLast.map (fun line => if line.getLast? = some '\r' then line.dropLast else line) =
      texts.dropLast := by
    refine (List.map_congr_left fun text member => ?_).trans (List.map_id _)
    exact if_neg (noReturn text (List.mem_of_mem_dropLast member))
  have isLast : texts.getLast? = some (texts.getLast isEmpty) := List.getLast?_eq_getLast_of_ne_nil isEmpty
  have kept : (some (texts.getLast isEmpty)).filter (· ≠ []) = some (texts.getLast isEmpty) := by
    rw [Option.filter_some, if_pos (decide_eq_true (someText _ (List.getLast_mem isEmpty)))]
  rw [lines, List.splitOn_intercalate _ oneLine isEmpty, same, isLast, kept]
  exact List.dropLast_append_getLast isEmpty

/-- What can be told apart in a list of names that goes out a line a name. -/
structure CommitNames (names : List String) : Prop where
  distinct : names.Nodup
  someName : ∀ name ∈ names, name ≠ ""
  oneLine : ∀ name ∈ names, '\n' ∉ name.toList
  unblanked : ∀ name ∈ names, trim name = name
  small : commitBytes names ≤ maxCommitBytes

theorem toList_of_trim {name : String} (unblanked : trim name = name) : trimmed name.toList = name.toList := by
  have same := congrArg String.toList unblanked
  rwa [trim, String.toList_ofList] at same

theorem getLast?_of_trim {name : String} (unblanked : trim name = name) : name.toList.getLast? ≠ some '\r' := by
  intro isLast
  have same := toList_of_trim unblanked
  have someText : trimmed name.toList ≠ [] := by
    rw [same]
    exact fun isEmpty => nomatch (isEmpty ▸ isLast : ([] : List Char).getLast? = some '\r')
  have solid := List.rdropWhile_last_not isWhitespace (name.toList.dropWhile isWhitespace) someText
  have isReturn : (trimmed name.toList).getLast someText = '\r' := by
    rw [← same, List.getLast?_eq_getLast_of_ne_nil someText] at isLast
    exact Option.some.inj isLast
  exact solid (isReturn ▸ rfl)

theorem listedNames_of_getStr {names part : List String} (good : CommitNames names) (isPart : part ⊆ names) {f : Frame}
    (detail : f.tlvs.get tagDetail = some (joined part)) : listedNames f = part := by
  have isText : (f.tlvs.getStr tagDetail).getD [] = ['\n'].intercalate (part.map String.toList) := by
    rw [TlvMap.getStr, detail, Option.map_some, Option.getD_some, joined,
      ← @String.ofList_toList ("\n".intercalate part), lossyTextOf_bytesOf, String.toList_intercalate]
    rfl
  have isLines : lines (['\n'].intercalate (part.map String.toList)) = part.map String.toList := by
    apply lines_intercalate
    · rintro text member rfl
      obtain ⟨name, inPart, isEmpty⟩ := List.mem_map.mp member
      exact good.someName name (isPart inPart) (String.toList_eq_nil_iff.mp isEmpty)
    · intro text member
      obtain ⟨name, inPart, rfl⟩ := List.mem_map.mp member
      exact good.oneLine name (isPart inPart)
    · intro text member
      obtain ⟨name, inPart, rfl⟩ := List.mem_map.mp member
      exact getLast?_of_trim (good.unblanked name (isPart inPart))
  have isTrimmed : (part.map String.toList).map trimmed = part.map String.toList := by
    rw [List.map_map]
    exact List.map_congr_left fun name inPart => toList_of_trim (good.unblanked name (isPart inPart))
  have kept : (part.map String.toList).filter (· ≠ []) = part.map String.toList := by
    rw [List.filter_eq_self]
    intro text member
    obtain ⟨name, inPart, rfl⟩ := List.mem_map.mp member
    exact decide_eq_true fun isEmpty => good.someName name (isPart inPart) (String.toList_eq_nil_iff.mp isEmpty)
  rw [listedNames, isText, isLines, isTrimmed, kept, List.map_map]
  exact (List.map_congr_left fun name _ => String.ofList_toList).trans (List.map_id _)

theorem listedNames_commitFrame {names part : List String} (good : CommitNames names) (isPart : part ⊆ names) :
    listedNames (commitFrame part) = part :=
  listedNames_of_getStr good isPart rfl

theorem listedNames_commitChunkFrame {names part : List String} (good : CommitNames names) (isPart : part ⊆ names)
    (total i : Nat) : listedNames (commitChunkFrame total i part) = part :=
  listedNames_of_getStr good isPart rfl

namespace CommitAssembler

/-- The counters are what the slots hold, within the budget. -/
structure Counted (asm : CommitAssembler) : Prop where
  slots : asm.parts.length = asm.total
  received : asm.received = asm.parts.countP Option.isSome
  bytes : asm.bytes = (asm.parts.map slotBytes).sum
  within : asm.bytes ≤ maxCommitBytes

/-- Between two chunks, moreover, no round is complete. -/
structure Tallied (asm : CommitAssembler) : Prop extends Counted asm where
  few : asm.total ≤ maxCommitChunks
  unfinished : asm.total ≠ 0 → asm.received < asm.total

/-- A chunk with a number that there is, of no more than there may be. -/
def Admissible (idx total : UInt16) : Prop :=
  total ≠ 0 ∧ total.toNat ≤ maxCommitChunks ∧ idx < total

instance (idx total : UInt16) : Decidable (Admissible idx total) :=
  inferInstanceAs (Decidable (total ≠ 0 ∧ total.toNat ≤ maxCommitChunks ∧ idx < total))

theorem tallied_new : new.Tallied where
  slots := rfl
  received := rfl
  bytes := rfl
  within := Nat.zero_le _
  few := Nat.zero_le _
  unfinished := fun started => absurd rfl started

theorem tallied_replicate {total : Nat} (few : total ≤ maxCommitChunks) :
    Tallied ⟨total, List.replicate total none, 0, 0⟩ where
  slots := List.length_replicate
  received := by rw [List.countP_replicate, if_neg (by decide)]
  bytes := by
    rw [List.map_replicate, List.sum_replicate_nat]
    exact (Nat.mul_zero total).symm
  within := Nat.zero_le _
  few := few
  unfinished := Nat.pos_of_ne_zero

variable {asm : CommitAssembler} {idx total : UInt16} {names : List String}

theorem Tallied.opened (tallied : asm.Tallied) {total : Nat} (few : total ≤ maxCommitChunks) :
    (asm.opened total).Tallied := by
  rw [CommitAssembler.opened]
  split
  · exact tallied_replicate few
  · exact tallied

theorem total_opened (asm : CommitAssembler) (total : Nat) : (asm.opened total).total = total := by
  rw [CommitAssembler.opened]
  split
  · rfl
  next same => exact not_not.mp same

theorem push_refused (asm : CommitAssembler) (refused : ¬Admissible idx total) (names : List String) :
    ∃ e, asm.push idx total names = some (asm, .error e) := by
  rw [push]
  split
  · exact ⟨_, rfl⟩
  next some =>
    split
    · exact ⟨_, rfl⟩
    next few =>
      split
      · exact ⟨_, rfl⟩
      next inside => exact absurd ⟨some, Nat.le_of_not_lt few, UInt16.not_le.mp inside⟩ refused

/-- What a slot counts for, and whether it counts, is what the chunk changes. -/
theorem counts_set {parts : List (Option (List String))} {i : Nat} {slot : Option (List String)}
    (isSlot : parts[i]? = some slot) (names : List String) :
    slotBytes slot ≤ (parts.map slotBytes).sum ∧
      ((parts.set i (some names)).map slotBytes).sum = (parts.map slotBytes).sum - slotBytes slot + commitBytes names ∧
      (parts.set i (some names)).countP Option.isSome =
        parts.countP Option.isSome + if slot.isNone then 1 else 0 := by
  obtain ⟨inside, rfl⟩ := List.getElem?_eq_some_iff.mp isSlot
  obtain ⟨before, after, isParts, -, isSet⟩ := @List.exists_of_set _ i (some names) parts inside
  generalize parts[i] = slot at isParts
  rw [isSet, isParts]
  have isNew : slotBytes (some names) = commitBytes names := rfl
  simp only [List.map_append, List.map_cons, List.sum_append, List.sum_cons, List.countP_append, List.countP_cons, isNew,
    Option.isSome_some, if_true]
  cases slot <;> simp <;> omega

/-- The chunk has no room beside what the other slots hold. -/
def Overfills (asm : CommitAssembler) (idx : UInt16) (names : List String) : Prop :=
  ∃ slot, asm.parts[idx.toNat]? = some slot ∧ maxCommitBytes < asm.bytes - slotBytes slot + commitBytes names

/-- A chunk that is admitted is refused for its length only, and then a round may have been
begun; another is put into its slot, and the last one gives the list. -/
theorem push_admitted (tallied : asm.Tallied) (admitted : Admissible idx total) (names : List String) :
    ((asm.opened total.toNat).Overfills idx names ∧
        ∃ e, asm.push idx total names = some (asm.opened total.toNat, .error e)) ∨
      ¬(asm.opened total.toNat).Overfills idx names ∧ ∃ filled : CommitAssembler, filled.Counted ∧
        filled.total = total.toNat ∧ filled.parts = (asm.opened total.toNat).parts.set idx.toNat (some names) ∧
        (filled.received < filled.total ∧ asm.push idx total names = some (filled, .ok none) ∨
          filled.received = filled.total ∧ asm.push idx total names =
            some (new, .ok (some (filled.parts.flatMap fun part => part.getD [])))) := by
  obtain ⟨someTotal, few, inside⟩ := admitted
  have opened := tallied.opened few
  have isTotal := total_opened asm total.toNat
  rw [push, if_neg someTotal, if_neg (Nat.not_lt_of_le few), if_neg (UInt16.not_le.mpr inside)]
  generalize asm.opened total.toNat = begun at opened isTotal ⊢
  obtain ⟨slot, isSlot⟩ : ∃ slot, begun.parts[idx.toNat]? = some slot := by
    have within : idx.toNat < begun.parts.length := by
      rw [opened.slots, isTotal]
      exact UInt16.lt_iff_toNat_lt.mp inside
    exact ⟨_, List.getElem?_eq_getElem within⟩
  obtain ⟨covered, isSum, isCount⟩ := counts_set isSlot names
  rw [← opened.bytes] at covered isSum
  rw [← opened.received] at isCount
  have isLong : (begun.parts.set idx.toNat (some names)).length = begun.total := by
    rw [List.length_set, opened.slots]
  have atMost := @List.countP_le_length _ Option.isSome (begun.parts.set idx.toNat (some names))
  have bounded : begun.total < 2 ^ 16 := isTotal ▸ total.toNat_lt
  have isReceived : (if slot.isNone then checkedAdd 16 begun.received 1 else some begun.received) =
      some (begun.received + if slot.isNone then 1 else 0) := by
    split
    next isNew =>
      rw [isCount, if_pos isNew, isLong] at atMost
      exact checkedAdd_of_lt (by omega)
    next => rfl
  dsimp only
  rw [isSlot, Option.bind_some, checkedSub_of_le covered, Option.bind_some, isReceived, Option.map_some]
  by_cases tooLarge : maxCommitBytes < begun.bytes - slotBytes slot + commitBytes names
  · rw [if_pos tooLarge]
    exact .inl ⟨⟨slot, isSlot, tooLarge⟩, _, rfl⟩
  · have room : ¬begun.Overfills idx names := by
      rintro ⟨other, isOther, alsoOver⟩
      obtain rfl := Option.some.inj (isSlot.symm.trans isOther)
      exact tooLarge alsoOver
    rw [if_neg tooLarge]
    rw [isCount, isLong] at atMost
    refine .inr ⟨room, ⟨begun.total, begun.parts.set idx.toNat (some names), begun.received + if slot.isNone then 1 else 0,
      begun.bytes - slotBytes slot + commitBytes names⟩, ⟨isLong, isCount.symm, isSum.symm, Nat.le_of_not_lt tooLarge⟩, isTotal,
      rfl, ?_⟩
    by_cases complete : (begun.received + if slot.isNone then 1 else 0) = begun.total
    · rw [if_pos complete]
      exact .inr ⟨complete, rfl⟩
    · rw [if_neg complete]
      exact .inl ⟨Nat.lt_of_le_of_ne atMost complete, rfl⟩

structure Chunk where
  idx : UInt16
  total : UInt16
  names : List String

def step (asm : CommitAssembler) (chunk : Chunk) : CommitAssembler :=
  ((asm.push chunk.idx chunk.total chunk.names).map Prod.fst).getD asm

/-- No counter overflows, the counters are what the slots hold, and where the chunk is refused
nothing has changed. -/
def Accounts (asm : CommitAssembler) (chunk : Chunk) : Prop :=
  ∃ next outcome, asm.push chunk.idx chunk.total chunk.names = some (next, outcome) ∧ next.Counted ∧
    ∀ e, outcome = .error e → next = asm

def BeginsTooLong (asm : CommitAssembler) (chunk : Chunk) : Prop :=
  Admissible chunk.idx chunk.total ∧ asm.total ≠ chunk.total.toNat ∧ maxCommitBytes < commitBytes chunk.names

instance (asm : CommitAssembler) (chunk : Chunk) : Decidable (asm.BeginsTooLong chunk) :=
  inferInstanceAs (Decidable (_ ∧ _ ∧ _))

theorem Tallied.filled {filled : CommitAssembler} (counted : filled.Counted) (few : filled.total ≤ maxCommitChunks)
    (unfinished : filled.received < filled.total) : filled.Tallied :=
  { counted with few, unfinished := fun _ => unfinished }

theorem tallied_step {asm : CommitAssembler} (chunk : Chunk) (tallied : asm.Tallied) : (asm.step chunk).Tallied := by
  by_cases admitted : Admissible chunk.idx chunk.total
  · rw [step]
    rcases push_admitted tallied admitted chunk.names with ⟨-, e, isPush⟩ |
      ⟨-, filled, counted, isTotal, -, ⟨unfinished, isPush⟩ | ⟨-, isPush⟩⟩
    · rw [isPush]
      exact tallied.opened admitted.2.1
    · rw [isPush]
      exact .filled counted (isTotal ▸ admitted.2.1) unfinished
    · rw [isPush]
      exact tallied_new
  · obtain ⟨e, isPush⟩ := push_refused asm admitted chunk.names
    rw [step, isPush]
    exact tallied

theorem accounts_iff {asm : CommitAssembler} (tallied : asm.Tallied) (chunk : Chunk) :
    asm.Accounts chunk ↔ ¬asm.BeginsTooLong chunk := by
  by_cases admitted : Admissible chunk.idx chunk.total
  · have opened := tallied.opened admitted.2.1
    rcases push_admitted tallied admitted chunk.names with ⟨⟨slot, isSlot, tooLarge⟩, e, isPush⟩ |
      ⟨room, filled, counted, isTotal, -, complete⟩
    · constructor
      · rintro ⟨next, outcome, isNext, -, unchanged⟩ ⟨-, another, -⟩
        obtain ⟨rfl, rfl⟩ := Prod.mk.inj (Option.some.inj (isPush.symm.trans isNext))
        exact another ((unchanged e rfl) ▸ total_opened asm chunk.total.toNat)
      · intro notTooLong
        refine ⟨_, _, isPush, opened.toCounted, fun _ _ => ?_⟩
        by_cases same : asm.total = chunk.total.toNat
        · rw [CommitAssembler.opened, if_neg (not_not.mpr same)]
        · rw [CommitAssembler.opened, if_pos same] at tooLarge isSlot
          have isNone : slot = none := List.eq_of_mem_replicate (List.mem_of_getElem? isSlot)
          rw [isNone] at tooLarge
          exact absurd ⟨admitted, same, by simpa [slotBytes] using tooLarge⟩ notTooLong
    · have holds : asm.Accounts chunk := by
        rcases complete with ⟨-, isPush⟩ | ⟨-, isPush⟩
        · exact ⟨_, _, isPush, counted, nofun⟩
        · exact ⟨_, _, isPush, tallied_new.toCounted, nofun⟩
      refine iff_of_true holds ?_
      rintro ⟨-, another, tooLong⟩
      apply room
      rw [CommitAssembler.opened, if_pos another]
      refine ⟨none, ?_, by simpa [slotBytes] using tooLong⟩
      exact List.getElem?_replicate_of_lt (UInt16.lt_iff_toNat_lt.mp admitted.2.2)
  · obtain ⟨e, isPush⟩ := push_refused asm admitted chunk.names
    exact iff_of_true ⟨_, _, isPush, tallied.toCounted, fun _ _ => rfl⟩ fun tooLong => admitted tooLong.1

theorem runMeets_accounts (chunks : List Chunk) :
    RunMeets step Accounts new chunks ↔ RunMeets step (fun asm chunk => ¬asm.BeginsTooLong chunk) new chunks :=
  runMeets_congr (fun _ chunk tallied => tallied_step chunk tallied) (fun _ chunk tallied => accounts_iff tallied chunk)
    tallied_new chunks

end CommitAssembler

def settled (asm : CommitAssembler) : List Frame → Option (List (List String))
  | [] => some []
  | f :: frames =>
    (onResumeCommit asm f).bind fun next => (settled next.1 frames).map fun later => next.2.toList ++ later

namespace CommitAssembler

def Held (asm : CommitAssembler) (i : Nat) : Prop :=
  ∃ names, asm.parts[i]? = some (some names)

/-- Nothing but chunks of the one list has been put in. -/
structure Round (chunks : List (List String)) (asm : CommitAssembler) : Prop extends Tallied asm where
  isTotal : asm.total = 0 ∨ asm.total = chunks.length
  parts : ∀ (i : Nat) names, asm.parts[i]? = some (some names) → chunks[i]? = some names

variable {chunks : List (List String)} {asm : CommitAssembler} {i : Nat} {part : List String}

theorem round_new (chunks : List (List String)) : Round chunks new :=
  { tallied_new with isTotal := .inl rfl, parts := nofun }

theorem Round.opened (round : Round chunks asm) :
    (∀ (j : Nat) names, (asm.opened chunks.length).parts[j]? = some (some names) ↔ asm.parts[j]? = some (some names)) ∧
      (asm.opened chunks.length).parts.length = chunks.length := by
  rw [CommitAssembler.opened]
  split
  next another =>
    have isIdle : asm.parts = [] := by
      rw [← List.length_eq_zero_iff, round.slots]
      exact round.isTotal.resolve_right another
    refine ⟨fun j names => iff_of_false (fun held => ?_) (fun held => ?_), List.length_replicate⟩
    · cases List.eq_of_mem_replicate (List.mem_of_getElem? held)
    · rw [isIdle] at held
      cases held
  next same => exact ⟨fun _ _ => Iff.rfl, round.slots.trans (not_not.mp same)⟩

/-- Slots that hold chunks of a list hold no more than the list. -/
theorem sum_slotBytes_le {parts : List (Option (List String))} (isLong : parts.length = chunks.length)
    (agree : ∀ (i : Nat) names, parts[i]? = some (some names) → chunks[i]? = some names) :
    (parts.map slotBytes).sum ≤ (chunks.map commitBytes).sum := by
  induction parts generalizing chunks with
  | nil => exact Nat.zero_le _
  | cons slot parts ih =>
    cases chunks with
    | nil => cases isLong
    | cons chunk chunks =>
      have later := ih (Nat.succ.inj isLong) fun i names held => agree (i + 1) names held
      rw [List.map_cons, List.map_cons, List.sum_cons, List.sum_cons]
      refine Nat.add_le_add ?_ later
      cases slot with
      | none => exact Nat.zero_le _
      | some names =>
        obtain rfl : chunk = names := Option.some.inj (agree 0 names rfl)
        exact Nat.le_refl _

theorem flatMap_parts {parts : List (Option (List String))} (isLong : parts.length = chunks.length)
    (agree : ∀ (i : Nat) names, parts[i]? = some (some names) → chunks[i]? = some names) (all : ∀ slot ∈ parts, slot.isSome) :
    (parts.flatMap fun part => part.getD []) = chunks.flatten := by
  induction parts generalizing chunks with
  | nil =>
    obtain rfl : chunks = [] := List.length_eq_zero_iff.mp isLong.symm
    rfl
  | cons slot parts ih =>
    cases chunks with
    | nil => cases isLong
    | cons chunk chunks =>
      obtain ⟨isSome, later⟩ := List.forall_mem_cons.mp all
      obtain ⟨names, rfl⟩ := Option.isSome_iff_exists.mp isSome
      obtain rfl : chunk = names := Option.some.inj (agree 0 names rfl)
      rw [List.flatMap_cons, List.flatten_cons,
        ih (Nat.succ.inj isLong) (fun i names held => agree (i + 1) names held) later]
      rfl

theorem Counted.all_held_iff (counted : asm.Counted) :
    (∀ j < asm.total, asm.Held j) ↔ asm.received = asm.total := by
  rw [counted.received, ← counted.slots, List.countP_eq_length]
  constructor
  · intro held slot member
    obtain ⟨j, inside, rfl⟩ := List.mem_iff_getElem.mp member
    obtain ⟨names, isSlot⟩ := held j inside
    rw [List.getElem?_eq_getElem inside] at isSlot
    rw [Option.some.inj isSlot]
    rfl
  · intro all j inside
    obtain ⟨names, isSlot⟩ := Option.isSome_iff_exists.mp (all _ (List.getElem_mem inside))
    exact ⟨names, by rw [List.getElem?_eq_getElem inside, isSlot]⟩

theorem Round.exists_missing (round : Round chunks asm) (someChunk : chunks ≠ []) :
    ∃ j < chunks.length, ¬asm.Held j := by
  rcases round.isTotal with idle | isTotal
  · refine ⟨0, List.length_pos_of_ne_nil someChunk, ?_⟩
    rintro ⟨names, held⟩
    rw [List.length_eq_zero_iff.mp (round.slots.trans idle)] at held
    cases held
  · have started : asm.total ≠ 0 := by
      rw [isTotal]
      exact fun isEmpty => someChunk (List.length_eq_zero_iff.mp isEmpty)
    by_contra none
    push Not at none
    rw [← isTotal, round.toCounted.all_held_iff] at none
    exact Nat.ne_of_lt (round.unfinished started) none

/-- A chunk of the list is put in; the list is there with the last that was missing. -/
theorem Round.push (round : Round chunks asm) (few : chunks.length ≤ maxCommitChunks)
    (small : (chunks.map commitBytes).sum ≤ maxCommitBytes) (isPart : chunks[i]? = some part) :
    (∃ next, asm.push (UInt16.ofNat i) (UInt16.ofNat chunks.length) part = some (next, .ok none) ∧ Round chunks next ∧
        ∀ j, next.Held j ↔ asm.Held j ∨ j = i) ∨
      asm.push (UInt16.ofNat i) (UInt16.ofNat chunks.length) part = some (new, .ok (some chunks.flatten)) ∧
        ∀ j < chunks.length, asm.Held j ∨ j = i := by
  obtain ⟨inside, -⟩ := List.getElem?_eq_some_iff.mp isPart
  have someChunk : chunks ≠ [] := List.ne_nil_of_length_pos (Nat.zero_lt_of_lt inside)
  have most : chunks.length < 2 ^ 16 := few.trans_lt (by decide)
  have isTotal : (UInt16.ofNat chunks.length).toNat = chunks.length := UInt16.toNat_ofNat_of_lt' most
  have isIdx : (UInt16.ofNat i).toNat = i := UInt16.toNat_ofNat_of_lt' (inside.trans most)
  have admitted : Admissible (UInt16.ofNat i) (UInt16.ofNat chunks.length) := by
    refine ⟨fun isZero => ?_, by rw [isTotal]; exact few, UInt16.lt_iff_toNat_lt.mpr (by rw [isTotal, isIdx]; exact inside)⟩
    have none := congrArg UInt16.toNat isZero
    rw [isTotal, UInt16.toNat_zero] at none
    exact someChunk (List.length_eq_zero_iff.mp none)
  obtain ⟨sameHeld, isLong⟩ := round.opened
  have agree : ∀ (j : Nat) names, ((asm.opened chunks.length).parts.set i (some part))[j]? = some (some names) →
      chunks[j]? = some names := by
    intro j names held
    rw [List.getElem?_set] at held
    split at held
    next same =>
      rw [if_pos (by rw [isLong]; exact inside)] at held
      obtain rfl := Option.some.inj (Option.some.inj held)
      exact same ▸ isPart
    next => exact round.parts j names ((sameHeld j names).mp held)
  have heldSet : ∀ next : CommitAssembler, next.parts = (asm.opened chunks.length).parts.set i (some part) →
      ∀ j, next.Held j ↔ asm.Held j ∨ j = i := by
    intro next isParts j
    rw [Held, isParts, List.getElem?_set]
    by_cases same : i = j
    · rw [if_pos same, if_pos (by rw [isLong]; exact inside)]
      exact iff_of_true ⟨part, rfl⟩ (.inr same.symm)
    · rw [if_neg same, or_iff_left (Ne.symm same)]
      exact exists_congr (sameHeld j)
  have setLong : ((asm.opened chunks.length).parts.set i (some part)).length = chunks.length := by
    rw [List.length_set, isLong]
  rcases push_admitted round.toTallied admitted part with ⟨⟨slot, isSlot, tooLarge⟩, -⟩ |
    ⟨-, filled, counted, filledTotal, isParts, ⟨unfinished, isPush⟩ | ⟨complete, isPush⟩⟩
  · rw [isTotal, isIdx] at isSlot
    rw [isTotal] at tooLarge
    have sum := (counts_set isSlot part).2.1
    rw [← (round.toTallied.opened few).bytes] at sum
    rw [← sum] at tooLarge
    exact absurd ((sum_slotBytes_le setLong agree).trans small) (Nat.not_le_of_lt tooLarge)
  · rw [isTotal, isIdx] at isParts
    rw [isTotal] at filledTotal
    have tallied : filled.Tallied := .filled counted (filledTotal ▸ few) unfinished
    exact .inl ⟨filled, isPush, { tallied with isTotal := .inr filledTotal, parts := isParts ▸ agree },
      heldSet filled isParts⟩
  · rw [isTotal, isIdx] at isParts
    rw [isTotal] at filledTotal
    have held := counted.all_held_iff.mpr complete
    have all : ∀ slot ∈ filled.parts, slot.isSome := by
      rw [← List.countP_eq_length, ← counted.received, counted.slots]
      exact complete
    rw [isParts] at all
    rw [isParts, flatMap_parts setLong agree all] at isPush
    exact .inr ⟨isPush, fun j below => (heldSet filled isParts j).mp (held j (filledTotal ▸ below))⟩

end CommitAssembler

theorem commitChunkFrame_number {total i j : Nat} {part other : List String} (isShort : i < 2 ^ 16) (alsoShort : j < 2 ^ 16)
    (same : commitChunkFrame total i part = commitChunkFrame total j other) : i = j := by
  have info := congrArg (fun f => f.tlvs.commitChunkInfo) same
  rw [commitChunkInfo_commitChunkFrame, commitChunkInfo_commitChunkFrame] at info
  have number := congrArg UInt16.toNat (Prod.mk.inj (Option.some.inj info)).1
  rwa [UInt16.toNat_ofNat_of_lt' isShort, UInt16.toNat_ofNat_of_lt' alsoShort] at number

theorem onResumeCommit_commitChunkFrame {names part : List String} (good : CommitNames names) (isPart : part ⊆ names)
    (asm : CommitAssembler) (total i : Nat) : onResumeCommit asm (commitChunkFrame total i part) =
      (asm.push (UInt16.ofNat i) (UInt16.ofNat total) part).map fun pushed =>
        (pushed.1, match pushed.2 with
          | .ok done => done
          | .error _ => none) := by
  rw [onResumeCommit, commitChunkInfo_commitChunkFrame, listedNames_commitChunkFrame good isPart]

/-- Fed with chunks of a list in whatever order and however often, the server settles that list
and no other: not before it has had every chunk, and then at least once. -/
theorem settled_chunks {names : List String} (good : CommitNames names) {chunks : List (List String)}
    (few : chunks.length ≤ maxCommitChunks) (small : (chunks.map commitBytes).sum ≤ maxCommitBytes) (someChunk : chunks ≠ [])
    (listed : ∀ part ∈ chunks, part ⊆ names) {fed : List Frame} (isChunk : ∀ f ∈ fed, ∃ (i : Nat) (part : List String),
      chunks[i]? = some part ∧ f = commitChunkFrame chunks.length i part)
    {asm : CommitAssembler} (round : asm.Round chunks) :
    ∃ count, settled asm fed = some (List.replicate count chunks.flatten) ∧
      ((∃ j < chunks.length, ¬asm.Held j ∧ ∀ part, commitChunkFrame chunks.length j part ∉ fed) → count = 0) ∧
      ((∀ j < chunks.length, asm.Held j ∨ ∃ part, commitChunkFrame chunks.length j part ∈ fed) → 0 < count) := by
  induction fed generalizing asm with
  | nil =>
    refine ⟨0, rfl, fun _ => rfl, fun all => ?_⟩
    obtain ⟨j, below, missing⟩ := round.exists_missing someChunk
    rcases all j below with held | ⟨part, member⟩
    · exact absurd held missing
    · exact absurd member List.not_mem_nil
  | cons f fed ih =>
    obtain ⟨⟨i, part, isPart, rfl⟩, later⟩ := List.forall_mem_cons.mp isChunk
    have isListed := listed part (List.mem_of_getElem? isPart)
    have most : chunks.length < 2 ^ 16 := few.trans_lt (by decide)
    have numbered : ∀ j < chunks.length, ∀ other, commitChunkFrame chunks.length j other = commitChunkFrame chunks.length i part →
        j = i := fun j below other same =>
      commitChunkFrame_number (below.trans most) ((List.getElem?_eq_some_iff.mp isPart).1.trans most) same
    rw [settled, onResumeCommit_commitChunkFrame good isListed]
    rcases round.push few small isPart with ⟨next, isPush, isRound, held⟩ | ⟨isPush, held⟩
    · obtain ⟨count, isSettled, early, atEnd⟩ := ih later isRound
      rw [isPush, Option.map_some, Option.bind_some, isSettled, Option.map_some]
      refine ⟨count, rfl, ?_, fun all => atEnd fun j below => ?_⟩
      · rintro ⟨j, below, missing, unfed⟩
        refine early ⟨j, below, fun heldNext => ?_, fun other member => unfed other (List.mem_cons_of_mem _ member)⟩
        rcases (held j).mp heldNext with before | rfl
        · exact missing before
        · exact unfed part List.mem_cons_self
      · rw [held j]
        rcases all j below with before | ⟨other, member⟩
        · exact .inl (.inl before)
        · rcases List.mem_cons.mp member with same | inLater
          · exact .inl (.inr (numbered j below other same))
          · exact .inr ⟨other, inLater⟩
    · obtain ⟨count, isSettled, -, -⟩ := ih later (CommitAssembler.round_new chunks)
      rw [isPush, Option.map_some, Option.bind_some, isSettled, Option.map_some]
      refine ⟨count + 1, by rw [List.replicate_succ]; rfl, ?_, fun _ => Nat.zero_lt_succ count⟩
      rintro ⟨j, below, missing, unfed⟩
      rcases held j below with before | rfl
      · exact absurd before missing
      · exact absurd List.mem_cons_self (unfed part)

/-- The list arrives: in so many frames, each short enough and read as it was sent; fed with
them in any order and however often the server settles nothing before it has had all, and
then the list. -/
structure Delivered (names : List String) : Prop where
  few : (encodeResumeCommit names).length ≤ maxCommitChunks
  sent : ∀ f ∈ encodeResumeCommit names, f.encode.length ≤ maxFrame ∧ Frame.decode f.encode = some (.ok (.known f))
  collected : ∀ fed ⊆ encodeResumeCommit names,
    ((∃ f ∈ encodeResumeCommit names, f ∉ fed) → settled .new fed = some []) ∧
      (encodeResumeCommit names ⊆ fed → ∃ count, settled .new fed = some (List.replicate (count + 1) names))

/-- The names can be cut, in their order, into no more parts than there may be chunks, each of one name
or within the budget of a chunk. -/
def Packable (names : List String) : Prop :=
  ∃ parts : List (List String), parts.flatten = names ∧ parts.length ≤ maxCommitChunks ∧
    ∀ part ∈ parts, Fits String.utf8ByteSize commitChunkBudget part

/-- Every name has room in a frame of its own, with the number of the chunk if it is not the only one. -/
def Short (names : List String) : Prop :=
  ∀ name ∈ names, name.utf8ByteSize ≤ maxFrame - if names.length = 1 then 10 else 26

theorem size_le_load {part : List String} {name : String} (member : name ∈ part) :
    name.utf8ByteSize ≤ load String.utf8ByteSize part :=
  (List.single_le_sum (fun _ _ => Nat.zero_le _) _ (List.mem_map_of_mem member)).trans (Nat.le_add_right _ _)

theorem load_of_fits {part : List String} {bound : Nat} (fits : Fits String.utf8ByteSize commitChunkBudget part)
    (covers : commitChunkBudget ≤ bound) (short : part.length ≤ 1 → ∀ name ∈ part, name.utf8ByteSize ≤ bound) :
    load String.utf8ByteSize part ≤ bound := by
  rcases fits with single | small
  · match part with
    | [] => exact Nat.zero_le _
    | [name] => exact short single name List.mem_cons_self
  · exact small.trans covers

theorem commitBytes_of_mem {names part : List String} (member : part ∈ splitCommitNames names commitChunkBudget) :
    commitBytes part ≤ commitBytes names := by
  have whole := commitBytes_flatten (splitCommitNames names commitChunkBudget)
  rw [flatten_splitCommitNames] at whole
  rw [whole]
  exact List.single_le_sum (fun _ _ => Nat.zero_le _) _ (List.mem_map_of_mem member)

theorem load_lt_of_commitBytes {part : List String} (small : commitBytes part ≤ maxCommitBytes) :
    load String.utf8ByteSize part < 2 ^ 32 :=
  (load_le_commitBytes part).trans_lt (small.trans_lt (by decide))

/-- As many chunks as there can be have room for the names where they have room for a cut of them. -/
theorem packable_iff (names : List String) :
    Packable names ↔ (splitCommitNames names commitChunkBudget).length ≤ maxCommitChunks := by
  constructor
  · rintro ⟨parts, rfl, few, fit⟩
    rw [splitCommitNames_eq]
    exact (length_packFrom_nil_le fit).trans few
  · intro few
    exact ⟨_, flatten_splitCommitNames names, few, fun part member => (fits_of_mem_splitCommitNames member).2⟩

section OneFrame

variable {names : List String} (single : (splitCommitNames names commitChunkBudget).length ≤ 1)

include single

theorem encodeResumeCommit_of_single : encodeResumeCommit names = [commitFrame names] := by
  have isFlat := flatten_splitCommitNames names
  rw [encodeResumeCommit]
  cases chunks : splitCommitNames names commitChunkBudget with
  | nil =>
    rw [chunks] at isFlat
    rw [← isFlat]
    rfl
  | cons part more =>
    rw [chunks] at isFlat single
    obtain rfl : more = [] := List.length_eq_zero_iff.mp (Nat.le_zero.mp (Nat.le_of_succ_le_succ single))
    rw [List.flatten_singleton] at isFlat
    rw [isFlat]

theorem fits_of_single : Fits String.utf8ByteSize commitChunkBudget names := by
  have isFlat := flatten_splitCommitNames names
  cases chunks : splitCommitNames names commitChunkBudget with
  | nil =>
    rw [chunks] at isFlat
    rw [← isFlat]
    exact .inl (Nat.zero_le _)
  | cons part more =>
    have fits := (fits_of_mem_splitCommitNames (chunks ▸ List.mem_cons_self : part ∈ _)).2
    rw [chunks] at isFlat single
    obtain rfl : more = [] := List.length_eq_zero_iff.mp (Nat.le_zero.mp (Nat.le_of_succ_le_succ single))
    rw [List.flatten_singleton] at isFlat
    rwa [← isFlat]

theorem short_iff_of_single : 10 + load String.utf8ByteSize names ≤ maxFrame ↔ Short names := by
  have fits := fits_of_single single
  constructor
  · intro room name member
    have size := size_le_load member
    split
    · omega
    next several =>
      have positive := List.length_pos_of_mem member
      have small := load_of_fits fits (Nat.le_refl _) fun one => by omega
      rw [commitChunkBudget] at small
      omega
  · intro short
    have small : load String.utf8ByteSize names ≤ maxFrame - 10 := by
      refine load_of_fits fits (by decide) fun one name member => ?_
      have positive := List.length_pos_of_mem member
      have bound := short name member
      rwa [if_pos (by omega)] at bound
    rw [maxFrame] at small ⊢
    omega

omit single in
theorem settled_of_single (good : CommitNames names) (asm : CommitAssembler) {fed : List Frame}
    (isFrame : ∀ f ∈ fed, f = commitFrame names) : settled asm fed = some (List.replicate fed.length names) := by
  induction fed with
  | nil => rfl
  | cons f fed ih =>
    obtain ⟨rfl, later⟩ := List.forall_mem_cons.mp isFrame
    have isList : onResumeCommit asm (commitFrame names) = some (asm, some names) := by
      rw [onResumeCommit, commitChunkInfo_commitFrame]
      dsimp only
      rw [listedNames_commitFrame good (List.Subset.refl names)]
    rw [settled, isList, Option.bind_some, ih later, List.length_cons, List.replicate_succ]
    rfl

theorem delivered_of_single (good : CommitNames names) : Delivered names ↔ Short names := by
  have isFrames := encodeResumeCommit_of_single single
  have below := load_lt_of_commitBytes good.small
  rw [← short_iff_of_single single]
  constructor
  · intro delivered
    have room := (delivered.sent (commitFrame names) (by rw [isFrames]; exact List.mem_cons_self)).1
    rwa [length_encode_commitFrame below] at room
  · intro room
    refine ⟨by rw [isFrames, List.length_singleton]; decide, ?_, ?_⟩
    · intro f member
      rw [isFrames] at member
      obtain rfl := List.mem_singleton.mp member
      exact ⟨by rwa [length_encode_commitFrame below], decode_encode_of_complete (complete_commitFrame below)⟩
    · intro fed inFrames
      rw [isFrames] at inFrames ⊢
      have isFrame : ∀ f ∈ fed, f = commitFrame names := fun f member => List.mem_singleton.mp (inFrames member)
      rw [settled_of_single good .new isFrame]
      constructor
      · rintro ⟨f, isThis, unfed⟩
        obtain rfl := List.mem_singleton.mp isThis
        have isEmpty : fed = [] := List.eq_nil_iff_forall_not_mem.mpr fun f member => unfed (isFrame f member ▸ member)
        rw [isEmpty]
        rfl
      · intro all
        have positive := List.length_pos_of_mem (all List.mem_cons_self)
        exact ⟨fed.length - 1, by rw [Nat.sub_add_cancel positive]⟩

end OneFrame

section Chunks

variable {names : List String} (several : 2 ≤ (splitCommitNames names commitChunkBudget).length)

include several

theorem encodeResumeCommit_of_several : encodeResumeCommit names =
    (splitCommitNames names commitChunkBudget).mapIdx fun i part =>
      commitChunkFrame (splitCommitNames names commitChunkBudget).length i part := by
  rw [encodeResumeCommit]
  split
  next isEmpty =>
    rw [isEmpty] at several
    exact absurd several (by decide)
  next part isSingle =>
    rw [isSingle, List.length_singleton] at several
    exact absurd several (by decide)
  next => rfl

theorem mem_encodeResumeCommit {f : Frame} : f ∈ encodeResumeCommit names ↔
    ∃ (i : Nat) (part : List String), (splitCommitNames names commitChunkBudget)[i]? = some part ∧
      f = commitChunkFrame (splitCommitNames names commitChunkBudget).length i part := by
  rw [encodeResumeCommit_of_several several, List.mem_mapIdx]
  constructor
  · rintro ⟨i, inside, rfl⟩
    exact ⟨i, _, List.getElem?_eq_getElem inside, rfl⟩
  · rintro ⟨i, part, isPart, rfl⟩
    obtain ⟨inside, rfl⟩ := List.getElem?_eq_some_iff.mp isPart
    exact ⟨i, inside, rfl⟩

theorem two_le_length_names : 2 ≤ names.length := by
  have isFlat := congrArg List.length (flatten_splitCommitNames names)
  rw [List.length_flatten] at isFlat
  have atLeast := List.length_le_sum_of_one_le ((splitCommitNames names commitChunkBudget).map List.length) fun count member => by
    obtain ⟨part, isPart, rfl⟩ := List.mem_map.mp member
    exact List.length_pos_of_ne_nil (fits_of_mem_splitCommitNames isPart).1
  rw [List.length_map] at atLeast
  omega

theorem short_iff_of_several :
    (∀ part ∈ splitCommitNames names commitChunkBudget, 26 + load String.utf8ByteSize part ≤ maxFrame) ↔ Short names := by
  have isLong := two_le_length_names several
  constructor
  · intro room name member
    rw [← flatten_splitCommitNames names] at member
    obtain ⟨part, isPart, inPart⟩ := List.mem_flatten.mp member
    have bound := room part isPart
    have size := size_le_load inPart
    rw [if_neg (by omega)]
    omega
  · intro short part isPart
    have small : load String.utf8ByteSize part ≤ maxFrame - 26 := by
      refine load_of_fits (fits_of_mem_splitCommitNames isPart).2 (by decide) fun _ name member => ?_
      have bound := short name (subset_of_mem_splitCommitNames isPart member)
      rwa [if_neg (by omega)] at bound
    rw [maxFrame] at small ⊢
    omega

theorem delivered_of_several (good : CommitNames names) : Delivered names ↔ Packable names ∧ Short names := by
  have isFrame := fun f => @mem_encodeResumeCommit _ several f
  have isCount : (encodeResumeCommit names).length = (splitCommitNames names commitChunkBudget).length := by
    rw [encodeResumeCommit_of_several several, List.length_mapIdx]
  have below : ∀ part ∈ splitCommitNames names commitChunkBudget, load String.utf8ByteSize part < 2 ^ 32 :=
    fun part member => load_lt_of_commitBytes ((commitBytes_of_mem member).trans good.small)
  have small : ((splitCommitNames names commitChunkBudget).map commitBytes).sum ≤ maxCommitBytes := by
    rw [← commitBytes_flatten, flatten_splitCommitNames]
    exact good.small
  have someChunk : splitCommitNames names commitChunkBudget ≠ [] := List.ne_nil_of_length_pos (by omega)
  rw [packable_iff, ← short_iff_of_several several]
  constructor
  · intro delivered
    refine ⟨isCount ▸ delivered.few, fun part isPart => ?_⟩
    obtain ⟨i, inside, rfl⟩ := List.mem_iff_getElem.mp isPart
    have room := (delivered.sent _ ((isFrame _).mpr ⟨i, _, List.getElem?_eq_getElem inside, rfl⟩)).1
    rwa [length_encode_commitChunkFrame (below _ isPart)] at room
  · rintro ⟨few, room⟩
    refine ⟨isCount ▸ few, ?_, ?_⟩
    · intro f member
      obtain ⟨i, part, isPart, rfl⟩ := (isFrame f).mp member
      have inChunks := List.mem_of_getElem? isPart
      rw [length_encode_commitChunkFrame (below part inChunks)]
      exact ⟨room part inChunks, decode_encode_of_complete (complete_commitChunkFrame (below part inChunks) _ i)⟩
    · intro fed inFrames
      obtain ⟨count, isSettled, early, atEnd⟩ := settled_chunks good few small someChunk
        (fun part => subset_of_mem_splitCommitNames) (fun f member => (isFrame f).mp (inFrames member))
        (CommitAssembler.round_new _)
      rw [flatten_splitCommitNames] at isSettled
      rw [isSettled]
      constructor
      · rintro ⟨f, member, unfed⟩
        obtain ⟨i, part, isPart, rfl⟩ := (isFrame f).mp member
        obtain ⟨inside, -⟩ := List.getElem?_eq_some_iff.mp isPart
        have none : count = 0 := by
          refine early ⟨i, inside, nofun, fun other isFed => unfed ?_⟩
          obtain ⟨j, found, isFound, same⟩ := (isFrame _).mp (inFrames isFed)
          have most := few.trans_lt (show maxCommitChunks < 2 ^ 16 by decide)
          obtain rfl := commitChunkFrame_number (inside.trans most)
            ((List.getElem?_eq_some_iff.mp isFound).1.trans most) same
          obtain rfl := Option.some.inj (isPart.symm.trans isFound)
          exact same ▸ isFed
        rw [none]
        rfl
      · intro all
        have positive : 0 < count := atEnd fun j inside =>
          .inr ⟨_, all ((isFrame _).mpr ⟨j, _, List.getElem?_eq_getElem inside, rfl⟩)⟩
        exact ⟨count - 1, by rw [Nat.sub_add_cancel positive]⟩

end Chunks

/-- The list arrives exactly where it can be cut into few enough chunks and every name has room in a frame. -/
theorem delivered_iff {names : List String} (good : CommitNames names) :
    Delivered names ↔ Packable names ∧ Short names := by
  by_cases several : 2 ≤ (splitCommitNames names commitChunkBudget).length
  · exact delivered_of_several several good
  · have single : (splitCommitNames names commitChunkBudget).length ≤ 1 := by omega
    rw [delivered_of_single single good, packable_iff]
    exact (and_iff_right (single.trans (by decide))).symm

/-- Lists arrive exactly where they can be cut into few enough chunks and every name has room in a
frame, and whatever chunks come, the assembler's accounts are right and a refused chunk changes
nothing, exactly where none that is too long for itself begins a round. -/
theorem resumeCommit (names : List String) (chunks : List CommitAssembler.Chunk) :
    (CommitNames names → (Delivered names ↔ Packable names ∧ Short names)) ∧
      (RunMeets CommitAssembler.step CommitAssembler.Accounts .new chunks ↔
        RunMeets CommitAssembler.step (fun asm chunk => ¬asm.BeginsTooLong chunk) .new chunks) :=
  ⟨delivered_iff, CommitAssembler.runMeets_accounts chunks⟩

theorem commitNames_office : CommitNames ["web", "ssh"] where
  distinct := by decide
  someName := by decide
  oneLine := by decide
  unblanked := by decide
  small := by decide

theorem resumeCommit_office : CommitNames ["web", "ssh"] ∧ Delivered ["web", "ssh"] := by
  refine ⟨commitNames_office, ((resumeCommit _ []).1 commitNames_office).mpr ⟨⟨[["web", "ssh"]], rfl, by decide, ?_⟩, ?_⟩⟩
  · intro part member
    obtain rfl := List.mem_singleton.mp member
    exact .inr (by decide)
  · unfold Short
    decide

theorem not_packable_of_long {names : List String} (long : ∀ name ∈ names, commitChunkBudget ≤ 2 * name.utf8ByteSize)
    (many : maxCommitChunks < names.length) : ¬Packable names := by
  rintro ⟨parts, rfl, few, fit⟩
  have single : ∀ part ∈ parts, part.length ≤ 1 := by
    intro part isPart
    rcases fit part isPart with single | small
    · exact single
    · match part with
      | [] => exact Nat.zero_le 1
      | [name] => exact Nat.le_refl 1
      | first :: second :: rest =>
        have one := long first (List.mem_flatten.mpr ⟨_, isPart, List.mem_cons_self⟩)
        have other := long second (List.mem_flatten.mpr ⟨_, isPart, List.mem_cons_of_mem _ List.mem_cons_self⟩)
        rw [load, List.map_cons, List.map_cons, List.sum_cons, List.sum_cons, List.length_cons, List.length_cons] at small
        omega
  have atMost : (parts.map List.length).sum ≤ (parts.map List.length).length * 1 :=
    List.sum_le_card_nsmul _ 1 fun count member => by
      obtain ⟨part, isPart, rfl⟩ := List.mem_map.mp member
      exact single part isPart
  rw [← List.length_flatten, List.length_map, Nat.mul_one] at atMost
  exact Nat.not_lt_of_le (atMost.trans few) many

def letters (count : Nat) : String :=
  String.ofList (List.replicate count 'a')

theorem utf8ByteSize_letters (count : Nat) : (letters count).utf8ByteSize = count := by
  have isSize : (bytesOf (letters count)).length = (letters count).utf8ByteSize := by
    rw [bytesOf, Array.length_toList]
    rfl
  rw [← isSize, letters, bytesOf_ofList fun c member => List.eq_of_mem_replicate member ▸ by decide, List.length_map,
    List.length_replicate]

theorem toList_letters (count : Nat) : (letters count).toList = List.replicate count 'a' :=
  String.toList_ofList

theorem trim_letters (count : Nat) : trim (letters count) = letters count := by
  have front : (List.replicate count 'a').dropWhile isWhitespace = List.replicate count 'a' :=
    List.dropWhile_eq_self_iff.mpr fun _ => by
      rw [List.getElem_replicate]
      decide
  have back : (List.replicate count 'a').rdropWhile isWhitespace = List.replicate count 'a' :=
    List.rdropWhile_eq_self_iff.mpr fun _ => by
      rw [List.getLast_replicate]
      decide
  rw [trim, toList_letters, trimmed, front, back, letters]

def crowdedNames : List String :=
  (List.range 1031).map fun i => letters (4076 + i)

theorem exists_of_mem_crowdedNames {name : String} (member : name ∈ crowdedNames) :
    ∃ count, 4076 ≤ count ∧ count < 5107 ∧ name = letters count := by
  obtain ⟨i, inRange, rfl⟩ := List.mem_map.mp member
  have below := List.mem_range.mp inRange
  exact ⟨4076 + i, by omega, by omega, rfl⟩

theorem length_crowdedNames : crowdedNames.length = 1031 := by
  rw [crowdedNames, List.length_map, List.length_range]

theorem commitNames_crowdedNames : CommitNames crowdedNames where
  distinct := by
    refine List.Nodup.map (fun i j same => ?_) List.nodup_range
    have sizes := congrArg String.utf8ByteSize same
    rw [utf8ByteSize_letters, utf8ByteSize_letters] at sizes
    omega
  someName := by
    intro name member
    obtain ⟨count, atLeast, -, rfl⟩ := exists_of_mem_crowdedNames member
    intro isEmpty
    have size := congrArg String.utf8ByteSize isEmpty
    rw [utf8ByteSize_letters, String.utf8ByteSize_empty] at size
    omega
  oneLine := by
    intro name member inName
    obtain ⟨count, -, -, rfl⟩ := exists_of_mem_crowdedNames member
    rw [toList_letters] at inName
    exact absurd (List.eq_of_mem_replicate inName) (by decide)
  unblanked := by
    intro name member
    obtain ⟨count, -, -, rfl⟩ := exists_of_mem_crowdedNames member
    exact trim_letters count
  small := by
    have atMost : commitBytes crowdedNames ≤ (crowdedNames.map fun n => n.utf8ByteSize + 1).length * 5107 :=
      List.sum_le_card_nsmul _ 5107 fun size member => by
        obtain ⟨name, isName, rfl⟩ := List.mem_map.mp member
        obtain ⟨count, -, below, rfl⟩ := exists_of_mem_crowdedNames isName
        rw [utf8ByteSize_letters]
        omega
    rw [List.length_map, length_crowdedNames] at atMost
    exact atMost.trans (by decide)

theorem short_crowdedNames : Short crowdedNames := by
  intro name member
  obtain ⟨count, -, below, rfl⟩ := exists_of_mem_crowdedNames member
  rw [utf8ByteSize_letters, length_crowdedNames, if_neg (by decide), maxFrame]
  omega

/-- One name too many for the number of chunks, though not for the bytes; and a chunk that is
refused but ends the round before it. -/
theorem not_delivered_crowdedNames :
    CommitNames crowdedNames ∧ Short crowdedNames ∧ ¬Delivered crowdedNames ∧
      ¬RunMeets CommitAssembler.step CommitAssembler.Accounts .new [⟨0, 2, ["web"]⟩, ⟨0, 3, [letters maxCommitBytes]⟩] := by
  refine ⟨commitNames_crowdedNames, short_crowdedNames, ?_, ?_⟩
  · rw [delivered_iff commitNames_crowdedNames]
    refine fun both => not_packable_of_long (fun name member => ?_) ?_ both.1
    · obtain ⟨count, atLeast, -, rfl⟩ := exists_of_mem_crowdedNames member
      rw [utf8ByteSize_letters]
      exact le_trans (by decide) (Nat.mul_le_mul_left 2 atLeast)
    · rw [length_crowdedNames]
      decide
  · rw [CommitAssembler.runMeets_accounts]
    rintro ⟨-, notTooLong, -⟩
    refine notTooLong ⟨by decide, by decide, ?_⟩
    rw [commitBytes, List.map_singleton, List.sum_singleton, utf8ByteSize_letters]
    exact Nat.lt_succ_self _

end Nfrp.Nlink
