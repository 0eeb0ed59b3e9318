import Nfrp.Lib.Runs
import Nfrp.Server.HttpIo

/-!
# A chunked body as it arrives

The reader of a chunked body keeps what it has taken and what it has read ahead, and asks for more
where the next line, the data of a chunk or the two bytes behind it are not there.  The bytes come
in reads of any length.
-/

namespace Nfrp.HttpIo

open Lib

inductive Phase where
  | size
  | data (n : Nat)
  | ending
  | trailer
  | done
  | failed (text : String)
  deriving DecidableEq

/-- `buf` has been read ahead, and `reads` are to come. -/
structure ChunkReader where
  out : List UInt8 := []
  buf : List UInt8
  reads : List (List UInt8)
  phase : Phase := .size
  deriving DecidableEq

namespace ChunkReader

def fail (text : String) (s : ChunkReader) : ChunkReader := { s with phase := .failed text }

def fill (text : String) (s : ChunkReader) : ChunkReader :=
  match s.reads with
  | [] => s.fail text
  | [] :: _ => s.fail text
  | piece :: reads => { s with buf := s.buf ++ piece, reads }

def withN (n : Nat) (next : List UInt8 → ChunkReader → ChunkReader) (s : ChunkReader) : ChunkReader :=
  if maxBody < n then s.fail s!"请求体过大：{n} 字节"
  else if s.buf.length < n then s.fill s!"连接在读取 {n} 字节时提前结束（已有 {s.buf.length}）"
  else next (s.buf.take n) { s with buf := s.buf.drop n }

def withLine (next : List Char → ChunkReader → ChunkReader) (s : ChunkReader) : ChunkReader :=
  match findSubslice crlf s.buf with
  | some idx => next (lossyTextOf (s.buf.take idx)) { s with buf := s.buf.drop (idx + 2) }
  | none => if maxHead < s.buf.length then s.fail "HTTP 行超长" else s.fill "连接在读取行时结束"

def afterSize (line : List Char) (s : ChunkReader) : ChunkReader :=
  match chunkLength line with
  | none => s.fail ("chunk 长度非法：" ++ (String.ofList (trimmed (line.takeWhile (· ≠ ';')))).quote)
  | some size =>
    let out := s.out ++ encoded line ++ crlf
    if size = 0 then { s with out, phase := .trailer }
    else if maxBody < out.length + size then { s with out, phase := .failed s!"chunked 报文超过 {maxBody} 字节" }
    else { s with out, phase := .data size }

def afterTrailer (line : List Char) (s : ChunkReader) : ChunkReader :=
  { s with out := s.out ++ encoded line ++ crlf, phase := if line = [] then .done else .trailer }

/-- A line, the data of a chunk or what is behind it, or a read. -/
def step (s : ChunkReader) : ChunkReader :=
  match s.phase with
  | .size => s.withLine afterSize
  | .data n => s.withN n fun data s => { s with out := s.out ++ data, phase := .ending }
  | .ending => s.withN 2 fun ending s => { s with out := s.out ++ ending, phase := .size }
  | .trailer => s.withLine afterTrailer
  | .done => s
  | .failed _ => s

def rest (s : ChunkReader) : List UInt8 := s.buf ++ s.reads.flatten

end ChunkReader

/-- What was consumed, and the body that was made of it.  The data of a chunk and the two bytes
behind it may be anything, and a line is a text from then on. -/
inductive Walk : List UInt8 → List UInt8 → Phase → Prop
  | start : Walk [] [] .size
  | size {c out line : List UInt8} {n : Nat} (before : Walk c out .size) (uncut : Uncut line)
      (isSize : chunkLength (lossyTextOf line) = some n) (some : n ≠ 0)
      (fits : (out ++ encoded (lossyTextOf line) ++ crlf).length + n ≤ maxBody) :
      Walk (c ++ (line ++ crlf)) (out ++ encoded (lossyTextOf line) ++ crlf) (.data n)
  | data {c out data : List UInt8} {n : Nat} (before : Walk c out (.data n)) (isData : data.length = n) :
      Walk (c ++ data) (out ++ data) .ending
  | ending {c out ending : List UInt8} (before : Walk c out .ending) (isEnding : ending.length = 2) :
      Walk (c ++ ending) (out ++ ending) .size
  | last {c out line : List UInt8} (before : Walk c out .size) (uncut : Uncut line)
      (isSize : chunkLength (lossyTextOf line) = some 0) :
      Walk (c ++ (line ++ crlf)) (out ++ encoded (lossyTextOf line) ++ crlf) .trailer
  | trailer {c out line : List UInt8} (before : Walk c out .trailer) (uncut : Uncut line) (some : line ≠ []) :
      Walk (c ++ (line ++ crlf)) (out ++ encoded (lossyTextOf line) ++ crlf) .trailer
  | done {c out : List UInt8} (before : Walk c out .trailer) : Walk (c ++ crlf) (out ++ crlf) .done

/-- What has come of what is read next is not all of it, nor too much of a line. -/
def Unfinished : Phase → List UInt8 → Prop
  | .size, b => findSubslice crlf b = none ∧ b.length ≤ maxHead
  | .data n, b => b.length < n
  | .ending, b => b.length < 2
  | .trailer, b => findSubslice crlf b = none ∧ b.length ≤ maxHead
  | _, _ => False

theorem findSubslice_of_uncut {line : List UInt8} (uncut : Uncut line) (rest : List UInt8) :
    findSubslice crlf (line ++ (crlf ++ rest)) = some line.length := by
  induction line with
  | nil => rfl
  | cons byte line ih =>
    rw [Uncut, latin1, List.map_cons, hasCrlf, Bool.or_eq_false_iff] at uncut
    obtain ⟨noPair, uncutRest⟩ := uncut
    have notHere : ¬crlf.isPrefixOf (byte :: (line ++ (crlf ++ rest))) := by
      intro isHere
      obtain ⟨behind, same⟩ := List.isPrefixOf_iff_prefix.mp isHere
      obtain ⟨isReturn, later⟩ := List.cons.inj same
      subst isReturn
      cases line with
      | nil => cases later
      | cons other line =>
        obtain ⟨isFeed, -⟩ := List.cons.inj later
        subst isFeed
        cases noPair
    rw [List.cons_append, findSubslice, if_neg notHere, ih uncutRest]
    rfl

theorem findSubslice_cases (buf : List UInt8) :
    findSubslice crlf buf = none ∨
      ∃ line rest, buf = line ++ (crlf ++ rest) ∧ Uncut line := by
  cases found : findSubslice crlf buf with
  | none => exact .inl rfl
  | some idx =>
    obtain ⟨whole, uncut⟩ := findSubslice_crlf found
    exact .inr ⟨_, _, whole.trans (List.append_assoc _ _ _), uncut⟩

theorem Walk.data_small {c out : List UInt8} {n : Nat} (walk : Walk c out (.data n)) : n ≠ 0 ∧ n ≤ maxBody := by
  cases walk with
  | size before uncut isSize some fits => exact ⟨some, (Nat.le_add_left n _).trans fits⟩

namespace ChunkReader

variable {s : ChunkReader} {c : List UInt8}

inductive Steps (c : List UInt8) (s : ChunkReader) : Prop
  | ends (isDone : s.phase = .done) (same : s.step = s)
  | waits (text : String) (unfinished : Unfinished s.phase s.buf) (fills : s.step = s.fill text)
  | takes (taken out rest : List UInt8) (phase : Phase) (some : taken ≠ []) (isBuf : s.buf = taken ++ rest)
      (walk : Walk (c ++ taken) out phase) (same : s.step = ⟨out, rest, s.reads, phase⟩)
  | fails (text : String) (isFailed : s.step.phase = .failed text)

theorem withLine_append {line rest : List UInt8} (uncut : Uncut line) (next : List Char → ChunkReader → ChunkReader)
    (isBuf : s.buf = line ++ (crlf ++ rest)) : s.withLine next = next (lossyTextOf line) { s with buf := rest } := by
  have behind : (line ++ (crlf ++ rest)).drop (line.length + 2) = rest := by
    rw [← List.append_assoc]
    exact List.drop_left' (by rw [List.length_append]; rfl)
  rw [withLine, isBuf, findSubslice_of_uncut uncut rest]
  dsimp only
  rw [List.take_left, behind]

theorem withN_append {n : Nat} {taken rest : List UInt8} (fits : n ≤ maxBody) (isTaken : taken.length = n)
    (next : List UInt8 → ChunkReader → ChunkReader) (isBuf : s.buf = taken ++ rest) :
    s.withN n next = next taken { s with buf := rest } := by
  have enough : ¬s.buf.length < n := by
    rw [isBuf, List.length_append]
    omega
  rw [withN, if_neg (Nat.not_lt_of_le fits), if_neg enough, isBuf, List.take_left' isTaken, List.drop_left' isTaken]

theorem withLine_cases (next : List Char → ChunkReader → ChunkReader) (s : ChunkReader) :
    (∃ line rest, s.buf = line ++ (crlf ++ rest) ∧ Uncut line ∧
        s.withLine next = next (lossyTextOf line) { s with buf := rest }) ∨
      (findSubslice crlf s.buf = none ∧ s.buf.length ≤ maxHead ∧ ∃ text, s.withLine next = s.fill text) ∨
        ∃ text, s.withLine next = s.fail text := by
  rcases findSubslice_cases s.buf with unfound | ⟨line, rest, isBuf, uncut⟩
  · rw [withLine, unfound]
    dsimp only
    split
    · exact .inr (.inr ⟨_, rfl⟩)
    · next short => exact .inr (.inl ⟨rfl, Nat.le_of_not_lt short, _, rfl⟩)
  · exact .inl ⟨line, rest, isBuf, uncut, withLine_append uncut next isBuf⟩

theorem withN_cases {n : Nat} (fits : n ≤ maxBody) (next : List UInt8 → ChunkReader → ChunkReader) (s : ChunkReader) :
    (∃ taken rest, s.buf = taken ++ rest ∧ taken.length = n ∧ s.withN n next = next taken { s with buf := rest }) ∨
      s.buf.length < n ∧ ∃ text, s.withN n next = s.fill text := by
  rw [withN, if_neg (Nat.not_lt_of_le fits)]
  split
  · next short => exact .inr ⟨short, _, rfl⟩
  · next enough =>
    exact .inl ⟨_, _, (List.take_append_drop n s.buf).symm, List.length_take_of_le (Nat.le_of_not_lt enough), rfl⟩

theorem step_cases (walk : Walk c s.out s.phase) : Steps c s := by
  obtain ⟨out, buf, reads, phase⟩ := s
  dsimp only at walk
  cases phase with
  | size =>
    rcases withLine_cases afterSize ⟨out, buf, reads, .size⟩ with
      ⟨line, rest, isBuf, uncut, isStep⟩ | ⟨unfound, short, text, isStep⟩ | ⟨text, isStep⟩
    · have some : line ++ crlf ≠ [] := List.append_ne_nil_of_right_ne_nil _ (List.cons_ne_nil _ _)
      have isFront : buf = (line ++ crlf) ++ rest := isBuf.trans (List.append_assoc _ _ _).symm
      have isStep : step ⟨out, buf, reads, .size⟩ = afterSize (lossyTextOf line) ⟨out, rest, reads, .size⟩ := isStep
      rw [afterSize] at isStep
      cases isSize : chunkLength (lossyTextOf line) with
      | none =>
        rw [isSize] at isStep
        exact .fails _ (congrArg ChunkReader.phase isStep)
      | some n =>
        rw [isSize] at isStep
        dsimp only at isStep
        split at isStep
        · next isLast =>
          subst isLast
          exact .takes _ _ rest _ some isFront (walk.last uncut isSize) isStep
        · next notLast =>
          split at isStep
          · exact .fails _ (congrArg ChunkReader.phase isStep)
          · next fits =>
            exact .takes _ _ rest _ some isFront (walk.size uncut isSize notLast (Nat.le_of_not_lt fits)) isStep
    · exact .waits text ⟨unfound, short⟩ isStep
    · exact .fails text (congrArg ChunkReader.phase isStep)
  | data n =>
    rcases withN_cases walk.data_small.2 (fun data s => { s with out := s.out ++ data, phase := .ending })
      ⟨out, buf, reads, .data n⟩ with ⟨data, rest, isBuf, isData, isStep⟩ | ⟨short, text, isStep⟩
    · refine .takes data _ rest _ ?_ isBuf (walk.data isData) isStep
      exact List.ne_nil_of_length_pos (isData ▸ Nat.pos_of_ne_zero walk.data_small.1)
    · exact .waits text short isStep
  | ending =>
    rcases @withN_cases 2 (by decide) (fun ending s => { s with out := s.out ++ ending, phase := .size })
      ⟨out, buf, reads, .ending⟩ with ⟨ending, rest, isBuf, isEnding, isStep⟩ | ⟨short, text, isStep⟩
    · refine .takes ending _ rest _ ?_ isBuf (walk.ending isEnding) isStep
      exact List.ne_nil_of_length_pos (isEnding ▸ Nat.two_pos)
    · exact .waits text short isStep
  | trailer =>
    rcases withLine_cases afterTrailer ⟨out, buf, reads, .trailer⟩ with
      ⟨line, rest, isBuf, uncut, isStep⟩ | ⟨unfound, short, text, isStep⟩ | ⟨text, isStep⟩
    · have some : line ++ crlf ≠ [] := List.append_ne_nil_of_right_ne_nil _ (List.cons_ne_nil _ _)
      have isFront : buf = (line ++ crlf) ++ rest := isBuf.trans (List.append_assoc _ _ _).symm
      have isStep : step ⟨out, buf, reads, .trailer⟩ = afterTrailer (lossyTextOf line) ⟨out, rest, reads, .trailer⟩ :=
        isStep
      by_cases isEmpty : line = []
      · subst isEmpty
        have nothing : encoded (lossyTextOf []) = [] := rfl
        rw [afterTrailer, nothing, List.append_nil] at isStep
        exact .takes crlf _ rest .done (List.cons_ne_nil _ _) isBuf walk.done isStep
      · have someText := lossyTextOf_ne_nil isEmpty
        rw [afterTrailer, if_neg someText] at isStep
        exact .takes _ _ rest _ some isFront (walk.trailer uncut isEmpty) isStep
    · exact .waits text ⟨unfound, short⟩ isStep
    · exact .fails text (congrArg ChunkReader.phase isStep)
  | done => exact .ends rfl rfl
  | failed text => exact .fails text rfl

def start (buf : List UInt8) (reads : List (List UInt8)) : ChunkReader := { buf, reads }

/-- A stream, the beginning of which may have been read already, and the reads that it comes in. -/
structure Cut (io buf : List UInt8) (reads : List (List UInt8)) : Prop where
  whole : buf ++ reads.flatten = io
  some : ∀ piece ∈ reads, piece ≠ []

def Follows (io : List UInt8) (s : ChunkReader) : Prop :=
  (∃ text, s.phase = .failed text) ∨ ∃ c, Walk c s.out s.phase ∧ c ++ s.rest = io

theorem follows_start {io buf : List UInt8} {reads : List (List UInt8)} (cut : Cut io buf reads) :
    Follows io (start buf reads) := .inr ⟨[], .start, cut.whole⟩

theorem fill_cases (text : String) (s : ChunkReader) : s.fill text = s.fail text ∨
    ∃ piece reads, s.reads = piece :: reads ∧ s.fill text = { s with buf := s.buf ++ piece, reads } := by
  rw [fill]
  split
  · exact .inl rfl
  · exact .inl rfl
  · next piece reads _ isReads => exact .inr ⟨piece, reads, isReads, rfl⟩

theorem Follows.step {io : List UInt8} (follows : Follows io s) : Follows io s.step := by
  rcases follows with ⟨text, isFailed⟩ | ⟨c, walk, whole⟩
  · rw [ChunkReader.step, isFailed]
    exact .inl ⟨text, isFailed⟩
  · cases step_cases walk with
    | ends isDone same =>
      rw [same]
      exact .inr ⟨c, walk, whole⟩
    | waits text unfinished fills =>
      rw [fills]
      rcases fill_cases text s with ended | ⟨piece, reads, isReads, isFill⟩
      · rw [ended]
        exact .inl ⟨text, rfl⟩
      · rw [isFill]
        refine .inr ⟨c, walk, ?_⟩
        rw [rest, isReads, List.flatten_cons] at whole
        rw [rest, List.append_assoc]
        exact whole
    | takes taken out left phase some isBuf later same =>
      rw [same]
      refine .inr ⟨c ++ taken, later, ?_⟩
      rw [rest, isBuf, List.append_assoc] at whole
      rw [rest, List.append_assoc]
      exact whole
    | fails text isFailed => exact .inl ⟨text, isFailed⟩

def Ended (s : ChunkReader) : Prop := s.phase = .done ∨ ∃ text, s.phase = .failed text

/-- Every step takes something off, or makes a read, or is the last. -/
theorem falls {io : List UInt8} (follows : Follows io s) (goesOn : ¬Ended s) :
    Ended s.step ∨ s.step.rest.length + s.step.reads.length < s.rest.length + s.reads.length := by
  rcases follows with isFailed | ⟨c, walk, -⟩
  · exact absurd (.inr isFailed) goesOn
  · cases step_cases walk with
    | ends isDone same => exact absurd (.inl isDone) goesOn
    | waits text unfinished fills =>
      rw [fills]
      rcases fill_cases text s with ended | ⟨piece, reads, isReads, isFill⟩
      · exact .inl (.inr ⟨text, ended ▸ rfl⟩)
      · right
        rw [isFill, rest, rest, isReads, List.flatten_cons, ← List.append_assoc]
        exact Nat.lt_succ_self _
    | takes taken out left phase some isBuf later same =>
      right
      have positive := List.length_pos_iff.mpr some
      rw [same, rest, rest, isBuf]
      simp only [List.length_append]
      omega
    | fails text isFailed => exact .inl (.inr ⟨text, isFailed⟩)

theorem exists_ended {io : List UInt8} (follows : Follows io s) : ∃ k, Ended (ChunkReader.step^[k] s) :=
  @exists_iterate _ ChunkReader.step (Follows io) Ended (fun s => s.rest.length + s.reads.length)
    (fun _ follows => follows.step) (fun _ => falls) s follows

theorem Follows.run {io : List UInt8} (follows : Follows io s) (k : Nat) : Follows io (ChunkReader.step^[k] s) :=
  Function.Iterate.rec (Follows io) follows (fun _ follows => follows.step) k

def after (k : Nat) (buf : List UInt8) (reads : List (List UInt8)) : ChunkReader := ChunkReader.step^[k] (start buf reads)

theorem after_succ (k : Nat) (buf : List UInt8) (reads : List (List UInt8)) :
    after (k + 1) buf reads = (after k buf reads).step := Function.iterate_succ_apply' _ _ _

theorem exists_after {out : List UInt8} {phase : Phase} (walk : Walk c out phase) (left : List UInt8)
    (reads : List (List UInt8)) : ∃ k, after k (c ++ left) reads = ⟨out, left, reads, phase⟩ := by
  induction walk generalizing left with
  | start => exact ⟨0, rfl⟩
  | @size c out line n before uncut isSize some fits ih =>
    obtain ⟨k, reached⟩ := ih (line ++ (crlf ++ left))
    refine ⟨k + 1, ?_⟩
    rw [after_succ, List.append_assoc, List.append_assoc, reached, step, withLine_append uncut _ rfl, afterSize, isSize]
    dsimp only
    rw [if_neg some, if_neg (Nat.not_lt_of_le fits)]
  | @data c out data n before isData ih =>
    obtain ⟨k, reached⟩ := ih (data ++ left)
    refine ⟨k + 1, ?_⟩
    rw [after_succ, List.append_assoc, reached, step]
    dsimp only
    rw [@withN_append ⟨out, data ++ left, reads, .data n⟩ n data left before.data_small.2 isData _ rfl]
  | @ending c out ending before isEnding ih =>
    obtain ⟨k, reached⟩ := ih (ending ++ left)
    refine ⟨k + 1, ?_⟩
    rw [after_succ, List.append_assoc, reached, step]
    dsimp only
    rw [@withN_append ⟨out, ending ++ left, reads, .ending⟩ 2 ending left (by decide) isEnding _ rfl]
  | @last c out line before uncut isSize ih =>
    obtain ⟨k, reached⟩ := ih (line ++ (crlf ++ left))
    refine ⟨k + 1, ?_⟩
    rw [after_succ, List.append_assoc, List.append_assoc, reached, step, withLine_append uncut _ rfl, afterSize, isSize]
    dsimp only
    rw [if_pos rfl]
  | @trailer c out line before uncut some ih =>
    obtain ⟨k, reached⟩ := ih (line ++ (crlf ++ left))
    refine ⟨k + 1, ?_⟩
    have isStep := @withLine_append ⟨out, line ++ (crlf ++ left), reads, .trailer⟩ line left uncut afterTrailer rfl
    rw [afterTrailer, if_neg (lossyTextOf_ne_nil some)] at isStep
    rw [after_succ, List.append_assoc, List.append_assoc, reached]
    exact isStep
  | @done c out before ih =>
    obtain ⟨k, reached⟩ := ih (crlf ++ left)
    have nothing : encoded (lossyTextOf []) = [] := rfl
    refine ⟨k + 1, ?_⟩
    have isStep := @withLine_append ⟨out, crlf ++ left, reads, .trailer⟩ [] left rfl afterTrailer rfl
    rw [afterTrailer, nothing, List.append_nil] at isStep
    rw [after_succ, List.append_assoc, reached]
    exact isStep

end ChunkReader

open ChunkReader

def Complete (raw : List UInt8) : Prop := ∃ content, Chunked raw content []

def maxHeld : Nat := maxBody + maxHead

/-- The reader returns what it consumed, which is a body and not too long; where no body is there, it
gives up, and asks for more only while it holds little enough. -/
structure Exact (io : List UInt8) : Prop where
  faithful : ∀ buf reads k, Cut io buf reads → (after k buf reads).phase = .done →
    (after k buf reads).out ++ (after k buf reads).rest = io ∧ Complete (after k buf reads).out ∧
      (after k buf reads).out.length ≤ maxHeld
  bounded : (∀ raw, raw <+: io → ¬Complete raw) → ∀ buf reads, Cut io buf reads →
    (∃ k text, (after k buf reads).phase = .failed text) ∧
      ∀ k, Unfinished (after k buf reads).phase (after k buf reads).buf →
        (after k buf reads).out.length + (after k buf reads).buf.length ≤ maxHeld

/-- What a stream begins with, where it is taken for a body, is one, with its lines in UTF-8 and not
too long; and where there is none, what is taken and waited for is not too long. -/
structure Tame (io : List UInt8) : Prop where
  strict : ∀ c out, Walk c out .done → c <+: io → out = c ∧ Complete c ∧ c.length ≤ maxHeld
  short : (∀ raw, raw <+: io → ¬Complete raw) → ∀ c out phase b, Walk c out phase → c ++ b <+: io → Unfinished phase b →
    out.length + b.length ≤ maxHeld

theorem exact_iff_tame (io : List UInt8) : Exact io ↔ Tame io := by
  constructor
  · intro exact
    constructor
    · rintro c out walk ⟨left, rfl⟩
      obtain ⟨k, reached⟩ := exists_after walk left []
      have cut : Cut (c ++ left) (c ++ left) [] := ⟨List.append_nil _, fun _ isNone => absurd isNone List.not_mem_nil⟩
      have faithful := exact.faithful _ _ k cut (by rw [reached])
      rw [reached, ChunkReader.rest, List.flatten_nil, List.append_nil] at faithful
      obtain rfl := List.append_cancel_right faithful.1
      exact ⟨rfl, faithful.2⟩
    · rintro never c out phase b walk ⟨later, rfl⟩ unfinished
      -- The reader waits with just this ahead where the rest comes in a read of its own.
      obtain ⟨reads, cut⟩ : ∃ reads, Cut (c ++ b ++ later) (c ++ b) reads := by
        by_cases isNone : later = []
        · subst isNone
          exact ⟨[], rfl, fun _ isNone => absurd isNone List.not_mem_nil⟩
        · refine ⟨[later], by rw [List.flatten_singleton], ?_⟩
          intro piece member
          rwa [List.mem_singleton.mp member]
      obtain ⟨k, reached⟩ := exists_after walk b reads
      have held := (exact.bounded never _ _ cut).2 k
      rw [reached] at held
      exact held unfinished
  · intro tame
    have walks : ∀ buf reads k, Cut io buf reads → Follows io (after k buf reads) :=
      fun buf reads k cut => (follows_start cut).run k
    have faithful : ∀ buf reads k, Cut io buf reads → (after k buf reads).phase = .done →
        (after k buf reads).out ++ (after k buf reads).rest = io ∧ Complete (after k buf reads).out ∧
          (after k buf reads).out.length ≤ maxHeld := by
      intro buf reads k cut isDone
      rcases walks buf reads k cut with ⟨text, isFailed⟩ | ⟨c, walk, whole⟩
      · cases isDone.symm.trans isFailed
      · rw [isDone] at walk
        obtain ⟨same, complete, short⟩ := tame.strict c _ walk ⟨_, whole⟩
        rw [same]
        exact ⟨whole, complete, short⟩
    refine ⟨faithful, ?_⟩
    intro never buf reads cut
    constructor
    · obtain ⟨k, isDone | ⟨text, isFailed⟩⟩ := exists_ended (follows_start cut)
      · obtain ⟨whole, complete, -⟩ := faithful buf reads k cut isDone
        exact absurd complete (never _ ⟨_, whole⟩)
      · exact ⟨k, text, isFailed⟩
    · intro k unfinished
      rcases walks buf reads k cut with ⟨text, isFailed⟩ | ⟨c, walk, whole⟩
      · rw [isFailed] at unfinished
        exact unfinished.elim
      · exact tame.short never c _ _ _ walk ⟨_, (List.append_assoc _ _ _).trans whole⟩ unfinished

def unclosed : List UInt8 := [0x31, 13, 10, 0x41, 0x58, 0x59, 0x30, 13, 10, 13, 10]

theorem walk_unclosed : Walk unclosed unclosed .done := by
  have first : Walk [0x31, 13, 10] [0x31, 13, 10] (.data 1) :=
    @Walk.size [] [] [0x31] 1 .start rfl (by decide) (by decide) (by decide)
  have closed : Walk [0x31, 13, 10, 0x41, 0x58, 0x59] [0x31, 13, 10, 0x41, 0x58, 0x59] .size :=
    (first.data (show [0x41].length = 1 from rfl)).ending (show [0x58, 0x59].length = 2 from rfl)
  exact (@Walk.last _ _ [0x30] closed rfl (by decide)).done

theorem not_complete_unclosed : ¬Complete unclosed := by
  rintro ⟨content, chunked⟩
  have isLine : unclosed = [0x31] ++ crlf ++ [0x41, 0x58, 0x59, 0x30, 13, 10, 13, 10] := rfl
  have uncut : Uncut [0x31] := rfl
  rw [isLine, chunked_iff uncut] at chunked
  obtain ⟨-, ⟨isLast, -⟩ | ⟨data, bytes, later, isSize, -, behind, -⟩⟩ := chunked
  · exact absurd isLast (by decide)
  · have one : data.length = 1 := (Option.some.inj isSize).symm
    obtain ⟨byte, rfl⟩ := List.length_eq_one_iff.mp one
    cases behind

/-- Whatever is behind the data of a chunk is taken for the end of it. -/
theorem not_exact_unclosed : ¬∀ io, Exact io := by
  intro exact
  obtain ⟨k, reached⟩ := exists_after walk_unclosed [] []
  have cut : Cut unclosed (unclosed ++ []) [] := ⟨rfl, fun _ isNone => absurd isNone List.not_mem_nil⟩
  have faithful := (exact unclosed).faithful _ _ k cut (by rw [reached])
  rw [reached] at faithful
  exact not_complete_unclosed faithful.2.1

end Nfrp.HttpIo
