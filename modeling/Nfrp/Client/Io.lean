import Nfrp.Lib.Http

/-!
# Reading what was read already

A plugin gets a connection together with bytes that were read of it too far.  Those come
first, and then the connection; a plugin that only reads this way does not see the
difference.
-/

namespace Nfrp.Client

open Lib

structure Io where
  ahead : List UInt8
  inner : List UInt8
  deriving DecidableEq, Repr

abbrev Reading (Result : Type) := StateT Io (Except String) Result

namespace Io

def bytes (io : Io) : List UInt8 := io.ahead ++ io.inner

def fresh (bytes : List UInt8) : Io := ⟨[], bytes⟩

def skip (n : Nat) (io : Io) : Io :=
  ⟨io.ahead.drop n, io.inner.drop (n - io.ahead.length)⟩

def u8 : Reading UInt8
  | ⟨byte :: ahead, inner⟩ => .ok (byte, ⟨ahead, inner⟩)
  | ⟨[], byte :: inner⟩ => .ok (byte, ⟨[], inner⟩)
  | ⟨[], []⟩ => .error "early eof"

def maxLine : Nat := 8192

def chomp (out : List UInt8) : List UInt8 :=
  if out.getLast? = some carriageReturn then out.dropLast else out

/-- The bytes of a line that starts with `out`. There are as many rounds as a line can
have. -/
def lineFrom : (rounds : Nat) → (out : List UInt8) → Reading (List UInt8)
  | 0, _ => throw "请求行过长"
  | rounds + 1, out => do
      let byte ← u8
      if byte = lineFeed then return chomp out
      lineFrom rounds (out ++ [byte])

def line : Reading (List UInt8) := lineFrom (maxLine + 1) []

def Fits (l : List UInt8) : Prop := l.length < maxLine

instance (l : List UInt8) : Decidable (Fits l) := inferInstanceAs (Decidable (_ < _))

/-- The lines up to an empty one, which takes a byte each. -/
def linesFrom : (rounds : Nat) → Reading (List (List UInt8))
  | 0 => throw "early eof"
  | rounds + 1 => do
      let l ← line
      if l = [] then return []
      let more ← linesFrom rounds
      return l :: more

def headerLines : Reading (List (List UInt8)) := do
  let io ← get
  linesFrom (io.bytes.length + 1)

end Io

/-- The reading finds the same however the bytes are divided, and takes as many of them. -/
def Uniform {Result : Type} (reading : Reading Result) : Prop :=
  ∀ io : Io,
    (∃ e, reading io = .error e ∧ reading (.fresh io.bytes) = .error e) ∨
    ∃ result n, n ≤ io.bytes.length ∧ reading io = .ok (result, io.skip n) ∧
      reading (.fresh io.bytes) = .ok (result, .fresh (io.bytes.drop n))

namespace Io

theorem skip_zero (io : Io) : io.skip 0 = io := by
  rw [skip, List.drop_zero, Nat.zero_sub, List.drop_zero]

theorem bytes_skip (n : Nat) (io : Io) : (io.skip n).bytes = io.bytes.drop n := by
  rw [skip, bytes, bytes, List.drop_append]

theorem skip_skip (m n : Nat) (io : Io) : (io.skip m).skip n = io.skip (m + n) := by
  rw [skip, skip, skip, List.drop_drop, List.drop_drop, List.length_drop, Io.mk.injEq]
  refine ⟨rfl, congrArg (List.drop · io.inner) ?_⟩
  omega

end Io

namespace Uniform

variable {Result Next : Type}

theorem pure (result : Result) : Uniform (pure result) := by
  intro io
  refine .inr ⟨result, 0, Nat.zero_le _, ?_, rfl⟩
  rw [io.skip_zero]
  rfl

theorem throw (e : String) : Uniform (throw e : Reading Result) :=
  fun _ => .inl ⟨e, rfl, rfl⟩

theorem bind {reading : Reading Result} {next : Result → Reading Next} (first : Uniform reading)
    (rest : ∀ result, Uniform (next result)) : Uniform (reading >>= next) := by
  intro io
  change (∃ e, (reading io >>= fun found => next found.1 found.2) = .error e ∧
      (reading (.fresh io.bytes) >>= fun found => next found.1 found.2) = .error e) ∨
    ∃ result n, n ≤ io.bytes.length ∧ (reading io >>= fun found => next found.1 found.2) = .ok (result, io.skip n) ∧
      (reading (.fresh io.bytes) >>= fun found => next found.1 found.2) = .ok (result, .fresh (io.bytes.drop n))
  rcases first io with ⟨e, divided, whole⟩ | ⟨result, m, within, divided, whole⟩
  · rw [divided, whole]
    exact .inl ⟨e, rfl, rfl⟩
  · rw [divided, whole]
    rcases rest result (io.skip m) with ⟨e, divided, whole⟩ | ⟨last, n, behind, divided, whole⟩
    · rw [io.bytes_skip] at whole
      exact .inl ⟨e, divided, whole⟩
    · rw [io.bytes_skip] at whole behind
      rw [List.drop_drop] at whole
      rw [io.skip_skip] at divided
      rw [List.length_drop] at behind
      exact .inr ⟨last, m + n, by omega, divided, whole⟩

theorem u8 : Uniform Io.u8 := by
  rintro ⟨_ | ⟨byte, ahead⟩, inner⟩
  · cases inner with
    | nil => exact .inl ⟨_, rfl, rfl⟩
    | cons byte inner => exact .inr ⟨byte, 1, Nat.succ_le_succ (Nat.zero_le _), rfl, rfl⟩
  · refine .inr ⟨byte, 1, Nat.succ_le_succ (Nat.zero_le _), ?_, rfl⟩
    rw [Io.skip, List.length_cons, Nat.sub_eq_zero_of_le (Nat.succ_le_succ (Nat.zero_le _))]
    rfl

theorem lineFrom (rounds : Nat) (out : List UInt8) : Uniform (Io.lineFrom rounds out) := by
  induction rounds generalizing out with
  | zero => exact throw _
  | succ rounds ih =>
    refine u8.bind fun byte => ?_
    split
    · exact pure _
    · exact ih _

theorem linesFrom (rounds : Nat) : Uniform (Io.linesFrom rounds) := by
  induction rounds with
  | zero => exact throw _
  | succ rounds ih =>
    refine (lineFrom _ _).bind fun l => ?_
    split
    · exact pure _
    · exact ih.bind fun more => pure (l :: more)

theorem headerLines : Uniform Io.headerLines :=
  fun io => linesFrom (io.bytes.length + 1) io

end Uniform

namespace Io

variable {l rest : List UInt8}

theorem lineFrom_fresh (noFeed : lineFeed ∉ l) (rounds : Nat) (out : List UInt8) :
    lineFrom rounds out (.fresh (l ++ lineFeed :: rest)) =
      if l.length < rounds then .ok (chomp (out ++ l), .fresh rest) else .error "请求行过长" := by
  induction l generalizing rounds out with
  | nil =>
    cases rounds with
    | zero => rfl
    | succ rounds =>
      rw [if_pos (show ([] : List UInt8).length < rounds + 1 from Nat.succ_pos _), List.append_nil]
      rfl
  | cons byte l ih =>
    obtain ⟨other, noFeed⟩ := not_or.mp (mt List.mem_cons.mpr noFeed)
    cases rounds with
    | zero => rfl
    | succ rounds =>
      have later := ih noFeed rounds (out ++ [byte])
      rw [List.append_assoc, List.singleton_append] at later
      rw [List.length_cons]
      simp only [Nat.succ_lt_succ_iff]
      rw [← later]
      change (if byte = lineFeed then pure (chomp out) else lineFrom rounds (out ++ [byte]) : Reading _) _ = _
      rw [if_neg (Ne.symm other)]
      rfl

theorem line_fresh (noFeed : lineFeed ∉ l) :
    line (.fresh (l ++ crlf ++ rest)) = if Fits l then .ok (l, .fresh rest) else .error "请求行过长" := by
  have noFeed : lineFeed ∉ l ++ [carriageReturn] := by
    rw [List.mem_append, List.mem_singleton, not_or]
    exact ⟨noFeed, by decide⟩
  have found := @lineFrom_fresh _ rest noFeed (maxLine + 1) []
  rw [List.append_assoc, List.singleton_append, List.length_append, List.length_singleton] at found
  rw [line, List.append_assoc]
  refine found.trans ?_
  by_cases fits : Fits l
  · rw [if_pos fits, if_pos (Nat.succ_lt_succ fits), List.nil_append, chomp, List.getLast?_concat, if_pos rfl,
      List.dropLast_concat]
  · rw [if_neg fits, if_neg fun short => fits (Nat.lt_of_succ_lt_succ short)]

theorem linesFrom_succ (rounds : Nat) (io : Io) :
    linesFrom (rounds + 1) io = line io >>= fun found =>
      (if found.1 = [] then pure [] else linesFrom rounds >>= fun more => pure (found.1 :: more) : Reading _) found.2 := rfl

theorem linesFrom_fresh {lines : List (List UInt8)} (areLines : ∀ l ∈ lines, l ≠ [] ∧ lineFeed ∉ l) {rounds : Nat}
    (enough : lines.length < rounds) :
    linesFrom rounds (.fresh (headBytes lines rest)) =
      if ∀ l ∈ lines, Fits l then .ok (lines, .fresh rest) else .error "请求行过长" := by
  induction lines generalizing rounds with
  | nil =>
    obtain ⟨rounds, rfl⟩ := Nat.exists_eq_succ_of_ne_zero (Nat.ne_zero_of_lt enough)
    have isEnd := @line_fresh [] rest List.not_mem_nil
    rw [if_pos (by decide)] at isEnd
    rw [if_pos (fun _ member => absurd member List.not_mem_nil), linesFrom_succ, headBytes_nil]
    exact (congrArg (· >>= _) isEnd).trans rfl
  | cons l lines ih =>
    obtain ⟨rounds, rfl⟩ := Nat.exists_eq_succ_of_ne_zero (Nat.ne_zero_of_lt enough)
    obtain ⟨⟨isSome, noFeed⟩, areLines⟩ := List.forall_mem_cons.mp areLines
    have first := @line_fresh l (headBytes lines rest) noFeed
    have later := ih areLines (Nat.lt_of_succ_lt_succ enough)
    rw [linesFrom_succ, headBytes_cons, first]
    by_cases fits : Fits l
    · rw [if_pos fits]
      change (if l = [] then pure [] else linesFrom rounds >>= fun more => pure (l :: more) : Reading _) _ = _
      rw [if_neg isSome]
      change (linesFrom rounds (.fresh (headBytes lines rest)) >>= _) = _
      rw [later]
      simp only [List.forall_mem_cons, fits, true_and]
      split <;> rfl
    · rw [if_neg fits, if_neg (fun all => fits (all l List.mem_cons_self))]
      rfl

end Io

end Nfrp.Client
