import Nfrp.Client.ProxyProtocol
import Nfrp.Lib.Checked

/-!
# Where a PROXY header ends

A reader sniffs what has arrived: no header, a header of so many bytes, or one that is not
complete yet.  What begins like a header and can be none is called incomplete as well, for ever.
-/

namespace Nfrp.ProxyProtocol

open Lib

/-- A header that is not complete, for which the reader waits. -/
def NeedsMore (buf : List UInt8) : Prop := ∃ header, sniff buf = some (header, 0)

def lower (b : UInt8) : UInt8 := if 65 ≤ b ∧ b ≤ 90 then b + 32 else b

def BeginsV1 (buf : List UInt8) : Prop :=
  (buf.take (min buf.length 6)).map lower = ((bytesOf "PROXY ").take (min buf.length 6)).map lower

def BeginsV2 (buf : List UInt8) : Prop := buf.take 12 = v2Signature.take buf.length

instance (buf : List UInt8) : Decidable (BeginsV1 buf) := inferInstanceAs (Decidable (_ = _))

instance (buf : List UInt8) : Decidable (BeginsV2 buf) := inferInstanceAs (Decidable (_ = _))

/-- A line of the first version, with the only end of a line at its end. -/
structure FramedV1 (h : List UInt8) : Prop where
  begins : BeginsV1 h
  short : h.length ≤ v1MaxLen
  ends : ∃ lineEnd, findCrlf h = some lineEnd ∧ lineEnd + 2 = h.length

def v2Total (h : List UInt8) : Nat := 16 + ofBeBytes ((h.drop 14).take 2)

structure FramedV2 (h : List UInt8) : Prop where
  begins : BeginsV2 h
  whole : h.length = v2Total h

def Framed (h : List UInt8) : Prop := FramedV1 h ∨ FramedV2 h

def Valid (h : List UInt8) : Prop :=
  FramedV1 h ∧ (∃ header, decodeV1 h = .ok (some (header, h.length))) ∨
    FramedV2 h ∧ ∃ header, decodeV2 h = .ok (header, h.length)

variable {h buf rest : List UInt8} {header : Header} {n : Nat}

theorem findCrlf_eq_some {lineEnd : Nat} (found : findCrlf buf = some lineEnd) (rest : List UInt8) :
    lineEnd + 2 ≤ buf.length ∧ findCrlf (buf ++ rest) = some lineEnd ∧ findCrlf (buf.take (lineEnd + 2)) = some lineEnd := by
  induction buf using findCrlf.induct generalizing lineEnd with
  | case1 buf =>
    obtain rfl := Option.some.inj found
    refine ⟨?_, rfl, rfl⟩
    rw [List.length_cons, List.length_cons]
    exact Nat.le_add_left _ _
  | case2 b buf other ih =>
    have step : findCrlf (b :: buf) = (findCrlf buf).map (· + 1) := by
      rw [findCrlf]
      exact other
    rw [step] at found
    obtain ⟨earlier, isEarlier, rfl⟩ := Option.map_eq_some_iff.mp found
    obtain ⟨inside, appended, taken⟩ := ih isEarlier
    cases buf with
    | nil => cases isEarlier
    | cons c buf =>
      refine ⟨Nat.succ_le_succ inside, ?_, ?_⟩
      · rw [List.cons_append, findCrlf, appended]
        · rfl
        · intro more isReturn isFeed
          exact other buf isReturn (congrArg (· :: buf) (List.cons.inj isFeed).1)
      · rw [List.take_succ_cons, findCrlf, taken]
        · rfl
        · intro more isReturn isFeed
          rw [List.take_succ_cons] at isFeed
          exact other buf isReturn (congrArg (· :: buf) (List.cons.inj isFeed).1)
  | case3 => cases found

/-- What is read is a line, and as long as that with its end. -/
theorem decodeV1_eq_ok (decoded : decodeV1 buf = .ok (some (header, n))) :
    ∃ lineEnd, findCrlf buf = some lineEnd ∧ lineEnd + 2 = n := by
  rw [decodeV1] at decoded
  cases found : findCrlf buf with
  | none =>
    rw [found] at decoded
    dsimp only at decoded
    split at decoded
    · cases decoded
    · cases decoded
  | some lineEnd =>
    rw [found] at decoded
    dsimp only at decoded
    cases line : textOf (buf.take lineEnd) with
    | none =>
      rw [line] at decoded
      cases decoded
    | some text =>
      rw [line] at decoded
      obtain ⟨read, -, same⟩ := map_eq_ok_iff.mp decoded
      exact ⟨lineEnd, rfl, (Prod.mk.inj (Option.some.inj same)).2⟩

theorem decodeV1_congr {other : List UInt8} {lineEnd : Nat} (found : findCrlf buf = some lineEnd)
    (alsoFound : findCrlf other = some lineEnd) (same : buf.take lineEnd = other.take lineEnd) :
    decodeV1 buf = decodeV1 other := by
  rw [decodeV1, decodeV1, found, alsoFound]
  dsimp only
  rw [same]

theorem decodeV1_append (decoded : decodeV1 buf = .ok (some (header, n))) (rest : List UInt8) :
    decodeV1 (buf ++ rest) = .ok (some (header, n)) := by
  obtain ⟨lineEnd, found, -⟩ := decodeV1_eq_ok decoded
  obtain ⟨inside, appended, -⟩ := findCrlf_eq_some found rest
  rw [decodeV1_congr appended found (List.take_append_of_le_length (by omega))]
  exact decoded

theorem decodeV1_take (decoded : decodeV1 buf = .ok (some (header, n))) :
    decodeV1 (buf.take n) = .ok (some (header, n)) ∧ n ≤ buf.length ∧ 2 ≤ n ∧
      ∃ lineEnd, findCrlf (buf.take n) = some lineEnd ∧ lineEnd + 2 = n := by
  obtain ⟨lineEnd, found, rfl⟩ := decodeV1_eq_ok decoded
  obtain ⟨inside, -, taken⟩ := findCrlf_eq_some found []
  have same : (buf.take (lineEnd + 2)).take lineEnd = buf.take lineEnd := by
    rw [List.take_take, min_eq_left (Nat.le_add_right lineEnd 2)]
  refine ⟨?_, inside, Nat.le_add_left 2 lineEnd, lineEnd, taken, rfl⟩
  rw [decodeV1_congr taken found same]
  exact decoded

theorem v2Total_append (long : 16 ≤ h.length) (rest : List UInt8) : v2Total (h ++ rest) = v2Total h := by
  rw [v2Total, v2Total, List.drop_append_of_le_length (by omega), List.take_append_of_le_length]
  rw [List.length_drop]
  omega

theorem decodeV2_eq_ok (decoded : decodeV2 buf = .ok (header, n)) :
    buf.take 12 = v2Signature ∧ n = v2Total buf ∧ n ≤ buf.length := by
  rw [decodeV2] at decoded
  split at decoded
  · cases decoded
  split at decoded
  · cases decoded
  next signature =>
  dsimp only at decoded
  split at decoded
  · cases decoded
  split at decoded
  · cases decoded
  next inside =>
  have known : n = v2Total buf := by
    split at decoded
    · exact (Prod.mk.inj (Except.ok.inj decoded)).2.symm
    · split at decoded
      · cases decoded
      · obtain ⟨transport, -, decoded⟩ := bind_eq_ok_iff.mp decoded
        obtain ⟨⟨src, dst⟩, -, decoded⟩ := bind_eq_ok_iff.mp decoded
        exact (Prod.mk.inj (Except.ok.inj decoded)).2.symm
  exact ⟨not_not.mp signature, known, known ▸ Nat.le_of_not_lt inside⟩

theorem decodeV2_append (whole : v2Total h ≤ h.length) (rest : List UInt8) : decodeV2 (h ++ rest) = decodeV2 h := by
  have long : 16 ≤ h.length := (Nat.le_add_right 16 _).trans whole
  have total : 16 + ofBeBytes (((h ++ rest).drop 14).take 2) = 16 + ofBeBytes ((h.drop 14).take 2) :=
    v2Total_append long rest
  have inside : ¬h.length < 16 + ofBeBytes ((h.drop 14).take 2) := Nat.not_lt_of_le whole
  have outside : ¬(h ++ rest).length < 16 + ofBeBytes ((h.drop 14).take 2) := by
    rw [List.length_append]
    omega
  have body : (h ++ rest).take (16 + ofBeBytes ((h.drop 14).take 2)) = h.take (16 + ofBeBytes ((h.drop 14).take 2)) :=
    List.take_append_of_le_length whole
  have byte (i : Nat) (isHead : i < 16) : (h ++ rest).getD i 0 = h.getD i 0 := by
    rw [List.getD_eq_getElem?_getD, List.getD_eq_getElem?_getD, List.getElem?_append_left (by omega)]
  rw [decodeV2, decodeV2, if_neg (by rw [List.length_append]; omega), if_neg (Nat.not_lt_of_le long),
    List.take_append_of_le_length (show 12 ≤ h.length by omega)]
  dsimp only
  rw [byte 12 (by decide), byte 13 (by decide), total, body, if_neg inside, if_neg outside]

theorem decodeV2_take (decoded : decodeV2 buf = .ok (header, n)) :
    decodeV2 (buf.take n) = .ok (header, n) ∧ n ≤ buf.length ∧ 16 ≤ n ∧ n = v2Total (buf.take n) ∧
      (buf.take n).take 12 = v2Signature := by
  obtain ⟨signature, known, inside⟩ := decodeV2_eq_ok decoded
  have long : 16 ≤ n := known ▸ Nat.le_add_right 16 _
  have isLong : (buf.take n).length = n := List.length_take_of_le inside
  have whole : n = v2Total (buf.take n) := by
    have total := v2Total_append (isLong ▸ long) (buf.drop n)
    rw [List.take_append_drop] at total
    exact known.trans total
  have same := decodeV2_append (whole.symm.le.trans isLong.symm.le) (buf.drop n)
  rw [List.take_append_drop, decoded] at same
  refine ⟨same.symm, inside, long, whole, ?_⟩
  rwa [List.take_take, min_eq_left (by omega)]

theorem not_beginsV2_of_beginsV1 (some : buf ≠ []) (begins : BeginsV1 buf) : ¬BeginsV2 buf := by
  obtain ⟨b, buf, rfl⟩ := List.exists_cons_of_ne_nil some
  intro alsoBegins
  have first : b = 0x0D := by
    have heads := congrArg List.head? (show (b :: buf).take 12 = v2Signature.take (b :: buf).length from alsoBegins)
    exact Option.some.inj heads
  have heads := congrArg List.head? (show _ = _ from begins)
  rw [List.length_cons, show min (buf.length + 1) 6 = min buf.length 5 + 1 by omega, bytesOf_proxy] at heads
  have letter : lower b = lower 0x50 := Option.some.inj heads
  rw [first] at letter
  exact absurd letter (by decide)

def Decodes (buf : List UInt8) (header : Header) (n : Nat) : Prop :=
  BeginsV1 buf ∧ 6 ≤ buf.length ∧ decodeV1 buf = .ok (some (header, n)) ∨ BeginsV2 buf ∧ decodeV2 buf = .ok (header, n)

theorem sniff_eq (buf : List UInt8) : sniff buf =
    if BeginsV2 buf then
      if buf.length < 16 then some (.unknown, 0)
      else
        match decodeV2 buf with
        | .ok found => some found
        | .error _ => some (.unknown, 0)
    else if BeginsV1 buf then
      if min buf.length 6 < 6 then some (.unknown, 0)
      else
        match decodeV1 buf with
        | .ok (some found) => some found
        | .ok none => some (.unknown, 0)
        | .error _ => some (.unknown, 0)
    else none := rfl

theorem sniff_of_decodes (decodes : Decodes buf header n) : sniff buf = some (header, n) ∧ 0 < n := by
  rcases decodes with ⟨begins, long, decoded⟩ | ⟨begins, decoded⟩
  · have some : buf ≠ [] := List.ne_nil_of_length_pos (by omega)
    rw [sniff_eq, if_neg (not_beginsV2_of_beginsV1 some begins), if_pos begins, if_neg (by omega), decoded]
    exact ⟨rfl, Nat.zero_lt_of_lt (decodeV1_take decoded).2.2.1⟩
  · obtain ⟨-, inside, long, -, -⟩ := decodeV2_take decoded
    rw [sniff_eq, if_pos begins, if_neg (Nat.not_lt_of_le (long.trans inside)), decoded]
    exact ⟨rfl, Nat.zero_lt_of_lt long⟩

/-- The reader waits where something has begun, and nothing is taken off it. -/
theorem needsMore_iff : NeedsMore buf ↔ (BeginsV1 buf ∨ BeginsV2 buf) ∧ ¬∃ header n, Decodes buf header n := by
  constructor
  · rintro ⟨header, sniffed⟩
    constructor
    · by_contra neither
      rw [not_or] at neither
      rw [sniff_eq, if_neg neither.2, if_neg neither.1] at sniffed
      cases sniffed
    · rintro ⟨other, n, decodes⟩
      obtain ⟨found, positive⟩ := sniff_of_decodes decodes
      rw [found] at sniffed
      obtain ⟨-, rfl⟩ := Prod.mk.inj (Option.some.inj sniffed)
      exact Nat.lt_irrefl 0 positive
  · rintro ⟨begins, undecoded⟩
    rw [NeedsMore, sniff_eq]
    by_cases isV2 : BeginsV2 buf
    · rw [if_pos isV2]
      split
      · exact ⟨_, rfl⟩
      · cases decoded : decodeV2 buf with
        | error e => exact ⟨_, rfl⟩
        | ok found => exact absurd ⟨found.1, found.2, .inr ⟨isV2, decoded⟩⟩ undecoded
    · have isV1 := begins.resolve_right isV2
      rw [if_neg isV2, if_pos isV1]
      split
      · exact ⟨_, rfl⟩
      · next long =>
        cases decoded : decodeV1 buf with
        | error e => exact ⟨_, rfl⟩
        | ok found =>
          cases found with
          | none => exact ⟨_, rfl⟩
          | some found => exact absurd ⟨found.1, found.2, .inl ⟨isV1, by omega, decoded⟩⟩ undecoded

theorem BeginsV1.of_prefix (begins : BeginsV1 h) (isFront : buf <+: h) : BeginsV1 buf := by
  obtain ⟨rest, rfl⟩ := isFront
  have shorter : min buf.length 6 ≤ min (buf ++ rest).length 6 := by
    rw [List.length_append]
    omega
  have front := congrArg (List.take (min buf.length 6)) (show _ = _ from begins)
  rwa [← List.map_take, ← List.map_take, List.take_take, List.take_take, min_eq_left shorter,
    List.take_append_of_le_length (min_le_left _ _)] at front

theorem BeginsV1.append (begins : BeginsV1 h) (long : 6 ≤ h.length) (rest : List UInt8) : BeginsV1 (h ++ rest) := by
  have six : min (h ++ rest).length 6 = min h.length 6 := by
    rw [List.length_append]
    omega
  rw [BeginsV1, six, List.take_append_of_le_length (min_le_left _ _)]
  exact begins

theorem BeginsV2.of_prefix (begins : BeginsV2 h) (isFront : buf <+: h) : BeginsV2 buf := by
  obtain ⟨rest, rfl⟩ := isFront
  have front := congrArg (List.take buf.length) (show _ = _ from begins)
  rw [List.take_take, List.take_take, min_comm buf.length 12, ← List.take_take, List.take_left,
    min_eq_left (by rw [List.length_append]; exact Nat.le_add_right _ _)] at front
  exact front

theorem needsMore_of_framed (framed : Framed h) (isFront : buf <+: h) (short : buf ≠ h) : NeedsMore buf := by
  have shorter : buf.length < h.length :=
    Nat.lt_of_le_of_ne isFront.length_le fun same => short (isFront.eq_of_length same)
  apply needsMore_iff.mpr
  rcases framed with framed | framed
  · have begins := framed.begins.of_prefix isFront
    refine ⟨.inl begins, ?_⟩
    rintro ⟨header, n, ⟨-, -, decoded⟩ | ⟨alsoBegins, decoded⟩⟩
    · obtain ⟨-, inside, -, lineEnd, found, rfl⟩ := decodeV1_take decoded
      obtain ⟨lineEnd', ends, isLast⟩ := framed.ends
      obtain ⟨rest, rfl⟩ := isFront
      have appended := (findCrlf_eq_some found (buf.drop (lineEnd + 2) ++ rest)).2.1
      rw [← List.append_assoc, List.take_append_drop, ends] at appended
      obtain rfl := Option.some.inj appended
      omega
    · obtain ⟨-, inside, long, -, -⟩ := decodeV2_take decoded
      exact not_beginsV2_of_beginsV1 (List.ne_nil_of_length_pos (by omega)) begins alsoBegins
  · have begins := framed.begins.of_prefix isFront
    refine ⟨.inr begins, ?_⟩
    rintro ⟨header, n, ⟨alsoBegins, long, -⟩ | ⟨-, decoded⟩⟩
    · exact not_beginsV2_of_beginsV1 (List.ne_nil_of_length_pos (by omega)) alsoBegins begins
    · obtain ⟨-, known, inside⟩ := decodeV2_eq_ok decoded
      obtain ⟨-, -, long, -, -⟩ := decodeV2_take decoded
      obtain ⟨rest, rfl⟩ := isFront
      have whole := framed.whole
      rw [v2Total_append (long.trans inside), ← known] at whole
      omega

/-- What a header begins with, or what begins with a header. -/
def Completable (buf : List UInt8) : Prop := ∃ h, Valid h ∧ (buf <+: h ∨ h <+: buf)

/-- A line that is read though it is longer than the format allows. -/
def Overlong (buf : List UInt8) : Prop :=
  ∃ h header, h <+: buf ∧ v1MaxLen < h.length ∧ BeginsV1 h ∧ decodeV1 h = .ok (some (header, h.length))

/-- What a decoder takes off is a header, unless it is a line that is too long. -/
theorem completable_or_overlong (decodes : Decodes buf header n) : Completable buf ∨ Overlong buf := by
  rcases decodes with ⟨begins, -, decoded⟩ | ⟨begins, decoded⟩
  · obtain ⟨taken, inside, -, lineEnd, found, isLast⟩ := decodeV1_take decoded
    have isLong : (buf.take n).length = n := List.length_take_of_le inside
    have isFront := begins.of_prefix (List.take_prefix n buf)
    have whole : decodeV1 (buf.take n) = .ok (some (header, (buf.take n).length)) := isLong.symm ▸ taken
    by_cases short : (buf.take n).length ≤ v1MaxLen
    · left
      refine ⟨buf.take n, .inl ⟨⟨isFront, short, lineEnd, found, ?_⟩, header, whole⟩, .inr (List.take_prefix n buf)⟩
      rw [isLong, isLast]
    · exact .inr ⟨buf.take n, header, List.take_prefix n buf, Nat.lt_of_not_le short, isFront, whole⟩
  · obtain ⟨taken, inside, -, known, -⟩ := decodeV2_take decoded
    have isLong : (buf.take n).length = n := List.length_take_of_le inside
    left
    refine ⟨buf.take n, .inr ⟨⟨begins.of_prefix (List.take_prefix n buf), ?_⟩, header, ?_⟩, .inr (List.take_prefix n buf)⟩
    · rw [isLong]
      exact known
    · rw [isLong]
      exact taken

theorem decodes_of_overlong (overlong : Overlong buf) : ∃ header n, Decodes buf header n := by
  obtain ⟨h, header, ⟨rest, rfl⟩, long, begins, decoded⟩ := overlong
  rw [v1MaxLen] at long
  refine ⟨header, h.length, .inl ⟨begins.append (by omega) rest, ?_, decodeV1_append decoded rest⟩⟩
  rw [List.length_append]
  omega

/-- What is encoded is sniffed as it is; what is short of a header is waited for; what can be none is
not. -/
structure Exact (src dst : SocketAddr) (version : String) (buf : List UInt8) : Prop where
  told : src.port < 65536 → dst.port < 65536 → SameFamily src.ip dst.ip →
    ∃ head, encode src dst version = .ok head ∧
      ∀ rest, sniff (head ++ rest) = some (.proxy src dst .stream, head.length)
  waits : ∀ h, Framed h → buf <+: h → buf ≠ h → NeedsMore buf
  ends : ¬Completable buf → ¬NeedsMore buf

/-- Exactly where what begins like a header is on its way to one or past one. -/
theorem sniff_exact_iff (src dst : SocketAddr) (version : String) (buf : List UInt8) :
    Exact src dst version buf ↔ (BeginsV1 buf ∨ BeginsV2 buf → Completable buf ∨ Overlong buf) := by
  constructor
  · intro exact begins
    by_cases completable : Completable buf
    · exact .inl completable
    · by_cases decodes : ∃ header n, Decodes buf header n
      · obtain ⟨header, n, decodes⟩ := decodes
        exact completable_or_overlong decodes
      · exact absurd (needsMore_iff.mpr ⟨begins, decodes⟩) (exact.ends completable)
  · intro condition
    refine ⟨fun srcPort dstPort same => encode_spec srcPort dstPort same version, fun h => needsMore_of_framed, ?_⟩
    intro never waiting
    obtain ⟨begins, undecoded⟩ := needsMore_iff.mp waiting
    exact undecoded (decodes_of_overlong ((condition begins).resolve_left never))

def versionOne : List UInt8 := v2Signature ++ [0x11, 0x11, 0, 0]

theorem decodeV2_versionOne (rest : List UInt8) (header : Header) (n : Nat) :
    decodeV2 (versionOne ++ rest) ≠ .ok (header, n) := by
  have total : v2Total versionOne = 16 := by decide
  have refused : decodeV2 versionOne = .error "PROXY v2 版本号应为 2，实际 1" := by decide
  rw [decodeV2_append total.le, refused]
  intro decoded
  cases decoded

theorem not_completable_versionOne : ¬Completable versionOne := by
  have begins : BeginsV2 versionOne := by decide
  rintro ⟨h, ⟨framed, -⟩ | ⟨framed, header, decoded⟩, isFront⟩
  · obtain ⟨lineEnd, -, isLast⟩ := framed.ends
    have some : h ≠ [] := List.ne_nil_of_length_pos (by omega)
    rcases isFront with isFront | isFront
    · exact not_beginsV2_of_beginsV1 (by decide) (framed.begins.of_prefix isFront) begins
    · exact not_beginsV2_of_beginsV1 some framed.begins (begins.of_prefix isFront)
  · obtain ⟨rest, rfl⟩ : versionOne <+: h := by
      rcases isFront with isFront | isFront
      · exact isFront
      · have long : versionOne.length ≤ h.length := framed.whole ▸ Nat.le_add_right 16 _
        rw [isFront.eq_of_length (Nat.le_antisymm isFront.length_le long)]
    exact decodeV2_versionOne rest _ _ decoded

/-- What can be no header is waited for. -/
theorem not_exact_versionOne : ¬∀ src dst version buf, Exact src dst version buf := by
  intro exact
  have waiting : NeedsMore versionOne := ⟨.unknown, by decide⟩
  exact (exact ⟨.v4 0, 0⟩ ⟨.v4 0, 0⟩ "v2" versionOne).ends not_completable_versionOne waiting

end Nfrp.ProxyProtocol
