import Nfrp.Kcp.Segment

/-!
# The datagram codec

`decodeHeader` inverts the header layout in both directions, so one turn of the
loop of `decodeSegs` reads one segment exactly when the rest of the datagram
starts with its encoding.  Two properties of the loop follow by induction on
its fuel: it recovers every list of segments it is given, and whatever it
accepts is the encoding of what it returns, up to a remainder shorter than a
header.
-/

namespace Nfrp.Kcp

open Lib

def Seg.headerBytes (seg : Seg) (len : Nat) : List UInt8 :=
  leBytes 4 seg.conv.toNat ++ [seg.cmd] ++ [seg.frg] ++ leBytes 2 seg.wnd.toNat ++
    leBytes 4 seg.ts.toNat ++ leBytes 4 seg.sn.toNat ++ leBytes 4 seg.una.toNat ++
    leBytes 4 len

theorem Seg.encode_eq_headerBytes (seg : Seg) :
    seg.encode = seg.headerBytes seg.data.length ++ seg.data := rfl

theorem drop_add_of_drop_eq_append {bytes piece rest : List UInt8} {i n : Nat}
    (h : bytes.drop i = piece ++ rest) (length : piece.length = n) :
    bytes.drop (i + n) = rest := by
  rw [← List.drop_drop, h, ← length, List.drop_left]

variable {n w : Nat} {pkt : List UInt8} {i : Nat}

theorem map_readLe_eq_some_iff (width : 256 ^ n = 2 ^ w) {v : BitVec w} :
    (readLe n pkt i).map (BitVec.ofNat w) = some v ↔
      i + n ≤ pkt.length ∧ pkt.drop i = leBytes n v.toNat ++ pkt.drop (i + n) := by
  simp only [Option.map_eq_some_iff, readLe_eq_some_iff, width]
  constructor
  · rintro ⟨value, ⟨bound, inside, tail⟩, rfl⟩
    refine ⟨inside, ?_⟩
    rw [BitVec.toNat_ofNat, Nat.mod_eq_of_lt bound]
    exact tail
  · rintro ⟨inside, tail⟩
    exact ⟨v.toNat, ⟨v.isLt, inside, tail⟩, by simp⟩

theorem exists_map_readLe (inside : i + n ≤ pkt.length) :
    ∃ v, (readLe n pkt i).map (BitVec.ofNat w) = some v := by
  obtain ⟨value, found⟩ := readLe_of_le inside
  exact ⟨_, congrArg (Option.map _) found⟩

theorem readU32_eq_some_iff {v : U32} :
    readU32 pkt i = some v ↔ i + 4 ≤ pkt.length ∧ pkt.drop i = leBytes 4 v.toNat ++ pkt.drop (i + 4) :=
  map_readLe_eq_some_iff rfl

theorem readU16_eq_some_iff {v : U16} :
    readU16 pkt i = some v ↔ i + 2 ≤ pkt.length ∧ pkt.drop i = leBytes 2 v.toNat ++ pkt.drop (i + 2) :=
  map_readLe_eq_some_iff rfl

theorem readU32_isSome (inside : i + 4 ≤ pkt.length) : ∃ v, readU32 pkt i = some v := exists_map_readLe inside

theorem readU16_isSome (inside : i + 2 ≤ pkt.length) : ∃ v, readU16 pkt i = some v := exists_map_readLe inside

theorem decodeHeader_isSome {pkt : List UInt8} {i : Nat} (inside : i + header ≤ pkt.length) :
    ∃ found, decodeHeader pkt i = some found := by
  rw [header, ikcpOverhead] at inside
  obtain ⟨conv, hconv⟩ := readU32_isSome (show i + 4 ≤ pkt.length by omega)
  obtain ⟨wnd, hwnd⟩ := readU16_isSome (show i + 6 + 2 ≤ pkt.length by omega)
  obtain ⟨ts, hts⟩ := readU32_isSome (show i + 8 + 4 ≤ pkt.length by omega)
  obtain ⟨sn, hsn⟩ := readU32_isSome (show i + 12 + 4 ≤ pkt.length by omega)
  obtain ⟨una, huna⟩ := readU32_isSome (show i + 16 + 4 ≤ pkt.length by omega)
  obtain ⟨len, hlen⟩ := readU32_isSome (show i + 20 + 4 ≤ pkt.length by omega)
  have hcmd : pkt[i + 4]? = some pkt[i + 4] := List.getElem?_eq_getElem (by omega)
  have hfrg : pkt[i + 5]? = some pkt[i + 5] := List.getElem?_eq_getElem (by omega)
  rw [← Option.isSome_iff_exists]
  simp only [decodeHeader, hconv, hcmd, hfrg, hwnd, hts, hsn, huna, hlen,
    Option.bind_eq_bind, Option.bind_some, Option.pure_def, Option.isSome_some]

theorem decodeHeader_sound {pkt : List UInt8} {i len : Nat} {seg : Seg}
    (h : decodeHeader pkt i = some (seg, len)) :
    seg.data = [] ∧ seg.wire = seg ∧ i + header ≤ pkt.length ∧
      pkt.drop i = seg.headerBytes len ++ pkt.drop (i + header) := by
  simp only [decodeHeader, Option.bind_eq_bind, Option.bind_eq_some_iff, Option.pure_def,
    Option.some.injEq, Prod.mk.injEq, readU32_eq_some_iff, readU16_eq_some_iff,
    getElem?_eq_some_iff_drop] at h
  obtain ⟨conv, ⟨-, hconv⟩, cmd, hcmd, frg, hfrg, wnd, ⟨-, hwnd⟩, ts, ⟨-, hts⟩,
    sn, ⟨-, hsn⟩, una, ⟨-, huna⟩, lenField, ⟨inside, hlen⟩, rfl, rfl⟩ := h
  refine ⟨rfl, rfl, inside, ?_⟩
  rw [hconv, hcmd, hfrg, hwnd, hts, hsn, huna, hlen]
  simp [Seg.headerBytes, header, ikcpOverhead]

theorem decodeHeader_complete {pkt rest : List UInt8} {i len : Nat} {seg : Seg}
    (bounded : len < 2 ^ 32) (h : pkt.drop i = seg.headerBytes len ++ rest) :
    decodeHeader pkt i =
      some ({ seg with data := [], resendts := 0, rto := 0, fastack := 0, xmit := 0 }, len) := by
  have inside : i + header ≤ pkt.length := by
    have lengths := congrArg List.length h
    simp only [List.length_drop, List.length_append, Seg.headerBytes, length_leBytes,
      List.length_cons, List.length_nil, header, ikcpOverhead] at lengths ⊢
    omega
  rw [header, ikcpOverhead] at inside
  simp only [Seg.headerBytes, List.append_assoc] at h
  have atCmd := drop_add_of_drop_eq_append h (n := 4) (by simp)
  have atFrg := drop_add_of_drop_eq_append atCmd (n := 1) (by simp)
  have atWnd := drop_add_of_drop_eq_append atFrg (n := 1) (by simp)
  have atTs := drop_add_of_drop_eq_append atWnd (n := 2) (by simp)
  have atSn := drop_add_of_drop_eq_append atTs (n := 4) (by simp)
  have atUna := drop_add_of_drop_eq_append atSn (n := 4) (by simp)
  have atLen := drop_add_of_drop_eq_append atUna (n := 4) (by simp)
  have atRest := drop_add_of_drop_eq_append atLen (n := 4) (by simp)
  have hconv : readU32 pkt i = some seg.conv :=
    readU32_eq_some_iff.mpr ⟨by omega, by rw [atCmd, h]⟩
  have hcmd : pkt[i + 4]? = some seg.cmd :=
    getElem?_eq_some_iff_drop.mpr (by rw [atFrg, atCmd]; rfl)
  have hfrg : pkt[i + 5]? = some seg.frg :=
    getElem?_eq_some_iff_drop.mpr (by rw [atWnd, atFrg]; rfl)
  have hwnd : readU16 pkt (i + 6) = some seg.wnd :=
    readU16_eq_some_iff.mpr ⟨by omega, by rw [atTs, atWnd]⟩
  have hts : readU32 pkt (i + 8) = some seg.ts :=
    readU32_eq_some_iff.mpr ⟨by omega, by rw [atSn, atTs]⟩
  have hsn : readU32 pkt (i + 12) = some seg.sn :=
    readU32_eq_some_iff.mpr ⟨by omega, by rw [atUna, atSn]⟩
  have huna : readU32 pkt (i + 16) = some seg.una :=
    readU32_eq_some_iff.mpr ⟨by omega, by rw [atLen, atUna]⟩
  have lenField : (BitVec.ofNat 32 len).toNat = len := by
    rw [BitVec.toNat_ofNat, Nat.mod_eq_of_lt bounded]
  have hlen : readU32 pkt (i + 20) = some (BitVec.ofNat 32 len) :=
    readU32_eq_some_iff.mpr ⟨by omega, by rw [lenField, atRest, atLen]⟩
  simp only [decodeHeader, hconv, hcmd, hfrg, hwnd, hts, hsn, huna, hlen, lenField,
    Option.bind_eq_bind, Option.bind_some, Option.pure_def, Seg.new]

/-- The header of an encoding reads back, also when its data is too long for
the length field. -/
theorem decodeHeader_encode (seg : Seg) :
    ∃ len, decodeHeader seg.encode 0 =
      some ({ seg with data := [], resendts := 0, rto := 0, fastack := 0, xmit := 0 }, len) := by
  have truncated : seg.encode.drop 0 =
      seg.headerBytes (seg.data.length % 256 ^ 4) ++ seg.data := by
    rw [List.drop_zero, Seg.encode_eq_headerBytes, Seg.headerBytes, Seg.headerBytes, leBytes_mod]
  exact ⟨_, decodeHeader_complete (Nat.mod_lt _ (by decide)) truncated⟩

theorem decodeSegsFrom_encode {pkt rest : List UInt8} {fuel i : Nat} {segs : List Seg}
    {seg : Seg} (fits : seg.data.length ≤ ikcpMtuDef) (h : pkt.drop i = seg.encode ++ rest) :
    decodeSegsFrom pkt (fuel + 1) i segs =
      decodeSegsFrom pkt fuel (i + seg.encode.length) (segs ++ [seg.wire]) := by
  rw [ikcpMtuDef] at fits
  have atData : pkt.drop (i + header) = seg.data ++ rest :=
    drop_add_of_drop_eq_append (by rw [h, Seg.encode, List.append_assoc]) (by simp)
  have atRest : pkt.drop (i + header + seg.data.length) = rest :=
    drop_add_of_drop_eq_append atData rfl
  have atHeader : pkt.drop i = seg.headerBytes seg.data.length ++ (seg.data ++ rest) := by
    rw [h, Seg.encode_eq_headerBytes, List.append_assoc]
  have headerRead := decodeHeader_complete (by omega) atHeader
  have dataLength := congrArg List.length atData
  have inside : i + header ≤ pkt.length := (decodeHeader_sound headerRead).2.2.1
  simp only [List.length_drop, List.length_append] at dataLength
  have dataRead : slice pkt (i + header) (i + header + seg.data.length) = some seg.data :=
    (slice_eq_some_iff (by omega)).mpr ⟨by omega, by omega, by rw [atRest, atData]⟩
  rw [decodeSegsFrom, if_pos inside, headerRead]
  simp only [Option.bind_eq_bind, Option.bind_some]
  rw [if_neg (by omega), if_neg (by simp only [ikcpMtuDef]; omega), dataRead]
  simp only [Option.bind_some, Seg.length_encode, Nat.add_assoc]
  rfl

theorem decodeSegsFrom_flatMap_encode {pkt : List UInt8} (segs : List Seg)
    (fits : ∀ seg ∈ segs, seg.data.length ≤ ikcpMtuDef) :
    ∀ {fuel i : Nat} {before : List Seg}, segs.length < fuel →
      pkt.drop i = segs.flatMap Seg.encode →
      decodeSegsFrom pkt fuel i before =
        some (if (before ++ segs.map Seg.wire).isEmpty then .error .tooShort
          else .ok (before ++ segs.map Seg.wire)) := by
  induction segs with
  | nil =>
    intro fuel i before enough h
    obtain ⟨fuel, rfl⟩ := Nat.exists_eq_succ_of_ne_zero (Nat.ne_of_gt enough)
    have ended : pkt.length ≤ i := by simpa using h
    rw [decodeSegsFrom, if_neg (by simp only [header, ikcpOverhead]; omega)]
    simp only [List.map_nil, List.append_nil, Option.pure_def]
    split <;> rfl
  | cons seg segs ih =>
    intro fuel i before enough h
    obtain ⟨fuel, rfl⟩ := Nat.exists_eq_succ_of_ne_zero (Nat.ne_of_gt (Nat.zero_lt_of_lt enough))
    rw [List.flatMap_cons] at h
    rw [decodeSegsFrom_encode (fits seg (by simp)) h,
      ih (fun other membership => fits other (by simp [membership]))
        (by simpa using enough) (drop_add_of_drop_eq_append h rfl)]
    simp

/-- What the loop accepts is what it was given, up to a remainder that cannot
hold a header. -/
theorem decodeSegsFrom_sound {pkt : List UInt8} :
    ∀ {fuel i : Nat} {before segs : List Seg},
      decodeSegsFrom pkt fuel i before = some (.ok segs) →
      ∃ read tail, segs = before ++ read ∧ segs ≠ [] ∧ tail.length < header ∧
        pkt.drop i = read.flatMap Seg.encode ++ tail ∧
        ∀ seg ∈ read, seg.wire = seg ∧ seg.data.length ≤ ikcpMtuDef := by
  intro fuel
  induction fuel with
  | zero => simp [decodeSegsFrom]
  | succ fuel ih =>
    intro i before segs h
    rw [decodeSegsFrom] at h
    split at h
    next inside =>
      obtain ⟨⟨seg, len⟩, headerRead⟩ := decodeHeader_isSome inside
      obtain ⟨-, sameWire, -, atHeader⟩ := decodeHeader_sound headerRead
      simp only [headerRead, Option.bind_eq_bind, Option.bind_some] at h
      split at h
      next short => simp at h
      next available =>
        split at h
        next tooLarge => simp at h
        next fits =>
          rw [Option.bind_eq_some_iff] at h
          obtain ⟨data, dataRead, h⟩ := h
          obtain ⟨dataLength, -, atData⟩ := (slice_eq_some_iff (by omega)).mp dataRead
          obtain ⟨read, tail, rfl, nonempty, tailShort, atRest, wires⟩ := ih h
          have length_eq : data.length = len := by omega
          refine ⟨{ seg with data } :: read, tail, by simp, nonempty, tailShort, ?_, ?_⟩
          · rw [atHeader, atData, atRest, List.flatMap_cons, Seg.encode_eq_headerBytes]
            simp only [length_eq, List.append_assoc]
            rfl
          · intro other membership
            rcases List.mem_cons.mp membership with rfl | inRead
            · refine ⟨?_, by simp only [length_eq]; omega⟩
              have wireData := congrArg (fun s : Seg => { s with data }) sameWire
              exact wireData
            · exact wires other inRead
    next ended =>
      split at h
      next empty => simp at h
      next nonempty =>
        simp only [Option.pure_def, Option.some.injEq, Except.ok.injEq] at h
        subst h
        refine ⟨[], pkt.drop i, by simp, by simpa using nonempty, ?_, by simp, by simp⟩
        simp only [List.length_drop, header, ikcpOverhead] at ended ⊢
        omega

/-- The fuel is never used up and no access leaves the datagram. -/
theorem decodeSegsFrom_isSome {pkt : List UInt8} :
    ∀ {fuel i : Nat} {before : List Seg}, i ≤ pkt.length → pkt.length - i < fuel →
      ∃ result, decodeSegsFrom pkt fuel i before = some result := by
  intro fuel
  induction fuel with
  | zero => intro i before _ enough; omega
  | succ fuel ih =>
    intro i before bound enough
    rw [decodeSegsFrom]
    split
    next inside =>
      obtain ⟨⟨seg, len⟩, headerRead⟩ := decodeHeader_isSome inside
      simp only [headerRead, Option.bind_eq_bind, Option.bind_some]
      split
      next short => exact ⟨_, rfl⟩
      next available =>
        split
        next tooLarge => exact ⟨_, rfl⟩
        next fits =>
          have within : i + header + len ≤ pkt.length := by omega
          have dataRead : slice pkt (i + header) (i + header + len) =
              some ((pkt.drop (i + header)).take len) := by
            simp [slice, within]
          rw [dataRead, Option.bind_some]
          rw [header, ikcpOverhead] at within ⊢
          exact ih (by omega) (by omega)
    next ended => split <;> exact ⟨_, rfl⟩

theorem decodeSegs_isSome (pkt : List UInt8) : (decodeSegs pkt).isSome := by
  rw [Option.isSome_iff_exists]
  exact decodeSegsFrom_isSome (by omega) (by omega)

theorem decodeSegs_flatMap_encode {segs : List Seg} (nonempty : segs ≠ [])
    (fits : ∀ seg ∈ segs, seg.data.length ≤ ikcpMtuDef) :
    decodeSegs (segs.flatMap Seg.encode) = some (.ok (segs.map Seg.wire)) := by
  have enough : segs.length < (segs.flatMap Seg.encode).length + 1 := by
    have total := List.length_le_sum_of_one_le (segs.map fun seg => seg.encode.length)
      (by simp [header, ikcpOverhead]; omega)
    rw [List.length_flatMap]
    simpa [Nat.lt_succ_iff] using total
  rw [decodeSegs, decodeSegsFrom_flatMap_encode segs fits enough (by simp)]
  simp [nonempty]

/-- A segment whose length fits its field decodes alone, or not at all when it
is beyond the MTU. -/
theorem decodeSegs_encode {seg : Seg} (bounded : seg.data.length < 2 ^ 32) :
    decodeSegs seg.encode =
      some (if seg.data.length ≤ ikcpMtuDef then .ok [seg.wire]
        else .error (.segTooLarge seg.data.length ikcpMtuDef)) := by
  by_cases fits : seg.data.length ≤ ikcpMtuDef
  · have decoded := @decodeSegs_flatMap_encode [seg] (by simp) (by simpa using fits)
    rw [if_pos fits]
    simpa using decoded
  · have atStart : seg.encode.drop 0 = seg.headerBytes seg.data.length ++ seg.data := rfl
    have inside : 0 + header ≤ seg.encode.length := by simp
    have available : ¬ seg.encode.length - (0 + header) < seg.data.length := by simp
    rw [decodeSegs, decodeSegsFrom, if_pos inside, decodeHeader_complete bounded atStart]
    simp only [Option.bind_eq_bind, Option.bind_some]
    rw [if_neg available, if_pos (not_le.mp fits), if_neg fits]
    rfl

/-- Decoding undoes encoding for every nonempty list of segments within the
MTU; whatever decodes is, up to a remainder shorter than a header, the encoding
of the result; and no byte string makes the decoder read outside it. -/
theorem decodeSegs_codec :
    (∀ segs : List Seg, segs ≠ [] → (∀ seg ∈ segs, seg.data.length ≤ ikcpMtuDef) →
      decodeSegs (segs.flatMap Seg.encode) = some (.ok (segs.map Seg.wire))) ∧
    ∀ pkt : List UInt8, ∃ result, decodeSegs pkt = some result ∧
      ∀ segs, result = .ok segs →
        segs ≠ [] ∧ ∃ tail, tail.length < header ∧ pkt = segs.flatMap Seg.encode ++ tail := by
  constructor
  · intro segs nonempty fits
    exact decodeSegs_flatMap_encode nonempty fits
  · intro pkt
    obtain ⟨result, decoded⟩ := Option.isSome_iff_exists.mp (decodeSegs_isSome pkt)
    refine ⟨result, decoded, ?_⟩
    rintro segs rfl
    obtain ⟨read, tail, rfl, nonempty, tailShort, whole, -⟩ := decodeSegsFrom_sound decoded
    exact ⟨nonempty, tail, tailShort, by simpa using whole⟩

/-- The empty list of segments does not come back, and neither does a stray byte
behind a segment. -/
theorem decodeSegs_empty_and_trailing :
    decodeSegs (([] : List Seg).flatMap Seg.encode) = some (.error .tooShort) ∧
      decodeSegs ((Seg.new [7]).encode ++ [0]) = some (.ok [Seg.new [7]]) ∧
      [Seg.new [7]].flatMap Seg.encode ≠ (Seg.new [7]).encode ++ [0] := by
  decide

end Nfrp.Kcp
