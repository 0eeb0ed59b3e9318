import Nfrp.Lib.Checked
import Nfrp.Lib.Overflow
import Nfrp.Vnet.Packet

/-!
# The answer of the gateway

The answer to an echo request is the request with its two ends exchanged, its type cleared and
its two checksums computed anew.  The sum under a checksum is kept in 32 bits: it has room for
65537 words that are all ones, and a frame may hold eight times as many.
-/

namespace Nfrp.Vnet

open Lib

def maxFrame : Nat := 1024 * 1024

section Checked

def sumChecked : Nat → List Nat → Option Nat
  | sum, [] => some sum
  | sum, w :: ws => (checkedAdd 32 sum w).bind fun sum => sumChecked sum ws

def foldCarriesChecked (sum : Nat) : Option Nat :=
  if sum / 65536 = 0 then some sum
  else
    match isNext : checkedAdd 32 (sum % 65536) (sum / 65536) with
    | none => none
    | some next => foldCarriesChecked next
termination_by sum
decreasing_by
  unfold checkedAdd at isNext
  split at isNext
  · obtain rfl := Option.some.inj isNext
    omega
  · cases isNext

def checksumChecked (data : List UInt8) : Option Nat :=
  (sumChecked 0 (words data)).bind fun sum => (foldCarriesChecked sum).map (65535 - ·)

/-- The answer with overflow checks: `none` is a panic, `some none` that there is no answer. -/
def icmpEchoReplyChecked (pkt : Packet) : Option (Option Packet) :=
  match parseIpv4 pkt with
  | none => some none
  | some h =>
    if h.protocol ≠ 1 ∨ h.headerLen ≠ 20 then some none
    else if pkt.length < h.headerLen + 8 ∨ pkt.getD h.headerLen 0 ≠ 8 then some none
    else
      let out := writeAt (writeAt pkt 12 (octets h.dst)) 16 (octets h.src)
      let out := writeAt out 10 [0, 0]
      (checksumChecked (out.take h.headerLen)).bind fun ipSum =>
      let out := writeAt out 10 (beBytes 2 ipSum)
      let out := writeAt out h.headerLen [0]
      let out := writeAt out (h.headerLen + 2) [0, 0]
      (checksumChecked (out.drop h.headerLen)).map fun icmpSum =>
        some (writeAt out (h.headerLen + 2) (beBytes 2 icmpSum))

end Checked

/-- The complement of the sum in one's complement, taken with the field of the checksum
cleared. -/
def rfcChecksum (data : List UInt8) (field : Nat) : Nat :=
  65535 - onesSum (words (writeAt data field [0, 0]))

def ChecksumCorrect (data : List UInt8) (field : Nat) : Prop :=
  ofBeBytes ((data.drop field).take 2) = rfcChecksum data field

structure ValidReply (pkt reply : Packet) : Prop where
  length : reply.length = pkt.length
  src : addrAt reply 12 = addrAt pkt 16
  dst : addrAt reply 16 = addrAt pkt 12
  echoReply : reply[20]? = some 0
  unchanged : ∀ i, i < 10 ∨ i = 21 ∨ 24 ≤ i → reply[i]? = pkt[i]?
  headerSum : ChecksumCorrect (reply.take 20) 10
  messageSum : ChecksumCorrect (reply.drop 20) 2

/-- The request is answered without an overflow and by a valid packet, or not at all. -/
def EchoSound (pkt : Packet) : Prop :=
  icmpEchoReplyChecked pkt = some (icmpEchoReply pkt) ∧ ∀ reply, icmpEchoReply pkt = some reply → ValidReply pkt reply

def EchoRequest (pkt : Packet) : Prop :=
  28 ≤ pkt.length ∧ pkt.getD 0 0 >>> 4 = 4 ∧ (pkt.getD 0 0 &&& 0x0f).toNat = 5 ∧ pkt.getD 9 0 = 1 ∧
    pkt.getD 20 0 = 8

instance (pkt : Packet) : Decidable (EchoRequest pkt) := inferInstanceAs (Decidable (_ ∧ _))

def replyMessage (pkt : Packet) : List UInt8 := writeAt (writeAt (pkt.drop 20) 0 [0]) 2 [0, 0]

def replyHeader (pkt : Packet) : List UInt8 :=
  writeAt (writeAt (writeAt (pkt.take 20) 12 (octets (addrAt pkt 16))) 16 (octets (addrAt pkt 12))) 10 [0, 0]

section WriteAt

variable {front back piece other : List UInt8} {start : Nat}

theorem writeAt_append_left (inside : start + piece.length ≤ front.length) :
    writeAt (front ++ back) start piece = writeAt front start piece ++ back := by
  rw [writeAt, writeAt, List.take_append_of_le_length (by omega), List.drop_append_of_le_length inside,
    List.append_assoc, List.append_assoc, List.append_assoc]

theorem writeAt_append_right (beyond : front.length ≤ start) :
    writeAt (front ++ back) start piece = front ++ writeAt back (start - front.length) piece := by
  have after : start + piece.length - front.length = start - front.length + piece.length := by omega
  rw [writeAt, writeAt, List.take_append, List.take_of_length_le beyond, List.drop_append,
    List.drop_of_length_le (by omega), List.nil_append, after, List.append_assoc, List.append_assoc, List.append_assoc]

theorem writeAt_writeAt (inside : start + piece.length ≤ front.length) (same : other.length = piece.length) :
    writeAt (writeAt front start piece) start other = writeAt front start other := by
  have sameLength := length_writeAt inside
  apply List.ext_getElem?
  intro i
  rw [getElem?_writeAt (by omega), getElem?_writeAt inside, @getElem?_writeAt front other start (by omega), same]
  split
  · rfl
  · rfl

theorem take_drop_writeAt (inside : start + piece.length ≤ front.length) :
    ((writeAt front start piece).drop start).take piece.length = piece := by
  rw [writeAt, List.append_assoc, List.drop_left' (List.length_take_of_le (by omega)), List.take_left' rfl]

end WriteAt

section Sums

theorem words_lt (data : List UInt8) : ∀ w ∈ words data, w < 65536 := by
  induction data using words.induct with
  | case1 => simp [words]
  | case2 last =>
    intro w isLast
    rw [List.mem_singleton.mp isLast]
    exact @ofBeBytes_lt 2 [last, 0] rfl
  | case3 high low rest ih =>
    rw [words, List.forall_mem_cons]
    exact ⟨@ofBeBytes_lt 2 [high, low] rfl, ih⟩

theorem sum_words_le (data : List UInt8) : (words data).sum ≤ 65535 * ((data.length + 1) / 2) := by
  induction data using words.induct with
  | case1 => simp [words]
  | case2 last =>
    have isWord := words_lt [last] _ List.mem_cons_self
    simp only [words, List.sum_cons, List.sum_nil, List.length_singleton] at isWord ⊢
    omega
  | case3 high low rest ih =>
    have isWord := words_lt (high :: low :: rest) _ List.mem_cons_self
    simp only [words, List.sum_cons, List.length_cons] at isWord ⊢
    omega

theorem sumChecked_eq_some {sum total : Nat} {ws : List Nat} (small : sum < 2 ^ 32) :
    sumChecked sum ws = some total ↔ sum + ws.sum < 2 ^ 32 ∧ total = sum + ws.sum := by
  induction ws generalizing sum with
  | nil =>
    rw [sumChecked, List.sum_nil, Nat.add_zero, Option.some.injEq, eq_comm]
    exact (and_iff_right small).symm
  | cons w ws ih =>
    rw [sumChecked, List.sum_cons]
    by_cases fits : sum + w < 2 ^ 32
    · rw [checkedAdd_of_lt fits, Option.bind_some, ih fits, Nat.add_assoc]
    · have overflows : checkedAdd 32 sum w = none := if_neg fits
      rw [overflows, Option.bind_none]
      constructor
      · intro isSome
        cases isSome
      · intro whole
        omega

theorem foldCarries_eq (sum : Nat) : foldCarries sum = residue sum := by
  induction sum using foldCarries.induct with
  | case1 sum none =>
    rw [foldCarries, if_pos none]
    unfold residue
    split <;> omega
  | case2 sum carry ih =>
    rw [foldCarries, if_neg carry, ih]
    unfold residue
    split <;> split <;> omega

theorem foldCarriesChecked_eq {sum : Nat} (small : sum < 2 ^ 32) :
    foldCarriesChecked sum = some (foldCarries sum) := by
  induction sum using foldCarries.induct with
  | case1 sum none => rw [foldCarriesChecked, foldCarries, if_pos none, if_pos none]
  | case2 sum carry ih =>
    have fits : checkedAdd 32 (sum % 65536) (sum / 65536) = some (sum % 65536 + sum / 65536) :=
      checkedAdd_of_lt (by omega)
    rw [foldCarriesChecked, foldCarries, if_neg carry, if_neg carry]
    split
    next isNone =>
      rw [fits] at isNone
      cases isNone
    next isNext =>
      rw [fits] at isNext
      obtain rfl := Option.some.inj isNext
      exact ih (by omega)

/-- With overflow checks there is a checksum exactly if the sum fits. -/
theorem checksumChecked_eq_some {data : List UInt8} {sum : Nat} :
    checksumChecked data = some sum ↔ (words data).sum < 2 ^ 32 ∧ sum = checksum data := by
  rw [checksumChecked]
  by_cases fits : (words data).sum < 2 ^ 32
  · have summed : sumChecked 0 (words data) = some (words data).sum :=
      (sumChecked_eq_some (by decide)).mpr ⟨by omega, (Nat.zero_add _).symm⟩
    rw [summed, Option.bind_some, foldCarriesChecked_eq fits, Option.map_some, Option.some.injEq, checksum,
      Nat.mod_eq_of_lt fits, eq_comm]
    exact (and_iff_right fits).symm
  · have overflows : sumChecked 0 (words data) = none := by
      apply Option.eq_none_iff_forall_ne_some.mpr
      intro total isTotal
      have inside := ((sumChecked_eq_some (by decide)).mp isTotal).1
      omega
    rw [overflows, Option.bind_none]
    constructor
    · intro isSome
      cases isSome
    · exact fun inside => absurd inside.1 fits

/-- In a frame, the checksum is the one in one's complement exactly if the sum fits. -/
theorem checksum_eq_iff {data : List UInt8} (short : data.length ≤ maxFrame) :
    checksum data = 65535 - onesSum (words data) ↔ (words data).sum < 2 ^ 32 := by
  have bounded := sum_words_le data
  rw [maxFrame] at short
  have wrapped := residue_le ((words data).sum % 2 ^ 32)
  have whole := residue_le (words data).sum
  rw [checksum, foldCarries_eq, onesSum_eq_residue (words_lt data), ← residue_mod_eq_iff (by omega)]
  omega

end Sums

section Assembly

variable {pkt : Packet}

theorem parseIpv4_of_request (request : EchoRequest pkt) :
    parseIpv4 pkt = some ⟨addrAt pkt 12, addrAt pkt 16, 1, 20⟩ := by
  obtain ⟨long, version, plain, icmp, -⟩ := request
  rw [parseIpv4, if_neg (by omega), if_neg (not_not.mpr version)]
  simp only [plain, icmp]
  exact if_neg (by omega)

theorem not_answered (other : ¬ EchoRequest pkt) :
    icmpEchoReply pkt = none ∧ icmpEchoReplyChecked pkt = some none := by
  cases isHeader : parseIpv4 pkt with
  | none => simp [icmpEchoReply, icmpEchoReplyChecked, isHeader]
  | some h =>
    obtain ⟨_, version, isLen, _, _, _, isProtocol⟩ := parseIpv4_eq_some isHeader
    simp only [icmpEchoReply, icmpEchoReplyChecked, isHeader, Option.bind_eq_bind, Option.bind_some]
    by_cases unlike : h.protocol ≠ 1 ∨ h.headerLen ≠ 20
    · rw [if_pos unlike, if_pos unlike]
      exact ⟨rfl, rfl⟩
    · rw [if_neg unlike, if_neg unlike, if_pos, if_pos]
      · exact ⟨rfl, rfl⟩
      all_goals
        rw [not_or, not_not, not_not] at unlike
        rw [unlike.2] at isLen ⊢
        by_contra request
        rw [not_or, not_lt, not_not] at request
        exact other ⟨request.1, version, by omega, isProtocol ▸ unlike.1, request.2⟩

theorem length_octets (addr : Ipv4Addr) : (octets addr).length = 4 := length_beBytes 4 _

theorem exchanged_eq {header : List UInt8} (isHeader : header.length = 20) (rest : List UInt8) (src dst : Ipv4Addr) :
    writeAt (writeAt (header ++ rest) 12 (octets src)) 16 (octets dst) =
        writeAt (writeAt header 12 (octets src)) 16 (octets dst) ++ rest ∧
      (writeAt (writeAt header 12 (octets src)) 16 (octets dst)).length = 20 := by
  have fitsSrc : 12 + (octets src).length ≤ header.length := by
    rw [length_octets, isHeader]
    decide
  have fitsDst : 16 + (octets dst).length ≤ (writeAt header 12 (octets src)).length := by
    rw [length_writeAt fitsSrc, length_octets, isHeader]
  rw [writeAt_append_left fitsSrc, writeAt_append_left fitsDst, length_writeAt fitsDst, length_writeAt fitsSrc]
  exact ⟨rfl, isHeader⟩

theorem getElem?_exchanged {header : List UInt8} (isHeader : header.length = 20) (src dst : Ipv4Addr) {i : Nat}
    (before : i < 12) : (writeAt (writeAt header 12 (octets src)) 16 (octets dst))[i]? = header[i]? := by
  have fitsSrc : 12 + (octets src).length ≤ header.length := by
    rw [length_octets, isHeader]
    decide
  have fitsDst : 16 + (octets dst).length ≤ (writeAt header 12 (octets src)).length := by
    rw [length_writeAt fitsSrc, length_octets, isHeader]
  rw [getElem?_writeAt fitsDst, if_neg (by omega), getElem?_writeAt fitsSrc, if_neg (by omega)]

theorem length_take_request (request : EchoRequest pkt) : (pkt.take 20).length = 20 :=
  List.length_take_of_le ((show 20 ≤ 28 by decide).trans request.1)

theorem length_replyHeader (request : EchoRequest pkt) : (replyHeader pkt).length = 20 := by
  have exchanged := (exchanged_eq (length_take_request request) [] (addrAt pkt 16) (addrAt pkt 12)).2
  rw [replyHeader, length_writeAt, exchanged]
  rw [exchanged]
  decide

theorem replyHeader_clear (request : EchoRequest pkt) : writeAt (replyHeader pkt) 10 [0, 0] = replyHeader pkt := by
  have exchanged := (exchanged_eq (length_take_request request) [] (addrAt pkt 16) (addrAt pkt 12)).2
  rw [replyHeader, writeAt_writeAt _ rfl]
  rw [exchanged]
  decide

theorem cleared_eq (request : EchoRequest pkt) :
    writeAt (writeAt (writeAt pkt 12 (octets (addrAt pkt 16))) 16 (octets (addrAt pkt 12))) 10 [0, 0] =
      replyHeader pkt ++ pkt.drop 20 := by
  obtain ⟨written, exchanged⟩ :=
    exchanged_eq (length_take_request request) (pkt.drop 20) (addrAt pkt 16) (addrAt pkt 12)
  rw [List.take_append_drop] at written
  rw [written, replyHeader, writeAt_append_left]
  rw [exchanged]
  decide

theorem length_typed (request : EchoRequest pkt) : (writeAt (pkt.drop 20) 0 [0]).length = pkt.length - 20 := by
  have long := request.1
  rw [length_writeAt, List.length_drop]
  rw [List.length_drop, List.length_singleton]
  omega

theorem two_le_typed (request : EchoRequest pkt) :
    2 + [(0 : UInt8), 0].length ≤ (writeAt (pkt.drop 20) 0 [0]).length := by
  have long := request.1
  rw [length_typed request]
  exact show 4 ≤ pkt.length - 20 by omega

theorem length_replyMessage (request : EchoRequest pkt) : (replyMessage pkt).length = pkt.length - 20 := by
  rw [replyMessage, length_writeAt (two_le_typed request), length_typed request]

theorem replyMessage_clear (request : EchoRequest pkt) : writeAt (replyMessage pkt) 2 [0, 0] = replyMessage pkt :=
  writeAt_writeAt (two_le_typed request) rfl

theorem length_sum (value : Nat) : (beBytes 2 value).length = 2 := length_beBytes 2 value

theorem length_summedHeader (request : EchoRequest pkt) (ipSum : Nat) :
    (writeAt (replyHeader pkt) 10 (beBytes 2 ipSum)).length = 20 := by
  have isHeader := length_replyHeader request
  rw [length_writeAt, isHeader]
  rw [isHeader, length_sum]
  decide

theorem message_eq (request : EchoRequest pkt) (ipSum : Nat) :
    writeAt (writeAt (writeAt (replyHeader pkt ++ pkt.drop 20) 10 (beBytes 2 ipSum)) 20 [0]) 22 [0, 0] =
      writeAt (replyHeader pkt) 10 (beBytes 2 ipSum) ++ replyMessage pkt := by
  have isHeader := length_replyHeader request
  have summed := length_summedHeader request ipSum
  have fits : 10 + (beBytes 2 ipSum).length ≤ (replyHeader pkt).length := by
    rw [isHeader, length_sum]
    decide
  rw [writeAt_append_left fits, writeAt_append_right summed.le, writeAt_append_right (summed.le.trans (by decide)),
    summed]
  rfl

theorem final_eq (request : EchoRequest pkt) (ipSum icmpSum : Nat) :
    writeAt (writeAt (replyHeader pkt) 10 (beBytes 2 ipSum) ++ replyMessage pkt) 22 (beBytes 2 icmpSum) =
      writeAt (replyHeader pkt) 10 (beBytes 2 ipSum) ++ writeAt (replyMessage pkt) 2 (beBytes 2 icmpSum) := by
  have summed := length_summedHeader request ipSum
  rw [writeAt_append_right (summed.le.trans (by decide)), summed]

theorem icmpEchoReply_eq (request : EchoRequest pkt) :
    icmpEchoReply pkt = some (writeAt (replyHeader pkt) 10 (beBytes 2 (checksum (replyHeader pkt))) ++
      writeAt (replyMessage pkt) 2 (beBytes 2 (checksum (replyMessage pkt)))) := by
  have long := request.1
  have kind := request.2.2.2.2
  simp only [icmpEchoReply, parseIpv4_of_request request, Option.bind_eq_bind, Option.bind_some]
  rw [if_neg (by decide), if_neg (by rw [not_or, not_lt, not_not]; exact ⟨long, kind⟩), cleared_eq request,
    List.take_left' (length_replyHeader request), message_eq request,
    List.drop_left' (length_summedHeader request _), final_eq request]

theorem icmpEchoReplyChecked_eq (request : EchoRequest pkt) :
    icmpEchoReplyChecked pkt = (checksumChecked (replyHeader pkt)).bind fun ipSum =>
      (checksumChecked (replyMessage pkt)).map fun icmpSum =>
        some (writeAt (replyHeader pkt) 10 (beBytes 2 ipSum) ++ writeAt (replyMessage pkt) 2 (beBytes 2 icmpSum)) := by
  have long := request.1
  have kind := request.2.2.2.2
  simp only [icmpEchoReplyChecked, parseIpv4_of_request request]
  rw [if_neg (by decide), if_neg (by rw [not_or, not_lt, not_not]; exact ⟨long, kind⟩), cleared_eq request,
    List.take_left' (length_replyHeader request)]
  simp only [message_eq request, List.drop_left' (length_summedHeader request _), final_eq request]

theorem checksum_lt (data : List UInt8) : checksum data < 65536 :=
  (Nat.sub_le _ _).trans_lt (by decide)

theorem checksumCorrect_iff {data : List UInt8} {field : Nat} (inside : field + 2 ≤ data.length)
    (isClear : writeAt data field [0, 0] = data) (short : data.length ≤ maxFrame) :
    ChecksumCorrect (writeAt data field (beBytes 2 (checksum data))) field ↔ (words data).sum < 2 ^ 32 := by
  have fits : field + (beBytes 2 (checksum data)).length ≤ data.length := by
    rw [length_sum]
    exact inside
  have entered := take_drop_writeAt fits
  rw [length_sum] at entered
  have bounded : checksum data < 256 ^ 2 := checksum_lt data
  rw [ChecksumCorrect, rfcChecksum, entered, ofBeBytes_beBytes_of_lt bounded,
    writeAt_writeAt fits (show [(0 : UInt8), 0].length = _ from (length_sum _).symm), isClear]
  exact checksum_eq_iff short

theorem sum_replyHeader_lt (request : EchoRequest pkt) : (words (replyHeader pkt)).sum < 2 ^ 32 := by
  have bounded := sum_words_le (replyHeader pkt)
  rw [length_replyHeader request] at bounded
  omega

/-- The bytes of the answer that are no addresses and no checksums. -/
theorem getElem?_reply (request : EchoRequest pkt) (ipSum icmpSum : Nat) {i : Nat}
    (elsewhere : i < 10 ∨ i = 20 ∨ i = 21 ∨ 24 ≤ i) :
    (writeAt (replyHeader pkt) 10 (beBytes 2 ipSum) ++ writeAt (replyMessage pkt) 2 (beBytes 2 icmpSum))[i]? =
      if i = 20 then some 0 else pkt[i]? := by
  have long := request.1
  have isHeader := length_summedHeader request ipSum
  have exchanged := (exchanged_eq (length_take_request request) [] (addrAt pkt 16) (addrAt pkt 12)).2
  have fitsHeader : 10 + (beBytes 2 ipSum).length ≤ (replyHeader pkt).length := by
    rw [length_sum, length_replyHeader request]
    decide
  have fitsMessage : 2 + (beBytes 2 icmpSum).length ≤ (replyMessage pkt).length := by
    rw [length_sum, length_replyMessage request]
    omega
  have fitsType : 0 + [(0 : UInt8)].length ≤ (pkt.drop 20).length := by
    rw [List.length_drop, List.length_singleton]
    omega
  by_cases before : i < 10
  · rw [List.getElem?_append_left (by omega), getElem?_writeAt fitsHeader, if_neg (by omega), replyHeader,
      getElem?_writeAt (by rw [exchanged]; decide), if_neg (by omega),
      getElem?_exchanged (length_take_request request) _ _ (by omega), List.getElem?_take_of_lt (by omega),
      if_neg (by omega)]
  · rw [List.getElem?_append_right (by omega), isHeader, getElem?_writeAt fitsMessage, if_neg (by rw [length_sum]; omega),
      replyMessage, getElem?_writeAt (two_le_typed request), if_neg (by simp only [List.length_cons, List.length_nil]; omega),
      getElem?_writeAt fitsType]
    by_cases isType : i = 20
    · rw [if_pos (by simp only [List.length_singleton]; omega), if_pos isType, isType]
      rfl
    · rw [if_neg (by simp only [List.length_singleton]; omega), if_neg isType, List.getElem?_drop]
      congr 1
      omega

/-- The answer is valid except for the checksum of its message, which is told by the sum. -/
theorem validReply_iff (request : EchoRequest pkt) (short : pkt.length ≤ maxFrame) {reply : Packet}
    (answered : icmpEchoReply pkt = some reply) :
    ValidReply pkt reply ↔ (words (replyMessage pkt)).sum < 2 ^ 32 := by
  have long := request.1
  have parsed := icmpEchoReply_header (parseIpv4_of_request request) answered
  obtain ⟨_, _, _, _, isSrc, isDst, _⟩ := parseIpv4_eq_some parsed
  rw [icmpEchoReply_eq request] at answered
  obtain rfl := Option.some.inj answered
  have isHeader := length_summedHeader request (checksum (replyHeader pkt))
  have messageSum : ChecksumCorrect (writeAt (replyMessage pkt) 2 (beBytes 2 (checksum (replyMessage pkt)))) 2 ↔
      (words (replyMessage pkt)).sum < 2 ^ 32 := by
    apply checksumCorrect_iff _ (replyMessage_clear request)
    all_goals rw [length_replyMessage request]; omega
  constructor
  · intro valid
    have correct := valid.messageSum
    rw [List.drop_left' isHeader] at correct
    exact messageSum.mp correct
  · intro fits
    refine ⟨?_, isSrc.symm, isDst.symm, ?_, ?_, ?_, ?_⟩
    · rw [List.length_append, isHeader, length_writeAt, length_replyMessage request]
      · omega
      · rw [length_sum, length_replyMessage request]
        omega
    · rw [getElem?_reply request _ _ (by omega), if_pos rfl]
    · intro i elsewhere
      rw [getElem?_reply request _ _ (by omega), if_neg (by omega)]
    · rw [List.take_left' isHeader]
      apply (checksumCorrect_iff _ (replyHeader_clear request) _).mpr (sum_replyHeader_lt request)
      all_goals rw [length_replyHeader request]; decide
    · rw [List.drop_left' isHeader]
      exact messageSum.mpr fits

theorem checked_iff (request : EchoRequest pkt) :
    icmpEchoReplyChecked pkt = some (icmpEchoReply pkt) ↔ (words (replyMessage pkt)).sum < 2 ^ 32 := by
  have headerSum : checksumChecked (replyHeader pkt) = some (checksum (replyHeader pkt)) :=
    checksumChecked_eq_some.mpr ⟨sum_replyHeader_lt request, rfl⟩
  rw [icmpEchoReplyChecked_eq request, icmpEchoReply_eq request, headerSum, Option.bind_some]
  constructor
  · intro isSome
    obtain ⟨sum, isSum, -⟩ := Option.map_eq_some_iff.mp isSome
    exact (checksumChecked_eq_some.mp isSum).1
  · intro fits
    rw [checksumChecked_eq_some.mpr ⟨fits, rfl⟩]
    rfl

end Assembly

/-- The gateway's answers to frames are as they have to be exactly for the echo requests whose
message, with its type and its checksum cleared, has a sum that fits. -/
theorem echoSound_iff {pkt : Packet} (short : pkt.length ≤ maxFrame) :
    EchoSound pkt ↔ (EchoRequest pkt → (words (replyMessage pkt)).sum < 2 ^ 32) := by
  by_cases request : EchoRequest pkt
  · rw [EchoSound, checked_iff request, forall_prop_of_true request]
    exact and_iff_left_of_imp fun fits reply answered => (validReply_iff request short answered).mpr fits
  · obtain ⟨noAnswer, checked⟩ := not_answered request
    apply iff_of_true _ fun isRequest => absurd isRequest request
    refine ⟨checked.trans (congrArg some noAnswer.symm), ?_⟩
    rw [noAnswer]
    rintro _ ⟨⟩

def onesRequest (payload : Nat) : Packet :=
  [0x45, 0, 0, 0, 0, 0, 0, 0, 64, 1, 0, 0, 100, 64, 0, 2, 100, 64, 0, 1] ++
    ([8, 0, 0, 0] ++ List.replicate payload 255)

theorem echoSound_onesRequest : EchoSound (onesRequest 4) ↔
    (EchoRequest (onesRequest 4) → (words (replyMessage (onesRequest 4))).sum < 2 ^ 32) :=
  echoSound_iff (by decide)

theorem sum_words_replicate (n : Nat) : (words (List.replicate (2 * n) 255)).sum = 65535 * n := by
  induction n with
  | zero => rfl
  | succ n ih =>
    have ones : ofBeBytes [255, 255] = 65535 := by decide
    rw [Nat.mul_succ, List.replicate_succ, List.replicate_succ, words, List.sum_cons, ih, ones]
    omega

theorem sum_replyMessage_onesRequest (n : Nat) : (words (replyMessage (onesRequest (2 * n)))).sum = 65535 * n := by
  have dropped : (onesRequest (2 * n)).drop 20 = [8, 0, 0, 0] ++ List.replicate (2 * n) 255 := rfl
  have zeros : ofBeBytes [0, 0] = 0 := by decide
  have isMessage : replyMessage (onesRequest (2 * n)) = 0 :: 0 :: 0 :: 0 :: List.replicate (2 * n) 255 := by
    rw [replyMessage, dropped, writeAt_append_left (by decide), writeAt_append_left (by decide)]
    rfl
  rw [isMessage, words, words, List.sum_cons, List.sum_cons, zeros, sum_words_replicate, Nat.zero_add, Nat.zero_add]

/-- An eighth of the greatest frame, all ones: the sum overflows, and where that is not checked the
answer carries a wrong checksum. -/
theorem not_echoSound_onesRequest :
    (onesRequest 131080).length ≤ maxFrame ∧ EchoRequest (onesRequest 131080) ∧
      icmpEchoReplyChecked (onesRequest 131080) ≠ some (icmpEchoReply (onesRequest 131080)) ∧
      (∀ reply, icmpEchoReply (onesRequest 131080) = some reply → ¬ ValidReply (onesRequest 131080) reply) ∧
      ¬ EchoSound (onesRequest 131080) := by
  have isLength : (onesRequest 131080).length = 131104 := by
    rw [onesRequest, List.length_append, List.length_append, List.length_replicate]
    rfl
  have short : (onesRequest 131080).length ≤ maxFrame := by
    rw [isLength]
    decide
  have request : EchoRequest (onesRequest 131080) := by
    refine ⟨?_, rfl, rfl, rfl, rfl⟩
    rw [isLength]
    decide
  have overflows : ¬ (words (replyMessage (onesRequest (2 * 65540)))).sum < 2 ^ 32 := by
    rw [sum_replyMessage_onesRequest]
    decide
  have unchecked := mt (checked_iff request).mp overflows
  refine ⟨short, request, unchecked, fun reply answered => ?_, fun sound => unchecked sound.1⟩
  exact mt (validReply_iff request short answered).mp overflows

end Nfrp.Vnet
