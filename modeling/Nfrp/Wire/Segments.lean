import Nfrp.Wire.Conn

/-!
# Messages and reads

What a peer sends is cut into reads anyhow.  The messages received after each of them
are the ones that are there whole, but for one read of the first version: what comes
with the end of the login stays in the buffer until the next read.
-/

namespace Nfrp.Wire

open Lib

/-- What the cipher of a peer depends on besides the key; a peer of the second version
may cut its messages into records as it likes. -/
inductive Sealing where
  | v1 (iv : Block)
  | v2 (streamNonce : List UInt8) (chunks : List (List (List UInt8)))

namespace Sealing

def version : Sealing → WireVersion
  | .v1 _ => .v1
  | .v2 _ _ => .v2

def crypto : Sealing → ControlCrypto
  | .v1 _ => .v1 {}
  | .v2 _ _ => .v2 {}

def pieces (keys : Keys) : Sealing → List Frame → List (List UInt8)
  | .v1 iv, secret => v1Pieces keys iv (secret.map encodeMsg)
  | .v2 streamNonce chunks, _ => v2Pieces keys streamNonce chunks

def Seals : Sealing → List Frame → Prop
  | .v1 _, _ => True
  | .v2 streamNonce chunks, secret =>
    streamNonce.length = nonceLen ∧ (∀ chunk ∈ chunks.flatten, IsChunk chunk) ∧
      chunks.map List.flatten = secret.map encodeFrame

theorem encode_ne_nil {version : WireVersion} {f : Frame} (valid : Valid version f) : encode version f ≠ [] :=
  (recognises_take version).nonempty f valid

theorem pieces_nil (keys : Keys) {s : Sealing} (sealed : s.Seals []) : s.pieces keys [] = [] := by
  cases s with
  | v1 iv => rfl
  | v2 streamNonce chunks =>
    obtain rfl : chunks = [] := List.map_eq_nil_iff.mp sealed.2.2
    rfl

theorem exists_deciphering (keys : Keys) {s : Sealing} {secret : List Frame} (sealed : s.Seals secret)
    (valid : ∀ f ∈ secret, Valid s.version f) :
    Nonempty (Deciphering keys s.crypto (s.pieces keys secret) (secret.map (encode s.version))) := by
  have nonempty : ∀ text ∈ secret.map (encode s.version), text ≠ [] := by
    intro text member
    obtain ⟨f, isFrame, rfl⟩ := List.mem_map.mp member
    exact encode_ne_nil (valid f isFrame)
  cases s with
  | v1 iv => exact ⟨v1Deciphering keys iv nonempty⟩
  | v2 streamNonce chunks =>
    obtain ⟨isNonce, areChunks, isCut⟩ := sealed
    have someChunk : ∀ group ∈ chunks, group ≠ [] := by
      rintro group isGroup rfl
      refine nonempty [] ?_ rfl
      have member : ([] : List (List UInt8)).flatten ∈ chunks.map List.flatten := List.mem_map_of_mem isGroup
      rwa [isCut] at member
    have deciphering := v2Deciphering keys isNonce areChunks someChunk
    rw [isCut] at deciphering
    exact ⟨deciphering⟩

end Sealing

variable {Message Extension : Type} {codec : Codec Message Extension}

def eventsOf (codec : Codec Message Extension) (version : WireVersion) (settings : Settings) (frames : List Frame) :
    List (ConnEvent Message Extension) :=
  frames.filterMap fun f => (eventOf codec version settings f).join

/-- A peer that sends the login in clear and the rest enciphered, all of it messages
that can be read. -/
structure Peer (codec : Codec Message Extension) where
  sealing : Sealing
  clear : List Frame
  secret : List Frame
  agreed : Settings
  someClear : clear ≠ []
  clearValid : ∀ f ∈ clear, Valid sealing.version f
  clearRead : ∀ f ∈ clear, eventOf codec sealing.version {} f ≠ none
  secretValid : ∀ f ∈ secret, Valid sealing.version f
  secretRead : ∀ f ∈ secret, ∃ event, eventOf codec sealing.version agreed f = some (some event)
  sealed : sealing.Seals secret

namespace Peer

variable (peer : Peer codec)

abbrev version : WireVersion := peer.sealing.version

def login : List UInt8 := peer.clear.flatMap (encode peer.version)

def pieces (keys : Keys) : List (List UInt8) :=
  peer.clear.map (encode peer.version) ++ peer.sealing.pieces keys peer.secret

def delivered (count : Nat) : List (ConnEvent Message Extension) :=
  eventsOf codec peer.version {} (peer.clear.take count) ++
    eventsOf codec peer.version peer.agreed (peer.secret.take (count - peer.clear.length))

def receiver : Receiver Message Extension where
  conn := { version := peer.version }
  left := peer.clear.length

end Peer

section Pump

variable {keys : Keys} {version : WireVersion} {agreed : Settings}

theorem Receiver.recv_item {r : Receiver Message Extension} {f : Frame} {rest : List UInt8}
    {event : Option (ConnEvent Message Extension)} (valid : Valid r.conn.version f)
    (isBuf : r.conn.readBuf = encode r.conn.version f ++ rest)
    (meaning : eventOf codec r.conn.version r.conn.settings f = some event) :
    r.recv keys codec agreed =
      let taken : Receiver Message Extension :=
        { conn := r.conn.consume (encode r.conn.version f).length, left := r.left - 1, got := r.got ++ event.toList }
      if r.left = 1 then (taken.conn.switch keys agreed).map fun conn => some { taken with conn }
      else some (some taken) := by
  have found := (recognises_take r.conn.version).whole f rest valid
  rw [recv, isBuf, found]
  dsimp only [id]
  rw [meaning]
  rfl

theorem Receiver.recv_waits {r : Receiver Message Extension} {later : List Frame}
    (valid : ∀ f ∈ later, Valid r.conn.version f) (unfinished : Unfinished (encode r.conn.version) later r.conn.readBuf) :
    r.recv keys codec agreed = some none := by
  have incomplete : take r.conn.version r.conn.readBuf = .incomplete := by
    cases later with
    | nil =>
      have nothing : r.conn.readBuf = [] := unfinished
      rw [nothing]
      cases r.conn.version <;> rfl
    | cons f later =>
      exact (recognises_take _).partly f _ (valid f List.mem_cons_self) unfinished.1 unfinished.2
  rw [recv, incomplete]

theorem Receiver.pump_waits {r : Receiver Message Extension} (later : List Frame)
    (valid : ∀ f ∈ later, Valid r.conn.version f) (unfinished : Unfinished (encode r.conn.version) later r.conn.readBuf)
    (fuel : Nat) : r.pump keys codec agreed fuel = some r := by
  cases fuel with
  | zero => rfl
  | succ fuel =>
    rw [pump, recv_waits valid unfinished]
    rfl

theorem eventsOf_cons {settings : Settings} {f : Frame} {event : Option (ConnEvent Message Extension)}
    (meaning : eventOf codec version settings f = some event) (frames : List Frame) :
    eventsOf codec version settings (f :: frames) = event.toList ++ eventsOf codec version settings frames := by
  rw [eventsOf, List.filterMap_cons, meaning]
  cases event <;> rfl

theorem eventsOf_append {settings : Settings} (first second : List Frame) :
    eventsOf codec version settings (first ++ second) =
      eventsOf codec version settings first ++ eventsOf codec version settings second :=
  List.filterMap_append

def Receiver.opened (version : WireVersion) (agreed : Settings) (crypto : ControlCrypto) (raw plain : List UInt8)
    (got : List (ConnEvent Message Extension)) : Receiver Message Extension where
  conn := { version, raw, plain, crypto, settings := agreed }
  left := 0
  got := got

theorem isEncrypted_of_ne {conn : FrpConn} (isCipher : conn.crypto ≠ .none) : conn.isEncrypted = true := by
  rw [FrpConn.isEncrypted]
  split
  next isNone => exact absurd isNone isCipher
  · rfl

section Opened

variable {crypto : ControlCrypto} {raw plain : List UInt8} {got : List (ConnEvent Message Extension)}

theorem Receiver.readBuf_opened (isCipher : crypto ≠ .none) :
    (opened version agreed crypto raw plain got).conn.readBuf = plain :=
  if_pos (isEncrypted_of_ne isCipher)

theorem Receiver.recv_opened (isCipher : crypto ≠ .none) {f : Frame} {beyond : List UInt8}
    {event : Option (ConnEvent Message Extension)} (valid : Valid version f)
    (meaning : eventOf codec version agreed f = some event) :
    (opened version agreed crypto raw (encode version f ++ beyond) got).recv keys codec agreed =
      some (some (opened version agreed crypto raw beyond (got ++ event.toList))) := by
  have taken :
      (opened version agreed crypto raw (encode version f ++ beyond) got).conn.consume (encode version f).length =
        (opened version agreed crypto raw beyond got).conn := by
    rw [FrpConn.consume, if_pos (isEncrypted_of_ne isCipher)]
    exact congrArg (fun plain => (opened version agreed crypto raw plain got).conn) List.drop_left
  rw [recv_item valid (readBuf_opened isCipher) meaning]
  refine (if_neg (show ¬(0 : Nat) = 1 by decide)).trans ?_
  exact congrArg (fun conn => some (some (Receiver.mk conn 0 (got ++ event.toList)))) taken

/-- Behind the switch, everything that is there whole is received. -/
theorem Receiver.pump_opened (isCipher : crypto ≠ .none) {later : List Frame}
    (valid : ∀ f ∈ later, Valid version f) (meaning : ∀ f ∈ later, eventOf codec version agreed f ≠ none)
    (arrived : plain <+: later.flatMap (encode version)) {fuel : Nat} (enough : plain.length < fuel) :
    ∃ done last rest, later = done ++ last ∧ plain = done.flatMap (encode version) ++ rest ∧
      Unfinished (encode version) last rest ∧
      (opened version agreed crypto raw plain got).pump keys codec agreed fuel =
        some (opened version agreed crypto raw rest (got ++ eventsOf codec version agreed done)) := by
  have waits : ∀ {last : List Frame} {rest} {got : List (ConnEvent Message Extension)} {fuel},
      (∀ f ∈ last, Valid version f) → Unfinished (encode version) last rest → (opened version agreed crypto raw rest got).pump keys codec agreed fuel =
        some (opened version agreed crypto raw rest (got ++ eventsOf codec version agreed [])) := by
    intro last rest got fuel areValid unfinished
    rw [eventsOf, List.filterMap_nil, List.append_nil]
    exact pump_waits last areValid ((readBuf_opened isCipher).symm ▸ unfinished) fuel
  induction later generalizing plain fuel got with
  | nil =>
    obtain rfl : plain = [] := List.prefix_nil.mp arrived
    exact ⟨[], [], [], rfl, rfl, rfl, waits valid rfl⟩
  | cons f later ih =>
    obtain ⟨isValid, validLater⟩ := List.forall_mem_cons.mp valid
    obtain ⟨isRead, meaningLater⟩ := List.forall_mem_cons.mp meaning
    rcases first_cases arrived with ⟨beyond, rfl, inStream⟩ | inItem
    · obtain ⟨event, isEvent⟩ := Option.ne_none_iff_exists'.mp isRead
      obtain ⟨fuel, rfl⟩ := Nat.exists_eq_succ_of_ne_zero (Nat.ne_of_gt (Nat.zero_lt_of_lt enough))
      have nonempty := List.length_pos_iff.mpr (Sealing.encode_ne_nil isValid)
      have shorter : beyond.length < fuel := by
        rw [List.length_append] at enough
        omega
      obtain ⟨done, last, rest, split, isBeyond, unfinished, pumped⟩ :=
        @ih beyond (got ++ event.toList) validLater meaningLater inStream fuel shorter
      refine ⟨f :: done, last, rest, by rw [split, List.cons_append], ?_, unfinished, ?_⟩
      · rw [List.flatMap_cons, List.append_assoc, ← isBeyond]
      · rw [pump, recv_opened isCipher isValid isEvent, eventsOf_cons isEvent, ← List.append_assoc]
        exact pumped
    · exact ⟨[], f :: later, plain, rfl, rfl, inItem, waits valid inItem⟩

end Opened

def Receiver.inClear (version : WireVersion) (raw : List UInt8) (left : Nat)
    (got : List (ConnEvent Message Extension)) : Receiver Message Extension where
  conn := { version, raw }
  left := left
  got := got

section Clear

variable {raw : List UInt8} {got : List (ConnEvent Message Extension)}

theorem Receiver.recv_inClear {f : Frame} {beyond : List UInt8} {event : Option (ConnEvent Message Extension)}
    (valid : Valid version f) (meaning : eventOf codec version {} f = some event) (left : Nat) :
    (inClear version (encode version f ++ beyond) left got).recv keys codec agreed =
      if left = 1 then
        (FrpConn.switch keys agreed { version, raw := beyond }).map fun conn =>
          some { conn, left := 0, got := got ++ event.toList }
      else some (some (inClear version beyond (left - 1) (got ++ event.toList))) := by
  have taken : (inClear version (encode version f ++ beyond) left got).conn.consume (encode version f).length =
      { version, raw := beyond } :=
    congrArg (fun raw => ({ version, raw } : FrpConn)) List.drop_left
  rw [recv_item (r := inClear version (encode version f ++ beyond) left got) valid rfl meaning]
  show (if left = 1 then
      ((inClear version (encode version f ++ beyond) left got).conn.consume (encode version f).length).switch keys agreed
        |>.map fun conn => some (Receiver.mk conn (left - 1) (got ++ event.toList))
    else some (some (Receiver.mk ((inClear version (encode version f ++ beyond) left got).conn.consume
      (encode version f).length) (left - 1) (got ++ event.toList)))) = _
  rw [taken]
  split
  next last =>
    subst last
    rfl
  · rfl

/-- Before the switch, everything that is there whole is received, up to the end of the
login; then the connection is switched, with the bytes that are left. -/
theorem Receiver.pump_inClear {later : List Frame} (more : later ≠ []) (valid : ∀ f ∈ later, Valid version f)
    (meaning : ∀ f ∈ later, eventOf codec version {} f ≠ none) {cipher : List UInt8}
    (arrived : raw <+: later.flatMap (encode version) ++ cipher) {fuel : Nat} (enough : 2 * raw.length < fuel) :
    (∃ done last rest, last ≠ [] ∧ later = done ++ last ∧ raw = done.flatMap (encode version) ++ rest ∧
      Unfinished (encode version) last rest ∧
      (inClear version raw later.length got).pump keys codec agreed fuel =
        some (inClear version rest last.length (got ++ eventsOf codec version {} done))) ∨
    ∃ body fuel', raw = later.flatMap (encode version) ++ body ∧ body <+: cipher ∧ 2 * body.length < fuel' ∧
      (inClear version raw later.length got).pump keys codec agreed fuel =
        (FrpConn.switch keys agreed { version, raw := body }).bind fun conn =>
          pump keys codec agreed fuel' { conn, left := 0, got := got ++ eventsOf codec version {} later } := by
  induction later generalizing raw fuel got with
  | nil => exact absurd rfl more
  | cons f later ih =>
    obtain ⟨isValid, validLater⟩ := List.forall_mem_cons.mp valid
    obtain ⟨isRead, meaningLater⟩ := List.forall_mem_cons.mp meaning
    rw [List.flatMap_cons, List.append_assoc] at arrived
    rcases first_cases arrived with ⟨beyond, rfl, inStream⟩ | inItem
    · obtain ⟨event, isEvent⟩ := Option.ne_none_iff_exists'.mp isRead
      obtain ⟨fuel, rfl⟩ := Nat.exists_eq_succ_of_ne_zero (Nat.ne_of_gt (Nat.zero_lt_of_lt enough))
      have nonempty := List.length_pos_iff.mpr (Sealing.encode_ne_nil isValid)
      have shorter : 2 * beyond.length < fuel := by
        rw [List.length_append] at enough
        omega
      cases later with
      | nil =>
        refine .inr ⟨beyond, fuel, by simp, inStream, shorter, ?_⟩
        rw [pump, recv_inClear isValid isEvent, List.length_singleton, if_pos rfl, eventsOf_cons isEvent]
        cases FrpConn.switch keys agreed { version, raw := beyond } with
        | none => rfl
        | some conn =>
          rw [eventsOf, List.filterMap_nil, List.append_nil]
          rfl
      | cons next later =>
        have one :
            (inClear version (encode version f ++ beyond) (f :: next :: later).length got).pump keys codec agreed
                (fuel + 1) =
              (inClear version beyond (next :: later).length (got ++ event.toList)).pump keys codec agreed
                fuel := by
          rw [pump, recv_inClear isValid isEvent, if_neg (by simp)]
          rfl
        rw [one]
        rcases @ih beyond (got ++ event.toList) (List.cons_ne_nil _ _) validLater meaningLater
            inStream fuel shorter with
          ⟨done, last, rest, someLast, split, isBeyond, unfinished, pumped⟩ |
          ⟨body, fuel', isBeyond, inCipher, enough', pumped⟩
        · refine .inl ⟨f :: done, last, rest, someLast, by rw [split, List.cons_append], ?_, unfinished, ?_⟩
          · rw [List.flatMap_cons, List.append_assoc, ← isBeyond]
          · rw [pumped, eventsOf_cons isEvent, ← List.append_assoc]
        · refine .inr ⟨body, fuel', ?_, inCipher, enough', ?_⟩
          · rw [List.flatMap_cons, List.append_assoc, ← isBeyond]
          · rw [pumped, eventsOf_cons isEvent, ← List.append_assoc]
    · refine .inl ⟨[], f :: later, raw, more, rfl, rfl, inItem, ?_⟩
      rw [eventsOf, List.filterMap_nil, List.append_nil]
      exact pump_waits (r := inClear version raw (f :: later).length got) (f :: later) valid inItem fuel

end Clear

end Pump

section Runs

variable {keys : Keys} {peer : Peer codec}

/-- After some reads: still in the login; at the end of it with ciphertext left as it was
read, in the first version; or with everything deciphered. -/
inductive Reached (peer : Peer codec)
    (deciphering : Deciphering keys peer.sealing.crypto (peer.sealing.pieces keys peer.secret)
      (peer.secret.map (encode peer.version))) :
    List (List UInt8) → Receiver Message Extension → Prop where
  | clear {seen done last rest} (someLast : last ≠ []) (split : peer.clear = done ++ last)
      (isSeen : seen.flatten = done.flatMap (encode peer.version) ++ rest)
      (unfinished : Unfinished (encode peer.version) last rest) :
      Reached peer deciphering seen
        (.inClear peer.version rest last.length (eventsOf codec peer.version {} done))
  | switched {before chunk body} (isV1 : peer.version = .v1) (short : before.flatten.length < peer.login.length)
      (isSeen : (before ++ [chunk]).flatten = peer.login ++ body) (small : body.length ≤ 100000) :
      Reached peer deciphering (before ++ [chunk])
        (.opened peer.version peer.agreed peer.sealing.crypto body [] (eventsOf codec peer.version {} peer.clear))
  | opened {seen body done last rest crypto raw} (isSeen : seen.flatten = peer.login ++ body)
      (split : peer.secret = done ++ last)
      (holds : deciphering.Holds body crypto raw (done.flatMap (encode peer.version) ++ rest))
      (unfinished : Unfinished (encode peer.version) last rest)
      (late : peer.version = .v1 → ∃ before chunk, seen = before ++ [chunk] ∧ peer.login.length ≤ before.flatten.length) :
      Reached peer deciphering seen
        (.opened peer.version peer.agreed crypto raw rest
          (eventsOf codec peer.version {} peer.clear ++ eventsOf codec peer.version peer.agreed done))

variable {deciphering : Deciphering keys peer.sealing.crypto (peer.sealing.pieces keys peer.secret)
  (peer.secret.map (encode peer.version))}

theorem reached_start : Reached peer deciphering [] peer.receiver := by
  have waits : Unfinished (encode peer.version) peer.clear [] := by
    cases isClear : peer.clear with
    | nil => rfl
    | cons f later =>
      have valid := peer.clearValid f (isClear ▸ List.mem_cons_self)
      exact ⟨List.nil_prefix, (Sealing.encode_ne_nil valid).symm⟩
  have split : peer.clear = [] ++ peer.clear := rfl
  have isSeen : ([] : List (List UInt8)).flatten = ([] : List Frame).flatMap (encode peer.version) ++ [] := rfl
  exact .clear peer.someClear split isSeen waits

theorem rest_small {version : WireVersion} {later : List Frame} {rest : List UInt8}
    (valid : ∀ f ∈ later, Valid version f) (unfinished : Unfinished (encode version) later rest) :
    rest.length ≤ 65544 := by
  cases later with
  | nil =>
    obtain rfl : rest = [] := unfinished
    exact Nat.zero_le _
  | cons f later => exact unfinished.1.length_le.trans (length_encode_le (valid f List.mem_cons_self))

theorem length_rest_lt {version : WireVersion} {later : List Frame} {rest : List UInt8} (some : later ≠ [])
    (unfinished : Unfinished (encode version) later rest) : rest.length < (later.flatMap (encode version)).length := by
  cases later with
  | nil => exact absurd rfl some
  | cons f later =>
    have shorter : rest.length < (encode version f).length :=
      lt_of_le_of_ne unfinished.1.length_le fun same => unfinished.2 (unfinished.1.eq_of_length same)
    rw [List.flatMap_cons, List.length_append]
    omega

theorem FrpConn.decryptRawIntoPlain_eq {conn : FrpConn} (isCipher : conn.crypto ≠ .none) {after : ControlCrypto}
    {kept found : List UInt8} (decrypted : conn.crypto.decrypt keys conn.raw = some (after, kept, found))
    (small : conn.plain.length + found.length ≤ maxPlain) :
    conn.decryptRawIntoPlain keys = some { conn with crypto := after, raw := kept, plain := conn.plain ++ found } := by
  rw [decryptRawIntoPlain]
  split
  next isNone => exact absurd isNone isCipher
  · rw [decrypted, Option.bind_some, if_neg (Nat.not_lt_of_le small)]

theorem Receiver.read_opened {version : WireVersion} {agreed : Settings} {crypto after : ControlCrypto}
    {raw kept plain found chunk : List UInt8} {later : List Frame} (got : List (ConnEvent Message Extension))
    (isCipher : crypto ≠ .none) (staysCipher : after ≠ .none) (valid : ∀ f ∈ later, Valid version f)
    (meaning : ∀ f ∈ later, eventOf codec version agreed f ≠ none)
    (decrypted : crypto.decrypt keys (raw ++ chunk) = some (after, kept, found))
    (arrived : plain ++ found <+: later.flatMap (encode version)) (small : raw.length + chunk.length ≤ maxBuffer)
    (textSmall : plain.length + found.length ≤ maxPlain) :
    ∃ done last rest, later = done ++ last ∧ plain ++ found = done.flatMap (encode version) ++ rest ∧
      Unfinished (encode version) last rest ∧
      (opened version agreed crypto raw plain got).read keys codec agreed chunk =
        some (opened version agreed after kept rest (got ++ eventsOf codec version agreed done)) := by
  have filled : (opened version agreed crypto raw plain got).conn.fill keys chunk =
      some (opened version agreed after kept (plain ++ found) got).conn := by
    refine (if_neg (Nat.not_lt_of_le small)).trans ?_
    exact FrpConn.decryptRawIntoPlain_eq isCipher decrypted textSmall
  have enough : (plain ++ found).length < 2 * (kept.length + (plain ++ found).length) + 2 := by omega
  obtain ⟨done, last, rest, split, isText, unfinished, pumped⟩ :=
    @pump_opened _ _ codec keys _ _ _ kept _ got staysCipher _ valid meaning arrived _ enough
  refine ⟨done, last, rest, split, isText, unfinished, ?_⟩
  rw [read, filled, Option.bind_some]
  exact pumped

theorem flatten_pieces : (peer.pieces keys).flatten = peer.login ++ (peer.sealing.pieces keys peer.secret).flatten := by
  rw [Peer.pieces, List.flatten_append, Peer.login, List.flatMap_def]

theorem secretMeaning (peer : Peer codec) : ∀ f ∈ peer.secret, eventOf codec peer.version peer.agreed f ≠ none := by
  intro f isSecret
  obtain ⟨event, isEvent⟩ := peer.secretRead f isSecret
  rw [isEvent]
  exact Option.some_ne_none _

theorem crypto_ne_none (s : Sealing) : s.crypto ≠ .none := by
  cases s <;> exact nofun

theorem text_arrived {body raw text : List UInt8} {crypto : ControlCrypto} {done last : List Frame} {rest : List UInt8}
    (split : peer.secret = done ++ last) (isText : text = done.flatMap (encode peer.version) ++ rest)
    (holds : deciphering.Holds body crypto raw text)
    (inCipher : body <+: (peer.sealing.pieces keys peer.secret).flatten) :
    rest <+: last.flatMap (encode peer.version) := by
  have inText := (deciphering.counts holds inCipher).1
  rwa [isText, ← List.flatMap_def, split, List.flatMap_append, List.prefix_append_right_inj] at inText

theorem Reached.read_opened {seen : List (List UInt8)} {chunk body raw text kept found : List UInt8}
    {crypto after : ControlCrypto} {done last : List Frame} {rest : List UInt8}
    (isSeen : seen.flatten = peer.login ++ body) (split : peer.secret = done ++ last)
    (isText : text = done.flatMap (encode peer.version) ++ rest) (isCipher : crypto ≠ .none)
    (decrypted : crypto.decrypt keys (raw ++ chunk) = some (after, kept, found))
    (holdsAfter : deciphering.Holds (body ++ chunk) after kept (text ++ found))
    (shorter : found.length ≤ (raw ++ chunk).length) (restSmall : rest.length ≤ 65544) (rawSmall : raw.length ≤ 100000)
    (short : chunk.length ≤ 100000)
    (arrived : body ++ chunk <+: (peer.sealing.pieces keys peer.secret).flatten)
    (late : peer.version = .v1 → peer.login.length ≤ seen.flatten.length) (got : List (ConnEvent Message Extension))
    (isGot : got = eventsOf codec peer.version {} peer.clear ++ eventsOf codec peer.version peer.agreed done) :
    ∃ r, (Receiver.opened peer.version peer.agreed crypto raw rest got).read keys codec peer.agreed chunk = some r ∧
      Reached peer deciphering (seen ++ [chunk]) r := by
  have isTextAfter : text ++ found = done.flatMap (encode peer.version) ++ (rest ++ found) := by
    rw [isText, List.append_assoc]
  have inText := text_arrived split isTextAfter holdsAfter arrived
  have foundSmall : rest.length + found.length ≤ maxPlain := by
    rw [List.length_append] at shorter
    rw [maxPlain]
    omega
  have readSmall : raw.length + chunk.length ≤ maxBuffer := by
    rw [maxBuffer]
    omega
  have areValid : ∀ f ∈ last, Valid peer.version f := fun f member =>
    peer.secretValid f (split ▸ List.mem_append_right _ member)
  have areRead : ∀ f ∈ last, eventOf codec peer.version peer.agreed f ≠ none := fun f member =>
    secretMeaning peer f (split ▸ List.mem_append_right _ member)
  obtain ⟨more, last', rest', splitLast, isRest, unfinished, isRead⟩ :=
    Receiver.read_opened got isCipher (deciphering.isCipher holdsAfter) areValid areRead decrypted
      inText readSmall foundSmall
  have isSeenAfter : (seen ++ [chunk]).flatten = peer.login ++ (body ++ chunk) := by
    rw [List.flatten_append, List.flatten_singleton, isSeen, List.append_assoc]
  have splitAfter : peer.secret = (done ++ more) ++ last' := by rw [split, splitLast, List.append_assoc]
  rw [isTextAfter, isRest, ← List.append_assoc, ← List.flatMap_append] at holdsAfter
  refine ⟨_, isRead, ?_⟩
  have reached := Reached.opened isSeenAfter splitAfter holdsAfter unfinished fun isV1 => ⟨seen, chunk, rfl, late isV1⟩
  rwa [eventsOf_append, ← List.append_assoc, ← isGot] at reached

theorem crypto_of_v1 {s : Sealing} (isV1 : s.version = .v1) : s.crypto = .v1 {} := by
  cases s with
  | v1 iv => rfl
  | v2 streamNonce chunks => cases isV1

theorem crypto_of_v2 {s : Sealing} (isV2 : s.version = .v2) : s.crypto = .v2 {} := by
  cases s with
  | v1 iv => cases isV2
  | v2 streamNonce chunks => rfl

theorem FrpConn.switch_v1 {version : WireVersion} (isV1 : version = .v1) (agreed : Settings) (body : List UInt8)
    (got : List (ConnEvent Message Extension)) :
    FrpConn.switch keys agreed { version, raw := body } =
      some (Receiver.opened version agreed (.v1 {}) body [] got).conn := by
  subst isV1
  rfl

theorem FrpConn.switch_v2 {version : WireVersion} (isV2 : version = .v2) (agreed : Settings)
    {body kept found : List UInt8} {after : ControlCrypto}
    (decrypted : (ControlCrypto.v2 {}).decrypt keys body = some (after, kept, found))
    (small : found.length ≤ maxPlain) (got : List (ConnEvent Message Extension)) :
    FrpConn.switch keys agreed { version, raw := body } =
      some (Receiver.opened version agreed after kept found got).conn := by
  subst isV2
  have isCipher : ControlCrypto.v2 {} ≠ .none := by rintro ⟨⟩
  have deciphered : decryptRawIntoPlain keys { version := .v2, raw := body, crypto := .v2 {} } =
      some { version := .v2, raw := kept, plain := [] ++ found, crypto := after } :=
    decryptRawIntoPlain_eq isCipher decrypted (by simpa using small)
  simp only [switch, upgrade, ne_eq, not_true_eq_false, if_false, deciphered, Option.map_some, List.nil_append,
    Receiver.opened]

theorem Reached.pump_switched {seen : List (List UInt8)} {chunk body : List UInt8}
    (isSeen : (seen ++ [chunk]).flatten = peer.login ++ body) (short : seen.flatten.length < peer.login.length)
    (small : body.length ≤ 100000) (inCipher : body <+: (peer.sealing.pieces keys peer.secret).flatten) {fuel : Nat}
    (enough : 2 * body.length < fuel) :
    ∃ r, (FrpConn.switch keys peer.agreed { version := peer.version, raw := body }).bind (fun conn =>
        Receiver.pump keys codec peer.agreed fuel
          { conn, left := 0, got := eventsOf codec peer.version {} peer.clear }) = some r ∧
      Reached peer deciphering (seen ++ [chunk]) r := by
  cases isVersion : peer.sealing.version with
  | v1 =>
    have waits : Unfinished (encode peer.version) [] ([] : List UInt8) := rfl
    have reached : Reached peer deciphering (seen ++ [chunk]) _ := .switched isVersion short isSeen small
    rw [crypto_of_v1 isVersion] at reached
    refine ⟨_, ?_, reached⟩
    rw [FrpConn.switch_v1 isVersion peer.agreed body (eventsOf codec peer.version {} peer.clear), Option.bind_some]
    exact Receiver.pump_waits [] nofun waits fuel
  | v2 =>
    obtain ⟨after, kept, found, decrypted, holds, shorter⟩ := deciphering.step deciphering.initially inCipher
    rw [crypto_of_v2 isVersion] at decrypted
    rw [List.nil_append] at decrypted shorter holds
    have isText : found = ([] : List Frame).flatMap (encode peer.version) ++ found := rfl
    have split : peer.secret = [] ++ peer.secret := rfl
    have inText := text_arrived split isText holds inCipher
    have foundSmall : found.length ≤ maxPlain := by
      rw [maxPlain]
      omega
    obtain ⟨done, last, rest, splitSecret, isFound, unfinished, pumped⟩ :=
      @Receiver.pump_opened _ _ codec keys _ peer.agreed _ kept _ (eventsOf codec peer.version {} peer.clear)
        (deciphering.isCipher holds) _ peer.secretValid (secretMeaning peer) inText fuel (by omega)
    rw [List.nil_append, isFound] at holds
    have isV2 : ¬peer.version = .v1 := by
      rw [Peer.version, isVersion]
      exact nofun
    refine ⟨_, ?_, .opened isSeen splitSecret holds unfinished fun isV1 => absurd isV1 isV2⟩
    rw [FrpConn.switch_v2 isVersion peer.agreed decrypted foundSmall (eventsOf codec peer.version {} peer.clear),
      Option.bind_some]
    exact pumped

theorem Reached.read {seen : List (List UInt8)} {chunk : List UInt8} {r : Receiver Message Extension}
    (reached : Reached peer deciphering seen r) (short : chunk.length ≤ fillLen)
    (arrived : (seen ++ [chunk]).flatten <+: (peer.pieces keys).flatten) :
    ∃ after, r.read keys codec peer.agreed chunk = some after ∧ Reached peer deciphering (seen ++ [chunk]) after := by
  rw [fillLen] at short
  have isJoined : (seen ++ [chunk]).flatten = seen.flatten ++ chunk := by
    rw [List.flatten_append, List.flatten_singleton]
  cases reached with
  | @clear _ done last rest someLast split isSeen unfinished =>
    have areLast : ∀ f ∈ last, f ∈ peer.clear := fun f member => split ▸ List.mem_append_right _ member
    have restSmall := rest_small (fun f member => peer.clearValid f (areLast f member)) unfinished
    have arrivedHere := arrived
    rw [isJoined, isSeen, flatten_pieces, Peer.login, split, List.flatMap_append, List.append_assoc, List.append_assoc,
      List.prefix_append_right_inj] at arrivedHere
    have filled : (Receiver.inClear peer.version rest last.length (eventsOf codec peer.version {} done)).conn.fill keys
        chunk = some { version := peer.version, raw := rest ++ chunk } := by
      refine (if_neg ?_).trans rfl
      show ¬maxBuffer < rest.length + chunk.length
      rw [maxBuffer]
      omega
    have enough : 2 * (rest ++ chunk).length < 2 * ((rest ++ chunk).length + ([] : List UInt8).length) + 2 := by
      rw [List.length_nil]
      omega
    have isRead : (Receiver.inClear peer.version rest last.length (eventsOf codec peer.version {} done)).read keys codec
        peer.agreed chunk =
          (Receiver.inClear peer.version (rest ++ chunk) last.length (eventsOf codec peer.version {} done)).pump keys
            codec peer.agreed (2 * ((rest ++ chunk).length + ([] : List UInt8).length) + 2) := by
      rw [Receiver.read, filled, Option.bind_some]
      rfl
    rw [isRead]
    rcases @Receiver.pump_inClear _ _ codec keys peer.version peer.agreed _ (eventsOf codec peer.version {} done) _
        someLast (fun f member => peer.clearValid f (areLast f member)) (fun f member => peer.clearRead f (areLast f member)) _
        arrivedHere _ enough with
      ⟨more, last', rest', someLast', splitLast, isRest, unfinished', pumped⟩ |
      ⟨body, fuel, isRest, inCipher, enough', pumped⟩
    · refine ⟨_, pumped, ?_⟩
      have isSeenAfter : (seen ++ [chunk]).flatten = (done ++ more).flatMap (encode peer.version) ++ rest' := by
        rw [isJoined, isSeen, List.append_assoc, isRest, List.flatMap_append, List.append_assoc]
      have splitAfter : peer.clear = (done ++ more) ++ last' := by rw [split, splitLast, List.append_assoc]
      rw [← eventsOf_append]
      exact .clear someLast' splitAfter isSeenAfter unfinished'
    · rw [pumped, ← eventsOf_append, ← split]
      have isSeenAfter : (seen ++ [chunk]).flatten = peer.login ++ body := by
        rw [isJoined, isSeen, List.append_assoc, isRest, Peer.login, split, List.flatMap_append, List.append_assoc]
      have notAll : seen.flatten.length < peer.login.length := by
        have missing := length_rest_lt someLast unfinished
        rw [isSeen, Peer.login, split, List.flatMap_append, List.length_append, List.length_append]
        omega
      have bodySmall : body.length ≤ 100000 := by
        have whole := congrArg List.length isRest
        rw [List.length_append, List.length_append] at whole
        omega
      exact pump_switched isSeenAfter notAll bodySmall inCipher enough'
  | @switched before last body isV1 shortBefore isSeen small =>
    have inCipher := arrived
    rw [isJoined, isSeen, flatten_pieces, List.append_assoc, List.prefix_append_right_inj] at inCipher
    obtain ⟨after, kept, found, decrypted, holdsAfter, shorter⟩ := deciphering.step deciphering.initially inCipher
    rw [List.nil_append] at decrypted holdsAfter shorter
    have split : peer.secret = [] ++ peer.secret := rfl
    have late : peer.version = .v1 → peer.login.length ≤ (before ++ [last]).flatten.length := by
      intro _
      rw [isSeen, List.length_append]
      exact Nat.le_add_right _ _
    exact read_opened isSeen split rfl (crypto_ne_none _) decrypted holdsAfter shorter (Nat.zero_le _) small (by omega)
      inCipher late _ (List.append_nil _).symm
  | @opened _ body done last rest crypto raw isSeen split holds unfinished late =>
    have inCipher := arrived
    rw [isJoined, isSeen, flatten_pieces, List.append_assoc, List.prefix_append_right_inj] at inCipher
    obtain ⟨after, kept, found, decrypted, holdsAfter, shorter⟩ := deciphering.step holds inCipher
    have areValid : ∀ f ∈ last, Valid peer.version f := fun f member =>
      peer.secretValid f (split ▸ List.mem_append_right _ member)
    have rawSmall : raw.length ≤ 100000 := (deciphering.small holds).le.trans (by decide)
    have late : peer.version = .v1 → peer.login.length ≤ seen.flatten.length := by
      intro _
      rw [isSeen, List.length_append]
      exact Nat.le_add_right _ _
    exact read_opened isSeen split rfl (deciphering.isCipher holds) decrypted holdsAfter shorter
      (rest_small areValid unfinished) rawSmall (by omega) inCipher late _ rfl

theorem reached_readAll {reads : List (List UInt8)} (short : ∀ chunk ∈ reads, chunk.length ≤ fillLen)
    (arrived : reads.flatten <+: (peer.pieces keys).flatten) :
    ∃ r, peer.receiver.readAll keys codec peer.agreed reads = some r ∧ Reached peer deciphering reads r := by
  induction reads using List.reverseRecOn with
  | nil => exact ⟨_, rfl, reached_start⟩
  | append_singleton seen chunk ih =>
    have seenArrived : seen.flatten <+: (peer.pieces keys).flatten := by
      rw [List.flatten_append] at arrived
      exact (List.prefix_append _ _).trans arrived
    obtain ⟨r, isRead, reached⟩ :=
      ih (fun chunk member => short chunk (List.mem_append_left _ member)) seenArrived
    obtain ⟨after, isNext, next⟩ := reached.read (short chunk (by simp)) arrived
    refine ⟨after, ?_, next⟩
    rw [Receiver.readAll] at isRead ⊢
    rw [List.foldlM_append, isRead]
    simpa using isNext

theorem whole_pieces_login {received body : List UInt8} (isReceived : received = peer.login ++ body) :
    whole (peer.pieces keys) received.length =
      peer.clear.length + whole (peer.sealing.pieces keys peer.secret) body.length := by
  have isLogin : (peer.clear.map (encode peer.version)).flatten = peer.login := by rw [Peer.login, List.flatMap_def]
  rw [isReceived, List.length_append, ← isLogin, Peer.pieces, whole_append_of_le (Nat.le_add_right _ _),
    Nat.add_sub_cancel_left, List.length_map]

theorem whole_pieces_clear {received : List UInt8} {done last : List Frame} {rest : List UInt8} (someLast : last ≠ [])
    (split : peer.clear = done ++ last) (isReceived : received = done.flatMap (encode peer.version) ++ rest)
    (unfinished : Unfinished (encode peer.version) last rest) :
    whole (peer.pieces keys) received.length = done.length := by
  have next : Unfinished id (last.map (encode peer.version) ++ peer.sealing.pieces keys peer.secret) rest := by
    cases last with
    | nil => exact absurd rfl someLast
    | cons f last => exact unfinished
  have counted := @whole_eq_of_unfinished _ (done.map (encode peer.version)) _ _ next
  rw [Peer.pieces, split, List.map_append, List.append_assoc, isReceived, List.length_append, List.flatMap_def, counted,
    List.length_map]

theorem delivered_clear {done last : List Frame} (split : peer.clear = done ++ last) :
    peer.delivered done.length = eventsOf codec peer.version {} done := by
  have noSecret : done.length - peer.clear.length = 0 := by
    rw [split, List.length_append]
    omega
  rw [Peer.delivered, noSecret, split, List.take_left' rfl]
  exact List.append_nil _

theorem delivered_add (count : Nat) :
    peer.delivered (peer.clear.length + count) =
      eventsOf codec peer.version {} peer.clear ++ eventsOf codec peer.version peer.agreed (peer.secret.take count) := by
  rw [Peer.delivered, Nat.add_sub_cancel_left, List.take_of_length_le (Nat.le_add_right _ _)]

theorem eventsOf_take_eq_nil_iff {body : List UInt8} :
    eventsOf codec peer.version peer.agreed
        (peer.secret.take (whole (peer.sealing.pieces keys peer.secret) body.length)) = [] ↔
      whole (peer.sealing.pieces keys peer.secret) body.length = 0 := by
  constructor
  · intro nothing
    cases isSecret : peer.secret with
    | nil =>
      have sealed := peer.sealed
      rw [isSecret] at sealed
      rw [Sealing.pieces_nil keys sealed]
      rfl
    | cons f later =>
      obtain ⟨event, isEvent⟩ := peer.secretRead f (isSecret ▸ List.mem_cons_self)
      rw [isSecret] at nothing
      cases count : whole (peer.sealing.pieces keys (f :: later)) body.length with
      | zero => rfl
      | succ count =>
        rw [count, List.take_succ_cons, eventsOf_cons isEvent] at nothing
        cases nothing
  · intro none
    rw [none]
    rfl

/-- Ciphertext that is read with the end of the login is received unless it is left as it
was read, and has a message whole. -/
theorem Reached.got_iff {seen : List (List UInt8)} {r : Receiver Message Extension}
    (reached : Reached peer deciphering seen r) (arrived : seen.flatten <+: (peer.pieces keys).flatten) :
    r.got = peer.delivered (whole (peer.pieces keys) seen.flatten.length) ↔
      ¬(peer.version = .v1 ∧ peer.clear.length < whole (peer.pieces keys) seen.flatten.length ∧
        ∃ before chunk, seen = before ++ [chunk] ∧ before.flatten.length < peer.login.length) := by
  cases reached with
  | @clear _ done last rest someLast split isSeen unfinished =>
    rw [whole_pieces_clear someLast split isSeen unfinished, delivered_clear split]
    refine iff_of_true rfl ?_
    rintro ⟨-, beyond, -⟩
    rw [split, List.length_append] at beyond
    omega
  | @switched before chunk body isV1 short isSeen small =>
    rw [whole_pieces_login isSeen, delivered_add]
    refine List.self_eq_append_right.trans (eventsOf_take_eq_nil_iff.trans ?_)
    constructor
    · rintro none ⟨-, beyond, -⟩
      omega
    · intro apart
      by_contra some
      exact apart ⟨isV1, by omega, before, chunk, rfl, short⟩
  | @opened _ body done last rest crypto raw isSeen split holds unfinished late =>
    rw [isSeen, flatten_pieces, List.prefix_append_right_inj] at arrived
    have next : Unfinished id (last.map (encode peer.version)) rest := by
      cases last with
      | nil => exact unfinished
      | cons f last => exact unfinished
    have isCount : whole (peer.sealing.pieces keys peer.secret) body.length = done.length := by
      rw [(deciphering.counts holds arrived).2, split, List.map_append, List.length_append, List.flatMap_def,
        whole_eq_of_unfinished next, List.length_map]
    rw [whole_pieces_login isSeen, delivered_add, isCount, split, List.take_left' rfl]
    refine iff_of_true rfl ?_
    rintro ⟨isV1, -, before, chunk, isLast, short⟩
    obtain ⟨before', chunk', isLast', covers⟩ := late isV1
    obtain ⟨rfl, -⟩ := List.append_inj' (isLast.symm.trans isLast') rfl
    exact Nat.not_lt_of_le covers short

end Runs

/-- After each of the reads, the messages that are there whole have been received. -/
def Prompt (keys : Keys) (peer : Peer codec) (reads : List (List UInt8)) : Prop :=
  ∀ seen, seen <+: reads → ∃ r, peer.receiver.readAll keys codec peer.agreed seen = some r ∧
    r.got = peer.delivered (whole (peer.pieces keys) seen.flatten.length)

/-- In the first version, the read that ends the login does not bring the whole of the
message after it. -/
def SwitchedApart (keys : Keys) (peer : Peer codec) (reads : List (List UInt8)) : Prop :=
  peer.version = .v1 → ∀ before chunk, before ++ [chunk] <+: reads → before.flatten.length < peer.login.length →
    whole (peer.pieces keys) (before ++ [chunk]).flatten.length ≤ peer.clear.length

/-- However the stream of a peer is cut into reads, all that is there is received after
each read just if the switch comes apart. -/
theorem prompt_iff_switchedApart (keys : Keys) (peer : Peer codec) {reads : List (List UInt8)}
    (short : ∀ chunk ∈ reads, chunk ≠ [] ∧ chunk.length ≤ fillLen)
    (arrived : reads.flatten <+: (peer.pieces keys).flatten) :
    Prompt keys peer reads ↔ SwitchedApart keys peer reads := by
  obtain ⟨deciphering⟩ := Sealing.exists_deciphering keys peer.sealed peer.secretValid
  have everywhere : ∀ seen, seen <+: reads → ∃ r, peer.receiver.readAll keys codec peer.agreed seen = some r ∧
      Reached peer deciphering seen r ∧ seen.flatten <+: (peer.pieces keys).flatten := by
    rintro seen ⟨later, rfl⟩
    have seenArrived : seen.flatten <+: (peer.pieces keys).flatten := by
      rw [List.flatten_append] at arrived
      exact (List.prefix_append _ _).trans arrived
    obtain ⟨r, isRead, reached⟩ :=
      reached_readAll (fun chunk member => (short chunk (List.mem_append_left _ member)).2) seenArrived
    exact ⟨r, isRead, reached, seenArrived⟩
  constructor
  · intro prompt isV1 before chunk isFront notAll
    obtain ⟨r, isRead, reached, seenArrived⟩ := everywhere _ isFront
    obtain ⟨other, isOther, got⟩ := prompt _ isFront
    obtain rfl : r = other := Option.some.inj (isRead.symm.trans isOther)
    by_contra beyond
    exact (reached.got_iff seenArrived).mp got ⟨isV1, Nat.lt_of_not_le beyond, before, chunk, rfl, notAll⟩
  · intro apart seen isFront
    obtain ⟨r, isRead, reached, seenArrived⟩ := everywhere seen isFront
    refine ⟨r, isRead, (reached.got_iff seenArrived).mpr ?_⟩
    rintro ⟨isV1, beyond, before, chunk, rfl, notAll⟩
    exact Nat.not_lt_of_le (apart isV1 before chunk isFront notAll) beyond

/-- The block of the one vector that is used; no record is sealed. -/
def officeKeys : Keys where
  encryptBlock _ := #v[155, 120, 72, 179, 16, 58, 238, 177, 166, 209, 130, 70, 180, 130, 151, 61]
  aead :=
    { encrypt := fun _ _ text => text ++ List.replicate tagLen 0
      decrypt := fun _ _ sealed => some (sealed.take (sealed.length - tagLen))
      length_encrypt := by simp
      decrypt_encrypt := by simp }

def rawCodec : Codec (Nat × List UInt8) Unit where
  decode typeId payload := some (typeId, payload)
  decodeUdpBinary _ := none
  decodeNLink _ := none

def officeServer : Peer rawCodec where
  sealing := .v1 #v[15, 14, 13, 12, 11, 10, 9, 8, 7, 6, 5, 4, 3, 2, 1, 0]
  clear := [⟨0x31, [123, 34, 114, 117, 110, 95, 105, 100, 34, 58, 34, 49, 34, 125]⟩]
  secret := [⟨0x34, [123, 125]⟩]
  agreed := {}
  someClear := List.cons_ne_nil _ _
  clearValid := by
    intro f member
    obtain rfl := List.mem_singleton.mp member
    exact ⟨by decide, by decide, by decide⟩
  clearRead := by decide
  secretValid := by
    intro f member
    obtain rfl := List.mem_singleton.mp member
    exact ⟨by decide, by decide, by decide⟩
  secretRead := by
    intro f member
    obtain rfl := List.mem_singleton.mp member
    exact ⟨.msg (12, [123, 125]), rfl⟩
  sealed := trivial

theorem prompt_officeServer :
    Prompt officeKeys officeServer (officeServer.pieces officeKeys) ↔
      SwitchedApart officeKeys officeServer (officeServer.pieces officeKeys) :=
  prompt_iff_switchedApart officeKeys officeServer (by decide) (List.prefix_refl _)

/-- All of it in one read. -/
theorem not_prompt_oneRead : ¬Prompt officeKeys officeServer [(officeServer.pieces officeKeys).flatten] := by
  intro prompt
  obtain ⟨r, isRead, got⟩ := prompt _ (List.prefix_refl _)
  have received : (officeServer.receiver.readAll officeKeys rawCodec {} [(officeServer.pieces officeKeys).flatten]).map
      (fun r => r.got.length) = some 1 := by decide +kernel
  have expected : (officeServer.delivered (whole (officeServer.pieces officeKeys)
      [(officeServer.pieces officeKeys).flatten].flatten.length)).length = 2 := by decide +kernel
  rw [show officeServer.receiver.readAll officeKeys rawCodec {} _ = some r from isRead, Option.map_some, got, expected]
    at received
  cases received

end Nfrp.Wire
