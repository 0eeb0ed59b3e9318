import Nfrp.Wire.AeadWriter

/-!
# Records on the way

A reader is given whatever arrives.  Of a stream as it was written it opens every record
as soon as it is there; of any other it opens the records that were sealed, in the order
in which they were, up to the first that is not one of them, and then no more.
-/

namespace Nfrp.Wire

open Lib

variable {aead : Aead}

/-- One call: the reader and the buffer after it, and the record that was opened, with
what was handed to the cipher; nothing where more is needed, and an error where that is
no record. -/
def AeadReader.openOne (aead : Aead) (r : AeadReader) (buf : List UInt8) :
    AeadReader × List UInt8 × Option (Option Record) :=
  let started := r.start buf
  match started.1.streamNonce with
  | none => (started.1, started.2, some none)
  | some streamNonce =>
    match openRecord aead streamNonce started.1.nonce started.2 with
    | .incomplete => (started.1, started.2, some none)
    | .broken => (started.1, started.2, none)
    | .item text length =>
      (⟨some streamNonce, incrementNonce started.1.nonce⟩, started.2.drop length,
        some (some ⟨started.1.nonce, streamNonce ++ started.2.take 4, (started.2.take length).drop 4, text⟩))

theorem openRecord_eq_item {streamNonce nonce buf text : List UInt8} {length : Nat}
    (opened : openRecord aead streamNonce nonce buf = .item text length) :
    (buf.take 4).length = 4 ∧
      aead.decrypt nonce (streamNonce ++ buf.take 4) ((buf.take length).drop 4) = some text := by
  rw [openRecord] at opened
  split at opened
  · cases opened
  next long =>
  dsimp only at opened
  split at opened
  · cases opened
  split at opened
  · cases opened
  split at opened
  · cases opened
  next decrypted =>
  obtain ⟨rfl, rfl⟩ := Parsed.item.inj opened
  refine ⟨List.length_take_of_le (Nat.le_of_not_lt long), ?_⟩
  rwa [List.drop_take, Nat.add_sub_cancel_left]

/-- What has been found to be no record stays so, whatever comes after it. -/
theorem openRecord_broken_append {streamNonce nonce buf : List UInt8}
    (isBroken : openRecord aead streamNonce nonce buf = .broken) (more : List UInt8) :
    openRecord aead streamNonce nonce (buf ++ more) = .broken := by
  rw [openRecord] at isBroken ⊢
  split at isBroken
  · cases isBroken
  next long =>
  have longer : ¬(buf ++ more).length < 4 := by
    rw [List.length_append]
    omega
  have sameHeader : (buf ++ more).take 4 = buf.take 4 := List.take_append_of_le_length (Nat.le_of_not_lt long)
  rw [if_neg longer, sameHeader]
  dsimp only at isBroken ⊢
  split at isBroken
  next outside => rw [if_pos outside]
  next inside =>
  rw [if_neg inside]
  split at isBroken
  · cases isBroken
  next enough =>
  have sameRecord : ((buf ++ more).drop 4).take (ofBeBytes (buf.take 4)) =
      (buf.drop 4).take (ofBeBytes (buf.take 4)) := by
    rw [List.drop_append_of_le_length (Nat.le_of_not_lt long), List.take_append_of_le_length]
    rw [List.length_drop]
    omega
  rw [if_neg (by rw [List.length_append]; omega), sameRecord]
  split at isBroken
  · rfl
  · cases isBroken

/-- What has been opened so far, and whether a call has failed. -/
structure Receiving where
  reader : AeadReader := {}
  buf : List UInt8 := []
  opened : List Record := []
  failed : Bool := false

namespace Receiving

variable (aead)

def step (s : Receiving) : Feed UInt8 → Receiving
  | .arrive chunk => { s with buf := s.buf ++ chunk }
  | .call =>
    let called := s.reader.openOne aead s.buf
    match called.2.2 with
    | none => { s with reader := called.1, buf := called.2.1, failed := true }
    | some record =>
      { s with reader := called.1, buf := called.2.1, opened := s.opened ++ record.toList }

def run (events : List (Feed UInt8)) : Receiving :=
  events.foldl (step aead) {}

def text (s : Receiving) : List UInt8 :=
  s.opened.flatMap Record.text

variable {aead}

theorem run_append_singleton (events : List (Feed UInt8)) (event : Feed UInt8) :
    run aead (events ++ [event]) = (run aead events).step aead event := by
  rw [run, List.foldl_append]
  rfl

theorem step_call_cases (s : Receiving) :
    ∃ reader buf, s.reader.start s.buf = (reader, buf) ∧
      (s.step aead .call = ⟨reader, buf, s.opened, s.failed⟩ ∨
        ∃ found, reader.streamNonce = some found ∧
          ((openRecord aead found reader.nonce buf = .broken ∧ s.step aead .call = ⟨reader, buf, s.opened, true⟩) ∨
            ∃ text length, openRecord aead found reader.nonce buf = .item text length ∧
              s.step aead .call = ⟨⟨some found, incrementNonce reader.nonce⟩, buf.drop length,
                s.opened ++ [⟨reader.nonce, found ++ buf.take 4, (buf.take length).drop 4, text⟩], s.failed⟩)) := by
  rw [step, AeadReader.openOne]
  generalize s.reader.start s.buf = started
  obtain ⟨⟨known, nonce⟩, buf⟩ := started
  refine ⟨_, _, rfl, ?_⟩
  cases known with
  | none => exact .inl (by simp)
  | some found =>
    dsimp only
    cases opened : openRecord aead found nonce buf with
    | incomplete => exact .inl (by simp)
    | broken => exact .inr ⟨found, rfl, .inl ⟨opened, rfl⟩⟩
    | item text length => exact .inr ⟨found, rfl, .inr ⟨text, length, opened, rfl⟩⟩

theorem opened_isPrefix_step (s : Receiving) (event : Feed UInt8) : s.opened <+: (s.step aead event).opened := by
  cases event with
  | arrive chunk => exact List.prefix_refl _
  | call =>
    obtain ⟨reader, buf, -, waits | ⟨found, -, ⟨-, fails⟩ | ⟨text, length, -, opens⟩⟩⟩ := @step_call_cases aead s
    · rw [waits]
    · rw [fails]
    · rw [opens]
      exact List.prefix_append _ _

section Genuine

variable {streamNonce : List UInt8} {chunks : List (List UInt8)}

/-- The nonce has not been looked for, or some records have been opened and the buffer is
what has arrived of the others. -/
def Genuine (aead : Aead) (streamNonce : List UInt8) (chunks : List (List UInt8)) (received : List UInt8) (s : Receiving) :
    Prop :=
  s.failed = false ∧
    ((s.reader = {} ∧ s.buf = received ∧ s.opened = []) ∨
      ∃ done later, chunks = done ++ later ∧
        received = streamNonce ++
          ((encodeFrom (sealRecord aead streamNonce) incrementNonce streamNonce done).flatten ++ s.buf) ∧
        s.reader = ⟨some streamNonce, nonceAt streamNonce done.length⟩ ∧
        s.opened = recordsFrom aead streamNonce streamNonce done)

theorem openOne_started {nonce buf : List UInt8} {later : List (List UInt8)}
    (valid : ∀ chunk ∈ later, IsChunk chunk)
    (arrived : buf <+: (encodeFrom (sealRecord aead streamNonce) incrementNonce nonce later).flatten) :
    (Unfinished (sealRecord aead streamNonce nonce) later buf ∧
        AeadReader.openOne aead ⟨some streamNonce, nonce⟩ buf = (⟨some streamNonce, nonce⟩, buf, some none)) ∨
      ∃ chunk rest beyond, later = chunk :: rest ∧ buf = sealRecord aead streamNonce nonce chunk ++ beyond ∧
        AeadReader.openOne aead ⟨some streamNonce, nonce⟩ buf =
          (⟨some streamNonce, incrementNonce nonce⟩, beyond,
            some (some ⟨nonce, streamNonce ++ recordHeader chunk,
              aead.encrypt nonce (streamNonce ++ recordHeader chunk) chunk, chunk⟩)) := by
  cases later with
  | nil =>
    obtain rfl : buf = [] := List.prefix_nil.mp arrived
    exact .inl ⟨rfl, rfl⟩
  | cons chunk rest =>
    have isChunk := valid chunk List.mem_cons_self
    have recognises := recognises_openRecord aead streamNonce nonce
    rw [encodeFrom, List.flatten_cons] at arrived
    rcases first_cases arrived with ⟨beyond, rfl, -⟩ | ⟨inItem, notAll⟩
    · refine .inr ⟨chunk, rest, beyond, rfl, rfl, ?_⟩
      have found := recognises.whole chunk beyond isChunk
      have header : (sealRecord aead streamNonce nonce chunk ++ beyond).take 4 = recordHeader chunk := by
        rw [sealRecord, List.append_assoc]
        exact List.take_left' (length_beBytes 4 _)
      have sealed : (sealRecord aead streamNonce nonce chunk).drop 4 =
          aead.encrypt nonce (streamNonce ++ recordHeader chunk) chunk :=
        List.drop_left' (length_beBytes 4 _)
      simp only [AeadReader.openOne, AeadReader.start, found, id, List.drop_left, List.take_left, header, sealed]
    · refine .inl ⟨⟨inItem, notAll⟩, ?_⟩
      have waits := recognises.partly chunk buf isChunk inItem notAll
      simp only [AeadReader.openOne, AeadReader.start, waits]

theorem openOne_short {buf : List UInt8} (short : buf.length < nonceLen) :
    AeadReader.openOne aead {} buf = ({}, buf, some none) := by
  simp only [AeadReader.openOne, AeadReader.start, if_pos short]

theorem openOne_nonce (isNonce : streamNonce.length = nonceLen) (body : List UInt8) :
    AeadReader.openOne aead {} (streamNonce ++ body) =
      AeadReader.openOne aead ⟨some streamNonce, streamNonce⟩ body := by
  have long : ¬(streamNonce ++ body).length < nonceLen := by
    rw [List.length_append]
    omega
  simp only [AeadReader.openOne, AeadReader.start, if_neg long, List.take_left' isNonce, List.drop_left' isNonce]

theorem Genuine.arrive {received : List UInt8} {s : Receiving} (genuine : Genuine aead streamNonce chunks received s)
    (chunk : List UInt8) : Genuine aead streamNonce chunks (received ++ chunk) (s.step aead (.arrive chunk)) := by
  obtain ⟨noFailure, ⟨isReader, isBuf, isOpened⟩ | ⟨done, later, split, isReceived, isReader, isOpened⟩⟩ := genuine
  · exact ⟨noFailure, .inl ⟨isReader, congrArg (· ++ chunk) isBuf, isOpened⟩⟩
  · refine ⟨noFailure, .inr ⟨done, later, split, ?_, isReader, isOpened⟩⟩
    rw [isReceived, List.append_assoc, List.append_assoc]
    rfl

theorem Genuine.call_started {received buf : List UInt8} {done later : List (List UInt8)} {s : Receiving}
    (valid : ∀ chunk ∈ chunks, IsChunk chunk) (split : chunks = done ++ later)
    (isReceived : received = streamNonce ++
      ((encodeFrom (sealRecord aead streamNonce) incrementNonce streamNonce done).flatten ++ buf))
    (arrived : received <+: streamNonce ++
      (encodeFrom (sealRecord aead streamNonce) incrementNonce streamNonce chunks).flatten)
    (noFailure : s.failed = false) (isOpened : s.opened = recordsFrom aead streamNonce streamNonce done)
    (isCall : s.reader.openOne aead s.buf =
      AeadReader.openOne aead ⟨some streamNonce, nonceAt streamNonce done.length⟩ buf) :
    Genuine aead streamNonce chunks received (s.step aead .call) ∧
      ((s.step aead .call).opened.length = done.length + 1 ∨
        Unfinished (sealRecord aead streamNonce (nonceAt streamNonce done.length)) later buf ∧
          (s.step aead .call).opened = recordsFrom aead streamNonce streamNonce done ∧
          (s.step aead .call).buf = buf) := by
  have inLater : buf <+: (encodeFrom (sealRecord aead streamNonce) incrementNonce
      (nonceAt streamNonce done.length) later).flatten := by
    rwa [isReceived, split, List.prefix_append_right_inj, encodeFrom_append, List.flatten_append,
      List.prefix_append_right_inj] at arrived
  have validLater : ∀ chunk ∈ later, IsChunk chunk := by
    intro chunk member
    exact valid chunk (split ▸ List.mem_append_right _ member)
  rcases openOne_started validLater inLater with ⟨unfinished, waits⟩ | ⟨chunk, rest, beyond, rfl, rfl, opens⟩
  · have isStep : s.step aead .call =
        ⟨⟨some streamNonce, nonceAt streamNonce done.length⟩, buf, s.opened, false⟩ := by
      simp only [step, isCall, waits, noFailure, Option.toList_none, List.append_nil]
    rw [isStep]
    exact ⟨⟨rfl, .inr ⟨done, later, split, isReceived, rfl, isOpened⟩⟩, .inr ⟨unfinished, isOpened, rfl⟩⟩
  · have next : nonceAt streamNonce (done ++ [chunk]).length =
        incrementNonce (nonceAt streamNonce done.length) := by
      rw [List.length_append]
      exact stateAfter_add incrementNonce done.length 1 streamNonce
    have isStep : s.step aead .call =
        ⟨⟨some streamNonce, nonceAt streamNonce (done ++ [chunk]).length⟩, beyond,
          recordsFrom aead streamNonce streamNonce (done ++ [chunk]), false⟩ := by
      simp only [step, isCall, opens, noFailure, Option.toList_some, next, recordsFrom_append, isOpened]
      rfl
    rw [isStep]
    refine ⟨⟨rfl, .inr ⟨done ++ [chunk], rest, ?_, ?_, rfl, rfl⟩⟩, .inl ?_⟩
    · rw [split, List.append_assoc, List.singleton_append]
    · rw [isReceived, encodeFrom_append, List.flatten_append, encodeFrom, encodeFrom, List.flatten_singleton,
        List.append_assoc]
    · rw [length_recordsFrom, List.length_append]
      rfl

/-- A call opens the next record, or there is none and it starts at most. -/
theorem Genuine.call (isNonce : streamNonce.length = nonceLen) (valid : ∀ chunk ∈ chunks, IsChunk chunk)
    {received : List UInt8} {s : Receiving} (genuine : Genuine aead streamNonce chunks received s)
    (arrived : received <+: streamNonce ++
      (encodeFrom (sealRecord aead streamNonce) incrementNonce streamNonce chunks).flatten) :
    Genuine aead streamNonce chunks received (s.step aead .call) ∧
      ((s.step aead .call).opened.length = s.opened.length + 1 ∨ received.length < nonceLen ∨
        ∃ done later, chunks = done ++ later ∧ (s.step aead .call).opened = recordsFrom aead streamNonce streamNonce done ∧
          received = streamNonce ++ ((encodeFrom (sealRecord aead streamNonce) incrementNonce streamNonce done).flatten ++
            (s.step aead .call).buf) ∧
          Unfinished (sealRecord aead streamNonce (nonceAt streamNonce done.length)) later (s.step aead .call).buf) := by
  obtain ⟨noFailure, ⟨isReader, isBuf, isOpened⟩ | ⟨done, later, split, isReceived, isReader, isOpened⟩⟩ := genuine
  · by_cases short : received.length < nonceLen
    · have isStep : s.step aead .call = ⟨{}, received, [], false⟩ := by
        simp only [step, isReader, isBuf, isOpened, noFailure, openOne_short short, Option.toList_none, List.append_nil]
      rw [isStep]
      exact ⟨⟨rfl, .inl ⟨rfl, rfl, rfl⟩⟩, .inr (.inl short)⟩
    · obtain ⟨body, rfl, -⟩ := exists_of_front arrived (isNonce ▸ Nat.le_of_not_lt short)
      have isCall : s.reader.openOne aead s.buf = AeadReader.openOne aead ⟨some streamNonce, streamNonce⟩ body := by
        rw [isReader, isBuf, openOne_nonce isNonce]
      have called := @call_started aead streamNonce chunks _ body [] chunks s valid rfl rfl arrived noFailure isOpened
        isCall
      have grew (opens : (s.step aead .call).opened.length = 0 + 1) :
          (s.step aead .call).opened.length = s.opened.length + 1 := by rw [opens, isOpened, List.length_nil]
      refine ⟨called.1, called.2.imp grew fun ⟨unfinished, same, sameBuf⟩ => .inr ?_⟩
      exact ⟨[], chunks, rfl, same, by rw [sameBuf]; rfl, by rw [sameBuf]; exact unfinished⟩
  · have isCall : s.reader.openOne aead s.buf =
        AeadReader.openOne aead ⟨some streamNonce, nonceAt streamNonce done.length⟩ s.buf := by rw [isReader]
    have called := call_started valid split isReceived arrived noFailure isOpened isCall
    refine ⟨called.1, called.2.imp (fun opens => by rw [opens, isOpened, length_recordsFrom]) ?_⟩
    rintro ⟨unfinished, same, sameBuf⟩
    exact .inr ⟨done, later, split, same, by rw [sameBuf]; exact isReceived, by rw [sameBuf]; exact unfinished⟩

theorem Genuine.run (isNonce : streamNonce.length = nonceLen) (valid : ∀ chunk ∈ chunks, IsChunk chunk)
    {events : List (Feed UInt8)} (arrived : Feed.arrived events <+: streamNonce ++
      (encodeFrom (sealRecord aead streamNonce) incrementNonce streamNonce chunks).flatten) :
    Genuine aead streamNonce chunks (Feed.arrived events) (Receiving.run aead events) := by
  induction events using List.reverseRecOn with
  | nil => exact ⟨rfl, .inl ⟨rfl, rfl, rfl⟩⟩
  | append_singleton events event ih =>
    rw [Feed.arrived_append] at arrived ⊢
    have soFar := (List.prefix_append _ _).trans arrived
    rw [run_append_singleton]
    cases event with
    | arrive chunk =>
      rw [Feed.arrived, Feed.arrived, List.append_nil]
      exact (ih soFar).arrive chunk
    | call =>
      rw [Feed.arrived, Feed.arrived, List.append_nil]
      exact ((ih soFar).call isNonce valid soFar).1

theorem Genuine.opened_isPrefix {received : List UInt8} {s : Receiving}
    (genuine : Genuine aead streamNonce chunks received s) :
    s.opened <+: recordsFrom aead streamNonce streamNonce chunks := by
  obtain ⟨-, ⟨-, -, isOpened⟩ | ⟨done, later, split, -, -, isOpened⟩⟩ := genuine
  · rw [isOpened]
    exact List.nil_prefix
  · rw [isOpened, split, recordsFrom_append]
    exact List.prefix_append _ _

theorem step_call_nil {s : Receiving} (nothing : s.buf = []) (noFailure : s.failed = false) :
    (s.step aead .call).opened = s.opened ∧ (s.step aead .call).buf = [] ∧ (s.step aead .call).failed = false := by
  have waits : s.reader.openOne aead [] = (s.reader, [], some none) := by
    obtain ⟨⟨_ | streamNonce, nonce⟩, -, -, -⟩ := s
    · simp only [AeadReader.openOne, AeadReader.start, List.length_nil, if_pos (show 0 < nonceLen by decide)]
    · rfl
  simp only [step, nothing, waits, Option.toList_none, List.append_nil]
  exact ⟨trivial, trivial, noFailure⟩

theorem calls_nil {s : Receiving} (nothing : s.buf = []) (noFailure : s.failed = false) (count : Nat) :
    ∃ reader, (List.replicate count .call).foldl (step aead) s = ⟨reader, [], s.opened, false⟩ := by
  induction count generalizing s with
  | zero =>
    obtain ⟨reader, buf, opened, failed⟩ := s
    obtain rfl : buf = [] := nothing
    obtain rfl : failed = false := noFailure
    exact ⟨reader, rfl⟩
  | succ count ih =>
    obtain ⟨sameOpened, stillNothing, stillNoFailure⟩ := @step_call_nil aead _ nothing noFailure
    rw [List.replicate_succ, List.foldl_cons, ← sameOpened]
    exact ih stillNothing stillNoFailure

/-- Of the whole stream, one call more than there are records leaves nothing. -/
theorem Genuine.calls (isNonce : streamNonce.length = nonceLen) (valid : ∀ chunk ∈ chunks, IsChunk chunk)
    {s : Receiving} (genuine : Genuine aead streamNonce chunks (streamNonce ++
      (encodeFrom (sealRecord aead streamNonce) incrementNonce streamNonce chunks).flatten) s) {count : Nat}
    (enough : chunks.length < s.opened.length + count) :
    ∃ reader, (List.replicate count .call).foldl (step aead) s =
      ⟨reader, [], recordsFrom aead streamNonce streamNonce chunks, false⟩ := by
  induction count generalizing s with
  | zero =>
    have few := genuine.opened_isPrefix.length_le
    rw [length_recordsFrom] at few
    omega
  | succ count ih =>
    obtain ⟨after, grew | short | ⟨done, later, split, isOpened, isAll, unfinished⟩⟩ :=
      genuine.call isNonce valid (List.prefix_refl _)
    · rw [List.replicate_succ, List.foldl_cons]
      exact ih after (by omega)
    · rw [List.length_append] at short
      omega
    · rw [split, encodeFrom_append, List.flatten_append] at isAll
      have isRest := List.append_cancel_left (List.append_cancel_left isAll)
      have noMore : later = [] := by
        cases later with
        | nil => rfl
        | cons next later =>
          rw [encodeFrom, List.flatten_cons] at isRest
          exact absurd ⟨_, isRest⟩ unfinished.not_isPrefix
      subst noMore
      obtain ⟨reader, ran⟩ := calls_nil isRest.symm after.1 count
      refine ⟨reader, ?_⟩
      rw [List.replicate_succ, List.foldl_cons, ran, isOpened, split, List.append_nil]

end Genuine

/-- Nothing has been opened but what was sealed, as it was. -/
def Unforged (log : List Record) (s : Receiving) : Prop :=
  ∀ record ∈ s.opened, ∃ sealed ∈ log,
    sealed.nonce = record.nonce ∧ sealed.aad = record.aad ∧ sealed.sealed = record.sealed

section Attacked

variable {streamNonce : List UInt8} {chunks : List (List UInt8)}

/-- As many records as were sealed first, and the nonce of the next. -/
structure InOrder (aead : Aead) (streamNonce : List UInt8) (chunks : List (List UInt8)) (s : Receiving) : Prop where
  opened : s.opened <+: recordsFrom aead streamNonce streamNonce chunks
  unknown : s.reader.streamNonce = none → s.opened = []
  known : ∀ found, s.reader.streamNonce = some found →
    found.length = nonceLen ∧ s.reader.nonce = nonceAt found s.opened.length ∧ (s.opened ≠ [] → found = streamNonce)

theorem start_cases (r : AeadReader) (buf : List UInt8) :
    (r.start buf = (r, buf)) ∨
      (r.streamNonce = none ∧ ∃ found rest, found.length = nonceLen ∧ r.start buf = (⟨some found, found⟩, rest)) := by
  rw [AeadReader.start]
  split
  · exact .inl rfl
  next isUnknown =>
  split
  · exact .inl rfl
  next long => exact .inr ⟨isUnknown, _, _, List.length_take_of_le (Nat.le_of_not_lt long), rfl⟩

theorem InOrder.start {s : Receiving} (inOrder : InOrder aead streamNonce chunks s) (failed : Bool) :
    InOrder aead streamNonce chunks
      ⟨(s.reader.start s.buf).1, (s.reader.start s.buf).2, s.opened, failed⟩ := by
  rcases start_cases s.reader s.buf with same | ⟨isUnknown, found, rest, isNonce, started⟩
  · rw [same]
    exact ⟨inOrder.opened, inOrder.unknown, inOrder.known⟩
  · have nothing := inOrder.unknown isUnknown
    rw [started]
    refine ⟨inOrder.opened, nofun, ?_⟩
    rintro other isFound
    obtain rfl := Option.some.inj isFound
    refine ⟨isNonce, ?_, fun some => absurd nothing some⟩
    rw [nothing]
    rfl

theorem recordsFrom_mem {nonce : List UInt8} {record : Record}
    (member : record ∈ recordsFrom aead streamNonce nonce chunks) :
    ∃ done chunk later, chunks = done ++ chunk :: later ∧ record = ⟨nonceAt nonce done.length,
      streamNonce ++ recordHeader chunk,
      aead.encrypt (nonceAt nonce done.length) (streamNonce ++ recordHeader chunk) chunk, chunk⟩ := by
  induction chunks generalizing nonce with
  | nil => exact absurd member List.not_mem_nil
  | cons chunk chunks ih =>
    rcases List.mem_cons.mp member with isFirst | later
    · exact ⟨[], chunk, chunks, rfl, isFirst⟩
    · obtain ⟨done, other, rest, split, isRecord⟩ := ih later
      exact ⟨chunk :: done, other, rest, by rw [split, List.cons_append], isRecord⟩

/-- The record that is opened next is the one that was sealed next. -/
theorem InOrder.next (isNonce : streamNonce.length = nonceLen) (few : chunks.length ≤ maxFrames) {s : Receiving}
    (inOrder : InOrder aead streamNonce chunks s) {found header ciphertext text : List UInt8}
    (isFound : s.reader.streamNonce = some found) (isHeader : header.length = 4)
    (isText : aead.decrypt s.reader.nonce (found ++ header) ciphertext = some text)
    (genuine : ∃ sealed ∈ recordsFrom aead streamNonce streamNonce chunks,
      sealed.nonce = s.reader.nonce ∧ sealed.aad = found ++ header ∧ sealed.sealed = ciphertext) :
    found = streamNonce ∧ s.opened ++ [⟨s.reader.nonce, found ++ header, ciphertext, text⟩] <+:
      recordsFrom aead streamNonce streamNonce chunks := by
  obtain ⟨isLong, isCount, -⟩ := inOrder.known found isFound
  obtain ⟨record, member, sameNonce, sameAad, sameSealed⟩ := genuine
  obtain ⟨done, chunk, later, split, rfl⟩ := recordsFrom_mem member
  dsimp only at sameNonce sameAad sameSealed
  obtain ⟨rfl, rfl⟩ := List.append_inj sameAad (isNonce.trans isLong.symm)
  refine ⟨rfl, ?_⟩
  have openedFew := inOrder.opened.length_le
  rw [length_recordsFrom] at openedFew
  have room : maxFrames < 256 ^ streamNonce.length := by
    rw [isNonce]
    decide
  have doneFew : done.length < chunks.length := by
    rw [split, List.length_append, List.length_cons]
    omega
  have samePlace : done.length = s.opened.length :=
    nonceAt_inj (by omega) (by omega) (sameNonce.trans isCount)
  have sameText : chunk = text := by
    rw [← sameNonce, ← sameSealed, aead.decrypt_encrypt] at isText
    exact Option.some.inj isText
  subst sameText
  have before : s.opened = recordsFrom aead streamNonce streamNonce done := by
    have inLog := inOrder.opened
    rw [split, recordsFrom_append] at inLog
    refine (List.prefix_of_prefix_length_le inLog (List.prefix_append _ _) ?_).eq_of_length ?_
    · rw [length_recordsFrom, samePlace]
    · rw [length_recordsFrom, samePlace]
  rw [before, split, recordsFrom_append, ← sameNonce, ← sameSealed, List.prefix_append_right_inj]
  exact ⟨_, rfl⟩

theorem InOrder.step (isNonce : streamNonce.length = nonceLen) (few : chunks.length ≤ maxFrames) {s : Receiving}
    (inOrder : InOrder aead streamNonce chunks s) (event : Feed UInt8)
    (unforged : Unforged (recordsFrom aead streamNonce streamNonce chunks) (s.step aead event)) :
    InOrder aead streamNonce chunks (s.step aead event) := by
  cases event with
  | arrive chunk => exact ⟨inOrder.opened, inOrder.unknown, inOrder.known⟩
  | call =>
    have started (failed : Bool) := inOrder.start failed
    obtain ⟨reader, buf, isStart, waits | ⟨found, isFound, ⟨-, fails⟩ | ⟨text, length, opened, opens⟩⟩⟩ :=
      @step_call_cases aead s
    · rw [isStart] at started
      rw [waits]
      exact started _
    · rw [isStart] at started
      rw [fails]
      exact started _
    · rw [isStart] at started
      rw [opens] at unforged ⊢
      obtain ⟨isHeader, isText⟩ := openRecord_eq_item opened
      have isNext := (started false).next isNonce few isFound isHeader isText
        (unforged _ (List.mem_append_right _ List.mem_cons_self))
      obtain ⟨rfl, inLog⟩ := isNext
      obtain ⟨-, isCount, -⟩ := (started false).known _ isFound
      refine ⟨inLog, nofun, ?_⟩
      rintro other sameFound
      obtain rfl := Option.some.inj sameFound
      refine ⟨isNonce, ?_, fun _ => rfl⟩
      dsimp only at isCount ⊢
      rw [isCount, List.length_append]
      exact (stateAfter_add incrementNonce s.opened.length 1 found).symm

theorem InOrder.run (isNonce : streamNonce.length = nonceLen) (few : chunks.length ≤ maxFrames)
    {events : List (Feed UInt8)}
    (unforged : Unforged (recordsFrom aead streamNonce streamNonce chunks) (Receiving.run aead events)) :
    InOrder aead streamNonce chunks (Receiving.run aead events) := by
  induction events using List.reverseRecOn with
  | nil => exact ⟨List.nil_prefix, fun _ => rfl, nofun⟩
  | append_singleton events event ih =>
    rw [run_append_singleton] at unforged ⊢
    have before : Unforged (recordsFrom aead streamNonce streamNonce chunks) (Receiving.run aead events) := by
      intro record member
      exact unforged record ((opened_isPrefix_step _ event).subset member)
    exact (ih before).step isNonce few event unforged

def Stuck (aead : Aead) (s : Receiving) : Prop :=
  ∃ streamNonce, s.reader.streamNonce = some streamNonce ∧
    openRecord aead streamNonce s.reader.nonce s.buf = .broken

theorem Stuck.step {s : Receiving} (stuck : Stuck aead s) (event : Feed UInt8) :
    Stuck aead (s.step aead event) ∧ (s.step aead event).opened = s.opened := by
  obtain ⟨streamNonce, isKnown, isBroken⟩ := stuck
  cases event with
  | arrive chunk => exact ⟨⟨streamNonce, isKnown, openRecord_broken_append isBroken chunk⟩, rfl⟩
  | call =>
    obtain ⟨⟨known, nonce⟩, buf, opened, failed⟩ := s
    obtain rfl : known = some streamNonce := isKnown
    dsimp only at isBroken
    simp only [Receiving.step, AeadReader.openOne, AeadReader.start, isBroken]
    exact ⟨⟨streamNonce, rfl, isBroken⟩, trivial⟩

theorem stuck_of_failed {s : Receiving} {event : Feed UInt8} (stuck : s.failed = true → Stuck aead s)
    (failed : (s.step aead event).failed = true) : Stuck aead (s.step aead event) := by
  cases isFailed : s.failed with
  | true => exact ((stuck isFailed).step event).1
  | false =>
    cases event with
    | arrive chunk => cases isFailed.symm.trans failed
    | call =>
      obtain ⟨reader, buf, -, waits | ⟨found, isFound, ⟨isBroken, fails⟩ | ⟨text, length, -, opens⟩⟩⟩ :=
        @step_call_cases aead s
      · rw [waits] at failed
        cases isFailed.symm.trans failed
      · rw [fails]
        exact ⟨found, isFound, isBroken⟩
      · rw [opens] at failed
        cases isFailed.symm.trans failed

theorem stuck_run {events : List (Feed UInt8)} (failed : (Receiving.run aead events).failed = true) :
    Stuck aead (Receiving.run aead events) := by
  induction events using List.reverseRecOn with
  | nil => cases failed
  | append_singleton events event ih =>
    rw [run_append_singleton] at failed ⊢
    exact stuck_of_failed ih failed

theorem Stuck.run {s : Receiving} (stuck : Stuck aead s) (more : List (Feed UInt8)) :
    (more.foldl (Receiving.step aead) s).opened = s.opened := by
  induction more generalizing s with
  | nil => rfl
  | cons event more ih =>
    obtain ⟨stillStuck, same⟩ := stuck.step event
    exact (ih stillStuck).trans same

end Attacked

end Receiving

/-- A writer with this nonce and what readers make of its stream, and of any other. -/
structure RecordStream (aead : Aead) (streamNonce : Vector UInt8 12) (writes : List (List UInt8)) : Prop where
  /-- No nonce is used for two records. -/
  fresh : ((Sent.sendAll aead streamNonce.toList writes).log.map Record.nonce).Nodup
  /-- Below the limit every write is written. -/
  room : (writes.flatMap (blocks maxPayload)).length ≤ maxFrames →
    (Sent.sendAll aead streamNonce.toList writes).text = writes.flatten
  /-- Of any front of the stream no call fails, what is opened was sealed, and the text is a
  front. -/
  front : ∀ events, Feed.arrived events <+: (Sent.sendAll aead streamNonce.toList writes).wire →
    (Receiving.run aead events).failed = false ∧
      (Receiving.run aead events).opened <+: (Sent.sendAll aead streamNonce.toList writes).log ∧
      (Receiving.run aead events).text <+: (Sent.sendAll aead streamNonce.toList writes).text
  /-- Of the whole stream enough calls return all of the text. -/
  all : ∀ events count, Feed.arrived events = (Sent.sendAll aead streamNonce.toList writes).wire →
    (Sent.sendAll aead streamNonce.toList writes).log.length < count →
    (Receiving.run aead (events ++ List.replicate count .call)).text =
        (Sent.sendAll aead streamNonce.toList writes).text ∧
      (Receiving.run aead (events ++ List.replicate count .call)).buf = [] ∧
      (Receiving.run aead (events ++ List.replicate count .call)).failed = false
  /-- Once a call has failed nothing more is accepted. -/
  latch : ∀ events more, (Receiving.run aead events).failed = true →
    (Receiving.run aead (events ++ more)).text = (Receiving.run aead events).text
  /-- Of any stream in which nothing is forged the text is a front of the original. -/
  tampered : ∀ events, Receiving.Unforged (Sent.sendAll aead streamNonce.toList writes).log (Receiving.run aead events) →
    (Receiving.run aead events).text <+: writes.flatten

theorem flatMap_text_recordsFrom {streamNonce nonce : List UInt8} (chunks : List (List UInt8)) :
    (recordsFrom aead streamNonce nonce chunks).flatMap Record.text = chunks.flatten := by
  rw [List.flatMap_def, texts_recordsFrom]

theorem flatten_flatMap_blocks (writes : List (List UInt8)) :
    (writes.flatMap (blocks maxPayload)).flatten = writes.flatten := by
  induction writes with
  | nil => rfl
  | cons plaintext writes ih =>
    rw [List.flatMap_cons, List.flatten_append, ih, flatten_blocks (by decide), List.flatten_cons]

theorem isChunk_of_mem_blocks {plaintext chunk : List UInt8} (member : chunk ∈ blocks maxPayload plaintext) :
    IsChunk chunk := by
  refine ⟨?_, length_le_of_mem_blocks member⟩
  rintro rfl
  obtain ⟨i, inRange, isEmpty⟩ := List.mem_map.mp member
  have isShort : plaintext.length ≤ i * maxPayload := by
    have short := congrArg List.length isEmpty
    rw [List.length_take, List.length_drop, List.length_nil, maxPayload] at short
    rw [maxPayload]
    omega
  have below := List.mem_range.mp inRange
  have enough := (Nat.lt_div_iff_mul_lt (show 0 < maxPayload by decide)).mp below
  omega

theorem recordStream (aead : Aead) (streamNonce : Vector UInt8 12) (writes : List (List UInt8)) :
    RecordStream aead streamNonce writes := by
  have isNonce : streamNonce.toList.length = nonceLen := Vector.length_toList
  obtain ⟨written, lost, holds⟩ := Sent.exists_holds_sendAll aead streamNonce.toList writes
  have fewNonces : maxFrames ≤ 256 ^ streamNonce.toList.length := by
    rw [isNonce]
    decide
  have few : (written ++ lost).length ≤ maxFrames := by
    by_cases tooMany : maxFrames < (writes.flatMap (blocks maxPayload)).length
    · exact (holds.tooMany tooMany).le
    · exact holds.sealed.length_le.trans (Nat.le_of_not_lt tooMany)
  have valid : ∀ chunk ∈ written, IsChunk chunk := by
    intro chunk member
    obtain ⟨plaintext, -, isBlock⟩ := List.mem_flatMap.mp (holds.sealed.subset (List.mem_append_left _ member))
    exact isChunk_of_mem_blocks isBlock
  have isWire : (Sent.sendAll aead streamNonce.toList writes).wire = streamNonce.toList ++
        (encodeFrom (sealRecord aead streamNonce.toList) incrementNonce streamNonce.toList written).flatten ∨
      ((Sent.sendAll aead streamNonce.toList writes).wire = [] ∧ written = []) := by
    cases isSent : (Sent.sendAll aead streamNonce.toList writes).writer.headerSent with
    | false =>
      obtain ⟨noWire, noChunks⟩ := holds.fresh isSent
      have nothing := holds.sealed
      rw [noChunks, List.prefix_nil] at nothing
      exact .inr ⟨noWire, (List.append_eq_nil_iff.mp nothing).1⟩
    | true => exact (holds.wire isSent).imp_right fun ⟨noWire, nothing, _⟩ => ⟨noWire, nothing⟩
  have inStream {received : List UInt8} (arrived : received <+: (Sent.sendAll aead streamNonce.toList writes).wire) :
      received <+: streamNonce.toList ++
        (encodeFrom (sealRecord aead streamNonce.toList) incrementNonce streamNonce.toList written).flatten := by
    rcases isWire with same | ⟨nothing, -⟩
    · rwa [same] at arrived
    · rw [nothing, List.prefix_nil] at arrived
      rw [arrived]
      exact List.nil_prefix
  refine ⟨?_, ?_, ?_, ?_, ?_, ?_⟩
  · rw [holds.log]
    exact nodup_nonces (few.trans fewNonces)
  · intro room
    rw [holds.text, (holds.room room).1, flatten_flatMap_blocks]
  · intro events arrived
    have genuine := Receiving.Genuine.run isNonce valid (inStream arrived)
    refine ⟨genuine.1, ?_, ?_⟩
    · rw [holds.log, recordsFrom_append]
      exact genuine.opened_isPrefix.trans (List.prefix_append _ _)
    · rw [holds.text, ← flatMap_text_recordsFrom written]
      exact genuine.opened_isPrefix.flatMap _
  · intro events count arrivedAll enough
    have genuine := Receiving.Genuine.run isNonce valid (inStream (by rw [arrivedAll]))
    have ran : Receiving.run aead (events ++ List.replicate count .call) =
        (List.replicate count .call).foldl (Receiving.step aead) (Receiving.run aead events) := List.foldl_append
    rw [ran]
    rcases isWire with same | ⟨nothing, noneWritten⟩
    · rw [arrivedAll, same] at genuine
      have manyCalls : written.length < (Receiving.run aead events).opened.length + count := by
        rw [holds.log, length_recordsFrom, List.length_append] at enough
        omega
      obtain ⟨reader, isEnd⟩ := genuine.calls isNonce valid manyCalls
      rw [isEnd]
      exact ⟨(flatMap_text_recordsFrom written).trans holds.text.symm, rfl, rfl⟩
    · subst noneWritten
      rw [arrivedAll, nothing] at genuine
      obtain ⟨noFailure, ⟨-, noBuf, noneOpened⟩ | ⟨done, later, -, isReceived, -, -⟩⟩ := genuine
      · obtain ⟨reader, isEnd⟩ := @Receiving.calls_nil aead _ noBuf noFailure count
        rw [isEnd, noneOpened]
        exact ⟨holds.text.symm, rfl, rfl⟩
      · have noNonce := (List.append_eq_nil_iff.mp isReceived.symm).1
        rw [noNonce] at isNonce
        cases isNonce
  · intro events more failed
    have ran : Receiving.run aead (events ++ more) = more.foldl (Receiving.step aead) (Receiving.run aead events) :=
      List.foldl_append
    rw [ran, Receiving.text, Receiving.text, (Receiving.stuck_run failed).run]
  · intro events unforged
    rw [holds.log] at unforged
    have inOrder := Receiving.InOrder.run isNonce few unforged
    have sealedText : (written ++ lost).flatten <+: writes.flatten := by
      rw [← flatten_flatMap_blocks writes]
      exact holds.sealed.flatten
    refine List.IsPrefix.trans ?_ sealedText
    rw [← flatMap_text_recordsFrom (written ++ lost)]
    exact inOrder.opened.flatMap _

end Nfrp.Wire
