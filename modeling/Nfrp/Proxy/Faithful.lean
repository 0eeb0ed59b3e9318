import Nfrp.Proxy.Relay

/-!
# Relays that are as good as the plain one

`AsPlain` is what the plain relay gives in every state: a direction that waits for
input has handed over all it read, one that has ended has told the other side so,
and the relay returns once both have ended or one has failed.
-/

namespace Nfrp

open Lib Nfrp.Snappy

variable {σ : Type}

namespace Copy

section

variable (aes : Block → Block → Block) (snap : Snap σ) (loop : Loop) (kind : StreamKind)

structure AsPlain (c : Copy σ) : Prop where
  idle : c.phase = .waiting → Link.HandedOver aes snap kind.key kind.compress c.link c.read c.wire
  finished : c.phase = .done →
    Link.HandedOver aes snap kind.key kind.compress c.link c.read c.wire ∧ c.ended = true ∧ c.closed = true
  /-- Once the end was read, nothing but flushing and the shutdown is left to do. -/
  ending : c.ended = true → (∃ chunk, c.phase = .flushing chunk true) ∨ c.phase = .closing ∨ c.phase = .done ∨ c.phase = .failed

/-- The connection takes the encoding of a write at once where the loop never flushes, and does not
refuse a shutdown that the loop gives no heed to. -/
def StaysPlain (c : Copy σ) (input : Input) : Prop :=
  match c.phase, input with
  | .writing rest _, .offer offer =>
    loop.flush = .never → ∀ n, (c.link.pollWrite aes snap rest offer).poll = .ready n →
      (c.link.pollWrite aes snap rest offer).stream.unsent = []
  | .closing, .offer offer =>
    loop.shutdownMatters = false → ∀ message, (c.link.pollShutdown aes snap offer).poll ≠ .error message
  | _, _ => True

def Carried (c : Copy σ) (text : List UInt8) : Prop :=
  Link.Carries aes snap kind.key kind.compress c.link text c.wire

def Clean (c : Copy σ) : Prop :=
  loop.flush = .whenIdle ∧ c.needFlush = true ∨ c.link.unsent = []

/-- Of what was read, what is on its way to the writer is still missing there. -/
def Sound (c : Copy σ) : Prop :=
  match c.phase with
  | .reading => c.Carried aes snap kind c.read ∧ c.moved = c.read.length ∧ c.ended = false ∧ c.Clean loop
  | .waiting => c.Carried aes snap kind c.read ∧ c.moved = c.read.length ∧ c.ended = false ∧ c.link.unsent = []
  | .throttled buf =>
    c.needFlush = true ∧ c.moved + buf.length = c.read.length ∧ c.ended = false ∧
      ∃ before, c.read = before ++ buf ∧ c.Carried aes snap kind before
  | .writing rest chunk =>
    c.needFlush = true ∧ c.moved + chunk = c.read.length ∧ c.ended = false ∧
      ∃ before, c.read = before ++ rest ∧ c.Carried aes snap kind before
  | .flushing chunk atEnd => c.Carried aes snap kind c.read ∧ c.moved + chunk = c.read.length ∧ c.ended = atEnd
  | .closing => c.Carried aes snap kind c.read ∧ c.moved = c.read.length ∧ c.ended = true
  | .done =>
    c.Carried aes snap kind c.read ∧ c.moved = c.read.length ∧ c.ended = true ∧ c.closed = true ∧ c.link.unsent = []
  | .failed => True

end

variable {aes : Block → Block → Block} {snap : Snap σ} {loop : Loop} {kind : StreamKind} {c : Copy σ}

theorem Sound.asPlain (sound : c.Sound aes snap loop kind) : c.AsPlain aes snap kind := by
  unfold Sound at sound
  refine ⟨fun waiting => ?_, fun done => ?_, fun ended => ?_⟩
  · rw [waiting] at sound
    exact ⟨sound.1, sound.2.2.2⟩
  · rw [done] at sound
    exact ⟨⟨sound.1, sound.2.2.2.2⟩, sound.2.2.1, sound.2.2.2.1⟩
  · cases phase : c.phase with
    | reading | waiting | throttled | writing =>
      rw [phase] at sound
      cases ended.symm.trans sound.2.2.1
    | flushing chunk atEnd =>
      rw [phase] at sound
      obtain rfl := ended.symm.trans sound.2.2
      exact .inl ⟨chunk, rfl⟩
    | closing => exact .inr (.inl rfl)
    | done => exact .inr (.inr (.inl rfl))
    | failed => exact .inr (.inr (.inr rfl))

theorem sound_nothingToRead (carried : c.Carried aes snap kind c.read) (counted : c.moved = c.read.length)
    (going : c.ended = false) (clean : c.Clean loop) : (c.nothingToRead loop).Sound aes snap loop kind := by
  rw [nothingToRead]
  split
  next => exact ⟨carried, counted, going⟩
  next settled => exact ⟨carried, counted, going, clean.resolve_left settled⟩

theorem sound_received (carried : c.Carried aes snap kind c.read) (counted : c.moved = c.read.length)
    (going : c.ended = false) (bytes : List UInt8) : (c.received loop bytes).Sound aes snap loop kind := by
  rw [received]
  split
  next =>
    by_cases idle : loop.flush = .whenIdle
    · rw [if_pos idle]
      exact ⟨carried, counted, rfl⟩
    · rw [if_neg idle]
      exact ⟨carried, counted, rfl⟩
  next =>
    have more : c.moved + bytes.length = (c.read ++ bytes).length := by rw [List.length_append, counted]
    cases loop.limited with
    | true => exact ⟨rfl, more, going, c.read, rfl, carried⟩
    | false => exact ⟨rfl, more, going, c.read, rfl, carried⟩

theorem sound_chunkWritten {chunk : Nat} (carried : c.Carried aes snap kind c.read)
    (counted : c.moved + chunk = c.read.length) (going : c.ended = false) (owed : c.needFlush = true)
    (through : loop.flush = .never → c.link.unsent = []) : (c.chunkWritten loop chunk).Sound aes snap loop kind := by
  rw [chunkWritten]
  cases flush : loop.flush with
  | eachWrite => exact ⟨carried, counted, going⟩
  | never => exact ⟨carried, counted, going, .inr (through flush)⟩
  | whenIdle => exact ⟨carried, counted, going, .inl ⟨flush, owed⟩⟩

theorem sound_write (framed : snap.Framed) {rest : List UInt8} {chunk : Nat} (phase : c.phase = .writing rest chunk)
    (sound : c.Sound aes snap loop kind) {offer : Offer} (stays : c.StaysPlain aes snap loop (.offer offer)) :
    (c.write aes snap loop rest chunk offer).Sound aes snap loop kind := by
  unfold Sound at sound
  unfold StaysPlain at stays
  rw [phase] at sound stays
  obtain ⟨owed, counted, going, before, pieces, carried⟩ := sound
  have wrote : (∀ message, (c.link.pollWrite aes snap rest offer).poll ≠ .error message) →
      Link.Carries aes snap kind.key kind.compress (c.link.pollWrite aes snap rest offer).stream
        (before ++ rest.take ((c.link.pollWrite aes snap rest offer).poll.getD 0))
        (c.wire ++ (c.link.pollWrite aes snap rest offer).written) :=
    fun noError => carried.pollWrite framed rest offer noError
  rw [write]
  cases answer : (c.link.pollWrite aes snap rest offer).poll with
  | pending =>
    rw [answer] at wrote
    have nothing := wrote (by rintro _ ⟨⟩)
    rw [Poll.getD, List.take_zero, List.append_nil] at nothing
    simp only [Sound, phase]
    exact ⟨owed, counted, going, before, pieces, nothing⟩
  | error message => exact trivial
  | ready n =>
    rw [answer] at wrote
    have taken := wrote (by rintro _ ⟨⟩)
    simp only [Poll.getD] at taken
    simp only
    split
    next => exact trivial
    next =>
      have whole : before ++ rest.take n ++ rest.drop n = c.read := by
        rw [List.append_assoc, List.take_append_drop, pieces]
      split
      next all =>
        rw [all, List.append_nil] at whole
        rw [whole] at taken
        exact sound_chunkWritten taken counted going owed fun never => stays never n answer
      next => exact ⟨owed, counted, going, before ++ rest.take n, whole.symm, taken⟩

theorem sound_flush (framed : snap.Framed) {chunk : Nat} {atEnd : Bool} (phase : c.phase = .flushing chunk atEnd)
    (sound : c.Sound aes snap loop kind) (offer : Offer) :
    (c.flush aes snap loop chunk atEnd offer).Sound aes snap loop kind := by
  unfold Sound at sound
  rw [phase] at sound
  obtain ⟨carried, counted, ending⟩ := sound
  have flushed := Link.Carries.pollFlush carried framed offer
  rw [flush]
  cases answer : (c.link.pollFlush aes snap offer).poll with
  | pending =>
    simp only [Sound, phase]
    exact ⟨flushed, counted, ending⟩
  | error message => exact trivial
  | ready =>
    have nothing := Link.unsent_pollFlush answer
    cases atEnd with
    | true => exact ⟨flushed, counted, ending⟩
    | false =>
      by_cases idle : loop.flush = .whenIdle
      · simp only [if_pos idle]
        exact ⟨flushed, counted, ending, nothing⟩
      · simp only [if_neg idle]
        exact ⟨flushed, counted, ending, .inr nothing⟩

theorem sound_close (framed : snap.Framed) (phase : c.phase = .closing) (sound : c.Sound aes snap loop kind)
    {offer : Offer} (stays : c.StaysPlain aes snap loop (.offer offer)) :
    (c.close aes snap loop offer).Sound aes snap loop kind := by
  unfold Sound at sound
  unfold StaysPlain at stays
  rw [phase] at sound stays
  obtain ⟨carried, counted, ended⟩ := sound
  have closed := Link.Carries.pollShutdown carried framed offer
  rw [close]
  cases answer : (c.link.pollShutdown aes snap offer).poll with
  | pending =>
    simp only [Sound, phase]
    exact ⟨closed, counted, ended⟩
  | error message =>
    cases matters : loop.shutdownMatters with
    | true => exact trivial
    | false => exact absurd answer (stays matters message)
  | ready => exact ⟨closed, counted, ended, rfl, Link.unsent_pollShutdown answer⟩

theorem sound_step (framed : snap.Framed) (sound : c.Sound aes snap loop kind) {input : Input}
    (stays : c.StaysPlain aes snap loop input) : (c.step aes snap loop input).Sound aes snap loop kind := by
  have given := sound
  unfold Sound at given
  unfold step
  split
  next phase =>
    rw [phase] at given
    exact sound_nothingToRead given.1 given.2.1 given.2.2.1 given.2.2.2
  next phase =>
    rw [phase] at given
    exact sound_nothingToRead given.1 given.2.1 given.2.2.1 (.inr given.2.2.2)
  next bytes phase =>
    rw [phase] at given
    exact sound_received given.1 given.2.1 given.2.2.1 bytes
  next bytes phase =>
    rw [phase] at given
    exact sound_received given.1 given.2.1 given.2.2.1 bytes
  next => exact trivial
  next => exact trivial
  next buf phase =>
    rw [phase] at given
    exact given
  next phase => exact sound_write framed phase sound stays
  next phase => exact sound_flush framed phase sound _
  next phase => exact sound_close framed phase sound stays
  next => exact sound

theorem step_of_done (done : c.phase = .done) (input : Input) : c.step aes snap loop input = c := by
  unfold step
  rw [done]

theorem step_of_failed (failed : c.phase = .failed) (input : Input) : c.step aes snap loop input = c := by
  unfold step
  rw [failed]

theorem chunkWritten_ne_failed (chunk : Nat) : (c.chunkWritten loop chunk).phase ≠ .failed := by
  rw [chunkWritten]
  split <;> exact nofun

theorem nothingToRead_ne_failed (c : Copy σ) : (c.nothingToRead loop).phase ≠ .failed := by
  rw [nothingToRead]
  split <;> exact nofun

theorem received_ne_failed (bytes : List UInt8) : (c.received loop bytes).phase ≠ .failed := by
  rw [received]
  split
  next => simp only; split <;> exact nofun
  next => simp only; split <;> exact nofun

/-- Where a refused shutdown is no failure, a direction fails by an input that makes it fail. -/
theorem fails_of_step {input : Input} (failed : (c.step aes snap loop input).phase = .failed) (going : c.phase ≠ .failed)
    (heedless : loop.shutdownMatters = false) : c.Fails aes snap input := by
  unfold step at failed
  unfold Fails
  split at failed
  next => exact absurd failed (nothingToRead_ne_failed c)
  next => exact absurd failed (nothingToRead_ne_failed c)
  next bytes _ => exact absurd failed (received_ne_failed bytes)
  next bytes _ => exact absurd failed (received_ne_failed bytes)
  next phase => simp only [phase]
  next phase => simp only [phase]
  next => cases failed
  next rest chunk offer phase =>
    rw [phase]
    rw [write] at failed
    simp only at failed
    split at failed
    next => exact absurd failed going
    next message answer => exact .inl ⟨message, answer⟩
    next n answer =>
      split at failed
      next zero => exact .inr (zero ▸ answer)
      next =>
        split at failed
        next => exact absurd failed (chunkWritten_ne_failed chunk)
        next => cases failed
  next chunk atEnd offer phase =>
    rw [phase]
    rw [flush] at failed
    simp only at failed
    split at failed
    next => exact absurd failed going
    next message answer => exact ⟨message, answer⟩
    next =>
      simp only at failed
      split at failed
      next => cases failed
      next => split at failed <;> cases failed
  next offer phase =>
    rw [close] at failed
    simp only at failed
    split at failed
    next => exact absurd failed going
    next =>
      rw [heedless] at failed
      cases failed
    next => cases failed
  next => exact absurd failed going

end Copy

namespace Relay

section

variable (aes : Block → Block → Block) (snap : Snap σ) (kind : RelayKind) (upKind downKind : StreamKind)

def Settled (r : Relay σ) : Prop :=
  r.up.phase = .failed ∨ r.down.phase = .failed ∨ r.up.phase = .done ∧ r.down.phase = .done

structure AsPlain (r : Relay σ) : Prop where
  up : r.up.AsPlain aes snap upKind
  down : r.down.AsPlain aes snap downKind
  ends : r.returned.isSome ↔ r.Settled
  counts : ∀ n m, r.returned = some (.ok (n, m)) → n = r.up.read.length ∧ m = r.down.read.length

/-- Besides, for `throttle`, the other direction does not fail before the first one has ended, and is not
still on its way ten seconds after that. -/
def StaysPlain (r : Relay σ) : RelayEvent → Prop
  | .up input => r.up.StaysPlain aes snap kind.loop input
  | .down input =>
    r.down.StaysPlain aes snap kind.loop input ∧
      (kind = .throttle → r.down.Fails aes snap input → r.up.phase = .done ∨ r.up.phase = .failed)
  | .timeout =>
    kind = .throttle → r.up.phase = .done → r.down.phase = .done ∨ r.down.phase = .failed

structure Sound (r : Relay σ) : Prop where
  up : r.up.Sound aes snap kind.loop upKind
  down : r.down.Sound aes snap kind.loop downKind
  ends : r.returned.isSome ↔ r.Settled
  both : ∀ n m, r.returned = some (.ok (n, m)) →
    (r.up.phase = .done ∧ r.down.phase = .done) ∧ n = r.up.moved ∧ m = r.down.moved
  inTurn : kind = .throttle → r.down.phase = .failed → r.up.phase = .done ∨ r.up.phase = .failed

end

variable {aes : Block → Block → Block} {snap : Snap σ} {kind : RelayKind} {upKind downKind : StreamKind} {r : Relay σ}

theorem moved_of_done {loop : Loop} {streamKind : StreamKind} {c : Copy σ} (sound : c.Sound aes snap loop streamKind)
    (done : c.phase = .done) : c.moved = c.read.length := by
  unfold Copy.Sound at sound
  rw [done] at sound
  exact sound.2.1

theorem Sound.asPlain (sound : r.Sound aes snap kind upKind downKind) : r.AsPlain aes snap upKind downKind where
  up := sound.up.asPlain
  down := sound.down.asPlain
  ends := sound.ends
  counts := by
    intro n m returned
    obtain ⟨⟨upDone, downDone⟩, rfl, rfl⟩ := sound.both n m returned
    exact ⟨moved_of_done sound.up upDone, moved_of_done sound.down downDone⟩

theorem isSome_joined (up down : Copy σ) : (joined up down).isSome ↔ Settled ⟨up, down, none⟩ := by
  unfold joined Settled
  split
  next failed => exact iff_of_true rfl (by simp only; tauto)
  next notFailed =>
    split
    next bothDone => exact iff_of_true rfl (.inr (.inr bothDone))
    next notDone => exact iff_of_false Bool.false_ne_true (by simp only; tauto)

theorem ok_of_joined {up down : Copy σ} {n m : Nat} (returned : joined up down = some (.ok (n, m))) :
    (up.phase = .done ∧ down.phase = .done) ∧ n = up.moved ∧ m = down.moved := by
  unfold joined at returned
  split at returned
  next => cases returned
  next =>
    split at returned
    next bothDone =>
      obtain ⟨rfl, rfl⟩ := Prod.mk.inj (Except.ok.inj (Option.some.inj returned))
      exact ⟨bothDone, rfl, rfl⟩
    next => cases returned

theorem joinedInTurn_eq_joined {up down : Copy σ} {timedOut : Bool}
    (inTurn : down.phase = .failed → up.phase = .done ∨ up.phase = .failed)
    (inTime : timedOut → up.phase = .done → down.phase = .done ∨ down.phase = .failed) :
    joinedInTurn up down timedOut = joined up down := by
  unfold joinedInTurn joined
  cases upPhase : up.phase <;> cases downPhase : down.phase <;> simp_all

theorem copies_up (ended : r.up.phase = .done ∨ r.up.phase = .failed) (event : RelayEvent) :
    (r.copies aes snap kind event).1 = r.up := by
  cases event with
  | up input =>
    rcases ended with done | failed
    · exact Copy.step_of_done done input
    · exact Copy.step_of_failed failed input
  | down input => rfl
  | timeout => rfl

theorem copies_down (ended : r.down.phase = .done ∨ r.down.phase = .failed) (event : RelayEvent) :
    (r.copies aes snap kind event).2 = r.down := by
  cases event with
  | up input => rfl
  | down input =>
    rcases ended with done | failed
    · exact Copy.step_of_done done input
    · exact Copy.step_of_failed failed input
  | timeout => rfl

theorem Settled.copies (settled : r.Settled) (event : RelayEvent) (returned : Option (Except Unit (Nat × Nat))) :
    Settled ⟨(r.copies aes snap kind event).1, (r.copies aes snap kind event).2, returned⟩ := by
  rcases settled with upFailed | downFailed | ⟨upDone, downDone⟩
  · refine .inl ?_
    rw [copies_up (.inr upFailed)]
    exact upFailed
  · refine .inr (.inl ?_)
    rw [copies_down (.inr downFailed)]
    exact downFailed
  · refine .inr (.inr ?_)
    rw [copies_up (.inl upDone), copies_down (.inl downDone)]
    exact ⟨upDone, downDone⟩

theorem sound_copies (framed : snap.Framed) (sound : r.Sound aes snap kind upKind downKind) {event : RelayEvent}
    (stays : r.StaysPlain aes snap kind event) :
    (r.copies aes snap kind event).1.Sound aes snap kind.loop upKind ∧
      (r.copies aes snap kind event).2.Sound aes snap kind.loop downKind := by
  cases event with
  | up input => exact ⟨Copy.sound_step framed sound.up stays, sound.down⟩
  | down input => exact ⟨sound.up, Copy.sound_step framed sound.down stays.1⟩
  | timeout => exact ⟨sound.up, sound.down⟩

theorem inTurn_copies (sound : r.Sound aes snap .throttle upKind downKind) {event : RelayEvent}
    (stays : r.StaysPlain aes snap .throttle event) (failed : (r.copies aes snap .throttle event).2.phase = .failed) :
    (r.copies aes snap .throttle event).1.phase = .done ∨ (r.copies aes snap .throttle event).1.phase = .failed := by
  have ended : r.up.phase = .done ∨ r.up.phase = .failed := by
    by_cases before : r.down.phase = .failed
    · exact sound.inTurn rfl before
    cases event with
    | up input => exact absurd failed before
    | down input => exact stays.2 rfl (Copy.fails_of_step failed before rfl)
    | timeout => exact absurd failed before
  rw [copies_up ended]
  exact ended

theorem Sound.step (framed : snap.Framed) (sound : r.Sound aes snap kind upKind downKind) {event : RelayEvent}
    (stays : r.StaysPlain aes snap kind event) : (r.step aes snap kind event).Sound aes snap kind upKind downKind := by
  obtain ⟨up, down⟩ := sound_copies framed sound stays
  have fresh : ∀ turn : kind = .throttle → (r.copies aes snap kind event).2.phase = .failed →
      (r.copies aes snap kind event).1.phase = .done ∨ (r.copies aes snap kind event).1.phase = .failed,
      Sound aes snap kind upKind downKind ⟨(r.copies aes snap kind event).1, (r.copies aes snap kind event).2,
        joined (r.copies aes snap kind event).1 (r.copies aes snap kind event).2⟩ :=
    fun turn => ⟨up, down, isSome_joined _ _, fun _ _ => ok_of_joined, turn⟩
  cases kind with
  | relayBetween | nlink =>
    rw [Relay.step]
    split
    next => exact sound
    next => exact fresh nofun
  | throttle =>
    have inTurn := fun _ : RelayKind.throttle = .throttle => inTurn_copies sound stays
    rw [Relay.step]
    cases returned : r.returned with
    | some result =>
      refine ⟨up, down, ?_, ?_, inTurn⟩
      · exact iff_of_true rfl (Settled.copies (sound.ends.mp (by rw [returned]; rfl)) event _)
      · intro n m ok
        obtain ⟨⟨upDone, downDone⟩, counts⟩ := sound.both n m (returned.trans ok)
        rw [copies_up (.inl upDone), copies_down (.inl downDone)]
        exact ⟨⟨upDone, downDone⟩, counts⟩
    | none =>
      have inTime : event.isTimeout → (r.copies aes snap .throttle event).1.phase = .done →
          (r.copies aes snap .throttle event).2.phase = .done ∨
            (r.copies aes snap .throttle event).2.phase = .failed := by
        intro isTimeout upDone
        cases event with
        | up | down => cases isTimeout
        | timeout => exact stays rfl upDone
      rw [Option.none_or, joinedInTurn_eq_joined (inTurn rfl) inTime]
      exact fresh inTurn

theorem sound_start (upKind downKind : StreamKind) :
    (start snap upKind downKind).Sound aes snap kind upKind downKind := by
  have empty : ∀ streamKind : StreamKind,
      Link.Carries aes snap streamKind.key streamKind.compress (streamKind.link snap) [] [] ∧
        (streamKind.link snap).unsent = [] := by
    intro streamKind
    unfold StreamKind.link
    split
    next => exact ⟨Link.carries_new, rfl⟩
    next => exact ⟨rfl, rfl⟩
  have sound : ∀ streamKind : StreamKind,
      Copy.Sound aes snap kind.loop streamKind { link := streamKind.link snap } :=
    fun streamKind => ⟨(empty streamKind).1, rfl, rfl, .inr (empty streamKind).2⟩
  refine ⟨sound upKind, sound downKind, ?_, nofun, nofun⟩
  exact iff_of_false Bool.false_ne_true (by rintro (failed | failed | ⟨done, _⟩) <;> contradiction)

theorem asPlain_of_stays (framed : snap.Framed) {events : List RelayEvent}
    (stays : RunMeets (step aes snap kind) (StaysPlain aes snap kind) (start snap upKind downKind) events) :
    (run (step aes snap kind) (start snap upKind downKind) events).AsPlain aes snap upKind downKind := by
  have sound : (run (step aes snap kind) (start snap upKind downKind) events).Sound aes snap kind upKind downKind :=
    @run_invariant_of_meets _ _ (step aes snap kind) (StaysPlain aes snap kind)
      (fun r => r.Sound aes snap kind upKind downKind) (fun _ _ stays sound => Sound.step framed sound stays) _
      (sound_start upKind downKind) _ stays
  exact sound.asPlain

theorem staysPlain_transfer (c : Copy σ) (input : Input) : c.StaysPlain aes snap transferOneDirection input := by
  unfold Copy.StaysPlain
  split
  next => exact nofun
  next => exact nofun
  next => trivial

theorem relayBetween_asPlain (framed : snap.Framed) (upKind downKind : StreamKind) (events : List RelayEvent) :
    (run (step aes snap .relayBetween) (start snap upKind downKind) events).AsPlain aes snap upKind downKind := by
  have sound : (run (step aes snap .relayBetween) (start snap upKind downKind) events).Sound aes snap .relayBetween
      upKind downKind := by
    refine run_invariant ?_ (sound_start upKind downKind) events
    intro r event sound
    refine Sound.step framed sound ?_
    cases event with
    | up input => exact staysPlain_transfer r.up input
    | down input => exact ⟨staysPlain_transfer r.down input, nofun⟩
    | timeout => exact nofun
  exact sound.asPlain

/-- Where both have read the same and rest in the same phase, both have handed over the same. -/
def Agrees (aes : Block → Block → Block) (snap : Snap σ) (streamKind : StreamKind) (c plain : Copy σ) : Prop :=
  c.read = plain.read → c.phase = plain.phase → c.phase = .waiting ∨ c.phase = .done →
    ∃ text, Link.HandedOver aes snap streamKind.key streamKind.compress c.link text c.wire ∧
      Link.HandedOver aes snap streamKind.key streamKind.compress plain.link text plain.wire

theorem agrees_of_asPlain {streamKind : StreamKind} {c plain : Copy σ} (asPlain : c.AsPlain aes snap streamKind)
    (alsoPlain : plain.AsPlain aes snap streamKind) : Agrees aes snap streamKind c plain := by
  intro sameRead samePhase resting
  refine ⟨c.read, ?_⟩
  rcases resting with waiting | done
  · refine ⟨asPlain.idle waiting, ?_⟩
    rw [sameRead]
    exact alsoPlain.idle (samePhase ▸ waiting)
  · refine ⟨(asPlain.finished done).1, ?_⟩
    rw [sameRead]
    exact (alsoPlain.finished (samePhase ▸ done)).1

def Faithful (aes : Block → Block → Block) (snap : Snap σ) (upKind downKind : StreamKind) (r : Relay σ) : Prop :=
  r.AsPlain aes snap upKind downKind ∧
    ∀ others : List RelayEvent,
      Agrees aes snap upKind r.up (run (step aes snap .relayBetween) (start snap upKind downKind) others).up ∧
        Agrees aes snap downKind r.down (run (step aes snap .relayBetween) (start snap upKind downKind) others).down

def localService : StreamKind := ⟨false, none, false⟩

def workConnection : StreamKind := ⟨true, some (Vector.replicate 16 0), false⟩

/-- An answer of three bytes, of whose encoding the work connection takes so much at first. -/
def shortAnswer (taken : Nat) : List RelayEvent :=
  [.down (.data [1, 2, 3]), .down .granted, .down (.offer ⟨Vector.replicate 16 0, [], [taken], .ready ()⟩)]

end Relay

end Nfrp
