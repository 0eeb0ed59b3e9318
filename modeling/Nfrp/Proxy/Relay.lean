import Nfrp.Proxy.Link

/-!
# Relays

A relay copies in both directions until both have ended.  Three of them differ in
when they flush what they wrote, in whether a refused shutdown counts, and in how
the two directions are waited for.  What a reader yields, when the limiter lets a
piece pass and what the connection under a writer does are events.
-/

namespace Nfrp

open Lib Nfrp.Snappy

inductive FlushWhen where
  | never
  | eachWrite
  | whenIdle
  deriving DecidableEq

structure Loop where
  flush : FlushWhen
  limited : Bool
  shutdownMatters : Bool

def copyOne : Loop := ⟨.never, true, false⟩

def copyThrottled : Loop := ⟨.eachWrite, true, false⟩

/-- Of `copy_bidirectional`, which flushes when the reader has nothing more for now. -/
def transferOneDirection : Loop := ⟨.whenIdle, false, true⟩

inductive Phase where
  | reading
  | waiting
  | throttled (buf : List UInt8)
  | writing (rest : List UInt8) (chunk : Nat)
  | flushing (chunk : Nat) (atEnd : Bool)
  | closing
  | done
  | failed
  deriving DecidableEq

inductive Input where
  | pending
  /-- No bytes are the end. -/
  | data (bytes : List UInt8)
  | error
  | granted
  | offer (offer : Offer)

/-- One direction, with everything read and all that the connection under the writer took. -/
structure Copy (σ : Type) where
  phase : Phase := .reading
  link : Link σ
  read : List UInt8 := []
  wire : List UInt8 := []
  moved : Nat := 0
  needFlush : Bool := false
  ended : Bool := false
  closed : Bool := false

namespace Copy

variable {σ : Type} (aes : Block → Block → Block) (snap : Snap σ) (loop : Loop)

def nothingToRead (c : Copy σ) : Copy σ :=
  if loop.flush = .whenIdle ∧ c.needFlush then { c with phase := .flushing 0 false } else { c with phase := .waiting }

def received (c : Copy σ) (bytes : List UInt8) : Copy σ :=
  if bytes = [] then
    { c with ended := true, phase := if loop.flush = .whenIdle then .flushing 0 true else .closing }
  else
    { c with
      read := c.read ++ bytes
      needFlush := true
      phase := if loop.limited then .throttled bytes else .writing bytes bytes.length }

def chunkWritten (c : Copy σ) (chunk : Nat) : Copy σ :=
  match loop.flush with
  | .eachWrite => { c with phase := .flushing chunk false }
  | .never | .whenIdle => { c with phase := .reading, moved := c.moved + chunk }

def write (c : Copy σ) (rest : List UInt8) (chunk : Nat) (offer : Offer) : Copy σ :=
  let wrote := c.link.pollWrite aes snap rest offer
  let c := { c with link := wrote.stream, wire := c.wire ++ wrote.written }
  match wrote.poll with
  | .pending => c
  | .error _ => { c with phase := .failed }
  | .ready n =>
    if n = 0 then { c with phase := .failed }
    else if rest.drop n = [] then c.chunkWritten loop chunk
    else { c with phase := .writing (rest.drop n) chunk }

def flush (c : Copy σ) (chunk : Nat) (atEnd : Bool) (offer : Offer) : Copy σ :=
  let wrote := c.link.pollFlush aes snap offer
  let c := { c with link := wrote.stream, wire := c.wire ++ wrote.written }
  match wrote.poll with
  | .pending => c
  | .error _ => { c with phase := .failed }
  | .ready _ =>
    { c with
      moved := c.moved + chunk
      needFlush := false
      phase := if atEnd then .closing else if loop.flush = .whenIdle then .waiting else .reading }

def close (c : Copy σ) (offer : Offer) : Copy σ :=
  let wrote := c.link.pollShutdown aes snap offer
  let c := { c with link := wrote.stream, wire := c.wire ++ wrote.written }
  match wrote.poll with
  | .pending => c
  | .error _ => { c with phase := if loop.shutdownMatters then .failed else .done }
  | .ready _ => { c with phase := .done, closed := true }

def step (c : Copy σ) (input : Input) : Copy σ :=
  match c.phase, input with
  | .reading, .pending | .waiting, .pending => c.nothingToRead loop
  | .reading, .data bytes | .waiting, .data bytes => c.received loop bytes
  | .reading, .error | .waiting, .error => { c with phase := .failed }
  | .throttled buf, .granted => { c with phase := .writing buf buf.length }
  | .writing rest chunk, .offer offer => c.write aes snap loop rest chunk offer
  | .flushing chunk atEnd, .offer offer => c.flush aes snap loop chunk atEnd offer
  | .closing, .offer offer => c.close aes snap loop offer
  | _, _ => c

def Fails (c : Copy σ) (input : Input) : Prop :=
  match c.phase, input with
  | .reading, .error | .waiting, .error => True
  | .writing rest _, .offer offer =>
    (∃ message, (c.link.pollWrite aes snap rest offer).poll = .error message) ∨
      (c.link.pollWrite aes snap rest offer).poll = .ready 0
  | .flushing _ _, .offer offer => ∃ message, (c.link.pollFlush aes snap offer).poll = .error message
  | _, _ => False

end Copy

inductive RelayKind where
  | relayBetween
  | nlink
  | throttle
  deriving DecidableEq

def RelayKind.loop : RelayKind → Loop
  | .relayBetween => transferOneDirection
  | .nlink => copyThrottled
  | .throttle => copyOne

structure StreamKind where
  wrapped : Bool
  key : Option Block
  compress : Bool

def StreamKind.link {σ : Type} (snap : Snap σ) (kind : StreamKind) : Link σ :=
  if kind.wrapped then .wrapped (.new snap kind.key kind.compress) else .plain

inductive RelayEvent where
  | up (input : Input)
  | down (input : Input)
  /-- Ten seconds have passed since the first direction ended. -/
  | timeout

def RelayEvent.isTimeout : RelayEvent → Bool
  | .timeout => true
  | .up _ | .down _ => false

structure Relay (σ : Type) where
  up : Copy σ
  down : Copy σ
  returned : Option (Except Unit (Nat × Nat)) := none

namespace Relay

variable {σ : Type}

def joined (up down : Copy σ) : Option (Except Unit (Nat × Nat)) :=
  if up.phase = .failed ∨ down.phase = .failed then some (.error ())
  else if up.phase = .done ∧ down.phase = .done then some (.ok (up.moved, down.moved))
  else none

/-- The first direction is waited for, and then the other. -/
def joinedInTurn (up down : Copy σ) (timedOut : Bool) : Option (Except Unit (Nat × Nat)) :=
  if up.phase = .failed then some (.error ())
  else if up.phase = .done then
    if down.phase = .done then some (.ok (up.moved, down.moved))
    else if down.phase = .failed then some (.error ())
    else if timedOut then some (.ok (up.moved, 0))
    else none
  else none

variable (aes : Block → Block → Block) (snap : Snap σ) (kind : RelayKind)

def copies (r : Relay σ) : RelayEvent → Copy σ × Copy σ
  | .up input => (r.up.step aes snap kind.loop input, r.down)
  | .down input => (r.up, r.down.step aes snap kind.loop input)
  | .timeout => (r.up, r.down)

/-- The tasks of `throttle` go on after the relay has returned; the other relays drop their directions. -/
def step (r : Relay σ) (event : RelayEvent) : Relay σ :=
  let after := r.copies aes snap kind event
  match kind with
  | .throttle =>
    ⟨after.1, after.2, r.returned.or (joinedInTurn after.1 after.2 event.isTimeout)⟩
  | .nlink | .relayBetween => if r.returned.isSome then r else ⟨after.1, after.2, joined after.1 after.2⟩

def start (up down : StreamKind) : Relay σ where
  up := { link := up.link snap }
  down := { link := down.link snap }

end Relay

end Nfrp
