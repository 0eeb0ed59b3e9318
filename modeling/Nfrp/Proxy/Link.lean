import Nfrp.Proxy.Pipe

/-!
# What a relay writes to

A relay writes to a connection as it is, or to a wrapped one, which accepts text
before the connection underneath has taken its encoding.  Text is handed over when
the bytes that the connection took encode all of it.
-/

namespace Nfrp

open Lib Nfrp.Snappy

inductive Link (σ : Type) where
  | plain
  | wrapped (stream : ProxyStream σ)

/-- What the connection underneath does in one poll: what it takes at each attempt, before and
after the text is encoded, and how it answers a flush or a shutdown. -/
structure Offer where
  iv : Block
  first : List Nat
  second : List Nat
  inner : Poll Unit

namespace Link

variable {σ : Type}

section

variable (aes : Block → Block → Block) (snap : Snap σ)

def rewrap {Value : Type} (wrote : Wrote (ProxyStream σ) UInt8 Value) : Wrote (Link σ) UInt8 Value :=
  ⟨wrote.poll, wrote.written, .wrapped wrote.stream⟩

def pollWrite (link : Link σ) (buf : List UInt8) (offer : Offer) : Wrote (Link σ) UInt8 Nat :=
  match link with
  | plain =>
    match offer.second with
    | [] => ⟨.pending, [], plain⟩
    | n :: _ => ⟨.ready (min n buf.length), buf.take n, plain⟩
  | wrapped s => rewrap (s.pollWrite aes snap buf offer.iv offer.first offer.second)

def pollFlush (link : Link σ) (offer : Offer) : Wrote (Link σ) UInt8 Unit :=
  match link with
  | plain => ⟨offer.inner, [], plain⟩
  | wrapped s => rewrap (s.pollFlush aes snap offer.iv offer.second offer.inner)

def pollShutdown (link : Link σ) (offer : Offer) : Wrote (Link σ) UInt8 Unit :=
  match link with
  | plain => ⟨offer.inner, [], plain⟩
  | wrapped s => rewrap (s.pollShutdown aes snap offer.iv offer.second offer.inner)

def unsent : Link σ → List UInt8
  | plain => []
  | wrapped s => s.pendingOut.rest

/-- The bytes on the wire, and those unsent, encode the text. -/
def Carries (key : Option Block) (compress : Bool) (link : Link σ) (text wire : List UInt8) : Prop :=
  match link with
  | plain => wire = text
  | wrapped s => ∃ chunks body, (∀ chunk ∈ chunks, chunk.Valid snap.decompressVec) ∧
      ProxyStream.Sends aes snap key compress s chunks body text wire

structure HandedOver (key : Option Block) (compress : Bool) (link : Link σ) (text wire : List UInt8) : Prop where
  carries : Carries aes snap key compress link text wire
  nothingUnsent : link.unsent = []

end

variable {aes : Block → Block → Block} {snap : Snap σ} {key : Option Block} {compress : Bool} {link : Link σ}
  {text wire : List UInt8}

theorem carries_new : Carries aes snap key compress (.wrapped (.new snap key compress)) [] [] :=
  ⟨[], [], fun _ member => absurd member List.not_mem_nil, .new⟩

theorem Carries.pollWrite (carries : Carries aes snap key compress link text wire) (framed : snap.Framed)
    (buf : List UInt8) (offer : Offer) (noError : ∀ message, (link.pollWrite aes snap buf offer).poll ≠ .error message) :
    Carries aes snap key compress (link.pollWrite aes snap buf offer).stream
      (text ++ buf.take ((link.pollWrite aes snap buf offer).poll.getD 0))
      (wire ++ (link.pollWrite aes snap buf offer).written) := by
  cases link with
  | plain =>
    have same : wire = text := carries
    subst same
    rcases amounts : offer.second with _ | ⟨n, later⟩
    · simp [Link.pollWrite, amounts, Carries, Poll.getD]
    · simp [Link.pollWrite, amounts, Carries, Poll.getD]
  | wrapped s =>
    obtain ⟨chunks, body, valid, sends⟩ := carries
    have ok : (s.flushPending offer.first).poll = .ready () → ∀ message,
        (((s.flushPending offer.first).stream.encodeIntoPending aes snap buf offer.iv).flushPending offer.second).poll
          ≠ .error message := by
      intro before message failed
      refine noError message ?_
      simp only [Link.pollWrite, rewrap, ProxyStream.pollWrite, before, failed]
    obtain ⟨more, body', validMore, sent⟩ := sends.pollWrite_of_ok framed buf offer.iv ok
    exact ⟨chunks ++ more, body', List.forall_mem_append.mpr ⟨valid, validMore⟩, sent⟩

theorem Carries.flushThen {s : ProxyStream σ} (carries : Carries aes snap key compress (.wrapped s) text wire)
    (framed : snap.Framed) (iv : Block) (taken : List Nat) (inner : Poll Unit) :
    Carries aes snap key compress (.wrapped (s.flushThen aes snap iv taken inner).stream) text
      (wire ++ (s.flushThen aes snap iv taken inner).written) := by
  obtain ⟨chunks, body, valid, sends⟩ := carries
  obtain ⟨more, body', validMore, sent⟩ := sends.flushThen framed iv taken inner
  exact ⟨chunks ++ more, body', List.forall_mem_append.mpr ⟨valid, validMore⟩, sent⟩

theorem Carries.pollFlush (carries : Carries aes snap key compress link text wire) (framed : snap.Framed) (offer : Offer) :
    Carries aes snap key compress (link.pollFlush aes snap offer).stream text
      (wire ++ (link.pollFlush aes snap offer).written) := by
  cases link with
  | plain => exact (List.append_nil wire).trans carries
  | wrapped s => exact Carries.flushThen carries framed _ _ _

theorem Carries.pollShutdown (carries : Carries aes snap key compress link text wire) (framed : snap.Framed)
    (offer : Offer) :
    Carries aes snap key compress (link.pollShutdown aes snap offer).stream text
      (wire ++ (link.pollShutdown aes snap offer).written) := by
  cases link with
  | plain => exact (List.append_nil wire).trans carries
  | wrapped s => exact Carries.flushThen carries framed _ _ _

theorem unsent_flushThen {s : ProxyStream σ} {iv : Block} {taken : List Nat} {inner : Poll Unit}
    (ready : (s.flushThen aes snap iv taken inner).poll = .ready ()) :
    (s.flushThen aes snap iv taken inner).stream.pendingOut.rest = [] := by
  unfold ProxyStream.flushThen at ready ⊢
  simp only at ready ⊢
  split at ready
  next notReady => cases notReady.symm.trans ready
  next failed => cases failed.symm.trans ready
  next drained =>
    exact Outbox.drain_ready drained

theorem unsent_pollFlush {offer : Offer} (ready : (link.pollFlush aes snap offer).poll = .ready ()) :
    (link.pollFlush aes snap offer).stream.unsent = [] := by
  cases link with
  | plain => rfl
  | wrapped s => exact unsent_flushThen ready

theorem unsent_pollShutdown {offer : Offer} (ready : (link.pollShutdown aes snap offer).poll = .ready ()) :
    (link.pollShutdown aes snap offer).stream.unsent = [] := by
  cases link with
  | plain => rfl
  | wrapped s => exact unsent_flushThen ready

end Link

end Nfrp
