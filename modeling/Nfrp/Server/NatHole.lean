import Mathlib.Data.List.Destutter
import Nfrp.Lib.Obligations
import Nfrp.Lib.Checked
import Nfrp.Server.NatFeature

/-!
# Bringing two peers together

A visitor asks for a hole to a provider.  The request waits in a table for the
provider's addresses; a task asks the provider for them, another gives up after ten
seconds, and new requests clear the table of old ones.
-/

namespace Nfrp.NatHole

open Lib

abbrev ClientId := Nat

structure NatHoleVisitor where
  transactionId : String := ""
  protocol : String := ""
  mappedAddrs : List String := []
  assistedAddrs : List String := []

structure NatHoleClient where
  transactionId : String := ""
  proxyName : String := ""
  sid : String := ""
  mappedAddrs : List String := []
  assistedAddrs : List String := []

structure PortsRange where
  «from» : Int
  «to» : Int
  deriving DecidableEq, Repr

structure NatHoleDetectBehavior where
  role : String := ""
  mode : Int := 0
  ttl : Int := 0
  sendDelayMs : Int := 0
  readTimeoutMs : Int := 0
  candidatePorts : List PortsRange := []
  sendRandomPorts : Int := 0
  listenRandomPorts : Int := 0
  deriving DecidableEq, Repr

structure NatHoleResp where
  transactionId : String := ""
  sid : String := ""
  protocol : String := ""
  candidateAddrs : List String := []
  assistedAddrs : List String := []
  detectBehavior : NatHoleDetectBehavior := {}
  error : String := ""
  deriving DecidableEq, Repr

structure NatHoleReport where
  sid : String
  success : Bool

structure VisitorEntry where
  proxyName : String
  client : ClientId

structure Session where
  sid : String
  proxyName : String
  visitorClient : ClientId
  providerClient : ClientId
  visitorTxn : String
  visitorProtocol : String
  visitorMapped : List String
  visitorAssisted : List String
  created : Nat
  deriving DecidableEq, Repr

def Session.protocol (s : Session) : String :=
  if s.visitorProtocol = "" then "quic" else s.visitorProtocol

structure ReportInfo where
  key : String
  mode : Nat
  index : Nat
  created : Nat

abbrev ReportInfos := AList fun _ : String => ReportInfo

/-- Times are in milliseconds. -/
def waitClient : Nat := 10000

def maxSessions : Nat := 2048

def reportReserve : Nat := 60000

def errorResp (txn err : String) : NatHoleResp :=
  { transactionId := txn, error := err }

def getRangePorts (addrs : List String) (difference maxNumber : Int) : List PortsRange :=
  if maxNumber ≤ 0 then []
  else
    match addrs.getLast?.bind fun addr => (splitHostPort addr).toOption with
    | none => []
    | some (_, port) =>
      match parseUnsigned 65535 port.toList with
      | none => []
      | some port =>
        [{ «from» := max (max (port - difference - 5) (port - maxNumber)) 1
           «to» := min (min (port + difference + 5) (port + maxNumber)) 65535 }]

def detectBehavior (mode : Nat) (behavior : RecommandBehavior) (readTimeoutMs portsDifference : Int)
    (candidateAddrs : List String) : NatHoleDetectBehavior where
  role := behavior.role.text
  mode := mode
  ttl := behavior.ttl
  sendDelayMs := behavior.sendDelayMs
  readTimeoutMs := readTimeoutMs
  candidatePorts := getRangePorts candidateAddrs portsDifference behavior.portsRangeNumber
  sendRandomPorts := behavior.portsRandomNumber
  listenRandomPorts := behavior.listenRandomPorts

/-- Repeated neighbours are sent once. -/
def buildResponse (transactionId sid protocol : String) (candidateAddrs assistedAddrs : List String)
    (detectBehavior : NatHoleDetectBehavior) : NatHoleResp where
  transactionId := transactionId
  sid := sid
  protocol := protocol
  candidateAddrs := candidateAddrs.destutter (· ≠ ·)
  assistedAddrs := assistedAddrs.destutter (· ≠ ·)
  detectBehavior := detectBehavior

/-- What the two sides are told, and the records afterwards. -/
structure Pairing where
  visitorResp : NatHoleResp
  providerResp : Option NatHoleResp
  records : Records
  reports : ReportInfos

def pair (records : Records) (reports : ReportInfos) (reserve now : Nat) (s : Session) (m : NatHoleClient) : Pairing :=
  let refused (msg : String) : Pairing :=
    { visitorResp := errorResp s.visitorTxn msg, providerResp := some (errorResp m.transactionId msg), records, reports }
  if s.proxyName ≠ m.proxyName then
    { visitorResp := errorResp s.visitorTxn "NatHoleClient proxy_name mismatch", providerResp := none, records, reports }
  else if m.mappedAddrs = [] then refused "provider NatHoleClient has no mapped_addrs"
  else
    match classifyNatFeature m.mappedAddrs (parseIps m.assistedAddrs) with
    | .error e => refused ("classify provider nat feature error: " ++ e)
    | .ok c =>
      match classifyNatFeature s.visitorMapped (parseIps s.visitorAssisted) with
      | .error e => refused ("classify visitor nat feature error: " ++ e)
      | .ok v =>
        let key := fingerprintKey c v m.mappedAddrs s.visitorMapped
        let ((mode, index, cBehavior, vBehavior), records) := getRecommandBehaviors records reserve now key c v
        let timeoutMs := max cBehavior.sendDelayMs vBehavior.sendDelayMs + 5000 +
          if 0 < cBehavior.listenRandomPorts ∨ 0 < vBehavior.listenRandomPorts then 30000 else 0
        { visitorResp := buildResponse s.visitorTxn s.sid s.protocol m.mappedAddrs m.assistedAddrs
            (detectBehavior mode vBehavior (timeoutMs - vBehavior.sendDelayMs) c.portsDifference m.mappedAddrs)
          providerResp := some (buildResponse m.transactionId s.sid s.protocol s.visitorMapped s.visitorAssisted
            (detectBehavior mode cBehavior (timeoutMs - cBehavior.sendDelayMs) v.portsDifference s.visitorMapped))
          records
          reports := (retain (fun _ r => now - r.created < reportReserve) reports).insert s.sid
            { key, mode, index, created := now } }

/-- A response on its way to a client.  `answers` is the session whose visitor it is
for; the client does not see it. -/
structure Forwarded where
  client : ClientId
  resp : NatHoleResp
  answers : Option String := none

/-- The task that fetches a work connection of the provider. -/
structure WorkTask where
  sid : String
  visitor : ClientId
  txn : String

structure Timeout where
  sid : String
  txn : String
  fires : Nat

inductive WorkOutcome where
  | noWorkConn
  | sendFailed (what cause : String)
  | sent

/-- The table and the tasks, the requests accepted so far, what the providers sent and
what was sent to the clients. -/
structure Controller where
  now : Nat := 0
  sessions : AList fun _ : String => Session := ∅
  records : Records := ∅
  reports : ReportInfos := ∅
  reserve : Nat := 168 * 3600 * 1000
  workTasks : List WorkTask := []
  timeouts : List Timeout := []
  accepted : List (String × Session) := []
  heard : List (ClientId × NatHoleClient) := []
  sent : List Forwarded := []

namespace Controller

def startSession (s : Controller) (visitor : ClientId) (entry : VisitorEntry) (m : NatHoleVisitor) (sid : String) :
    Controller × Except String Unit :=
  if m.mappedAddrs = [] then (s, .error "nat hole visitor has no mapped_addrs")
  else
    let session : Session :=
      { sid, proxyName := entry.proxyName, visitorClient := visitor, providerClient := entry.client,
        visitorTxn := m.transactionId, visitorProtocol := m.protocol, visitorMapped := m.mappedAddrs,
        visitorAssisted := m.assistedAddrs, created := s.now }
    let kept := retain (fun _ old => s.now - old.created < waitClient) s.sessions
    if maxSessions ≤ kept.entries.length then
      ({ s with sessions := kept }, .error "too many pending nat hole sessions")
    else
      ({ s with
          sessions := kept.insert sid session
          workTasks := s.workTasks ++ [{ sid, visitor, txn := m.transactionId }]
          timeouts := s.timeouts ++ [{ sid, txn := m.transactionId, fires := s.now + waitClient }]
          accepted := s.accepted ++ [(sid, session)] }, .ok ())

/-- Whoever takes a session out of the table answers its visitor. -/
def answer (s : Controller) (sid : String) (visitor : ClientId) (resp : NatHoleResp) : Controller :=
  { s with sessions := s.sessions.erase sid, sent := s.sent ++ [{ client := visitor, resp, answers := some sid }] }

def workTask (s : Controller) (task : WorkTask) : WorkOutcome → Controller
  | .noWorkConn =>
    if (s.sessions.lookup task.sid).isSome then
      s.answer task.sid task.visitor
        (errorResp task.txn "provider did not provide a work connection for nat hole")
    else s
  | .sendFailed what cause =>
    if (s.sessions.lookup task.sid).isSome then
      s.answer task.sid task.visitor (errorResp task.txn ("failed to send " ++ (what ++ ": " ++ cause)))
    else s
  | .sent => s

def timeout (s : Controller) (timer : Timeout) : Controller :=
  match s.sessions.lookup timer.sid with
  | some session =>
    s.answer timer.sid session.visitorClient (errorResp timer.txn "wait for provider NatHoleClient timeout")
  | none => s

def handleClient (s : Controller) (provider : ClientId) (m : NatHoleClient) : Controller × Bool :=
  if m.sid = "" then (s, false)
  else
    match s.sessions.lookup m.sid with
    | none => (s, false)
    | some session =>
      if session.providerClient = provider then
        let pairing := pair s.records s.reports s.reserve s.now session m
        let answered := s.answer m.sid session.visitorClient pairing.visitorResp
        ({ answered with
            records := pairing.records
            reports := pairing.reports
            sent := answered.sent ++ pairing.providerResp.toList.map fun resp => { client := provider, resp } }, true)
      else (s, false)

def handleReport (s : Controller) (m : NatHoleReport) : Controller :=
  if m.sid = "" then s
  else
    let kept := retain (fun _ r => s.now - r.created < reportReserve) s.reports
    let records :=
      match kept.lookup m.sid with
      | some info =>
        match m.success, s.records.lookup info.key with
        | true, some r => s.records.insert info.key (r.reportSuccess info.mode info.index s.now)
        | _, _ => s.records
      | none => s.records
    { s with reports := kept.erase m.sid, records }

inductive Event where
  | tick (ms : Nat)
  | natHoleVisitor (visitor : ClientId) (entry : VisitorEntry) (m : NatHoleVisitor) (sid : String)
  | workTask (sid : String) (outcome : WorkOutcome)
  | timeout (sid : String)
  | natHoleClient (provider : ClientId) (m : NatHoleClient)
  | natHoleReport (m : NatHoleReport)

/-- A task ends once; a timer does not fire before its time. -/
def step (s : Controller) : Event → Controller
  | .tick ms => { s with now := s.now + ms }
  | .natHoleVisitor visitor entry m sid => (s.startSession visitor entry m sid).1
  | .workTask sid outcome =>
    match s.workTasks.find? (·.sid = sid) with
    | none => s
    | some task => { s with workTasks := s.workTasks.filter (·.sid ≠ sid) }.workTask task outcome
  | .timeout sid =>
    match s.timeouts.find? fun timer => timer.sid = sid ∧ timer.fires ≤ s.now with
    | none => s
    | some timer => { s with timeouts := s.timeouts.filter (·.sid ≠ sid) }.timeout timer
  | .natHoleClient provider m => ({ s with heard := s.heard ++ [(provider, m)] }.handleClient provider m).1
  | .natHoleReport m => s.handleReport m

end Controller

end Nfrp.NatHole
