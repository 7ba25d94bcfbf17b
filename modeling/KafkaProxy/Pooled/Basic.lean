import Mathlib.Logic.Function.Basic
import KafkaProxy.Library.System
import KafkaProxy.Pool.Basic
import KafkaProxy.Remap.Basic
import KafkaProxy.Rewrite

/-!
# Relays and upstream connections in pooled mode

Any number of clients, each with the two tasks of its relay, and any number of upstream connections,
each with its write loop, its read loop and its broker. They share one remap table. The connection
pools show as the outcomes of `acquire` only. What the code does not keep is marked as history.
-/

namespace KafkaProxy.Pooled
open Library

/-- The sending half of a client's response queue. `tag` is history: the request it was cloned for. -/
structure ResponseTx where
  client : Nat
  tag : Nat
  deriving DecidableEq, Repr

abbrev Entry := RouteEntry ResponseTx

structure WriteReq where
  frame : Frame
  cidU : Int32
  tag : Nat
  deriving DecidableEq, Repr

/-- A frame from a broker. `tag` is history: the request that it answers. -/
structure Answer where
  data : Frame
  tag : Nat
  deriving DecidableEq, Repr

/-- `tag` and `answer` are history: the request whose entry was used, and what the broker sent. -/
structure DownstreamResp where
  frame : Frame
  tag : Nat
  answer : Answer
  deriving DecidableEq, Repr

inductive Outcome where
  | unmatched
  | queued (tx : ResponseTx)
  | refused (tx : ResponseTx) (length : Nat) (listens : Bool)
  deriving DecidableEq, Repr

inductive WriteLoop where
  | absent
  | running
  | forwarding (answer : Answer)
  | cleanup
  | cleaned
  | ended
  deriving DecidableEq, Repr

def WriteLoop.isOpen : WriteLoop → Bool
  | .running | .forwarding _ => true
  | .absent | .cleanup | .cleaned | .ended => false

inductive ReadLoop where
  | receiving
  | routing (answer : Answer) (entry : Entry)
  deriving DecidableEq, Repr

/-- `unanswered` is what the broker has been sent and has not answered, `incoming` its answers that
the write loop has not read. `received` and `routed` are history. -/
structure Upstream where
  connId : ConnId
  writeRx : List WriteReq
  unanswered : List WriteReq
  incoming : List Answer
  writeLoop : WriteLoop
  readRx : List Answer
  readLoop : ReadLoop
  received : List Answer
  routed : List (Answer × Outcome)
  deriving DecidableEq, Repr

structure Job where
  seq : Nat
  data : Frame
  header : RequestHeader
  deriving DecidableEq, Repr

inductive DownToUp where
  | absent
  | waiting (since : Nat)
  | checking (job : Job)
  | borrow (job : Job)
  | acquiring (job : Job)
  | register (job : Job)
  | alloc (job : Job)
  | store (job : Job) (cidU : Int32) (tag : Nat)
  | count (job : Job) (cidU : Int32) (tag : Nat)
  | send (job : Job) (cidU : Int32) (tag : Nat)
  | cancel (cidU : Int32)
  | leaving
  | returned
  deriving DecidableEq, Repr

/-- `sent` is what the client has sent, `read` how much of it the relay has read. `lastAcquired` and
`written` are history. -/
structure PooledRelay where
  sent : List Frame
  read : Nat
  downToUp : DownToUp
  lease : Option Acquired
  leaseDeadline : Nat
  lastAcquired : Option Nat
  respRx : List DownstreamResp
  listens : Bool
  written : List DownstreamResp
  deriving DecidableEq, Repr

/-- History: a request that has been given a correlation id. -/
structure Request where
  client : Nat
  job : Job
  writeTx : Nat
  deriving DecidableEq, Repr

structure Multiplex where
  now : Nat
  remap : CidRemap ResponseTx
  metrics : Metrics
  requests : List Request
  relays : Nat → PooledRelay
  upstreams : Nat → Upstream
  opened : Nat

inductive RelayAction where
  | connect
  | request (data : Frame)
  | next
  | keep
  | giveBack
  | borrow
  | acquired (conn : Acquired)
  | acquireFailed
  | check
  | alloc
  | store
  | count
  | push
  | pushFailed
  | cancel
  | hangUp
  | idle
  | leave
  | deliver
  | deliverFailed
  | respClosed
  deriving DecidableEq, Repr

inductive UpstreamAction where
  | answer (n : Nat) (data : Frame)
  | write
  | writeFailed
  | fail
  | closed
  | read
  | forward
  | cleanup
  | finish
  | take
  | route
  deriving DecidableEq, Repr

inductive MultiplexAction where
  | tick (elapsed : Nat)
  | create
  | relay (i : Nat) (action : RelayAction)
  | upstream (k : Nat) (action : UpstreamAction)
  deriving DecidableEq, Repr

def leaseDuration : Nat := 200
def writeCapacity : Nat := 256
def readCapacity : Nat := 64
def respCapacity : Nat := 256

def PooledRelay.new : PooledRelay :=
  { sent := [], read := 0, downToUp := .absent, lease := none, leaseDeadline := 0,
    lastAcquired := none, respRx := [], listens := true, written := [] }

def Upstream.new (connId : ConnId) (writeLoop : WriteLoop) : Upstream :=
  { connId, writeRx := [], unanswered := [], incoming := [], writeLoop, readRx := [],
    readLoop := .receiving, received := [], routed := [] }

/-- The base always has four bytes to replace: it has been parsed, or it has been encoded. -/
def routeResponse (codecs : Codecs) (map : RewriteMap) (data : Frame) (entry : Entry) : Frame :=
  let base := (rewriteResponse codecs entry.apiKey entry.apiVersion data map).getD data
  putI32 entry.cidD ++ base.drop 4

theorem routeResponse_base {codecs : Codecs} {map : RewriteMap} {data : Frame} {entry : Entry}
    {cidU : Int32} (parsed : parseResponseCid data = some cidU) :
    4 ≤ ((rewriteResponse codecs entry.apiKey entry.apiVersion data map).getD data).length := by
  cases rewritten : rewriteResponse codecs entry.apiKey entry.apiVersion data map with
  | none => exact parseResponseCid_length parsed
  | some out => exact rewriteResponse_length rewritten

namespace Multiplex

def new (maxInFlight : Nat) (metrics : Metrics) : Multiplex :=
  { now := 0, remap := .withMaxInFlight maxInFlight, metrics, requests := [],
    relays := fun _ => .new, upstreams := fun _ => .new 0 .absent, opened := 0 }

def setRelay (m : Multiplex) (i : Nat) (relay : PooledRelay) : Multiplex :=
  { m with relays := Function.update m.relays i relay }

def setUpstream (m : Multiplex) (k : Nat) (upstream : Upstream) : Multiplex :=
  { m with upstreams := Function.update m.upstreams k upstream }

def create (m : Multiplex) : Multiplex :=
  let (connId, remap) := m.remap.allocConnId
  { m.setUpstream m.opened (.new connId .running) with remap, opened := m.opened + 1 }

/-- A clone of the sending half of client `i`'s response queue is in the table or in a read loop. -/
def holdsTx (m : Multiplex) (i : Nat) : Bool :=
  m.remap.map.entries.any (fun e => e.2.downstreamTx.client = i) ||
    (List.range m.opened).any fun k =>
      match (m.upstreams k).readLoop with
      | .routing _ entry => entry.downstreamTx.client = i
      | .receiving => false

def relayStep (idle : Option Nat) (m : Multiplex) (i : Nat) (r : PooledRelay) :
    RelayAction → Option Multiplex
  | .connect =>
      match r.downToUp with
      | .absent => some (m.setRelay i { r with downToUp := .waiting m.now })
      | _ => none
  | .request data => some (m.setRelay i { r with sent := r.sent ++ [data] })
  | .next =>
      match r.downToUp, r.sent[r.read]? with
      | .waiting _, some data =>
          match parseRequestHeader data with
          | some header =>
              some (m.setRelay i { r with
                read := r.read + 1, downToUp := .checking ⟨r.read, data, header⟩ })
          | none => some (m.setRelay i { r with read := r.read + 1, downToUp := .waiting m.now })
      | _, _ => none
  | .keep =>
      match r.downToUp with
      | .checking job =>
          if r.lease.isSome && m.now < r.leaseDeadline then
            some (m.setRelay i { r with downToUp := .register job })
          else none
      | _ => none
  | .giveBack =>
      match r.downToUp with
      | .checking job =>
          if r.lease.isSome && m.now < r.leaseDeadline then none
          else some (m.setRelay i { r with lease := none, downToUp := .borrow job })
      | _ => none
  | .borrow =>
      match r.downToUp with
      | .borrow job => some (m.setRelay i { r with downToUp := .acquiring job })
      | _ => none
  | .acquired conn =>
      match r.downToUp with
      | .acquiring job =>
          if conn.writeTx < m.opened ∧ conn.connId = (m.upstreams conn.writeTx).connId then
            some (m.setRelay i { r with
              lease := some conn
              leaseDeadline := m.now + leaseDuration
              lastAcquired := some m.now
              downToUp := .register job })
          else none
      | _ => none
  | .acquireFailed =>
      match r.downToUp with
      | .acquiring _ => some (m.setRelay i { r with downToUp := .returned })
      | _ => none
  | .check =>
      match r.downToUp with
      | .register job =>
          some (m.setRelay i { r with downToUp := if m.remap.full then .leaving else .alloc job })
      | _ => none
  | .alloc =>
      match r.downToUp, r.lease with
      | .alloc job, some conn =>
          let (cidU, remap) := m.remap.allocCidU
          some { m.setRelay i { r with downToUp := .store job cidU m.requests.length } with
            remap, requests := m.requests ++ [⟨i, job, conn.writeTx⟩] }
      | _, _ => none
  | .store =>
      match r.downToUp, r.lease with
      | .store job cidU tag, some conn =>
          let entry : Entry := ⟨⟨i, tag⟩, job.header.correlationId, job.header.apiKey,
            job.header.apiVersion, conn.connId⟩
          some { m.setRelay i { r with downToUp := .count job cidU tag } with
            remap := m.remap.store cidU entry }
      | _, _ => none
  | .count =>
      match r.downToUp with
      | .count job cidU tag =>
          some { m.setRelay i { r with downToUp := .send job cidU tag } with
            metrics := m.metrics.incCidMapEntries.incRequestsInFlight }
      | _ => none
  | .push =>
      match r.downToUp, r.lease with
      | .send job cidU tag, some conn =>
          let u := m.upstreams conn.writeTx
          if u.writeLoop ≠ .ended ∧ u.writeRx.length < writeCapacity then
            some ((m.setUpstream conn.writeTx { u with
              writeRx := u.writeRx ++ [⟨replaceCid job.data cidU, cidU, tag⟩] }).setRelay i { r with
                downToUp := .waiting m.now })
          else none
      | _, _ => none
  | .pushFailed =>
      match r.downToUp, r.lease with
      | .send _ cidU _, some conn =>
          if (m.upstreams conn.writeTx).writeLoop = .ended then
            some (m.setRelay i { r with downToUp := .cancel cidU })
          else none
      | _, _ => none
  | .cancel =>
      match r.downToUp with
      | .cancel cidU =>
          let (entry, remap, metrics) := m.remap.take cidU m.metrics
          some { m.setRelay i { r with lease := none, downToUp := .returned } with
            remap, metrics := if entry.isSome then metrics.decRequestsInFlight else metrics }
      | _ => none
  | .hangUp =>
      match r.downToUp with
      | .waiting _ =>
          if r.read = r.sent.length then some (m.setRelay i { r with downToUp := .leaving }) else none
      | _ => none
  | .idle =>
      match r.downToUp, idle with
      | .waiting since, some d =>
          if r.read = r.sent.length ∧ since + d ≤ m.now then
            some (m.setRelay i { r with downToUp := .leaving })
          else none
      | _, _ => none
  | .leave =>
      match r.downToUp with
      | .leaving => some (m.setRelay i { r with lease := none, downToUp := .returned })
      | _ => none
  | .deliver =>
      match r.listens, r.respRx with
      | true, resp :: rest =>
          some (m.setRelay i { r with respRx := rest, written := r.written ++ [resp] })
      | _, _ => none
  | .deliverFailed =>
      if r.listens then some (m.setRelay i { r with listens := false }) else none
  -- Nobody has a sending half of the queue any more. The relay has two of its own until it returns.
  | .respClosed =>
      if r.listens && r.respRx.isEmpty && r.downToUp = .returned && !m.holdsTx i then
        some (m.setRelay i { r with listens := false })
      else none

def upstreamStep (codecs : Codecs) (map : RewriteMap) (m : Multiplex) (k : Nat) (u : Upstream) :
    UpstreamAction → Option Multiplex
  | .answer n data =>
      match u.unanswered[n]? with
      | some req =>
          -- The broker puts the correlation id of the request in front of its answer.
          if parseResponseCid data = some (getI32 (req.frame.drop 4)) then
            some (m.setUpstream k { u with
              unanswered := u.unanswered.eraseIdx n
              incoming := u.incoming ++ [⟨data, req.tag⟩] })
          else none
      | none => none
  | .write =>
      match u.writeLoop, u.writeRx with
      | .running, req :: rest =>
          some (m.setUpstream k { u with writeRx := rest, unanswered := u.unanswered ++ [req] })
      | _, _ => none
  | .writeFailed =>
      match u.writeLoop, u.writeRx with
      | .running, _ :: rest =>
          some (m.setUpstream k { u with writeRx := rest, writeLoop := .cleanup })
      | _, _ => none
  -- A flush fails, a read fails, or the broker closes.
  | .fail =>
      match u.writeLoop with
      | .running => some (m.setUpstream k { u with writeLoop := .cleanup })
      | _ => none
  -- Nobody has a sending half any more.
  | .closed =>
      match u.writeLoop, u.writeRx with
      | .running, [] => some (m.setUpstream k { u with writeLoop := .cleanup })
      | _, _ => none
  | .read =>
      match u.writeLoop, u.incoming with
      | .running, answer :: rest =>
          some (m.setUpstream k { u with
            incoming := rest, writeLoop := .forwarding answer, received := u.received ++ [answer] })
      | _, _ => none
  | .forward =>
      match u.writeLoop with
      | .forwarding answer =>
          if u.readRx.length < readCapacity then
            some (m.setUpstream k { u with readRx := u.readRx ++ [answer], writeLoop := .running })
          else none
      | _ => none
  -- The sweep of `fail_conn` goes shard by shard. This step stands at its start, so a window that begins
  -- with the cleanup begins there, and not when the last shard has been swept.
  | .cleanup =>
      match u.writeLoop with
      | .cleanup =>
          let (removed, remap, metrics) := m.remap.failConn u.connId m.metrics
          some { m.setUpstream k { u with writeLoop := .cleaned } with
            remap, metrics := Metrics.decRequestsInFlight^[removed] metrics }
      | _ => none
  -- What is left in `writeRx` goes with the receiver: nothing reads it again.
  | .finish =>
      match u.writeLoop with
      | .cleaned =>
          some { m.setUpstream k { u with writeLoop := .ended } with
            metrics := m.metrics.decUpstreamConnections }
      | _ => none
  | .take =>
      match u.readLoop, u.readRx with
      | .receiving, answer :: rest =>
          match parseResponseCid answer.data with
          | none =>
              some (m.setUpstream k { u with
                readRx := rest, routed := u.routed ++ [(answer, .unmatched)] })
          | some cidU =>
              match m.remap.take cidU m.metrics with
              | (some entry, remap, metrics) =>
                  some { m.setUpstream k { u with
                      readRx := rest, readLoop := .routing answer entry } with remap, metrics }
              | (none, remap, metrics) =>
                  some { m.setUpstream k { u with
                      readRx := rest, routed := u.routed ++ [(answer, .unmatched)] } with
                    remap, metrics }
      | _, _ => none
  | .route =>
      match u.readLoop with
      | .routing answer entry =>
          let tx := entry.downstreamTx
          let r := m.relays tx.client
          let resp : DownstreamResp := ⟨routeResponse codecs map answer.data entry, tx.tag, answer⟩
          let m := { m with metrics := m.metrics.decRequestsInFlight }
          if r.listens ∧ r.respRx.length < respCapacity then
            some ((m.setUpstream k { u with
              readLoop := .receiving, routed := u.routed ++ [(answer, .queued tx)] }).setRelay
                tx.client { r with respRx := r.respRx ++ [resp] })
          else
            some (m.setUpstream k { u with
              readLoop := .receiving
              routed := u.routed ++ [(answer, .refused tx r.respRx.length r.listens)] })
      | _ => none

def step (idle : Option Nat) (codecs : Codecs) (map : RewriteMap) (m : Multiplex) :
    MultiplexAction → Option Multiplex
  | .tick elapsed => some { m with now := m.now + elapsed }
  | .create => some m.create
  | .relay i action => m.relayStep idle i (m.relays i) action
  | .upstream k action => m.upstreamStep codecs map k (m.upstreams k) action

def system (maxInFlight : Nat) (metrics : Metrics) (idle : Option Nat) (codecs : Codecs)
    (map : RewriteMap) : System Multiplex MultiplexAction where
  initial m := m = .new maxInFlight metrics
  step := step idle codecs map

end Multiplex
end KafkaProxy.Pooled
