import KafkaProxy.Pooled.Basic

namespace KafkaProxy.Pooled.Multiplex
open Library

/-! ## What a step of a relay can do -/

inductive RelayMove (idle : Option Nat) (m : Multiplex) (i : Nat) (r : PooledRelay) :
    RelayAction → Multiplex → Prop where
  | connect (phase : r.downToUp = .absent) :
      RelayMove idle m i r .connect (m.setRelay i { r with downToUp := .waiting m.now })
  | request (data : Frame) :
      RelayMove idle m i r (.request data) (m.setRelay i { r with sent := r.sent ++ [data] })
  | next {since : Nat} {data : Frame} {header : RequestHeader} (phase : r.downToUp = .waiting since)
      (head : r.sent[r.read]? = some data) (parsed : parseRequestHeader data = some header) :
      RelayMove idle m i r .next (m.setRelay i { r with
        read := r.read + 1, downToUp := .checking ⟨r.read, data, header⟩ })
  | skip {since : Nat} {data : Frame} (phase : r.downToUp = .waiting since)
      (head : r.sent[r.read]? = some data) (short : parseRequestHeader data = none) :
      RelayMove idle m i r .next
        (m.setRelay i { r with read := r.read + 1, downToUp := .waiting m.now })
  | keep {job : Job} (phase : r.downToUp = .checking job) (leased : r.lease.isSome = true)
      (inTime : m.now < r.leaseDeadline) :
      RelayMove idle m i r .keep (m.setRelay i { r with downToUp := .register job })
  | giveBack {job : Job} (phase : r.downToUp = .checking job)
      (expired : r.lease = none ∨ r.leaseDeadline ≤ m.now) :
      RelayMove idle m i r .giveBack (m.setRelay i { r with lease := none, downToUp := .borrow job })
  | borrow {job : Job} (phase : r.downToUp = .borrow job) :
      RelayMove idle m i r .borrow (m.setRelay i { r with downToUp := .acquiring job })
  | acquired {job : Job} {conn : Acquired} (phase : r.downToUp = .acquiring job)
      (known : conn.writeTx < m.opened)
      (same : conn.connId = (m.upstreams conn.writeTx).connId) :
      RelayMove idle m i r (.acquired conn) (m.setRelay i { r with
        lease := some conn
        leaseDeadline := m.now + leaseDuration
        lastAcquired := some m.now
        downToUp := .register job })
  | acquireFailed {job : Job} (phase : r.downToUp = .acquiring job) :
      RelayMove idle m i r .acquireFailed (m.setRelay i { r with downToUp := .returned })
  | check {job : Job} (phase : r.downToUp = .register job) (room : m.remap.full = false) :
      RelayMove idle m i r .check (m.setRelay i { r with downToUp := .alloc job })
  | refuse {job : Job} (phase : r.downToUp = .register job) (full : m.remap.full = true) :
      RelayMove idle m i r .check (m.setRelay i { r with downToUp := .leaving })
  | alloc {job : Job} {conn : Acquired} (phase : r.downToUp = .alloc job)
      (leased : r.lease = some conn) :
      RelayMove idle m i r .alloc
        { m.setRelay i { r with
            downToUp := .store job (CidRemap.cidAfter m.remap.nextCid) m.requests.length } with
          remap := { m.remap with nextCid := CidRemap.cidAfter m.remap.nextCid }
          requests := m.requests ++ [⟨i, job, conn.writeTx⟩] }
  | store {job : Job} {cidU : Int32} {tag : Nat} {conn : Acquired}
      (phase : r.downToUp = .store job cidU tag) (leased : r.lease = some conn) :
      RelayMove idle m i r .store
        { m.setRelay i { r with downToUp := .count job cidU tag } with
          remap := m.remap.store cidU ⟨⟨i, tag⟩, job.header.correlationId, job.header.apiKey,
            job.header.apiVersion, conn.connId⟩ }
  | count {job : Job} {cidU : Int32} {tag : Nat} (phase : r.downToUp = .count job cidU tag) :
      RelayMove idle m i r .count
        { m.setRelay i { r with downToUp := .send job cidU tag } with
          metrics := m.metrics.incCidMapEntries.incRequestsInFlight }
  | push {job : Job} {cidU : Int32} {tag : Nat} {conn : Acquired}
      (phase : r.downToUp = .send job cidU tag) (leased : r.lease = some conn)
      (listens : (m.upstreams conn.writeTx).writeLoop ≠ .ended)
      (room : (m.upstreams conn.writeTx).writeRx.length < writeCapacity) :
      RelayMove idle m i r .push
        ((m.setUpstream conn.writeTx { m.upstreams conn.writeTx with
          writeRx := (m.upstreams conn.writeTx).writeRx ++
            [⟨replaceCid job.data cidU, cidU, tag⟩] }).setRelay i { r with
          downToUp := .waiting m.now })
  | pushFailed {job : Job} {cidU : Int32} {tag : Nat} {conn : Acquired}
      (phase : r.downToUp = .send job cidU tag) (leased : r.lease = some conn)
      (dead : (m.upstreams conn.writeTx).writeLoop = .ended) :
      RelayMove idle m i r .pushFailed (m.setRelay i { r with downToUp := .cancel cidU })
  | cancel {cidU : Int32} (phase : r.downToUp = .cancel cidU) :
      RelayMove idle m i r .cancel
        { m.setRelay i { r with lease := none, downToUp := .returned } with
          remap := { m.remap with map := m.remap.map.erase cidU }
          metrics :=
            if (m.remap.map.lookup cidU).isSome then
              m.metrics.decCidMapEntries.decRequestsInFlight
            else m.metrics }
  | hangUp {since : Nat} (phase : r.downToUp = .waiting since) (all : r.read = r.sent.length) :
      RelayMove idle m i r .hangUp (m.setRelay i { r with downToUp := .leaving })
  | idle {since d : Nat} (phase : r.downToUp = .waiting since) (limited : idle = some d)
      (all : r.read = r.sent.length) (late : since + d ≤ m.now) :
      RelayMove idle m i r .idle (m.setRelay i { r with downToUp := .leaving })
  | leave (phase : r.downToUp = .leaving) :
      RelayMove idle m i r .leave (m.setRelay i { r with lease := none, downToUp := .returned })
  | deliver {resp : DownstreamResp} {rest : List DownstreamResp} (listens : r.listens = true)
      (queue : r.respRx = resp :: rest) :
      RelayMove idle m i r .deliver
        (m.setRelay i { r with respRx := rest, written := r.written ++ [resp] })
  | deliverFailed (listens : r.listens = true) :
      RelayMove idle m i r .deliverFailed (m.setRelay i { r with listens := false })
  | respClosed (listens : r.listens = true) (empty : r.respRx = []) (done : r.downToUp = .returned)
      (last : m.holdsTx i = false) :
      RelayMove idle m i r .respClosed (m.setRelay i { r with listens := false })

variable {idle : Option Nat} {codecs : Codecs} {map : RewriteMap} {m n : Multiplex}

theorem take_eq (remap : CidRemap ResponseTx) (cidU : Int32) (metrics : Metrics) :
    remap.take cidU metrics = (remap.map.lookup cidU, { remap with map := remap.map.erase cidU },
      if (remap.map.lookup cidU).isSome then metrics.decCidMapEntries else metrics) := by
  unfold CidRemap.take
  split
  · rename_i entry present
    simp [present]
  · rename_i absent
    simp [absent, Table.erase_of_notMem (AList.lookup_eq_none.mp absent)]

theorem RelayMove.of_step {i : Nat} {r : PooledRelay} {action : RelayAction}
    (taken : m.relayStep idle i r action = some n) : RelayMove idle m i r action n := by
  cases action with
  | request data =>
      cases taken
      exact .request data
  | next =>
      simp only [relayStep] at taken
      split at taken
      · rename_i phase head
        split at taken <;> cases taken
        · rename_i parsed
          exact .next phase head parsed
        · rename_i short
          exact .skip phase head short
      · cases taken
  | keep =>
      simp only [relayStep] at taken
      split at taken
      · rename_i phase
        split at taken <;> cases taken
        rename_i valid
        simp only [Bool.and_eq_true, decide_eq_true_eq] at valid
        exact .keep phase valid.1 valid.2
      · cases taken
  | giveBack =>
      simp only [relayStep] at taken
      split at taken
      · rename_i phase
        split at taken <;> cases taken
        rename_i expired
        refine .giveBack phase ?_
        cases leased : r.lease with
        | none => exact .inl rfl
        | some conn =>
            rw [leased] at expired
            simpa using expired
      · cases taken
  | acquired conn =>
      simp only [relayStep] at taken
      split at taken
      · rename_i phase
        split at taken <;> cases taken
        rename_i given
        exact .acquired phase given.1 given.2
      · cases taken
  | check =>
      simp only [relayStep] at taken
      split at taken <;> cases taken
      rename_i phase
      split
      · rename_i full
        exact .refuse phase full
      · rename_i room
        exact .check phase (by simpa using room)
  | alloc =>
      simp only [relayStep] at taken
      split at taken <;> cases taken
      rename_i phase leased
      exact .alloc phase leased
  | store =>
      simp only [relayStep] at taken
      split at taken <;> cases taken
      rename_i phase leased
      exact .store phase leased
  | push =>
      simp only [relayStep] at taken
      split at taken
      · rename_i phase leased
        split at taken <;> cases taken
        rename_i able
        exact .push phase leased able.1 able.2
      · cases taken
  | pushFailed =>
      simp only [relayStep] at taken
      split at taken
      · rename_i phase leased
        split at taken <;> cases taken
        rename_i dead
        exact .pushFailed phase leased dead
      · cases taken
  | cancel =>
      simp only [relayStep] at taken
      split at taken <;> cases taken
      rename_i phase
      rw [take_eq]
      have move : RelayMove idle m i r .cancel _ := .cancel phase
      cases found : m.remap.map.lookup _ with
      | none => simpa [found] using move
      | some entry => simpa [found] using move
  | hangUp =>
      simp only [relayStep] at taken
      split at taken
      · rename_i phase
        split at taken <;> cases taken
        rename_i all
        exact .hangUp phase all
      · cases taken
  | idle =>
      simp only [relayStep] at taken
      split at taken
      · rename_i phase
        split at taken <;> cases taken
        rename_i late
        exact .idle phase rfl late.1 late.2
      · cases taken
  | deliver =>
      simp only [relayStep] at taken
      split at taken <;> cases taken
      rename_i listens queue
      exact .deliver listens queue
  | deliverFailed =>
      simp only [relayStep] at taken
      split at taken <;> cases taken
      rename_i listens
      exact .deliverFailed listens
  | respClosed =>
      simp only [relayStep] at taken
      split at taken <;> cases taken
      rename_i closes
      simp only [Bool.and_eq_true, List.isEmpty_iff, decide_eq_true_eq, Bool.not_eq_true'] at closes
      exact .respClosed closes.1.1.1 closes.1.1.2 closes.1.2 closes.2
  | connect | borrow | acquireFailed | count | leave =>
      simp only [relayStep] at taken
      split at taken <;> cases taken
      rename_i phase
      constructor
      exact phase

/-! ## What a step of an upstream connection can do -/

inductive UpstreamMove (codecs : Codecs) (map : RewriteMap) (m : Multiplex) (k : Nat) (u : Upstream) :
    UpstreamAction → Multiplex → Prop where
  | answer {n : Nat} {data : Frame} {req : WriteReq} (asked : u.unanswered[n]? = some req)
      (echoes : parseResponseCid data = some (getI32 (req.frame.drop 4))) :
      UpstreamMove codecs map m k u (.answer n data) (m.setUpstream k { u with
        unanswered := u.unanswered.eraseIdx n, incoming := u.incoming ++ [⟨data, req.tag⟩] })
  | write {req : WriteReq} {rest : List WriteReq} (phase : u.writeLoop = .running)
      (queue : u.writeRx = req :: rest) :
      UpstreamMove codecs map m k u .write
        (m.setUpstream k { u with writeRx := rest, unanswered := u.unanswered ++ [req] })
  | writeFailed {req : WriteReq} {rest : List WriteReq} (phase : u.writeLoop = .running)
      (queue : u.writeRx = req :: rest) :
      UpstreamMove codecs map m k u .writeFailed
        (m.setUpstream k { u with writeRx := rest, writeLoop := .cleanup })
  | fail (phase : u.writeLoop = .running) :
      UpstreamMove codecs map m k u .fail (m.setUpstream k { u with writeLoop := .cleanup })
  | closed (phase : u.writeLoop = .running) (empty : u.writeRx = []) :
      UpstreamMove codecs map m k u .closed (m.setUpstream k { u with writeLoop := .cleanup })
  | read {answer : Answer} {rest : List Answer} (phase : u.writeLoop = .running)
      (queue : u.incoming = answer :: rest) :
      UpstreamMove codecs map m k u .read (m.setUpstream k { u with
        incoming := rest, writeLoop := .forwarding answer, received := u.received ++ [answer] })
  | forward {answer : Answer} (phase : u.writeLoop = .forwarding answer)
      (room : u.readRx.length < readCapacity) :
      UpstreamMove codecs map m k u .forward
        (m.setUpstream k { u with readRx := u.readRx ++ [answer], writeLoop := .running })
  | cleanup (phase : u.writeLoop = .cleanup) :
      UpstreamMove codecs map m k u .cleanup
        { m.setUpstream k { u with writeLoop := .cleaned } with
          remap := m.remap.retainOthers u.connId
          metrics :=
            Metrics.decRequestsInFlight^[(m.remap.failConn u.connId m.metrics).1]
              (m.remap.failConn u.connId m.metrics).2.2 }
  | finish (phase : u.writeLoop = .cleaned) :
      UpstreamMove codecs map m k u .finish
        { m.setUpstream k { u with writeLoop := .ended } with
          metrics := m.metrics.decUpstreamConnections }
  | take {answer : Answer} {rest : List Answer} {cidU : Int32} {entry : Entry}
      (phase : u.readLoop = .receiving) (queue : u.readRx = answer :: rest)
      (parsed : parseResponseCid answer.data = some cidU)
      (found : m.remap.map.lookup cidU = some entry) :
      UpstreamMove codecs map m k u .take
        { m.setUpstream k { u with readRx := rest, readLoop := .routing answer entry } with
          remap := { m.remap with map := m.remap.map.erase cidU }
          metrics := m.metrics.decCidMapEntries }
  | unmatched {answer : Answer} {rest : List Answer} (phase : u.readLoop = .receiving)
      (queue : u.readRx = answer :: rest)
      (missing : ∀ cidU, parseResponseCid answer.data = some cidU →
        m.remap.map.lookup cidU = none) :
      UpstreamMove codecs map m k u .take (m.setUpstream k { u with
        readRx := rest, routed := u.routed ++ [(answer, .unmatched)] })
  | route {answer : Answer} {entry : Entry} (phase : u.readLoop = .routing answer entry)
      (listens : (m.relays entry.downstreamTx.client).listens = true)
      (room : (m.relays entry.downstreamTx.client).respRx.length < respCapacity) :
      UpstreamMove codecs map m k u .route
        { (m.setUpstream k { u with
            readLoop := .receiving
            routed := u.routed ++ [(answer, .queued entry.downstreamTx)] }).setRelay
              entry.downstreamTx.client { m.relays entry.downstreamTx.client with
                respRx := (m.relays entry.downstreamTx.client).respRx ++
                  [⟨routeResponse codecs map answer.data entry, entry.downstreamTx.tag, answer⟩] } with
          metrics := m.metrics.decRequestsInFlight }
  | discard {answer : Answer} {entry : Entry} (phase : u.readLoop = .routing answer entry)
      (unable : (m.relays entry.downstreamTx.client).listens = true →
        respCapacity ≤ (m.relays entry.downstreamTx.client).respRx.length) :
      UpstreamMove codecs map m k u .route
        { m.setUpstream k { u with
            readLoop := .receiving
            routed := u.routed ++ [(answer, .refused entry.downstreamTx
              (m.relays entry.downstreamTx.client).respRx.length
              (m.relays entry.downstreamTx.client).listens)] } with
          metrics := m.metrics.decRequestsInFlight }

theorem UpstreamMove.of_step {k : Nat} {u : Upstream} {action : UpstreamAction}
    (taken : m.upstreamStep codecs map k u action = some n) :
    UpstreamMove codecs map m k u action n := by
  cases action with
  | answer index data =>
      simp only [upstreamStep] at taken
      split at taken
      · rename_i asked
        split at taken <;> cases taken
        rename_i echoes
        exact .answer asked echoes
      · cases taken
  | write =>
      simp only [upstreamStep] at taken
      split at taken <;> cases taken
      rename_i phase queue
      exact .write phase queue
  | writeFailed =>
      simp only [upstreamStep] at taken
      split at taken <;> cases taken
      rename_i phase queue
      exact .writeFailed phase queue
  | closed =>
      simp only [upstreamStep] at taken
      split at taken <;> cases taken
      rename_i phase empty
      exact .closed phase empty
  | read =>
      simp only [upstreamStep] at taken
      split at taken <;> cases taken
      rename_i phase queue
      exact .read phase queue
  | forward =>
      simp only [upstreamStep] at taken
      split at taken
      · rename_i phase
        split at taken <;> cases taken
        rename_i room
        exact .forward phase room
      · cases taken
  | take =>
      simp only [upstreamStep] at taken
      split at taken
      · rename_i answer rest phase queue
        split at taken
        · rename_i short
          cases taken
          exact .unmatched phase queue (by simp [short])
        · rename_i cidU parsed
          rw [take_eq] at taken
          cases found : m.remap.map.lookup cidU with
          | some entry =>
              simp only [found, Option.isSome_some, if_true, Option.some.injEq] at taken
              subst taken
              exact .take phase queue parsed found
          | none =>
              simp only [found, Option.isSome_none, Option.some.injEq,
                Table.erase_of_notMem (AList.lookup_eq_none.mp found)] at taken
              subst taken
              refine .unmatched phase queue fun other same => ?_
              rw [parsed, Option.some.injEq] at same
              exact same ▸ found
      · cases taken
  | route =>
      simp only [upstreamStep] at taken
      split at taken
      · rename_i answer entry phase
        split at taken <;> cases taken
        · rename_i able
          exact .route phase able.1 able.2
        · rename_i unable
          refine .discard phase fun listens => ?_
          simpa [listens] using unable
      · cases taken
  | fail | cleanup | finish =>
      simp only [upstreamStep] at taken
      split at taken <;> cases taken
      rename_i phase
      constructor
      exact phase

/-! ## What a step leaves as it is -/

@[simp] theorem setRelay_relays {i : Nat} {r : PooledRelay} :
    (m.setRelay i r).relays = Function.update m.relays i r := rfl

@[simp] theorem setRelay_upstreams {i : Nat} {r : PooledRelay} :
    (m.setRelay i r).upstreams = m.upstreams := rfl

@[simp] theorem setUpstream_relays {k : Nat} {u : Upstream} : (m.setUpstream k u).relays = m.relays :=
  rfl

@[simp] theorem setUpstream_upstreams {k : Nat} {u : Upstream} :
    (m.setUpstream k u).upstreams = Function.update m.upstreams k u := rfl

theorem RelayMove.relays_other {i j : Nat} {r : PooledRelay} {action : RelayAction}
    (move : RelayMove idle m i r action n) (other : j ≠ i) : n.relays j = m.relays j := by
  cases move <;> simp [other]

theorem UpstreamMove.relays_eq {k : Nat} {u : Upstream} {action : UpstreamAction}
    (move : UpstreamMove codecs map m k u action n) (i : Nat) :
    ∃ respRx, n.relays i = { m.relays i with respRx } := by
  cases move with
  | @route answer entry phase listens room =>
      by_cases client : i = entry.downstreamTx.client
      · subst client
        simp
      · exact ⟨(m.relays i).respRx, by simp [client]⟩
  | _ => exact ⟨(m.relays i).respRx, rfl⟩

theorem UpstreamMove.upstreams_other {k l : Nat} {u : Upstream} {action : UpstreamAction}
    (move : UpstreamMove codecs map m k u action n) (other : l ≠ k) :
    n.upstreams l = m.upstreams l := by
  cases move <;> simp [other]

theorem RelayMove.upstreams_eq {i : Nat} {r : PooledRelay} {action : RelayAction}
    (move : RelayMove idle m i r action n) (l : Nat) :
    ∃ writeRx, n.upstreams l = { m.upstreams l with writeRx } := by
  cases move with
  | @push job cidU tag conn phase leased listens room =>
      by_cases here : l = conn.writeTx
      · subst here
        simp
      · exact ⟨(m.upstreams l).writeRx, by simp [here]⟩
  | _ => exact ⟨(m.upstreams l).writeRx, rfl⟩

theorem RelayMove.opened_eq {i : Nat} {r : PooledRelay} {action : RelayAction}
    (move : RelayMove idle m i r action n) : n.opened = m.opened := by
  cases move <;> rfl

theorem UpstreamMove.opened_eq {k : Nat} {u : Upstream} {action : UpstreamAction}
    (move : UpstreamMove codecs map m k u action n) : n.opened = m.opened := by
  cases move <;> rfl

theorem RelayMove.sent {i k : Nat} {action : RelayAction} {write : WriteReq}
    (move : RelayMove idle m i (m.relays i) action n)
    (member : write ∈ (n.upstreams k).writeRx ++ (n.upstreams k).unanswered) :
    write ∈ (m.upstreams k).writeRx ++ (m.upstreams k).unanswered ∨
      ∃ job, (m.relays i).downToUp = .send job write.cidU write.tag ∧
        write.frame = replaceCid job.data write.cidU := by
  cases move with
  | @push job cid tag conn phase leased listens room =>
      by_cases here : k = conn.writeTx
      · subst here
        simp only [setRelay_upstreams, setUpstream_upstreams, Function.update_self, List.mem_append,
          List.mem_singleton] at member ⊢
        obtain (queued | rfl) | waits := member
        · exact .inl (.inl queued)
        · exact .inr ⟨job, phase, rfl⟩
        · exact .inl (.inr waits)
      · simp only [setRelay_upstreams, setUpstream_upstreams, Function.update_of_ne here] at member
        exact .inl member
  | _ => exact .inl member

theorem UpstreamMove.sent {k : Nat} {action : UpstreamAction} {write : WriteReq}
    (move : UpstreamMove codecs map m k (m.upstreams k) action n)
    (member : write ∈ (n.upstreams k).writeRx ++ (n.upstreams k).unanswered) :
    write ∈ (m.upstreams k).writeRx ++ (m.upstreams k).unanswered := by
  cases move with
  | answer asked echoes =>
      simp only [setUpstream_upstreams, Function.update_self, List.mem_append] at member ⊢
      exact member.imp_right List.mem_of_mem_eraseIdx
  | write phase queue =>
      simp only [setUpstream_upstreams, Function.update_self, queue, List.mem_append, List.mem_cons,
        List.not_mem_nil] at member ⊢
      tauto
  | writeFailed phase queue =>
      simp only [setUpstream_upstreams, Function.update_self, queue, List.mem_append, List.mem_cons] at member ⊢
      tauto
  | _ => simpa using member

inductive Change (idle : Option Nat) (codecs : Codecs) (map : RewriteMap) (m : Multiplex) :
    MultiplexAction → Multiplex → Prop where
  | tick (elapsed : Nat) : Change idle codecs map m (.tick elapsed) { m with now := m.now + elapsed }
  | create : Change idle codecs map m .create m.create
  | relay {i : Nat} {action : RelayAction} {n : Multiplex}
      (move : RelayMove idle m i (m.relays i) action n) :
      Change idle codecs map m (.relay i action) n
  | upstream {k : Nat} {action : UpstreamAction} {n : Multiplex}
      (move : UpstreamMove codecs map m k (m.upstreams k) action n) :
      Change idle codecs map m (.upstream k action) n

theorem Change.of_step {action : MultiplexAction} (taken : m.step idle codecs map action = some n) :
    Change idle codecs map m action n := by
  cases action with
  | tick elapsed =>
      cases taken
      exact .tick elapsed
  | create =>
      cases taken
      exact .create
  | relay i action => exact .relay (.of_step taken)
  | upstream k action => exact .upstream (.of_step taken)

theorem Change.at_relay {action : MultiplexAction} (change : Change idle codecs map m action n)
    (i : Nat) :
    ((∀ own, action ≠ .relay i own) ∧ ∃ respRx, n.relays i = { m.relays i with respRx }) ∨
      ∃ own, action = .relay i own ∧ RelayMove idle m i (m.relays i) own n := by
  cases change with
  | tick elapsed => exact .inl ⟨nofun, (m.relays i).respRx, rfl⟩
  | create => exact .inl ⟨nofun, (m.relays i).respRx, rfl⟩
  | upstream move => exact .inl ⟨nofun, move.relays_eq i⟩
  | @relay j own n move =>
      by_cases here : i = j
      · subst here
        exact .inr ⟨own, rfl, move⟩
      · refine .inl ⟨by simp [Ne.symm here], (m.relays i).respRx, ?_⟩
        rw [move.relays_other here]

theorem Change.at_upstream {action : MultiplexAction} (change : Change idle codecs map m action n)
    (k : Nat) :
    ((∀ own, action ≠ .upstream k own) ∧ ∃ writeRx, n.upstreams k = { m.upstreams k with writeRx }) ∨
      (action = .create ∧ k = m.opened ∧ n.upstreams k = .new m.remap.nextConnId .running) ∨
      ∃ own, action = .upstream k own ∧ UpstreamMove codecs map m k (m.upstreams k) own n := by
  cases change with
  | tick elapsed => exact .inl ⟨nofun, (m.upstreams k).writeRx, rfl⟩
  | relay move => exact .inl ⟨nofun, move.upstreams_eq k⟩
  | create =>
      by_cases here : k = m.opened
      · subst here
        exact .inr (.inl ⟨rfl, rfl, by simp [Multiplex.create, CidRemap.allocConnId]⟩)
      · exact .inl ⟨nofun, (m.upstreams k).writeRx, by simp [Multiplex.create, here]⟩
  | @upstream l own n move =>
      by_cases here : k = l
      · subst here
        exact .inr (.inr ⟨own, rfl, move⟩)
      · refine .inl ⟨by simp [Ne.symm here], (m.upstreams k).writeRx, ?_⟩
        rw [move.upstreams_other here]

theorem Change.sent {k : Nat} {action : MultiplexAction} {write : WriteReq}
    (change : Change idle codecs map m action n)
    (member : write ∈ (n.upstreams k).writeRx ++ (n.upstreams k).unanswered) :
    write ∈ (m.upstreams k).writeRx ++ (m.upstreams k).unanswered ∧ (k < n.opened → k < m.opened) ∨
      ∃ i job, (m.relays i).downToUp = .send job write.cidU write.tag ∧
        write.frame = replaceCid job.data write.cidU := by
  cases change with
  | tick elapsed => exact .inl ⟨member, id⟩
  | create =>
      left
      by_cases here : k = m.opened
      · subst here
        simp [Multiplex.create, CidRemap.allocConnId, Upstream.new] at member
      · simp only [Multiplex.create, setUpstream_upstreams, Function.update_of_ne here] at member
        exact ⟨member, fun opens => Nat.lt_of_le_of_ne (Nat.le_of_lt_succ opens) here⟩
  | @relay i action n move =>
      obtain before | sends := move.sent member
      · exact .inl ⟨before, fun opens => move.opened_eq ▸ opens⟩
      · exact .inr ⟨i, sends⟩
  | @upstream l action n move =>
      left
      refine ⟨?_, fun opens => move.opened_eq ▸ opens⟩
      by_cases here : k = l
      · subst here
        exact move.sent member
      · rw [move.upstreams_other here] at member
        exact member

/-! ## A client that sends one request -/

def apiVersionsRequest : Frame := [0, 18, 0, 0, 0, 0, 0, 7]

/-- Client `i` connects and sends a request, which its relay puts on the first connection. -/
def asksOnce (i : Nat) : List MultiplexAction :=
  [.connect, .request apiVersionsRequest, .next, .giveBack, .borrow, .acquired ⟨0, 1⟩, .check, .alloc, .store,
    .count, .push].map (.relay i)

end KafkaProxy.Pooled.Multiplex
