import KafkaProxy.Pooled.Requests

/-!
# Responses reach the client that asked

The invariant follows a request from the relay that stores its entry, through the table and the
hands of a read loop, into a response queue. It is in one of these places at a time, and its
correlation id is that of no other request while the ids have not come round.
-/

namespace KafkaProxy.Pooled
open Library

inductive Stage where
  | fresh
  | storing
  | held
  | inHand
  | queued
  deriving DecidableEq

def cidOf (tag : Nat) : Int32 := CidRemap.cidAt (tag + 1)

def Request.entry (req : Request) (tag : Nat) (connId : ConnId) : Entry :=
  ⟨⟨req.client, tag⟩, req.job.header.correlationId, req.job.header.apiKey, req.job.header.apiVersion,
    connId⟩

def DownToUp.registered : DownToUp → Option (Job × Int32 × Nat)
  | .store job cidU tag | .count job cidU tag | .send job cidU tag => some (job, cidU, tag)
  | .absent | .waiting _ | .checking _ | .borrow _ | .acquiring _ | .register _ | .alloc _ | .cancel _
  | .leaving | .returned => none

def PooledRelay.put (r : PooledRelay) : List DownstreamResp := r.written ++ r.respRx

section Facts

variable (codecs : Codecs) (map : RewriteMap) (requests : List Request)

def Fits (entry : Entry) : Prop :=
  ∃ req, requests[entry.downstreamTx.tag]? = some req ∧
    entry = req.entry entry.downstreamTx.tag entry.connId

def Asks (k : Nat) (write : WriteReq) : Prop :=
  getI32 (write.frame.drop 4) = cidOf write.tag ∧
    ∃ req, requests[write.tag]? = some req ∧ req.writeTx = k

def Answers (k : Nat) (answer : Answer) : Prop :=
  parseResponseCid answer.data = some (cidOf answer.tag) ∧
    ∃ req, requests[answer.tag]? = some req ∧ req.writeTx = k

def Issued (i : Nat) (r : PooledRelay) (job : Job) (cidU : Int32) (tag : Nat) : Prop :=
  cidU = cidOf tag ∧ ∃ conn, r.lease = some conn ∧ requests[tag]? = some ⟨i, job, conn.writeTx⟩

def Delivers (i : Nat) (resp : DownstreamResp) : Prop :=
  resp.answer.tag = resp.tag ∧ ∃ req connId, requests[resp.tag]? = some req ∧ req.client = i ∧
    resp.frame = routeResponse codecs map resp.answer.data (req.entry resp.tag connId)

variable (stage : Nat → Stage)

def TableOk (table : Table Int32 Entry) : Prop :=
  ∀ cidU entry, table.lookup cidU = some entry →
    stage entry.downstreamTx.tag = .held ∧ cidU = cidOf entry.downstreamTx.tag ∧ Fits requests entry

structure UpstreamOk (k : Nat) (u : Upstream) : Prop where
  queued : ∀ write ∈ u.writeRx, Asks requests k write
  unanswered : ∀ write ∈ u.unanswered, Asks requests k write
  incoming : ∀ answer ∈ u.incoming, Answers requests k answer
  forwarding : ∀ answer, u.writeLoop = .forwarding answer → Answers requests k answer
  readRx : ∀ answer ∈ u.readRx, Answers requests k answer
  routing : ∀ answer entry, u.readLoop = .routing answer entry →
    stage entry.downstreamTx.tag = .inHand ∧ answer.tag = entry.downstreamTx.tag ∧
      Fits requests entry ∧ Answers requests k answer

structure RelayOk (i : Nat) (r : PooledRelay) : Prop where
  storing : ∀ job cidU tag, r.downToUp = .store job cidU tag → stage tag = .storing
  issued : ∀ job cidU tag, r.downToUp.registered = some (job, cidU, tag) →
    Issued requests i r job cidU tag
  queued : ∀ resp ∈ r.put, stage resp.tag = .queued ∧ Delivers codecs map requests i resp
  nodup : (r.put.map (·.tag)).Nodup

end Facts

variable {codecs : Codecs} {map : RewriteMap} {requests later : List Request} {stage : Nat → Stage}
  {tag : Nat} {next : Stage}

/-! ## More requests -/

theorem getElem?_of_isPrefix {τ : Type} {l l' : List τ} {i : Nat} {a : τ} (more : l <+: l')
    (found : l[i]? = some a) : l'[i]? = some a := by
  obtain ⟨rest, rfl⟩ := more
  rw [List.getElem?_append_left (List.getElem?_eq_some_iff.mp found).1]
  exact found

theorem Fits.mono {entry : Entry} (more : requests <+: later) (fits : Fits requests entry) :
    Fits later entry := by
  obtain ⟨req, found, same⟩ := fits
  exact ⟨req, getElem?_of_isPrefix more found, same⟩

theorem Asks.mono {k : Nat} {write : WriteReq} (more : requests <+: later)
    (asks : Asks requests k write) : Asks later k write := by
  obtain ⟨cid, req, found, here⟩ := asks
  exact ⟨cid, req, getElem?_of_isPrefix more found, here⟩

theorem Answers.mono {k : Nat} {answer : Answer} (more : requests <+: later)
    (answers : Answers requests k answer) : Answers later k answer := by
  obtain ⟨cid, req, found, here⟩ := answers
  exact ⟨cid, req, getElem?_of_isPrefix more found, here⟩

theorem TableOk.mono {table : Table Int32 Entry} (more : requests <+: later)
    (ok : TableOk requests stage table) : TableOk later stage table := by
  intro cidU entry found
  obtain ⟨held, cid, fits⟩ := ok cidU entry found
  exact ⟨held, cid, fits.mono more⟩

theorem UpstreamOk.mono {k : Nat} {u : Upstream} (more : requests <+: later)
    (ok : UpstreamOk requests stage k u) : UpstreamOk later stage k u where
  queued write member := (ok.queued write member).mono more
  unanswered write member := (ok.unanswered write member).mono more
  incoming answer member := (ok.incoming answer member).mono more
  forwarding answer phase := (ok.forwarding answer phase).mono more
  readRx answer member := (ok.readRx answer member).mono more
  routing answer entry phase := by
    obtain ⟨inHand, same, fits, answers⟩ := ok.routing answer entry phase
    exact ⟨inHand, same, fits.mono more, answers.mono more⟩

theorem RelayOk.mono {i : Nat} {r : PooledRelay} (more : requests <+: later)
    (ok : RelayOk codecs map requests stage i r) : RelayOk codecs map later stage i r where
  storing := ok.storing
  issued job cidU tag phase := by
    obtain ⟨cid, conn, leased, found⟩ := ok.issued job cidU tag phase
    exact ⟨cid, conn, leased, getElem?_of_isPrefix more found⟩
  queued resp member := by
    obtain ⟨queued, same, req, connId, found, delivers⟩ := ok.queued resp member
    exact ⟨queued, same, req, connId, getElem?_of_isPrefix more found, delivers⟩
  nodup := ok.nodup

/-! ## One request moves on -/

theorem TableOk.update {table : Table Int32 Entry} (ok : TableOk requests stage table)
    (elsewhere : stage tag ≠ .held) : TableOk requests (Function.update stage tag next) table := by
  intro cidU entry found
  obtain ⟨held, cid, fits⟩ := ok cidU entry found
  have other : entry.downstreamTx.tag ≠ tag := fun same => elsewhere (same ▸ held)
  exact ⟨by rw [Function.update_of_ne other]; exact held, cid, fits⟩

theorem UpstreamOk.update {k : Nat} {u : Upstream} (ok : UpstreamOk requests stage k u)
    (elsewhere : ∀ answer entry, u.readLoop = .routing answer entry → entry.downstreamTx.tag ≠ tag) :
    UpstreamOk requests (Function.update stage tag next) k u :=
  { ok with
    routing := fun answer entry phase => by
      obtain ⟨inHand, rest⟩ := ok.routing answer entry phase
      rw [Function.update_of_ne (elsewhere answer entry phase)]
      exact ⟨inHand, rest⟩ }

theorem UpstreamOk.not_inHand {k : Nat} {u : Upstream} (ok : UpstreamOk requests stage k u)
    (elsewhere : stage tag ≠ .inHand) (answer : Answer) (entry : Entry)
    (phase : u.readLoop = .routing answer entry) : entry.downstreamTx.tag ≠ tag :=
  fun same => elsewhere (same ▸ (ok.routing answer entry phase).1)

theorem RelayOk.update {i : Nat} {r : PooledRelay} (ok : RelayOk codecs map requests stage i r)
    (free : ∀ job cidU, r.downToUp ≠ .store job cidU tag) (elsewhere : stage tag ≠ .queued) :
    RelayOk codecs map requests (Function.update stage tag next) i r where
  storing job cidU other phase := by
    have different : other ≠ tag := by
      rintro rfl
      exact free job cidU phase
    rw [Function.update_of_ne different]
    exact ok.storing job cidU other phase
  issued := ok.issued
  queued resp member := by
    obtain ⟨queued, delivers⟩ := ok.queued resp member
    have different : resp.tag ≠ tag := fun same => elsewhere (same ▸ queued)
    rw [Function.update_of_ne different]
    exact ⟨queued, delivers⟩
  nodup := ok.nodup

theorem RelayOk.not_storing {i : Nat} {r : PooledRelay} (ok : RelayOk codecs map requests stage i r)
    (elsewhere : stage tag ≠ .storing) (job : Job) (cidU : Int32) :
    r.downToUp ≠ .store job cidU tag :=
  fun phase => elsewhere (ok.storing job cidU tag phase)

theorem TableOk.retain {table : Table Int32 Entry} (ok : TableOk requests stage table)
    (keep : Int32 → Entry → Bool) : TableOk requests stage (table.retain keep) :=
  fun cidU entry found => ok cidU entry (Table.lookup_retain_eq_some.mp found).1

theorem TableOk.erase {table : Table Int32 Entry} (ok : TableOk requests stage table) (cid : Int32) :
    TableOk requests stage (table.erase cid) :=
  fun cidU entry found => ok cidU entry (Table.lookup_erase_eq_some.mp found).2

theorem TableOk.take {table : Table Int32 Entry} (ok : TableOk requests stage table) :
    TableOk requests (Function.update stage tag next) (table.erase (cidOf tag)) := by
  intro cidU entry found
  obtain ⟨other, present⟩ := Table.lookup_erase_eq_some.mp found
  obtain ⟨held, cid, fits⟩ := ok cidU entry present
  have different : entry.downstreamTx.tag ≠ tag := by
    rintro rfl
    exact other cid
  exact ⟨by rw [Function.update_of_ne different]; exact held, cid, fits⟩

theorem TableOk.store {table : Table Int32 Entry} {entry : Entry}
    (ok : TableOk requests stage table) (elsewhere : stage entry.downstreamTx.tag ≠ .held)
    (fits : Fits requests entry) :
    TableOk requests (Function.update stage entry.downstreamTx.tag .held)
      (table.insert (cidOf entry.downstreamTx.tag) entry) := by
  intro cidU other found
  rcases Table.lookup_insert_eq_some.mp found with ⟨rfl, rfl⟩ | ⟨_, present⟩
  · exact ⟨Function.update_self .., rfl, fits⟩
  · exact ok.update elsewhere cidU other present

theorem RelayOk.keep {i : Nat} {r s : PooledRelay} (ok : RelayOk codecs map requests stage i r)
    (put : s.put = r.put)
    (phase : s.downToUp.registered = none ∨ s.downToUp = r.downToUp ∧ s.lease = r.lease) :
    RelayOk codecs map requests stage i s where
  storing job cidU tag current := by
    rcases phase with none | ⟨same, _⟩
    · simp [current, DownToUp.registered] at none
    · exact ok.storing job cidU tag (same ▸ current)
  issued job cidU tag current := by
    rcases phase with none | ⟨same, leased⟩
    · rw [none] at current
      cases current
    · rw [same] at current
      rw [Issued, leased]
      exact ok.issued job cidU tag current
  queued resp member := ok.queued resp (put ▸ member)
  nodup := put ▸ ok.nodup

namespace Multiplex

structure Routing (codecs : Codecs) (map : RewriteMap) (stage : Nat → Stage) (m : Multiplex) :
    Prop where
  counter : m.remap.nextCid = CidRemap.cidAt m.requests.length
  fresh : ∀ tag, m.requests.length ≤ tag → stage tag = .fresh
  table : TableOk m.requests stage m.remap.map
  relay : ∀ i, RelayOk codecs map m.requests stage i (m.relays i)
  upstream : ∀ k, UpstreamOk m.requests stage k (m.upstreams k)

variable {idle : Option Nat} {m n : Multiplex} {i k : Nat}

theorem Routing.setRelay {r : PooledRelay} (routing : Routing codecs map stage m)
    (ok : RelayOk codecs map m.requests stage i r) : Routing codecs map stage (m.setRelay i r) :=
  { routing with
    relay := (Function.forall_update_iff m.relays fun j r => RelayOk codecs map m.requests stage j r).mpr
      ⟨ok, fun j _ => routing.relay j⟩ }

theorem Routing.setUpstream {u : Upstream} (routing : Routing codecs map stage m)
    (ok : UpstreamOk m.requests stage k u) : Routing codecs map stage (m.setUpstream k u) :=
  { routing with
    upstream := (Function.forall_update_iff m.upstreams fun l u => UpstreamOk m.requests stage l u).mpr
      ⟨ok, fun l _ => routing.upstream l⟩ }

theorem Routing.alloc {job : Job} {conn : Acquired} (routing : Routing codecs map stage m)
    (leased : (m.relays i).lease = some conn) :
    Routing codecs map (Function.update stage m.requests.length .storing)
      { m.setRelay i { m.relays i with
          downToUp := .store job (CidRemap.cidAfter m.remap.nextCid) m.requests.length } with
        remap := { m.remap with nextCid := CidRemap.cidAfter m.remap.nextCid }
        requests := m.requests ++ [⟨i, job, conn.writeTx⟩] } := by
  have new : stage m.requests.length = .fresh := routing.fresh _ le_rfl
  have more : m.requests <+: m.requests ++ [⟨i, job, conn.writeTx⟩] := List.prefix_append _ _
  have relay (j : Nat) : RelayOk codecs map (m.requests ++ [⟨i, job, conn.writeTx⟩])
      (Function.update stage m.requests.length .storing) j (m.relays j) :=
    ((routing.relay j).mono more).update ((routing.relay j).not_storing (by simp [new]))
      (by simp [new])
  refine ⟨?_, ?_, (routing.table.mono more).update (by simp [new]), ?_, ?_⟩
  · simp only [routing.counter, CidRemap.cidAfter_cidAt, List.length_append, List.length_singleton]
  · intro tag beyond
    simp only [List.length_append, List.length_singleton] at beyond
    have other : tag ≠ m.requests.length := by omega
    rw [Function.update_of_ne other]
    exact routing.fresh tag (by omega)
  · apply (Function.forall_update_iff m.relays fun j r => RelayOk codecs map _ _ j r).mpr
    refine ⟨?_, fun j _ => relay j⟩
    refine ⟨?_, ?_, (relay i).queued, (relay i).nodup⟩
    · intro other cidU tag phase
      cases phase
      exact Function.update_self ..
    · intro other cidU tag phase
      cases phase
      refine ⟨?_, conn, leased, by simp⟩
      rw [routing.counter, CidRemap.cidAfter_cidAt]
      rfl
  · intro l
    exact ((routing.upstream l).mono more).update ((routing.upstream l).not_inHand (by simp [new]))

theorem Routing.store {job : Job} {cidU : Int32} {tag : Nat} {conn : Acquired}
    (routing : Routing codecs map stage m) (phase : (m.relays i).downToUp = .store job cidU tag) :
    Routing codecs map (Function.update stage tag .held)
      { m.setRelay i { m.relays i with downToUp := .count job cidU tag } with
        remap := m.remap.store cidU ⟨⟨i, tag⟩, job.header.correlationId, job.header.apiKey,
          job.header.apiVersion, conn.connId⟩ } := by
  have here := routing.relay i
  have storing := here.storing job cidU tag phase
  have issued := here.issued job cidU tag (by rw [phase]; rfl)
  obtain ⟨rfl, _, _, found⟩ := issued
  refine ⟨routing.counter, ?_, ?_, ?_, ?_⟩
  · intro other beyond
    have different : other ≠ tag := by
      rintro rfl
      rw [routing.fresh other beyond] at storing
      cases storing
    rw [Function.update_of_ne different]
    exact routing.fresh other beyond
  · have fits : Fits m.requests ⟨⟨i, tag⟩, job.header.correlationId, job.header.apiKey,
        job.header.apiVersion, conn.connId⟩ := ⟨_, found, rfl⟩
    refine routing.table.store ?_ fits
    simp [storing]
  · apply (Function.forall_update_iff m.relays fun j r => RelayOk codecs map _ _ j r).mpr
    constructor
    · refine ⟨by simp, ?_, ?_, here.nodup⟩
      · intro other cidU tag same
        exact here.issued other cidU tag (by rw [phase]; exact same)
      · intro resp member
        obtain ⟨queued, delivers⟩ := here.queued resp member
        have different : resp.tag ≠ tag := by
          rintro rfl
          rw [queued] at storing
          cases storing
        rw [Function.update_of_ne different]
        exact ⟨queued, delivers⟩
    · intro j other
      apply (routing.relay j).update ?_ (by simp [storing])
      intro job cidU there
      obtain ⟨_, _, _, twice⟩ := (routing.relay j).issued job cidU tag (by rw [there]; rfl)
      rw [found, Option.some.injEq] at twice
      exact other (congrArg Request.client twice).symm
  · intro l
    exact (routing.upstream l).update ((routing.upstream l).not_inHand (by simp [storing]))

theorem Routing.push {job : Job} {cidU : Int32} {tag : Nat} {conn : Acquired}
    (routing : Routing codecs map stage m) (requests : m.Requests)
    (phase : (m.relays i).downToUp = .send job cidU tag)
    (leased : (m.relays i).lease = some conn) :
    UpstreamOk m.requests stage conn.writeTx { m.upstreams conn.writeTx with
      writeRx := (m.upstreams conn.writeTx).writeRx ++ [⟨replaceCid job.data cidU, cidU, tag⟩] } := by
  have here := routing.upstream conn.writeTx
  obtain ⟨cid, held, same, found⟩ := (routing.relay i).issued job cidU tag (by rw [phase]; rfl)
  rw [leased, Option.some.injEq] at same
  have sent := requests.job i job (by rw [phase]; rfl)
  refine { here with queued := ?_ }
  intro write member
  rcases List.mem_append.mp member with older | added
  · exact here.queued write older
  · rw [List.mem_singleton.mp added]
    refine ⟨?_, _, found, by rw [same]⟩
    rw [← cid]
    exact replaceCid_cid cidU (parseRequestHeader_length sent.parsed)

theorem RelayMove.routing {action : RelayAction} (routing : Routing codecs map stage m)
    (requests : m.Requests) (move : RelayMove idle m i (m.relays i) action n) :
    ∃ after, Routing codecs map after n := by
  have here := routing.relay i
  cases move with
  | alloc phase leased => exact ⟨_, routing.alloc leased⟩
  | store phase leased => exact ⟨_, routing.store phase⟩
  | count phase =>
      rename_i job cidU tag
      have further : RelayOk codecs map m.requests stage i { m.relays i with
          downToUp := .send job cidU tag } := by
        refine ⟨by simp, ?_, here.queued, here.nodup⟩
        intro other cidU tag same
        exact here.issued other cidU tag (by rw [phase]; exact same)
      have next := routing.setRelay further
      exact ⟨stage, { next with }⟩
  | push phase leased listens room =>
      refine ⟨stage, (routing.setUpstream (routing.push requests phase leased)).setRelay ?_⟩
      exact here.keep rfl (.inl rfl)
  | cancel phase =>
      have back : RelayOk codecs map m.requests stage i { m.relays i with
          lease := none, downToUp := .returned } := here.keep rfl (.inl rfl)
      have next := routing.setRelay back
      exact ⟨stage, { next with table := routing.table.erase _ }⟩
  | request data => exact ⟨stage, routing.setRelay (here.keep rfl (.inr ⟨rfl, rfl⟩))⟩
  | deliver listens queue =>
      refine ⟨stage, routing.setRelay (here.keep ?_ (.inr ⟨rfl, rfl⟩))⟩
      simp [PooledRelay.put, queue]
  | deliverFailed listens | respClosed listens empty done last =>
      exact ⟨stage, routing.setRelay (here.keep rfl (.inr ⟨rfl, rfl⟩))⟩
  | connect | next | skip | keep | giveBack | borrow | acquired | acquireFailed | check | refuse
  | pushFailed | hangUp | idle | leave =>
      exact ⟨stage, routing.setRelay (here.keep rfl (.inl rfl))⟩

theorem cidOf_inj {a b bound : Nat} (few : bound < CidRemap.cidPeriod) (ha : a < bound)
    (hb : b < bound) (same : cidOf a = cidOf b) : a = b := by
  have next := CidRemap.cidAt_inj few (Nat.succ_le_of_lt ha) (Nat.succ_le_of_lt hb) same
  exact Nat.succ_injective next

theorem Routing.take {answer : Answer} {rest : List Answer} {cidU : Int32} {entry : Entry}
    (routing : Routing codecs map stage m) (queue : (m.upstreams k).readRx = answer :: rest)
    (found : m.remap.map.lookup cidU = some entry) (own : answer.tag = entry.downstreamTx.tag) :
    Routing codecs map (Function.update stage entry.downstreamTx.tag .inHand)
      { m.setUpstream k { m.upstreams k with
          readRx := rest, readLoop := .routing answer entry } with
        remap := { m.remap with map := m.remap.map.erase cidU } } := by
  obtain ⟨held, cid, fits⟩ := routing.table cidU entry found
  have answers := (routing.upstream k).readRx answer (by rw [queue]; exact List.mem_cons_self)
  have others (l : Nat) : UpstreamOk m.requests
      (Function.update stage entry.downstreamTx.tag .inHand) l (m.upstreams l) :=
    (routing.upstream l).update ((routing.upstream l).not_inHand (by simp [held]))
  refine ⟨routing.counter, ?_, ?_, ?_, ?_⟩
  · intro tag beyond
    have different : tag ≠ entry.downstreamTx.tag := by
      rintro rfl
      rw [routing.fresh _ beyond] at held
      cases held
    rw [Function.update_of_ne different]
    exact routing.fresh tag beyond
  · subst cid
    exact routing.table.take
  · intro j
    exact (routing.relay j).update ((routing.relay j).not_storing (by simp [held])) (by simp [held])
  · apply (Function.forall_update_iff m.upstreams fun l u => UpstreamOk _ _ l u).mpr
    refine ⟨?_, fun l _ => others l⟩
    refine { others k with readRx := ?_, routing := ?_ }
    · intro other member
      exact (others k).readRx other (by rw [queue]; exact List.mem_cons_of_mem _ member)
    · intro other taken phase
      cases phase
      exact ⟨Function.update_self .., own, fits, answers⟩

theorem Routing.route {answer : Answer} {entry : Entry} (routing : Routing codecs map stage m)
    (phase : (m.upstreams k).readLoop = .routing answer entry)
    (routed : List (Answer × Outcome)) :
    Routing codecs map (Function.update stage entry.downstreamTx.tag .queued)
      ((m.setUpstream k { m.upstreams k with readLoop := .receiving, routed }).setRelay
        entry.downstreamTx.client { m.relays entry.downstreamTx.client with
          respRx := (m.relays entry.downstreamTx.client).respRx ++
            [⟨routeResponse codecs map answer.data entry, entry.downstreamTx.tag, answer⟩] }) := by
  have here := routing.upstream k
  obtain ⟨inHand, own, ⟨req, stored, same⟩, _, asked, known, sentOver⟩ := here.routing answer entry phase
  have client : entry.downstreamTx.client = req.client := by
    rw [same]
    rfl
  have relay (j : Nat) : RelayOk codecs map m.requests
      (Function.update stage entry.downstreamTx.tag .queued) j (m.relays j) :=
    (routing.relay j).update ((routing.relay j).not_storing (by simp [inHand])) (by simp [inHand])
  refine ⟨routing.counter, ?_, routing.table.update (by simp [inHand]), ?_, ?_⟩
  · intro tag beyond
    have different : tag ≠ entry.downstreamTx.tag := by
      rintro rfl
      rw [routing.fresh _ beyond] at inHand
      cases inHand
    rw [Function.update_of_ne different]
    exact routing.fresh tag beyond
  · apply (Function.forall_update_iff m.relays fun j r => RelayOk codecs map _ _ j r).mpr
    refine ⟨?_, fun j _ => relay j⟩
    have target := relay entry.downstreamTx.client
    refine ⟨target.storing, target.issued, ?_, ?_⟩
    · intro resp member
      rw [PooledRelay.put, ← List.append_assoc] at member
      rcases List.mem_append.mp member with older | added
      · exact target.queued resp older
      · rw [List.mem_singleton.mp added]
        refine ⟨Function.update_self .., own, req, entry.connId, stored, client.symm, ?_⟩
        rw [← same]
    · rw [PooledRelay.put, ← List.append_assoc, List.map_append, List.nodup_append]
      refine ⟨target.nodup, List.nodup_singleton _, ?_⟩
      rintro tag member other added rfl
      rw [List.map_singleton, List.mem_singleton] at added
      obtain ⟨resp, older, rfl⟩ := List.mem_map.mp member
      have queued := ((routing.relay entry.downstreamTx.client).queued resp older).1
      rw [added, inHand] at queued
      cases queued
  · apply (Function.forall_update_iff m.upstreams fun l u => UpstreamOk _ _ l u).mpr
    constructor
    · exact { here with routing := by simp }
    · intro l other
      apply (routing.upstream l).update
      rintro second held there same
      obtain ⟨_, twin, _, _, again, there, overOther⟩ := (routing.upstream l).routing second held there
      rw [twin, same, ← own, known, Option.some.injEq] at there
      exact other (by rw [← overOther, ← there, sentOver])

def Matching (m : Multiplex) : Prop :=
  ∀ k answer rest cidU entry, (m.upstreams k).readRx = answer :: rest →
    parseResponseCid answer.data = some cidU → m.remap.map.lookup cidU = some entry →
    answer.tag = entry.downstreamTx.tag

theorem Routing.matching (routing : Routing codecs map stage m)
    (few : m.requests.length < CidRemap.cidPeriod) : m.Matching := by
  intro k answer rest cidU entry queue parsed found
  obtain ⟨_, cid, fits⟩ := routing.table cidU entry found
  obtain ⟨same, _, asked, _⟩ :=
    (routing.upstream k).readRx answer (by rw [queue]; exact List.mem_cons_self)
  obtain ⟨_, stored, _⟩ := fits
  rw [parsed, Option.some.injEq, cid] at same
  exact (cidOf_inj few (List.getElem?_eq_some_iff.mp stored).1
    (List.getElem?_eq_some_iff.mp asked).1 same).symm

theorem UpstreamMove.routing {action : UpstreamAction} (routing : Routing codecs map stage m)
    (matching : m.Matching)
    (move : UpstreamMove codecs map m k (m.upstreams k) action n) :
    ∃ after, Routing codecs map after n := by
  have here := routing.upstream k
  cases move with
  | @answer index data req asked echoes =>
      refine ⟨stage, routing.setUpstream { here with unanswered := ?_, incoming := ?_ }⟩
      · intro write member
        exact here.unanswered write (List.mem_of_mem_eraseIdx member)
      · intro answer member
        rcases List.mem_append.mp member with older | added
        · exact here.incoming answer older
        · rw [List.mem_singleton.mp added]
          obtain ⟨cid, known⟩ := here.unanswered req (List.mem_of_getElem? asked)
          exact ⟨by rw [echoes, cid], known⟩
  | @write req rest phase queue =>
      refine ⟨stage, routing.setUpstream { here with queued := ?_, unanswered := ?_ }⟩
      · intro write member
        exact here.queued write (by rw [queue]; exact List.mem_cons_of_mem _ member)
      · intro write member
        rcases List.mem_append.mp member with older | added
        · exact here.unanswered write older
        · rw [List.mem_singleton.mp added]
          exact here.queued req (by rw [queue]; exact List.mem_cons_self)
  | @writeFailed req rest phase queue =>
      refine ⟨stage, routing.setUpstream { here with queued := ?_, forwarding := by simp }⟩
      intro write member
      exact here.queued write (by rw [queue]; exact List.mem_cons_of_mem _ member)
  | fail phase => exact ⟨stage, routing.setUpstream { here with forwarding := by simp }⟩
  | closed phase empty => exact ⟨stage, routing.setUpstream { here with forwarding := by simp }⟩
  | @read answer rest phase queue =>
      refine ⟨stage, routing.setUpstream { here with incoming := ?_, forwarding := ?_ }⟩
      · intro other member
        exact here.incoming other (by rw [queue]; exact List.mem_cons_of_mem _ member)
      · intro other same
        cases same
        exact here.incoming answer (by rw [queue]; exact List.mem_cons_self)
  | @forward answer phase room =>
      refine ⟨stage, routing.setUpstream { here with forwarding := by simp, readRx := ?_ }⟩
      intro other member
      rcases List.mem_append.mp member with older | added
      · exact here.readRx other older
      · rw [List.mem_singleton.mp added]
        exact here.forwarding answer phase
  | cleanup phase =>
      have further : UpstreamOk m.requests stage k { m.upstreams k with writeLoop := .cleaned } :=
        { here with forwarding := by simp }
      have next := routing.setUpstream further
      exact ⟨stage, { next with table := routing.table.retain _ }⟩
  | finish phase =>
      have further : UpstreamOk m.requests stage k { m.upstreams k with writeLoop := .ended } :=
        { here with forwarding := by simp }
      have next := routing.setUpstream further
      exact ⟨stage, { next with }⟩
  | take phase queue parsed found =>
      have next := routing.take queue found (matching k _ _ _ _ queue parsed found)
      exact ⟨_, { next with }⟩
  | @unmatched answer rest phase queue missing =>
      refine ⟨stage, routing.setUpstream { here with readRx := ?_ }⟩
      intro other member
      exact here.readRx other (by rw [queue]; exact List.mem_cons_of_mem _ member)
  | @route answer entry phase listens room =>
      have next := routing.route phase
        ((m.upstreams k).routed ++ [(answer, .queued entry.downstreamTx)])
      exact ⟨_, { next with }⟩
  | @discard answer entry phase unable =>
      have further : UpstreamOk m.requests stage k { m.upstreams k with
          readLoop := .receiving
          routed := (m.upstreams k).routed ++ [(answer, .refused entry.downstreamTx
            (m.relays entry.downstreamTx.client).respRx.length
            (m.relays entry.downstreamTx.client).listens)] } :=
        { here with routing := by simp }
      have next := routing.setUpstream further
      exact ⟨stage, { next with }⟩

theorem Routing.create (routing : Routing codecs map stage m) : Routing codecs map stage m.create := by
  have new : UpstreamOk m.requests stage m.opened (.new m.remap.nextConnId .running) :=
    ⟨by simp [Upstream.new], by simp [Upstream.new], by simp [Upstream.new], by simp [Upstream.new],
      by simp [Upstream.new], by simp [Upstream.new]⟩
  have next := routing.setUpstream new
  exact { next with }

theorem RelayMove.requests_grow {r : PooledRelay} {action : RelayAction}
    (move : RelayMove idle m i r action n) : m.requests <+: n.requests := by
  cases move with
  | alloc phase leased => exact List.prefix_append _ _
  | _ => exact List.prefix_rfl

theorem UpstreamMove.requests_eq {u : Upstream} {action : UpstreamAction}
    (move : UpstreamMove codecs map m k u action n) : n.requests = m.requests := by
  cases move <;> rfl

theorem Change.requests_grow {action : MultiplexAction}
    (change : Change idle codecs map m action n) : m.requests <+: n.requests := by
  cases change with
  | relay move => exact move.requests_grow
  | upstream move => exact move.requests_eq ▸ List.prefix_rfl
  | _ => exact List.prefix_rfl

theorem Routing.new {maxInFlight : Nat} {metrics : Metrics} :
    Routing codecs map (fun _ => .fresh) (Multiplex.new maxInFlight metrics) := by
  have relay (i : Nat) : (Multiplex.new maxInFlight metrics).relays i = .new := rfl
  have upstream (k : Nat) : (Multiplex.new maxInFlight metrics).upstreams k = .new 0 .absent := rfl
  refine ⟨rfl, fun _ _ => rfl, ?_, ?_, ?_⟩
  · simp [TableOk, Multiplex.new, CidRemap.withMaxInFlight]
  · intro i
    rw [relay]
    exact ⟨by simp [PooledRelay.new], by simp [PooledRelay.new, DownToUp.registered],
      by simp [PooledRelay.new, PooledRelay.put], by simp [PooledRelay.new, PooledRelay.put]⟩
  · intro k
    rw [upstream]
    exact ⟨by simp [Upstream.new], by simp [Upstream.new], by simp [Upstream.new],
      by simp [Upstream.new], by simp [Upstream.new], by simp [Upstream.new]⟩

variable {maxInFlight : Nat} {metrics : Metrics}
  {allowed : Multiplex → MultiplexAction → Prop}

theorem routing_of_reach
    (reach : (system maxInFlight metrics idle codecs map).Reach allowed m)
    (few : m.requests.length < CidRemap.cidPeriod) : ∃ stage, Routing codecs map stage m := by
  induction reach with
  | initial first =>
      rw [first]
      exact ⟨_, .new⟩
  | @next before after action reached _ taken ih =>
      have change := Change.of_step taken
      have fewer := change.requests_grow.length_le.trans_lt few
      obtain ⟨stage, routing⟩ := ih fewer
      cases change with
      | tick elapsed => exact ⟨stage, { routing with }⟩
      | create => exact ⟨stage, routing.create⟩
      | relay move => exact move.routing routing (requests_of_reach reached)
      | upstream move => exact move.routing routing (routing.matching fewer)

/-! ## Routing safety -/

/-- The response answers the request `req` of client `i`: it is what the broker sent for it, with the
client's correlation id in front, and rewritten as the request's key and version ask. -/
structure Answered (codecs : Codecs) (map : RewriteMap) (m : Multiplex) (i : Nat)
    (resp : DownstreamResp) (req : Request) : Prop where
  request : m.requests[resp.tag]? = some req
  client : req.client = i
  sent : (m.relays i).Sent req.job
  answer : resp.answer.tag = resp.tag
  correlationId : getI32 resp.frame = req.job.header.correlationId
  rewritten : ∃ connId, resp.frame =
    routeResponse codecs map resp.answer.data (req.entry resp.tag connId)

def Distinct (m : Multiplex) : Prop :=
  ∀ (t u : Nat) (a b : Request), m.requests[t]? = some a → m.requests[u]? = some b →
    a.client = b.client → a.job.seq = b.job.seq → t = u

theorem Requests.distinct (requests : m.Requests) : m.Distinct := by
  intro t u a b first second client seq
  obtain ⟨ht, rfl⟩ := List.getElem?_eq_some_iff.mp first
  obtain ⟨hu, rfl⟩ := List.getElem?_eq_some_iff.mp second
  have sorted := List.pairwise_iff_getElem.mp requests.sorted
  rcases Nat.lt_trichotomy t u with before | same | after
  · have increasing := sorted t u ht hu before client
    omega
  · exact same
  · have increasing := sorted u t hu ht after client.symm
    omega

/-- While fewer requests are registered than there are correlation ids, every response in a queue
answers a request of that very client, and no request is answered twice. -/
theorem responses_routed (reachable : (system maxInFlight metrics idle codecs map).Reachable m)
    (few : m.requests.length < CidRemap.cidPeriod) :
    (∀ i, ∀ resp ∈ (m.relays i).put, ∃ req, Answered codecs map m i resp req) ∧
      (∀ i, ((m.relays i).put.map (·.tag)).Nodup) ∧ m.Distinct := by
  obtain ⟨stage, routing⟩ := routing_of_reach reachable few
  have requests := requests_of_reach reachable
  refine ⟨?_, fun i => (routing.relay i).nodup, requests.distinct⟩
  intro i resp member
  obtain ⟨_, own, req, connId, found, client, frame⟩ := (routing.relay i).queued resp member
  refine ⟨req, found, client, ?_, own, ?_, connId, frame⟩
  · rw [← client]
    exact requests.sent req (List.mem_of_getElem? found)
  · rw [frame, routeResponse]
    exact getI32_putI32_append ..

theorem responses_routed_two : ∃ m : Multiplex,
    (m.relays 0).put.map (·.frame) = [[0, 0, 0, 7, 98]] ∧
      (m.relays 1).put.map (·.frame) = [[0, 0, 0, 7, 99]] ∧
      (∀ i, ∀ resp ∈ (m.relays i).put, ∃ req, Answered .unknown ⟨∅⟩ m i resp req) ∧
      (∀ i, ((m.relays i).put.map (·.tag)).Nodup) ∧ m.Distinct := by
  obtain ⟨m, reachable, first, second, requests⟩ :=
    (system 2 (.new true) none .unknown ⟨∅⟩).exists_reach (fun _ _ => True) (.new 2 (.new true))
      ([.create] ++ asksOnce 0 ++ [.relay 0 .hangUp, .relay 0 .leave] ++ asksOnce 1 ++
        [.upstream 0 .write, .upstream 0 .write, .upstream 0 (.answer 1 [0, 0, 0, 3, 99]),
          .upstream 0 (.answer 0 [0, 0, 0, 2, 98]), .upstream 0 .read, .upstream 0 .forward,
          .upstream 0 .take, .upstream 0 .route, .upstream 0 .read, .upstream 0 .forward, .upstream 0 .take,
          .upstream 0 .route])
      (fun m => (m.relays 0).put.map (·.frame) = [[0, 0, 0, 7, 98]] ∧
        (m.relays 1).put.map (·.frame) = [[0, 0, 0, 7, 99]] ∧ m.requests.length = 2) rfl (by decide +kernel)
  exact ⟨m, first, second, responses_routed reachable (by rw [requests]; decide)⟩

end Multiplex
end KafkaProxy.Pooled
