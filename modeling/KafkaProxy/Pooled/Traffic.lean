import KafkaProxy.Library.Watch
import KafkaProxy.Pooled.Order

/-!
# The requests that reach a broker

The record of a run has what the relays have sent on each connection and what its write loop has
written to the broker. No bound on the number of requests is needed here: the correlation id that a
request is written with says nothing of where it goes.
-/

namespace KafkaProxy.Pooled
open Library

structure Traffic where
  pushed : Nat → List WriteReq
  wrote : Nat → List WriteReq

def DownToUp.isLast : DownToUp → Bool
  | .cancel _ | .leaving | .returned => true
  | .absent | .waiting _ | .checking _ | .borrow _ | .acquiring _ | .register _ | .alloc _ | .store ..
  | .count .. | .send .. => false

namespace Multiplex

def pushing (m : Multiplex) (i : Nat) : Option (Nat × WriteReq) :=
  match (m.relays i).downToUp, (m.relays i).lease with
  | .send job cidU tag, some conn => some (conn.writeTx, ⟨replaceCid job.data cidU, cidU, tag⟩)
  | _, _ => none

def appendAt {τ : Type} (lists : Nat → List τ) (k : Nat) (value : τ) : Nat → List τ :=
  Function.update lists k (lists k ++ [value])

def noteTraffic (m : Multiplex) (action : MultiplexAction) (traffic : Traffic) : Traffic :=
  match action with
  | .relay i .push =>
      match m.pushing i with
      | some (k, write) => { traffic with pushed := appendAt traffic.pushed k write }
      | none => traffic
  | .upstream k .write =>
      match (m.upstreams k).writeRx with
      | write :: _ => { traffic with wrote := appendAt traffic.wrote k write }
      | [] => traffic
  | _ => traffic

def carrying (maxInFlight : Nat) (metrics : Metrics) (idle : Option Nat) (codecs : Codecs)
    (map : RewriteMap) : System (Multiplex × Traffic) MultiplexAction :=
  (system maxInFlight metrics idle codecs map).watch ⟨fun _ => [], fun _ => []⟩ noteTraffic

variable {idle : Option Nat} {codecs : Codecs} {map : RewriteMap} {m n : Multiplex} {i k : Nat}
  {traffic : Traffic}

/-! ## What a relay has in hand -/

structure Holding (m : Multiplex) : Prop where
  counter : m.remap.nextCid = CidRemap.cidAt m.requests.length
  issued : ∀ i job cidU tag, (m.relays i).downToUp.registered = some (job, cidU, tag) →
    Issued m.requests i (m.relays i) job cidU tag
  newest : ∀ i job cidU tag, (m.relays i).downToUp.registered = some (job, cidU, tag) → m.Newest i tag

structure Idles (m n : Multiplex) : Prop where
  counter : n.remap.nextCid = m.remap.nextCid
  requests : n.requests = m.requests
  registered : ∀ i held, (n.relays i).downToUp.registered = some held →
    (m.relays i).downToUp.registered = some held ∧ (n.relays i).lease = (m.relays i).lease

theorem Holding.idles (holding : m.Holding) (idles : Idles m n) : n.Holding := by
  refine ⟨?_, fun i job cidU tag held => ?_, fun i job cidU tag held => ?_⟩
  · rw [idles.counter, idles.requests]
    exact holding.counter
  · obtain ⟨before, lease⟩ := idles.registered i _ held
    rw [Issued, lease, idles.requests]
    exact holding.issued i job cidU tag before
  · obtain ⟨before, _⟩ := idles.registered i _ held
    rw [Newest, idles.requests]
    exact holding.newest i job cidU tag before

theorem Idles.of_relay {r : PooledRelay} (counter : n.remap.nextCid = m.remap.nextCid)
    (requests : n.requests = m.requests) (relays : n.relays = Function.update m.relays i r)
    (own : ∀ held, r.downToUp.registered = some held →
      (m.relays i).downToUp.registered = some held ∧ r.lease = (m.relays i).lease) : Idles m n := by
  refine ⟨counter, requests, fun j held same => ?_⟩
  rw [relays] at same ⊢
  by_cases here : j = i
  · subst here
    rw [Function.update_self] at same ⊢
    exact own held same
  · rw [Function.update_of_ne here] at same ⊢
    exact ⟨same, rfl⟩

theorem RelayMove.idles {action : RelayAction} (move : RelayMove idle m i (m.relays i) action n)
    (old : action ≠ .alloc) : Idles m n := by
  cases move with
  | alloc phase leased => exact absurd rfl old
  | request data => exact .of_relay rfl rfl rfl fun held same => ⟨same, rfl⟩
  | deliver listens queue => exact .of_relay rfl rfl rfl fun held same => ⟨same, rfl⟩
  | deliverFailed listens => exact .of_relay rfl rfl rfl fun held same => ⟨same, rfl⟩
  | respClosed listens empty done last => exact .of_relay rfl rfl rfl fun held same => ⟨same, rfl⟩
  | store phase leased => exact .of_relay rfl rfl rfl fun held same => ⟨by rw [phase]; exact same, rfl⟩
  | count phase => exact .of_relay rfl rfl rfl fun held same => ⟨by rw [phase]; exact same, rfl⟩
  | _ => exact .of_relay rfl rfl rfl fun held same => by cases same

theorem UpstreamMove.idles {action : UpstreamAction}
    (move : UpstreamMove codecs map m k (m.upstreams k) action n) : Idles m n := by
  refine ⟨?_, ?_, fun i held same => ?_⟩
  · cases move <;> rfl
  · cases move <;> rfl
  · obtain ⟨respRx, unchanged⟩ := move.relays_eq i
    rw [unchanged] at same ⊢
    exact ⟨same, rfl⟩

theorem Holding.alloc {job : Job} {conn : Acquired} (holding : m.Holding)
    (leased : (m.relays i).lease = some conn) :
    Holding { m.setRelay i { m.relays i with
        downToUp := .store job (CidRemap.cidAfter m.remap.nextCid) m.requests.length } with
      remap := { m.remap with nextCid := CidRemap.cidAfter m.remap.nextCid }
      requests := m.requests ++ [⟨i, job, conn.writeTx⟩] } := by
  have own : (Function.update m.relays i { m.relays i with
      downToUp := .store job (CidRemap.cidAfter m.remap.nextCid) m.requests.length }) i =
    { m.relays i with downToUp := .store job (CidRemap.cidAfter m.remap.nextCid) m.requests.length } :=
    Function.update_self ..
  refine ⟨?_, fun j other cidU tag held => ?_, fun j other cidU tag held => ?_⟩
  · simp only [holding.counter, CidRemap.cidAfter_cidAt, List.length_append, List.length_singleton]
  · by_cases here : j = i
    · subst here
      simp only [setRelay_relays, own] at held ⊢
      cases held
      refine ⟨?_, conn, leased, by simp⟩
      rw [holding.counter, CidRemap.cidAfter_cidAt]
      rfl
    · simp only [setRelay_relays, Function.update_of_ne here] at held ⊢
      obtain ⟨cid, lent, same, found⟩ := holding.issued j other cidU tag held
      exact ⟨cid, lent, same, getElem?_of_isPrefix (List.prefix_append _ _) found⟩
  · intro t req found client
    by_cases here : j = i
    · subst here
      simp only [setRelay_relays, own] at held
      cases held
      have bound := (List.getElem?_eq_some_iff.mp found).1
      simp only [List.length_append, List.length_singleton] at bound
      omega
    · simp only [setRelay_relays, Function.update_of_ne here] at held
      rcases Nat.lt_or_ge t m.requests.length with old | new
      · rw [List.getElem?_append_left old] at found
        exact holding.newest j other cidU tag held t req found client
      · rw [List.getElem?_append_right new] at found
        have last := List.mem_of_getElem? found
        rw [List.mem_singleton.mp last] at client
        exact absurd client.symm here

theorem Change.holding {action : MultiplexAction} (holding : m.Holding)
    (change : Change idle codecs map m action n) : n.Holding := by
  cases change with
  | tick elapsed => exact ⟨holding.counter, holding.issued, holding.newest⟩
  | create => exact ⟨holding.counter, holding.issued, holding.newest⟩
  | upstream move => exact holding.idles move.idles
  | @relay i action n move =>
      by_cases registers : action = .alloc
      · subst registers
        cases move with
        | alloc phase leased => exact holding.alloc leased
      · exact holding.idles (move.idles registers)

/-! ## What is on a connection -/

/-- The frame is the client's own, but for the correlation id. -/
structure Carries (m : Multiplex) (k : Nat) (write : WriteReq) : Prop where
  cid : write.cidU = cidOf write.tag
  request : ∃ req, m.requests[write.tag]? = some req ∧ req.writeTx = k ∧
    write.frame = replaceCid req.job.data write.cidU

def Before (m : Multiplex) (a b : WriteReq) : Prop :=
  a.tag ≠ b.tag ∧ (m.SameClient a.tag b.tag → a.tag < b.tag)

structure Pushed (m : Multiplex) (pushed : Nat → List WriteReq) : Prop where
  carries : ∀ k, ∀ write ∈ pushed k, m.Carries k write
  ordered : ∀ k, (pushed k).Pairwise m.Before
  unsent : ∀ i job cidU tag, (m.relays i).downToUp.registered = some (job, cidU, tag) →
    ∀ k, ∀ write ∈ pushed k, write.tag ≠ tag

theorem Carries.mono {write : WriteReq} (more : m.requests <+: n.requests) (carries : m.Carries k write) :
    n.Carries k write := by
  obtain ⟨cid, req, found, here, frame⟩ := carries
  exact ⟨cid, req, getElem?_of_isPrefix more found, here, frame⟩

theorem Before.mono {a b : WriteReq} (more : m.requests <+: n.requests) (before : m.Before a b)
    (first : m.Carries k a) (second : m.Carries k b) : n.Before a b := by
  refine ⟨before.1, fun ⟨r, s, left, right, client⟩ => before.2 ?_⟩
  obtain ⟨_, req, found, _⟩ := first
  obtain ⟨_, req', found', _⟩ := second
  refine ⟨req, req', found, found', ?_⟩
  cases (getElem?_of_isPrefix more found).symm.trans left
  cases (getElem?_of_isPrefix more found').symm.trans right
  exact client

theorem Pushed.mono {pushed : Nat → List WriteReq} (holds : m.Pushed pushed)
    (more : m.requests <+: n.requests)
    (unsent : ∀ i job cidU tag, (n.relays i).downToUp.registered = some (job, cidU, tag) →
      ∀ k, ∀ write ∈ pushed k, write.tag ≠ tag) : n.Pushed pushed := by
  refine ⟨fun k write member => (holds.carries k write member).mono more, fun k => ?_, unsent⟩
  apply (holds.ordered k).imp_of_mem
  intro a b first second before
  exact before.mono more (holds.carries k a first) (holds.carries k b second)

theorem Pushed.idles {pushed : Nat → List WriteReq} (holds : m.Pushed pushed) (idles : Idles m n) :
    n.Pushed pushed := by
  apply holds.mono (idles.requests ▸ List.prefix_rfl)
  intro i job cidU tag held
  exact holds.unsent i job cidU tag (idles.registered i _ held).1

theorem Pushed.alloc {job : Job} {conn : Acquired} {cidU : Int32} {remap : CidRemap ResponseTx}
    {pushed : Nat → List WriteReq} (holds : m.Pushed pushed) :
    Pushed { m.setRelay i { m.relays i with downToUp := .store job cidU m.requests.length } with
      remap, requests := m.requests ++ [⟨i, job, conn.writeTx⟩] } pushed := by
  apply holds.mono (List.prefix_append _ _)
  intro j other cid tag held k write member
  by_cases here : j = i
  · subst here
    simp only [setRelay_relays, Function.update_self] at held
    cases held
    obtain ⟨_, req, found, _⟩ := holds.carries k write member
    exact Nat.ne_of_lt (List.getElem?_eq_some_iff.mp found).1
  · simp only [setRelay_relays, Function.update_of_ne here] at held
    exact holds.unsent j other cid tag held k write member

@[simp] theorem appendAt_self {τ : Type} (lists : Nat → List τ) (k : Nat) (value : τ) :
    appendAt lists k value k = lists k ++ [value] :=
  Function.update_self ..

theorem appendAt_of_ne {τ : Type} {l : Nat} (lists : Nat → List τ) (other : l ≠ k) (value : τ) :
    appendAt lists k value l = lists l :=
  Function.update_of_ne other ..

theorem mem_appendAt {τ : Type} {lists : Nat → List τ} {l : Nat} {value other : τ}
    (member : other ∈ appendAt lists k value l) : other ∈ lists l ∨ l = k ∧ other = value := by
  by_cases here : l = k
  · subst here
    rw [appendAt_self] at member
    exact (List.mem_append.mp member).imp_right fun last => ⟨rfl, List.mem_singleton.mp last⟩
  · rw [appendAt_of_ne _ here] at member
    exact .inl member

theorem Pushed.push {job : Job} {cidU : Int32} {tag : Nat} {conn : Acquired}
    {pushed : Nat → List WriteReq} (holds : m.Pushed pushed) (holding : m.Holding)
    (phase : (m.relays i).downToUp = .send job cidU tag) (leased : (m.relays i).lease = some conn)
    (requests : n.requests = m.requests)
    (relays : n.relays = Function.update m.relays i { m.relays i with downToUp := .waiting m.now }) :
    n.Pushed (appendAt pushed conn.writeTx ⟨replaceCid job.data cidU, cidU, tag⟩) := by
  have held : (m.relays i).downToUp.registered = some (job, cidU, tag) := by rw [phase]; rfl
  obtain ⟨cid, lent, same, found⟩ := holding.issued i job cidU tag held
  cases leased.symm.trans same
  have grown : m.requests <+: n.requests := requests ▸ List.prefix_rfl
  have carries (l : Nat) (write : WriteReq)
      (member : write ∈ appendAt pushed conn.writeTx ⟨replaceCid job.data cidU, cidU, tag⟩ l) :
      m.Carries l write := by
    rcases mem_appendAt member with old | ⟨rfl, rfl⟩
    · exact holds.carries l write old
    · exact ⟨cid, _, found, rfl, rfl⟩
  refine ⟨fun l write member => (carries l write member).mono grown, fun l => ?_, ?_⟩
  · have ordered : (appendAt pushed conn.writeTx ⟨replaceCid job.data cidU, cidU, tag⟩ l).Pairwise m.Before := by
      by_cases here : l = conn.writeTx
      · subst here
        rw [appendAt_self, List.pairwise_append]
        refine ⟨holds.ordered _, List.pairwise_singleton _ _, fun first member last same => ?_⟩
        rw [List.mem_singleton.mp same]
        have other := holds.unsent i job cidU tag held _ first member
        refine ⟨other, fun ⟨r, s, left, right, client⟩ => ?_⟩
        cases found.symm.trans right
        exact Nat.lt_of_le_of_ne (holding.newest i job cidU tag held first.tag r left client) other
      · rw [appendAt_of_ne _ here]
        exact holds.ordered l
    exact ordered.imp_of_mem fun first second before =>
      before.mono grown (carries _ _ first) (carries _ _ second)
  · intro j other cidV tagV there l write member
    rw [relays] at there
    by_cases here : j = i
    · subst here
      rw [Function.update_self] at there
      cases there
    · rw [Function.update_of_ne here] at there
      rcases mem_appendAt member with old | ⟨rfl, rfl⟩
      · exact holds.unsent j other cidV tagV there l write old
      · rintro rfl
        obtain ⟨_, _, _, known⟩ := holding.issued j other cidV tag there
        exact here (congrArg Request.client (Option.some.inj (known.symm.trans found)))

/-! ## What a write loop has written -/

structure Wrote (m : Multiplex) (pushed wrote : Nat → List WriteReq) : Prop where
  before : ∀ k, wrote k <+: pushed k
  whole : ∀ k, (m.upstreams k).writeLoop.isOpen = true → pushed k = wrote k ++ (m.upstreams k).writeRx
  unopened : ∀ k, m.opened ≤ k → pushed k = []

section Wrote
variable {pushed wrote : Nat → List WriteReq}

theorem Wrote.keep (holds : m.Wrote pushed wrote) (opened : m.opened ≤ n.opened)
    (same : ∀ k, (n.upstreams k).writeLoop.isOpen = true →
      (m.upstreams k).writeLoop.isOpen = true ∧ (n.upstreams k).writeRx = (m.upstreams k).writeRx) :
    n.Wrote pushed wrote := by
  refine ⟨holds.before, fun k isOpen => ?_, fun k beyond => holds.unopened k (opened.trans beyond)⟩
  obtain ⟨before, writeRx⟩ := same k isOpen
  rw [writeRx]
  exact holds.whole k before

theorem Wrote.push {write : WriteReq} {u : Upstream} (holds : m.Wrote pushed wrote) (known : k < m.opened)
    (opened : n.opened = m.opened) (upstreams : n.upstreams = Function.update m.upstreams k u)
    (queue : u.writeRx = (m.upstreams k).writeRx ++ [write])
    (same : u.writeLoop = (m.upstreams k).writeLoop) : n.Wrote (appendAt pushed k write) wrote := by
  refine ⟨fun l => ?_, fun l isOpen => ?_, fun l beyond => ?_⟩
  · by_cases here : l = k
    · subst here
      rw [appendAt_self]
      exact (holds.before l).trans (List.prefix_append _ _)
    · rw [appendAt_of_ne _ here]
      exact holds.before l
  · rw [upstreams] at isOpen ⊢
    by_cases here : l = k
    · subst here
      rw [Function.update_self] at isOpen ⊢
      rw [appendAt_self, holds.whole l (same ▸ isOpen), queue, List.append_assoc]
    · rw [Function.update_of_ne here] at isOpen ⊢
      rw [appendAt_of_ne _ here]
      exact holds.whole l isOpen
  · have other : l ≠ k := by omega
    rw [appendAt_of_ne _ other]
    exact holds.unopened l (opened ▸ beyond)

theorem Wrote.write {write : WriteReq} {rest : List WriteReq} {u : Upstream}
    (holds : m.Wrote pushed wrote) (phase : (m.upstreams k).writeLoop = .running)
    (queue : (m.upstreams k).writeRx = write :: rest) (opened : n.opened = m.opened)
    (upstreams : n.upstreams = Function.update m.upstreams k u) (left : u.writeRx = rest) :
    n.Wrote pushed (appendAt wrote k write) := by
  have whole : pushed k = (wrote k ++ [write]) ++ rest := by
    rw [holds.whole k (by rw [phase]; rfl), queue, List.append_assoc]
    rfl
  refine ⟨fun l => ?_, fun l isOpen => ?_, fun l beyond => holds.unopened l (opened ▸ beyond)⟩
  · by_cases here : l = k
    · subst here
      rw [appendAt_self, whole]
      exact List.prefix_append _ _
    · rw [appendAt_of_ne _ here]
      exact holds.before l
  · rw [upstreams] at isOpen ⊢
    by_cases here : l = k
    · subst here
      rw [Function.update_self, appendAt_self, left, whole]
    · rw [Function.update_of_ne here] at isOpen ⊢
      rw [appendAt_of_ne _ here]
      exact holds.whole l isOpen

theorem UpstreamMove.keeps_wrote {action : UpstreamAction} (holds : m.Wrote pushed wrote)
    (other : action ≠ .write) (move : UpstreamMove codecs map m k (m.upstreams k) action n) :
    n.Wrote pushed wrote := by
  apply holds.keep (Nat.le_of_eq move.opened_eq.symm)
  intro l isOpen
  by_cases here : l = k
  · subst here
    cases move with
    | write phase queue => exact absurd rfl other
    | writeFailed phase queue | fail phase | closed phase empty | cleanup phase | finish phase =>
        simp [WriteLoop.isOpen] at isOpen
    | read phase queue | forward phase room => simp [phase, WriteLoop.isOpen]
    | _ => simpa using isOpen
  · rw [move.upstreams_other here] at isOpen ⊢
    exact ⟨isOpen, rfl⟩

theorem Wrote.create (holds : m.Wrote pushed wrote) : m.create.Wrote pushed wrote := by
  refine ⟨holds.before, fun k isOpen => ?_, fun k beyond => holds.unopened k (Nat.le_of_succ_le beyond)⟩
  by_cases here : k = m.opened
  · subst here
    have none := holds.unopened m.opened le_rfl
    have empty := holds.before m.opened
    rw [none] at empty
    rw [none, List.prefix_nil.mp empty]
    simp [Multiplex.create, CidRemap.allocConnId, Upstream.new]
  · simp only [Multiplex.create, setUpstream_upstreams, Function.update_of_ne here] at isOpen ⊢
    exact holds.whole k isOpen

end Wrote

/-! ## What a relay has read -/

def Passed (m : Multiplex) (pushed : Nat → List WriteReq) (i seq : Nat) : Prop :=
  ∃ k, ∃ write ∈ pushed k, ∃ req, m.requests[write.tag]? = some req ∧ req.client = i ∧ req.job.seq = seq

structure Handed (pushed : Nat → List WriteReq) (m : Multiplex) (i : Nat) (r : PooledRelay) : Prop where
  bounded : r.read ≤ r.sent.length
  handed : ∀ seq data, r.sent[seq]? = some data → (parseRequestHeader data).isSome = true → seq < r.read →
    m.Passed pushed i seq ∨ (∃ job, r.downToUp.job = some job ∧ job.seq = seq) ∨ r.downToUp.isLast = true

section Handed
variable {pushed later : Nat → List WriteReq} {r s : PooledRelay}

theorem Passed.mono {seq : Nat} (passed : m.Passed pushed i seq) (more : m.requests <+: n.requests)
    (kept : ∀ k, pushed k ⊆ later k) : n.Passed later i seq := by
  obtain ⟨k, write, member, req, found, same⟩ := passed
  exact ⟨k, write, kept k member, req, getElem?_of_isPrefix more found, same⟩

theorem Handed.keep (handed : Handed pushed m i r) (more : m.requests <+: n.requests)
    (kept : ∀ k, pushed k ⊆ later k) (sent : s.sent = r.sent) (read : s.read = r.read)
    (job : s.downToUp.isLast = true ∨
      s.downToUp.job = r.downToUp.job ∧ (r.downToUp.isLast = true → s.downToUp.isLast = true)) :
    Handed later n i s := by
  refine ⟨by rw [sent, read]; exact handed.bounded, fun seq data found parsed early => ?_⟩
  rw [sent] at found
  rw [read] at early
  rcases job with last | ⟨same, ends⟩
  · exact .inr (.inr last)
  · rcases handed.handed seq data found parsed early with passed | ⟨job, held⟩ | last
    · exact .inl (passed.mono more kept)
    · rw [same]
      exact .inr (.inl ⟨job, held⟩)
    · exact .inr (.inr (ends last))

theorem RelayMove.handed {action : RelayAction} (handed : Handed pushed m i (m.relays i))
    (old : action ≠ .push) (move : RelayMove idle m i (m.relays i) action n)
    (more : m.requests <+: n.requests) : Handed pushed n i (n.relays i) := by
  have all (k : Nat) : pushed k ⊆ pushed k := List.Subset.refl _
  cases move with
  | push phase leased listens room => exact absurd rfl old
  | request data =>
      simp only [setRelay_relays, Function.update_self]
      refine ⟨handed.bounded.trans (by simp), fun seq other found parsed early => ?_⟩
      rw [List.getElem?_append_left (early.trans_le handed.bounded)] at found
      exact handed.handed seq other found parsed early
  | @next since data header phase head parsed =>
      simp only [setRelay_relays, Function.update_self]
      have bound := (List.getElem?_eq_some_iff.mp head).1
      refine ⟨bound, fun seq other found parses early => ?_⟩
      rcases Nat.lt_succ_iff_lt_or_eq.mp early with before | rfl
      · rcases handed.handed seq other found parses before with passed | ⟨job, held, _⟩ | last
        · exact .inl passed
        · rw [phase] at held
          cases held
        · rw [phase] at last
          cases last
      · exact .inr (.inl ⟨_, rfl, rfl⟩)
  | @skip since data phase head short =>
      simp only [setRelay_relays, Function.update_self]
      have bound := (List.getElem?_eq_some_iff.mp head).1
      refine ⟨bound, fun seq other found parses early => ?_⟩
      rcases Nat.lt_succ_iff_lt_or_eq.mp early with before | rfl
      · rcases handed.handed seq other found parses before with passed | ⟨job, held, _⟩ | last
        · exact .inl passed
        · rw [phase] at held
          cases held
        · rw [phase] at last
          cases last
      · cases found.symm.trans head
        rw [short] at parses
        cases parses
  | deliver | deliverFailed | respClosed =>
      simp only [setRelay_relays, Function.update_self]
      exact handed.keep more all rfl rfl (.inr ⟨rfl, id⟩)
  | connect phase | keep phase | giveBack phase | borrow phase | acquired phase | check phase
  | alloc phase | store phase | count phase =>
      simp only [setRelay_relays, Function.update_self]
      refine handed.keep more all rfl rfl (.inr ⟨by rw [phase]; rfl, fun last => ?_⟩)
      rw [phase] at last
      cases last
  | refuse | acquireFailed | pushFailed | cancel | hangUp | idle | leave =>
      simp only [setRelay_relays, Function.update_self]
      exact handed.keep more all rfl rfl (.inl rfl)

end Handed

/-! ## Runs -/

structure Carried (m : Multiplex) (traffic : Traffic) : Prop where
  holding : m.Holding
  opened : m.Opened
  pushed : m.Pushed traffic.pushed
  wrote : m.Wrote traffic.pushed traffic.wrote
  handed : ∀ i, Handed traffic.pushed m i (m.relays i)

theorem subset_appendAt {τ : Type} (lists : Nat → List τ) (k : Nat) (value : τ) (l : Nat) :
    lists l ⊆ appendAt lists k value l := by
  by_cases here : l = k
  · subst here
    rw [appendAt_self]
    exact List.subset_append_left _ _
  · rw [appendAt_of_ne _ here]
    exact List.Subset.refl _

theorem Carried.push (carried : m.Carried traffic) (move : RelayMove idle m i (m.relays i) .push n)
    (change : Change idle codecs map m (.relay i .push) n) :
    n.Carried (m.noteTraffic (.relay i .push) traffic) := by
  obtain ⟨holding, opened, pushed, wrote, handed⟩ := carried
  have holds := change.holding holding
  have opens := opened.step change
  have others (j : Nat) (other : j ≠ i) : n.relays j = m.relays j := move.relays_other other
  cases move with
  | @push job cidU tag conn phase leased listens room =>
      have pushing : m.pushing i = some (conn.writeTx, ⟨replaceCid job.data cidU, cidU, tag⟩) := by
        simp only [Multiplex.pushing, phase, leased]
      have kept (l : Nat) : traffic.pushed l ⊆ appendAt traffic.pushed conn.writeTx
          ⟨replaceCid job.data cidU, cidU, tag⟩ l := subset_appendAt _ _ _ _
      simp only [noteTraffic, pushing]
      refine ⟨holds, opens, pushed.push holding phase leased rfl rfl,
        wrote.push (opened.leases i conn leased) rfl rfl rfl rfl, fun j => ?_⟩
      by_cases here : j = i
      · subst here
        simp only [setRelay_relays, Function.update_self]
        refine ⟨(handed j).bounded, fun seq data found parsed early => .inl ?_⟩
        rcases (handed j).handed seq data found parsed early with passed | ⟨own, held, rfl⟩ | last
        · exact passed.mono List.prefix_rfl kept
        · rw [phase] at held
          cases held
          obtain ⟨_, lent, _, known⟩ := holding.issued j job cidU tag (by rw [phase]; rfl)
          refine ⟨conn.writeTx, ⟨replaceCid job.data cidU, cidU, tag⟩, ?_, _, known, rfl, rfl⟩
          rw [appendAt_self]
          exact List.mem_append_right _ List.mem_cons_self
        · rw [phase] at last
          cases last
      · rw [others j here]
        exact (handed j).keep List.prefix_rfl kept rfl rfl (.inr ⟨rfl, id⟩)

theorem Carried.relay {action : RelayAction} (carried : m.Carried traffic) (old : action ≠ .push)
    (move : RelayMove idle m i (m.relays i) action n) (change : Change idle codecs map m (.relay i action) n) :
    n.Carried (m.noteTraffic (.relay i action) traffic) := by
  obtain ⟨holding, opened, pushed, wrote, handed⟩ := carried
  have noted : m.noteTraffic (.relay i action) traffic = traffic := by
    cases action with
    | push => exact absurd rfl old
    | _ => rfl
  rw [noted]
  refine ⟨change.holding holding, opened.step change, ?_, ?_, fun j => ?_⟩
  · by_cases registers : action = .alloc
    · subst registers
      cases move with
      | alloc phase leased => exact pushed.alloc
    · exact pushed.idles (move.idles registers)
  · apply wrote.keep (Nat.le_of_eq move.opened_eq.symm)
    intro l isOpen
    cases move with
    | push phase leased listens room => exact absurd rfl old
    | _ => exact ⟨isOpen, rfl⟩
  · by_cases here : j = i
    · subst here
      exact move.handed (handed j) old change.requests_grow
    · rw [move.relays_other here]
      exact (handed j).keep change.requests_grow (fun _ => List.Subset.refl _) rfl rfl (.inr ⟨rfl, id⟩)

theorem Carried.upstream {action : UpstreamAction} (carried : m.Carried traffic)
    (move : UpstreamMove codecs map m k (m.upstreams k) action n)
    (change : Change idle codecs map m (.upstream k action) n) :
    n.Carried (m.noteTraffic (.upstream k action) traffic) := by
  obtain ⟨holding, opened, pushed, wrote, handed⟩ := carried
  have same : (m.noteTraffic (.upstream k action) traffic).pushed = traffic.pushed := by
    cases action with
    | write =>
        simp only [noteTraffic]
        split <;> rfl
    | _ => rfl
  refine ⟨change.holding holding, opened.step change, ?_, ?_, fun j => ?_⟩
  · rw [same]
    exact pushed.idles move.idles
  · by_cases writes : action = .write
    · subst writes
      cases move with
      | write phase queue =>
          simp only [noteTraffic, queue]
          exact wrote.write phase queue rfl rfl rfl
    · have noted : m.noteTraffic (.upstream k action) traffic = traffic := by
        cases action with
        | write => exact absurd rfl writes
        | _ => rfl
      rw [noted]
      exact move.keeps_wrote wrote writes
  · rw [same]
    obtain ⟨respRx, unchanged⟩ := move.relays_eq j
    rw [unchanged]
    exact (handed j).keep change.requests_grow (fun _ => List.Subset.refl _) rfl rfl (.inr ⟨rfl, id⟩)

theorem Change.carried {action : MultiplexAction} (carried : m.Carried traffic)
    (change : Change idle codecs map m action n) : n.Carried (m.noteTraffic action traffic) := by
  have step := change
  cases change with
  | tick elapsed =>
      obtain ⟨holding, opened, pushed, wrote, handed⟩ := carried
      exact ⟨step.holding holding, opened.step step, pushed.mono List.prefix_rfl pushed.unsent,
        ⟨wrote.before, wrote.whole, wrote.unopened⟩, fun j => ⟨(handed j).bounded, (handed j).handed⟩⟩
  | create =>
      obtain ⟨holding, opened, pushed, wrote, handed⟩ := carried
      exact ⟨step.holding holding, opened.step step, pushed.mono List.prefix_rfl pushed.unsent,
        wrote.create, fun j => ⟨(handed j).bounded, (handed j).handed⟩⟩
  | upstream move => exact carried.upstream move step
  | @relay i action n move =>
      by_cases sends : action = .push
      · subst sends
        exact carried.push move step
      · exact carried.relay sends move step

variable {maxInFlight : Nat} {metrics : Metrics} {s : Multiplex × Traffic}

theorem carried_of_reachable (reachable : (carrying maxInFlight metrics idle codecs map).Reachable s) :
    s.1.Carried s.2 := by
  induction reachable with
  | initial first =>
      obtain ⟨started, empty⟩ := first
      rw [started, empty]
      refine ⟨⟨rfl, ?_, ?_⟩, ⟨?_, ?_⟩, ⟨?_, ?_, ?_⟩, ⟨?_, ?_, ?_⟩, fun i => ⟨?_, ?_⟩⟩ <;>
        simp [new, PooledRelay.new, Upstream.new, DownToUp.registered, WriteLoop.isOpen]
  | next _ _ taken ih =>
      obtain ⟨stepped, noted⟩ := System.watch_step.mp taken
      rw [noted]
      exact (Change.of_step stepped).carried ih

/-! ## From the clients to the brokers -/

/-- The frame `write` is the client's frame of the request `req`, with another correlation id. -/
structure Forwards (m : Multiplex) (k : Nat) (write : WriteReq) (req : Request) : Prop where
  request : m.requests[write.tag]? = some req
  sent : (m.relays req.client).Sent req.job
  here : req.writeTx = k
  frame : write.frame = replaceCid req.job.data write.cidU

/-- `own`, `once` and `order` say what a broker gets, `whole` and `passed` that it gets everything: what is
sent on a connection is written or still in its channel while it is open, and a relay that waits for its
client has sent on whatever the client asked. -/
structure Forwarded (m : Multiplex) (traffic : Traffic) : Prop where
  own : ∀ k, ∀ write ∈ traffic.wrote k, ∃ req, m.Forwards k write req
  once : ∀ (k l a b : Nat) (v w : WriteReq) (r s : Request), (traffic.wrote k)[a]? = some v →
    (traffic.wrote l)[b]? = some w → m.Forwards k v r → m.Forwards l w s → r.client = s.client →
      r.job.seq = s.job.seq → k = l ∧ a = b
  order : ∀ k, (traffic.wrote k).Pairwise fun v w => ∀ r s, m.Forwards k v r → m.Forwards k w s →
    r.client = s.client → r.job.seq < s.job.seq
  whole : ∀ k, (m.upstreams k).writeLoop.isOpen = true →
    traffic.pushed k = traffic.wrote k ++ (m.upstreams k).writeRx
  passed : ∀ i since, (m.relays i).downToUp = .waiting since → ∀ seq data, (m.relays i).sent[seq]? = some data →
    (parseRequestHeader data).isSome = true → seq < (m.relays i).read →
      ∃ k, ∃ write ∈ traffic.pushed k, ∃ req, m.Forwards k write req ∧ req.client = i ∧ req.job.seq = seq

theorem Carried.forwards {write : WriteReq} (carried : m.Carried traffic) (requests : m.Requests)
    (member : write ∈ traffic.pushed k) : ∃ req, m.Forwards k write req := by
  obtain ⟨_, req, found, here, frame⟩ := carried.pushed.carries k write member
  exact ⟨req, found, requests.sent req (List.mem_of_getElem? found), here, frame⟩

/-- Each frame that a broker is sent is one client's own, at most once over all connections, and in the
client's order on each of them. Nothing that a client has asked is lost between its relay and the write
loop of an open connection. -/
theorem requests_forwarded (reachable : (carrying maxInFlight metrics idle codecs map).Reachable s) :
    s.1.Forwarded s.2 := by
  have carried := carried_of_reachable reachable
  have base : (system maxInFlight metrics idle codecs map).Reachable s.1 :=
    System.Reach.unwatched reachable
  have requests := requests_of_reach base
  obtain ⟨m, traffic⟩ := s
  have wrote (k : Nat) : traffic.wrote k ⊆ traffic.pushed k := (carried.wrote.before k).subset
  have ordered (k : Nat) : (traffic.wrote k).Pairwise m.Before :=
    (carried.pushed.ordered k).sublist (carried.wrote.before k).sublist
  refine ⟨fun k write member => carried.forwards requests (wrote k member), ?_, fun k => ?_,
    carried.wrote.whole, ?_⟩
  · intro k l a b v w r s first second left right client seq
    have tag := requests.distinct v.tag w.tag r s left.request right.request client seq
    have same := left.request
    rw [tag] at same
    cases same.symm.trans right.request
    obtain rfl := left.here.symm.trans right.here
    refine ⟨rfl, ?_⟩
    obtain ⟨ha, rfl⟩ := List.getElem?_eq_some_iff.mp first
    obtain ⟨hb, rfl⟩ := List.getElem?_eq_some_iff.mp second
    have apart := List.pairwise_iff_getElem.mp (ordered k)
    rcases Nat.lt_trichotomy a b with before | same | after
    · exact absurd tag (apart a b ha hb before).1
    · exact same
    · exact absurd tag.symm (apart b a hb ha after).1
  · apply (ordered k).imp
    rintro v w ⟨_, before⟩ r s left right client
    have earlier := before ⟨r, s, left.request, right.request, client⟩
    obtain ⟨first, same⟩ := List.getElem?_eq_some_iff.mp left.request
    obtain ⟨second, other⟩ := List.getElem?_eq_some_iff.mp right.request
    have sorted := List.pairwise_iff_getElem.mp requests.sorted v.tag w.tag first second earlier
    rw [same, other] at sorted
    exact sorted client
  · intro i since phase seq data found parsed early
    rcases (carried.handed i).handed seq data found parsed early with passed | ⟨job, held, _⟩ | last
    · obtain ⟨k, write, member, req, known, client, same⟩ := passed
      obtain ⟨other, forwards⟩ := carried.forwards requests member
      cases known.symm.trans forwards.request
      exact ⟨k, write, member, req, forwards, client, same⟩
    · rw [phase] at held
      cases held
    · rw [phase] at last
      cases last

def firstRequest (i : Nat) : List MultiplexAction :=
  [.relay i .connect, .relay i (.request [0, 18, 0, 0, 0, 0, 0, 7]), .relay i .next, .relay i .giveBack,
    .relay i .borrow, .relay i (.acquired ⟨0, 1⟩), .relay i .check, .relay i .alloc, .relay i .store,
    .relay i .count, .relay i .push]

theorem requests_forwarded_two : ∃ s : Multiplex × Traffic,
    (s.2.wrote 0).map (·.frame) = [[0, 18, 0, 0, 0, 0, 0, 2], [0, 18, 0, 0, 0, 0, 0, 3]] ∧
      (s.1.relays 0).sent = [[0, 18, 0, 0, 0, 0, 0, 7]] ∧ (s.1.relays 1).sent = [[0, 18, 0, 0, 0, 0, 0, 7]] ∧
        s.1.Forwarded s.2 := by
  obtain ⟨s, reachable, wrote, first, second⟩ := (carrying 2 (.new true) none .unknown ⟨∅⟩).exists_reach
    (fun _ _ => True) (.new 2 (.new true), ⟨fun _ => [], fun _ => []⟩)
    ([.create] ++ firstRequest 0 ++ firstRequest 1 ++ [.upstream 0 .write, .upstream 0 .write])
    (fun s => (s.2.wrote 0).map (·.frame) = [[0, 18, 0, 0, 0, 0, 0, 2], [0, 18, 0, 0, 0, 0, 0, 3]] ∧
      (s.1.relays 0).sent = [[0, 18, 0, 0, 0, 0, 0, 7]] ∧ (s.1.relays 1).sent = [[0, 18, 0, 0, 0, 0, 0, 7]])
    ⟨rfl, rfl⟩ (by decide +kernel)
  exact ⟨s, wrote, first, second, requests_forwarded reachable⟩

end Multiplex
end KafkaProxy.Pooled
