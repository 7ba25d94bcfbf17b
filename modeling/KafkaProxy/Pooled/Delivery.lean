import KafkaProxy.Pooled.Routing

/-!
# What becomes of a response

A response that a write loop has read is handed on, in order, until a read loop has dealt with it.
-/

namespace KafkaProxy.Pooled
open Library

def WriteLoop.holds : WriteLoop → List Answer
  | .forwarding answer => [answer]
  | .absent | .running | .cleanup | .cleaned | .ended => []

def ReadLoop.holds : ReadLoop → List Answer
  | .routing answer _ => [answer]
  | .receiving => []

def Upstream.pending (u : Upstream) : List Answer :=
  u.readLoop.holds ++ u.readRx ++ u.writeLoop.holds

def Upstream.Kept (u : Upstream) : Prop := u.received = u.routed.map (·.1) ++ u.pending

def Upstream.rank (u : Upstream) : Nat :=
  u.readLoop.holds.length + 2 * u.readRx.length + 3 * u.writeLoop.holds.length

def Outcome.tx? : Outcome → Option ResponseTx
  | .unmatched => none
  | .queued tx | .refused tx _ _ => some tx

structure PooledRelay.Later (r s : PooledRelay) : Prop where
  put : r.put <+: s.put
  listens : r.listens = false → s.listens = false

theorem PooledRelay.Later.refl (r : PooledRelay) : r.Later r := ⟨List.prefix_rfl, fun gone => gone⟩

namespace Multiplex

def Known (m : Multiplex) (tx : ResponseTx) : Prop :=
  ∃ req, m.requests[tx.tag]? = some req ∧ req.client = tx.client

/-- A response that matches a request is in the queue of the client, unless the client does not
listen any more or its queue was full. -/
def Settled (m : Multiplex) (answer : Answer) : Outcome → Prop
  | .unmatched => True
  | .queued tx => ∃ resp ∈ (m.relays tx.client).put, resp.tag = tx.tag ∧ resp.answer = answer
  | .refused tx length _ => (m.relays tx.client).listens = false ∨ length = respCapacity

structure Delivery (m : Multiplex) : Prop where
  kept : ∀ k, (m.upstreams k).Kept
  storing : ∀ i job cidU tag, (m.relays i).downToUp = .store job cidU tag → m.Known ⟨i, tag⟩
  table : ∀ cidU entry, m.remap.map.lookup cidU = some entry → m.Known entry.downstreamTx
  routing : ∀ k answer entry, (m.upstreams k).readLoop = .routing answer entry →
    m.Known entry.downstreamTx
  routed : ∀ k answer outcome, (answer, outcome) ∈ (m.upstreams k).routed →
    m.Settled answer outcome ∧ ∀ tx ∈ outcome.tx?, m.Known tx
  capacity : ∀ i, (m.relays i).respRx.length ≤ respCapacity

variable {idle : Option Nat} {codecs : Codecs} {map : RewriteMap} {m n : Multiplex} {i k : Nat}

theorem Known.mono {tx : ResponseTx} (more : m.requests <+: n.requests) (known : m.Known tx) :
    n.Known tx := by
  obtain ⟨req, found, client⟩ := known
  exact ⟨req, getElem?_of_isPrefix more found, client⟩

theorem Settled.later {answer : Answer} {outcome : Outcome}
    (later : ∀ i, (m.relays i).Later (n.relays i)) (settled : m.Settled answer outcome) :
    n.Settled answer outcome := by
  cases outcome with
  | unmatched => trivial
  | queued tx =>
      obtain ⟨resp, member, same⟩ := settled
      exact ⟨resp, (later tx.client).put.subset member, same⟩
  | refused tx length listens => exact settled.imp_left (later tx.client).listens

theorem RelayMove.later {action : RelayAction} (move : RelayMove idle m i (m.relays i) action n)
    (j : Nat) : (m.relays j).Later (n.relays j) := by
  by_cases same : j = i
  · subst same
    cases move with
    | deliver listens queue =>
        rw [setRelay_relays, Function.update_self]
        exact ⟨by simp [PooledRelay.put, queue], fun gone => gone⟩
    | deliverFailed listens | respClosed listens empty done last =>
        rw [setRelay_relays, Function.update_self]
        exact ⟨List.prefix_rfl, fun _ => rfl⟩
    | _ =>
        simp only [setRelay_relays, Function.update_self]
        exact ⟨List.prefix_rfl, fun gone => gone⟩
  · rw [move.relays_other same]
    exact .refl _

theorem UpstreamMove.later {action : UpstreamAction}
    (move : UpstreamMove codecs map m k (m.upstreams k) action n) (j : Nat) :
    (m.relays j).Later (n.relays j) := by
  cases move with
  | @route answer entry phase listens room =>
      by_cases client : j = entry.downstreamTx.client
      · subst client
        rw [setRelay_relays, Function.update_self]
        exact ⟨by simp [PooledRelay.put], fun gone => gone⟩
      · simp only [setRelay_relays, setUpstream_relays, Function.update_of_ne client]
        exact .refl _
  | _ => exact .refl _

theorem Change.later {action : MultiplexAction} (change : Change idle codecs map m action n)
    (j : Nat) : (m.relays j).Later (n.relays j) := by
  cases change with
  | relay move => exact move.later j
  | upstream move => exact move.later j
  | _ => exact .refl _

/-! ## Nothing is lost on the way to the read loop -/

theorem UpstreamMove.kept {action : UpstreamAction} (kept : (m.upstreams k).Kept)
    (move : UpstreamMove codecs map m k (m.upstreams k) action n) : (n.upstreams k).Kept := by
  cases move with
  | read phase queue | forward phase room | fail phase | closed phase empty | cleanup phase
  | finish phase | writeFailed phase queue | unmatched phase queue missing
  | take phase queue parsed found | route phase listens room | discard phase unable =>
      simp_all [Upstream.Kept, Upstream.pending, WriteLoop.holds, ReadLoop.holds]
  | answer asked echoes => simpa [Upstream.Kept, Upstream.pending] using kept
  | write phase queue => simpa [Upstream.Kept, Upstream.pending] using kept

/-! ## What the read loop does with a response -/

theorem RelayMove.known {action : RelayAction} (delivery : m.Delivery)
    (move : RelayMove idle m i (m.relays i) action n) :
    (∀ j job cidU tag, (n.relays j).downToUp = .store job cidU tag → n.Known ⟨j, tag⟩) ∧
      ∀ cidU entry, n.remap.map.lookup cidU = some entry → n.Known entry.downstreamTx := by
  have more := move.requests_grow
  have elsewhere (j : Nat) (other : j ≠ i) (job : Job) (cidU : Int32) (tag : Nat)
      (phase : (n.relays j).downToUp = .store job cidU tag) : n.Known ⟨j, tag⟩ := by
    rw [move.relays_other other] at phase
    exact (delivery.storing j job cidU tag phase).mono more
  constructor
  · intro j job cidU tag phase
    by_cases same : j = i
    · subst same
      cases move with
      | alloc before leased =>
          simp only [setRelay_relays, Function.update_self, DownToUp.store.injEq] at phase
          obtain ⟨_, _, rfl⟩ := phase
          exact ⟨_, List.getElem?_concat_length, rfl⟩
      | request data | deliver listens queue | deliverFailed listens
      | respClosed listens empty done last =>
          simp only [setRelay_relays, Function.update_self] at phase
          exact delivery.storing j job cidU tag phase
      | _ => simp at phase
    · exact elsewhere j same job cidU tag phase
  · intro cidU entry found
    cases move with
    | @store job cid tag conn phase leased =>
        rcases Table.lookup_insert_eq_some.mp found with ⟨_, rfl⟩ | ⟨_, present⟩
        · exact delivery.storing i job cid tag phase
        · exact delivery.table cidU entry present
    | cancel phase => exact delivery.table cidU entry (Table.lookup_erase_eq_some.mp found).2
    | _ => exact (delivery.table cidU entry found).mono more

theorem RelayMove.delivery {action : RelayAction} (delivery : m.Delivery)
    (move : RelayMove idle m i (m.relays i) action n) : n.Delivery := by
  obtain ⟨storing, table⟩ := move.known delivery
  refine ⟨?_, storing, table, ?_, ?_, ?_⟩
  · intro l
    obtain ⟨writeRx, same⟩ := move.upstreams_eq l
    rw [same]
    exact delivery.kept l
  · intro l answer entry phase
    obtain ⟨writeRx, same⟩ := move.upstreams_eq l
    rw [same] at phase
    exact (delivery.routing l answer entry phase).mono move.requests_grow
  · intro l answer outcome member
    obtain ⟨writeRx, same⟩ := move.upstreams_eq l
    rw [same] at member
    obtain ⟨settled, known⟩ := delivery.routed l answer outcome member
    exact ⟨settled.later move.later, fun tx made => (known tx made).mono move.requests_grow⟩
  · intro j
    by_cases same : j = i
    · subst same
      have before := delivery.capacity j
      cases move with
      | deliver listens queue =>
          rw [queue, List.length_cons] at before
          simpa using (Nat.le_succ _).trans before
      | _ => simpa using before
    · rw [move.relays_other same]
      exact delivery.capacity j

theorem UpstreamMove.routed {action : UpstreamAction} (delivery : m.Delivery)
    (move : UpstreamMove codecs map m k (m.upstreams k) action n) (answer : Answer)
    (outcome : Outcome) (member : (answer, outcome) ∈ (n.upstreams k).routed) :
    n.Settled answer outcome ∧ ∀ tx ∈ outcome.tx?, m.Known tx := by
  have older (before : (answer, outcome) ∈ (m.upstreams k).routed) :
      n.Settled answer outcome ∧ ∀ tx ∈ outcome.tx?, m.Known tx := by
    obtain ⟨settled, known⟩ := delivery.routed k answer outcome before
    exact ⟨settled.later move.later, known⟩
  cases move with
  | unmatched phase queue missing =>
      simp only [setUpstream_upstreams, Function.update_self, List.mem_append,
        List.mem_singleton, Prod.mk.injEq] at member
      rcases member with before | ⟨rfl, rfl⟩
      · exact older before
      · exact ⟨trivial, by simp [Outcome.tx?]⟩
  | @route taken entry phase listens room =>
      simp only [setRelay_upstreams, setUpstream_upstreams, Function.update_self, List.mem_append,
        List.mem_singleton, Prod.mk.injEq] at member
      rcases member with before | ⟨rfl, rfl⟩
      · exact older before
      · refine ⟨⟨⟨routeResponse codecs map answer.data entry, entry.downstreamTx.tag, answer⟩, ?_,
          rfl, rfl⟩, ?_⟩
        · simp [PooledRelay.put]
        · rintro tx ⟨⟩
          exact delivery.routing k answer entry phase
  | @discard taken entry phase unable =>
      simp only [setUpstream_upstreams, Function.update_self, List.mem_append, List.mem_singleton,
        Prod.mk.injEq] at member
      rcases member with before | ⟨rfl, rfl⟩
      · exact older before
      · constructor
        · cases listens : (m.relays entry.downstreamTx.client).listens with
          | false => exact .inl listens
          | true => exact .inr (le_antisymm (delivery.capacity _) (unable listens))
        · rintro tx ⟨⟩
          exact delivery.routing k answer entry phase
  | answer | write | writeFailed | fail | closed | read | forward | cleanup | finish | take =>
      simp only [setUpstream_upstreams, Function.update_self] at member
      exact older member

theorem UpstreamMove.delivery {action : UpstreamAction} (delivery : m.Delivery)
    (move : UpstreamMove codecs map m k (m.upstreams k) action n) : n.Delivery := by
  have more : m.requests <+: n.requests := move.requests_eq ▸ List.prefix_rfl
  refine ⟨?_, ?_, ?_, ?_, ?_, ?_⟩
  · intro l
    by_cases same : l = k
    · subst same
      exact move.kept (delivery.kept l)
    · rw [move.upstreams_other same]
      exact delivery.kept l
  · intro j job cidU tag phase
    obtain ⟨respRx, same⟩ := move.relays_eq j
    rw [same] at phase
    exact (delivery.storing j job cidU tag phase).mono more
  · intro cidU entry found
    cases move with
    | cleanup phase =>
        exact delivery.table cidU entry (Table.lookup_retain_eq_some.mp found).1
    | take phase queue parsed there =>
        exact delivery.table cidU entry (Table.lookup_erase_eq_some.mp found).2
    | _ => exact (delivery.table cidU entry found).mono more
  · intro l answer entry phase
    by_cases same : l = k
    · subst same
      cases move with
      | take before queue parsed found =>
          simp only [setUpstream_upstreams, Function.update_self, ReadLoop.routing.injEq] at phase
          obtain ⟨_, rfl⟩ := phase
          exact delivery.table _ _ found
      | route | discard => simp at phase
      | answer | write | writeFailed | fail | closed | read | forward | cleanup | finish
      | unmatched =>
          simp only [setUpstream_upstreams, Function.update_self] at phase
          exact (delivery.routing l answer entry phase).mono more
    · rw [move.upstreams_other same] at phase
      exact (delivery.routing l answer entry phase).mono more
  · intro l answer outcome member
    by_cases same : l = k
    · subst same
      obtain ⟨settled, known⟩ := move.routed delivery answer outcome member
      exact ⟨settled, fun tx made => (known tx made).mono more⟩
    · rw [move.upstreams_other same] at member
      obtain ⟨settled, known⟩ := delivery.routed l answer outcome member
      exact ⟨settled.later move.later,
        fun tx made => (known tx made).mono more⟩
  · intro j
    cases move with
    | @route answer entry phase listens room =>
        by_cases client : j = entry.downstreamTx.client
        · subst client
          simpa [Nat.succ_le_iff] using room
        · simpa [client] using delivery.capacity j
    | _ => exact delivery.capacity j

theorem Delivery.create (delivery : m.Delivery) : m.create.Delivery := by
  have elsewhere (l : Nat) : m.create.upstreams l = .new m.remap.nextConnId .running ∨
      m.create.upstreams l = m.upstreams l := by
    by_cases new : l = m.opened
    · exact .inl (by simp [Multiplex.create, CidRemap.allocConnId, new])
    · exact .inr (by simp [Multiplex.create, new])
  refine { delivery with kept := ?_, routing := ?_, routed := ?_ }
  · intro l
    rcases elsewhere l with new | same
    · rw [new]
      rfl
    · rw [same]
      exact delivery.kept l
  · intro l answer entry phase
    rcases elsewhere l with new | same
    · simp [new, Upstream.new] at phase
    · exact delivery.routing l answer entry (same ▸ phase)
  · intro l answer outcome member
    rcases elsewhere l with new | same
    · simp [new, Upstream.new] at member
    · exact delivery.routed l answer outcome (same ▸ member)

variable {maxInFlight : Nat} {metrics : Metrics} {allowed : Multiplex → MultiplexAction → Prop}

theorem delivery_of_reach
    (reach : (system maxInFlight metrics idle codecs map).Reach allowed m) : m.Delivery := by
  induction reach with
  | initial first =>
      rw [first]
      exact ⟨fun _ => rfl, by simp [new, PooledRelay.new], by simp [new, CidRemap.withMaxInFlight],
        by simp [new, Upstream.new], by simp [new, Upstream.new], by simp [new, PooledRelay.new]⟩
  | next _ _ action ih =>
      cases Change.of_step action with
      | tick elapsed => exact { ih with }
      | create => exact ih.create
      | relay move => exact move.delivery ih
      | upstream move => exact move.delivery ih

/-! ## The loops of a connection do not wait for the clients -/

def HandsOn (k : Nat) (action : MultiplexAction) : Prop :=
  action = .upstream k .forward ∨ action = .upstream k .take ∨ action = .upstream k .route

theorem handsOn (codecs : Codecs) (map : RewriteMap) (pending : (m.upstreams k).pending ≠ []) :
    ∃ action n, HandsOn k (.upstream k action) ∧
      m.upstreamStep codecs map k (m.upstreams k) action = some n := by
  cases loop : (m.upstreams k).readLoop with
  | routing answer entry =>
      have enabled : (m.upstreamStep codecs map k (m.upstreams k) .route).isSome = true := by
        simp only [upstreamStep, loop]
        split <;> rfl
      obtain ⟨n, taken⟩ := Option.isSome_iff_exists.mp enabled
      exact ⟨.route, n, .inr (.inr rfl), taken⟩
  | receiving =>
      cases queue : (m.upstreams k).readRx with
      | cons answer rest =>
          have enabled : (m.upstreamStep codecs map k (m.upstreams k) .take).isSome = true := by
            simp only [upstreamStep, loop, queue]
            split
            · rfl
            · split <;> rfl
          obtain ⟨n, taken⟩ := Option.isSome_iff_exists.mp enabled
          exact ⟨.take, n, .inr (.inl rfl), taken⟩
      | nil =>
          cases phase : (m.upstreams k).writeLoop with
          | forwarding answer =>
              have enabled : (m.upstreamStep codecs map k (m.upstreams k) .forward).isSome = true := by
                simp [upstreamStep, phase, queue, readCapacity]
              obtain ⟨n, taken⟩ := Option.isSome_iff_exists.mp enabled
              exact ⟨.forward, n, .inl rfl, taken⟩
          | _ => simp [Upstream.pending, loop, queue, phase, ReadLoop.holds, WriteLoop.holds] at pending

theorem rank_handsOn {action : UpstreamAction} (hands : HandsOn k (.upstream k action))
    (taken : m.upstreamStep codecs map k (m.upstreams k) action = some n) :
    (n.upstreams k).rank < (m.upstreams k).rank ∧
      (n.upstreams k).received = (m.upstreams k).received := by
  have move := UpstreamMove.of_step taken
  rcases hands with hands | hands | hands <;> cases hands
  · cases move with
    | forward phase room =>
        refine ⟨?_, by simp⟩
        simp only [setUpstream_upstreams, Function.update_self, Upstream.rank, phase,
          WriteLoop.holds, List.length_append, List.length_singleton, List.length_nil]
        omega
  · cases move with
    | take phase queue parsed found =>
        refine ⟨?_, by simp⟩
        simp only [setUpstream_upstreams, Function.update_self, Upstream.rank, phase, queue,
          ReadLoop.holds, List.length_cons, List.length_nil]
        omega
    | unmatched phase queue missing => simp [Upstream.rank, queue]
  · cases move with
    | route phase listens room => simp [Upstream.rank, phase, ReadLoop.holds]
    | discard phase unable => simp [Upstream.rank, phase, ReadLoop.holds]

theorem drained (maxInFlight : Nat) (metrics : Metrics) (idle : Option Nat) (codecs : Codecs)
    (map : RewriteMap) (m : Multiplex) (k : Nat) : ∃ actions n, (∀ action ∈ actions, HandsOn k action) ∧
    (system maxInFlight metrics idle codecs map).run m actions = some n ∧
      (n.upstreams k).pending = [] ∧ (n.upstreams k).received = (m.upstreams k).received := by
  by_cases pending : (m.upstreams k).pending = []
  · exact ⟨[], m, by simp, rfl, pending, rfl⟩
  · obtain ⟨action, middle, hands, taken⟩ := handsOn codecs map pending
    obtain ⟨fewer, same⟩ := rank_handsOn hands taken
    obtain ⟨actions, n, rest, ran, empty, unchanged⟩ :=
      drained maxInFlight metrics idle codecs map middle k
    refine ⟨.upstream k action :: actions, n, ?_, ?_, empty, unchanged.trans same⟩
    · rintro other (_ | ⟨_, member⟩)
      · exact hands
      · exact rest other member
    · rw [System.run_cons]
      simp only [system, step, taken]
      exact ran
termination_by (m.upstreams k).rank

/-! ## Responses that have been read -/

/-- The read loop of the connection `k` keeps a response whose correlation id has an entry, and goes
on to deal with it as that entry says. -/
structure Matched (codecs : Codecs) (map : RewriteMap) (m : Multiplex) (k : Nat) : Prop where
  take : ∀ answer rest cidU entry n, (m.upstreams k).readRx = answer :: rest →
    parseResponseCid answer.data = some cidU → m.remap.map.lookup cidU = some entry →
    m.upstreamStep codecs map k (m.upstreams k) .take = some n →
    (n.upstreams k).readLoop = .routing answer entry
  route : ∀ answer entry n, (m.upstreams k).readLoop = .routing answer entry →
    m.upstreamStep codecs map k (m.upstreams k) .route = some n →
    ∃ outcome, outcome.tx? = some entry.downstreamTx ∧
      (n.upstreams k).routed = (m.upstreams k).routed ++ [(answer, outcome)]

theorem matched (codecs : Codecs) (map : RewriteMap) (m : Multiplex) (k : Nat) :
    Matched codecs map m k := by
  constructor
  · intro answer rest cidU entry n head parsed present taken
    cases UpstreamMove.of_step taken with
    | take phase queue known found =>
        rw [head, List.cons.injEq] at queue
        obtain ⟨rfl, rfl⟩ := queue
        rw [parsed, Option.some.injEq] at known
        subst known
        rw [present, Option.some.injEq] at found
        simp [found]
    | unmatched phase queue missing =>
        rw [head, List.cons.injEq] at queue
        obtain ⟨rfl, rfl⟩ := queue
        rw [missing cidU parsed] at present
        cases present
  · intro answer entry n inHand taken
    cases UpstreamMove.of_step taken with
    | route phase listens room =>
        rw [inHand, ReadLoop.routing.injEq] at phase
        obtain ⟨rfl, rfl⟩ := phase
        simp only [setRelay_upstreams, setUpstream_upstreams, Function.update_self]
        exact ⟨.queued entry.downstreamTx, rfl, rfl⟩
    | discard phase unable =>
        rw [inHand, ReadLoop.routing.injEq] at phase
        obtain ⟨rfl, rfl⟩ := phase
        simp only [setUpstream_upstreams, Function.update_self]
        exact ⟨.refused entry.downstreamTx _ _, rfl, rfl⟩

theorem queued_own (reachable : (system maxInFlight metrics idle codecs map).Reachable m)
    (few : m.requests.length < CidRemap.cidPeriod) {answer : Answer} {tx : ResponseTx}
    (routed : (answer, .queued tx) ∈ (m.upstreams k).routed) : answer.tag = tx.tag := by
  obtain ⟨stage, routing⟩ := routing_of_reach reachable few
  obtain ⟨⟨resp, member, tag, same⟩, _⟩ := (delivery_of_reach reachable).routed k _ _ routed
  have own := ((routing.relay tx.client).queued resp member).2.1
  rw [← same, own, tag]

def small : System Multiplex MultiplexAction := system 2 (.new true) none .unknown ⟨∅⟩

def askedFirst : List MultiplexAction :=
  [.create, .relay 0 .connect, .relay 0 (.request [0, 18, 0, 0, 0, 0, 0, 7]), .relay 0 .next,
    .relay 0 .giveBack, .relay 0 .borrow, .relay 0 (.acquired ⟨0, 1⟩), .relay 0 .check,
    .relay 0 .alloc, .relay 0 .store, .relay 0 .count, .relay 0 .push, .upstream 0 .write,
    .upstream 0 (.answer 0 (putI32 (cidOf 0))), .upstream 0 .read]

def handedOn : List MultiplexAction :=
  [.upstream 0 .forward, .upstream 0 .take, .upstream 0 .route]

/-- What becomes of the responses that the write loop of the connection `k` has read. `drained`: the
loops deal with all of them by themselves. -/
structure Delivered (S : System Multiplex MultiplexAction) (codecs : Codecs) (map : RewriteMap)
    (m : Multiplex) (k : Nat) : Prop where
  kept : (m.upstreams k).received = (m.upstreams k).routed.map (·.1) ++ (m.upstreams k).pending
  matched : Matched codecs map m k
  settled : ∀ answer outcome, (answer, outcome) ∈ (m.upstreams k).routed →
    m.Settled answer outcome ∧ ∀ tx ∈ outcome.tx?, m.Known tx
  own : m.requests.length < CidRemap.cidPeriod →
    ∀ answer tx, (answer, .queued tx) ∈ (m.upstreams k).routed → answer.tag = tx.tag
  drained : ∃ actions n, (∀ action ∈ actions, HandsOn k action) ∧
    S.run m actions = some n ∧
    (n.upstreams k).received = (m.upstreams k).received ∧
    (n.upstreams k).routed.map (·.1) = (m.upstreams k).received

/-- What a write loop has read is never lost before the read loop takes it up, and what matches a
request then gets into the queue of the client that sent it, if that is not full or gone. -/
theorem received_delivered (reachable : (system maxInFlight metrics idle codecs map).Reachable m)
    (k : Nat) : Delivered (system maxInFlight metrics idle codecs map) codecs map m k := by
  have delivery := delivery_of_reach reachable
  refine ⟨delivery.kept k, matched codecs map m k, delivery.routed k,
    fun few answer tx => queued_own reachable few, ?_⟩
  obtain ⟨actions, n, hands, ran, empty, same⟩ :=
    drained maxInFlight metrics idle codecs map m k
  have later := (delivery_of_reach (System.Reach.exec reachable actions ran)).kept k
  rw [Upstream.Kept, empty, List.append_nil] at later
  exact ⟨actions, n, hands, ran, same, by rw [← later, same]⟩

theorem received_delivered_one : ∃ m : Multiplex,
    (m.upstreams 0).routed = [(⟨putI32 (cidOf 0), 0⟩, .queued ⟨0, 0⟩)] ∧
      Delivered small .unknown ⟨∅⟩ m 0 := by
  obtain ⟨m, reachable, queued⟩ := small.exists_reach (fun _ _ => True) (.new 2 (.new true))
    (askedFirst ++ handedOn)
    (fun m => (m.upstreams 0).routed = [(⟨putI32 (cidOf 0), 0⟩, .queued ⟨0, 0⟩)]) rfl
    (by decide +kernel)
  exact ⟨m, queued, received_delivered reachable 0⟩

/-! ## Responses that are discarded -/

/-- A response that matches a request when a write loop has read it comes to be `outcome`, while the
client still listens. -/
def Ends (S : System Multiplex MultiplexAction) (outcome : Outcome) : Prop :=
  ∃ m, S.Reachable m ∧ ∃ k answer cidU entry, (m.upstreams k).writeLoop = .forwarding answer ∧
    parseResponseCid answer.data = some cidU ∧ m.remap.map.lookup cidU = some entry ∧
    ∃ actions n, S.run m actions = some n ∧ (answer, outcome) ∈ (n.upstreams k).routed ∧
      (n.relays entry.downstreamTx.client).listens = true

def askedAgain (tag : Nat) : List MultiplexAction :=
  [.relay 0 (.request [0, 18, 0, 0, 0, 0, 0, 7]), .relay 0 .next, .relay 0 .keep, .relay 0 .check,
    .relay 0 .alloc, .relay 0 .store, .relay 0 .count, .relay 0 .push, .upstream 0 .write,
    .upstream 0 (.answer 0 (putI32 (cidOf tag))), .upstream 0 .read]

theorem parse_cidOf (n : Nat) : parseResponseCid (putI32 (cidOf n)) = some (cidOf n) := by
  have own := getI32_putI32_append (cidOf n) []
  rw [List.append_nil] at own
  simp [parseResponseCid, own]

structure Queues (n : Nat) (table : Table Int32 Entry) (nextCid : Int32) (asked : Nat)
    (writeLoop : WriteLoop) (m : Multiplex) : Prop where
  now : m.now = 0
  remap : m.remap = ⟨table, nextCid, 2, 2⟩
  asked : m.requests.length = asked
  relay : ∃ sent respRx, respRx.length = n ∧ m.relays 0 =
    { sent, read := sent.length, downToUp := .waiting 0, lease := some ⟨0, 1⟩, leaseDeadline := 200,
      lastAcquired := some 0, respRx, listens := true, written := [] }
  upstream : ∃ received routed, m.upstreams 0 = { Upstream.new 1 writeLoop with received, routed }

def Waits (n : Nat) : Multiplex → Prop := Queues n ∅ (CidRemap.cidAt n) n .running

def Holds (n : Nat) : Multiplex → Prop :=
  Queues n (AList.singleton (cidOf n) ⟨⟨0, n⟩, 7, 18, 0, 1⟩) (cidOf n) (n + 1)
    (.forwarding ⟨putI32 (cidOf n), n⟩)

theorem Holds.handsOn {n : Nat} {m : Multiplex} (holds : Holds n m) (room : n < respCapacity) :
    ∃ t, small.run m handedOn = some t ∧ Waits (n + 1) t := by
  obtain ⟨now, remap, asked, ⟨sent, respRx, queue, relay⟩, received, routed, upstream⟩ := holds
  let answer : Answer := ⟨putI32 (cidOf n), n⟩
  let resp : DownstreamResp :=
    ⟨routeResponse .unknown ⟨∅⟩ answer.data ⟨⟨0, n⟩, 7, 18, 0, 1⟩, n, answer⟩
  have free : respRx.length < respCapacity := queue ▸ room
  have ran : small.run m handedOn = some { m with
      remap := ⟨∅, cidOf n, 2, 2⟩
      metrics := m.metrics.decCidMapEntries.decRequestsInFlight
      relays := Function.update m.relays 0 { m.relays 0 with respRx := respRx ++ [resp] }
      upstreams := Function.update m.upstreams 0 { Upstream.new 1 .running with
        received, routed := routed ++ [(answer, .queued ⟨0, n⟩)] } } := by
    simp [small, system, handedOn, System.run_cons, System.exec, step, upstreamStep, upstream,
      Upstream.new, setUpstream, setRelay, readCapacity, parse_cidOf, remap, CidRemap.take,
      Table.lookup_singleton, Table.erase_singleton, relay, free, answer, resp]
  refine ⟨_, ran, now, rfl, asked, ⟨sent, respRx ++ [resp], by simp [queue], ?_⟩, received, _, rfl⟩
  simp [relay]

theorem Holds.refused {n : Nat} {m : Multiplex} (holds : Holds n m) (full : respCapacity ≤ n) :
    ∃ t, small.run m handedOn = some t ∧
      (⟨putI32 (cidOf n), n⟩, .refused ⟨0, n⟩ n true) ∈ (t.upstreams 0).routed ∧
      (t.relays 0).listens = true := by
  obtain ⟨now, remap, asked, ⟨sent, respRx, queue, relay⟩, received, routed, upstream⟩ := holds
  have unable : ¬ n < respCapacity := Nat.not_lt_of_le full
  simp [small, system, handedOn, System.run_cons, System.exec, step, upstreamStep, upstream,
    Upstream.new, setUpstream, readCapacity, parse_cidOf, remap, CidRemap.take,
    Table.lookup_singleton, relay, queue, unable]

theorem Waits.asks {n : Nat} {m : Multiplex} (waits : Waits n m) :
    ∃ t, small.run m (askedAgain n) = some t ∧ Holds n t := by
  obtain ⟨now, remap, asked, ⟨sent, respRx, queue, relay⟩, received, routed, upstream⟩ := waits
  let data : Frame := [0, 18, 0, 0, 0, 0, 0, 7]
  let answer : Answer := ⟨putI32 (cidOf n), n⟩
  have parsed : parseRequestHeader data = some ⟨18, 0, 7⟩ := by decide +kernel
  have own (cid : Int32) : getI32 ((replaceCid data cid).drop 4) = cid := replaceCid_cid _ (by decide)
  have next : CidRemap.cidAfter (CidRemap.cidAt n) = cidOf n := CidRemap.cidAfter_cidAt _
  have ran : small.run m (askedAgain n) = some { m with
      remap := ⟨AList.singleton (cidOf n) ⟨⟨0, n⟩, 7, 18, 0, 1⟩, cidOf n, 2, 2⟩
      metrics := m.metrics.incCidMapEntries.incRequestsInFlight
      requests := m.requests ++ [⟨0, ⟨sent.length, data, ⟨18, 0, 7⟩⟩, 0⟩]
      relays := Function.update m.relays 0 { m.relays 0 with
        sent := sent ++ [data], read := sent.length + 1 }
      upstreams := Function.update m.upstreams 0 { Upstream.new 1 (.forwarding answer) with
        received := received ++ [answer], routed } } := by
    simp [small, system, askedAgain, System.run_cons, System.exec, step, relayStep, relay, setRelay,
      now, asked, parsed, remap, CidRemap.full, CidRemap.allocCidU, next, CidRemap.store,
      upstreamStep, upstream, Upstream.new, setUpstream, writeCapacity, own, parse_cidOf, answer, data]
  refine ⟨_, ran, now, rfl, by simp [asked], ⟨sent ++ [data], respRx, queue, ?_⟩, _, routed, rfl⟩
  simp [relay]

theorem holds_reachable (n : Nat) (few : n ≤ respCapacity) : ∃ m, small.Reachable m ∧ Holds n m := by
  induction n with
  | zero =>
      refine ⟨_, System.Reach.exec (.initial rfl) askedFirst rfl, ?_⟩
      exact ⟨rfl, rfl, rfl, ⟨_, _, rfl, rfl⟩, _, _, rfl⟩
  | succ n ih =>
      obtain ⟨m, reachable, holds⟩ := ih (Nat.le_of_succ_le few)
      obtain ⟨middle, first, waits⟩ := holds.handsOn few
      obtain ⟨t, second, holds⟩ := waits.asks
      exact ⟨t, (reachable.exec handedOn first).exec (askedAgain (n + 1)) second, holds⟩

theorem ends_refused : Ends small (.refused ⟨0, respCapacity⟩ respCapacity true) := by
  obtain ⟨m, reachable, holds⟩ := holds_reachable respCapacity le_rfl
  obtain ⟨t, ran, routed, listens⟩ := holds.refused le_rfl
  obtain ⟨_, remap, _, _, _, _, upstream⟩ := holds
  refine ⟨m, reachable, 0, _, cidOf respCapacity, ⟨⟨0, respCapacity⟩, 7, 18, 0, 1⟩, ?_,
    parse_cidOf respCapacity, ?_, handedOn, t, ran, routed, listens⟩
  · rw [upstream]
    rfl
  · rw [remap]
    exact Table.lookup_singleton ..

theorem ends_unmatched : Ends small .unmatched := by
  let failure : List MultiplexAction :=
    [.upstream 0 .forward, .upstream 0 .fail, .upstream 0 .cleanup, .upstream 0 .take]
  obtain ⟨m, reachable, phase, found, ended⟩ := small.exists_reach (fun _ _ => True) (.new 2 (.new true))
    askedFirst
    (fun m => (m.upstreams 0).writeLoop = .forwarding ⟨putI32 (cidOf 0), 0⟩ ∧
      m.remap.map.lookup (cidOf 0) = some ⟨⟨0, 0⟩, 7, 18, 0, 1⟩ ∧
      (small.run m failure).any fun n => decide (
        (⟨putI32 (cidOf 0), 0⟩, .unmatched) ∈ (n.upstreams 0).routed ∧ (n.relays 0).listens = true))
    rfl (by decide +kernel)
  obtain ⟨n, ran, ended⟩ := (Option.any_eq_true ..).mp ended
  obtain ⟨routed, listens⟩ := of_decide_eq_true ended
  exact ⟨m, reachable, 0, _, cidOf 0, _, phase, parse_cidOf 0, found, failure, n, ran, routed, listens⟩

theorem responses_discarded : (¬ ∀ outcome, Ends small outcome → ∃ tx, outcome = .queued tx) ∧
    Ends small (.refused ⟨0, 256⟩ 256 true) ∧ Ends small .unmatched := by
  refine ⟨?_, ends_refused, ends_unmatched⟩
  intro claim
  obtain ⟨tx, queued⟩ := claim _ ends_refused
  cases queued

end Multiplex
end KafkaProxy.Pooled
