import KafkaProxy.Pooled.Delivery

/-!
# The order of the responses

A connection keeps the order of its requests. Over two connections there is no order, so a client has
its responses in order as long as what it waits for is on its way over one connection.
-/

namespace KafkaProxy.Pooled
open Library

def DownToUp.unsent : DownToUp → Option Int32
  | .count _ cidU _ | .send _ cidU _ | .cancel cidU => some cidU
  | .absent | .waiting _ | .checking _ | .borrow _ | .acquiring _ | .register _ | .alloc _ | .store ..
  | .leaving | .returned => none

def ReadLoop.tag? : ReadLoop → Option Nat
  | .receiving => none
  | .routing _ entry => some entry.downstreamTx.tag

def Upstream.flow (u : Upstream) : List Nat :=
  u.pending.map (·.tag) ++ u.incoming.map (·.tag) ++ u.unanswered.map (·.tag) ++ u.writeRx.map (·.tag)

/-- The broker answers in the order in which it was asked, and the connection does not fail. -/
def UpstreamAction.InTurn : UpstreamAction → Prop
  | .answer n _ => n = 0
  | .writeFailed | .fail => False
  | _ => True

def MultiplexAction.InTurn : MultiplexAction → Prop
  | .upstream _ action => action.InTurn
  | .tick _ | .create | .relay _ _ => True

instance : DecidablePred UpstreamAction.InTurn
  | .answer n _ => inferInstanceAs (Decidable (n = 0))
  | .writeFailed | .fail => inferInstanceAs (Decidable False)
  | .write | .closed | .read | .forward | .cleanup | .finish | .take | .route =>
      inferInstanceAs (Decidable True)

instance : DecidablePred MultiplexAction.InTurn
  | .upstream _ action => inferInstanceAs (Decidable action.InTurn)
  | .tick _ | .create | .relay _ _ => inferInstanceAs (Decidable True)

namespace Multiplex

/-- The response to the request is not in the queue of the client, and may come there. -/
def Outstanding (m : Multiplex) (tag : Nat) : Prop :=
  ∃ req ∈ m.requests[tag]?, (∃ entry ∈ m.remap.map.lookup (cidOf tag), entry.downstreamTx.tag = tag) ∨
    (m.upstreams req.writeTx).readLoop.tag? = some tag

def UnderWay (m : Multiplex) (tag : Nat) : Prop :=
  ∃ req ∈ m.requests[tag]?, tag ∈ (m.upstreams req.writeTx).flow ∨
    (m.relays req.client).downToUp.unsent.isSome = true ∧
      ∃ frame ∈ (m.relays req.client).downToUp.registered, frame.2.2 = tag

def CidFree (m : Multiplex) (tag : Nat) : Prop :=
  ∀ other < m.requests.length, other ≠ tag → cidOf other = cidOf tag → ¬ m.UnderWay other

/-- The client waits for responses over the connection `k` only. -/
def OneConnection (m : Multiplex) (i k : Nat) : Prop :=
  ∀ tag < m.requests.length, m.Outstanding tag → ∀ req ∈ m.requests[tag]?, req.client = i →
    req.writeTx = k

def storing? (m : Multiplex) : MultiplexAction → Option (Nat × Nat × Nat)
  | .relay i .store =>
      match (m.relays i).downToUp, (m.relays i).lease with
      | .store _ _ tag, some conn => some (i, tag, conn.writeTx)
      | _, _ => none
  | _ => none

/-- An entry is stored under a free correlation id, for the connection over which its client waits. -/
def Keeps (m : Multiplex) (action : MultiplexAction) : Prop :=
  ∀ stored ∈ m.storing? action, m.CidFree stored.2.1 ∧ m.OneConnection stored.1 stored.2.2

def routing? (m : Multiplex) : MultiplexAction → Option Entry
  | .upstream k .route =>
      match (m.upstreams k).readLoop with
      | .routing _ entry => some entry
      | .receiving => none
  | _ => none

/-- The brokers answer in turn, no connection fails and no queue of a client is full. -/
def Assumed (m : Multiplex) (action : MultiplexAction) : Prop :=
  action.InTurn ∧ ∀ entry ∈ m.routing? action,
    (m.relays entry.downstreamTx.client).respRx.length < respCapacity

instance (m : Multiplex) (tag : Nat) : Decidable (m.Outstanding tag) :=
  inferInstanceAs (Decidable (∃ req ∈ m.requests[tag]?, _ ∨ _))

instance (m : Multiplex) (tag : Nat) : Decidable (m.UnderWay tag) :=
  inferInstanceAs (Decidable (∃ req ∈ m.requests[tag]?, _ ∨ _))

instance (m : Multiplex) (tag : Nat) : Decidable (m.CidFree tag) :=
  inferInstanceAs (Decidable (∀ other < m.requests.length, _))

instance (m : Multiplex) (i k : Nat) : Decidable (m.OneConnection i k) :=
  inferInstanceAs (Decidable (∀ tag < m.requests.length, _))

instance (m : Multiplex) (action : MultiplexAction) : Decidable (m.Keeps action) :=
  inferInstanceAs (Decidable (∀ stored ∈ m.storing? action, _))

instance (m : Multiplex) (action : MultiplexAction) : Decidable (m.Assumed action) :=
  inferInstanceAs (Decidable (_ ∧ ∀ entry ∈ m.routing? action, _))

/-! ## What the order rests on -/

def SameClient (m : Multiplex) (a b : Nat) : Prop :=
  ∃ r s, m.requests[a]? = some r ∧ m.requests[b]? = some s ∧ r.client = s.client

def Newest (m : Multiplex) (i tag : Nat) : Prop :=
  ∀ other req, m.requests[other]? = some req → req.client = i → other ≤ tag

def OnTheWay (m : Multiplex) (tag : Nat) : Prop := ∃ k, tag ∈ (m.upstreams k).flow

structure Opened (m : Multiplex) : Prop where
  requests : ∀ req ∈ m.requests, req.writeTx < m.opened
  leases : ∀ i conn, (m.relays i).lease = some conn → conn.writeTx < m.opened

/-- `sorted` is what the connections keep, `together` what the clients keep. The other parts say
where a request with an entry in the table is. -/
structure Order (m : Multiplex) : Prop where
  sorted : ∀ k, (m.upstreams k).flow.Pairwise fun a b => m.SameClient a b → a < b
  sameFlow : ∀ tag entry, m.OnTheWay tag → m.remap.map.lookup (cidOf tag) = some entry →
    entry.downstreamTx.tag = tag
  sameHand : ∀ i job cidU tag entry, (m.relays i).downToUp.registered = some (job, cidU, tag) →
    (m.relays i).downToUp.unsent.isSome = true → m.remap.map.lookup (cidOf tag) = some entry →
    entry.downstreamTx.tag = tag
  present : ∀ cidU entry, m.remap.map.lookup cidU = some entry → m.OnTheWay entry.downstreamTx.tag ∨
    (m.relays entry.downstreamTx.client).downToUp.unsent = some cidU
  newest : ∀ i job cidU tag, (m.relays i).downToUp.registered = some (job, cidU, tag) →
    m.Newest i tag ∧ ¬ m.OnTheWay tag
  unsent : ∀ i cidU entry, (m.relays i).downToUp.unsent = some cidU →
    m.remap.map.lookup cidU = some entry → entry.downstreamTx.client = i →
    m.Newest i entry.downstreamTx.tag ∧ ¬ m.OnTheWay entry.downstreamTx.tag
  together : ∀ a b r s, m.Outstanding a → m.Outstanding b → m.requests[a]? = some r →
    m.requests[b]? = some s → r.client = s.client → r.writeTx = s.writeTx

structure Ahead (m : Multiplex) : Prop where
  outstanding : ∀ i, ∀ resp ∈ (m.relays i).put, ∀ tag req, m.Outstanding tag →
    m.requests[tag]? = some req → req.client = i → resp.tag < tag
  put : ∀ i, ((m.relays i).put.map (·.tag)).Pairwise (· < ·)

variable {idle : Option Nat} {codecs : Codecs} {map : RewriteMap} {m n : Multiplex} {i k : Nat}
  {stage : Nat → Stage}

/-! ### Facts about where requests are -/

theorem Routing.tag? (routing : Routing codecs map stage m) {tag : Nat}
    (inHand : (m.upstreams k).readLoop.tag? = some tag) : ∃ answer entry,
      (m.upstreams k).readLoop = .routing answer entry ∧ entry.downstreamTx.tag = tag ∧
        answer.tag = tag ∧ stage tag = .inHand ∧ Fits m.requests entry ∧
        ∃ req, m.requests[tag]? = some req ∧ req.writeTx = k := by
  cases phase : (m.upstreams k).readLoop with
  | receiving => simp [phase, ReadLoop.tag?] at inHand
  | routing answer entry =>
      rw [phase, ReadLoop.tag?, Option.some.injEq] at inHand
      subst inHand
      obtain ⟨held, own, fits, _, known⟩ := (routing.upstream k).routing answer entry phase
      exact ⟨answer, entry, rfl, rfl, own, held, fits, own ▸ known⟩

theorem Routing.flow (routing : Routing codecs map stage m) {tag : Nat}
    (member : tag ∈ (m.upstreams k).flow) : ∃ req, m.requests[tag]? = some req ∧ req.writeTx = k := by
  have here := routing.upstream k
  simp only [Upstream.flow, Upstream.pending, List.map_append, List.mem_append, List.mem_map] at member
  rcases member with ((((⟨answer, held, rfl⟩ | ⟨answer, read, rfl⟩) | ⟨answer, held, rfl⟩) |
    ⟨answer, incoming, rfl⟩) | ⟨write, sent, rfl⟩) | ⟨write, queued, rfl⟩
  · cases phase : (m.upstreams k).readLoop with
    | receiving => simp [phase, ReadLoop.holds] at held
    | routing other entry =>
        rw [phase, ReadLoop.holds, List.mem_singleton] at held
        exact held ▸ (here.routing other entry phase).2.2.2.2
  · exact (here.readRx answer read).2
  · cases phase : (m.upstreams k).writeLoop with
    | forwarding other =>
        rw [phase, WriteLoop.holds, List.mem_singleton] at held
        exact held ▸ (here.forwarding other phase).2
    | _ => simp [phase, WriteLoop.holds] at held
  · exact (here.incoming answer incoming).2
  · exact (here.unanswered write sent).2
  · exact (here.queued write queued).2

theorem Routing.outstanding_table (routing : Routing codecs map stage m) {cidU : Int32} {entry : Entry}
    (found : m.remap.map.lookup cidU = some entry) : m.Outstanding entry.downstreamTx.tag := by
  obtain ⟨_, rfl, req, known, _⟩ := routing.table cidU entry found
  exact ⟨req, known, .inl ⟨entry, found, rfl⟩⟩

theorem Routing.outstanding_tag? (routing : Routing codecs map stage m) {tag : Nat}
    (inHand : (m.upstreams k).readLoop.tag? = some tag) : m.Outstanding tag := by
  obtain ⟨_, _, _, _, _, _, _, req, known, rfl⟩ := routing.tag? inHand
  exact ⟨req, known, .inr inHand⟩

theorem Outstanding.cases {tag : Nat} (outstanding : m.Outstanding tag) :
    (∃ entry, m.remap.map.lookup (cidOf tag) = some entry ∧ entry.downstreamTx.tag = tag) ∨
      ∃ k, (m.upstreams k).readLoop.tag? = some tag := by
  obtain ⟨req, _, ⟨entry, found, same⟩ | inHand⟩ := outstanding
  · exact .inl ⟨entry, found, same⟩
  · exact .inr ⟨_, inHand⟩

theorem Routing.known (routing : Routing codecs map stage m) {tag : Nat} (way : m.OnTheWay tag) :
    ∃ req, m.requests[tag]? = some req := by
  obtain ⟨k, member⟩ := way
  obtain ⟨req, known, _⟩ := routing.flow member
  exact ⟨req, known⟩

theorem Routing.issued (routing : Routing codecs map stage m) {job : Job} {cidU : Int32} {tag : Nat}
    {conn : Acquired} (registered : (m.relays i).downToUp.registered = some (job, cidU, tag))
    (leased : (m.relays i).lease = some conn) :
    cidU = cidOf tag ∧ m.requests[tag]? = some ⟨i, job, conn.writeTx⟩ := by
  obtain ⟨cid, held, same, known⟩ := (routing.relay i).issued job cidU tag registered
  rw [leased, Option.some.injEq] at same
  exact ⟨cid, same ▸ known⟩

theorem Routing.registered_ne (routing : Routing codecs map stage m) {job : Job} {cidU : Int32}
    {tag other : Nat} {req : Request}
    (registered : (m.relays i).downToUp.registered = some (job, cidU, other))
    (known : m.requests[tag]? = some req) (client : i ≠ req.client) : other ≠ tag := by
  rintro rfl
  obtain ⟨_, _, _, asked⟩ := (routing.relay i).issued job cidU other registered
  rw [known, Option.some.injEq] at asked
  exact client (congrArg Request.client asked).symm

/-! ### Steps that only take away -/

structure Shrinks (m n : Multiplex) : Prop where
  requests : n.requests = m.requests
  table : ∀ cidU entry, n.remap.map.lookup cidU = some entry → m.remap.map.lookup cidU = some entry
  flow : ∀ k, ((n.upstreams k).flow).Sublist (m.upstreams k).flow
  outstanding : ∀ tag, n.Outstanding tag → m.Outstanding tag
  registered : ∀ i frame, (n.relays i).downToUp.registered = some frame →
    (m.relays i).downToUp.registered = some frame
  unsent : ∀ i cidU, (n.relays i).downToUp.unsent = some cidU →
    (m.relays i).downToUp.unsent = some cidU
  present : ∀ cidU entry, n.remap.map.lookup cidU = some entry → n.OnTheWay entry.downstreamTx.tag ∨
    (n.relays entry.downstreamTx.client).downToUp.unsent = some cidU

theorem Order.shrink (order : m.Order) (shrinks : Shrinks m n) : n.Order := by
  have way (tag : Nat) (after : n.OnTheWay tag) : m.OnTheWay tag := by
    obtain ⟨k, member⟩ := after
    exact ⟨k, (shrinks.flow k).subset member⟩
  have newest (i tag : Nat) (before : m.Newest i tag ∧ ¬ m.OnTheWay tag) :
      n.Newest i tag ∧ ¬ n.OnTheWay tag := by
    refine ⟨fun other req known => before.1 other req (shrinks.requests ▸ known), ?_⟩
    exact fun after => before.2 (way tag after)
  refine ⟨?_, ?_, ?_, shrinks.present, ?_, ?_, ?_⟩
  · intro k
    refine ((order.sorted k).sublist (shrinks.flow k)).imp ?_
    intro a b increasing same
    rw [SameClient, shrinks.requests] at same
    exact increasing same
  · intro tag entry after found
    exact order.sameFlow tag entry (way tag after) (shrinks.table _ _ found)
  · intro i job cidU tag entry frame held found
    obtain ⟨cid, holds⟩ := Option.isSome_iff_exists.mp held
    exact order.sameHand i job cidU tag entry (shrinks.registered i _ frame)
      (by rw [shrinks.unsent i cid holds]; rfl) (shrinks.table _ _ found)
  · intro i job cidU tag frame
    exact newest i tag (order.newest i job cidU tag (shrinks.registered i _ frame))
  · intro i cidU entry held found client
    exact newest i _ (order.unsent i cidU entry (shrinks.unsent i cidU held)
      (shrinks.table _ _ found) client)
  · intro a b r s first second
    rw [shrinks.requests]
    exact order.together a b r s (shrinks.outstanding a first) (shrinks.outstanding b second)

theorem Ahead.keep (ahead : m.Ahead) (put : ∀ i, (n.relays i).put = (m.relays i).put)
    (awaited : ∀ tag req, n.Outstanding tag → n.requests[tag]? = some req →
      m.Outstanding tag ∧ m.requests[tag]? = some req ∨
        ∀ resp ∈ (m.relays req.client).put, resp.tag < tag) : n.Ahead := by
  constructor
  · intro i resp member tag req outstanding known client
    rw [put i] at member
    rcases awaited tag req outstanding known with ⟨before, same⟩ | later
    · exact ahead.outstanding i resp member tag req before same client
    · exact later resp (client ▸ member)
  · intro i
    rw [put i]
    exact ahead.put i

/-! ### The steps of a connection -/

theorem UpstreamMove.flow {action : UpstreamAction} (routing : Routing codecs map stage m)
    (inTurn : action.InTurn) (move : UpstreamMove codecs map m k (m.upstreams k) action n) :
    (n.upstreams k).flow = (m.upstreams k).flow ∨
      ∃ tag, (m.upstreams k).flow = tag :: (n.upstreams k).flow ∧
        ∀ cidU entry, m.remap.map.lookup cidU = some entry → entry.downstreamTx.tag ≠ tag := by
  have here := routing.upstream k
  have inHand (answer : Answer) (entry : Entry)
      (phase : (m.upstreams k).readLoop = .routing answer entry) (cidU : Int32) (other : Entry)
      (found : m.remap.map.lookup cidU = some other) : other.downstreamTx.tag ≠ answer.tag := by
    obtain ⟨held, own, _⟩ := here.routing answer entry phase
    intro same
    rw [← own, ← same, (routing.table cidU other found).1] at held
    cases held
  cases move with
  | @answer index data req asked echoes =>
      left
      cases inTurn
      cases queue : (m.upstreams k).unanswered with
      | nil => simp [queue] at asked
      | cons first rest =>
          rw [queue, List.getElem?_cons_zero, Option.some.injEq] at asked
          subst asked
          simp [Upstream.flow, Upstream.pending, queue]
  | write phase queue => simp [Upstream.flow, Upstream.pending, queue]
  | writeFailed phase queue => exact inTurn.elim
  | fail phase => exact inTurn.elim
  | closed phase empty => simp [Upstream.flow, Upstream.pending, phase, WriteLoop.holds]
  | read phase queue => simp [Upstream.flow, Upstream.pending, phase, queue, WriteLoop.holds]
  | forward phase room => simp [Upstream.flow, Upstream.pending, phase, WriteLoop.holds]
  | cleanup phase => simp [Upstream.flow, Upstream.pending, phase, WriteLoop.holds]
  | finish phase => simp [Upstream.flow, Upstream.pending, phase, WriteLoop.holds]
  | take phase queue parsed found =>
      simp [Upstream.flow, Upstream.pending, phase, queue, ReadLoop.holds]
  | @unmatched answer rest phase queue missing =>
      refine .inr ⟨answer.tag, ?_, ?_⟩
      · simp [Upstream.flow, Upstream.pending, phase, queue, ReadLoop.holds]
      · rintro cidU entry found same
        have parsed := (here.readRx answer (by rw [queue]; exact List.mem_cons_self)).1
        rw [(routing.table cidU entry found).2.1, same, missing _ parsed] at found
        cases found
  | @route answer entry phase listens room =>
      exact .inr ⟨answer.tag, by simp [Upstream.flow, Upstream.pending, phase, ReadLoop.holds],
        inHand answer entry phase⟩
  | @discard answer entry phase unable =>
      exact .inr ⟨answer.tag, by simp [Upstream.flow, Upstream.pending, phase, ReadLoop.holds],
        inHand answer entry phase⟩

theorem UpstreamMove.table {action : UpstreamAction} {u : Upstream}
    (move : UpstreamMove codecs map m k u action n) {cidU : Int32} {entry : Entry}
    (found : n.remap.map.lookup cidU = some entry) : m.remap.map.lookup cidU = some entry := by
  cases move with
  | cleanup phase => exact (Table.lookup_retain_eq_some.mp found).1
  | take phase queue parsed there => exact (Table.lookup_erase_eq_some.mp found).2
  | _ => exact found

theorem UpstreamMove.outstanding {action : UpstreamAction} (routing : Routing codecs map stage m)
    (move : UpstreamMove codecs map m k (m.upstreams k) action n) {tag : Nat}
    (outstanding : n.Outstanding tag) : m.Outstanding tag := by
  rcases outstanding.cases with ⟨entry, found, rfl⟩ | ⟨l, inHand⟩
  · exact routing.outstanding_table (move.table found)
  · by_cases same : l = k
    · subst same
      cases move with
      | take phase queue parsed found =>
          simp only [setUpstream_upstreams, Function.update_self, ReadLoop.tag?,
            Option.some.injEq] at inHand
          exact inHand ▸ routing.outstanding_table found
      | route | discard => simp [ReadLoop.tag?] at inHand
      | answer | write | writeFailed | fail | closed | read | forward | cleanup | finish
      | unmatched =>
          simp only [setUpstream_upstreams, Function.update_self] at inHand
          exact routing.outstanding_tag? inHand
    · rw [move.upstreams_other same] at inHand
      exact routing.outstanding_tag? inHand

theorem UpstreamMove.shrinks {action : UpstreamAction} (routing : Routing codecs map stage m)
    (order : m.Order) (inTurn : action.InTurn)
    (move : UpstreamMove codecs map m k (m.upstreams k) action n) : Shrinks m n := by
  have flow := move.flow routing inTurn
  have downToUp (i : Nat) : (n.relays i).downToUp = (m.relays i).downToUp := by
    obtain ⟨respRx, same⟩ := move.relays_eq i
    rw [same]
  refine ⟨?_, fun _ _ => move.table, ?_, fun _ => move.outstanding routing, ?_, ?_, ?_⟩
  · cases move <;> rfl
  · intro l
    by_cases same : l = k
    · subst same
      rcases flow with same | ⟨tag, ends, _⟩
      · rw [same]
      · rw [ends]
        exact List.sublist_cons_self _ _
    · rw [move.upstreams_other same]
  · intro i frame registered
    rwa [downToUp i] at registered
  · intro i cidU unsent
    rwa [downToUp i] at unsent
  · intro cidU entry found
    have before := move.table found
    rcases order.present cidU entry before with ⟨l, member⟩ | unsent
    · refine .inl ⟨l, ?_⟩
      by_cases same : l = k
      · subst same
        rcases flow with same | ⟨tag, ends, gone⟩
        · rw [same]
          exact member
        · rw [ends] at member
          exact List.mem_of_ne_of_mem (gone cidU entry before) member
      · rw [move.upstreams_other same]
        exact member
    · exact .inr (by rw [downToUp]; exact unsent)

theorem Order.first (order : m.Order) (routing : Routing codecs map stage m) {tag other : Nat}
    {rest : List Nat} {req later : Request} (inHand : (m.upstreams k).readLoop.tag? = some tag)
    (head : (m.upstreams k).flow = tag :: rest) (known : m.requests[tag]? = some req)
    (outstanding : m.Outstanding other) (asked : m.requests[other]? = some later)
    (client : later.client = req.client) (different : other ≠ tag) : tag < other := by
  obtain ⟨_, _, _, _, _, held, _, again, found, here⟩ := routing.tag? inHand
  rw [known, Option.some.injEq] at found
  subst found
  have together := order.together other tag later req outstanding
    (routing.outstanding_tag? inHand) asked known client
  have onTheWay : m.OnTheWay tag := ⟨k, by rw [head]; exact List.mem_cons_self⟩
  rcases outstanding.cases with ⟨entry, found, rfl⟩ | ⟨l, elsewhere⟩
  · have own : later.client = entry.downstreamTx.client := by
      obtain ⟨_, _, stored, same, fits⟩ := routing.table _ entry found
      rw [asked, Option.some.injEq] at same
      rw [same, fits]
      rfl
    rcases order.present _ entry found with ⟨l, member⟩ | unsent
    · obtain ⟨_, same, via⟩ := routing.flow member
      rw [asked, Option.some.injEq] at same
      have behind : entry.downstreamTx.tag ∈ rest := by
        rw [← via, ← same, together, here, head] at member
        exact List.mem_of_ne_of_mem different member
      have sorted := order.sorted k
      rw [head, List.pairwise_cons] at sorted
      exact sorted.1 _ behind ⟨req, later, known, asked, client.symm⟩
    · obtain ⟨newest, gone⟩ := order.unsent _ _ entry unsent found rfl
      refine lt_of_le_of_ne (newest tag req known (by rw [← client, own])) ?_
      rintro rfl
      exact gone onTheWay
  · obtain ⟨_, _, _, _, _, _, _, _, same, via⟩ := routing.tag? elsewhere
    rw [asked, Option.some.injEq] at same
    rw [← via, ← same, together, here, inHand, Option.some.injEq] at elsewhere
    exact absurd elsewhere.symm different

theorem UpstreamMove.ahead {action : UpstreamAction} (routing : Routing codecs map stage m)
    (order : m.Order) (ahead : m.Ahead) (inTurn : action.InTurn)
    (move : UpstreamMove codecs map m k (m.upstreams k) action n) : n.Ahead := by
  have shrinks := move.shrinks routing order inTurn
  have other := fun l => move.upstreams_other (l := l)
  cases move with
  | @route answer entry phase listens room =>
      obtain ⟨held, own, ⟨req, known, fits⟩, _, _, carried, here⟩ :=
        (routing.upstream k).routing answer entry phase
      have client : entry.downstreamTx.client = req.client := by
        rw [fits]
        rfl
      have inHand : (m.upstreams k).readLoop.tag? = some entry.downstreamTx.tag := by
        rw [phase]
        rfl
      have head : (m.upstreams k).flow = entry.downstreamTx.tag :: (m.upstreams k).flow.tail := by
        simp [Upstream.flow, Upstream.pending, phase, ReadLoop.holds, own]
      have before := ahead.outstanding entry.downstreamTx.client
      constructor
      · intro i resp member tag later outstanding asked same
        have still := shrinks.outstanding tag outstanding
        have different : tag ≠ entry.downstreamTx.tag := by
          rintro rfl
          rcases outstanding.cases with ⟨twin, found, same⟩ | ⟨l, again⟩
          · rw [← same, (routing.table _ twin found).1] at held
            cases held
          · by_cases same : l = k
            · subst same
              simp [ReadLoop.tag?] at again
            · rw [other l same] at again
              obtain ⟨_, _, _, _, _, _, _, _, twin, there⟩ := routing.tag? again
              rw [← own, carried, Option.some.injEq] at twin
              exact same (by rw [← there, ← twin, here])
        by_cases here : i = entry.downstreamTx.client
        · subst here
          simp only [setRelay_relays, Function.update_self, PooledRelay.put, ← List.append_assoc,
            List.mem_append, List.mem_singleton] at member
          rcases member with older | rfl
          · exact before resp (List.mem_append.mpr older) tag later still asked same
          · exact order.first routing inHand head known still asked (same.trans client) different
        · rw [setRelay_relays, Function.update_of_ne here] at member
          exact ahead.outstanding i resp member tag later still asked same
      · intro i
        by_cases here : i = entry.downstreamTx.client
        · subst here
          simp only [setRelay_relays, Function.update_self, PooledRelay.put, ← List.append_assoc,
            List.map_append, List.map_singleton]
          rw [List.pairwise_append]
          refine ⟨?_, List.pairwise_singleton _ _, ?_⟩
          · have earlier := ahead.put entry.downstreamTx.client
            rwa [PooledRelay.put, List.map_append] at earlier
          · intro tag member new added
            rw [List.mem_singleton.mp added]
            rw [← List.map_append] at member
            obtain ⟨resp, older, rfl⟩ := List.mem_map.mp member
            exact before resp older _ req (routing.outstanding_tag? inHand) known client.symm
        · rw [setRelay_relays, Function.update_of_ne here]
          exact ahead.put i
  | answer | write | writeFailed | fail | closed | read | forward | cleanup | finish | take
  | unmatched | discard =>
      refine ahead.keep (fun _ => rfl) fun tag req outstanding known => .inl ⟨?_, known⟩
      exact shrinks.outstanding tag outstanding

/-! ### The steps of a relay -/

theorem RelayMove.outstanding {action : RelayAction} (routing : Routing codecs map stage m)
    (move : RelayMove idle m i (m.relays i) action n) {tag : Nat} (outstanding : n.Outstanding tag) :
    m.Outstanding tag ∨ ∃ job cidU, (m.relays i).downToUp = .store job cidU tag := by
  rcases outstanding.cases with ⟨entry, found, rfl⟩ | ⟨l, inHand⟩
  · cases move with
    | @store job cidU tag conn phase leased =>
        rcases Table.lookup_insert_eq_some.mp found with ⟨_, rfl⟩ | ⟨_, present⟩
        · exact .inr ⟨job, cidU, phase⟩
        · exact .inl (routing.outstanding_table present)
    | cancel phase => exact .inl (routing.outstanding_table (Table.lookup_erase_eq_some.mp found).2)
    | _ => exact .inl (routing.outstanding_table found)
  · obtain ⟨writeRx, same⟩ := move.upstreams_eq l
    rw [same] at inHand
    exact .inl (routing.outstanding_tag? inHand)

theorem RelayMove.awaited {action : RelayAction} (routing : Routing codecs map stage m)
    (move : RelayMove idle m i (m.relays i) action n) {tag : Nat} {req : Request}
    (outstanding : n.Outstanding tag) (known : n.requests[tag]? = some req) :
    m.Outstanding tag ∧ m.requests[tag]? = some req ∨
      ∃ job cidU, (m.relays i).downToUp = .store job cidU tag := by
  refine (move.outstanding routing outstanding).imp_left fun before => ⟨before, ?_⟩
  have ⟨_, same, _⟩ := before
  have more := move.requests_grow
  exact ((getElem?_of_isPrefix more same).symm.trans known) ▸ same

theorem RelayMove.put {action : RelayAction} (move : RelayMove idle m i (m.relays i) action n)
    (j : Nat) : (n.relays j).put = (m.relays j).put := by
  by_cases same : j = i
  · subst same
    cases move with
    | deliver listens queue => simp [PooledRelay.put, queue]
    | _ =>
        simp only [setRelay_relays, Function.update_self]
        rfl
  · rw [move.relays_other same]

theorem RelayMove.ahead {action : RelayAction} (routing : Routing codecs map stage m)
    (order : m.Order) (ahead : m.Ahead) (move : RelayMove idle m i (m.relays i) action n) :
    n.Ahead := by
  have more := move.requests_grow
  refine ahead.keep move.put fun tag req outstanding known => ?_
  refine (move.awaited routing outstanding known).imp_right ?_
  rintro ⟨job, cidU, phase⟩ resp member
  have registered : (m.relays i).downToUp.registered = some (job, cidU, tag) := by rw [phase]; rfl
  obtain ⟨_, conn, _, same⟩ := (routing.relay i).issued job cidU tag registered
  have again := getElem?_of_isPrefix more same
  rw [known, Option.some.injEq] at again
  subst again
  obtain ⟨queued, _, asked, _, found, client, _⟩ := (routing.relay i).queued resp member
  refine lt_of_le_of_ne ((order.newest i job cidU tag registered).1 _ asked found client) ?_
  rintro rfl
  rw [(routing.relay i).storing job cidU _ phase] at queued
  cases queued

theorem Shrinks.relay {r : PooledRelay} (routing : Routing codecs map stage m) (order : m.Order)
    (requests : n.requests = m.requests) (upstreams : n.upstreams = m.upstreams)
    (relays : n.relays = Function.update m.relays i r)
    (table : ∀ cidU entry, n.remap.map.lookup cidU = some entry →
      m.remap.map.lookup cidU = some entry)
    (registered : ∀ frame, r.downToUp.registered = some frame →
      (m.relays i).downToUp.registered = some frame)
    (unsent : ∀ cidU, r.downToUp.unsent = some cidU → (m.relays i).downToUp.unsent = some cidU)
    (keeps : ∀ cidU entry, n.remap.map.lookup cidU = some entry →
      (m.relays i).downToUp.unsent = some cidU → r.downToUp.unsent = some cidU) : Shrinks m n := by
  refine ⟨requests, table, fun k => by rw [upstreams], ?_, ?_, ?_, ?_⟩
  · intro tag outstanding
    rcases outstanding.cases with ⟨entry, found, rfl⟩ | ⟨l, inHand⟩
    · exact routing.outstanding_table (table _ _ found)
    · rw [upstreams] at inHand
      exact routing.outstanding_tag? inHand
  · intro j frame after
    rw [relays] at after
    by_cases same : j = i
    · subst same
      rw [Function.update_self] at after
      exact registered frame after
    · rwa [Function.update_of_ne same] at after
  · intro j cidU after
    rw [relays] at after
    by_cases same : j = i
    · subst same
      rw [Function.update_self] at after
      exact unsent cidU after
    · rwa [Function.update_of_ne same] at after
  · intro cidU entry found
    rcases order.present cidU entry (table _ _ found) with ⟨l, member⟩ | held
    · exact .inl ⟨l, by rw [upstreams]; exact member⟩
    · right
      rw [relays]
      by_cases same : entry.downstreamTx.client = i
      · rw [same] at held ⊢
        rw [Function.update_self]
        exact keeps cidU entry found held
      · rwa [Function.update_of_ne same]

theorem RelayMove.together {action : RelayAction} (order : m.Order)
    (routing : Routing codecs map stage m) (move : RelayMove idle m i (m.relays i) action n)
    (other : ∀ job cidU tag, (m.relays i).downToUp ≠ .store job cidU tag) {a b : Nat} {r s : Request}
    (first : n.Outstanding a) (second : n.Outstanding b) (knownA : n.requests[a]? = some r)
    (knownB : n.requests[b]? = some s) (same : r.client = s.client) : r.writeTx = s.writeTx := by
  have awaited (tag : Nat) (req : Request) (outstanding : n.Outstanding tag)
      (known : n.requests[tag]? = some req) : m.Outstanding tag ∧ m.requests[tag]? = some req := by
    refine (move.awaited routing outstanding known).resolve_right ?_
    rintro ⟨job, cidU, storing⟩
    exact other job cidU tag storing
  obtain ⟨awaitedA, earlierA⟩ := awaited a r first knownA
  obtain ⟨awaitedB, earlierB⟩ := awaited b s second knownB
  exact order.together a b r s awaitedA awaitedB earlierA earlierB same

theorem getElem?_concat_cases {τ : Type} {l : List τ} {a b : τ} {j : Nat}
    (found : (l ++ [a])[j]? = some b) : l[j]? = some b ∨ j = l.length ∧ b = a := by
  rcases Nat.lt_trichotomy j l.length with before | rfl | after
  · rw [List.getElem?_append_left before] at found
    exact .inl found
  · rw [List.getElem?_concat_length, Option.some.injEq] at found
    exact .inr ⟨rfl, found.symm⟩
  · rw [List.getElem?_eq_none (by simpa using Nat.succ_le_of_lt after)] at found
    cases found

theorem Order.alloc (order : m.Order) (routing : Routing codecs map stage m)
    (move : RelayMove idle m i (m.relays i) .alloc n) : n.Order := by
  have together := move.together order routing
  have elsewhere {j : Nat} (other : j ≠ i) : n.relays j = m.relays j := move.relays_other other
  cases move with
  | @alloc job conn phase leased =>
      have more : m.requests <+: m.requests ++ [⟨i, job, conn.writeTx⟩] := List.prefix_append _ _
      have newest (j tag : Nat) (other : j ≠ i) (before : m.Newest j tag ∧ ¬ m.OnTheWay tag) :
          (∀ u req, (m.requests ++ [⟨i, job, conn.writeTx⟩])[u]? = some req → req.client = j → u ≤ tag) ∧
            ¬ m.OnTheWay tag := by
        refine ⟨fun u req known client => ?_, before.2⟩
        rcases getElem?_concat_cases known with earlier | ⟨_, rfl⟩
        · exact before.1 u req earlier client
        · exact absurd client.symm other
      refine ⟨?_, order.sameFlow, ?_, ?_, ?_, ?_, ?_⟩
      · intro k
        refine (order.sorted k).imp_of_mem ?_
        rintro a b first second increasing ⟨r, s, knownA, knownB, same⟩
        obtain ⟨r', earlierA⟩ := routing.known ⟨k, first⟩
        obtain ⟨s', earlierB⟩ := routing.known ⟨k, second⟩
        have sameA := (getElem?_of_isPrefix more earlierA).symm.trans knownA
        have sameB := (getElem?_of_isPrefix more earlierB).symm.trans knownB
        rw [Option.some.injEq] at sameA sameB
        subst sameA sameB
        exact increasing ⟨r', s', earlierA, earlierB, same⟩
      · intro j job' cid tag entry registered held found
        by_cases same : j = i
        · subst same
          simp [DownToUp.unsent] at held
        · rw [elsewhere same] at registered held
          exact order.sameHand j job' cid tag entry registered held found
      · intro cid entry found
        rcases order.present cid entry found with way | held
        · exact .inl way
        · right
          by_cases same : entry.downstreamTx.client = i
          · rw [same, phase] at held
            cases held
          · rw [elsewhere same]
            exact held
      · intro j job' cid tag registered
        by_cases same : j = i
        · subst same
          simp only [setRelay_relays, Function.update_self, DownToUp.registered, Option.some.injEq,
            Prod.mk.injEq] at registered
          obtain ⟨_, _, rfl⟩ := registered
          constructor
          · intro u req known _
            have bound := (List.getElem?_eq_some_iff.mp known).1
            rw [List.length_append, List.length_singleton] at bound
            exact Nat.le_of_lt_succ bound
          · intro way
            obtain ⟨req, known⟩ := routing.known way
            exact absurd (List.getElem?_eq_some_iff.mp known).1 (Nat.lt_irrefl _)
        · rw [elsewhere same] at registered
          exact newest j tag same (order.newest j job' cid tag registered)
      · intro j cid entry held found client
        by_cases same : j = i
        · subst same
          simp [DownToUp.unsent] at held
        · rw [elsewhere same] at held
          exact newest j _ same (order.unsent j cid entry held found client)
      · intro a b r s first second
        exact together (by simp [phase]) first second

theorem CidFree.onTheWay {tag other : Nat} (free : m.CidFree tag)
    (routing : Routing codecs map stage m) (way : m.OnTheWay other) (different : other ≠ tag) :
    cidOf other ≠ cidOf tag := by
  obtain ⟨k, member⟩ := way
  obtain ⟨req, known, here⟩ := routing.flow member
  intro same
  exact free other (List.getElem?_eq_some_iff.mp known).1 different same
    ⟨req, known, .inl (by rw [here]; exact member)⟩

theorem CidFree.inHand {tag other : Nat} {j : Nat} {job : Job} {cidU : Int32} (free : m.CidFree tag)
    (routing : Routing codecs map stage m)
    (registered : (m.relays j).downToUp.registered = some (job, cidU, other))
    (held : (m.relays j).downToUp.unsent.isSome = true) (different : other ≠ tag) :
    cidOf other ≠ cidOf tag := by
  obtain ⟨_, conn, _, known⟩ := (routing.relay j).issued job cidU other registered
  intro same
  exact free other (List.getElem?_eq_some_iff.mp known).1 different same
    ⟨_, known, .inr ⟨held, _, registered, rfl⟩⟩

theorem OneConnection.together {tag a b : Nat} {job : Job} {r s : Request} (one : m.OneConnection i k)
    (order : m.Order) (known : m.requests[tag]? = some ⟨i, job, k⟩) (first : m.Outstanding a ∨ a = tag)
    (second : m.Outstanding b ∨ b = tag) (knownA : m.requests[a]? = some r)
    (knownB : m.requests[b]? = some s) (same : r.client = s.client) : r.writeTx = s.writeTx := by
  have here (other : Nat) (req : Request) (asked : m.requests[other]? = some req)
      (outstanding : m.Outstanding other ∨ other = tag) (client : req.client = i) :
      req.writeTx = k := by
    rcases outstanding with before | rfl
    · exact one other (List.getElem?_eq_some_iff.mp asked).1 before req asked client
    · rw [known, Option.some.injEq] at asked
      rw [← asked]
  have before (other : Nat) (req : Request) (asked : m.requests[other]? = some req)
      (outstanding : m.Outstanding other ∨ other = tag) (client : req.client ≠ i) :
      m.Outstanding other := by
    refine outstanding.resolve_right ?_
    rintro rfl
    rw [known, Option.some.injEq] at asked
    exact client (congrArg Request.client asked).symm
  by_cases client : r.client = i
  · rw [here a r knownA first client, here b s knownB second (same ▸ client)]
  · exact order.together a b r s (before a r knownA first client)
      (before b s knownB second (same ▸ client)) knownA knownB same

theorem Order.store (order : m.Order) (routing : Routing codecs map stage m)
    (keeps : m.Keeps (.relay i .store)) (move : RelayMove idle m i (m.relays i) .store n) :
    n.Order := by
  have awaited (tag : Nat) (req : Request) (outstanding : n.Outstanding tag)
      (known : n.requests[tag]? = some req) := move.awaited routing outstanding known
  have elsewhere {j : Nat} (other : j ≠ i) : n.relays j = m.relays j := move.relays_other other
  cases move with
  | @store job cidU tag conn phase leased =>
      obtain ⟨free, one⟩ := keeps (i, tag, conn.writeTx) (by simp [storing?, phase, leased])
      have registered : (m.relays i).downToUp.registered = some (job, cidU, tag) := by rw [phase]; rfl
      have unsent : (m.relays i).downToUp.unsent = none := by rw [phase]; rfl
      obtain ⟨newest, notYet⟩ := order.newest i job cidU tag registered
      obtain ⟨rfl, known⟩ := routing.issued registered leased
      refine ⟨order.sorted, ?_, ?_, ?_, ?_, ?_, ?_⟩
      · intro other entry way found
        have different : other ≠ tag := by
          rintro rfl
          exact notYet way
        rcases Table.lookup_insert_eq_some.mp found with ⟨same, _⟩ | ⟨_, present⟩
        · exact absurd same (free.onTheWay routing way different)
        · exact order.sameFlow other entry way present
      · intro j job' cid other entry hand held found
        by_cases here : j = i
        · subst here
          simp only [setRelay_relays, Function.update_self, DownToUp.registered, Option.some.injEq,
            Prod.mk.injEq] at hand
          obtain ⟨_, _, rfl⟩ := hand
          rcases Table.lookup_insert_eq_some.mp found with ⟨_, rfl⟩ | ⟨different, _⟩
          · rfl
          · exact absurd rfl different
        · rw [elsewhere here] at hand held
          have different := routing.registered_ne hand known here
          rcases Table.lookup_insert_eq_some.mp found with ⟨same, _⟩ | ⟨_, present⟩
          · exact absurd same (free.inHand routing hand held different)
          · exact order.sameHand j job' cid other entry hand held present
      · intro cid entry found
        rcases Table.lookup_insert_eq_some.mp found with ⟨rfl, rfl⟩ | ⟨_, present⟩
        · right
          rw [setRelay_relays, Function.update_self]
          rfl
        · refine (order.present cid entry present).imp_right fun held => ?_
          by_cases here : entry.downstreamTx.client = i
          · rw [here, unsent] at held
            cases held
          · rwa [elsewhere here]
      · intro j job' cid other hand
        by_cases here : j = i
        · subst here
          simp only [setRelay_relays, Function.update_self, DownToUp.registered, Option.some.injEq,
            Prod.mk.injEq] at hand
          obtain ⟨_, _, rfl⟩ := hand
          exact ⟨newest, notYet⟩
        · rw [elsewhere here] at hand
          exact order.newest j job' cid other hand
      · intro j cid entry held found client
        by_cases here : j = i
        · subst here
          simp only [setRelay_relays, Function.update_self, DownToUp.unsent,
            Option.some.injEq] at held
          rcases Table.lookup_insert_eq_some.mp found with ⟨_, rfl⟩ | ⟨different, _⟩
          · exact ⟨newest, notYet⟩
          · exact absurd held.symm different
        · rw [elsewhere here] at held
          rcases Table.lookup_insert_eq_some.mp found with ⟨_, rfl⟩ | ⟨_, present⟩
          · exact absurd client.symm here
          · exact order.unsent j cid entry held present client
      · intro a b r s first second knownA knownB same
        have stored (other : Nat) (storing : ∃ job' cid,
            (m.relays i).downToUp = .store job' cid other) : other = tag := by
          obtain ⟨_, _, storing⟩ := storing
          rw [phase] at storing
          cases storing
          rfl
        exact one.together order known ((awaited a r first knownA).imp And.left (stored a))
          ((awaited b s second knownB).imp And.left (stored b)) knownA knownB same

theorem RelayMove.flow_push {job : Job} {cidU : Int32} {tag : Nat} {conn : Acquired}
    (move : RelayMove idle m i (m.relays i) .push n)
    (sending : (m.relays i).downToUp = .send job cidU tag) (held : (m.relays i).lease = some conn)
    (k : Nat) : (n.upstreams k).flow = (m.upstreams k).flow ++ if k = conn.writeTx then [tag] else [] := by
  cases move with
  | push phase leased listens room =>
      rw [sending, DownToUp.send.injEq] at phase
      rw [held, Option.some.injEq] at leased
      obtain ⟨rfl, rfl, rfl⟩ := phase
      subst leased
      by_cases here : k = conn.writeTx
      · subst here
        simp [Upstream.flow, Upstream.pending]
      · simp [here]

theorem RelayMove.onTheWay_push {job : Job} {cidU : Int32} {tag : Nat} {conn : Acquired}
    (move : RelayMove idle m i (m.relays i) .push n)
    (sending : (m.relays i).downToUp = .send job cidU tag) (held : (m.relays i).lease = some conn)
    (other : Nat) : n.OnTheWay other ↔ m.OnTheWay other ∨ other = tag := by
  simp only [OnTheWay, move.flow_push sending held, List.mem_append]
  constructor
  · rintro ⟨k, member | added⟩
    · exact .inl ⟨k, member⟩
    · by_cases here : k = conn.writeTx
      · rw [if_pos here, List.mem_singleton] at added
        exact .inr added
      · simp [here] at added
  · rintro (⟨k, member⟩ | rfl)
    · exact ⟨k, .inl member⟩
    · exact ⟨conn.writeTx, .inr (by simp)⟩

theorem Order.push (order : m.Order) (routing : Routing codecs map stage m)
    (move : RelayMove idle m i (m.relays i) .push n) : n.Order := by
  have together := move.together order routing
  have flow (job : Job) (cidU : Int32) (tag : Nat) (conn : Acquired)
      (sending : (m.relays i).downToUp = .send job cidU tag)
      (held : (m.relays i).lease = some conn) := move.flow_push sending held
  have way (job : Job) (cidU : Int32) (tag : Nat) (conn : Acquired)
      (sending : (m.relays i).downToUp = .send job cidU tag)
      (held : (m.relays i).lease = some conn) := move.onTheWay_push sending held
  have elsewhere {j : Nat} (other : j ≠ i) : n.relays j = m.relays j := move.relays_other other
  cases move with
  | @push job cidU tag conn phase leased listens room =>
      have registered : (m.relays i).downToUp.registered = some (job, cidU, tag) := by rw [phase]; rfl
      have held : (m.relays i).downToUp.unsent = some cidU := by rw [phase]; rfl
      obtain ⟨newest, notYet⟩ := order.newest i job cidU tag registered
      obtain ⟨rfl, known⟩ := routing.issued registered leased
      have flow := flow job _ tag conn phase leased
      have way := way job _ tag conn phase leased
      refine ⟨?_, ?_, ?_, ?_, ?_, ?_, ?_⟩
      · intro k
        rw [flow]
        by_cases here : k = conn.writeTx
        · rw [if_pos here, List.pairwise_append]
          refine ⟨order.sorted k, List.pairwise_singleton _ _, ?_⟩
          rintro a member b added ⟨r, s, knownA, knownB, same⟩
          rw [List.mem_singleton.mp added] at knownB ⊢
          have own := Option.some.inj (known.symm.trans knownB)
          refine lt_of_le_of_ne (newest a r knownA (by rw [same, ← own])) ?_
          rintro rfl
          exact notYet ⟨k, member⟩
        · rw [if_neg here, List.append_nil]
          exact order.sorted k
      · intro other entry onTheWay found
        rcases (way other).mp onTheWay with before | rfl
        · exact order.sameFlow other entry before found
        · exact order.sameHand i job _ other entry registered (by rw [held]; rfl) found
      · intro j job' cid other entry hand unsent found
        by_cases here : j = i
        · subst here
          simp [DownToUp.registered] at hand
        · rw [elsewhere here] at hand unsent
          exact order.sameHand j job' cid other entry hand unsent found
      · intro cid entry found
        rcases order.present cid entry found with before | unsent
        · exact .inl ((way _).mpr (.inl before))
        · by_cases here : entry.downstreamTx.client = i
          · rw [here, held, Option.some.injEq] at unsent
            subst unsent
            have own := order.sameHand i job _ tag entry registered (by rw [held]; rfl) found
            exact .inl ((way _).mpr (.inr own))
          · right
            rwa [elsewhere here]
      · intro j job' cid other hand
        by_cases here : j = i
        · subst here
          simp [DownToUp.registered] at hand
        · rw [elsewhere here] at hand
          obtain ⟨last, gone⟩ := order.newest j job' cid other hand
          refine ⟨last, fun onTheWay => ?_⟩
          rcases (way other).mp onTheWay with before | rfl
          · exact gone before
          · exact routing.registered_ne hand known here rfl
      · intro j cid entry unsent found client
        by_cases here : j = i
        · subst here
          simp [DownToUp.unsent] at unsent
        · rw [elsewhere here] at unsent
          obtain ⟨last, gone⟩ := order.unsent j cid entry unsent found client
          refine ⟨last, fun onTheWay => ?_⟩
          rcases (way _).mp onTheWay with before | own
          · exact gone before
          · obtain ⟨_, _, req, asked, fits⟩ := routing.table cid entry found
            rw [own, known, Option.some.injEq] at asked
            apply here
            rw [← client, fits, ← asked]
            rfl
      · intro a b r s first second
        exact together (by simp [phase]) first second

theorem RelayMove.order {action : RelayAction} (order : m.Order)
    (routing : Routing codecs map stage m) (keeps : m.Keeps (.relay i action))
    (move : RelayMove idle m i (m.relays i) action n) : n.Order := by
  have alloc (move : RelayMove idle m i (m.relays i) .alloc n) : n.Order := order.alloc routing move
  have store (move : RelayMove idle m i (m.relays i) .store n) (keeps : m.Keeps (.relay i .store)) :
      n.Order := order.store routing keeps move
  have push (move : RelayMove idle m i (m.relays i) .push n) : n.Order := order.push routing move
  cases move with
  | alloc phase leased => exact alloc (.alloc phase leased)
  | store phase leased => exact store (.store phase leased) keeps
  | push phase leased listens room => exact push (.push phase leased listens room)
  | cancel phase =>
      apply order.shrink
      refine .relay routing order rfl rfl rfl
        (fun _ _ found => (Table.lookup_erase_eq_some.mp found).2) (by simp [DownToUp.registered])
        (by simp [DownToUp.unsent]) ?_
      intro cidU entry found unsent
      rw [phase] at unsent
      cases unsent
      exact absurd rfl (Table.lookup_erase_eq_some.mp found).1
  | request data | deliver listens queue | deliverFailed listens
  | respClosed listens empty done last =>
      exact order.shrink (.relay routing order rfl rfl rfl (fun _ _ found => found)
        (fun _ same => same) (fun _ same => same) fun _ _ _ same => same)
  | connect phase | next phase | skip phase | keep phase | giveBack phase | borrow phase
  | acquired phase | acquireFailed phase | check phase | refuse phase | count phase | pushFailed phase
  | hangUp phase | idle phase | leave phase =>
      refine order.shrink (.relay routing order rfl rfl rfl (fun _ _ found => found) ?_ ?_ ?_) <;>
        simp [phase, DownToUp.registered, DownToUp.unsent]

/-! ### Runs -/

theorem Opened.step {action : MultiplexAction} (opened : m.Opened)
    (change : Change idle codecs map m action n) : n.Opened := by
  cases change with
  | tick elapsed => exact { opened with }
  | create =>
      refine ⟨fun req member => (opened.requests req member).trans (Nat.lt_succ_self _), ?_⟩
      exact fun i conn leased => (opened.leases i conn leased).trans (Nat.lt_succ_self _)
  | upstream move =>
      have same : n.requests = m.requests ∧ n.opened = m.opened := by cases move <;> exact ⟨rfl, rfl⟩
      refine ⟨?_, fun i conn leased => ?_⟩
      · rw [same.1, same.2]
        exact opened.requests
      · obtain ⟨respRx, unchanged⟩ := move.relays_eq i
        rw [unchanged] at leased
        rw [same.2]
        exact opened.leases i conn leased
  | @relay i action _ move =>
      have leases (r : PooledRelay)
          (here : ∀ conn, r.lease = some conn → conn.writeTx < m.opened) (j : Nat) (conn : Acquired)
          (leased : (Function.update m.relays i r j).lease = some conn) : conn.writeTx < m.opened := by
        by_cases same : j = i
        · subst same
          rw [Function.update_self] at leased
          exact here conn leased
        · rw [Function.update_of_ne same] at leased
          exact opened.leases j conn leased
      cases move with
      | alloc phase leased =>
          refine ⟨?_, leases _ (opened.leases i)⟩
          intro req member
          rcases List.mem_append.mp member with older | added
          · exact opened.requests req older
          · rw [List.mem_singleton.mp added]
            exact opened.leases i _ leased
      | acquired phase known same =>
          refine ⟨opened.requests, leases _ ?_⟩
          rintro conn ⟨rfl⟩
          exact known
      | giveBack | cancel | leave => exact ⟨opened.requests, leases _ (by simp)⟩
      | connect | request | next | skip | keep | borrow | acquireFailed | check | refuse | store | count
      | push | pushFailed | hangUp | idle | deliver | deliverFailed | respClosed =>
          exact ⟨opened.requests, leases _ (opened.leases i)⟩

theorem Order.create (order : m.Order) (routing : Routing codecs map stage m) (opened : m.Opened) :
    m.create.Order ∧ (m.Ahead → m.create.Ahead) := by
  have elsewhere (k : Nat) : m.create.upstreams k = .new m.remap.nextConnId .running ∨
      m.create.upstreams k = m.upstreams k := by
    by_cases new : k = m.opened
    · exact .inl (by simp [Multiplex.create, CidRemap.allocConnId, new])
    · exact .inr (by simp [Multiplex.create, new])
  have outstanding (tag : Nat) (after : m.create.Outstanding tag) : m.Outstanding tag := by
    rcases after.cases with ⟨entry, found, rfl⟩ | ⟨k, inHand⟩
    · exact routing.outstanding_table found
    · rcases elsewhere k with new | same
      · simp [new, Upstream.new, ReadLoop.tag?] at inHand
      · rw [same] at inHand
        exact routing.outstanding_tag? inHand
  constructor
  · refine order.shrink ⟨rfl, fun _ _ found => found, ?_, outstanding, fun _ _ same => same,
      fun _ _ same => same, ?_⟩
    · intro k
      rcases elsewhere k with new | same
      · rw [new]
        exact List.nil_sublist _
      · rw [same]
    · intro cidU entry found
      refine (order.present cidU entry found).imp_left ?_
      rintro ⟨k, member⟩
      obtain ⟨req, known, here⟩ := routing.flow member
      have bound := opened.requests req (List.mem_of_getElem? known)
      have other : k ≠ m.opened := by omega
      exact ⟨k, by simpa [Multiplex.create, other] using member⟩
  · intro ahead
    exact ahead.keep (fun _ => rfl) fun tag req after known => .inl ⟨outstanding tag after, known⟩

theorem Order.matching (order : m.Order) (routing : Routing codecs map stage m) : m.Matching := by
  intro k answer rest cidU entry queue parsed found
  have answers := (routing.upstream k).readRx answer (by rw [queue]; exact List.mem_cons_self)
  have way : m.OnTheWay answer.tag := ⟨k, by simp [Upstream.flow, Upstream.pending, queue]⟩
  have same := answers.1
  rw [parsed, Option.some.injEq] at same
  exact (order.sameFlow answer.tag entry way (same ▸ found)).symm

variable {maxInFlight : Nat} {metrics : Metrics}

structure Ordered (codecs : Codecs) (map : RewriteMap) (m : Multiplex) : Prop where
  routing : ∃ stage, Routing codecs map stage m
  opened : m.Opened
  order : m.Order
  ahead : m.Ahead

theorem Ordered.new : Ordered codecs map (new maxInFlight metrics) := by
  have relay (i : Nat) : (Multiplex.new maxInFlight metrics).relays i = .new := rfl
  have upstream (k : Nat) : (Multiplex.new maxInFlight metrics).upstreams k = .new 0 .absent := rfl
  have table (cidU : Int32) : (Multiplex.new maxInFlight metrics).remap.map.lookup cidU = none := rfl
  have outstanding (tag : Nat) : ¬ (Multiplex.new maxInFlight metrics).Outstanding tag := by
    intro outstanding
    rcases outstanding.cases with ⟨entry, found, _⟩ | ⟨k, inHand⟩
    · cases found
    · cases inHand
  refine ⟨⟨_, .new⟩, ⟨by simp [Multiplex.new], by simp [relay, PooledRelay.new]⟩,
    ⟨?_, by simp [table], by simp [table], by simp [table], ?_, by simp [table], ?_⟩, ?_, ?_⟩
  · intro k
    rw [upstream]
    exact List.Pairwise.nil
  · simp [relay, PooledRelay.new, DownToUp.registered]
  · intro a b r s first
    exact absurd first (outstanding a)
  · simp [relay, PooledRelay.new, PooledRelay.put]
  · simp [relay, PooledRelay.new, PooledRelay.put]

theorem Ordered.step {action : MultiplexAction} (ordered : Ordered codecs map m) (requests : m.Requests)
    (inTurn : action.InTurn) (keeps : m.Keeps action) (change : Change idle codecs map m action n) :
    Ordered codecs map n := by
  obtain ⟨⟨stage, routing⟩, opened, order, ahead⟩ := ordered
  have further := opened.step change
  cases change with
  | tick elapsed => exact ⟨⟨stage, { routing with }⟩, further, { order with }, { ahead with }⟩
  | create =>
      obtain ⟨next, later⟩ := order.create routing opened
      exact ⟨⟨stage, routing.create⟩, further, next, later ahead⟩
  | relay move =>
      exact ⟨move.routing routing requests, further, move.order order routing keeps,
        move.ahead routing order ahead⟩
  | upstream move =>
      exact ⟨move.routing routing (order.matching routing), further,
        order.shrink (move.shrinks routing order inTurn), move.ahead routing order ahead inTurn⟩

theorem ordered_of_reach (reach : (system maxInFlight metrics idle codecs map).Reach
    (fun m action => m.Assumed action ∧ m.Keeps action) m) : Ordered codecs map m := by
  induction reach with
  | initial first =>
      rw [first]
      exact .new
  | next before allowed taken ih =>
      exact ih.step (requests_of_reach before) allowed.1.1 allowed.2 (Change.of_step taken)

/-! ## The order in which a client has its responses -/

/-- The numbers of the client's frames to which responses have been written, in that order. -/
def answered (m : Multiplex) (i : Nat) : List Nat :=
  (m.relays i).written.filterMap fun resp => (m.requests[resp.answer.tag]?).map (·.job.seq)

theorem Ordered.answered (ordered : Ordered codecs map m) (requests : m.Requests) (i : Nat) :
    (m.answered i).Pairwise (· < ·) ∧ ∀ resp ∈ (m.relays i).written,
      ∃ req, m.requests[resp.answer.tag]? = some req ∧ req.client = i := by
  obtain ⟨stage, routing⟩ := ordered.routing
  have known (resp : DownstreamResp) (member : resp ∈ (m.relays i).written) :
      resp.answer.tag = resp.tag ∧
        ∃ req, m.requests[resp.answer.tag]? = some req ∧ req.client = i := by
    obtain ⟨_, own, req, _, found, client, _⟩ :=
      (routing.relay i).queued resp (List.mem_append_left _ member)
    exact ⟨own, req, own ▸ found, client⟩
  refine ⟨?_, fun resp member => (known resp member).2⟩
  have increasing := ordered.ahead.put i
  rw [PooledRelay.put, List.map_append, List.pairwise_append, List.pairwise_map] at increasing
  rw [Multiplex.answered, List.pairwise_filterMap]
  refine increasing.1.imp_of_mem ?_
  intro a b first second before x numberA y numberB
  obtain ⟨ownA, r, askedA, clientA⟩ := known a first
  obtain ⟨ownB, s, askedB, clientB⟩ := known b second
  rw [askedA, Option.map_some, Option.some.injEq] at numberA
  rw [askedB, Option.map_some, Option.some.injEq] at numberB
  obtain ⟨boundA, foundA⟩ := List.getElem?_eq_some_iff.mp askedA
  obtain ⟨boundB, foundB⟩ := List.getElem?_eq_some_iff.mp askedB
  have sent := List.pairwise_iff_getElem.mp requests.sorted _ _ boundA boundB
    (by rw [ownA, ownB]; exact before)
  rw [foundA, foundB, numberA, numberB] at sent
  exact sent (clientA.trans clientB.symm)

end Multiplex
end KafkaProxy.Pooled
