import KafkaProxy.Pooled.Order
import KafkaProxy.Pooled.Orphans

/-!
# Clients of a failed connection

The write loop of a connection that has failed removes the entries of all its clients. A client hears
of it when its own connection is closed: its relay has returned, and no sending half of its response
queue is left.
-/

namespace KafkaProxy.Pooled
open Library

def WriteLoop.stage : WriteLoop → Nat
  | .absent | .running | .forwarding _ => 0
  | .cleanup => 1
  | .cleaned => 2
  | .ended => 3

/-- The relay is about to return, or to send a request over connection `k`. -/
def PooledRelay.ends (r : PooledRelay) (k : Nat) : Bool :=
  match r.downToUp with
  | .register _ | .alloc _ | .store .. | .count .. | .send .. =>
      r.lease.map Acquired.writeTx = some k
  | .cancel _ | .leaving | .returned => true
  | .absent | .waiting _ | .checking _ | .borrow _ | .acquiring _ => false

/-- The steps that a relay takes by itself. Its client, the pool and the clock are behind the others. -/
def RelayAction.internal : List RelayAction :=
  [.next, .keep, .giveBack, .borrow, .check, .alloc, .store, .count, .push, .pushFailed, .cancel, .leave,
    .deliver, .respClosed]

def UpstreamAction.internal : List UpstreamAction :=
  [.write, .read, .forward, .cleanup, .finish, .take, .route]

namespace Multiplex

/-- Once connection `k` is closed, client `i` has no entry but that of the request its relay sends. -/
def Ending (m : Multiplex) (k i : Nat) : Prop :=
  (m.relays i).ends k = true ∧ ∀ e ∈ m.remap.map.entries, e.2.downstreamTx.client = i →
    e.2.connId ≠ (m.upstreams k).connId → (m.relays i).downToUp.pushing = some e.1

def stores (m : Multiplex) : MultiplexAction → Option (Nat × Int32)
  | .relay i .store =>
      match (m.relays i).downToUp with
      | .store _ cidU _ => some (i, cidU)
      | _ => none
  | _ => none

def cancels (m : Multiplex) : MultiplexAction → Option (Nat × Int32)
  | .relay i .cancel =>
      match (m.relays i).downToUp with
      | .cancel cidU => some (i, cidU)
      | _ => none
  | _ => none

def cleans : MultiplexAction → Option Nat
  | .upstream k .cleanup => some k
  | _ => none

/-- A step is noticed by the clients whose entries it removes. No number and no correlation id comes
round while it is in use, and no request goes to a connection between the start of its cleanup and its
end. A response of a connection that has failed finds room in the queue of its client. When a write loop
removes the entries of a client, the client is gone or its relay is about to return. -/
@[mk_iff]
structure Noticed (m : Multiplex) (action : MultiplexAction) : Prop where
  numbers : m.Numbers action
  pushes : ∀ push ∈ m.pushes action, (m.upstreams push.1).writeLoop ≠ .cleaned
  stores : ∀ store ∈ m.stores action, m.remap.map.lookup store.2 = none
  cancels : ∀ cancel ∈ m.cancels action, ∀ entry ∈ m.remap.map.lookup cancel.2,
    entry.downstreamTx.client = cancel.1
  routes : ∀ entry ∈ m.routing? action, (m.relays entry.downstreamTx.client).listens = true →
    respCapacity ≤ (m.relays entry.downstreamTx.client).respRx.length → ∀ k < m.opened,
      (m.upstreams k).connId = entry.connId → 1 ≤ (m.upstreams k).writeLoop.stage →
        2 ≤ (m.upstreams k).writeLoop.stage ∧ m.Ending k entry.downstreamTx.client
  cleans : ∀ k ∈ cleans action, ∀ e ∈ m.remap.map.entries,
    e.2.connId = (m.upstreams k).connId → (m.relays e.2.downstreamTx.client).listens = true →
      m.Ending k e.2.downstreamTx.client

instance (m : Multiplex) (k i : Nat) : Decidable (m.Ending k i) :=
  inferInstanceAs (Decidable (_ ∧ ∀ e ∈ m.remap.map.entries, _ → _ → _))

set_option synthInstance.maxSize 256 in
instance (m : Multiplex) (action : MultiplexAction) : Decidable (m.Noticed action) :=
  decidable_of_iff' _ (noticed_iff m action)

variable {idle : Option Nat} {codecs : Codecs} {map : RewriteMap} {m n : Multiplex} {i k : Nat}
  {action : MultiplexAction} {cidU : Int32}

theorem mem_entries {e : (_ : Int32) × Entry} :
    e ∈ m.remap.map.entries ↔ m.remap.map.lookup e.1 = some e.2 :=
  AList.mem_lookup_iff.symm

theorem Change.stage (change : Change idle codecs map m action n) (opens : k < m.opened) :
    (m.upstreams k).writeLoop.stage ≤ (n.upstreams k).writeLoop.stage := by
  obtain ⟨_, writeRx, same⟩ | ⟨_, rfl, _⟩ | ⟨own, rfl, move⟩ := change.at_upstream k
  · rw [same]
  · exact absurd opens (Nat.lt_irrefl _)
  · cases move <;> simp_all [WriteLoop.stage]

theorem opened_of_stage (connected : m.Connected) (left : 1 ≤ (m.upstreams k).writeLoop.stage) :
    k < m.opened := by
  by_contra outside
  rw [connected.absent k (Nat.le_of_not_lt outside)] at left
  cases left

theorem hasCleaned_iff {loop : WriteLoop} : loop.hasCleaned = true ↔ 2 ≤ loop.stage := by
  cases loop <;> simp [WriteLoop.hasCleaned, WriteLoop.stage]

theorem Change.entry {entry : Entry} (change : Change idle codecs map m action n)
    (found : m.remap.map.lookup cidU = some entry) :
    n.remap.map.lookup cidU = some entry ∨
      (∃ l, action = .upstream l .cleanup ∧ entry.connId = (m.upstreams l).connId) ∨
      (∃ l answer, (n.upstreams l).readLoop = .routing answer entry) ∨
      (∃ i, m.cancels action = some (i, cidU)) ∨ ∃ i, m.stores action = some (i, cidU) := by
  cases change with
  | tick elapsed => exact .inl found
  | create => exact .inl found
  | @relay i action n move =>
      cases move with
      | @store job cid tag conn phase leased =>
          by_cases same : cidU = cid
          · subst same
            simp [stores, phase]
          · left
            simpa [CidRemap.store, AList.lookup_insert_ne same] using found
      | @cancel cid phase =>
          by_cases same : cidU = cid
          · subst same
            simp [cancels, phase]
          · left
            simpa [AList.lookup_erase_ne same] using found
      | _ => exact .inl found
  | @upstream k action n move =>
      cases move with
      | cleanup phase =>
          by_cases same : entry.connId = (m.upstreams k).connId
          · exact .inr (.inl ⟨k, rfl, same⟩)
          · exact .inl (CidRemap.lookup_retainOthers.mpr ⟨found, same⟩)
      | @take answer rest cid taken phase queue parsed there =>
          by_cases same : cidU = cid
          · subst same
            cases there.symm.trans found
            exact .inr (.inr (.inl ⟨k, answer, by simp⟩))
          · left
            simpa [AList.lookup_erase_ne same] using found
      | _ => exact .inl found

theorem Change.hand {l : Nat} {answer : Answer} {entry : Entry}
    (change : Change idle codecs map m action n) (connected : m.Connected)
    (other : action ≠ .upstream l .route)
    (phase : (m.upstreams l).readLoop = .routing answer entry) :
    (n.upstreams l).readLoop = .routing answer entry := by
  obtain ⟨_, writeRx, same⟩ | ⟨_, rfl, _⟩ | ⟨own, rfl, move⟩ := change.at_upstream l
  · rwa [same]
  · rw [connected.absent m.opened le_rfl] at phase
    cases phase
  · cases move with
    | route | discard => exact absurd rfl other
    | _ => simp_all

theorem Change.waits (change : Change idle codecs map m action n)
    (other : action ≠ .upstream k .cleanup) (opens : k < m.opened)
    (phase : (m.upstreams k).writeLoop = .cleanup) : (n.upstreams k).writeLoop = .cleanup := by
  obtain ⟨_, writeRx, same⟩ | ⟨_, rfl, _⟩ | ⟨own, rfl, move⟩ := change.at_upstream k
  · rwa [same]
  · exact absurd opens (Nat.lt_irrefl _)
  · cases move <;> simp_all

/-! ## The entry of a relay that sends -/

theorem Change.pushing (change : Change idle codecs map m action n)
    (pushing : (n.relays i).downToUp.pushing = some cidU) :
    ((m.relays i).downToUp.pushing = some cidU ∧ (n.relays i).lease = (m.relays i).lease) ∨
      ∃ job tag, action = .relay i .store ∧ (m.relays i).downToUp = .store job cidU tag := by
  obtain ⟨_, respRx, same⟩ | ⟨own, rfl, move⟩ := change.at_relay i
  · rw [same] at pushing ⊢
    exact .inl ⟨pushing, rfl⟩
  · cases move with
    | @store job cid tag conn phase leased =>
        simp only [setRelay_relays, Function.update_self, DownToUp.pushing,
          Option.some.injEq] at pushing
        exact .inr ⟨job, tag, rfl, pushing ▸ phase⟩
    | _ => simp_all [DownToUp.pushing]

theorem Change.keeps_pushing (change : Change idle codecs map m action n)
    (pushing : (m.relays i).downToUp.pushing = some cidU) :
    (n.relays i).downToUp.pushing = some cidU ∨ action = .relay i .push ∨
      m.cancels action = some (i, cidU) := by
  obtain ⟨_, respRx, same⟩ | ⟨own, rfl, move⟩ := change.at_relay i
  · rw [same]
    exact .inl pushing
  · cases move with
    | push phase leased listens room => exact .inr (.inl rfl)
    | @cancel cid phase =>
        rw [phase, DownToUp.pushing, Option.some.injEq] at pushing
        exact .inr (.inr (by simp [cancels, phase, pushing]))
    | _ => simp_all [DownToUp.pushing]

structure Held (m : Multiplex) : Prop where
  own : ∀ i cidU entry, (m.relays i).downToUp.pushing = some cidU →
    m.remap.map.lookup cidU = some entry → entry.downstreamTx.client = i →
      ∃ k < m.opened, (m.relays i).Pushes k cidU ∧ (m.upstreams k).connId = entry.connId
  dead : ∀ i cidU, (m.relays i).downToUp = .cancel cidU → ∃ conn, (m.relays i).lease = some conn ∧
    (m.upstreams conn.writeTx).writeLoop = .ended

theorem Held.own_step (held : m.Held) (connected : m.Connected)
    (change : Change idle codecs map m action n) {entry : Entry}
    (pushing : (n.relays i).downToUp.pushing = some cidU)
    (found : n.remap.map.lookup cidU = some entry) (mine : entry.downstreamTx.client = i) :
    ∃ k < n.opened, (n.relays i).Pushes k cidU ∧ (n.upstreams k).connId = entry.connId := by
  obtain ⟨old, _, _, kept⟩ | ⟨j, job, tag, conn, rfl, phase, leased, rfl⟩ := change.lookup found
  · obtain ⟨before, lease⟩ | ⟨job, tag, stores, phase⟩ := change.pushing pushing
    · obtain ⟨k, opens, ⟨⟨conn, leased, here⟩, _⟩, own⟩ := held.own i cidU entry before old mine
      refine ⟨k, opens.trans_le change.opened.1, ⟨⟨conn, lease.trans leased, here⟩, pushing⟩, ?_⟩
      rw [change.opened.2 k opens, own]
    · exact absurd phase (kept i job tag stores)
  · subst mine
    obtain ⟨known, named⟩ := connected.leased j conn leased
    refine ⟨conn.writeTx, known.trans_le change.opened.1, change.stored phase leased rfl, ?_⟩
    rw [change.opened.2 _ known, named]

theorem Held.dead_step (held : m.Held) (connected : m.Connected)
    (change : Change idle codecs map m action n) (phase : (n.relays i).downToUp = .cancel cidU) :
    ∃ conn, (n.relays i).lease = some conn ∧ (n.upstreams conn.writeTx).writeLoop = .ended := by
  have before : ∃ conn, (m.relays i).lease = some conn ∧ (n.relays i).lease = some conn ∧
      (m.upstreams conn.writeTx).writeLoop = .ended := by
    obtain ⟨_, respRx, same⟩ | ⟨own, rfl, move⟩ := change.at_relay i
    · rw [same] at phase ⊢
      obtain ⟨conn, leased, ended⟩ := held.dead i cidU phase
      exact ⟨conn, leased, leased, ended⟩
    · cases move with
      | @pushFailed job cid tag conn before leased dead =>
          exact ⟨conn, leased, by simpa using leased, dead⟩
      | request data | deliver listens queue | deliverFailed listens
      | respClosed listens empty done last =>
          simp only [setRelay_relays, Function.update_self] at phase ⊢
          obtain ⟨conn, leased, ended⟩ := held.dead i cidU phase
          exact ⟨conn, leased, leased, ended⟩
      | _ => simp at phase
  obtain ⟨conn, leased, still, ended⟩ := before
  refine ⟨conn, still, ?_⟩
  have later := change.stage (connected.leased i conn leased).1
  rw [ended] at later
  cases loop : (n.upstreams conn.writeTx).writeLoop <;> simp_all [WriteLoop.stage]

theorem Held.step (held : m.Held) (connected : m.Connected)
    (change : Change idle codecs map m action n) : n.Held where
  own _ _ _ := held.own_step connected change
  dead _ _ := held.dead_step connected change

theorem Held.not_cleanup {entry : Entry} (held : m.Held) (numbered : m.Numbered)
    (opens : k < m.opened) (cancelled : m.cancels action = some (i, cidU))
    (found : m.remap.map.lookup cidU = some entry) (mine : entry.downstreamTx.client = i)
    (own : entry.connId = (m.upstreams k).connId) : (m.upstreams k).writeLoop ≠ .cleanup := by
  have phase : (m.relays i).downToUp = .cancel cidU := by
    unfold cancels at cancelled
    split at cancelled
    · split at cancelled <;> cases cancelled
      assumption
    · cases cancelled
  obtain ⟨l, opensToo, ⟨⟨conn, leased, rfl⟩, _⟩, named⟩ :=
    held.own i cidU entry (by rw [phase]; rfl) found mine
  obtain ⟨_, again, ended⟩ := held.dead i cidU phase
  cases again.symm.trans leased
  obtain rfl := numbered _ opensToo k opens (named.trans own)
  rw [ended]
  exact nofun

/-! ## A relay that is about to return -/

theorem UpstreamMove.ending {action : UpstreamAction} {l : Nat} (ending : m.Ending l i)
    (move : UpstreamMove codecs map m k (m.upstreams k) action n)
    (same : (n.upstreams l).connId = (m.upstreams l).connId) : n.Ending l i := by
  obtain ⟨ends, entries⟩ := ending
  obtain ⟨respRx, relay⟩ := move.relays_eq i
  rw [Ending, relay, same]
  refine ⟨ends, ?_⟩
  intro e member
  exact entries e (mem_entries.mpr (move.table (mem_entries.mp member)))

theorem RelayMove.ends {action : RelayAction} (ends : (m.relays i).ends k = true)
    (move : RelayMove idle m i (m.relays i) action n) :
    (n.relays i).ends k = true ∨
      action = .push ∧ (m.upstreams k).writeLoop ≠ .ended ∧
        ∃ cidU, m.pushes (.relay i action) = some (k, cidU) := by
  cases move with
  | @push job cidU tag conn phase leased listens room =>
      have here : conn.writeTx = k := by simpa [PooledRelay.ends, phase, leased] using ends
      subst here
      exact .inr ⟨rfl, listens, cidU, by simp [Multiplex.pushes, phase, leased]⟩
  | _ => simp_all [PooledRelay.ends]

theorem Ending.no_push (ending : m.Ending k i) (cleaned : 2 ≤ (m.upstreams k).writeLoop.stage)
    (pushes : ∀ push ∈ m.pushes action, (m.upstreams push.1).writeLoop ≠ .cleaned)
    (change : Change idle codecs map m action n) : action ≠ .relay i .push := by
  rintro rfl
  cases change with
  | relay move =>
      cases move with
      | @push job cidU tag conn phase leased listens room =>
          have here : conn.writeTx = k := by simpa [PooledRelay.ends, phase, leased] using ending.1
          subst here
          have runs := pushes (conn.writeTx, cidU) (by simp [Multiplex.pushes, phase, leased])
          cases loop : (m.upstreams conn.writeTx).writeLoop <;> simp_all [WriteLoop.stage]

theorem Ending.step (ending : m.Ending k i) (opens : k < m.opened)
    (cleaned : 2 ≤ (m.upstreams k).writeLoop.stage) (noticed : m.Noticed action)
    (change : Change idle codecs map m action n) : n.Ending k i := by
  have still := ending.no_push cleaned noticed.pushes change
  have same := change.opened.2 k opens
  refine ⟨?_, ?_⟩
  · obtain ⟨_, respRx, relay⟩ | ⟨own, rfl, move⟩ := change.at_relay i
    · rw [relay]
      exact ending.1
    · obtain ends | ⟨rfl, _⟩ := move.ends ending.1
      · exact ends
      · exact absurd rfl still
  · rintro ⟨cidU, entry⟩ member mine other
    rw [same] at other
    obtain ⟨old, _, kept, _⟩ | ⟨j, job, tag, conn, rfl, phase, leased, rfl⟩ :=
      change.lookup (mem_entries.mp member)
    · have before := ending.2 ⟨cidU, entry⟩ (mem_entries.mpr old) mine other
      obtain pushing | pushed | cancelled := change.keeps_pushing before
      · exact pushing
      · exact absurd pushed still
      · exfalso
        unfold cancels at cancelled
        split at cancelled
        · split at cancelled <;> cases cancelled
          rename_i phase
          exact kept i rfl phase
        · cases cancelled
    · subst mine
      exact (change.stored phase leased rfl).2

/-! ## What becomes of a request over the failed connection -/

/-- The request is on its way over connection `k`: its entry is in the table, or with a read loop. -/
def InFlight (m : Multiplex) (k : Nat) (tx : ResponseTx) : Prop :=
  ∃ entry : Entry, entry.connId = (m.upstreams k).connId ∧ entry.downstreamTx = tx ∧
    ((∃ cidU, m.remap.map.lookup cidU = some entry) ∨
      ∃ l answer, (m.upstreams l).readLoop = .routing answer entry)

inductive Accounted (m : Multiplex) (k : Nat) (tx : ResponseTx) : Prop where
  | table {cidU : Int32} {entry : Entry} (found : m.remap.map.lookup cidU = some entry)
      (own : entry.connId = (m.upstreams k).connId) (mine : entry.downstreamTx = tx)
      (phase : (m.upstreams k).writeLoop = .cleanup)
  | hand {l : Nat} {answer : Answer} {entry : Entry}
      (phase : (m.upstreams l).readLoop = .routing answer entry)
      (own : entry.connId = (m.upstreams k).connId) (mine : entry.downstreamTx = tx)
  | given {resp : DownstreamResp} (member : resp ∈ (m.relays tx.client).put)
      (same : resp.tag = tx.tag)
  | gone (deaf : (m.relays tx.client).listens = false)
  | ending (ending : m.Ending k tx.client) (cleaned : 2 ≤ (m.upstreams k).writeLoop.stage)

variable {tx : ResponseTx} {entry : Entry}

theorem Accounted.of_cleanup (opens : k < m.opened) (noticed : m.Noticed (.upstream k .cleanup))
    (found : m.remap.map.lookup cidU = some entry)
    (own : entry.connId = (m.upstreams k).connId) (mine : entry.downstreamTx = tx)
    (change : Change idle codecs map m (.upstream k .cleanup) n) : n.Accounted k tx := by
  subst mine
  have same := change.opened.2 k opens
  cases listens : (m.relays entry.downstreamTx.client).listens with
  | false => exact .gone ((change.later _).listens listens)
  | true =>
      have ending := noticed.cleans k rfl ⟨cidU, entry⟩ (mem_entries.mpr found) own listens
      cases change with
      | upstream move =>
          refine .ending (move.ending ending same) ?_
          cases move with
          | cleanup phase => simp [WriteLoop.stage]

theorem Accounted.of_route {l : Nat} {answer : Answer} (opens : k < m.opened)
    (left : 1 ≤ (m.upstreams k).writeLoop.stage) (noticed : m.Noticed (.upstream l .route))
    (phase : (m.upstreams l).readLoop = .routing answer entry)
    (own : entry.connId = (m.upstreams k).connId) (mine : entry.downstreamTx = tx)
    (change : Change idle codecs map m (.upstream l .route) n) : n.Accounted k tx := by
  subst mine
  have later := change.stage opens
  have same := change.opened.2 k opens
  cases change with
  | upstream move =>
      cases listens : (m.relays entry.downstreamTx.client).listens with
      | false => exact .gone ((move.later _).listens listens)
      | true =>
          by_cases full : respCapacity ≤ (m.relays entry.downstreamTx.client).respRx.length
          · obtain ⟨cleaned, ending⟩ :=
              noticed.routes entry (by simp [routing?, phase]) listens full k opens own.symm left
            exact .ending (move.ending ending same) (cleaned.trans later)
          · cases move with
            | route held _ _ =>
                cases held.symm.trans phase
                refine @Accounted.given _ k entry.downstreamTx
                  ⟨routeResponse codecs map answer.data entry, entry.downstreamTx.tag, answer⟩ ?_ rfl
                simp [PooledRelay.put]
            | discard held unable =>
                cases held.symm.trans phase
                exact absurd (unable listens) full

theorem Accounted.step (accounted : m.Accounted k tx) (opens : k < m.opened)
    (left : 1 ≤ (m.upstreams k).writeLoop.stage) (connected : m.Connected) (numbered : m.Numbered)
    (held : m.Held) (noticed : m.Noticed action) (change : Change idle codecs map m action n) :
    n.Accounted k tx := by
  have same := change.opened.2 k opens
  cases accounted with
  | given member tag => exact .given ((change.later _).put.subset member) tag
  | gone deaf => exact .gone ((change.later _).listens deaf)
  | ending ending cleaned =>
      exact .ending (ending.step opens cleaned noticed change) (cleaned.trans (change.stage opens))
  | @hand l answer entry phase own mine =>
      by_cases routes : action = .upstream l .route
      · subst routes
        exact .of_route opens left noticed phase own mine change
      · exact .hand (change.hand connected routes phase) (own.trans same.symm) mine
  | @table cidU entry found own mine phase =>
      by_cases cleanup : action = .upstream k .cleanup
      · subst cleanup
        exact .of_cleanup opens noticed found own mine change
      · obtain kept | ⟨l, rfl, removed⟩ | ⟨l, answer, taken⟩ | ⟨i, cancelled⟩ | ⟨i, stored⟩ :=
          change.entry found
        · exact .table kept (own.trans same.symm) mine (change.waits cleanup opens phase)
        · have opensToo := opened_of_stage connected (by rw [change.cleaning]; exact le_rfl)
          obtain rfl := numbered k opens l opensToo (own.symm.trans removed)
          exact absurd rfl cleanup
        · exact .hand taken (own.trans same.symm) mine
        · have client := noticed.cancels _ cancelled entry found
          exact absurd phase (held.not_cleanup numbered opens cancelled found client own)
        · have free := noticed.stores _ stored
          rw [found] at free
          cases free

/-! ## At rest -/

/-- No task of the proxy has a step left that it takes by itself. -/
structure AtRest (idle : Option Nat) (codecs : Codecs) (map : RewriteMap) (m : Multiplex) : Prop where
  relay : ∀ i, ∀ action ∈ RelayAction.internal, m.relayStep idle i (m.relays i) action = none
  upstream : ∀ k, ∀ action ∈ UpstreamAction.internal,
    m.upstreamStep codecs map k (m.upstreams k) action = none

/-- The client has been given the response, or its connection is closed. -/
def Told (m : Multiplex) (tx : ResponseTx) : Prop :=
  (∃ resp ∈ (m.relays tx.client).written, resp.tag = tx.tag) ∨ (m.relays tx.client).listens = false

theorem AtRest.receiving (rest : m.AtRest idle codecs map) (l : Nat) :
    (m.upstreams l).readLoop = .receiving := by
  cases phase : (m.upstreams l).readLoop with
  | receiving => rfl
  | routing answer entry =>
      have blocked := rest.upstream l .route (by decide)
      simp only [upstreamStep, phase] at blocked
      split at blocked <;> cases blocked

theorem AtRest.delivered (rest : m.AtRest idle codecs map) (listens : (m.relays i).listens = true) :
    (m.relays i).respRx = [] := by
  cases queue : (m.relays i).respRx with
  | nil => rfl
  | cons resp waiting =>
      have blocked := rest.relay i .deliver (by decide)
      simp only [relayStep, listens, queue] at blocked
      cases blocked

theorem AtRest.ended (rest : m.AtRest idle codecs map) (cleaned : 2 ≤ (m.upstreams k).writeLoop.stage) :
    (m.upstreams k).writeLoop = .ended := by
  have blocked := rest.upstream k .finish (by decide)
  cases loop : (m.upstreams k).writeLoop <;> simp_all [upstreamStep, WriteLoop.stage]

theorem AtRest.returned (rest : m.AtRest idle codecs map) (cleaned : 2 ≤ (m.upstreams k).writeLoop.stage)
    (ends : (m.relays i).ends k = true) : (m.relays i).downToUp = .returned := by
  have ended := rest.ended cleaned
  unfold PooledRelay.ends at ends
  cases phase : (m.relays i).downToUp with
  | returned => rfl
  | register job =>
      have blocked := rest.relay i .check (by decide)
      simp [relayStep, phase] at blocked
  | alloc job =>
      obtain ⟨conn, leased, _⟩ : ∃ conn, (m.relays i).lease = some conn ∧ conn.writeTx = k := by
        simpa [phase] using ends
      have blocked := rest.relay i .alloc (by decide)
      simp [relayStep, phase, leased] at blocked
  | store job cidU tag =>
      obtain ⟨conn, leased, _⟩ : ∃ conn, (m.relays i).lease = some conn ∧ conn.writeTx = k := by
        simpa [phase] using ends
      have blocked := rest.relay i .store (by decide)
      simp [relayStep, phase, leased] at blocked
  | count job cidU tag =>
      have blocked := rest.relay i .count (by decide)
      simp [relayStep, phase] at blocked
  | send job cidU tag =>
      obtain ⟨conn, leased, rfl⟩ : ∃ conn, (m.relays i).lease = some conn ∧ conn.writeTx = k := by
        simpa [phase] using ends
      have blocked := rest.relay i .pushFailed (by decide)
      simp [relayStep, phase, leased, ended] at blocked
  | cancel cidU =>
      have blocked := rest.relay i .cancel (by decide)
      simp [relayStep, phase] at blocked
  | leaving =>
      have blocked := rest.relay i .leave (by decide)
      simp [relayStep, phase] at blocked
  | absent | waiting since | checking job | borrow job | acquiring job => simp [phase] at ends

theorem AtRest.closed (rest : m.AtRest idle codecs map) (ending : m.Ending k i)
    (cleaned : 2 ≤ (m.upstreams k).writeLoop.stage) (followed : m.Followed) :
    (m.relays i).listens = false := by
  by_contra hears
  have listens : (m.relays i).listens = true := by simpa using hears
  have returned := rest.returned cleaned ending.1
  have sends (cidU : Int32) : (m.relays i).downToUp.pushing ≠ some cidU := by
    rw [returned]
    exact nofun
  have last : m.holdsTx i = false := by
    have entries : ∀ e ∈ m.remap.map.entries, e.2.downstreamTx.client ≠ i := by
      rintro e member rfl
      by_cases own : e.2.connId = (m.upstreams k).connId
      · have pushes := followed k e.1 e.2 (hasCleaned_iff.mpr cleaned) (mem_entries.mp member) own
        exact sends e.1 pushes.2
      · exact sends e.1 (ending.2 e member rfl own)
    simpa [Multiplex.holdsTx, rest.receiving] using entries
  have blocked := rest.relay i .respClosed (by decide)
  simp [relayStep, listens, rest.delivered listens, returned, last] at blocked

theorem Accounted.told (accounted : m.Accounted k tx) (rest : m.AtRest idle codecs map)
    (cleaned : (m.upstreams k).writeLoop.hasCleaned = true) (followed : m.Followed) : m.Told tx := by
  cases accounted with
  | table found own mine phase =>
      rw [phase] at cleaned
      cases cleaned
  | hand phase own mine =>
      rw [rest.receiving] at phase
      cases phase
  | gone deaf => exact .inr deaf
  | ending ending cleaned => exact .inr (rest.closed ending cleaned followed)
  | @given resp member same =>
      cases listens : (m.relays tx.client).listens with
      | false => exact .inr listens
      | true =>
          rw [PooledRelay.put, rest.delivered listens, List.append_nil] at member
          exact .inl ⟨resp, member, same⟩

/-! ## Runs -/

variable {maxInFlight : Nat} {metrics : Metrics} {allowed : Multiplex → MultiplexAction → Prop}

theorem Noticed.inTime (noticed : m.Noticed action) : m.InTime action :=
  ⟨noticed.numbers, fun push pushed cleaned => absurd cleaned (noticed.pushes push pushed)⟩

theorem held_of_reach (reach : (system maxInFlight metrics idle codecs map).Reach allowed m) :
    m.Held := by
  induction reach with
  | initial first =>
      rw [first]
      exact ⟨nofun, nofun⟩
  | next before _ taken ih => exact ih.step (connected_of_reach before) (.of_step taken)

theorem accounted_of_leads (reach : (system maxInFlight metrics idle codecs map).Reach Noticed m)
    (left : 1 ≤ (m.upstreams k).writeLoop.stage) (accounted : m.Accounted k tx)
    (leads : (system maxInFlight metrics idle codecs map).Leads Noticed m n) :
    1 ≤ (n.upstreams k).writeLoop.stage ∧ n.Accounted k tx := by
  induction leads with
  | refl => exact ⟨left, accounted⟩
  | @next t u action before noticed taken ih =>
      obtain ⟨left, accounted⟩ := ih
      have reached := reach.leads before
      have connected := connected_of_reach reached
      have numbered := numbered_of_reach (fun _ _ given => given.numbers) reached
      have opens := opened_of_stage connected left
      have change : Change idle codecs map t action u := .of_step taken
      exact ⟨left.trans (change.stage opens),
        accounted.step opens left connected numbered (held_of_reach reached) noticed change⟩

/-- When a connection has failed and the proxy has come to rest, each client that had a request in
flight on it has been given the response or is disconnected. -/
theorem failure_reported (reach : (system maxInFlight metrics idle codecs map).Reach Noticed m)
    (failed : (m.upstreams k).writeLoop = .cleanup) (inFlight : m.InFlight k tx)
    (leads : (system maxInFlight metrics idle codecs map).Leads Noticed m n)
    (cleaned : (n.upstreams k).writeLoop.hasCleaned = true) (rest : n.AtRest idle codecs map) :
    n.Told tx := by
  have left : 1 ≤ (m.upstreams k).writeLoop.stage := by
    rw [failed]
    exact le_rfl
  have accounted : m.Accounted k tx := by
    obtain ⟨entry, own, mine, ⟨cidU, found⟩ | ⟨l, answer, phase⟩⟩ := inFlight
    · exact .table found own mine failed
    · exact .hand phase own mine
  have followed := followed_of_reach (fun _ _ given => Noticed.inTime given) (reach.leads leads)
  exact (accounted_of_leads reach left accounted leads).2.told rest cleaned followed

/-! ## The client of one connection -/

def First (_ : Multiplex) : MultiplexAction → Prop
  | .relay i _ => i = 0
  | .upstream _ .route => False
  | _ => True

instance (m : Multiplex) : DecidablePred m.First
  | .relay i _ => inferInstanceAs (Decidable (i = 0))
  | .upstream _ .route => inferInstanceAs (Decidable False)
  | .upstream _ (.answer ..) | .upstream _ .write | .upstream _ .writeFailed | .upstream _ .fail
  | .upstream _ .closed | .upstream _ .read | .upstream _ .forward | .upstream _ .cleanup
  | .upstream _ .finish | .upstream _ .take | .tick _ | .create => inferInstanceAs (Decidable True)

theorem new_of_first (reach : (system maxInFlight metrics idle codecs map).Reach First m)
    (other : i ≠ 0) : m.relays i = .new := by
  induction reach with
  | initial first => rw [first, Multiplex.new]
  | @next before after action _ first taken ih =>
      cases Change.of_step taken with
      | tick elapsed => exact ih
      | create => exact ih
      | relay move =>
          rw [move.relays_other (first ▸ other)]
          exact ih
      | upstream move =>
          cases move with
          | route => cases first
          | _ => exact ih

theorem relayStep_new {action : RelayAction} (internal : action ∈ RelayAction.internal) :
    m.relayStep idle i .new action = none := by
  cases action with
  | acquired conn => simp [RelayAction.internal] at internal
  | request data => simp [RelayAction.internal] at internal
  | connect | acquireFailed | hangUp | idle | deliverFailed => simp [RelayAction.internal] at internal
  | _ => rfl

theorem upstreamStep_absent {action : UpstreamAction} (internal : action ∈ UpstreamAction.internal) :
    m.upstreamStep codecs map k (.new 0 .absent) action = none := by
  cases action with
  | answer index data => simp [UpstreamAction.internal] at internal
  | writeFailed | fail | closed => simp [UpstreamAction.internal] at internal
  | _ => rfl

theorem atRest_of_first (reach : (system maxInFlight metrics idle codecs map).Reach First m)
    (one : m.opened = 1)
    (relay : ∀ action ∈ RelayAction.internal,
      (m.relayStep idle 0 (m.relays 0) action).isNone = true)
    (upstream : ∀ action ∈ UpstreamAction.internal,
      (m.upstreamStep codecs map 0 (m.upstreams 0) action).isNone = true) :
    m.AtRest idle codecs map := by
  refine ⟨?_, ?_⟩
  · intro i action internal
    by_cases here : i = 0
    · subst here
      exact Option.isNone_iff_eq_none.mp (relay action internal)
    · rw [new_of_first reach here]
      exact relayStep_new internal
  · intro k action internal
    by_cases here : k = 0
    · subst here
      exact Option.isNone_iff_eq_none.mp (upstream action internal)
    · rw [(connected_of_reach reach).absent k (by omega)]
      exact upstreamStep_absent internal

def Over (m : Multiplex) : Prop :=
  m.opened = 1 ∧ (m.upstreams 0).writeLoop.hasCleaned = true ∧
    (∀ action ∈ RelayAction.internal, (m.relayStep none 0 (m.relays 0) action).isNone = true) ∧
    ∀ action ∈ UpstreamAction.internal,
      (m.upstreamStep .unknown ⟨∅⟩ 0 (m.upstreams 0) action).isNone = true

instance : DecidablePred Over :=
  fun _ => inferInstanceAs (Decidable (_ ∧ _ ∧ _ ∧ _))

def shuts : List MultiplexAction := [.upstream 0 .cleanup, .upstream 0 .finish]

theorem failure_reported_sending : ∃ m n : Multiplex, (m.upstreams 0).writeLoop = .cleanup ∧
    m.InFlight 0 ⟨0, 0⟩ ∧ (n.upstreams 0).writeLoop.hasCleaned = true ∧ n.Told ⟨0, 0⟩ := by
  obtain ⟨m, reach, failed, found, own, later⟩ := twoInFlight.exists_reach
    (fun m action => m.Noticed action ∧ m.First action) (.new 2 (.new true))
    ([.create] ++ asks apiVersionsRequest ⟨0, 1⟩ ++ sends ++ [.relay 0 (.request apiVersionsRequest),
      .relay 0 .next, .relay 0 .keep, .relay 0 .check, .relay 0 .alloc, .upstream 0 .fail])
    (fun m => (m.upstreams 0).writeLoop = .cleanup ∧
      m.remap.map.lookup 2 = some ⟨⟨0, 0⟩, 7, 18, 0, 1⟩ ∧ (m.upstreams 0).connId = 1 ∧
      (twoInFlight.exec (fun m action => m.Noticed action ∧ m.First action) m
        (shuts ++ [.relay 0 .store, .relay 0 .count, .relay 0 .pushFailed, .relay 0 .cancel,
          .relay 0 .respClosed])).any fun n => decide n.Over)
    rfl (by decide +kernel)
  obtain ⟨n, leads, one, cleaned, relay, upstream⟩ := twoInFlight.exists_leads _ m _ Over later
  have rest := atRest_of_first ((reach.leads leads).mono fun _ _ given => given.2) one relay upstream
  have inFlight : m.InFlight 0 ⟨0, 0⟩ := ⟨_, own.symm, rfl, .inl ⟨2, found⟩⟩
  exact ⟨m, n, failed, inFlight, cleaned, failure_reported (reach.mono fun _ _ given => given.1) failed
    inFlight (leads.mono fun _ _ given => given.1) cleaned rest⟩

theorem failure_unreported : ¬ ∀ m n (k : Nat) tx, twoInFlight.Reachable m →
    (m.upstreams k).writeLoop = .cleanup → m.InFlight k tx → twoInFlight.Leads (fun _ _ => True) m n →
      (n.upstreams k).writeLoop.hasCleaned = true → n.AtRest none .unknown ⟨∅⟩ → n.Told tx := by
  intro claim
  obtain ⟨m, reach, failed, found, own, later⟩ := twoInFlight.exists_reach First (.new 2 (.new true))
    ([.create] ++ asks apiVersionsRequest ⟨0, 1⟩ ++ sends ++ [.upstream 0 .fail])
    (fun m => (m.upstreams 0).writeLoop = .cleanup ∧
      m.remap.map.lookup 2 = some ⟨⟨0, 0⟩, 7, 18, 0, 1⟩ ∧ (m.upstreams 0).connId = 1 ∧
      (twoInFlight.exec First m shuts).any fun n =>
        decide (n.Over ∧ (n.relays 0).written = [] ∧ (n.relays 0).listens = true))
    rfl (by decide +kernel)
  obtain ⟨n, leads, ⟨one, cleaned, relay, upstream⟩, silent, listens⟩ := twoInFlight.exists_leads _ m _
    (fun n => n.Over ∧ (n.relays 0).written = [] ∧ (n.relays 0).listens = true) later
  have rest := atRest_of_first (reach.leads leads) one relay upstream
  have told := claim m n 0 ⟨0, 0⟩ reach.reachable failed ⟨_, own.symm, rfl, .inl ⟨2, found⟩⟩
    (leads.mono fun _ _ _ => trivial) cleaned rest
  obtain ⟨resp, member, _⟩ | deaf := told
  · rw [silent] at member
    cases member
  · rw [listens] at deaf
    cases deaf

end Multiplex
end KafkaProxy.Pooled
