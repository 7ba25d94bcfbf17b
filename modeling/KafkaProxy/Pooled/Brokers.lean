import Mathlib.Data.Nat.Pairing
import KafkaProxy.Library.Members
import KafkaProxy.Pool.Held
import KafkaProxy.Pooled.Service
import KafkaProxy.Pooled.Traffic

/-!
# The listeners of one process

Each listener has a pool for its own broker, and all of them share the remap table. They start in turn,
the next one when the pool of the last is warmed up. The client `i` of the listener `b` is the relay
`Nat.pair b i`.
-/

namespace KafkaProxy
open Library

namespace BrokerPool

variable {p q : BrokerPool} {config : PoolLimits} {metrics : Metrics}

theorem Change.created_eq {action : PoolAction} (change : Change p action q) :
    q.created = (opens action).toList.map (·.writeTx) ++ p.created := by
  cases change with
  | task current move =>
      cases move with
      | notify => exact notifyOne_created
      | _ => rfl
  | reapNotify subtracted => exact notifyOne_created
  | _ => rfl

theorem held_subset_created (reachable : (system config metrics).Reachable p) : p.held ⊆ p.created := by
  induction reachable with
  | initial first =>
      rw [first]
      exact List.nil_subset _
  | next _ _ taken ih =>
      intro k member
      have change := Change.of_step taken
      rw [change.created_eq, List.mem_append]
      obtain before | ⟨conn, opened, rfl⟩ := change.held_or_new member
      · exact .inr (ih before)
      · exact .inl (List.mem_map.mpr ⟨conn, Option.mem_toList.mpr opened, rfl⟩)

end BrokerPool

namespace Pooled

inductive BrokersAction where
  | tick (elapsed : Nat)
  | listen
  | broker (b : Nat) (action : ServiceAction)
  deriving DecidableEq, Repr

/-- The loops of a connection are of the pool that has opened it. -/
def ServiceAction.isOf (pool : BrokerPool) : ServiceAction → Bool
  | .upstream k _ | .closed k | .finish k => k ∈ pool.created
  | .tick _ => false
  | .pool _ | .relay .. | .warm | .accept | .giveBack _ | .borrow _ | .tryIdle _ | .connect _ | .hand _
  | .rollback _ | .timeout _ | .cancel _ | .leave _ => true

/-- The clients of the listener `b` under their own numbers. -/
def Multiplex.of (m : Multiplex) (b : Nat) : Multiplex :=
  { m with relays := fun i => m.relays (Nat.pair b i) }

def MultiplexAction.of (b : Nat) : MultiplexAction → MultiplexAction
  | .relay i action => .relay (Nat.pair b i) action
  | .tick elapsed => .tick elapsed
  | .create => .create
  | .upstream k action => .upstream k action

namespace Brokers

def parts (listeners : Nat) (s : List BrokerPool × Multiplex) :
    BrokersAction → Option (Option (MembersAction PoolAction) × Option MultiplexAction)
  | .tick elapsed => some (some (.all (.tick elapsed)), some (.tick elapsed))
  | .listen =>
      if s.1.length < listeners ∧ ∀ pool ∈ s.1.getLast?, pool.warmedUp then some (some .join, none)
      else none
  | .broker b action =>
      match s.1[b]? with
      | some pool =>
          if action.isOf pool then
            (Service.parts (pool, s.2.of b) action).map fun (own, shared) =>
              (own.map (.one b), shared.map (.of b))
          else none
      | none => none

def system (listeners : Nat) (config : PoolLimits) (maxInFlight : Nat) (metrics : Metrics)
    (idle : Option Nat) (codecs : Codecs) (map : RewriteMap) :
    System (List BrokerPool × Multiplex) BrokersAction :=
  System.couple (System.members (BrokerPool.system config metrics) (.new config metrics))
    (Multiplex.system maxInFlight metrics idle codecs map) (parts listeners)

def carrying (listeners : Nat) (config : PoolLimits) (maxInFlight : Nat) (metrics : Metrics)
    (idle : Option Nat) (codecs : Codecs) (map : RewriteMap) :
    System ((List BrokerPool × Multiplex) × Traffic) BrokersAction :=
  (system listeners config maxInFlight metrics idle codecs map).watch ⟨fun _ => [], fun _ => []⟩
    (System.noteRight (parts listeners) Multiplex.noteTraffic)

variable {listeners maxInFlight : Nat} {config : PoolLimits} {metrics : Metrics} {idle : Option Nat}
  {codecs : Codecs} {map : RewriteMap} {s t : List BrokerPool × Multiplex} {b : Nat}

/-! ## Each pool, and what they share -/

theorem pool_reachable (reachable : (system listeners config maxInFlight metrics idle codecs map).Reachable s)
    {pool : BrokerPool} (there : s.1[b]? = some pool) : (BrokerPool.system config metrics).Reachable pool := by
  have members :
      (System.members (BrokerPool.system config metrics) (.new config metrics)).Reachable s.1 :=
    System.Reach.left (fun _ _ _ _ _ _ => trivial) reachable
  exact System.Reach.member rfl members there

theorem multiplex_reachable
    (reachable : (system listeners config maxInFlight metrics idle codecs map).Reachable s) :
    (Multiplex.system maxInFlight metrics idle codecs map).Reachable s.2 :=
  System.Reach.right (fun _ _ _ _ _ _ => trivial) reachable

inductive Part (pool : BrokerPool) (m : Multiplex) : Option PoolAction × Option MultiplexAction → Prop where
  | opens (action : PoolAction) (conn : BrokerPool.opens action = some (Service.nextConn m)) :
      Part pool m (some action, some .create)
  | gets (own : Option PoolAction) (i : Nat) (conn : Acquired)
      (none : ∀ action ∈ own, BrokerPool.opens action = none)
      (held : conn.writeTx ∈ pool.held) : Part pool m (own, some (.relay i (.acquired conn)))
  | other (own : Option PoolAction) (shared : Option MultiplexAction)
      (none : ∀ action ∈ own, BrokerPool.opens action = none)
      (others : ∀ action ∈ shared, action ≠ .create ∧ ∀ i conn, action ≠ .relay i (.acquired conn)) :
      Part pool m (own, shared)

theorem release_opens {m : Multiplex} {i : Nat} :
    ∀ action ∈ Service.release m i, BrokerPool.opens action = none := by
  intro action releases
  unfold Service.release at releases
  split at releases <;> cases releases
  rfl

theorem Part.of_parts {pool : BrokerPool} {m : Multiplex} {action : ServiceAction}
    {part : Option PoolAction × Option MultiplexAction}
    (possible : Service.parts (pool, m) action = some part) (mine : action.isOf pool = true) :
    Part pool m part := by
  cases action with
  | tick elapsed => cases mine
  | pool own =>
      simp only [Service.parts] at possible
      split at possible <;> cases possible
      rename_i isOwn
      refine .other _ _ ?_ (by simp)
      rintro _ ⟨⟩
      cases own with
      | task i action => cases action <;> first | rfl | cases isOwn
      | _ => first | rfl | cases isOwn
  | relay i action =>
      simp only [Service.parts] at possible
      split at possible <;> cases possible
      rename_i isOwn
      refine .other _ _ (by simp) ?_
      rintro _ ⟨⟩
      refine ⟨by simp, ?_⟩
      rintro j conn ⟨⟩
      cases isOwn
  | upstream k action =>
      simp only [Service.parts] at possible
      split at possible <;> cases possible
      exact .other _ _ (by simp) (by simp)
  | warm =>
      cases possible
      exact .opens _ rfl
  | connect i =>
      cases possible
      exact .opens _ rfl
  | tryIdle i =>
      simp only [Service.parts] at possible
      split at possible
      · rename_i conn rest queue
        split at possible <;> cases possible
        · exact .gets _ i _ (by simp [BrokerPool.opens])
            (BrokerPool.mem_held.mpr (.inl ⟨conn, queue ▸ List.mem_cons_self, rfl⟩))
        · exact .other _ _ (by simp [BrokerPool.opens]) (by simp)
      · cases possible
        exact .other _ _ (by simp [BrokerPool.opens]) (by simp)
  | hand i =>
      simp only [Service.parts] at possible
      split at possible <;> cases possible
      rename_i conn current
      exact .gets _ i _ (by simp [BrokerPool.opens])
        (BrokerPool.mem_held.mpr (.inr (.inl ⟨i, _, current, rfl⟩)))
  | closed k =>
      simp only [Service.parts] at possible
      split at possible <;> cases possible
      exact .other _ _ (by simp) (by simp)
  | giveBack i | leave i =>
      cases possible
      exact .other _ _ release_opens (by simp)
  | accept | borrow i | rollback i | timeout i | cancel i | finish k =>
      cases possible
      exact .other _ _ (by simp [BrokerPool.opens]) (by simp)

/-! ## Whose connection it is -/

def broker (i : Nat) : Nat := (Nat.unpair i).1

@[simp] theorem broker_pair (b i : Nat) : broker (Nat.pair b i) = b := by simp [broker]

def Serves (pools : List BrokerPool) (b k : Nat) : Prop := ∃ pool, pools[b]? = some pool ∧ k ∈ pool.created

theorem serves_of_own {pools pools' : List BrokerPool} {own : Option PoolAction}
    (moved : (System.members (BrokerPool.system config metrics) (.new config metrics)).stepOr pools
      (own.map (.one b)) = some pools') (c k : Nat) :
    Serves pools' c k ↔ Serves pools c k ∨
      c = b ∧ ∃ action ∈ own, ∃ conn ∈ BrokerPool.opens action, conn.writeTx = k := by
  cases own with
  | none =>
      cases moved
      simp
  | some action =>
      obtain ⟨p, q, known, stepped, rfl⟩ := System.members_one moved
      have created := (BrokerPool.Change.of_step stepped).created_eq
      obtain ⟨bound, same⟩ := List.getElem?_eq_some_iff.mp known
      by_cases here : c = b
      · subst here
        simp [Serves, bound, same, created, or_comm]
      · simp [Serves, here, List.getElem?_set_ne (Ne.symm here)]

structure Steps (s t : List BrokerPool × Multiplex) (opener : Option Nat) : Prop where
  serves : ∀ b k, Serves t.1 b k ↔ Serves s.1 b k ∨ opener = some b ∧ k = s.2.opened
  opened : t.2.opened = s.2.opened + opener.toList.length
  leases : ∀ i conn, (t.2.relays i).lease = some conn →
    (s.2.relays i).lease = some conn ∨ Serves s.1 (broker i) conn.writeTx
  requests : ∀ req ∈ t.2.requests, req ∈ s.2.requests ∨
    ∃ conn, (s.2.relays req.client).lease = some conn ∧ conn.writeTx = req.writeTx

end Brokers

namespace Multiplex

variable {idle : Option Nat} {codecs : Codecs} {map : RewriteMap} {m n : Multiplex} {action : MultiplexAction}

theorem Change.lease_taken (change : Change idle codecs map m action n) {i : Nat} {conn : Acquired}
    (leased : (n.relays i).lease = some conn) :
    (m.relays i).lease = some conn ∨ action = .relay i (.acquired conn) := by
  obtain ⟨_, respRx, same⟩ | ⟨own, rfl, move⟩ := change.at_relay i
  · rw [same] at leased
    exact .inl leased
  · cases move with
    | acquired phase known same =>
        simp only [setRelay_relays, Function.update_self, Option.some.injEq] at leased
        exact .inr (by rw [leased])
    | _ => simp_all

theorem Change.request (change : Change idle codecs map m action n) {req : Request}
    (member : req ∈ n.requests) : req ∈ m.requests ∨
      ∃ conn, (m.relays req.client).lease = some conn ∧ conn.writeTx = req.writeTx := by
  cases change with
  | tick elapsed | create => exact .inl member
  | upstream move => exact .inl (move.requests_eq ▸ member)
  | relay move =>
      cases move with
      | alloc phase leased =>
          rcases List.mem_append.mp member with older | added
          · exact .inl older
          · rw [List.mem_singleton.mp added]
            exact .inr ⟨_, leased, rfl⟩
      | _ => exact .inl member

theorem Change.opened_eq (change : Change idle codecs map m action n) (other : action ≠ .create) :
    n.opened = m.opened := by
  cases change with
  | tick elapsed => rfl
  | create => exact absurd rfl other
  | relay move => exact move.opened_eq
  | upstream move => exact move.opened_eq

/-! ### Where a response comes from -/

def Heard (m : Multiplex) : Prop :=
  ∀ i, ∀ resp ∈ (m.relays i).put, ∃ req, m.requests[resp.answer.tag]? = some req ∧
    resp.answer ∈ (m.upstreams req.writeTx).received

theorem Change.received (change : Change idle codecs map m action n) {k : Nat} (known : k < m.opened) :
    (m.upstreams k).received ⊆ (n.upstreams k).received := by
  obtain ⟨_, writeRx, same⟩ | ⟨_, new, _⟩ | ⟨own, _, move⟩ := change.at_upstream k
  · rw [same]
    exact List.Subset.refl _
  · exact absurd new known.ne
  · cases move with
    | read phase queue => simp
    | _ => simp

theorem UpstreamMove.put {k i : Nat} {own : UpstreamAction} {resp : DownstreamResp}
    (move : UpstreamMove codecs map m k (m.upstreams k) own n) (member : resp ∈ (n.relays i).put) :
    resp ∈ (m.relays i).put ∨ ∃ entry, (m.upstreams k).readLoop = .routing resp.answer entry := by
  cases move with
  | @route answer entry phase listens room =>
      by_cases here : i = entry.downstreamTx.client
      · subst here
        simp only [PooledRelay.put, setRelay_relays, Function.update_self, List.mem_append,
          List.mem_singleton] at member ⊢
        obtain written | queued | rfl := member
        · exact .inl (.inl written)
        · exact .inl (.inr queued)
        · exact .inr ⟨entry, phase⟩
      · simp only [setRelay_relays, Function.update_of_ne here] at member
        exact .inl member
  | _ => exact .inl member

theorem Change.heard {stage : Nat → Stage} (heard : m.Heard) (routing : Routing codecs map stage m)
    (delivery : m.Delivery) (opened : m.Opened) (change : Change idle codecs map m action n) : n.Heard := by
  have keep (answer : Answer) (before : ∃ req, m.requests[answer.tag]? = some req ∧
      answer ∈ (m.upstreams req.writeTx).received) :
      ∃ req, n.requests[answer.tag]? = some req ∧ answer ∈ (n.upstreams req.writeTx).received := by
    obtain ⟨req, known, read⟩ := before
    have sentOver := opened.requests req (List.mem_of_getElem? known)
    exact ⟨req, getElem?_of_isPrefix change.requests_grow known, change.received sentOver read⟩
  intro i resp member
  apply keep
  cases change with
  | tick elapsed | create => exact heard i resp member
  | relay move => exact heard i resp (move.put i ▸ member)
  | @upstream k own n move =>
      obtain before | ⟨entry, phase⟩ := move.put member
      · exact heard i resp before
      · obtain ⟨_, _, _, _, req, known, rfl⟩ := (routing.upstream k).routing _ _ phase
        refine ⟨req, known, ?_⟩
        rw [delivery.kept req.writeTx, Upstream.pending, phase]
        simp [ReadLoop.holds]

variable {maxInFlight : Nat} {metrics : Metrics}

theorem heard_of_reachable (reachable : (system maxInFlight metrics idle codecs map).Reachable m)
    (few : m.requests.length < CidRemap.cidPeriod) : m.Opened ∧ m.Heard := by
  induction reachable with
  | initial first =>
      rw [first]
      refine ⟨⟨by simp [new], by simp [new, PooledRelay.new]⟩, ?_⟩
      simp [Heard, new, PooledRelay.new, PooledRelay.put]
  | next before _ taken ih =>
      have change := Change.of_step taken
      have fewer := change.requests_grow.length_le.trans_lt few
      obtain ⟨opened, heard⟩ := ih fewer
      obtain ⟨_, routing⟩ := routing_of_reach before fewer
      exact ⟨opened.step change, change.heard heard routing (delivery_of_reach before) opened⟩

end Multiplex

namespace Brokers

theorem Steps.quiet (action : MultiplexAction) (serves : ∀ b k, Serves t.1 b k ↔ Serves s.1 b k)
    (taken : (Multiplex.system maxInFlight metrics idle codecs map).stepOr s.2 (some action) = some t.2)
    (other : action ≠ .create)
    (gets : ∀ i conn, action = .relay i (.acquired conn) → Serves s.1 (broker i) conn.writeTx) :
    Steps s t none where
  serves b k := by simp [serves]
  opened := (Multiplex.Change.of_step taken).opened_eq other
  leases i conn leased := by
    rcases (Multiplex.Change.of_step taken).lease_taken leased with before | taken
    · exact .inl before
    · exact .inr (gets i conn taken)
  requests _ member := (Multiplex.Change.of_step taken).request member

theorem Steps.still (serves : ∀ b k, Serves t.1 b k ↔ Serves s.1 b k) (same : t.2 = s.2) :
    Steps s t none where
  serves b k := by simp [serves]
  opened := by rw [same]; rfl
  leases _ _ leased := .inl (same ▸ leased)
  requests _ member := .inl (same ▸ member)

theorem Steps.of_listener {action : ServiceAction}
    (reachable : (system listeners config maxInFlight metrics idle codecs map).Reachable s)
    (taken : (system listeners config maxInFlight metrics idle codecs map).step s (.broker b action) =
      some t) : ∃ opener, Steps s t opener := by
  obtain ⟨⟨own, shared⟩, possible, left, right⟩ := System.couple_step taken
  simp only [parts] at possible
  split at possible
  · rename_i pool there
    split at possible
    · rename_i mine
      obtain ⟨⟨first, second⟩, part, same⟩ := Option.map_eq_some_iff.mp possible
      cases same
      have serves := serves_of_own left
      have quiet (none : ∀ action ∈ first, BrokerPool.opens action = none) (c k : Nat) :
          Serves t.1 c k ↔ Serves s.1 c k := by
        rw [serves, or_iff_left]
        rintro ⟨_, action, member, conn, opened, _⟩
        rw [none action member] at opened
        cases opened
      have kept := BrokerPool.held_subset_created (pool_reachable reachable there)
      cases Part.of_parts part mine with
      | opens action conn =>
          have created : t.2 = s.2.create := (Option.some.inj right).symm
          refine ⟨some b, fun c k => ?_, by rw [created]; rfl, ?_, ?_⟩
          · rw [serves]
            simp [conn, Service.nextConn, Multiplex.of, eq_comm]
          · intro i conn leased
            rw [created] at leased
            exact .inl leased
          · intro req member
            rw [created] at member
            exact .inl member
      | gets own i conn none held =>
          refine ⟨_, .quiet (.relay (Nat.pair b i) (.acquired conn)) (quiet none) right (by simp) ?_⟩
          rintro _ _ ⟨⟩
          exact ⟨pool, by simpa using there, kept held⟩
      | other own shared none others =>
          cases second with
          | none => exact ⟨_, .still (quiet none) (Option.some.inj right).symm⟩
          | some action =>
              obtain ⟨other, gets⟩ := others action rfl
              refine ⟨_, .quiet (action.of b) (quiet none) right ?_ ?_⟩
              · cases action <;> simp_all [MultiplexAction.of]
              · intro i conn same
                cases action with
                | relay j action =>
                    cases same
                    exact absurd rfl (gets j conn)
                | _ => cases same
    · cases possible
  · cases possible

theorem Steps.of_step {action : BrokersAction}
    (reachable : (system listeners config maxInFlight metrics idle codecs map).Reachable s)
    (taken : (system listeners config maxInFlight metrics idle codecs map).step s action = some t) :
    ∃ opener, Steps s t opener := by
  cases action with
  | broker b action => exact Steps.of_listener reachable taken
  | tick elapsed =>
      obtain ⟨_, possible, left, right⟩ := System.couple_step taken
      cases possible
      refine ⟨_, .quiet (.tick elapsed) (fun b k => ?_) right (by simp) (by simp)⟩
      have moved := System.members_all left b
      simp only [Serves, moved]
      cases s.1[b]? with
      | none => simp
      | some pool => simp [BrokerPool.system, BrokerPool.step]
  | listen =>
      obtain ⟨_, possible, left, right⟩ := System.couple_step taken
      simp only [parts] at possible
      split at possible <;> cases possible
      refine ⟨_, .still (fun b k => ?_) (Option.some.inj right).symm⟩
      rw [Serves, System.members_join left]
      rcases Nat.lt_or_ge b s.1.length with old | new
      · rw [List.getElem?_append_left old]
        rfl
      · have none : ¬ Serves s.1 b k := by
          rintro ⟨pool, there, _⟩
          rw [List.getElem?_eq_none new] at there
          cases there
        rw [List.getElem?_append_right new]
        refine iff_of_false ?_ none
        rintro ⟨pool, there, member⟩
        rw [List.mem_singleton.mp (List.mem_of_getElem? there)] at member
        cases member

structure Owned (s : List BrokerPool × Multiplex) : Prop where
  opened : ∀ b k, Serves s.1 b k → k < s.2.opened
  apart : ∀ b c k, Serves s.1 b k → Serves s.1 c k → b = c
  leases : ∀ i conn, (s.2.relays i).lease = some conn → Serves s.1 (broker i) conn.writeTx
  requests : ∀ req ∈ s.2.requests, Serves s.1 (broker req.client) req.writeTx

theorem Owned.step {opener : Option Nat} (owned : Owned s) (steps : Steps s t opener) : Owned t := by
  have more (b k : Nat) (before : Serves s.1 b k) : Serves t.1 b k := (steps.serves b k).mpr (.inl before)
  refine ⟨fun b k serves => ?_, fun b c k first second => ?_, fun i conn leased => ?_, fun req member => ?_⟩
  · rw [steps.opened]
    rcases (steps.serves b k).mp serves with before | ⟨opens, rfl⟩
    · exact (owned.opened b k before).trans_le (Nat.le_add_right _ _)
    · simp [opens]
  · rcases (steps.serves b k).mp first with before | ⟨opens, new⟩
    · rcases (steps.serves c k).mp second with also | ⟨_, rfl⟩
      · exact owned.apart b c k before also
      · exact absurd (owned.opened b _ before) (Nat.lt_irrefl _)
    · rcases (steps.serves c k).mp second with before | ⟨too, _⟩
      · rw [new] at before
        exact absurd (owned.opened c _ before) (Nat.lt_irrefl _)
      · exact Option.some.inj (opens.symm.trans too)
  · rcases steps.leases i conn leased with before | serves
    · exact more _ _ (owned.leases i conn before)
    · exact more _ _ serves
  · rcases steps.requests req member with before | ⟨conn, leased, same⟩
    · exact more _ _ (owned.requests req before)
    · exact same ▸ more _ _ (owned.leases req.client conn leased)

theorem owned_of_reachable
    (reachable : (system listeners config maxInFlight metrics idle codecs map).Reachable s) : Owned s := by
  induction reachable with
  | @initial s first =>
      have none : s.1 = [] := first.1
      have new : s.2 = .new maxInFlight metrics := first.2
      refine ⟨?_, ?_, ?_, ?_⟩ <;> simp [none, new, Serves, Multiplex.new, PooledRelay.new]
  | next before _ taken ih =>
      obtain ⟨_, steps⟩ := Steps.of_step before taken
      exact ih.step steps

/-! ## The brokers are apart -/

/-- `asked` says of a frame that a broker is sent, and `heard` of a response in a client's queue, that
the client and the broker are those of one listener. -/
structure Isolated (s : List BrokerPool × Multiplex) (traffic : Traffic) : Prop where
  apart : ∀ b c k, Serves s.1 b k → Serves s.1 c k → b = c
  asked : ∀ k, ∀ write ∈ traffic.wrote k, ∃ b i req, req.client = Nat.pair b i ∧
    s.2.Forwards k write req ∧ Serves s.1 b k
  heard : s.2.requests.length < CidRemap.cidPeriod → ∀ b i, ∀ resp ∈ (s.2.relays (Nat.pair b i)).put,
    ∃ k, resp.answer ∈ (s.2.upstreams k).received ∧ Serves s.1 b k

/-- The listeners share the table, the counter of the ids and the clock, and no client ever has to do
with a broker of another listener. -/
theorem brokers_isolated {s : (List BrokerPool × Multiplex) × Traffic}
    (reachable : (carrying listeners config maxInFlight metrics idle codecs map).Reachable s) :
    Isolated s.1 s.2 := by
  have base : (system listeners config maxInFlight metrics idle codecs map).Reachable s.1 :=
    System.Reach.unwatched reachable
  have owned := owned_of_reachable base
  have shared := multiplex_reachable base
  have requests := Multiplex.requests_of_reach shared
  have carried := Multiplex.carried_of_reachable (System.Reach.right_watched reachable)
  refine ⟨owned.apart, fun k write member => ?_, fun few b i resp member => ?_⟩
  · obtain ⟨req, forwards⟩ := carried.forwards requests ((carried.wrote.before k).subset member)
    have serves := owned.requests req (List.mem_of_getElem? forwards.request)
    rw [forwards.here] at serves
    exact ⟨broker req.client, _, req, (Nat.pair_unpair _).symm, forwards, serves⟩
  · obtain ⟨_, routing⟩ := Multiplex.routing_of_reach shared few
    obtain ⟨_, heard⟩ := Multiplex.heard_of_reachable shared few
    obtain ⟨_, own, req, _, found, client, _⟩ := (routing.relay _).queued resp member
    obtain ⟨other, known, read⟩ := heard _ resp member
    rw [own] at known
    cases found.symm.trans known
    have serves := owned.requests req (List.mem_of_getElem? found)
    rw [client, broker_pair] at serves
    exact ⟨_, read, serves⟩

def oneWarm : PoolLimits := ⟨1, 1, 300000, 5000⟩

def ofListener (b : Nat) (actions : List ServiceAction) : List BrokersAction := actions.map (.broker b)

def twoListeners : List BrokersAction :=
  [.listen] ++ ofListener 0 [.warm, .pool .warmPush] ++ [.listen] ++ ofListener 1 [.warm, .pool .warmPush] ++
    ofListener 0 (.accept :: Service.comesIn 7 ++ Service.borrowed ++ Service.sent) ++
    ofListener 1 (.accept :: Service.comesIn 7 ++ Service.borrowed ++ Service.sent) ++
    ofListener 1 (Service.answeredOver 1 1) ++ ofListener 0 (Service.answeredOver 0 0)

theorem brokers_isolated_two : ∃ s : (List BrokerPool × Multiplex) × Traffic,
    (s.2.wrote 0).length = 1 ∧ (s.2.wrote 1).length = 1 ∧ (s.1.2.relays (Nat.pair 0 0)).put.length = 1 ∧
      (s.1.2.relays (Nat.pair 1 0)).put.length = 1 ∧ s.1.2.requests.length = 2 ∧ Isolated s.1 s.2 := by
  obtain ⟨s, reachable, first, second, put, other, requests⟩ :=
    (carrying 2 oneWarm 2 (.new true) none .unknown ⟨∅⟩).exists_reach (fun _ _ => True)
      (([], .new 2 (.new true)), ⟨fun _ => [], fun _ => []⟩) twoListeners
      (fun s => (s.2.wrote 0).length = 1 ∧ (s.2.wrote 1).length = 1 ∧
        (s.1.2.relays (Nat.pair 0 0)).put.length = 1 ∧ (s.1.2.relays (Nat.pair 1 0)).put.length = 1 ∧
          s.1.2.requests.length = 2) ⟨⟨rfl, rfl⟩, rfl⟩ (by decide +kernel)
  exact ⟨s, first, second, put, other, requests, brokers_isolated reachable⟩

end Brokers
end Pooled
end KafkaProxy
