import KafkaProxy.Pooled.Brokers
import KafkaProxy.Pooled.Connections

/-!
# What happens to one listener stays there

The remap table is shared. A step takes entries out of it by a correlation id, or by the number of a
connection when that has failed, and puts one in under a new id. None of these is an entry of another
listener's client while the ids and the numbers have not come round.
-/

namespace KafkaProxy

def BrokerPool.timeless (p : BrokerPool) : BrokerPool := { p with now := 0 }

namespace Pooled
open Library

namespace Multiplex

variable {idle : Option Nat} {codecs : Codecs} {map : RewriteMap} {m n : Multiplex} {i j k : Nat}
  {action : MultiplexAction} {stage : Nat → Stage}

/-! ## Numbers of connections -/

structure Counted (m : Multiplex) : Prop where
  next : m.remap.nextConnId = UInt64.ofNat (m.opened + 1)
  given : ∀ k < m.opened, (m.upstreams k).connId = UInt64.ofNat (k + 1)

theorem Change.nextConnId (change : Change idle codecs map m action n) (other : action ≠ .create) :
    n.remap.nextConnId = m.remap.nextConnId := by
  cases change with
  | tick elapsed => rfl
  | create => exact absurd rfl other
  | relay move => cases move <;> rfl
  | upstream move => cases move <;> rfl

theorem Counted.step (counted : m.Counted) (change : Change idle codecs map m action n) : n.Counted := by
  by_cases creates : action = .create
  · subst creates
    cases change with
    | create =>
        constructor
        · show m.remap.nextConnId + 1 = UInt64.ofNat (m.opened + 1 + 1)
          rw [counted.next, UInt64.ofNat_add (m.opened + 1)]
          rfl
        · intro k known
          by_cases new : k = m.opened
          · subst new
            simpa [Multiplex.create, CidRemap.allocConnId, Upstream.new] using counted.next
          · have before := Nat.lt_of_le_of_ne (Nat.le_of_lt_succ known) new
            simpa [Multiplex.create, new] using counted.given k before
  · have opened := change.opened_eq creates
    constructor
    · rw [change.nextConnId creates, opened, counted.next]
    · intro k known
      rw [opened] at known
      rw [change.opened.2 k known, counted.given k known]

theorem Counted.apart (counted : m.Counted) (few : m.opened ≤ 2 ^ 64) : m.Numbered := by
  intro k first l second same
  rw [counted.given k first, counted.given l second] at same
  have values := congrArg UInt64.toNat same
  simp only [UInt64.toNat_ofNat', Nat.reducePow] at values few
  omega

/-! ## Whose entry it is -/

structure Tied (m : Multiplex) : Prop where
  entry : ∀ cidU entry, m.remap.map.lookup cidU = some entry →
    ∃ req, m.requests[entry.downstreamTx.tag]? = some req ∧ req.client = entry.downstreamTx.client ∧
      req.writeTx < m.opened ∧ entry.connId = (m.upstreams req.writeTx).connId
  cancel : ∀ i cidU, (m.relays i).downToUp = .cancel cidU →
    ∃ tag req, cidU = cidOf tag ∧ m.requests[tag]? = some req ∧ req.client = i

theorem Tied.step (tied : m.Tied) (routing : Routing codecs map stage m) (connected : m.Connected)
    (change : Change idle codecs map m action n) : n.Tied where
  entry cidU entry found := by
    have before : ∃ req, m.requests[entry.downstreamTx.tag]? = some req ∧
        req.client = entry.downstreamTx.client ∧ req.writeTx < m.opened ∧
          entry.connId = (m.upstreams req.writeTx).connId := by
      rcases change.lookup found with ⟨old, _⟩ | ⟨i, job, tag, conn, _, phase, leased, rfl⟩
      · exact tied.entry cidU entry old
      · obtain ⟨_, own, given, known⟩ := (routing.relay i).issued job cidU tag (by rw [phase]; rfl)
        rw [leased, Option.some.injEq] at given
        subst given
        exact ⟨_, known, rfl, connected.leased i conn leased⟩
    obtain ⟨req, known, client, opened, same⟩ := before
    refine ⟨req, getElem?_of_isPrefix change.requests_grow known, client, ?_, ?_⟩
    · exact opened.trans_le change.opened.1
    · rw [change.opened.2 _ opened, same]
  cancel i cidU phase := by
    have before : ∃ tag req, cidU = cidOf tag ∧ m.requests[tag]? = some req ∧ req.client = i := by
      obtain ⟨_, respRx, same⟩ | ⟨own, rfl, move⟩ := change.at_relay i
      · rw [same] at phase
        exact tied.cancel i cidU phase
      · cases move with
        | @pushFailed job cid tag conn sends leased dead =>
            simp only [setRelay_relays, Function.update_self, DownToUp.cancel.injEq] at phase
            obtain ⟨cid, _, _, known⟩ := (routing.relay i).issued job _ tag (by rw [sends]; rfl)
            exact ⟨tag, _, phase ▸ cid, known, rfl⟩
        | request | deliver | deliverFailed | respClosed =>
            simp only [setRelay_relays, Function.update_self] at phase
            exact tied.cancel i cidU phase
        | _ => simp at phase
    obtain ⟨tag, req, cid, known, client⟩ := before
    exact ⟨tag, req, cid, getElem?_of_isPrefix change.requests_grow known, client⟩

/-! ## What a step leaves alone -/

theorem RelayMove.entries {own : RelayAction} (tied : m.Tied) (routing : Routing codecs map stage m)
    (few : m.requests.length < CidRemap.cidPeriod) (move : RelayMove idle m i (m.relays i) own n)
    (entry : Entry) (other : entry.downstreamTx.client ≠ i) (cidU : Int32) :
    n.remap.map.lookup cidU = some entry ↔ m.remap.map.lookup cidU = some entry := by
  have apart (found : m.remap.map.lookup cidU = some entry) {tag : Nat} {req : Request}
      (known : m.requests[tag]? = some req) (client : req.client = i) : cidU ≠ cidOf tag := by
    obtain ⟨_, own, _⟩ := routing.table cidU entry found
    obtain ⟨req', known', client', _⟩ := tied.entry cidU entry found
    intro same
    have tags := cidOf_inj few (List.getElem?_eq_some_iff.mp known').1
      (List.getElem?_eq_some_iff.mp known).1 (own.symm.trans same)
    rw [tags, known, Option.some.injEq] at known'
    exact other (client'.symm.trans (known' ▸ client))
  cases move with
  | @store job cid tag conn phase leased =>
      obtain ⟨rfl, _, _, known⟩ := (routing.relay i).issued job cid tag (by rw [phase]; rfl)
      have stored := Table.lookup_insert_eq_some (t := m.remap.map) (k := cidOf tag) (l := cidU) (w := entry)
        (v := ⟨⟨i, tag⟩, job.header.correlationId, job.header.apiKey, job.header.apiVersion, conn.connId⟩)
      refine stored.trans ⟨?_, fun found => .inr ⟨apart found known rfl, found⟩⟩
      rintro (⟨_, rfl⟩ | ⟨_, found⟩)
      · exact absurd rfl other
      · exact found
  | @cancel cid phase =>
      obtain ⟨tag, req, rfl, known, client⟩ := tied.cancel i cid phase
      refine Table.lookup_erase_eq_some.trans ⟨And.right, fun found => ?_⟩
      exact ⟨apart found known client, found⟩
  | _ => exact Iff.rfl

theorem UpstreamMove.entries {own : UpstreamAction} (tied : m.Tied) (routing : Routing codecs map stage m)
    (few : m.requests.length < CidRemap.cidPeriod) (numbered : m.Numbered) (opens : k < m.opened)
    (move : UpstreamMove codecs map m k (m.upstreams k) own n) (entry : Entry)
    (other : ∀ req ∈ m.requests, req.client = entry.downstreamTx.client → req.writeTx ≠ k) (cidU : Int32) :
    n.remap.map.lookup cidU = some entry ↔ m.remap.map.lookup cidU = some entry := by
  cases move with
  | cleanup phase =>
      refine CidRemap.lookup_retainOthers.trans ⟨And.left, fun found => ⟨found, fun same => ?_⟩⟩
      obtain ⟨req, known, client, opened, number⟩ := tied.entry cidU entry found
      have here := numbered _ opened k opens (number.symm.trans same)
      exact other req (List.mem_of_getElem? known) client here
  | @take answer rest cid taken phase queue parsed present =>
      refine Table.lookup_erase_eq_some.trans ⟨And.right, fun found => ⟨?_, found⟩⟩
      rintro rfl
      have read : answer ∈ (m.upstreams k).readRx := queue ▸ List.mem_cons_self
      obtain ⟨_, req, known, here⟩ := (routing.upstream k).readRx answer read
      have tags := routing.matching few k answer rest cidU entry queue parsed found
      obtain ⟨req', known', client, _⟩ := tied.entry cidU entry found
      rw [← tags, known, Option.some.injEq] at known'
      exact other req (List.mem_of_getElem? known) (known' ▸ client) here
  | _ => exact Iff.rfl

theorem UpstreamMove.relays {own : UpstreamAction} (routing : Routing codecs map stage m)
    (move : UpstreamMove codecs map m k (m.upstreams k) own n)
    (other : ∀ req ∈ m.requests, req.client = j → req.writeTx ≠ k) : n.relays j = m.relays j := by
  cases move with
  | @route answer entry phase listens room =>
      obtain ⟨_, tags, fits, _, req, known, here⟩ := (routing.upstream k).routing answer entry phase
      obtain ⟨req', known', same⟩ := fits
      rw [← tags, known, Option.some.injEq] at known'
      have client : entry.downstreamTx.client = req.client := by rw [same, known']; rfl
      apply Function.update_of_ne
      rintro rfl
      exact other req (List.mem_of_getElem? known) client.symm here
  | _ => rfl

theorem RelayMove.upstreams {own : RelayAction} (move : RelayMove idle m i (m.relays i) own n)
    (other : ∀ conn, (m.relays i).lease = some conn → conn.writeTx ≠ k) : n.upstreams k = m.upstreams k := by
  cases move with
  | push phase leased listens room =>
      exact Function.update_of_ne (other _ leased).symm _ _
  | _ => rfl

variable {maxInFlight : Nat} {metrics : Metrics}

theorem counted_of_reachable (reachable : (system maxInFlight metrics idle codecs map).Reachable m) :
    m.Counted := by
  induction reachable with
  | initial first =>
      rw [first]
      exact ⟨rfl, fun k none => absurd none (Nat.not_lt_zero k)⟩
  | next _ _ taken ih => exact ih.step (.of_step taken)

theorem tied_of_reachable (reachable : (system maxInFlight metrics idle codecs map).Reachable m)
    (few : m.requests.length < CidRemap.cidPeriod) : m.Tied := by
  induction reachable with
  | initial first =>
      rw [first]
      constructor
      · intro cidU entry found
        cases found
      · intro i cidU phase
        cases phase
  | next before _ taken ih =>
      have change := Change.of_step taken
      have fewer := change.requests_grow.length_le.trans_lt few
      obtain ⟨_, routing⟩ := routing_of_reach before fewer
      exact (ih fewer).step routing (connected_of_reach before) change

end Multiplex

namespace Brokers

variable {listeners maxInFlight : Nat} {config : PoolLimits} {metrics : Metrics} {idle : Option Nat}
  {codecs : Codecs} {map : RewriteMap} {s t u : List BrokerPool × Multiplex} {b c : Nat}

/-! ## What the others have -/

/-- The listener `c` has what it had, but for the time: its pool, its clients' relays, its connections and
its clients' entries in the table. -/
structure Untouched (c : Nat) (s t : List BrokerPool × Multiplex) : Prop where
  pool : (t.1[c]?).map BrokerPool.timeless = (s.1[c]?).map BrokerPool.timeless
  relays : ∀ i, t.2.relays (Nat.pair c i) = s.2.relays (Nat.pair c i)
  upstreams : ∀ k, Serves s.1 c k → t.2.upstreams k = s.2.upstreams k
  entries : ∀ entry : Entry, broker entry.downstreamTx.client = c → ∀ cidU,
    (t.2.remap.map.lookup cidU = some entry ↔ s.2.remap.map.lookup cidU = some entry)

theorem Untouched.serves (untouched : Untouched c s t) {k : Nat} (serves : Serves s.1 c k) :
    Serves t.1 c k := by
  obtain ⟨pool, there, member⟩ := serves
  have same := untouched.pool
  rw [there, Option.map_some] at same
  obtain ⟨later, now, eq⟩ := Option.map_eq_some_iff.mp same
  have created : later.timeless.created = pool.timeless.created := congrArg BrokerPool.created eq
  replace created : later.created = pool.created := created
  exact ⟨later, now, created ▸ member⟩

theorem Untouched.there (untouched : Untouched c s t) (there : c < s.1.length) : c < t.1.length := by
  have same := untouched.pool
  rw [List.getElem?_eq_getElem there, Option.map_some] at same
  obtain ⟨later, now, _⟩ := Option.map_eq_some_iff.mp same
  exact (List.getElem?_eq_some_iff.mp now).1

theorem Untouched.refl : Untouched c s s := ⟨rfl, fun _ => rfl, fun _ _ => rfl, fun _ _ _ => Iff.rfl⟩

theorem Untouched.trans (first : Untouched c s t) (later : Untouched c t u) : Untouched c s u where
  pool := later.pool.trans first.pool
  relays i := (later.relays i).trans (first.relays i)
  upstreams k serves := (later.upstreams k (first.serves serves)).trans (first.upstreams k serves)
  entries entry own cidU := (later.entries entry own cidU).trans (first.entries entry own cidU)

theorem shared_of_parts {pool : BrokerPool} {m : Multiplex} {action : ServiceAction}
    {own : Option PoolAction} {shared : MultiplexAction}
    (possible : Service.parts (pool, m) action = some (own, some shared)) (mine : action.isOf pool = true) :
    shared = .create ∨ (∃ i own, shared = .relay i own) ∨
      ∃ k own, shared = .upstream k own ∧ k ∈ pool.created := by
  cases action with
  | tick elapsed => cases mine
  | upstream k action =>
      simp only [Service.parts] at possible
      split at possible <;> cases possible
      exact .inr (.inr ⟨k, _, rfl, by simpa [ServiceAction.isOf] using mine⟩)
  | closed k =>
      simp only [Service.parts] at possible
      split at possible <;> cases possible
      exact .inr (.inr ⟨k, _, rfl, by simpa [ServiceAction.isOf] using mine⟩)
  | finish k =>
      cases possible
      exact .inr (.inr ⟨k, _, rfl, by simpa [ServiceAction.isOf] using mine⟩)
  | warm | connect i =>
      cases possible
      exact .inl rfl
  | relay i action =>
      simp only [Service.parts] at possible
      split at possible <;> cases possible
      exact .inr (.inl ⟨i, _, rfl⟩)
  | pool action =>
      simp only [Service.parts] at possible
      split at possible <;> cases possible
  | tryIdle i =>
      simp only [Service.parts] at possible
      split at possible
      · split at possible <;> cases possible
        exact .inr (.inl ⟨i, _, rfl⟩)
      · cases possible
  | hand i =>
      simp only [Service.parts] at possible
      split at possible <;> cases possible
      exact .inr (.inl ⟨i, _, rfl⟩)
  | accept | giveBack i | borrow i | rollback i | timeout i | cancel i | leave i =>
      cases possible
      exact .inr (.inl ⟨_, _, rfl⟩)

inductive Foreign (c : Nat) (s : List BrokerPool × Multiplex) : MultiplexAction → Prop where
  | tick (elapsed : Nat) : Foreign c s (.tick elapsed)
  | create : Foreign c s .create
  | relay (i : Nat) (own : RelayAction) (other : broker i ≠ c) : Foreign c s (.relay i own)
  | upstream (k : Nat) (own : UpstreamAction) (opens : k < s.2.opened) (other : ¬ Serves s.1 c k) :
      Foreign c s (.upstream k own)

theorem Untouched.of_foreign {action : MultiplexAction} {stage : Nat → Stage} (owned : Owned s)
    (tied : s.2.Tied) (routing : Multiplex.Routing codecs map stage s.2)
    (few : s.2.requests.length < CidRemap.cidPeriod) (numbered : s.2.Numbered)
    (pool : (t.1[c]?).map BrokerPool.timeless = (s.1[c]?).map BrokerPool.timeless)
    (foreign : Foreign c s action) (change : Multiplex.Change idle codecs map s.2 action t.2) :
    Untouched c s t := by
  have far {k : Nat} {req : Request} (away : ¬ Serves s.1 c k) (here : broker req.client = c)
      (known : req ∈ s.2.requests) : req.writeTx ≠ k := by
    rintro rfl
    exact away (here ▸ owned.requests req known)
  obtain ⟨pools, n⟩ := t
  refine ⟨pool, ?_, ?_, ?_⟩
  · intro i
    cases foreign with
    | tick elapsed | create =>
        cases change
        rfl
    | relay j own other =>
        cases change with
        | relay move =>
            apply move.relays_other
            rintro rfl
            exact other (broker_pair c i)
    | upstream k own opens other =>
        cases change with
        | upstream move => exact move.relays routing fun req known client => far other (by simp [client]) known
  · intro k serves
    cases foreign with
    | tick elapsed =>
        cases change
        rfl
    | create =>
        cases change
        exact Function.update_of_ne (owned.opened c k serves).ne _ _
    | relay j own other =>
        cases change with
        | relay move =>
            apply move.upstreams
            rintro conn leased rfl
            exact other (owned.apart _ _ _ (owned.leases j conn leased) serves)
    | upstream l own opens other =>
        cases change with
        | upstream move =>
            apply move.upstreams_other
            rintro rfl
            exact other serves
  · intro entry here cidU
    cases foreign with
    | tick elapsed | create =>
        cases change
        exact Iff.rfl
    | relay j own other =>
        cases change with
        | relay move =>
            refine move.entries tied routing few entry ?_ cidU
            rintro rfl
            exact other here
    | upstream k own opens other =>
        cases change with
        | upstream move =>
            refine move.entries tied routing few numbered opens entry ?_ cidU
            exact fun req known client => far other (by rw [client, here]) known

theorem Untouched.of_listener {action : ServiceAction}
    (reachable : (system listeners config maxInFlight metrics idle codecs map).Reachable s)
    (few : s.2.requests.length < CidRemap.cidPeriod) (numbers : s.2.opened ≤ 2 ^ 64)
    (taken : (system listeners config maxInFlight metrics idle codecs map).step s (.broker b action) = some t)
    (other : b ≠ c) : Untouched c s t := by
  have owned := owned_of_reachable reachable
  have shared := multiplex_reachable reachable
  have tied := Multiplex.tied_of_reachable shared few
  have numbered := (Multiplex.counted_of_reachable shared).apart numbers
  obtain ⟨_, routing⟩ := Multiplex.routing_of_reach shared few
  obtain ⟨⟨own, both⟩, possible, left, right⟩ := System.couple_step taken
  simp only [parts] at possible
  split at possible
  · rename_i pool there
    split at possible
    · rename_i mine
      obtain ⟨⟨first, second⟩, part, same⟩ := Option.map_eq_some_iff.mp possible
      cases same
      have pools : t.1[c]? = s.1[c]? := by
        cases first with
        | none => rw [← Option.some.inj left]
        | some own =>
            obtain ⟨p, q, _, _, same⟩ := System.members_one left
            rw [same, List.getElem?_set_ne other]
      cases second with
      | none =>
          have still : t.2 = s.2 := (Option.some.inj right).symm
          exact ⟨by rw [pools], by simp [still], by simp [still], by simp [still]⟩
      | some action =>
          have change := Multiplex.Change.of_step right
          refine .of_foreign owned tied routing few numbered (by rw [pools]) ?_ change
          rcases shared_of_parts part mine with rfl | ⟨i, own, rfl⟩ | ⟨k, own, rfl, member⟩
          · exact .create
          · exact .relay (Nat.pair b i) own (by simpa using other)
          · have serves : Serves s.1 b k := ⟨pool, there, member⟩
            exact .upstream k own (owned.opened b k serves) fun also => other (owned.apart b c k serves also)
    · cases possible
  · cases possible

theorem Untouched.of_step {action : BrokersAction}
    (reachable : (system listeners config maxInFlight metrics idle codecs map).Reachable s)
    (few : s.2.requests.length < CidRemap.cidPeriod) (numbers : s.2.opened ≤ 2 ^ 64)
    (taken : (system listeners config maxInFlight metrics idle codecs map).step s action = some t)
    (there : c < s.1.length) (other : ∀ own, action ≠ .broker c own) : Untouched c s t := by
  have owned := owned_of_reachable reachable
  have shared := multiplex_reachable reachable
  cases action with
  | broker b action =>
      apply Untouched.of_listener reachable few numbers taken
      rintro rfl
      exact other action rfl
  | tick elapsed =>
      obtain ⟨_, possible, left, right⟩ := System.couple_step taken
      cases possible
      obtain ⟨_, routing⟩ := Multiplex.routing_of_reach shared few
      have change : Multiplex.Change idle codecs map s.2 (.tick elapsed) t.2 := .of_step right
      refine .of_foreign owned (Multiplex.tied_of_reachable shared few) routing few
        ((Multiplex.counted_of_reachable shared).apart numbers) ?_ (.tick elapsed) change
      rw [System.members_all left c]
      cases s.1[c]? with
      | none => rfl
      | some pool => rfl
  | listen =>
      obtain ⟨_, possible, left, right⟩ := System.couple_step taken
      simp only [parts] at possible
      split at possible <;> cases possible
      have still : t.2 = s.2 := (Option.some.inj right).symm
      have pools : t.1[c]? = s.1[c]? := by rw [System.members_join left, List.getElem?_append_left there]
      exact ⟨by rw [pools], by simp [still], by simp [still], by simp [still]⟩

theorem grows {action : BrokersAction}
    (taken : (system listeners config maxInFlight metrics idle codecs map).step s action = some t) :
    s.2.requests.length ≤ t.2.requests.length ∧ s.2.opened ≤ t.2.opened := by
  obtain ⟨⟨_, shared⟩, _, _, right⟩ := System.couple_step taken
  cases shared with
  | none =>
      rw [← Option.some.inj right]
      exact ⟨le_rfl, le_rfl⟩
  | some action =>
      have change := Multiplex.Change.of_step right
      exact ⟨change.requests_grow.length_le, change.opened.1⟩

/-- Whatever the other listeners, their clients and their brokers do, and however their connections fail,
a listener that does nothing itself has in the end what it had. -/
theorem others_contained
    (reachable : (system listeners config maxInFlight metrics idle codecs map).Reachable s)
    (there : c < s.1.length)
    (leads : (system listeners config maxInFlight metrics idle codecs map).Leads
      (fun _ action => ∀ own, action ≠ .broker c own) s t)
    (few : t.2.requests.length < CidRemap.cidPeriod) (numbers : t.2.opened ≤ 2 ^ 64) : Untouched c s t := by
  induction leads with
  | refl => exact .refl
  | next before other taken ih =>
      obtain ⟨requests, opened⟩ := grows taken
      have fewer := requests.trans_lt few
      have less := opened.trans numbers
      have first := ih fewer less
      have reached := reachable.leads (before.mono fun _ _ _ => trivial)
      exact first.trans (.of_step reached fewer less taken (first.there there) other)

def secondFails : List BrokersAction :=
  ofListener 1 [.upstream 1 .fail, .upstream 1 .cleanup, .finish 1]

def bothAsk : List BrokersAction :=
  [.listen] ++ ofListener 0 [.warm, .pool .warmPush] ++ [.listen] ++ ofListener 1 [.warm, .pool .warmPush] ++
    ofListener 0 (.accept :: Service.comesIn 7 ++ Service.borrowed ++ Service.sent) ++
    ofListener 1 (.accept :: Service.comesIn 7 ++ Service.borrowed ++ Service.sent)

instance (action : BrokersAction) (c : Nat) : Decidable (∀ own, action ≠ .broker c own) :=
  match action with
  | .broker b own => if here : b = c then .isFalse (by simp [here]) else .isTrue (by simp [here])
  | .tick _ | .listen => .isTrue (by simp)

theorem others_contained_failure : ∃ s t : List BrokerPool × Multiplex,
    s.2.remap.map.size = 2 ∧ t.2.remap.map.size = 1 ∧ (t.2.upstreams 1).writeLoop = .ended ∧
      Untouched 0 s t := by
  obtain ⟨s, reachable, there, entries, later⟩ :=
    (system 2 oneWarm 2 (.new true) none .unknown ⟨∅⟩).exists_reach (fun _ _ => True)
      ([], .new 2 (.new true)) bothAsk
      (fun s => 0 < s.1.length ∧ s.2.remap.map.size = 2 ∧
        ((system 2 oneWarm 2 (.new true) none .unknown ⟨∅⟩).exec
          (fun _ action => ∀ own, action ≠ .broker 0 own) s secondFails).any fun t =>
          decide (t.2.remap.map.size = 1 ∧ (t.2.upstreams 1).writeLoop = .ended ∧
            t.2.requests.length = 2 ∧ t.2.opened = 2)) ⟨rfl, rfl⟩ (by decide +kernel)
  obtain ⟨t, leads, left, ended, requests, opened⟩ := System.exists_leads _ _ s secondFails _ later
  exact ⟨s, t, entries, left, ended,
    others_contained reachable there leads (by rw [requests]; decide) (by rw [opened]; decide)⟩

end Brokers
end Pooled
end KafkaProxy
