import KafkaProxy.Library.Tally
import KafkaProxy.Library.Watch
import KafkaProxy.Pooled.Connections
import KafkaProxy.Pooled.Routing

/-!
# What becomes of the registered requests

A response, a cancellation and the end of a connection compete for one entry. Each of them takes it out
of the table, and only then counts it down.
-/

namespace KafkaProxy.Pooled
open Library

inductive Settlement where
  | response (answer : Answer)
  | cancelled
  | failed
  deriving DecidableEq, Repr

/-- The requests whose entry has been stored, and what has taken it out again. -/
structure Ledger where
  registered : List Nat
  settled : List (Nat × Settlement)
  deriving DecidableEq, Repr

def DownToUp.isCounting : DownToUp → Bool
  | .count .. => true
  | _ => false

def ReadLoop.isRouting : ReadLoop → Bool
  | .routing .. => true
  | .receiving => false

def DownToUp.storing : DownToUp → Option Nat
  | .store _ _ tag => some tag
  | _ => none

namespace Multiplex

def openTags (m : Multiplex) : List Nat := m.remap.map.entries.map (·.2.downstreamTx.tag)

def stored (m : Multiplex) : MultiplexAction → Option Nat
  | .relay i .store => (m.relays i).downToUp.storing
  | _ => none

def settles (m : Multiplex) : MultiplexAction → List (Nat × Settlement)
  | .relay i .cancel =>
      match (m.relays i).downToUp with
      | .cancel cidU =>
          (m.remap.map.lookup cidU).toList.map fun entry => (entry.downstreamTx.tag, .cancelled)
      | _ => []
  | .upstream k .take =>
      match (m.upstreams k).readRx with
      | answer :: _ =>
          ((parseResponseCid answer.data).bind m.remap.map.lookup).toList.map fun entry =>
            (entry.downstreamTx.tag, .response answer)
      | [] => []
  | .upstream k .cleanup =>
      (m.remap.map.entries.filter fun e => e.2.connId = (m.upstreams k).connId).map fun e =>
        (e.2.downstreamTx.tag, .failed)
  | _ => []

def settle (m : Multiplex) (action : MultiplexAction) (ledger : Ledger) : Ledger :=
  ⟨ledger.registered ++ (m.stored action).toList, ledger.settled ++ m.settles action⟩

def accounted (maxInFlight : Nat) (metrics : Metrics) (idle : Option Nat) (codecs : Codecs)
    (map : RewriteMap) : System (Multiplex × Ledger) MultiplexAction :=
  (system maxInFlight metrics idle codecs map).watch ⟨[], []⟩ settle

/-- No task is between a change of the table and the update of a gauge. -/
def Updated (m : Multiplex) : Prop :=
  (∀ i, (m.relays i).downToUp.isCounting = false) ∧ ∀ k, (m.upstreams k).readLoop.isRouting = false

variable {idle : Option Nat} {codecs : Codecs} {map : RewriteMap} {m n : Multiplex} {i k : Nat}
  {action : MultiplexAction} {ledger : Ledger}

/-! ## The gauges -/

/-- The gauges run behind the table by the requests still to be counted in, and the one of the requests
runs ahead of it by those still to be counted out. -/
structure Balanced (metrics : Metrics) (size counting routing : Nat) : Prop where
  enabled : metrics.enabled = true
  entries : metrics.cidMapEntries + counting = size
  requests : metrics.requestsInFlight + counting = size + routing

def Gauged (m : Multiplex) : Prop :=
  ∃ counting routing : Nat, Tally (fun r => r.downToUp.isCounting) m.relays counting ∧
    Tally (fun u => u.readLoop.isRouting) m.upstreams routing ∧
    Balanced m.metrics m.remap.inFlight counting routing

theorem failConn_removed {τ : Type} (r : CidRemap τ) (connId : ConnId) (metrics : Metrics) :
    (r.failConn connId metrics).1 = r.entriesOf connId := by
  have split := r.size_retainOthers connId
  simp only [CidRemap.failConn, usizeSub]
  rw [if_pos (by omega)]
  omega

section Balance

variable {metrics : Metrics} {size counting routing : Nat}

theorem Balanced.store (balanced : Balanced metrics size counting routing) :
    Balanced metrics (size + 1) (counting + 1) routing where
  enabled := balanced.enabled
  entries := by
    have entries := balanced.entries
    omega
  requests := by
    have requests := balanced.requests
    omega

theorem Balanced.count (balanced : Balanced metrics size (counting + 1) routing) :
    Balanced metrics.incCidMapEntries.incRequestsInFlight size counting routing := by
  obtain ⟨enabled, entries, requests⟩ := balanced
  constructor <;> simp [Metrics.incCidMapEntries, Metrics.incRequestsInFlight, enabled] <;> omega

theorem Balanced.take (balanced : Balanced metrics (size + 1) counting routing) :
    Balanced metrics.decCidMapEntries size counting (routing + 1) := by
  obtain ⟨enabled, entries, requests⟩ := balanced
  constructor <;> simp [Metrics.decCidMapEntries, enabled] <;> omega

theorem Balanced.route (balanced : Balanced metrics size counting (routing + 1)) :
    Balanced metrics.decRequestsInFlight size counting routing := by
  obtain ⟨enabled, entries, requests⟩ := balanced
  constructor <;> simp [Metrics.decRequestsInFlight, enabled] <;> omega

theorem Balanced.cleanup {removed : Nat} (balanced : Balanced metrics (size + removed) counting routing) :
    Balanced (Metrics.decRequestsInFlight^[removed] (metrics.subCidMapEntries removed)) size counting
      routing := by
  have drop (done : Nat) : ∀ metrics, Balanced metrics size counting (routing + done) →
      Balanced (Metrics.decRequestsInFlight^[done] metrics) size counting routing := by
    induction done with
    | zero => exact fun metrics balanced => balanced
    | succ done ih => exact fun metrics balanced => ih _ balanced.route
  obtain ⟨enabled, entries, requests⟩ := balanced
  apply drop
  constructor <;> simp [Metrics.subCidMapEntries, enabled] <;> omega

end Balance

theorem Gauged.setRelay {r : PooledRelay} (gauged : m.Gauged)
    (same : r.downToUp.isCounting = (m.relays i).downToUp.isCounting) : (m.setRelay i r).Gauged := by
  obtain ⟨counting, routing, counts, rest⟩ := gauged
  exact ⟨counting, routing, counts.update_same same, rest⟩

theorem Gauged.setUpstream {u : Upstream} (gauged : m.Gauged)
    (same : u.readLoop.isRouting = (m.upstreams k).readLoop.isRouting) : (m.setUpstream k u).Gauged := by
  obtain ⟨counting, routing, counts, routes, rest⟩ := gauged
  exact ⟨counting, routing, counts, routes.update_same same, rest⟩

theorem Gauged.store {job : Job} {cidU : Int32} {tag : Nat} {entry : Entry} (gauged : m.Gauged)
    (phase : (m.relays i).downToUp = .store job cidU tag) (fresh : cidU ∉ m.remap.map) :
    Gauged { m.setRelay i { m.relays i with downToUp := .count job cidU tag } with
      remap := m.remap.store cidU entry } := by
  obtain ⟨counting, routing, counts, routes, balanced⟩ := gauged
  have size : (m.remap.store cidU entry).inFlight = m.remap.inFlight + 1 :=
    Table.size_insert_of_notMem entry fresh
  refine ⟨counting + 1, routing, counts.update i _ ?_, routes, size ▸ balanced.store⟩
  simp [phase, DownToUp.isCounting]

theorem Gauged.count {job : Job} {cidU : Int32} {tag : Nat} (gauged : m.Gauged)
    (phase : (m.relays i).downToUp = .count job cidU tag) :
    Gauged { m.setRelay i { m.relays i with downToUp := .send job cidU tag } with
      metrics := m.metrics.incCidMapEntries.incRequestsInFlight } := by
  obtain ⟨counting, routing, counts, routes, balanced⟩ := gauged
  obtain ⟨others, rfl⟩ := Nat.exists_eq_succ_of_ne_zero
    (counts.pos (i := i) (by simp [phase, DownToUp.isCounting])).ne'
  refine ⟨others, routing, counts.update i _ ?_, routes, balanced.count⟩
  simp [phase, DownToUp.isCounting]

theorem inFlight_erase {cidU : Int32} {entry : Entry} (found : m.remap.map.lookup cidU = some entry) :
    m.remap.inFlight =
      ({ m.remap with map := m.remap.map.erase cidU } : CidRemap ResponseTx).inFlight + 1 :=
  (Table.size_erase_of_mem (Table.mem_of_lookup found)).symm

theorem Gauged.cancel {cidU : Int32} (gauged : m.Gauged)
    (phase : (m.relays i).downToUp = .cancel cidU) :
    Gauged { m.setRelay i { m.relays i with lease := none, downToUp := .returned } with
      remap := { m.remap with map := m.remap.map.erase cidU }
      metrics :=
        if (m.remap.map.lookup cidU).isSome then m.metrics.decCidMapEntries.decRequestsInFlight
        else m.metrics } := by
  obtain ⟨counting, routing, counts, routes, balanced⟩ := gauged
  refine ⟨counting, routing, counts.update_same (by simp [phase, DownToUp.isCounting]), routes, ?_⟩
  cases found : m.remap.map.lookup cidU with
  | none =>
      rw [Table.erase_of_notMem (AList.lookup_eq_none.mp found)]
      exact balanced
  | some entry =>
      rw [inFlight_erase found] at balanced
      exact balanced.take.route

theorem RelayMove.gauged {action : RelayAction} (gauged : m.Gauged)
    (fresh : ∀ job cidU tag, (m.relays i).downToUp = .store job cidU tag → cidU ∉ m.remap.map)
    (move : RelayMove idle m i (m.relays i) action n) : n.Gauged := by
  cases move with
  | store phase leased => exact gauged.store phase (fresh _ _ _ phase)
  | count phase => exact gauged.count phase
  | cancel phase => exact gauged.cancel phase
  | push phase leased listens room =>
      refine Gauged.setRelay (gauged.setUpstream ?_) ?_
      · rfl
      · simp [phase, DownToUp.isCounting]
  | request data | deliver listens queue | deliverFailed listens
  | respClosed listens empty done last => exact gauged.setRelay rfl
  | connect phase | next phase head parsed | skip phase head short | keep phase | giveBack phase
  | borrow phase | acquired phase | acquireFailed phase | check phase | refuse phase
  | alloc phase | pushFailed phase | hangUp phase | idle phase | leave phase =>
      exact gauged.setRelay (by simp [phase, DownToUp.isCounting])

theorem UpstreamMove.gauged {action : UpstreamAction} (gauged : m.Gauged)
    (move : UpstreamMove codecs map m k (m.upstreams k) action n) : n.Gauged := by
  cases move with
  | cleanup phase =>
      obtain ⟨counting, routing, counts, routes, balanced⟩ := gauged
      have removed := failConn_removed m.remap (m.upstreams k).connId m.metrics
      have size : (m.remap.retainOthers (m.upstreams k).connId).inFlight +
          m.remap.entriesOf (m.upstreams k).connId = m.remap.inFlight := m.remap.size_retainOthers _
      rw [← size, ← removed] at balanced
      exact ⟨counting, routing, counts, routes.update_same rfl, balanced.cleanup⟩
  | take phase queue parsed found =>
      obtain ⟨counting, routing, counts, routes, balanced⟩ := gauged
      rw [inFlight_erase found] at balanced
      refine ⟨counting, routing + 1, counts, routes.update k _ ?_, balanced.take⟩
      simp [phase, ReadLoop.isRouting]
  | route phase listens room =>
      obtain ⟨counting, routing, counts, routes, balanced⟩ := gauged
      obtain ⟨others, rfl⟩ := Nat.exists_eq_succ_of_ne_zero
        (routes.pos (i := k) (by simp [phase, ReadLoop.isRouting])).ne'
      refine ⟨counting, others, counts.update_same rfl, routes.update k _ ?_, balanced.route⟩
      simp [phase, ReadLoop.isRouting]
  | discard phase unable =>
      obtain ⟨counting, routing, counts, routes, balanced⟩ := gauged
      obtain ⟨others, rfl⟩ := Nat.exists_eq_succ_of_ne_zero
        (routes.pos (i := k) (by simp [phase, ReadLoop.isRouting])).ne'
      refine ⟨counting, others, counts, routes.update k _ ?_, balanced.route⟩
      simp [phase, ReadLoop.isRouting]
  | finish phase =>
      obtain ⟨counting, routing, counts, routes, balanced⟩ := gauged
      exact ⟨counting, routing, counts, routes.update_same rfl,
        ⟨balanced.enabled, balanced.entries, balanced.requests⟩⟩
  | answer asked echoes | write phase queue | writeFailed phase queue | fail phase
  | closed phase empty | read phase queue | forward phase room
  | unmatched phase queue missing => exact gauged.setUpstream rfl

theorem Change.gauged (gauged : m.Gauged) (connected : m.Connected)
    (fresh : ∀ i job cidU tag, (m.relays i).downToUp = .store job cidU tag → cidU ∉ m.remap.map)
    (change : Change idle codecs map m action n) : n.Gauged := by
  cases change with
  | tick elapsed => exact gauged
  | create => exact gauged.setUpstream (by rw [connected.absent _ le_rfl]; rfl)
  | relay move => exact move.gauged gauged (fresh _)
  | upstream move => exact move.gauged gauged

/-! ## The ledger -/

structure Recorded (m : Multiplex) (ledger : Ledger) : Prop where
  nodup : ledger.registered.Nodup
  bounded : ∀ tag ∈ ledger.registered, tag < m.requests.length
  storing : ∀ i tag, (m.relays i).downToUp.storing = some tag →
    tag < m.requests.length ∧ tag ∉ ledger.registered
  apart : ∀ i j tag, (m.relays i).downToUp.storing = some tag →
    (m.relays j).downToUp.storing = some tag → i = j
  perm : ledger.registered.Perm (ledger.settled.map (·.1) ++ m.openTags)
  own : ∀ tag answer, (tag, .response answer) ∈ ledger.settled → answer.tag = tag

theorem storing_update {r : PooledRelay} {j tag : Nat}
    (same : r.downToUp.storing = none ∨ r.downToUp.storing = (m.relays i).downToUp.storing)
    (stores : (Function.update m.relays i r j).downToUp.storing = some tag) :
    (m.relays j).downToUp.storing = some tag := by
  by_cases here : j = i
  · subst here
    rw [Function.update_self] at stores
    obtain none | same := same
    · rw [none] at stores
      cases stores
    · exact same ▸ stores
  · rwa [Function.update_of_ne here] at stores

theorem Recorded.of_settles (recorded : m.Recorded ledger) (nothing : m.stored action = none)
    (same : n.requests = m.requests) (perm : m.openTags.Perm ((m.settles action).map (·.1) ++ n.openTags))
    (own : ∀ tag answer, (tag, .response answer) ∈ m.settles action → answer.tag = tag)
    (storing : ∀ j tag, (n.relays j).downToUp.storing = some tag →
      (m.relays j).downToUp.storing = some tag) : n.Recorded (m.settle action ledger) := by
  have registered : (m.settle action ledger).registered = ledger.registered := by
    simp [settle, nothing]
  refine ⟨?_, ?_, ?_, ?_, ?_, ?_⟩
  · exact registered ▸ recorded.nodup
  · rw [registered, same]
    exact recorded.bounded
  · intro j tag stores
    rw [registered, same]
    exact recorded.storing j tag (storing j tag stores)
  · intro j l tag first second
    exact recorded.apart j l tag (storing j tag first) (storing l tag second)
  · rw [registered, settle, List.map_append, List.append_assoc]
    exact recorded.perm.trans (perm.append_left _)
  · intro tag answer member
    obtain old | new := List.mem_append.mp member
    · exact recorded.own tag answer old
    · exact own tag answer new

theorem Recorded.of_quiet (recorded : m.Recorded ledger) (nothing : m.stored action = none)
    (none : m.settles action = []) (same : n.requests = m.requests) (stays : n.openTags = m.openTags)
    (storing : ∀ j tag, (n.relays j).downToUp.storing = some tag →
      (m.relays j).downToUp.storing = some tag) : n.Recorded (m.settle action ledger) := by
  apply recorded.of_settles nothing same
  · rw [none, stays]
    rfl
  · simp [none]
  · exact storing

theorem Recorded.alloc {job : Job} {conn : Acquired} {cidU : Int32} {remap : CidRemap ResponseTx}
    (recorded : m.Recorded ledger) (stays : remap.map = m.remap.map) :
    Recorded { m.setRelay i { m.relays i with downToUp := .store job cidU m.requests.length } with
      remap, requests := m.requests ++ [⟨i, job, conn.writeTx⟩] } (m.settle (.relay i .alloc) ledger) := by
  have same : m.settle (.relay i .alloc) ledger = ledger := by
    simp [settle, Multiplex.stored, Multiplex.settles]
  rw [same]
  have fresh (j : Nat) (tag : Nat) (stores : (Function.update m.relays i { m.relays i with
      downToUp := .store job cidU m.requests.length } j).downToUp.storing = some tag) :
      j = i ∧ tag = m.requests.length ∨ (m.relays j).downToUp.storing = some tag ∧
        tag < m.requests.length := by
    by_cases here : j = i
    · subst here
      rw [Function.update_self, DownToUp.storing, Option.some.injEq] at stores
      exact .inl ⟨rfl, stores.symm⟩
    · rw [Function.update_of_ne here] at stores
      exact .inr ⟨stores, (recorded.storing j tag stores).1⟩
  refine ⟨recorded.nodup, ?_, ?_, ?_, ?_, recorded.own⟩
  · intro tag member
    rw [List.length_append, List.length_singleton]
    exact Nat.lt_succ_of_lt (recorded.bounded tag member)
  · intro j tag stores
    rw [List.length_append, List.length_singleton]
    obtain ⟨_, rfl⟩ | ⟨before, below⟩ := fresh j tag stores
    · exact ⟨Nat.lt_succ_self _, fun member => Nat.lt_irrefl _ (recorded.bounded _ member)⟩
    · exact ⟨Nat.lt_succ_of_lt below, (recorded.storing j tag before).2⟩
  · intro j l tag first second
    obtain ⟨rfl, rfl⟩ | ⟨before, below⟩ := fresh j tag first
    · obtain ⟨rfl, _⟩ | ⟨_, below⟩ := fresh l _ second
      · rfl
      · exact absurd below (Nat.lt_irrefl _)
    · obtain ⟨_, rfl⟩ | ⟨other, _⟩ := fresh l tag second
      · exact absurd below (Nat.lt_irrefl _)
      · exact recorded.apart j l tag before other
  · rw [openTags]
    exact stays ▸ recorded.perm

theorem Recorded.store {job : Job} {cidU : Int32} {tag : Nat} {entry : Entry}
    (recorded : m.Recorded ledger) (phase : (m.relays i).downToUp = .store job cidU tag)
    (own : entry.downstreamTx.tag = tag) (fresh : cidU ∉ m.remap.map) :
    Recorded { m.setRelay i { m.relays i with downToUp := .count job cidU tag } with
      remap := m.remap.store cidU entry } (m.settle (.relay i .store) ledger) := by
  have same : m.settle (.relay i .store) ledger = ⟨ledger.registered ++ [tag], ledger.settled⟩ := by
    simp [settle, Multiplex.stored, Multiplex.settles, phase, DownToUp.storing]
  have here : (m.relays i).downToUp.storing = some tag := by
    rw [phase]
    rfl
  obtain ⟨below, unregistered⟩ := recorded.storing i tag here
  rw [same]
  have others (j : Nat) (other : Nat) (stores : (Function.update m.relays i { m.relays i with
      downToUp := .count job cidU tag } j).downToUp.storing = some other) :
      j ≠ i ∧ (m.relays j).downToUp.storing = some other := by
    refine ⟨?_, storing_update (.inl rfl) stores⟩
    rintro rfl
    rw [Function.update_self] at stores
    cases stores
  refine ⟨?_, ?_, ?_, ?_, ?_, recorded.own⟩
  · rw [← List.concat_eq_append]
    exact recorded.nodup.concat unregistered
  · intro other member
    obtain old | new := List.mem_append.mp member
    · exact recorded.bounded other old
    · exact List.mem_singleton.mp new ▸ below
  · intro j other stores
    obtain ⟨apart, before⟩ := others j other stores
    obtain ⟨known, absent⟩ := recorded.storing j other before
    refine ⟨known, fun member => ?_⟩
    obtain old | new := List.mem_append.mp member
    · exact absent old
    · rw [List.mem_singleton.mp new] at before
      exact apart (recorded.apart j i tag before here)
  · intro j l other first second
    exact recorded.apart j l other (others j other first).2 (others l other second).2
  · have added : (m.remap.store cidU entry).map.entries = ⟨cidU, entry⟩ :: m.remap.map.entries :=
      AList.entries_insert_of_notMem fresh
    rw [openTags]
    simp only [added, List.map_cons, own]
    exact (List.perm_append_singleton tag _).trans ((recorded.perm.cons tag).trans List.perm_middle.symm)

theorem Recorded.cancel {cidU : Int32} {metrics : Metrics} (recorded : m.Recorded ledger)
    (phase : (m.relays i).downToUp = .cancel cidU) :
    Recorded { m.setRelay i { m.relays i with lease := none, downToUp := .returned } with
      remap := { m.remap with map := m.remap.map.erase cidU }, metrics }
      (m.settle (.relay i .cancel) ledger) := by
  refine recorded.of_settles rfl ?_ ?_ ?_ ?_
  · rfl
  · cases found : m.remap.map.lookup cidU with
    | none =>
        rw [Table.erase_of_notMem (AList.lookup_eq_none.mp found)]
        simp [Multiplex.settles, phase, found, openTags]
    | some entry =>
        simpa [Multiplex.settles, phase, found, openTags] using (Table.perm_erase found).map _
  · cases found : m.remap.map.lookup cidU <;> simp [Multiplex.settles, phase, found]
  · exact fun j tag stores => storing_update (.inl rfl) stores

theorem RelayMove.recorded {action : RelayAction} (recorded : m.Recorded ledger)
    (fresh : ∀ job cidU tag, (m.relays i).downToUp = .store job cidU tag → cidU ∉ m.remap.map)
    (move : RelayMove idle m i (m.relays i) action n) : n.Recorded (m.settle (.relay i action) ledger) := by
  cases move with
  | alloc phase leased => exact recorded.alloc rfl
  | store phase leased => exact recorded.store phase rfl (fresh _ _ _ phase)
  | cancel phase => exact recorded.cancel phase
  | request data | deliver listens queue | deliverFailed listens
  | respClosed listens empty done last =>
      refine recorded.of_quiet rfl rfl rfl rfl fun j tag stores => storing_update ?_ stores
      exact .inr rfl
  | connect phase | next phase head parsed | skip phase head short | keep phase | giveBack phase
  | borrow phase | acquired phase | acquireFailed phase | check phase | refuse phase
  | count phase | push phase leased listens room | pushFailed phase | hangUp phase | idle phase
  | leave phase =>
      refine recorded.of_quiet rfl rfl rfl rfl fun j tag stores => storing_update ?_ stores
      exact .inl rfl

theorem UpstreamMove.recorded {action : UpstreamAction} (recorded : m.Recorded ledger)
    (matching : m.Matching) (move : UpstreamMove codecs map m k (m.upstreams k) action n) :
    n.Recorded (m.settle (.upstream k action) ledger) := by
  have storing (j tag : Nat) (stores : (n.relays j).downToUp.storing = some tag) :
      (m.relays j).downToUp.storing = some tag := by
    obtain ⟨respRx, same⟩ := move.relays_eq j
    rwa [same] at stores
  cases move with
  | cleanup phase =>
      refine recorded.of_settles rfl rfl ?_ (by simp [Multiplex.settles]) storing
      have split := (Table.perm_retain (fun _ entry => entry.connId ≠ (m.upstreams k).connId)
        m.remap.map).map fun e : (_ : Int32) × Entry => e.2.downstreamTx.tag
      simpa [Multiplex.settles, openTags, CidRemap.retainOthers, Function.comp_def] using split
  | @take answer rest cidU entry phase queue parsed found =>
      refine recorded.of_settles rfl rfl ?_ ?_ storing
      · simpa [Multiplex.settles, queue, parsed, found, openTags] using (Table.perm_erase found).map _
      · simpa [Multiplex.settles, queue, parsed, found] using matching k answer rest cidU entry queue parsed found
  | @unmatched answer rest phase queue missing =>
      refine recorded.of_quiet rfl ?_ rfl rfl storing
      cases parsed : parseResponseCid answer.data with
      | none => simp [Multiplex.settles, queue, parsed]
      | some cidU => simp [Multiplex.settles, queue, parsed, missing cidU parsed]
  | answer asked echoes | write phase queue | writeFailed phase queue | fail phase
  | closed phase empty | read phase queue | forward phase room | finish phase
  | route phase listens room | discard phase unable => exact recorded.of_quiet rfl rfl rfl rfl storing

theorem Change.recorded (recorded : m.Recorded ledger) (matching : m.Matching)
    (fresh : ∀ i job cidU tag, (m.relays i).downToUp = .store job cidU tag → cidU ∉ m.remap.map)
    (change : Change idle codecs map m action n) : n.Recorded (m.settle action ledger) := by
  cases change with
  | tick elapsed => exact recorded.of_quiet rfl rfl rfl rfl fun j tag stores => stores
  | create => exact recorded.of_quiet rfl rfl rfl rfl fun j tag stores => stores
  | relay move => exact move.recorded recorded (fresh _)
  | upstream move => exact move.recorded recorded matching

theorem Recorded.fresh {stage : Nat → Stage} (recorded : m.Recorded ledger)
    (routing : Routing codecs map stage m) (few : m.requests.length < CidRemap.cidPeriod)
    (job : Job) (cidU : Int32) (tag : Nat) (phase : (m.relays i).downToUp = .store job cidU tag) :
    cidU ∉ m.remap.map := by
  intro member
  obtain ⟨entry, found⟩ := Option.isSome_iff_exists.mp (AList.lookup_isSome.mpr member)
  obtain ⟨_, cid, req, stored, _⟩ := routing.table cidU entry found
  obtain ⟨own, conn, _, asked⟩ := (routing.relay i).issued job cidU tag (by rw [phase]; rfl)
  have same : entry.downstreamTx.tag = tag := cidOf_inj few (List.getElem?_eq_some_iff.mp stored).1
    (List.getElem?_eq_some_iff.mp asked).1 (cid.symm.trans own)
  have listed : tag ∈ m.openTags := by
    refine List.mem_map.mpr ⟨⟨cidU, entry⟩, ?_, same⟩
    exact AList.mem_lookup_iff.mp found
  exact (recorded.storing i tag (by rw [phase]; rfl)).2
    (recorded.perm.mem_iff.mpr (List.mem_append_right _ listed))

variable {maxInFlight : Nat} {s : Multiplex × Ledger}

theorem accounts_of_reach (reachable : (accounted maxInFlight (.new true) idle codecs map).Reachable s)
    (few : s.1.requests.length < CidRemap.cidPeriod) : s.1.Gauged ∧ s.1.Recorded s.2 := by
  induction reachable with
  | @initial first start =>
      obtain ⟨m, ledger⟩ := first
      obtain ⟨rfl, rfl⟩ : m = .new maxInFlight (.new true) ∧ ledger = ⟨[], []⟩ := start
      refine ⟨⟨0, 0, .none fun i => rfl, .none fun k => rfl, rfl, rfl, rfl⟩, ?_⟩
      refine ⟨List.nodup_nil, ?_, ?_, ?_, .refl _, ?_⟩
      · simp
      · simp [Multiplex.new, PooledRelay.new, DownToUp.storing]
      · simp [Multiplex.new, PooledRelay.new, DownToUp.storing]
      · simp
  | @next before after action reached _ taken ih =>
      obtain ⟨stepped, noted⟩ := System.watch_step.mp taken
      have change := Change.of_step stepped
      have fewer := change.requests_grow.length_le.trans_lt few
      obtain ⟨gauged, recorded⟩ := ih fewer
      have base : (system maxInFlight (.new true) idle codecs map).Reachable before.1 :=
        System.Reach.unwatched reached
      obtain ⟨stage, routing⟩ := routing_of_reach base fewer
      have fresh := fun i => recorded.fresh (i := i) routing fewer
      rw [noted]
      exact ⟨change.gauged gauged (connected_of_reach base) fresh,
        change.recorded recorded (routing.matching fewer) fresh⟩

/-- Once every task has brought the gauges up to date, both of them equal the number of requests in
flight. A registered request is in the table, or it has been settled exactly once: by the response to
it, by its relay, or with its connection. -/
theorem in_flight_accounted
    (reachable : (accounted maxInFlight (.new true) idle codecs map).Reachable s)
    (few : s.1.requests.length < CidRemap.cidPeriod) :
    (s.1.Updated → s.1.metrics.requestsInFlight = s.1.remap.inFlight ∧
      s.1.metrics.cidMapEntries = s.1.remap.inFlight) ∧
    s.2.registered.Nodup ∧ s.2.registered.Perm (s.2.settled.map (·.1) ++ s.1.openTags) ∧
    ∀ tag answer, (tag, .response answer) ∈ s.2.settled → answer.tag = tag := by
  obtain ⟨⟨counting, routing, counts, routes, balanced⟩, recorded⟩ := accounts_of_reach reachable few
  refine ⟨fun updated => ?_, recorded.nodup, recorded.perm, recorded.own⟩
  have counted := counts.eq_zero updated.1
  have routed := routes.eq_zero updated.2
  have entries := balanced.entries
  have requests := balanced.requests
  omega

def registered (id : UInt8) (borrows : List RelayAction) : List MultiplexAction :=
  let actions : List RelayAction :=
    .request [0, 18, 0, 0, 0, 0, 0, id] :: .next :: borrows ++ [.check, .alloc, .store, .count]
  actions.map (.relay 0)

theorem in_flight_accounted_three : ∃ s : Multiplex × Ledger,
    s.2 = ⟨[0, 1, 2], [(0, .response ⟨[0, 0, 0, 2, 99], 0⟩), (1, .failed)]⟩ ∧
      s.1.remap.inFlight = 1 ∧
      (s.1.Updated → s.1.metrics.requestsInFlight = s.1.remap.inFlight ∧
        s.1.metrics.cidMapEntries = s.1.remap.inFlight) ∧
      s.2.registered.Nodup ∧ s.2.registered.Perm (s.2.settled.map (·.1) ++ s.1.openTags) ∧
      ∀ tag answer, (tag, .response answer) ∈ s.2.settled → answer.tag = tag := by
  obtain ⟨s, reachable, ledger, requests, one⟩ :=
    (accounted 2 (.new true) none .unknown ⟨∅⟩).exists_reach (fun _ _ => True) (.new 2 (.new true), ⟨[], []⟩)
      (.create :: .relay 0 .connect :: registered 7 [.giveBack, .borrow, .acquired ⟨0, 1⟩] ++
        [.relay 0 .push, .upstream 0 .write, .upstream 0 (.answer 0 [0, 0, 0, 2, 99]), .upstream 0 .read,
          .upstream 0 .forward, .upstream 0 .take, .upstream 0 .route] ++ registered 8 [.keep] ++
        [.relay 0 .push, .upstream 0 .fail, .upstream 0 .cleanup] ++ registered 9 [.keep])
      (fun s => s.2 = ⟨[0, 1, 2], [(0, .response ⟨[0, 0, 0, 2, 99], 0⟩), (1, .failed)]⟩ ∧
        s.1.requests.length = 3 ∧ s.1.remap.inFlight = 1) ⟨rfl, rfl⟩ (by decide +kernel)
  exact ⟨s, ledger, one, in_flight_accounted reachable (by rw [requests]; decide)⟩

end Multiplex
end KafkaProxy.Pooled
