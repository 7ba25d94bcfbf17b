import KafkaProxy.Metrics
import KafkaProxy.Metrics.Histogram

/-!
# The metrics and their export

`Metrics` has the fields that the steps of the pool and of the relays are proved about. `AllMetrics` is
the whole set, and an `Operation` is one place of the program that updates it.
-/

namespace KafkaProxy

structure AllMetrics extends Metrics where
  framesDownstream : Nat
  framesUpstream : Nat
  bytesDownstream : Nat
  bytesUpstream : Nat
  downstreamConnections : Int
  poolHits : Nat
  poolMisses : Nat
  poolEvictions : Nat
  poolWaiters : Int
  authFailures : Nat
  acquireHist : Histogram
  requestHist : Histogram
  handshakeHist : Histogram

namespace AllMetrics

def new (enabled : Bool) : AllMetrics :=
  { Metrics.new enabled with
    framesDownstream := 0, framesUpstream := 0, bytesDownstream := 0, bytesUpstream := 0,
    downstreamConnections := 0, poolHits := 0, poolMisses := 0, poolEvictions := 0, poolWaiters := 0,
    authFailures := 0, acquireHist := .new, requestHist := .new, handshakeHist := .new }

def whenOn (m : AllMetrics) (update : AllMetrics → AllMetrics) : AllMetrics :=
  if m.enabled then update m else m

def incFramesDownstream (m : AllMetrics) : AllMetrics :=
  m.whenOn fun m => { m with framesDownstream := m.framesDownstream + 1 }

def addBytesDownstream (m : AllMetrics) (n : Nat) : AllMetrics :=
  m.whenOn fun m => { m with bytesDownstream := m.bytesDownstream + n }

def incFramesUpstream (m : AllMetrics) : AllMetrics :=
  m.whenOn fun m => { m with framesUpstream := m.framesUpstream + 1 }

def addBytesUpstream (m : AllMetrics) (n : Nat) : AllMetrics :=
  m.whenOn fun m => { m with bytesUpstream := m.bytesUpstream + n }

def incRequestsInFlight (m : AllMetrics) : AllMetrics :=
  { m with toMetrics := m.toMetrics.incRequestsInFlight }

def decRequestsInFlight (m : AllMetrics) : AllMetrics :=
  { m with toMetrics := m.toMetrics.decRequestsInFlight }

def incDownstreamConnections (m : AllMetrics) : AllMetrics :=
  { m with downstreamConnections := m.downstreamConnections + 1 }

def decDownstreamConnections (m : AllMetrics) : AllMetrics :=
  { m with downstreamConnections := m.downstreamConnections - 1 }

def incUpstreamConnections (m : AllMetrics) : AllMetrics :=
  { m with toMetrics := m.toMetrics.incUpstreamConnections }

def decUpstreamConnections (m : AllMetrics) : AllMetrics :=
  { m with toMetrics := m.toMetrics.decUpstreamConnections }

def incAuthFailures (m : AllMetrics) : AllMetrics :=
  m.whenOn fun m => { m with authFailures := m.authFailures + 1 }

def incPoolHits (m : AllMetrics) : AllMetrics :=
  m.whenOn fun m => { m with poolHits := m.poolHits + 1 }

def incPoolMisses (m : AllMetrics) : AllMetrics :=
  m.whenOn fun m => { m with poolMisses := m.poolMisses + 1 }

def incPoolEvictions (m : AllMetrics) : AllMetrics :=
  m.whenOn fun m => { m with poolEvictions := m.poolEvictions + 1 }

def incPoolWaiters (m : AllMetrics) : AllMetrics :=
  m.whenOn fun m => { m with poolWaiters := m.poolWaiters + 1 }

def decPoolWaiters (m : AllMetrics) : AllMetrics :=
  m.whenOn fun m => { m with poolWaiters := m.poolWaiters - 1 }

def incCidMapEntries (m : AllMetrics) : AllMetrics :=
  { m with toMetrics := m.toMetrics.incCidMapEntries }

def decCidMapEntries (m : AllMetrics) : AllMetrics :=
  { m with toMetrics := m.toMetrics.decCidMapEntries }

def subCidMapEntries (m : AllMetrics) (n : Int) : AllMetrics :=
  { m with toMetrics := m.toMetrics.subCidMapEntries n }

-- The pool updates the histograms itself. They do not know of the switch.
def observeAcquire (m : AllMetrics) (secs : ℚ) : AllMetrics :=
  { m with acquireHist := m.acquireHist.observe secs }

def observeRequest (m : AllMetrics) (secs : ℚ) : AllMetrics :=
  { m with requestHist := m.requestHist.observe secs }

def observeHandshake (m : AllMetrics) (secs : ℚ) : AllMetrics :=
  { m with handshakeHist := m.handshakeHist.observe secs }

/-- The samples of the text, in its order. `rss` is what the operating system says. -/
def renderPrometheus (m : AllMetrics) (rss : Nat) : List Sample :=
  [⟨"kafka_proxy_frames_total", .dir "downstream", m.framesDownstream⟩,
    ⟨"kafka_proxy_frames_total", .dir "upstream", m.framesUpstream⟩,
    ⟨"kafka_proxy_bytes_total", .dir "downstream", m.bytesDownstream⟩,
    ⟨"kafka_proxy_bytes_total", .dir "upstream", m.bytesUpstream⟩,
    ⟨"kafka_proxy_requests_in_flight", .none, m.requestsInFlight⟩,
    ⟨"kafka_proxy_downstream_connections", .none, m.downstreamConnections⟩,
    ⟨"kafka_proxy_upstream_connections", .none, m.upstreamConnections⟩,
    ⟨"kafka_proxy_pool_hits_total", .none, m.poolHits⟩,
    ⟨"kafka_proxy_pool_misses_total", .none, m.poolMisses⟩,
    ⟨"kafka_proxy_pool_evictions_total", .none, m.poolEvictions⟩,
    ⟨"kafka_proxy_pool_waiters", .none, m.poolWaiters⟩,
    ⟨"kafka_proxy_pool_hit_rate", .none,
      if 0 < m.poolHits + m.poolMisses then m.poolHits / (m.poolHits + m.poolMisses) else 0⟩,
    ⟨"kafka_proxy_auth_failures_total", .none, m.authFailures⟩] ++
  m.acquireHist.render "kafka_proxy_acquire_duration_seconds" ++
  m.requestHist.render "kafka_proxy_request_duration_seconds" ++
  m.handshakeHist.render "kafka_proxy_handshake_duration_seconds" ++
  [⟨"kafka_proxy_process_resident_memory_bytes", .none, rss⟩,
    ⟨"kafka_proxy_cid_map_entries", .none, m.cidMapEntries⟩]

end AllMetrics

def Sample.isPerformance (sample : Sample) : Bool :=
  sample.name ∉ ["kafka_proxy_downstream_connections", "kafka_proxy_upstream_connections",
    "kafka_proxy_process_resident_memory_bytes"]

/-! ## The places that update the metrics -/

inductive Operation where
  | accepted
  | relayEnded
  | relayConnected
  | relayDisconnected
  | downstreamFrame (length : Nat)
  | upstreamFrame (length : Nat)
  | acquireHit (secs : ℚ)
  | acquireMiss (secs : ℚ)
  | acquireCreated
  | acquireFailed
  | acquireWaits
  | acquireWaited
  | acquireWoken (secs : ℚ)
  | handshake (secs : ℚ)
  | warmed
  | evicted (removed : Nat)
  | inserted
  | requestRegistered
  | taken
  | connFailed (removed : Nat)
  | requestCancelled
  | writeLoopEnded (removed : Nat)
  | responseTaken (secs : ℚ)

namespace Operation

def apply (m : AllMetrics) : Operation → AllMetrics
  | accepted => m.incDownstreamConnections
  | relayEnded => m.decDownstreamConnections
  | relayConnected => m.incUpstreamConnections
  | relayDisconnected => m.decUpstreamConnections
  | downstreamFrame length => m.incFramesDownstream.addBytesDownstream length
  | upstreamFrame length => m.incFramesUpstream.addBytesUpstream length
  | acquireHit secs => m.incPoolHits.observeAcquire secs
  | acquireMiss secs => m.incPoolMisses.observeAcquire secs
  | acquireCreated => m.incUpstreamConnections
  | acquireFailed => m.incAuthFailures
  | acquireWaits => m.incPoolWaiters
  | acquireWaited => m.decPoolWaiters
  | acquireWoken secs => m.observeAcquire secs
  | handshake secs => m.observeHandshake secs
  | warmed => m.incUpstreamConnections
  | evicted removed => (fun m => m.incPoolEvictions.decUpstreamConnections)^[removed] m
  | inserted => m.incCidMapEntries
  | requestRegistered => m.incRequestsInFlight
  | taken => m.decCidMapEntries
  | connFailed removed => m.subCidMapEntries removed
  | requestCancelled => m.decRequestsInFlight
  | writeLoopEnded removed =>
      (AllMetrics.decRequestsInFlight^[removed] m).decUpstreamConnections.incPoolEvictions
  | responseTaken secs => m.decRequestsInFlight.observeRequest secs

def observes : Operation → Bool
  | acquireHit _ | acquireMiss _ | acquireWoken _ | handshake _ | responseTaken _ => true
  | accepted | relayEnded | relayConnected | relayDisconnected | downstreamFrame _ | upstreamFrame _
  | acquireCreated | acquireFailed | acquireWaits | acquireWaited | warmed | evicted _ | inserted
  | requestRegistered | taken | connFailed _ | requestCancelled | writeLoopEnded _ => false

end Operation

namespace AllMetrics

def perform (m : AllMetrics) (operations : List Operation) : AllMetrics :=
  operations.foldl Operation.apply m

/-! ## With the metrics switched off -/

def Untouched (m : AllMetrics) : Prop :=
  ∃ down up : Int, m = { new false with downstreamConnections := down, upstreamConnections := up }

def observed (m : AllMetrics) : Nat := m.acquireHist.count + m.requestHist.count + m.handshakeHist.count

theorem Untouched.iterate {m : AllMetrics} {update : AllMetrics → AllMetrics}
    (keep : ∀ {m : AllMetrics}, m.Untouched → (update m).Untouched) (untouched : m.Untouched) (count : Nat) :
    (update^[count] m).Untouched := by
  induction count generalizing m with
  | zero => exact untouched
  | succ count ih => exact ih (keep untouched)

theorem Untouched.apply {m : AllMetrics} (untouched : m.Untouched) {operation : Operation}
    (quiet : operation.observes = false) : (operation.apply m).Untouched := by
  cases operation with
  | evicted removed =>
      refine untouched.iterate ?_ removed
      rintro _ ⟨down, up, rfl⟩
      exact ⟨down, up - 1, rfl⟩
  | writeLoopEnded removed =>
      have counted : (decRequestsInFlight^[removed] m).Untouched := by
        refine untouched.iterate ?_ removed
        rintro _ ⟨down, up, rfl⟩
        exact ⟨down, up, rfl⟩
      obtain ⟨down, up, same⟩ := counted
      refine ⟨down, up - 1, ?_⟩
      rw [Operation.apply, same]
      rfl
  | acquireHit | acquireMiss | acquireWoken | handshake | responseTaken => cases quiet
  | _ =>
      obtain ⟨down, up, rfl⟩ := untouched
      exact ⟨_, _, rfl⟩

theorem observed_whenOn {m : AllMetrics} {update : AllMetrics → AllMetrics}
    (same : ∀ m, (update m).observed = m.observed) : (m.whenOn update).observed = m.observed := by
  unfold whenOn
  split
  · exact same m
  · rfl

@[simp] theorem observed_incFramesDownstream (m : AllMetrics) : m.incFramesDownstream.observed = m.observed :=
  observed_whenOn fun _ => rfl

@[simp] theorem observed_incFramesUpstream (m : AllMetrics) : m.incFramesUpstream.observed = m.observed :=
  observed_whenOn fun _ => rfl

@[simp] theorem observed_incAuthFailures (m : AllMetrics) : m.incAuthFailures.observed = m.observed :=
  observed_whenOn fun _ => rfl

@[simp] theorem observed_incPoolHits (m : AllMetrics) : m.incPoolHits.observed = m.observed :=
  observed_whenOn fun _ => rfl

@[simp] theorem observed_incPoolMisses (m : AllMetrics) : m.incPoolMisses.observed = m.observed :=
  observed_whenOn fun _ => rfl

@[simp] theorem observed_incPoolEvictions (m : AllMetrics) : m.incPoolEvictions.observed = m.observed :=
  observed_whenOn fun _ => rfl

@[simp] theorem observed_incPoolWaiters (m : AllMetrics) : m.incPoolWaiters.observed = m.observed :=
  observed_whenOn fun _ => rfl

@[simp] theorem observed_decPoolWaiters (m : AllMetrics) : m.decPoolWaiters.observed = m.observed :=
  observed_whenOn fun _ => rfl

@[simp] theorem observed_addBytesDownstream (m : AllMetrics) (n : Nat) :
    (m.addBytesDownstream n).observed = m.observed :=
  observed_whenOn fun _ => rfl

@[simp] theorem observed_addBytesUpstream (m : AllMetrics) (n : Nat) :
    (m.addBytesUpstream n).observed = m.observed :=
  observed_whenOn fun _ => rfl

theorem observed_observeAcquire (m : AllMetrics) (secs : ℚ) :
    (m.observeAcquire secs).observed = m.observed + 1 := by
  simp only [observed, observeAcquire, Histogram.observe]
  omega

theorem observed_observeRequest (m : AllMetrics) (secs : ℚ) :
    (m.observeRequest secs).observed = m.observed + 1 := by
  simp only [observed, observeRequest, Histogram.observe]
  omega

theorem observed_iterate (update : AllMetrics → AllMetrics)
    (same : ∀ m, (update m).observed = m.observed) (count : Nat) (m : AllMetrics) :
    (update^[count] m).observed = m.observed := by
  induction count generalizing m with
  | zero => rfl
  | succ count ih => exact (ih (update m)).trans (same m)

theorem observed_apply (m : AllMetrics) (operation : Operation) :
    (operation.apply m).observed = m.observed + operation.observes.toNat := by
  cases operation with
  | downstreamFrame length | upstreamFrame length => simp [Operation.apply, Operation.observes]
  | acquireFailed | acquireWaits | acquireWaited => simp [Operation.apply, Operation.observes]
  | evicted removed =>
      exact observed_iterate (fun m => m.incPoolEvictions.decUpstreamConnections)
        observed_incPoolEvictions removed m
  | writeLoopEnded removed =>
      have counted := observed_iterate decRequestsInFlight (fun _ => rfl) removed m
      exact (observed_incPoolEvictions _).trans counted
  | acquireHit secs | acquireMiss secs =>
      simp [Operation.apply, Operation.observes, observed_observeAcquire]
  | acquireWoken secs => exact observed_observeAcquire m secs
  | responseTaken secs => exact observed_observeRequest _ secs
  | _ => rfl

theorem observed_perform (m : AllMetrics) (operations : List Operation) :
    (m.perform operations).observed = m.observed + operations.countP Operation.observes := by
  induction operations generalizing m with
  | nil => rfl
  | cons operation rest ih =>
      calc (perform m (operation :: rest)).observed
          = (operation.apply m).observed + rest.countP Operation.observes := ih _
        _ = m.observed + operation.observes.toNat + rest.countP Operation.observes := by
            rw [observed_apply]
        _ = m.observed + (operation :: rest).countP Operation.observes := by
            rw [List.countP_cons, Nat.add_assoc, Nat.add_comm (Bool.toNat _)]
            cases operation.observes <;> rfl

theorem Untouched.perform {m : AllMetrics} (untouched : m.Untouched) {operations : List Operation}
    (quiet : ∀ operation ∈ operations, operation.observes = false) : (m.perform operations).Untouched := by
  induction operations generalizing m with
  | nil => exact untouched
  | cons operation rest ih =>
      apply ih (untouched.apply (quiet operation List.mem_cons_self))
      exact fun other member => quiet other (List.mem_cons_of_mem _ member)

theorem Untouched.performance {m : AllMetrics} (untouched : m.Untouched) (rss other : Nat) :
    (m.renderPrometheus rss).filter Sample.isPerformance =
      ((new false).renderPrometheus other).filter Sample.isPerformance := by
  obtain ⟨down, up, rfl⟩ := untouched
  simp [renderPrometheus, Sample.isPerformance, new, Metrics.new]

theorem performance_new (rss : Nat) : ∀ sample ∈ (new false).renderPrometheus rss,
    sample.isPerformance = true → sample.value = 0 := by
  intro sample member performance
  simp only [renderPrometheus, List.mem_append] at member
  rcases member with (((counter | acquire) | request) | handshake) | last
  · simp only [new, Metrics.new, List.mem_cons, List.not_mem_nil, or_false] at counter
    rcases counter with rfl | rfl | rfl | rfl | rfl | rfl | rfl | rfl | rfl | rfl | rfl | rfl | rfl <;> simp
  · exact Histogram.render_new _ sample acquire
  · exact Histogram.render_new _ sample request
  · exact Histogram.render_new _ sample handshake
  · simp only [List.mem_cons, List.not_mem_nil, or_false] at last
    rcases last with rfl | rfl
    · simp [Sample.isPerformance] at performance
    · simp [new, Metrics.new]

theorem observed_eq_zero {m : AllMetrics} {rss : Nat}
    (zero : ∀ sample ∈ m.renderPrometheus rss, sample.isPerformance = true → sample.value = 0) :
    m.observed = 0 := by
  have none (h : Histogram) (name : String) (rendered : ∀ sample ∈ h.render name, sample ∈ m.renderPrometheus rss)
      (performance : Sample.isPerformance ⟨name ++ "_count", .none, h.count⟩ = true) : h.count = 0 := by
    have empty := zero _ (rendered _ (h.count_mem_render name)) performance
    exact Nat.cast_eq_zero.mp empty
  have acquire := none m.acquireHist "kafka_proxy_acquire_duration_seconds"
    (fun sample member => by simp [renderPrometheus, member]) rfl
  have request := none m.requestHist "kafka_proxy_request_duration_seconds"
    (fun sample member => by simp [renderPrometheus, member]) rfl
  have handshake := none m.handshakeHist "kafka_proxy_handshake_duration_seconds"
    (fun sample member => by simp [renderPrometheus, member]) rfl
  rw [observed, acquire, request, handshake]

/-- With the metrics switched off every performance series stays as it is in a fresh set, and that is 0,
exactly if no operation observes a histogram. -/
theorem performance_zero_iff (operations : List Operation) (rss : Nat) :
    ((∀ sample ∈ ((new false).perform operations).renderPrometheus rss,
        sample.isPerformance = true → sample.value = 0) ∧
      ∀ other, (((new false).perform operations).renderPrometheus rss).filter Sample.isPerformance =
        ((new false).renderPrometheus other).filter Sample.isPerformance) ↔
      ∀ operation ∈ operations, operation.observes = false := by
  constructor
  · rintro ⟨zero, _⟩
    have none := observed_eq_zero zero
    rw [observed_perform] at none
    have passed : operations.countP Operation.observes = 0 := (Nat.add_eq_zero_iff.mp none).2
    intro operation member
    simpa using List.countP_eq_zero.mp passed operation member
  · intro quiet
    have untouched : ((new false).perform operations).Untouched := Untouched.perform ⟨0, 0, rfl⟩ quiet
    refine ⟨fun sample member performance => ?_, untouched.performance rss⟩
    have fresh : sample ∈ ((new false).renderPrometheus rss).filter Sample.isPerformance := by
      rw [← untouched.performance rss rss]
      exact List.mem_filter.mpr ⟨member, performance⟩
    exact performance_new rss sample (List.mem_of_mem_filter fresh) performance

theorem performance_shows : ¬ ∀ (operations : List Operation) (rss : Nat),
    (∀ sample ∈ ((new false).perform operations).renderPrometheus rss,
      sample.isPerformance = true → sample.value = 0) ∧
    ∀ other, (((new false).perform operations).renderPrometheus rss).filter Sample.isPerformance =
      ((new false).renderPrometheus other).filter Sample.isPerformance := by
  intro claim
  have none := observed_eq_zero (claim [.acquireMiss (1 / 1000)] 0).1
  exact absurd none (by decide)

end AllMetrics
end KafkaProxy
