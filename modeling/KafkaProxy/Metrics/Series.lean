import Mathlib.Algebra.BigOperators.Group.List.Basic
import KafkaProxy.Metrics.Prometheus

/-!
# The series and what adds to them

With the metrics switched on, a series is the sum of what the operations add to it, in any order.
-/

namespace KafkaProxy

inductive Series where
  | framesDownstream
  | framesUpstream
  | bytesDownstream
  | bytesUpstream
  | requestsInFlight
  | downstreamConnections
  | upstreamConnections
  | poolHits
  | poolMisses
  | poolEvictions
  | poolWaiters
  | authFailures
  | acquires
  | requests
  | handshakes
  | cidMapEntries
  deriving DecidableEq, Repr

namespace AllMetrics

def reads (m : AllMetrics) : Series → Int
  | .framesDownstream => m.framesDownstream
  | .framesUpstream => m.framesUpstream
  | .bytesDownstream => m.bytesDownstream
  | .bytesUpstream => m.bytesUpstream
  | .requestsInFlight => m.requestsInFlight
  | .downstreamConnections => m.downstreamConnections
  | .upstreamConnections => m.upstreamConnections
  | .poolHits => m.poolHits
  | .poolMisses => m.poolMisses
  | .poolEvictions => m.poolEvictions
  | .poolWaiters => m.poolWaiters
  | .authFailures => m.authFailures
  | .acquires => m.acquireHist.count
  | .requests => m.requestHist.count
  | .handshakes => m.handshakeHist.count
  | .cidMapEntries => m.cidMapEntries

end AllMetrics

namespace Operation

def adds : Operation → Series → Int
  | accepted, .downstreamConnections => 1
  | relayEnded, .downstreamConnections => -1
  | relayConnected, .upstreamConnections => 1
  | relayDisconnected, .upstreamConnections => -1
  | downstreamFrame _, .framesDownstream => 1
  | downstreamFrame length, .bytesDownstream => length
  | upstreamFrame _, .framesUpstream => 1
  | upstreamFrame length, .bytesUpstream => length
  | acquireHit _, .poolHits => 1
  | acquireHit _, .acquires => 1
  | acquireMiss _, .poolMisses => 1
  | acquireMiss _, .acquires => 1
  | acquireCreated, .upstreamConnections => 1
  | acquireFailed, .authFailures => 1
  | acquireWaits, .poolWaiters => 1
  | acquireWaited, .poolWaiters => -1
  | acquireWoken _, .acquires => 1
  | handshake _, .handshakes => 1
  | warmed, .upstreamConnections => 1
  | evicted removed, .poolEvictions => removed
  | evicted removed, .upstreamConnections => -removed
  | inserted, .cidMapEntries => 1
  | requestRegistered, .requestsInFlight => 1
  | taken, .cidMapEntries => -1
  | connFailed removed, .cidMapEntries => -removed
  | requestCancelled, .requestsInFlight => -1
  | writeLoopEnded removed, .requestsInFlight => -removed
  | writeLoopEnded _, .upstreamConnections => -1
  | writeLoopEnded _, .poolEvictions => 1
  | responseTaken _, .requestsInFlight => -1
  | responseTaken _, .requests => 1
  | _, _ => 0

end Operation

namespace AllMetrics

variable {m : AllMetrics} {series : Series}

structure Adds (update : AllMetrics → AllMetrics) (amount : Series → Int) : Prop where
  enabled : ∀ m, (update m).enabled = m.enabled
  reads : ∀ m, m.enabled = true → ∀ series, (update m).reads series = m.reads series + amount series

namespace Adds

variable {update : AllMetrics → AllMetrics} {amount : Series → Int}

theorem iterate (adds : Adds update amount) (count : Nat) :
    Adds update^[count] fun series => count * amount series := by
  induction count with
  | zero => exact ⟨fun _ => rfl, fun _ _ _ => by simp⟩
  | succ count ih =>
      refine ⟨fun m => ?_, fun m enabled series => ?_⟩
      · rw [Function.iterate_succ_apply, ih.enabled, adds.enabled]
      · rw [Function.iterate_succ_apply, ih.reads _ (by rw [adds.enabled, enabled]),
          adds.reads m enabled]
        grind

theorem comp {next : AllMetrics → AllMetrics} {more : Series → Int} (adds : Adds update amount)
    (then_ : Adds next more) : Adds (fun m => next (update m)) fun series => amount series + more series := by
  refine ⟨fun m => ?_, fun m enabled series => ?_⟩
  · rw [then_.enabled, adds.enabled]
  · rw [then_.reads _ (by rw [adds.enabled, enabled]), adds.reads m enabled, Int.add_assoc]

end Adds

theorem Adds.congr {update : AllMetrics → AllMetrics} {amount other : Series → Int}
    (adds : Adds update amount) (same : ∀ series, amount series = other series) : Adds update other :=
  funext same ▸ adds

section Updates

attribute [local simp] incFramesDownstream addBytesDownstream incFramesUpstream addBytesUpstream
  incRequestsInFlight decRequestsInFlight incDownstreamConnections decDownstreamConnections
  incUpstreamConnections decUpstreamConnections incAuthFailures incPoolHits incPoolMisses
  incPoolEvictions incPoolWaiters decPoolWaiters incCidMapEntries decCidMapEntries subCidMapEntries
  observeAcquire observeRequest observeHandshake Histogram.observe
  Metrics.incRequestsInFlight Metrics.decRequestsInFlight Metrics.incUpstreamConnections
  Metrics.decUpstreamConnections Metrics.incCidMapEntries Metrics.decCidMapEntries
  Metrics.subCidMapEntries

theorem adds_evict :
    Adds (fun m => m.incPoolEvictions.decUpstreamConnections) (Operation.adds (.evicted 1)) := by
  refine ⟨fun m => ?_, fun m on series => ?_⟩
  · cases on : m.enabled <;> simp [whenOn, on]
  · cases series <;> simp [reads, Operation.adds, whenOn, on, Int.sub_eq_add_neg]

theorem adds_decRequestsInFlight : Adds decRequestsInFlight (Operation.adds .requestCancelled) := by
  refine ⟨fun m => ?_, fun m on series => ?_⟩
  · cases on : m.enabled <;> simp [on]
  · cases series <;> simp [reads, Operation.adds, on, Int.sub_eq_add_neg]

theorem adds_endConnection : Adds (fun m => m.decUpstreamConnections.incPoolEvictions)
    (Operation.adds (.writeLoopEnded 0)) := by
  refine ⟨fun m => ?_, fun m on series => ?_⟩
  · cases on : m.enabled <;> simp [whenOn, on]
  · cases series <;> simp [reads, Operation.adds, whenOn, on, Int.sub_eq_add_neg]

theorem adds_apply (operation : Operation) : Adds operation.apply operation.adds := by
  cases operation with
  | evicted removed =>
      apply (adds_evict.iterate removed).congr
      intro series
      cases series <;> simp [Operation.adds]
  | writeLoopEnded removed =>
      apply ((adds_decRequestsInFlight.iterate removed).comp adds_endConnection).congr
      intro series
      cases series <;> simp [Operation.adds]
  | _ =>
      refine ⟨fun m => ?_, fun m on series => ?_⟩
      · cases on : m.enabled <;> simp [Operation.apply, whenOn, on]
      · cases series <;> simp [reads, Operation.adds, Operation.apply, whenOn, on, Int.sub_eq_add_neg]

end Updates

theorem perform_enabled (m : AllMetrics) (operations : List Operation) :
    (m.perform operations).enabled = m.enabled := by
  induction operations generalizing m with
  | nil => rfl
  | cons operation rest ih => exact (ih _).trans ((adds_apply operation).enabled m)

theorem reads_perform {m : AllMetrics} (enabled : m.enabled = true) (operations : List Operation)
    (series : Series) : (m.perform operations).reads series =
      m.reads series + (operations.map (·.adds series)).sum := by
  induction operations generalizing m with
  | nil => simp [perform]
  | cons operation rest ih =>
      have adds := adds_apply operation
      calc (perform m (operation :: rest)).reads series
          = (operation.apply m).reads series + (rest.map (·.adds series)).sum :=
            ih (by rw [adds.enabled, enabled])
        _ = m.reads series + (operation.adds series + (rest.map (·.adds series)).sum) := by
            rw [adds.reads m enabled, Int.add_assoc]
        _ = m.reads series + ((operation :: rest).map (·.adds series)).sum := by
            rw [List.map_cons, List.sum_cons]

end AllMetrics
end KafkaProxy
