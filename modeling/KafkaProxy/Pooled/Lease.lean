import KafkaProxy.Pooled.Moves

/-!
# The lease of a relay

The deadline of a lease is looked at when a frame has come, and at no other time.
-/

namespace KafkaProxy.Pooled
open Library

def DownToUp.keepsLease : DownToUp → Bool
  | .absent | .waiting _ | .checking _ | .register _ | .alloc _ | .store .. | .count .. | .send .. => true
  | .borrow _ | .acquiring _ | .cancel _ | .leaving | .returned => false

def DownToUp.isWaiting : DownToUp → Bool
  | .waiting _ => true
  | _ => false

def DownToUp.isUnleased : DownToUp → Bool
  | .absent | .borrow _ | .acquiring _ | .returned => true
  | .waiting _ | .checking _ | .register _ | .alloc _ | .store .. | .count .. | .send .. | .cancel _
  | .leaving => false

structure PooledRelay.Leased (r : PooledRelay) : Prop where
  never : r.lastAcquired = none → r.lease = none
  since : ∀ t, r.lastAcquired = some t → r.lease.isSome = true ∧ r.leaseDeadline = t + leaseDuration

namespace Multiplex

variable {idle : Option Nat} {codecs : Codecs} {map : RewriteMap} {m n : Multiplex}

theorem RelayMove.leased {i : Nat} {action : RelayAction} (move : RelayMove idle m i (m.relays i) action n)
    (leased : (m.relays i).downToUp.keepsLease = true → (m.relays i).Leased) :
    (n.relays i).downToUp.keepsLease = true → (n.relays i).Leased := by
  cases move with
  | acquired phase known same =>
      intro _
      simp only [setRelay_relays, Function.update_self]
      refine ⟨by simp, ?_⟩
      rintro t ⟨rfl⟩
      exact ⟨rfl, rfl⟩
  | request data => simpa using fun keeps => ⟨(leased keeps).never, (leased keeps).since⟩
  | deliver listens queue => simpa using fun keeps => ⟨(leased keeps).never, (leased keeps).since⟩
  | deliverFailed listens | respClosed listens empty done last =>
      simpa using fun keeps => ⟨(leased keeps).never, (leased keeps).since⟩
  | connect phase | next phase | skip phase | keep phase | check phase | alloc phase | store phase
  | count phase | push phase =>
      have before := leased (by simp [phase, DownToUp.keepsLease])
      simpa [DownToUp.keepsLease] using ⟨before.never, before.since⟩
  | giveBack phase expired | borrow phase | acquireFailed phase | refuse phase full | pushFailed phase
  | cancel phase | hangUp phase all | idle phase limited all late | leave phase =>
      simp [DownToUp.keepsLease]

variable {maxInFlight : Nat} {metrics : Metrics}

theorem leased (reachable : (system maxInFlight metrics idle codecs map).Reachable m) (i : Nat) :
    (m.relays i).downToUp.keepsLease = true → (m.relays i).Leased := by
  induction reachable with
  | initial first =>
      rw [first]
      exact fun _ => ⟨fun _ => rfl, by simp [new, PooledRelay.new]⟩
  | @next before after action _ _ taken ih =>
      obtain ⟨_, respRx, same⟩ | ⟨own, rfl, move⟩ := (Change.of_step taken).at_relay i
      · rw [same]
        exact fun keeps => ⟨(ih keeps).never, (ih keeps).since⟩
      · exact move.leased ih

theorem RelayMove.unleased {i : Nat} {action : RelayAction} (move : RelayMove idle m i (m.relays i) action n)
    (unleased : (m.relays i).downToUp.isUnleased = true → (m.relays i).lease = none) :
    (n.relays i).downToUp.isUnleased = true → (n.relays i).lease = none := by
  cases move with
  | request data | deliver listens queue | deliverFailed listens | respClosed listens empty done last =>
      simpa using unleased
  | borrow phase | acquireFailed phase =>
      have before := unleased (by rw [phase]; rfl)
      simpa using fun _ => before
  | giveBack phase expired | cancel phase | leave phase => simp
  | connect phase | next phase | skip phase | keep phase | acquired phase | check phase | refuse phase
  | alloc phase | store phase | count phase | push phase | pushFailed phase | hangUp phase | idle phase =>
      simp [DownToUp.isUnleased]

theorem unleased (reachable : (system maxInFlight metrics idle codecs map).Reachable m) (i : Nat) :
    (m.relays i).downToUp.isUnleased = true → (m.relays i).lease = none := by
  induction reachable with
  | initial first =>
      rw [first]
      exact fun _ => rfl
  | next _ _ taken ih =>
      obtain ⟨_, respRx, same⟩ | ⟨own, rfl, move⟩ := (Change.of_step taken).at_relay i
      · rw [same]
        exact ih
      · exact move.unleased ih

/-- The relay waits for its client with a lease whose window is over. -/
def Overdue (m : Multiplex) (i : Nat) : Prop :=
  (m.relays i).downToUp.isWaiting = true ∧ (m.relays i).lease.isSome = true ∧
    (m.relays i).leaseDeadline < m.now

/-- A relay that waits has the lease of its last `acquire`, whatever the time. One that has returned has
none. -/
theorem not_overdue_iff (reachable : (system maxInFlight metrics idle codecs map).Reachable m) :
    ((∀ i, ¬ Overdue m i) ↔ ∀ i, (m.relays i).downToUp.isWaiting = true →
      ∀ t, (m.relays i).lastAcquired = some t → m.now ≤ t + leaseDuration) ∧
    ∀ i, (m.relays i).downToUp = .returned → (m.relays i).lease = none := by
  refine ⟨?_, fun i returned => unleased reachable i (by rw [returned]; rfl)⟩
  have kept (i : Nat) (waits : (m.relays i).downToUp.isWaiting = true) : (m.relays i).Leased := by
    apply leased reachable i
    cases phase : (m.relays i).downToUp <;> simp_all [DownToUp.isWaiting, DownToUp.keepsLease]
  constructor
  · intro returned i waits t acquired
    obtain ⟨held, deadline⟩ := (kept i waits).since t acquired
    by_contra late
    exact returned i ⟨waits, held, by omega⟩
  · rintro inTime i ⟨waits, held, late⟩
    cases acquired : (m.relays i).lastAcquired with
    | none => simp [(kept i waits).never acquired] at held
    | some t =>
        have bound := inTime i waits t acquired
        have deadline := ((kept i waits).since t acquired).2
        omega

theorem overdue_reachable : ∃ m, (system 2 (.new true) none .unknown ⟨∅⟩).Reachable m ∧
    Overdue m 0 := by
  obtain ⟨m, reachable, waits, held, late⟩ := (system 2 (.new true) none .unknown ⟨∅⟩).exists_reach
    (fun _ _ => True) (.new 2 (.new true))
    ([.create] ++ asksOnce 0 ++ [.tick 201])
    (fun m => (m.relays 0).downToUp.isWaiting = true ∧ (m.relays 0).lease.isSome = true ∧
      (m.relays 0).leaseDeadline < m.now) rfl (by decide)
  exact ⟨m, reachable, waits, held, late⟩

theorem not_overdue_iff_open : ∃ m : Multiplex, (m.relays 0).lease.isSome = true ∧ m.now = 150 ∧
    (m.relays 1).downToUp = .returned ∧
    (((∀ i, ¬ Overdue m i) ↔ ∀ i, (m.relays i).downToUp.isWaiting = true →
      ∀ t, (m.relays i).lastAcquired = some t → m.now ≤ t + leaseDuration) ∧
    ∀ i, (m.relays i).downToUp = .returned → (m.relays i).lease = none) := by
  obtain ⟨m, reachable, held, now, left⟩ := (system 2 (.new true) none .unknown ⟨∅⟩).exists_reach
    (fun _ _ => True) (.new 2 (.new true))
    ([.create] ++ asksOnce 1 ++ [.relay 1 .hangUp, .relay 1 .leave] ++ asksOnce 0 ++ [.tick 150])
    (fun m => (m.relays 0).lease.isSome = true ∧ m.now = 150 ∧ (m.relays 1).downToUp = .returned) rfl
    (by decide +kernel)
  exact ⟨m, held, now, left, not_overdue_iff reachable⟩

theorem silent_client_keeps_lease : ¬ ∀ m, (system 2 (.new true) none .unknown ⟨∅⟩).Reachable m →
    ∀ i, ¬ Overdue m i := by
  intro claim
  obtain ⟨m, reachable, overdue⟩ := overdue_reachable
  exact claim m reachable 0 overdue

end Multiplex
end KafkaProxy.Pooled
