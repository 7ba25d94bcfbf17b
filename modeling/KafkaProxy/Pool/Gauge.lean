import KafkaProxy.Library.Watch
import KafkaProxy.Pool.Cap

/-!
# The gauge of upstream connections

The pool counts a connection when it has it, and its write loop counts it out when it returns. The
reaper counts out what it evicts as well, and so those connections go twice.
-/

namespace KafkaProxy
open Library

def Task.uncounted : Task → Nat
  | .created _ => 1
  | .free | .tryIdle | .tryCreate | .creating | .rollback | .full | .waiting _ | .woken | .leased _
  | .releasing .. | .released => 0

namespace BrokerPool

def uncounted (p : BrokerPool) : Nat :=
  total Task.uncounted p.tasks + p.warmup.ready.toList.length

def AllCounted (p : BrokerPool) : Prop :=
  (∀ task ∈ p.tasks, task.uncounted = 0) ∧ p.warmup.ready = none

instance (p : BrokerPool) : Decidable p.AllCounted := inferInstanceAs (Decidable (_ ∧ _))

def evicts (p : BrokerPool) : PoolAction → Nat
  | .reap => p.idle.length - (p.idle.filter p.keeps).length
  | _ => 0

def evicting (config : PoolLimits) (metrics : Metrics) : System (BrokerPool × Nat) PoolAction :=
  (system config metrics).watch 0 fun p action evicted => evicted + p.evicts action

def KeepsIdle (p : BrokerPool) (action : PoolAction) : Prop :=
  action = .reap → ∀ conn ∈ p.idle, p.keeps conn = true

instance (p : BrokerPool) (action : PoolAction) : Decidable (KeepsIdle p action) :=
  inferInstanceAs (Decidable (_ → _))

variable {p q : BrokerPool} {action : PoolAction} {i : Nat} {task next : Task}

/-- A connection that is evicted is counted out at once, and once more when its write loop returns. -/
def Gauged (p : BrokerPool) (evicted : Nat) : Prop :=
  p.metrics.upstreamConnections + evicted + p.uncounted = p.running.length

theorem Move.uncounted {taskAction : TaskAction} (waits : Waits p.notify.waiters p.tasks)
    (current : p.tasks[i]? = some task) (move : Move p i task taskAction q next) :
    (q.put i next).uncounted + task.uncounted = p.uncounted + next.uncounted := by
  have tasks := move.total_tasks Task.uncounted waits current fun _ => rfl
  have warmup : (q.put i next).warmup = p.warmup := move.warmup
  simp only [BrokerPool.uncounted, warmup]
  omega

theorem Move.gauged {taskAction : TaskAction} {evicted : Nat} (gauged : p.Gauged evicted)
    (waits : Waits p.notify.waiters p.tasks) (current : p.tasks[i]? = some task)
    (move : Move p i task taskAction q next) : (q.put i next).Gauged evicted := by
  have changed := move.uncounted waits current
  unfold Gauged at gauged ⊢
  cases move with
  | connect fresh =>
      simp only [Task.uncounted] at changed
      simp only [put, spawn, List.length_cons] at changed ⊢
      omega
  | hand =>
      simp only [Task.uncounted] at changed
      simp only [put, Metrics.incUpstreamConnections] at changed ⊢
      omega
  | notify =>
      simp only [Task.uncounted, Nat.add_zero] at changed
      rw [changed]
      simpa [put] using gauged
  | _ =>
      simp only [Task.uncounted, Nat.add_zero] at changed
      rw [changed]
      exact gauged

theorem decUpstreamConnections_iterate (metrics : Metrics) (count : Nat) :
    (Metrics.decUpstreamConnections^[count] metrics).upstreamConnections =
      metrics.upstreamConnections - count := by
  induction count generalizing metrics with
  | zero => simp
  | succ count ih =>
      rw [Function.iterate_succ_apply, ih]
      simp only [Metrics.decUpstreamConnections]
      omega

theorem Change.gauged {evicted : Nat} (gauged : p.Gauged evicted)
    (waits : Waits p.notify.waiters p.tasks) (change : Change p action q) :
    q.Gauged (evicted + p.evicts action) := by
  cases change with
  | task current move => exact move.gauged gauged waits current
  | warm left fresh =>
      simp only [Gauged, BrokerPool.uncounted, left, Option.toList_none, List.length_nil] at gauged
      simp only [Gauged, BrokerPool.uncounted, spawn, evicts, Option.toList_some, List.length_cons,
        List.length_nil]
      omega
  | warmFail left =>
      simp only [Gauged, BrokerPool.uncounted, left, Option.toList_none, List.length_nil] at gauged
      exact gauged
  | warmPush ready =>
      simp only [Gauged, BrokerPool.uncounted, ready, Option.toList_some, List.length_singleton] at gauged
      simp only [Gauged, BrokerPool.uncounted, evicts, Metrics.incUpstreamConnections, Option.toList_none,
        List.length_nil]
      omega
  | accept warm =>
      simpa [Gauged, BrokerPool.uncounted, evicts, total_append, Task.uncounted] using gauged
  | reap warm resting due =>
      simp only [Gauged, BrokerPool.uncounted, evicts, decUpstreamConnections_iterate] at gauged ⊢
      omega
  | reapNotify subtracted =>
      have same := waits.total_notifyOne Task.uncounted fun _ => rfl
      simpa [Gauged, BrokerPool.uncounted, evicts, same] using gauged
  | ended runs =>
      have fewer := List.length_erase_of_mem runs
      have positive := List.length_pos_of_mem runs
      simp only [Gauged, BrokerPool.uncounted, evicts, Metrics.decUpstreamConnections] at gauged ⊢
      omega
  | tick elapsed => exact gauged
  | subtract evicted => exact gauged

variable {config : PoolLimits} {enabled : Bool} {s : BrokerPool × Nat}

theorem gauged_of_reach (reachable : (evicting config (.new enabled)).Reachable s) :
    s.1.Gauged s.2 := by
  induction reachable with
  | initial first =>
      obtain ⟨started, zero⟩ := first
      rw [started, zero]
      rfl
  | @next before after action reached _ taken ih =>
      obtain ⟨stepped, noted⟩ := System.watch_step.mp taken
      have base : (system config (.new enabled)).Reachable before.1 := System.Reach.unwatched reached
      rw [noted]
      exact (Change.of_step stepped).gauged ih (waits_of_reach base)

theorem AllCounted.uncounted (counted : p.AllCounted) : p.uncounted = 0 := by
  rw [BrokerPool.uncounted, total_eq_zero counted.1, counted.2]
  rfl

/-- The gauge is right exactly if the reaper has not evicted anything yet. From then on it is too low by
what has been evicted. -/
theorem upstreamConnections_eq_iff (reachable : (evicting config (.new enabled)).Reachable s)
    (counted : s.1.AllCounted) : s.1.metrics.upstreamConnections = s.1.running.length ↔ s.2 = 0 := by
  have gauged := gauged_of_reach reachable
  rw [Gauged, counted.uncounted] at gauged
  omega

theorem KeepsIdle.evicts (keeps : KeepsIdle p action) : p.evicts action = 0 := by
  cases action with
  | reap =>
      have all : p.idle.filter p.keeps = p.idle := List.filter_eq_self.mpr (keeps rfl)
      rw [BrokerPool.evicts, all, Nat.sub_self]
  | _ => rfl

theorem evicting_of_keepsIdle (reach : (system config (.new enabled)).Reach KeepsIdle p) :
    (evicting config (.new enabled)).Reachable (p, 0) := by
  induction reach with
  | initial first => exact .initial ⟨first, rfl⟩
  | next _ keeps taken ih =>
      refine ih.next (System.watch_step.mpr ⟨taken, ?_⟩)
      rw [keeps.evicts]

theorem Change.ends_once (nodup : p.running.Nodup) (keeps : KeepsIdle p action)
    (change : Change p action q) :
    (∃ k, action = .ended k ∧ k ∈ p.running ∧ k ∉ q.running ∧
      q.metrics.upstreamConnections = p.metrics.upstreamConnections - 1) ∨
    p.running ⊆ q.running ∧ p.metrics.upstreamConnections ≤ q.metrics.upstreamConnections := by
  cases change with
  | ended runs => exact .inl ⟨_, rfl, runs, nodup.not_mem_erase, rfl⟩
  | reap warm resting due =>
      have none : p.evicts .reap = 0 := keeps.evicts
      refine .inr ⟨List.Subset.refl _, ?_⟩
      simp only [BrokerPool.evicts] at none
      simp [none]
  | warm left fresh => exact .inr ⟨List.subset_cons_self _ _, le_rfl⟩
  | warmPush ready =>
      exact .inr ⟨List.Subset.refl _, by simp [Metrics.incUpstreamConnections]⟩
  | reapNotify subtracted => exact .inr ⟨by simp, by simp⟩
  | task current move =>
      cases move with
      | connect fresh => exact .inr ⟨List.subset_cons_self _ _, le_rfl⟩
      | hand => exact .inr ⟨List.Subset.refl _, by simp [put, Metrics.incUpstreamConnections]⟩
      | notify => exact .inr ⟨by simp [put], by simp [put]⟩
      | _ => exact .inr ⟨List.Subset.refl _, le_rfl⟩
  | _ => exact .inr ⟨List.Subset.refl _, le_rfl⟩

theorem upstreamConnections_counts_running (reach : (system config (.new enabled)).Reach KeepsIdle p) :
    (p.AllCounted → p.metrics.upstreamConnections = p.running.length) ∧
      ∀ action q, KeepsIdle p action → (system config (.new enabled)).step p action = some q →
        (∃ k, action = .ended k ∧ k ∈ p.running ∧ k ∉ q.running ∧
          q.metrics.upstreamConnections = p.metrics.upstreamConnections - 1) ∨
        p.running ⊆ q.running ∧ p.metrics.upstreamConnections ≤ q.metrics.upstreamConnections := by
  refine ⟨fun counted => ?_, fun action q keeps taken => ?_⟩
  · exact (upstreamConnections_eq_iff (evicting_of_keepsIdle reach) counted).mpr rfl
  · exact (Change.of_step taken).ends_once (running_nodup reach.reachable).1 keeps

theorem upstreamConnections_counts_two : ∃ p : BrokerPool, p.metrics.upstreamConnections = 1 ∧
    p.running.length = 1 ∧ p.created.length = 2 ∧
    (p.AllCounted → p.metrics.upstreamConnections = p.running.length) ∧
    ∀ action q, KeepsIdle p action → (system oneWarmConnection (.new false)).step p action = some q →
      (∃ k, action = .ended k ∧ k ∈ p.running ∧ k ∉ q.running ∧
        q.metrics.upstreamConnections = p.metrics.upstreamConnections - 1) ∨
      p.running ⊆ q.running ∧ p.metrics.upstreamConnections ≤ q.metrics.upstreamConnections := by
  obtain ⟨p, reach, gauge, running, created⟩ := (system oneWarmConnection (.new false)).exists_reach
    KeepsIdle (.new oneWarmConnection (.new false))
    [.warm ⟨0, 1⟩, .warmPush, .reap, .accept, .task 0 .acquire, .task 0 .tryIdle, .accept,
      .task 1 .acquire, .task 1 .tryIdle, .task 1 .tryCreate, .task 1 (.connect ⟨1, 2⟩),
      .task 1 .hand, .ended 0]
    (fun p => p.metrics.upstreamConnections = 1 ∧ p.running.length = 1 ∧ p.created.length = 2) rfl
    (by decide)
  exact ⟨p, gauge, running, created, upstreamConnections_counts_running reach⟩

/-- The reaper evicts a connection that has been idle for too long. Its write loop returns, and the
gauge of no connections is below zero. -/
theorem eviction_counted_twice : ¬ ∀ p, (system oneWarmConnection (.new true)).Reachable p →
    p.AllCounted → p.metrics.upstreamConnections = p.running.length := by
  intro claim
  obtain ⟨p, reachable, counted, gauge, running⟩ :=
    (system oneWarmConnection (.new true)).exists_reach (fun _ _ => True)
    (.new oneWarmConnection (.new true))
    [.warm ⟨0, 1⟩, .warmPush, .tick 300000, .reap, .subtract, .reapNotify, .ended 0]
    (fun p => p.AllCounted ∧ p.metrics.upstreamConnections = -1 ∧ p.running = []) rfl (by decide)
  have same := claim p reachable counted
  rw [gauge, running] at same
  exact absurd same (by decide)

end BrokerPool
end KafkaProxy
