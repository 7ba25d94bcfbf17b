import KafkaProxy.Pool.Calls
import KafkaProxy.Pool.Slots

/-!
# Dead connections in the queue

A connection in the queue has the flag `alive`, which nothing lowers. The connection is dead once
its write loop has returned.
-/

namespace KafkaProxy
open Library

namespace BrokerPool

variable {p q : BrokerPool} {action : PoolAction} {calls : Calls}

def queues (p : BrokerPool) : PoolAction → Option Acquired
  | .warmPush => p.warmup.ready
  | .task i .push =>
      match p.tasks[i]? with
      | some (.releasing conn _) =>
          if p.idle.length < p.config.maxPerBroker then some conn else none
      | _ => none
  | _ => none

theorem Change.idle_subset (change : Change p action q) {conn : PooledConn}
    (member : conn ∈ q.idle) : conn ∈ p.idle ∨ conn.toAcquired ∈ p.queues action := by
  cases change with
  | warmPush ready =>
      obtain old | new := List.mem_append.mp member
      · exact .inl old
      · rw [List.mem_singleton.mp new]
        exact .inr (by simp [queues, ready])
  | task current move =>
      cases move with
      | reuse unlocked queue alive => exact .inl (queue ▸ List.mem_cons_of_mem _ member)
      | bury unlocked queue dead => exact .inl (queue ▸ List.mem_cons_of_mem _ member)
      | push unlocked room =>
          obtain old | new := List.mem_append.mp member
          · exact .inl old
          · rw [List.mem_singleton.mp new]
            exact .inr (by simp [queues, current, room])
      | notify =>
          rw [put_idle, notifyOne_idle] at member
          exact .inl member
      | _ => exact .inl member
  | reap warm resting due => exact .inl (List.mem_of_mem_filter member)
  | reapNotify subtracted =>
      rw [notifyOne_idle] at member
      exact .inl member
  | _ => exact .inl member

theorem Change.running_or_new (change : Change p action q) {writeTx : Nat}
    (runs : writeTx ∈ q.running) : writeTx ∈ p.running ∨ writeTx ∉ p.created := by
  cases change with
  | warm left fresh =>
      obtain rfl | old := List.mem_cons.mp runs
      · exact .inr fresh
      · exact .inl old
  | task current move =>
      cases move with
      | connect fresh =>
          obtain rfl | old := List.mem_cons.mp runs
          · exact .inr fresh
          · exact .inl old
      | notify => exact .inl (notifyOne_running ▸ runs)
      | _ => exact .inl runs
  | reapNotify subtracted => exact .inl (notifyOne_running ▸ runs)
  | ended ran => exact .inl (List.mem_of_mem_erase runs)
  | _ => exact .inl runs

theorem Change.created_subset (change : Change p action q) : p.created ⊆ q.created := by
  cases change with
  | warm left fresh => exact List.subset_cons_self _ _
  | task current move =>
      cases move with
      | connect fresh => exact List.subset_cons_self _ _
      | notify =>
          rw [put, notifyOne_created]
          exact List.Subset.refl _
      | _ => exact List.Subset.refl _
  | reapNotify subtracted =>
      rw [notifyOne_created]
      exact List.Subset.refl _
  | _ => exact List.Subset.refl _

/-! ## What a call returns -/

end BrokerPool

def Task.acquired : Task → Option Acquired
  | .created conn | .leased conn => some conn
  | _ => none

namespace BrokerPool

variable {p q : BrokerPool} {action : PoolAction} {calls : Calls}

def acquired (p : BrokerPool) (i : Nat) : Option Acquired := p.tasks[i]?.bind Task.acquired

theorem acquired_notifyOne {i : Nat} {conn : Acquired}
    (returns : p.notifyOne.acquired i = some conn) : p.acquired i = some conn := by
  unfold notifyOne at returns
  split at returns
  · exact returns
  · rename_i first rest queue
    obtain ⟨task, there, own⟩ := Option.bind_eq_some_iff.mp returns
    rw [List.getElem?_set] at there
    split at there
    · split at there <;> cases there
      cases own
    · exact Option.bind_eq_some_iff.mpr ⟨task, there, own⟩

theorem acquired_put {i j : Nat} {task : Task} {conn : Acquired}
    (returns : (p.put i task).acquired j = some conn) :
    i = j ∧ task.acquired = some conn ∨ i ≠ j ∧ p.acquired j = some conn := by
  obtain ⟨other, there, own⟩ := Option.bind_eq_some_iff.mp returns
  rw [put, List.getElem?_set] at there
  split at there
  · rename_i same
    split at there <;> cases there
    exact .inl ⟨same, own⟩
  · rename_i apart
    exact .inr ⟨apart, Option.bind_eq_some_iff.mpr ⟨other, there, own⟩⟩

theorem Move.acquired {i : Nat} {task next : Task} {action : TaskAction} {conn : Acquired}
    (move : Move p i task action q next) (returns : next.acquired = some conn) :
    task.acquired = some conn ∨ (∃ queued ∈ p.idle, queued.toAcquired = conn) ∨
      conn.writeTx ∉ p.created := by
  cases move with
  | reuse unlocked queue alive =>
      exact .inr (.inl ⟨_, queue ▸ List.mem_cons_self, Option.some.inj returns⟩)
  | connect fresh =>
      rw [Option.some.inj returns] at fresh
      exact .inr (.inr fresh)
  | hand => exact .inl returns
  | _ => cases returns

theorem Change.acquired (change : Change p action q) {i : Nat} {conn : Acquired}
    (returns : q.acquired i = some conn) :
    p.acquired i = some conn ∧ action ≠ .task i .acquire ∨
      (∃ queued ∈ p.idle, queued.toAcquired = conn) ∨ conn.writeTx ∉ p.created := by
  cases change with
  | @task j before after taskAction r current move =>
      obtain ⟨rfl, own⟩ | ⟨apart, others⟩ := acquired_put returns
      · obtain same | rest := move.acquired own
        · left
          refine ⟨Option.bind_eq_some_iff.mpr ⟨before, current, same⟩, ?_⟩
          rintro asked
          cases asked
          cases move
          cases same
        · exact .inr rest
      · have kept : p.acquired i = some conn := by
          cases move with
          | notify => exact acquired_notifyOne others
          | _ => exact others
        exact .inl ⟨kept, by simp [apart]⟩
  | accept warm =>
      obtain ⟨task, there, own⟩ := Option.bind_eq_some_iff.mp returns
      rw [List.getElem?_append] at there
      split at there
      · exact .inl ⟨Option.bind_eq_some_iff.mpr ⟨task, there, own⟩, nofun⟩
      · rw [List.mem_singleton.mp (List.mem_of_getElem? there)] at own
        cases own
  | reapNotify subtracted => exact .inl ⟨acquired_notifyOne returns, nofun⟩
  | _ => exact .inl ⟨returns, nofun⟩

/-! ## Connections that stay alive in the queue -/

/-- No connection dies in the queue, and none is put there after its death. -/
def Healthy (s : BrokerPool × Calls) (action : PoolAction) : Prop :=
  (∀ conn ∈ s.1.queues action, conn.writeTx ∈ s.1.running) ∧
    ∀ conn ∈ s.1.idle, action ≠ .ended conn.writeTx

instance (s : BrokerPool × Calls) (action : PoolAction) : Decidable (Healthy s action) :=
  inferInstanceAs (Decidable (_ ∧ _))

structure Alive (s : BrokerPool × Calls) : Prop where
  queued : ∀ conn ∈ s.1.idle, conn.writeTx ∈ s.1.running
  ended : ∀ i, ∀ writeTx ∈ (s.2 i).ended, writeTx ∈ s.1.created ∧ writeTx ∉ s.1.running
  acquired : ∀ i conn, s.1.acquired i = some conn → conn.writeTx ∉ (s.2 i).ended

theorem Change.running_of_queued (change : Change p action q) {writeTx : Nat}
    (runs : writeTx ∈ p.running) (other : action ≠ .ended writeTx) : writeTx ∈ q.running := by
  cases change with
  | warm left fresh => exact List.mem_cons_of_mem _ runs
  | task current move =>
      cases move with
      | connect fresh => exact List.mem_cons_of_mem _ runs
      | notify => exact notifyOne_running.symm ▸ runs
      | _ => exact runs
  | reapNotify subtracted => exact notifyOne_running.symm ▸ runs
  | ended ran =>
      have apart : writeTx ≠ _ := fun same => other (congrArg PoolAction.ended same.symm)
      exact (List.mem_erase_of_ne apart).mpr runs
  | _ => exact runs

theorem Alive.step {s t : BrokerPool × Calls} (alive : Alive s)
    (healthy : Healthy s action) (change : Change s.1 action t.1)
    (noted : t.2 = noteCalls s.1 action s.2) : Alive t := by
  have queued : ∀ conn ∈ t.1.idle, conn.writeTx ∈ t.1.running := by
    intro conn member
    obtain old | new := change.idle_subset member
    · exact change.running_of_queued (alive.queued conn old) (healthy.2 conn old)
    · apply change.running_of_queued (healthy.1 _ new)
      rintro rfl
      cases new
  have ended : ∀ i, ∀ writeTx ∈ (t.2 i).ended, writeTx ∈ s.1.created ∧ writeTx ∉ s.1.running := by
    intro i writeTx member
    rw [noted, noteCalls_ended] at member
    split at member
    · simpa [hasEnded] using member
    · exact alive.ended i writeTx member
  refine ⟨queued, ?_, ?_⟩
  · intro i writeTx member
    obtain ⟨created, stopped⟩ := ended i writeTx member
    refine ⟨change.created_subset created, fun runs => ?_⟩
    obtain ran | fresh := change.running_or_new runs
    · exact stopped ran
    · exact fresh created
  · intro i conn returns member
    obtain ⟨created, stopped⟩ := ended i _ member
    obtain ⟨kept, other⟩ | ⟨before, waited, rfl⟩ | fresh := change.acquired returns
    · rw [noted, noteCalls_ended, if_neg other] at member
      exact alive.acquired i conn kept member
    · exact stopped (alive.queued before waited)
    · exact fresh created

variable {config : PoolLimits} {metrics : Metrics}

theorem alive_of_reach {s : BrokerPool × Calls} (reach : (called config metrics).Reach Healthy s) :
    Alive s := by
  induction reach with
  | initial first =>
      obtain ⟨started, empty⟩ := first
      refine ⟨?_, ?_, ?_⟩
      · rw [started]
        exact nofun
      · rw [empty]
        exact nofun
      · rw [empty]
        exact nofun
  | next _ healthy taken ih =>
      obtain ⟨stepped, noted⟩ := System.watch_step.mp taken
      exact ih.step healthy (.of_step stepped) noted

/-- A call that starts after the write loop of a connection has returned never returns it. -/
theorem acquired_not_ended {s : BrokerPool × Calls} {i : Nat} {conn : Acquired}
    (reach : (called config metrics).Reach Healthy s) (returns : s.1.acquired i = some conn) :
    conn.writeTx ∉ (s.2 i).ended :=
  (alive_of_reach reach).acquired i conn returns

def twoConnections : PoolLimits := ⟨2, 0, 300000, 5000⟩

theorem acquired_not_ended_reuse : ∃ s : BrokerPool × Calls, s.1.acquired 0 = some ⟨1, 2⟩ ∧
    0 ∈ (s.2 0).ended ∧ 1 ∉ (s.2 0).ended := by
  obtain ⟨s, reach, returns, ended⟩ := (called twoConnections (.new true)).exists_reach Healthy
    (.new twoConnections (.new true), fun _ => ⟨false, []⟩)
    [.accept, .task 0 .acquire, .task 0 .tryIdle, .task 0 .tryCreate, .task 0 (.connect ⟨0, 1⟩),
      .task 0 .hand, .ended 0, .task 0 .drop, .task 0 .acquire, .task 0 .tryIdle,
      .task 0 .tryCreate, .task 0 (.connect ⟨1, 2⟩), .task 0 .hand, .task 0 .release,
      .task 0 .push, .task 0 .notify, .task 0 .acquire, .task 0 .tryIdle]
    (fun s => s.1.acquired 0 = some ⟨1, 2⟩ ∧ 0 ∈ (s.2 0).ended) ⟨rfl, rfl⟩ (by decide)
  exact ⟨s, returns, ended, acquired_not_ended reach returns⟩

theorem acquires_ended : ¬ ∀ s i conn, (called oneConnection (.new true)).Reachable s →
    s.1.acquired i = some conn → conn.writeTx ∉ (s.2 i).ended := by
  intro claim
  obtain ⟨s, reach, returns, ended⟩ := (called oneConnection (.new true)).exists_reach
    (fun _ _ => True) (.new oneConnection (.new true), fun _ => ⟨false, []⟩)
    [.accept, .task 0 .acquire, .task 0 .tryIdle, .task 0 .tryCreate, .task 0 (.connect ⟨0, 1⟩),
      .task 0 .hand, .task 0 .release, .task 0 .push, .task 0 .notify, .ended 0, .task 0 .acquire,
      .task 0 .tryIdle]
    (fun s => s.1.acquired 0 = some ⟨0, 1⟩ ∧ 0 ∈ (s.2 0).ended) ⟨rfl, rfl⟩ (by decide)
  exact claim s 0 ⟨0, 1⟩ reach returns ended

end BrokerPool
end KafkaProxy
