import KafkaProxy.Pool.Moves

/-!
# What the counter of a pool counts

`count` is meant to be the number of connections that the pool has, idle or in use, and of those it
is creating. It is lowered by the reaper and after a failed creation only.
-/

namespace KafkaProxy
open Library

def Task.slots : Task → Nat
  | .creating | .rollback | .created _ | .leased _ | .releasing .. => 1
  | .free | .tryIdle | .tryCreate | .full | .waiting _ | .woken | .released => 0

def Reaper.removed : Reaper → Nat
  | .evicted removed => removed
  | .resting | .subtracted => 0

namespace BrokerPool

def slots (p : BrokerPool) : Nat := p.idle.length + total Task.slots p.tasks + p.reaper.removed

def discards (p : BrokerPool) : PoolAction → Bool
  | .task _ .drop => true
  | .task _ .push => p.config.maxPerBroker ≤ p.idle.length
  | _ => false

def rollsBack : PoolAction → Bool
  | .task _ .rollback => true
  | _ => false

inductive Accounts (p : BrokerPool) (action : PoolAction) : Nat → Nat → Prop where
  | keep : Accounts p action p.count p.slots
  | reserve (room : p.count < p.config.maxPerBroker) : Accounts p action (p.count + 1) (p.slots + 1)
  | rollback {slots : Nat} (rolls : rollsBack action = true) (had : p.slots = slots + 1) :
      Accounts p action (usizeSub p.count 1) slots
  | lose {slots : Nat} (discarded : p.discards action = true) (had : p.slots = slots + 1) :
      Accounts p action p.count slots
  | gain (pushed : action = .warmPush) : Accounts p action p.count (p.slots + 1)
  | reclaim {slots removed : Nat} (had : p.slots = slots + removed) :
      Accounts p action (p.count - removed) slots

variable {p q : BrokerPool} {action : PoolAction} {i : Nat} {task next : Task}

theorem Accounts.of_eq {count slots : Nat} (sameCount : count = p.count) (sameSlots : slots = p.slots) :
    Accounts p action count slots := by
  subst sameCount sameSlots
  exact .keep

theorem Move.slots_balance {taskAction : TaskAction} (waits : Waits p.notify.waiters p.tasks)
    (current : p.tasks[i]? = some task) (move : Move p i task taskAction q next) :
    (q.put i next).slots + p.idle.length + task.slots =
      p.slots + q.idle.length + next.slots := by
  have changed := move.total_tasks Task.slots waits current fun _ => rfl
  have reaper : q.reaper = p.reaper := by
    cases move with
    | notify => exact notifyOne_reaper
    | _ => rfl
  simp only [slots, put_idle, put_reaper, reaper]
  omega

theorem Move.slots_eq {taskAction : TaskAction} (waits : Waits p.notify.waiters p.tasks)
    (current : p.tasks[i]? = some task) (move : Move p i task taskAction q next)
    (even : q.idle.length + next.slots = p.idle.length + task.slots) :
    (q.put i next).slots = p.slots := by
  have changed := move.slots_balance waits current
  omega

theorem Move.accounts {taskAction : TaskAction} (alive : ∀ conn ∈ p.idle, conn.alive = true)
    (waits : Waits p.notify.waiters p.tasks) (current : p.tasks[i]? = some task)
    (move : Move p i task taskAction q next) :
    Accounts p (.task i taskAction) q.count (q.put i next).slots := by
  have changed := move.slots_balance waits current
  have same := move.slots_eq waits current
  cases move with
  | reuse unlocked queue _ => exact .of_eq rfl (same (by simp [queue, Task.slots]))
  | bury unlocked queue dead =>
      have := alive _ (queue ▸ List.mem_cons_self)
      simp [dead] at this
  | reserve room =>
      have grown : (put { p with count := p.count + 1 } i .creating).slots = p.slots + 1 := by
        simp only [Task.slots] at changed
        omega
      rw [grown]
      exact .reserve room
  | rollback =>
      apply Accounts.rollback rfl
      simp only [Task.slots] at changed
      omega
  | push unlocked room => exact .of_eq rfl (same (by simp [Task.slots]))
  | discard unlocked full =>
      apply Accounts.lose (by simpa [discards] using full)
      simp only [Task.slots] at changed
      omega
  | drop ended =>
      apply Accounts.lose rfl
      simp only [Task.slots] at changed
      omega
  | notify => exact .of_eq notifyOne_count (same (by simp [Task.slots]))
  | _ => exact .of_eq rfl (same rfl)

theorem Change.accounts (alive : ∀ conn ∈ p.idle, conn.alive = true)
    (waits : Waits p.notify.waiters p.tasks) (change : Change p action q) :
    Accounts p action q.count q.slots := by
  cases change with
  | task current move => exact move.accounts alive waits current
  | @warmPush conn remaining ready =>
      have grown : slots { p with
          metrics := p.metrics.incUpstreamConnections
          idle := p.idle ++ [⟨conn, true, p.now⟩]
          warmup := ⟨remaining, none⟩ } = p.slots + 1 := by
        simp only [slots, List.length_append, List.length_singleton]
        omega
      rw [grown]
      exact .gain rfl
  | accept warm =>
      apply Accounts.of_eq rfl
      simp [slots, total_append, Task.slots]
  | reap warm resting due =>
      apply Accounts.of_eq rfl
      have fewer := List.length_filter_le p.keeps p.idle
      simp only [slots, resting]
      split
      · simp only [Reaper.removed]
        omega
      · simp only [Reaper.removed]
        omega
  | subtract evicted =>
      apply Accounts.reclaim
      simp [slots, evicted, Reaper.removed]
  | reapNotify subtracted =>
      apply Accounts.of_eq notifyOne_count
      have same := waits.total_notifyOne Task.slots fun _ => rfl
      simp [slots, subtracted, Reaper.removed, same]
  | tick | warm | warmFail | ended => exact .of_eq rfl rfl

theorem Change.idle_alive (alive : ∀ conn ∈ p.idle, conn.alive = true) (change : Change p action q) :
    ∀ conn ∈ q.idle, conn.alive = true := by
  cases change with
  | task current move =>
      cases move with
      | reuse unlocked queue _ | bury unlocked queue _ =>
          exact fun conn member => alive conn (queue ▸ List.mem_cons_of_mem _ member)
      | push unlocked room =>
          intro conn member
          rcases List.mem_append.mp member with older | added
          · exact alive conn older
          · rw [List.mem_singleton.mp added]
      | notify => exact notifyOne_idle (p := p) ▸ alive
      | _ => exact alive
  | warmPush ready =>
      intro conn member
      rcases List.mem_append.mp member with older | added
      · exact alive conn older
      · rw [List.mem_singleton.mp added]
  | reap warm resting due => exact fun conn member => alive conn (List.mem_filter.mp member).1
  | reapNotify subtracted => exact notifyOne_idle (p := p) ▸ alive
  | _ => exact alive

variable {config : PoolLimits} {metrics : Metrics} {allowed : BrokerPool → PoolAction → Prop}

theorem idle_alive (reach : (system config metrics).Reach allowed p) :
    ∀ conn ∈ p.idle, conn.alive = true := by
  induction reach with
  | initial first =>
      rw [first]
      simp [new]
  | next _ _ action ih => exact (Change.of_step action).idle_alive ih

theorem accounts_of_reach (reach : (system config metrics).Reach allowed p)
    (taken : (system config metrics).step p action = some q) : Accounts p action q.count q.slots :=
  (Change.of_step taken).accounts (idle_alive reach) (waits_of_reach reach)

theorem config_of_reach (reach : (system config metrics).Reach allowed p) : p.config = config := by
  induction reach with
  | initial first => rw [first]; rfl
  | next _ _ action ih =>
      cases Change.of_step action with
      | task current move =>
          cases move with
          | notify => exact notifyOne_config.trans ih
          | _ => exact ih
      | reapNotify subtracted => exact notifyOne_config.trans ih
      | _ => exact ih

/-! ## No lost slot -/

structure Gone (p : BrokerPool) : Prop where
  ended : p.running = []
  idle : p.idle = []
  unused : ∀ task ∈ p.tasks, task.slots = 0
  resting : p.reaper = .resting

/-- A connection is let go only when the counter is below what the pool has, and a failed creation
is taken back only when the counter is positive. -/
def Covered (p : BrokerPool) (action : PoolAction) : Prop :=
  (p.discards action = true → p.count < p.slots) ∧ (rollsBack action = true → 0 < p.count)

instance (p : BrokerPool) (action : PoolAction) : Decidable (Covered p action) :=
  inferInstanceAs (Decidable (_ ∧ _))

theorem count_le_slots (reach : (system config metrics).Reach Covered p) : p.count ≤ p.slots := by
  apply System.Reach.invariant (fun p => (system config metrics).Reach Covered p)
    (fun p => p.count ≤ p.slots) (fun _ before => before) ?_ ?_ reach
  · intro first initial
    rw [initial]
    exact Nat.zero_le _
  · intro before action after reached bounded covered taken
    have accounted := accounts_of_reach reached taken
    generalize after.count = count, after.slots = slots at accounted ⊢
    cases accounted with
    | keep => exact bounded
    | reserve room => omega
    | rollback rolls had =>
        have positive := covered.2 rolls
        rw [usizeSub, if_pos (Nat.succ_le_of_lt positive)]
        omega
    | lose discarded had =>
        have below := covered.1 discarded
        omega
    | gain _ => omega
    | reclaim had => omega

theorem Gone.slots (gone : Gone p) : p.slots = 0 := by
  rw [BrokerPool.slots, gone.idle, total_eq_zero gone.unused, gone.resting]
  rfl

theorem acquire_creates (idle : p.idle = []) (resting : p.reaper = .resting) (zero : p.count = 0)
    (room : 1 ≤ p.config.maxPerBroker) (current : p.tasks[i]? = some .free) :
    ∃ q, (system config metrics).exec (fun _ _ => True) p
      [.task i .acquire, .task i .tryIdle, .task i .tryCreate] = some q ∧
      q.tasks[i]? = some .creating := by
  have acquired := Move.step current .acquire
  have searching := put_current current .tryIdle
  have missed := Move.step searching (.miss (by simp [idleLocked, resting]) idle)
  have trying := put_current searching .tryCreate
  have reserved := Move.step trying (.reserve (by simpa [zero] using Nat.succ_le_iff.mp room))
  refine ⟨put { put (put p i .tryIdle) i .tryCreate with count := p.count + 1 } i .creating, ?_, ?_⟩
  · simp only [System.exec, system, acquired, missed, reserved, if_true, Option.bind_some]
    rfl
  · exact put_current trying .creating

theorem no_lost_slot (reach : (system config metrics).Reach Covered p) (gone : p.Gone) :
    p.count = 0 ∧ (1 ≤ config.maxPerBroker → ∀ i, p.tasks[i]? = some .free →
      ∃ q, (system config metrics).exec (fun _ _ => True) p
        [.task i .acquire, .task i .tryIdle, .task i .tryCreate] = some q ∧
        q.tasks[i]? = some .creating) := by
  have bounded := count_le_slots reach
  rw [gone.slots] at bounded
  have zero : p.count = 0 := Nat.le_zero.mp bounded
  refine ⟨zero, fun room i current => ?_⟩
  rw [← config_of_reach reach] at room
  exact acquire_creates gone.idle gone.resting zero room current

def oneConnection : PoolLimits := ⟨1, 0, 300000, 5000⟩

theorem no_lost_slot_reaped : ∃ p, Gone p ∧ p.created = [0] ∧ p.count = 0 ∧
    ∃ q, (system oneConnection (.new true)).exec (fun _ _ => True) p
      [.task 0 .acquire, .task 0 .tryIdle, .task 0 .tryCreate] = some q ∧
      q.tasks[0]? = some .creating := by
  obtain ⟨p, reach, ended, idle, tasks, resting, created⟩ :=
    (system oneConnection (.new true)).exists_reach Covered (.new oneConnection (.new true))
      [.accept, .task 0 .acquire, .task 0 .tryIdle, .task 0 .tryCreate, .task 0 (.connect ⟨0, 1⟩),
        .task 0 .hand, .task 0 .release, .task 0 .push, .task 0 .notify, .ended 0, .tick 300000, .reap,
        .subtract, .reapNotify]
      (fun p => p.running = [] ∧ p.idle = [] ∧ p.tasks = [.free] ∧ p.reaper = .resting ∧ p.created = [0])
      rfl (by decide +kernel)
  have gone : Gone p := ⟨ended, idle, by simp [tasks, Task.slots], resting⟩
  obtain ⟨zero, creates⟩ := no_lost_slot reach gone
  exact ⟨p, gone, created, zero, creates (by decide) 0 (by simp [tasks])⟩

theorem drop_loses_slot : ¬ ∀ p, (system oneConnection (.new true)).Reachable p → Gone p →
    p.count = 0 := by
  intro claim
  obtain ⟨p, reachable, ended, idle, tasks, resting, count⟩ :=
    (system oneConnection (.new true)).exists_reach (fun _ _ => True)
    (.new oneConnection (.new true))
    [.accept, .task 0 .acquire, .task 0 .tryIdle, .task 0 .tryCreate, .task 0 (.connect ⟨0, 1⟩),
      .task 0 .hand, .ended 0, .task 0 .drop]
    (fun p => p.running = [] ∧ p.idle = [] ∧ p.tasks = [.free] ∧ p.reaper = .resting ∧ p.count = 1)
    rfl (by decide)
  have zero := claim p reachable ⟨ended, idle, by simp [tasks, Task.slots], resting⟩
  omega

end BrokerPool
end KafkaProxy
