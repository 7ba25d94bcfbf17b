import KafkaProxy.Pool.Exclusive

/-!
# The connections that are kept warm

The warmup opens `min_idle` connections. The reaper looks at the age of each connection and not at how
many are left, and no later step opens a connection that nobody asks for.
-/

namespace KafkaProxy
open Library

def Task.lent : Task → Option Acquired
  | .leased conn | .releasing conn _ => some conn
  | .free | .tryIdle | .tryCreate | .creating | .created _ | .rollback | .full | .waiting _ | .woken
  | .released => none

namespace BrokerPool

def lent (p : BrokerPool) : List Acquired := p.tasks.filterMap Task.lent

def usable (p : BrokerPool) : Nat :=
  (p.running.filter (· ∈ p.idle.map (·.writeTx) ++ p.lent.map (·.writeTx))).length

/-- The warmup succeeds, and no connection ends that somebody could still write to. -/
def Undisturbed (p : BrokerPool) (action : PoolAction) : Prop :=
  action ≠ .warmFail ∧ ∀ k ∈ p.held, action ≠ .ended k

instance (p : BrokerPool) (action : PoolAction) : Decidable (p.Undisturbed action) :=
  inferInstanceAs (Decidable (action ≠ .warmFail ∧ ∀ k ∈ p.held, action ≠ .ended k))

/-- The leases and the connections in the queue that have not timed out. -/
def LeavesEnough (p : BrokerPool) : Prop :=
  p.config.minIdle ≤
    p.idle.countP (fun conn => p.now - conn.lastUsed < p.config.idleTimeout) + p.lent.length

instance (p : BrokerPool) : Decidable p.LeavesEnough := inferInstanceAs (Decidable (_ ≤ _))

variable {p q : BrokerPool} {action : PoolAction} {i k : Nat} {task next : Task} {config : PoolLimits}
  {metrics : Metrics} {allowed : BrokerPool → PoolAction → Prop}

/-! ## Every connection is live and in one place -/

theorem count_conn (conn : Option Acquired) (k : Nat) : (conn.toList.map (·.writeTx)).count k =
    weight (fun conn => (decide (conn.writeTx = k)).toNat) conn := by
  cases conn with
  | none => rfl
  | some conn =>
      rw [Option.toList_some, List.map_singleton, List.count_singleton, weight_some]
      by_cases same : conn.writeTx = k <;> simp [same]

theorem count_held (p : BrokerPool) (k : Nat) :
    p.held.count k = p.places fun conn => (decide (conn.writeTx = k)).toNat := by
  have idle : (p.idle.map (·.writeTx)).count k =
      total (fun conn : PooledConn => (decide (conn.writeTx = k)).toNat) p.idle := by
    rw [total_toNat, List.count, List.countP_map]
    rfl
  have tasks : (p.tasks.filterMap Task.writeTx).count k =
      total (fun task => weight (fun conn => (decide (conn.writeTx = k)).toNat) task.conn) p.tasks := by
    induction p.tasks with
    | nil => rfl
    | cons task tasks ih =>
        rw [total_cons, ← ih, ← count_conn]
        cases task <;>
          simp [List.filterMap_cons, Task.writeTx, Task.conn, List.count_cons, Nat.add_comm]
  rw [held, List.count_append, List.count_append, idle, tasks, count_conn]
  rfl

theorem Change.opens_fresh (change : Change p action q) {conn : Acquired}
    (opened : conn ∈ opens action) : conn.writeTx ∉ p.created ∧ conn.writeTx ∈ q.running := by
  cases change with
  | warm left fresh =>
      cases opened
      exact ⟨fresh, List.mem_cons_self⟩
  | task current move =>
      cases move with
      | connect fresh =>
          cases opened
          exact ⟨fresh, List.mem_cons_self⟩
      | _ => cases opened
  | _ => cases opened

theorem Change.runs_on (change : Change p action q) (runs : k ∈ p.running) :
    k ∈ q.running ∨ action = .ended k := by
  cases change with
  | warm left fresh => exact .inl (List.mem_cons_of_mem _ runs)
  | task current move =>
      cases move with
      | connect fresh => exact .inl (List.mem_cons_of_mem _ runs)
      | notify =>
          rw [put, notifyOne_running]
          exact .inl runs
      | _ => exact .inl runs
  | reapNotify subtracted =>
      rw [notifyOne_running]
      exact .inl runs
  | @ended writeTx ran =>
      by_cases same : writeTx = k
      · exact .inr (congrArg _ same)
      · exact .inl ((List.mem_erase_of_ne (Ne.symm same)).mpr runs)
  | _ => exact .inl runs

theorem Change.held_nodup (nodup : p.held.Nodup) (known : p.held ⊆ p.created)
    (waits : Waits p.notify.waiters p.tasks) (change : Change p action q) : q.held.Nodup := by
  rw [List.nodup_iff_count_le_one]
  intro k
  have within := change.places_le (fun conn => (decide (conn.writeTx = k)).toNat) waits
  have single := List.nodup_iff_count_le_one.mp nodup k
  rw [← count_held, ← count_held] at within
  cases opened : opens action with
  | none =>
      rw [opened, weight_none] at within
      omega
  | some conn =>
      rw [opened, weight_some] at within
      by_cases same : conn.writeTx = k
      · have fresh := (change.opens_fresh opened).1
        have nowhere : p.held.count k = 0 :=
          List.count_eq_zero.mpr fun member => fresh (same ▸ known member)
        simp only [same, decide_true, Bool.toNat_true] at within
        omega
      · simp only [same, decide_false, Bool.toNat_false] at within
        omega

structure Sound (p : BrokerPool) : Prop where
  nodup : p.held.Nodup
  live : p.held ⊆ p.running

theorem Sound.step (sound : p.Sound) (waits : Waits p.notify.waiters p.tasks)
    (known : p.running ⊆ p.created) (change : Change p action q) (undisturbed : p.Undisturbed action) :
    q.Sound := by
  refine ⟨change.held_nodup sound.nodup (List.Subset.trans sound.live known) waits, ?_⟩
  intro k member
  obtain old | ⟨conn, opened, own⟩ := change.held_or_new member
  · obtain runs | ends := change.runs_on (sound.live old)
    · exact runs
    · exact absurd ends (undisturbed.2 k old)
  · exact own ▸ (change.opens_fresh opened).2

theorem sound_of_reach (undisturbed : ∀ p action, allowed p action → p.Undisturbed action)
    (reach : (system config metrics).Reach allowed p) : p.Sound := by
  induction reach with
  | initial first =>
      rw [first]
      constructor <;> simp [held, new]
  | next reached permitted taken ih =>
      exact ih.step (waits_of_reach reached) (running_nodup reached.reachable).2 (.of_step taken)
        (undisturbed _ _ permitted)

theorem pooled_sublist (p : BrokerPool) :
    (p.idle.map (·.writeTx) ++ p.lent.map (·.writeTx)).Sublist p.held := by
  have tasks : (p.lent.map (·.writeTx)).Sublist (p.tasks.filterMap Task.writeTx) := by
    unfold lent
    induction p.tasks with
    | nil => exact List.Sublist.refl _
    | cons task tasks ih =>
        cases task with
        | leased conn | releasing conn lastUsed => exact ih.cons_cons _
        | created conn => exact ih.cons _
        | _ => exact ih
  exact (tasks.append_left _).trans (List.sublist_append_left _ _)

theorem Sound.usable_eq (sound : p.Sound) (nodup : p.running.Nodup) :
    p.usable = p.idle.length + p.lent.length := by
  have pooled := p.pooled_sublist
  have same : (p.running.filter (· ∈ p.idle.map (·.writeTx) ++ p.lent.map (·.writeTx))).Perm
      (p.idle.map (·.writeTx) ++ p.lent.map (·.writeTx)) := by
    rw [List.perm_ext_iff_of_nodup (nodup.filter _) (sound.nodup.sublist pooled)]
    intro k
    rw [List.mem_filter, decide_eq_true_eq, and_iff_right_iff_imp]
    exact fun member => sound.live (pooled.subset member)
  rw [usable, same.length_eq, List.length_append, List.length_map, List.length_map]

/-! ## How many there are -/

def stock (p : BrokerPool) : Nat := p.idle.length + p.lent.length + p.unwarmed

theorem Move.lent_length {taskAction : TaskAction} (waits : Waits p.notify.waiters p.tasks)
    (current : p.tasks[i]? = some task) (move : Move p i task taskAction q next) :
    (q.put i next).lent.length + task.lent.toList.length =
      p.lent.length + next.lent.toList.length := by
  have moved := move.total_tasks (fun task => task.lent.toList.length) waits current fun _ => rfl
  simp only [lent, length_filterMap]
  exact moved

theorem Move.stock {taskAction : TaskAction} {enough : Nat} (alive : ∀ conn ∈ p.idle, conn.alive = true)
    (waits : Waits p.notify.waiters p.tasks) (fits : enough ≤ p.config.maxPerBroker)
    (current : p.tasks[i]? = some task) (move : Move p i task taskAction q next)
    (sends : taskAction ≠ .drop) (before : enough ≤ p.stock) : enough ≤ (q.put i next).stock := by
  have tasks := move.lent_length waits current
  have warmup : (q.put i next).unwarmed = p.unwarmed :=
    congrArg (fun w => w.remaining + w.ready.toList.length) move.warmup
  simp only [BrokerPool.stock, warmup, put_idle] at before ⊢
  cases move with
  | reuse unlocked queue live =>
      simp only [queue, List.length_cons, Task.lent, Option.toList_some, Option.toList_none,
        List.length_nil] at tasks before ⊢
      omega
  | bury unlocked queue dead =>
      have live := alive _ (queue ▸ List.mem_cons_self)
      rw [dead] at live
      cases live
  | push unlocked room =>
      simp only [List.length_append, List.length_singleton, Task.lent, Option.toList_some,
        Option.toList_none, List.length_nil] at tasks ⊢
      omega
  | discard unlocked full => omega
  | drop ended => exact absurd rfl sends
  | notify =>
      simp only [notifyOne_idle, Task.lent, Option.toList_none, List.length_nil] at tasks ⊢
      omega
  | connect fresh =>
      simp only [spawn, Task.lent, Option.toList_none, List.length_nil] at tasks warmup ⊢
      omega
  | _ =>
      simp only [Task.lent, Option.toList_some, Option.toList_none, List.length_nil,
        List.length_singleton] at tasks ⊢
      omega

theorem countP_keeps (alive : ∀ conn ∈ p.idle, conn.alive = true) : (p.idle.filter p.keeps).length =
    p.idle.countP fun conn => p.now - conn.lastUsed < p.config.idleTimeout := by
  rw [← List.countP_eq_length_filter]
  apply List.countP_congr
  intro conn member
  simp [keeps, alive conn member]

theorem Change.stock {enough : Nat} (alive : ∀ conn ∈ p.idle, conn.alive = true)
    (waits : Waits p.notify.waiters p.tasks) (fits : enough ≤ p.config.maxPerBroker)
    (change : Change p action q) (started : action ≠ .warmFail) (sends : ∀ i, action ≠ .task i .drop)
    (leaves : action = .reap → enough ≤ (p.idle.filter p.keeps).length + p.lent.length)
    (before : enough ≤ p.stock) : enough ≤ q.stock := by
  cases change with
  | @task i _ _ taskAction _ current move =>
      exact move.stock alive waits fits current (fun same => sends i (congrArg _ same)) before
  | warm left fresh =>
      simp only [BrokerPool.stock, unwarmed, left, Option.toList_none, List.length_nil] at before
      simp only [BrokerPool.stock, unwarmed, spawn, lent, Option.toList_some, List.length_singleton]
        at before ⊢
      omega
  | warmFail left => exact absurd rfl started
  | warmPush ready =>
      simp only [BrokerPool.stock, unwarmed, ready, lent, List.length_append, List.length_singleton,
        Option.toList_some, Option.toList_none, List.length_nil] at before ⊢
      omega
  | accept warm => simpa [BrokerPool.stock, unwarmed, lent, Task.lent, List.filterMap_cons] using before
  | reap warm resting due => exact (leaves rfl).trans (Nat.le_add_right _ _)
  | reapNotify subtracted =>
      have same := waits.total_notifyOne (fun task => task.lent.toList.length) fun _ => rfl
      simpa [BrokerPool.stock, unwarmed, lent, length_filterMap, same] using before
  | tick elapsed | subtract evicted | ended runs => exact before

theorem Sound.sends (sound : p.Sound) (change : Change p action q) (i : Nat) :
    action ≠ .task i .drop := by
  rintro rfl
  cases change with
  | task current move =>
      cases move with
      | drop ended => exact ended (sound.live (mem_held.mpr (.inr (.inl ⟨i, _, current, rfl⟩))))

def Keeps (p : BrokerPool) (action : PoolAction) : Prop :=
  p.Undisturbed action ∧ (action = .reap → p.LeavesEnough)

instance (p : BrokerPool) (action : PoolAction) : Decidable (p.Keeps action) :=
  inferInstanceAs (Decidable (p.Undisturbed action ∧ (action = .reap → p.LeavesEnough)))

theorem stock_of_reach (fits : config.minIdle ≤ config.maxPerBroker)
    (reach : (system config metrics).Reach Keeps p) : config.minIdle ≤ p.stock := by
  induction reach with
  | initial first =>
      rw [first]
      simp [stock, new, unwarmed]
  | @next before after action reached keeps taken ih =>
      have limit := config_of_reach reached
      have alive := idle_alive reached
      have change : Change before action after := .of_step taken
      have sound := sound_of_reach (fun _ _ keeps => keeps.1) reached
      apply change.stock alive (waits_of_reach reached) (limit ▸ fits) keeps.1.1 (sound.sends change) ?_ ih
      intro reaps
      have leaves := keeps.2 reaps
      rw [LeavesEnough, limit] at leaves
      rw [countP_keeps alive, limit]
      exact leaves

/-! ## What the reaper leaves -/

theorem usable_reap (reach : (system config metrics).Reach Keeps p) (taken : p.step .reap = some q) :
    config.minIdle ≤ q.usable ↔ p.LeavesEnough := by
  have reachable := reach.reachable
  have alive := idle_alive reach
  have limit := config_of_reach reach
  have change : Change p .reap q := .of_step taken
  have sound := sound_of_reach (fun _ _ keeps => keeps.1) reach
  have after := sound.step (waits_of_reach reach) (running_nodup reachable).2 change
    ⟨nofun, fun _ _ => nofun⟩
  rw [after.usable_eq (running_nodup (reachable.next (a := .reap) taken)).1, LeavesEnough,
    ← countP_keeps alive, limit]
  cases change with
  | reap warm resting due => rfl

theorem usable_of_reach (fits : config.minIdle ≤ config.maxPerBroker)
    (reach : (system config metrics).Reach Keeps p) (warm : p.warmedUp = true) :
    config.minIdle ≤ p.usable := by
  have sound := sound_of_reach (fun _ _ keeps => keeps.1) reach
  have enough := stock_of_reach fits reach
  rw [stock, warmedUp_iff.mp warm] at enough
  rw [sound.usable_eq (running_nodup reach.reachable).1]
  exact enough

/-- While every eviction leaves enough connections that have not timed out, the pool has `min_idle`
of them. An eviction that does not leave enough takes it below. -/
theorem warm_kept (fits : config.minIdle ≤ config.maxPerBroker)
    (reach : (system config metrics).Reach Keeps p) (warm : p.warmedUp = true) :
    config.minIdle ≤ p.usable ∧
      ∀ q, p.step .reap = some q → (config.minIdle ≤ q.usable ↔ p.LeavesEnough) :=
  ⟨usable_of_reach fits reach warm, fun _ taken => usable_reap reach taken⟩

theorem warm_kept_lease : ∃ p : BrokerPool, p.usable = 2 ∧ (p.step .reap).map usable = some 1 ∧
    1 ≤ p.usable ∧ ∀ q, p.step .reap = some q → (1 ≤ q.usable ↔ p.LeavesEnough) := by
  obtain ⟨p, reach, warm, usable, reaped⟩ :=
    (system ⟨2, 1, 300000, 5000⟩ (.new true)).exists_reach Keeps (.new ⟨2, 1, 300000, 5000⟩ (.new true))
      [.warm ⟨0, 1⟩, .warmPush, .accept, .accept, .reap, .task 0 .acquire, .task 0 .tryIdle,
        .task 1 .acquire, .task 1 .tryIdle, .task 1 .tryCreate, .task 1 (.connect ⟨1, 2⟩), .task 1 .hand,
        .task 1 .release, .task 1 .push, .tick 300000]
      (fun p => p.warmedUp = true ∧ p.usable = 2 ∧ (p.step .reap).map BrokerPool.usable = some 1) rfl
      (by decide)
  exact ⟨p, usable, reaped, warm_kept (by decide) reach warm⟩

theorem warm_not_kept : ¬ ∀ (config : PoolLimits) (metrics : Metrics) (p q : BrokerPool),
    config.minIdle ≤ config.maxPerBroker → (system config metrics).Reach Undisturbed p →
    p.warmedUp = true → p.step .reap = some q → config.minIdle ≤ q.usable := by
  intro kept
  obtain ⟨p, reach, warm, reaped⟩ :=
    (system ⟨1, 1, 300000, 5000⟩ (.new true)).exists_reach Undisturbed
      (.new ⟨1, 1, 300000, 5000⟩ (.new true)) [.warm ⟨0, 1⟩, .warmPush, .tick 300000]
      (fun p => p.warmedUp = true ∧ (p.step .reap).map usable = some 0) rfl (by decide)
  obtain ⟨q, taken, none⟩ := Option.map_eq_some_iff.mp reaped
  have enough := kept _ _ p q (by decide) reach warm taken
  rw [none] at enough
  exact absurd enough (by decide)

end BrokerPool
end KafkaProxy
