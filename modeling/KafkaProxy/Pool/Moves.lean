import KafkaProxy.Pool.Basic

namespace KafkaProxy.BrokerPool
open Library

/-! ## What a task's step can do -/

inductive Move (p : BrokerPool) (i : Nat) : Task → TaskAction → BrokerPool → Task → Prop where
  | acquire : Move p i .free .acquire p .tryIdle
  | reuse {conn : PooledConn} {rest : List PooledConn} (unlocked : p.idleLocked = false)
      (queue : p.idle = conn :: rest) (alive : conn.alive = true) :
      Move p i .tryIdle .tryIdle { p with idle := rest } (.leased conn.toAcquired)
  | bury {conn : PooledConn} {rest : List PooledConn} (unlocked : p.idleLocked = false)
      (queue : p.idle = conn :: rest) (dead : conn.alive = false) :
      Move p i .tryIdle .tryIdle { p with idle := rest } .tryCreate
  | miss (unlocked : p.idleLocked = false) (queue : p.idle = []) :
      Move p i .tryIdle .tryIdle p .tryCreate
  | reserve (room : p.count < p.config.maxPerBroker) :
      Move p i .tryCreate .tryCreate { p with count := p.count + 1 } .creating
  | refuse (full : p.config.maxPerBroker ≤ p.count) : Move p i .tryCreate .tryCreate p .full
  | connect {conn : Acquired} (fresh : conn.writeTx ∉ p.created) :
      Move p i .creating (.connect conn) (p.spawn conn) (.created conn)
  | connectFail : Move p i .creating .connectFail p .rollback
  | hand {conn : Acquired} :
      Move p i (.created conn) .hand { p with metrics := p.metrics.incUpstreamConnections }
        (.leased conn)
  | rollback : Move p i .rollback .rollback { p with count := usizeSub p.count 1 } .free
  | permit (stored : p.notify.permit = true) :
      Move p i .full .wait { p with notify := { p.notify with permit := false } } .woken
  | enqueue (none : p.notify.permit = false) :
      Move p i .full .wait
        { p with notify := { p.notify with waiters := p.notify.waiters ++ [i] } }
        (.waiting (p.now + p.config.acquireTimeout))
  | timeout {deadline : Nat} (late : deadline ≤ p.now) :
      Move p i (.waiting deadline) .timeout
        { p with notify := { p.notify with waiters := p.notify.waiters.erase i } } .free
  | resume : Move p i .woken .resume p .tryIdle
  | release {conn : Acquired} : Move p i (.leased conn) .release p (.releasing conn p.now)
  | push {conn : Acquired} {lastUsed : Nat} (unlocked : p.idleLocked = false)
      (room : p.idle.length < p.config.maxPerBroker) :
      Move p i (.releasing conn lastUsed) .push { p with idle := p.idle ++ [⟨conn, true, lastUsed⟩] }
        .released
  | discard {conn : Acquired} {lastUsed : Nat} (unlocked : p.idleLocked = false)
      (full : p.config.maxPerBroker ≤ p.idle.length) :
      Move p i (.releasing conn lastUsed) .push p .released
  | notify : Move p i .released .notify p.notifyOne .free
  | drop {conn : Acquired} (ended : conn.writeTx ∉ p.running) : Move p i (.leased conn) .drop p .free

variable {p q : BrokerPool} {i : Nat} {task next : Task}

theorem Move.of_taskStep {action : TaskAction} (taken : p.taskStep i task action = some (q, next)) :
    Move p i task action q next := by
  cases action with
  | tryIdle =>
      cases task <;> simp only [taskStep, reduceCtorEq] at taken
      split at taken
      · cases taken
      · rename_i unlocked
        rw [Bool.not_eq_true] at unlocked
        split at taken
        · rename_i conn rest queue
          split at taken <;> cases taken
          · rename_i alive
            exact .reuse unlocked queue alive
          · rename_i dead
            exact .bury unlocked queue (by simpa using dead)
        · rename_i queue
          cases taken
          exact .miss unlocked queue
  | tryCreate =>
      cases task <;> simp only [taskStep, reduceCtorEq] at taken
      split at taken <;> cases taken
      · rename_i room
        exact .reserve room
      · rename_i full
        exact .refuse (Nat.le_of_not_lt full)
  | connect conn =>
      cases task <;> simp only [taskStep, reduceCtorEq] at taken
      split at taken <;> cases taken
      rename_i fresh
      exact .connect fresh
  | wait =>
      cases task <;> simp only [taskStep, reduceCtorEq] at taken
      split at taken <;> cases taken
      · rename_i stored
        exact .permit stored
      · rename_i none
        exact .enqueue (by simpa using none)
  | timeout =>
      cases task <;> simp only [taskStep, reduceCtorEq] at taken
      split at taken <;> cases taken
      rename_i late
      exact .timeout late
  | push =>
      cases task <;> simp only [taskStep, reduceCtorEq] at taken
      split at taken
      · cases taken
      · rename_i unlocked
        rw [Bool.not_eq_true] at unlocked
        split at taken <;> cases taken
        · rename_i room
          exact .push unlocked room
        · rename_i full
          exact .discard unlocked (Nat.le_of_not_lt full)
  | drop =>
      cases task <;> simp only [taskStep, reduceCtorEq] at taken
      split at taken <;> cases taken
      rename_i ended
      exact .drop ended
  | acquire | connectFail | hand | rollback | resume | release | notify =>
      cases task <;> simp only [taskStep, reduceCtorEq] at taken
      cases taken
      constructor

theorem Move.step {action : TaskAction} (current : p.tasks[i]? = some task)
    (move : Move p i task action q next) : p.step (.task i action) = some (q.put i next) := by
  have taken : p.taskStep i task action = some (q, next) := by
    cases move with
    | push _ room => simp [taskStep, *]
    | discard _ full => simp [taskStep, Nat.not_lt.mpr full, *]
    | refuse full => simp [taskStep, Nat.not_lt.mpr full]
    | _ => simp [taskStep, *]
  simp only [BrokerPool.step, current, taken, Option.map_some]

@[simp] theorem put_idle : (p.put i task).idle = p.idle := rfl
@[simp] theorem put_count : (p.put i task).count = p.count := rfl
@[simp] theorem put_config : (p.put i task).config = p.config := rfl
@[simp] theorem put_reaper : (p.put i task).reaper = p.reaper := rfl
@[simp] theorem put_idleLocked : (p.put i task).idleLocked = p.idleLocked := rfl

theorem put_current (current : p.tasks[i]? = some task) (next : Task) :
    (p.put i next).tasks[i]? = some next := by
  have bound := (List.getElem?_eq_some_iff.mp current).1
  simp [put, bound]

inductive Change (p : BrokerPool) : PoolAction → BrokerPool → Prop where
  | tick (elapsed : Nat) : Change p (.tick elapsed) { p with now := p.now + elapsed }
  | warm {conn : Acquired} {remaining : Nat} (left : p.warmup = ⟨remaining + 1, none⟩)
      (fresh : conn.writeTx ∉ p.created) :
      Change p (.warm conn) { p.spawn conn with warmup := ⟨remaining, some conn⟩ }
  | warmFail {remaining : Nat} (left : p.warmup = ⟨remaining + 1, none⟩) :
      Change p .warmFail { p with warmup := ⟨0, none⟩ }
  | warmPush {conn : Acquired} {remaining : Nat} (ready : p.warmup = ⟨remaining, some conn⟩) :
      Change p .warmPush { p with
        metrics := p.metrics.incUpstreamConnections
        idle := p.idle ++ [⟨conn, true, p.now⟩]
        warmup := ⟨remaining, none⟩ }
  | accept (warm : p.warmedUp = true) : Change p .accept { p with tasks := p.tasks ++ [.free] }
  | task {i : Nat} {before after : Task} {action : TaskAction} {q : BrokerPool}
      (current : p.tasks[i]? = some before) (move : Move p i before action q after) :
      Change p (.task i action) (q.put i after)
  | reap (warm : p.warmedUp = true) (resting : p.reaper = .resting) (due : p.nextScan ≤ p.now) :
      Change p .reap { p with
        idle := p.idle.filter p.keeps
        metrics :=
          Metrics.decUpstreamConnections^[p.idle.length - (p.idle.filter p.keeps).length] p.metrics
        reaper :=
          if 0 < p.idle.length - (p.idle.filter p.keeps).length then
            .evicted (p.idle.length - (p.idle.filter p.keeps).length)
          else .resting
        nextScan := p.nextScan + scanPeriod }
  | subtract {removed : Nat} (evicted : p.reaper = .evicted removed) :
      Change p .subtract { p with count := p.count - removed, reaper := .subtracted }
  | reapNotify (subtracted : p.reaper = .subtracted) :
      Change p .reapNotify { p.notifyOne with reaper := .resting }
  | ended {writeTx : Nat} (runs : writeTx ∈ p.running) :
      Change p (.ended writeTx) { p with
        running := p.running.erase writeTx
        metrics := p.metrics.decUpstreamConnections }

theorem Change.of_step {action : PoolAction} (taken : p.step action = some q) :
    Change p action q := by
  cases action with
  | tick elapsed =>
      cases taken
      exact .tick elapsed
  | warm conn =>
      simp only [step] at taken
      split at taken
      · rename_i remaining left
        split at taken <;> cases taken
        rename_i fresh
        exact .warm left fresh
      · cases taken
  | warmFail =>
      simp only [step] at taken
      split at taken <;> cases taken
      rename_i left
      exact .warmFail left
  | warmPush =>
      simp only [step] at taken
      split at taken <;> cases taken
      rename_i ready
      exact .warmPush ready
  | accept =>
      simp only [step] at taken
      split at taken <;> cases taken
      rename_i warm
      exact .accept warm
  | task i action =>
      simp only [step] at taken
      split at taken
      · rename_i before current
        obtain ⟨⟨r, after⟩, stepped, rfl⟩ := Option.map_eq_some_iff.mp taken
        exact .task current (.of_taskStep stepped)
      · cases taken
  | reap =>
      simp only [step] at taken
      split at taken <;> cases taken
      rename_i guard
      simp only [Bool.and_eq_true, decide_eq_true_eq] at guard
      exact .reap guard.1.1 guard.1.2 guard.2
  | subtract =>
      simp only [step] at taken
      split at taken <;> cases taken
      rename_i evicted
      exact .subtract evicted
  | reapNotify =>
      simp only [step] at taken
      split at taken <;> cases taken
      rename_i subtracted
      exact .reapNotify subtracted
  | ended writeTx =>
      simp only [step] at taken
      split at taken <;> cases taken
      rename_i runs
      exact .ended runs

/-! ## The waiting line -/

structure Waits (waiters : List Nat) (tasks : List Task) : Prop where
  nodup : waiters.Nodup
  waiting : ∀ j, j ∈ waiters ↔ ∃ deadline, tasks[j]? = some (.waiting deadline)

namespace Waits

variable {waiters : List Nat} {tasks : List Task}

theorem set (waits : Waits waiters tasks) (current : tasks[i]? = some task)
    (before : task.isWaiting = false) (after : next.isWaiting = false) :
    Waits waiters (tasks.set i next) := by
  refine ⟨waits.nodup, fun j => ?_⟩
  rw [waits.waiting, List.getElem?_set]
  split
  · rename_i same
    subst same
    rw [current]
    split <;> cases task <;> cases next <;> simp_all [Task.isWaiting]
  · rfl

theorem enqueue (waits : Waits waiters tasks) (current : tasks[i]? = some task)
    (before : task.isWaiting = false) (deadline : Nat) :
    Waits (waiters ++ [i]) (tasks.set i (.waiting deadline)) := by
  have new : i ∉ waiters := by
    intro member
    obtain ⟨_, waiting⟩ := (waits.waiting i).mp member
    rw [current, Option.some.injEq] at waiting
    simp [waiting, Task.isWaiting] at before
  have bound := (List.getElem?_eq_some_iff.mp current).1
  refine ⟨?_, fun j => ?_⟩
  · rw [List.nodup_append]
    exact ⟨waits.nodup, List.nodup_singleton i, fun a member b last => by
      rintro rfl
      exact new (List.mem_singleton.mp last ▸ member)⟩
  · rw [List.mem_append, List.mem_singleton, waits.waiting, List.getElem?_set]
    by_cases same : i = j
    · subst same
      simp [bound]
    · simp [same, Ne.symm same]

theorem leave (waits : Waits waiters tasks) (after : next.isWaiting = false) :
    Waits (waiters.erase i) (tasks.set i next) := by
  refine ⟨waits.nodup.erase i, fun j => ?_⟩
  rw [waits.nodup.mem_erase_iff, waits.waiting, List.getElem?_set]
  by_cases same : i = j
  · subst same
    split <;> cases next <;> simp_all [Task.isWaiting]
  · simp [same, Ne.symm same]

theorem accept (waits : Waits waiters tasks) : Waits waiters (tasks ++ [.free]) := by
  refine ⟨waits.nodup, fun j => ?_⟩
  rw [waits.waiting, List.getElem?_append]
  split
  · rfl
  · rename_i outside
    rw [List.getElem?_eq_none (Nat.le_of_not_lt outside)]
    cases rest : ([.free] : List Task)[j - tasks.length]? with
    | none => simp
    | some last =>
        have := List.mem_of_getElem? rest
        simp_all

theorem notifyOne (waits : Waits p.notify.waiters p.tasks) :
    Waits p.notifyOne.notify.waiters p.notifyOne.tasks := by
  unfold BrokerPool.notifyOne
  split
  · rename_i nobody
    exact nobody ▸ waits
  · rename_i first rest queue
    have left : Waits (p.notify.waiters.erase first) (p.tasks.set first .woken) := waits.leave rfl
    rwa [queue, List.erase_cons_head] at left

end Waits

@[simp] theorem notifyOne_idle : p.notifyOne.idle = p.idle := by unfold notifyOne; split <;> rfl
@[simp] theorem notifyOne_count : p.notifyOne.count = p.count := by unfold notifyOne; split <;> rfl
@[simp] theorem notifyOne_config : p.notifyOne.config = p.config := by unfold notifyOne; split <;> rfl
@[simp] theorem notifyOne_warmup : p.notifyOne.warmup = p.warmup := by unfold notifyOne; split <;> rfl
@[simp] theorem notifyOne_reaper : p.notifyOne.reaper = p.reaper := by unfold notifyOne; split <;> rfl
@[simp] theorem notifyOne_metrics : p.notifyOne.metrics = p.metrics := by
  unfold notifyOne; split <;> rfl
@[simp] theorem notifyOne_running : p.notifyOne.running = p.running := by
  unfold notifyOne; split <;> rfl
@[simp] theorem notifyOne_created : p.notifyOne.created = p.created := by
  unfold notifyOne; split <;> rfl

theorem notifyOne_now : p.notifyOne.now = p.now := by unfold notifyOne; split <;> rfl

theorem Waits.notifyOne_current (waits : Waits p.notify.waiters p.tasks)
    (current : p.tasks[i]? = some task) (before : task.isWaiting = false) :
    p.notifyOne.tasks[i]? = some task := by
  unfold BrokerPool.notifyOne
  split
  · exact current
  · rename_i first rest queue
    have other : first ≠ i := by
      rintro rfl
      obtain ⟨_, waiting⟩ := (waits.waiting first).mp (queue ▸ List.mem_cons_self)
      rw [current, Option.some.injEq] at waiting
      simp [waiting, Task.isWaiting] at before
    simpa [List.getElem?_set, other] using current

theorem Waits.total_notifyOne (share : Task → Nat) (waits : Waits p.notify.waiters p.tasks)
    (same : ∀ deadline, share (.waiting deadline) = share .woken) :
    total share p.notifyOne.tasks = total share p.tasks := by
  unfold BrokerPool.notifyOne
  split
  · rfl
  · rename_i first rest queue
    obtain ⟨deadline, waiting⟩ := (waits.waiting first).mp (queue ▸ List.mem_cons_self)
    exact total_set_eq waiting (same deadline).symm

theorem Move.total_tasks {action : TaskAction} (share : Task → Nat)
    (waits : Waits p.notify.waiters p.tasks) (current : p.tasks[i]? = some task)
    (move : Move p i task action q next) (same : ∀ deadline, share (.waiting deadline) = share .woken) :
    total share (q.put i next).tasks + share task = total share p.tasks + share next := by
  cases move with
  | notify =>
      rw [← waits.total_notifyOne share same]
      exact total_set share (waits.notifyOne_current current rfl) _
  | _ => exact total_set share current _

theorem Move.warmup {action : TaskAction} (move : Move p i task action q next) :
    q.warmup = p.warmup := by
  cases move with
  | notify => exact notifyOne_warmup
  | _ => rfl

theorem Waits.step {action : PoolAction} (waits : Waits p.notify.waiters p.tasks)
    (taken : p.step action = some q) : Waits q.notify.waiters q.tasks := by
  cases Change.of_step taken with
  | task current move =>
      cases move with
      | enqueue none => exact waits.enqueue current rfl _
      | timeout late => exact waits.leave rfl
      | notify => exact waits.notifyOne.set (waits.notifyOne_current current rfl) rfl rfl
      | _ => exact waits.set current rfl rfl
  | accept warm => exact waits.accept
  | reapNotify subtracted => exact waits.notifyOne
  | _ => exact waits

theorem waits_of_reach {config : PoolLimits} {metrics : Metrics}
    {allowed : BrokerPool → PoolAction → Prop} (reach : (system config metrics).Reach allowed p) :
    Waits p.notify.waiters p.tasks := by
  induction reach with
  | initial first =>
      rw [first]
      exact ⟨List.nodup_nil, by simp [new]⟩
  | next _ _ action ih => exact ih.step action

end KafkaProxy.BrokerPool
