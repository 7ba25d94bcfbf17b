import KafkaProxy.Pool.Cap

/-!
# The sending halves of the write channels

A connection whose sending half nobody holds is closed by its write loop. The half moves between the
queue, a task and the warmup, and the pool lets go of it without a look at the requests in flight.
-/

namespace KafkaProxy
open Library

namespace BrokerPool

def discarded (p : BrokerPool) : PoolAction → List Nat
  | .reap => (p.idle.filter fun conn => !p.keeps conn).map (·.writeTx)
  | .task i .push =>
      match p.tasks[i]? with
      | some (.releasing conn _) =>
          if p.config.maxPerBroker ≤ p.idle.length then [conn.writeTx] else []
      | _ => []
  | _ => []

def opens : PoolAction → Option Acquired
  | .warm conn | .task _ (.connect conn) => some conn
  | _ => none

variable {p q : BrokerPool} {action : PoolAction} {i k : Nat} {task next : Task}

theorem mem_held : k ∈ p.held ↔ (∃ conn ∈ p.idle, conn.writeTx = k) ∨
    (∃ (j : Nat) (task : Task), p.tasks[j]? = some task ∧ task.writeTx = some k) ∨
      ∃ conn, p.warmup.ready = some conn ∧ conn.writeTx = k := by
  rw [held, List.mem_append, List.mem_append, List.mem_map, List.mem_filterMap, List.mem_map, or_assoc]
  simp only [Option.mem_toList]
  refine or_congr_right (or_congr_left ⟨?_, ?_⟩)
  · rintro ⟨task, member, own⟩
    obtain ⟨j, there⟩ := List.mem_iff_getElem?.mp member
    exact ⟨j, task, there, own⟩
  · rintro ⟨j, task, there, own⟩
    exact ⟨task, List.mem_of_getElem? there, own⟩

theorem Waits.writeTx_notifyOne (waits : Waits p.notify.waiters p.tasks) {j : Nat}
    (there : p.tasks[j]? = some task) (own : task.writeTx = some k) :
    p.notifyOne.tasks[j]? = some task := by
  apply waits.notifyOne_current there
  cases task <;> simp_all [Task.writeTx, Task.isWaiting]

theorem writeTx_of_notifyOne {j : Nat} (there : p.notifyOne.tasks[j]? = some task)
    (own : task.writeTx = some k) : p.tasks[j]? = some task := by
  unfold notifyOne at there
  split at there
  · exact there
  · rw [List.getElem?_set] at there
    split at there
    · split at there <;> cases there
      cases own
    · exact there

theorem Move.tasks_other {taskAction : TaskAction} (waits : Waits p.notify.waiters p.tasks)
    (move : Move p i task taskAction q next) {j : Nat} {other : Task} (apart : j ≠ i)
    (there : p.tasks[j]? = some other) (own : other.writeTx = some k) :
    (q.put i next).tasks[j]? = some other := by
  rw [put, List.getElem?_set_ne apart.symm]
  cases move with
  | notify => exact waits.writeTx_notifyOne there own
  | _ => exact there

theorem Move.held {taskAction : TaskAction} (alive : ∀ conn ∈ p.idle, conn.alive = true)
    (waits : Waits p.notify.waiters p.tasks) (current : p.tasks[i]? = some task)
    (move : Move p i task taskAction q next) (member : k ∈ p.held) :
    k ∈ (q.put i next).held ∨ k ∈ p.discarded (.task i taskAction) ∨
      ∃ conn, taskAction = .drop ∧ task = .leased conn ∧ conn.writeTx = k := by
  have after (own : next.writeTx = some k) : k ∈ (q.put i next).held := by
    apply mem_held.mpr
    apply Or.inr
    apply Or.inl
    refine ⟨i, next, ?_, own⟩
    have bound := (List.getElem?_eq_some_iff.mp current).1
    cases move with
    | notify => cases own
    | _ => simp [put, BrokerPool.spawn, bound]
  obtain ⟨conn, queued, own⟩ | ⟨j, other, there, own⟩ | ⟨conn, ready, own⟩ := mem_held.mp member
  · have stays (same : q.idle = p.idle) : k ∈ (q.put i next).held :=
      mem_held.mpr (.inl ⟨conn, same ▸ queued, own⟩)
    cases move with
    | @reuse head rest unlocked queue live =>
        obtain rfl | later := List.mem_cons.mp (queue ▸ queued)
        · exact .inl (after (congrArg some own))
        · exact .inl (mem_held.mpr (.inl ⟨conn, later, own⟩))
    | @bury head rest unlocked queue dead =>
        have live := alive head (queue ▸ List.mem_cons_self)
        rw [dead] at live
        cases live
    | push unlocked room =>
        exact .inl (mem_held.mpr (.inl ⟨conn, List.mem_append_left _ queued, own⟩))
    | notify => exact .inl (stays notifyOne_idle)
    | _ => exact .inl (stays rfl)
  · by_cases apart : j = i
    · subst apart
      cases current.symm.trans there
      cases move with
      | hand => exact .inl (after own)
      | release => exact .inl (after own)
      | @push conn lastUsed unlocked room =>
          refine .inl (mem_held.mpr (.inl ⟨⟨conn, true, lastUsed⟩, List.mem_concat_self, ?_⟩))
          exact Option.some.inj own
      | discard unlocked full =>
          rw [Task.writeTx, Option.some.injEq] at own
          exact .inr (.inl (by simp [discarded, current, full, own]))
      | drop ended => exact .inr (.inr ⟨_, rfl, rfl, Option.some.inj own⟩)
      | _ => cases own
    · exact .inl (mem_held.mpr (.inr (.inl ⟨j, other, move.tasks_other waits apart there own, own⟩)))
  · have kept : (q.put i next).warmup = p.warmup := move.warmup
    exact .inl (mem_held.mpr (.inr (.inr ⟨conn, kept ▸ ready, own⟩)))

theorem Change.held (alive : ∀ conn ∈ p.idle, conn.alive = true)
    (waits : Waits p.notify.waiters p.tasks) (change : Change p action q) (member : k ∈ p.held) :
    k ∈ q.held ∨ k ∈ p.discarded action ∨
      ∃ i conn, action = .task i .drop ∧ p.tasks[i]? = some (.leased conn) ∧ conn.writeTx = k := by
  cases change with
  | task current move =>
      obtain kept | discards | ⟨conn, rfl, rfl, own⟩ := move.held alive waits current member
      · exact .inl kept
      · exact .inr (.inl discards)
      · exact .inr (.inr ⟨_, conn, rfl, current, own⟩)
  | tick elapsed => exact .inl member
  | ended runs => exact .inl member
  | subtract evicted => exact .inl member
  | warm left fresh =>
      left
      rw [mem_held] at member ⊢
      simp only [left, reduceCtorEq, false_and, exists_false, or_false] at member
      exact member.imp_right .inl
  | warmFail left =>
      left
      rw [mem_held] at member ⊢
      simpa [left] using member
  | @warmPush ready remaining there =>
      left
      rw [mem_held] at member ⊢
      simp only [there, Option.some.injEq] at member
      obtain ⟨conn, queued, own⟩ | tasks | ⟨conn, rfl, own⟩ := member
      · exact .inl ⟨conn, List.mem_append_left _ queued, own⟩
      · exact .inr (.inl tasks)
      · exact .inl ⟨_, List.mem_concat_self, own⟩
  | accept warm =>
      left
      rw [mem_held] at member ⊢
      obtain queued | ⟨j, task, there, own⟩ | ready := member
      · exact .inl queued
      · exact .inr (.inl ⟨j, task, by rw [List.getElem?_append_left
          (List.getElem?_eq_some_iff.mp there).1, there], own⟩)
      · exact .inr (.inr ready)
  | reap warm resting due =>
      rw [mem_held] at member
      obtain ⟨conn, queued, own⟩ | tasks | ready := member
      · by_cases keeps : p.keeps conn = true
        · exact .inl (mem_held.mpr (.inl ⟨conn, List.mem_filter.mpr ⟨queued, keeps⟩, own⟩))
        · refine .inr (.inl (List.mem_map.mpr ⟨conn, List.mem_filter.mpr ⟨queued, ?_⟩, own⟩))
          simpa using keeps
      · exact .inl (mem_held.mpr (.inr (.inl tasks)))
      · exact .inl (mem_held.mpr (.inr (.inr ready)))
  | reapNotify subtracted =>
      left
      rw [mem_held] at member ⊢
      simp only [notifyOne_idle, notifyOne_warmup]
      obtain queued | ⟨j, task, there, own⟩ | ready := member
      · exact .inl queued
      · exact .inr (.inl ⟨j, task, waits.writeTx_notifyOne there own, own⟩)
      · exact .inr (.inr ready)

theorem Move.held_or_new {taskAction : TaskAction} (current : p.tasks[i]? = some task)
    (move : Move p i task taskAction q next) (member : k ∈ (q.put i next).held) :
    k ∈ p.held ∨ ∃ conn ∈ opens (.task i taskAction), conn.writeTx = k := by
  have before (own : task.writeTx = some k) : k ∈ p.held :=
    mem_held.mpr (.inr (.inl ⟨i, task, current, own⟩))
  obtain ⟨conn, queued, own⟩ | ⟨j, other, there, own⟩ | ⟨conn, ready, own⟩ := mem_held.mp member
  · have stayed (same : q.idle = p.idle) : k ∈ p.held :=
      mem_held.mpr (.inl ⟨conn, same ▸ queued, own⟩)
    cases move with
    | reuse unlocked queue live =>
        exact .inl (mem_held.mpr (.inl ⟨conn, queue ▸ List.mem_cons_of_mem _ queued, own⟩))
    | bury unlocked queue dead =>
        exact .inl (mem_held.mpr (.inl ⟨conn, queue ▸ List.mem_cons_of_mem _ queued, own⟩))
    | push unlocked room =>
        obtain old | new := List.mem_append.mp queued
        · exact .inl (mem_held.mpr (.inl ⟨conn, old, own⟩))
        · rw [List.mem_singleton.mp new] at own
          exact .inl (before (congrArg some own))
    | notify => exact .inl (stayed notifyOne_idle)
    | _ => exact .inl (stayed rfl)
  · rw [put, List.getElem?_set] at there
    split at there
    · split at there <;> cases there
      cases move with
      | @reuse conn rest unlocked queue live =>
          refine .inl (mem_held.mpr (.inl ⟨conn, queue ▸ List.mem_cons_self, ?_⟩))
          exact Option.some.inj own
      | connect fresh => exact .inr ⟨_, rfl, Option.some.inj own⟩
      | hand => exact .inl (before own)
      | release => exact .inl (before own)
      | _ => cases own
    · have stayed (same : q.tasks = p.tasks) : k ∈ p.held :=
        mem_held.mpr (.inr (.inl ⟨j, other, same ▸ there, own⟩))
      cases move with
      | notify =>
          exact .inl (mem_held.mpr (.inr (.inl ⟨j, other, writeTx_of_notifyOne there own, own⟩)))
      | _ => exact .inl (stayed rfl)
  · exact .inl (mem_held.mpr (.inr (.inr ⟨conn, move.warmup ▸ ready, own⟩)))

theorem Change.held_or_new (change : Change p action q) (member : k ∈ q.held) :
    k ∈ p.held ∨ ∃ conn ∈ opens action, conn.writeTx = k := by
  cases change with
  | task current move => exact move.held_or_new current member
  | tick elapsed => exact .inl member
  | ended runs => exact .inl member
  | subtract evicted => exact .inl member
  | warm left fresh =>
      obtain queued | tasks | ⟨conn, ready, own⟩ := mem_held.mp member
      · exact .inl (mem_held.mpr (.inl queued))
      · exact .inl (mem_held.mpr (.inr (.inl tasks)))
      · exact .inr ⟨conn, ready, own⟩
  | warmFail left =>
      obtain queued | tasks | ⟨conn, ready, _⟩ := mem_held.mp member
      · exact .inl (mem_held.mpr (.inl queued))
      · exact .inl (mem_held.mpr (.inr (.inl tasks)))
      · cases ready
  | @warmPush first remaining ready =>
      obtain ⟨conn, queued, own⟩ | tasks | ⟨conn, none, _⟩ := mem_held.mp member
      · obtain old | new := List.mem_append.mp queued
        · exact .inl (mem_held.mpr (.inl ⟨conn, old, own⟩))
        · rw [List.mem_singleton.mp new] at own
          exact .inl (mem_held.mpr (.inr (.inr ⟨first, by rw [ready], own⟩)))
      · exact .inl (mem_held.mpr (.inr (.inl tasks)))
      · cases none
  | accept warm =>
      obtain queued | ⟨j, task, there, own⟩ | ready := mem_held.mp member
      · exact .inl (mem_held.mpr (.inl queued))
      · obtain old | new := List.mem_append.mp (List.mem_of_getElem? there)
        · obtain ⟨l, before⟩ := List.mem_iff_getElem?.mp old
          exact .inl (mem_held.mpr (.inr (.inl ⟨l, task, before, own⟩)))
        · rw [List.mem_singleton.mp new] at own
          cases own
      · exact .inl (mem_held.mpr (.inr (.inr ready)))
  | reap warm resting due =>
      obtain ⟨conn, queued, own⟩ | tasks | ready := mem_held.mp member
      · exact .inl (mem_held.mpr (.inl ⟨conn, List.mem_of_mem_filter queued, own⟩))
      · exact .inl (mem_held.mpr (.inr (.inl tasks)))
      · exact .inl (mem_held.mpr (.inr (.inr ready)))
  | reapNotify subtracted =>
      obtain ⟨conn, queued, own⟩ | ⟨j, task, there, own⟩ | ⟨conn, ready, own⟩ := mem_held.mp member
      · exact .inl (mem_held.mpr (.inl ⟨conn, notifyOne_idle ▸ queued, own⟩))
      · exact .inl (mem_held.mpr (.inr (.inl ⟨j, task, writeTx_of_notifyOne there own, own⟩)))
      · exact .inl (mem_held.mpr (.inr (.inr ⟨conn, notifyOne_warmup ▸ ready, own⟩)))

theorem Change.opens_held (change : Change p action q) {conn : Acquired}
    (opened : conn ∈ opens action) : conn.writeTx ∈ q.held := by
  cases change with
  | warm left fresh =>
      cases opened
      exact mem_held.mpr (.inr (.inr ⟨_, rfl, rfl⟩))
  | @task i before after taskAction r current move =>
      cases move with
      | @connect conn fresh =>
          cases opened
          have bound := (List.getElem?_eq_some_iff.mp current).1
          refine mem_held.mpr (.inr (.inl ⟨i, .created conn, ?_, rfl⟩))
          simp [put, BrokerPool.spawn, bound]
      | _ => cases opened
  | _ => cases opened

theorem Change.leased (waits : Waits p.notify.waiters p.tasks) (change : Change p action q)
    {conn : Acquired} (leased : p.tasks[i]? = some (.leased conn)) :
    q.tasks[i]? = some (.leased conn) ∨ action = .task i .release ∨ action = .task i .drop := by
  cases change with
  | @task j before after taskAction r current move =>
      by_cases apart : i = j
      · subst apart
        cases leased.symm.trans current
        cases move with
        | release => exact .inr (.inl rfl)
        | drop ended => exact .inr (.inr rfl)
      · exact .inl (move.tasks_other waits apart leased rfl)
  | accept warm =>
      left
      rw [List.getElem?_append_left (List.getElem?_eq_some_iff.mp leased).1]
      exact leased
  | reapNotify subtracted => exact .inl (waits.writeTx_notifyOne leased rfl)
  | _ => exact .inl leased

end BrokerPool
end KafkaProxy
