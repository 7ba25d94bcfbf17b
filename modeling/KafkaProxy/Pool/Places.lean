import KafkaProxy.Pool.Held

/-!
# The places of the connections

A connection is in the queue, with a task, or in the hands of the warmup. No step puts a connection
in a second place, so what the places hold grows only by a connection that is opened.
-/

namespace KafkaProxy
open Library

def Task.conn : Task → Option Acquired
  | .created conn | .leased conn | .releasing conn _ => some conn
  | .free | .tryIdle | .tryCreate | .creating | .rollback | .full | .waiting _ | .woken | .released =>
      none

namespace BrokerPool

def weight (share : Acquired → Nat) (conn : Option Acquired) : Nat := conn.elim 0 share

def places (share : Acquired → Nat) (p : BrokerPool) : Nat :=
  total (fun conn : PooledConn => share conn.toAcquired) p.idle +
    total (fun task => weight share task.conn) p.tasks + weight share p.warmup.ready

variable {share : Acquired → Nat} {p q : BrokerPool} {action : PoolAction} {i : Nat} {task next : Task}

@[simp] theorem weight_none : weight share none = 0 := rfl
@[simp] theorem weight_some (conn : Acquired) : weight share (some conn) = share conn := rfl

theorem Move.places_le {taskAction : TaskAction} (share : Acquired → Nat)
    (waits : Waits p.notify.waiters p.tasks) (current : p.tasks[i]? = some task)
    (move : Move p i task taskAction q next) :
    (q.put i next).places share ≤ p.places share + weight share (opens (.task i taskAction)) := by
  have tasks := move.total_tasks (fun task => weight share task.conn) waits current fun _ => rfl
  have warmup : (q.put i next).warmup = p.warmup := move.warmup
  simp only [places, warmup, put_idle]
  cases move with
  | reuse unlocked queue live | bury unlocked queue dead =>
      simp only [queue, total_cons, Task.conn, weight_some, weight_none, opens] at tasks ⊢
      omega
  | push unlocked room =>
      simp only [total_append, total_cons, total_nil, Task.conn, weight_some, weight_none, opens]
        at tasks ⊢
      omega
  | connect fresh =>
      simp only [spawn, Task.conn, weight_some, weight_none, opens] at tasks ⊢
      omega
  | notify =>
      simp only [notifyOne_idle, Task.conn, weight_none, opens] at tasks ⊢
      omega
  | _ =>
      simp only [Task.conn, weight_some, weight_none, opens] at tasks ⊢
      omega

theorem Change.places_le (share : Acquired → Nat) (waits : Waits p.notify.waiters p.tasks)
    (change : Change p action q) : q.places share ≤ p.places share + weight share (opens action) := by
  cases change with
  | task current move => exact move.places_le share waits current
  | warm left fresh =>
      simp only [places, spawn, left, opens, weight_none]
      omega
  | warmFail left => simp [places, left]
  | warmPush ready =>
      simp only [places, ready, total_append, total_cons, total_nil, weight_some, weight_none]
      omega
  | accept warm => simp [places, total_append, Task.conn]
  | reap warm resting due =>
      have fewer := total_filter_le (fun conn : PooledConn => share conn.toAcquired) p.keeps p.idle
      simp only [places]
      omega
  | reapNotify subtracted =>
      have same := waits.total_notifyOne (fun task => weight share task.conn) fun _ => rfl
      simp [places, same]
  | tick elapsed | subtract evicted | ended runs => exact Nat.le_add_right _ _

end BrokerPool
end KafkaProxy
