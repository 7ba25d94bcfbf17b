import KafkaProxy.Library.System
import KafkaProxy.Library.Total
import KafkaProxy.Metrics
import KafkaProxy.Remap.Basic

/-!
# The connection pool of one broker

Each lock is taken for a short section and never across an await, except that the reaper keeps the
lock of the idle queue for its whole tick. A step of a task is what it does under one lock, or up
to the next await. Time is in milliseconds.
-/

namespace KafkaProxy
open Library

structure PoolLimits where
  maxPerBroker : Nat
  minIdle : Nat
  idleTimeout : Nat
  acquireTimeout : Nat
  deriving DecidableEq, Repr

/-- `writeTx` is the number of the connection whose write channel this is. -/
structure Acquired where
  writeTx : Nat
  connId : ConnId
  deriving DecidableEq, Repr

structure PooledConn extends Acquired where
  alive : Bool
  lastUsed : Nat
  deriving DecidableEq, Repr

structure Notify where
  permit : Bool
  waiters : List Nat
  deriving DecidableEq, Repr

/-- Where a client's task stands in `acquire` and `release`. Between them it is `leased`. -/
inductive Task where
  | free
  | tryIdle
  | tryCreate
  | creating
  | created (conn : Acquired)
  | rollback
  | full
  | waiting (deadline : Nat)
  | woken
  | leased (conn : Acquired)
  | releasing (conn : Acquired) (lastUsed : Nat)
  | released
  deriving DecidableEq, Repr

def Task.isWaiting : Task → Bool
  | .waiting _ => true
  | _ => false

structure Warmup where
  remaining : Nat
  ready : Option Acquired
  deriving DecidableEq, Repr

inductive Reaper where
  | resting
  | evicted (removed : Nat)
  | subtracted
  deriving DecidableEq, Repr

/-- `running` has the connections whose write loop has not returned. `created` is history. -/
structure BrokerPool where
  config : PoolLimits
  idle : List PooledConn
  count : Nat
  notify : Notify
  metrics : Metrics
  now : Nat
  warmup : Warmup
  reaper : Reaper
  nextScan : Nat
  tasks : List Task
  running : List Nat
  created : List Nat
  deriving DecidableEq, Repr

inductive TaskAction where
  | acquire
  | tryIdle
  | tryCreate
  | connect (conn : Acquired)
  | connectFail
  | hand
  | rollback
  | wait
  | timeout
  | resume
  | release
  | push
  | notify
  | drop
  deriving DecidableEq, Repr

inductive PoolAction where
  | tick (elapsed : Nat)
  | warm (conn : Acquired)
  | warmFail
  | warmPush
  | accept
  | task (i : Nat) (action : TaskAction)
  | reap
  | subtract
  | reapNotify
  | ended (writeTx : Nat)
  deriving DecidableEq, Repr

def scanPeriod : Nat := 10000

namespace BrokerPool

def new (config : PoolLimits) (metrics : Metrics) : BrokerPool :=
  { config, idle := [], count := 0, notify := ⟨false, []⟩, metrics, now := 0,
    warmup := ⟨config.minIdle, none⟩, reaper := .resting, nextScan := 0, tasks := [], running := [],
    created := [] }

def warmedUp (p : BrokerPool) : Bool := p.warmup.remaining = 0 && p.warmup.ready.isNone

def idleLocked (p : BrokerPool) : Bool := p.reaper ≠ .resting

def spawn (p : BrokerPool) (conn : Acquired) : BrokerPool :=
  { p with running := conn.writeTx :: p.running, created := conn.writeTx :: p.created }

def put (p : BrokerPool) (i : Nat) (task : Task) : BrokerPool :=
  { p with tasks := p.tasks.set i task }

/-- Without a waiter the permit is stored, and a second one is lost. -/
def notifyOne (p : BrokerPool) : BrokerPool :=
  match p.notify.waiters with
  | [] => { p with notify := { p.notify with permit := true } }
  | first :: rest =>
      { p with notify := { p.notify with waiters := rest }, tasks := p.tasks.set first .woken }

def taskStep (p : BrokerPool) (i : Nat) (task : Task) : TaskAction → Option (BrokerPool × Task)
  | .acquire =>
      match task with
      | .free => some (p, .tryIdle)
      | _ => none
  | .tryIdle =>
      match task with
      | .tryIdle =>
          if p.idleLocked then none
          else
            match p.idle with
            | conn :: rest =>
                -- A connection that is not alive is dropped here.
                if conn.alive then some ({ p with idle := rest }, .leased conn.toAcquired)
                else some ({ p with idle := rest }, .tryCreate)
            | [] => some (p, .tryCreate)
      | _ => none
  | .tryCreate =>
      match task with
      | .tryCreate =>
          if p.count < p.config.maxPerBroker then some ({ p with count := p.count + 1 }, .creating)
          else some (p, .full)
      | _ => none
  | .connect conn =>
      match task with
      | .creating => if conn.writeTx ∈ p.created then none else some (p.spawn conn, .created conn)
      | _ => none
  | .connectFail =>
      match task with
      | .creating => some (p, .rollback)
      | _ => none
  | .hand =>
      match task with
      | .created conn => some ({ p with metrics := p.metrics.incUpstreamConnections }, .leased conn)
      | _ => none
  | .rollback =>
      match task with
      | .rollback => some ({ p with count := usizeSub p.count 1 }, .free)
      | _ => none
  | .wait =>
      match task with
      | .full =>
          if p.notify.permit then some ({ p with notify := { p.notify with permit := false } }, .woken)
          else
            some ({ p with notify := { p.notify with waiters := p.notify.waiters ++ [i] } },
              .waiting (p.now + p.config.acquireTimeout))
      | _ => none
  | .timeout =>
      match task with
      | .waiting deadline =>
          if deadline ≤ p.now then
            some ({ p with notify := { p.notify with waiters := p.notify.waiters.erase i } }, .free)
          else none
      | _ => none
  | .resume =>
      match task with
      | .woken => some (p, .tryIdle)
      | _ => none
  | .release =>
      match task with
      | .leased conn => some (p, .releasing conn p.now)
      | _ => none
  | .push =>
      match task with
      | .releasing conn lastUsed =>
          if p.idleLocked then none
          else if p.idle.length < p.config.maxPerBroker then
            some ({ p with idle := p.idle ++ [⟨conn, true, lastUsed⟩] }, .released)
          else some (p, .released)
      | _ => none
  | .notify =>
      match task with
      | .released => some (p.notifyOne, .free)
      | _ => none
  | .drop =>
      match task with
      -- The send has failed, so the write loop has returned and dropped its receiver.
      | .leased conn => if conn.writeTx ∈ p.running then none else some (p, .free)
      | _ => none

def keeps (p : BrokerPool) (conn : PooledConn) : Bool :=
  !(p.config.idleTimeout ≤ p.now - conn.lastUsed || !conn.alive)

def step (p : BrokerPool) : PoolAction → Option BrokerPool
  | .tick elapsed => some { p with now := p.now + elapsed }
  | .warm conn =>
      match p.warmup with
      | ⟨remaining + 1, none⟩ =>
          if conn.writeTx ∈ p.created then none
          else some { p.spawn conn with warmup := ⟨remaining, some conn⟩ }
      | _ => none
  | .warmFail =>
      match p.warmup with
      | ⟨_ + 1, none⟩ => some { p with warmup := ⟨0, none⟩ }
      | _ => none
  | .warmPush =>
      match p.warmup with
      | ⟨remaining, some conn⟩ =>
          some { p with
            metrics := p.metrics.incUpstreamConnections
            idle := p.idle ++ [⟨conn, true, p.now⟩]
            warmup := ⟨remaining, none⟩ }
      | _ => none
  | .accept => if p.warmedUp then some { p with tasks := p.tasks ++ [.free] } else none
  | .task i action =>
      match p.tasks[i]? with
      | some task =>
          (p.taskStep i task action).map fun (q, next) => q.put i next
      | none => none
  | .reap =>
      if p.warmedUp && p.reaper = .resting && p.nextScan ≤ p.now then
        let kept := p.idle.filter p.keeps
        let removed := p.idle.length - kept.length
        some { p with
          idle := kept
          metrics := Metrics.decUpstreamConnections^[removed] p.metrics
          reaper := if 0 < removed then .evicted removed else .resting
          nextScan := p.nextScan + scanPeriod }
      else none
  | .subtract =>
      match p.reaper with
      | .evicted removed => some { p with count := p.count - removed, reaper := .subtracted }
      | _ => none
  | .reapNotify =>
      match p.reaper with
      | .subtracted => some { p.notifyOne with reaper := .resting }
      | _ => none
  | .ended writeTx =>
      if writeTx ∈ p.running then
        some { p with
          running := p.running.erase writeTx
          metrics := p.metrics.decUpstreamConnections }
      else none

def system (config : PoolLimits) (metrics : Metrics) : System BrokerPool PoolAction where
  initial p := p = .new config metrics
  step := step

end BrokerPool
end KafkaProxy
