import KafkaProxy.Metrics.Series
import KafkaProxy.Pool.Gauge

/-!
# What the pool reports of itself

The record of a run has the whole set of metrics, updated where the pool updates it, the times that the
durations are measured from, and how the calls of `acquire` have ended.
-/

namespace KafkaProxy
open Library

def Task.isAcquiring : Task → Bool
  | .tryIdle | .tryCreate | .creating | .created _ | .rollback | .full | .waiting _ | .woken => true
  | .free | .leased _ | .releasing .. | .released => false

def Task.isOpening : Task → Bool
  | .creating | .created _ | .rollback => true
  | .free | .tryIdle | .tryCreate | .full | .waiting _ | .woken | .leased _ | .releasing ..
  | .released => false

def Task.isUnshaken : Task → Bool
  | .creating | .rollback => true
  | .free | .tryIdle | .tryCreate | .created _ | .full | .waiting _ | .woken | .leased _
  | .releasing .. | .released => false

def Task.isQueued : Task → Bool
  | .waiting _ | .woken => true
  | .free | .tryIdle | .tryCreate | .creating | .created _ | .rollback | .full | .leased _
  | .releasing .. | .released => false

/-- `started`, `connecting` and `warming` are times. What follows them is history. -/
structure Statistics where
  metrics : AllMetrics
  started : Nat → Nat
  connecting : Nat → Nat
  warming : Nat
  calls : Nat
  served : Nat
  timedOut : Nat
  retried : Nat
  warmed : Nat
  evicted : Nat

namespace Statistics

def new : Statistics :=
  { metrics := .new true, started := fun _ => 0, connecting := fun _ => 0, warming := 0, calls := 0,
    served := 0, timedOut := 0, retried := 0, warmed := 0, evicted := 0 }

end Statistics

namespace BrokerPool

def hits (p : BrokerPool) : Bool :=
  match p.idle with
  | conn :: _ => conn.alive
  | [] => false

def hasRoom (p : BrokerPool) : Bool := p.count < p.config.maxPerBroker

def elapsedSecs (p : BrokerPool) (since : Nat) : ℚ := ((p.now - since : Nat) : ℚ) / 1000

/-- The updates of the metrics in one step. `left` has for each connection the number of its requests
that its write loop takes from the table at the end. -/
def operations (left : Nat → Nat) (p : BrokerPool) (statistics : Statistics) :
    PoolAction → List Operation
  | .warm _ => [.handshake (p.elapsedSecs statistics.warming)]
  | .warmPush => [.warmed]
  | .task i .tryIdle => if p.hits then [.acquireHit (p.elapsedSecs (statistics.started i))] else []
  | .task i .tryCreate =>
      if p.hasRoom then [.acquireMiss (p.elapsedSecs (statistics.started i))] else []
  | .task i (.connect _) => [.handshake (p.elapsedSecs (statistics.connecting i))]
  | .task _ .hand => [.acquireCreated]
  | .task _ .rollback => [.acquireFailed]
  | .task _ .wait => [.acquireWaits]
  | .task _ .timeout => [.acquireWaited]
  | .task i .resume => [.acquireWaited, .acquireWoken (p.elapsedSecs (statistics.started i))]
  | .reap => [.evicted (p.evicts .reap)]
  | .ended writeTx => [.writeLoopEnded (left writeTx)]
  | _ => []

def noteCall (p : BrokerPool) (action : PoolAction) (statistics : Statistics) : Statistics :=
  match action with
  | .warm _ => { statistics with warmed := statistics.warmed + 1 }
  | .warmPush => { statistics with warming := p.now }
  | .task i .acquire =>
      { statistics with
        started := Function.update statistics.started i p.now
        calls := statistics.calls + 1 }
  | .task i .tryCreate =>
      { statistics with connecting := Function.update statistics.connecting i p.now }
  | .task _ .tryIdle => { statistics with served := statistics.served + p.hits.toNat }
  | .task _ .hand => { statistics with served := statistics.served + 1 }
  | .task _ .timeout => { statistics with timedOut := statistics.timedOut + 1 }
  | .task _ .resume => { statistics with retried := statistics.retried + 1 }
  | .reap => { statistics with evicted := statistics.evicted + p.evicts .reap }
  | _ => statistics

def noteStatistics (left : Nat → Nat) (p : BrokerPool) (action : PoolAction) (statistics : Statistics) :
    Statistics :=
  { p.noteCall action statistics with
    metrics := statistics.metrics.perform (p.operations left statistics action) }

def reporting (config : PoolLimits) (left : Nat → Nat) : System (BrokerPool × Statistics) PoolAction :=
  (system config (.new true)).watch .new (noteStatistics left)

structure Answered (p : BrokerPool) (statistics : Statistics) (reads : Series → Int) : Prop where
  looked : reads .poolHits + reads .poolMisses =
    statistics.served + reads .authFailures + p.tasks.countP Task.isOpening
  called : statistics.calls =
    statistics.served + reads .authFailures + statistics.timedOut + p.tasks.countP Task.isAcquiring
  waiters : reads .poolWaiters = p.tasks.countP Task.isQueued
  acquires : reads .acquires = reads .poolHits + reads .poolMisses + statistics.retried

structure Opened (p : BrokerPool) (statistics : Statistics) (reads : Series → Int) : Prop where
  missed : reads .poolMisses + statistics.warmed =
    p.created.length + reads .authFailures + p.tasks.countP Task.isUnshaken
  handshakes : reads .handshakes = p.created.length
  evictions : reads .poolEvictions + p.running.length = p.created.length + statistics.evicted
  upstream : reads .upstreamConnections = p.metrics.upstreamConnections

variable {left : Nat → Nat} {p q : BrokerPool} {i : Nat} {task next : Task} {action : PoolAction}
  {statistics : Statistics} {reads : Series → Int}

/-! ## The effect of a step -/

theorem Move.countP_tasks {taskAction : TaskAction} (test : Task → Bool)
    (waits : Waits p.notify.waiters p.tasks) (current : p.tasks[i]? = some task)
    (move : Move p i task taskAction q next) (same : ∀ deadline, test (.waiting deadline) = test .woken) :
    (q.put i next).tasks.countP test + (test task).toNat = p.tasks.countP test + (test next).toNat := by
  have moved := move.total_tasks (fun task => (test task).toNat) waits current fun deadline =>
    congrArg Bool.toNat (same deadline)
  rwa [total_toNat, total_toNat] at moved

def adds (left : Nat → Nat) (p : BrokerPool) (statistics : Statistics) (action : PoolAction)
    (series : Series) : Int :=
  ((p.operations left statistics action).map (·.adds series)).sum

section Steps

attribute [local simp] adds noteCall operations Operation.adds

theorem hits_of_queue {conn : PooledConn} {rest : List PooledConn} (queue : p.idle = conn :: rest) :
    p.hits = conn.alive := by
  rw [hits, queue]

theorem hits_of_empty (queue : p.idle = []) : p.hits = false := by
  rw [hits, queue]

theorem countP_notifyOne (test : Task → Bool) (waits : Waits p.notify.waiters p.tasks)
    (same : ∀ deadline, test (.waiting deadline) = test .woken) :
    p.notifyOne.tasks.countP test = p.tasks.countP test := by
  have moved := waits.total_notifyOne (fun task => (test task).toNat) fun deadline =>
    congrArg Bool.toNat (same deadline)
  rwa [total_toNat, total_toNat] at moved

theorem Answered.move {taskAction : TaskAction} (answered : Answered p statistics reads)
    (waits : Waits p.notify.waiters p.tasks) (current : p.tasks[i]? = some task)
    (move : Move p i task taskAction q next) :
    Answered (q.put i next) (p.noteCall (.task i taskAction) statistics) fun series =>
      reads series + p.adds left statistics (.task i taskAction) series := by
  have opening := move.countP_tasks Task.isOpening waits current fun _ => rfl
  have acquiring := move.countP_tasks Task.isAcquiring waits current fun _ => rfl
  have queued := move.countP_tasks Task.isQueued waits current fun _ => rfl
  obtain ⟨looked, called, waiters, acquires⟩ := answered
  generalize q.put i next = r at *
  cases move <;> simp only [Task.isOpening, Task.isAcquiring, Task.isQueued, Bool.toNat_true,
    Bool.toNat_false] at opening acquiring queued
  case reuse conn rest unlocked queue alive =>
    have hits := (hits_of_queue queue).trans alive
    constructor <;> simp [hits] <;> omega
  case bury conn rest unlocked queue dead =>
    have hits := (hits_of_queue queue).trans dead
    constructor <;> simp [hits] <;> omega
  case miss unlocked queue =>
    have hits := hits_of_empty queue
    constructor <;> simp [hits] <;> omega
  case reserve room =>
    have room : p.hasRoom = true := decide_eq_true room
    constructor <;> simp [room] <;> omega
  case refuse full =>
    have room : p.hasRoom = false := decide_eq_false (Nat.not_lt.mpr full)
    constructor <;> simp [room] <;> omega
  all_goals constructor <;> simp <;> omega

theorem Opened.move {taskAction : TaskAction} (opened : Opened p statistics reads)
    (waits : Waits p.notify.waiters p.tasks) (current : p.tasks[i]? = some task)
    (move : Move p i task taskAction q next) :
    Opened (q.put i next) (p.noteCall (.task i taskAction) statistics) fun series =>
      reads series + p.adds left statistics (.task i taskAction) series := by
  have unshaken := move.countP_tasks Task.isUnshaken waits current fun _ => rfl
  obtain ⟨missed, handshakes, evictions, upstream⟩ := opened
  have created : (q.put i next).created = q.created := rfl
  have running : (q.put i next).running = q.running := rfl
  have gauge : (q.put i next).metrics = q.metrics := rfl
  generalize q.put i next = r at *
  cases move <;> simp only [Task.isUnshaken, Bool.toNat_true, Bool.toNat_false] at unshaken
  case reuse conn rest unlocked queue alive =>
    have hits := (hits_of_queue queue).trans alive
    constructor <;> simp [hits, created, running, gauge] <;> omega
  case bury conn rest unlocked queue dead =>
    have hits := (hits_of_queue queue).trans dead
    constructor <;> simp [hits, created, running, gauge] <;> omega
  case miss unlocked queue =>
    have hits := hits_of_empty queue
    constructor <;> simp [hits, created, running, gauge] <;> omega
  case reserve room =>
    have room : p.hasRoom = true := decide_eq_true room
    constructor <;> simp [room, created, running, gauge] <;> omega
  case refuse full =>
    have room : p.hasRoom = false := decide_eq_false (Nat.not_lt.mpr full)
    constructor <;> simp [room, created, running, gauge] <;> omega
  case connect conn fresh => constructor <;> simp [created, running, gauge, spawn] <;> omega
  case hand conn =>
    constructor <;> simp [created, running, gauge, Metrics.incUpstreamConnections] <;> omega
  all_goals constructor <;> simp [created, running, gauge] <;> omega

theorem Change.answered (left : Nat → Nat) (answered : Answered p statistics reads)
    (waits : Waits p.notify.waiters p.tasks) (change : Change p action q) :
    Answered q (p.noteCall action statistics) fun series =>
      reads series + p.adds left statistics action series := by
  cases change with
  | task current move => exact answered.move waits current move
  | reapNotify subtracted =>
      obtain ⟨looked, called, waiters, acquires⟩ := answered
      have opening := countP_notifyOne Task.isOpening waits fun _ => rfl
      have acquiring := countP_notifyOne Task.isAcquiring waits fun _ => rfl
      have queued := countP_notifyOne Task.isQueued waits fun _ => rfl
      constructor <;> simp [opening, acquiring, queued] <;> omega
  | accept warm =>
      obtain ⟨looked, called, waiters, acquires⟩ := answered
      constructor <;> simp [Task.isOpening, Task.isAcquiring, Task.isQueued] <;> omega
  | _ =>
      obtain ⟨looked, called, waiters, acquires⟩ := answered
      constructor <;> simp [spawn] <;> omega

theorem Change.opened (left : Nat → Nat) (opened : Opened p statistics reads)
    (waits : Waits p.notify.waiters p.tasks) (change : Change p action q) :
    Opened q (p.noteCall action statistics) fun series =>
      reads series + p.adds left statistics action series := by
  cases change with
  | task current move => exact opened.move waits current move
  | warm left fresh =>
      obtain ⟨missed, handshakes, evictions, upstream⟩ := opened
      constructor <;> simp [spawn] <;> omega
  | warmPush ready =>
      obtain ⟨missed, handshakes, evictions, upstream⟩ := opened
      constructor <;> simp [Metrics.incUpstreamConnections] <;> omega
  | accept warm =>
      obtain ⟨missed, handshakes, evictions, upstream⟩ := opened
      constructor <;> simp [Task.isUnshaken] <;> omega
  | reap warm resting due =>
      obtain ⟨missed, handshakes, evictions, upstream⟩ := opened
      constructor <;> simp [evicts, decUpstreamConnections_iterate] <;> omega
  | ended runs =>
      obtain ⟨missed, handshakes, evictions, upstream⟩ := opened
      have fewer := List.length_erase_of_mem runs
      have positive := List.length_pos_of_mem runs
      constructor <;> simp [Metrics.decUpstreamConnections] <;> omega
  | reapNotify subtracted =>
      obtain ⟨missed, handshakes, evictions, upstream⟩ := opened
      have unshaken := countP_notifyOne Task.isUnshaken waits fun _ => rfl
      constructor <;> simp [unshaken] <;> omega
  | tick | warmFail | subtract =>
      obtain ⟨missed, handshakes, evictions, upstream⟩ := opened
      constructor <;> simp <;> omega

end Steps

variable {config : PoolLimits} {s : BrokerPool × Statistics}

theorem accounts_of_reachable (reachable : (reporting config left).Reachable s) :
    s.2.metrics.enabled = true ∧ Answered s.1 s.2 s.2.metrics.reads ∧ Opened s.1 s.2 s.2.metrics.reads := by
  induction reachable with
  | initial first =>
      obtain ⟨started, empty⟩ := first
      rw [started, empty]
      refine ⟨rfl, ?_, ?_⟩
      · constructor <;> rfl
      · constructor <;> rfl
  | @next before after action reached _ taken ih =>
      obtain ⟨stepped, noted⟩ := System.watch_step.mp taken
      obtain ⟨enabled, answered, opened⟩ := ih
      have base : (system config (.new true)).Reachable before.1 := System.Reach.unwatched reached
      have waits := waits_of_reach base
      have change := Change.of_step stepped
      have reads : after.2.metrics.reads = fun series =>
          before.2.metrics.reads series + before.1.adds left before.2 action series := by
        funext series
        rw [noted]
        exact AllMetrics.reads_perform enabled _ series
      refine ⟨?_, ?_, ?_⟩
      · rw [noted]
        exact (AllMetrics.perform_enabled _ _).trans enabled
      · rw [reads, noted]
        obtain ⟨looked, called, waiters, acquires⟩ := change.answered left answered waits
        exact ⟨looked, called, waiters, acquires⟩
      · rw [reads, noted]
        obtain ⟨missed, handshakes, evictions, upstream⟩ := change.opened left opened waits
        exact ⟨missed, handshakes, evictions, upstream⟩

/-- Whatever the pool reports at a moment accounts for every call of `acquire` and every connection. A call
that has timed out is neither a hit nor a miss, and one that is woken shows once more among the
durations each time. -/
theorem statistics_account (reachable : (reporting config left).Reachable s) :
    s.2.metrics.poolHits + s.2.metrics.poolMisses =
      s.2.served + s.2.metrics.authFailures + s.1.tasks.countP Task.isOpening ∧
    s.2.calls = s.2.served + s.2.metrics.authFailures + s.2.timedOut +
      s.1.tasks.countP Task.isAcquiring ∧
    s.2.metrics.poolWaiters = s.1.tasks.countP Task.isQueued ∧
    s.2.metrics.acquireHist.count = s.2.metrics.poolHits + s.2.metrics.poolMisses + s.2.retried ∧
    s.2.metrics.handshakeHist.count = s.1.created.length ∧
    s.2.metrics.poolMisses + s.2.warmed =
      s.1.created.length + s.2.metrics.authFailures + s.1.tasks.countP Task.isUnshaken ∧
    s.2.metrics.poolEvictions + s.1.running.length = s.1.created.length + s.2.evicted ∧
    s.2.metrics.upstreamConnections = s.1.metrics.upstreamConnections := by
  obtain ⟨_, answered, opened⟩ := accounts_of_reachable reachable
  obtain ⟨looked, called, waiters, acquires⟩ := answered
  obtain ⟨missed, handshakes, evictions, upstream⟩ := opened
  simp only [AllMetrics.reads] at looked called waiters acquires missed handshakes evictions upstream
  refine ⟨?_, ?_, waiters, ?_, ?_, ?_, ?_, upstream⟩ <;> omega

def busy : List PoolAction :=
  [.warm ⟨0, 1⟩, .warmPush, .reap, .accept, .accept, .accept, .accept,
    .task 0 .acquire, .task 0 .tryIdle,
    .task 1 .acquire, .task 1 .tryIdle, .task 1 .tryCreate, .task 1 .connectFail, .task 1 .rollback,
    .task 1 .acquire, .task 1 .tryIdle, .task 1 .tryCreate, .task 1 (.connect ⟨1, 2⟩), .task 1 .hand,
    .task 2 .acquire, .task 2 .tryIdle, .task 2 .tryCreate, .task 2 .wait, .tick 5000, .task 2 .timeout,
    .task 3 .acquire, .task 3 .tryIdle, .task 3 .tryCreate, .task 3 .wait,
    .task 0 .release, .task 0 .push, .task 0 .notify, .task 3 .resume, .task 3 .tryIdle,
    .task 3 .release, .task 3 .push, .task 3 .notify, .tick 300000, .reap, .ended 1]

theorem statistics_account_busy : ∃ s : BrokerPool × Statistics, s.2.calls = 5 ∧ s.2.served = 3 ∧
    s.2.timedOut = 1 ∧ s.2.retried = 1 ∧ s.2.evicted = 1 ∧
    s.2.metrics.poolHits + s.2.metrics.poolMisses =
      s.2.served + s.2.metrics.authFailures + s.1.tasks.countP Task.isOpening ∧
    s.2.metrics.acquireHist.count = s.2.metrics.poolHits + s.2.metrics.poolMisses + s.2.retried := by
  obtain ⟨s, reachable, calls, served, timedOut, retried, evicted⟩ :=
    (reporting oneWarmConnection fun _ => 0).exists_reach (fun _ _ => True)
      (.new oneWarmConnection (.new true), .new) busy
      (fun s => s.2.calls = 5 ∧ s.2.served = 3 ∧ s.2.timedOut = 1 ∧ s.2.retried = 1 ∧ s.2.evicted = 1)
      ⟨rfl, rfl⟩ (by decide)
  have account := statistics_account reachable
  exact ⟨s, calls, served, timedOut, retried, evicted, account.1, account.2.2.2.1⟩

end BrokerPool
end KafkaProxy
