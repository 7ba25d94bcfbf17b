import KafkaProxy.Library.Watch
import KafkaProxy.Pool.Slots

/-!
# How long a call of `acquire` takes

The timeout bounds one wait. A call that is woken and finds nothing waits again, for the whole timeout.
So its length depends on how often it is woken, and each time costs a call of `notify_one`.
-/

namespace KafkaProxy
open Library

/-- In `acquire`, and not past the miss. -/
def Task.isSeeking : Task → Bool
  | .tryIdle | .tryCreate | .full | .waiting _ | .woken => true
  | .free | .creating | .created _ | .rollback | .leased _ | .releasing .. | .released => false

def Task.isWoken : Task → Bool
  | .woken => true
  | .free | .tryIdle | .tryCreate | .creating | .created _ | .rollback | .full | .waiting _ | .leased _
  | .releasing .. | .released => false

def Task.waits : Task → Nat
  | .waiting _ | .woken => 1
  | .free | .tryIdle | .tryCreate | .creating | .created _ | .rollback | .full | .leased _
  | .releasing .. | .released => 0

/-- Of the last call of a task: when it started, how often `notify_one` was called since, and how often
the call was woken. -/
structure Seeking where
  started : Nat
  notified : Nat
  woken : Nat
  deriving DecidableEq, Repr

namespace BrokerPool

def noteSeeking (i : Nat) (p : BrokerPool) (action : PoolAction) (record : Seeking) : Seeking :=
  match action with
  | .task j .acquire => if j = i then ⟨p.now, 0, 0⟩ else record
  | .task j .resume => if j = i then { record with woken := record.woken + 1 } else record
  | .task _ .notify | .reapNotify => { record with notified := record.notified + 1 }
  | _ => record

def seeking (config : PoolLimits) (metrics : Metrics) (i : Nat) : System (BrokerPool × Seeking) PoolAction :=
  (system config metrics).watch ⟨0, 0, 0⟩ (noteSeeking i)

/-- Time passes for the task where it waits, up to its deadline, but not where it has a step to take. -/
def Prompt (i : Nat) (p : BrokerPool) (action : PoolAction) : Prop :=
  ∀ elapsed, action = .tick elapsed → ∀ task, p.tasks[i]? = some task → task.isSeeking = true →
    elapsed = 0 ∨ ∃ deadline, task = .waiting deadline ∧ p.now + elapsed ≤ deadline

abbrev Promptly (config : PoolLimits) (metrics : Metrics) (i : Nat) (s : BrokerPool × Seeking) : Prop :=
  (seeking config metrics i).Reach (fun s action => Prompt i s.1 action) s

variable {p q : BrokerPool} {action : PoolAction} {i j : Nat} {task next : Task} {config : PoolLimits}
  {metrics : Metrics} {record : Seeking}

structure Sought (timeout : Nat) (here : Option Task) (permit : Bool) (now : Nat) (record : Seeking) :
    Prop where
  paid : record.woken + (here.any Task.isWoken).toNat + permit.toNat ≤ record.notified + 1
  within : ∀ task, here = some task → task.isSeeking = true →
    now ≤ record.started + (record.woken + task.waits) * timeout
  deadline : ∀ deadline, here = some (.waiting deadline) →
    now ≤ deadline ∧ deadline ≤ record.started + (record.woken + 1) * timeout

namespace Sought

variable {timeout now later : Nat} {permit : Bool} {here : Option Task}

theorem stop (paid : record.woken + permit.toNat ≤ record.notified + 1) (stops : next.isSeeking = false) :
    Sought timeout (some next) permit now record := by
  have woken : next.isWoken = false := by
    cases next <;> first | rfl | cases stops
  refine ⟨by simpa [woken] using paid, fun task same seeks => ?_, fun deadline same => ?_⟩
  · cases same
    rw [stops] at seeks
    cases seeks
  · cases same
    cases stops

theorem go (sought : Sought timeout (some task) permit now record) (seeks : task.isSeeking = true)
    (still : next.waits = 0) (same : task.waits = 0) : Sought timeout (some next) permit now record := by
  have paid := sought.paid
  refine ⟨?_, fun t here _ => ?_, fun deadline here => ?_⟩
  · cases next <;> simp_all [Task.isWoken, Task.waits] <;> omega
  · cases here
    rw [still, ← same]
    exact sought.within task rfl seeks
  · cases here
    cases still

theorem fewer {less : Bool} (sought : Sought timeout here permit now record) (le : less.toNat ≤ permit.toNat) :
    Sought timeout here less now record :=
  ⟨(Nat.add_le_add_left le _).trans sought.paid, sought.within, sought.deadline⟩

theorem notifyOne (sought : Sought timeout p.tasks[i]? p.notify.permit now record)
    (waits : Waits p.notify.waiters p.tasks) :
    Sought timeout p.notifyOne.tasks[i]? p.notifyOne.notify.permit now
      { record with notified := record.notified + 1 } := by
  have paid := sought.paid
  unfold BrokerPool.notifyOne
  split
  · refine ⟨?_, sought.within, sought.deadline⟩
    have one := p.notify.permit.toNat_le
    simp only [Bool.toNat_true]
    omega
  · rename_i first rest queue
    obtain ⟨deadline, waiting⟩ := (waits.waiting first).mp (queue ▸ List.mem_cons_self)
    by_cases mine : first = i
    · subst mine
      have bound := (List.getElem?_eq_some_iff.mp waiting).1
      rw [waiting] at sought paid
      rw [List.getElem?_set_self bound]
      refine ⟨?_, fun task same _ => ?_, fun deadline same => by cases same⟩
      · simp only [Option.any_some, Task.isWoken, Bool.toNat_true, Bool.toNat_false] at paid ⊢
        omega
      · cases same
        exact sought.within (.waiting deadline) rfl rfl
    · rw [List.getElem?_set_ne mine]
      exact ⟨by simp only at paid ⊢; omega, sought.within, sought.deadline⟩

end Sought

theorem noteSeeking_other {taskAction : TaskAction} (other : j ≠ i) (quiet : taskAction ≠ .notify) :
    noteSeeking i p (.task j taskAction) record = record := by
  cases taskAction <;> simp_all [noteSeeking]

theorem Move.permit_le {taskAction : TaskAction} (move : Move p j task taskAction q next)
    (quiet : taskAction ≠ .notify) : q.notify.permit.toNat ≤ p.notify.permit.toNat := by
  cases move with
  | notify => exact absurd rfl quiet
  | permit stored => exact Nat.zero_le _
  | _ => exact Nat.le_refl _

theorem Move.tasks_eq {taskAction : TaskAction} (move : Move p j task taskAction q next)
    (quiet : taskAction ≠ .notify) : q.tasks = p.tasks ∧ q.now = p.now := by
  cases move with
  | notify => exact absurd rfl quiet
  | _ => exact ⟨rfl, rfl⟩

theorem Sought.move_other {taskAction : TaskAction} {timeout : Nat}
    (sought : Sought timeout p.tasks[i]? p.notify.permit p.now record)
    (waits : Waits p.notify.waiters p.tasks) (other : j ≠ i) (move : Move p j task taskAction q next) :
    Sought timeout (q.put j next).tasks[i]? (q.put j next).notify.permit (q.put j next).now
      (noteSeeking i p (.task j taskAction) record) := by
  have apart : (q.put j next).tasks[i]? = q.tasks[i]? := List.getElem?_set_ne other
  rw [apart]
  by_cases quiet : taskAction = .notify
  · subst quiet
    cases move with
    | notify =>
        show Sought timeout p.notifyOne.tasks[i]? p.notifyOne.notify.permit p.notifyOne.now _
        rw [notifyOne_now]
        exact sought.notifyOne waits
  · obtain ⟨tasks, now⟩ := move.tasks_eq quiet
    rw [noteSeeking_other other quiet, tasks]
    show Sought timeout _ q.notify.permit q.now record
    rw [now]
    exact sought.fewer (move.permit_le quiet)

theorem Sought.move_own {taskAction : TaskAction}
    (sought : Sought p.config.acquireTimeout p.tasks[i]? p.notify.permit p.now record)
    (waits : Waits p.notify.waiters p.tasks) (current : p.tasks[i]? = some task)
    (move : Move p i task taskAction q next) :
    Sought p.config.acquireTimeout (q.put i next).tasks[i]? (q.put i next).notify.permit (q.put i next).now
      (noteSeeking i p (.task i taskAction) record) := by
  have paid := sought.paid
  have notified := sought.notifyOne waits
  rw [current] at sought paid
  have free : record.woken + p.notify.permit.toNat ≤ record.notified + 1 := by omega
  have here (same : q.tasks = p.tasks) : (q.put i next).tasks[i]? = some next :=
    put_current (same ▸ current) next
  cases move with
  | acquire =>
      rw [here rfl, noteSeeking, if_pos rfl]
      refine ⟨?_, fun task same _ => ?_, fun deadline same => by cases same⟩
      · simp only [Option.any_some, Task.isWoken, Bool.toNat_false, Nat.zero_add]
        exact p.notify.permit.toNat_le
      · exact Nat.le_add_right _ _
  | bury | miss | refuse =>
      rw [here rfl]
      exact sought.go rfl rfl rfl
  | permit stored =>
      rw [here rfl]
      have within := sought.within .full rfl rfl
      rw [stored] at paid
      refine ⟨paid, fun task same _ => ?_, fun deadline same => by cases same⟩
      cases same
      apply within.trans
      exact Nat.add_le_add_left (Nat.mul_le_mul_right _ (Nat.le_succ _)) _
  | enqueue none =>
      rw [here rfl]
      have within := sought.within .full rfl rfl
      have limit : p.now + p.config.acquireTimeout ≤
          record.started + (record.woken + 1) * p.config.acquireTimeout := by
        rw [Task.waits, Nat.add_zero] at within
        rw [Nat.succ_mul]
        omega
      refine ⟨paid, fun task same _ => ?_, fun deadline same => ?_⟩
      · cases same
        exact (Nat.le_add_right _ _).trans limit
      · cases same
        exact ⟨Nat.le_add_right _ _, limit⟩
  | resume =>
      rw [here rfl, noteSeeking, if_pos rfl]
      refine ⟨?_, fun task same _ => ?_, fun deadline same => by cases same⟩
      · simp only [Option.any_some, Task.isWoken, Bool.toNat_true, Bool.toNat_false] at paid ⊢
        show _ + p.notify.permit.toNat ≤ _
        omega
      · cases same
        exact sought.within .woken rfl rfl
  | notify =>
      rw [waits.notifyOne_current current rfl] at notified
      rw [put_current (waits.notifyOne_current current rfl)]
      apply Sought.stop _ rfl
      show record.woken + p.notifyOne.notify.permit.toNat ≤ record.notified + 1 + 1
      exact (Nat.add_le_add_right (Nat.le_add_right _ _) _).trans notified.paid
  | _ =>
      rw [here rfl]
      exact .stop free rfl

theorem Change.sought (sought : Sought p.config.acquireTimeout p.tasks[i]? p.notify.permit p.now record)
    (waits : Waits p.notify.waiters p.tasks) (prompt : Prompt i p action) (change : Change p action q) :
    Sought p.config.acquireTimeout q.tasks[i]? q.notify.permit q.now (noteSeeking i p action record) := by
  cases change with
  | @task j before after action r current move =>
      by_cases own : j = i
      · subst own
        exact sought.move_own waits current move
      · exact sought.move_other waits own move
  | tick elapsed =>
      refine ⟨sought.paid, fun task here seeks => ?_, fun deadline here => ?_⟩
      · rcases prompt elapsed rfl task here seeks with rfl | ⟨deadline, rfl, early⟩
        · exact sought.within task here seeks
        · exact early.trans (sought.deadline deadline here).2
      · refine ⟨?_, (sought.deadline deadline here).2⟩
        rcases prompt elapsed rfl _ here rfl with rfl | ⟨_, same, early⟩
        · exact (sought.deadline deadline here).1
        · cases same
          exact early
  | accept warm =>
      rcases Nat.lt_trichotomy i p.tasks.length with old | new | outside
      · rw [List.getElem?_append_left old]
        exact sought
      · subst new
        have paid := sought.paid
        rw [List.getElem?_concat_length]
        apply Sought.stop _ rfl
        exact (Nat.add_le_add_right (Nat.le_add_right _ _) _).trans paid
      · rw [List.getElem?_eq_none (by simp; omega)]
        rw [List.getElem?_eq_none outside.le] at sought
        exact sought
  | reapNotify subtracted =>
      show Sought _ p.notifyOne.tasks[i]? p.notifyOne.notify.permit p.notifyOne.now _
      rw [notifyOne_now]
      exact sought.notifyOne waits
  | _ => exact sought

theorem sought_of_reach {s : BrokerPool × Seeking}
    (reach : Promptly config metrics i s) :
    Sought config.acquireTimeout s.1.tasks[i]? s.1.notify.permit s.1.now s.2 := by
  induction reach with
  | initial first =>
      obtain ⟨started, empty⟩ := first
      rw [started, empty]
      exact ⟨Nat.zero_le _, by simp [new], by simp [new]⟩
  | @next before after action reached prompt taken ih =>
      obtain ⟨stepped, noted⟩ := System.watch_step.mp taken
      have base : (system config metrics).Reachable before.1 :=
        System.Reach.reachable (System.Reach.unwatched reached)
      have limits := config_of_reach base
      rw [noted, ← limits]
      exact (Change.of_step stepped).sought (limits.symm ▸ ih) (waits_of_reach base) prompt

theorem acquire_within_notified {s : BrokerPool × Seeking} {task : Task}
    (reach : Promptly config metrics i s)
    (current : s.1.tasks[i]? = some task) (seeks : task.isSeeking = true) :
    s.2.woken ≤ s.2.notified + 1 ∧
      s.1.now ≤ s.2.started + (s.2.notified + 2) * config.acquireTimeout := by
  have sought := sought_of_reach reach
  have paid := sought.paid
  have within := sought.within task current seeks
  rw [current, Option.any_some] at paid
  have waits : s.2.woken + task.waits ≤ s.2.notified + 2 := by
    cases task <;> simp only [Task.waits, Task.isWoken, Bool.toNat_true, Bool.toNat_false] at paid ⊢ <;> omega
  refine ⟨by omega, within.trans ?_⟩
  exact Nat.add_le_add_left (Nat.mul_le_mul_right _ waits) _

/-! ## A call that is woken in vain -/

/-- The first task has the only connection that is free at times. Another one has waited for the timeout
`k + 1` times and has been woken `k` times. -/
structure Starving (config : PoolLimits) (i k : Nat) (p : BrokerPool) (record : Seeking) : Prop where
  limits : p.config = config
  other : 0 ≠ i
  idle : p.idle = []
  resting : p.reaper = .resting
  full : config.maxPerBroker ≤ p.count
  holder : p.tasks[0]? = some (.leased ⟨0, 1⟩)
  waiting : p.tasks[i]? = some (.waiting p.now)
  queue : p.notify = ⟨false, [i]⟩
  notified : record.notified = k
  late : p.now = record.started + (k + 1) * config.acquireTimeout

theorem reach_task {r : BrokerPool} {taskAction : TaskAction} {record : Seeking}
    (reach : Promptly config metrics i (p, record))
    (current : p.tasks[j]? = some task) (move : Move p j task taskAction q next)
    (same : q.put j next = r) : Promptly config metrics i (r, noteSeeking i p (.task j taskAction) record) := by
  apply reach.next (a := .task j taskAction)
  · intro elapsed time
    cases time
  · rw [seeking, System.watch_step]
    exact ⟨same ▸ move.step current, rfl⟩

theorem reach_accept (reach : Promptly config metrics i (p, record)) (warm : p.warmedUp = true) :
    Promptly config metrics i ({ p with tasks := p.tasks ++ [.free] }, record) := by
  apply reach.next (a := .accept)
  · intro elapsed time
    cases time
  · rw [seeking, System.watch_step]
    exact ⟨if_pos warm, rfl⟩

theorem Starving.taken {k : Nat} (starving : Starving config i k p record) (room : 0 < config.maxPerBroker)
    (reach : Promptly config metrics i (p, record)) :
    ∃ tasks : List Task, tasks[0]? = some (.leased ⟨0, 1⟩) ∧ tasks[i]? = some .woken ∧
      Promptly config metrics i ({ p with tasks := tasks, notify := ⟨false, []⟩ },
          { record with notified := record.notified + 1 }) := by
  obtain ⟨limits, other, idle, resting, full, holder, waiting, queue, notified, late⟩ := starving
  have first := (List.getElem?_eq_some_iff.mp holder).1
  have last := (List.getElem?_eq_some_iff.mp waiting).1
  have unlocked : p.idleLocked = false := by simp [idleLocked, resting]
  let released := (p.tasks.set 0 (.releasing ⟨0, 1⟩ p.now)).set 0 .released
  let freed := (released.set i .woken).set 0 .free
  have releasing := reach_task reach holder .release rfl
  have pushed := reach_task (r := { p with idle := [⟨⟨0, 1⟩, true, p.now⟩], tasks := released }) releasing
    (put_current holder _) (.push unlocked (by simpa [idle, limits] using room))
    (by simp [put, idle, released])
  have notified := reach_task (j := 0)
    (r := { p with idle := [⟨⟨0, 1⟩, true, p.now⟩], notify := ⟨false, []⟩, tasks := freed }) pushed
    (by simp [released, first]) .notify (by simp [notifyOne, put, queue, freed])
  have holds : freed[0]? = some .free := by simp [freed, released, first]
  have acquiring := reach_task notified holds .acquire rfl
  have leased := reach_task acquiring (put_current (p := { p with tasks := freed }) holds _)
    (.reuse unlocked rfl rfl) rfl
  refine ⟨(freed.set 0 .tryIdle).set 0 (.leased ⟨0, 1⟩), ?_, ?_, ?_⟩
  · simp [freed, released, first]
  · simp [freed, released, other, last]
  · simpa [put, noteSeeking, other, idle] using leased

theorem Starving.round {k : Nat} (starving : Starving config i k p record) (room : 0 < config.maxPerBroker)
    (reach : Promptly config metrics i (p, record)) :
    ∃ q later, Starving config i (k + 1) q later ∧
      Promptly config metrics i (q, later) := by
  obtain ⟨tasks, holder, woken, reach⟩ := starving.taken room reach
  obtain ⟨limits, other, idle, resting, full, _, _, _, notified, late⟩ := starving
  have unlocked : p.idleLocked = false := by simp [idleLocked, resting]
  have bound := (List.getElem?_eq_some_iff.mp woken).1
  let waiting := tasks.set i (.waiting (p.now + config.acquireTimeout))
  have resumed := reach_task (r := { p with notify := ⟨false, []⟩, tasks := tasks.set i .tryIdle }) reach
    woken .resume rfl
  have missed := reach_task (j := i) (r := { p with notify := ⟨false, []⟩, tasks := tasks.set i .tryCreate })
    resumed (by simp [bound]) (.miss unlocked idle) (by simp [put])
  have refused := reach_task (j := i) (r := { p with notify := ⟨false, []⟩, tasks := tasks.set i .full }) missed
    (by simp [bound]) (.refuse (limits ▸ full)) (by simp [put])
  have queued := reach_task (j := i) (r := { p with notify := ⟨false, [i]⟩, tasks := waiting }) refused
    (by simp [bound]) (.enqueue rfl) (by simp [put, waiting, limits])
  refine ⟨{ p with notify := ⟨false, [i]⟩, tasks := waiting, now := p.now + config.acquireTimeout }, _, ?_,
    queued.next (a := .tick config.acquireTimeout) ?_ (System.watch_step.mpr ⟨rfl, rfl⟩)⟩
  · refine ⟨limits, other, idle, resting, full, ?_, ?_, rfl, ?_, ?_⟩
    · simp [waiting, other.symm, holder]
    · simp [waiting, bound]
    · simp [noteSeeking, notified]
    · simp only [noteSeeking, if_pos, late]
      rw [Nat.add_assoc, ← Nat.succ_mul]
  · intro elapsed same task here _
    cases same
    have stands : waiting[i]? = some (.waiting (p.now + config.acquireTimeout)) := by simp [waiting, bound]
    cases here.symm.trans stands
    exact .inr ⟨_, rfl, Nat.le_refl _⟩

structure Filled (config : PoolLimits) (k : Nat) (p : BrokerPool) : Prop where
  limits : p.config = config
  warm : p.warmedUp = true
  idle : p.idle = []
  resting : p.reaper = .resting
  created : p.created = []
  tasks : p.tasks = List.replicate k .creating
  count : p.count = k
  queue : p.notify = ⟨false, []⟩

theorem Filled.more {k : Nat} (filled : Filled config k p) (room : k < config.maxPerBroker)
    (reach : Promptly config metrics i (p, record)) :
    ∃ q later, Filled config (k + 1) q ∧
      Promptly config metrics i (q, later) := by
  obtain ⟨limits, warm, idle, resting, created, tasks, count, queue⟩ := filled
  have last : p.tasks.length = k := by simp [tasks]
  have unlocked : p.idleLocked = false := by simp [idleLocked, resting]
  have accepted := reach_accept reach warm
  have acquired := reach_task (j := k) (r := { p with tasks := p.tasks ++ [.tryIdle] }) accepted
    (by simp [last]) .acquire (by simp [put, last])
  have missed := reach_task (j := k) (r := { p with tasks := p.tasks ++ [.tryCreate] }) acquired
    (by simp [last]) (.miss unlocked idle) (by simp [put, last])
  have reserved := reach_task (j := k)
    (r := { p with count := p.count + 1, tasks := p.tasks ++ [.creating] }) missed (by simp [last])
    (.reserve (by rwa [limits, count])) (by simp [put, last])
  refine ⟨{ p with count := p.count + 1, tasks := p.tasks ++ [.creating] }, _,
    ⟨limits, warm, idle, resting, created, ?_, ?_, queue⟩, reserved⟩
  · simp [tasks, List.replicate_succ']
  · simp [count]

theorem filled_of_le (config : PoolLimits) (metrics : Metrics) (i : Nat) {k : Nat}
    (room : k ≤ config.maxPerBroker) :
    ∃ p record, Filled config k p ∧ Promptly config metrics i (p, record) := by
  induction k with
  | zero =>
      have start : Promptly config metrics i (new config metrics, ⟨0, 0, 0⟩) := .initial ⟨rfl, rfl⟩
      cases warm : config.minIdle with
      | zero =>
          exact ⟨_, _, ⟨rfl, by simp [warmedUp, new, warm], rfl, rfl, rfl, rfl, rfl, rfl⟩, start⟩
      | succ others =>
          have failed := start.next (a := .warmFail) (t := ({ new config metrics with warmup := ⟨0, none⟩ }, _))
            (by intro elapsed same; cases same)
            (System.watch_step.mpr ⟨by simp [system, step, new, warm], rfl⟩)
          exact ⟨_, _, ⟨rfl, rfl, rfl, rfl, rfl, rfl, rfl, rfl⟩, failed⟩
  | succ k ih =>
      obtain ⟨p, record, filled, reach⟩ := ih (Nat.le_of_succ_le room)
      exact filled.more room reach

theorem Filled.starving (filled : Filled config config.maxPerBroker p) (room : 0 < config.maxPerBroker)
    (reach : Promptly config metrics config.maxPerBroker (p, record)) :
    ∃ q later, Starving config config.maxPerBroker 0 q later ∧
      Promptly config metrics config.maxPerBroker (q, later) := by
  obtain ⟨limits, warm, idle, resting, created, tasks, count, queue⟩ := filled
  have unlocked : p.idleLocked = false := by simp [idleLocked, resting]
  let others := (List.replicate config.maxPerBroker Task.creating).set 0 (.leased ⟨0, 1⟩)
  let opened : BrokerPool :=
    { p.spawn ⟨0, 1⟩ with metrics := p.metrics.incUpstreamConnections, tasks := others }
  have last : others.length = config.maxPerBroker := by simp [others]
  have fresh : (⟨0, 1⟩ : Acquired).writeTx ∉ p.created := by simp [created]
  have creating : (p.spawn ⟨0, 1⟩).tasks[0]? = some .creating := by simp [spawn, tasks, room]
  have connected := reach_task (j := 0) reach creating (.connect fresh) rfl
  have handed := reach_task (r := opened) connected (put_current creating _) .hand
    (by simp [put, spawn, opened, others, tasks])
  have accepted : Promptly config metrics config.maxPerBroker ({ opened with tasks := others ++ [.free] }, _) :=
    reach_accept handed warm
  have acquired := reach_task (j := config.maxPerBroker) (r := { opened with tasks := others ++ [.tryIdle] })
    accepted (by simp [last]) .acquire (by simp [put, last])
  have missed := reach_task (j := config.maxPerBroker) (r := { opened with tasks := others ++ [.tryCreate] })
    acquired (by simp [last]) (.miss unlocked idle) (by simp [put, last])
  have refused := reach_task (j := config.maxPerBroker) (r := { opened with tasks := others ++ [.full] }) missed
    (by simp [last]) (.refuse (by simp [opened, spawn, limits, count])) (by simp [put, last])
  let waiting := others ++ [.waiting (p.now + config.acquireTimeout)]
  have queued := reach_task (j := config.maxPerBroker)
    (r := { opened with notify := ⟨false, [config.maxPerBroker]⟩, tasks := waiting }) refused
    (by simp [last]) (.enqueue (by simp [opened, spawn, queue]))
    (by simp [put, opened, spawn, queue, limits, last, waiting])
  refine ⟨{ opened with
      notify := ⟨false, [config.maxPerBroker]⟩
      tasks := waiting
      now := p.now + config.acquireTimeout }, _, ?_,
    queued.next (a := .tick config.acquireTimeout) ?_ (System.watch_step.mpr ⟨rfl, rfl⟩)⟩
  · refine ⟨limits, Nat.ne_of_lt room, idle, resting, Nat.le_of_eq count.symm, ?_, ?_, rfl, ?_, ?_⟩
    · simp [waiting, others, room]
    · simp [waiting, last]
    · simp [noteSeeking]
    · simp [noteSeeking, opened, spawn]
  · intro elapsed same task here _
    cases same
    have stands : waiting[config.maxPerBroker]? = some (.waiting (p.now + config.acquireTimeout)) := by
      simp [waiting, last]
    cases here.symm.trans stands
    exact .inr ⟨_, rfl, Nat.le_refl _⟩

theorem starving_reach (metrics : Metrics) (room : 0 < config.maxPerBroker) (k : Nat) :
    ∃ p record, Starving config config.maxPerBroker k p record ∧
      Promptly config metrics config.maxPerBroker (p, record) := by
  induction k with
  | zero =>
      obtain ⟨p, record, filled, reach⟩ := filled_of_le config metrics config.maxPerBroker le_rfl
      exact filled.starving room reach
  | succ k ih =>
      obtain ⟨p, record, starving, reach⟩ := ih
      exact starving.round room reach

/-- The timeout of `acquire` starts again each time the call is woken. A call lasts two timeouts and one
more for each notification at most, and there is no bound that does not grow with their number. -/
theorem acquire_timeout_restarts (config : PoolLimits) (metrics : Metrics) :
    (∀ (i : Nat) (s : BrokerPool × Seeking) (task : Task), Promptly config metrics i s →
      s.1.tasks[i]? = some task → task.isSeeking = true →
        s.2.woken ≤ s.2.notified + 1 ∧
          s.1.now ≤ s.2.started + (s.2.notified + 2) * config.acquireTimeout) ∧
    (0 < config.maxPerBroker → ∀ k, ∃ (i : Nat) (s : BrokerPool × Seeking), Promptly config metrics i s ∧
      s.1.tasks[i]? = some (.waiting s.1.now) ∧ s.2.notified = k ∧
        s.1.now = s.2.started + (k + 1) * config.acquireTimeout) := by
  refine ⟨fun i s task reach current seeks => acquire_within_notified reach current seeks, fun room k => ?_⟩
  obtain ⟨p, record, starving, reach⟩ := starving_reach metrics room k
  exact ⟨_, _, reach, starving.waiting, starving.notified, starving.late⟩

theorem acquire_timeout_restarts_ten : ∃ (i : Nat) (s : BrokerPool × Seeking),
    Promptly ⟨1, 0, 300000, 5000⟩ (.new true) i s ∧ s.1.tasks[i]? = some (.waiting s.1.now) ∧
      s.2.woken ≤ 11 ∧ s.2.notified = 10 ∧ s.1.now = s.2.started + (10 + 1) * 5000 := by
  obtain ⟨bounded, longer⟩ := acquire_timeout_restarts ⟨1, 0, 300000, 5000⟩ (.new true)
  obtain ⟨i, s, reach, waiting, notified, late⟩ := longer (by decide) 10
  have woken := (bounded i s _ reach waiting rfl).1
  rw [notified] at woken
  exact ⟨i, s, reach, waiting, woken, notified, late⟩

end BrokerPool
end KafkaProxy
