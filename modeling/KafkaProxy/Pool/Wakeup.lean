import KafkaProxy.Pool.Calls
import KafkaProxy.Pool.Slots

/-!
# Wakeups of the calls that wait

While calls wait in line, what a call could take must be matched by calls that will look for it: a
stored permit, a call that was woken and has not looked again yet, or a release that is about to
wake one. The bound on the free slots also counts the woken calls that have only the counter left to
look at.
-/

namespace KafkaProxy
open Library

def Task.wakes (woken : Bool) : Task → Nat
  | .woken | .released => 1
  | .tryIdle => woken.toNat
  | _ => 0

def Task.checks (woken : Bool) : Task → Nat
  | .tryCreate => woken.toNat
  | _ => 0

namespace BrokerPool

def tally (share : Bool → Task → Nat) (tasks : List Task) (calls : Calls) : Nat :=
  totalAt (fun i => share (calls i).woken) tasks

def wakeups (p : BrokerPool) (calls : Calls) : Nat :=
  p.notify.permit.toNat + tally Task.wakes p.tasks calls

def checks (p : BrokerPool) (calls : Calls) : Nat := tally Task.checks p.tasks calls

/-- The free slots, with those that the reaper has emptied and not subtracted yet. -/
def vacant (p : BrokerPool) : Nat := p.config.maxPerBroker - p.count + p.reaper.removed

structure Signalled (p : BrokerPool) (calls : Calls) : Prop where
  idle : p.idle.length + p.reaper.removed ≤ p.wakeups calls
  room : p.idle.length + p.vacant ≤ p.wakeups calls + p.checks calls

instance (p : BrokerPool) (calls : Calls) : Decidable (Signalled p calls) :=
  decidable_of_iff (p.idle.length + p.reaper.removed ≤ p.wakeups calls ∧
      p.idle.length + p.vacant ≤ p.wakeups calls + p.checks calls)
    ⟨fun both => ⟨both.1, both.2⟩, fun signalled => ⟨signalled.idle, signalled.room⟩⟩

def joins : PoolAction → Bool
  | .task _ .wait => true
  | _ => false

/-- Enough wakeups are on their way when a slot is given back without one while calls wait, and when
a call is the first to wait. -/
def Signals (s : BrokerPool × Calls) (action : PoolAction) : Prop :=
  (rollsBack action = true → s.1.notify.waiters ≠ [] →
      Signalled { s.1 with count := usizeSub s.1.count 1 } s.2) ∧
    (joins action = true → s.1.notify.waiters = [] → s.1.notify.permit = false →
      Signalled s.1 s.2)

instance (s : BrokerPool × Calls) (action : PoolAction) : Decidable (Signals s action) :=
  inferInstanceAs (Decidable (_ ∧ _))

variable {p q : BrokerPool} {action : PoolAction} {calls : Calls} {i : Nat} {task next : Task}

theorem Move.tasks {taskAction : TaskAction} (move : Move p i task taskAction q next)
    (other : taskAction ≠ .notify) : q.tasks = p.tasks := by
  cases move with
  | notify => exact absurd rfl other
  | _ => rfl

theorem tally_set (share : Bool → Task → Nat) (current : p.tasks[i]? = some task) (next : Task)
    (taskAction : TaskAction) (calls : Calls) :
    tally share (p.tasks.set i next) (p.noteCalls (.task i taskAction) calls) +
        share (calls i).woken task =
      tally share p.tasks calls + share (p.noteCalls (.task i taskAction) calls i).woken next := by
  apply totalAt_set current next
  intro j apart other
  rw [noteCalls_other calls apart]

theorem tally_notifyOne (share : Bool → Task → Nat) (gain : Nat)
    (gains : ∀ woken deadline, share woken .woken = share woken (.waiting deadline) + gain)
    (waits : Waits p.notify.waiters p.tasks) (line : p.notify.waiters ≠ []) (calls : Calls) :
    tally share p.notifyOne.tasks calls = tally share p.tasks calls + gain := by
  unfold notifyOne
  split
  · rename_i nobody
    exact absurd nobody line
  · rename_i first rest queue
    obtain ⟨deadline, waiting⟩ := (waits.waiting first).mp (queue ▸ List.mem_cons_self)
    have changed : tally share (p.tasks.set first .woken) calls +
          share (calls first).woken (.waiting deadline) =
        tally share p.tasks calls + share (calls first).woken .woken :=
      totalAt_set waiting .woken fun j apart task => rfl
    rw [gains (calls first).woken deadline] at changed
    simp only
    omega

theorem wakeups_notifyOne (waits : Waits p.notify.waiters p.tasks) (line : p.notify.waiters ≠ [])
    (calls : Calls) : p.notifyOne.wakeups calls = p.wakeups calls + 1 := by
  have gained := tally_notifyOne Task.wakes 1 (fun _ _ => rfl) waits line calls
  have permit : p.notifyOne.notify.permit = p.notify.permit := by
    unfold notifyOne
    split
    · rename_i nobody
      exact absurd nobody line
    · rfl
  rw [wakeups, wakeups, permit, gained]
  omega

theorem checks_notifyOne (waits : Waits p.notify.waiters p.tasks) (line : p.notify.waiters ≠ [])
    (calls : Calls) : p.notifyOne.checks calls = p.checks calls :=
  tally_notifyOne Task.checks 0 (fun _ _ => rfl) waits line calls

theorem notifyOne_line (line : p.notifyOne.notify.waiters ≠ []) : p.notify.waiters ≠ [] := by
  intro nobody
  simp [notifyOne, nobody] at line

theorem vacant_notifyOne : p.notifyOne.vacant = p.vacant := by
  rw [vacant, notifyOne_config, notifyOne_count, notifyOne_reaper, vacant]

theorem Signalled.notifyOne (signalled : Signalled p calls) (waits : Waits p.notify.waiters p.tasks)
    (line : p.notify.waiters ≠ []) : Signalled p.notifyOne calls := by
  have woken := wakeups_notifyOne waits line calls
  have checked := checks_notifyOne waits line calls
  refine ⟨?_, ?_⟩
  · have bound := signalled.idle
    rw [notifyOne_idle, notifyOne_reaper]
    omega
  · have bound := signalled.room
    rw [notifyOne_idle, vacant_notifyOne]
    omega

theorem Signalled.put {taskAction : TaskAction} (current : p.tasks[i]? = some task)
    (same : q.tasks = p.tasks)
    (idle : q.idle.length + q.reaper.removed + p.notify.permit.toNat + task.wakes (calls i).woken ≤
      p.wakeups calls + q.notify.permit.toNat +
        next.wakes (p.noteCalls (.task i taskAction) calls i).woken)
    (room : q.idle.length + q.vacant + p.notify.permit.toNat + task.wakes (calls i).woken +
        task.checks (calls i).woken ≤
      p.wakeups calls + p.checks calls + q.notify.permit.toNat +
        next.wakes (p.noteCalls (.task i taskAction) calls i).woken +
        next.checks (p.noteCalls (.task i taskAction) calls i).woken) :
    Signalled (q.put i next) (p.noteCalls (.task i taskAction) calls) := by
  have woken := tally_set Task.wakes current next taskAction calls
  have checked := tally_set Task.checks current next taskAction calls
  simp only [wakeups, checks] at idle room
  refine ⟨?_, ?_⟩
  · simp only [wakeups, BrokerPool.put, same]
    omega
  · simp only [wakeups, checks, vacant, BrokerPool.put, same] at room ⊢
    omega

theorem removed_of_unlocked (unlocked : p.idleLocked = false) : p.reaper.removed = 0 := by
  simp only [idleLocked, ne_eq, decide_not, Bool.not_eq_false', decide_eq_true_eq] at unlocked
  rw [unlocked]
  rfl

theorem Signalled.keep {taskAction : TaskAction} (signalled : Signalled p calls)
    (current : p.tasks[i]? = some task) (same : q.tasks = p.tasks) (idle : q.idle = p.idle)
    (reaper : q.reaper = p.reaper) (vacant : q.vacant = p.vacant)
    (wakes : q.notify.permit.toNat + next.wakes (p.noteCalls (.task i taskAction) calls i).woken =
      p.notify.permit.toNat + task.wakes (calls i).woken)
    (checks : next.checks (p.noteCalls (.task i taskAction) calls i).woken =
      task.checks (calls i).woken) :
    Signalled (q.put i next) (p.noteCalls (.task i taskAction) calls) := by
  obtain ⟨bound, room⟩ := signalled
  refine .put current same ?_ ?_
  · rw [idle, reaper]
    omega
  · rw [idle, vacant]
    omega

theorem Move.signalled {taskAction : TaskAction} (waits : Waits p.notify.waiters p.tasks)
    (current : p.tasks[i]? = some task) (move : Move p i task taskAction q next)
    (signalled : p.notify.waiters ≠ [] → Signalled p calls)
    (signals : Signals (p, calls) (.task i taskAction)) (line : q.notify.waiters ≠ []) :
    Signalled (q.put i next) (p.noteCalls (.task i taskAction) calls) := by
  cases move with
  | reuse unlocked queue alive =>
      obtain ⟨idle, room⟩ := signalled line
      rw [queue, List.length_cons] at idle room
      refine .put current rfl ?_ ?_
      · simp only [Task.wakes]
        have known := Bool.toNat_le (calls i).woken
        omega
      · have known := Bool.toNat_le (calls i).woken
        simp only [Task.wakes, Task.checks, vacant] at room ⊢
        omega
  | bury unlocked queue dead =>
      obtain ⟨idle, room⟩ := signalled line
      rw [queue, List.length_cons] at idle room
      refine .put current rfl ?_ ?_
      · simp only [Task.wakes]
        have known := Bool.toNat_le (calls i).woken
        omega
      · simp only [Task.wakes, Task.checks, noteCalls, vacant] at room ⊢
        omega
  | miss unlocked queue =>
      obtain ⟨_, room⟩ := signalled line
      have removed := removed_of_unlocked unlocked
      have counted := tally_set Task.wakes current .tryCreate .tryIdle calls
      refine .put current rfl ?_ ?_
      · rw [queue, removed]
        simp only [Task.wakes, wakeups] at counted ⊢
        simp only [List.length_nil]
        omega
      · simp only [Task.wakes, Task.checks, noteCalls]
        omega
  | reserve below =>
      obtain ⟨idle, room⟩ := signalled line
      refine .put current rfl ?_ ?_
      · simp only [Task.wakes]
        omega
      · have known := Bool.toNat_le (calls i).woken
        simp only [Task.wakes, Task.checks, vacant] at room ⊢
        omega
  | refuse full =>
      obtain ⟨idle, _⟩ := signalled line
      have counted := tally_set Task.checks current .full .tryCreate calls
      refine .put current rfl ?_ ?_
      · simp only [Task.wakes]
        omega
      · simp only [Task.wakes, Task.checks, vacant, checks] at counted ⊢
        omega
  | rollback =>
      have after : Signalled { p with count := usizeSub p.count 1 } calls := signals.1 rfl line
      have kept : Signalled (put { p with count := usizeSub p.count 1 } i .free)
          (noteCalls { p with count := usizeSub p.count 1 } (.task i .rollback) calls) :=
        after.keep current rfl rfl rfl rfl rfl rfl
      exact kept
  | permit stored =>
      exact (signalled line).keep current rfl rfl rfl rfl (by simp [Task.wakes, stored]) rfl
  | enqueue none =>
      have before : Signalled p calls := by
        by_cases nobody : p.notify.waiters = []
        · exact signals.2 rfl nobody none
        · exact signalled nobody
      exact before.keep current rfl rfl rfl rfl rfl rfl
  | timeout late =>
      have before : p.notify.waiters ≠ [] := by
        intro nobody
        simp [nobody] at line
      exact (signalled before).keep current rfl rfl rfl rfl rfl rfl
  | push unlocked room =>
      obtain ⟨idle, room⟩ := signalled line
      refine .put current rfl ?_ ?_
      · simp only [Task.wakes, List.length_append, List.length_singleton]
        omega
      · simp only [Task.wakes, Task.checks, List.length_append, List.length_singleton, vacant] at room ⊢
        omega
  | discard unlocked full =>
      obtain ⟨idle, room⟩ := signalled line
      refine .put current rfl ?_ ?_
      · simp only [Task.wakes]
        omega
      · simp only [Task.wakes, Task.checks]
        omega
  | notify =>
      have before := notifyOne_line line
      obtain ⟨idle, room⟩ := signalled before
      have woken := wakeups_notifyOne waits before calls
      have checked := checks_notifyOne waits before calls
      have after : Signalled (p.notifyOne.put i .free) (p.notifyOne.noteCalls (.task i .notify) calls) := by
        refine .put (waits.notifyOne_current current rfl) rfl ?_ ?_
        · rw [notifyOne_idle, notifyOne_reaper]
          simp only [Task.wakes]
          omega
        · rw [notifyOne_idle, vacant_notifyOne]
          simp only [Task.wakes, Task.checks]
          omega
      exact after
  | resume =>
      exact (signalled line).keep current rfl rfl rfl rfl (by simp [Task.wakes, noteCalls]) rfl
  | acquire =>
      exact (signalled line).keep current rfl rfl rfl rfl (by simp [Task.wakes, noteCalls]) rfl
  | _ => exact (signalled line).keep current rfl rfl rfl rfl rfl rfl

/-! ## Runs -/

structure Watched (p : BrokerPool) (calls : Calls) : Prop where
  waits : Waits p.notify.waiters p.tasks
  warm : p.tasks ≠ [] → p.warmedUp = true
  signalled : p.notify.waiters ≠ [] → Signalled p calls

theorem Watched.warmed (watched : Watched p calls) (line : p.notify.waiters ≠ []) :
    p.warmedUp = true := by
  apply watched.warm
  intro nobody
  obtain ⟨first, member⟩ := List.exists_mem_of_ne_nil _ line
  obtain ⟨deadline, waiting⟩ := (watched.waits.waiting first).mp member
  simp [nobody] at waiting

theorem Signalled.step (watched : Watched p calls) (signals : Signals (p, calls) action)
    (change : Change p action q) (line : q.notify.waiters ≠ []) :
    Signalled q (p.noteCalls action calls) := by
  cases change with
  | task current move => exact move.signalled watched.waits current watched.signalled signals line
  | warm left fresh =>
      have warmed := watched.warmed line
      simp [warmedUp, left] at warmed
  | warmFail left =>
      have warmed := watched.warmed line
      simp [warmedUp, left] at warmed
  | warmPush ready =>
      have warmed := watched.warmed line
      simp [warmedUp, ready] at warmed
  | accept warm =>
      obtain ⟨idle, room⟩ := watched.signalled line
      have woken : tally Task.wakes (p.tasks ++ [.free]) calls = tally Task.wakes p.tasks calls :=
        totalAt_concat _
      have checked : tally Task.checks (p.tasks ++ [.free]) calls = tally Task.checks p.tasks calls :=
        totalAt_concat _
      refine ⟨?_, ?_⟩
      · simp only [wakeups, noteCalls, woken] at idle ⊢
        exact idle
      · simp only [wakeups, checks, noteCalls, woken, checked] at room ⊢
        exact room
  | reap warm resting due =>
      obtain ⟨idle, room⟩ := watched.signalled line
      have fewer := List.length_filter_le p.keeps p.idle
      have removed : p.reaper.removed = 0 := by rw [resting]; rfl
      have emptied : Reaper.removed
          (if 0 < p.idle.length - (p.idle.filter p.keeps).length then
            .evicted (p.idle.length - (p.idle.filter p.keeps).length)
          else .resting) = p.idle.length - (p.idle.filter p.keeps).length := by
        split
        · rfl
        · rw [Reaper.removed]
          omega
      refine ⟨?_, ?_⟩
      · change _ + Reaper.removed _ ≤ p.wakeups calls
        rw [emptied]
        change (p.idle.filter p.keeps).length + _ ≤ _
        omega
      · change _ + (_ + Reaper.removed _) ≤ p.wakeups calls + p.checks calls
        rw [emptied]
        change (p.idle.filter p.keeps).length + (p.config.maxPerBroker - p.count + _) ≤ _
        rw [vacant] at room
        omega
  | subtract evicted =>
      obtain ⟨idle, room⟩ := watched.signalled line
      refine ⟨?_, ?_⟩
      · exact Nat.le_trans (Nat.add_le_add_left (Nat.zero_le _) _) idle
      · change p.idle.length + (p.config.maxPerBroker - (p.count - _) + 0) ≤
          p.wakeups calls + p.checks calls
        rw [vacant, evicted, Reaper.removed] at room
        omega
  | reapNotify subtracted =>
      have before := notifyOne_line line
      obtain ⟨idle, room⟩ := (watched.signalled before).notifyOne watched.waits before
      have removed : p.notifyOne.reaper.removed = 0 := by
        rw [notifyOne_reaper, subtracted]
        rfl
      rw [removed] at idle
      rw [vacant, removed] at room
      exact ⟨idle, room⟩
  | tick elapsed =>
      obtain ⟨idle, room⟩ := watched.signalled line
      exact ⟨idle, room⟩
  | ended runs =>
      obtain ⟨idle, room⟩ := watched.signalled line
      exact ⟨idle, room⟩

theorem Change.stays_warm (change : Change p action q) (warm : p.tasks ≠ [] → p.warmedUp = true)
    (some : q.tasks ≠ []) : q.warmedUp = true := by
  cases change with
  | warm left fresh =>
      have warmed := warm some
      simp [warmedUp, left] at warmed
  | warmFail left => rfl
  | warmPush ready =>
      have warmed := warm some
      simp [warmedUp, ready] at warmed
  | accept warmed => exact warmed
  | @task i before after taskAction r current move =>
      have warmed : p.warmedUp = true := by
        apply warm
        rintro nobody
        simp [nobody] at current
      cases move with
      | notify => simpa [warmedUp, put] using warmed
      | _ => exact warmed
  | reapNotify subtracted =>
      have warmed : p.warmedUp = true := by
        apply warm
        rintro nobody
        apply some
        unfold notifyOne
        split <;> simp [nobody]
      simpa [warmedUp] using warmed
  | _ => exact warm some

variable {config : PoolLimits} {metrics : Metrics} {s : BrokerPool × Calls}

theorem watched_of_reach (reach : (called config metrics).Reach Signals s) : Watched s.1 s.2 := by
  induction reach with
  | initial first =>
      obtain ⟨started, empty⟩ := first
      rw [started]
      exact ⟨⟨List.nodup_nil, by simp [new]⟩, fun some => absurd rfl some, fun some => absurd rfl some⟩
  | @next s t action _ signals taken ih =>
      obtain ⟨stepped, noted⟩ := System.watch_step.mp taken
      have change := Change.of_step stepped
      refine ⟨ih.waits.step stepped, change.stays_warm ih.warm, fun line => ?_⟩
      rw [noted]
      exact Signalled.step ih signals change line

/-- A permit is stored, or a call that was woken has not looked again at both the queue and the
counter. -/
def WakeupPending (s : BrokerPool × Calls) : Prop :=
  s.1.notify.permit = true ∨ ∃ i, s.1.tasks[i]? = some .woken ∨
    (s.2 i).woken = true ∧ (s.1.tasks[i]? = some .tryIdle ∨ s.1.tasks[i]? = some .tryCreate)

theorem wakeupPending_of_pos (settled : ∀ j : Nat, s.1.tasks[j]? ≠ some Task.released)
    (positive : 0 < s.1.wakeups s.2 + s.1.checks s.2) : WakeupPending s := by
  cases permit : s.1.notify.permit with
  | true => exact .inl permit
  | false =>
      right
      by_cases woken : 0 < tally Task.wakes s.1.tasks s.2
      · obtain ⟨i, task, there, share⟩ := exists_of_totalAt_pos woken
        cases task with
        | woken => exact ⟨i, .inl there⟩
        | released => exact absurd there (settled i)
        | tryIdle =>
            have woke : (s.2 i).woken = true := by
              by_contra asleep
              rw [Bool.not_eq_true] at asleep
              simp only [Task.wakes, asleep] at share
              cases share
            exact ⟨i, .inr ⟨woke, .inl there⟩⟩
        | _ => exact absurd share (lt_irrefl 0)
      · rw [wakeups, permit, Bool.toNat_false] at positive
        have checking : 0 < tally Task.checks s.1.tasks s.2 := by
          rw [checks] at positive
          omega
        obtain ⟨i, task, there, share⟩ := exists_of_totalAt_pos checking
        cases task with
        | tryCreate =>
            have woke : (s.2 i).woken = true := by
              by_contra asleep
              rw [Bool.not_eq_true] at asleep
              simp only [Task.checks, asleep] at share
              cases share
            exact ⟨i, .inr ⟨woke, .inr there⟩⟩
        | _ => exact absurd share (lt_irrefl 0)

/-- While a call waits and could be served, a wakeup is pending, unless a release is about to send
one. -/
theorem wakeup_pending {i deadline : Nat} (reach : (called config metrics).Reach Signals s)
    (settled : ∀ j : Nat, s.1.tasks[j]? ≠ some Task.released)
    (blocked : s.1.tasks[i]? = some (.waiting deadline))
    (available : s.1.idle ≠ [] ∨ s.1.count < s.1.config.maxPerBroker) : WakeupPending s := by
  have watched := watched_of_reach reach
  have line : s.1.notify.waiters ≠ [] :=
    List.ne_nil_of_mem ((watched.waits.waiting i).mpr ⟨deadline, blocked⟩)
  obtain ⟨_, room⟩ := watched.signalled line
  apply wakeupPending_of_pos settled
  obtain queued | below := available
  · have some := List.length_pos_of_ne_nil queued
    omega
  · rw [vacant] at room
    omega

theorem wakeup_pending_release : ∃ s : BrokerPool × Calls,
    s.1.tasks[2]? = some (Task.waiting 5000) ∧ s.1.idle ≠ [] ∧ WakeupPending s := by
  obtain ⟨s, reach, tasks, queued⟩ := (called oneConnection (.new true)).exists_reach Signals
    (.new oneConnection (.new true), fun _ => ⟨false, []⟩)
    [.accept, .accept, .accept, .task 0 .acquire, .task 0 .tryIdle, .task 0 .tryCreate,
      .task 0 (.connect ⟨0, 1⟩), .task 0 .hand, .task 1 .acquire, .task 1 .tryIdle,
      .task 1 .tryCreate, .task 1 .wait, .task 2 .acquire, .task 2 .tryIdle, .task 2 .tryCreate,
      .task 2 .wait, .task 0 .release, .task 0 .push, .task 0 .notify]
    (fun s => s.1.tasks = [.free, .woken, .waiting 5000] ∧ s.1.idle ≠ []) ⟨rfl, rfl⟩ (by decide)
  have settled (j : Nat) : s.1.tasks[j]? ≠ some Task.released := by
    intro there
    have member := List.mem_of_getElem? there
    simp [tasks] at member
  have blocked : s.1.tasks[2]? = some (Task.waiting 5000) := by
    rw [tasks]
    rfl
  exact ⟨s, blocked, queued, wakeup_pending reach settled blocked (.inl queued)⟩

theorem wakeup_lost : ¬ ∀ s (i : Nat) deadline, (called oneConnection (.new true)).Reachable s →
    s.1.tasks[i]? = some (Task.waiting deadline) →
    (s.1.idle ≠ [] ∨ s.1.count < s.1.config.maxPerBroker) → WakeupPending s := by
  intro claim
  obtain ⟨s, reach, tasks, permit, below⟩ := (called oneConnection (.new true)).exists_reach
    (fun _ _ => True) (.new oneConnection (.new true), fun _ => ⟨false, []⟩)
    [.accept, .accept, .task 0 .acquire, .task 0 .tryIdle, .task 0 .tryCreate, .task 1 .acquire,
      .task 1 .tryIdle, .task 1 .tryCreate, .task 1 .wait, .task 0 .connectFail, .task 0 .rollback]
    (fun s => s.1.tasks = [.free, .waiting 5000] ∧ s.1.notify.permit = false ∧
      s.1.count < s.1.config.maxPerBroker) ⟨rfl, rfl⟩ (by decide)
  have pending := claim s 1 5000 reach (by rw [tasks]; rfl) (.inr below)
  obtain stored | ⟨i, looks⟩ := pending
  · rw [permit] at stored
    cases stored
  · rw [tasks] at looks
    match i with
    | 0 | 1 => simp at looks
    | i + 2 => simp at looks

end BrokerPool
end KafkaProxy
