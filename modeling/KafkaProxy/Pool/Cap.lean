import KafkaProxy.Pool.Slots

/-!
# The cap on connections and the arithmetic of the counter

Warmup opens up to `min_idle` connections that the counter never sees. The reaper subtracts them
like any other.
-/

namespace KafkaProxy
open Library

def Task.writeTx : Task → Option Nat
  | .created conn | .leased conn | .releasing conn _ => some conn.writeTx
  | .free | .tryIdle | .tryCreate | .creating | .rollback | .full | .waiting _ | .woken | .released =>
      none

def Task.isCreating : Task → Bool
  | .creating => true
  | _ => false

namespace BrokerPool

def held (p : BrokerPool) : List Nat :=
  p.idle.map (·.writeTx) ++ p.tasks.filterMap Task.writeTx ++
    p.warmup.ready.toList.map (·.writeTx)

def live (p : BrokerPool) : Nat := (p.running.filter (· ∈ p.held)).length

def creating (p : BrokerPool) : Nat :=
  p.tasks.countP Task.isCreating + (0 < p.warmup.remaining && p.warmup.ready.isNone).toNat

def unwarmed (p : BrokerPool) : Nat := p.warmup.remaining + p.warmup.ready.toList.length

variable {p q : BrokerPool} {action : PoolAction} {config : PoolLimits} {metrics : Metrics}

theorem Change.unwarmed_le (change : Change p action q) : q.unwarmed ≤ p.unwarmed := by
  cases change with
  | warm left fresh => simp [unwarmed, left]
  | warmFail left => simp [unwarmed]
  | warmPush ready => simp [unwarmed, ready]
  | task current move =>
      cases move with
      | notify => simp [unwarmed, put]
      | _ => exact le_rfl
  | reapNotify subtracted => simp [unwarmed]
  | _ => exact le_rfl

theorem Change.unwarmed_warmPush (change : Change p .warmPush q) : q.unwarmed + 1 = p.unwarmed := by
  cases change with
  | warmPush ready => simp [unwarmed, ready]

structure Capped (config : PoolLimits) (p : BrokerPool) : Prop where
  counted : p.slots + p.unwarmed ≤ p.count + config.minIdle
  bounded : p.slots + p.unwarmed ≤ config.maxPerBroker + config.minIdle

theorem capped (reachable : (system config metrics).Reachable p) : Capped config p := by
  apply System.Reach.invariant (system config metrics).Reachable (Capped config) (fun _ before => before) ?_ ?_ reachable
  · intro first initial
    rw [initial]
    constructor <;> simp [slots, unwarmed, new, Reaper.removed]
  · intro before action after reached capped _ taken
    have accounted := accounts_of_reach reached taken
    have change : Change before action after := .of_step taken
    have shrinks := change.unwarmed_le
    have limit := config_of_reach reached
    obtain ⟨counted, bounded⟩ := capped
    have wraps : before.count ≤ usizeSub before.count 1 + 1 := by
      unfold usizeSub
      split <;> omega
    suffices moved : after.slots + after.unwarmed ≤ after.count + config.minIdle ∧
        after.slots + after.unwarmed ≤ config.maxPerBroker + config.minIdle from ⟨moved.1, moved.2⟩
    generalize after.count = count, after.slots = slots at accounted ⊢
    cases accounted with
    | keep => omega
    | reserve room =>
        rw [limit] at room
        omega
    | rollback rolls had => omega
    | lose discarded had => omega
    | gain pushed =>
        subst pushed
        have moved := change.unwarmed_warmPush
        omega
    | reclaim had => omega

theorem Change.running (change : Change p action q) (nodup : p.running.Nodup)
    (subset : p.running ⊆ p.created) : q.running.Nodup ∧ q.running ⊆ q.created := by
  cases change with
  | warm left fresh =>
      exact ⟨List.nodup_cons.mpr ⟨fun member => fresh (subset member), nodup⟩,
        List.cons_subset_cons _ subset⟩
  | task current move =>
      cases move with
      | connect fresh =>
          exact ⟨List.nodup_cons.mpr ⟨fun member => fresh (subset member), nodup⟩,
            List.cons_subset_cons _ subset⟩
      | notify =>
          simp only [put, notifyOne_running, notifyOne_created]
          exact ⟨nodup, subset⟩
      | _ => exact ⟨nodup, subset⟩
  | ended runs => exact ⟨nodup.erase _, fun c member => subset (List.mem_of_mem_erase member)⟩
  | reapNotify subtracted =>
      simp only [notifyOne_running, notifyOne_created]
      exact ⟨nodup, subset⟩
  | _ => exact ⟨nodup, subset⟩

theorem running_nodup (reachable : (system config metrics).Reachable p) :
    p.running.Nodup ∧ p.running ⊆ p.created := by
  induction reachable with
  | initial first =>
      rw [first]
      simp [new]
  | next _ _ taken ih => exact (Change.of_step taken).running ih.1 ih.2

theorem live_add_creating_le (nodup : p.running.Nodup) :
    p.live + p.creating ≤ p.slots + p.unwarmed := by
  have few : p.live ≤ p.held.length := by
    apply List.Subperm.length_le
    apply List.subperm_of_subset (nodup.filter _)
    intro c member
    simpa using (List.mem_filter.mp member).2
  have tasks := length_filterMap_add_countP_le Task.slots p.tasks Task.writeTx Task.isCreating
    (by intro task; cases task <;> simp [Task.writeTx, Task.isCreating, Task.slots])
  have warm : (0 < p.warmup.remaining && p.warmup.ready.isNone).toNat ≤ p.warmup.remaining := by
    cases p.warmup.remaining <;> cases p.warmup.ready <;> simp
  simp only [held, List.length_append, List.length_map] at few
  simp only [creating, slots, unwarmed]
  omega

theorem live_add_creating_le_max (reachable : (system config metrics).Reachable p) :
    p.live + p.creating ≤ config.maxPerBroker + config.minIdle :=
  (live_add_creating_le (running_nodup reachable).1).trans (capped reachable).bounded

/-! ## Without warm connections -/

def RollsBackCounted (p : BrokerPool) : Prop :=
  ∀ i : Nat, p.tasks[i]? = some Task.rollback → 0 < p.count

theorem Capped.rollsBackCounted (capped : Capped config p) (cold : config.minIdle = 0) :
    RollsBackCounted p := by
  intro i current
  have share := share_le_total Task.slots (List.mem_of_getElem? current)
  have counted := capped.counted
  simp only [slots, Task.slots] at counted share
  omega

theorem count_le_max (cold : config.minIdle = 0) (reachable : (system config metrics).Reachable p) :
    p.count ≤ config.maxPerBroker := by
  apply System.Reach.invariant (system config metrics).Reachable
    (fun p => p.count ≤ config.maxPerBroker) (fun _ before => before) ?_ ?_ reachable
  · intro first initial
    rw [initial]
    exact Nat.zero_le _
  · intro before action after reached bounded _ taken
    have accounted := accounts_of_reach reached taken
    have counted := (capped reached).counted
    have limit := config_of_reach reached
    generalize after.count = count, after.slots = slots at accounted ⊢
    cases accounted with
    | keep => exact bounded
    | reserve room =>
        rw [limit] at room
        omega
    | rollback rolls had =>
        rw [usizeSub, if_pos (by omega)]
        omega
    | lose discarded had => exact bounded
    | gain pushed => exact bounded
    | reclaim had => omega

/-! ## With warm connections -/

def oneWarm (config : PoolLimits) (metrics : Metrics) : BrokerPool :=
  { new config metrics.incUpstreamConnections with
    idle := [⟨⟨0, 1⟩, true, 0⟩], warmup := ⟨0, none⟩, running := [0], created := [0] }

theorem oneWarm_reachable (metrics : Metrics) (warm : 0 < config.minIdle) :
    (system config metrics).Reachable (oneWarm config metrics) := by
  obtain ⟨others, positive⟩ := Nat.exists_eq_succ_of_ne_zero (Nat.ne_of_gt warm)
  have started : (system config metrics).Reachable (new config metrics) := .initial rfl
  have opened := started.next (a := .warm ⟨0, 1⟩)
    (t := { spawn (new config metrics) ⟨0, 1⟩ with warmup := ⟨others, some ⟨0, 1⟩⟩ })
    (by simp [system, step, new, positive])
  have queued := opened.next (a := .warmPush) rfl
  cases others with
  | zero => exact queued
  | succ others => exact queued.next (a := .warmFail) rfl

theorem reachable_task {task next : Task} {i : Nat} {action : TaskAction}
    (reachable : (system config metrics).Reachable p) (current : p.tasks[i]? = some task)
    (move : Move p i task action q next) : (system config metrics).Reachable (q.put i next) :=
  reachable.next (a := .task i action) (Move.step current move)

structure Crowded (config : PoolLimits) (p : BrokerPool) (k : Nat) : Prop where
  limits : p.config = config
  warm : p.warmup = ⟨0, none⟩
  idle : p.idle = []
  resting : p.reaper = .resting
  running : p.running = [0]
  tasks : p.tasks = .leased ⟨0, 1⟩ :: List.replicate k .creating
  count : p.count = k
  now : p.now = 0
  nextScan : p.nextScan = 0

theorem Crowded.next {k : Nat} (crowded : Crowded config p k)
    (reachable : (system config metrics).Reachable p) (room : k < config.maxPerBroker) :
    ∃ q, Crowded config q (k + 1) ∧ (system config metrics).Reachable q := by
  have length : p.tasks.length = k + 1 := by simp [crowded.tasks]
  have accepted := reachable.next (a := .accept) (t := { p with tasks := p.tasks ++ [.free] })
    (by simp [system, step, warmedUp, crowded.warm])
  have current : (p.tasks ++ [Task.free])[k + 1]? = some .free := by simp [length]
  have acquired := reachable_task accepted current .acquire
  have searching := put_current (p := { p with tasks := _ }) current .tryIdle
  have missed := reachable_task acquired searching
    (.miss (by simp [idleLocked, crowded.resting]) crowded.idle)
  have trying := put_current searching .tryCreate
  have reserved := reachable_task missed trying
    (.reserve (by simpa [crowded.count, crowded.limits] using room))
  refine ⟨_, ?_, reserved⟩
  refine ⟨crowded.limits, crowded.warm, crowded.idle, crowded.resting, crowded.running, ?_, ?_,
    crowded.now, crowded.nextScan⟩
  · simp [put, crowded.tasks, List.replicate_succ']
  · simp [crowded.count]

theorem crowded_reachable (metrics : Metrics) (warm : 0 < config.minIdle) (k : Nat) (room : k ≤ config.maxPerBroker) :
    ∃ p, Crowded config p k ∧ (system config metrics).Reachable p := by
  induction k with
  | zero =>
      have accepted := (oneWarm_reachable metrics warm).next (a := .accept) rfl
      have acquired := accepted.next (a := .task 0 .acquire) rfl
      have leased := acquired.next (a := .task 0 .tryIdle) rfl
      exact ⟨_, ⟨rfl, rfl, rfl, rfl, rfl, rfl, rfl, rfl, rfl⟩, leased⟩
  | succ k ih =>
      obtain ⟨p, crowded, reachable⟩ := ih (Nat.le_of_succ_le room)
      exact crowded.next reachable room

theorem Crowded.exceeds {k : Nat} (crowded : Crowded config p k) : k < p.live + p.creating := by
  have live : p.live = 1 := by
    simp [BrokerPool.live, held, crowded.running, crowded.idle, crowded.tasks, crowded.warm,
      Task.writeTx]
  have creating : p.creating = k := by
    simp [BrokerPool.creating, crowded.tasks, crowded.warm, Task.isCreating,
      List.countP_replicate]
  omega

/-- The cap holds in all runs exactly if no connections are kept warm. -/
theorem live_add_creating_le_max_iff :
    (∀ p, (system config metrics).Reachable p → p.live + p.creating ≤ config.maxPerBroker) ↔
      config.minIdle = 0 := by
  constructor
  · intro capped
    by_contra warm
    obtain ⟨p, crowded, reachable⟩ := crowded_reachable metrics
      (Nat.pos_of_ne_zero warm) config.maxPerBroker le_rfl
    have within := capped p reachable
    have exceeds := crowded.exceeds
    omega
  · intro cold p reachable
    have bounded := live_add_creating_le_max reachable
    rwa [cold, Nat.add_zero] at bounded

def oneWarmConnection : PoolLimits := ⟨1, 1, 300000, 5000⟩

theorem warm_exceeds_cap : ¬ ∀ p, (system oneWarmConnection (.new true)).Reachable p →
    p.live + p.creating ≤ oneWarmConnection.maxPerBroker := by
  intro claim
  obtain ⟨p, reachable, two⟩ := (system oneWarmConnection (.new true)).exists_reach
    (fun _ _ => True) (.new oneWarmConnection (.new true))
    [.warm ⟨0, 1⟩, .warmPush, .accept, .task 0 .acquire, .task 0 .tryIdle, .accept,
      .task 1 .acquire, .task 1 .tryIdle, .task 1 .tryCreate, .task 1 (.connect ⟨1, 2⟩),
      .task 1 .hand]
    (fun p => p.live = 2) rfl (by decide)
  have within := claim p reachable
  rw [two] at within
  exact absurd (Nat.le_of_add_right_le within) (by decide)

theorem reachable_reap_expired (reachable : (system config metrics).Reachable p)
    (warm : p.warmedUp = true) (resting : p.reaper = .resting) (due : p.nextScan ≤ p.now)
    (expired : ∀ conn ∈ p.idle, p.keeps conn = false) (positive : 0 < p.idle.length) :
    (system config metrics).Reachable { p with
      idle := []
      metrics := Metrics.decUpstreamConnections^[p.idle.length] p.metrics
      reaper := .evicted p.idle.length
      nextScan := p.nextScan + scanPeriod } := by
  have nothing : p.idle.filter p.keeps = [] :=
    List.filter_eq_nil_iff.mpr fun conn member => by simp [expired conn member]
  apply reachable.next (a := .reap)
  simp [system, step, warm, resting, due, nothing, positive]

theorem uncounted_reachable (metrics : Metrics) (warm : 0 < config.minIdle) (room : 0 < config.maxPerBroker) :
    ∃ p, (system config metrics).Reachable p ∧ p.count = 0 ∧ p.tasks[1]? = some .rollback := by
  obtain ⟨p, crowded, reachable⟩ := crowded_reachable metrics warm 1 room
  have leased : p.tasks[0]? = some (.leased ⟨0, 1⟩) := by simp [crowded.tasks]
  have releasing := reachable_task reachable leased .release
  have queued := reachable_task releasing (put_current leased _)
    (.push (by simp [idleLocked, crowded.resting])
      (by simpa [crowded.idle, crowded.limits] using room))
  have later := queued.next (a := .tick config.idleTimeout) rfl
  have evicted := reachable_reap_expired later
    (by simp [warmedUp, put, crowded.warm])
    crowded.resting
    (by simp [put, crowded.now, crowded.nextScan])
    (fun conn member => by
      simp only [put, crowded.idle, List.nil_append, List.mem_singleton] at member
      simp [member, keeps, put, crowded.now, crowded.limits])
    (by simp [put])
  have subtracted := evicted.next (a := .subtract) rfl
  have creating : ((p.tasks.set 0 (.releasing ⟨0, 1⟩ p.now)).set 0 .released)[1]? =
      some .creating := by
    simp [crowded.tasks]
  have failed := reachable_task subtracted creating .connectFail
  refine ⟨_, failed, ?_, put_current (p := { p with tasks := _ }) creating .rollback⟩
  simp [put, crowded.count, crowded.idle]

/-- The counter stays in its range, and is positive whenever a failed creation takes it back, in all
runs exactly if no connections are kept warm. -/
theorem count_le_max_iff (fits : config.minIdle ≤ config.maxPerBroker) :
    (∀ p, (system config metrics).Reachable p →
      p.count ≤ config.maxPerBroker ∧ RollsBackCounted p) ↔ config.minIdle = 0 := by
  constructor
  · intro kept
    by_contra warm
    have positive := Nat.pos_of_ne_zero warm
    obtain ⟨p, reachable, zero, current⟩ := uncounted_reachable metrics positive
      (positive.trans_le fits)
    have counted := (kept p reachable).2 1 current
    omega
  · intro cold p reachable
    exact ⟨count_le_max cold reachable, (capped reachable).rollsBackCounted cold⟩

theorem count_le_max_oneConnection :
    (∀ p, (system oneConnection (.new true)).Reachable p →
      p.count ≤ 1 ∧ RollsBackCounted p) ↔ 0 = 0 :=
  @count_le_max_iff oneConnection _ (by decide)

theorem rollback_underflows : ¬ ∀ p, (system oneWarmConnection (.new true)).Reachable p →
    p.count ≤ oneWarmConnection.maxPerBroker ∧ RollsBackCounted p := by
  intro claim
  obtain ⟨p, reachable, wrapped⟩ := (system oneWarmConnection (.new true)).exists_reach
    (fun _ _ => True) (.new oneWarmConnection (.new true))
    [.warm ⟨0, 1⟩, .warmPush, .reap, .accept, .accept, .task 0 .acquire, .task 0 .tryIdle,
      .task 1 .acquire, .task 1 .tryIdle, .task 1 .tryCreate, .task 0 .release, .task 0 .push,
      .task 0 .notify, .tick 310000, .reap, .subtract, .reapNotify, .task 1 .connectFail,
      .task 1 .rollback]
    (fun p => p.count = 2 ^ 64 - 1) rfl (by decide)
  have within := (claim p reachable).1
  rw [wrapped] at within
  exact absurd within (by decide)

end BrokerPool
end KafkaProxy
