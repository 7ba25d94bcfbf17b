import KafkaProxy.Library.Watch
import KafkaProxy.Pool.Slots

/-!
# How old an idle connection becomes

A connection joins the queue at the end and `acquire` takes the first one, so while the tasks keep up
the queue is in the order of the last uses. A scan then evicts from its front.
-/

namespace KafkaProxy
open Library

def Task.isReleasing : Task → Bool
  | .releasing .. => true
  | .free | .tryIdle | .tryCreate | .creating | .created _ | .rollback | .full | .waiting _ | .woken
  | .leased _ | .released => false

namespace BrokerPool

def noteScan (p : BrokerPool) (action : PoolAction) (scanned : Option Nat) : Option Nat :=
  match action with
  | .reap => some p.now
  | _ => scanned

def scanning (config : PoolLimits) (metrics : Metrics) : System (BrokerPool × Option Nat) PoolAction :=
  (system config metrics).watch none noteScan

/-- Scans come `gap` apart at most, and a task that gives a connection back does not wait. -/
def Timely (gap : Nat) (s : BrokerPool × Option Nat) (action : PoolAction) : Prop :=
  ∀ elapsed, action = .tick elapsed → elapsed = 0 ∨
    (∀ task ∈ s.1.tasks, task.isReleasing = false) ∧ ∀ scan, s.2 = some scan → s.1.now + elapsed ≤ scan + gap

instance (gap : Nat) (s : BrokerPool × Option Nat) (action : PoolAction) : Decidable (Timely gap s action) :=
  match action with
  | .tick elapsed => decidable_of_iff (elapsed = 0 ∨ (∀ task ∈ s.1.tasks, task.isReleasing = false) ∧
      ∀ scan ∈ s.2, s.1.now + elapsed ≤ scan + gap) (by simp [Timely])
  | .warm _ | .warmFail | .warmPush | .accept | .task .. | .reap | .subtract | .reapNotify | .ended _ =>
      isTrue fun _ same => by cases same

variable {p q : BrokerPool} {action : PoolAction} {config : PoolLimits} {metrics : Metrics}
  {scanned : Option Nat} {gap : Nat} {i : Nat} {task next : Task}

structure Ordered (idle : List PooledConn) (now timeout : Nat) (scanned : Option Nat) : Prop where
  sorted : idle.Pairwise (·.lastUsed ≤ ·.lastUsed)
  past : ∀ conn ∈ idle, conn.lastUsed ≤ now
  fresh : ∀ scan, scanned = some scan → ∀ conn ∈ idle, scan ≤ conn.lastUsed + timeout

namespace Ordered

variable {idle kept : List PooledConn} {now timeout : Nat}

theorem push (ordered : Ordered idle now timeout scanned) (recent : ∀ scan, scanned = some scan → scan ≤ now)
    {conn : PooledConn} (used : conn.lastUsed = now) : Ordered (idle ++ [conn]) now timeout scanned := by
  refine ⟨?_, fun other member => ?_, fun scan known other member => ?_⟩
  · rw [List.pairwise_append]
    refine ⟨ordered.sorted, List.pairwise_singleton _ _, fun other member last same => ?_⟩
    rw [List.mem_singleton.mp same, used]
    exact ordered.past other member
  · rcases List.mem_append.mp member with old | new
    · exact ordered.past other old
    · rw [List.mem_singleton.mp new, used]
  · rcases List.mem_append.mp member with old | new
    · exact ordered.fresh scan known other old
    · rw [List.mem_singleton.mp new, used]
      exact (recent scan known).trans (Nat.le_add_right _ _)

theorem sublist (ordered : Ordered idle now timeout scanned) (fewer : kept.Sublist idle) :
    Ordered kept now timeout scanned :=
  ⟨ordered.sorted.sublist fewer, fun conn member => ordered.past conn (fewer.subset member),
    fun scan known conn member => ordered.fresh scan known conn (fewer.subset member)⟩

theorem later (ordered : Ordered idle now timeout scanned) {then_ : Nat} (le : now ≤ then_) :
    Ordered idle then_ timeout scanned :=
  ⟨ordered.sorted, fun conn member => (ordered.past conn member).trans le, ordered.fresh⟩

end Ordered

structure Aged (gap : Nat) (p : BrokerPool) (scanned : Option Nat) : Prop where
  releasing : ∀ conn lastUsed, Task.releasing conn lastUsed ∈ p.tasks → lastUsed = p.now
  queue : Ordered p.idle p.now p.config.idleTimeout scanned
  recent : ∀ scan, scanned = some scan → scan ≤ p.now ∧ p.now ≤ scan + gap

theorem mem_notifyOne {conn : Acquired} {lastUsed : Nat}
    (member : Task.releasing conn lastUsed ∈ p.notifyOne.tasks) : Task.releasing conn lastUsed ∈ p.tasks := by
  unfold notifyOne at member
  split at member
  · exact member
  · rcases List.mem_or_eq_of_mem_set member with old | new
    · exact old
    · cases new

theorem Aged.notifyOne (aged : Aged gap p scanned) : Aged gap p.notifyOne scanned := by
  obtain ⟨releasing, queue, recent⟩ := aged
  constructor
  · intro conn lastUsed member
    rw [notifyOne_now]
    exact releasing conn lastUsed (mem_notifyOne member)
  · rw [notifyOne_now, notifyOne_idle, notifyOne_config]
    exact queue
  · rw [notifyOne_now]
    exact recent

theorem Aged.put (aged : Aged gap p scanned)
    (used : ∀ conn lastUsed, next = .releasing conn lastUsed → lastUsed = p.now) :
    Aged gap (p.put i next) scanned := by
  refine ⟨fun conn lastUsed member => ?_, aged.queue, aged.recent⟩
  rcases List.mem_or_eq_of_mem_set member with old | new
  · exact aged.releasing conn lastUsed old
  · exact used conn lastUsed new.symm

theorem Move.aged {taskAction : TaskAction} (aged : Aged gap p scanned) (current : p.tasks[i]? = some task)
    (move : Move p i task taskAction q next) : Aged gap (q.put i next) scanned := by
  have recent (scan : Nat) (known : scanned = some scan) : scan ≤ p.now := (aged.recent scan known).1
  cases move with
  | reuse unlocked queue alive =>
      apply Aged.put _ (by simp)
      exact ⟨aged.releasing, aged.queue.sublist (queue ▸ List.sublist_cons_self _ _), aged.recent⟩
  | bury unlocked queue dead =>
      apply Aged.put _ (by simp)
      exact ⟨aged.releasing, aged.queue.sublist (queue ▸ List.sublist_cons_self _ _), aged.recent⟩
  | push unlocked room =>
      apply Aged.put _ (by simp)
      have used := aged.releasing _ _ (List.mem_of_getElem? current)
      exact ⟨aged.releasing, aged.queue.push recent used, aged.recent⟩
  | release => exact aged.put fun conn lastUsed same => by cases same; rfl
  | notify => exact aged.notifyOne.put (by simp)
  | _ =>
      apply Aged.put _ (by simp)
      exact ⟨aged.releasing, aged.queue, aged.recent⟩

theorem Change.aged {s : BrokerPool × Option Nat} (aged : Aged gap s.1 s.2) (timely : Timely gap s action)
    (change : Change s.1 action q) : Aged gap q (s.1.noteScan action s.2) := by
  obtain ⟨p, scanned⟩ := s
  have recent (scan : Nat) (known : scanned = some scan) : scan ≤ p.now := (aged.recent scan known).1
  cases change with
  | task current move => exact move.aged aged current
  | warm left fresh => exact ⟨aged.releasing, aged.queue, aged.recent⟩
  | warmFail left => exact ⟨aged.releasing, aged.queue, aged.recent⟩
  | warmPush ready => exact ⟨aged.releasing, aged.queue.push recent rfl, aged.recent⟩
  | subtract evicted => exact ⟨aged.releasing, aged.queue, aged.recent⟩
  | ended runs => exact ⟨aged.releasing, aged.queue, aged.recent⟩
  | accept warm =>
      refine ⟨fun conn lastUsed member => ?_, aged.queue, aged.recent⟩
      exact aged.releasing conn lastUsed (by simpa using member)
  | reapNotify subtracted =>
      have notified := aged.notifyOne
      exact ⟨notified.releasing, notified.queue, notified.recent⟩
  | tick elapsed =>
      refine ⟨fun conn lastUsed member => ?_, aged.queue.later (Nat.le_add_right _ _), fun scan known => ?_⟩
      · rcases timely elapsed rfl with rfl | ⟨none, _⟩
        · exact aged.releasing conn lastUsed member
        · cases none _ member
      · refine ⟨(recent scan known).trans (Nat.le_add_right _ _), ?_⟩
        rcases timely elapsed rfl with rfl | ⟨_, soon⟩
        · exact (aged.recent scan known).2
        · exact soon scan known
  | reap warm resting due =>
      refine ⟨aged.releasing, ⟨?_, ?_, ?_⟩, ?_⟩
      · exact aged.queue.sorted.filter _
      · exact fun conn member => aged.queue.past conn (List.mem_of_mem_filter member)
      · intro scan known conn member
        cases known
        have kept := (List.mem_filter.mp member).2
        simp only [keeps, Bool.not_or, Bool.and_eq_true, Bool.not_eq_true', decide_eq_false_iff_not] at kept
        show p.now ≤ conn.lastUsed + p.config.idleTimeout
        omega
      · intro scan known
        cases known
        exact ⟨Nat.le_refl _, Nat.le_add_right _ _⟩

variable {s t : BrokerPool × Option Nat}

theorem aged_of_reach (reach : (scanning config metrics).Reach (Timely gap) s) : Aged gap s.1 s.2 := by
  induction reach with
  | initial first =>
      obtain ⟨started, empty⟩ := first
      rw [started, empty]
      exact ⟨by simp [new], ⟨List.Pairwise.nil, by simp [new], by simp⟩, by simp⟩
  | next _ timely taken ih =>
      obtain ⟨stepped, noted⟩ := System.watch_step.mp taken
      rw [noted]
      exact (Change.of_step stepped).aged ih timely

/-! ## What a scan evicts -/

theorem filter_eq_dropWhile {τ : Type} {test : τ → Bool} {l : List τ}
    (sorted : l.Pairwise fun first later => test first = true → test later = true) :
    l.filter test = l.dropWhile (!test ·) := by
  induction l with
  | nil => rfl
  | cons first rest ih =>
      obtain ⟨later, sorted⟩ := List.pairwise_cons.mp sorted
      cases passes : test first with
      | false => rw [List.filter_cons_of_neg (by simp [passes]), List.dropWhile_cons_of_pos (by simp [passes]), ih sorted]
      | true =>
          rw [List.dropWhile_cons_of_neg (by simp [passes]), List.filter_eq_self]
          intro other member
          rcases List.mem_cons.mp member with rfl | tail
          · exact passes
          · exact later other tail passes

theorem keeps_iff {conn : PooledConn} (alive : conn.alive = true) :
    p.keeps conn = true ↔ p.now - conn.lastUsed < p.config.idleTimeout := by
  simp [keeps, alive]

/-- The queue stays in the order of the last uses, and after the first scan nothing in it is older than the
idle timeout and the gap between two scans. A scan evicts from the front, and exactly what has reached
the idle timeout. -/
theorem idle_aged (reach : (scanning config metrics).Reach (Timely gap) s) :
    s.1.idle.Pairwise (·.lastUsed ≤ ·.lastUsed) ∧
    (∀ scan, s.2 = some scan → ∀ conn ∈ s.1.idle, s.1.now ≤ conn.lastUsed + config.idleTimeout + gap) ∧
    ∀ t, (scanning config metrics).step s .reap = some t → ∃ evicted, s.1.idle = evicted ++ t.1.idle ∧
      (∀ conn ∈ evicted, config.idleTimeout ≤ s.1.now - conn.lastUsed) ∧
        ∀ conn ∈ t.1.idle, s.1.now - conn.lastUsed < config.idleTimeout := by
  have base := System.Reach.reachable reach
  have unwatched : (system config metrics).Reachable s.1 := System.Reach.unwatched base
  have aged := aged_of_reach reach
  have limits := config_of_reach unwatched
  have alive := idle_alive unwatched
  refine ⟨aged.queue.sorted, fun scan known conn member => ?_, fun t taken => ?_⟩
  · have fresh := aged.queue.fresh scan known conn member
    have recent := (aged.recent scan known).2
    rw [limits] at fresh
    omega
  · have stepped : s.1.step .reap = some t.1 := (System.watch_step.mp taken).1
    have change := Change.of_step stepped
    have idle : t.1.idle = s.1.idle.filter s.1.keeps := by
      generalize t.1 = q at change
      cases change with
      | reap warm resting due => rfl
    have sorted : s.1.idle.Pairwise fun first later => s.1.keeps first = true → s.1.keeps later = true := by
      refine aged.queue.sorted.imp_of_mem fun {first later} front back order kept => ?_
      rw [keeps_iff (alive _ front)] at kept
      rw [keeps_iff (alive _ back)]
      omega
    refine ⟨s.1.idle.takeWhile (!s.1.keeps ·), ?_, fun conn member => ?_, fun conn member => ?_⟩
    · rw [idle, filter_eq_dropWhile sorted, List.takeWhile_append_dropWhile]
    · have evicted := List.all_eq_true.mp List.all_takeWhile conn member
      have kept := keeps_iff (p := s.1) (alive conn (List.takeWhile_subset _ member))
      rw [Bool.not_eq_true'] at evicted
      simpa [evicted, limits] using kept
    · rw [idle] at member
      have kept := (keeps_iff (alive conn (List.mem_of_mem_filter member))).mp (List.mem_filter.mp member).2
      rwa [← limits]

theorem idle_aged_two : ∃ s t : BrokerPool × Option Nat, s.1.idle.map (·.connId) = [1, 2] ∧
    t.1.idle.map (·.connId) = [2] ∧ s.1.idle.Pairwise (·.lastUsed ≤ ·.lastUsed) ∧
    (∀ conn ∈ s.1.idle, s.1.now ≤ conn.lastUsed + 15000 + 10000) ∧
      ∃ evicted, s.1.idle = evicted ++ t.1.idle ∧ ∀ conn ∈ evicted, 15000 ≤ s.1.now - conn.lastUsed := by
  obtain ⟨s, reach, idle, scan, after⟩ := (scanning ⟨2, 2, 15000, 5000⟩ (.new true)).exists_reach
    (Timely 10000) (.new ⟨2, 2, 15000, 5000⟩ (.new true), none)
    [.warm ⟨0, 1⟩, .warmPush, .tick 5000, .warm ⟨1, 2⟩, .warmPush, .reap, .tick 10000]
    (fun s => s.1.idle.map (·.connId) = [1, 2] ∧ s.2 = some 5000 ∧
      (((scanning ⟨2, 2, 15000, 5000⟩ (.new true)).step s .reap).map fun t => t.1.idle.map (·.connId)) =
        some [2]) ⟨rfl, rfl⟩ (by decide)
  obtain ⟨t, taken, left⟩ := Option.map_eq_some_iff.mp after
  obtain ⟨sorted, young, evicts⟩ := idle_aged reach
  obtain ⟨evicted, split, old, _⟩ := evicts t taken
  exact ⟨s, t, idle, left, sorted, young 5000 scan, evicted, split, old⟩

end BrokerPool
end KafkaProxy
