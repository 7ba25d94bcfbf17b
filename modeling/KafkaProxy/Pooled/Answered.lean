import KafkaProxy.Library.Watch
import KafkaProxy.Pool.Dead
import KafkaProxy.Pool.Warm
import KafkaProxy.Pooled.Abandon

/-!
# Brokers that answer within the idle timeout

The reaper goes by the time since a connection was given back, and its requests were registered before
that. So it evicts no connection with a request in flight if every request is answered within
`idle_timeout`.
-/

namespace KafkaProxy
open Library

namespace BrokerPool

def Resting (p : BrokerPool) (k lastUsed : Nat) : Prop :=
  (∃ conn ∈ p.idle, conn.writeTx = k ∧ conn.lastUsed = lastUsed) ∨
    ∃ (j : Nat) (conn : Acquired), p.tasks[j]? = some (.releasing conn lastUsed) ∧ conn.writeTx = k

variable {p q : BrokerPool} {action : PoolAction} {i k lastUsed : Nat} {task next : Task}
  {config : PoolLimits} {metrics : Metrics} {allowed : BrokerPool → PoolAction → Prop}

theorem Resting.held (rests : p.Resting k lastUsed) : k ∈ p.held := by
  obtain ⟨conn, queued, own, _⟩ | ⟨j, conn, there, own⟩ := rests
  · exact mem_held.mpr (.inl ⟨conn, queued, own⟩)
  · exact mem_held.mpr (.inr (.inl ⟨j, _, there, congrArg some own⟩))

theorem Resting.not_leased {conn : Acquired} (nodup : p.held.Nodup)
    (leased : p.tasks[i]? = some (.leased conn)) : ¬ p.Resting conn.writeTx lastUsed := by
  intro rests
  obtain ⟨both, _, _⟩ := List.nodup_append.mp nodup
  obtain ⟨_, tasks, apart⟩ := List.nodup_append.mp both
  obtain ⟨idle, queued, own, _⟩ | ⟨j, other, there, own⟩ := rests
  · have member : conn.writeTx ∈ p.tasks.filterMap Task.writeTx :=
      List.mem_filterMap.mpr ⟨_, List.mem_of_getElem? leased, rfl⟩
    exact apart _ (List.mem_map_of_mem queued) _ member own
  · obtain rfl := eq_of_nodup_filterMap tasks leased there rfl (congrArg some own)
    rw [leased] at there
    cases there

theorem Move.resting {taskAction : TaskAction} (current : p.tasks[i]? = some task)
    (move : Move p i task taskAction q next) (rests : (q.put i next).Resting k lastUsed) :
    p.Resting k lastUsed ∨ lastUsed = p.now := by
  obtain ⟨conn, queued, own, used⟩ | ⟨j, conn, there, own⟩ := rests
  · have stayed (same : q.idle = p.idle) : p.Resting k lastUsed := .inl ⟨conn, same ▸ queued, own, used⟩
    cases move with
    | reuse unlocked queue live =>
        exact .inl (.inl ⟨conn, queue ▸ List.mem_cons_of_mem _ queued, own, used⟩)
    | bury unlocked queue dead =>
        exact .inl (.inl ⟨conn, queue ▸ List.mem_cons_of_mem _ queued, own, used⟩)
    | push unlocked room =>
        obtain old | new := List.mem_append.mp queued
        · exact .inl (.inl ⟨conn, old, own, used⟩)
        · cases List.mem_singleton.mp new
          cases used
          exact .inl (.inr ⟨i, _, current, own⟩)
    | notify => exact .inl (stayed notifyOne_idle)
    | _ => exact .inl (stayed rfl)
  · rw [put, List.getElem?_set] at there
    split at there
    · split at there <;> cases there
      cases move with
      | release => exact .inr rfl
    · have stayed (same : q.tasks = p.tasks) : p.Resting k lastUsed := .inr ⟨j, conn, same ▸ there, own⟩
      cases move with
      | notify => exact .inl (.inr ⟨j, conn, writeTx_of_notifyOne there rfl, own⟩)
      | _ => exact .inl (stayed rfl)

theorem Change.resting (change : Change p action q) (rests : q.Resting k lastUsed) :
    p.Resting k lastUsed ∨ lastUsed = p.now := by
  cases change with
  | task current move => exact move.resting current rests
  | @warmPush ready remaining there =>
      obtain ⟨conn, queued, own, used⟩ | tasks := rests
      · obtain old | new := List.mem_append.mp queued
        · exact .inl (.inl ⟨conn, old, own, used⟩)
        · cases List.mem_singleton.mp new
          exact .inr used.symm
      · exact .inl (.inr tasks)
  | accept warm =>
      obtain idle | ⟨j, conn, there, own⟩ := rests
      · exact .inl (.inl idle)
      · obtain old | new := List.mem_append.mp (List.mem_of_getElem? there)
        · obtain ⟨l, before⟩ := List.mem_iff_getElem?.mp old
          exact .inl (.inr ⟨l, conn, before, own⟩)
        · cases List.mem_singleton.mp new
  | reap warm resting due =>
      obtain ⟨conn, queued, own, used⟩ | tasks := rests
      · exact .inl (.inl ⟨conn, List.mem_of_mem_filter queued, own, used⟩)
      · exact .inl (.inr tasks)
  | reapNotify subtracted =>
      obtain ⟨conn, queued, own, used⟩ | ⟨j, conn, there, own⟩ := rests
      · exact .inl (.inl ⟨conn, notifyOne_idle ▸ queued, own, used⟩)
      · exact .inl (.inr ⟨j, conn, writeTx_of_notifyOne there rfl, own⟩)
  | _ => exact .inl rests

theorem Change.now_le (change : Change p action q) : p.now ≤ q.now := by
  cases change with
  | tick elapsed => exact Nat.le_add_right _ _
  | task current move =>
      cases move with
      | notify =>
          show p.now ≤ p.notifyOne.now
          rw [notifyOne_now]
      | _ => exact Nat.le_refl _
  | reapNotify subtracted =>
      show p.now ≤ p.notifyOne.now
      rw [notifyOne_now]
  | _ => exact Nat.le_refl _

theorem held_of_reach (reach : (system config metrics).Reach allowed p) :
    p.held.Nodup ∧ p.held ⊆ p.created := by
  induction reach with
  | initial first =>
      rw [first]
      exact ⟨List.nodup_nil, List.nil_subset _⟩
  | @next p q action before _ taken ih =>
      have change := Change.of_step taken
      have known := running_nodup (before.reachable.next taken)
      refine ⟨change.held_nodup ih.1 ih.2 (waits_of_reach before), fun k member => ?_⟩
      obtain old | ⟨conn, opened, rfl⟩ := change.held_or_new member
      · exact change.created_subset (ih.2 old)
      · exact known.2 (change.opens_fresh opened).2

end BrokerPool

namespace Pooled.Service

variable {config : PoolLimits} {maxInFlight : Nat} {metrics : Metrics} {idle : Option Nat}
  {codecs : Codecs} {map : RewriteMap} {s t : BrokerPool × Multiplex} {action : ServiceAction}
  {stored : Int32 → Nat} {k : Nat} {cidU : Int32}
  {allowed : BrokerPool × Multiplex → ServiceAction → Prop}

/-- When the last entry under each correlation id was stored. -/
def noteStored (s : BrokerPool × Multiplex) (action : ServiceAction) (stored : Int32 → Nat) : Int32 → Nat :=
  match action with
  | .relay i .store =>
      match (s.2.relays i).downToUp with
      | .store _ cidU _ => Function.update stored cidU s.1.now
      | _ => stored
  | _ => stored

def storing (config : PoolLimits) (maxInFlight : Nat) (metrics : Metrics) (idle : Option Nat)
    (codecs : Codecs) (map : RewriteMap) :
    System ((BrokerPool × Multiplex) × (Int32 → Nat)) ServiceAction :=
  (system config maxInFlight metrics idle codecs map).watch (fun _ => 0) noteStored

/-- When the reaper looks, no request has been in flight for `idle_timeout`, and nothing else than the
reaper lets go of a connection. -/
def Answered (s : (BrokerPool × Multiplex) × (Int32 → Nat)) (action : ServiceAction) : Prop :=
  Within Multiplex.Numbers s.1 action ∧
    (action = .pool .reap → ∀ e ∈ s.1.2.remap.map.entries,
      s.1.1.now < s.2 e.1 + s.1.1.config.idleTimeout) ∧
    (action ≠ .pool .reap → ∀ part ∈ parts s.1 action, ∀ a ∈ part.1, s.1.1.discarded a = [])

instance (s : (BrokerPool × Multiplex) × (Int32 → Nat)) (action : ServiceAction) :
    Decidable (Answered s action) :=
  inferInstanceAs (Decidable (_ ∧ (_ → ∀ e ∈ s.1.2.remap.map.entries, _) ∧
    (_ → ∀ part ∈ parts s.1 action, ∀ a ∈ part.1, _)))

structure Recent (s : BrokerPool × Multiplex) (stored : Int32 → Nat) : Prop where
  past : ∀ cidU, stored cidU ≤ s.1.now
  rested : ∀ k lastUsed, s.1.Resting k lastUsed → ∀ cidU entry,
    s.2.remap.map.lookup cidU = some entry → entry.connId = (s.2.upstreams k).connId →
      stored cidU ≤ lastUsed

theorem noteStored_cases (s : BrokerPool × Multiplex) (action : ServiceAction) (stored : Int32 → Nat)
    (cidU : Int32) : noteStored s action stored cidU = stored cidU ∨
      noteStored s action stored cidU = s.1.now ∧
        ∃ i job tag, action = .relay i .store ∧ (s.2.relays i).downToUp = .store job cidU tag := by
  unfold noteStored
  split
  · rename_i i
    cases phase : (s.2.relays i).downToUp with
    | store job cid tag =>
        by_cases same : cidU = cid
        · subst same
          exact .inr ⟨Function.update_self .., i, job, tag, rfl, phase⟩
        · exact .inl (Function.update_of_ne same ..)
    | _ => exact .inl rfl
  · exact .inl rfl

theorem noteStored_eq (apart : ∀ i job tag, action = .relay i .store →
    (s.2.relays i).downToUp ≠ .store job cidU tag) : noteStored s action stored cidU = stored cidU := by
  obtain unchanged | ⟨_, i, job, tag, stores, phase⟩ := noteStored_cases s action stored cidU
  · exact unchanged
  · exact absurd phase (apart i job tag stores)

theorem opened_of_held (reach : (system config maxInFlight metrics idle codecs map).Reach allowed s)
    (member : k ∈ s.1.held) : k < s.2.opened := by
  induction reach generalizing k with
  | initial first =>
      rw [first.1] at member
      cases member
  | @next s t action before _ taken ih =>
      obtain ⟨pool, multiplex, _, joint, left, right⟩ := joint_of_step taken
      have grows : s.2.opened ≤ t.2.opened := by
        obtain ⟨_, same⟩ | ⟨b, _, change⟩ := right
        · rw [same]
        · exact change.opened.1
      obtain ⟨_, same⟩ | ⟨a, rfl, change⟩ := left
      · exact (ih (same ▸ member)).trans_le grows
      · obtain old | ⟨conn, opened, rfl⟩ := change.held_or_new member
        · exact (ih old).trans_le grows
        · obtain ⟨rfl, rfl⟩ := joint.opens rfl opened
          obtain ⟨wrong, _⟩ | ⟨_, ⟨rfl⟩, change⟩ := right
          · cases wrong
          · generalize t.2 = n at change
            cases change with
            | create => exact Nat.lt_succ_self _

theorem Recent.step (recent : Recent s stored) (known : Known s) (nodup : s.1.held.Nodup)
    (opened : ∀ k ∈ s.1.held, k < s.2.opened)
    (taken : (system config maxInFlight metrics idle codecs map).step s action = some t) :
    Recent t (noteStored s action stored) := by
  have past (cidU : Int32) : noteStored s action stored cidU ≤ s.1.now := by
    obtain same | ⟨now, _⟩ := noteStored_cases s action stored cidU
    · exact same ▸ recent.past cidU
    · exact now.le
  obtain ⟨pool, multiplex, possible, joint, left, right⟩ := joint_of_step taken
  constructor
  · intro cidU
    obtain ⟨_, same⟩ | ⟨a, _, change⟩ := left
    · rw [same]
      exact past cidU
    · exact (past cidU).trans change.now_le
  · intro k lastUsed rests cidU entry found own
    have before : s.1.Resting k lastUsed ∨ lastUsed = s.1.now := by
      obtain ⟨_, same⟩ | ⟨a, _, change⟩ := left
      · exact .inl (same ▸ rests)
      · exact change.resting rests
    obtain rested | rfl := before
    · have opens := opened k rested.held
      obtain ⟨rfl, same⟩ | ⟨b, rfl, change⟩ := right
      · rw [same] at found own
        have apart : ∀ i job tag, action = .relay i .store →
            (s.2.relays i).downToUp ≠ .store job cidU tag := by
          rintro i job tag rfl
          cases possible
        rw [noteStored_eq apart]
        exact recent.rested k lastUsed rested cidU entry found own
      · rw [change.opened.2 k opens] at own
        obtain ⟨old, _, _, apart⟩ | ⟨i, job, tag, conn, rfl, phase, leased, rfl⟩ := change.lookup found
        · have apart : ∀ i job tag, action = .relay i .store →
              (s.2.relays i).downToUp ≠ .store job cidU tag := by
            rintro i job tag rfl
            cases possible
            exact apart i job tag rfl
          rw [noteStored_eq apart]
          exact recent.rested k lastUsed rested cidU entry old own
        · obtain ⟨opensToo, named⟩ := known.connected.leased i conn leased
          obtain rfl := known.numbered _ opensToo k opens (named.symm.trans own)
          exact absurd rested (BrokerPool.Resting.not_leased nodup (known.coupled i conn leased))
    · exact past cidU

theorem Recent.spares {s : (BrokerPool × Multiplex) × (Int32 → Nat)} (recent : Recent s.1 s.2)
    (alive : ∀ conn ∈ s.1.1.idle, conn.alive = true) (answered : Answered s action) : Spares s.1 action := by
  obtain ⟨numbers, waits, others⟩ := answered
  refine ⟨numbers, fun part possible a does k discards runs e member own => ?_⟩
  by_cases reaps : action = .pool .reap
  · subst reaps
    obtain rfl : part = (some .reap, none) := (Option.some.inj possible).symm
    obtain rfl : PoolAction.reap = a := Option.some.inj does
    obtain ⟨conn, evicted, rfl⟩ := List.mem_map.mp discards
    obtain ⟨queued, late⟩ := List.mem_filter.mp evicted
    have since := recent.rested _ _ (.inl ⟨conn, queued, rfl, rfl⟩) e.1 e.2
      (Multiplex.mem_entries.mp member) own
    have waited := waits rfl e member
    have past := recent.past e.1
    simp only [BrokerPool.keeps, alive conn queued, Bool.not_true, Bool.or_false, Bool.not_not,
      decide_eq_true_eq] at late
    omega
  · rw [others reaps part possible a does] at discards
    cases discards

theorem spared_of_reach {s : (BrokerPool × Multiplex) × (Int32 → Nat)}
    (reach : (storing config maxInFlight metrics idle codecs map).Reach Answered s) :
    (system config maxInFlight metrics idle codecs map).Reach Spares s.1 ∧ Recent s.1 s.2 := by
  induction reach with
  | initial first =>
      refine ⟨.initial first.1, ?_⟩
      rw [first.2]
      refine ⟨fun _ => Nat.zero_le _, fun _ _ _ _ _ _ _ => Nat.zero_le _⟩
  | next _ answered taken ih =>
      obtain ⟨reached, recent⟩ := ih
      obtain ⟨stepped, noted⟩ := System.watch_step.mp taken
      have known := known_of_reach (fun _ _ given => given.1) reached
      have pool : (BrokerPool.system config metrics).Reachable _ :=
        System.Reach.left (fun _ _ _ _ _ _ => trivial) reached
      refine ⟨.next reached (recent.spares known.alive answered) stepped, ?_⟩
      rw [noted]
      exact recent.step known (BrokerPool.held_of_reach pool).1 (fun _ => opened_of_held reached) stepped

theorem spared_of_leads {s t : (BrokerPool × Multiplex) × (Int32 → Nat)}
    (reach : (storing config maxInFlight metrics idle codecs map).Reach Answered s)
    (leads : (storing config maxInFlight metrics idle codecs map).Leads Answered s t) :
    (system config maxInFlight metrics idle codecs map).Leads Spares s.1 t.1 := by
  induction leads with
  | refl => exact .refl
  | next before answered taken ih =>
      obtain ⟨reached, recent⟩ := spared_of_reach (reach.leads before)
      have known := known_of_reach (fun _ _ given => given.1) reached
      exact .next ih (recent.spares known.alive answered) (System.watch_step.mp taken).1

/-- While every request is answered within `idle_timeout`, no connection is closed with a request in
flight. -/
theorem none_abandoned_in_time {s t : (BrokerPool × Multiplex) × (Int32 → Nat)}
    (reach : (storing config maxInFlight metrics idle codecs map).Reach Answered s) (letGo : LetGo s.1 k)
    (leads : (storing config maxInFlight metrics idle codecs map).Leads Answered s t) :
    Unused t.1.2 (s.1.2.upstreams k).connId :=
  none_abandoned (spared_of_reach reach).1 letGo (spared_of_leads reach leads)

example : ((storing oneSecond 2 (.new true) none .unknown ⟨∅⟩).exec Answered
    ((.new oneSecond (.new true), .new 2 (.new true)), fun _ => 0)
    (twoLeases ++ (answeredOver 0 0).tail ++ answeredOver 1 1 ++ [.tick 10000, .pool .reap])).any
      (fun s => decide ((s.1.2.upstreams 0).writeLoop.isOpen = true ∧ 0 ∉ s.1.1.held)) = true := by
  decide +kernel

end Pooled.Service
end KafkaProxy
