import Mathlib.Data.Finset.Sum
import KafkaProxy.Library.Owners
import KafkaProxy.Proxy.Cap

/-!
# The connection tracker

An entry belongs to the connection that was inserted last under its peer, as long as nothing is
inserted under a peer that has an entry. A connection is in the hands of its accept loop first and of
its task then.
-/

namespace KafkaProxy
open Library Startup

def ConnTask.peer : ConnTask → Option (Nat × SocketAddr)
  | .running l peer | .untracking l peer => some (l, peer)
  | .absent | .ended _ => none

def ConnTask.isUntracking : ConnTask → Bool
  | .untracking _ _ => true
  | .absent | .running _ _ | .ended _ => false

def AcceptLoop.inserting : AcceptLoop → Option SocketAddr
  | .tracking peer => some peer
  | .absent | .select | .checking _ | .counting _ | .spawning _ | .sleeping | .left => none

def AcceptLoop.handing : AcceptLoop → Option SocketAddr
  | .spawning peer => some peer
  | .absent | .select | .checking _ | .counting _ | .tracking _ | .sleeping | .left => none

namespace Proxy

variable {settings : Settings} {p q : Proxy} {action : ProxyAction}

/-- The entry of a connection: of the task `i`, or of what the loop `l` is about to hand to a task. -/
def entryOf (settings : Settings) (p : Proxy) : Nat ⊕ Nat → Option (SocketAddr × Int32)
  | .inl i => (p.tasks i).peer.map fun (l, peer) => (peer, settings.nodeIds.getD l 0)
  | .inr l => (p.loops l).handing.map fun peer => (peer, settings.nodeIds.getD l 0)

/-- The peer that is inserted has no entry. -/
def Untracked (p : Proxy) : ProxyAction → Prop
  | .track l => ∀ peer ∈ (p.loops l).inserting, p.connTracker.lookup peer = none
  | _ => True

instance (p : Proxy) (action : ProxyAction) : Decidable (p.Untracked action) :=
  match action with
  | .track l =>
      inferInstanceAs (Decidable (∀ peer ∈ (p.loops l).inserting, p.connTracker.lookup peer = none))
  | .bind | .bindFailed | .joined | .cancel | .leave _ | .abort _ | .accept .. | .acceptFailed _
  | .wake _ | .check _ | .count _ | .spawn _ | .finish _ | .untrack _ | .relays _ =>
      inferInstanceAs (Decidable True)

structure Tracked (settings : Settings) (p : Proxy) : Prop where
  unbound : p.Unbound
  counted : p.Counted
  owned : Owned (entryOf settings p) p.connTracker

theorem entryOf_congr (tasks : ∀ i, (q.tasks i).peer = (p.tasks i).peer)
    (loops : ∀ l, (q.loops l).handing = (p.loops l).handing) (owner : Nat ⊕ Nat) :
    entryOf settings q owner = entryOf settings p owner := by
  cases owner with
  | inl i => simp only [entryOf, tasks]
  | inr l => simp only [entryOf, loops]

theorem handing_update {loops : Nat → AcceptLoop} {l : Nat} {loop : AcceptLoop}
    (same : loop.handing = (loops l).handing) (k : Nat) :
    (Function.update loops l loop k).handing = (loops k).handing := by
  by_cases here : k = l
  · subst here
    rw [Function.update_self, same]
  · rw [Function.update_of_ne here]

theorem peer_update {tasks : Nat → ConnTask} {i : Nat} {task : ConnTask}
    (same : task.peer = (tasks i).peer) (j : Nat) :
    (Function.update tasks i task j).peer = (tasks j).peer := by
  by_cases here : j = i
  · subst here
    rw [Function.update_self, same]
  · rw [Function.update_of_ne here]

theorem Tracked.owned_step (tracked : Tracked settings p) (untracked : p.Untracked action)
    (change : Change settings p action q) : Owned (entryOf settings q) q.connTracker := by
  have owned := tracked.owned
  cases change with
  | bind phase more =>
      refine owned.congr (entryOf_congr (fun _ => rfl) (handing_update ?_))
      rw [tracked.unbound _ le_rfl]
      rfl
  | bindFailed | joined | cancel | relays | overweight => exact owned
  | abort phase waits =>
      refine owned.congr (entryOf_congr (fun _ => rfl) (handing_update ?_))
      obtain waits | sleeps := waits
      · rw [waits]
        rfl
      · rw [sleeps]
        rfl
  | leave waits | accept waits | acceptFailed waits | wake waits | check waits | refuse waits
  | count waits =>
      refine owned.congr (entryOf_congr (fun _ => rfl) (handing_update ?_))
      rw [waits]
      rfl
  | @track l peer tracks =>
      have fresh := untracked peer (by rw [tracks]; rfl)
      refine owned.insert (i := .inr l) ?_ fresh ?_ ?_
      · simp [entryOf, tracks, AcceptLoop.handing]
      · simp [entryOf, setLoop, AcceptLoop.handing]
      · rintro (i | k) other
        · rfl
        · have apart : k ≠ l := fun same => other (congrArg Sum.inr same)
          simp [entryOf, setLoop, apart]
  | @spawn l peer relays spawns started =>
      refine owned.handOver (i := .inr l) (j := .inl p.spawned) ?_ ?_ ?_ ?_
      · simp [entryOf, tracked.counted.fresh p.spawned le_rfl, ConnTask.peer]
      · simp [entryOf, setTask, spawns, ConnTask.peer, AcceptLoop.handing]
      · simp [entryOf, setTask, setLoop, AcceptLoop.handing]
      · rintro (i | k) other different
        · have apart : i ≠ p.spawned := fun same => different (congrArg Sum.inl same)
          simp [entryOf, setTask, setLoop, apart]
        · have apart : k ≠ l := fun same => other (congrArg Sum.inr same)
          simp [entryOf, setTask, setLoop, apart]
  | @finish i l peer runs returned =>
      refine owned.congr (entryOf_congr (peer_update ?_) fun _ => rfl)
      rw [runs]
      rfl
  | @untrack i l peer untracks =>
      refine owned.erase (i := .inl i) (v := settings.nodeIds.getD l 0) ?_ ?_ ?_
      · simp [entryOf, untracks, ConnTask.peer]
      · simp [entryOf, setTask, ConnTask.peer]
      · rintro (j | k) other
        · have apart : j ≠ i := fun same => other (congrArg Sum.inl same)
          simp [entryOf, setTask, apart]
        · rfl

theorem tracked_of_reach (reach : (system settings).Reach (fun p => p.Untracked) p) :
    Tracked settings p := by
  induction reach with
  | initial first =>
      rw [first]
      refine ⟨fun _ _ => rfl, ⟨fun _ _ => rfl, 0, 0, .none fun _ => rfl, .none fun _ => rfl, rfl⟩,
        .none ?_⟩
      rintro (i | l) <;> rfl
  | next _ untracked taken ih =>
      have change := Change.of_step taken
      exact ⟨ih.unbound.step change, ih.counted.step (ih.unbound _ le_rfl) change,
        ih.owned_step untracked change⟩

/-- The peer of a connection that the counter counts, with the node id of its listener: its task runs
the relay, or its accept loop has counted it and has not spawned the task yet. -/
def countedEntry (settings : Settings) (p : Proxy) : Nat ⊕ Nat → Option (SocketAddr × Int32)
  | .inl i =>
      match p.tasks i with
      | .running l peer => some (peer, settings.nodeIds.getD l 0)
      | _ => none
  | .inr l =>
      match p.loops l with
      | .tracking peer | .spawning peer => some (peer, settings.nodeIds.getD l 0)
      | _ => none

/-- Nobody is between the counter and the tracker. -/
structure Quiet (p : Proxy) : Prop where
  loops : ∀ l, (p.loops l).inserting = none
  tasks : ∀ i, (p.tasks i).isUntracking = false

theorem Quiet.countedEntry_eq (quiet : p.Quiet) (owner : Nat ⊕ Nat) :
    countedEntry settings p owner = entryOf settings p owner := by
  cases owner with
  | inl i =>
      have settled := quiet.tasks i
      cases task : p.tasks i with
      | untracking l peer => simp [task, ConnTask.isUntracking] at settled
      | absent | running | ended => simp [countedEntry, entryOf, task, ConnTask.peer]
  | inr l =>
      have settled := quiet.loops l
      cases loop : p.loops l with
      | tracking peer => simp [loop, AcceptLoop.inserting] at settled
      | absent | select | checking | counting | spawning | sleeping | left =>
          simp [countedEntry, entryOf, loop, AcceptLoop.handing]

theorem Quiet.isSome_task (quiet : p.Quiet) (i : Nat) :
    (entryOf settings p (.inl i)).isSome = (p.tasks i).isRunning := by
  have settled := quiet.tasks i
  cases task : p.tasks i with
  | untracking l peer => simp [task, ConnTask.isUntracking] at settled
  | absent | running | ended => simp [entryOf, task, ConnTask.peer, ConnTask.isRunning]

theorem Quiet.isSome_loop (quiet : p.Quiet) (l : Nat) :
    (entryOf settings p (.inr l)).isSome = (p.loops l).isCounted := by
  have settled := quiet.loops l
  cases loop : p.loops l with
  | tracking peer => simp [loop, AcceptLoop.inserting] at settled
  | absent | select | checking | counting | spawning | sleeping | left =>
      simp [entryOf, loop, AcceptLoop.handing, AcceptLoop.isCounted]

theorem Tracked.size_eq (tracked : Tracked settings p) (quiet : p.Quiet) :
    (p.connTracker.size : Int) = p.downstreamConnections := by
  obtain ⟨_, ⟨_, running, signing, ⟨tasks, ran, rfl⟩, ⟨loops, counts, rfl⟩, total⟩, owned⟩ := tracked
  have owners : (tasks.disjSum loops).card = p.connTracker.size := by
    apply owned.card_eq_size
    rintro (i | l)
    · rw [Finset.inl_mem_disjSum, ran, quiet.isSome_task]
    · rw [Finset.inr_mem_disjSum, counts, quiet.isSome_loop]
  rw [Finset.card_disjSum] at owners
  omega

/-- If no accept loop ever inserts a peer that has an entry, then whenever nobody is between the
counter and the tracker, the entries are those of the counted connections. -/
theorem tracker_exact (reach : (system settings).Reach (fun p => p.Untracked) p) (quiet : p.Quiet) :
    (∀ peer nodeId, p.connTracker.lookup peer = some nodeId ↔
      ∃ owner, countedEntry settings p owner = some (peer, nodeId)) ∧
    (∀ a b peer m n, countedEntry settings p a = some (peer, m) →
      countedEntry settings p b = some (peer, n) → a = b) ∧
    (p.connTracker.size : Int) = p.downstreamConnections := by
  have tracked := tracked_of_reach reach
  simp only [quiet.countedEntry_eq]
  exact ⟨tracked.owned.entry, tracked.owned.alone, tracked.size_eq quiet⟩

/-! ## One client address on two listeners -/

theorem bounds_of_reachable (reach : (system settings).Reachable p) : p.Unbound ∧ p.Counted := by
  induction reach with
  | initial first =>
      rw [first]
      exact ⟨fun _ _ => rfl, fun _ _ => rfl, 0, 0, .none fun _ => rfl, .none fun _ => rfl, rfl⟩
  | next _ _ taken ih =>
      have change := Change.of_step taken
      exact ⟨ih.1.step change, ih.2.step (ih.1 _ le_rfl) change⟩

theorem quiet_of_reachable (reach : (system settings).Reachable p)
    (loops : ∀ l < p.bound, (p.loops l).inserting = none)
    (tasks : ∀ i < p.spawned, (p.tasks i).isUntracking = false) : p.Quiet := by
  obtain ⟨unbound, counted⟩ := bounds_of_reachable reach
  constructor
  · intro l
    rcases lt_or_ge l p.bound with early | later
    · exact loops l early
    · rw [unbound l later]
      rfl
  · intro i
    rcases lt_or_ge i p.spawned with early | later
    · exact tasks i early
    · rw [counted.fresh i later]
      rfl

def twoListeners : Settings := { oneClient [1, 2] with maxDownstreamConnections := 8 }

def departs (i : Nat) : List ProxyAction :=
  [.relays (.multiplex (.relay i .hangUp)), .relays (.multiplex (.relay i .leave)), .finish i, .untrack i]

theorem tracker_exact_two : ∃ p : Proxy, p.spawned = 2 ∧ (p.connTracker.size : Int) =
    p.downstreamConnections := by
  obtain ⟨p, reach, two, loops, tasks⟩ := (system twoListeners).exists_reach (fun p => p.Untracked)
    (.start twoListeners) ([.bind, .bind] ++ accepts 0 (peer 50000) ++ accepts 1 (peer 50001))
    (fun p => p.spawned = 2 ∧ (∀ l < p.bound, (p.loops l).inserting = none) ∧
      ∀ i < p.spawned, (p.tasks i).isUntracking = false) rfl (by decide +kernel)
  exact ⟨p, two, (tracker_exact reach (quiet_of_reachable reach.reachable loops tasks)).2.2⟩

/-- The client connects to two listeners from one address and port, and leaves the first. -/
theorem tracker_inexact : ¬ ∀ p, (system twoListeners).Reachable p → p.Quiet →
    (∀ peer nodeId, p.connTracker.lookup peer = some nodeId ↔
      ∃ owner, countedEntry twoListeners p owner = some (peer, nodeId)) ∧
    (∀ a b peer m n, countedEntry twoListeners p a = some (peer, m) →
      countedEntry twoListeners p b = some (peer, n) → a = b) ∧
    (p.connTracker.size : Int) = p.downstreamConnections := by
  intro claim
  obtain ⟨p, reach, loops, tasks, none, one⟩ := (system twoListeners).exists_reach (fun _ _ => True)
    (.start twoListeners)
    ([.bind, .bind] ++ accepts 0 (peer 50000) ++ accepts 1 (peer 50000) ++ departs 0)
    (fun p => (∀ l < p.bound, (p.loops l).inserting = none) ∧
      (∀ i < p.spawned, (p.tasks i).isUntracking = false) ∧ p.connTracker.size = 0 ∧
      p.downstreamConnections = 1) rfl (by decide +kernel)
  have same := (claim p reach (quiet_of_reachable reach loops tasks)).2.2
  rw [none, one] at same
  exact absurd same (by decide)

end Proxy
end KafkaProxy
