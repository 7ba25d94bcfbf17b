import KafkaProxy.Library.Groups
import KafkaProxy.Library.Sweep
import KafkaProxy.Proxy.Tracker
import Mathlib.Data.Rat.Floor
import Mathlib.Data.String.Basic

/-!
# The list of connections

The web interface goes over the tracker, one shard after the other, while the accept loops and the
tasks of the connections run on. Here the entries have the time at which they were made. Times are
in nanoseconds, seconds are exact rationals, and the text of an address is a parameter.
-/

namespace KafkaProxy
open Library Startup

structure ClockedProxy where
  proxy : Proxy
  now : Nat
  connTracker : Table SocketAddr (Int32 × Nat)

inductive ClockedAction where
  | tick (nanos : Nat)
  | proxy (action : ProxyAction)
  deriving DecidableEq, Repr

namespace ClockedProxy

def start (settings : Settings) : ClockedProxy := ⟨.start settings, 0, ∅⟩

def trackerAfter (settings : Settings) (k : ClockedProxy) :
    ProxyAction → Table SocketAddr (Int32 × Nat)
  | .track l =>
      match k.proxy.loops l with
      | .tracking peer => k.connTracker.insert peer (settings.nodeIds.getD l 0, k.now)
      | _ => k.connTracker
  | .untrack i =>
      match k.proxy.tasks i with
      | .untracking _ peer => k.connTracker.erase peer
      | _ => k.connTracker
  | _ => k.connTracker

def step (settings : Settings) (k : ClockedProxy) : ClockedAction → Option ClockedProxy
  | .tick nanos => some { k with now := k.now + nanos }
  | .proxy action => (k.proxy.step settings action).map fun proxy =>
      { k with proxy, connTracker := k.trackerAfter settings action }

def system (settings : Settings) : System ClockedProxy ClockedAction where
  initial k := k = start settings
  step := step settings

def Untracked (k : ClockedProxy) : ClockedAction → Prop
  | .tick _ => True
  | .proxy action => k.proxy.Untracked action

instance (k : ClockedProxy) (action : ClockedAction) : Decidable (k.Untracked action) :=
  match action with
  | .tick _ => inferInstanceAs (Decidable True)
  | .proxy action => inferInstanceAs (Decidable (k.proxy.Untracked action))

end ClockedProxy

/-! ## The handler -/

namespace ClockedProxy

variable {settings : Settings} {k m : ClockedProxy} {allowed : ClockedProxy → ClockedAction → Prop}

structure Timed (k : ClockedProxy) : Prop where
  entries : ∀ peer, (k.connTracker.lookup peer).map (·.1) = k.proxy.connTracker.lookup peer
  past : ∀ peer entry, k.connTracker.lookup peer = some entry → entry.2 ≤ k.now

theorem Timed.insert (timed : k.Timed) (peer : SocketAddr) (nodeId : Int32) (q : Proxy)
    (table : q.connTracker = k.proxy.connTracker.insert peer nodeId) :
    Timed ⟨q, k.now, k.connTracker.insert peer (nodeId, k.now)⟩ := by
  constructor
  · intro other
    rw [table]
    by_cases same : other = peer
    · subst same
      rw [AList.lookup_insert, AList.lookup_insert]
      rfl
    · rw [AList.lookup_insert_ne same, AList.lookup_insert_ne same]
      exact timed.entries other
  · intro other entry found
    obtain ⟨_, rfl⟩ | ⟨_, earlier⟩ := Table.lookup_insert_eq_some.mp found
    · exact le_rfl
    · exact timed.past other entry earlier

theorem Timed.erase (timed : k.Timed) (peer : SocketAddr) (q : Proxy)
    (table : q.connTracker = k.proxy.connTracker.erase peer) :
    Timed ⟨q, k.now, k.connTracker.erase peer⟩ := by
  constructor
  · intro other
    rw [table]
    by_cases same : other = peer
    · subst same
      rw [AList.lookup_erase, AList.lookup_erase]
      rfl
    · rw [AList.lookup_erase_ne same, AList.lookup_erase_ne same]
      exact timed.entries other
  · intro other entry found
    exact timed.past other entry (Table.lookup_erase_eq_some.mp found).2

theorem Timed.step (timed : k.Timed) {action : ClockedAction}
    (taken : k.step settings action = some m) : m.Timed := by
  cases action with
  | tick nanos =>
      cases taken
      exact ⟨timed.entries, fun peer entry found => (timed.past peer entry found).trans (Nat.le_add_right _ _)⟩
  | proxy action =>
      obtain ⟨q, moved, rfl⟩ := Option.map_eq_some_iff.mp taken
      cases Proxy.Change.of_step moved with
      | @track l peer tracks =>
          simp only [trackerAfter, tracks]
          exact timed.insert peer _ _ rfl
      | @untrack i l peer untracks =>
          simp only [trackerAfter, untracks]
          exact timed.erase peer _ rfl
      | _ => exact ⟨timed.entries, timed.past⟩

inductive TaskMove (before : ConnTask) : ConnTask → Prop where
  | same : TaskMove before before
  | spawned (task : ConnTask) (absent : before = .absent) : TaskMove before task
  | finished (l : Nat) (peer : SocketAddr) (runs : before = .running l peer) :
      TaskMove before (.untracking l peer)
  | untracked (l : Nat) (peer : SocketAddr) (untracks : before = .untracking l peer) :
      TaskMove before (.ended l)

/-- Task `i` serves the connection, or has served it and not yet taken it off the tracker. -/
def Serves (k : ClockedProxy) (i l : Nat) (peer : SocketAddr) : Prop :=
  (k.proxy.tasks i).peer = some (l, peer)

instance (k : ClockedProxy) (i l : Nat) (peer : SocketAddr) : Decidable (k.Serves i l peer) :=
  inferInstanceAs (Decidable ((k.proxy.tasks i).peer = some (l, peer)))

def Ended (k : ClockedProxy) (i : Nat) : Prop := ∃ l, k.proxy.tasks i = .ended l

variable {i l : Nat} {peer : SocketAddr}

theorem TaskMove.serves {before after : ConnTask} (move : TaskMove before after)
    (serves : before.peer = some (l, peer)) : after.peer = some (l, peer) ∨ ∃ l', after = .ended l' := by
  cases move with
  | same => exact .inl serves
  | spawned task absent =>
      rw [absent] at serves
      cases serves
  | finished l' peer' runs =>
      rw [runs] at serves
      exact .inl serves
  | untracked l' peer' untracks => exact .inr ⟨l', rfl⟩

theorem TaskMove.ended {before after : ConnTask} (move : TaskMove before after)
    (ended : ∃ l, before = .ended l) : ∃ l, after = .ended l := by
  obtain ⟨l, rfl⟩ := ended
  cases move with
  | same => exact ⟨l, rfl⟩
  | spawned task absent => cases absent
  | finished l' peer' runs => cases runs
  | untracked l' peer' untracks => cases untracks

theorem Serves.lookup (serves : k.Serves i l peer) (tracked : Proxy.Tracked settings k.proxy) :
    k.proxy.connTracker.lookup peer = some (settings.nodeIds.getD l 0) := by
  apply tracked.owned.lookup (i := .inl i)
  rw [Proxy.entryOf, serves]
  rfl

/-- A request at the state `k` that reads the shards and ends at `t`. -/
abbrev Lists (settings : Settings) (shardOf : SocketAddr → Nat) (shards : Nat) (k : ClockedProxy)
    (t : Swept ClockedProxy SocketAddr (Int32 × Nat)) : Prop :=
  Swept.Sweeps (system settings) (·.connTracker) shardOf shards Untracked k t ∧ t.next = shards

def accepted (l : Nat) (port : UInt16) : List ClockedAction := (Proxy.accepts l (Proxy.peer port)).map .proxy

end ClockedProxy
end KafkaProxy
