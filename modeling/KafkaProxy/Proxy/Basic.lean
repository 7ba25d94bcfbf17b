import KafkaProxy.Proxy.Relays
import KafkaProxy.Startup.Basic

/-!
# The listeners and the end of `run`

`run` binds the listeners one after the other and gives each an accept loop. The loops share one
counter and one tracker. `run` waits for the loops, and nobody waits for the tasks that they spawn.
-/

namespace KafkaProxy
open Library Startup

inductive AcceptLoop where
  | absent
  | select
  | checking (peer : SocketAddr)
  | counting (peer : SocketAddr)
  | tracking (peer : SocketAddr)
  | spawning (peer : SocketAddr)
  | sleeping
  | left
  deriving DecidableEq, Repr

/-- The task that an accept loop spawns for a connection: it runs the relay and then signs it off. -/
inductive ConnTask where
  | absent
  | running (listener : Nat) (peer : SocketAddr)
  | untracking (listener : Nat) (peer : SocketAddr)
  | ended (listener : Nat)
  deriving DecidableEq, Repr

inductive RunPhase where
  | running
  | failed
  | returned
  deriving DecidableEq, Repr

structure Proxy where
  phase : RunPhase
  bound : Nat
  cancelled : Bool
  loops : Nat → AcceptLoop
  downstreamConnections : Int
  connTracker : Table SocketAddr Int32
  spawned : Nat
  tasks : Nat → ConnTask
  relays : Relays

inductive ProxyAction where
  | bind
  | bindFailed
  | joined
  | cancel
  | leave (l : Nat)
  | abort (l : Nat)
  | accept (l : Nat) (peer : SocketAddr) (rss : UInt64)
  | acceptFailed (l : Nat)
  | wake (l : Nat)
  | check (l : Nat)
  | count (l : Nat)
  | track (l : Nat)
  | spawn (l : Nat)
  | finish (i : Nat)
  | untrack (i : Nat)
  | relays (action : RelaysAction)
  deriving DecidableEq, Repr

namespace Proxy

def start (settings : Settings) : Proxy :=
  { phase := .running, bound := 0, cancelled := false, loops := fun _ => .absent
    downstreamConnections := 0, connTracker := ∅, spawned := 0, tasks := fun _ => .absent
    relays := .start settings }

def setLoop (p : Proxy) (l : Nat) (loop : AcceptLoop) : Proxy :=
  { p with loops := Function.update p.loops l loop }

def setTask (p : Proxy) (i : Nat) (task : ConnTask) : Proxy :=
  { p with tasks := Function.update p.tasks i task }

/-- The counter is cast to `usize` before it is compared. -/
def atLimit (settings : Settings) (p : Proxy) : Bool :=
  settings.maxDownstreamConnections ≤ UInt64.ofInt p.downstreamConnections

def step (settings : Settings) (p : Proxy) : ProxyAction → Option Proxy
  | .bind =>
      if p.phase = .running ∧ p.bound < settings.nodeIds.length then
        some { p.setLoop p.bound .select with bound := p.bound + 1 }
      else none
  | .bindFailed =>
      if p.phase = .running ∧ p.bound < settings.nodeIds.length then
        some { p with phase := .failed }
      else none
  | .joined =>
      if p.phase = .running ∧ p.bound = settings.nodeIds.length ∧
          ∀ l < p.bound, p.loops l = .left then
        some { p with phase := .returned }
      else none
  | .cancel => some { p with cancelled := true }
  | .leave l =>
      match p.loops l with
      | .select => if p.cancelled then some (p.setLoop l .left) else none
      | _ => none
  -- A `run` that fails drops the loops, which ends them where they wait.
  | .abort l =>
      match p.phase, p.loops l with
      | .failed, .select | .failed, .sleeping => some (p.setLoop l .left)
      | _, _ => none
  | .accept l peer rss =>
      match p.loops l with
      | .select =>
          if settings.maxRssBytes.any (· < rss) then some p
          else some (p.setLoop l (.checking peer))
      | _ => none
  | .acceptFailed l =>
      match p.loops l with
      | .select => some (p.setLoop l .sleeping)
      | _ => none
  | .wake l =>
      match p.loops l with
      | .sleeping => some (p.setLoop l .select)
      | _ => none
  | .check l =>
      match p.loops l with
      | .checking peer =>
          some (p.setLoop l (if p.atLimit settings then .select else .counting peer))
      | _ => none
  | .count l =>
      match p.loops l with
      | .counting peer =>
          some { p.setLoop l (.tracking peer) with
            downstreamConnections := p.downstreamConnections + 1 }
      | _ => none
  | .track l =>
      match p.loops l with
      | .tracking peer =>
          some { p.setLoop l (.spawning peer) with
            connTracker := p.connTracker.insert peer (settings.nodeIds.getD l 0) }
      | _ => none
  | .spawn l =>
      match p.loops l with
      | .spawning peer =>
          (p.relays.spawn settings p.spawned).map fun relays =>
            { (p.setLoop l .select).setTask p.spawned (.running l peer) with
              spawned := p.spawned + 1, relays }
      | _ => none
  | .finish i =>
      match p.tasks i with
      | .running l peer =>
          if p.relays.returned i then
            some { p.setTask i (.untracking l peer) with
              downstreamConnections := p.downstreamConnections - 1 }
          else none
      | _ => none
  | .untrack i =>
      match p.tasks i with
      | .untracking l peer =>
          some { p.setTask i (.ended l) with connTracker := p.connTracker.erase peer }
      | _ => none
  | .relays action =>
      (p.relays.step settings action).map fun relays => { p with relays }

def system (settings : Settings) : System Proxy ProxyAction where
  initial p := p = .start settings
  step := step settings

/-! ## What a step can do -/

inductive Change (settings : Settings) (p : Proxy) : ProxyAction → Proxy → Prop where
  | bind (phase : p.phase = .running) (more : p.bound < settings.nodeIds.length) :
      Change settings p .bind { p.setLoop p.bound .select with bound := p.bound + 1 }
  | bindFailed (phase : p.phase = .running) (more : p.bound < settings.nodeIds.length) :
      Change settings p .bindFailed { p with phase := .failed }
  | joined (phase : p.phase = .running) (all : p.bound = settings.nodeIds.length)
      (left : ∀ l < p.bound, p.loops l = .left) :
      Change settings p .joined { p with phase := .returned }
  | cancel : Change settings p .cancel { p with cancelled := true }
  | leave {l : Nat} (waits : p.loops l = .select) (cancelled : p.cancelled = true) :
      Change settings p (.leave l) (p.setLoop l .left)
  | abort {l : Nat} (phase : p.phase = .failed) (waits : p.loops l = .select ∨ p.loops l = .sleeping) :
      Change settings p (.abort l) (p.setLoop l .left)
  | overweight {l : Nat} {peer : SocketAddr} {rss : UInt64} (waits : p.loops l = .select)
      (heavy : settings.maxRssBytes.any (· < rss) = true) : Change settings p (.accept l peer rss) p
  | accept {l : Nat} {peer : SocketAddr} {rss : UInt64} (waits : p.loops l = .select)
      (light : settings.maxRssBytes.any (· < rss) = false) :
      Change settings p (.accept l peer rss) (p.setLoop l (.checking peer))
  | acceptFailed {l : Nat} (waits : p.loops l = .select) :
      Change settings p (.acceptFailed l) (p.setLoop l .sleeping)
  | wake {l : Nat} (sleeps : p.loops l = .sleeping) :
      Change settings p (.wake l) (p.setLoop l .select)
  | check {l : Nat} {peer : SocketAddr} (checks : p.loops l = .checking peer)
      (room : p.atLimit settings = false) : Change settings p (.check l) (p.setLoop l (.counting peer))
  | refuse {l : Nat} {peer : SocketAddr} (checks : p.loops l = .checking peer)
      (full : p.atLimit settings = true) : Change settings p (.check l) (p.setLoop l .select)
  | count {l : Nat} {peer : SocketAddr} (counts : p.loops l = .counting peer) :
      Change settings p (.count l) { p.setLoop l (.tracking peer) with
        downstreamConnections := p.downstreamConnections + 1 }
  | track {l : Nat} {peer : SocketAddr} (tracks : p.loops l = .tracking peer) :
      Change settings p (.track l) { p.setLoop l (.spawning peer) with
        connTracker := p.connTracker.insert peer (settings.nodeIds.getD l 0) }
  | spawn {l : Nat} {peer : SocketAddr} {relays : Relays} (spawns : p.loops l = .spawning peer)
      (started : p.relays.spawn settings p.spawned = some relays) :
      Change settings p (.spawn l) { (p.setLoop l .select).setTask p.spawned (.running l peer) with
        spawned := p.spawned + 1, relays }
  | finish {i l : Nat} {peer : SocketAddr} (runs : p.tasks i = .running l peer)
      (returned : p.relays.returned i = true) :
      Change settings p (.finish i) { p.setTask i (.untracking l peer) with
        downstreamConnections := p.downstreamConnections - 1 }
  | untrack {i l : Nat} {peer : SocketAddr} (untracks : p.tasks i = .untracking l peer) :
      Change settings p (.untrack i)
        { p.setTask i (.ended l) with connTracker := p.connTracker.erase peer }
  | relays {action : RelaysAction} {relays : Relays}
      (taken : p.relays.step settings action = some relays) :
      Change settings p (.relays action) { p with relays }

variable {settings : Settings} {p q : Proxy}

theorem Change.of_step {action : ProxyAction} (taken : p.step settings action = some q) :
    Change settings p action q := by
  cases action with
  | bind =>
      simp only [step] at taken
      split at taken <;> cases taken
      rename_i able
      exact .bind able.1 able.2
  | bindFailed =>
      simp only [step] at taken
      split at taken <;> cases taken
      rename_i able
      exact .bindFailed able.1 able.2
  | joined =>
      simp only [step] at taken
      split at taken <;> cases taken
      rename_i able
      exact .joined able.1 able.2.1 able.2.2
  | cancel =>
      cases taken
      exact .cancel
  | leave l =>
      simp only [step] at taken
      split at taken
      · rename_i waits
        split at taken <;> cases taken
        rename_i cancelled
        exact .leave waits cancelled
      · cases taken
  | abort l =>
      simp only [step] at taken
      split at taken <;> cases taken
      · rename_i phase waits
        exact .abort phase (.inl waits)
      · rename_i phase sleeps
        exact .abort phase (.inr sleeps)
  | accept l peer rss =>
      simp only [step] at taken
      split at taken
      · rename_i waits
        split at taken <;> cases taken
        · rename_i heavy
          exact .overweight waits heavy
        · rename_i light
          exact .accept waits (by simpa using light)
      · cases taken
  | check l =>
      simp only [step] at taken
      split at taken <;> cases taken
      rename_i checks
      split
      · rename_i full
        exact .refuse checks full
      · rename_i room
        exact .check checks (by simpa using room)
  | spawn l =>
      simp only [step] at taken
      split at taken
      · rename_i spawns
        obtain ⟨relays, started, rfl⟩ := Option.map_eq_some_iff.mp taken
        exact .spawn spawns started
      · cases taken
  | finish i =>
      simp only [step] at taken
      split at taken
      · rename_i runs
        split at taken <;> cases taken
        rename_i returned
        exact .finish runs returned
      · cases taken
  | relays action =>
      obtain ⟨relays, stepped, rfl⟩ := Option.map_eq_some_iff.mp taken
      exact .relays stepped
  | acceptFailed l | wake l | count l | track l | untrack i =>
      simp only [step] at taken
      split at taken <;> cases taken
      rename_i phase
      constructor
      exact phase

end Proxy
end KafkaProxy
