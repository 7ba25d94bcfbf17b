import KafkaProxy.Library.Watch
import KafkaProxy.Proxy.Cancel
import KafkaProxy.Proxy.Tracker

/-!
# The two connection gauges in per_connection mode

A relay counts its connection to the broker when it has it, and a guard takes it off the gauge when
the relay returns. The task then signs the client off.
-/

namespace KafkaProxy
open Library Startup

def PerConnection.Session.isConnected : PerConnection.Session → Bool
  | .connected _ _ => true
  | .absent | .connecting | .failed => false

def Relays.guards (i : Nat) : Relays → Bool
  | .perConnection sessions => (sessions i).isConnected
  | .pooled _ => false

namespace Proxy

def guarded (p : Proxy) (i : Nat) : Bool := (p.tasks i).isRunning && p.relays.guards i

def noteUpstream (p : Proxy) (action : ProxyAction) (upstreamConnections : Int) : Int :=
  match action with
  | .relays (.session _ .connected) => upstreamConnections + 1
  | .finish i => if p.relays.guards i then upstreamConnections - 1 else upstreamConnections
  | _ => upstreamConnections

def gauged (settings : Settings) : System (Proxy × Int) ProxyAction :=
  (system settings).watch 0 noteUpstream

variable {settings : Settings} {p q : Proxy} {action : ProxyAction} {gauge : Int}

structure Gauged (p : Proxy) (gauge : Int) : Prop where
  mode : ∃ sessions, p.relays = .perConnection sessions
  held : ∀ i, p.relays.active i = true → (p.tasks i).isRunning = true
  tally : ∃ n, Tally id p.guarded n ∧ gauge = n

theorem Gauged.keep (gauged : Gauged p gauge) (tasks : q.tasks = p.tasks) (relays : q.relays = p.relays) :
    Gauged q gauge := by
  have same : q.guarded = p.guarded := by
    funext i
    rw [guarded, guarded, tasks, relays]
  refine ⟨relays ▸ gauged.mode, fun i => ?_, same ▸ gauged.tally⟩
  rw [tasks, relays]
  exact gauged.held i

theorem Gauged.spawn {l : Nat} {peer : SocketAddr} {relays : Relays} (gauged : Gauged p gauge)
    (counted : p.Counted) (started : p.relays.spawn settings p.spawned = some relays) :
    Gauged { (p.setLoop l .select).setTask p.spawned (.running l peer) with
      spawned := p.spawned + 1, relays } gauge := by
  obtain ⟨⟨sessions, own⟩, held, n, tally, total⟩ := gauged
  have before := started
  rw [own, Relays.spawn] at started
  split at started <;> cases started
  rename_i absent
  refine ⟨⟨_, rfl⟩, fun i active => ?_, n, ?_, total⟩
  · by_cases here : i = p.spawned
    · subst here
      simp [setTask, ConnTask.isRunning]
    · simpa [setTask, setLoop, here] using held i (Relays.spawn_active before here active)
  · have next : Proxy.guarded { (p.setLoop l .select).setTask p.spawned (.running l peer) with
        spawned := p.spawned + 1
        relays := .perConnection (Function.update sessions p.spawned .connecting) } =
        Function.update p.guarded p.spawned false := by
      funext i
      by_cases here : i = p.spawned
      · subst here
        simp [guarded, Relays.guards, PerConnection.Session.isConnected]
      · simp [guarded, Relays.guards, setTask, setLoop, own, here]
    rw [next]
    apply tally.update_same
    simp [guarded, counted.fresh p.spawned le_rfl, ConnTask.isRunning]

theorem Gauged.finish {i l : Nat} {peer : SocketAddr} (gauged : Gauged p gauge)
    (runs : p.tasks i = .running l peer) (returned : p.relays.returned i = true) :
    Gauged { p.setTask i (.untracking l peer) with downstreamConnections := p.downstreamConnections - 1 }
      (p.noteUpstream (.finish i) gauge) := by
  obtain ⟨⟨sessions, own⟩, held, n, tally, rfl⟩ := gauged
  have next : Proxy.guarded { p.setTask i (.untracking l peer) with
      downstreamConnections := p.downstreamConnections - 1 } = Function.update p.guarded i false := by
    funext j
    by_cases here : j = i
    · subst here
      simp [guarded, setTask, ConnTask.isRunning]
    · simp [guarded, setTask, here]
  refine ⟨⟨sessions, own⟩, fun j active => ?_, ?_⟩
  · have other : j ≠ i := by
      rintro rfl
      simp only [setTask, own, Relays.active, Relays.returned] at active returned
      cases phase : sessions j <;>
        simp_all [PerConnection.Session.active, PerConnection.Session.returned]
    simpa [setTask, other] using held j active
  · rw [next]
    cases guards : p.relays.guards i with
    | false =>
        refine ⟨n, tally.update_same ?_, by simp [noteUpstream, guards]⟩
        simp [guarded, guards]
    | true =>
        have passes : p.guarded i = true := by simp [guarded, runs, guards, ConnTask.isRunning]
        have positive : 0 < n := tally.pos passes
        refine ⟨n - 1, tally.update _ _ ?_, ?_⟩
        · simp only [id_eq, passes, Bool.toNat_true, Bool.toNat_false]
          omega
        · rw [noteUpstream, if_pos guards, Nat.cast_sub positive]
          push_cast
          ring

theorem Gauged.session {i : Nat} {own : PerConnection.SessionAction} {relays : Relays}
    (gauged : Gauged p gauge) (taken : p.relays.step settings (.session i own) = some relays) :
    Gauged { p with relays } (p.noteUpstream (.relays (.session i own)) gauge) := by
  obtain ⟨⟨sessions, known⟩, held, n, tally, rfl⟩ := gauged
  have before := taken
  rw [known] at taken
  obtain ⟨next, called, rfl⟩ := Option.map_eq_some_iff.mp taken
  refine ⟨⟨_, rfl⟩, fun j active => held j (Relays.step_active before active), ?_⟩
  have changed : Proxy.guarded { p with relays := .perConnection (Function.update sessions i next) } =
      Function.update p.guarded i ((p.tasks i).isRunning && next.isConnected) := by
    funext j
    by_cases here : j = i
    · subst here
      simp [guarded, Relays.guards]
    · simp [guarded, Relays.guards, known, here]
  rw [changed]
  cases own with
  | connected =>
      -- The relay is being connected, so its task runs and there was no guard.
      cases phase : sessions i with
      | connecting =>
          rw [phase] at called
          cases called
          have runs := held i (by simp [known, Relays.active, phase, PerConnection.Session.active])
          refine ⟨n + 1, tally.update _ _ ?_, by simp [noteUpstream]⟩
          simp [guarded, known, Relays.guards, phase, runs, PerConnection.Session.isConnected]
      | _ =>
          rw [phase] at called
          cases called
  | connectFailed =>
      cases phase : sessions i with
      | connecting =>
          rw [phase] at called
          cases called
          refine ⟨n, tally.update_same ?_, rfl⟩
          simp [guarded, known, Relays.guards, phase, PerConnection.Session.isConnected]
      | _ =>
          rw [phase] at called
          cases called
  | relay action =>
      cases phase : sessions i with
      | connected r unanswered =>
          rw [phase] at called
          obtain ⟨after, _, rfl⟩ := Option.map_eq_some_iff.mp called
          refine ⟨n, tally.update_same ?_, rfl⟩
          simp [guarded, known, Relays.guards, phase, PerConnection.Session.isConnected]
      | _ =>
          rw [phase] at called
          cases called

theorem Gauged.step (gauged : Gauged p gauge) (counted : p.Counted)
    (change : Change settings p action q) : Gauged q (p.noteUpstream action gauge) := by
  cases change with
  | spawn spawns started => exact gauged.spawn counted started
  | finish runs returned => exact gauged.finish runs returned
  | @untrack i l peer untracks =>
      obtain ⟨mode, held, n, tally, total⟩ := gauged
      have same : Proxy.guarded { p.setTask i (.ended l) with connTracker := p.connTracker.erase peer } =
          p.guarded := by
        funext j
        by_cases here : j = i
        · subst here
          simp [guarded, setTask, untracks, ConnTask.isRunning]
        · simp [guarded, setTask, here]
      refine ⟨mode, fun j active => ?_, n, same ▸ tally, total⟩
      have runs := held j active
      have other : j ≠ i := by
        rintro rfl
        rw [untracks] at runs
        cases runs
      simpa [setTask, other] using runs
  | @relays own relays taken =>
      cases own with
      | session i own => exact gauged.session taken
      | multiplex own =>
          obtain ⟨sessions, known⟩ := gauged.mode
          rw [known] at taken
          cases taken
  | _ => exact gauged.keep rfl rfl

theorem gauged_of_reachable (mode : settings.mode = .perConnection) {s : Proxy × Int}
    (reach : (gauged settings).Reachable s) : s.1.Counted ∧ Gauged s.1 s.2 := by
  induction reach with
  | @initial s first =>
      obtain ⟨start, none⟩ := first
      rw [start, none]
      have relays : (Proxy.start settings).relays = .perConnection fun _ => .absent := by
        rw [Proxy.start, Relays.start, mode]
      refine ⟨(bounds_of_reachable (.initial rfl)).2, ⟨_, relays⟩, fun i active => ?_, 0, ?_, rfl⟩
      · cases (Relays.start_active settings).symm.trans active
      · exact .none fun _ => rfl
  | @next before after action reached _ taken ih =>
      obtain ⟨stepped, noted⟩ := System.watch_step.mp taken
      have change := Change.of_step stepped
      have unbound := (bounds_of_reachable (System.Reach.unwatched reached)).1
      rw [noted]
      exact ⟨ih.1.step (unbound _ le_rfl) change, ih.2.step ih.1 change⟩

/-- The upstream gauge counts the relays that have a connection and have not returned. It never passes
the downstream gauge. -/
theorem upstream_gauge (mode : settings.mode = .perConnection) {s : Proxy × Int}
    (reach : (gauged settings).Reachable s) :
    (∃ held : Finset Nat, (∀ i, i ∈ held ↔ (s.1.tasks i).isRunning = true ∧ s.1.relays.guards i = true) ∧
      s.2 = held.card) ∧
    s.2 ≤ s.1.downstreamConnections ∧ ((∀ i, (s.1.tasks i).isRunning = false) → s.2 = 0) := by
  obtain ⟨counted, ⟨_, _, n, tally, total⟩⟩ := gauged_of_reachable mode reach
  obtain ⟨_, running, signing, runs, _, downstream⟩ := counted
  have fewer : n ≤ running := by
    apply tally.le runs
    intro i guarded
    exact (Bool.and_eq_true _ _ ▸ guarded : _ ∧ _).1
  refine ⟨?_, by omega, fun none => ?_⟩
  · obtain ⟨held, same, rfl⟩ := tally
    refine ⟨held, fun i => ?_, total⟩
    rw [same, id_eq, guarded, Bool.and_eq_true]
  · have zero : running = 0 := runs.eq_zero none
    omega

def twoSessions : Settings := { oneSession with maxDownstreamConnections := 2 }

theorem upstream_gauge_connected : ∃ s : Proxy × Int, s.2 = 1 ∧ s.1.downstreamConnections = 2 ∧
    s.2 ≤ s.1.downstreamConnections := by
  obtain ⟨s, reach, one, two⟩ := (gauged twoSessions).exists_reach (fun _ _ => True) (.start twoSessions, 0)
    ([.bind] ++ accepts 0 (peer 50000) ++ accepts 0 (peer 50001) ++ [session .connected])
    (fun s => s.2 = 1 ∧ s.1.downstreamConnections = 2) ⟨rfl, rfl⟩ (by decide +kernel)
  exact ⟨s, one, two, (upstream_gauge rfl reach).2.1⟩

end Proxy
end KafkaProxy
