import KafkaProxy.Library.Tally
import KafkaProxy.Proxy.Moves

/-!
# How many clients are connected

The counter is compared with the limit in one step and increased in another, and it is decreased
when the first task of a pooled relay ends, while the other may still hold the client's socket.
-/

namespace KafkaProxy
open Library Startup

def ConnTask.isRunning : ConnTask → Bool
  | .running _ _ => true
  | .absent | .untracking _ _ | .ended _ => false

def AcceptLoop.isCounted : AcceptLoop → Bool
  | .tracking _ | .spawning _ => true
  | .absent | .select | .checking _ | .counting _ | .sleeping | .left => false

namespace Proxy

variable {settings : Settings} {p q : Proxy} {action : ProxyAction}

structure Counted (p : Proxy) : Prop where
  fresh : ∀ i, p.spawned ≤ i → p.tasks i = .absent
  tally : ∃ running signing, Tally ConnTask.isRunning p.tasks running ∧
    Tally AcceptLoop.isCounted p.loops signing ∧ p.downstreamConnections = running + signing

theorem Counted.setLoop {l : Nat} {loop : AcceptLoop} (counted : p.Counted)
    (same : loop.isCounted = (p.loops l).isCounted) : (p.setLoop l loop).Counted := by
  obtain ⟨fresh, running, signing, runs, signs, total⟩ := counted
  exact ⟨fresh, running, signing, runs, signs.update_same same, total⟩

theorem Counted.lt (counted : p.Counted) {i : Nat} (present : p.tasks i ≠ .absent) :
    i < p.spawned := by
  by_contra later
  exact present (counted.fresh i (Nat.le_of_not_lt later))

theorem Counted.spawn {l : Nat} {peer : SocketAddr} {relays : Relays} (counted : p.Counted)
    (spawns : p.loops l = .spawning peer) :
    Counted { (p.setLoop l .select).setTask p.spawned (.running l peer) with
      spawned := p.spawned + 1, relays } := by
  obtain ⟨fresh, running, signing, runs, signs, total⟩ := counted
  have positive : 0 < signing := signs.pos (i := l) (by rw [spawns]; rfl)
  refine ⟨?_, running + 1, signing - 1, runs.update _ _ ?_, signs.update _ _ ?_, ?_⟩
  · exact fresh_update (fun j later => fresh j (Nat.le_of_succ_le later)) (Nat.lt_succ_self _) _
  · rw [fresh p.spawned le_rfl]
    rfl
  · simp only [spawns, AcceptLoop.isCounted, Bool.toNat_true, Bool.toNat_false]
    omega
  · rw [Nat.cast_sub positive]
    exact total.trans (by push_cast; ring)

theorem Counted.finish {i l : Nat} {peer : SocketAddr} (counted : p.Counted)
    (runs : p.tasks i = .running l peer) :
    Counted { p.setTask i (.untracking l peer) with
      downstreamConnections := p.downstreamConnections - 1 } := by
  have early : i < p.spawned := counted.lt (by simp [runs])
  obtain ⟨fresh, running, signing, tasks, signs, total⟩ := counted
  have positive : 0 < running := tasks.pos (i := i) (by rw [runs]; rfl)
  refine ⟨fresh_update fresh early _, running - 1, signing, tasks.update _ _ ?_, signs, ?_⟩
  · simp only [runs, ConnTask.isRunning, Bool.toNat_true, Bool.toNat_false]
    omega
  · rw [total, Nat.cast_sub positive]
    push_cast
    ring

theorem Counted.step (counted : p.Counted) (unbound : p.loops p.bound = .absent)
    (change : Change settings p action q) : q.Counted := by
  cases change with
  | bind phase more =>
      have next : (p.setLoop p.bound .select).Counted := counted.setLoop (by rw [unbound]; rfl)
      exact ⟨next.fresh, next.tally⟩
  | bindFailed phase more => exact ⟨counted.fresh, counted.tally⟩
  | joined phase all left => exact ⟨counted.fresh, counted.tally⟩
  | cancel => exact ⟨counted.fresh, counted.tally⟩
  | leave waits cancelled => exact counted.setLoop (by rw [waits]; rfl)
  | abort phase waits =>
      obtain waits | sleeps := waits
      · exact counted.setLoop (by rw [waits]; rfl)
      · exact counted.setLoop (by rw [sleeps]; rfl)
  | overweight waits heavy => exact counted
  | accept waits light => exact counted.setLoop (by rw [waits]; rfl)
  | acceptFailed waits => exact counted.setLoop (by rw [waits]; rfl)
  | wake sleeps => exact counted.setLoop (by rw [sleeps]; rfl)
  | check checks room => exact counted.setLoop (by rw [checks]; rfl)
  | refuse checks full => exact counted.setLoop (by rw [checks]; rfl)
  | count counts =>
      obtain ⟨fresh, running, signing, runs, signs, total⟩ := counted
      refine ⟨fresh, running, signing + 1, runs, signs.update _ _ (by rw [counts]; rfl), ?_⟩
      rw [total]
      push_cast
      ring
  | @track l peer tracks =>
      have next : (p.setLoop _ (.spawning peer)).Counted := counted.setLoop (by rw [tracks]; rfl)
      exact ⟨next.fresh, next.tally⟩
  | spawn spawns started => exact counted.spawn spawns
  | finish runs returned => exact counted.finish runs
  | @untrack i l peer untracks =>
      have early : i < p.spawned := counted.lt (by simp [untracks])
      obtain ⟨fresh, running, signing, tasks, signs, total⟩ := counted
      exact ⟨fresh_update fresh early _, running, signing, tasks.update_same (by rw [untracks]; rfl),
        signs, total⟩
  | relays taken => exact ⟨counted.fresh, counted.tally⟩

/-- No other loop has counted a connection since the check, and a relay that is signed off does not
hold its client's socket any more. -/
def Guarded (settings : Settings) (p : Proxy) : ProxyAction → Prop
  | .count _ => p.atLimit settings = false
  | .finish i => p.relays.active i = false
  | _ => True

instance (settings : Settings) (p : Proxy) (action : ProxyAction) :
    Decidable (Guarded settings p action) :=
  match action with
  | .count _ => inferInstanceAs (Decidable (p.atLimit settings = false))
  | .finish i => inferInstanceAs (Decidable (p.relays.active i = false))
  | .bind | .bindFailed | .joined | .cancel | .leave _ | .abort _ | .accept .. | .acceptFailed _
  | .wake _ | .check _ | .track _ | .spawn _ | .untrack _ | .relays _ =>
      inferInstanceAs (Decidable True)

structure Capped (settings : Settings) (p : Proxy) : Prop where
  unbound : p.Unbound
  counted : p.Counted
  limit : p.downstreamConnections ≤ settings.maxDownstreamConnections.toNat
  held : ∀ i, p.relays.active i = true → (p.tasks i).isRunning = true

theorem Counted.nonneg (counted : p.Counted) : 0 ≤ p.downstreamConnections := by
  obtain ⟨_, running, signing, _, _, total⟩ := counted
  omega

theorem lt_of_atLimit (counted : p.Counted)
    (limit : p.downstreamConnections ≤ settings.maxDownstreamConnections.toNat)
    (room : p.atLimit settings = false) :
    p.downstreamConnections < settings.maxDownstreamConnections.toNat := by
  have nonneg := counted.nonneg
  have fits := settings.maxDownstreamConnections.toNat_lt
  have below : UInt64.ofInt p.downstreamConnections < settings.maxDownstreamConnections := by
    simpa [atLimit] using room
  rw [UInt64.lt_iff_toNat_lt, UInt64.ofInt, UInt64.toNat_ofNat'] at below
  omega

theorem Capped.limit_step (capped : Capped settings p) (guarded : Guarded settings p action)
    (change : Change settings p action q) :
    q.downstreamConnections ≤ settings.maxDownstreamConnections.toNat := by
  have limit := capped.limit
  cases change with
  | count counts => exact lt_of_atLimit capped.counted limit guarded
  | finish runs returned => exact (Int.sub_le_self _ (by decide)).trans limit
  | _ => exact limit

theorem Capped.held_step (capped : Capped settings p) (guarded : Guarded settings p action)
    (change : Change settings p action q) :
    ∀ i, q.relays.active i = true → (q.tasks i).isRunning = true := by
  have held := capped.held
  cases change with
  | @spawn l peer relays spawns started =>
      intro i active
      by_cases here : i = p.spawned
      · subst here
        simp [setTask, ConnTask.isRunning]
      · have before := held i (Relays.spawn_active started here active)
        simpa [setTask, setLoop, here] using before
  | @finish j l peer runs returned =>
      intro i active
      have other : i ≠ j := by
        rintro rfl
        cases active.symm.trans guarded
      simpa [setTask, other] using held i active
  | @untrack j l peer untracks =>
      intro i active
      have running := held i active
      have other : i ≠ j := by
        rintro rfl
        rw [untracks] at running
        cases running
      simpa [setTask, other] using running
  | relays taken => exact fun i active => held i (Relays.step_active taken active)
  | _ => exact held

theorem capped_of_reach (reach : (system settings).Reach (Guarded settings) p) :
    Capped settings p := by
  induction reach with
  | initial first =>
      rw [first]
      refine ⟨fun _ _ => rfl, ⟨fun _ _ => rfl, 0, 0, .none fun _ => rfl, .none fun _ => rfl, rfl⟩, ?_, ?_⟩
      · exact Int.natCast_nonneg _
      · intro i active
        cases (Relays.start_active settings).symm.trans active
  | next _ guarded taken ih =>
      have change := Change.of_step taken
      exact ⟨ih.unbound.step change, ih.counted.step (ih.unbound _ le_rfl) change,
        ih.limit_step guarded change, ih.held_step guarded change⟩

/-- No more clients hold a socket than the limit allows. -/
theorem downstream_le_max (reach : (system settings).Reach (Guarded settings) p) (held : Finset Nat)
    (active : ∀ i ∈ held, p.relays.active i = true) :
    held.card ≤ settings.maxDownstreamConnections.toNat := by
  obtain ⟨_, ⟨_, running, signing, ⟨members, same, rfl⟩, _, total⟩, limit, runs⟩ :=
    capped_of_reach reach
  have inside : held ⊆ members := by
    intro i member
    exact (same i).mpr (runs i (active i member))
  have fewer := Finset.card_le_card inside
  omega

/-! ## One client more than the limit -/

def oneClient (nodeIds : List Int32) : Settings :=
  { mode := .pooled, nodeIds, maxDownstreamConnections := 1, maxRssBytes := none
    clientIdleTimeout := none, maxInFlight := 4, metrics := .new true, codecs := .unknown
    map := ⟨∅⟩, silent := fun _ => false }

def peer (port : UInt16) : SocketAddr := ⟨.v4 0x0A000005, port⟩

def accepts (l : Nat) (peer : SocketAddr) : List ProxyAction :=
  [.accept l peer 0, .check l, .count l, .track l, .spawn l]

theorem downstream_le_max_next : ∃ p : Proxy, p.spawned = 2 ∧ p.relays.active 1 = true ∧
    ({1} : Finset Nat).card ≤ 1 := by
  obtain ⟨p, reach, spawned, active⟩ := (system (oneClient [1, 2])).exists_reach
    (Guarded (oneClient [1, 2])) (.start (oneClient [1, 2]))
    ([.bind, .bind] ++ accepts 0 (peer 50000) ++
      ([.hangUp, .leave, .respClosed].map fun action => .relays (.multiplex (.relay 0 action))) ++
      [.finish 0, .untrack 0] ++ accepts 1 (peer 50001))
    (fun p => p.spawned = 2 ∧ p.relays.active 1 = true) rfl (by decide +kernel)
  exact ⟨p, spawned, active, downstream_le_max reach {1} (by simpa using active)⟩

def forwards (i : Nat) : List ProxyAction :=
  [.request [0, 0, 0, 0, 0, 0, 0, 7], .next, .giveBack, .borrow, .acquired ⟨0, 1⟩, .check, .alloc,
    .store, .count, .push].map fun action => .relays (.multiplex (.relay i action))

/-- Two listeners check the counter before either increases it, and a relay is signed off when its
client stops sending, while the answer to its request is still to come. -/
theorem cap_exceeded :
    (¬ ∀ p (held : Finset Nat), (system (oneClient [1, 2])).Reachable p →
      (∀ i ∈ held, p.relays.active i = true) → held.card ≤ 1) ∧
    ¬ ∀ p (held : Finset Nat), (system (oneClient [1])).Reachable p →
      (∀ i ∈ held, p.relays.active i = true) → held.card ≤ 1 := by
  constructor
  · intro claim
    obtain ⟨p, reach, active⟩ := (system (oneClient [1, 2])).exists_reach (fun _ _ => True)
      (.start (oneClient [1, 2]))
      [.bind, .bind, .accept 0 (peer 50000) 0, .accept 1 (peer 50001) 0, .check 0, .check 1, .count 0,
        .count 1, .track 0, .track 1, .spawn 0, .spawn 1]
      (fun p => p.relays.active 0 = true ∧ p.relays.active 1 = true) rfl (by decide +kernel)
    exact absurd (claim p {0, 1} reach (by simpa using active)) (by decide)
  · intro claim
    obtain ⟨p, reach, active⟩ := (system (oneClient [1])).exists_reach (fun _ _ => True)
      (.start (oneClient [1]))
      ([.bind] ++ accepts 0 (peer 50000) ++ [.relays (.multiplex .create)] ++ forwards 0 ++
        [.relays (.multiplex (.relay 0 .hangUp)), .relays (.multiplex (.relay 0 .leave)), .finish 0,
          .untrack 0] ++ accepts 0 (peer 50001))
      (fun p => p.relays.active 0 = true ∧ p.relays.active 1 = true) rfl (by decide +kernel)
    exact absurd (claim p {0, 1} reach (by simpa using active)) (by decide)

end Proxy
end KafkaProxy
