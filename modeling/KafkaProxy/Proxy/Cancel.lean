import KafkaProxy.Proxy.Shutdown

/-!
# When the cancel token fires

`run` drains if no client is connected when the token fires and none is let in after it. With a client
connected it may return at once.
-/

namespace KafkaProxy
open Library Startup

def AcceptLoop.busy : AcceptLoop → Bool
  | .checking _ | .counting _ | .tracking _ | .spawning _ => true
  | .absent | .select | .sleeping | .left => false

namespace Proxy

variable {settings : Settings} {p q : Proxy} {action : ProxyAction}

/-! ## The state in which the token fires -/

/-- No client is connected and nothing is owed when the token fires, and no client is let in then. -/
def Calm (settings : Settings) (p : Proxy) : ProxyAction → Prop
  | .cancel => (∀ l < p.bound, (p.loops l).busy = false) ∧
      ∀ i < p.spawned, (p.tasks i).Over settings p.relays i
  | .accept .. => p.cancelled = false
  | _ => True

instance (settings : Settings) (p : Proxy) (action : ProxyAction) :
    Decidable (Calm settings p action) :=
  match action with
  | .cancel => inferInstanceAs (Decidable (_ ∧ ∀ i < p.spawned, _))
  | .accept .. => inferInstanceAs (Decidable (p.cancelled = false))
  | .bind | .bindFailed | .joined | .leave _ | .abort _ | .acceptFailed _ | .wake _ | .check _ | .count _
  | .track _ | .spawn _ | .finish _ | .untrack _ | .relays _ => inferInstanceAs (Decidable True)

structure Emptied (settings : Settings) (p : Proxy) : Prop where
  loops : ∀ l, (p.loops l).busy = false
  finished : ∀ i, (p.tasks i).Over settings p.relays i

theorem Emptied.setLoop {l : Nat} {loop : AcceptLoop} (emptied : Emptied settings p)
    (idle : loop.busy = false) : Emptied settings (p.setLoop l loop) := by
  refine ⟨?_, emptied.finished⟩
  apply (Function.forall_update_iff p.loops fun _ loop => loop.busy = false).2
  exact ⟨idle, fun k _ => emptied.loops k⟩

theorem Drains.cancel (drains : Drains settings p) (calm : Calm settings p .cancel) :
    Emptied settings p := by
  constructor
  · intro l
    by_cases early : l < p.bound
    · exact calm.1 l early
    · rw [drains.unbound l (Nat.le_of_not_lt early)]
      rfl
  · intro i
    by_cases early : i < p.spawned
    · exact calm.2 i early
    · have absent := drains.fresh i (Nat.le_of_not_lt early)
      exact ⟨by rw [absent]; rfl, drains.quiet i absent⟩

theorem Emptied.step (drains : Drains settings p) (emptied : p.cancelled = true → Emptied settings p)
    (calm : Calm settings p action) (change : Change settings p action q) (cancelled : q.cancelled = true) :
    Emptied settings q := by
  cases change with
  | cancel =>
      obtain ⟨loops, finished⟩ := drains.cancel calm
      exact ⟨loops, finished⟩
  | bind phase more =>
      obtain ⟨loops, finished⟩ := @Emptied.setLoop settings p p.bound .select (emptied cancelled) rfl
      exact ⟨loops, finished⟩
  | bindFailed phase more =>
      obtain ⟨loops, finished⟩ := emptied cancelled
      exact ⟨loops, finished⟩
  | joined phase all left =>
      obtain ⟨loops, finished⟩ := emptied cancelled
      exact ⟨loops, finished⟩
  | leave waits _ => exact (emptied cancelled).setLoop rfl
  | abort phase waits => exact (emptied cancelled).setLoop rfl
  | overweight waits heavy => exact emptied cancelled
  | accept waits light => cases calm.symm.trans cancelled
  | acceptFailed waits => exact (emptied cancelled).setLoop rfl
  | wake sleeps => exact (emptied cancelled).setLoop rfl
  | @check l _ holds | @refuse l _ holds | @count l _ holds | @track l _ holds | @spawn l _ _ holds =>
      have idle := (emptied cancelled).loops l
      rw [holds] at idle
      cases idle
  | @finish i _ _ runs | @untrack i _ _ runs =>
      have finished := ((emptied cancelled).finished i).task
      rw [runs] at finished
      cases finished
  | relays taken =>
      obtain ⟨loops, finished⟩ := emptied cancelled
      refine ⟨loops, fun i => ?_⟩
      obtain ⟨task, relay⟩ := finished i
      exact ⟨task, relay.step drains.signed taken⟩

theorem waits_of_calm (reach : (system settings).Reach (Calm settings) p) :
    (system settings).Reach (Waits settings) p ∧ (p.cancelled = true → Emptied settings p) := by
  induction reach with
  | initial first =>
      refine ⟨.initial first, fun cancelled => ?_⟩
      rw [first] at cancelled
      cases cancelled
  | @next p q action _ calm taken ih =>
      obtain ⟨before, emptied⟩ := ih
      have change := Change.of_step taken
      refine ⟨.next before ?_ taken, Emptied.step (drains_of_reach before) emptied calm change⟩
      cases change with
      | leave waits cancelled => exact fun i _ _ => (emptied cancelled).finished i
      | _ => trivial

/-! ## A token that fires with a client connected -/

structure Listening (settings : Settings) (p : Proxy) : Prop where
  bound : p.bound ≤ settings.nodeIds.length
  present : ∀ l < p.bound, p.loops l ≠ .absent

theorem Listening.setLoop {l : Nat} {loop : AcceptLoop} (listening : Listening settings p)
    (present : loop ≠ .absent) : Listening settings (p.setLoop l loop) := by
  refine ⟨listening.bound, ?_⟩
  apply (Function.forall_update_iff p.loops fun k loop => k < p.bound → loop ≠ .absent).2
  exact ⟨fun _ => present, fun k _ => listening.present k⟩

theorem Listening.bind (listening : Listening settings p) (more : p.bound < settings.nodeIds.length) :
    Listening settings { p.setLoop p.bound .select with bound := p.bound + 1 } := by
  refine ⟨more, ?_⟩
  apply (Function.forall_update_iff p.loops fun k loop => k < p.bound + 1 → loop ≠ .absent).2
  refine ⟨fun _ => nofun, fun k other early => listening.present k ?_⟩
  exact Nat.lt_of_le_of_ne (Nat.le_of_lt_succ early) other

theorem listening_of_reachable (reachable : (system settings).Reachable p) : Listening settings p := by
  induction reachable with
  | initial first =>
      rw [first]
      exact ⟨Nat.zero_le _, nofun⟩
  | next _ _ taken ih =>
      cases Change.of_step taken with
      | bind phase more => exact ih.bind more
      | leave | abort | accept | acceptFailed | wake | check | refuse => exact ih.setLoop nofun
      | @count l peer =>
          have next := @Listening.setLoop settings _ l (.tracking peer) ih nofun
          exact ⟨next.bound, next.present⟩
      | @track l peer =>
          have next := @Listening.setLoop settings _ l (.spawning peer) ih nofun
          exact ⟨next.bound, next.present⟩
      | @spawn l =>
          have next := @Listening.setLoop settings _ l .select ih nofun
          exact ⟨next.bound, next.present⟩
      | bindFailed | joined | cancel | overweight | finish | untrack | relays =>
          exact ⟨ih.bound, ih.present⟩

/-- The token has fired, and since then no task and no relay has taken a step. -/
structure Halted (settings : Settings) (p q : Proxy) : Prop where
  leads : (system settings).Leads (fun _ _ => True) p q
  phase : q.phase = .running
  cancelled : q.cancelled = true
  idle : ∀ l, (q.loops l).busy = false
  tasks : q.tasks = p.tasks
  relays : q.relays = p.relays

theorem Halted.setLoop {l : Nat} {loop : AcceptLoop} (halted : Halted settings p q)
    (taken : q.step settings action = some (q.setLoop l loop)) (idle : loop.busy = false) :
    Halted settings p (q.setLoop l loop) := by
  obtain ⟨leads, phase, cancelled, others, tasks, relays⟩ := halted
  refine ⟨.next leads trivial taken, phase, cancelled, ?_, tasks, relays⟩
  apply (Function.forall_update_iff q.loops fun _ loop => loop.busy = false).2
  exact ⟨idle, fun k _ => others k⟩

theorem Halted.bind (halted : Halted settings p q) (more : q.bound < settings.nodeIds.length) :
    Halted settings p { q.setLoop q.bound .select with bound := q.bound + 1 } := by
  obtain ⟨leads, phase, cancelled, others, tasks, relays⟩ := halted
  have taken : q.step settings .bind =
      some { q.setLoop q.bound .select with bound := q.bound + 1 } := by
    rw [Proxy.step, if_pos ⟨phase, more⟩]
  refine ⟨.next (a := .bind) leads trivial taken, phase, cancelled, ?_, tasks, relays⟩
  apply (Function.forall_update_iff q.loops fun _ loop => loop.busy = false).2
  exact ⟨rfl, fun k _ => others k⟩

theorem Halted.bind_rest (halted : Halted settings p q) (reach : (system settings).Reachable p) :
    ∃ r, Halted settings p r ∧ r.bound = settings.nodeIds.length := by
  have fits := (listening_of_reachable (reach.leads halted.leads)).bound
  induction rest : settings.nodeIds.length - q.bound generalizing q with
  | zero => exact ⟨q, halted, by omega⟩
  | succ n ih =>
      have more : q.bound < settings.nodeIds.length := by omega
      exact ih (halted.bind more) more (by simp only; omega)

theorem Halted.leave {l : Nat} (halted : Halted settings p q) (present : q.loops l ≠ .absent) :
    ∃ r, Halted settings p r ∧ r.bound = q.bound ∧ r.loops l = .left ∧
      ∀ k, q.loops k = .left → r.loops k = .left := by
  have leaves {q : Proxy} (halted : Halted settings p q) (waits : q.loops l = .select) :
      Halted settings p (q.setLoop l .left) := by
    have taken : q.step settings (.leave l) = some (q.setLoop l .left) := by
      simp only [Proxy.step, waits]
      rw [if_pos halted.cancelled]
    exact halted.setLoop taken rfl
  have stays (q : Proxy) (k : Nat) (left : q.loops k = .left) : (q.setLoop l .left).loops k = .left := by
    by_cases here : k = l
    · simp [Proxy.setLoop, here]
    · simpa [Proxy.setLoop, here] using left
  cases loop : q.loops l with
  | absent => exact absurd loop present
  | left => exact ⟨q, halted, rfl, loop, fun _ left => left⟩
  | select => exact ⟨_, leaves halted loop, rfl, Function.update_self .., stays q⟩
  | sleeping =>
      have woken : Halted settings p (q.setLoop l .select) := by
        have taken : q.step settings (.wake l) = some (q.setLoop l .select) := by
          simp only [Proxy.step, loop]
        exact halted.setLoop taken rfl
      refine ⟨_, leaves woken (Function.update_self ..), rfl, Function.update_self .., fun k left => ?_⟩
      have other : k ≠ l := by
        rintro rfl
        cases loop.symm.trans left
      simpa [Proxy.setLoop, other] using left
  | checking | counting | tracking | spawning =>
      have idle := halted.idle l
      rw [loop] at idle
      cases idle

theorem Halted.leave_all (halted : Halted settings p q) (reach : (system settings).Reachable p) (n : Nat)
    (fits : n ≤ q.bound) :
    ∃ r, Halted settings p r ∧ r.bound = q.bound ∧ ∀ l < n, r.loops l = .left := by
  induction n with
  | zero => exact ⟨q, halted, rfl, nofun⟩
  | succ n ih =>
      obtain ⟨r, halted, same, left⟩ := ih (Nat.le_of_succ_le fits)
      have listening := listening_of_reachable (reach.leads halted.leads)
      obtain ⟨next, halted, again, here, stays⟩ := halted.leave (listening.present n (by omega))
      refine ⟨next, halted, again.trans same, fun l early => ?_⟩
      cases Nat.eq_or_lt_of_le (Nat.le_of_lt_succ early) with
      | inl last => rw [last, here]
      | inr before => exact stays l (left l before)

theorem exists_returned (reach : (system settings).Reachable p) (phase : p.phase = .running)
    (idle : ∀ l, (p.loops l).busy = false) :
    ∃ q, (system settings).Leads (fun _ _ => True) p q ∧ q.phase = .returned ∧ q.tasks = p.tasks ∧
      q.relays = p.relays := by
  have fired : Halted settings p { p with cancelled := true } :=
    ⟨.next .refl trivial (a := .cancel) rfl, phase, rfl, idle, rfl, rfl⟩
  obtain ⟨bound, halted, all⟩ := fired.bind_rest reach
  obtain ⟨q, halted, same, left⟩ := halted.leave_all reach bound.bound le_rfl
  have taken : q.step settings .joined = some { q with phase := .returned } := by
    rw [Proxy.step, if_pos]
    exact ⟨halted.phase, same.trans all, fun l early => left l (same ▸ early)⟩
  exact ⟨_, .next (a := .joined) halted.leads trivial taken, rfl, halted.tasks, halted.relays⟩

/-- `run` drains if no client is connected when the token fires and none is let in then. If the token
fires while a client is connected, `run` may return before its relay has ended. -/
theorem run_drains :
    (∀ p, (system settings).Reach (Calm settings) p → p.phase = .returned →
      ∀ i, (p.tasks i).Over settings p.relays i) ∧
    ∀ p i, (system settings).Reachable p → p.phase = .running → (∀ l, (p.loops l).busy = false) →
      ¬ (p.tasks i).Over settings p.relays i →
      ∃ q, (system settings).Leads (fun _ _ => True) p q ∧ q.phase = .returned ∧
        ¬ (q.tasks i).Over settings q.relays i := by
  constructor
  · intro p reach done i
    exact over_of_waits (waits_of_calm reach).1 done i
  · intro p i reach phase idle connected
    obtain ⟨q, leads, done, tasks, relays⟩ := exists_returned reach phase idle
    exact ⟨q, leads, done, by rwa [tasks, relays]⟩

def oneSession : Settings := { oneClient [1] with mode := .perConnection }

def session (action : PerConnection.SessionAction) : ProxyAction := .relays (.session 0 action)

def hangsUp : List ProxyAction :=
  ([.upstream 0 .write, .upstream 0 (.answer 0 [0, 0, 0, 2]), .upstream 0 .read, .upstream 0 .forward,
    .upstream 0 .take, .upstream 0 .route, .relay 0 .deliver, .relay 0 .hangUp, .relay 0 .leave,
    .relay 0 .respClosed].map fun action => .relays (.multiplex action)) ++ [.finish 0, .untrack 0]

theorem run_drains_answered : ∃ p : Proxy, p.phase = .returned ∧ p.spawned = 1 ∧
    (p.tasks 0).Over (oneClient [1, 2]) p.relays 0 := by
  obtain ⟨p, reach, done, one⟩ := (system (oneClient [1, 2])).exists_reach (Calm (oneClient [1, 2]))
    (.start (oneClient [1, 2]))
    ([.bind, .bind] ++ accepts 0 (peer 50000) ++ [.relays (.multiplex .create)] ++ forwards 0 ++ hangsUp ++
      [.cancel, .leave 1, .leave 0, .joined])
    (fun p => p.phase = .returned ∧ p.spawned = 1) rfl (by decide +kernel)
  exact ⟨p, done, one, run_drains.1 p reach done 0⟩

theorem drain_skipped :
    (¬ ∀ p i, (system (oneClient [1])).Reachable p → p.phase = .returned →
      (p.tasks i).Over (oneClient [1]) p.relays i) ∧
    ¬ ∀ p i, (system oneSession).Reachable p → p.phase = .returned →
      (p.tasks i).Over oneSession p.relays i := by
  constructor
  · intro claim
    obtain ⟨p, reach, done, owed⟩ := (system (oneClient [1])).exists_reach (fun _ _ => True)
      (.start (oneClient [1]))
      ([.bind] ++ accepts 0 (peer 50000) ++ [.relays (.multiplex .create)] ++ forwards 0 ++
        [.relays (.multiplex (.upstream 0 .write)), .cancel, .leave 0, .joined])
      (fun p => p.phase = .returned ∧ p.relays.Owed (oneClient [1]).silent 0) rfl (by decide +kernel)
    exact (claim p 0 reach done).relay.answered owed
  · intro claim
    obtain ⟨p, reach, done, owed⟩ := (system oneSession).exists_reach (fun _ _ => True)
      (.start oneSession)
      ([.bind] ++ accepts 0 (peer 50000) ++
        [session .connected, session (.relay (.down (.arrive (.frame [0, 0, 0, 0, 0, 0, 0, 7])))),
          session (.relay (.down .next)), session (.relay (.down .sent)), .cancel, .leave 0, .joined])
      (fun p => p.phase = .returned ∧ p.relays.Owed oneSession.silent 0) rfl (by decide +kernel)
    exact (claim p 0 reach done).relay.answered owed

end Proxy
end KafkaProxy
