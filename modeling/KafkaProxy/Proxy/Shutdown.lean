import KafkaProxy.Pooled.Drain
import KafkaProxy.Pooled.Routing
import KafkaProxy.Proxy.Cap

/-!
# When `run` returns

`run` waits for the accept loops only. What they have spawned is over by then if no loop leaves
before its own relays have ended and their requests are answered.
-/

namespace KafkaProxy
open Library Startup

theorem PerConnection.Session.answered_of_inactive {s : Session} {silent : Frame → Bool}
    (idle : s.active = false) : ¬ s.Owed silent := by
  cases s with
  | connected r unanswered =>
      rintro ⟨opens, _⟩
      cases idle.symm.trans opens
  | _ => exact id

namespace Pooled.Multiplex

structure Signed (m : Multiplex) : Prop where
  hands : ∀ i job cidU tag, (m.relays i).downToUp.registered = some (job, cidU, tag) →
    m.requests[tag]?.map (·.client) = some i
  sent : ∀ k, ∀ write ∈ (m.upstreams k).writeRx ++ (m.upstreams k).unanswered,
    write.tag < m.requests.length

variable {idle : Option Nat} {codecs : Codecs} {map : RewriteMap} {m n : Multiplex} {i k : Nat}
  {silent : Frame → Bool}

theorem client_grow {requests later : List Request} {tag : Nat} (more : requests <+: later)
    (known : requests[tag]?.map (·.client) = some i) : later[tag]?.map (·.client) = some i := by
  obtain ⟨req, found, own⟩ := Option.map_eq_some_iff.mp known
  rw [getElem?_of_isPrefix more found, Option.map_some, own]

theorem RelayMove.registered {action : RelayAction} {job : Job} {cidU : Int32} {tag : Nat}
    (move : RelayMove idle m i (m.relays i) action n)
    (held : (n.relays i).downToUp.registered = some (job, cidU, tag)) :
    (m.relays i).downToUp.registered = some (job, cidU, tag) ∨
      n.requests[tag]?.map (·.client) = some i := by
  cases move with
  | alloc phase leased =>
      simp only [setRelay_relays, Function.update_self, DownToUp.registered, Option.some.injEq,
        Prod.mk.injEq] at held
      right
      rw [← held.2.2]
      simp
  | store phase leased =>
      left
      rw [phase]
      simpa [DownToUp.registered] using held
  | count phase =>
      left
      rw [phase]
      simpa [DownToUp.registered] using held
  | request data => exact .inl (by simpa using held)
  | deliver listens queue => exact .inl (by simpa using held)
  | deliverFailed listens => exact .inl (by simpa using held)
  | respClosed listens empty done last => exact .inl (by simpa using held)
  | _ => simp [DownToUp.registered] at held

theorem Signed.step {action : MultiplexAction} (signed : m.Signed)
    (change : Change idle codecs map m action n) : n.Signed := by
  have grown := change.requests_grow
  constructor
  · intro i job cidU tag held
    obtain ⟨_, respRx, same⟩ | ⟨own, rfl, move⟩ := change.at_relay i
    · rw [same] at held
      exact client_grow grown (signed.hands i job cidU tag held)
    · obtain before | known := move.registered held
      · exact client_grow grown (signed.hands i job cidU tag before)
      · exact known
  · intro k write member
    obtain ⟨before, _⟩ | ⟨i, job, phase, _⟩ := change.sent member
    · exact (signed.sent k write before).trans_le grown.length_le
    · have held := signed.hands i job write.cidU write.tag (by rw [phase]; rfl)
      obtain ⟨req, found, _⟩ := Option.map_eq_some_iff.mp held
      exact (List.getElem?_eq_some_iff.mp found).1.trans_le grown.length_le

theorem Change.was_open {action : MultiplexAction} (change : Change idle codecs map m action n)
    (early : k < m.opened) (opens : (n.upstreams k).writeLoop.isOpen = true) :
    (m.upstreams k).writeLoop.isOpen = true := by
  obtain ⟨_, writeRx, same⟩ | ⟨_, rfl, _⟩ | ⟨own, rfl, move⟩ := change.at_upstream k
  · rwa [same] at opens
  · exact absurd early (Nat.lt_irrefl _)
  · cases move <;> simp_all [WriteLoop.isOpen]

theorem Change.owed {action : MultiplexAction} (signed : m.Signed)
    (change : Change idle codecs map m action n) (quiet : (m.relays i).active = false)
    (owed : n.Owed silent i) : m.Owed silent i := by
  obtain ⟨k, opens, there, write, member, own, loud⟩ := owed
  obtain ⟨before, opened⟩ | ⟨j, job, phase, _⟩ := change.sent member
  · refine ⟨k, opened opens, change.was_open (opened opens) there, write, before, ?_, loud⟩
    have early := signed.sent k write before
    obtain ⟨more, extended⟩ := change.requests_grow
    rwa [← extended, List.getElem?_append_left early] at own
  · have held := signed.hands j job write.cidU write.tag (by rw [phase]; rfl)
    rw [client_grow change.requests_grow held, Option.some.injEq] at own
    rw [← own] at quiet
    simp [PooledRelay.active, phase] at quiet

end Pooled.Multiplex

namespace Relays

variable {settings : Settings} {s t : Relays} {i j : Nat}

def Signed : Relays → Prop
  | .perConnection _ => True
  | .pooled m => m.Signed

theorem Signed.step {action : RelaysAction} (signed : s.Signed)
    (taken : s.step settings action = some t) : t.Signed := by
  cases s with
  | perConnection sessions =>
      obtain ⟨j, own, next, rfl, called⟩ := step_perConnection taken
      trivial
  | pooled m =>
      obtain ⟨own, n, rfl, later, change⟩ := step_pooled taken
      exact Pooled.Multiplex.Signed.step signed change

theorem Signed.spawn (signed : s.Signed) (started : s.spawn settings j = some t) : t.Signed := by
  cases s with
  | perConnection sessions =>
      simp only [Relays.spawn] at started
      split at started <;> cases started
      trivial
  | pooled m =>
      obtain ⟨n, called, rfl⟩ := Option.map_eq_some_iff.mp started
      have change : Pooled.Multiplex.Change settings.clientIdleTimeout settings.codecs settings.map m
        (.relay j .connect) n := .relay (.of_step called)
      exact Pooled.Multiplex.Signed.step signed change

structure Quiet (settings : Settings) (s : Relays) (i : Nat) : Prop where
  inactive : s.active i = false
  answered : ¬ s.Owed settings.silent i

theorem Quiet.step {action : RelaysAction} (quiet : s.Quiet settings i) (signed : s.Signed)
    (taken : s.step settings action = some t) : t.Quiet settings i := by
  have inactive : t.active i = false := by
    by_contra active
    rw [Bool.not_eq_false] at active
    cases quiet.inactive.symm.trans (step_active taken active)
  refine ⟨inactive, ?_⟩
  cases s with
  | perConnection sessions =>
      obtain ⟨j, own, next, rfl, called⟩ := step_perConnection taken
      exact PerConnection.Session.answered_of_inactive inactive
  | pooled m =>
      obtain ⟨own, n, rfl, later, change⟩ := step_pooled taken
      exact fun owed => quiet.answered (change.owed signed quiet.inactive owed)

theorem Quiet.spawn (quiet : s.Quiet settings i) (signed : s.Signed)
    (started : s.spawn settings j = some t) (other : i ≠ j) : t.Quiet settings i := by
  have inactive : t.active i = false := by
    by_contra active
    rw [Bool.not_eq_false] at active
    cases quiet.inactive.symm.trans (spawn_active started other active)
  refine ⟨inactive, ?_⟩
  cases s with
  | perConnection sessions =>
      simp only [Relays.spawn] at started
      split at started <;> cases started
      exact PerConnection.Session.answered_of_inactive inactive
  | pooled m =>
      obtain ⟨n, called, rfl⟩ := Option.map_eq_some_iff.mp started
      have change : Pooled.Multiplex.Change settings.clientIdleTimeout settings.codecs settings.map m
        (.relay j .connect) n := .relay (.of_step called)
      exact fun owed => quiet.answered (change.owed signed quiet.inactive owed)

end Relays

def ConnTask.listener : ConnTask → Option Nat
  | .absent => none
  | .running l _ | .untracking l _ | .ended l => some l

def ConnTask.isOver : ConnTask → Bool
  | .absent | .ended _ => true
  | .running _ _ | .untracking _ _ => false

structure ConnTask.Over (settings : Settings) (relays : Relays) (i : Nat) (task : ConnTask) : Prop where
  task : task.isOver = true
  relay : relays.Quiet settings i

namespace Proxy

variable {settings : Settings} {p q : Proxy} {action : ProxyAction}

/-- A loop leaves when every task that it has spawned has ended, with its relay, and the requests
that the relay has forwarded are answered. -/
def Waits (settings : Settings) (p : Proxy) : ProxyAction → Prop
  | .leave l =>
      ∀ i < p.spawned, (p.tasks i).listener = some l → (p.tasks i).Over settings p.relays i
  | _ => True

instance (settings : Settings) (relays : Relays) (i : Nat) (task : ConnTask) :
    Decidable (task.Over settings relays i) :=
  decidable_of_iff (task.isOver = true ∧ relays.active i = false ∧ ¬ relays.Owed settings.silent i)
    ⟨fun ⟨ended, inactive, answered⟩ => ⟨ended, inactive, answered⟩,
      fun ended => ⟨ended.task, ended.relay.inactive, ended.relay.answered⟩⟩

instance (settings : Settings) (p : Proxy) (action : ProxyAction) :
    Decidable (Waits settings p action) :=
  match action with
  | .leave _ => inferInstanceAs (Decidable (∀ i < p.spawned, _))
  | .bind | .bindFailed | .joined | .cancel | .abort _ | .accept .. | .acceptFailed _ | .wake _
  | .check _ | .count _ | .track _ | .spawn _ | .finish _ | .untrack _ | .relays _ =>
      inferInstanceAs (Decidable True)

structure Drains (settings : Settings) (p : Proxy) : Prop where
  unbound : p.Unbound
  fresh : ∀ i, p.spawned ≤ i → p.tasks i = .absent
  signed : p.relays.Signed
  owner : ∀ i l, (p.tasks i).listener = some l → p.loops l ≠ .absent
  quiet : ∀ i, p.tasks i = .absent → p.relays.Quiet settings i
  ended : p.phase ≠ .failed → ∀ i l, (p.tasks i).listener = some l → p.loops l = .left →
    (p.tasks i).Over settings p.relays i
  returned : p.phase = .returned → ∀ l < p.bound, p.loops l = .left

theorem Drains.setLoop {l : Nat} {loop : AcceptLoop} (drains : Drains settings p)
    (before : p.loops l ≠ .absent) (stays : p.loops l ≠ .left) (present : loop ≠ .absent)
    (leaves : loop = .left → p.phase ≠ .failed →
      ∀ i, (p.tasks i).listener = some l → (p.tasks i).Over settings p.relays i) :
    Drains settings (p.setLoop l loop) := by
  obtain ⟨unbound, fresh, signed, owner, quiet, ended, returned⟩ := drains
  refine ⟨unbound.setLoop before loop, fresh, signed, fun i k own => ?_, quiet, ?_, ?_⟩
  · by_cases here : k = l
    · subst here
      simpa [Proxy.setLoop] using present
    · simpa [Proxy.setLoop, here] using owner i k own
  · intro going i k own left
    by_cases here : k = l
    · subst here
      simp only [Proxy.setLoop, Function.update_self] at left
      exact leaves left going i own
    · simp only [Proxy.setLoop, Function.update_of_ne here] at left
      exact ended going i k own left
  · intro done k early
    have known := returned done k early
    by_cases here : k = l
    · subst here
      exact absurd known stays
    · simpa [Proxy.setLoop, here] using known

theorem Drains.bind (drains : Drains settings p) (phase : p.phase = .running) :
    Drains settings { p.setLoop p.bound .select with bound := p.bound + 1 } := by
  obtain ⟨unbound, fresh, signed, owner, quiet, ended, returned⟩ := drains
  have other {l : Nat} (different : l ≠ p.bound) :
      (p.setLoop p.bound .select).loops l = p.loops l := Function.update_of_ne different _ _
  have here : (p.setLoop p.bound .select).loops p.bound = .select := Function.update_self ..
  refine ⟨?_, fresh, signed, fun i l own => ?_, quiet, fun going i l own left => ?_, ?_⟩
  · intro l later
    rw [other (Nat.lt_of_succ_le later).ne']
    exact unbound l (Nat.le_of_succ_le later)
  · by_cases same : l = p.bound
    · rw [same, here]
      nofun
    · rw [other same]
      exact owner i l own
  · by_cases same : l = p.bound
    · rw [same, here] at left
      cases left
    · rw [other same] at left
      exact ended going i l own left
  · intro done
    cases phase.symm.trans done

theorem Drains.spawn {l : Nat} {peer : SocketAddr} {relays : Relays} (drains : Drains settings p)
    (waiting : p.loops l = .select) (started : p.relays.spawn settings p.spawned = some relays) :
    Drains settings { p.setTask p.spawned (.running l peer) with
      spawned := p.spawned + 1, relays } := by
  obtain ⟨unbound, fresh, signed, owner, quiet, ended, returned⟩ := drains
  have other {i : Nat} (different : i ≠ p.spawned) :
      (p.setTask p.spawned (.running l peer)).tasks i = p.tasks i :=
    Function.update_of_ne different _ _
  have here : (p.setTask p.spawned (.running l peer)).tasks p.spawned = .running l peer :=
    Function.update_self ..
  refine ⟨unbound, ?_, signed.spawn started, fun i k own => ?_, fun i none => ?_,
    fun going i k own left => ?_, returned⟩
  · exact fresh_update (fun j later => fresh j (Nat.le_of_succ_le later)) (Nat.lt_succ_self _) _
  · by_cases same : i = p.spawned
    · rw [same, here] at own
      cases own
      simp [setTask, waiting]
    · rw [other same] at own
      exact owner i k own
  · by_cases same : i = p.spawned
    · rw [same, here] at none
      cases none
    · rw [other same] at none
      exact (quiet i none).spawn signed started same
  · by_cases same : i = p.spawned
    · rw [same, here] at own
      cases own
      cases waiting.symm.trans left
    · rw [other same] at own ⊢
      obtain ⟨task, relay⟩ := ended going i k own left
      exact ⟨task, relay.spawn signed started same⟩

theorem Drains.setTask {i : Nat} {task : ConnTask} (drains : Drains settings p)
    (busy : (p.tasks i).isOver = false) (same : task.listener = (p.tasks i).listener)
    (present : task ≠ .absent) : Drains settings (p.setTask i task) := by
  obtain ⟨unbound, fresh, signed, owner, quiet, ended, returned⟩ := drains
  have other {j : Nat} (different : j ≠ i) : (p.setTask i task).tasks j = p.tasks j :=
    Function.update_of_ne different _ _
  have here : (p.setTask i task).tasks i = task := Function.update_self ..
  have early : i < p.spawned := by
    by_contra later
    rw [fresh i (Nat.le_of_not_lt later)] at busy
    cases busy
  refine ⟨unbound, fresh_update fresh early task, signed, fun j l own => ?_, fun j none => ?_,
    fun going j l own left => ?_, returned⟩
  · by_cases same' : j = i
    · rw [same', here, same] at own
      exact owner i l own
    · rw [other same'] at own
      exact owner j l own
  · by_cases same' : j = i
    · rw [same', here] at none
      exact absurd none present
    · rw [other same'] at none
      exact quiet j none
  · by_cases same' : j = i
    · rw [same', here, same] at own
      cases busy.symm.trans (ended going i l own left).task
    · rw [other same'] at own ⊢
      exact ended going j l own left

theorem Drains.step (drains : Drains settings p) (waits : Waits settings p action)
    (change : Change settings p action q) : Drains settings q := by
  cases change with
  | bind phase more => exact drains.bind phase
  | bindFailed phase more =>
      exact { drains with ended := fun going => absurd rfl going, returned := nofun }
  | joined phase all left =>
      exact { drains with ended := fun _ => drains.ended (by simp [phase]), returned := fun _ => left }
  | cancel => exact { drains with }
  | @leave l waiting cancelled =>
      refine drains.setLoop (by simp [waiting]) (by simp [waiting]) nofun ?_
      intro _ _ i own
      refine waits i ?_ own
      by_contra later
      rw [drains.fresh i (Nat.le_of_not_lt later)] at own
      cases own
  | abort phase waiting =>
      obtain waiting | sleeps := waiting
      · exact drains.setLoop (by simp [waiting]) (by simp [waiting]) nofun
          fun _ going => absurd phase going
      · exact drains.setLoop (by simp [sleeps]) (by simp [sleeps]) nofun
          fun _ going => absurd phase going
  | overweight waiting heavy => exact drains
  | accept waiting light => exact drains.setLoop (by simp [waiting]) (by simp [waiting]) nofun nofun
  | acceptFailed waiting => exact drains.setLoop (by simp [waiting]) (by simp [waiting]) nofun nofun
  | wake sleeps => exact drains.setLoop (by simp [sleeps]) (by simp [sleeps]) nofun nofun
  | check checks room => exact drains.setLoop (by simp [checks]) (by simp [checks]) nofun nofun
  | refuse checks full => exact drains.setLoop (by simp [checks]) (by simp [checks]) nofun nofun
  | @count l peer counts =>
      have next : Drains settings (p.setLoop l (.tracking peer)) :=
        drains.setLoop (by simp [counts]) (by simp [counts]) nofun nofun
      exact { next with }
  | @track l peer tracks =>
      have next : Drains settings (p.setLoop l (.spawning peer)) :=
        drains.setLoop (by simp [tracks]) (by simp [tracks]) nofun nofun
      exact { next with }
  | @spawn l peer relays spawns started =>
      have next : Drains settings (p.setLoop l .select) :=
        drains.setLoop (by simp [spawns]) (by simp [spawns]) nofun nofun
      exact next.spawn (Function.update_self ..) started
  | @finish i l peer runs returned =>
      have next : Drains settings (p.setTask i (.untracking l peer)) :=
        drains.setTask (by simp [runs, ConnTask.isOver]) (by simp [runs, ConnTask.listener]) nofun
      exact { next with }
  | @untrack i l peer untracks =>
      have next : Drains settings (p.setTask i (.ended l)) :=
        drains.setTask (by simp [untracks, ConnTask.isOver]) (by simp [untracks, ConnTask.listener])
          nofun
      exact { next with }
  | relays taken =>
      obtain ⟨unbound, fresh, signed, owner, quiet, ended, returned⟩ := drains
      refine ⟨unbound, fresh, signed.step taken, owner, fun i none => (quiet i none).step signed taken,
        fun going i l own left => ?_, returned⟩
      obtain ⟨task, relay⟩ := ended going i l own left
      exact ⟨task, relay.step signed taken⟩

theorem start_quiet (i : Nat) : (Relays.start settings).Quiet settings i := by
  refine ⟨Relays.start_active settings, ?_⟩
  unfold Relays.start
  cases settings.mode with
  | perConnection => exact id
  | pooled =>
      rintro ⟨k, opens, _⟩
      exact absurd opens (Nat.not_lt_zero k)

theorem start_signed : (Relays.start settings).Signed := by
  unfold Relays.start
  cases settings.mode with
  | perConnection => trivial
  | pooled => exact ⟨nofun, nofun⟩

theorem drains_of_reach (reach : (system settings).Reach (Waits settings) p) : Drains settings p := by
  induction reach with
  | initial first =>
      rw [first]
      exact ⟨fun _ _ => rfl, fun _ _ => rfl, start_signed, nofun, fun i _ => start_quiet i, nofun, nofun⟩
  | next _ waits taken ih => exact ih.step waits (Change.of_step taken)

theorem over_of_waits (reach : (system settings).Reach (Waits settings) p) (done : p.phase = .returned)
    (i : Nat) : (p.tasks i).Over settings p.relays i := by
  have drains := drains_of_reach reach
  cases own : (p.tasks i).listener with
  | none =>
      have absent : p.tasks i = .absent := by
        cases task : p.tasks i with
        | absent => rfl
        | _ => simp [task, ConnTask.listener] at own
      exact ⟨by rw [absent]; rfl, drains.quiet i absent⟩
  | some l =>
      refine drains.ended (by simp [done]) i l own (drains.returned done l ?_)
      by_contra later
      exact drains.owner i l own (drains.unbound l (Nat.le_of_not_lt later))

end Proxy
end KafkaProxy
