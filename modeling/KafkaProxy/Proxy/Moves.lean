import KafkaProxy.Pooled.Moves
import KafkaProxy.Proxy.Basic

/-!
# What a step does to a relay

A relay whose tasks have returned stays so, whatever else goes on.
-/

namespace KafkaProxy
open Library

namespace PerConnection

theorem Forwarder.Change.returned {idle : Option Nat} {now : Nat}
    {handle : Frame → Pending → Frame × Pending} {f g : Forwarder} {before after : Pending}
    {action : ForwarderAction} (change : Change idle now handle f before action g after)
    (done : f.phase.isReturned = true) : g.phase.isReturned = true := by
  cases change with
  | arrive item => exact done
  | frame phase | error phase | eof phase | elapsed phase | idleTick phase | flushTick phase
  | flushed phase | flushFailed phase | sent phase | sendFailed phase =>
      rw [phase] at done
      cases done

theorem Relay.step_returned {idle : Option Nat} {codecs : Codecs} {map : RewriteMap} {r s : Relay}
    {action : RelayAction} (taken : r.step idle codecs map action = some s)
    (done : (r.downToUp.phase.isReturned && r.upToDown.phase.isReturned) = true) :
    (s.downToUp.phase.isReturned && s.upToDown.phase.isReturned) = true := by
  rw [Bool.and_eq_true] at done ⊢
  cases action with
  | tick =>
      simp only [Relay.step] at taken
      split at taken <;> cases taken
      exact done
  | down action =>
      obtain ⟨⟨downToUp, pending⟩, called, rfl⟩ := Option.map_eq_some_iff.mp taken
      exact ⟨(Forwarder.Change.of_step called).returned done.1, done.2⟩
  | up action =>
      obtain ⟨⟨upToDown, pending⟩, called, rfl⟩ := Option.map_eq_some_iff.mp taken
      exact ⟨done.1, (Forwarder.Change.of_step called).returned done.2⟩

theorem Session.step_active {settings : Settings} {s t : Session} {action : SessionAction}
    (taken : s.step settings action = some t) (active : t.active = true) : s.active = true := by
  cases s with
  | absent => cases taken
  | failed => cases taken
  | connecting => rfl
  | connected r unanswered =>
      cases action with
      | connected => cases taken
      | connectFailed => cases taken
      | relay action =>
          obtain ⟨next, called, rfl⟩ := Option.map_eq_some_iff.mp taken
          by_contra inactive
          simp only [Session.active, Bool.not_eq_true, Bool.not_eq_false'] at active inactive
          rw [Relay.step_returned called inactive] at active
          cases active

end PerConnection

namespace Pooled.Multiplex

variable {idle : Option Nat} {codecs : Codecs} {map : RewriteMap} {m n : Multiplex} {i : Nat}

theorem RelayMove.active {action : RelayAction} (move : RelayMove idle m i (m.relays i) action n)
    (later : action ≠ .connect) (active : (n.relays i).active = true) :
    (m.relays i).active = true := by
  cases move with
  | connect phase => exact absurd rfl later
  | request data => simpa [PooledRelay.active] using active
  | deliver listens queue => simpa [PooledRelay.active] using active
  | deliverFailed listens =>
      simp only [setRelay_relays, Function.update_self, PooledRelay.active, Bool.and_eq_true] at active
      simp [PooledRelay.active, listens, by simpa using active.1]
  | respClosed listens empty done last => simp [PooledRelay.active, listens, done]
  | next phase | skip phase | keep phase | giveBack phase | borrow phase | acquired phase
  | acquireFailed phase | check phase | refuse phase | alloc phase | store phase | count phase
  | push phase | pushFailed phase | cancel phase | hangUp phase | idle phase | leave phase =>
      simp [PooledRelay.active, phase]

theorem Change.active {action : MultiplexAction} (change : Change idle codecs map m action n)
    (later : action ≠ .relay i .connect) (active : (n.relays i).active = true) :
    (m.relays i).active = true := by
  obtain ⟨_, respRx, same⟩ | ⟨own, rfl, move⟩ := change.at_relay i
  · rw [same] at active
    exact active
  · exact move.active (fun connects => later (by rw [connects])) active

end Pooled.Multiplex

namespace Relays

variable {settings : Settings} {s t : Relays} {i j : Nat}

theorem step_pooled {m : Pooled.Multiplex} {action : RelaysAction}
    (taken : step settings (.pooled m) action = some t) :
    ∃ own n, t = .pooled n ∧ own.connects = false ∧
      Pooled.Multiplex.Change settings.clientIdleTimeout settings.codecs settings.map m own n := by
  cases action with
  | session i action => cases taken
  | multiplex action =>
      simp only [step] at taken
      split at taken
      · cases taken
      · rename_i later
        obtain ⟨n, called, rfl⟩ := Option.map_eq_some_iff.mp taken
        exact ⟨action, n, rfl, by simpa using later, .of_step called⟩

theorem step_perConnection {sessions : Nat → PerConnection.Session} {action : RelaysAction}
    (taken : step settings (.perConnection sessions) action = some t) :
    ∃ i own next, t = .perConnection (Function.update sessions i next) ∧
      (sessions i).step settings own = some next := by
  cases action with
  | multiplex action => cases taken
  | session i action =>
      obtain ⟨next, called, rfl⟩ := Option.map_eq_some_iff.mp taken
      exact ⟨i, action, next, rfl, called⟩

theorem step_active {action : RelaysAction} (taken : s.step settings action = some t)
    (active : t.active i = true) : s.active i = true := by
  cases s with
  | perConnection sessions =>
      obtain ⟨j, own, next, rfl, called⟩ := step_perConnection taken
      by_cases here : i = j
      · subst here
        rw [Relays.active, Function.update_self] at active
        exact PerConnection.Session.step_active called active
      · rw [Relays.active, Function.update_of_ne here] at active
        exact active
  | pooled m =>
      obtain ⟨own, n, rfl, later, change⟩ := step_pooled taken
      refine change.active ?_ active
      rintro rfl
      cases later

theorem spawn_active (started : s.spawn settings j = some t) (other : i ≠ j)
    (active : t.active i = true) : s.active i = true := by
  cases s with
  | perConnection sessions =>
      simp only [spawn] at started
      split at started <;> cases started
      rw [Relays.active, Function.update_of_ne other] at active
      exact active
  | pooled m =>
      obtain ⟨n, called, rfl⟩ := Option.map_eq_some_iff.mp started
      rw [Relays.active, (Pooled.Multiplex.RelayMove.of_step called).relays_other other] at active
      exact active

theorem start_active (settings : Settings) : (start settings).active i = false := by
  unfold start
  cases settings.mode <;> rfl

end Relays

namespace Proxy

variable {settings : Settings} {p q : Proxy} {action : ProxyAction}

theorem fresh_update {tasks : Nat → ConnTask} {bound i : Nat} (fresh : ∀ j, bound ≤ j → tasks j = .absent)
    (early : i < bound) (task : ConnTask) :
    ∀ j, bound ≤ j → Function.update tasks i task j = .absent := by
  intro j later
  rw [Function.update_of_ne (early.trans_le later).ne']
  exact fresh j later

def Unbound (p : Proxy) : Prop := ∀ l, p.bound ≤ l → p.loops l = .absent

theorem Unbound.setLoop {l : Nat} (unbound : p.Unbound) (present : p.loops l ≠ .absent)
    (loop : AcceptLoop) : (p.setLoop l loop).Unbound := by
  intro k later
  have other : k ≠ l := by
    rintro rfl
    exact present (unbound k later)
  exact (Function.update_of_ne other loop p.loops).trans (unbound k later)

theorem Unbound.step (unbound : p.Unbound) (change : Change settings p action q) : q.Unbound := by
  cases change with
  | bind phase more =>
      intro l later
      have other : l ≠ p.bound := (Nat.lt_of_succ_le later).ne'
      exact (Function.update_of_ne other _ p.loops).trans (unbound l (Nat.le_of_succ_le later))
  | abort phase waits =>
      apply unbound.setLoop
      obtain waits | sleeps := waits
      · simp [waits]
      · simp [sleeps]
  | leave waits | accept waits | acceptFailed waits | wake waits | check waits | refuse waits
  | count waits | track waits | spawn waits => exact unbound.setLoop (by simp [waits]) _
  | bindFailed | joined | cancel | overweight | finish | untrack | relays => exact unbound

end Proxy
end KafkaProxy
