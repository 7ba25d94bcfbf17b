import KafkaProxy.Pooled.Connections
import KafkaProxy.Pooled.Lease

/-!
# Entries for connections that are gone

The write loop removes the entries of its connection once, before it drops the receiving end of the
write channel. A relay that stores its entry later still has to find the channel closed.
-/

namespace KafkaProxy.Pooled
open Library

def DownToUp.pushing : DownToUp → Option Int32
  | .count _ cidU _ | .send _ cidU _ | .cancel cidU => some cidU
  | _ => none

/-- The relay has stored an entry under `cidU` for connection `k` and has not seen how its send ends. -/
def PooledRelay.Pushes (r : PooledRelay) (k : Nat) (cidU : Int32) : Prop :=
  (∃ conn, r.lease = some conn ∧ conn.writeTx = k) ∧ r.downToUp.pushing = some cidU

def WriteLoop.hasCleaned : WriteLoop → Bool
  | .cleaned | .ended => true
  | .absent | .running | .forwarding _ | .cleanup => false

namespace Multiplex

def pushes (m : Multiplex) : MultiplexAction → Option (Nat × Int32)
  | .relay i .push =>
      match (m.relays i).downToUp, (m.relays i).lease with
      | .send _ cidU _, some conn => some (conn.writeTx, cidU)
      | _, _ => none
  | _ => none

/-- No request with an entry goes into a channel between the start of the cleanup and the close of the
channel. -/
def InTime (m : Multiplex) (action : MultiplexAction) : Prop :=
  m.Numbers action ∧ ∀ push ∈ m.pushes action,
    (m.upstreams push.1).writeLoop = .cleaned → m.remap.map.lookup push.2 = none

instance (m : Multiplex) (action : MultiplexAction) : Decidable (m.InTime action) :=
  inferInstanceAs (Decidable (_ ∧ _))

def Followed (m : Multiplex) : Prop :=
  ∀ k cidU entry, (m.upstreams k).writeLoop.hasCleaned = true →
    m.remap.map.lookup cidU = some entry → entry.connId = (m.upstreams k).connId →
    (m.relays entry.downstreamTx.client).Pushes k cidU

variable {idle : Option Nat} {codecs : Codecs} {map : RewriteMap} {m n : Multiplex} {i k : Nat}
  {action : MultiplexAction} {cidU : Int32}

theorem RelayMove.pushes {action : RelayAction} (pushes : (m.relays i).Pushes k cidU)
    (move : RelayMove idle m i (m.relays i) action n) :
    (n.relays i).Pushes k cidU ∨
      m.pushes (.relay i action) = some (k, cidU) ∧ (m.upstreams k).writeLoop ≠ .ended ∨
      action = .cancel ∧ (m.relays i).downToUp = .cancel cidU := by
  obtain ⟨⟨conn, leased, rfl⟩, pushing⟩ := pushes
  have stays (r : PooledRelay) (lease : r.lease = (m.relays i).lease)
      (same : r.downToUp.pushing = (m.relays i).downToUp.pushing) :
      (Function.update m.relays i r i).Pushes conn.writeTx cidU := by
    rw [Function.update_self]
    exact ⟨⟨conn, lease.trans leased, rfl⟩, same.trans pushing⟩
  cases move with
  | request data => exact .inl (stays _ rfl rfl)
  | deliver listens queue => exact .inl (stays _ rfl rfl)
  | deliverFailed listens => exact .inl (stays _ rfl rfl)
  | respClosed listens empty done last => exact .inl (stays _ rfl rfl)
  | count phase => exact .inl (stays _ rfl (by rw [phase]; rfl))
  | pushFailed phase held dead => exact .inl (stays _ rfl (by rw [phase]; rfl))
  | push phase held listens room =>
      rw [phase, DownToUp.pushing, Option.some.injEq] at pushing
      subst pushing
      cases held.symm.trans leased
      exact .inr (.inl ⟨by simp [Multiplex.pushes, phase, leased], listens⟩)
  | cancel phase =>
      rw [phase, DownToUp.pushing, Option.some.injEq] at pushing
      exact .inr (.inr ⟨rfl, pushing ▸ phase⟩)
  | _ => simp_all [DownToUp.pushing]

theorem Change.pushes (pushes : (m.relays i).Pushes k cidU)
    (change : Change idle codecs map m action n) :
    (n.relays i).Pushes k cidU ∨
      m.pushes action = some (k, cidU) ∧ (m.upstreams k).writeLoop ≠ .ended ∨
      action = .relay i .cancel ∧ (m.relays i).downToUp = .cancel cidU := by
  obtain ⟨_, respRx, same⟩ | ⟨own, rfl, move⟩ := change.at_relay i
  · rw [same]
    exact .inl pushes
  · obtain kept | pushed | ⟨rfl, phase⟩ := move.pushes pushes
    · exact .inl kept
    · exact .inr (.inl pushed)
    · exact .inr (.inr ⟨rfl, phase⟩)

theorem Change.hasCleaned (change : Change idle codecs map m action n)
    (cleaned : (n.upstreams k).writeLoop.hasCleaned = true) :
    (m.upstreams k).writeLoop.hasCleaned = true ∨ action = .upstream k .cleanup := by
  obtain ⟨_, writeRx, same⟩ | ⟨_, _, same⟩ | ⟨own, rfl, move⟩ := change.at_upstream k
  · rw [same] at cleaned
    exact .inl cleaned
  · rw [same] at cleaned
    cases cleaned
  · cases move with
    | cleanup phase => exact .inr rfl
    | finish phase =>
        rw [phase]
        exact .inl rfl
    | _ => simp_all [WriteLoop.hasCleaned]

theorem Change.cleaning (change : Change idle codecs map m (.upstream k .cleanup) n) :
    (m.upstreams k).writeLoop = .cleanup := by
  cases change with
  | upstream move =>
      cases move with
      | cleanup phase => exact phase

theorem Change.stored {job : Job} {tag : Nat} {conn : Acquired}
    (change : Change idle codecs map m (.relay i .store) n)
    (phase : (m.relays i).downToUp = .store job cidU tag) (leased : (m.relays i).lease = some conn)
    (here : conn.writeTx = k) : (n.relays i).Pushes k cidU := by
  cases change with
  | relay move =>
      cases move with
      | store before held =>
          cases before.symm.trans phase
          refine ⟨⟨conn, ?_, here⟩, ?_⟩
          · simpa using leased
          · simp [DownToUp.pushing]

theorem opened_of_hasCleaned (connected : m.Connected)
    (cleaned : (m.upstreams k).writeLoop.hasCleaned = true) : k < m.opened := by
  by_contra outside
  rw [connected.absent k (Nat.le_of_not_lt outside)] at cleaned
  cases cleaned

theorem Followed.step (followed : m.Followed) (connected : m.Connected) (numbered : m.Numbered)
    (inTime : m.InTime action)
    (change : Change idle codecs map m action n) : n.Followed := by
  intro k cidU entry cleaned found own
  obtain before | rfl := change.hasCleaned cleaned
  · have opens := opened_of_hasCleaned connected before
    rw [change.opened.2 k opens] at own
    obtain ⟨old, _, kept, _⟩ | ⟨i, job, tag, conn, rfl, phase, leased, rfl⟩ := change.lookup found
    · have pushes := followed k cidU entry before old own
      obtain still | ⟨pushed, runs⟩ | ⟨cancels, phase⟩ := change.pushes pushes
      · exact still
      · have closing : (m.upstreams k).writeLoop = .cleaned := by
          cases phase : (m.upstreams k).writeLoop <;> simp_all [WriteLoop.hasCleaned]
        have gone := inTime.2 _ pushed closing
        rw [old] at gone
        cases gone
      · exact absurd phase (kept _ cancels)
    · obtain ⟨known, named⟩ := connected.leased i conn leased
      rw [named] at own
      have here := numbered _ known k opens own
      exact change.stored phase leased here
  · have phase : (m.upstreams k).writeLoop = .cleanup := change.cleaning
    have opens : k < m.opened := by
      by_contra outside
      rw [connected.absent k (Nat.le_of_not_lt outside)] at phase
      cases phase
    rw [change.opened.2 k opens] at own
    obtain ⟨_, other, _⟩ | ⟨i, job, tag, conn, wrong, _⟩ := change.lookup found
    · exact absurd own (other k rfl)
    · cases wrong

/-! ## Runs -/

variable {maxInFlight : Nat} {metrics : Metrics} {allowed : Multiplex → MultiplexAction → Prop}

theorem followed_of_reach (inTime : ∀ m action, allowed m action → m.InTime action)
    (reach : (system maxInFlight metrics idle codecs map).Reach allowed m) : m.Followed := by
  induction reach with
  | initial first =>
      rw [first]
      exact fun k cidU entry cleaned => nomatch cleaned
  | next before permitted taken ih =>
      have numbered := numbered_of_reach (fun _ _ given => (inTime _ _ given).1) before
      exact ih.step (connected_of_reach before) numbered (inTime _ _ permitted) (.of_step taken)

/-- Once the write loop of a connection has ended, no entry for it is left but those whose relay still
has to see that its send fails. -/
theorem no_orphans (reach : (system maxInFlight metrics idle codecs map).Reach InTime m)
    (ended : (m.upstreams k).writeLoop = .ended) {entry : Entry}
    (settled : ¬ (m.relays entry.downstreamTx.client).Pushes k cidU)
    (found : m.remap.map.lookup cidU = some entry) : entry.connId ≠ (m.upstreams k).connId := by
  intro own
  have cleaned : (m.upstreams k).writeLoop.hasCleaned = true := by
    rw [ended]
    rfl
  exact settled (followed_of_reach (fun _ _ given => given) reach k cidU entry cleaned found own)

/-! ## One client's request -/

abbrev twoInFlight : System Multiplex MultiplexAction := system 2 (.new true) none .unknown ⟨∅⟩

def asks (data : Frame) (conn : Acquired) : List MultiplexAction :=
  [.relay 0 .connect, .relay 0 (.request data), .relay 0 .next, .relay 0 .giveBack, .relay 0 .borrow,
    .relay 0 (.acquired conn), .relay 0 .check, .relay 0 .alloc]

def sends : List MultiplexAction := [.relay 0 .store, .relay 0 .count, .relay 0 .push]

def fails (k : Nat) : List MultiplexAction := [.upstream k .fail, .upstream k .cleanup]

theorem no_orphans_other : ∃ (m : Multiplex) (entry : Entry), (m.upstreams 0).writeLoop = .ended ∧
    m.remap.map.lookup 2 = some entry ∧ entry.connId ≠ (m.upstreams 0).connId := by
  obtain ⟨m, reach, ended, found, phase⟩ := twoInFlight.exists_reach InTime (.new 2 (.new true))
    ([.create, .create] ++ asks apiVersionsRequest ⟨1, 2⟩ ++ fails 0 ++ sends ++
      [.upstream 0 .finish])
    (fun m => (m.upstreams 0).writeLoop = .ended ∧
      m.remap.map.lookup 2 = some ⟨⟨0, 0⟩, 7, 18, 0, 2⟩ ∧ (m.relays 0).downToUp = .waiting 0)
    rfl (by decide +kernel)
  have settled : ¬ (m.relays 0).Pushes 0 2 := by
    intro pushes
    rw [PooledRelay.Pushes, phase] at pushes
    cases pushes.2
  exact ⟨m, _, ended, found, no_orphans reach ended settled found⟩

theorem orphan_left : ¬ ∀ m (k : Nat) cidU (entry : Entry), twoInFlight.Reachable m →
    (m.upstreams k).writeLoop = .ended → (∀ i cidU, ¬ (m.relays i).Pushes k cidU) →
    m.remap.map.lookup cidU = some entry → entry.connId ≠ (m.upstreams k).connId := by
  intro claim
  obtain ⟨m, reach, ended, found, own, phase⟩ := twoInFlight.exists_reach Alone
    (.new 2 (.new true))
    ([.create] ++ asks apiVersionsRequest ⟨0, 1⟩ ++ fails 0 ++ sends ++ [.upstream 0 .finish])
    (fun m => (m.upstreams 0).writeLoop = .ended ∧
      m.remap.map.lookup 2 = some ⟨⟨0, 0⟩, 7, 18, 0, 1⟩ ∧ (m.upstreams 0).connId = 1 ∧
      (m.relays 0).downToUp = .waiting 0)
    rfl (by decide +kernel)
  refine claim m 0 2 _ reach.reachable ended ?_ found own.symm
  rintro i cidU ⟨_, pushing⟩
  by_cases here : i = 0
  · rw [here, phase] at pushing
    cases pushing
  · rw [unconnected_of_reach reach here] at pushing
    cases pushing

end Multiplex
end KafkaProxy.Pooled
