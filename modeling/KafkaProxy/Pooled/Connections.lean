import KafkaProxy.Pooled.Moves

/-!
# Leases, entries and the connections they name

A lease and an entry name a connection by its number `conn_id`. The numbers come round after 2^64
connections.
-/

namespace KafkaProxy.Pooled
open Library

namespace Multiplex

variable {idle : Option Nat} {codecs : Codecs} {map : RewriteMap} {m n : Multiplex} {i k : Nat}

/-- A new connection gets a number that no earlier connection has. -/
def Numbers (m : Multiplex) (action : MultiplexAction) : Prop :=
  action = .create → ∀ k < m.opened, (m.upstreams k).connId ≠ m.remap.nextConnId

instance (m : Multiplex) (action : MultiplexAction) : Decidable (m.Numbers action) :=
  inferInstanceAs (Decidable (_ → _))

structure Connected (m : Multiplex) : Prop where
  leased : ∀ i conn, (m.relays i).lease = some conn →
    conn.writeTx < m.opened ∧ conn.connId = (m.upstreams conn.writeTx).connId
  absent : ∀ k, m.opened ≤ k → m.upstreams k = .new 0 .absent

def Numbered (m : Multiplex) : Prop :=
  ∀ k < m.opened, ∀ l < m.opened, (m.upstreams k).connId = (m.upstreams l).connId → k = l

theorem RelayMove.lease {r : PooledRelay} {action : RelayAction}
    (move : RelayMove idle m i r action n) {conn : Acquired}
    (leased : (n.relays i).lease = some conn) :
    r.lease = some conn ∨ action = .acquired conn ∧
      conn.writeTx < m.opened ∧ conn.connId = (m.upstreams conn.writeTx).connId := by
  cases move with
  | acquired phase known same =>
      simp only [setRelay_relays, Function.update_self, Option.some.injEq] at leased
      subst leased
      exact .inr ⟨rfl, known, same⟩
  | giveBack | cancel | leave =>
      simp only [setRelay_relays, Function.update_self, reduceCtorEq] at leased
  | _ =>
      left
      simpa using leased

theorem Change.opened {action : MultiplexAction} (change : Change idle codecs map m action n) :
    m.opened ≤ n.opened ∧ ∀ k < m.opened, (n.upstreams k).connId = (m.upstreams k).connId := by
  refine ⟨?_, fun k before => ?_⟩
  · cases change with
    | tick elapsed => exact le_rfl
    | create => exact Nat.le_succ _
    | relay move => exact move.opened_eq.ge
    | upstream move => exact move.opened_eq.ge
  · obtain ⟨_, writeRx, same⟩ | ⟨_, rfl, _⟩ | ⟨own, rfl, move⟩ := change.at_upstream k
    · rw [same]
    · exact absurd before (Nat.lt_irrefl _)
    · cases move <;> simp

theorem Change.absent {action : MultiplexAction} (change : Change idle codecs map m action n)
    (connected : m.Connected) (k : Nat) (later : n.opened ≤ k) : n.upstreams k = .new 0 .absent := by
  have absent := connected.absent k
  cases change with
  | tick elapsed => exact absent later
  | create =>
      have other : k ≠ m.opened := (Nat.lt_of_succ_le later).ne'
      simpa [Multiplex.create, other] using absent (Nat.le_of_succ_le later)
  | @relay i action n move =>
      rw [move.opened_eq] at later
      cases move with
      | push phase leased listens room =>
          have other : k ≠ _ := ((connected.leased i _ leased).1.trans_le later).ne'
          simpa [other] using absent later
      | _ => exact absent later
  | @upstream l action n move =>
      rw [move.opened_eq] at later
      have before := absent later
      by_cases here : k = l
      · subst here
        rw [before] at move
        cases move <;> simp_all [Upstream.new]
      · rwa [move.upstreams_other here]

theorem Change.numbered {action : MultiplexAction} (change : Change idle codecs map m action n)
    (numbered : m.Numbered) (numbers : m.Numbers action) : n.Numbered := by
  have kept (same : n.opened = m.opened) : n.Numbered := by
    intro k first l second equal
    rw [same] at first second
    rw [change.opened.2 k first, change.opened.2 l second] at equal
    exact numbered k first l second equal
  cases change with
  | tick elapsed => exact kept rfl
  | relay move => exact kept move.opened_eq
  | upstream move => exact kept move.opened_eq
  | create =>
      have fresh := numbers rfl
      have new : (m.create.upstreams m.opened).connId = m.remap.nextConnId := by
        simp [Multiplex.create, CidRemap.allocConnId, Upstream.new]
      have old (k : Nat) (before : k < m.opened) :
          (m.create.upstreams k).connId = (m.upstreams k).connId := by
        simp [Multiplex.create, Nat.ne_of_lt before]
      intro k first l second equal
      obtain before | rfl := Nat.lt_succ_iff_lt_or_eq.mp first
      · obtain behind | rfl := Nat.lt_succ_iff_lt_or_eq.mp second
        · rw [old k before, old l behind] at equal
          exact numbered k before l behind equal
        · rw [old k before, new] at equal
          exact absurd equal (fresh k before)
      · obtain behind | rfl := Nat.lt_succ_iff_lt_or_eq.mp second
        · rw [old l behind, new] at equal
          exact absurd equal.symm (fresh l behind)
        · rfl

theorem Change.leased {action : MultiplexAction} (change : Change idle codecs map m action n)
    (connected : m.Connected) {i : Nat} {conn : Acquired} (leased : (n.relays i).lease = some conn) :
    conn.writeTx < n.opened ∧ conn.connId = (n.upstreams conn.writeTx).connId := by
  have before : conn.writeTx < m.opened ∧ conn.connId = (m.upstreams conn.writeTx).connId := by
    obtain ⟨_, respRx, same⟩ | ⟨own, rfl, move⟩ := change.at_relay i
    · rw [same] at leased
      exact connected.leased i conn leased
    · obtain same | ⟨_, given⟩ := move.lease leased
      · exact connected.leased i conn same
      · exact given
  obtain ⟨known, same⟩ := before
  refine ⟨known.trans_le change.opened.1, ?_⟩
  rw [change.opened.2 _ known, same]

theorem Connected.step {action : MultiplexAction} (connected : m.Connected)
    (change : Change idle codecs map m action n) : n.Connected where
  leased _ _ := change.leased connected
  absent := change.absent connected

/-! ## The entries after a step -/

theorem Change.lookup {action : MultiplexAction} {cidU : Int32} {entry : Entry}
    (change : Change idle codecs map m action n) (found : n.remap.map.lookup cidU = some entry) :
    (m.remap.map.lookup cidU = some entry ∧
        (∀ k, action = .upstream k .cleanup → entry.connId ≠ (m.upstreams k).connId) ∧
        (∀ i, action = .relay i .cancel → (m.relays i).downToUp ≠ .cancel cidU) ∧
        ∀ i job tag, action = .relay i .store → (m.relays i).downToUp ≠ .store job cidU tag) ∨
      ∃ i job tag conn, action = .relay i .store ∧ (m.relays i).downToUp = .store job cidU tag ∧
        (m.relays i).lease = some conn ∧ entry = ⟨⟨i, tag⟩, job.header.correlationId,
          job.header.apiKey, job.header.apiVersion, conn.connId⟩ := by
  cases change with
  | tick elapsed => exact .inl ⟨found, nofun, nofun, nofun⟩
  | create => exact .inl ⟨found, nofun, nofun, nofun⟩
  | @relay i action n move =>
      cases move with
      | @store job cid tag conn phase leased =>
          obtain ⟨rfl, rfl⟩ | ⟨other, before⟩ := Table.lookup_insert_eq_some.mp found
          · exact .inr ⟨i, job, tag, conn, rfl, phase, leased, rfl⟩
          · refine .inl ⟨before, nofun, nofun, ?_⟩
            rintro j job tag ⟨rfl, _⟩ same
            rw [phase, DownToUp.store.injEq] at same
            exact other same.2.1.symm
      | @cancel cid phase =>
          obtain ⟨other, before⟩ := Table.lookup_erase_eq_some.mp found
          refine .inl ⟨before, nofun, ?_, nofun⟩
          rintro j ⟨rfl, _⟩ same
          rw [phase, DownToUp.cancel.injEq] at same
          exact other same.symm
      | _ => exact .inl ⟨found, nofun, nofun, nofun⟩
  | @upstream k action n move =>
      cases move with
      | cleanup phase =>
          obtain ⟨before, other⟩ := CidRemap.lookup_retainOthers.mp found
          refine .inl ⟨before, ?_, nofun, nofun⟩
          rintro l ⟨rfl, _⟩
          exact other
      | take phase queue parsed taken =>
          exact .inl ⟨(Table.lookup_erase_eq_some.mp found).2, nofun, nofun, nofun⟩
      | _ => exact .inl ⟨found, nofun, nofun, nofun⟩

/-! ## Runs -/

variable {maxInFlight : Nat} {metrics : Metrics} {allowed : Multiplex → MultiplexAction → Prop}

theorem connected_of_reach (reach : (system maxInFlight metrics idle codecs map).Reach allowed m) :
    m.Connected := by
  induction reach with
  | initial first =>
      rw [first]
      refine ⟨?_, fun k later => rfl⟩
      intro i conn leased
      cases leased
  | next _ _ taken ih => exact ih.step (.of_step taken)

theorem numbered_of_reach (numbers : ∀ m action, allowed m action → m.Numbers action)
    (reach : (system maxInFlight metrics idle codecs map).Reach allowed m) : m.Numbered := by
  induction reach with
  | initial first =>
      rw [first]
      exact fun k before => nomatch before
  | next _ permitted taken ih => exact (Change.of_step taken).numbered ih (numbers _ _ permitted)

/-! ## One client alone -/

def Alone (_ : Multiplex) (action : MultiplexAction) : Prop :=
  ∀ i ∈ (match action with | .relay i .connect => some i | _ => none : Option Nat), i = 0

instance (m : Multiplex) (action : MultiplexAction) : Decidable (m.Alone action) :=
  inferInstanceAs (Decidable (∀ i ∈ (_ : Option Nat), i = 0))

theorem Change.unconnected {action : MultiplexAction} (change : Change idle codecs map m action n)
    (alone : m.Alone action) (other : i ≠ 0) (absent : (m.relays i).downToUp = .absent) :
    (n.relays i).downToUp = .absent := by
  obtain ⟨_, respRx, same⟩ | ⟨own, rfl, move⟩ := change.at_relay i
  · rwa [same]
  · cases move with
    | connect phase => exact absurd (alone i rfl) other
    | _ => simp_all

theorem unconnected_of_reach
    (reach : (system maxInFlight metrics idle codecs map).Reach Alone m) (other : i ≠ 0) :
    (m.relays i).downToUp = .absent := by
  induction reach with
  | initial first =>
      rw [first]
      rfl
  | next _ alone taken ih => exact (Change.of_step taken).unconnected alone other ih

end Multiplex
end KafkaProxy.Pooled
