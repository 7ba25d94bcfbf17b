import KafkaProxy.Pool.Held
import KafkaProxy.Pooled.Drain
import KafkaProxy.Pooled.Failure
import KafkaProxy.Pooled.Service

/-!
# Connections that the pool lets go of

A connection comes back to the pool at the end of a lease, with its requests unanswered. When the pool
lets go of it, its write loop closes it and removes their entries.
-/

namespace KafkaProxy.Pooled
open Library

namespace Multiplex

variable {idle : Option Nat} {codecs : Codecs} {map : RewriteMap} {m n : Multiplex} {i k : Nat}
  {action : MultiplexAction}

theorem Change.isOpen (change : Change idle codecs map m action n)
    (opens : (n.upstreams k).writeLoop.isOpen = true) :
    (m.upstreams k).writeLoop.isOpen = true ∨ action = .create ∧ k = m.opened := by
  obtain ⟨_, writeRx, same⟩ | ⟨created, here, _⟩ | ⟨own, rfl, move⟩ := change.at_upstream k
  · rw [same] at opens
    exact .inl opens
  · exact .inr ⟨created, here⟩
  · cases move <;> simp_all [WriteLoop.isOpen]

theorem Change.cancelling (change : Change idle codecs map m (.relay i .cancel) n) :
    ∃ cidU, (m.relays i).downToUp = .cancel cidU := by
  cases change with
  | relay move =>
      cases move with
      | cancel phase => exact ⟨_, phase⟩

theorem opened_of_isOpen (connected : m.Connected) (opens : (m.upstreams k).writeLoop.isOpen = true) :
    k < m.opened := by
  by_contra outside
  rw [connected.absent k (Nat.le_of_not_lt outside)] at opens
  cases opens

end Multiplex

namespace Service

variable {config : PoolLimits} {maxInFlight : Nat} {metrics : Metrics} {idle : Option Nat}
  {codecs : Codecs} {map : RewriteMap} {s t : BrokerPool × Multiplex} {action : ServiceAction}
  {a : PoolAction} {pool : Option PoolAction} {multiplex : Option MultiplexAction} {i k : Nat}

/-! ## What the two sides do together -/

inductive Joint (s : BrokerPool × Multiplex) : Option PoolAction → Option MultiplexAction → Prop where
  | tick (elapsed : Nat) : Joint s (some (.tick elapsed)) (some (.tick elapsed))
  | pool {a : PoolAction} (own : a.isOwn = true) : Joint s (some a) none
  | relay {i : Nat} {b : RelayAction} (own : b.isOwn = true) : Joint s none (some (.relay i b))
  | upstream {k : Nat} {b : UpstreamAction} (own : b.isOwn = true) :
      Joint s none (some (.upstream k b))
  | warm : Joint s (some (.warm (nextConn s.2))) (some .create)
  | connect (i : Nat) : Joint s (some (.task i (.connect (nextConn s.2)))) (some .create)
  | accept : Joint s (some .accept) (some (.relay s.1.tasks.length .connect))
  | giveBack (i : Nat) : Joint s (release s.2 i) (some (.relay i .giveBack))
  | leave (i : Nat) : Joint s (release s.2 i) (some (.relay i .leave))
  | borrow (i : Nat) : Joint s (some (.task i .acquire)) (some (.relay i .borrow))
  | reuse {i : Nat} {conn : PooledConn} {rest : List PooledConn} (queue : s.1.idle = conn :: rest)
      (alive : conn.alive = true) :
      Joint s (some (.task i .tryIdle)) (some (.relay i (.acquired conn.toAcquired)))
  | tryIdle (i : Nat) : Joint s (some (.task i .tryIdle)) none
  | hand {i : Nat} {conn : Acquired} (created : s.1.tasks[i]? = some (.created conn)) :
      Joint s (some (.task i .hand)) (some (.relay i (.acquired conn)))
  | rollback (i : Nat) : Joint s (some (.task i .rollback)) (some (.relay i .acquireFailed))
  | timeout (i : Nat) : Joint s (some (.task i .timeout)) (some (.relay i .acquireFailed))
  | cancel (i : Nat) : Joint s (some (.task i .drop)) (some (.relay i .cancel))
  | closed {k : Nat} (unheld : k ∉ s.1.held) : Joint s none (some (.upstream k .closed))
  | finish (k : Nat) : Joint s (some (.ended k)) (some (.upstream k .finish))

theorem Joint.of_parts (possible : parts s action = some (pool, multiplex)) :
    Joint s pool multiplex := by
  cases action with
  | pool own =>
      simp only [parts] at possible
      split at possible <;> cases possible
      rename_i owns
      exact .pool owns
  | relay i own =>
      simp only [parts] at possible
      split at possible <;> cases possible
      rename_i owns
      exact .relay owns
  | upstream k own =>
      simp only [parts] at possible
      split at possible <;> cases possible
      rename_i owns
      exact .upstream owns
  | tryIdle i =>
      simp only [parts] at possible
      split at possible
      · rename_i conn rest queue
        split at possible <;> cases possible
        · rename_i alive
          exact .reuse queue alive
        · exact .tryIdle i
      · cases possible
        exact .tryIdle i
  | hand i =>
      simp only [parts] at possible
      split at possible <;> cases possible
      rename_i created
      exact .hand created
  | closed k =>
      simp only [parts] at possible
      split at possible <;> cases possible
      rename_i unheld
      exact .closed unheld
  | _ =>
      cases possible
      constructor

theorem joint_of_step (taken : (system config maxInFlight metrics idle codecs map).step s action = some t) :
    ∃ pool multiplex, parts s action = some (pool, multiplex) ∧ Joint s pool multiplex ∧
      (pool = none ∧ t.1 = s.1 ∨ ∃ a, pool = some a ∧ BrokerPool.Change s.1 a t.1) ∧
      (multiplex = none ∧ t.2 = s.2 ∨ ∃ b, multiplex = some b ∧
        Multiplex.Change idle codecs map s.2 b t.2) := by
  obtain ⟨⟨pool, multiplex⟩, possible, left, right⟩ := System.couple_step taken
  refine ⟨pool, multiplex, possible, .of_parts possible, ?_, ?_⟩
  · cases pool with
    | none => exact .inl ⟨rfl, (Option.some.inj left).symm⟩
    | some a => exact .inr ⟨a, rfl, .of_step left⟩
  · cases multiplex with
    | none => exact .inl ⟨rfl, (Option.some.inj right).symm⟩
    | some b => exact .inr ⟨b, rfl, .of_step right⟩

/-! ## The leases of the relays and of their tasks -/

def Coupled (s : BrokerPool × Multiplex) : Prop :=
  ∀ i conn, (s.2.relays i).lease = some conn → s.1.tasks[i]? = some (.leased conn)

theorem release_eq (released : release s.2 i = some a) : a = .task i .release := by
  unfold release at released
  split at released <;> cases released
  rfl

theorem Joint.releases (joint : Joint s pool multiplex) (some : pool = some (.task i .release)) :
    multiplex = Option.some (.relay i .giveBack) ∨ multiplex = Option.some (.relay i .leave) := by
  cases joint with
  | giveBack j =>
      cases release_eq some
      exact .inl rfl
  | leave j =>
      cases release_eq some
      exact .inr rfl
  | pool own =>
      cases some
      cases own
  | _ => cases some

theorem Joint.drops (joint : Joint s pool multiplex) (some : pool = some (.task i .drop)) :
    multiplex = Option.some (.relay i .cancel) := by
  cases joint with
  | cancel j =>
      cases some
      rfl
  | giveBack j | leave j => cases release_eq some
  | pool own =>
      cases some
      cases own
  | _ => cases some

theorem Joint.acquired {conn : Acquired} {q : BrokerPool}
    (joint : Joint s pool (some (.relay i (.acquired conn))))
    (change : ∀ a ∈ pool, BrokerPool.Change s.1 a q) : q.tasks[i]? = some (.leased conn) := by
  cases joint with
  | relay own => cases own
  | @reuse _ head rest queue alive =>
      cases change _ rfl with
      | task current move =>
          cases move with
          | reuse unlocked first live =>
              cases queue.symm.trans first
              exact BrokerPool.put_current (p := { s.1 with idle := rest }) current _
          | bury unlocked first dead =>
              cases queue.symm.trans first
              rw [alive] at dead
              cases dead
          | miss unlocked empty =>
              rw [queue] at empty
              cases empty
  | hand created =>
      cases change _ rfl with
      | task current move =>
          cases current.symm.trans created
          cases move with
          | hand => exact BrokerPool.put_current current _

theorem Coupled.step (coupled : Coupled s)
    (waits : BrokerPool.Waits s.1.notify.waiters s.1.tasks)
    (taken : (system config maxInFlight metrics idle codecs map).step s action = some t) :
    Coupled t := by
  obtain ⟨pool, multiplex, _, joint, left, right⟩ := joint_of_step taken
  have change : ∀ a ∈ pool, BrokerPool.Change s.1 a t.1 := by
    rintro a rfl
    obtain ⟨none, _⟩ | ⟨_, same, change⟩ := left
    · cases none
    · cases same
      exact change
  intro i conn leased
  have before : (s.2.relays i).lease = some conn ∧ (∀ b ∈ multiplex, b ≠ .relay i .giveBack ∧
      b ≠ .relay i .leave ∧ b ≠ .relay i .cancel) ∨ multiplex = some (.relay i (.acquired conn)) := by
    obtain ⟨rfl, same⟩ | ⟨b, rfl, moved⟩ := right
    · rw [same] at leased
      exact .inl ⟨leased, nofun⟩
    · obtain ⟨old, others⟩ | rfl := moved.lease leased
      · left
        refine ⟨old, ?_⟩
        rintro _ ⟨rfl⟩
        exact others
      · exact .inr rfl
  obtain ⟨old, others⟩ | rfl := before
  · have task := coupled i conn old
    obtain ⟨_, same⟩ | ⟨a, rfl, moved⟩ := left
    · rw [same]
      exact task
    · obtain kept | rfl | rfl := moved.leased waits task
      · exact kept
      · obtain rfl | rfl := joint.releases rfl
        · exact absurd rfl (others _ rfl).1
        · exact absurd rfl (others _ rfl).2.1
      · obtain rfl := joint.drops rfl
        exact absurd rfl (others _ rfl).2.2
  · exact joint.acquired change

/-! ## The new connections -/

theorem Joint.create (joint : Joint s pool (some .create)) :
    ∃ a ∈ pool, nextConn s.2 ∈ BrokerPool.opens a := by
  cases joint with
  | warm => exact ⟨_, rfl, rfl⟩
  | connect i => exact ⟨_, rfl, rfl⟩

theorem Joint.opens (joint : Joint s pool multiplex) (some : pool = some a) {conn : Acquired}
    (opened : conn ∈ BrokerPool.opens a) :
    conn = nextConn s.2 ∧ multiplex = Option.some .create := by
  cases joint with
  | warm =>
      cases some
      exact ⟨(Option.some.inj opened).symm, rfl⟩
  | connect i =>
      cases some
      exact ⟨(Option.some.inj opened).symm, rfl⟩
  | giveBack i | leave i =>
      obtain rfl := release_eq some
      cases opened
  | pool own =>
      cases some
      unfold BrokerPool.opens at opened
      split at opened <;> cases opened <;> cases own
  | relay own | upstream own | closed unheld => cases some
  | _ =>
      cases some
      cases opened

theorem Joint.discarded (joint : Joint s pool multiplex) (some : pool = some a)
    (discards : k ∈ s.1.discarded a) : multiplex = none := by
  cases joint with
  | pool own => rfl
  | tryIdle i => rfl
  | giveBack i | leave i =>
      obtain rfl := release_eq some
      cases discards
  | relay own | upstream own | closed unheld => cases some
  | _ =>
      cases some
      cases discards

/-! ## What is in flight on a connection that the pool lets go of -/

/-- The pool lets go of a connection whose write loop runs only if no request is in flight on it. -/
def Spares (s : BrokerPool × Multiplex) (action : ServiceAction) : Prop :=
  Within Multiplex.Numbers s action ∧ ∀ part ∈ parts s action, ∀ a ∈ part.1,
    ∀ k ∈ s.1.discarded a, (s.2.upstreams k).writeLoop.isOpen = true →
      ∀ e ∈ s.2.remap.map.entries, e.2.connId ≠ (s.2.upstreams k).connId

instance (s : BrokerPool × Multiplex) (action : ServiceAction) : Decidable (Spares s action) :=
  inferInstanceAs (Decidable (_ ∧ ∀ part ∈ parts s action, ∀ a ∈ part.1, _))

def LetGo (s : BrokerPool × Multiplex) (k : Nat) : Prop :=
  (s.2.upstreams k).writeLoop.isOpen = true ∧ k ∉ s.1.held

def Unused (m : Multiplex) (connId : ConnId) : Prop :=
  ∀ cidU entry, m.remap.map.lookup cidU = some entry → entry.connId ≠ connId

structure Known (s : BrokerPool × Multiplex) : Prop where
  coupled : Coupled s
  connected : s.2.Connected
  numbered : s.2.Numbered
  held : s.2.Held
  waits : BrokerPool.Waits s.1.notify.waiters s.1.tasks
  alive : ∀ conn ∈ s.1.idle, conn.alive = true

theorem Known.leased (known : Known s) {conn : Acquired} (leased : (s.2.relays i).lease = some conn) :
    conn.writeTx ∈ s.1.held :=
  BrokerPool.mem_held.mpr (.inr (.inl ⟨i, _, known.coupled i conn leased, rfl⟩))

theorem Known.unused (known : Known s) (opens : k < s.2.opened) (unheld : k ∉ s.1.held)
    (unused : Unused s.2 (s.2.upstreams k).connId) {b : MultiplexAction}
    (change : Multiplex.Change idle codecs map s.2 b t.2) : Unused t.2 (s.2.upstreams k).connId := by
  intro cidU entry found own
  obtain ⟨old, _⟩ | ⟨i, job, tag, conn, rfl, phase, leased, rfl⟩ := change.lookup found
  · exact unused cidU entry old own
  · obtain ⟨opensToo, named⟩ := known.connected.leased i conn leased
    have here := known.numbered _ opensToo k opens (named.symm.trans own)
    exact unheld (here ▸ known.leased leased)

theorem held_after (taken : (system config maxInFlight metrics idle codecs map).step s action = some t)
    (opens : k < s.2.opened) (unheld : k ∉ s.1.held) : k ∉ t.1.held := by
  intro member
  obtain ⟨pool, multiplex, _, joint, left, _⟩ := joint_of_step taken
  obtain ⟨_, same⟩ | ⟨a, some, change⟩ := left
  · exact unheld (same ▸ member)
  · obtain old | ⟨conn, opened, rfl⟩ := change.held_or_new member
    · exact unheld old
    · obtain ⟨rfl, _⟩ := joint.opens some opened
      exact absurd opens (Nat.lt_irrefl _)

theorem unused_after (known : Known s) (opens : k < s.2.opened) (unheld : k ∉ s.1.held)
    (unused : Unused s.2 (s.2.upstreams k).connId)
    (taken : (system config maxInFlight metrics idle codecs map).step s action = some t) :
    Unused t.2 (s.2.upstreams k).connId := by
  obtain ⟨pool, multiplex, _, _, _, right⟩ := joint_of_step taken
  obtain ⟨_, same⟩ | ⟨b, _, change⟩ := right
  · rw [same]
    exact unused
  · exact known.unused opens unheld unused change

theorem unused_of_letGo (known : Known s) (spares : Spares s action) (held : k ∈ s.1.held)
    (letGo : LetGo t k)
    (taken : (system config maxInFlight metrics idle codecs map).step s action = some t) :
    Unused t.2 (t.2.upstreams k).connId := by
  obtain ⟨runs, unheld⟩ := letGo
  obtain ⟨pool, multiplex, possible, joint, left, right⟩ := joint_of_step taken
  obtain ⟨_, same⟩ | ⟨a, rfl, change⟩ := left
  · exact absurd (same ▸ held) unheld
  · obtain kept | discards | ⟨i, conn, rfl, task, rfl⟩ := change.held known.alive known.waits held
    · exact absurd kept unheld
    · obtain rfl := joint.discarded rfl discards
      obtain ⟨_, same⟩ | ⟨_, wrong, _⟩ := right
      · rw [same] at runs ⊢
        intro cidU entry found
        exact spares.2 _ possible a rfl k discards runs ⟨cidU, entry⟩
          (Multiplex.mem_entries.mpr found)
      · cases wrong
    · obtain rfl := joint.drops rfl
      obtain ⟨wrong, _⟩ | ⟨_, ⟨rfl⟩, change⟩ := right
      · cases wrong
      · obtain ⟨cidU, phase⟩ := change.cancelling
        obtain ⟨_, leased, ended⟩ := known.held.dead i cidU phase
        cases (known.coupled i _ leased).symm.trans task
        obtain opens | ⟨wrong, _⟩ := change.isOpen runs
        · rw [ended] at opens
          cases opens
        · cases wrong

theorem unused_step (known : Known s) (spares : Spares s action)
    (before : ∀ k, LetGo s k → Unused s.2 (s.2.upstreams k).connId) (letGo : LetGo t k)
    (taken : (system config maxInFlight metrics idle codecs map).step s action = some t) :
    Unused t.2 (t.2.upstreams k).connId := by
  by_cases held : k ∈ s.1.held
  · exact unused_of_letGo known spares held letGo taken
  · obtain ⟨pool, multiplex, _, joint, left, right⟩ := joint_of_step taken
    have runs : (s.2.upstreams k).writeLoop.isOpen = true := by
      obtain ⟨_, same⟩ | ⟨b, rfl, change⟩ := right
      · exact same ▸ letGo.1
      · obtain opens | ⟨rfl, rfl⟩ := change.isOpen letGo.1
        · exact opens
        · obtain ⟨a, rfl, opened⟩ := joint.create
          obtain ⟨wrong, _⟩ | ⟨_, ⟨rfl⟩, moved⟩ := left
          · cases wrong
          · exact absurd (moved.opens_held opened) letGo.2
    have opens := Multiplex.opened_of_isOpen known.connected runs
    have unused := unused_after known opens held (before k ⟨runs, held⟩) taken
    have same : (t.2.upstreams k).connId = (s.2.upstreams k).connId := by
      obtain ⟨_, same⟩ | ⟨b, _, change⟩ := right
      · rw [same]
      · exact change.opened.2 k opens
    rwa [same]

/-! ## Runs -/

variable {condition : Multiplex → MultiplexAction → Prop} {allowed : BrokerPool × Multiplex → ServiceAction → Prop}

theorem coupled_of_reach (reach : (system config maxInFlight metrics idle codecs map).Reach allowed s) :
    Coupled s := by
  induction reach with
  | initial first =>
      intro i conn leased
      rw [first.2] at leased
      cases leased
  | @next s t action before _ taken ih =>
      have pool : (BrokerPool.system config metrics).Reachable s.1 :=
        System.Reach.left (fun _ _ _ _ _ _ => trivial) before
      exact ih.step (BrokerPool.waits_of_reach pool) taken

theorem known_of_reach (numbers : ∀ s action, allowed s action → Within Multiplex.Numbers s action)
    (reach : (system config maxInFlight metrics idle codecs map).Reach allowed s) : Known s := by
  have pool : (BrokerPool.system config metrics).Reachable s.1 :=
    System.Reach.left (fun _ _ _ _ _ _ => trivial) reach
  have multiplex := multiplex_reach (reach.mono numbers)
  exact ⟨coupled_of_reach reach, Multiplex.connected_of_reach multiplex,
    Multiplex.numbered_of_reach (fun _ _ given => given) multiplex,
    Multiplex.held_of_reach multiplex, BrokerPool.waits_of_reach pool,
    BrokerPool.idle_alive pool⟩

theorem unused_of_reach (reach : (system config maxInFlight metrics idle codecs map).Reach Spares s)
    (letGo : LetGo s k) : Unused s.2 (s.2.upstreams k).connId := by
  induction reach generalizing k with
  | initial first =>
      intro cidU entry found
      rw [first.2] at found
      cases found
  | next before spares taken ih =>
      have known := known_of_reach (fun _ _ given => given.1) before
      exact unused_step known spares (fun k letGo => ih letGo) letGo taken

theorem unused_of_leads (numbers : ∀ s action, allowed s action → Within Multiplex.Numbers s action)
    (reach : (system config maxInFlight metrics idle codecs map).Reach allowed s)
    (opens : k < s.2.opened) (unheld : k ∉ s.1.held) (unused : Unused s.2 (s.2.upstreams k).connId)
    (leads : (system config maxInFlight metrics idle codecs map).Leads allowed s t) :
    k < t.2.opened ∧ k ∉ t.1.held ∧ (t.2.upstreams k).connId = (s.2.upstreams k).connId ∧
      Unused t.2 (s.2.upstreams k).connId := by
  induction leads with
  | refl => exact ⟨opens, unheld, rfl, unused⟩
  | @next t u action before _ taken ih =>
      obtain ⟨opens, unheld, same, unused⟩ := ih
      have known := known_of_reach numbers (reach.leads before)
      have later := unused_after known opens unheld (same ▸ unused) taken
      have still : t.2.opened ≤ u.2.opened ∧
          (u.2.upstreams k).connId = (t.2.upstreams k).connId := by
        obtain ⟨_, _, _, _, _, ⟨_, same⟩ | ⟨b, _, change⟩⟩ := joint_of_step taken
        · rw [same]
          exact ⟨le_rfl, rfl⟩
        · exact ⟨change.opened.1, change.opened.2 k opens⟩
      exact ⟨opens.trans_le still.1, held_after taken opens unheld, still.2.trans same, same ▸ later⟩

/-- When the pool has let go of a connection whose write loop runs, no request is in flight on it, then
or later: the cleanup of the connection removes no entry. -/
theorem none_abandoned (reach : (system config maxInFlight metrics idle codecs map).Reach Spares s)
    (letGo : LetGo s k) (leads : (system config maxInFlight metrics idle codecs map).Leads Spares s t) :
    Unused t.2 (s.2.upstreams k).connId := by
  have known := known_of_reach (fun _ _ given => given.1) reach
  have opens := Multiplex.opened_of_isOpen known.connected letGo.1
  exact (unused_of_leads (fun _ _ given => given.1) reach opens letGo.2 (unused_of_reach reach letGo)
    leads).2.2.2

/-! ## Runs in which nothing fails -/

def Steady : MultiplexAction → Prop
  | .upstream _ .fail | .upstream _ .writeFailed => False
  | _ => True

def HeldOpen (s : BrokerPool × Multiplex) : Prop :=
  ∀ k ∈ s.1.held, (s.2.upstreams k).writeLoop.isOpen = true

theorem Joint.sound {b : MultiplexAction} (joint : Joint s pool (some b)) (coupled : Coupled s)
    (heldOpen : HeldOpen s) (steady : Steady b) : s.2.Sound b := by
  cases joint with
  | relay own =>
      unfold Multiplex.Sound
      split <;> simp_all [RelayAction.isOwn]
  | upstream own =>
      unfold Multiplex.Sound
      split <;> simp_all [Steady, UpstreamAction.isOwn]
  | closed unheld =>
      intro i conn leased same
      have task := coupled i conn leased
      exact unheld (BrokerPool.mem_held.mpr (.inr (.inl ⟨i, _, task, congrArg some same⟩)))
  | @reuse i conn rest queue alive =>
      apply heldOpen
      exact BrokerPool.mem_held.mpr (.inl ⟨conn, queue ▸ List.mem_cons_self, rfl⟩)
  | hand created =>
      apply heldOpen
      exact BrokerPool.mem_held.mpr (.inr (.inl ⟨_, _, created, rfl⟩))
  | _ => trivial

theorem HeldOpen.step (heldOpen : HeldOpen s) (connected : s.2.Connected)
    (steady : Within (fun _ b => Steady b) s action)
    (taken : (system config maxInFlight metrics idle codecs map).step s action = some t) :
    HeldOpen t := by
  intro k member
  obtain ⟨pool, multiplex, possible, joint, left, right⟩ := joint_of_step taken
  have before : k ∈ s.1.held ∨ k = s.2.opened ∧ multiplex = some .create := by
    obtain ⟨_, same⟩ | ⟨a, rfl, change⟩ := left
    · exact .inl (same ▸ member)
    · obtain old | ⟨conn, opened, rfl⟩ := change.held_or_new member
      · exact .inl old
      · obtain ⟨rfl, creates⟩ := joint.opens rfl opened
        exact .inr ⟨rfl, creates⟩
  obtain held | ⟨rfl, rfl⟩ := before
  · have opens := heldOpen k held
    obtain ⟨_, same⟩ | ⟨b, rfl, change⟩ := right
    · rwa [same]
    · have works : Steady b := steady _ possible b rfl
      apply change.stays_open connected opens
      · rintro rfl
        exact works
      · rintro rfl
        exact works
      · rintro rfl
        cases joint with
        | upstream own => cases own
        | closed unheld => exact unheld held
  · obtain ⟨wrong, _⟩ | ⟨_, ⟨rfl⟩, change⟩ := right
    · cases wrong
    · generalize t.2 = n at change
      cases change with
      | create => simp [Multiplex.create, CidRemap.allocConnId, Upstream.new, WriteLoop.isOpen]

theorem sound_of_reach (reach : (system config maxInFlight metrics idle codecs map).Reach
    (Within fun m b => Steady b ∧ condition m b) s) :
    (Multiplex.system maxInFlight metrics idle codecs map).Reach
      (fun m b => m.Sound b ∧ condition m b) s.2 ∧ HeldOpen s := by
  induction reach with
  | initial first =>
      refine ⟨.initial first.2, ?_⟩
      rw [HeldOpen, first.1]
      exact nofun
  | @next s t action before permitted taken ih =>
      obtain ⟨reached, heldOpen⟩ := ih
      have steady : Within (fun _ b => Steady b) s action :=
        fun part possible b does => (permitted part possible b does).1
      refine ⟨?_, heldOpen.step (Multiplex.connected_of_reach reached) steady taken⟩
      obtain ⟨⟨pool, multiplex⟩, possible, _, moved⟩ := System.couple_step taken
      cases multiplex with
      | none =>
          rw [← Option.some.inj moved]
          exact reached
      | some b =>
          have given := permitted _ possible b rfl
          have sound := (Joint.of_parts possible).sound (coupled_of_reach before) heldOpen given.1
          exact .next reached ⟨sound, given.2⟩ moved

/-! ## A broker that takes its time -/

def oneSecond : PoolLimits := ⟨2, 2, 1000, 5000⟩

def oneSecondService : System (BrokerPool × Multiplex) ServiceAction :=
  system oneSecond 2 (.new true) none .unknown ⟨∅⟩

def twoLeases : List ServiceAction :=
  warmedUp ++ comesIn 7 ++ borrowed ++ sent ++ [.upstream 0 .write, .tick 200] ++ comesIn 8 ++
    givenBack ++ sent

theorem none_abandoned_answered : ∃ s t : BrokerPool × Multiplex, LetGo s 0 ∧
    (t.2.upstreams 0).writeLoop = .cleanup ∧ t.2.remap.inFlight = 1 ∧
      Unused t.2 (s.2.upstreams 0).connId := by
  obtain ⟨s, reach, letGo, later⟩ := oneSecondService.exists_reach Spares
    (.new oneSecond (.new true), .new 2 (.new true))
    (twoLeases ++ [.upstream 0 (.answer 0 (putI32 (cidOf 0))), .upstream 0 .read,
      .upstream 0 .forward, .upstream 0 .take, .upstream 0 .route, .tick 10000, .pool .reap])
    (fun s => ((s.2.upstreams 0).writeLoop.isOpen = true ∧ 0 ∉ s.1.held) ∧
      (oneSecondService.exec Spares s [.closed 0]).any fun t =>
        decide ((t.2.upstreams 0).writeLoop = .cleanup ∧ t.2.remap.inFlight = 1))
    ⟨rfl, rfl⟩ (by decide +kernel)
  obtain ⟨t, leads, cleanup, waits⟩ := oneSecondService.exists_leads Spares s _
    (fun t => (t.2.upstreams 0).writeLoop = .cleanup ∧ t.2.remap.inFlight = 1) later
  exact ⟨s, t, letGo, cleanup, waits, none_abandoned reach letGo leads⟩

/-- The reaper evicts a connection on which the broker still owes an answer, and its write loop is about
to remove the entry. -/
theorem reaper_abandons : ¬ ∀ s t (k : Nat), oneSecondService.Reachable s → LetGo s k →
    oneSecondService.Leads (fun _ _ => True) s t → Unused t.2 (s.2.upstreams k).connId := by
  intro claim
  obtain ⟨s, reach, letGo, own, later⟩ := oneSecondService.exists_reach (fun _ _ => True)
    (.new oneSecond (.new true), .new 2 (.new true)) (twoLeases ++ [.tick 10000, .pool .reap])
    (fun s => ((s.2.upstreams 0).writeLoop.isOpen = true ∧ 0 ∉ s.1.held) ∧
      (s.2.upstreams 0).connId = 1 ∧ (oneSecondService.run s [.closed 0]).any fun t =>
        decide ((t.2.upstreams 0).writeLoop = .cleanup ∧
          t.2.remap.map.lookup (cidOf 0) = some ⟨⟨0, 0⟩, 7, 18, 0, 1⟩))
    ⟨rfl, rfl⟩ (by decide +kernel)
  obtain ⟨t, leads, _, stays⟩ := oneSecondService.exists_leads (fun _ _ => True) s _
    (fun t => (t.2.upstreams 0).writeLoop = .cleanup ∧
      t.2.remap.map.lookup (cidOf 0) = some ⟨⟨0, 0⟩, 7, 18, 0, 1⟩) later
  exact claim s t 0 reach letGo leads (cidOf 0) _ stays own.symm

end Service
end KafkaProxy.Pooled
