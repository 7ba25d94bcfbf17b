import KafkaProxy.Pooled.Delivery
import KafkaProxy.Pooled.Orphans

/-!
# The table drains

An entry stays until an answer with its correlation id is taken from a read loop's channel. `silent`
holds of the requests that a broker never answers.
-/

namespace KafkaProxy.Pooled
open Library

def WriteReq.cid (write : WriteReq) : Int32 := getI32 (write.frame.drop 4)

def Upstream.cids (u : Upstream) : List Int32 :=
  (u.writeRx ++ u.unanswered).map WriteReq.cid ++
    (u.incoming ++ u.writeLoop.holds ++ u.readRx).filterMap fun answer => parseResponseCid answer.data

def DownToUp.frame : DownToUp → Option Frame
  | .count job cidU _ | .send job cidU _ => some (replaceCid job.data cidU)
  | _ => none

/-- Every request written has been answered unless it is silent, and the answers have been routed. What
comes after the cleanup finds no entry. -/
def Upstream.Drained (silent : Frame → Bool) (u : Upstream) : Prop :=
  (u.writeLoop.hasCleaned = false → u.writeRx = [] ∧
    (∀ write ∈ u.unanswered, silent write.frame = true) ∧ u.incoming = [] ∧ u.writeLoop.holds = []) ∧
  u.readRx = [] ∧ u.readLoop = .receiving

instance (silent : Frame → Bool) (u : Upstream) : Decidable (u.Drained silent) :=
  inferInstanceAs (Decidable ((_ → _) ∧ _))

namespace Multiplex

variable {idle : Option Nat} {codecs : Codecs} {map : RewriteMap} {m n : Multiplex} {i k : Nat}
  {action : MultiplexAction} {cidU : Int32}

theorem mem_cids {u : Upstream} : cidU ∈ u.cids ↔
    (∃ write ∈ u.writeRx ++ u.unanswered, write.cid = cidU) ∨
      ∃ answer ∈ u.incoming ++ u.writeLoop.holds ++ u.readRx,
        parseResponseCid answer.data = some cidU := by
  simp only [Upstream.cids, List.mem_append, List.mem_map, List.mem_filterMap]

theorem mem_eraseIdx_of_ne {writes : List WriteReq} {index : Nat} {req write : WriteReq}
    (asked : writes[index]? = some req) (member : write ∈ writes) (other : write ≠ req) :
    write ∈ writes.eraseIdx index := by
  obtain ⟨j, there⟩ := List.mem_iff_getElem?.mp member
  apply List.mem_eraseIdx_iff_getElem?.mpr
  refine ⟨j, ?_, there⟩
  rintro rfl
  rw [asked] at there
  exact other (Option.some.inj there).symm

theorem UpstreamMove.cids {action : UpstreamAction}
    (move : UpstreamMove codecs map m k (m.upstreams k) action n) (sound : action ≠ .writeFailed)
    (carried : cidU ∈ (m.upstreams k).cids) :
    cidU ∈ (n.upstreams k).cids ∨ n.remap.map.lookup cidU = none := by
  rw [mem_cids] at carried ⊢
  cases move with
  | @answer index data req asked echoes =>
      left
      rw [setUpstream_upstreams, Function.update_self]
      obtain ⟨write, sent, own⟩ | ⟨answer, place, own⟩ := carried
      · by_cases this : write = req
        · subst this
          exact .inr ⟨⟨data, write.tag⟩, by simp, by rw [← own]; exact echoes⟩
        · refine .inl ⟨write, ?_, own⟩
          obtain queued | waits := List.mem_append.mp sent
          · exact List.mem_append_left _ queued
          · exact List.mem_append_right _ (mem_eraseIdx_of_ne asked waits this)
      · refine .inr ⟨answer, ?_, own⟩
        simp only [List.mem_append] at place ⊢
        tauto
  | write phase queue =>
      left
      simp only [setUpstream_upstreams, Function.update_self]
      simp only [queue, List.mem_append, List.mem_cons] at carried ⊢
      grind
  | read phase queue =>
      left
      simp only [setUpstream_upstreams, Function.update_self]
      simp only [phase, queue, WriteLoop.holds, List.mem_append, List.mem_cons, List.not_mem_nil] at carried ⊢
      grind
  | forward phase room =>
      left
      simp only [setUpstream_upstreams, Function.update_self]
      simp only [phase, WriteLoop.holds, List.mem_append, List.mem_cons, List.not_mem_nil] at carried ⊢
      grind
  | @take answer rest cid entry phase queue parsed found =>
      by_cases this : cidU = cid
      · subst this
        exact .inr (AList.lookup_erase _ _)
      · left
        simp only [setUpstream_upstreams, Function.update_self]
        simp only [queue, List.mem_append, List.mem_cons] at carried ⊢
        grind
  | @unmatched answer rest phase queue missing =>
      by_cases this : parseResponseCid answer.data = some cidU
      · exact .inr (missing cidU this)
      · left
        simp only [setUpstream_upstreams, Function.update_self]
        simp only [queue, List.mem_append, List.mem_cons] at carried ⊢
        grind
  | writeFailed => exact absurd rfl sound
  | _ => simp_all [WriteLoop.holds]

theorem RelayMove.cids {action : RelayAction}
    (move : RelayMove idle m i (m.relays i) action n) (carried : cidU ∈ (m.upstreams k).cids) :
    cidU ∈ (n.upstreams k).cids := by
  cases move with
  | @push job cid tag conn phase leased listens room =>
      by_cases here : k = conn.writeTx
      · subst here
        rw [mem_cids] at carried ⊢
        simp only [setRelay_upstreams, setUpstream_upstreams, Function.update_self, List.mem_append] at carried ⊢
        grind
      · simpa [here] using carried
  | _ => exact carried

/-- Nothing fails. A write channel ends when nobody has a sending half of it: a lease is one, and
`acquire` returns one. -/
def Sound (m : Multiplex) : MultiplexAction → Prop
  | .upstream _ .fail | .upstream _ .writeFailed => False
  | .upstream k .closed => ∀ i conn, (m.relays i).lease = some conn → conn.writeTx ≠ k
  | .relay _ (.acquired conn) => (m.upstreams conn.writeTx).writeLoop.isOpen = true
  | _ => True

def registers (m : Multiplex) : MultiplexAction → Option Frame
  | .relay i .store =>
      match (m.relays i).downToUp with
      | .store job cidU _ => some (replaceCid job.data cidU)
      | _ => none
  | _ => none

/-- No relay registers a request that gets no answer. -/
def Loud (silent : Frame → Bool) (m : Multiplex) (action : MultiplexAction) : Prop :=
  ∀ frame ∈ m.registers action, silent frame = false

instance (silent : Frame → Bool) (m : Multiplex) (action : MultiplexAction) :
    Decidable (m.Loud silent action) :=
  inferInstanceAs (Decidable (∀ frame ∈ m.registers action, _))

theorem Change.stays_open (change : Change idle codecs map m action n) (connected : m.Connected)
    (opens : (m.upstreams k).writeLoop.isOpen = true) (steady : action ≠ .upstream k .fail)
    (written : action ≠ .upstream k .writeFailed) (other : action ≠ .upstream k .closed) :
    (n.upstreams k).writeLoop.isOpen = true := by
  obtain ⟨_, writeRx, same⟩ | ⟨_, rfl, _⟩ | ⟨own, rfl, move⟩ := change.at_upstream k
  · rwa [same]
  · rw [connected.absent m.opened le_rfl] at opens
    cases opens
  · cases move <;> simp_all [WriteLoop.isOpen]

theorem Change.lease (change : Change idle codecs map m action n) {conn : Acquired}
    (leased : (n.relays i).lease = some conn) :
    (m.relays i).lease = some conn ∧ action ≠ .relay i .giveBack ∧ action ≠ .relay i .leave ∧
      action ≠ .relay i .cancel ∨ action = .relay i (.acquired conn) := by
  obtain ⟨others, respRx, same⟩ | ⟨own, rfl, move⟩ := change.at_relay i
  · rw [same] at leased
    exact .inl ⟨leased, others _, others _, others _⟩
  · cases move with
    | giveBack phase expired | cancel phase | leave phase => simp at leased
    | acquired phase known same =>
        simp only [setRelay_relays, Function.update_self, Option.some.injEq] at leased
        exact .inr (leased ▸ rfl)
    | _ =>
        left
        simpa using leased

def Leased (m : Multiplex) : Prop :=
  ∀ i conn, (m.relays i).lease = some conn → (m.upstreams conn.writeTx).writeLoop.isOpen = true

theorem Leased.step (leased : m.Leased) (connected : m.Connected) (sound : m.Sound action)
    (change : Change idle codecs map m action n) : n.Leased := by
  intro i conn held
  have before := change.lease held
  have opens : (m.upstreams conn.writeTx).writeLoop.isOpen = true := by
    obtain ⟨kept, _⟩ | rfl := before
    · exact leased i conn kept
    · exact sound
  refine change.stays_open connected opens ?_ ?_ ?_
  · rintro rfl
    exact sound
  · rintro rfl
    exact sound
  · rintro rfl
    obtain ⟨kept, _⟩ | wrong := before
    · exact sound i conn kept rfl
    · cases wrong

/-! ## The requests that are under way get answers -/

structure Audible (silent : Frame → Bool) (m : Multiplex) : Prop where
  hands : ∀ i frame, (m.relays i).downToUp.frame = some frame → silent frame = false
  sent : ∀ k, ∀ write ∈ (m.upstreams k).writeRx ++ (m.upstreams k).unanswered,
    silent write.frame = false

variable {silent : Frame → Bool}

theorem RelayMove.frame {action : RelayAction} {frame : Frame}
    (move : RelayMove idle m i (m.relays i) action n) (loud : m.Loud silent (.relay i action))
    (held : (n.relays i).downToUp.frame = some frame) :
    (m.relays i).downToUp.frame = some frame ∨ silent frame = false := by
  cases move with
  | store phase leased =>
      simp only [setRelay_relays, Function.update_self, DownToUp.frame, Option.some.injEq] at held
      refine .inr (loud frame ?_)
      simp [registers, phase, held]
  | count phase =>
      simp only [setRelay_relays, Function.update_self, DownToUp.frame, Option.some.injEq] at held
      left
      rw [phase, ← held]
      rfl
  | check phase room => simp [DownToUp.frame] at held
  | request data => exact .inl (by simpa using held)
  | deliver listens queue => exact .inl (by simpa using held)
  | deliverFailed listens => exact .inl (by simpa using held)
  | respClosed listens empty done last => exact .inl (by simpa using held)
  | _ => simp [DownToUp.frame] at held

theorem Audible.step (audible : m.Audible silent) (loud : m.Loud silent action)
    (change : Change idle codecs map m action n) : n.Audible silent := by
  refine ⟨fun j frame held => ?_, fun k write member => ?_⟩
  · obtain ⟨_, respRx, same⟩ | ⟨own, rfl, move⟩ := change.at_relay j
    · rw [same] at held
      exact audible.hands j frame held
    · obtain before | heard := move.frame loud held
      · exact audible.hands j frame before
      · exact heard
  · obtain ⟨before, _⟩ | ⟨i, job, phase, same⟩ := change.sent member
    · exact audible.sent k write before
    · exact audible.hands i _ (by rw [phase, same]; rfl)

/-! ## Where the answer of an entry is -/

def Present (m : Multiplex) : Prop :=
  ∀ cidU entry, m.remap.map.lookup cidU = some entry → ∃ k < m.opened,
    (m.upstreams k).connId = entry.connId ∧ (m.upstreams k).writeLoop.hasCleaned = false ∧
      (cidU ∈ (m.upstreams k).cids ∨ (m.relays entry.downstreamTx.client).Pushes k cidU)

theorem Change.pushed (requests : m.Requests) (change : Change idle codecs map m action n)
    (pushed : m.pushes action = some (k, cidU)) : cidU ∈ (n.upstreams k).cids := by
  cases change with
  | @relay i action n move =>
      cases move with
      | @push job cid tag conn phase leased listens room =>
          simp only [Multiplex.pushes, phase, leased, Option.some.injEq, Prod.mk.injEq] at pushed
          obtain ⟨rfl, rfl⟩ := pushed
          have sent := requests.job i job (by rw [phase]; rfl)
          have own := replaceCid_cid cid (parseRequestHeader_length sent.parsed)
          refine mem_cids.mpr (.inl ⟨⟨replaceCid job.data cid, cid, tag⟩, ?_, own⟩)
          simp
      | _ => cases pushed
  | _ => cases pushed

theorem Change.cids (change : Change idle codecs map m action n) (sound : m.Sound action)
    (opens : k < m.opened) (carried : cidU ∈ (m.upstreams k).cids) :
    cidU ∈ (n.upstreams k).cids ∨ n.remap.map.lookup cidU = none := by
  cases change with
  | tick elapsed => exact .inl carried
  | create =>
      left
      simpa [Multiplex.create, opens.ne] using carried
  | relay move => exact .inl (move.cids carried)
  | @upstream l action n move =>
      by_cases here : k = l
      · subst here
        apply move.cids _ carried
        rintro rfl
        exact sound
      · rw [move.upstreams_other here]
        exact .inl carried

theorem Present.step (present : m.Present) (leased : m.Leased) (connected : m.Connected)
    (requests : m.Requests) (sound : m.Sound action) (change : Change idle codecs map m action n) :
    n.Present := by
  intro cidU entry found
  obtain ⟨old, others, kept, _⟩ | ⟨i, job, tag, conn, rfl, phase, held, rfl⟩ := change.lookup found
  · obtain ⟨k, opens, own, uncleaned, place⟩ := present cidU entry old
    refine ⟨k, opens.trans_le change.opened.1, (change.opened.2 k opens).trans own, ?_, ?_⟩
    · by_contra cleaned
      rw [Bool.not_eq_false] at cleaned
      obtain before | rfl := change.hasCleaned cleaned
      · exact absurd uncleaned (by simp [before])
      · exact others k rfl own.symm
    · obtain carried | pushes := place
      · obtain still | gone := change.cids sound opens carried
        · exact .inl still
        · rw [found] at gone
          cases gone
      · obtain still | ⟨pushed, _⟩ | ⟨cancels, phase⟩ := change.pushes pushes
        · exact .inr still
        · exact .inl (change.pushed requests pushed)
        · exact absurd phase (kept _ cancels)
  · obtain ⟨known, named⟩ := connected.leased i conn held
    refine ⟨conn.writeTx, known.trans_le change.opened.1, ?_, ?_, .inr ?_⟩
    · rw [change.opened.2 _ known, named]
    · by_contra cleaned
      rw [Bool.not_eq_false] at cleaned
      obtain before | wrong := change.hasCleaned cleaned
      · have opens := leased i conn held
        cases phase : (m.upstreams conn.writeTx).writeLoop <;>
          simp_all [WriteLoop.isOpen, WriteLoop.hasCleaned]
      · cases wrong
    · exact change.stored phase held rfl

/-! ## Runs -/

variable {maxInFlight : Nat} {metrics : Metrics} {allowed : Multiplex → MultiplexAction → Prop}

theorem present_of_reach (sound : ∀ m action, allowed m action → m.Sound action)
    (reach : (system maxInFlight metrics idle codecs map).Reach allowed m) :
    m.Leased ∧ m.Present := by
  induction reach with
  | initial first =>
      rw [first]
      refine ⟨?_, ?_⟩
      · intro i conn held
        cases held
      · intro cidU entry found
        cases found
  | next before permitted taken ih =>
      have connected := connected_of_reach before
      obtain ⟨leased, present⟩ := ih
      have given := sound _ _ permitted
      exact ⟨leased.step connected given (.of_step taken),
        present.step leased connected (requests_of_reach before) given (.of_step taken)⟩

theorem audible_of_reach (loud : ∀ m action, allowed m action → m.Loud silent action)
    (reach : (system maxInFlight metrics idle codecs map).Reach allowed m) : m.Audible silent := by
  induction reach with
  | initial first =>
      rw [first]
      refine ⟨?_, ?_⟩
      · intro i frame held
        cases held
      · intro k write member
        cases member
  | next _ permitted taken ih => exact ih.step (loud _ _ permitted) (.of_step taken)

structure Drained (silent : Frame → Bool) (m : Multiplex) : Prop where
  relays : ∀ i, (m.relays i).downToUp.pushing = none
  upstreams : ∀ k, (m.upstreams k).Drained silent

theorem Drained.cids (drained : m.Drained silent) (audible : m.Audible silent)
    (uncleaned : (m.upstreams k).writeLoop.hasCleaned = false) : (m.upstreams k).cids = [] := by
  obtain ⟨before, read, _⟩ := drained.upstreams k
  obtain ⟨written, answered, incoming, held⟩ := before uncleaned
  have none : (m.upstreams k).unanswered = [] := by
    apply List.eq_nil_iff_forall_not_mem.mpr
    intro write waits
    have heard := audible.sent k write (List.mem_append_right _ waits)
    rw [answered write waits] at heard
    cases heard
  simp [Upstream.cids, written, none, incoming, held, read]

theorem Drained.inFlight (drained : m.Drained silent) (present : m.Present)
    (audible : m.Audible silent) : m.remap.inFlight = 0 := by
  apply Table.size_eq_zero.mpr
  intro cidU
  cases found : m.remap.map.lookup cidU with
  | none => rfl
  | some entry =>
      obtain ⟨k, _, _, uncleaned, carried | pushes⟩ := present cidU entry found
      · rw [drained.cids audible uncleaned] at carried
        cases carried
      · rw [PooledRelay.Pushes, drained.relays] at pushes
        cases pushes.2

theorem Drained.holdsTx (drained : m.Drained silent) (empty : m.remap.inFlight = 0) (i : Nat) :
    m.holdsTx i = false := by
  have entries : m.remap.map.entries = [] := List.length_eq_zero_iff.mp empty
  simp [Multiplex.holdsTx, entries, (drained.upstreams _).2.2]

/-- When the brokers have answered every request that gets an answer and the answers have been routed,
the table is empty and nobody holds a client's response channel, as long as no relay has registered a
request that gets none. -/
theorem table_drains (reach : (system maxInFlight metrics idle codecs map).Reach
    (fun m action => m.Sound action ∧ m.Loud silent action) m) (drained : m.Drained silent) :
    m.remap.inFlight = 0 ∧ ∀ i, m.holdsTx i = false := by
  have audible := audible_of_reach (fun _ _ given => given.2) reach
  have empty := drained.inFlight (present_of_reach (fun _ _ given => given.1) reach).2 audible
  exact ⟨empty, drained.holdsTx empty⟩

/-! ## A request without an answer -/

def skipString (raw : Frame) : Frame := raw.drop (2 + (getI16 raw).toNatClampNeg)

/-- A Produce request (versions 3 to 8) with `acks` 0. The client id and the transactional id stand in
front of `acks`. -/
def noResponse (frame : Frame) : Bool :=
  getI16 frame = 0 && 3 ≤ getI16 (frame.drop 2) && getI16 (frame.drop 2) ≤ 8 &&
    getI16 (skipString (skipString (frame.drop 8))) = 0

def produce : Frame := [0, 0, 0, 3, 0, 0, 0, 7, 255, 255, 255, 255, 0, 0]

def keepsOpen (m : Multiplex) : MultiplexAction → Bool
  | .upstream _ .fail | .upstream _ .writeFailed | .upstream _ .closed => false
  | .relay _ (.acquired conn) => (m.upstreams conn.writeTx).writeLoop.isOpen
  | _ => true

def Quiet (m : Multiplex) (action : MultiplexAction) : Prop :=
  m.Alone action ∧ m.keepsOpen action = true

instance (m : Multiplex) (action : MultiplexAction) : Decidable (m.Quiet action) :=
  inferInstanceAs (Decidable (_ ∧ _))

theorem Quiet.sound (quiet : m.Quiet action) : m.Sound action := by
  obtain ⟨_, opens⟩ := quiet
  unfold keepsOpen at opens
  unfold Sound
  split <;> simp_all

theorem drained_of_first (reach : (system maxInFlight metrics idle codecs map).Reach Alone m)
    (one : m.opened = 1) (waits : (m.relays 0).downToUp.pushing = none)
    (first : (m.upstreams 0).Drained silent) : m.Drained silent := by
  refine ⟨?_, ?_⟩
  · intro i
    by_cases here : i = 0
    · exact here ▸ waits
    · rw [unconnected_of_reach reach here]
      rfl
  · intro k
    by_cases here : k = 0
    · exact here ▸ first
    · rw [(connected_of_reach reach).absent k (by omega)]
      exact ⟨fun _ => ⟨rfl, nofun, rfl, rfl⟩, rfl, rfl⟩

theorem table_drains_answered : ∃ m : Multiplex, m.requests.length = 1 ∧ m.remap.inFlight = 0 ∧
    ∀ i, m.holdsTx i = false := by
  obtain ⟨m, reach, one, waits, first, registered⟩ := twoInFlight.exists_reach
    (fun m action => m.Quiet action ∧ m.Loud noResponse action) (.new 2 (.new true))
    ([.create] ++ asks apiVersionsRequest ⟨0, 1⟩ ++ sends ++ [.upstream 0 .write,
      .upstream 0 (.answer 0 (putI32 2)), .upstream 0 .read, .upstream 0 .forward, .upstream 0 .take,
      .upstream 0 .route])
    (fun m => m.opened = 1 ∧ (m.relays 0).downToUp.pushing = none ∧
      (m.upstreams 0).Drained noResponse ∧ m.requests.length = 1)
    rfl (by decide +kernel)
  have drained := drained_of_first (reach.mono fun _ _ given => given.1.1) one waits first
  exact ⟨m, registered, table_drains
    (reach.mono fun _ _ given => ⟨given.1.sound, given.2⟩) drained⟩

/-- The broker gives no answer to the client's Produce request. -/
theorem produce_stays : ¬ ∀ m, twoInFlight.Reach Sound m → m.Drained noResponse →
    m.remap.inFlight = 0 := by
  intro claim
  obtain ⟨m, reach, one, waits, first, stays⟩ := twoInFlight.exists_reach Quiet (.new 2 (.new true))
    ([.create] ++ asks produce ⟨0, 1⟩ ++ sends ++ [.upstream 0 .write])
    (fun m => m.opened = 1 ∧ (m.relays 0).downToUp.pushing = none ∧
      (m.upstreams 0).Drained noResponse ∧ m.remap.inFlight = 1)
    rfl (by decide +kernel)
  have drained := drained_of_first (reach.mono fun _ _ given => given.1) one waits first
  rw [claim m (reach.mono fun _ _ given => given.sound) drained] at stays
  cases stays

end Multiplex
end KafkaProxy.Pooled
