import KafkaProxy.Library.System
import KafkaProxy.Remap.Basic

/-!
# Reuse of correlation ids

The table under any sequence of calls. The counter runs in a cycle of `cidPeriod` ids and nothing
checks that the next one is free, so what keeps two requests apart is how long the older of them
stays in the table.
-/

namespace KafkaProxy.CidRemap
open Library

inductive Call (τ : Type) where
  | insert (entry : RouteEntry τ)
  | take (cidU : Int32)
  | failConn (connId : ConnId)

/-- `allocated` is history: the ids given out so far, the newest first. -/
structure Used (τ : Type) where
  remap : CidRemap τ
  metrics : Metrics
  allocated : List Int32

variable {τ : Type}

def Used.step (s : Used τ) : Call τ → Option (Used τ)
  | .insert entry =>
      let (cidU, remap, metrics) := s.remap.insert entry s.metrics
      some { remap, metrics, allocated := cidU.toList ++ s.allocated }
  | .take cidU =>
      let (_, remap, metrics) := s.remap.take cidU s.metrics
      some { s with remap, metrics }
  | .failConn connId =>
      let (_, remap, metrics) := s.remap.failConn connId s.metrics
      some { s with remap, metrics }

def Used.start (maxInFlight : Nat) (metrics : Metrics) : Used τ :=
  ⟨withMaxInFlight maxInFlight, metrics, []⟩

def calls (τ : Type) (maxInFlight : Nat) (metrics : Metrics) : System (Used τ) (Call τ) where
  initial s := s = .start maxInFlight metrics
  step := Used.step

def Used.age (s : Used τ) (cidU : Int32) : Nat := s.allocated.idxOf cidU

structure Used.Cycle (s : Used τ) : Prop where
  counter : s.remap.nextCid = cidAt s.allocated.length
  history : ∀ i cidU, s.allocated[i]? = some cidU → cidU = cidAt (s.allocated.length - i)
  covered : ∀ cidU ∈ s.remap.map, cidU ∈ s.allocated

theorem insert_some {r remap : CidRemap τ} {entry : RouteEntry τ} {metrics after : Metrics}
    {cidU : Int32} (inserted : r.insert entry metrics = (some cidU, remap, after)) :
    r.full = false ∧ cidU = cidAfter r.nextCid ∧
      remap = { r with nextCid := cidU, map := r.map.insert cidU entry } := by
  unfold insert at inserted
  split at inserted
  · simp at inserted
  · rename_i room
    simp only [allocCidU, store, Prod.mk.injEq, Option.some.injEq] at inserted
    obtain ⟨rfl, rfl, _⟩ := inserted
    exact ⟨by simpa using room, rfl, rfl⟩

theorem insert_none {r remap : CidRemap τ} {entry : RouteEntry τ} {metrics after : Metrics}
    (refused : r.insert entry metrics = (none, remap, after)) : remap = r := by
  unfold insert at refused
  split at refused
  · simp only [Prod.mk.injEq] at refused
    exact refused.2.1.symm
  · simp at refused

theorem take_remap (r : CidRemap τ) (cidU : Int32) (metrics : Metrics) :
    (r.take cidU metrics).2.1 = { r with map := r.map.erase cidU } := by
  unfold take
  split
  · rfl
  · rename_i absent
    rw [Table.erase_of_notMem (AList.lookup_eq_none.mp absent)]

theorem failConn_remap (r : CidRemap τ) (connId : ConnId) (metrics : Metrics) :
    (r.failConn connId metrics).2.1 = r.retainOthers connId := rfl

theorem Used.Cycle.of_subset {s : Used τ} (cycle : s.Cycle) {remap : CidRemap τ} {metrics : Metrics}
    (counter : remap.nextCid = s.remap.nextCid)
    (subset : ∀ cidU ∈ remap.map, cidU ∈ s.remap.map) :
    Used.Cycle { s with remap, metrics } :=
  ⟨counter.trans cycle.counter, cycle.history, fun cidU member =>
    cycle.covered cidU (subset cidU member)⟩

theorem Used.Cycle.step {s t : Used τ} {call : Call τ} (cycle : s.Cycle)
    (action : s.step call = some t) : t.Cycle := by
  cases call with
  | insert entry =>
      rcases called : s.remap.insert entry s.metrics with ⟨outcome, remap, metrics⟩
      simp only [Used.step, called, Option.some.injEq] at action
      subst action
      cases outcome with
      | none =>
          rw [insert_none called]
          exact ⟨cycle.counter, cycle.history, cycle.covered⟩
      | some cidU =>
          obtain ⟨_, next, rfl⟩ := insert_some called
          rw [cycle.counter, cidAfter_cidAt] at next
          refine ⟨by simpa using next, ?_, ?_⟩
          · intro i found position
            cases i with
            | zero => simp_all
            | succ i => simpa using cycle.history i found (by simpa using position)
          · intro found member
            rcases (AList.mem_insert _).mp member with rfl | older
            · simp
            · simp [cycle.covered found older]
  | take cidU =>
      simp only [Used.step, Option.some.injEq] at action
      rw [← action, take_remap]
      exact cycle.of_subset rfl fun found member => (AList.mem_erase.mp member).2
  | failConn connId =>
      simp only [Used.step, Option.some.injEq] at action
      rw [← action, failConn_remap]
      refine cycle.of_subset rfl fun found member => ?_
      obtain ⟨entry, present⟩ := Option.isSome_iff_exists.mp (AList.lookup_isSome.mpr member)
      exact Table.mem_of_lookup (lookup_retainOthers.mp present).1

theorem cycle_of_reachable {maxInFlight : Nat} {metrics : Metrics} {s : Used τ}
    (reachable : (calls τ maxInFlight metrics).Reachable s) : s.Cycle := by
  induction reachable with
  | initial first =>
      rw [first]
      exact ⟨rfl, by simp [Used.start], by simp [Used.start, withMaxInFlight]⟩
  | next _ _ action ih => exact ih.step action

theorem Used.Cycle.next_mem_iff {s : Used τ} (cycle : s.Cycle) :
    cidAfter s.remap.nextCid ∈ s.remap.map ↔ ∃ cidU ∈ s.remap.map, cidPeriod - 1 ≤ s.age cidU := by
  have position (cidU : Int32) (member : cidU ∈ s.remap.map) :
      s.age cidU < s.allocated.length ∧ cidU = cidAt (s.allocated.length - s.age cidU) := by
    have bound := List.idxOf_lt_length_iff.mpr (cycle.covered cidU member)
    exact ⟨bound, cycle.history _ _ (by
      rw [Used.age, List.getElem?_eq_getElem bound, List.getElem_idxOf bound])⟩
  rw [cycle.counter, cidAfter_cidAt]
  constructor
  · intro member
    obtain ⟨bound, same⟩ := position _ member
    refine ⟨_, member, ?_⟩
    have turns : (s.allocated.length - s.age (cidAt (s.allocated.length + 1))) ≡
        s.allocated.length + 1 [MOD cidPeriod] := ((cidAt_eq_iff _ _).mp same).symm
    have distance := (Nat.modEq_iff_dvd' (by omega)).mp turns
    have := Nat.le_of_dvd (by omega) distance
    omega
  · rintro ⟨cidU, member, old⟩
    obtain ⟨bound, same⟩ := position cidU member
    have exact : s.age cidU = cidPeriod - 1 := by
      -- An older use would show again one cycle later, and `age` counts from the last use.
      by_contra other
      have periodPositive : 0 < cidPeriod := by decide
      have earlier : s.age cidU - cidPeriod < s.allocated.length := by omega
      have again := cycle.history _ _ (List.getElem?_eq_getElem earlier)
      have repeated : s.allocated[s.age cidU - cidPeriod] = cidU := by
        rw [again, same, cidAt_eq_iff]
        have shift : s.allocated.length - (s.age cidU - cidPeriod) =
            s.allocated.length - s.age cidU + cidPeriod := by omega
        rw [← same, shift, Nat.add_mod_right]
      have sooner : s.age cidU - cidPeriod < s.allocated.findIdx (· == cidU) :=
        (by omega : s.age cidU - cidPeriod < s.age cidU)
      have first := List.not_of_lt_findIdx sooner
      simp [repeated] at first
    have next : cidAt (s.allocated.length + 1) = cidU := by
      rw [same, cidAt_eq_iff, exact]
      have shift : s.allocated.length + 1 = s.allocated.length - (cidPeriod - 1) + cidPeriod := by
        have periodPositive : 0 < cidPeriod := by decide
        omega
      rw [shift, Nat.add_mod_right]
    rw [next]
    exact member

/-- An insertion leaves every request in flight as it was exactly if none of them has been in the
table while all other ids of the cycle were given out. -/
theorem insert_keeps_in_flight_iff {maxInFlight : Nat} {metrics after : Metrics} {s : Used τ}
    (reachable : (calls τ maxInFlight metrics).Reachable s) {entry : RouteEntry τ} {cidU : Int32}
    {remap : CidRemap τ} (inserted : s.remap.insert entry s.metrics = (some cidU, remap, after)) :
    (cidU ∉ s.remap.map ∧ ∀ cid e, s.remap.map.lookup cid = some e →
        remap.map.lookup cid = some e) ↔
      ∀ cid ∈ s.remap.map, s.age cid < cidPeriod - 1 := by
  obtain ⟨_, next, rfl⟩ := insert_some inserted
  have reused := (cycle_of_reachable reachable).next_mem_iff
  rw [← next] at reused
  constructor
  · rintro ⟨fresh, _⟩ cid member
    by_contra old
    exact fresh (reused.mpr ⟨cid, member, by omega⟩)
  · intro young
    have fresh : cidU ∉ s.remap.map := by
      intro member
      obtain ⟨cid, present, old⟩ := reused.mp member
      have := young cid present
      omega
    refine ⟨fresh, fun cid e present => ?_⟩
    have other : cid ≠ cidU := fun same => fresh (same ▸ Table.mem_of_lookup present)
    rw [AList.lookup_insert_ne other, present]

theorem insert_keeps_in_flight_second :
    let s : Used Unit := ⟨(withMaxInFlight 2).allocCidU.2.store 2 ⟨(), 100, 3, 9, 1⟩,
      (Metrics.new true).incCidMapEntries, [2]⟩
    ((3 : Int32) ∉ s.remap.map ∧ ∀ cid e, s.remap.map.lookup cid = some e →
        (s.remap.insert ⟨(), 200, 0, 9, 1⟩ s.metrics).2.1.map.lookup cid = some e) ↔
      ∀ cid ∈ s.remap.map, s.age cid < cidPeriod - 1 := by
  intro s
  have started : (calls Unit 2 (.new true)).Reachable (.start 2 (.new true)) := .initial rfl
  have reachable : (calls Unit 2 (.new true)).Reachable s :=
    started.next (a := .insert ⟨(), 100, 3, 9, 1⟩) rfl
  exact insert_keeps_in_flight_iff reachable rfl

/-! ## A request that outlives a cycle -/

structure Used.Waiting (s : Used Unit) (rounds : Nat) : Prop where
  limit : s.remap.maxInFlight = 2
  counter : s.remap.nextCid = cidAt (rounds + 1)
  keys : s.remap.map.keys = [2]

theorem Used.Waiting.room {s : Used Unit} {rounds : Nat} (waiting : s.Waiting rounds) :
    s.remap.full = false := by
  simp [full, waiting.limit, Table.size_eq_keys, waiting.keys]

theorem step_insert_of_room {maxInFlight : Nat} {metrics : Metrics} {s : Used τ}
    (entry : RouteEntry τ) (room : s.remap.full = false) :
    (calls τ maxInFlight metrics).step s (.insert entry) = some
      ⟨s.remap.allocCidU.2.store (cidAfter s.remap.nextCid) entry, s.metrics.incCidMapEntries,
        cidAfter s.remap.nextCid :: s.allocated⟩ := by
  simp [calls, Used.step, insert, room, allocCidU]

theorem step_take {maxInFlight : Nat} {metrics : Metrics} (s : Used τ) (cidU : Int32) :
    (calls τ maxInFlight metrics).step s (.take cidU) = some
      ⟨{ s.remap with map := s.remap.map.erase cidU }, (s.remap.take cidU s.metrics).2.2,
        s.allocated⟩ := by
  rw [← take_remap s.remap cidU s.metrics]
  rfl

theorem Used.Waiting.round {s : Used Unit} {rounds : Nat} (waiting : s.Waiting rounds)
    (reachable : (calls Unit 2 (.new true)).Reachable s) (below : rounds + 1 < cidPeriod) :
    ∃ t : Used Unit, t.Waiting (rounds + 1) ∧ (calls Unit 2 (.new true)).Reachable t := by
  have next : cidAfter s.remap.nextCid = cidAt (rounds + 2) := by
    rw [waiting.counter, cidAfter_cidAt]
  have other : (2 : Int32) ≠ cidAt (rounds + 2) := by
    intro same
    have turns := (cidAt_eq_iff 1 (rounds + 2)).mp same
    rw [Nat.mod_eq_of_lt (show 1 < cidPeriod by decide)] at turns
    rcases Nat.lt_or_eq_of_le (show rounds + 2 ≤ cidPeriod by omega) with inside | last
    · rw [Nat.mod_eq_of_lt inside] at turns
      omega
    · rw [last, Nat.mod_self] at turns
      omega
  have registered := reachable.next (step_insert_of_room ⟨(), 200, 0, 9, 1⟩ waiting.room)
  have answered := registered.next (step_take _ (cidAt (rounds + 2)))
  refine ⟨_, ?_, answered⟩
  refine ⟨waiting.limit, next, ?_⟩
  simp [store, allocCidU, next, AList.keys_insert, waiting.keys, other]

theorem waiting_reachable (rounds : Nat) (below : rounds < cidPeriod) :
    ∃ s : Used Unit, s.Waiting rounds ∧ (calls Unit 2 (.new true)).Reachable s := by
  induction rounds with
  | zero =>
      have started : (calls Unit 2 (.new true)).Reachable (.start 2 (.new true)) := .initial rfl
      have registered := started.next (step_insert_of_room ⟨(), 100, 3, 9, 1⟩ rfl)
      refine ⟨_, ?_, registered⟩
      exact ⟨rfl, rfl, rfl⟩
  | succ rounds ih =>
      obtain ⟨s, waiting, reachable⟩ := ih (by omega)
      exact waiting.round reachable below

/-- The first request of a run is still unanswered after `2 ^ 31 - 2` later ones have come and gone.
The next insertion is given its id and replaces its entry. -/
theorem insert_replaces_in_flight :
    ¬ ∀ s : Used Unit, (calls Unit 2 (.new true)).Reachable s →
      ∀ entry cidU remap after, s.remap.insert entry s.metrics = (some cidU, remap, after) →
        cidU ∉ s.remap.map ∧ ∀ cid e, s.remap.map.lookup cid = some e →
          remap.map.lookup cid = some e := by
  intro claim
  obtain ⟨s, waiting, reachable⟩ := waiting_reachable (cidPeriod - 1) (by decide)
  have again : cidAfter s.remap.nextCid = 2 := by
    rw [waiting.counter, cidAfter_cidAt, show cidPeriod - 1 + 1 + 1 = 1 + cidPeriod by decide, cidAt,
      Nat.add_mod_right]
    rfl
  have inserted : s.remap.insert ⟨(), 200, 0, 9, 1⟩ s.metrics =
      (some 2, s.remap.allocCidU.2.store 2 ⟨(), 200, 0, 9, 1⟩, s.metrics.incCidMapEntries) := by
    simp [insert, waiting.room, allocCidU, again]
  apply (claim s reachable _ _ _ _ inserted).1
  rw [AList.mem_keys, waiting.keys]
  simp

end KafkaProxy.CidRemap
