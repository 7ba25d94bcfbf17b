import KafkaProxy.Library.Total
import KafkaProxy.Remap.Reuse

/-!
# The limit on requests in flight

`insert` compares the size of the table with the limit and adds its entry later. Between the two,
other calls compare with the same size.
-/

namespace KafkaProxy.CidRemap
open Library

inductive Inserting (τ : Type) where
  | len (entry : RouteEntry τ)
  | alloc (entry : RouteEntry τ)
  | store (entry : RouteEntry τ) (cidU : Int32)
  | count (cidU : Int32)
  | returned (cidU : Option Int32)
  deriving DecidableEq

structure Inserts (τ : Type) where
  remap : CidRemap τ
  metrics : Metrics
  calls : List (Inserting τ)

inductive InsertsAction (τ : Type) where
  | call (entry : RouteEntry τ)
  | insert (i : Nat)
  | take (cidU : Int32)
  | failConn (connId : ConnId)

variable {τ : Type}

def Inserting.step (r : CidRemap τ) (metrics : Metrics) :
    Inserting τ → Option (CidRemap τ × Metrics × Inserting τ)
  | .len entry => some (r, metrics, if r.full then .returned none else .alloc entry)
  | .alloc entry =>
      let (cidU, r) := r.allocCidU
      some (r, metrics, .store entry cidU)
  | .store entry cidU => some (r.store cidU entry, metrics, .count cidU)
  | .count cidU => some (r, metrics.incCidMapEntries, .returned (some cidU))
  | .returned _ => none

def Inserts.put (s : Inserts τ) (i : Nat) (result : CidRemap τ × Metrics × Inserting τ) : Inserts τ :=
  ⟨result.1, result.2.1, s.calls.set i result.2.2⟩

def Inserts.step (s : Inserts τ) : InsertsAction τ → Option (Inserts τ)
  | .call entry => some { s with calls := s.calls ++ [.len entry] }
  | .insert i =>
      match s.calls[i]? with
      | some call => (call.step s.remap s.metrics).map (s.put i)
      | none => none
  | .take cidU =>
      let (_, remap, metrics) := s.remap.take cidU s.metrics
      some { s with remap, metrics }
  | .failConn connId =>
      let (_, remap, metrics) := s.remap.failConn connId s.metrics
      some { s with remap, metrics }

def inserts (τ : Type) (maxInFlight : Nat) (metrics : Metrics) :
    System (Inserts τ) (InsertsAction τ) where
  initial s := s = ⟨withMaxInFlight maxInFlight, metrics, []⟩
  step := Inserts.step

def Inserting.pending : Inserting τ → Nat
  | .alloc _ | .store .. => 1
  | .len _ | .count _ | .returned _ => 0

def Inserts.pending (s : Inserts τ) : Nat := total Inserting.pending s.calls

/-- A call that passes the check finds room for its entry beside those that are still to come. -/
def Inserts.Fits (s : Inserts τ) : InsertsAction τ → Prop
  | .insert i =>
      match s.calls[i]? with
      | some (.len _) => s.remap.full = false → s.remap.map.size + s.pending < s.remap.maxInFlight
      | _ => True
  | _ => True

instance (s : Inserts τ) (action : InsertsAction τ) : Decidable (s.Fits action) := by
  unfold Inserts.Fits
  split
  · split <;> infer_instance
  · infer_instance

variable {maxInFlight : Nat} {metrics : Metrics} {s t u : Inserts τ} {i : Nat}

theorem put_current {call : Inserting τ} {result : CidRemap τ × Metrics × Inserting τ}
    (current : s.calls[i]? = some call) : (s.put i result).calls[i]? = some result.2.2 := by
  have bound := (List.getElem?_eq_some_iff.mp current).1
  simp [Inserts.put, bound]

/-! ## A call that nothing interrupts -/

theorem leads_step {call : Inserting τ} {result : CidRemap τ × Metrics × Inserting τ}
    (leads : (inserts τ maxInFlight metrics).Leads (fun _ _ => True) s t)
    (current : t.calls[i]? = some call) (moved : call.step t.remap t.metrics = some result) :
    (inserts τ maxInFlight metrics).Leads (fun _ _ => True) s (t.put i result) ∧
      (t.put i result).calls[i]? = some result.2.2 := by
  refine ⟨leads.next (a := .insert i) trivial ?_, put_current current⟩
  simp [inserts, Inserts.step, current, moved]

/-- The steps of a call that nothing interrupts are the atomic `insert`. -/
theorem leads_insert {entry : RouteEntry τ} {cidU : Option Int32} {remap : CidRemap τ} {after : Metrics}
    (current : s.calls[i]? = some (.len entry))
    (inserted : s.remap.insert entry s.metrics = (cidU, remap, after)) :
    ∃ t, (inserts τ maxInFlight metrics).Leads (fun _ _ => True) s t ∧
      t.remap = remap ∧ t.metrics = after ∧ t.calls[i]? = some (.returned cidU) := by
  have started : (inserts τ maxInFlight metrics).Leads (fun _ _ => True) s s := .refl
  have check : Inserting.step s.remap s.metrics (.len entry) =
      some (s.remap, s.metrics, if s.remap.full then .returned none else .alloc entry) := rfl
  cases full : s.remap.full with
  | true =>
      simp only [insert, full, if_true, Prod.mk.injEq] at inserted check
      obtain ⟨rfl, rfl, rfl⟩ := inserted
      obtain ⟨checked, refused⟩ := leads_step started current check
      exact ⟨_, checked, rfl, rfl, refused⟩
  | false =>
      simp only [insert, full, Bool.false_eq_true, if_false, Prod.mk.injEq] at inserted check
      obtain ⟨rfl, rfl, rfl⟩ := inserted
      obtain ⟨checked, passed⟩ := leads_step started current check
      obtain ⟨allocated, allocating⟩ := leads_step checked passed rfl
      obtain ⟨stored, storing⟩ := leads_step allocated allocating rfl
      obtain ⟨counted, finished⟩ := leads_step stored storing rfl
      exact ⟨_, counted, rfl, rfl, finished⟩

/-! ## The limit -/

theorem size_store_le (r : CidRemap τ) (cidU : Int32) (entry : RouteEntry τ) :
    (r.store cidU entry).map.size ≤ r.map.size + 1 := by
  by_cases present : cidU ∈ r.map
  · rw [store, Table.size_insert_of_mem entry present]
    exact Nat.le_succ _
  · rw [store, Table.size_insert_of_notMem entry present]

theorem size_take_le (r : CidRemap τ) (cidU : Int32) (metrics : Metrics) :
    (r.take cidU metrics).2.1.map.size ≤ r.map.size := by
  rw [take_remap]
  by_cases present : cidU ∈ r.map
  · exact (Table.size_erase_of_mem present).symm ▸ Nat.le_succ _
  · rw [Table.erase_of_notMem present]

theorem size_failConn_le (r : CidRemap τ) (connId : ConnId) (metrics : Metrics) :
    (r.failConn connId metrics).2.1.map.size ≤ r.map.size := by
  rw [failConn_remap, ← r.size_retainOthers connId]
  exact Nat.le_add_right _ _

structure Inserts.Within (maxInFlight : Nat) (s : Inserts τ) : Prop where
  limit : s.remap.maxInFlight = maxInFlight
  bounded : s.remap.map.size + s.pending ≤ maxInFlight

theorem Inserts.Within.insert {call : Inserting τ} {result : CidRemap τ × Metrics × Inserting τ}
    (within : s.Within maxInFlight) (fits : s.Fits (.insert i)) (current : s.calls[i]? = some call)
    (moved : call.step s.remap s.metrics = some result) : (s.put i result).Within maxInFlight := by
  obtain ⟨limit, bounded⟩ := within
  have changed := total_set Inserting.pending current result.2.2
  cases call with
  | len entry =>
      cases moved
      refine ⟨limit, ?_⟩
      simp only [Inserts.Fits, current] at fits
      cases full : s.remap.full with
      | true =>
          simp only [Inserts.pending, put, full, if_true, Inserting.pending] at bounded changed ⊢
          omega
      | false =>
          have room := fits full
          simp only [Inserts.pending, put, full, Bool.false_eq_true, if_false, Inserting.pending] at room changed ⊢
          omega
  | alloc entry =>
      cases moved
      refine ⟨limit, ?_⟩
      simp only [Inserts.pending, put, Inserting.pending] at bounded changed ⊢
      omega
  | store entry cidU =>
      cases moved
      refine ⟨limit, ?_⟩
      have grown := size_store_le s.remap cidU entry
      simp only [Inserts.pending, put, Inserting.pending] at bounded changed ⊢
      omega
  | count cidU =>
      cases moved
      refine ⟨limit, ?_⟩
      simp only [Inserts.pending, put, Inserting.pending] at bounded changed ⊢
      omega
  | returned cidU => cases moved

theorem Inserts.Within.step {action : InsertsAction τ} (within : s.Within maxInFlight)
    (fits : s.Fits action) (taken : s.step action = some t) : t.Within maxInFlight := by
  cases action with
  | call entry =>
      cases taken
      refine ⟨within.limit, ?_⟩
      simpa [Inserts.pending, total_append, Inserting.pending] using within.bounded
  | insert i =>
      simp only [Inserts.step] at taken
      split at taken
      · rename_i call current
        obtain ⟨result, moved, rfl⟩ := Option.map_eq_some_iff.mp taken
        exact within.insert fits current moved
      · cases taken
  | take cidU =>
      cases taken
      have limit := congrArg CidRemap.maxInFlight (take_remap s.remap cidU s.metrics)
      have fewer := size_take_le s.remap cidU s.metrics
      exact ⟨limit.trans within.limit, (Nat.add_le_add_right fewer _).trans within.bounded⟩
  | failConn connId =>
      cases taken
      have fewer := size_failConn_le s.remap connId s.metrics
      exact ⟨within.limit, (Nat.add_le_add_right fewer _).trans within.bounded⟩

/-! ## A refused call -/

def Inserting.accepted : Inserting τ → Bool
  | .alloc _ | .store .. | .count _ | .returned (some _) => true
  | .len _ | .returned none => false

theorem accepted_step {call : Inserting τ} {result : CidRemap τ × Metrics × Inserting τ}
    {r : CidRemap τ} (accepted : call.accepted = true) (moved : call.step r metrics = some result) :
    result.2.2.accepted = true := by
  cases call <;> cases moved <;> first | rfl | cases accepted

theorem accepted_stays {action : InsertsAction τ} {call : Inserting τ}
    (current : s.calls[i]? = some call) (accepted : call.accepted = true)
    (taken : s.step action = some t) : ∃ next, t.calls[i]? = some next ∧ next.accepted = true := by
  cases action with
  | call entry =>
      cases taken
      refine ⟨call, ?_, accepted⟩
      rw [List.getElem?_append_left (List.getElem?_eq_some_iff.mp current).1]
      exact current
  | insert j =>
      simp only [Inserts.step] at taken
      split at taken
      · rename_i other there
        obtain ⟨result, moved, rfl⟩ := Option.map_eq_some_iff.mp taken
        by_cases same : j = i
        · subst same
          cases current.symm.trans there
          exact ⟨_, put_current current, accepted_step accepted moved⟩
        · refine ⟨call, ?_, accepted⟩
          rw [Inserts.put, List.getElem?_set_ne same]
          exact current
      · cases taken
  | take cidU =>
      cases taken
      exact ⟨call, current, accepted⟩
  | failConn connId =>
      cases taken
      exact ⟨call, current, accepted⟩

theorem accepted_leads {call : Inserting τ} (current : s.calls[i]? = some call)
    (accepted : call.accepted = true)
    (leads : (inserts τ maxInFlight metrics).Leads (fun _ _ => True) s t) :
    ∃ next, t.calls[i]? = some next ∧ next.accepted = true := by
  induction leads with
  | refl => exact ⟨call, current, accepted⟩
  | next _ _ taken ih =>
      obtain ⟨middle, there, already⟩ := ih
      exact accepted_stays there already taken

theorem refused_unchanged (taken : s.step (.insert i) = some t)
    (leads : (inserts τ maxInFlight metrics).Leads (fun _ _ => True) t u)
    (refused : u.calls[i]? = some (.returned none)) : t.remap = s.remap ∧ t.metrics = s.metrics := by
  simp only [Inserts.step] at taken
  split at taken
  · rename_i call current
    obtain ⟨result, moved, rfl⟩ := Option.map_eq_some_iff.mp taken
    cases call with
    | len entry =>
        cases moved
        exact ⟨rfl, rfl⟩
    | alloc entry | store entry cidU | count cidU =>
        cases moved
        obtain ⟨next, there, already⟩ := accepted_leads (put_current current) rfl leads
        cases refused.symm.trans there
        cases already
    | returned cidU => cases moved
  · cases taken

/-- The table stays within its limit as long as no call passes its check on room that an earlier one
is about to take. A call that returns `None` changes nothing in any of its steps. -/
theorem in_flight_le_max (reach : (inserts τ maxInFlight metrics).Reach Inserts.Fits s) :
    s.remap.inFlight ≤ maxInFlight ∧
      ∀ i t u, (inserts τ maxInFlight metrics).step s (.insert i) = some t →
        (inserts τ maxInFlight metrics).Leads (fun _ _ => True) t u →
        u.calls[i]? = some (.returned none) → t.remap = s.remap ∧ t.metrics = s.metrics := by
  have within : s.Within maxInFlight := by
    induction reach with
    | initial first =>
        rw [first]
        exact ⟨rfl, Nat.zero_le _⟩
    | next _ fits taken ih => exact ih.step fits taken
  refine ⟨(Nat.le_add_right _ _).trans within.bounded, fun i t u taken leads refused => ?_⟩
  exact refused_unchanged taken leads refused

theorem in_flight_le_max_one : ∃ s : Inserts Unit, s.remap.inFlight = 1 ∧ s.remap.inFlight ≤ 1 ∧
    ∀ i t u, (inserts Unit 1 (.new true)).step s (.insert i) = some t →
      (inserts Unit 1 (.new true)).Leads (fun _ _ => True) t u →
      u.calls[i]? = some (.returned none) → t.remap = s.remap ∧ t.metrics = s.metrics := by
  obtain ⟨s, reach, one⟩ := (inserts Unit 1 (.new true)).exists_reach Inserts.Fits
    ⟨withMaxInFlight 1, .new true, []⟩
    [.call ⟨(), 100, 3, 9, 1⟩, .call ⟨(), 200, 3, 9, 1⟩, .insert 0, .insert 0, .insert 0, .insert 1]
    (fun s => s.remap.inFlight = 1) rfl (by decide)
  exact ⟨s, one, in_flight_le_max reach⟩

theorem in_flight_exceeds : ¬ ∀ (maxInFlight : Nat) (s : Inserts Unit),
    (inserts Unit maxInFlight (.new true)).Reachable s → s.remap.inFlight ≤ maxInFlight ∧
      ∀ i t u, (inserts Unit maxInFlight (.new true)).step s (.insert i) = some t →
        (inserts Unit maxInFlight (.new true)).Leads (fun _ _ => True) t u →
        u.calls[i]? = some (.returned none) → t.remap = s.remap ∧ t.metrics = s.metrics := by
  intro claim
  obtain ⟨s, reach, two⟩ := (inserts Unit 1 (.new true)).exists_reach (fun _ _ => True)
    ⟨withMaxInFlight 1, .new true, []⟩
    [.call ⟨(), 100, 3, 9, 1⟩, .call ⟨(), 200, 3, 9, 1⟩, .insert 0, .insert 1, .insert 0, .insert 0,
      .insert 1, .insert 1]
    (fun s => s.remap.inFlight = 2) rfl (by decide)
  have bounded := (claim 1 s reach).1
  rw [two] at bounded
  exact absurd bounded (by decide)

end KafkaProxy.CidRemap
