import KafkaProxy.Library.System
import KafkaProxy.Remap.Basic

/-!
# The count that `fail_conn` returns

`fail_conn` reads the size of the table, drops the entries of its connection, and reads the size
again. The table belongs to all connections, so calls of other tasks land between the two reads.
-/

namespace KafkaProxy.CidRemap
open Library

/-- Where `fail_conn` stands. `removed` is history: how many entries `retain` has dropped. -/
inductive Failing where
  | start
  | counted (before : Nat)
  | retained (before removed : Nat)
  | returned (before after removed : Nat)
  deriving DecidableEq

inductive FailCall (τ : Type) where
  | len
  | retain
  | subtract
  | insert (entry : RouteEntry τ)
  | take (cidU : Int32)

/-- `added` and `taken` are history: the entries that the other tasks have added to the table and
taken out of it between the two reads. -/
structure Shared (τ : Type) where
  remap : CidRemap τ
  metrics : Metrics
  call : Failing
  added : Nat
  taken : Nat

def Failing.between : Failing → Bool
  | .counted _ | .retained .. => true
  | .start | .returned .. => false

variable {τ : Type}

def Shared.step (connId : ConnId) (s : Shared τ) : FailCall τ → Option (Shared τ)
  | .len =>
      match s.call with
      | .start => some { s with call := .counted s.remap.map.size, added := 0, taken := 0 }
      | _ => none
  | .retain =>
      match s.call with
      | .counted before =>
          some { s with
            remap := s.remap.retainOthers connId
            call := .retained before (s.remap.entriesOf connId) }
      | _ => none
  | .subtract =>
      match s.call with
      | .retained before removed =>
          some { s with
            metrics := s.metrics.subCidMapEntries (usizeSub before s.remap.map.size)
            call := .returned before s.remap.map.size removed }
      | _ => none
  | .insert entry =>
      if entry.connId = connId then none
      else
        let (cidU, remap, metrics) := s.remap.insert entry s.metrics
        -- An id that is in the table already replaces an entry and adds none.
        let grows := s.call.between && (cidU.map fun cid => (s.remap.map.lookup cid).isNone) == some true
        some { s with remap, metrics, added := s.added + grows.toNat }
  | .take cidU =>
      match s.remap.map.lookup cidU with
      | some entry =>
          if entry.connId = connId then none
          else
            let (_, remap, metrics) := s.remap.take cidU s.metrics
            some { s with remap, metrics, taken := s.taken + s.call.between.toNat }
      | none => some s

def failConnCalls (τ : Type) (connId : ConnId) : System (Shared τ) (FailCall τ) where
  initial s := s.call = .start
  step := Shared.step connId

def Shared.Balanced (s : Shared τ) : Prop :=
  match s.call with
  | .start => True
  | .counted before => before + s.added = s.remap.map.size + s.taken
  | .retained before removed => before + s.added = s.remap.map.size + removed + s.taken
  | .returned before after removed => before + s.added = after + removed + s.taken

theorem size_insert {r remap : CidRemap τ} {entry : RouteEntry τ} {metrics after : Metrics}
    {cidU : Option Int32} (inserted : r.insert entry metrics = (cidU, remap, after)) :
    remap.map.size = r.map.size +
      ((cidU.map fun cid => (r.map.lookup cid).isNone) == some true).toNat := by
  unfold insert at inserted
  split at inserted
  · simp only [Prod.mk.injEq] at inserted
    obtain ⟨rfl, rfl, _⟩ := inserted
    simp
  · simp only [allocCidU, store, Prod.mk.injEq] at inserted
    obtain ⟨rfl, rfl, _⟩ := inserted
    by_cases present : cidAfter r.nextCid ∈ r.map
    · rw [Table.size_insert_of_mem entry present]
      obtain ⟨old, found⟩ := Option.isSome_iff_exists.mp (AList.lookup_isSome.mpr present)
      simp [found]
    · rw [Table.size_insert_of_notMem entry present]
      simp [AList.lookup_eq_none.mpr present]

theorem size_take {r remap : CidRemap τ} {cidU : Int32} {entry : RouteEntry τ}
    {taken : Option (RouteEntry τ)} {metrics after : Metrics}
    (present : r.map.lookup cidU = some entry) (took : r.take cidU metrics = (taken, remap, after)) :
    remap.map.size + 1 = r.map.size := by
  simp only [take, present, Prod.mk.injEq] at took
  obtain ⟨_, rfl, _⟩ := took
  exact Table.size_erase_of_mem (Table.mem_of_lookup present)

theorem Shared.Balanced.step {connId : ConnId} {s t : Shared τ} {call : FailCall τ}
    (balanced : s.Balanced) (action : s.step connId call = some t) : t.Balanced := by
  cases call with
  | len =>
      cases stage : s.call <;> simp only [Shared.step, stage, reduceCtorEq, Option.some.injEq] at action
      subst action
      simp [Shared.Balanced]
  | retain =>
      cases stage : s.call <;> simp only [Shared.step, stage, reduceCtorEq, Option.some.injEq] at action
      subst action
      have dropped := s.remap.size_retainOthers connId
      simp only [Shared.Balanced, stage] at balanced ⊢
      omega
  | subtract =>
      cases stage : s.call <;> simp only [Shared.step, stage, reduceCtorEq, Option.some.injEq] at action
      subst action
      simpa only [Shared.Balanced, stage] using balanced
  | insert entry =>
      simp only [Shared.step] at action
      split at action
      · cases action
      · rcases called : s.remap.insert entry s.metrics with ⟨cidU, remap, metrics⟩
        simp only [called, Option.some.injEq] at action
        subst action
        have grown := size_insert called
        cases stage : s.call <;> simp_all [Shared.Balanced, Failing.between] <;> omega
  | take cidU =>
      simp only [Shared.step] at action
      split at action
      · rename_i entry present
        split at action
        · cases action
        · rcases called : s.remap.take cidU s.metrics with ⟨taken, remap, metrics⟩
          simp only [called, Option.some.injEq] at action
          subst action
          have shrunk := size_take present called
          cases stage : s.call <;> simp_all [Shared.Balanced, Failing.between] <;> omega
      · simp only [Option.some.injEq] at action
        exact action ▸ balanced

/-- The returned number is that of the dropped entries exactly if the other tasks have added as
many entries between the two reads as they have taken. -/
theorem failConn_counts_iff {connId : ConnId} {s : Shared τ}
    (reachable : (failConnCalls τ connId).Reachable s) {before after removed : Nat}
    (finished : s.call = .returned before after removed) :
    after ≤ before ∧ usizeSub before after = removed ↔ s.added = s.taken := by
  have balanced : s.Balanced := by
    refine System.Reach.invariant (fun _ => True) _ (fun _ _ => trivial) ?_ ?_ reachable
    · intro first stage
      simp only [failConnCalls] at stage
      simp [Shared.Balanced, stage]
    · intro first call last _ ih _ action
      exact ih.step action
  simp only [Shared.Balanced, finished] at balanced
  unfold usizeSub
  constructor
  · rintro ⟨noUnderflow, counted⟩
    rw [if_pos noUnderflow] at counted
    omega
  · intro even
    have noUnderflow : after ≤ before := by omega
    rw [if_pos noUnderflow]
    omega

def twoOfThree : CidRemap Unit :=
  { map := AList.insert 3 ⟨(), 30, 3, 9, 2⟩ (AList.insert 2 ⟨(), 20, 3, 9, 1⟩
      (AList.insert 1 ⟨(), 10, 3, 9, 1⟩ ∅))
    nextCid := 3, nextConnId := 3, maxInFlight := 8 }

theorem failConn_counts_busy : ∃ s : Shared Unit, s.call = .returned 3 1 2 ∧
    (1 ≤ 3 ∧ usizeSub 3 1 = 2 ↔ s.added = s.taken) := by
  obtain ⟨s, reachable, finished⟩ := (failConnCalls Unit 1).exists_reach (fun _ _ => True)
    ⟨twoOfThree, .new true, .start, 0, 0⟩ [.len, .insert ⟨(), 40, 3, 9, 2⟩, .retain, .take 3, .subtract]
    (fun s => s.call = .returned 3 1 2) rfl (by decide +kernel)
  exact ⟨s, finished, failConn_counts_iff reachable finished⟩

/-- Another connection registers a request between the two reads: the subtraction underflows. -/
theorem failConn_underflows :
    ¬ ∀ s : Shared Unit, (failConnCalls Unit 1).Reachable s →
      ∀ before after removed, s.call = .returned before after removed →
        after ≤ before ∧ usizeSub before after = removed := by
  intro claim
  obtain ⟨s, reachable, finished⟩ := (failConnCalls Unit 1).exists_reach (fun _ _ => True)
    ⟨withMaxInFlight 2, .new true, .start, 0, 0⟩
    [.len, .insert ⟨(), 100, 3, 9, 2⟩, .retain, .subtract]
    (fun s => s.call = .returned 0 1 0) rfl (by decide)
  have := claim s reachable 0 1 0 finished
  omega

end KafkaProxy.CidRemap
