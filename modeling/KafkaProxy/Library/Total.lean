import Mathlib.Data.List.Basic

/-!
# Totals over a list of tasks

A step changes one task, so it changes a total by the difference of that task's share.
-/

namespace KafkaProxy.Library

variable {τ ω : Type}

def total (share : τ → Nat) : List τ → Nat
  | [] => 0
  | task :: tasks => share task + total share tasks

variable {share : τ → Nat} {tasks : List τ} {i : Nat} {before after : τ}

@[simp] theorem total_nil : total share ([] : List τ) = 0 := rfl

@[simp] theorem total_cons (task : τ) : total share (task :: tasks) = share task + total share tasks :=
  rfl

theorem total_append (more : List τ) :
    total share (tasks ++ more) = total share tasks + total share more := by
  induction tasks with
  | nil => rw [List.nil_append, total_nil, Nat.zero_add]
  | cons task tasks ih => rw [List.cons_append, total_cons, total_cons, ih, Nat.add_assoc]

theorem total_set (share : τ → Nat) (current : tasks[i]? = some before) (after : τ) :
    total share (tasks.set i after) + share before = total share tasks + share after := by
  induction tasks generalizing i with
  | nil => simp at current
  | cons task tasks ih =>
      cases i with
      | zero =>
          simp only [List.getElem?_cons_zero, Option.some.injEq] at current
          subst current
          simp only [List.set_cons_zero, total_cons]
          omega
      | succ i =>
          have rest := ih (by simpa using current)
          simp only [List.set_cons_succ, total_cons]
          omega

theorem total_set_eq (current : tasks[i]? = some before) (same : share after = share before) :
    total share (tasks.set i after) = total share tasks := by
  have changed := total_set share current after
  omega

theorem share_le_total (share : τ → Nat) (member : before ∈ tasks) : share before ≤ total share tasks := by
  induction tasks with
  | nil => cases member
  | cons task tasks ih =>
      rw [total_cons]
      rcases List.mem_cons.mp member with rfl | later
      · omega
      · exact Nat.le_trans (ih later) (Nat.le_add_left _ _)

theorem total_eq_zero (none : ∀ task ∈ tasks, share task = 0) : total share tasks = 0 := by
  induction tasks with
  | nil => rfl
  | cons task tasks ih =>
      rw [total_cons, none task List.mem_cons_self,
        ih fun other member => none other (List.mem_cons_of_mem _ member)]

theorem total_le_total {other : τ → Nat} (within : ∀ task ∈ tasks, share task ≤ other task) :
    total share tasks ≤ total other tasks := by
  induction tasks with
  | nil => exact Nat.le_refl _
  | cons task tasks ih =>
      rw [total_cons, total_cons]
      apply Nat.add_le_add (within task List.mem_cons_self)
      exact ih fun other member => within other (List.mem_cons_of_mem _ member)

theorem total_congr {other : τ → Nat} (same : ∀ task ∈ tasks, share task = other task) :
    total share tasks = total other tasks := by
  apply Nat.le_antisymm
  · exact total_le_total fun task member => Nat.le_of_eq (same task member)
  · exact total_le_total fun task member => Nat.le_of_eq (same task member).symm

theorem total_const (bound : Nat) (tasks : List τ) :
    total (fun _ => bound) tasks = bound * tasks.length := by
  induction tasks with
  | nil => rfl
  | cons task tasks ih => rw [total_cons, ih, List.length_cons, Nat.mul_succ, Nat.add_comm]

theorem total_countP_le {κ : Type} [DecidableEq κ] {key : τ → κ} (nodup : (tasks.map key).Nodup)
    (group : ω → κ) (values : List ω) :
    total (fun task => values.countP (group · = key task)) tasks ≤ values.length := by
  induction tasks generalizing values with
  | nil => exact Nat.zero_le _
  | cons task tasks ih =>
      rw [List.map_cons, List.nodup_cons] at nodup
      have rest := ih nodup.2 (values.filter fun value => ¬ group value = key task)
      have same : total (fun other => (values.filter fun value => ¬ group value = key task).countP
          (group · = key other)) tasks =
            total (fun other => values.countP (group · = key other)) tasks := by
        apply total_congr
        intro other member
        rw [List.countP_filter]
        apply List.countP_congr
        intro value _
        have apart : key other ≠ key task := fun same => nodup.1 (same ▸ List.mem_map_of_mem member)
        grind
      have split : values.length = _ :=
        List.length_eq_countP_add_countP fun value => decide (group value = key task)
      rw [same, ← List.countP_eq_length_filter] at rest
      simp only [total_cons, decide_not, Bool.decide_eq_true] at rest split ⊢
      omega

theorem total_filter_le (share : τ → Nat) (keep : τ → Bool) (tasks : List τ) :
    total share (tasks.filter keep) ≤ total share tasks := by
  induction tasks with
  | nil => exact Nat.le_refl _
  | cons task tasks ih =>
      rw [List.filter_cons]
      split
      · exact Nat.add_le_add_left ih _
      · exact Nat.le_trans ih (Nat.le_add_left _ _)

theorem total_toNat (test : τ → Bool) (tasks : List τ) :
    total (fun task => (test task).toNat) tasks = tasks.countP test := by
  induction tasks with
  | nil => rfl
  | cons task tasks ih =>
      rw [total_cons, ih, List.countP_cons]
      cases test task <;> simp [Nat.add_comm]

theorem length_filterMap (holds : τ → Option ω) (tasks : List τ) :
    (tasks.filterMap holds).length = total (fun task => (holds task).toList.length) tasks := by
  induction tasks with
  | nil => rfl
  | cons task tasks ih =>
      rw [total_cons, ← ih, List.filterMap_cons]
      cases holds task <;> simp [Nat.add_comm]

theorem length_filterMap_add_countP_le (share : τ → Nat) (tasks : List τ) (holds : τ → Option ω)
    (waits : τ → Bool) (within : ∀ task, (holds task).toList.length + (waits task).toNat ≤ share task) :
    (tasks.filterMap holds).length + tasks.countP waits ≤ total share tasks := by
  induction tasks with
  | nil => simp
  | cons task tasks ih =>
      have here := within task
      rw [total_cons, List.countP_cons, List.filterMap_cons]
      cases held : holds task <;> cases waiting : waits task <;> simp_all <;> omega

theorem eq_of_nodup_filterMap {holds : τ → Option ω} (nodup : (tasks.filterMap holds).Nodup) {j : Nat} {held : ω}
    (here : tasks[i]? = some before) (there : tasks[j]? = some after) (first : holds before = some held)
    (second : holds after = some held) : i = j := by
  have apart := List.pairwise_iff_getElem.mp (List.pairwise_filterMap.mp nodup)
  obtain ⟨hi, rfl⟩ := List.getElem?_eq_some_iff.mp here
  obtain ⟨hj, rfl⟩ := List.getElem?_eq_some_iff.mp there
  rcases Nat.lt_trichotomy i j with earlier | equal | later
  · exact absurd rfl (apart i j hi hj earlier held first held second)
  · exact equal
  · exact absurd rfl (apart j i hj hi later held second held first)

/-! ## Shares that depend on the position -/

def totalAt (share : Nat → τ → Nat) (tasks : List τ) : Nat := total id (tasks.mapIdx share)

variable {shareAt changed : Nat → τ → Nat}

theorem totalAt_set (current : tasks[i]? = some before) (after : τ)
    (others : ∀ j, j ≠ i → ∀ task, changed j task = shareAt j task) :
    totalAt changed (tasks.set i after) + shareAt i before =
      totalAt shareAt tasks + changed i after := by
  have same : (tasks.set i after).mapIdx changed = (tasks.mapIdx shareAt).set i (changed i after) := by
    apply List.ext_getElem?
    intro j
    simp only [List.getElem?_mapIdx, List.getElem?_set, List.length_mapIdx]
    split
    · rename_i here
      subst here
      split <;> rfl
    · rename_i apart
      cases tasks[j]? with
      | none => rfl
      | some task => exact congrArg some (others j (Ne.symm apart) task)
  have place : (tasks.mapIdx shareAt)[i]? = some (shareAt i before) := by
    rw [List.getElem?_mapIdx, current, Option.map_some]
  rw [totalAt, totalAt, same]
  exact total_set id place (changed i after)

theorem totalAt_concat (last : τ) :
    totalAt shareAt (tasks ++ [last]) = totalAt shareAt tasks + shareAt tasks.length last := by
  simp [totalAt, List.mapIdx_append, total_append]

theorem exists_of_totalAt_pos (positive : 0 < totalAt shareAt tasks) :
    ∃ j task, tasks[j]? = some task ∧ 0 < shareAt j task := by
  by_contra none
  have nothing : totalAt shareAt tasks = 0 := by
    apply total_eq_zero
    intro n member
    obtain ⟨j, bound, same⟩ := List.mem_mapIdx.mp member
    by_contra some
    refine none ⟨j, tasks[j], List.getElem?_eq_getElem bound, ?_⟩
    rw [same]
    exact Nat.pos_of_ne_zero some
  omega

end KafkaProxy.Library
