import Mathlib.Data.List.AList
import Mathlib.Data.List.Induction

/-!
# Tables

A concurrent hash map seen through its atomic operations: an association list without repeated
keys. Mathlib's `AList` has insertion, removal and lookup. This adds the size and `retain`.
-/

namespace KafkaProxy.Library

abbrev Table (κ ν : Type) := AList fun _ : κ => ν

namespace Table

variable {κ ν : Type}

def size (t : Table κ ν) : Nat := t.entries.length

def retain (keep : κ → ν → Bool) (t : Table κ ν) : Table κ ν :=
  ⟨t.entries.filter fun e => keep e.1 e.2, t.nodupKeys.sublist List.filter_sublist⟩

def count (test : κ → ν → Bool) (t : Table κ ν) : Nat := t.entries.countP fun e => test e.1 e.2

theorem size_eq_keys (t : Table κ ν) : t.size = t.keys.length := by
  simp [size, AList.keys, List.keys]

@[simp] theorem size_empty : size (∅ : Table κ ν) = 0 := rfl

theorem size_retain (keep : κ → ν → Bool) (t : Table κ ν) :
    size (t.retain keep) + t.count (fun k v => !keep k v) = t.size := by
  have split := List.length_eq_countP_add_countP (fun e : (_ : κ) × ν => keep e.1 e.2)
    (l := t.entries)
  simp only [size, retain, count, ← List.countP_eq_length_filter]
  simpa using split.symm

theorem perm_retain (keep : κ → ν → Bool) (t : Table κ ν) :
    t.entries.Perm (t.entries.filter (fun e => !keep e.1 e.2) ++ (t.retain keep).entries) := by
  have split := List.filter_append_perm (fun e : (_ : κ) × ν => keep e.1 e.2) t.entries
  exact split.symm.trans List.perm_append_comm

variable [DecidableEq κ]

theorem size_insert_of_notMem {t : Table κ ν} {k : κ} (v : ν) (fresh : k ∉ t) :
    size (t.insert k v) = t.size + 1 := by
  rw [size_eq_keys, size_eq_keys, AList.keys_insert, List.length_cons,
    List.erase_of_not_mem (by rwa [← AList.mem_keys])]

theorem size_insert_of_mem {t : Table κ ν} {k : κ} (v : ν) (present : k ∈ t) :
    size (t.insert k v) = t.size := by
  have positive := List.length_pos_of_mem (AList.mem_keys.mp present)
  rw [size_eq_keys, size_eq_keys, AList.keys_insert, List.length_cons,
    List.length_erase_of_mem (AList.mem_keys.mp present)]
  omega

theorem size_erase_of_mem {t : Table κ ν} {k : κ} (present : k ∈ t) :
    size (t.erase k) + 1 = t.size := by
  have positive := List.length_pos_of_mem (AList.mem_keys.mp present)
  rw [size_eq_keys, size_eq_keys, AList.keys_erase,
    List.length_erase_of_mem (AList.mem_keys.mp present)]
  omega

theorem lookup_singleton (k : κ) (v : ν) : (AList.singleton k v : Table κ ν).lookup k = some v :=
  AList.lookup_insert (∅ : Table κ ν)

theorem erase_singleton (k : κ) (v : ν) : (AList.singleton k v : Table κ ν).erase k = ∅ := by
  apply AList.ext
  exact List.kerase_cons_eq rfl

theorem erase_of_notMem {t : Table κ ν} {k : κ} (absent : k ∉ t) : t.erase k = t := by
  apply AList.ext
  exact List.kerase_of_notMem_keys (by rwa [← AList.keys, ← AList.mem_keys])

theorem mem_of_lookup {t : Table κ ν} {k : κ} {v : ν} (found : t.lookup k = some v) : k ∈ t := by
  rw [← AList.lookup_isSome, found]
  rfl

theorem size_eq_zero {t : Table κ ν} : t.size = 0 ↔ ∀ k, t.lookup k = none := by
  rw [size_eq_keys, List.length_eq_zero_iff, List.eq_nil_iff_forall_not_mem]
  apply forall_congr'
  intro k
  rw [AList.lookup_eq_none, AList.mem_keys]

theorem lookup_retain_eq_some {keep : κ → ν → Bool} {t : Table κ ν} {k : κ} {v : ν} :
    (t.retain keep).lookup k = some v ↔ t.lookup k = some v ∧ keep k v := by
  rw [← Option.mem_def, ← Option.mem_def, AList.mem_lookup_iff, AList.mem_lookup_iff]
  simp [retain]

theorem lookup_insert_eq_some {t : Table κ ν} {k l : κ} {v w : ν} :
    (t.insert k v).lookup l = some w ↔ l = k ∧ v = w ∨ l ≠ k ∧ t.lookup l = some w := by
  by_cases same : l = k
  · subst same
    simp [AList.lookup_insert]
  · simp [AList.lookup_insert_ne same, same]

theorem lookup_erase_eq_some {t : Table κ ν} {k l : κ} {w : ν} :
    (t.erase k).lookup l = some w ↔ l ≠ k ∧ t.lookup l = some w := by
  by_cases same : l = k
  · subst same
    simp [AList.lookup_erase]
  · simp [AList.lookup_erase_ne same, same]

theorem perm_erase {t : Table κ ν} {k : κ} {v : ν} (found : t.lookup k = some v) :
    t.entries.Perm (⟨k, v⟩ :: (t.erase k).entries) := by
  obtain ⟨w, before, later, _, split, erased⟩ := List.exists_of_kerase (AList.mem_keys.mp (mem_of_lookup found))
  have same : w = v := by
    have member : (⟨k, w⟩ : (_ : κ) × ν) ∈ t.entries := by simp [split]
    rw [← AList.mem_lookup_iff, Option.mem_def, found, Option.some.injEq] at member
    exact member.symm
  have rest : (t.erase k).entries = before ++ later := erased
  rw [rest, split, same]
  exact List.perm_middle

def insertAll (entries : List (κ × ν)) (t : Table κ ν) : Table κ ν :=
  entries.foldl (fun t e => t.insert e.1 e.2) t

theorem lookup_insertAll (entries : List (κ × ν)) (k : κ) :
    (insertAll entries ∅).lookup k = (entries.reverse.find? (·.1 = k)).map (·.2) := by
  induction entries using List.reverseRecOn with
  | nil => rfl
  | append_singleton entries last ih =>
      rw [insertAll] at ih ⊢
      rw [List.foldl_concat, List.reverse_concat, List.find?_cons]
      by_cases same : last.1 = k
      · subst same
        simp [AList.lookup_insert]
      · rw [AList.lookup_insert_ne (Ne.symm same), ih]
        simp [same]

theorem lookup_insertAll_eq_none {entries : List (κ × ν)} {k : κ} :
    (insertAll entries ∅).lookup k = none ↔ ∀ e ∈ entries, e.1 ≠ k := by
  simp [lookup_insertAll, List.find?_eq_none]

theorem lookup_insertAll_eq_some {entries : List (κ × ν)} {k : κ} {v : ν} :
    (insertAll entries ∅).lookup k = some v ↔
      ∃ earlier later, entries = earlier ++ (k, v) :: later ∧ ∀ e ∈ later, e.1 ≠ k := by
  rw [lookup_insertAll, Option.map_eq_some_iff]
  constructor
  · rintro ⟨⟨l, w⟩, found, rfl⟩
    obtain ⟨hit, later, earlier, split, missed⟩ := List.find?_eq_some_iff_append.mp found
    rw [decide_eq_true_eq] at hit
    subst hit
    refine ⟨earlier.reverse, later.reverse, ?_, ?_⟩
    · rw [← List.reverse_reverse entries, split]
      simp
    · simpa using missed
  · rintro ⟨earlier, later, rfl, missed⟩
    refine ⟨(k, v), List.find?_eq_some_iff_append.mpr ⟨by simp, later.reverse, earlier.reverse, ?_, ?_⟩,
      rfl⟩
    · simp
    · simpa using missed

theorem lookup_insertAll_eq_some_iff_last {entries : List (κ × ν)} {k : κ} {v : ν} :
    (insertAll entries ∅).lookup k = some v ↔ ∃ i, entries[i]? = some (k, v) ∧
      ∀ (j : Nat) e, i < j → entries[j]? = some e → e.1 ≠ k := by
  rw [lookup_insertAll_eq_some]
  constructor
  · rintro ⟨earlier, later, rfl, missed⟩
    refine ⟨earlier.length, by simp, fun j e after there => missed e ?_⟩
    rw [List.getElem?_append_right (Nat.le_of_lt after), List.getElem?_cons,
      if_neg (Nat.sub_ne_zero_of_lt after)] at there
    exact List.mem_of_getElem? there
  · rintro ⟨i, here, missed⟩
    obtain ⟨within, same⟩ := List.getElem?_eq_some_iff.mp here
    refine ⟨entries.take i, entries.drop (i + 1), ?_, fun e member => ?_⟩
    · rw [← same, List.getElem_cons_drop, List.take_append_drop]
    · obtain ⟨j, there⟩ := List.mem_iff_getElem?.mp member
      rw [List.getElem?_drop] at there
      exact missed _ e (by omega) there

end Table
end KafkaProxy.Library
