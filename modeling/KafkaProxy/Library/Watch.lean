import KafkaProxy.Library.System

/-!
# A record beside the state

What a claim about runs says of earlier steps is kept in a record. No step depends on it.
-/

namespace KafkaProxy.Library.System

variable {σ τ α : Type}

def watch (S : System σ α) (start : τ) (note : σ → α → τ → τ) : System (σ × τ) α where
  initial s := S.initial s.1 ∧ s.2 = start
  step s a := (S.step s.1 a).map fun t => (t, note s.1 a s.2)

variable {S : System σ α} {start : τ} {note : σ → α → τ → τ}

theorem watch_step {s t : σ × τ} {a : α} :
    (S.watch start note).step s a = some t ↔ S.step s.1 a = some t.1 ∧ t.2 = note s.1 a s.2 := by
  obtain ⟨t, record⟩ := t
  simp only [watch, Option.map_eq_some_iff, Prod.mk.injEq]
  constructor
  · rintro ⟨_, taken, rfl, rfl⟩
    exact ⟨taken, rfl⟩
  · rintro ⟨taken, rfl⟩
    exact ⟨t, taken, rfl, rfl⟩

theorem Reach.unwatched {allowed : σ → α → Prop} {s : σ × τ}
    (reach : (S.watch start note).Reach (fun s a => allowed s.1 a) s) : S.Reach allowed s.1 := by
  induction reach with
  | initial first => exact .initial first.1
  | next _ permitted taken ih => exact .next ih permitted (watch_step.mp taken).1

theorem Reach.watched {allowed : σ → α → Prop} {s : σ} (reach : S.Reach allowed s) :
    ∃ record, (S.watch start note).Reach (fun s a => allowed s.1 a) (s, record) := by
  induction reach with
  | initial first => exact ⟨start, .initial ⟨first, rfl⟩⟩
  | next _ permitted taken ih =>
      obtain ⟨record, reach⟩ := ih
      exact ⟨_, .next reach permitted (watch_step.mpr ⟨taken, rfl⟩)⟩

end KafkaProxy.Library.System
