import KafkaProxy.Library.Couple
import KafkaProxy.Library.Watch

/-!
# Any number of systems of one kind

The members move one at a time or all together, and a new one may join at the end.
-/

namespace KafkaProxy.Library

inductive MembersAction (α : Type) where
  | one (b : Nat) (action : α)
  | all (action : α)
  | join
  deriving DecidableEq, Repr

namespace System

variable {σ τ α β γ ρ : Type}

def members (A : System σ α) (fresh : σ) : System (List σ) (MembersAction α) where
  initial l := l = []
  step l
    | .one b action => l[b]?.bind fun s => (A.step s action).map (l.set b)
    | .all action => l.mapM fun s => A.step s action
    | .join => some (l ++ [fresh])

variable {A : System σ α} {fresh : σ} {l l' : List σ} {allowed : List σ → MembersAction α → Prop}

theorem members_one {b : Nat} {action : α} (taken : (members A fresh).step l (.one b action) = some l') :
    ∃ s t, l[b]? = some s ∧ A.step s action = some t ∧ l' = l.set b t := by
  obtain ⟨s, there, rest⟩ := Option.bind_eq_some_iff.mp taken
  obtain ⟨t, moved, rfl⟩ := Option.map_eq_some_iff.mp rest
  exact ⟨s, t, there, moved, rfl⟩

theorem members_all {action : α} (taken : (members A fresh).step l (.all action) = some l') (b : Nat) :
    l'[b]? = l[b]?.bind fun s => A.step s action := by
  replace taken : l.mapM (fun s => A.step s action) = some l' := taken
  induction l generalizing l' b with
  | nil =>
      cases taken
      rfl
  | cons s rest ih =>
      rw [List.mapM_cons] at taken
      obtain ⟨t, moved, taken⟩ := Option.bind_eq_some_iff.mp taken
      obtain ⟨later, others, same⟩ := Option.bind_eq_some_iff.mp taken
      cases same
      cases b with
      | zero => exact moved.symm
      | succ b => exact ih b others

theorem members_join (taken : (members A fresh).step l .join = some l') : l' = l ++ [fresh] :=
  (Option.some.inj taken).symm

theorem Reach.member (first : A.initial fresh) (reach : (members A fresh).Reach allowed l) {b : Nat} {s : σ}
    (there : l[b]? = some s) : A.Reachable s := by
  induction reach generalizing b s with
  | initial none =>
      rw [none] at there
      cases there
  | @next before after action _ _ taken ih =>
      cases action with
      | one c action =>
          obtain ⟨u, t, known, moved, rfl⟩ := members_one taken
          rw [List.getElem?_set] at there
          split at there
          · split at there
            · cases there
              exact (ih known).next moved
            · cases there
          · exact ih there
      | all action =>
          rw [members_all taken] at there
          obtain ⟨u, known, moved⟩ := Option.bind_eq_some_iff.mp there
          exact (ih known).next moved
      | join =>
          rw [members_join taken] at there
          rcases Nat.lt_or_ge b before.length with old | new
          · rw [List.getElem?_append_left old] at there
            exact ih there
          · rw [List.getElem?_append_right new] at there
            rw [List.mem_singleton.mp (List.mem_of_getElem? there)]
            exact .initial first

/-! ## A record of what one side does -/

variable {C : System σ α} {B : System τ β} {parts : σ × τ → γ → Option (Option α × Option β)} {start : ρ}
  {note : τ → β → ρ → ρ}

def noteRight (parts : σ × τ → γ → Option (Option α × Option β)) (note : τ → β → ρ → ρ) (s : σ × τ)
    (action : γ) (record : ρ) : ρ :=
  match parts s action with
  | some (_, some b) => note s.2 b record
  | some (_, none) | none => record

theorem Reach.right_watched {s : (σ × τ) × ρ}
    (reach : ((couple C B parts).watch start (noteRight parts note)).Reachable s) :
    (B.watch start note).Reachable (s.1.2, s.2) := by
  induction reach with
  | initial first => exact .initial ⟨first.1.2, first.2⟩
  | @next before after action _ _ taken ih =>
      obtain ⟨moved, noted⟩ := watch_step.mp taken
      obtain ⟨⟨a, b⟩, possible, _, right⟩ := couple_step moved
      simp only [noteRight, possible] at noted
      cases b with
      | none =>
          rw [← Option.some.inj right, noted]
          exact ih
      | some b => exact ih.next (watch_step.mpr ⟨right, noted⟩)

end System
end KafkaProxy.Library
