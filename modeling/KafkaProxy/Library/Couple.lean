import KafkaProxy.Library.System

/-!
# Two systems that take some steps together

An action of the joint system says what each side does, in the states of both. Either side may do
nothing, and an action may be impossible.
-/

namespace KafkaProxy.Library.System

variable {σ τ α β γ : Type}

def stepOr (S : System σ α) (s : σ) : Option α → Option σ
  | none => some s
  | some a => S.step s a

def couple (A : System σ α) (B : System τ β) (parts : σ × τ → γ → Option (Option α × Option β)) :
    System (σ × τ) γ where
  initial s := A.initial s.1 ∧ B.initial s.2
  step s c := (parts s c).bind fun part =>
    (A.stepOr s.1 part.1).bind fun left => (B.stepOr s.2 part.2).map fun right => (left, right)

variable {A : System σ α} {B : System τ β} {parts : σ × τ → γ → Option (Option α × Option β)}
  {allowed : σ × τ → γ → Prop}

theorem couple_step {s t : σ × τ} {c : γ} (taken : (couple A B parts).step s c = some t) :
    ∃ part, parts s c = some part ∧ A.stepOr s.1 part.1 = some t.1 ∧
      B.stepOr s.2 part.2 = some t.2 := by
  obtain ⟨part, possible, rest⟩ := Option.bind_eq_some_iff.mp taken
  obtain ⟨left, first, rest⟩ := Option.bind_eq_some_iff.mp rest
  obtain ⟨right, second, rfl⟩ := Option.map_eq_some_iff.mp rest
  exact ⟨part, possible, first, second⟩

theorem Reach.left {weaker : σ → α → Prop}
    (permit : ∀ s c a b, allowed s c → parts s c = some (some a, b) → weaker s.1 a) {s : σ × τ}
    (reach : (couple A B parts).Reach allowed s) : A.Reach weaker s.1 := by
  induction reach with
  | initial first => exact .initial first.1
  | @next before after action _ permitted taken ih =>
      obtain ⟨⟨a, b⟩, possible, moved, _⟩ := couple_step taken
      cases a with
      | none =>
          rw [← Option.some.inj moved]
          exact ih
      | some a => exact .next ih (permit _ _ a b permitted possible) moved

theorem Reach.right {weaker : τ → β → Prop}
    (permit : ∀ s c a b, allowed s c → parts s c = some (a, some b) → weaker s.2 b) {s : σ × τ}
    (reach : (couple A B parts).Reach allowed s) : B.Reach weaker s.2 := by
  induction reach with
  | initial first => exact .initial first.2
  | @next before after action _ permitted taken ih =>
      obtain ⟨⟨a, b⟩, possible, _, moved⟩ := couple_step taken
      cases b with
      | none =>
          rw [← Option.some.inj moved]
          exact ih
      | some b => exact .next ih (permit _ _ a b permitted possible) moved

end KafkaProxy.Library.System
