import Mathlib.Data.Option.Basic

/-!
# Systems of tasks

A system is a state shared by any number of tasks and a partial function that takes one action of
one of them. Runs are interleavings by construction: the next action is any one that is enabled.
`Reach` restricts the runs to those whose steps meet a condition, so that the assumptions of a
claim about runs are stated once, on steps.
-/

namespace KafkaProxy.Library

/-- `step s a` is `none` where the action `a` is not enabled in `s`. -/
structure System (σ α : Type) where
  initial : σ → Prop
  step : σ → α → Option σ

namespace System

variable {σ τ α β : Type}

inductive Reach (S : System σ α) (allowed : σ → α → Prop) : σ → Prop where
  | initial {s : σ} : S.initial s → Reach S allowed s
  | next {s t : σ} {a : α} : Reach S allowed s → allowed s a → S.step s a = some t →
      Reach S allowed t

abbrev Reachable (S : System σ α) : σ → Prop := S.Reach fun _ _ => True

variable {S : System σ α} {allowed weaker : σ → α → Prop}

/-- The induction over a run: the step lemma may use any invariant that is known already. -/
theorem Reach.invariant (known property : σ → Prop) (given : ∀ s, S.Reach allowed s → known s)
    (start : ∀ s, S.initial s → property s)
    (keep : ∀ s a t, known s → property s → allowed s a → S.step s a = some t → property t)
    {s : σ} (reach : S.Reach allowed s) : property s := by
  induction reach with
  | initial first => exact start _ first
  | next before permitted action ih => exact keep _ _ _ (given _ before) ih permitted action

theorem Reach.mono (weaken : ∀ s a, allowed s a → weaker s a) {s : σ} (reach : S.Reach allowed s) :
    S.Reach weaker s := by
  induction reach with
  | initial first => exact .initial first
  | next _ permitted action ih => exact .next ih (weaken _ _ permitted) action

theorem Reach.reachable {s : σ} (reach : S.Reach allowed s) : S.Reachable s :=
  reach.mono fun _ _ _ => trivial

theorem Reachable.next {s t : σ} {a : α} (reachable : S.Reachable s) (action : S.step s a = some t) :
    S.Reachable t :=
  Reach.next reachable trivial action

/-! ## What comes after a state -/

inductive Leads (S : System σ α) (allowed : σ → α → Prop) (s : σ) : σ → Prop where
  | refl : Leads S allowed s s
  | next {t u : σ} {a : α} : Leads S allowed s t → allowed t a → S.step t a = some u →
      Leads S allowed s u

theorem Reach.leads {s t : σ} (reach : S.Reach allowed s) (leads : S.Leads allowed s t) :
    S.Reach allowed t := by
  induction leads with
  | refl => exact reach
  | next _ permitted action ih => exact .next ih permitted action

theorem Leads.mono (weaken : ∀ s a, allowed s a → weaker s a) {s t : σ}
    (leads : S.Leads allowed s t) : S.Leads weaker s t := by
  induction leads with
  | refl => exact .refl
  | next _ permitted action ih => exact .next ih (weaken _ _ permitted) action

theorem Leads.trans {s t u : σ} (first : S.Leads allowed s t) (later : S.Leads allowed t u) :
    S.Leads allowed s u := by
  induction later with
  | refl => exact first
  | next _ permitted action ih => exact .next ih permitted action

/-! ## Runs that are written down -/

def exec (S : System σ α) (allowed : σ → α → Prop) [∀ s a, Decidable (allowed s a)] :
    σ → List α → Option σ
  | s, [] => some s
  | s, a :: rest => if allowed s a then (S.step s a).bind fun t => exec S allowed t rest else none

abbrev run (S : System σ α) : σ → List α → Option σ := S.exec fun _ _ => True

theorem run_cons {s : σ} {a : α} {rest : List α} :
    S.run s (a :: rest) = (S.step s a).bind fun t => S.run t rest := by
  simp [System.exec]

variable [∀ s a, Decidable (allowed s a)]

theorem Leads.exec {r s t : σ} (leads : S.Leads allowed r s) (actions : List α)
    (taken : S.exec allowed s actions = some t) : S.Leads allowed r t := by
  induction actions generalizing s with
  | nil =>
      simp only [System.exec, Option.some.injEq] at taken
      exact taken ▸ leads
  | cons a rest ih =>
      simp only [System.exec] at taken
      split at taken
      · rename_i permitted
        obtain ⟨middle, first, remaining⟩ := Option.bind_eq_some_iff.mp taken
        exact ih (.next leads permitted first) remaining
      · cases taken

theorem Reach.exec {s t : σ} (reach : S.Reach allowed s) (actions : List α)
    (taken : S.exec allowed s actions = some t) : S.Reach allowed t :=
  reach.leads (Leads.refl.exec actions taken)

theorem exists_leads (S : System σ α) (allowed : σ → α → Prop) [∀ s a, Decidable (allowed s a)] (s : σ)
    (actions : List α) (property : σ → Prop) [DecidablePred property]
    (taken : (S.exec allowed s actions).any (fun t => decide (property t))) :
    ∃ t, S.Leads allowed s t ∧ property t := by
  cases ended : S.exec allowed s actions with
  | none => simp [ended] at taken
  | some t => exact ⟨t, Leads.refl.exec actions ended, by simpa [ended] using taken⟩

theorem exists_reach (S : System σ α) (allowed : σ → α → Prop) [∀ s a, Decidable (allowed s a)] (s : σ)
    (actions : List α) (property : σ → Prop) [DecidablePred property] (first : S.initial s)
    (taken : (S.exec allowed s actions).any (fun t => decide (property t))) :
    ∃ t, S.Reach allowed t ∧ property t := by
  obtain ⟨t, leads, holds⟩ := S.exists_leads allowed s actions property taken
  exact ⟨t, (Reach.initial first).leads leads, holds⟩

end System
end KafkaProxy.Library
