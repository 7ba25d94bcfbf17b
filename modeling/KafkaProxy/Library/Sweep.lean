import KafkaProxy.Library.System
import KafkaProxy.Library.Table

/-!
# Reading a table part by part

The keys of a table are spread over parts. A sweep reads one part after the other, each in one step,
and the table may change in any way between two of these steps.
-/

namespace KafkaProxy.Library

variable {σ α κ ν : Type}

def Table.part (partOf : κ → Nat) (i : Nat) (t : Table κ ν) : List (κ × ν) :=
  (t.entries.filter fun e => partOf e.1 = i).map fun e => (e.1, e.2)

/-- The parts before `next` have been read. -/
structure Swept (σ κ ν : Type) where
  state : σ
  next : Nat
  seen : List (κ × ν)

inductive SweepAction (α : Type) where
  | read
  | other (action : α)

namespace Swept

def start (s : σ) : Swept σ κ ν := ⟨s, 0, []⟩

def system (S : System σ α) (table : σ → Table κ ν) (partOf : κ → Nat) (parts : Nat) :
    System (Swept σ κ ν) (SweepAction α) where
  initial s := ∃ first, S.initial first ∧ s = start first
  step s
    | .read =>
        if s.next < parts then some ⟨s.state, s.next + 1, s.seen ++ (table s.state).part partOf s.next⟩
        else none
    | .other action => (S.step s.state action).map fun t => { s with state := t }

variable {S : System σ α} {table : σ → Table κ ν} {partOf : κ → Nat} {parts : Nat}
  {allowed : σ → α → Prop} {first : σ} {s t : Swept σ κ ν}

def Permits (allowed : σ → α → Prop) (s : Swept σ κ ν) : SweepAction α → Prop
  | .read => True
  | .other action => allowed s.state action

instance [∀ s a, Decidable (allowed s a)] (s : Swept σ κ ν) (action : SweepAction α) :
    Decidable (s.Permits allowed action) :=
  match action with
  | .read => inferInstanceAs (Decidable True)
  | .other action => inferInstanceAs (Decidable (allowed s.state action))

abbrev Sweeps (S : System σ α) (table : σ → Table κ ν) (partOf : κ → Nat) (parts : Nat)
    (allowed : σ → α → Prop) (first : σ) (t : Swept σ κ ν) : Prop :=
  (system S table partOf parts).Leads (Permits allowed) (start first) t

section
variable [DecidableEq κ]

end
end Swept
end KafkaProxy.Library
