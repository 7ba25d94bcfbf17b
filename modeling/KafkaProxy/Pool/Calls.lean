import KafkaProxy.Library.Watch
import KafkaProxy.Pool.Moves

/-!
# The acquire calls of a run

A record of the run keeps for each task whether its last call of `acquire` was woken, and which
write loops had returned when that call started.
-/

namespace KafkaProxy
open Library

structure Call where
  woken : Bool
  ended : List Nat
  deriving DecidableEq, Repr

abbrev Calls := Nat → Call

namespace BrokerPool

def hasEnded (p : BrokerPool) : List Nat := p.created.filter (· ∉ p.running)

def noteCalls (p : BrokerPool) (action : PoolAction) (calls : Calls) : Calls :=
  match action with
  | .task i .acquire => Function.update calls i ⟨false, p.hasEnded⟩
  | .task i .resume => Function.update calls i { calls i with woken := true }
  | _ => calls

def called (config : PoolLimits) (metrics : Metrics) : System (BrokerPool × Calls) PoolAction :=
  (system config metrics).watch (fun _ => ⟨false, []⟩) noteCalls

variable {p q : BrokerPool} {action : PoolAction}

theorem noteCalls_ended (calls : Calls) (i : Nat) :
    (p.noteCalls action calls i).ended =
      if action = .task i .acquire then p.hasEnded else (calls i).ended := by
  unfold noteCalls
  split
  · rename_i j
    by_cases same : i = j
    · subst same
      simp
    · simp [same, Ne.symm same]
  · rename_i j
    by_cases same : i = j
    · subst same
      simp
    · simp [same]
  · rename_i other _
    rw [if_neg (other i)]

theorem noteCalls_other {i j : Nat} {taskAction : TaskAction} (calls : Calls) (other : j ≠ i) :
    p.noteCalls (.task i taskAction) calls j = calls j := by
  cases taskAction <;> simp [noteCalls, other]

end BrokerPool
end KafkaProxy
