import KafkaProxy.Library.Watch
import KafkaProxy.Pooled.Lease

/-!
# Silent clients

In pooled mode the timeout of a client starts when its relay comes to wait for a request, and nothing
but a request ends the wait. So a client that keeps silent loses its relay, and the relay its lease, even
when it only waits for a response.
-/

namespace KafkaProxy.Pooled
open Library

namespace Multiplex

def noteArrival (m : Multiplex) (action : MultiplexAction) (last : Nat → Nat) : Nat → Nat :=
  match action with
  | .relay i .connect | .relay i (.request _) => Function.update last i m.now
  | _ => last

/-- The relay waits, and its client has sent nothing that it has not read. -/
def Silent (r : PooledRelay) (since : Nat) : Prop := r.downToUp = .waiting since ∧ r.read = r.sent.length

/-- The client sends something or goes, or the timeout ends the wait. -/
def Interrupts (i : Nat) (action : MultiplexAction) : Prop :=
  action = .relay i .idle ∨ action = .relay i .hangUp ∨ ∃ data, action = .relay i (.request data)

structure Patient (m : Multiplex) (last : Nat → Nat) : Prop where
  bounded : ∀ i, (m.relays i).read ≤ (m.relays i).sent.length
  past : ∀ i, last i ≤ m.now
  silent : ∀ i since, Silent (m.relays i) since → last i ≤ since

variable {d : Nat} {codecs : Codecs} {map : RewriteMap} {m n : Multiplex} {last : Nat → Nat} {i : Nat}

theorem RelayMove.now_eq {action : RelayAction} (move : RelayMove (some d) m i (m.relays i) action n) :
    n.now = m.now := by
  cases move <;> rfl

theorem noteArrival_le {action : MultiplexAction} (past : ∀ i, last i ≤ m.now) (i : Nat) :
    noteArrival m action last i ≤ m.now := by
  have updated (j : Nat) : Function.update last j m.now i ≤ m.now := by
    by_cases here : i = j
    · simp [here]
    · simpa [here] using past i
  unfold noteArrival
  split
  · exact updated _
  · exact updated _
  · exact past i

theorem Patient.bounded_relay {action : RelayAction} (patient : Patient m last)
    (move : RelayMove (some d) m i (m.relays i) action n) :
    (n.relays i).read ≤ (n.relays i).sent.length := by
  have before := patient.bounded i
  cases move with
  | next phase head parsed | skip phase head short =>
      simp only [setRelay_relays, Function.update_self]
      exact (List.getElem?_eq_some_iff.mp head).1
  | request data =>
      simp only [setRelay_relays, Function.update_self, List.length_append]
      omega
  | _ => simpa using before

theorem Patient.silent_relay {action : RelayAction} (patient : Patient m last)
    (move : RelayMove (some d) m i (m.relays i) action n) {since : Nat}
    (silent : Silent (n.relays i) since) :
    since = m.now ∨ Silent (m.relays i) since ∧ noteArrival m (.relay i action) last i = last i := by
  have before := patient.bounded i
  obtain ⟨waits, all⟩ := silent
  cases move with
  | connect phase | skip phase head short | push phase leased listens room =>
      simp only [setRelay_relays, Function.update_self, DownToUp.waiting.injEq] at waits
      exact .inl waits.symm
  | request data =>
      simp only [setRelay_relays, Function.update_self, List.length_append, List.length_singleton] at all
      omega
  | deliver listens queue | deliverFailed listens | respClosed listens empty done last' =>
      simp only [setRelay_relays, Function.update_self] at waits all
      exact .inr ⟨⟨waits, all⟩, rfl⟩
  | _ => simp at waits

theorem Patient.relay {action : RelayAction} (patient : Patient m last)
    (move : RelayMove (some d) m i (m.relays i) action n) :
    Patient n (noteArrival m (.relay i action) last) := by
  have now := move.now_eq
  have others (j : Nat) (other : j ≠ i) : n.relays j = m.relays j := move.relays_other other
  have noted (j : Nat) (other : j ≠ i) : noteArrival m (.relay i action) last j = last j := by
    cases action <;> simp [noteArrival, other]
  refine ⟨fun j => ?_, fun j => now ▸ noteArrival_le patient.past j, fun j since silent => ?_⟩
  · by_cases here : j = i
    · exact here ▸ patient.bounded_relay move
    · rw [others j here]
      exact patient.bounded j
  · by_cases here : j = i
    · subst here
      obtain rfl | ⟨goesOn, same⟩ := patient.silent_relay move silent
      · exact noteArrival_le patient.past j
      · exact same ▸ patient.silent j since goesOn
    · rw [others j here] at silent
      rw [noted j here]
      exact patient.silent j since silent

theorem Patient.step {action : MultiplexAction} (patient : Patient m last)
    (change : Change (some d) codecs map m action n) : Patient n (noteArrival m action last) := by
  cases change with
  | tick elapsed =>
      exact ⟨patient.bounded, fun i => (patient.past i).trans (Nat.le_add_right _ _), patient.silent⟩
  | create => exact ⟨patient.bounded, patient.past, patient.silent⟩
  | relay move => exact patient.relay move
  | upstream move =>
      have now : n.now = m.now := by cases move <;> rfl
      refine ⟨fun i => ?_, fun i => now ▸ patient.past i, fun i since silent => ?_⟩
      · obtain ⟨respRx, same⟩ := move.relays_eq i
        rw [same]
        exact patient.bounded i
      · obtain ⟨respRx, same⟩ := move.relays_eq i
        rw [same] at silent
        exact patient.silent i since silent

theorem Silent.step {action : MultiplexAction} {since : Nat} (silent : Silent (m.relays i) since)
    (goesOn : ¬ Interrupts i action) (change : Change (some d) codecs map m action n) :
    Silent (n.relays i) since := by
  obtain ⟨_, respRx, same⟩ | ⟨own, rfl, move⟩ := change.at_relay i
  · rw [same]
    exact silent
  · obtain ⟨waits, all⟩ := silent
    cases move with
    | next phase head parsed | skip phase head short =>
        rw [all, List.getElem?_eq_none le_rfl] at head
        cases head
    | request data => exact absurd (.inr (.inr ⟨data, rfl⟩)) goesOn
    | hangUp phase read => exact absurd (.inr (.inl rfl)) goesOn
    | idle phase limited read late => exact absurd (.inl rfl) goesOn
    | deliver listens queue | deliverFailed listens | respClosed listens empty done last =>
        simpa [Silent] using ⟨waits, all⟩
    | _ => simp_all

end Multiplex
end KafkaProxy.Pooled
