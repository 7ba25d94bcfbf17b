import KafkaProxy.Library.Watch
import KafkaProxy.Pooled.Connections
import KafkaProxy.Pooled.Delivery
import KafkaProxy.Pooled.Lease

/-!
# A read loop waits for nobody

A read loop hands a response to a client with `try_send`, so its steps are possible whatever the clients
do. Each answer costs it two turns at most, in the order in which the answers came.
-/

namespace KafkaProxy.Pooled
open Library

def Upstream.handed (u : Upstream) : List Answer := u.readLoop.holds ++ u.readRx

namespace Multiplex

def ReadTurn (k : Nat) (action : MultiplexAction) : Prop := action = .upstream k .take ∨ action = .upstream k .route

instance (k : Nat) (action : MultiplexAction) : Decidable (ReadTurn k action) :=
  inferInstanceAs (Decidable (_ ∨ _))

def turning (maxInFlight : Nat) (metrics : Metrics) (idle : Option Nat) (codecs : Codecs) (map : RewriteMap)
    (k : Nat) : System (Multiplex × Nat) MultiplexAction :=
  (system maxInFlight metrics idle codecs map).watch 0 fun _ action turns =>
    if ReadTurn k action then turns + 1 else turns

variable {idle : Option Nat} {codecs : Codecs} {map : RewriteMap} {m n : Multiplex} {k : Nat}
  {action : MultiplexAction}

structure Advances (u v : Upstream) (turns : Nat) (done later : List Answer) : Prop where
  routed : v.routed.map (·.1) = u.routed.map (·.1) ++ done
  queue : done ++ v.handed = u.handed ++ later
  turns : turns + u.readLoop.holds.length ≤ 2 * done.length + v.readLoop.holds.length

theorem Advances.refl (u : Upstream) : Advances u u 0 [] [] := ⟨by simp, by simp, by simp⟩

theorem Advances.trans {u v w : Upstream} {turns more : Nat} {done done' later later' : List Answer}
    (first : Advances u v turns done later) (next : Advances v w more done' later') :
    Advances u w (turns + more) (done ++ done') (later ++ later') := by
  refine ⟨?_, ?_, ?_⟩
  · rw [next.routed, first.routed, List.append_assoc]
  · rw [List.append_assoc, next.queue, ← List.append_assoc, first.queue, List.append_assoc]
  · have before := first.turns
    have after := next.turns
    rw [List.length_append]
    omega

theorem UpstreamMove.advances {own : UpstreamAction}
    (move : UpstreamMove codecs map m k (m.upstreams k) own n) :
    ∃ done later, Advances (m.upstreams k) (n.upstreams k)
      (if ReadTurn k (.upstream k own) then 1 else 0) done later := by
  cases move with
  | take phase queue parsed found =>
      exact ⟨[], [], by simp, by simp [Upstream.handed, phase, queue, ReadLoop.holds],
        by simp [ReadTurn, phase, ReadLoop.holds]⟩
  | @unmatched answer rest phase queue missing =>
      exact ⟨[answer], [], by simp, by simp [Upstream.handed, phase, queue, ReadLoop.holds],
        by simp [ReadTurn, phase, ReadLoop.holds]⟩
  | @route answer entry phase listens room | @discard answer entry phase unable =>
      exact ⟨[answer], [], by simp, by simp [Upstream.handed, phase, ReadLoop.holds],
        by simp [ReadTurn, phase, ReadLoop.holds]⟩
  | @forward answer phase room =>
      exact ⟨[], [answer], by simp, by simp [Upstream.handed], by simp [ReadTurn]⟩
  | _ => exact ⟨[], [], by simp, by simp [Upstream.handed], by simp [ReadTurn]⟩

theorem Change.advances (change : Change idle codecs map m action n) (known : k < m.opened) :
    ∃ done later, Advances (m.upstreams k) (n.upstreams k) (if ReadTurn k action then 1 else 0) done later := by
  obtain ⟨others, writeRx, same⟩ | ⟨_, new, _⟩ | ⟨own, rfl, move⟩ := change.at_upstream k
  · have still : ¬ ReadTurn k action := by
      rintro (rfl | rfl)
      · exact others _ rfl
      · exact others _ rfl
    rw [if_neg still, same]
    exact ⟨[], [], by simp, by simp [Upstream.handed], by simp⟩
  · exact absurd new known.ne
  · exact move.advances

theorem read_turn (m : Multiplex) (k : Nat) (some : (m.upstreams k).handed ≠ []) :
    ∃ own, ReadTurn k (.upstream k own) ∧
      (m.upstreamStep codecs map k (m.upstreams k) own).isSome = true := by
  cases phase : (m.upstreams k).readLoop with
  | routing answer entry =>
      refine ⟨.route, .inr rfl, ?_⟩
      simp only [upstreamStep, phase]
      split <;> rfl
  | receiving =>
      refine ⟨.take, .inl rfl, ?_⟩
      cases queue : (m.upstreams k).readRx with
      | nil => simp [Upstream.handed, phase, queue, ReadLoop.holds] at some
      | cons answer rest =>
          simp only [upstreamStep, phase, queue]
          split
          · rfl
          · split <;> rfl

/-- Whatever else goes on, the read loop of a connection can take a turn as long as it has an answer, and
with two turns for each answer that it had it has routed all of these, in their order, before any other. -/
theorem answers_routed {maxInFlight : Nat} {metrics : Metrics} {turns : Nat} (known : k < m.opened)
    (leads : (turning maxInFlight metrics idle codecs map k).Leads (fun _ _ => True) (m, 0) (n, turns)) :
    ((n.upstreams k).handed ≠ [] → ∃ own, ReadTurn k (.upstream k own) ∧
        (n.upstreamStep codecs map k (n.upstreams k) own).isSome = true) ∧
      (2 * (m.upstreams k).handed.length ≤ turns →
        (m.upstreams k).routed.map (·.1) ++ (m.upstreams k).handed <+: (n.upstreams k).routed.map (·.1)) := by
  refine ⟨read_turn n k, fun enough => ?_⟩
  have run (s : Multiplex × Nat)
      (leads : (turning maxInFlight metrics idle codecs map k).Leads (fun _ _ => True) (m, 0) s) :
      k < s.1.opened ∧ ∃ done later, Advances (m.upstreams k) (s.1.upstreams k) s.2 done later := by
    induction leads with
    | refl => exact ⟨known, [], [], .refl _⟩
    | @next before after action _ _ taken ih =>
        obtain ⟨opened, done, later, advances⟩ := ih
        obtain ⟨moved, noted⟩ := System.watch_step.mp taken
        have change := Change.of_step moved
        obtain ⟨done', later', next⟩ := change.advances opened
        have counted : after.2 = before.2 + if ReadTurn k action then 1 else 0 := by
          rw [noted]
          split <;> rfl
        exact ⟨opened.trans_le change.opened.1, _, _, counted ▸ advances.trans next⟩
  obtain ⟨_, done, later, advances⟩ := run _ leads
  have all : (m.upstreams k).handed.length ≤ done.length := by
    have paid := advances.turns
    have hand : (n.upstreams k).readLoop.holds.length ≤ 1 := by
      cases (n.upstreams k).readLoop <;> simp [ReadLoop.holds]
    simp only at paid
    omega
  have front : (m.upstreams k).handed <+: done := by
    apply List.prefix_of_prefix_length_le _ (List.prefix_append done (n.upstreams k).handed) all
    rw [advances.queue]
    exact List.prefix_append _ _
  rw [advances.routed]
  exact (List.prefix_append_right_inj _).mpr front

def askTwice : List MultiplexAction :=
  [.create, .relay 0 .connect, .relay 0 (.request apiVersionsRequest), .relay 0 (.request apiVersionsRequest),
    .relay 0 .next, .relay 0 .giveBack, .relay 0 .borrow, .relay 0 (.acquired ⟨0, 1⟩), .relay 0 .check,
    .relay 0 .alloc, .relay 0 .store, .relay 0 .count, .relay 0 .push, .relay 0 .next, .relay 0 .keep,
    .relay 0 .check, .relay 0 .alloc, .relay 0 .store, .relay 0 .count, .relay 0 .push, .upstream 0 .write,
    .upstream 0 .write, .upstream 0 (.answer 0 [0, 0, 0, 2]), .upstream 0 (.answer 0 [0, 0, 0, 3]),
    .upstream 0 .read, .upstream 0 .forward, .upstream 0 .read, .upstream 0 .forward]

theorem answers_routed_unread : ∃ m n : Multiplex, (m.upstreams 0).handed.length = 2 ∧
    ((n.upstreams 0).handed ≠ [] → ∃ own, ReadTurn 0 (.upstream 0 own) ∧
        (n.upstreamStep .unknown ⟨∅⟩ 0 (n.upstreams 0) own).isSome = true) ∧
      (m.upstreams 0).routed.map (·.1) ++ (m.upstreams 0).handed <+: (n.upstreams 0).routed.map (·.1) := by
  obtain ⟨m, _, opened, two, later⟩ :=
    (system 2 (.new true) none .unknown ⟨∅⟩).exists_reach (fun _ _ => True) (.new 2 (.new true))
      (askTwice ++ [.relay 0 .deliverFailed])
      (fun m => 0 < m.opened ∧ (m.upstreams 0).handed.length = 2 ∧
        ((turning 2 (.new true) none .unknown ⟨∅⟩ 0).exec (fun _ _ => True) (m, 0)
          [.upstream 0 .take, .upstream 0 .route, .tick 1, .upstream 0 .take, .upstream 0 .route]).any
            fun s => decide (s.2 = 4)) rfl (by decide +kernel)
  obtain ⟨n, leads, turns⟩ := System.exists_leads _ _ _ _ _ later
  have routed := answers_routed opened leads
  exact ⟨m, n.1, two, routed.1, routed.2 (by rw [two, turns])⟩

end Multiplex
end KafkaProxy.Pooled
