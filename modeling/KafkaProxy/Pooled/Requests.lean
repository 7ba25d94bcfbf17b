import KafkaProxy.Pooled.Moves

/-!
# The requests of a run

What the history of registered requests has to do with what the clients have sent.
-/

namespace KafkaProxy.Pooled
open Library

def DownToUp.job : DownToUp → Option Job
  | .checking job | .borrow job | .acquiring job | .register job | .alloc job | .store job _ _
  | .count job _ _ | .send job _ _ => some job
  | .absent | .waiting _ | .cancel _ | .leaving | .returned => none

def DownToUp.unregistered : DownToUp → Option Job
  | .checking job | .borrow job | .acquiring job | .register job | .alloc job => some job
  | .absent | .waiting _ | .store .. | .count .. | .send .. | .cancel _ | .leaving | .returned => none

structure PooledRelay.Sent (r : PooledRelay) (job : Job) : Prop where
  frame : r.sent[job.seq]? = some job.data
  parsed : parseRequestHeader job.data = some job.header
  read : job.seq < r.read

structure PooledRelay.Calm (r s : PooledRelay) : Prop where
  sent : r.sent <+: s.sent
  read : r.read ≤ s.read
  job : ∀ job, s.downToUp.job = some job → r.downToUp.job = some job
  unregistered : ∀ job, s.downToUp.unregistered = some job →
    r.downToUp.unregistered = some job ∧ s.read = r.read

theorem PooledRelay.Calm.refl (r : PooledRelay) : r.Calm r :=
  ⟨List.prefix_rfl, le_rfl, fun _ same => same, fun _ same => ⟨same, rfl⟩⟩

theorem PooledRelay.Sent.calm {r s : PooledRelay} {job : Job} (sent : r.Sent job) (calm : r.Calm s) :
    s.Sent job := by
  refine ⟨?_, sent.parsed, sent.read.trans_le calm.read⟩
  obtain ⟨more, extended⟩ := calm.sent
  have bound := (List.getElem?_eq_some_iff.mp sent.frame).1
  rw [← extended, List.getElem?_append_left bound]
  exact sent.frame

namespace Multiplex

structure Requests (m : Multiplex) : Prop where
  sent : ∀ req ∈ m.requests, (m.relays req.client).Sent req.job
  sorted : m.requests.Pairwise fun a b => a.client = b.client → a.job.seq < b.job.seq
  job : ∀ i job, (m.relays i).downToUp.job = some job → (m.relays i).Sent job
  last : ∀ i job, (m.relays i).downToUp.unregistered = some job →
    job.seq + 1 = (m.relays i).read ∧ ∀ req ∈ m.requests, req.client = i → req.job.seq < job.seq

variable {idle : Option Nat} {codecs : Codecs} {map : RewriteMap} {m n : Multiplex}

theorem Requests.of_calm (requests : m.Requests) (same : n.requests = m.requests)
    (calm : ∀ i, (m.relays i).Calm (n.relays i)) : n.Requests := by
  refine ⟨?_, ?_, ?_, ?_⟩
  · intro req member
    rw [same] at member
    exact (requests.sent req member).calm (calm req.client)
  · rw [same]
    exact requests.sorted
  · intro i job current
    exact (requests.job i job ((calm i).job job current)).calm (calm i)
  · intro i job current
    obtain ⟨before, unread⟩ := (calm i).unregistered job current
    obtain ⟨next, later⟩ := requests.last i job before
    rw [same, unread]
    exact ⟨next, later⟩

theorem Requests.next {i : Nat} {data : Frame} {header : RequestHeader} (requests : m.Requests)
    (head : (m.relays i).sent[(m.relays i).read]? = some data)
    (parsed : parseRequestHeader data = some header) :
    (m.setRelay i { m.relays i with
      read := (m.relays i).read + 1
      downToUp := .checking ⟨(m.relays i).read, data, header⟩ }).Requests := by
  have further (j : Nat) : (m.relays j).Sent ≤ (Function.update m.relays i { m.relays i with
      read := (m.relays i).read + 1
      downToUp := .checking ⟨(m.relays i).read, data, header⟩ } j).Sent := by
    intro job sent
    by_cases same : j = i
    · subst same
      rw [Function.update_self]
      exact ⟨sent.frame, sent.parsed, sent.read.trans (Nat.lt_succ_self _)⟩
    · rw [Function.update_of_ne same]
      exact sent
  refine ⟨fun req member => further _ _ (requests.sent req member), requests.sorted, ?_, ?_⟩
  · intro j job current
    by_cases same : j = i
    · subst same
      simp only [setRelay_relays, Function.update_self, DownToUp.job, Option.some.injEq] at current ⊢
      subst current
      exact ⟨head, parsed, Nat.lt_succ_self _⟩
    · simp only [setRelay_relays, Function.update_of_ne same] at current ⊢
      exact requests.job j job current
  · intro j job current
    by_cases same : j = i
    · subst same
      simp only [setRelay_relays, Function.update_self, DownToUp.unregistered,
        Option.some.injEq] at current ⊢
      subst current
      exact ⟨rfl, fun req member client => client ▸ (requests.sent req member).read⟩
    · simp only [setRelay_relays, Function.update_of_ne same] at current ⊢
      exact requests.last j job current

theorem Requests.alloc {i tag : Nat} {cidU : Int32} {writeTx : Nat} {job : Job}
    {remap : CidRemap ResponseTx} (requests : m.Requests)
    (phase : (m.relays i).downToUp = .alloc job) :
    Requests { m.setRelay i { m.relays i with downToUp := .store job cidU tag } with
      remap, requests := m.requests ++ [⟨i, job, writeTx⟩] } := by
  have current : (m.relays i).downToUp.job = some job := by rw [phase]; rfl
  obtain ⟨last, earlier⟩ := requests.last i job (by rw [phase]; rfl)
  have same (j : Nat) : (m.relays j).Sent ≤ (Function.update m.relays i { m.relays i with
      downToUp := .store job cidU tag } j).Sent := by
    intro job sent
    by_cases same : j = i
    · subst same
      rw [Function.update_self]
      exact ⟨sent.frame, sent.parsed, sent.read⟩
    · rw [Function.update_of_ne same]
      exact sent
  refine ⟨?_, ?_, ?_, ?_⟩
  · intro req member
    rcases List.mem_append.mp member with older | added
    · exact same _ _ (requests.sent req older)
    · rw [List.mem_singleton.mp added]
      exact same _ _ (requests.job i job current)
  · rw [List.pairwise_append]
    refine ⟨requests.sorted, List.pairwise_singleton _ _, ?_⟩
    intro req member new added client
    rw [List.mem_singleton.mp added] at client ⊢
    exact earlier req member client
  · intro j other held
    apply same
    by_cases here : j = i
    · subst here
      simp only [setRelay_relays, Function.update_self, DownToUp.job] at held
      exact requests.job j other (current.trans held)
    · simp only [setRelay_relays, Function.update_of_ne here] at held
      exact requests.job j other held
  · intro j other held
    by_cases here : j = i
    · subst here
      simp [DownToUp.unregistered] at held
    · simp only [setRelay_relays, Function.update_of_ne here] at held ⊢
      obtain ⟨next, later⟩ := requests.last j other held
      refine ⟨next, fun req member client => ?_⟩
      rcases List.mem_append.mp member with older | added
      · exact later req older client
      · rw [List.mem_singleton.mp added] at client
        exact absurd client.symm here

theorem Change.requests {action : MultiplexAction} (requests : m.Requests)
    (change : Change idle codecs map m action n) : n.Requests := by
  cases change with
  | tick elapsed => exact requests.of_calm rfl fun i => .refl _
  | create => exact requests.of_calm rfl fun i => .refl _
  | upstream move =>
      apply requests.of_calm
      · cases move <;> rfl
      · intro i
        obtain ⟨respRx, same⟩ := move.relays_eq i
        rw [same]
        exact ⟨List.prefix_rfl, le_rfl, fun _ same => same, fun _ same => ⟨same, rfl⟩⟩
  | @relay i action _ move =>
      have calm (s : PooledRelay) (here : (m.relays i).Calm s) (j : Nat) :
          (m.relays j).Calm (Function.update m.relays i s j) := by
        by_cases same : j = i
        · subst same
          rwa [Function.update_self]
        · rw [Function.update_of_ne same]
          exact .refl _
      cases move with
      | next phase head parsed => exact requests.next head parsed
      | alloc phase leased => exact requests.alloc phase
      | request data =>
          exact requests.of_calm rfl (calm _ ⟨List.prefix_append _ _, le_rfl, fun _ same => same,
            fun _ same => ⟨same, rfl⟩⟩)
      | deliver listens queue | deliverFailed listens
      | respClosed listens empty done last =>
          exact requests.of_calm rfl (calm _ ⟨List.prefix_rfl, le_rfl, fun _ same => same,
            fun _ same => ⟨same, rfl⟩⟩)
      | skip phase | connect phase | keep phase | giveBack phase | borrow phase | acquired phase
      | acquireFailed phase | check phase | refuse phase | store phase | count phase | push phase
      | pushFailed phase | cancel phase | hangUp phase | idle phase | leave phase =>
          exact requests.of_calm rfl (calm _ ⟨List.prefix_rfl, by simp, by
            simp [phase, DownToUp.job], by simp [phase, DownToUp.unregistered]⟩)

variable {maxInFlight : Nat} {metrics : Metrics}
  {allowed : Multiplex → MultiplexAction → Prop}

theorem requests_of_reach
    (reach : (system maxInFlight metrics idle codecs map).Reach allowed m) : m.Requests := by
  induction reach with
  | initial first =>
      rw [first]
      exact ⟨by simp [new], by simp [new], by simp [new, PooledRelay.new, DownToUp.job],
        by simp [new, PooledRelay.new, DownToUp.unregistered]⟩
  | next _ _ action ih => exact (Change.of_step action).requests ih

end Multiplex
end KafkaProxy.Pooled
