import KafkaProxy.Pooled.Framed

/-!
# When an upstream connection gets stuck

A send comes to its end if the broker can read far enough without the proxy reading anything: each
response that it has to write first fits into the buffer for the responses.
-/

namespace KafkaProxy.Pooled
open Library

/-- The broker can read `needed` more bytes, while no more than `room` bytes are written. It has read
`got` bytes of the first request. -/
def clears : List Exchange → (needed room got : Nat) → Prop
  | [], _, _, _ => True
  | e :: rest, needed, room, got =>
      needed ≤ e.request - got ∨
        e.response ≤ room ∧ clears rest (needed - (e.request - got)) (room - e.response) 0

def Broker.clears (ahead : List Exchange) (needed room : Nat) : Broker → Prop
  | .reading got => Pooled.clears ahead needed room got
  | .writing left => needed = 0 ∨ left ≤ room ∧ Pooled.clears ahead needed (room - left) 0

instance decidableClears : (ahead : List Exchange) → (needed room got : Nat) →
    Decidable (clears ahead needed room got)
  | [], _, _, _ => .isTrue trivial
  | e :: rest, needed, room, got =>
      have := decidableClears rest (needed - (e.request - got)) (room - e.response) 0
      inferInstanceAs (Decidable (_ ∨ _ ∧ _))

instance (ahead : List Exchange) (needed room : Nat) (broker : Broker) :
    Decidable (broker.clears ahead needed room) :=
  match broker with
  | .reading got => decidableClears ahead needed room got
  | .writing _ => inferInstanceAs (Decidable (_ ∨ _ ∧ _))

theorem clears_zero (ahead : List Exchange) (room got : Nat) : clears ahead 0 room got := by
  cases ahead with
  | nil => trivial
  | cons e rest => exact .inl (Nat.zero_le _)

def WritePhase.left : WritePhase → Nat
  | .sending left => left
  | .select | .forwarding => 0

def Broker.got : Broker → Nat
  | .reading got => got
  | .writing _ => 0

def Broker.left : Broker → Nat
  | .reading _ => 0
  | .writing left => left

/-- The bytes to be written, and one for the step that follows the last of them. -/
def Broker.remaining : Broker → Nat
  | .reading _ => 0
  | .writing left => left + 1

theorem Broker.clears_zero (broker : Broker) (ahead : List Exchange) (room : Nat) :
    broker.clears ahead 0 room := by
  cases broker with
  | reading got => exact Pooled.clears_zero _ _ _
  | writing left => exact .inl rfl

namespace Framed

variable {buffers : Buffers} {s t : Framed} {action : FramedAction}

/-- The rest of the frame fits, now or after what the broker can read. -/
def Clear (buffers : Buffers) (s : Framed) (left : Nat) (ahead : List Exchange) : Prop :=
  s.broker.clears ahead (s.up + left - buffers.up) (buffers.down - s.down)

/-- The write loop takes a request that it can send to the end without reading. -/
def Clears (buffers : Buffers) (s : Framed) : FramedAction → Prop
  | .take => ∀ e ∈ s.writeRx.head?, s.Clear buffers e.request (s.ahead ++ [e])
  | _ => True

instance (buffers : Buffers) (s : Framed) (action : FramedAction) :
    Decidable (Clears buffers s action) :=
  match action with
  | .take => inferInstanceAs (Decidable (∀ e ∈ s.writeRx.head?, Broker.clears ..))
  | .enqueue _ | .flushTick | .write _ | .sent | .receive _ | .frame | .forward | .route | .read _
  | .process | .reply _ | .replied => inferInstanceAs (Decidable True)

/-! ## Bytes are not lost -/

structure Balanced (s : Framed) : Prop where
  up : s.up + s.writeLoop.left + s.broker.got = (s.ahead.map (·.request)).sum
  part : ∀ e rest, s.ahead = e :: rest → s.broker.got ≤ e.request
  down : s.decoded + s.down + s.broker.left = s.coming.sum

theorem Balanced.take {e : Exchange} {rest : List Exchange} (balanced : s.Balanced)
    (waits : s.writeLoop = .select) :
    Balanced { s with
      writeRx := rest, writeLoop := .sending e.request, ahead := s.ahead ++ [e] } := by
  obtain ⟨up, part, down⟩ := balanced
  rw [waits] at up
  refine ⟨?_, ?_, down⟩
  · simp only [WritePhase.left, List.map_append, List.sum_append, List.map_singleton,
      List.sum_singleton, ← up]
    omega
  · intro first others split
    cases earlier : s.ahead with
    | nil =>
        simp only [earlier, List.map_nil, List.sum_nil] at up
        have none : s.broker.got = 0 := by omega
        rw [none]
        exact Nat.zero_le _
    | cons head tail =>
        simp only [earlier, List.cons_append, List.cons.injEq] at split
        exact split.1 ▸ part head tail earlier

theorem Balanced.process {e : Exchange} {rest : List Exchange} (balanced : s.Balanced)
    (reads : s.broker = .reading e.request) (next : s.ahead = e :: rest) :
    Balanced { s with
      ahead := rest
      broker := .writing e.response
      coming := if e.response = 0 then s.coming else s.coming ++ [e.response] } := by
  obtain ⟨up, part, down⟩ := balanced
  rw [reads, next, List.map_cons, List.sum_cons] at up
  rw [reads] at down
  simp only [Broker.got, Broker.left] at up down
  refine ⟨?_, fun _ _ _ => Nat.zero_le _, ?_⟩
  · simp only [Broker.got]
    omega
  · simp only [Broker.left]
    split
    · omega
    · rw [List.sum_append, List.sum_singleton]
      omega

theorem Balanced.step (balanced : s.Balanced) (change : Change buffers s action t) : t.Balanced := by
  cases change with
  | take waits queue => exact balanced.take waits
  | process reads next => exact balanced.process reads next
  | enqueue | flushTick | route => exact ⟨balanced.up, balanced.part, balanced.down⟩
  | write sends some part room =>
      have up := balanced.up
      rw [sends] at up
      refine ⟨?_, balanced.part, balanced.down⟩
      simp only [WritePhase.left] at up ⊢
      omega
  | sent sends =>
      have up := balanced.up
      rw [sends] at up
      exact ⟨up, balanced.part, balanced.down⟩
  | receive waits some there =>
      have down := balanced.down
      refine ⟨balanced.up, balanced.part, ?_⟩
      simp only
      omega
  | frame waits next whole =>
      have up := balanced.up
      have down := balanced.down
      rw [waits] at up
      rw [next, List.sum_cons] at down
      refine ⟨up, balanced.part, ?_⟩
      simp only
      omega
  | forward forwards room =>
      have up := balanced.up
      rw [forwards] at up
      exact ⟨up, balanced.part, balanced.down⟩
  | @read n got e rest reads next some there part =>
      have up := balanced.up
      have down := balanced.down
      rw [reads] at up down
      simp only [Broker.got, Broker.left] at up down
      refine ⟨?_, fun first others split => ?_, down⟩
      · simp only [Broker.got]
        omega
      · cases next.symm.trans split
        exact part
  | reply writes some part room =>
      have up := balanced.up
      have down := balanced.down
      rw [writes] at up down
      refine ⟨up, fun _ _ _ => Nat.zero_le _, ?_⟩
      simp only [Broker.left] at down ⊢
      omega
  | replied writes =>
      have up := balanced.up
      have down := balanced.down
      rw [writes] at up down
      exact ⟨up, fun _ _ _ => Nat.zero_le _, down⟩

/-! ## A send comes to its end -/

def Sends (buffers : Buffers) (s : Framed) : Prop :=
  ∀ left, s.writeLoop = .sending left → s.Clear buffers left s.ahead

theorem clears_read {e : Exchange} {rest : List Exchange} {needed room got n : Nat}
    (part : got + n ≤ e.request) :
    clears (e :: rest) (needed - n) room (got + n) ↔ clears (e :: rest) needed room got := by
  have same : needed - n - (e.request - (got + n)) = needed - (e.request - got) := by omega
  have fits : needed - n ≤ e.request - (got + n) ↔ needed ≤ e.request - got := by omega
  simp only [clears, same, fits]

theorem Change.clear_iff {left after : Nat} (change : Change buffers s action t)
    (sends : s.writeLoop = .sending left) (still : t.writeLoop = .sending after) :
    t.Clear buffers after t.ahead ↔ s.Clear buffers left s.ahead := by
  unfold Clear
  cases change with
  | enqueue | flushTick | route =>
      cases sends.symm.trans still
      rfl
  | take waits | receive waits | frame waits => cases waits.symm.trans sends
  | forward forwards => cases forwards.symm.trans sends
  | sent => cases still
  | @write n _ sending some part room =>
      cases sending.symm.trans sends
      cases still
      have same : s.up + n + (left - n) = s.up + left := by omega
      simp only [same]
  | @read n got e rest reads next some there part =>
      cases sends.symm.trans still
      have same : s.up - n + left - buffers.up = s.up + left - buffers.up - n := by omega
      simp only [same, reads, next, Broker.clears]
      exact clears_read part
  | @process e rest reads next =>
      cases sends.symm.trans still
      simp [reads, next, Broker.clears, clears]
  | @reply n before writes some part room =>
      cases sends.symm.trans still
      have same : buffers.down - (s.down + n) - (before - n) = buffers.down - s.down - before := by
        omega
      have fits : before - n ≤ buffers.down - (s.down + n) ↔ before ≤ buffers.down - s.down := by
        omega
      simp only [writes, Broker.clears, same, fits]
  | replied writes =>
      cases sends.symm.trans still
      simp only [writes, Broker.clears, Nat.zero_le, true_and, Nat.sub_zero]
      constructor
      · exact .inr
      · rintro (fits | later)
        · rw [fits]
          exact clears_zero _ _ _
        · exact later

theorem Change.takes {after : Nat} (change : Change buffers s action t)
    (idle : ∀ left, s.writeLoop ≠ .sending left) (begins : t.writeLoop = .sending after) :
    action = .take := by
  cases change with
  | take => rfl
  | enqueue | flushTick | route | read | process | reply | replied => exact absurd begins (idle after)
  | write sends | sent sends => exact absurd sends (idle _)
  | receive waits => cases waits.symm.trans begins
  | frame | forward => cases begins

theorem Change.stays {left : Nat} (change : Change buffers s action t)
    (sends : s.writeLoop = .sending left) (more : left ≠ 0) : ∃ after, t.writeLoop = .sending after := by
  cases change with
  | enqueue | flushTick | route | read | process | reply | replied => exact ⟨left, sends⟩
  | take => exact ⟨_, rfl⟩
  | write => exact ⟨_, rfl⟩
  | sent done =>
      cases done.symm.trans sends
      exact absurd rfl more
  | receive waits | frame waits => cases waits.symm.trans sends
  | forward forwards => cases forwards.symm.trans sends

theorem Sends.step (sends : s.Sends buffers) (guarded : Clears buffers s action)
    (change : Change buffers s action t) : t.Sends buffers := by
  intro after still
  by_cases sending : ∃ left, s.writeLoop = .sending left
  · obtain ⟨left, sending⟩ := sending
    exact (change.clear_iff sending still).mpr (sends left sending)
  · cases change.takes (fun left same => sending ⟨left, same⟩) still
    cases change with
    | take waits queue =>
        cases still
        exact guarded _ (by simp [queue])

/-! ## Somebody can go on -/

def Moves (buffers : Buffers) (s : Framed) : Prop :=
  ∃ action : FramedAction, action.isOwn = true ∧ (s.step buffers action).isSome = true

theorem Balanced.moves_reading {got : Nat} (balanced : s.Balanced) (reads : s.broker = .reading got)
    (ahead : s.ahead ≠ []) (there : s.writeLoop.left = 0 ∨ 0 < s.up) : s.Moves buffers := by
  obtain ⟨up, part, _⟩ := balanced
  cases next : s.ahead with
  | nil => exact absurd next ahead
  | cons e rest =>
      have whole := part e rest next
      rw [next, List.map_cons, List.sum_cons] at up
      simp only [reads, Broker.got] at up whole
      by_cases done : got = e.request
      · exact ⟨.process, rfl, by simp [Framed.step, reads, next, done]⟩
      · have bytes : 0 < s.up := by omega
        exact ⟨.read 1, rfl, by simp [Framed.step, reads, next]; omega⟩

theorem moves_writing {left : Nat} (writes : s.broker = .writing left)
    (room : left = 0 ∨ s.down < buffers.down) : s.Moves buffers := by
  cases left with
  | zero => exact ⟨.replied, rfl, by simp [Framed.step, writes]⟩
  | succ left => exact ⟨.reply 1, rfl, by simp [Framed.step, writes]; omega⟩

theorem Balanced.moves_select (balanced : s.Balanced) (waits : s.writeLoop = .select)
    (busy : s.Busy) : s.Moves buffers := by
  by_cases arrived : 0 < s.down
  · exact ⟨.receive 1, rfl, by simp [Framed.step, waits]; omega⟩
  cases broker : s.broker with
  | writing left =>
      apply moves_writing broker
      have positive := buffers.down_pos
      omega
  | reading got =>
      by_cases ahead : s.ahead = []
      · have down := balanced.down
        rw [broker] at down
        simp only [Broker.left] at down
        cases next : s.coming with
        | cons size rest =>
            rw [next, List.sum_cons] at down
            exact ⟨.frame, rfl, by simp [Framed.step, waits, next]; omega⟩
        | nil =>
            obtain queued | sends | asked | coming | routes := busy
            · obtain ⟨e, rest, queue⟩ := List.exists_cons_of_ne_nil queued
              exact ⟨.take, rfl, by simp [Framed.step, waits, queue]⟩
            · exact absurd waits sends
            · exact absurd ahead asked
            · exact absurd next coming
            · exact ⟨.route, rfl, by simp [Framed.step]; omega⟩
      · exact balanced.moves_reading broker ahead (.inl (by rw [waits]; rfl))

theorem Balanced.moves_sending {left : Nat} (balanced : s.Balanced) (sends : s.Sends buffers)
    (sending : s.writeLoop = .sending left) : s.Moves buffers := by
  by_cases whole : left = 0
  · exact ⟨.sent, rfl, by simp [Framed.step, sending, whole]⟩
  by_cases room : s.up < buffers.up
  · exact ⟨.write 1, rfl, by simp [Framed.step, sending]; omega⟩
  have full : 0 < s.up := by
    have positive := buffers.up_pos
    omega
  cases broker : s.broker with
  | reading got =>
      apply balanced.moves_reading broker _ (.inr full)
      intro none
      have up := balanced.up
      rw [none, sending] at up
      simp only [WritePhase.left, List.map_nil, List.sum_nil] at up
      omega
  | writing owed =>
      apply moves_writing broker
      have clear := sends left sending
      unfold Clear at clear
      rw [broker] at clear
      obtain fits | ⟨response, _⟩ := clear
      · omega
      · omega

theorem moves_forwarding (forwards : s.writeLoop = .forwarding) : s.Moves buffers := by
  by_cases room : s.readRx < readCapacity
  · exact ⟨.forward, rfl, by simp [Framed.step, forwards, room]⟩
  · exact ⟨.route, rfl, by simp [Framed.step]; unfold readCapacity at room; omega⟩

theorem kept_of_reach (reach : (system buffers).Reach (Clears buffers) s) :
    s.Balanced ∧ s.Sends buffers := by
  induction reach with
  | initial first =>
      rw [first]
      exact ⟨⟨rfl, nofun, rfl⟩, nofun⟩
  | next _ guarded taken ih =>
      have change := Change.of_step taken
      exact ⟨ih.1.step change, ih.2.step guarded change⟩

/-- While something is to be transferred one of the two loops or the broker can go on. -/
theorem never_stuck (reach : (system buffers).Reach (Clears buffers) s) (busy : s.Busy) :
    ∃ action : FramedAction, action.isOwn = true ∧ (s.step buffers action).isSome = true := by
  obtain ⟨balanced, sends⟩ := kept_of_reach reach
  cases phase : s.writeLoop with
  | select => exact balanced.moves_select phase busy
  | sending left => exact balanced.moves_sending sends phase
  | forwarding => exact moves_forwarding phase

/-! ## What cannot come to its end gets stuck -/

def remaining (s : Framed) : Nat :=
  2 * s.writeLoop.left + s.up + (s.ahead.map fun e => e.response + 2).sum + s.broker.remaining + s.readRx

theorem Change.remaining_lt {left : Nat} (change : Change buffers s action t)
    (sends : s.writeLoop = .sending left) (still : left ≠ 0) (own : action.isOwn = true) :
    t.remaining < s.remaining := by
  cases change with
  | enqueue | flushTick => cases own
  | take waits | receive waits | frame waits => cases waits.symm.trans sends
  | forward forwards => cases forwards.symm.trans sends
  | sent done =>
      cases done.symm.trans sends
      exact absurd rfl still
  | write sending some part room =>
      simp only [remaining, sending, WritePhase.left]
      omega
  | route there =>
      simp only [remaining]
      omega
  | read reads next some there part =>
      simp only [remaining, reads, Broker.remaining]
      omega
  | process reads next =>
      simp only [remaining, reads, next, Broker.remaining, List.map_cons, List.sum_cons]
      omega
  | reply writes some part room =>
      simp only [remaining, writes, Broker.remaining]
      omega
  | replied writes =>
      simp only [remaining, writes, Broker.remaining]
      omega

theorem up_le_of_reach (reach : (system buffers).Reachable s) : s.up ≤ buffers.up := by
  induction reach with
  | initial first =>
      rw [first]
      exact Nat.zero_le _
  | next _ _ taken ih =>
      cases Change.of_step taken with
      | write sends some part room => exact room
      | read reads next some there part => exact (Nat.sub_le _ _).trans ih
      | _ => exact ih

/-- Once a request is taken that the write loop cannot send to the end, nobody can go on in the end. -/
theorem gets_stuck {s : Framed} {left : Nat} (reach : (system buffers).Reachable s)
    (sends : s.writeLoop = .sending left) (never : ¬ s.Clear buffers left s.ahead) :
    ∃ t : Framed, (system buffers).Leads (fun _ _ => True) s t ∧ t.Busy ∧ ¬ t.Moves buffers := by
  by_cases moves : s.Moves buffers
  · obtain ⟨action, own, able⟩ := moves
    obtain ⟨t, taken⟩ := Option.isSome_iff_exists.mp able
    have change := Change.of_step taken
    have still : left ≠ 0 := by
      rintro rfl
      have room := up_le_of_reach reach
      have none : s.up + 0 - buffers.up = 0 := by omega
      exact never (by unfold Clear; rw [none]; exact s.broker.clears_zero _ _)
    have less := change.remaining_lt sends still own
    obtain ⟨after, sending⟩ := change.stays sends still
    obtain ⟨u, leads, busy, stuck⟩ := gets_stuck (reach.next taken) sending
      fun clear => never ((change.clear_iff sends sending).mp clear)
    exact ⟨u, (System.Leads.refl.next trivial taken).trans leads, busy, stuck⟩
  · exact ⟨s, .refl, .inr (.inl (by simp [sends])), moves⟩
termination_by s.remaining

/-! ## The write loop and the broker wait for each other -/

def ten : Buffers := ⟨10, 10, by decide, by decide⟩

theorem never_stuck_small : ∃ s : Framed, s.Busy ∧
    ∃ action : FramedAction, action.isOwn = true ∧ (s.step ten action).isSome = true := by
  obtain ⟨s, reach, waits⟩ := (system ten).exists_reach (Clears ten) .start
    [.enqueue ⟨4, 30⟩, .enqueue ⟨8, 4⟩, .take, .write 4, .sent, .take, .write 6]
    (fun s => s.writeLoop = .sending 2) rfl (by decide +kernel)
  have busy : s.Busy := .inr (.inl (by simp [waits]))
  exact ⟨s, busy, never_stuck reach busy⟩

def deadlock : Framed :=
  { start with
    writeLoop := .sending 10, needsFlush := true, up := 10, ahead := [⟨20, 4⟩]
    broker := .writing 20, down := 10, coming := [30] }

theorem deadlock_stuck (own : action.isOwn = true) : deadlock.step ten action = none := by
  cases action with
  | enqueue | flushTick => cases own
  | write n | reply n =>
      refine if_neg fun able => ?_
      have room := able.2.2
      simp only [deadlock, ten] at room
      omega
  | _ => rfl

theorem deadlocked : ¬ ∀ (buffers : Buffers) (s : Framed), (system buffers).Reachable s → s.Busy →
    ∃ action : FramedAction, action.isOwn = true ∧ (s.step buffers action).isSome = true := by
  intro claim
  obtain ⟨s, reach, rfl⟩ := (system ten).exists_reach (fun _ _ => True) .start
    [.enqueue ⟨4, 30⟩, .enqueue ⟨20, 4⟩, .take, .write 4, .sent, .read 4, .process, .reply 10, .take,
      .write 10] (fun s => s = deadlock) rfl (by decide +kernel)
  obtain ⟨action, own, able⟩ := claim ten deadlock reach (.inr (.inl (by decide)))
  rw [deadlock_stuck own] at able
  cases able

end Framed
end KafkaProxy.Pooled
