import KafkaProxy.Library.Watch
import KafkaProxy.PerConnection.Basic

/-!
# The idle timeout of a client

Every turn of the loop starts the timeout again, and the flush timer ends a turn every 5 ms, so what
ends the wait for a client comes from the client or from the broker's connection. A task is polled in
the millisecond in which it is ready: one that is polled 5 ms late could find a timeout of up to
10 ms elapsed.
-/

namespace KafkaProxy.PerConnection
open Library

structure Early (d now : Nat) (f : Forwarder) : Prop where
  tick : f.flushTick ≤ now + flushPeriod
  select : ∀ timeoutAt, f.phase = .select timeoutAt →
    ∃ t, timeoutAt = some t ∧ now < t ∧ f.flushTick + d ≤ t + flushPeriod
  ended : f.phase ≠ .returned .idleTimeout

variable {d now : Nat} {f g : Forwarder}

theorem Early.turn (positive : 0 < d) (tick : f.flushTick ≤ now + flushPeriod) :
    Early d now (f.turn (some d) now) := by
  refine ⟨tick, ?_, by simp [Forwarder.turn]⟩
  intro timeoutAt waits
  simp only [Forwarder.turn, Option.map_some, Phase.select.injEq] at waits
  refine ⟨now + d, waits.symm, ?_, ?_⟩
  · exact Nat.lt_add_of_pos_right positive
  · simp only [Forwarder.turn]
    omega

theorem Early.leave {phase : Phase} (early : Early d now f)
    (leaves : ∀ timeoutAt, phase ≠ .select timeoutAt) (reason : phase ≠ .returned .idleTimeout)
    {read : List Arrival} : Early d now { f with read, phase } :=
  ⟨early.tick, fun timeoutAt waits => absurd waits (leaves timeoutAt), reason⟩

theorem Early.step {handle : Frame → Pending → Frame × Pending} {before after : Pending}
    {action : ForwarderAction} (positive : 0 < d) (early : Early d now f)
    (change : Forwarder.Change (some d) now handle f before action g after) : Early d now g := by
  cases change with
  | arrive item => exact ⟨early.tick, early.select, early.ended⟩
  | frame waits queue => exact early.leave (by simp) (by simp)
  | error waits queue => exact early.leave (by simp) (by simp)
  | eof waits queue => exact early.leave (by simp) (by simp)
  | elapsed waits empty late =>
      obtain ⟨t, same, ahead, _⟩ := early.select _ waits
      cases same
      omega
  | idleTick waits due clean =>
      apply Early.turn positive
      simp only
      omega
  | flushTick waits due dirty =>
      refine ⟨?_, by simp, by simp⟩
      simp only
      omega
  | flushed flushes => exact Early.turn positive early.tick
  | flushFailed flushes => exact early.leave (by simp) (by simp)
  | sent sends => exact Early.turn positive early.tick
  | sendFailed sends => exact early.leave (by simp) (by simp)

theorem Early.pass (long : flushPeriod < d) (early : Early d now f) (idle : f.ready now = false) :
    Early d (now + 1) f := by
  refine ⟨early.tick.trans (by omega), ?_, early.ended⟩
  intro timeoutAt waits
  obtain ⟨t, same, _, apart⟩ := early.select timeoutAt waits
  refine ⟨t, same, ?_, apart⟩
  simp only [Forwarder.ready, waits, Bool.or_eq_false_iff, decide_eq_false_iff_not] at idle
  omega

/-! ## What the client and the broker's connection do -/

/-- `takenAt` is when the broker's connection took the last frame, and `unflushed` says that nothing
has been flushed since. -/
structure Contact where
  closed : Bool
  refused : Bool
  arrived : Nat
  taken : Nat
  takenAt : Nat
  unflushed : Bool

def Arrival.isFrame : Arrival → Bool
  | .frame _ => true
  | .error | .eof => false

@[simp] theorem Arrival.isFrame_frame (data : Frame) : (frame data).isFrame = true := rfl

def Phase.inHand : Phase → Nat
  | .sending _ => 1
  | .select _ | .flushing | .returned _ => 0

namespace Contact

def first : Contact :=
  { closed := false, refused := false, arrived := 0, taken := 0, takenAt := 0, unflushed := false }

def note (now : Nat) (c : Contact) : ForwarderAction → Contact
  | .arrive item =>
      if item.isFrame then { c with arrived := c.arrived + 1 } else { c with closed := true }
  | .sent => { c with taken := c.taken + 1, takenAt := now, unflushed := true }
  | .flushed => { c with unflushed := false }
  | .sendFailed | .flushFailed => { c with refused := true }
  | .next | .elapsed | .flushTick => c

/-- The connection has not taken a frame that has arrived, or has not flushed what it took. -/
def Blocked (c : Contact) (now : Nat) : Prop :=
  c.taken < c.arrived ∨ c.unflushed = true ∧ c.takenAt + flushPeriod ≤ now

structure Follows (c : Contact) (f : Forwarder) : Prop where
  dirty : f.needsFlush = c.unflushed
  due : c.unflushed = true → ∀ timeoutAt, f.phase = .select timeoutAt →
    f.flushTick ≤ c.takenAt + flushPeriod
  flushes : f.phase = .flushing → c.unflushed = true
  count : (∀ why, f.phase ≠ .returned why) →
    c.arrived = c.taken + f.read.countP (·.isFrame) + f.phase.inHand
  closed : (∀ why, f.phase ≠ .returned why) → (c.closed = true ↔ ∃ item ∈ f.read, item.isFrame = false)
  accepted : (∀ why, f.phase ≠ .returned why) → c.refused = false
  gone : ∀ why, f.phase = .returned why → why = .idleTimeout ∨ c.closed = true ∨ c.refused = true

variable {c : Contact}

theorem follows_start (idle : Option Nat) : first.Follows (.start idle 0) :=
  ⟨rfl, nofun, nofun, fun _ => rfl, by simp [first, Forwarder.start], fun _ => rfl, nofun⟩

theorem Follows.arrive (follows : c.Follows f) (item : Arrival) :
    (c.note now (.arrive item)).Follows { f with read := f.read ++ [item] } := by
  obtain ⟨dirty, due, flushes, count, closed, accepted, gone⟩ := follows
  cases kind : item.isFrame with
  | true =>
      simp only [note, kind, if_true]
      refine ⟨dirty, due, flushes, fun running => ?_, fun running => ?_, accepted, gone⟩
      · have known := count running
        simp only [List.countP_append, List.countP_singleton, kind, if_true]
        omega
      · rw [closed running]
        simp [kind, or_and_right, exists_or]
  | false =>
      simp only [note, kind, Bool.false_eq_true, if_false]
      refine ⟨dirty, due, flushes, fun running => ?_, fun _ => ?_, accepted, fun _ _ => .inr (.inl rfl)⟩
      · simpa [List.countP_append, kind] using count running
      · exact iff_of_true rfl ⟨item, by simp, kind⟩

theorem Follows.stop {why : Ended} {read : List Arrival} (dirty : f.needsFlush = c.unflushed)
    (reason : why = .idleTimeout ∨ c.closed = true ∨ c.refused = true) :
    c.Follows ({ f with read }.stop why) := by
  refine ⟨dirty, fun _ _ waits => ?_, nofun, fun running => absurd rfl (running why),
    fun running => absurd rfl (running why), fun running => absurd rfl (running why), fun _ ended => ?_⟩
  · cases waits
  · cases ended
    exact reason

theorem Follows.onward (follows : c.Follows f) (running : ∀ why, f.phase ≠ .returned why)
    {phase : Phase} {flushTick : Nat} (goesOn : ∀ why, phase ≠ .returned why)
    (same : phase.inHand = f.phase.inHand)
    (due : c.unflushed = true → ∀ timeoutAt, phase = .select timeoutAt →
      flushTick ≤ c.takenAt + flushPeriod)
    (flushes : phase = .flushing → c.unflushed = true) : c.Follows { f with flushTick, phase } := by
  refine ⟨follows.dirty, due, flushes, fun _ => ?_, fun _ => follows.closed running,
    fun _ => follows.accepted running, fun why ended => absurd ended (goesOn why)⟩
  rw [same]
  exact follows.count running

theorem Follows.step {idle : Option Nat} {handle : Frame → Pending → Frame × Pending}
    {before after : Pending} {action : ForwarderAction} (follows : c.Follows f)
    (tick : f.flushTick ≤ now + flushPeriod)
    (change : Forwarder.Change idle now handle f before action g after) : (c.note now action).Follows g := by
  cases change with
  | arrive item => exact follows.arrive item
  | @frame timeoutAt data rest waits queue =>
      have running : ∀ why, f.phase ≠ .returned why := by simp [waits]
      obtain ⟨dirty, due, flushes, count, closed, accepted, gone⟩ := follows
      refine ⟨dirty, by simp, by simp, fun _ => ?_, fun _ => ?_, fun _ => accepted running, by simp⟩
      · have known := count running
        simp only [queue, waits, Phase.inHand, List.countP_cons, Arrival.isFrame_frame, if_true] at known
        simp only [note, Phase.inHand]
        omega
      · have known := closed running
        simpa [queue, note] using known
  | error waits queue =>
      have ended := (follows.closed (by simp [waits])).mpr ⟨.error, by simp [queue], rfl⟩
      exact .stop follows.dirty (.inr (.inl ended))
  | eof waits queue =>
      have ended := (follows.closed (by simp [waits])).mpr ⟨.eof, by simp [queue], rfl⟩
      exact .stop follows.dirty (.inr (.inl ended))
  | elapsed waits empty late => exact .stop follows.dirty (.inl rfl)
  | idleTick waits late clean =>
      refine follows.onward (by simp [waits]) (by simp) (by simp [waits, Phase.inHand]) ?_ nofun
      intro unflushed
      rw [follows.dirty, unflushed] at clean
      cases clean
  | flushTick waits late dirty =>
      exact follows.onward (by simp [waits]) (by simp) (by simp [waits, Phase.inHand]) (by simp)
        fun _ => follows.dirty.symm.trans dirty
  | flushed flushing =>
      have running : ∀ why, f.phase ≠ .returned why := by simp [flushing]
      obtain ⟨dirty, due, flushes, count, closed, accepted, gone⟩ := follows
      refine ⟨rfl, nofun, nofun, fun _ => ?_, fun _ => closed running, fun _ => accepted running,
        by simp [Forwarder.turn]⟩
      have known := count running
      rwa [flushing] at known
  | flushFailed flushes => exact .stop follows.dirty (.inr (.inr rfl))
  | @sent data sends =>
      have running : ∀ why, f.phase ≠ .returned why := by simp [sends]
      obtain ⟨dirty, due, flushes, count, closed, accepted, gone⟩ := follows
      refine ⟨rfl, fun _ _ _ => tick, nofun, fun _ => ?_, fun _ => closed running, fun _ => accepted running,
        by simp [Forwarder.turn]⟩
      have known := count running
      simp only [sends, Phase.inHand] at known
      simp only [note, Forwarder.turn, Phase.inHand]
      omega
  | sendFailed sends => exact .stop follows.dirty (.inr (.inr rfl))

end Contact

namespace Relay

variable {idle : Option Nat} {codecs : Codecs} {map : RewriteMap} {r r' : Relay} {s t : Relay × Contact}
  {action : RelayAction}

def contacts (idle : Option Nat) (codecs : Codecs) (map : RewriteMap) :
    System (Relay × Contact) RelayAction :=
  (system idle codecs map).watch .first fun r action c =>
    match action with
    | .down action => c.note r.now action
    | .tick | .up _ => c

def Waiting (r : Relay) : Prop := ∃ timeoutAt, r.downToUp.phase = .select timeoutAt

def Overdue (d : Nat) (r : Relay) : Prop := r.Waiting ∧ r.last + d + flushPeriod < r.now

/-- When `d` and a flush period have passed since the last frame, the client has closed, or writing to
the broker has failed or is blocked. The broker's connection does not answer later than that. -/
def InTime (d : Nat) (s : Relay × Contact) : RelayAction → Prop
  | .tick => s.1.now < s.1.last + d + flushPeriod ∨ s.2.closed = true ∨ s.2.refused = true ∨
      s.2.Blocked s.1.now
  | .down .sent | .down .flushed => s.1.now ≤ s.1.last + d + flushPeriod
  | .down (.arrive _) | .down .next | .down .elapsed | .down .flushTick | .down .flushFailed
  | .down .sendFailed | .up _ => True

structure Kept (d : Nat) (s : Relay × Contact) : Prop where
  early : Early d s.1.now s.1.downToUp
  follows : s.2.Follows s.1.downToUp

theorem tick_eq_some (taken : (system idle codecs map).step r .tick = some r') :
    r.downToUp.ready r.now = false ∧ r' = { r with now := r.now + 1 } := by
  simp only [system, step] at taken
  split at taken <;> cases taken
  rename_i idle
  simp only [Bool.or_eq_true, not_or, Bool.not_eq_true] at idle
  exact ⟨idle.1, rfl⟩

theorem Kept.step (long : flushPeriod < d) (kept : Kept d s)
    (taken : (contacts (some d) codecs map).step s action = some t) : Kept d t := by
  obtain ⟨early, follows⟩ := kept
  obtain ⟨stepped, noted⟩ := System.watch_step.mp taken
  cases action with
  | tick =>
      obtain ⟨idle, same⟩ := tick_eq_some stepped
      constructor
      · rw [same]
        exact early.pass long idle
      · rw [noted, same]
        exact follows
  | down action =>
      obtain ⟨⟨downToUp, pending⟩, moved, same⟩ := Option.map_eq_some_iff.mp stepped
      have change := Forwarder.Change.of_step moved
      constructor
      · rw [← same]
        exact early.step (Nat.zero_lt_of_lt long) change
      · rw [noted, ← same]
        exact follows.step early.tick change
  | up action =>
      obtain ⟨⟨upToDown, pending⟩, _, same⟩ := Option.map_eq_some_iff.mp stepped
      constructor
      · rw [← same]
        exact early
      · rw [noted, ← same]
        exact follows

theorem kept_of_reach {allowed : Relay × Contact → RelayAction → Prop} (long : flushPeriod < d)
    (reach : (contacts (some d) codecs map).Reach allowed s) : Kept d s := by
  induction reach with
  | initial first =>
      obtain ⟨started, unknown⟩ := first
      constructor
      · rw [started]
        exact Early.turn (f := .start none 0) (Nat.zero_lt_of_lt long) (Nat.zero_le _)
      · rw [unknown, started]
        exact Contact.follows_start (some d)
  | next _ _ taken ih => exact ih.step long taken

theorem Kept.unexcused (kept : Kept d s) (waits : s.1.Waiting) (idle : s.1.downToUp.ready s.1.now = false) :
    s.2.closed = false ∧ s.2.refused = false ∧ ¬ s.2.Blocked s.1.now := by
  obtain ⟨early, follows⟩ := kept
  obtain ⟨timeoutAt, phase⟩ := waits
  have running : ∀ why, s.1.downToUp.phase ≠ .returned why := by simp [phase]
  simp only [Forwarder.ready, phase, Bool.or_eq_false_iff, Bool.not_eq_false', List.isEmpty_iff,
    decide_eq_false_iff_not] at idle
  obtain ⟨⟨empty, early⟩, _⟩ := idle
  refine ⟨?_, follows.accepted running, ?_⟩
  · rw [← Bool.not_eq_true, follows.closed running, empty]
    simp
  · have known := follows.count running
    rw [empty, phase, List.countP_nil, Phase.inHand] at known
    rintro (untaken | ⟨unflushed, since⟩)
    · omega
    · exact early ((follows.due unflushed timeoutAt phase).trans since)

theorem waits_before {f g : Forwarder} {before after : Pending} {handle : Frame → Pending → Frame × Pending}
    {action : ForwarderAction} {timeoutAt : Option Nat}
    (change : Forwarder.Change idle now handle f before action g after) (waits : g.phase = .select timeoutAt) :
    (∃ earlier, f.phase = .select earlier) ∨ action = .sent ∨ action = .flushed := by
  cases change with
  | arrive item => exact .inl ⟨timeoutAt, waits⟩
  | idleTick earlier late clean => exact .inl ⟨_, earlier⟩
  | flushed flushes => exact .inr (.inr rfl)
  | sent sends => exact .inr (.inl rfl)
  | frame | error | eof | elapsed | flushTick | flushFailed | sendFailed => cases waits

theorem not_overdue_step (kept : Kept d s) (inTime : InTime d s action) (before : ¬ s.1.Overdue d)
    (taken : (contacts (some d) codecs map).step s action = some t) : ¬ t.1.Overdue d := by
  obtain ⟨stepped, _⟩ := System.watch_step.mp taken
  rintro ⟨waits, late⟩
  cases action with
  | tick =>
      obtain ⟨idle, same⟩ := tick_eq_some stepped
      rw [same] at waits late
      obtain ⟨opens, accepted, unblocked⟩ := kept.unexcused waits idle
      obtain recent | closed | refused | blocked := inTime
      · simp only at late
        omega
      · cases opens.symm.trans closed
      · cases accepted.symm.trans refused
      · exact unblocked blocked
  | down action =>
      obtain ⟨⟨downToUp, pending⟩, moved, same⟩ := Option.map_eq_some_iff.mp stepped
      rw [← same] at waits late
      obtain ⟨timeoutAt, phase⟩ := waits
      obtain earlier | rfl | rfl := waits_before (.of_step moved) phase
      · apply before
        refine ⟨earlier, ?_⟩
        simp only at late
        split at late
        · omega
        · exact late
      · exact absurd inTime (Nat.not_le_of_lt late)
      · exact absurd inTime (Nat.not_le_of_lt late)
  | up action =>
      obtain ⟨⟨upToDown, pending⟩, _, same⟩ := Option.map_eq_some_iff.mp stepped
      rw [← same] at waits late
      exact before ⟨waits, late⟩

theorem overdue_step (kept : Kept d s) (late : ¬ InTime d s action)
    (taken : (contacts (some d) codecs map).step s action = some t) :
    t.1.Overdue d ∨ t.1.downToUp.phase = .flushing ∧ t.1.now ≤ t.2.takenAt + flushPeriod := by
  obtain ⟨early, follows⟩ := kept
  obtain ⟨stepped, noted⟩ := System.watch_step.mp taken
  cases action with
  | tick =>
      obtain ⟨idle, same⟩ := tick_eq_some stepped
      simp only [InTime, Contact.Blocked, not_or, not_and, Nat.not_lt, Nat.not_le] at late
      obtain ⟨silent, opens, accepted, taken, flushed⟩ := late
      cases phase : s.1.downToUp.phase with
      | select timeoutAt =>
          left
          rw [same]
          exact ⟨⟨timeoutAt, phase⟩, Nat.lt_succ_of_le silent⟩
      | sending data =>
          have known := follows.count (by simp [phase])
          rw [phase, Phase.inHand] at known
          omega
      | flushing =>
          right
          rw [noted, same]
          exact ⟨phase, flushed (follows.flushes phase)⟩
      | returned why =>
          obtain rfl | closed | refused := follows.gone why phase
          · exact absurd phase early.ended
          · exact absurd closed opens
          · exact absurd refused accepted
  | down action =>
      obtain ⟨⟨downToUp, pending⟩, moved, same⟩ := Option.map_eq_some_iff.mp stepped
      have change := Forwarder.Change.of_step moved
      left
      rw [← same]
      cases action with
      | sent =>
          cases change
          exact ⟨⟨_, rfl⟩, Nat.lt_of_not_le late⟩
      | flushed =>
          cases change
          exact ⟨⟨_, rfl⟩, Nat.lt_of_not_le late⟩
      | arrive | next | elapsed | flushTick | flushFailed | sendFailed => exact absurd trivial late
  | up action => exact absurd trivial late

/-- The idle timeout never ends a task. A client that sends nothing is disconnected in time by what
it does itself or by a connection to the broker that fails or is blocked, and by nothing else. -/
theorem disconnected_in_time (long : flushPeriod < d) :
    (∀ r, (system (some d) codecs map).Reachable r → r.downToUp.phase ≠ .returned .idleTimeout) ∧
    (∀ s, (contacts (some d) codecs map).Reach (InTime d) s → ¬ s.1.Overdue d) ∧
    ∀ s action t, (contacts (some d) codecs map).Reachable s → ¬ InTime d s action →
      (contacts (some d) codecs map).step s action = some t →
      t.1.Overdue d ∨ t.1.downToUp.phase = .flushing ∧ t.1.now ≤ t.2.takenAt + flushPeriod := by
  refine ⟨?_, ?_, ?_⟩
  · intro r reachable
    obtain ⟨c, reach⟩ := reachable.watched
    exact (kept_of_reach long reach).early.ended
  · intro s reach
    induction reach with
    | initial first =>
        rintro ⟨_, late⟩
        rw [first.1] at late
        exact absurd late (Nat.not_lt_zero _)
    | next before inTime taken ih => exact not_overdue_step (kept_of_reach long before) inTime ih taken
  · intro s action t reachable late taken
    exact overdue_step (kept_of_reach long reachable) late taken

/-! ## A timeout of 6 ms -/

instance (c : Contact) (now : Nat) : Decidable (c.Blocked now) :=
  inferInstanceAs (Decidable (_ ∨ _))

instance (d : Nat) (s : Relay × Contact) (action : RelayAction) : Decidable (InTime d s action) :=
  match action with
  | .tick => inferInstanceAs (Decidable (_ ∨ _ ∨ _ ∨ s.2.Blocked s.1.now))
  | .down .sent | .down .flushed => inferInstanceAs (Decidable (_ ≤ _))
  | .down (.arrive _) | .down .next | .down .elapsed | .down .flushTick | .down .flushFailed
  | .down .sendFailed | .up _ => inferInstanceAs (Decidable True)

def ticks (n : Nat) : List RelayAction := .replicate n .tick

def flushTicks : List RelayAction := [.down .flushTick, .up .flushTick]

def sends : List RelayAction :=
  flushTicks ++ ticks 5 ++ flushTicks ++ ticks 4 ++ [.down (.arrive (.frame [1])), .down .next] ++ ticks 1 ++
    [.up .flushTick] ++ ticks 2 ++ [.down .sent, .down .flushTick, .down .flushed] ++ ticks 3 ++ flushTicks ++
    ticks 5 ++ flushTicks

theorem disconnected_in_time_sends : ∃ s : Relay × Contact, s.1.Waiting ∧ s.1.now = 20 ∧ ¬ s.1.Overdue 6 := by
  obtain ⟨s, reach, waits, now⟩ := (contacts (some 6) .unknown ⟨∅⟩).exists_reach (InTime 6)
    (.start (some 6), .first) sends
    (fun s => s.1.downToUp.phase = .select (some 26) ∧ s.1.now = 20) ⟨rfl, rfl⟩ (by decide +kernel)
  exact ⟨s, ⟨_, waits⟩, now, (disconnected_in_time (by decide)).2.1 s reach⟩

theorem silent_client_stays : ¬ ∀ r, (system (some 6) .unknown ⟨∅⟩).Reachable r → ¬ r.Overdue 6 := by
  intro claim
  obtain ⟨r, reachable, waits, late⟩ := (system (some 6) .unknown ⟨∅⟩).exists_reach (fun _ _ => True)
    (.start (some 6)) (flushTicks ++ ticks 5 ++ flushTicks ++ ticks 5 ++ flushTicks ++ ticks 2)
    (fun r => r.downToUp.phase = .select (some 16) ∧ r.last + 6 + flushPeriod < r.now) rfl
    (by decide +kernel)
  exact claim r reachable ⟨⟨_, waits⟩, late⟩

end Relay
end KafkaProxy.PerConnection
