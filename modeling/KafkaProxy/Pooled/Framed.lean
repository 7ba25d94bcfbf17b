import KafkaProxy.Pooled.Basic

/-!
# An upstream connection byte by byte

The write loop, the read loop and the broker, with a finite socket buffer in each direction. A broker
reads the next request after it has written its response to the last one. The write loop reads
nothing while it sends a request: it can wait for the broker, and the broker for it.
-/

namespace KafkaProxy.Pooled
open Library

/-- The sizes of a request and of its response, which is 0 if the request gets none. -/
structure Exchange where
  request : Nat
  response : Nat
  deriving DecidableEq, Repr

structure Buffers where
  up : Nat
  down : Nat
  up_pos : 0 < up
  down_pos : 0 < down

inductive WritePhase where
  | select
  | sending (left : Nat)
  | forwarding
  deriving DecidableEq, Repr

inductive Broker where
  | reading (got : Nat)
  | writing (left : Nat)
  deriving DecidableEq, Repr

/-- `up` and `down` are the bytes in the two buffers. `ahead` are the requests that the broker has not
read to the end, `coming` the sizes of the responses of which the proxy has not read the end, and
`decoded` what it has read of them. -/
structure Framed where
  writeRx : List Exchange
  writeLoop : WritePhase
  needsFlush : Bool
  up : Nat
  ahead : List Exchange
  broker : Broker
  down : Nat
  coming : List Nat
  decoded : Nat
  readRx : Nat
  deriving DecidableEq, Repr

inductive FramedAction where
  | enqueue (e : Exchange)
  | flushTick
  | take
  | write (n : Nat)
  | sent
  | receive (n : Nat)
  | frame
  | forward
  | route
  | read (n : Nat)
  | process
  | reply (n : Nat)
  | replied
  deriving DecidableEq, Repr

def FramedAction.isOwn : FramedAction → Bool
  | .enqueue _ | .flushTick => false
  | .take | .write _ | .sent | .receive _ | .frame | .forward | .route | .read _ | .process | .reply _
  | .replied => true

namespace Framed

def start : Framed :=
  { writeRx := [], writeLoop := .select, needsFlush := false, up := 0, ahead := []
    broker := .reading 0, down := 0, coming := [], decoded := 0, readRx := 0 }

def step (buffers : Buffers) (s : Framed) : FramedAction → Option Framed
  | .enqueue e =>
      if s.writeRx.length < writeCapacity then some { s with writeRx := s.writeRx ++ [e] } else none
  -- A sent frame is flushed already.
  | .flushTick =>
      match s.writeLoop with
      | .select => some { s with needsFlush := false }
      | _ => none
  | .take =>
      match s.writeLoop, s.writeRx with
      | .select, e :: rest =>
          some { s with writeRx := rest, writeLoop := .sending e.request, ahead := s.ahead ++ [e] }
      | _, _ => none
  | .write n =>
      match s.writeLoop with
      | .sending left =>
          if 0 < n ∧ n ≤ left ∧ s.up + n ≤ buffers.up then
            some { s with writeLoop := .sending (left - n), up := s.up + n }
          else none
      | _ => none
  | .sent =>
      match s.writeLoop with
      | .sending 0 => some { s with writeLoop := .select, needsFlush := true }
      | _ => none
  | .receive n =>
      match s.writeLoop with
      | .select =>
          if 0 < n ∧ n ≤ s.down then some { s with down := s.down - n, decoded := s.decoded + n }
          else none
      | _ => none
  | .frame =>
      match s.writeLoop, s.coming with
      | .select, size :: rest =>
          if size ≤ s.decoded then
            some { s with writeLoop := .forwarding, coming := rest, decoded := s.decoded - size }
          else none
      | _, _ => none
  | .forward =>
      match s.writeLoop with
      | .forwarding =>
          if s.readRx < readCapacity then
            some { s with writeLoop := .select, readRx := s.readRx + 1 }
          else none
      | _ => none
  -- Routing never waits: a client's full queue loses the response.
  | .route => if 0 < s.readRx then some { s with readRx := s.readRx - 1 } else none
  | .read n =>
      match s.broker, s.ahead with
      | .reading got, e :: _ =>
          if 0 < n ∧ n ≤ s.up ∧ got + n ≤ e.request then
            some { s with up := s.up - n, broker := .reading (got + n) }
          else none
      | _, _ => none
  | .process =>
      match s.broker, s.ahead with
      | .reading got, e :: rest =>
          if got = e.request then
            some { s with
              ahead := rest
              broker := .writing e.response
              coming := if e.response = 0 then s.coming else s.coming ++ [e.response] }
          else none
      | _, _ => none
  | .reply n =>
      match s.broker with
      | .writing left =>
          if 0 < n ∧ n ≤ left ∧ s.down + n ≤ buffers.down then
            some { s with broker := .writing (left - n), down := s.down + n }
          else none
      | _ => none
  | .replied =>
      match s.broker with
      | .writing 0 => some { s with broker := .reading 0 }
      | _ => none

def system (buffers : Buffers) : System Framed FramedAction where
  initial s := s = .start
  step := step buffers

def Busy (s : Framed) : Prop :=
  s.writeRx ≠ [] ∨ s.writeLoop ≠ .select ∨ s.ahead ≠ [] ∨ s.coming ≠ [] ∨ s.readRx ≠ 0

/-! ## What a step can do -/

inductive Change (buffers : Buffers) (s : Framed) : FramedAction → Framed → Prop where
  | enqueue (e : Exchange) : Change buffers s (.enqueue e) { s with writeRx := s.writeRx ++ [e] }
  | flushTick (waits : s.writeLoop = .select) :
      Change buffers s .flushTick { s with needsFlush := false }
  | take {e : Exchange} {rest : List Exchange} (waits : s.writeLoop = .select)
      (queue : s.writeRx = e :: rest) : Change buffers s .take
        { s with writeRx := rest, writeLoop := .sending e.request, ahead := s.ahead ++ [e] }
  | write {n left : Nat} (sends : s.writeLoop = .sending left) (some : 0 < n) (part : n ≤ left)
      (room : s.up + n ≤ buffers.up) :
      Change buffers s (.write n) { s with writeLoop := .sending (left - n), up := s.up + n }
  | sent (sends : s.writeLoop = .sending 0) :
      Change buffers s .sent { s with writeLoop := .select, needsFlush := true }
  | receive {n : Nat} (waits : s.writeLoop = .select) (some : 0 < n) (there : n ≤ s.down) :
      Change buffers s (.receive n) { s with down := s.down - n, decoded := s.decoded + n }
  | frame {size : Nat} {rest : List Nat} (waits : s.writeLoop = .select)
      (next : s.coming = size :: rest) (whole : size ≤ s.decoded) : Change buffers s .frame
        { s with writeLoop := .forwarding, coming := rest, decoded := s.decoded - size }
  | forward (forwards : s.writeLoop = .forwarding) (room : s.readRx < readCapacity) :
      Change buffers s .forward { s with writeLoop := .select, readRx := s.readRx + 1 }
  | route (there : 0 < s.readRx) : Change buffers s .route { s with readRx := s.readRx - 1 }
  | read {n got : Nat} {e : Exchange} {rest : List Exchange} (reads : s.broker = .reading got)
      (next : s.ahead = e :: rest) (some : 0 < n) (there : n ≤ s.up) (part : got + n ≤ e.request) :
      Change buffers s (.read n) { s with up := s.up - n, broker := .reading (got + n) }
  | process {e : Exchange} {rest : List Exchange} (reads : s.broker = .reading e.request)
      (next : s.ahead = e :: rest) : Change buffers s .process
        { s with
          ahead := rest
          broker := .writing e.response
          coming := if e.response = 0 then s.coming else s.coming ++ [e.response] }
  | reply {n left : Nat} (writes : s.broker = .writing left) (some : 0 < n) (part : n ≤ left)
      (room : s.down + n ≤ buffers.down) :
      Change buffers s (.reply n) { s with broker := .writing (left - n), down := s.down + n }
  | replied (writes : s.broker = .writing 0) :
      Change buffers s .replied { s with broker := .reading 0 }

variable {buffers : Buffers} {s t : Framed} {action : FramedAction}

theorem Change.of_step (taken : s.step buffers action = some t) : Change buffers s action t := by
  cases action with
  | enqueue e =>
      simp only [step] at taken
      split at taken <;> cases taken
      exact .enqueue e
  | flushTick =>
      simp only [step] at taken
      split at taken <;> cases taken
      rename_i waits
      exact .flushTick waits
  | take =>
      simp only [step] at taken
      split at taken <;> cases taken
      rename_i waits queue
      exact .take waits queue
  | write n =>
      simp only [step] at taken
      split at taken
      · rename_i sends
        split at taken <;> cases taken
        rename_i able
        exact .write sends able.1 able.2.1 able.2.2
      · cases taken
  | sent =>
      simp only [step] at taken
      split at taken <;> cases taken
      rename_i sends
      exact .sent sends
  | receive n =>
      simp only [step] at taken
      split at taken
      · rename_i waits
        split at taken <;> cases taken
        rename_i able
        exact .receive waits able.1 able.2
      · cases taken
  | frame =>
      simp only [step] at taken
      split at taken
      · rename_i waits next
        split at taken <;> cases taken
        rename_i whole
        exact .frame waits next whole
      · cases taken
  | forward =>
      simp only [step] at taken
      split at taken
      · rename_i forwards
        split at taken <;> cases taken
        rename_i room
        exact .forward forwards room
      · cases taken
  | route =>
      simp only [step] at taken
      split at taken <;> cases taken
      rename_i there
      exact .route there
  | read n =>
      simp only [step] at taken
      split at taken
      · rename_i reads next
        split at taken <;> cases taken
        rename_i able
        exact .read reads next able.1 able.2.1 able.2.2
      · cases taken
  | process =>
      simp only [step] at taken
      split at taken
      · rename_i reads next
        split at taken <;> cases taken
        rename_i whole
        exact .process (whole ▸ reads) next
      · cases taken
  | reply n =>
      simp only [step] at taken
      split at taken
      · rename_i writes
        split at taken <;> cases taken
        rename_i able
        exact .reply writes able.1 able.2.1 able.2.2
      · cases taken
  | replied =>
      simp only [step] at taken
      split at taken <;> cases taken
      rename_i writes
      exact .replied writes

end Framed
end KafkaProxy.Pooled
