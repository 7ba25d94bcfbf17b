import KafkaProxy.Library.System
import KafkaProxy.Rewrite

/-!
# The relay of one client in per_connection mode

The relay has two tasks with the same loop. A task waits in a `select` over its reader and its flush
timer, and each turn of the loop builds the branches of the `select` anew. Time is in milliseconds
and passes only while no branch of a waiting task is ready.
-/

namespace KafkaProxy.PerConnection
open Library

/-- correlation_id → (api_key, api_version) of the requests whose response may need rewriting. -/
abbrev Pending := Table Int32 (Int16 × Int16)

def maxPending : Nat := 1024

def flushPeriod : Nat := 5

inductive Arrival where
  | frame (data : Frame)
  | error
  | eof
  deriving DecidableEq, Repr

inductive Ended where
  | eof
  | readError
  | writeFailed
  | idleTimeout
  deriving DecidableEq, Repr

/-- `timeoutAt` is when the timeout around the read of this turn elapses. -/
inductive Phase where
  | select (timeoutAt : Option Nat)
  | sending (data : Frame)
  | flushing
  | returned (why : Ended)
  deriving DecidableEq, Repr

structure Forwarder where
  read : List Arrival
  phase : Phase
  flushTick : Nat
  needsFlush : Bool
  written : List Frame
  deriving DecidableEq, Repr

inductive ForwarderAction where
  | arrive (item : Arrival)
  | next
  | elapsed
  | flushTick
  | flushed
  | flushFailed
  | sent
  | sendFailed
  deriving DecidableEq, Repr

namespace Forwarder

def start (idle : Option Nat) (now : Nat) : Forwarder :=
  { read := [], phase := .select (idle.map (now + ·)), flushTick := now, needsFlush := false,
    written := [] }

def turn (idle : Option Nat) (now : Nat) (f : Forwarder) : Forwarder :=
  { f with phase := .select (idle.map (now + ·)) }

def stop (f : Forwarder) (why : Ended) : Forwarder := { f with phase := .returned why }

def ready (now : Nat) (f : Forwarder) : Bool :=
  match f.phase with
  | .select timeoutAt => !f.read.isEmpty || f.flushTick ≤ now || timeoutAt.any (· ≤ now)
  | .sending _ | .flushing | .returned _ => false

/-- The loop of both tasks. `handle` is what a task does with a frame before it writes it. -/
def step (idle : Option Nat) (now : Nat) (handle : Frame → Pending → Frame × Pending)
    (f : Forwarder) (pending : Pending) : ForwarderAction → Option (Forwarder × Pending)
  | .arrive item => some ({ f with read := f.read ++ [item] }, pending)
  | .next =>
      match f.phase, f.read with
      | .select _, .frame data :: rest =>
          let (out, pending) := handle data pending
          some ({ f with read := rest, phase := .sending out }, pending)
      | .select _, .error :: rest => some ({ f with read := rest }.stop .readError, pending)
      | .select _, .eof :: rest => some ({ f with read := rest }.stop .eof, pending)
      | _, _ => none
  | .elapsed =>
      match f.phase, f.read with
      -- The timeout polls the read first.
      | .select (some timeoutAt), [] =>
          if timeoutAt ≤ now then some (f.stop .idleTimeout, pending) else none
      | _, _ => none
  | .flushTick =>
      match f.phase with
      | .select _ =>
          if f.flushTick ≤ now then
            let f := { f with flushTick := f.flushTick + flushPeriod }
            some (if f.needsFlush then { f with phase := .flushing } else f.turn idle now, pending)
          else none
      | _ => none
  | .flushed =>
      match f.phase with
      | .flushing => some ({ f with needsFlush := false }.turn idle now, pending)
      | _ => none
  | .flushFailed =>
      match f.phase with
      | .flushing => some (f.stop .writeFailed, pending)
      | _ => none
  | .sent =>
      match f.phase with
      | .sending data =>
          some ({ f with needsFlush := true, written := f.written ++ [data] }.turn idle now, pending)
      | _ => none
  | .sendFailed =>
      match f.phase with
      | .sending _ => some (f.stop .writeFailed, pending)
      | _ => none

/-! ## What a step of a task can do -/

inductive Change (idle : Option Nat) (now : Nat) (handle : Frame → Pending → Frame × Pending)
    (f : Forwarder) (pending : Pending) : ForwarderAction → Forwarder → Pending → Prop where
  | arrive (item : Arrival) :
      Change idle now handle f pending (.arrive item) { f with read := f.read ++ [item] } pending
  | frame {timeoutAt : Option Nat} {data : Frame} {rest : List Arrival}
      (waits : f.phase = .select timeoutAt) (queue : f.read = .frame data :: rest) :
      Change idle now handle f pending .next
        { f with read := rest, phase := .sending (handle data pending).1 } (handle data pending).2
  | error {timeoutAt : Option Nat} {rest : List Arrival}
      (waits : f.phase = .select timeoutAt) (queue : f.read = .error :: rest) :
      Change idle now handle f pending .next ({ f with read := rest }.stop .readError) pending
  | eof {timeoutAt : Option Nat} {rest : List Arrival}
      (waits : f.phase = .select timeoutAt) (queue : f.read = .eof :: rest) :
      Change idle now handle f pending .next ({ f with read := rest }.stop .eof) pending
  | elapsed {timeoutAt : Nat} (waits : f.phase = .select (some timeoutAt)) (empty : f.read = [])
      (late : timeoutAt ≤ now) :
      Change idle now handle f pending .elapsed (f.stop .idleTimeout) pending
  | idleTick {timeoutAt : Option Nat} (waits : f.phase = .select timeoutAt)
      (due : f.flushTick ≤ now) (clean : f.needsFlush = false) :
      Change idle now handle f pending .flushTick
        ({ f with flushTick := f.flushTick + flushPeriod }.turn idle now) pending
  | flushTick {timeoutAt : Option Nat} (waits : f.phase = .select timeoutAt)
      (due : f.flushTick ≤ now) (dirty : f.needsFlush = true) :
      Change idle now handle f pending .flushTick
        { f with flushTick := f.flushTick + flushPeriod, phase := .flushing } pending
  | flushed (flushes : f.phase = .flushing) :
      Change idle now handle f pending .flushed ({ f with needsFlush := false }.turn idle now) pending
  | flushFailed (flushes : f.phase = .flushing) :
      Change idle now handle f pending .flushFailed (f.stop .writeFailed) pending
  | sent {data : Frame} (sends : f.phase = .sending data) :
      Change idle now handle f pending .sent
        ({ f with needsFlush := true, written := f.written ++ [data] }.turn idle now) pending
  | sendFailed {data : Frame} (sends : f.phase = .sending data) :
      Change idle now handle f pending .sendFailed (f.stop .writeFailed) pending

theorem Change.of_step {idle : Option Nat} {now : Nat} {handle : Frame → Pending → Frame × Pending}
    {f g : Forwarder} {before after : Pending} {action : ForwarderAction}
    (taken : f.step idle now handle before action = some (g, after)) :
    Change idle now handle f before action g after := by
  cases action with
  | arrive item =>
      cases taken
      exact .arrive item
  | next =>
      simp only [step] at taken
      split at taken
      · rename_i waits queue
        cases taken
        exact .frame waits queue
      · rename_i waits queue
        cases taken
        exact .error waits queue
      · rename_i waits queue
        cases taken
        exact .eof waits queue
      · cases taken
  | elapsed =>
      simp only [step] at taken
      split at taken
      · rename_i waits empty
        split at taken <;> cases taken
        rename_i late
        exact .elapsed waits empty late
      · cases taken
  | flushTick =>
      simp only [step] at taken
      split at taken
      · rename_i waits
        split at taken
        · rename_i due
          cases taken
          split
          · rename_i dirty
            exact .flushTick waits due dirty
          · rename_i clean
            exact .idleTick waits due (by simpa using clean)
        · cases taken
      · cases taken
  | flushed =>
      simp only [step] at taken
      split at taken <;> cases taken
      rename_i flushes
      exact .flushed flushes
  | flushFailed =>
      simp only [step] at taken
      split at taken <;> cases taken
      rename_i flushes
      exact .flushFailed flushes
  | sent =>
      simp only [step] at taken
      split at taken <;> cases taken
      rename_i sends
      exact .sent sends
  | sendFailed =>
      simp only [step] at taken
      split at taken <;> cases taken
      rename_i sends
      exact .sendFailed sends

end Forwarder

def record (data : Frame) (pending : Pending) : Frame × Pending :=
  match parseRequestHeader data with
  | some header =>
      if needsRewrite header.apiKey && pending.size < maxPending then
        (data, pending.insert header.correlationId (header.apiKey, header.apiVersion))
      else (data, pending)
  | none => (data, pending)

def restore (codecs : Codecs) (map : RewriteMap) (data : Frame) (pending : Pending) :
    Frame × Pending :=
  match parseResponseCid data with
  | some cid =>
      match pending.lookup cid with
      | some (apiKey, version) =>
          ((rewriteResponse codecs apiKey version data map).getD data, pending.erase cid)
      | none => (data, pending)
  | none => (data, pending)

/-- `last` is when the last frame of the client arrived, or when the relay started. -/
structure Relay where
  now : Nat
  last : Nat
  pending : Pending
  downToUp : Forwarder
  upToDown : Forwarder

inductive RelayAction where
  | tick
  | down (action : ForwarderAction)
  | up (action : ForwarderAction)
  deriving DecidableEq, Repr

namespace Relay

def start (idle : Option Nat) : Relay :=
  { now := 0, last := 0, pending := ∅, downToUp := .start idle 0, upToDown := .start none 0 }

def downToUpStep (idle : Option Nat) (r : Relay) (action : ForwarderAction) : Option Relay :=
  (r.downToUp.step idle r.now record r.pending action).map fun (downToUp, pending) =>
    { r with
      downToUp
      pending
      last := match action with
        | .arrive (.frame _) => r.now
        | _ => r.last }

def upToDownStep (codecs : Codecs) (map : RewriteMap) (r : Relay) (action : ForwarderAction) :
    Option Relay :=
  (r.upToDown.step none r.now (restore codecs map) r.pending action).map
    fun (upToDown, pending) => { r with upToDown, pending }

def step (idle : Option Nat) (codecs : Codecs) (map : RewriteMap) (r : Relay) :
    RelayAction → Option Relay
  | .tick =>
      if r.downToUp.ready r.now || r.upToDown.ready r.now then none
      else some { r with now := r.now + 1 }
  | .down action => r.downToUpStep idle action
  | .up action => r.upToDownStep codecs map action

def system (idle : Option Nat) (codecs : Codecs) (map : RewriteMap) : System Relay RelayAction where
  initial r := r = .start idle
  step := step idle codecs map

end Relay
end KafkaProxy.PerConnection
