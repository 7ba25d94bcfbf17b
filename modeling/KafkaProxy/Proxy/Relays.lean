import KafkaProxy.PerConnection.Basic
import KafkaProxy.Pooled.Basic

/-!
# The relays of all clients

In per_connection mode each client has a relay of its own, with a connection to the broker that is
opened first. In pooled mode the relays of all listeners share the remap table. A relay holds its
client's socket while one of its tasks has not returned.
-/

namespace KafkaProxy
open Library

inductive PoolMode where
  | perConnection
  | pooled
  deriving DecidableEq, Repr

/-- What does not change while the proxy runs. `silent` holds for the requests that get no response. -/
structure Settings where
  mode : PoolMode
  nodeIds : List Int32
  maxDownstreamConnections : UInt64
  maxRssBytes : Option UInt64
  clientIdleTimeout : Option Nat
  maxInFlight : Nat
  metrics : Metrics
  codecs : Codecs
  map : RewriteMap
  silent : Frame → Bool

namespace PerConnection

def Phase.isReturned : Phase → Bool
  | .returned _ => true
  | .select _ | .sending _ | .flushing => false

/-- `unanswered` is what the broker has been sent and has not answered. -/
inductive Session where
  | absent
  | connecting
  | connected (relay : Relay) (unanswered : List Frame)
  | failed

inductive SessionAction where
  | connected
  | connectFailed
  | relay (action : RelayAction)
  deriving DecidableEq, Repr

namespace Session

def sentUpstream (r : Relay) (unanswered : List Frame) : RelayAction → List Frame
  | .down .sent =>
      match r.downToUp.phase with
      | .sending data => unanswered ++ [data]
      | _ => unanswered
  | .up (.arrive (.frame data)) =>
      unanswered.eraseP fun request =>
        (parseRequestHeader request).map (·.correlationId) = parseResponseCid data
  | _ => unanswered

def step (settings : Settings) : Session → SessionAction → Option Session
  | .connecting, .connected => some (.connected (.start settings.clientIdleTimeout) [])
  | .connecting, .connectFailed => some .failed
  | .connected r unanswered, .relay action =>
      (r.step settings.clientIdleTimeout settings.codecs settings.map action).map fun next =>
        .connected next (sentUpstream r unanswered action)
  | _, _ => none

def active : Session → Bool
  | .connecting => true
  | .connected r _ => !(r.downToUp.phase.isReturned && r.upToDown.phase.isReturned)
  | .absent | .failed => false

-- Both tasks are joined.
def returned : Session → Bool
  | .connected r _ => r.downToUp.phase.isReturned && r.upToDown.phase.isReturned
  | .failed => true
  | .absent | .connecting => false

/-- The broker has been sent a request, and owes its answer while the connection is there. -/
def Owed (silent : Frame → Bool) : Session → Prop
  | .connected r unanswered =>
      Session.active (.connected r unanswered) = true ∧ ∃ request ∈ unanswered, silent request = false
  | .absent | .connecting | .failed => False

instance (silent : Frame → Bool) (s : Session) : Decidable (s.Owed silent) :=
  match s with
  | .connected _ unanswered =>
      inferInstanceAs (Decidable (_ ∧ ∃ request ∈ unanswered, silent request = false))
  | .absent | .connecting | .failed => inferInstanceAs (Decidable False)

end Session
end PerConnection

namespace Pooled

def PooledRelay.active (r : PooledRelay) : Bool :=
  r.downToUp ≠ .absent && (r.downToUp ≠ .returned || r.listens)

-- The first of the two tasks that ends is enough.
def PooledRelay.returned (r : PooledRelay) : Bool :=
  r.downToUp = .returned || r.downToUp ≠ .absent && !r.listens

def MultiplexAction.connects : MultiplexAction → Bool
  | .relay _ .connect => true
  | _ => false

/-- A request of the client is on its way to a broker or is with it, on a connection that is there,
and gets an answer. -/
def Multiplex.Owed (silent : Frame → Bool) (m : Multiplex) (i : Nat) : Prop :=
  ∃ k < m.opened, (m.upstreams k).writeLoop.isOpen = true ∧
    ∃ write ∈ (m.upstreams k).writeRx ++ (m.upstreams k).unanswered,
      m.requests[write.tag]?.map (·.client) = some i ∧ silent write.frame = false

instance (silent : Frame → Bool) (m : Multiplex) (i : Nat) : Decidable (m.Owed silent i) :=
  inferInstanceAs (Decidable (∃ k < m.opened, _ ∧ _))

end Pooled

inductive Relays where
  | perConnection (sessions : Nat → PerConnection.Session)
  | pooled (m : Pooled.Multiplex)

inductive RelaysAction where
  | session (i : Nat) (action : PerConnection.SessionAction)
  | multiplex (action : Pooled.MultiplexAction)
  deriving DecidableEq, Repr

namespace Relays

def start (settings : Settings) : Relays :=
  match settings.mode with
  | .perConnection => .perConnection fun _ => .absent
  | .pooled => .pooled (.new settings.maxInFlight settings.metrics)

def spawn (settings : Settings) (i : Nat) : Relays → Option Relays
  | .perConnection sessions =>
      match sessions i with
      | .absent => some (.perConnection (Function.update sessions i .connecting))
      | _ => none
  | .pooled m => (m.relayStep settings.clientIdleTimeout i (m.relays i) .connect).map .pooled

def step (settings : Settings) : Relays → RelaysAction → Option Relays
  | .perConnection sessions, .session i action =>
      ((sessions i).step settings action).map fun next =>
        .perConnection (Function.update sessions i next)
  | .pooled m, .multiplex action =>
      -- A relay starts in an accept loop only.
      if action.connects then none
      else (m.step settings.clientIdleTimeout settings.codecs settings.map action).map .pooled
  | _, _ => none

def active (i : Nat) : Relays → Bool
  | .perConnection sessions => (sessions i).active
  | .pooled m => (m.relays i).active

def returned (i : Nat) : Relays → Bool
  | .perConnection sessions => (sessions i).returned
  | .pooled m => (m.relays i).returned

def Owed (silent : Frame → Bool) (i : Nat) : Relays → Prop
  | .perConnection sessions => (sessions i).Owed silent
  | .pooled m => m.Owed silent i

instance (silent : Frame → Bool) (i : Nat) (relays : Relays) : Decidable (relays.Owed silent i) :=
  match relays with
  | .perConnection sessions => inferInstanceAs (Decidable ((sessions i).Owed silent))
  | .pooled m => inferInstanceAs (Decidable (m.Owed silent i))

end Relays
end KafkaProxy
