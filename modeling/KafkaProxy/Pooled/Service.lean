import KafkaProxy.Library.Couple
import KafkaProxy.Pool.Cap
import KafkaProxy.Pooled.Order

/-!
# The relays over one connection pool

What a relay gets from `acquire` is what the pool gives it, and a connection that the pool creates is
a connection of the multiplexer. The relay of client `i` is the task `i` of the pool.
-/

namespace KafkaProxy

def PoolAction.isOwn : PoolAction → Bool
  | .warmFail | .warmPush | .reap | .subtract | .reapNotify => true
  | .task _ action =>
      match action with
      | .tryCreate | .connectFail | .wait | .resume | .push | .notify => true
      | .acquire | .tryIdle | .connect _ | .hand | .rollback | .timeout | .release | .drop => false
  | .tick _ | .warm _ | .accept | .ended _ => false

namespace Pooled
open Library

/-- `pool`, `relay` and `upstream` are the steps that the other side does not see. -/
inductive ServiceAction where
  | tick (elapsed : Nat)
  | pool (action : PoolAction)
  | relay (i : Nat) (action : RelayAction)
  | upstream (k : Nat) (action : UpstreamAction)
  | warm
  | accept
  | giveBack (i : Nat)
  | borrow (i : Nat)
  | tryIdle (i : Nat)
  | connect (i : Nat)
  | hand (i : Nat)
  | rollback (i : Nat)
  | timeout (i : Nat)
  | cancel (i : Nat)
  | leave (i : Nat)
  | closed (k : Nat)
  | finish (k : Nat)
  deriving DecidableEq, Repr

def RelayAction.isOwn : RelayAction → Bool
  | .request _ | .next | .keep | .check | .alloc | .store | .count | .push | .pushFailed | .hangUp | .idle
  | .deliver | .deliverFailed | .respClosed => true
  | .connect | .giveBack | .borrow | .acquired _ | .acquireFailed | .cancel | .leave => false

def UpstreamAction.isOwn : UpstreamAction → Bool
  | .closed | .finish => false
  | .answer .. | .write | .writeFailed | .fail | .read | .forward | .cleanup | .take | .route => true

namespace Service

def nextConn (m : Multiplex) : Acquired := ⟨m.opened, m.remap.nextConnId⟩

def release (m : Multiplex) (i : Nat) : Option PoolAction :=
  if (m.relays i).lease.isSome then some (.task i .release) else none

def parts (s : BrokerPool × Multiplex) :
    ServiceAction → Option (Option PoolAction × Option MultiplexAction)
  | .tick elapsed => some (some (.tick elapsed), some (.tick elapsed))
  | .pool action => if action.isOwn then some (some action, none) else none
  | .relay i action => if action.isOwn then some (none, some (.relay i action)) else none
  | .upstream k action => if action.isOwn then some (none, some (.upstream k action)) else none
  | .warm => some (some (.warm (nextConn s.2)), some .create)
  | .accept => some (some .accept, some (.relay s.1.tasks.length .connect))
  | .giveBack i => some (release s.2 i, some (.relay i .giveBack))
  | .borrow i => some (some (.task i .acquire), some (.relay i .borrow))
  | .tryIdle i =>
      match s.1.idle with
      | conn :: _ =>
          if conn.alive then some (some (.task i .tryIdle), some (.relay i (.acquired conn.toAcquired)))
          else some (some (.task i .tryIdle), none)
      | [] => some (some (.task i .tryIdle), none)
  | .connect i => some (some (.task i (.connect (nextConn s.2))), some .create)
  | .hand i =>
      match s.1.tasks[i]? with
      | some (.created conn) => some (some (.task i .hand), some (.relay i (.acquired conn)))
      | _ => none
  | .rollback i => some (some (.task i .rollback), some (.relay i .acquireFailed))
  | .timeout i => some (some (.task i .timeout), some (.relay i .acquireFailed))
  | .cancel i => some (some (.task i .drop), some (.relay i .cancel))
  | .leave i => some (release s.2 i, some (.relay i .leave))
  -- Nobody has a sending half of the connection's write channel any more.
  | .closed k => if k ∈ s.1.held then none else some (none, some (.upstream k .closed))
  | .finish k => some (some (.ended k), some (.upstream k .finish))

def system (config : PoolLimits) (maxInFlight : Nat) (metrics : Metrics) (idle : Option Nat)
    (codecs : Codecs) (map : RewriteMap) : System (BrokerPool × Multiplex) ServiceAction :=
  System.couple (BrokerPool.system config metrics)
    (Multiplex.system maxInFlight metrics idle codecs map) parts

def Within (condition : Multiplex → MultiplexAction → Prop) (s : BrokerPool × Multiplex)
    (action : ServiceAction) : Prop :=
  ∀ part ∈ parts s action, ∀ b ∈ part.2, condition s.2 b

instance (condition : Multiplex → MultiplexAction → Prop) [∀ m a, Decidable (condition m a)]
    (s : BrokerPool × Multiplex) (action : ServiceAction) : Decidable (Within condition s action) :=
  inferInstanceAs (Decidable (∀ part ∈ parts s action, ∀ b ∈ part.2, condition s.2 b))

variable {config : PoolLimits} {maxInFlight : Nat} {metrics : Metrics} {idle : Option Nat}
  {codecs : Codecs} {map : RewriteMap} {s : BrokerPool × Multiplex}
  {condition : Multiplex → MultiplexAction → Prop}

theorem multiplex_reach
    (reach : (system config maxInFlight metrics idle codecs map).Reach (Within condition) s) :
    (Multiplex.system maxInFlight metrics idle codecs map).Reach condition s.2 :=
  System.Reach.right (fun _ _ _ b permitted possible => permitted _ possible b rfl) reach

/-- The responses are written to a client in the order in which it has sent the requests, as long as
no request gets a correlation id that is still under way, and no request goes over another connection
than the requests whose responses the client waits for. -/
theorem responses_in_order (reach : (system config maxInFlight metrics idle codecs map).Reach
    (Within fun m action => m.Assumed action ∧ m.Keeps action) s) (i : Nat) :
    (s.2.answered i).Pairwise (· < ·) ∧ ∀ resp ∈ (s.2.relays i).written,
      ∃ req, s.2.requests[resp.answer.tag]? = some req ∧ req.client = i :=
  (Multiplex.ordered_of_reach (multiplex_reach reach)).answered
    (Multiplex.requests_of_reach (multiplex_reach reach)) i

/-! ## Two clients' requests, and one client over two connections -/

def twoWarm : PoolLimits := ⟨2, 2, 300000, 5000⟩

def twoWarmService : System (BrokerPool × Multiplex) ServiceAction :=
  system twoWarm 2 (.new true) none .unknown ⟨∅⟩

def warmedUp : List ServiceAction :=
  [.warm, .pool .warmPush, .warm, .pool .warmPush, .accept]

def comesIn (id : UInt8) : List ServiceAction :=
  [.relay 0 (.request [0, 18, 0, 0, 0, 0, 0, id]), .relay 0 .next]

def borrowed : List ServiceAction := [.giveBack 0, .borrow 0, .tryIdle 0]

def givenBack : List ServiceAction :=
  [.giveBack 0, .pool (.task 0 .push), .pool (.task 0 .notify), .borrow 0, .tryIdle 0]

def sent : List ServiceAction :=
  [.relay 0 .check, .relay 0 .alloc, .relay 0 .store, .relay 0 .count, .relay 0 .push]

def answeredOver (k tag : Nat) : List ServiceAction :=
  [.upstream k .write, .upstream k (.answer 0 (putI32 (cidOf tag))), .upstream k .read,
    .upstream k .forward, .upstream k .take, .upstream k .route, .relay 0 .deliver]

theorem responses_in_order_two : ∃ s : BrokerPool × Multiplex, s.2.answered 0 = [0, 1] ∧
    (s.2.answered 0).Pairwise (· < ·) ∧ ∀ resp ∈ (s.2.relays 0).written,
      ∃ req, s.2.requests[resp.answer.tag]? = some req ∧ req.client = 0 := by
  obtain ⟨s, reach, both⟩ := twoWarmService.exists_reach
    (Within fun m action => m.Assumed action ∧ m.Keeps action) (.new twoWarm (.new true), .new 2 (.new true))
    (warmedUp ++ comesIn 7 ++ borrowed ++ sent ++ comesIn 8 ++ [.relay 0 .keep] ++ sent ++
      answeredOver 0 0 ++ answeredOver 0 1)
    (fun s => s.2.answered 0 = [0, 1]) ⟨rfl, rfl⟩ (by decide +kernel)
  exact ⟨s, both, responses_in_order reach 0⟩

theorem responses_out_of_order : ¬ ∀ s, twoWarmService.Reach (Within Multiplex.Assumed) s →
    ∀ i, (s.2.answered i).Pairwise (· < ·) := by
  intro claim
  obtain ⟨s, reach, reversed⟩ := twoWarmService.exists_reach (Within Multiplex.Assumed)
    (.new twoWarm (.new true), .new 2 (.new true))
    (warmedUp ++ comesIn 7 ++ borrowed ++ sent ++ [.tick 200] ++ comesIn 8 ++ givenBack ++ sent ++
      answeredOver 1 1 ++ answeredOver 0 0)
    (fun s => s.2.answered 0 = [1, 0]) ⟨rfl, rfl⟩ (by decide +kernel)
  have sorted := claim s reach 0
  rw [reversed] at sorted
  exact absurd sorted (by decide)

end Service
end Pooled
end KafkaProxy
