import Mathlib.Data.Int.Notation

namespace KafkaProxy

structure Metrics where
  enabled : Bool
  requestsInFlight : Int
  upstreamConnections : Int
  cidMapEntries : Int
  deriving DecidableEq, Repr

namespace Metrics

def new (enabled : Bool) : Metrics := ⟨enabled, 0, 0, 0⟩

def incRequestsInFlight (m : Metrics) : Metrics :=
  if m.enabled then { m with requestsInFlight := m.requestsInFlight + 1 } else m

def decRequestsInFlight (m : Metrics) : Metrics :=
  if m.enabled then { m with requestsInFlight := m.requestsInFlight - 1 } else m

-- The connection gauges count whether or not the metrics are enabled.
def incUpstreamConnections (m : Metrics) : Metrics :=
  { m with upstreamConnections := m.upstreamConnections + 1 }

def decUpstreamConnections (m : Metrics) : Metrics :=
  { m with upstreamConnections := m.upstreamConnections - 1 }

def incCidMapEntries (m : Metrics) : Metrics :=
  if m.enabled then { m with cidMapEntries := m.cidMapEntries + 1 } else m

def decCidMapEntries (m : Metrics) : Metrics :=
  if m.enabled then { m with cidMapEntries := m.cidMapEntries - 1 } else m

def subCidMapEntries (m : Metrics) (n : Int) : Metrics :=
  if m.enabled then { m with cidMapEntries := m.cidMapEntries - n } else m

end Metrics
end KafkaProxy
