import KafkaProxy.Library.System
import KafkaProxy.Library.Watch
import KafkaProxy.Library.Couple
import KafkaProxy.Library.Members
import KafkaProxy.Library.BigEndian
import KafkaProxy.Library.BinarySearch
import KafkaProxy.Library.Table
import KafkaProxy.Library.Owners
import KafkaProxy.Library.Groups
import KafkaProxy.Library.Total
import KafkaProxy.Library.Tally
import KafkaProxy.Library.CompareExchange
import KafkaProxy.Library.FetchAdd
import KafkaProxy.Library.Varint
import KafkaProxy.Library.Timed
import KafkaProxy.Library.Sweep
import KafkaProxy.Metrics
import KafkaProxy.Metrics.Histogram
import KafkaProxy.Metrics.Cumulative
import KafkaProxy.Metrics.Concurrent
import KafkaProxy.Metrics.Prometheus
import KafkaProxy.Metrics.Series
import KafkaProxy.Metrics.Exposition
import KafkaProxy.Wire
import KafkaProxy.Rewrite
import KafkaProxy.Varint
import KafkaProxy.Nodes
import KafkaProxy.Startup.Basic
import KafkaProxy.Startup.Listeners
import KafkaProxy.Startup.Advertised
import KafkaProxy.Startup.Fallback
import KafkaProxy.Startup.Identity
import KafkaProxy.Startup.Text
import KafkaProxy.Startup.Mapping
import KafkaProxy.Startup.Duration
import KafkaProxy.Startup.Upstream
import KafkaProxy.Remap.Basic
import KafkaProxy.Remap.Allocation
import KafkaProxy.Remap.Reuse
import KafkaProxy.Remap.FailConn
import KafkaProxy.Remap.Limit
import KafkaProxy.Pool.Basic
import KafkaProxy.Pool.Moves
import KafkaProxy.Pool.Slots
import KafkaProxy.Pool.Cap
import KafkaProxy.Pool.Calls
import KafkaProxy.Pool.Dead
import KafkaProxy.Pool.Wakeup
import KafkaProxy.Pool.Held
import KafkaProxy.Pool.Places
import KafkaProxy.Pool.Exclusive
import KafkaProxy.Pool.Gauge
import KafkaProxy.Pool.Warm
import KafkaProxy.Pool.Statistics
import KafkaProxy.Pool.Retries
import KafkaProxy.Pool.Aging
import KafkaProxy.PerConnection.Basic
import KafkaProxy.PerConnection.IdleTimeout
import KafkaProxy.PerConnection.Rewriting
import KafkaProxy.PerConnection.Forwarding
import KafkaProxy.Pooled.Basic
import KafkaProxy.Pooled.Moves
import KafkaProxy.Pooled.Lease
import KafkaProxy.Pooled.Silence
import KafkaProxy.Pooled.Requests
import KafkaProxy.Pooled.Routing
import KafkaProxy.Pooled.Delivery
import KafkaProxy.Pooled.Turns
import KafkaProxy.Pooled.Order
import KafkaProxy.Pooled.Traffic
import KafkaProxy.Pooled.Service
import KafkaProxy.Pooled.Brokers
import KafkaProxy.Pooled.Connections
import KafkaProxy.Pooled.Containment
import KafkaProxy.Pooled.Orphans
import KafkaProxy.Pooled.Drain
import KafkaProxy.Pooled.Failure
import KafkaProxy.Pooled.Abandon
import KafkaProxy.Pooled.Answered
import KafkaProxy.Pooled.Accounting
import KafkaProxy.Pooled.Framed
import KafkaProxy.Pooled.Progress
import KafkaProxy.Modes
import KafkaProxy.Readdressed
import KafkaProxy.Chain
import KafkaProxy.Proxy.Relays
import KafkaProxy.Proxy.Basic
import KafkaProxy.Proxy.Moves
import KafkaProxy.Proxy.Cap
import KafkaProxy.Proxy.Tracker
import KafkaProxy.Proxy.Shutdown
import KafkaProxy.Proxy.Cancel
import KafkaProxy.Proxy.Gauges
import KafkaProxy.Proxy.Listing
import KafkaProxy.Api.Basic
import KafkaProxy.Api.Text
import KafkaProxy.Api.Window
import KafkaProxy.Api.Lookup
import KafkaProxy.Api.Consumers
