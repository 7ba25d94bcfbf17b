import KafkaProxy.Rewrite

/-!
# The start of the proxy

From the configuration and the brokers that the cluster's metadata lists to the listeners and the
rewrite map. Resolving a name, and how a string is shown in an error, are parameters.
-/

namespace KafkaProxy.Startup
open Library

inductive IpAddr where
  | v4 (bits : UInt32)
  | v6 (bits : BitVec 128)
  deriving DecidableEq, Repr

@[ext]
structure SocketAddr where
  ip : IpAddr
  port : UInt16
  deriving DecidableEq, Repr

inductive ConfigError where
  | invalid (text : String)
  | resolve (text : String)
  deriving DecidableEq, Repr

inductive ProxyError where
  | config (text : String)
  | configParse (error : ConfigError)
  deriving DecidableEq, Repr

structure Platform where
  debug : String → String
  parseAddr : String → Except ConfigError SocketAddr

structure ClusterConfig where
  bootstrapServers : List String

structure ProxySection where
  advertiseHost : Option String
  bootstrapServerMapping : List String

structure PoolConfig where
  maxPerBroker : Nat
  minIdle : Nat

structure ProxyConfig where
  cluster : ClusterConfig
  proxy : ProxySection
  pool : PoolConfig

structure BrokerTarget where
  nodeId : Int32
  realAddr : SocketAddr
  realHost : String
  deriving DecidableEq, Repr

structure MappedListener where
  nodeId : Int32
  port : UInt16
  bindAddr : String
  target : BrokerTarget
  deriving DecidableEq, Repr

structure Broker where
  nodeId : Int32
  host : String
  port : Int32
  deriving DecidableEq, Repr

/-! ## Text -/

/-- The code points with the property White_Space. -/
def isWhiteSpace (c : Char) : Bool :=
  (0x09 ≤ c.toNat && c.toNat ≤ 0x0D) || (0x2000 ≤ c.toNat && c.toNat ≤ 0x200A) ||
    c.toNat ∈ [0x20, 0x85, 0xA0, 0x1680, 0x2028, 0x2029, 0x202F, 0x205F, 0x3000]

def trim (text : List Char) : List Char :=
  ((text.dropWhile isWhiteSpace).reverse.dropWhile isWhiteSpace).reverse

def rsplitOnce (sep : Char) : List Char → Option (List Char × List Char)
  | [] => none
  | c :: rest =>
      match rsplitOnce sep rest with
      | some (before, after) => some (c :: before, after)
      | none => if c = sep then some ([], rest) else none

def parseU16 (text : List Char) : Option UInt16 :=
  let digits := match text with
    | '+' :: rest => rest
    | _ => text
  if digits.isEmpty || !digits.all Char.isDigit then none
  else
    let value := digits.foldl (fun sum c => 10 * sum + (c.toNat - '0'.toNat)) 0
    if value < 2 ^ 16 then some (UInt16.ofNat value) else none

def hostOf (server : String) : String :=
  match rsplitOnce ':' server.toList with
  | some (host, _) => String.ofList host
  | none => server

/-- The part to bind, if there is one, and the part to advertise. Of three parts the first one is the
original broker, which nothing reads. -/
def mappingParts (mapping : String) : Option (Option (List Char) × List Char) :=
  match (mapping.toList.splitOn ',').map trim with
  | [advertise] => some (none, advertise)
  | [bind, advertise] | [_, bind, advertise] => some (some bind, advertise)
  | _ => none

def okOr {ε α : Type} (found : Option α) (error : ε) : Except ε α :=
  match found with
  | some a => .ok a
  | none => .error error

/-! ## The checks of the configuration -/

namespace ProxyConfig

def validateEntry (platform : Platform) (config : ProxyConfig) (i : Nat) (mapping : String) :
    Except ConfigError Unit := do
  let (_, advertise) ← okOr (mappingParts mapping) (.invalid ("proxy.bootstrap_server_mapping[" ++
    toString i ++ "] = " ++ platform.debug mapping ++ " 格式非法：支持 1/2/3 段(逗号分隔)"))
  let host := ((rsplitOnce ':' advertise).map (·.1)).getD []
  if host.isEmpty && (trim (config.proxy.advertiseHost.getD "").toList).isEmpty then
    .error (.invalid ("proxy.bootstrap_server_mapping[" ++ toString i ++ "] = " ++
      platform.debug mapping ++ " 缺少广告主机名，且未配置 proxy.advertise_host 作回退"))
  else .ok ()

def validateEntries (platform : Platform) (config : ProxyConfig) :
    Nat → List String → Except ConfigError Unit
  | _, [] => .ok ()
  | i, mapping :: rest => do
      config.validateEntry platform i mapping
      config.validateEntries platform (i + 1) rest

def validate (platform : Platform) (config : ProxyConfig) : Except ConfigError Unit :=
  if config.cluster.bootstrapServers.isEmpty then
    .error (.invalid "cluster.bootstrap_servers 不能为空")
  else if config.proxy.bootstrapServerMapping.isEmpty then
    .error (.invalid ("proxy.bootstrap_server_mapping 不能为空(按 bootstrap_servers 顺序" ++
      "配置下游监听地址，如 [\"proxy.svc:19092\", ...])"))
  else if config.proxy.bootstrapServerMapping.length ≠ config.cluster.bootstrapServers.length then
    .error (.invalid ("proxy.bootstrap_server_mapping 长度(" ++
      toString config.proxy.bootstrapServerMapping.length ++
      ")必须与 cluster.bootstrap_servers长度(" ++
      toString config.cluster.bootstrapServers.length ++ ")相等，按顺序一一对应"))
  else if config.pool.maxPerBroker < config.pool.minIdle then
    .error (.invalid ("pool.min_idle(" ++ toString config.pool.minIdle ++
      ") 不能大于 pool.max_per_broker(" ++ toString config.pool.maxPerBroker ++ ")"))
  else config.validateEntries platform 0 config.proxy.bootstrapServerMapping

end ProxyConfig

/-! ## Targets -/

/-- The targets that stand in for the brokers when the metadata is empty, from the `i`-th on. -/
def fallbackTargets (platform : Platform) : Nat → List String → Except ProxyError (List BrokerTarget)
  | _, [] => .ok []
  | i, server :: rest => do
      let addr ← (platform.parseAddr server).mapError .configParse
      let targets ← fallbackTargets platform (i + 1) rest
      return ⟨-(Int32.ofNat i + 1), addr, hostOf server⟩ :: targets

def brokerTargets (platform : Platform) : List Broker → Except ProxyError (List BrokerTarget)
  | [] => .ok []
  | b :: rest => do
      let addr ← (platform.parseAddr (b.host ++ ":" ++ toString b.port.toInt)).mapError .configParse
      let targets ← brokerTargets platform rest
      return ⟨b.nodeId, addr, b.host⟩ :: targets

def bootstrapTargets (platform : Platform) (config : ProxyConfig) (brokers : List Broker) :
    Except ProxyError (List BrokerTarget) :=
  if brokers.isEmpty then fallbackTargets platform 0 config.cluster.bootstrapServers
  else brokerTargets platform brokers

/-! ## Listeners and the rewrite map -/

def mappingError (platform : Platform) (mapping text : String) : ProxyError :=
  .config ("bootstrap_server_mapping 项 " ++ platform.debug mapping ++ text)

/-- Without a part to bind, the advertised port is bound. An empty host leaves `:port`. -/
def bindAddress (platform : Platform) (mapping : String) (advertisePort : UInt16) :
    Option (List Char) → Except ProxyError String
  | none => .ok (":" ++ toString advertisePort.toNat)
  | some bind => do
      let (bindHost, bindPort) ←
        okOr (rsplitOnce ':' bind) (mappingError platform mapping " 的绑定地址缺少 :port")
      let bindPort ← okOr (parseU16 bindPort) (mappingError platform mapping " 绑定端口非法")
      return String.ofList bindHost ++ ":" ++ toString bindPort.toNat

def parseMappingEntry (platform : Platform) (mapping fallbackHost : String) :
    Except ProxyError (String × String × UInt16) := do
  let (bind, advertise) ←
    okOr (mappingParts mapping) (mappingError platform mapping " 格式非法：支持 1/2/3 段(逗号分隔)")
  let (advertiseHost, advertisePort) ←
    okOr (rsplitOnce ':' advertise) (mappingError platform mapping " 的广告地址缺少 :port")
  let port ← okOr (parseU16 advertisePort) (mappingError platform mapping " 广告端口非法")
  let bindAddr ← bindAddress platform mapping port bind
  return (bindAddr, if advertiseHost.isEmpty then fallbackHost else String.ofList advertiseHost, port)

def BrokerTarget.isServer (addr : SocketAddr) (host : String) (t : BrokerTarget) : Bool :=
  (t.realAddr.ip = addr.ip && t.realAddr.port = addr.port) || t.realHost = host

def mapServer (platform : Platform) (config : ProxyConfig) (targets : List BrokerTarget)
    (server mapping : String) : Except ProxyError (MappedListener × String) := do
  let (bindAddr, advertiseHost, port) ←
    parseMappingEntry platform mapping (config.proxy.advertiseHost.getD "")
  let addr ← (platform.parseAddr server).mapError .configParse
  let known := targets.map fun t =>
    platform.debug (t.realHost ++ "(" ++ toString t.nodeId.toInt ++ ")")
  let target ← okOr (targets.find? (BrokerTarget.isServer addr (hostOf server)))
    (.config ("bootstrap_servers 项 " ++ platform.debug server ++
      " 在集群元数据中找不到对应 broker；已知 broker: [" ++ ", ".intercalate known ++ "]"))
  return (⟨target.nodeId, port, bindAddr, target⟩, advertiseHost)

def mapServers (platform : Platform) (config : ProxyConfig) (targets : List BrokerTarget) :
    List (String × String) → Table Int32 (String × UInt16) → List MappedListener →
      Except ProxyError (Table Int32 (String × UInt16) × List MappedListener)
  | [], nodePorts, listeners => .ok (nodePorts, listeners)
  | (server, mapping) :: rest, nodePorts, listeners => do
      let (listener, advertiseHost) ← mapServer platform config targets server mapping
      mapServers platform config targets rest
        (nodePorts.insert listener.nodeId (advertiseHost, listener.port)) (listeners ++ [listener])

def ProxyConfig.pairs (config : ProxyConfig) : List (String × String) :=
  config.cluster.bootstrapServers.zip config.proxy.bootstrapServerMapping

def buildRewriteMap (platform : Platform) (config : ProxyConfig) (targets : List BrokerTarget) :
    Except ProxyError (RewriteMap × List MappedListener) :=
  (mapServers platform config targets config.pairs ∅ []).map fun (nodePorts, listeners) =>
    (⟨nodePorts⟩, listeners)

end KafkaProxy.Startup
