import KafkaProxy.Library.Table
import KafkaProxy.Wire

/-!
# Response rewriting

The message types and their codec come from a client library. A codec is a parameter here, and a
message keeps the fields that the rewriters read or change; what else it holds is `rest`.
-/

namespace KafkaProxy
open Library

def apiKeyMetadata : Int16 := 3
def apiKeyDescribeCluster : Int16 := 60
def apiKeyFindCoordinator : Int16 := 10

/-- node_id → (advertised host, downstream port). -/
structure RewriteMap where
  nodePorts : Table Int32 (String × UInt16)

structure MetadataResponseBroker where
  nodeId : Int32
  host : String
  port : Int32
  rack : Option String
  deriving DecidableEq, Repr

structure MetadataResponse (ρ : Type) where
  brokers : List MetadataResponseBroker
  rest : ρ
  deriving DecidableEq

structure DescribeClusterBroker where
  brokerId : Int32
  host : String
  port : Int32
  rack : Option String
  isFenced : Bool
  deriving DecidableEq, Repr

structure DescribeClusterResponse (ρ : Type) where
  brokers : List DescribeClusterBroker
  rest : ρ

structure Coordinator where
  key : String
  nodeId : Int32
  host : String
  port : Int32
  errorCode : Int16
  errorMessage : Option String
  deriving DecidableEq, Repr

structure FindCoordinatorResponse (ρ : Type) where
  nodeId : Int32
  host : String
  port : Int32
  coordinators : List Coordinator
  rest : ρ
  deriving DecidableEq

/-- What the client library offers for a message: a failed call is `none`. That `decodeFrame` does not
panic, also on a frame that is cut off, is assumed of it. -/
structure Message (μ : Type) where
  decodeFrame : Frame → Int16 → Option (Int32 × μ)
  isFlexibleVersion : Int16 → Bool
  encode : μ → Int16 → Option Frame
  flexibleEncode : μ → Int16 → Option Frame

structure Codecs where
  (MetadataRest DescribeClusterRest FindCoordinatorRest : Type)
  metadata : Message (MetadataResponse MetadataRest)
  describeCluster : Message (DescribeClusterResponse DescribeClusterRest)
  findCoordinator : Message (FindCoordinatorResponse FindCoordinatorRest)

def Message.unknown {μ : Type} : Message μ :=
  ⟨fun _ _ => none, fun _ => false, fun _ _ => none, fun _ _ => none⟩

def Codecs.unknown : Codecs := ⟨Unit, Unit, Unit, .unknown, .unknown, .unknown⟩

def encodeUnsignedVarint (value : Nat) : Frame :=
  if value < 0x80 then [UInt8.ofNat value]
  else UInt8.ofNat (value % 0x80 + 0x80) :: encodeUnsignedVarint (value / 0x80)
termination_by value

def RewriteMap.address (map : RewriteMap) (nodeId : Int32) : Option (String × Int32) :=
  (map.nodePorts.lookup nodeId).map fun entry => (entry.1, Int32.ofNat entry.2.toNat)

/-- The response header, with empty tagged fields where the version is flexible, and the body. -/
def reencode {μ : Type} (codec : Message μ) (version : Int16) (cid : Int32) (resp : μ) :
    Option Frame :=
  if codec.isFlexibleVersion version then
    (codec.flexibleEncode resp version).map (putI32 cid ++ encodeUnsignedVarint 0 ++ ·)
  else (codec.encode resp version).map (putI32 cid ++ ·)

def readdress {β : Type} (map : RewriteMap) (nodeId : β → Int32) (setAddress : β → String → Int32 → β)
    (entries : List β) : List β :=
  entries.map fun e =>
    match map.address (nodeId e) with
    | some (host, port) => setAddress e host port
    | none => e

def changed {β : Type} (map : RewriteMap) (nodeId : β → Int32) (entries : List β) : Bool :=
  entries.any fun e => (map.address (nodeId e)).isSome

def rewriteMetadataResponse {ρ : Type} (codec : Message (MetadataResponse ρ)) (version : Int16)
    (raw : Frame) (map : RewriteMap) : Option Frame :=
  match codec.decodeFrame raw version with
  | none => none
  | some (cid, resp) =>
      if !changed map (·.nodeId) resp.brokers then none
      else reencode codec version cid { resp with
        brokers := readdress map (·.nodeId) (fun b host port => { b with host, port }) resp.brokers }

def rewriteDescribeClusterResponse {ρ : Type} (codec : Message (DescribeClusterResponse ρ))
    (version : Int16) (raw : Frame) (map : RewriteMap) : Option Frame :=
  match codec.decodeFrame raw version with
  | none => none
  | some (cid, resp) =>
      if !changed map (·.brokerId) resp.brokers then none
      else reencode codec version cid { resp with
        brokers := readdress map (·.brokerId) (fun b host port => { b with host, port }) resp.brokers }

def rewriteFindCoordinatorResponse {ρ : Type} (codec : Message (FindCoordinatorResponse ρ))
    (version : Int16) (raw : Frame) (map : RewriteMap) : Option Frame :=
  match codec.decodeFrame raw version with
  | none => none
  | some (cid, resp) =>
      -- Up to version 3 there is one coordinator, in the top-level fields.
      if version ≤ 3 then
        match map.address resp.nodeId with
        | some (host, port) => reencode codec version cid { resp with host, port }
        | none => none
      else if !changed map (·.nodeId) resp.coordinators then none
      else reencode codec version cid { resp with
        coordinators :=
          readdress map (·.nodeId) (fun c host port => { c with host, port }) resp.coordinators }

def rewriteResponse (codecs : Codecs) (apiKey version : Int16) (raw : Frame) (map : RewriteMap) :
    Option Frame :=
  if apiKey = apiKeyMetadata then rewriteMetadataResponse codecs.metadata version raw map
  else if apiKey = apiKeyDescribeCluster then
    rewriteDescribeClusterResponse codecs.describeCluster version raw map
  else if apiKey = apiKeyFindCoordinator then
    rewriteFindCoordinatorResponse codecs.findCoordinator version raw map
  else none

def needsRewrite (apiKey : Int16) : Bool :=
  apiKey = apiKeyMetadata || apiKey = apiKeyDescribeCluster || apiKey = apiKeyFindCoordinator

theorem rewriteResponse_of_not_needsRewrite {codecs : Codecs} {apiKey version : Int16} {raw : Frame}
    {map : RewriteMap} (plain : needsRewrite apiKey = false) :
    rewriteResponse codecs apiKey version raw map = none := by
  simp only [needsRewrite, Bool.or_eq_false_iff, decide_eq_false_iff_not] at plain
  simp [rewriteResponse, plain]

theorem reencode_length {μ : Type} {codec : Message μ} {version : Int16} {cid : Int32} {resp : μ}
    {out : Frame} (encoded : reencode codec version cid resp = some out) : 4 ≤ out.length := by
  unfold reencode at encoded
  split at encoded
  all_goals
    obtain ⟨body, _, rfl⟩ := Option.map_eq_some_iff.mp encoded
    simp
    try omega

theorem rewriteResponse_length {codecs : Codecs} {apiKey version : Int16} {raw out : Frame}
    {map : RewriteMap} (rewritten : rewriteResponse codecs apiKey version raw map = some out) :
    4 ≤ out.length := by
  unfold rewriteResponse at rewritten
  split_ifs at rewritten
  · unfold rewriteMetadataResponse at rewritten
    split at rewritten
    · cases rewritten
    · split_ifs at rewritten
      exact reencode_length rewritten
  · unfold rewriteDescribeClusterResponse at rewritten
    split at rewritten
    · cases rewritten
    · split_ifs at rewritten
      exact reencode_length rewritten
  · unfold rewriteFindCoordinatorResponse at rewritten
    split at rewritten
    · cases rewritten
    · split at rewritten
      · split at rewritten
        · exact reencode_length rewritten
        · cases rewritten
      · split_ifs at rewritten
        exact reencode_length rewritten

end KafkaProxy
