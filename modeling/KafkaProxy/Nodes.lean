import KafkaProxy.Rewrite

/-!
# The nodes that a response shows

Rewriting a response changes the addresses of its nodes and nothing else, if the codec of the client
library decodes what it has encoded.
-/

namespace KafkaProxy
open Library

structure Node where
  nodeId : Int32
  host : String
  port : Int32
  deriving DecidableEq, Repr

def Node.address (n : Node) : String × Int32 := (n.host, n.port)

def RewriteMap.readdressed (map : RewriteMap) (n : Node) : Node :=
  match map.address n.nodeId with
  | some (host, port) => { n with host, port }
  | none => n

namespace MetadataResponse

variable {ρ : Type}

def nodes (resp : MetadataResponse ρ) : List Node :=
  resp.brokers.map fun b => ⟨b.nodeId, b.host, b.port⟩

def readdressed (map : RewriteMap) (resp : MetadataResponse ρ) : MetadataResponse ρ :=
  { resp with
    brokers := readdress map (·.nodeId) (fun b host port => { b with host, port }) resp.brokers }

end MetadataResponse

namespace DescribeClusterResponse

variable {ρ : Type}

def nodes (resp : DescribeClusterResponse ρ) : List Node :=
  resp.brokers.map fun b => ⟨b.brokerId, b.host, b.port⟩

def readdressed (map : RewriteMap) (resp : DescribeClusterResponse ρ) : DescribeClusterResponse ρ :=
  { resp with
    brokers := readdress map (·.brokerId) (fun b host port => { b with host, port }) resp.brokers }

end DescribeClusterResponse

namespace FindCoordinatorResponse

variable {ρ : Type}

def nodes (version : Int16) (resp : FindCoordinatorResponse ρ) : List Node :=
  if version ≤ 3 then [⟨resp.nodeId, resp.host, resp.port⟩]
  else resp.coordinators.map fun c => ⟨c.nodeId, c.host, c.port⟩

def readdressed (map : RewriteMap) (version : Int16) (resp : FindCoordinatorResponse ρ) :
    FindCoordinatorResponse ρ :=
  if version ≤ 3 then
    match map.address resp.nodeId with
    | some (host, port) => { resp with host, port }
    | none => resp
  else { resp with
    coordinators :=
      readdress map (·.nodeId) (fun c host port => { c with host, port }) resp.coordinators }

end FindCoordinatorResponse

def Codecs.nodes (codecs : Codecs) (apiKey version : Int16) (raw : Frame) :
    Option (Int32 × List Node) :=
  if apiKey = apiKeyMetadata then
    (codecs.metadata.decodeFrame raw version).map fun (cid, resp) => (cid, resp.nodes)
  else if apiKey = apiKeyDescribeCluster then
    (codecs.describeCluster.decodeFrame raw version).map fun (cid, resp) => (cid, resp.nodes)
  else if apiKey = apiKeyFindCoordinator then
    (codecs.findCoordinator.decodeFrame raw version).map fun (cid, resp) => (cid, resp.nodes version)
  else none

/-- What has been decoded can be encoded again with the change, and decodes to what was encoded. -/
def Message.RoundTrips {μ : Type} (codec : Message μ) (version : Int16) (change : μ → μ) : Prop :=
  ∀ raw cid resp, codec.decodeFrame raw version = some (cid, resp) →
    ∃ out, reencode codec version cid (change resp) = some out ∧
      codec.decodeFrame out version = some (cid, change resp)

/-- The response in the frame can be encoded with the change, and what is encoded shows the nodes that
it was given. The other fields may come back as something else. -/
def Message.Shows {μ : Type} (codec : Message μ) (version : Int16) (nodes : μ → List Node)
    (change : μ → μ) (raw : Frame) : Prop :=
  ∀ cid resp, codec.decodeFrame raw version = some (cid, resp) →
    ∃ out after, reencode codec version cid (change resp) = some out ∧
      codec.decodeFrame out version = some (cid, after) ∧ nodes after = nodes (change resp)

structure Codecs.RoundTrips (codecs : Codecs) (apiKey version : Int16) (map : RewriteMap) : Prop where
  metadata : apiKey = apiKeyMetadata → codecs.metadata.RoundTrips version (·.readdressed map)
  describeCluster : apiKey = apiKeyDescribeCluster →
    codecs.describeCluster.RoundTrips version (·.readdressed map)
  findCoordinator : apiKey = apiKeyFindCoordinator →
    codecs.findCoordinator.RoundTrips version (·.readdressed map version)

structure Codecs.Shows (codecs : Codecs) (apiKey version : Int16) (map : RewriteMap) (raw : Frame) :
    Prop where
  metadata : apiKey = apiKeyMetadata → codecs.metadata.Shows version (·.nodes) (·.readdressed map) raw
  describeCluster : apiKey = apiKeyDescribeCluster →
    codecs.describeCluster.Shows version (·.nodes) (·.readdressed map) raw
  findCoordinator : apiKey = apiKeyFindCoordinator →
    codecs.findCoordinator.Shows version (·.nodes version) (·.readdressed map version) raw

theorem Message.RoundTrips.shows {μ : Type} {codec : Message μ} {version : Int16} {change : μ → μ}
    (law : codec.RoundTrips version change) (nodes : μ → List Node) (raw : Frame) :
    codec.Shows version nodes change raw := by
  intro cid resp decoded
  obtain ⟨out, encoded, again⟩ := law raw cid resp decoded
  exact ⟨out, change resp, encoded, again, rfl⟩

theorem Codecs.RoundTrips.shows {codecs : Codecs} {apiKey version : Int16} {map : RewriteMap}
    (law : codecs.RoundTrips apiKey version map) (raw : Frame) : codecs.Shows apiKey version map raw where
  metadata own := (law.metadata own).shows _ raw
  describeCluster own := (law.describeCluster own).shows _ raw
  findCoordinator own := (law.findCoordinator own).shows _ raw

variable {map : RewriteMap}

theorem readdress_nodes {β : Type} {nodeId : β → Int32} {setAddress : β → String → Int32 → β}
    {node : β → Node} (ids : ∀ b, (node b).nodeId = nodeId b)
    (set : ∀ b host port, node (setAddress b host port) = { node b with host, port }) (entries : List β) :
    (readdress map nodeId setAddress entries).map node = (entries.map node).map map.readdressed := by
  simp only [readdress, List.map_map]
  apply List.map_congr_left
  intro b _
  simp only [Function.comp_apply, RewriteMap.readdressed, ids]
  cases map.address (nodeId b) with
  | none => rfl
  | some address =>
      obtain ⟨host, port⟩ := address
      rw [← ids]
      exact set b host port

theorem readdressed_of_unchanged {β : Type} {nodeId : β → Int32} {node : β → Node} {entries : List β}
    (ids : ∀ b, (node b).nodeId = nodeId b) (unchanged : changed map nodeId entries = false) :
    (entries.map node).map map.readdressed = entries.map node := by
  rw [List.map_map]
  apply List.map_congr_left
  intro b member
  have absent := List.any_eq_false.mp unchanged b member
  rw [Bool.not_eq_true, Option.isSome_eq_false_iff, Option.isNone_iff_eq_none] at absent
  simp [RewriteMap.readdressed, ids, absent]

@[simp] theorem MetadataResponse.nodes_readdressed {ρ : Type} (resp : MetadataResponse ρ) :
    (resp.readdressed map).nodes = resp.nodes.map map.readdressed :=
  readdress_nodes (fun _ => rfl) (fun _ _ _ => rfl) resp.brokers

@[simp] theorem DescribeClusterResponse.nodes_readdressed {ρ : Type}
    (resp : DescribeClusterResponse ρ) :
    (resp.readdressed map).nodes = resp.nodes.map map.readdressed :=
  readdress_nodes (fun _ => rfl) (fun _ _ _ => rfl) resp.brokers

@[simp] theorem FindCoordinatorResponse.nodes_readdressed {ρ : Type} {version : Int16}
    (resp : FindCoordinatorResponse ρ) :
    (resp.readdressed map version).nodes version = (resp.nodes version).map map.readdressed := by
  unfold nodes readdressed
  by_cases old : version ≤ 3
  · simp only [if_pos old, List.map_cons, List.map_nil, RewriteMap.readdressed]
    cases map.address resp.nodeId <;> rfl
  · simp only [if_neg old]
    exact readdress_nodes (fun _ => rfl) (fun _ _ _ => rfl) resp.coordinators

variable {ρ : Type} {version : Int16} {raw : Frame} {cid : Int32}

theorem Message.Shows.reencoded {μ : Type} {codec : Message μ} {nodes : μ → List Node} {change : μ → μ}
    {resp : μ} (law : codec.Shows version nodes change raw)
    (decoded : codec.decodeFrame raw version = some (cid, resp)) :
    ∃ after, codec.decodeFrame ((reencode codec version cid (change resp)).getD raw) version =
      some (cid, after) ∧ nodes after = nodes (change resp) := by
  obtain ⟨out, after, encoded, again, same⟩ := law cid resp decoded
  rw [encoded]
  exact ⟨after, again, same⟩

theorem metadata_returned {codec : Message (MetadataResponse ρ)} {resp : MetadataResponse ρ}
    (law : codec.Shows version (·.nodes) (·.readdressed map) raw)
    (decoded : codec.decodeFrame raw version = some (cid, resp)) :
    ∃ after, codec.decodeFrame ((rewriteMetadataResponse codec version raw map).getD raw) version =
      some (cid, after) ∧ after.nodes = resp.nodes.map map.readdressed := by
  simp only [rewriteMetadataResponse, decoded]
  cases touched : changed map (·.nodeId) resp.brokers with
  | false => exact ⟨resp, decoded, (readdressed_of_unchanged (fun _ => rfl) touched).symm⟩
  | true =>
      rw [← resp.nodes_readdressed]
      exact law.reencoded decoded

theorem describeCluster_returned {codec : Message (DescribeClusterResponse ρ)}
    {resp : DescribeClusterResponse ρ} (law : codec.Shows version (·.nodes) (·.readdressed map) raw)
    (decoded : codec.decodeFrame raw version = some (cid, resp)) :
    ∃ after,
      codec.decodeFrame ((rewriteDescribeClusterResponse codec version raw map).getD raw) version =
        some (cid, after) ∧ after.nodes = resp.nodes.map map.readdressed := by
  simp only [rewriteDescribeClusterResponse, decoded]
  cases touched : changed map (·.brokerId) resp.brokers with
  | false => exact ⟨resp, decoded, (readdressed_of_unchanged (fun _ => rfl) touched).symm⟩
  | true =>
      rw [← resp.nodes_readdressed]
      exact law.reencoded decoded

theorem findCoordinator_returned {codec : Message (FindCoordinatorResponse ρ)}
    {resp : FindCoordinatorResponse ρ}
    (law : codec.Shows version (·.nodes version) (·.readdressed map version) raw)
    (decoded : codec.decodeFrame raw version = some (cid, resp)) :
    ∃ after,
      codec.decodeFrame ((rewriteFindCoordinatorResponse codec version raw map).getD raw) version =
        some (cid, after) ∧ after.nodes version = (resp.nodes version).map map.readdressed := by
  have again := law.reencoded decoded
  rw [resp.nodes_readdressed] at again
  simp only [rewriteFindCoordinatorResponse, decoded]
  by_cases old : version ≤ 3
  · simp only [if_pos old]
    cases found : map.address resp.nodeId with
    | none => exact ⟨resp, decoded, by
        simp [FindCoordinatorResponse.nodes, old, RewriteMap.readdressed, found]⟩
    | some address =>
        simp only [FindCoordinatorResponse.readdressed, if_pos old, found] at again ⊢
        exact again
  · simp only [if_neg old]
    cases touched : changed map (·.nodeId) resp.coordinators with
    | false =>
        refine ⟨resp, decoded, ?_⟩
        simp only [FindCoordinatorResponse.nodes, if_neg old]
        exact (readdressed_of_unchanged (fun _ => rfl) touched).symm
    | true =>
        simp only [FindCoordinatorResponse.readdressed, if_neg old] at again ⊢
        exact again

theorem returned_nodes {codecs : Codecs} {apiKey : Int16} {nodes : List Node}
    (law : codecs.Shows apiKey version map raw)
    (decoded : codecs.nodes apiKey version raw = some (cid, nodes)) :
    codecs.nodes apiKey version ((rewriteResponse codecs apiKey version raw map).getD raw) =
      some (cid, nodes.map map.readdressed) := by
  unfold Codecs.nodes rewriteResponse at *
  split_ifs at decoded ⊢ with metadata describeCluster findCoordinator
  · obtain ⟨⟨_, resp⟩, first, same⟩ := Option.map_eq_some_iff.mp decoded
    cases same
    obtain ⟨after, returned, shown⟩ := metadata_returned (law.metadata metadata) first
    simp only [returned, Option.map_some, shown]
  · obtain ⟨⟨_, resp⟩, first, same⟩ := Option.map_eq_some_iff.mp decoded
    cases same
    obtain ⟨after, returned, shown⟩ := describeCluster_returned (law.describeCluster describeCluster) first
    simp only [returned, Option.map_some, shown]
  · obtain ⟨⟨_, resp⟩, first, same⟩ := Option.map_eq_some_iff.mp decoded
    cases same
    obtain ⟨after, returned, shown⟩ := findCoordinator_returned (law.findCoordinator findCoordinator) first
    simp only [returned, Option.map_some, shown]

/-! ## A codec for some responses -/

def writtenCodec {μ : Type} (flexible : Int16 → Bool) (write : Int16 → μ → Frame)
    (known : Int16 → List μ) : Message μ where
  decodeFrame raw version :=
    ((known version).find? fun resp =>
      (if flexible version then [0] else []) ++ write version resp = raw.drop 4).map (getI32 raw, ·)
  isFlexibleVersion := flexible
  encode resp version := if flexible version then none else some (write version resp)
  flexibleEncode resp version := if flexible version then some (write version resp) else none

section Written
variable {μ : Type} {flexible : Int16 → Bool} {write : Int16 → μ → Frame} {known : Int16 → List μ}

theorem writtenCodec_reencode (cid : Int32) (resp : μ) :
    reencode (writtenCodec flexible write known) version cid resp =
      some (putI32 cid ++ ((if flexible version then [0] else []) ++ write version resp)) := by
  have zero : encodeUnsignedVarint 0 = [0] := by simp [encodeUnsignedVarint]
  unfold reencode
  cases kind : flexible version <;> simp [writtenCodec, kind, zero]

theorem writtenCodec_decodeFrame (distinct : ((known version).map (write version)).Nodup)
    (cid : Int32) {resp : μ} (member : resp ∈ known version) :
    (writtenCodec flexible write known).decodeFrame
      (putI32 cid ++ ((if flexible version then [0] else []) ++ write version resp)) version =
        some (cid, resp) := by
  have body : (putI32 cid ++ ((if flexible version then [0] else []) ++ write version resp)).drop 4 =
      (if flexible version then [0] else []) ++ write version resp := List.drop_left' (putI32_length cid)
  simp only [writtenCodec, getI32_putI32_append, body, List.append_cancel_left_eq]
  cases read : (known version).find? fun other => write version other = write version resp with
  | none => exact absurd (decide_eq_true rfl) (List.find?_eq_none.mp read resp member)
  | some other =>
      have same : write version other = write version resp := by
        simpa using List.find?_some read
      rw [List.inj_on_of_nodup_map distinct (List.mem_of_find?_eq_some read) member same, Option.map_some]

theorem writtenCodec_roundTrips {change : μ → μ}
    (distinct : ((known version).map (write version)).Nodup)
    (closed : ∀ resp ∈ known version, change resp ∈ known version) :
    (writtenCodec flexible write known).RoundTrips version change := by
  intro raw cid resp decoded
  obtain ⟨read, found, same⟩ := Option.map_eq_some_iff.mp decoded
  cases same
  exact ⟨_, writtenCodec_reencode _ _,
    writtenCodec_decodeFrame distinct _ (closed resp (List.mem_of_find?_eq_some found))⟩

end Written

/-! ## How responses are written -/

def putString (text : String) : Frame :=
  BigEndian.encode 2 text.length ++ text.toList.map fun c => UInt8.ofNat c.toNat

def putCompactString (text : String) : Frame :=
  encodeUnsignedVarint (text.length + 1) ++ text.toList.map fun c => UInt8.ofNat c.toNat

/-- The body for version 0 or 4, without errors. -/
def findCoordinatorBody (version : Int16) (resp : FindCoordinatorResponse Unit) : Frame :=
  if version ≤ 3 then
    BigEndian.encode 2 0 ++ putI32 resp.nodeId ++ putString resp.host ++ putI32 resp.port
  else putI32 0 ++ encodeUnsignedVarint (resp.coordinators.length + 1) ++
    resp.coordinators.flatMap (fun c => putCompactString c.key ++ putI32 c.nodeId ++
      putCompactString c.host ++ putI32 c.port ++ BigEndian.encode 2 c.errorCode.toUInt16.toNat ++
      encodeUnsignedVarint 0 ++ encodeUnsignedVarint 0) ++ encodeUnsignedVarint 0

/-- The body for version 9, without topics. -/
def flexibleMetadataBody (resp : MetadataResponse Unit) : Frame :=
  putI32 0 ++ encodeUnsignedVarint (resp.brokers.length + 1) ++
    resp.brokers.flatMap (fun b => putI32 b.nodeId ++ putCompactString b.host ++ putI32 b.port ++
      b.rack.elim (encodeUnsignedVarint 0) putCompactString ++ encodeUnsignedVarint 0) ++
    putCompactString "test-cluster" ++ putI32 1 ++ encodeUnsignedVarint 1 ++ putI32 (-2147483648) ++
    encodeUnsignedVarint 0

end KafkaProxy
