import KafkaProxy.PerConnection.Rewriting
import KafkaProxy.Pooled.Basic

/-!
# The two ways to forward a request

What a client gets for one request in each mode. A slice out of range would end the task: it is
`none` here. The broker puts the correlation id of a request in front of its answer.
-/

namespace KafkaProxy
open Library Startup

/-- The correlation id is the first four bytes, and the rest is decoded without it. -/
def Message.OpaqueCid {μ : Type} (codec : Message μ) : Prop :=
  ∃ body : Frame → Int16 → Option μ, ∀ raw version, 4 ≤ raw.length →
    codec.decodeFrame raw version = (body (raw.drop 4) version).map (getI32 raw, ·)

structure Codecs.OpaqueCid (codecs : Codecs) : Prop where
  metadata : codecs.metadata.OpaqueCid
  describeCluster : codecs.describeCluster.OpaqueCid
  findCoordinator : codecs.findCoordinator.OpaqueCid

def EchoesCid (broker : Frame → Frame) : Prop :=
  ∃ answer : Frame → Frame → Frame, ∀ request, 8 ≤ request.length →
    broker request = (request.drop 4).take 4 ++ answer (request.take 4) (request.drop 8)

def sliceTo (data : Frame) (stop : Nat) : Option Frame :=
  if stop ≤ data.length then some (data.take stop) else none

def sliceFrom (data : Frame) (start : Nat) : Option Frame :=
  if start ≤ data.length then some (data.drop start) else none

namespace Pooled

def sliceRequest (data : Frame) (cidU : Int32) : Option Frame := do
  let head ← sliceTo data 4
  let tail ← sliceFrom data 8
  pure (head ++ putI32 cidU ++ tail)

def sliceResponse (codecs : Codecs) (map : RewriteMap) (data : Frame) (entry : Entry) :
    Option Frame := do
  let base := (rewriteResponse codecs entry.apiKey entry.apiVersion data map).getD data
  let tail ← sliceFrom base 4
  pure (putI32 entry.cidD ++ tail)

/-- The request is registered under `cidU`, and its answer is routed by the id that it carries. -/
def exchange (codecs : Codecs) (map : RewriteMap) (broker : Frame → Frame)
    (remap : CidRemap ResponseTx) (cidU : Int32) (tx : ResponseTx) (connId : ConnId) (data : Frame) :
    Option Frame := do
  let header ← parseRequestHeader data
  let remap := remap.store cidU ⟨tx, header.correlationId, header.apiKey, header.apiVersion, connId⟩
  let request ← sliceRequest data cidU
  let answer := broker request
  let cid ← parseResponseCid answer
  let entry ← remap.map.lookup cid
  sliceResponse codecs map answer entry

theorem sliceRequest_eq_some {data : Frame} (cidU : Int32) (long : 8 ≤ data.length) :
    sliceRequest data cidU = some (replaceCid data cidU) := by
  have head : sliceTo data 4 = some (data.take 4) := if_pos (by omega)
  have tail : sliceFrom data 8 = some (data.drop 8) := if_pos long
  rw [sliceRequest, head, tail]
  rfl

theorem sliceResponse_eq_some (codecs : Codecs) (map : RewriteMap) (entry : Entry) {data : Frame}
    {cidU : Int32} (parsed : parseResponseCid data = some cidU) :
    sliceResponse codecs map data entry = some (routeResponse codecs map data entry) := by
  have long := @routeResponse_base codecs map data entry cidU parsed
  simp only [sliceResponse, sliceFrom, long, if_true]
  rfl

end Pooled

namespace PerConnection

/-- The request goes out as it is, and its answer is looked up by the id that it carries. -/
def exchange (codecs : Codecs) (map : RewriteMap) (broker : Frame → Frame) (pending : Pending)
    (data : Frame) : Frame :=
  let (request, pending) := record data pending
  (restore codecs map (broker request) pending).1

end PerConnection

/-! ## Rewriting does not look at the correlation id -/

theorem putI32_getI32 {raw : Frame} (long : 4 ≤ raw.length) : putI32 (getI32 raw) = raw.take 4 := by
  have four : (raw.take 4).length = 4 := by simp [long]
  have fits := BigEndian.decode_lt (raw.take 4)
  rw [four] at fits
  have value : (UInt32.ofNat (BigEndian.decode (raw.take 4))).toNat =
      BigEndian.decode (raw.take 4) := UInt32.toNat_ofNat_of_lt fits
  have back := BigEndian.encode_decode (raw.take 4)
  rw [four] at back
  rw [putI32, getI32, UInt32.toUInt32_toInt32, value, back]

@[simp] theorem parseResponseCid_putI32_append (cid : Int32) (body : Frame) :
    parseResponseCid (putI32 cid ++ body) = some cid := by
  rw [parseResponseCid, if_neg (by simp), getI32_putI32_append]

@[simp] theorem drop_putI32_append (cid : Int32) (body : Frame) :
    (putI32 cid ++ body).drop 4 = body := by
  rw [List.drop_append_of_le_length (by simp), List.drop_of_length_le (by simp), List.nil_append]

def reencoded {μ : Type} (codec : Message μ) (version : Int16) (resp : μ) : Option Frame :=
  if codec.isFlexibleVersion version then
    (codec.flexibleEncode resp version).map (encodeUnsignedVarint 0 ++ ·)
  else codec.encode resp version

theorem reencode_eq {μ : Type} (codec : Message μ) (version : Int16) (cid : Int32) (resp : μ) :
    reencode codec version cid resp = (reencoded codec version resp).map (putI32 cid ++ ·) := by
  unfold reencode reencoded
  split
  · simp only [Option.map_map, Function.comp_def, List.append_assoc]
  · rfl

theorem Message.OpaqueCid.rewrites {μ : Type} {codec : Message μ} (law : codec.OpaqueCid)
    (version : Int16) (rewriter : Frame → Option Frame) (change : μ → Option μ) (body : Frame)
    (shape : ∀ raw, rewriter raw = (codec.decodeFrame raw version).bind fun decoded =>
      (change decoded.2).bind (reencode codec version decoded.1)) :
    ∃ tail : Option Frame, ∀ cid, rewriter (putI32 cid ++ body) = tail.map (putI32 cid ++ ·) := by
  obtain ⟨decode, decodes⟩ := law
  refine ⟨((decode body version).bind change).bind (reencoded codec version), fun cid => ?_⟩
  rw [shape, decodes _ version (by simp), drop_putI32_append, getI32_putI32_append]
  cases decode body version with
  | none => rfl
  | some resp =>
      cases changed : change resp with
      | none => simp [changed]
      | some after => simp [changed, reencode_eq]

section
variable {ρ : Type} {version : Int16} (map : RewriteMap) (body : Frame)

theorem rewriteMetadataResponse_opaque {codec : Message (MetadataResponse ρ)}
    (law : codec.OpaqueCid) :
    ∃ tail : Option Frame, ∀ cid, rewriteMetadataResponse codec version (putI32 cid ++ body) map =
      tail.map (putI32 cid ++ ·) := by
  refine law.rewrites version
    (fun raw => rewriteMetadataResponse codec version raw map)
    (fun resp =>
      if !changed map (·.nodeId) resp.brokers then none else some (resp.readdressed map))
    body fun raw => ?_
  rw [rewriteMetadataResponse]
  cases codec.decodeFrame raw version with
  | none => rfl
  | some decoded =>
      simp only [Option.bind_some]
      split <;> rfl

theorem rewriteDescribeClusterResponse_opaque {codec : Message (DescribeClusterResponse ρ)}
    (law : codec.OpaqueCid) :
    ∃ tail : Option Frame, ∀ cid, rewriteDescribeClusterResponse codec version (putI32 cid ++ body) map =
      tail.map (putI32 cid ++ ·) := by
  refine law.rewrites version
    (fun raw => rewriteDescribeClusterResponse codec version raw map)
    (fun resp =>
      if !changed map (·.brokerId) resp.brokers then none else some (resp.readdressed map))
    body fun raw => ?_
  rw [rewriteDescribeClusterResponse]
  cases codec.decodeFrame raw version with
  | none => rfl
  | some decoded =>
      simp only [Option.bind_some]
      split <;> rfl

theorem rewriteFindCoordinatorResponse_opaque {codec : Message (FindCoordinatorResponse ρ)}
    (law : codec.OpaqueCid) :
    ∃ tail : Option Frame, ∀ cid, rewriteFindCoordinatorResponse codec version (putI32 cid ++ body) map =
      tail.map (putI32 cid ++ ·) := by
  refine law.rewrites version
    (fun raw => rewriteFindCoordinatorResponse codec version raw map)
    (fun resp =>
      if version ≤ 3 then (map.address resp.nodeId).map fun _ => resp.readdressed map version
      else if !changed map (·.nodeId) resp.coordinators then none
      else some (resp.readdressed map version))
    body fun raw => ?_
  rw [rewriteFindCoordinatorResponse]
  cases codec.decodeFrame raw version with
  | none => rfl
  | some decoded =>
      simp only [Option.bind_some]
      split
      · rename_i old
        cases found : map.address decoded.2.nodeId with
        | none => rfl
        | some address => simp [FindCoordinatorResponse.readdressed, old, found]
      · rename_i new
        split <;> simp [FindCoordinatorResponse.readdressed, new]

theorem rewriteResponse_opaque {codecs : Codecs} (law : codecs.OpaqueCid) (apiKey version : Int16) :
    ∃ tail : Option Frame, ∀ cid, rewriteResponse codecs apiKey version (putI32 cid ++ body) map =
      tail.map (putI32 cid ++ ·) := by
  unfold rewriteResponse
  split_ifs
  · exact rewriteMetadataResponse_opaque map body law.metadata
  · exact rewriteDescribeClusterResponse_opaque map body law.describeCluster
  · exact rewriteFindCoordinatorResponse_opaque map body law.findCoordinator
  · exact ⟨none, fun _ => rfl⟩

end

/-! ## The same frame in both modes -/

theorem EchoesCid.answers {broker : Frame → Frame} (echoes : EchoesCid broker) {data : Frame}
    (long : 8 ≤ data.length) :
    ∃ body, broker data = putI32 (getI32 (data.drop 4)) ++ body ∧
      ∀ cidU, broker (replaceCid data cidU) = putI32 cidU ++ body := by
  obtain ⟨answer, answers⟩ := echoes
  refine ⟨answer (data.take 4) (data.drop 8), ?_, fun cidU => ?_⟩
  · rw [answers data long, putI32_getI32 (by simp; omega)]
  · have parts : replaceCid data cidU = data.take 4 ++ (putI32 cidU ++ data.drop 8) :=
      List.append_assoc ..
    have four : (data.take 4).length = 4 := by simp; omega
    have cid : ((replaceCid data cidU).drop 4).take 4 = putI32 cidU := by
      rw [parts, List.drop_left' four, List.take_left' (putI32_length cidU)]
    have head : (replaceCid data cidU).take 4 = data.take 4 := by
      rw [parts, List.take_left' four]
    have tail : (replaceCid data cidU).drop 8 = data.drop 8 := by
      rw [replaceCid, List.drop_left' (by simp; omega)]
    rw [answers _ (by simp [replaceCid]; omega), cid, head, tail]

variable {codecs : Codecs} {map : RewriteMap} {broker : Frame → Frame} {data body : Frame}
  {header : RequestHeader} {tail : Option Frame}

theorem Pooled.exchange_eq {remap : CidRemap ResponseTx} {cidU : Int32} {tx : ResponseTx}
    {connId : ConnId} (parsed : parseRequestHeader data = some header)
    (answers : broker (replaceCid data cidU) = putI32 cidU ++ body)
    (rewrites : rewriteResponse codecs header.apiKey header.apiVersion (putI32 cidU ++ body) map =
      tail.map (putI32 cidU ++ ·)) :
    exchange codecs map broker remap cidU tx connId data =
      some (putI32 header.correlationId ++ tail.getD body) := by
  have found : (remap.store cidU ⟨tx, header.correlationId, header.apiKey, header.apiVersion,
      connId⟩).map.lookup cidU = some ⟨tx, header.correlationId, header.apiKey, header.apiVersion,
      connId⟩ := AList.lookup_insert _
  have routed := sliceResponse_eq_some codecs map
    ⟨tx, header.correlationId, header.apiKey, header.apiVersion, connId⟩
    (parseResponseCid_putI32_append cidU body)
  rw [routeResponse, rewrites] at routed
  have sent := sliceRequest_eq_some cidU (parseRequestHeader_length parsed)
  simp only [exchange, parsed, sent, answers, parseResponseCid_putI32_append, found, Option.bind_eq_bind,
    Option.bind_some, routed]
  cases tail <;> simp

theorem PerConnection.exchange_eq {pending : Pending}
    (parsed : parseRequestHeader data = some header) (room : pending.size < maxPending)
    (own : needsRewrite header.apiKey = false → header.correlationId ∉ pending)
    (answers : broker data = putI32 header.correlationId ++ body)
    (rewrites : rewriteResponse codecs header.apiKey header.apiVersion
      (putI32 header.correlationId ++ body) map = tail.map (putI32 header.correlationId ++ ·)) :
    exchange codecs map broker pending data = putI32 header.correlationId ++ tail.getD body := by
  cases rewritable : needsRewrite header.apiKey with
  | true =>
      have recorded : record data pending =
          (data, pending.insert header.correlationId (header.apiKey, header.apiVersion)) := by
        simp [record, parsed, rewritable, room]
      simp only [exchange, recorded, restore, answers, parseResponseCid_putI32_append,
        AList.lookup_insert, rewrites]
      cases tail <;> rfl
  | false =>
      have recorded : record data pending = (data, pending) := by
        simp [record, parsed, rewritable]
      have absent := AList.lookup_eq_none.mpr (own rewritable)
      have plain : tail = none := by
        rw [rewriteResponse_of_not_needsRewrite rewritable] at rewrites
        exact Option.map_eq_none_iff.mp rewrites.symm
      simp only [exchange, recorded, restore, answers, parseResponseCid_putI32_append, absent, plain,
        Option.getD_none]

/-- A client gets the same frame in both modes, unless an entry of another request with the same
correlation id is there for a request that has none. -/
theorem modes_agree (law : codecs.OpaqueCid) (echoes : EchoesCid broker) (long : 8 ≤ data.length)
    {pending : PerConnection.Pending} (room : pending.size < PerConnection.maxPending)
    (own : ∀ header, parseRequestHeader data = some header → needsRewrite header.apiKey = false →
      header.correlationId ∉ pending)
    (remap : CidRemap Pooled.ResponseTx) (cidU : Int32) (tx : Pooled.ResponseTx) (connId : ConnId) :
    Pooled.exchange codecs map broker remap cidU tx connId data =
      some (PerConnection.exchange codecs map broker pending data) := by
  have parsed : parseRequestHeader data = some ⟨getI16 data, getI16 (data.drop 2),
    getI32 (data.drop 4)⟩ := if_neg (by omega)
  obtain ⟨body, answers, spliced⟩ := echoes.answers long
  obtain ⟨tail, rewrites⟩ := rewriteResponse_opaque map body law (getI16 data) (getI16 (data.drop 2))
  rw [Pooled.exchange_eq parsed (spliced cidU) (rewrites cidU),
    PerConnection.exchange_eq parsed room (own _ parsed) answers (rewrites _)]

/-! ## A correlation id that a client uses again -/

/-- The codec of Metadata responses of version 0, for the bodies that list these brokers. -/
def opaqueCodec (known : List (List MetadataResponseBroker)) : Message (MetadataResponse Unit) where
  decodeFrame raw version :=
    if version = 0 then
      (known.find? fun brokers => metadataBody brokers = raw.drop 4).map fun brokers =>
        (getI32 raw, ⟨brokers, ()⟩)
    else none
  isFlexibleVersion version := 9 ≤ version
  encode resp version := if version = 0 then some (metadataBody resp.brokers) else none
  flexibleEncode _ _ := none

def opaqueCodecs (known : List (List MetadataResponseBroker)) : Codecs :=
  ⟨Unit, Unit, Unit, opaqueCodec known, .unknown, .unknown⟩

theorem opaqueCodecs_opaqueCid (known : List (List MetadataResponseBroker)) :
    (opaqueCodecs known).OpaqueCid where
  metadata := by
    refine ⟨fun body version => if version = 0 then
      (known.find? fun brokers => metadataBody brokers = body).map (⟨·, ()⟩) else none, ?_⟩
    intro raw version _
    simp only [opaqueCodecs, opaqueCodec]
    split <;> simp [Function.comp_def]
  describeCluster := ⟨fun _ _ => none, fun _ _ _ => rfl⟩
  findCoordinator := ⟨fun _ _ => none, fun _ _ _ => rfl⟩

def answering (body : Frame) (request : Frame) : Frame := (request.drop 4).take 4 ++ body

theorem answering_echoesCid (body : Frame) : EchoesCid (answering body) :=
  ⟨fun _ _ => body, fun _ _ => rfl⟩

def bothBody : Frame := metadataBody [⟨1, "b1", 9092, none⟩, ⟨2, "b2", 9092, none⟩]

def metadataSeven : Frame := [0, 3, 0, 0, 0, 0, 0, 7]

def fetchSeven : Frame := [0, 1, 0, 0, 0, 0, 0, 7]

theorem modes_agree_metadata :
    Pooled.exchange (opaqueCodecs bothKnown) oneServerMap (answering bothBody) (.withMaxInFlight 4)
        100 ⟨0, 0⟩ 1 metadataSeven =
      some (PerConnection.exchange (opaqueCodecs bothKnown) oneServerMap (answering bothBody) ∅
        metadataSeven) :=
  modes_agree (opaqueCodecs_opaqueCid bothKnown) (answering_echoesCid bothBody) (by decide)
    (by decide) (by decide) (.withMaxInFlight 4) 100 ⟨0, 0⟩ 1

theorem modes_differ : ¬ ∀ codecs map broker (pending : PerConnection.Pending) remap cidU tx connId data,
    Codecs.OpaqueCid codecs → EchoesCid broker → 8 ≤ data.length →
    pending.size < PerConnection.maxPending →
    Pooled.exchange codecs map broker remap cidU tx connId data =
      some (PerConnection.exchange codecs map broker pending data) := by
  intro claim
  have same := claim (opaqueCodecs bothKnown) oneServerMap (answering bothBody)
    (PerConnection.record metadataSeven ∅).2 (.withMaxInFlight 4) 100 ⟨0, 0⟩ 1 fetchSeven
    (opaqueCodecs_opaqueCid bothKnown) (answering_echoesCid bothBody) (by decide) (by decide)
  exact absurd same (by decide +kernel)

end KafkaProxy
