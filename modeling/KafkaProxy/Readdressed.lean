import KafkaProxy.Modes

/-!
# What a rewritten response keeps

For a set of responses that the codec takes through encoding and decoding, a rewriter changes the
addresses of the nodes in the map and nothing else, and does nothing more the second time.
-/

namespace KafkaProxy
open Library Startup

variable {map : RewriteMap} {version : Int16}

/-! ## Messages in general -/

/-- A response header with empty tagged fields and the encoded body decode to what was encoded. -/
def Message.RoundTripsOn {μ : Type} (codec : Message μ) (version : Int16) (values : Set μ) : Prop :=
  ∀ cid, ∀ resp ∈ values, ∃ body,
    (if codec.isFlexibleVersion version then codec.flexibleEncode resp version
      else codec.encode resp version) = some body ∧
    codec.decodeFrame (putI32 cid ++ (if codec.isFlexibleVersion version then [0] else []) ++ body)
      version = some (cid, resp)

/-- The frame of a response in the set is left alone unless the response has a node in the map. What
comes out otherwise is the response at its new addresses, and is not changed again. -/
def RewritesOnly {μ : Type} (codec : Message μ) (version : Int16) (rewrite : Frame → Option Frame)
    (mapped : μ → Prop) (readdressed : μ → μ → Prop) (values : Set μ) : Prop :=
  ∀ raw cid, ∀ resp ∈ values, codec.decodeFrame raw version = some (cid, resp) →
    (rewrite raw = none ↔ ¬ mapped resp) ∧
    ∀ out, rewrite raw = some out → ∃ after, readdressed resp after ∧
      codec.decodeFrame out version = some (cid, after) ∧ rewrite out = some out

theorem Message.RoundTripsOn.reencode {μ : Type} {codec : Message μ} {values : Set μ}
    (law : codec.RoundTripsOn version values) (cid : Int32) {resp : μ} (member : resp ∈ values) :
    ∃ out, reencode codec version cid resp = some out ∧
      codec.decodeFrame out version = some (cid, resp) := by
  obtain ⟨body, encoded, decoded⟩ := law cid resp member
  have zero : encodeUnsignedVarint 0 = [0] := by simp [encodeUnsignedVarint]
  unfold KafkaProxy.reencode
  by_cases flexible : codec.isFlexibleVersion version
  · rw [if_pos flexible] at encoded decoded ⊢
    exact ⟨_, by rw [encoded, zero, Option.map_some], decoded⟩
  · rw [if_neg flexible] at encoded decoded ⊢
    rw [List.append_nil] at decoded
    exact ⟨_, by rw [encoded, Option.map_some], decoded⟩

theorem rewritesOnly_of_change {μ : Type} {codec : Message μ} {rewrite : Frame → Option Frame}
    {mapped : μ → Prop} [DecidablePred mapped] {readdressed : μ → μ → Prop} {values : Set μ}
    (change : μ → μ) (law : codec.RoundTripsOn version values)
    (closed : ∀ resp ∈ values, ∀ after, readdressed resp after → after ∈ values)
    (shape : ∀ raw cid resp, codec.decodeFrame raw version = some (cid, resp) →
      rewrite raw = if mapped resp then reencode codec version cid (change resp) else none)
    (correct : ∀ resp, readdressed resp (change resp)) (twice : ∀ resp, change (change resp) = change resp)
    (still : ∀ resp, mapped resp → mapped (change resp)) :
    RewritesOnly codec version rewrite mapped readdressed values := by
  intro raw cid resp member decoded
  obtain ⟨out, encoded, again⟩ := law.reencode cid (closed resp member _ (correct resp))
  have first := shape raw cid resp decoded
  by_cases hit : mapped resp
  · have second := shape out cid (change resp) again
    rw [if_pos hit, encoded] at first
    rw [if_pos (still resp hit), twice, encoded] at second
    refine ⟨by simp [first, hit], fun other same => ?_⟩
    obtain rfl : out = other := Option.some_inj.mp (first.symm.trans same)
    exact ⟨change resp, correct resp, again, second⟩
  · rw [if_neg hit] at first
    exact ⟨by simp [first, hit], fun other same => by simp [first] at same⟩

/-! ## Lists of nodes -/

def RewriteMap.Moves (map : RewriteMap) (nodeId : Int32) (before after : String × Int32) : Prop :=
  match map.nodePorts.lookup nodeId with
  | some (host, port) => after = (host, Int32.ofNat port.toNat)
  | none => after = before

theorem RewriteMap.moves_iff {id : Int32} {before after : String × Int32} :
    map.Moves id before after ↔ after = (map.address id).getD before := by
  unfold RewriteMap.Moves RewriteMap.address
  cases map.nodePorts.lookup id <;> rfl

section Entries
variable {β : Type} {nodeId : β → Int32} {setAddress : β → String → Int32 → β}

theorem isSome_address (id : Int32) : (map.address id).isSome ↔ id ∈ map.nodePorts := by
  rw [RewriteMap.address, Option.isSome_map, AList.lookup_isSome]

theorem changed_iff (entries : List β) :
    changed map nodeId entries = true ↔ ∃ e ∈ entries, nodeId e ∈ map.nodePorts := by
  simp only [changed, List.any_eq_true, isSome_address]

theorem readdress_forall₂ {R : β → β → Prop}
    (moved : ∀ e host port, (∀ before, map.Moves (nodeId e) before (host, port)) →
      R e (setAddress e host port))
    (kept : ∀ e, (∀ before, map.Moves (nodeId e) before before) → R e e) (entries : List β) :
    List.Forall₂ R entries (readdress map nodeId setAddress entries) := by
  rw [readdress, List.forall₂_map_right_iff, List.forall₂_same]
  intro e _
  cases found : map.address (nodeId e) with
  | none => exact kept e fun before => by rw [RewriteMap.moves_iff, found, Option.getD_none]
  | some entry => exact moved e _ _ fun before => by rw [RewriteMap.moves_iff, found, Option.getD_some]

variable (ids : ∀ e host port, nodeId (setAddress e host port) = nodeId e)
include ids

theorem changed_readdress {entries : List β} (hit : changed map nodeId entries = true) :
    changed map nodeId (readdress map nodeId setAddress entries) = true := by
  rw [changed_iff] at hit ⊢
  obtain ⟨e, member, mapped⟩ := hit
  refine ⟨_, List.mem_map_of_mem member, ?_⟩
  cases map.address (nodeId e) with
  | none => exact mapped
  | some address => exact (ids e address.1 address.2).symm ▸ mapped

theorem readdress_readdress
    (last : ∀ e host port, setAddress (setAddress e host port) host port = setAddress e host port)
    (entries : List β) : readdress map nodeId setAddress (readdress map nodeId setAddress entries) =
      readdress map nodeId setAddress entries := by
  simp only [readdress, List.map_map]
  apply List.map_congr_left
  intro e _
  cases found : map.address (nodeId e) with
  | none => simp only [Function.comp_apply, found]
  | some address => simp only [Function.comp_apply, found, ids, last]

end Entries

/-! ## The three messages -/

section Metadata
variable {ρ : Type}

def MetadataResponse.Mapped (map : RewriteMap) (resp : MetadataResponse ρ) : Prop :=
  ∃ b ∈ resp.brokers, b.nodeId ∈ map.nodePorts

structure MetadataResponse.Readdressed (map : RewriteMap) (before after : MetadataResponse ρ) : Prop where
  brokers : List.Forall₂ (fun b a => a.nodeId = b.nodeId ∧ a.rack = b.rack ∧
    map.Moves b.nodeId (b.host, b.port) (a.host, a.port)) before.brokers after.brokers
  rest : after.rest = before.rest

instance : DecidablePred (MetadataResponse.Mapped (ρ := ρ) map) :=
  fun resp => inferInstanceAs (Decidable (∃ b ∈ resp.brokers, b.nodeId ∈ map.nodePorts))

theorem metadata_rewritesOnly {codec : Message (MetadataResponse ρ)} {values : Set (MetadataResponse ρ)}
    (law : codec.RoundTripsOn version values)
    (closed : ∀ resp ∈ values, ∀ after, resp.Readdressed map after → after ∈ values) :
    RewritesOnly codec version (rewriteMetadataResponse codec version · map) (·.Mapped map)
      (·.Readdressed map ·) values := by
  apply rewritesOnly_of_change (·.readdressed map) law closed
  · intro raw cid resp decoded
    simp only [rewriteMetadataResponse, decoded, MetadataResponse.Mapped, ← changed_iff]
    cases changed map (·.nodeId) resp.brokers <;> rfl
  · intro resp
    exact ⟨readdress_forall₂ (fun b host port moves => ⟨rfl, rfl, moves _⟩)
      (fun b moves => ⟨rfl, rfl, moves _⟩) resp.brokers, rfl⟩
  · intro resp
    refine congrArg (MetadataResponse.mk · resp.rest) (readdress_readdress ?_ ?_ resp.brokers)
    · exact fun _ _ _ => rfl
    · exact fun _ _ _ => rfl
  · intro resp
    simp only [MetadataResponse.Mapped, ← changed_iff]
    refine changed_readdress ?_
    exact fun _ _ _ => rfl

end Metadata

section DescribeCluster
variable {ρ : Type}

def DescribeClusterResponse.Mapped (map : RewriteMap) (resp : DescribeClusterResponse ρ) : Prop :=
  ∃ b ∈ resp.brokers, b.brokerId ∈ map.nodePorts

structure DescribeClusterResponse.Readdressed (map : RewriteMap)
    (before after : DescribeClusterResponse ρ) : Prop where
  brokers : List.Forall₂ (fun b a => a.brokerId = b.brokerId ∧ a.rack = b.rack ∧
    a.isFenced = b.isFenced ∧ map.Moves b.brokerId (b.host, b.port) (a.host, a.port))
    before.brokers after.brokers
  rest : after.rest = before.rest

instance : DecidablePred (DescribeClusterResponse.Mapped (ρ := ρ) map) :=
  fun resp => inferInstanceAs (Decidable (∃ b ∈ resp.brokers, b.brokerId ∈ map.nodePorts))

theorem describeCluster_rewritesOnly {codec : Message (DescribeClusterResponse ρ)}
    {values : Set (DescribeClusterResponse ρ)} (law : codec.RoundTripsOn version values)
    (closed : ∀ resp ∈ values, ∀ after, resp.Readdressed map after → after ∈ values) :
    RewritesOnly codec version (rewriteDescribeClusterResponse codec version · map) (·.Mapped map)
      (·.Readdressed map ·) values := by
  apply rewritesOnly_of_change (·.readdressed map) law closed
  · intro raw cid resp decoded
    simp only [rewriteDescribeClusterResponse, decoded, DescribeClusterResponse.Mapped, ← changed_iff]
    cases changed map (·.brokerId) resp.brokers <;> rfl
  · intro resp
    exact ⟨readdress_forall₂ (fun b host port moves => ⟨rfl, rfl, rfl, moves _⟩)
      (fun b moves => ⟨rfl, rfl, rfl, moves _⟩) resp.brokers, rfl⟩
  · intro resp
    refine congrArg (DescribeClusterResponse.mk · resp.rest) (readdress_readdress ?_ ?_ resp.brokers)
    · exact fun _ _ _ => rfl
    · exact fun _ _ _ => rfl
  · intro resp
    simp only [DescribeClusterResponse.Mapped, ← changed_iff]
    refine changed_readdress ?_
    exact fun _ _ _ => rfl

end DescribeCluster

section FindCoordinator
variable {ρ : Type}

def FindCoordinatorResponse.Mapped (map : RewriteMap) (version : Int16)
    (resp : FindCoordinatorResponse ρ) : Prop :=
  if version ≤ 3 then resp.nodeId ∈ map.nodePorts
  else ∃ c ∈ resp.coordinators, c.nodeId ∈ map.nodePorts

/-- Up to version 3 the top-level node is the coordinator, from version 4 on the list has them. -/
structure FindCoordinatorResponse.Readdressed (map : RewriteMap) (version : Int16)
    (before after : FindCoordinatorResponse ρ) : Prop where
  nodeId : after.nodeId = before.nodeId
  top : if version ≤ 3 then
      map.Moves before.nodeId (before.host, before.port) (after.host, after.port)
    else (after.host, after.port) = (before.host, before.port)
  coordinators : if version ≤ 3 then after.coordinators = before.coordinators
    else List.Forall₂ (fun c a => a.key = c.key ∧ a.nodeId = c.nodeId ∧ a.errorCode = c.errorCode ∧
      a.errorMessage = c.errorMessage ∧ map.Moves c.nodeId (c.host, c.port) (a.host, a.port))
      before.coordinators after.coordinators
  rest : after.rest = before.rest

instance : DecidablePred (FindCoordinatorResponse.Mapped (ρ := ρ) map version) :=
  fun resp => inferInstanceAs (Decidable (if version ≤ 3 then resp.nodeId ∈ map.nodePorts
    else ∃ c ∈ resp.coordinators, c.nodeId ∈ map.nodePorts))

theorem findCoordinator_rewritesOnly {codec : Message (FindCoordinatorResponse ρ)}
    {values : Set (FindCoordinatorResponse ρ)} (law : codec.RoundTripsOn version values)
    (closed : ∀ resp ∈ values, ∀ after, resp.Readdressed map version after → after ∈ values) :
    RewritesOnly codec version (rewriteFindCoordinatorResponse codec version · map)
      (·.Mapped map version) (·.Readdressed map version ·) values := by
  apply rewritesOnly_of_change (·.readdressed map version) law closed
  · intro raw cid resp decoded
    simp only [rewriteFindCoordinatorResponse, decoded, FindCoordinatorResponse.Mapped,
      FindCoordinatorResponse.readdressed]
    by_cases old : version ≤ 3
    · simp only [if_pos old, ← isSome_address]
      cases map.address resp.nodeId <;> rfl
    · simp only [if_neg old, ← changed_iff]
      cases changed map (·.nodeId) resp.coordinators <;> rfl
  · intro resp
    unfold FindCoordinatorResponse.readdressed
    by_cases old : version ≤ 3
    · rw [if_pos old]
      cases found : map.address resp.nodeId with
      | none => exact ⟨rfl, by simp [old, RewriteMap.moves_iff, found], by simp [old], rfl⟩
      | some address => exact ⟨rfl, by simp [old, RewriteMap.moves_iff, found], by simp [old], rfl⟩
    · rw [if_neg old]
      refine ⟨rfl, by simp [old], ?_, rfl⟩
      rw [if_neg old]
      exact readdress_forall₂ (fun c host port moves => ⟨rfl, rfl, rfl, rfl, moves _⟩)
        (fun c moves => ⟨rfl, rfl, rfl, rfl, moves _⟩) resp.coordinators
  · intro resp
    unfold FindCoordinatorResponse.readdressed
    by_cases old : version ≤ 3
    · simp only [if_pos old]
      cases found : map.address resp.nodeId with
      | none => simp only [found]
      | some address => simp only [found]
    · simp only [if_neg old]
      refine congrArg (FindCoordinatorResponse.mk resp.nodeId resp.host resp.port · resp.rest)
        (readdress_readdress ?_ ?_ resp.coordinators)
      · exact fun _ _ _ => rfl
      · exact fun _ _ _ => rfl
  · intro resp hit
    unfold FindCoordinatorResponse.Mapped FindCoordinatorResponse.readdressed at *
    by_cases old : version ≤ 3
    · rw [if_pos old] at hit ⊢
      rw [if_pos old]
      cases map.address resp.nodeId <;> exact hit
    · rw [if_neg old, ← changed_iff] at hit
      rw [if_neg old, if_neg old, ← changed_iff]
      refine changed_readdress ?_ hit
      exact fun _ _ _ => rfl

end FindCoordinator

/-- Each rewriter changes what it must and no more. -/
theorem rewriteResponse_only {codecs : Codecs} {metadata : Set (MetadataResponse codecs.MetadataRest)}
    {describeCluster : Set (DescribeClusterResponse codecs.DescribeClusterRest)}
    {findCoordinator : Set (FindCoordinatorResponse codecs.FindCoordinatorRest)}
    (metadataLaw : codecs.metadata.RoundTripsOn version metadata)
    (describeClusterLaw : codecs.describeCluster.RoundTripsOn version describeCluster)
    (findCoordinatorLaw : codecs.findCoordinator.RoundTripsOn version findCoordinator)
    (metadataClosed : ∀ resp ∈ metadata, ∀ after, resp.Readdressed map after → after ∈ metadata)
    (describeClusterClosed : ∀ resp ∈ describeCluster, ∀ after, resp.Readdressed map after →
      after ∈ describeCluster)
    (findCoordinatorClosed : ∀ resp ∈ findCoordinator, ∀ after, resp.Readdressed map version after →
      after ∈ findCoordinator) :
    RewritesOnly codecs.metadata version (rewriteResponse codecs apiKeyMetadata version · map)
      (·.Mapped map) (·.Readdressed map ·) metadata ∧
    RewritesOnly codecs.describeCluster version
      (rewriteResponse codecs apiKeyDescribeCluster version · map)
      (·.Mapped map) (·.Readdressed map ·) describeCluster ∧
    RewritesOnly codecs.findCoordinator version
      (rewriteResponse codecs apiKeyFindCoordinator version · map)
      (·.Mapped map version) (·.Readdressed map version ·) findCoordinator :=
  ⟨metadata_rewritesOnly metadataLaw metadataClosed,
    describeCluster_rewritesOnly describeClusterLaw describeClusterClosed,
    findCoordinator_rewritesOnly findCoordinatorLaw findCoordinatorClosed⟩

/-! ## Responses with one node in the map -/

theorem eq_readdress {β : Type} {nodeId : β → Int32} {setAddress : β → String → Int32 → β} {R : β → β → Prop}
    {entries moved : List β} (all : List.Forall₂ R entries moved)
    (unique : ∀ e a, R e a → a = match map.address (nodeId e) with
      | some (host, port) => setAddress e host port
      | none => e) : moved = readdress map nodeId setAddress entries := by
  induction all with
  | nil => rfl
  | cons here _ ih =>
      rw [ih, unique _ _ here]
      rfl

theorem MetadataResponse.Readdressed.eq {ρ : Type} {before after : MetadataResponse ρ}
    (readdressed : before.Readdressed map after) : after = before.readdressed map := by
  obtain ⟨brokers, rest⟩ := readdressed
  have moved : after.brokers = (before.readdressed map).brokers := by
    apply eq_readdress brokers
    intro b moved readdressed
    obtain ⟨nodeId, host, port, rack⟩ := moved
    obtain ⟨sameId, sameRack, moves⟩ := readdressed
    rw [RewriteMap.moves_iff] at moves
    simp only at sameId sameRack
    subst sameId sameRack
    cases found : map.address b.nodeId with
    | none | some address =>
        rw [found] at moves
        cases moves
        rfl
  cases after
  cases moved
  cases rest
  rfl

theorem FindCoordinatorResponse.Readdressed.eq {ρ : Type} {before after : FindCoordinatorResponse ρ}
    (readdressed : before.Readdressed map version after) : after = before.readdressed map version := by
  obtain ⟨nodeId, host, port, coordinators, rest⟩ := after
  obtain ⟨sameId, top, listed, sameRest⟩ := readdressed
  unfold FindCoordinatorResponse.readdressed
  by_cases old : version ≤ 3
  · rw [if_pos old] at top listed
    rw [RewriteMap.moves_iff] at top
    rw [if_pos old]
    simp only at sameId listed sameRest
    subst sameId listed sameRest
    cases found : map.address before.nodeId with
    | none | some address =>
        rw [found] at top
        cases top
        rfl
  · rw [if_neg old] at top listed
    rw [if_neg old]
    have moved : coordinators = readdress map (·.nodeId) (fun c host port => { c with host, port })
        before.coordinators := by
      apply eq_readdress listed
      intro c moved readdressed
      obtain ⟨key, nodeId, host, port, errorCode, errorMessage⟩ := moved
      obtain ⟨sameKey, sameNode, sameCode, sameText, moves⟩ := readdressed
      rw [RewriteMap.moves_iff] at moves
      simp only at sameKey sameNode sameCode sameText
      subst sameKey sameNode sameCode sameText
      cases found : map.address c.nodeId with
      | none | some address =>
          rw [found] at moves
          cases moves
          rfl
    simp only at sameId sameRest
    subst sameId sameRest moved
    cases top
    rfl

theorem writtenCodec_roundTripsOn {μ : Type} {flexible : Int16 → Bool} {write : Int16 → μ → Frame}
    {known : Int16 → List μ} (distinct : ((known version).map (write version)).Nodup) :
    (writtenCodec flexible write known).RoundTripsOn version {resp | resp ∈ known version} := by
  intro cid resp member
  refine ⟨write version resp, ?_, ?_⟩
  · by_cases kind : flexible version <;> simp [writtenCodec, kind]
  · rw [List.append_assoc]
    exact writtenCodec_decodeFrame distinct cid member

theorem Message.roundTripsOn_empty {μ : Type} {codec : Message μ} : codec.RoundTripsOn version ∅ :=
  fun _ _ member => member.elim

def metadataKnown (version : Int16) : List (MetadataResponse Unit) :=
  if version = 0 ∨ version = 9 then bothKnown.map (⟨·, ()⟩) else []

def metadataLayout (version : Int16) (resp : MetadataResponse Unit) : Frame :=
  if version = 9 then flexibleMetadataBody resp else metadataBody resp.brokers

def lookedUp (version : Int16) : List (FindCoordinatorResponse Unit) :=
  if version ≤ 3 then [⟨1, "b1", 9092, [], ()⟩, ⟨1, "proxy", 19092, [], ()⟩]
  else [⟨-1, "", -1, [⟨"orders", 1, "b1", 9092, 0, none⟩, ⟨"audit", 2, "b2", 9092, 0, none⟩], ()⟩,
    ⟨-1, "", -1, [⟨"orders", 1, "proxy", 19092, 0, none⟩, ⟨"audit", 2, "b2", 9092, 0, none⟩], ()⟩]

def writtenCodecs : Codecs :=
  ⟨Unit, Unit, Unit, writtenCodec (9 ≤ ·) metadataLayout metadataKnown, .unknown,
    writtenCodec (3 ≤ ·) findCoordinatorBody lookedUp⟩

theorem rewriteResponse_only_both :
    RewritesOnly writtenCodecs.metadata 0 (rewriteResponse writtenCodecs apiKeyMetadata 0 · oneServerMap)
      (·.Mapped oneServerMap) (·.Readdressed oneServerMap ·) {resp | resp ∈ metadataKnown 0} ∧
    RewritesOnly writtenCodecs.metadata 9 (rewriteResponse writtenCodecs apiKeyMetadata 9 · oneServerMap)
      (·.Mapped oneServerMap) (·.Readdressed oneServerMap ·) {resp | resp ∈ metadataKnown 9} ∧
    RewritesOnly writtenCodecs.findCoordinator 0
      (rewriteResponse writtenCodecs apiKeyFindCoordinator 0 · oneServerMap)
      (·.Mapped oneServerMap 0) (·.Readdressed oneServerMap 0 ·) {resp | resp ∈ lookedUp 0} ∧
    RewritesOnly writtenCodecs.findCoordinator 4
      (rewriteResponse writtenCodecs apiKeyFindCoordinator 4 · oneServerMap)
      (·.Mapped oneServerMap 4) (·.Readdressed oneServerMap 4 ·) {resp | resp ∈ lookedUp 4} := by
  have each (version : Int16) (metadata : ((metadataKnown version).map (metadataLayout version)).Nodup)
      (found : ((lookedUp version).map (findCoordinatorBody version)).Nodup)
      (metadataClosed : ∀ resp ∈ metadataKnown version, resp.readdressed oneServerMap ∈ metadataKnown version)
      (foundClosed : ∀ resp ∈ lookedUp version, resp.readdressed oneServerMap version ∈ lookedUp version) :=
    @rewriteResponse_only oneServerMap version writtenCodecs {resp | resp ∈ metadataKnown version} ∅
      {resp | resp ∈ lookedUp version} (writtenCodec_roundTripsOn metadata) Message.roundTripsOn_empty
      (writtenCodec_roundTripsOn found)
      (fun resp member after readdressed => readdressed.eq ▸ metadataClosed resp member)
      (fun _ member => member.elim)
      (fun resp member after readdressed => readdressed.eq ▸ foundClosed resp member)
  have plain := each 0 (by decide +kernel) (by decide +kernel) (by decide +kernel) (by decide +kernel)
  have later := each 4 (by decide +kernel) (by decide +kernel) (by decide +kernel) (by decide +kernel)
  have flexible := each 9 (by decide +kernel) (by decide +kernel) (by decide +kernel) (by decide +kernel)
  exact ⟨plain.1, flexible.1, plain.2.2, later.2.2⟩

end KafkaProxy
