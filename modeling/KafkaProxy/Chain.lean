import KafkaProxy.Readdressed

/-!
# Proxies behind proxies

A client may reach the cluster through several proxies, each with a map of its own. What it gets is what
one proxy would give it whose map has the entries of all, those nearer to the client over the others.
-/

namespace KafkaProxy
open Library Startup

/-- The relays send the frame as it is where nothing is rewritten. -/
def Codecs.pass (codecs : Codecs) (apiKey version : Int16) (map : RewriteMap) (raw : Frame) : Frame :=
  (rewriteResponse codecs apiKey version raw map).getD raw

/-- The entries of `second` over those of `first`. -/
def RewriteMap.andThen (first second : RewriteMap) : RewriteMap := ⟨second.nodePorts ∪ first.nodePorts⟩

variable {first second : RewriteMap} {version : Int16}

theorem RewriteMap.address_andThen (id : Int32) :
    (first.andThen second).address id = (second.address id).or (first.address id) := by
  unfold RewriteMap.address RewriteMap.andThen
  by_cases there : id ∈ second.nodePorts
  · rw [AList.lookup_union_left there]
    obtain ⟨entry, found⟩ := Option.isSome_iff_exists.mp (AList.lookup_isSome.mpr there)
    rw [found]
    rfl
  · rw [AList.lookup_union_right there, AList.lookup_eq_none.mpr there]
    rfl

section Entries
variable {β : Type} {nodeId : β → Int32} {setAddress : β → String → Int32 → β}

theorem readdress_of_not_changed {map : RewriteMap} {entries : List β}
    (none : changed map nodeId entries = false) : readdress map nodeId setAddress entries = entries := by
  rw [readdress]
  conv_rhs => rw [← List.map_id entries]
  apply List.map_congr_left
  intro e member
  have absent := List.any_eq_false.mp none e member
  rw [Bool.not_eq_true, Option.isSome_eq_false_iff, Option.isNone_iff_eq_none] at absent
  simp [absent]

theorem changed_andThen (entries : List β) : changed (first.andThen second) nodeId entries =
    (changed first nodeId entries || changed second nodeId entries) := by
  rw [Bool.eq_iff_iff, Bool.or_eq_true, changed_iff, changed_iff, changed_iff]
  simp only [RewriteMap.andThen, AList.mem_union]
  constructor
  · rintro ⟨e, member, later | earlier⟩
    · exact .inr ⟨e, member, later⟩
    · exact .inl ⟨e, member, earlier⟩
  · rintro (⟨e, member, earlier⟩ | ⟨e, member, later⟩)
    · exact ⟨e, member, .inr earlier⟩
    · exact ⟨e, member, .inl later⟩

variable (ids : ∀ e host port, nodeId (setAddress e host port) = nodeId e)
include ids

theorem changed_seen (entries : List β) :
    changed second nodeId (readdress first nodeId setAddress entries) = changed second nodeId entries := by
  rw [changed, readdress, List.any_map, changed]
  congr 1
  funext e
  rw [Function.comp_apply]
  cases first.address (nodeId e) with
  | none => rfl
  | some address => simp only [ids]

theorem readdress_andThen
    (last : ∀ e host port host' port',
      setAddress (setAddress e host port) host' port' = setAddress e host' port') (entries : List β) :
    readdress (first.andThen second) nodeId setAddress entries =
      readdress second nodeId setAddress (readdress first nodeId setAddress entries) := by
  simp only [readdress, List.map_map]
  apply List.map_congr_left
  intro e _
  simp only [Function.comp_apply, RewriteMap.address_andThen]
  cases earlier : first.address (nodeId e) with
  | none => rw [Option.or_none]
  | some address =>
      simp only [ids]
      cases second.address (nodeId e) with
      | none => rfl
      | some other => exact (last e address.1 address.2 other.1 other.2).symm

end Entries

/-! ## Rewriters in general -/

structure Rewriting (μ : Type) where
  mapped : RewriteMap → μ → Bool
  change : RewriteMap → μ → μ
  still : ∀ map resp, mapped map resp = false → change map resp = resp
  seen : ∀ first second resp, mapped second (change first resp) = mapped second resp
  mapped_andThen : ∀ first second resp,
    mapped (first.andThen second) resp = (mapped first resp || mapped second resp)
  change_andThen : ∀ first second resp,
    change (first.andThen second) resp = change second (change first resp)

variable {μ : Type} {codec : Message μ}

def Rewriting.pass (r : Rewriting μ) (codec : Message μ) (version : Int16) (map : RewriteMap) (raw : Frame) :
    Frame :=
  match codec.decodeFrame raw version with
  | none => raw
  | some (cid, resp) =>
      if r.mapped map resp then (reencode codec version cid (r.change map resp)).getD raw else raw

theorem Rewriting.pass_pass (r : Rewriting μ) (one : codec.RoundTrips version (r.change first))
    (other : codec.RoundTrips version (r.change second)) (raw : Frame) :
    r.pass codec version second (r.pass codec version first raw) =
      r.pass codec version (first.andThen second) raw := by
  cases decoded : codec.decodeFrame raw version with
  | none => simp only [pass, decoded]
  | some found =>
      obtain ⟨cid, resp⟩ := found
      have both := r.mapped_andThen first second resp
      have result := r.change_andThen first second resp
      cases hit : r.mapped first resp with
      | false =>
          have same := r.still first resp hit
          rw [hit, Bool.false_or] at both
          rw [same] at result
          simp only [pass, decoded, hit, both, result, Bool.false_eq_true, if_false]
      | true =>
          obtain ⟨out, encoded, middle⟩ := one raw cid resp decoded
          rw [hit, Bool.true_or] at both
          have here : r.pass codec version first raw = out := by
            simp only [pass, decoded, hit, encoded, if_true, Option.getD_some]
          rw [here]
          simp only [pass, decoded, middle, both, result, r.seen, if_true]
          cases later : r.mapped second resp with
          | false =>
              have same := r.still second (r.change first resp) (by rw [r.seen, later])
              rw [same, encoded]
              rfl
          | true =>
              obtain ⟨final, again, _⟩ := other out cid _ middle
              rw [again]
              rfl

theorem Rewriting.roundTrips (r : Rewriting μ) (one : codec.RoundTrips version (r.change first))
    (other : codec.RoundTrips version (r.change second)) :
    codec.RoundTrips version (r.change (first.andThen second)) := by
  intro raw cid resp decoded
  obtain ⟨out, _, middle⟩ := one raw cid resp decoded
  rw [r.change_andThen]
  exact other out cid _ middle

/-! ## The three messages -/

variable {ρ : Type}

def metadataRewriting : Rewriting (MetadataResponse ρ) where
  mapped map resp := changed map (·.nodeId) resp.brokers
  change map resp := resp.readdressed map
  still _ resp none := congrArg (MetadataResponse.mk · resp.rest) (readdress_of_not_changed none)
  seen first _ resp := by
    refine changed_seen ?_ resp.brokers
    exact fun _ _ _ => rfl
  mapped_andThen _ _ resp := changed_andThen resp.brokers
  change_andThen _ _ resp := by
    refine congrArg (MetadataResponse.mk · resp.rest) (readdress_andThen ?_ ?_ resp.brokers)
    · exact fun _ _ _ => rfl
    · exact fun _ _ _ _ _ => rfl

def describeClusterRewriting : Rewriting (DescribeClusterResponse ρ) where
  mapped map resp := changed map (·.brokerId) resp.brokers
  change map resp := resp.readdressed map
  still _ resp none := congrArg (DescribeClusterResponse.mk · resp.rest) (readdress_of_not_changed none)
  seen first _ resp := by
    refine changed_seen ?_ resp.brokers
    exact fun _ _ _ => rfl
  mapped_andThen _ _ resp := changed_andThen resp.brokers
  change_andThen _ _ resp := by
    refine congrArg (DescribeClusterResponse.mk · resp.rest) (readdress_andThen ?_ ?_ resp.brokers)
    · exact fun _ _ _ => rfl
    · exact fun _ _ _ _ _ => rfl

def findCoordinatorRewriting (version : Int16) : Rewriting (FindCoordinatorResponse ρ) where
  mapped map resp :=
    if version ≤ 3 then (map.address resp.nodeId).isSome else changed map (·.nodeId) resp.coordinators
  change map resp := resp.readdressed map version
  still map resp none := by
    unfold FindCoordinatorResponse.readdressed
    by_cases old : version ≤ 3
    · rw [if_pos old, Option.isSome_eq_false_iff, Option.isNone_iff_eq_none] at none
      rw [if_pos old, none]
    · rw [if_neg old] at none
      rw [if_neg old, readdress_of_not_changed none]
  seen first second resp := by
    unfold FindCoordinatorResponse.readdressed
    by_cases old : version ≤ 3
    · simp only [if_pos old]
      cases first.address resp.nodeId <;> rfl
    · simp only [if_neg old]
      refine changed_seen ?_ resp.coordinators
      exact fun _ _ _ => rfl
  mapped_andThen first second resp := by
    by_cases old : version ≤ 3
    · simp only [if_pos old, RewriteMap.address_andThen, Option.isSome_or, Bool.or_comm]
    · simp only [if_neg old, changed_andThen]
  change_andThen first second resp := by
    unfold FindCoordinatorResponse.readdressed
    by_cases old : version ≤ 3
    · simp only [if_pos old, RewriteMap.address_andThen]
      cases first.address resp.nodeId with
      | none => rw [Option.or_none]
      | some address => cases second.address resp.nodeId <;> rfl
    · simp only [if_neg old]
      refine congrArg (FindCoordinatorResponse.mk resp.nodeId resp.host resp.port · resp.rest)
        (readdress_andThen ?_ ?_ resp.coordinators)
      · exact fun _ _ _ => rfl
      · exact fun _ _ _ _ _ => rfl

theorem pass_metadata (codecs : Codecs) (map : RewriteMap) (raw : Frame) :
    codecs.pass apiKeyMetadata version map raw = metadataRewriting.pass codecs.metadata version map raw := by
  show (rewriteMetadataResponse codecs.metadata version raw map).getD raw = _
  unfold rewriteMetadataResponse Rewriting.pass
  cases codecs.metadata.decodeFrame raw version with
  | none => rfl
  | some found =>
      have shown : metadataRewriting.mapped map found.2 = changed map (·.nodeId) found.2.brokers := rfl
      simp only [shown]
      cases changed map (·.nodeId) found.2.brokers with
      | false => rfl
      | true => rfl

theorem pass_describeCluster (codecs : Codecs) (map : RewriteMap) (raw : Frame) :
    codecs.pass apiKeyDescribeCluster version map raw =
      describeClusterRewriting.pass codecs.describeCluster version map raw := by
  show (rewriteDescribeClusterResponse codecs.describeCluster version raw map).getD raw = _
  unfold rewriteDescribeClusterResponse Rewriting.pass
  cases codecs.describeCluster.decodeFrame raw version with
  | none => rfl
  | some found =>
      have shown : describeClusterRewriting.mapped map found.2 = changed map (·.brokerId) found.2.brokers := rfl
      simp only [shown]
      cases changed map (·.brokerId) found.2.brokers with
      | false => rfl
      | true => rfl

theorem pass_findCoordinator (codecs : Codecs) (map : RewriteMap) (raw : Frame) :
    codecs.pass apiKeyFindCoordinator version map raw =
      (findCoordinatorRewriting version).pass codecs.findCoordinator version map raw := by
  show (rewriteFindCoordinatorResponse codecs.findCoordinator version raw map).getD raw = _
  unfold rewriteFindCoordinatorResponse Rewriting.pass
  cases codecs.findCoordinator.decodeFrame raw version with
  | none => rfl
  | some found =>
      simp only [findCoordinatorRewriting, FindCoordinatorResponse.readdressed]
      by_cases old : version ≤ 3
      · simp only [if_pos old]
        cases map.address found.2.nodeId <;> rfl
      · simp only [if_neg old]
        cases changed map (·.nodeId) found.2.coordinators <;> rfl

theorem pass_pass {codecs : Codecs} {apiKey : Int16} (one : codecs.RoundTrips apiKey version first)
    (other : codecs.RoundTrips apiKey version second) (raw : Frame) :
    codecs.pass apiKey version second (codecs.pass apiKey version first raw) =
      codecs.pass apiKey version (first.andThen second) raw := by
  by_cases metadata : apiKey = apiKeyMetadata
  · subst metadata
    simp only [pass_metadata]
    exact metadataRewriting.pass_pass (one.metadata rfl) (other.metadata rfl) raw
  by_cases describeCluster : apiKey = apiKeyDescribeCluster
  · subst describeCluster
    simp only [pass_describeCluster]
    exact describeClusterRewriting.pass_pass (one.describeCluster rfl) (other.describeCluster rfl) raw
  by_cases findCoordinator : apiKey = apiKeyFindCoordinator
  · subst findCoordinator
    simp only [pass_findCoordinator]
    exact (findCoordinatorRewriting version).pass_pass (one.findCoordinator rfl) (other.findCoordinator rfl) raw
  · simp [Codecs.pass, rewriteResponse, metadata, describeCluster, findCoordinator]

theorem Codecs.RoundTrips.andThen {codecs : Codecs} {apiKey : Int16}
    (one : codecs.RoundTrips apiKey version first) (other : codecs.RoundTrips apiKey version second) :
    codecs.RoundTrips apiKey version (first.andThen second) where
  metadata own := metadataRewriting.roundTrips (one.metadata own) (other.metadata own)
  describeCluster own :=
    describeClusterRewriting.roundTrips (one.describeCluster own) (other.describeCluster own)
  findCoordinator own :=
    (findCoordinatorRewriting version).roundTrips (one.findCoordinator own) (other.findCoordinator own)

theorem changed_empty {β : Type} {nodeId : β → Int32} (entries : List β) :
    changed ⟨∅⟩ nodeId entries = false := by
  rw [changed, List.any_eq_false]
  intro e _
  simp [RewriteMap.address]

theorem pass_empty (codecs : Codecs) (apiKey : Int16) (raw : Frame) :
    codecs.pass apiKey version ⟨∅⟩ raw = raw := by
  by_cases metadata : apiKey = apiKeyMetadata
  · subst metadata
    rw [pass_metadata, Rewriting.pass]
    simp only [metadataRewriting, changed_empty, Bool.false_eq_true, if_false]
    split <;> rfl
  by_cases describeCluster : apiKey = apiKeyDescribeCluster
  · subst describeCluster
    rw [pass_describeCluster, Rewriting.pass]
    simp only [describeClusterRewriting, changed_empty, Bool.false_eq_true, if_false]
    split <;> rfl
  by_cases findCoordinator : apiKey = apiKeyFindCoordinator
  · subst findCoordinator
    rw [pass_findCoordinator, Rewriting.pass]
    simp only [findCoordinatorRewriting, changed_empty, RewriteMap.address, AList.lookup_empty,
      Option.map_none, Option.isSome_none, ite_self, Bool.false_eq_true, if_false]
    split <;> rfl
  · simp [Codecs.pass, rewriteResponse, metadata, describeCluster, findCoordinator]

def chainMap (maps : List RewriteMap) : RewriteMap := maps.foldl .andThen ⟨∅⟩

theorem pass_foldl {codecs : Codecs} {maps : List RewriteMap} {earlier : RewriteMap} {apiKey : Int16}
    (law : codecs.RoundTrips apiKey version earlier)
    (laws : ∀ map ∈ maps, codecs.RoundTrips apiKey version map) (raw : Frame) :
    maps.foldl (fun frame map => codecs.pass apiKey version map frame)
        (codecs.pass apiKey version earlier raw) =
      codecs.pass apiKey version (maps.foldl .andThen earlier) raw := by
  induction maps generalizing earlier with
  | nil => rfl
  | cons map maps ih =>
      have own := laws map List.mem_cons_self
      rw [List.foldl_cons, List.foldl_cons, pass_pass law own]
      exact ih (law.andThen own) fun other member => laws other (List.mem_cons_of_mem _ member)

/-- A chain of proxies gives a client the very bytes that one proxy with their maps put together would
give it. -/
theorem chain_of_proxies {codecs : Codecs} {maps : List RewriteMap} {apiKey : Int16}
    (laws : ∀ map ∈ maps, codecs.RoundTrips apiKey version map) (raw : Frame) :
    maps.foldl (fun frame map => codecs.pass apiKey version map frame) raw =
      codecs.pass apiKey version (chainMap maps) raw := by
  cases maps with
  | nil => exact (pass_empty codecs apiKey raw).symm
  | cons map maps =>
      have alone : RewriteMap.andThen ⟨∅⟩ map = map := by
        rw [RewriteMap.andThen, AList.union_empty]
      rw [chainMap, List.foldl_cons, List.foldl_cons, alone]
      exact pass_foldl (laws map List.mem_cons_self)
        (fun other member => laws other (List.mem_cons_of_mem _ member)) raw

def innerMap : RewriteMap := ⟨AList.insert 2 ("inner", 19093) (AList.insert 1 ("inner", 19092) ∅)⟩

def outerMap : RewriteMap := ⟨AList.insert 1 ("outer", 29092) ∅⟩

def chainKnown : List (List MetadataResponseBroker) :=
  [[⟨1, "b1", 9092, none⟩, ⟨2, "b2", 9092, none⟩], [⟨1, "inner", 19092, none⟩, ⟨2, "inner", 19093, none⟩],
    [⟨1, "outer", 29092, none⟩, ⟨2, "b2", 9092, none⟩], [⟨1, "outer", 29092, none⟩, ⟨2, "inner", 19093, none⟩]]

theorem innerMap_roundTrips : (metadataCodecs chainKnown).RoundTrips apiKeyMetadata 0 innerMap :=
  metadataCodecs_roundTrips (by decide +kernel)

theorem outerMap_roundTrips : (metadataCodecs chainKnown).RoundTrips apiKeyMetadata 0 outerMap :=
  metadataCodecs_roundTrips (by decide +kernel)

theorem chain_of_proxies_two :
    [innerMap, outerMap].foldl
        (fun frame map => (metadataCodecs chainKnown).pass apiKeyMetadata 0 map frame) bothListed =
      (metadataCodecs chainKnown).pass apiKeyMetadata 0 (chainMap [innerMap, outerMap]) bothListed ∧
    (metadataCodecs chainKnown).nodes apiKeyMetadata 0
        ((metadataCodecs chainKnown).pass apiKeyMetadata 0 (chainMap [innerMap, outerMap]) bothListed) =
      some (7, [⟨1, "outer", 29092⟩, ⟨2, "inner", 19093⟩]) := by
  refine ⟨chain_of_proxies ?_ bothListed, by decide +kernel⟩
  intro map member
  obtain rfl | later := List.mem_cons.mp member
  · exact innerMap_roundTrips
  · rw [List.mem_singleton.mp later]
    exact outerMap_roundTrips

end KafkaProxy
