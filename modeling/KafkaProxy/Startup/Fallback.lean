import KafkaProxy.Startup.Advertised

/-!
# A start without metadata

The targets that stand in for the brokers have node ids of their own: -1, -2, and so on. The brokers
of the cluster show up in responses with other ids, and -1 there means no node.
-/

namespace KafkaProxy.Startup
open Library

def fallbackId (i : Nat) : Int32 := -(Int32.ofNat i + 1)

/-- The node's host and port resolve to the address of the bootstrap server. -/
def Denotes (platform : Platform) (n : Node) (server : String) : Prop :=
  ∃ addr, platform.parseAddr (n.host ++ ":" ++ toString n.port.toInt) = .ok addr ∧
    platform.parseAddr server = .ok addr

/-- What a client should see for a node: the advertised address of the bootstrap server that it is,
and no change where there is no node. -/
structure Restored (platform : Platform) (config : ProxyConfig) (n shown : Node) : Prop where
  server : 0 ≤ n.nodeId → (∃ pair ∈ config.pairs, Denotes platform n pair.1) →
    ∃ pair ∈ config.pairs, Denotes platform n pair.1 ∧
      Advertises platform config pair.2 shown.address
  nobody : n.nodeId = -1 → shown = n

/-- The address that a node gets from the bootstrap servers that are looked up at its id. -/
def Gets (platform : Platform) (config : ProxyConfig) (targets : List BrokerTarget) (n : Node)
    (address : String × Int32) : Prop :=
  Claims platform config targets n.nodeId address ∨
    (∀ other, ¬ Claims platform config targets n.nodeId other) ∧ address = n.address

structure Agrees (platform : Platform) (config : ProxyConfig) (targets : List BrokerTarget) (n : Node) :
    Prop where
  server : 0 ≤ n.nodeId → (∃ pair ∈ config.pairs, Denotes platform n pair.1) →
    ∃ pair ∈ config.pairs, Denotes platform n pair.1 ∧
      ∃ address, Gets platform config targets n address ∧ Advertises platform config pair.2 address
  nobody : n.nodeId = -1 → Claims platform config targets (-1) n.address

variable {platform : Platform} {config : ProxyConfig} {targets : List BrokerTarget}
  {map : RewriteMap} {listeners : List MappedListener}

theorem mem_fallbackTargets {servers : List String} {i : Nat}
    (made : fallbackTargets platform i servers = .ok targets) {target : BrokerTarget}
    (member : target ∈ targets) : ∃ j < servers.length, target.nodeId = fallbackId (i + j) := by
  induction servers generalizing i targets with
  | nil =>
      cases made
      cases member
  | cons server rest ih =>
      simp only [fallbackTargets, bind_eq_ok, pure, Except.pure, Except.ok.injEq] at made
      obtain ⟨addr, _, others, later, rfl⟩ := made
      rcases List.mem_cons.mp member with rfl | there
      · exact ⟨0, by simp, rfl⟩
      · obtain ⟨j, bound, same⟩ := ih later there
        exact ⟨j + 1, by simpa using bound, by rw [same]; congr 1; omega⟩

theorem fallbackId_neg {i : Nat} (few : i < 2 ^ 31) : fallbackId i < 0 := by
  rw [Int32.lt_iff_toInt_lt, fallbackId, Int32.toInt_neg, Int32.toInt_add,
    Int32.toInt_ofNat_of_lt few]
  simp only [Int32.reduceToInt, Int.bmod]
  omega

theorem Claims.neg {nodeId : Int32} {address : String × Int32}
    (few : config.cluster.bootstrapServers.length < 2 ^ 31)
    (made : bootstrapTargets platform config [] = .ok targets)
    (claims : Claims platform config targets nodeId address) : nodeId < 0 := by
  obtain ⟨_, _, _, _, _, ⟨target, looksUp, rfl⟩, _⟩ := claims
  obtain ⟨j, bound, same⟩ := mem_fallbackTargets made looksUp.mem
  rw [same]
  exact fallbackId_neg (by omega)

theorem gets_iff_of_few {n : Node} {address : String × Int32}
    (few : config.cluster.bootstrapServers.length < 2 ^ 31)
    (made : bootstrapTargets platform config [] = .ok targets) (real : 0 ≤ n.nodeId) :
    Gets platform config targets n address ↔ address = n.address := by
  have unclaimed (other : String × Int32) : ¬ Claims platform config targets n.nodeId other :=
    fun claims => by
      have negative := claims.neg few made
      rw [Int32.lt_iff_toInt_lt] at negative
      rw [Int32.le_iff_toInt_le] at real
      omega
  simp [Gets, unclaimed]

theorem gets_readdressed (built : buildRewriteMap platform config targets = .ok (map, listeners))
    {n : Node} {address : String × Int32} :
    Gets platform config targets n address ↔ (map.readdressed n).address = address := by
  simp only [Gets, ← address_eq_some_iff built, RewriteMap.readdressed]
  cases found : map.address n.nodeId with
  | none => simp [eq_comm]
  | some other => simp [Node.address]

theorem fallback_claims (accepted : config.validate platform = .ok ())
    (made : bootstrapTargets platform config [] = .ok targets)
    (built : buildRewriteMap platform config targets = .ok (map, listeners)) :
    map.address (-1) ≠ none := by
  rw [ne_eq, address_eq_none_iff_servers accepted built, not_not]
  cases servers : config.cluster.bootstrapServers with
  | nil => exact absurd servers (ProxyConfig.validate_eq_ok accepted).1
  | cons server rest =>
      simp only [bootstrapTargets, List.isEmpty_nil, if_true, servers, fallbackTargets, bind_eq_ok,
        mapError_eq_ok, pure, Except.pure, Except.ok.injEq] at made
      obtain ⟨addr, resolved, others, _, rfl⟩ := made
      have first : fallbackId 0 = -1 := by decide
      exact ⟨server, List.mem_cons_self, ⟨fallbackId 0, addr, hostOf server⟩, first, addr, resolved,
        List.find?_cons_of_pos (by simp [BrokerTarget.isServer])⟩

theorem restored_iff (accepted : config.validate platform = .ok ())
    (made : bootstrapTargets platform config [] = .ok targets)
    (built : buildRewriteMap platform config targets = .ok (map, listeners)) (n : Node) :
    Restored platform config n (map.readdressed n) ↔ Agrees platform config targets n := by
  constructor
  · rintro ⟨server, nobody⟩
    refine ⟨fun real denotes => ?_, fun absent => ?_⟩
    · obtain ⟨pair, member, own, advertises⟩ := server real denotes
      exact ⟨pair, member, own, _, (gets_readdressed built).mpr rfl, advertises⟩
    · obtain ⟨address, found⟩ := Option.ne_none_iff_exists'.mp (fallback_claims accepted made built)
      have kept := nobody absent
      rw [RewriteMap.readdressed, absent, found] at kept
      rw [← address_eq_some_iff built, found, ← kept]
      rfl
  · rintro ⟨server, nobody⟩
    refine ⟨fun real denotes => ?_, fun absent => ?_⟩
    · obtain ⟨pair, member, own, address, gets, advertises⟩ := server real denotes
      exact ⟨pair, member, own, (gets_readdressed built).mp gets ▸ advertises⟩
    · have found := (address_eq_some_iff built).mpr (nobody absent)
      rw [← absent] at found
      simp only [RewriteMap.readdressed, found, Node.address]

/-- Without metadata at the start, the nodes of a later response are restored exactly if those that
are bootstrap servers have the advertised address already, and no node of id -1 has another address
than it is given. -/
theorem fallback_restored_iff (accepted : config.validate platform = .ok ())
    (made : bootstrapTargets platform config [] = .ok targets)
    (built : buildRewriteMap platform config targets = .ok (map, listeners)) {codecs : Codecs}
    {apiKey version : Int16} {raw : Frame} {cid : Int32} {nodes : List Node}
    (law : codecs.Shows apiKey version map raw)
    (decoded : codecs.nodes apiKey version raw = some (cid, nodes)) :
    (∃ shown, codecs.nodes apiKey version ((rewriteResponse codecs apiKey version raw map).getD raw) =
        some (cid, shown) ∧ List.Forall₂ (Restored platform config) nodes shown) ↔
      ∀ n ∈ nodes, Agrees platform config targets n := by
  simp only [returned_nodes law decoded, ← restored_iff accepted made built]
  constructor
  · rintro ⟨shown, ⟨⟩, all⟩
    exact List.forall₂_same.mp (List.forall₂_map_right_iff.mp all)
  · intro all
    exact ⟨_, rfl, List.forall₂_map_right_iff.mpr (List.forall₂_same.mpr all)⟩

/-! ## A broker with the id 1 -/

def fallbackMap : RewriteMap := ⟨AList.insert (-1) ("proxy", 19092) ∅⟩

def fallbackTarget : BrokerTarget := ⟨-1, ⟨.v4 0x0A000001, 9092⟩, "b1"⟩

theorem fallback_built : buildRewriteMap twoNames oneServer [fallbackTarget] =
    .ok (fallbackMap, [⟨-1, 19092, ":19092", fallbackTarget⟩]) :=
  rfl

def oneKnown : List (List MetadataResponseBroker) := [[⟨1, "b1", 9092, none⟩]]

theorem oneKnown_roundTrips : (metadataCodecs oneKnown).RoundTrips apiKeyMetadata 0 fallbackMap :=
  metadataCodecs_roundTrips (by decide +kernel)

def oneListed : Frame := putI32 7 ++ metadataBody [⟨1, "b1", 9092, none⟩]

theorem oneListed_nodes : (metadataCodecs oneKnown).nodes apiKeyMetadata 0 oneListed =
    some (7, [⟨1, "b1", 9092⟩]) := by
  decide +kernel

/-! ## A FindCoordinator response in both layouts -/

def group : Coordinator := ⟨"group", 1, "b1", 9092, 0, none⟩

def missing : Coordinator := ⟨"other", -1, "", -1, 15, none⟩

def coordinatorsKnown (version : Int16) : List (FindCoordinatorResponse Unit) :=
  if version ≤ 3 then [⟨1, "b1", 9092, [], ()⟩]
  else [⟨-1, "", -1, [group, missing], ()⟩,
    ⟨-1, "", -1, [group, { missing with host := "proxy", port := 19092 }], ()⟩]

def coordinatorCodecs : Codecs :=
  ⟨Unit, Unit, Unit, .unknown, .unknown, writtenCodec (3 ≤ ·) findCoordinatorBody coordinatorsKnown⟩

def coordinatorFound : Frame := putI32 7 ++ findCoordinatorBody 0 ⟨1, "b1", 9092, [], ()⟩

def coordinatorsListed : Frame := putI32 7 ++ [0] ++ findCoordinatorBody 4 ⟨-1, "", -1, [group, missing], ()⟩

theorem coordinators_roundTrips (version : Int16)
    (distinct : ((coordinatorsKnown version).map (findCoordinatorBody version)).Nodup)
    (closed : ∀ resp ∈ coordinatorsKnown version,
      resp.readdressed fallbackMap version ∈ coordinatorsKnown version) :
    coordinatorCodecs.RoundTrips apiKeyFindCoordinator version fallbackMap where
  metadata own := absurd own (by decide)
  describeCluster own := absurd own (by decide)
  findCoordinator _ := writtenCodec_roundTrips distinct closed

theorem coordinatorFound_nodes : coordinatorCodecs.nodes apiKeyFindCoordinator 0 coordinatorFound =
    some (7, [⟨1, "b1", 9092⟩]) := by
  decide +kernel

theorem coordinatorsListed_nodes : coordinatorCodecs.nodes apiKeyFindCoordinator 4 coordinatorsListed =
    some (7, [⟨1, "b1", 9092⟩, ⟨-1, "", -1⟩]) := by
  decide +kernel

theorem fallback_restored_iff_one :
    ((∃ shown, (metadataCodecs oneKnown).nodes apiKeyMetadata 0
        ((rewriteResponse (metadataCodecs oneKnown) apiKeyMetadata 0 oneListed fallbackMap).getD
          oneListed) = some (7, shown) ∧
      List.Forall₂ (Restored twoNames oneServer) [⟨1, "b1", 9092⟩] shown) ↔
      ∀ n ∈ [⟨1, "b1", 9092⟩], Agrees twoNames oneServer [fallbackTarget] n) ∧
    ((∃ shown, coordinatorCodecs.nodes apiKeyFindCoordinator 0
        ((rewriteResponse coordinatorCodecs apiKeyFindCoordinator 0 coordinatorFound fallbackMap).getD
          coordinatorFound) = some (7, shown) ∧
      List.Forall₂ (Restored twoNames oneServer) [⟨1, "b1", 9092⟩] shown) ↔
      ∀ n ∈ [⟨1, "b1", 9092⟩], Agrees twoNames oneServer [fallbackTarget] n) ∧
    ((∃ shown, coordinatorCodecs.nodes apiKeyFindCoordinator 4
        ((rewriteResponse coordinatorCodecs apiKeyFindCoordinator 4 coordinatorsListed fallbackMap).getD
          coordinatorsListed) = some (7, shown) ∧
      List.Forall₂ (Restored twoNames oneServer) [⟨1, "b1", 9092⟩, ⟨-1, "", -1⟩] shown) ↔
      ∀ n ∈ [⟨1, "b1", 9092⟩, ⟨-1, "", -1⟩], Agrees twoNames oneServer [fallbackTarget] n) := by
  have accepted : oneServer.validate twoNames = .ok () := by decide +kernel
  have made : bootstrapTargets twoNames oneServer [] = .ok [fallbackTarget] := by decide +kernel
  have old := coordinators_roundTrips 0 (by decide +kernel) (by decide +kernel)
  have new := coordinators_roundTrips 4 (by decide +kernel) (by decide +kernel)
  refine ⟨?_, ?_, ?_⟩
  · exact fallback_restored_iff accepted made fallback_built (oneKnown_roundTrips.shows _) oneListed_nodes
  · exact fallback_restored_iff accepted made fallback_built (old.shows _) coordinatorFound_nodes
  · exact fallback_restored_iff accepted made fallback_built (new.shows _) coordinatorsListed_nodes

theorem fallback_leaves_broker : ¬ ∀ targets map listeners, oneServer.validate twoNames = .ok () →
    bootstrapTargets twoNames oneServer [] = .ok targets →
    buildRewriteMap twoNames oneServer targets = .ok (map, listeners) →
    (metadataCodecs oneKnown).RoundTrips apiKeyMetadata 0 map → ∀ raw cid nodes shown,
      (metadataCodecs oneKnown).nodes apiKeyMetadata 0 raw = some (cid, nodes) →
      (∀ n ∈ nodes, 0 ≤ n.nodeId ∨ n.nodeId = -1) →
      (metadataCodecs oneKnown).nodes apiKeyMetadata 0
        ((rewriteResponse (metadataCodecs oneKnown) apiKeyMetadata 0 raw map).getD raw) =
          some (cid, shown) →
      List.Forall₂ (Restored twoNames oneServer) nodes shown := by
  intro claim
  have all := claim [fallbackTarget] fallbackMap _ (by decide +kernel) (by decide +kernel) fallback_built
    oneKnown_roundTrips oneListed 7 _ [⟨1, "b1", 9092⟩] oneListed_nodes (by decide) (by decide +kernel)
  cases all with
  | cons restored _ =>
      obtain ⟨pair, member, _, bindAddr, host, port, entry, same⟩ := restored.server (by decide)
        ⟨("b1:9092", "proxy:19092"), by decide, ⟨.v4 0x0A000001, 9092⟩, by decide +kernel,
          by decide +kernel⟩
      have only : pair = ("b1:9092", "proxy:19092") := by simpa [ProxyConfig.pairs, oneServer] using member
      rw [only] at entry
      cases entry
      exact absurd same (by decide)

end KafkaProxy.Startup
