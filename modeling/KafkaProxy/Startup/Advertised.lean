import KafkaProxy.Nodes
import KafkaProxy.Startup.Listeners

/-!
# The addresses that clients see

The rewrite map has the targets that are looked up for the bootstrap servers and no others. Where
several servers are looked up at one target, the last one is advertised for it.
-/

namespace KafkaProxy.Startup
open Library

def Advertises (platform : Platform) (config : ProxyConfig) (mapping : String)
    (address : String × Int32) : Prop :=
  ∃ bindAddr host port,
    parseMappingEntry platform mapping (config.proxy.advertiseHost.getD "") =
      .ok (bindAddr, host, port) ∧ address = (host, Int32.ofNat port.toNat)

def Advertised (platform : Platform) (config : ProxyConfig) (address : String × Int32) : Prop :=
  ∃ mapping ∈ config.proxy.bootstrapServerMapping, Advertises platform config mapping address

/-- The last bootstrap server that is looked up at a target with this node id advertises the
address. -/
def Claims (platform : Platform) (config : ProxyConfig) (targets : List BrokerTarget) (nodeId : Int32)
    (address : String × Int32) : Prop :=
  ∃ earlier server mapping later, config.pairs = earlier ++ (server, mapping) :: later ∧
    (∃ target, LooksUp platform targets server target ∧ target.nodeId = nodeId) ∧
    Advertises platform config mapping address ∧
    ∀ pair ∈ later, ∀ target, LooksUp platform targets pair.1 target → target.nodeId ≠ nodeId

variable {platform : Platform} {config : ProxyConfig} {targets : List BrokerTarget}
  {map : RewriteMap} {listeners : List MappedListener} {nodeId : Int32} {address : String × Int32}

theorem LooksUp.unique {server : String} {s t : BrokerTarget} (first : LooksUp platform targets server s)
    (second : LooksUp platform targets server t) : s = t := by
  obtain ⟨addr, resolved, found⟩ := first
  obtain ⟨other, again, there⟩ := second
  rw [resolved, Except.ok.injEq] at again
  subst again
  exact Option.some.inj (found.symm.trans there)

theorem LooksUp.mem {server : String} {target : BrokerTarget}
    (looksUp : LooksUp platform targets server target) : target ∈ targets := by
  obtain ⟨addr, _, found⟩ := looksUp
  exact List.mem_of_find?_eq_some found

theorem Serves.advertises {server mapping advertiseHost : String} {listener : MappedListener}
    (serves : Serves platform config targets server mapping listener advertiseHost) :
    Advertises platform config mapping (advertiseHost, Int32.ofNat listener.port.toNat) :=
  ⟨_, _, _, serves.entry, rfl⟩

theorem Serves.advertises_iff {server mapping advertiseHost : String} {listener : MappedListener}
    (serves : Serves platform config targets server mapping listener advertiseHost) :
    Advertises platform config mapping address ↔
      address = (advertiseHost, Int32.ofNat listener.port.toNat) := by
  constructor
  · rintro ⟨bindAddr, host, port, entry, rfl⟩
    rw [serves.entry, Except.ok.injEq, Prod.mk.injEq, Prod.mk.injEq] at entry
    obtain ⟨_, rfl, rfl⟩ := entry
    rfl
  · rintro rfl
    exact serves.advertises

theorem Serves.nodeId_iff {server mapping advertiseHost : String} {listener : MappedListener}
    (serves : Serves platform config targets server mapping listener advertiseHost) :
    (∃ target, LooksUp platform targets server target ∧ target.nodeId = nodeId) ↔
      listener.nodeId = nodeId := by
  rw [serves.nodeId]
  constructor
  · rintro ⟨target, looksUp, rfl⟩
    rw [looksUp.unique serves.found]
  · intro same
    exact ⟨listener.target, serves.found, same⟩

theorem forall₂_split {α β : Type} {R : α → β → Prop} {l : List α} {before : List β} {b : β}
    {after : List β} (all : List.Forall₂ R l (before ++ b :: after)) :
    ∃ earlier a later, l = earlier ++ a :: later ∧ R a b ∧ List.Forall₂ R later after := by
  induction before generalizing l with
  | nil =>
      cases all with
      | @cons a _ later _ here rest => exact ⟨[], a, later, rfl, here, rest⟩
  | cons _ before ih =>
      cases all with
      | @cons a _ rest _ _ others =>
          obtain ⟨earlier, c, later, rfl, here, remaining⟩ := ih others
          exact ⟨a :: earlier, c, later, rfl, here, remaining⟩

theorem forall₂_forall_mem {α β : Type} {R : α → β → Prop} {P : α → Prop} {Q : β → Prop}
    {l : List α} {m : List β} (all : List.Forall₂ R l m) (agree : ∀ a b, R a b → (P a ↔ Q b)) :
    (∀ a ∈ l, P a) ↔ ∀ b ∈ m, Q b := by
  induction all with
  | nil => simp
  | cons here _ ih => simp only [List.forall_mem_cons, agree _ _ here, ih]

theorem address_eq_some_iff (built : buildRewriteMap platform config targets = .ok (map, listeners)) :
    map.address nodeId = some address ↔ Claims platform config targets nodeId address := by
  obtain ⟨served, each, _, ports⟩ := buildRewriteMap_eq_ok.mp built
  have missed {pairs : List (String × String)} {outs : List (MappedListener × String)}
      (later : List.Forall₂ (fun pair out =>
        Serves platform config targets pair.1 pair.2 out.1 out.2) pairs outs) :
      (∀ pair ∈ pairs, ∀ target, LooksUp platform targets pair.1 target → target.nodeId ≠ nodeId) ↔
        ∀ out ∈ outs, out.1.nodeId ≠ nodeId :=
    forall₂_forall_mem later fun pair out serves => by simpa using not_congr serves.nodeId_iff
  rw [RewriteMap.address, ports, Option.map_eq_some_iff]
  constructor
  · rintro ⟨entry, last, rfl⟩
    obtain ⟨earlier, later, split, others⟩ := Table.lookup_insertAll_eq_some.mp last
    obtain ⟨before, rest, rfl, _, remains⟩ := List.map_eq_append_iff.mp split
    obtain ⟨out, after, rfl, own, rfl⟩ := List.map_eq_cons_iff.mp remains
    obtain ⟨first, pair, following, together, serves, matching⟩ := forall₂_split each
    cases own
    refine ⟨first, pair.1, pair.2, following, together, serves.nodeId_iff.mpr rfl,
      serves.advertises, (missed matching).mpr ?_⟩
    intro out member
    exact others (portEntry out) (List.mem_map_of_mem member)
  · rintro ⟨first, server, mapping, following, together, looksUp, advertises, others⟩
    rw [together] at each
    obtain ⟨before, out, after, rfl, serves, matching⟩ := forall₂_split each.flip
    refine ⟨(out.2, out.1.port), Table.lookup_insertAll_eq_some.mpr
      ⟨before.map portEntry, after.map portEntry, ?_, ?_⟩, ?_⟩
    · simp [portEntry, serves.nodeId_iff.mp looksUp]
    · intro entry member
      obtain ⟨out, there, rfl⟩ := List.mem_map.mp member
      exact (missed matching.flip).mp others out there
    · exact (serves.advertises_iff.mp advertises).symm

theorem address_eq_none_iff (built : buildRewriteMap platform config targets = .ok (map, listeners)) :
    map.address nodeId = none ↔ ∀ pair ∈ config.pairs, ∀ target,
      LooksUp platform targets pair.1 target → target.nodeId ≠ nodeId := by
  obtain ⟨served, each, _, ports⟩ := buildRewriteMap_eq_ok.mp built
  rw [RewriteMap.address, ports, Option.map_eq_none_iff, Table.lookup_insertAll_eq_none,
    List.forall_mem_map]
  exact (forall₂_forall_mem each fun pair out serves => by
    simpa [portEntry] using not_congr serves.nodeId_iff).symm

theorem Claims.advertised (claims : Claims platform config targets nodeId address) :
    Advertised platform config address := by
  obtain ⟨earlier, server, mapping, later, together, _, advertises, _⟩ := claims
  have member : (server, mapping) ∈ config.pairs := by simp [together]
  exact ⟨mapping, (List.of_mem_zip member).2, advertises⟩

/-! ## What the checks of the configuration give -/

theorem ProxyConfig.validateEntries_eq_ok {mappings : List String} {i : Nat}
    (accepted : config.validateEntries platform i mappings = .ok ()) {mapping : String}
    (member : mapping ∈ mappings) : ∃ j, config.validateEntry platform j mapping = .ok () := by
  induction mappings generalizing i with
  | nil => cases member
  | cons first rest ih =>
      obtain ⟨_, here, others⟩ := bind_eq_ok.mp accepted
      rcases List.mem_cons.mp member with rfl | later
      · exact ⟨i, here⟩
      · exact ih others later

theorem ProxyConfig.validate_eq_ok (accepted : config.validate platform = .ok ()) :
    config.cluster.bootstrapServers ≠ [] ∧
      config.proxy.bootstrapServerMapping.length = config.cluster.bootstrapServers.length ∧
      config.validateEntries platform 0 config.proxy.bootstrapServerMapping = .ok () := by
  unfold validate at accepted
  split_ifs at accepted with noServers noMappings lengths _
  · exact ⟨by simpa using noServers, by simpa using lengths, accepted⟩

theorem Advertises.host_ne_empty (accepted : config.validate platform = .ok ()) {mapping : String}
    (member : mapping ∈ config.proxy.bootstrapServerMapping)
    (advertises : Advertises platform config mapping address) : address.1 ≠ "" := by
  obtain ⟨i, checked⟩ := ProxyConfig.validateEntries_eq_ok
    (ProxyConfig.validate_eq_ok accepted).2.2 member
  obtain ⟨bindAddr, host, port, entry, rfl⟩ := advertises
  simp only [ProxyConfig.validateEntry, bind_eq_ok, okOr_eq_ok, Prod.exists] at checked
  simp only [parseMappingEntry, bind_eq_ok, okOr_eq_ok, Prod.exists, pure, Except.pure,
    Except.ok.injEq, Prod.mk.injEq] at entry
  obtain ⟨_, advertise, parts, accepts⟩ := checked
  obtain ⟨_, _, same, advertiseHost, advertisePort, split, _, _, _, _, _, rfl, rfl⟩ := entry
  rw [parts, Option.some.injEq, Prod.mk.injEq] at same
  obtain ⟨rfl, rfl⟩ := same
  simp only [split, Option.map_some, Option.getD_some] at accepts
  cases omitted : advertiseHost.isEmpty with
  | true =>
      simp only [omitted, Bool.true_and, if_true] at accepts ⊢
      intro missing
      rw [missing] at accepts
      cases accepts
  | false =>
      simp only [Bool.false_eq_true, if_false]
      intro missing
      rw [← String.toList_ofList (l := advertiseHost), missing] at omitted
      cases omitted

/-! ## The addresses in a response -/

theorem address_eq_none_iff_servers (accepted : config.validate platform = .ok ())
    (built : buildRewriteMap platform config targets = .ok (map, listeners)) :
    map.address nodeId = none ↔ ¬ ∃ server ∈ config.cluster.bootstrapServers, ∃ target,
      target.nodeId = nodeId ∧ LooksUp platform targets server target := by
  have served : config.pairs.map (·.1) = config.cluster.bootstrapServers :=
    List.map_fst_zip (ProxyConfig.validate_eq_ok accepted).2.1.ge
  rw [address_eq_none_iff built, ← served]
  constructor
  · rintro others ⟨server, member, target, own, looksUp⟩
    obtain ⟨pair, there, rfl⟩ := List.mem_map.mp member
    exact others pair there target looksUp own
  · intro unserved pair member target looksUp own
    exact unserved ⟨pair.1, List.mem_map_of_mem member, target, own, looksUp⟩

theorem readdressed_advertised_iff (accepted : config.validate platform = .ok ())
    (built : buildRewriteMap platform config targets = .ok (map, listeners)) (n : Node) :
    Advertised platform config (map.readdressed n).address ↔
      (∃ server ∈ config.cluster.bootstrapServers, ∃ target, target.nodeId = n.nodeId ∧
        LooksUp platform targets server target) ∨ Advertised platform config n.address := by
  have unserved : map.address n.nodeId = none ↔ _ := address_eq_none_iff_servers accepted built
  unfold RewriteMap.readdressed
  cases found : map.address n.nodeId with
  | none => simp [unserved.mp found]
  | some address =>
      have served := not_not.mp fun missing => by simpa [found] using unserved.mpr missing
      exact iff_of_true ((address_eq_some_iff built).mp found).advertised (.inl served)

/-- In the response that a client gets, the nodes are at advertised addresses exactly if each of them
is a target that is looked up for a bootstrap server, or has such an address of its own. -/
theorem nodes_advertised_iff (accepted : config.validate platform = .ok ())
    (built : buildRewriteMap platform config targets = .ok (map, listeners)) {codecs : Codecs}
    {apiKey version : Int16} {raw : Frame} {cid : Int32} {nodes : List Node}
    (law : codecs.Shows apiKey version map raw)
    (decoded : codecs.nodes apiKey version raw = some (cid, nodes)) :
    (∃ shown, codecs.nodes apiKey version ((rewriteResponse codecs apiKey version raw map).getD raw) =
        some (cid, shown) ∧ ∀ n ∈ shown, Advertised platform config n.address ∧ n.host ≠ "") ↔
      ∀ n ∈ nodes, (∃ server ∈ config.cluster.bootstrapServers, ∃ target, target.nodeId = n.nodeId ∧
        LooksUp platform targets server target) ∨ Advertised platform config n.address := by
  simp only [returned_nodes law decoded, ← readdressed_advertised_iff accepted built]
  constructor
  · rintro ⟨shown, ⟨⟩, all⟩ n member
    exact (all _ (List.mem_map_of_mem member)).1
  · intro all
    refine ⟨_, rfl, fun n member => ?_⟩
    obtain ⟨before, there, rfl⟩ := List.mem_map.mp member
    obtain ⟨mapping, inside, advertises⟩ := all before there
    exact ⟨⟨mapping, inside, advertises⟩, advertises.host_ne_empty accepted inside⟩

/-! ## A cluster of two brokers, one of them configured -/

/-- The body of a Metadata response of version 0, without topics. -/
def metadataBody (brokers : List MetadataResponseBroker) : Frame :=
  putI32 (Int32.ofNat brokers.length) ++
    brokers.flatMap (fun b => putI32 b.nodeId ++ BigEndian.encode 2 b.host.length ++
      b.host.toList.map (fun c => UInt8.ofNat c.toNat) ++ putI32 b.port) ++ putI32 0

def metadataCodec (known : List (List MetadataResponseBroker)) : Message (MetadataResponse Unit) where
  decodeFrame raw version :=
    if version = 0 then
      (known.find? fun brokers => putI32 7 ++ metadataBody brokers = raw).map fun brokers =>
        (7, ⟨brokers, ()⟩)
    else none
  isFlexibleVersion version := 9 ≤ version
  encode resp version := if version = 0 then some (metadataBody resp.brokers) else none
  flexibleEncode _ _ := none

def metadataCodecs (known : List (List MetadataResponseBroker)) : Codecs :=
  ⟨Unit, Unit, Unit, metadataCodec known, .unknown, .unknown⟩

theorem metadataCodecs_roundTrips {known : List (List MetadataResponseBroker)}
    (closed : ∀ brokers ∈ known, known.find? (fun other => putI32 7 ++ metadataBody other =
        putI32 7 ++ metadataBody ((⟨brokers, ()⟩ : MetadataResponse Unit).readdressed map).brokers) =
      some ((⟨brokers, ()⟩ : MetadataResponse Unit).readdressed map).brokers) :
    (metadataCodecs known).RoundTrips apiKeyMetadata 0 map where
  metadata _ raw cid resp decoded := by
    obtain ⟨brokers, found, same⟩ := Option.map_eq_some_iff.mp decoded
    cases same
    refine ⟨_, rfl, ?_⟩
    exact congrArg (Option.map _) (closed brokers (List.mem_of_find?_eq_some found))
  describeCluster own := absurd own (by decide)
  findCoordinator own := absurd own (by decide)

def twoNames : Platform := .ofNames [("b1", 0x0A000001), ("b2", 0x0A000002)]

def oneServer : ProxyConfig :=
  { cluster := ⟨["b1:9092"]⟩
    proxy := ⟨none, ["proxy:19092"]⟩
    pool := ⟨16, 2⟩ }

def oneServerMap : RewriteMap := ⟨AList.insert 1 ("proxy", 19092) ∅⟩

def bothTargets : List BrokerTarget :=
  [⟨1, ⟨.v4 0x0A000001, 9092⟩, "b1"⟩, ⟨2, ⟨.v4 0x0A000002, 9092⟩, "b2"⟩]

theorem oneServer_built : buildRewriteMap twoNames oneServer bothTargets =
    .ok (oneServerMap, [⟨1, 19092, ":19092", ⟨1, ⟨.v4 0x0A000001, 9092⟩, "b1"⟩⟩]) :=
  rfl

def bothKnown : List (List MetadataResponseBroker) :=
  [[⟨1, "b1", 9092, none⟩, ⟨2, "b2", 9092, none⟩], [⟨1, "proxy", 19092, none⟩, ⟨2, "b2", 9092, none⟩]]

theorem bothKnown_roundTrips : (metadataCodecs bothKnown).RoundTrips apiKeyMetadata 0 oneServerMap :=
  metadataCodecs_roundTrips (by decide +kernel)

def bothListed : Frame :=
  putI32 7 ++ metadataBody [⟨1, "b1", 9092, none⟩, ⟨2, "b2", 9092, none⟩]

theorem bothListed_nodes : (metadataCodecs bothKnown).nodes apiKeyMetadata 0 bothListed =
    some (7, [⟨1, "b1", 9092⟩, ⟨2, "b2", 9092⟩]) := by
  decide +kernel

theorem nodes_advertised_iff_both :
    (∃ shown, (metadataCodecs bothKnown).nodes apiKeyMetadata 0
        ((rewriteResponse (metadataCodecs bothKnown) apiKeyMetadata 0 bothListed oneServerMap).getD
          bothListed) = some (7, shown) ∧
      ∀ n ∈ shown, Advertised twoNames oneServer n.address ∧ n.host ≠ "") ↔
      ∀ n ∈ [⟨1, "b1", 9092⟩, ⟨2, "b2", 9092⟩], (∃ server ∈ oneServer.cluster.bootstrapServers,
        ∃ target, target.nodeId = Node.nodeId n ∧ LooksUp twoNames bothTargets server target) ∨
          Advertised twoNames oneServer n.address :=
  nodes_advertised_iff (by decide +kernel) oneServer_built (bothKnown_roundTrips.shows bothListed)
    bothListed_nodes

theorem real_address_shown : ¬ ∀ targets map listeners, oneServer.validate twoNames = .ok () →
    bootstrapTargets twoNames oneServer [⟨1, "b1", 9092⟩, ⟨2, "b2", 9092⟩] = .ok targets →
    buildRewriteMap twoNames oneServer targets = .ok (map, listeners) →
    (metadataCodecs bothKnown).RoundTrips apiKeyMetadata 0 map → ∀ raw cid nodes shown,
      (metadataCodecs bothKnown).nodes apiKeyMetadata 0 raw = some (cid, nodes) →
      (∀ n ∈ nodes, ∃ t ∈ targets, t.nodeId = n.nodeId) →
      (metadataCodecs bothKnown).nodes apiKeyMetadata 0
        ((rewriteResponse (metadataCodecs bothKnown) apiKeyMetadata 0 raw map).getD raw) =
          some (cid, shown) →
      ∀ n ∈ shown, Advertised twoNames oneServer n.address := by
  intro claim
  have shown := claim bothTargets oneServerMap _ (by decide +kernel) (by decide +kernel) oneServer_built
    bothKnown_roundTrips bothListed 7 _ [⟨1, "proxy", 19092⟩, ⟨2, "b2", 9092⟩] bothListed_nodes
    (by decide) (by decide +kernel) ⟨2, "b2", 9092⟩ (by decide)
  obtain ⟨mapping, member, bindAddr, host, port, entry, same⟩ := shown
  rw [List.mem_singleton.mp member] at entry
  cases entry
  exact absurd same (by decide)

end KafkaProxy.Startup
