import KafkaProxy.Startup.Listeners

/-!
# Brokers and their advertised addresses

The rewrite map and the listeners are built side by side. An entry of the map is that of the last
listener of its broker.
-/

namespace KafkaProxy.Startup
open Library

variable {platform : Platform} {config : ProxyConfig} {targets : List BrokerTarget}
  {map : RewriteMap} {listeners : List MappedListener} {nodeId : Int32} {host : String} {port : UInt16}

/-- The `i`-th listener is the last one of its broker, and this is the host that is advertised for it. -/
structure WrittenLast (platform : Platform) (config : ProxyConfig) (targets : List BrokerTarget)
    (listeners : List MappedListener) (i : Nat) (listener : MappedListener) (host : String) : Prop where
  here : listeners[i]? = some listener
  serves : ∃ server mapping, config.pairs[i]? = some (server, mapping) ∧
    Serves platform config targets server mapping listener host
  last : ∀ (j : Nat) later, i < j → listeners[j]? = some later → later.nodeId ≠ listener.nodeId

theorem mem_nodePorts_iff (built : buildRewriteMap platform config targets = .ok (map, listeners)) :
    nodeId ∈ map.nodePorts.keys ↔ nodeId ∈ listeners.map (·.nodeId) := by
  obtain ⟨served, _, rfl, ports⟩ := buildRewriteMap_eq_ok.mp built
  rw [← AList.mem_keys, ← not_iff_not, ← AList.lookup_eq_none, ports, Table.lookup_insertAll_eq_none,
    List.forall_mem_map]
  simp [portEntry]

theorem lookup_nodePorts_iff (built : buildRewriteMap platform config targets = .ok (map, listeners)) :
    map.nodePorts.lookup nodeId = some (host, port) ↔ ∃ i listener,
      WrittenLast platform config targets listeners i listener host ∧ listener.nodeId = nodeId ∧
        listener.port = port := by
  obtain ⟨served, each, rfl, ports⟩ := buildRewriteMap_eq_ok.mp built
  rw [ports, Table.lookup_insertAll_eq_some_iff_last]
  simp only [List.getElem?_map, Option.map_eq_some_iff]
  constructor
  · rintro ⟨i, ⟨out, here, same⟩, missed⟩
    cases same
    refine ⟨i, out.1, ⟨?_, ?_, ?_⟩, rfl, rfl⟩
    · rw [List.getElem?_map, here, Option.map_some]
    · obtain ⟨pair, asked, serves⟩ := forall₂_getElem? each here
      exact ⟨_, _, asked, serves⟩
    · intro j later after there
      rw [List.getElem?_map, Option.map_eq_some_iff] at there
      obtain ⟨other, place, rfl⟩ := there
      exact missed j _ after ⟨other, place, rfl⟩
  · rintro ⟨i, listener, ⟨here, serves, last⟩, rfl, rfl⟩
    rw [List.getElem?_map, Option.map_eq_some_iff] at here
    obtain ⟨out, place, rfl⟩ := here
    obtain ⟨server, mapping, asked, written⟩ := serves
    obtain ⟨pair, again, serves⟩ := forall₂_getElem? each place
    rw [asked, Option.some_inj] at again
    subst again
    have entry := written.entry.symm.trans serves.entry
    rw [Except.ok.injEq, Prod.mk.injEq, Prod.mk.injEq] at entry
    refine ⟨i, ⟨out, place, ?_⟩, ?_⟩
    · rw [portEntry, entry.2.1]
    · rintro j _ after ⟨other, there, rfl⟩
      exact last j other.1 after (by rw [List.getElem?_map, there, Option.map_some])

theorem WrittenLast.target {i : Nat} {listener : MappedListener}
    (written : WrittenLast platform config targets listeners i listener host) :
    listener.target ∈ targets ∧ listener.target.nodeId = listener.nodeId := by
  obtain ⟨server, mapping, _, serves⟩ := written.serves
  obtain ⟨addr, _, found⟩ := serves.found
  exact ⟨List.mem_of_find?_eq_some found, serves.nodeId.symm⟩

/-- The map has the brokers of the listeners, each with what was written with its last listener. Two
brokers share an address exactly if the entries of their last listeners advertise one. -/
theorem addresses_identify (distinct : (targets.map (·.nodeId)).Nodup)
    (built : buildRewriteMap platform config targets = .ok (map, listeners)) :
    (∀ nodeId, nodeId ∈ map.nodePorts.keys ↔ nodeId ∈ listeners.map (·.nodeId)) ∧
    (∀ nodeId host port, map.nodePorts.lookup nodeId = some (host, port) →
      ∃ i listener, WrittenLast platform config targets listeners i listener host ∧
        listener.nodeId = nodeId ∧ listener.port = port ∧ listener.target ∈ targets ∧
        ∀ target ∈ targets, target.nodeId = nodeId ↔ target = listener.target) ∧
    ((∀ m n entry, map.nodePorts.lookup m = some entry → map.nodePorts.lookup n = some entry → m = n) ↔
      ∀ i j first second host, WrittenLast platform config targets listeners i first host →
        WrittenLast platform config targets listeners j second host → first.port = second.port →
        first.nodeId = second.nodeId) := by
  refine ⟨fun nodeId => mem_nodePorts_iff built, ?_, ?_⟩
  · intro nodeId host port found
    obtain ⟨i, listener, written, rfl, rfl⟩ := (lookup_nodePorts_iff built).mp found
    obtain ⟨member, own⟩ := written.target
    refine ⟨i, listener, written, rfl, rfl, member, fun target inside => ⟨fun same => ?_, ?_⟩⟩
    · exact List.inj_on_of_nodup_map distinct inside member (same.trans own.symm)
    · rintro rfl
      exact own
  · constructor
    · intro apart i j first second host one two samePort
      exact apart _ _ (host, first.port) ((lookup_nodePorts_iff built).mpr ⟨i, first, one, rfl, rfl⟩)
        ((lookup_nodePorts_iff built).mpr ⟨j, second, two, rfl, samePort.symm⟩)
    · rintro apart m n ⟨host, port⟩ one two
      obtain ⟨i, first, writtenFirst, rfl, rfl⟩ := (lookup_nodePorts_iff built).mp one
      obtain ⟨j, second, writtenSecond, rfl, samePort⟩ := (lookup_nodePorts_iff built).mp two
      exact apart i j first second host writtenFirst writtenSecond samePort.symm

theorem addresses_identify_oneHost : ∃ map, buildRewriteMap localPlatform oneHost
      [firstTarget, secondTarget] = .ok (map, [⟨1, 19092, ":19092", firstTarget⟩,
        ⟨1, 19093, ":19093", firstTarget⟩]) ∧
    ∀ nodeId, nodeId ∈ map.nodePorts.keys ↔ nodeId ∈ [(1 : Int32), 1] := by
  obtain ⟨map, built⟩ := oneHost_built
  exact ⟨map, built, (addresses_identify (by decide) built).1⟩

/-! ## One advertised address for two brokers -/

def balanced : ProxyConfig :=
  { cluster := ⟨["localhost:9092", "other:9092"]⟩
    proxy := ⟨none, ["0.0.0.0:19092,proxy:19092", "0.0.0.0:19093,proxy:19092"]⟩
    pool := ⟨16, 2⟩ }

def balancedPlatform : Platform := .ofNames [("localhost", 0x7F000001), ("other", 0x0A000002)]

def otherTarget : BrokerTarget := ⟨2, ⟨.v4 0x0A000002, 9092⟩, "other"⟩

theorem balanced_built : ∃ map listeners,
    buildRewriteMap balancedPlatform balanced [firstTarget, otherTarget] = .ok (map, listeners) ∧
      map.nodePorts.lookup 1 = some ("proxy", 19092) ∧ map.nodePorts.lookup 2 = some ("proxy", 19092) :=
  ⟨_, _, rfl, rfl, rfl⟩

theorem addresses_identify_not : ¬ ∀ platform config targets map listeners,
    ProxyConfig.validate platform config = .ok () → (targets.map BrokerTarget.nodeId).Nodup →
    buildRewriteMap platform config targets = .ok (map, listeners) →
      ∀ m n entry, map.nodePorts.lookup m = some entry → map.nodePorts.lookup n = some entry → m = n := by
  intro claim
  obtain ⟨map, listeners, built, one, two⟩ := balanced_built
  have same := claim balancedPlatform balanced [firstTarget, otherTarget] map listeners
    (by decide +kernel) (by decide) built 1 2 _ one two
  exact absurd same (by decide)

end KafkaProxy.Startup
