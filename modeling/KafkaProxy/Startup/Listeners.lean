import Mathlib.Data.List.Forall2
import KafkaProxy.Startup.Basic

/-!
# Which broker a listener serves

The loop over the bootstrap servers succeeds if each turn does. A turn looks for one target, by
address or host name, and takes the first.
-/

namespace KafkaProxy.Startup
open Library

section

variable {ε ζ α β : Type}

theorem bind_eq_ok {x : Except ε α} {f : α → Except ε β} {b : β} :
    (x >>= f) = .ok b ↔ ∃ a, x = .ok a ∧ f a = .ok b := by
  cases x with
  | error e => simp [bind, Except.bind]
  | ok a => simp [bind, Except.bind]

theorem map_eq_ok {x : Except ε α} {f : α → β} {b : β} :
    x.map f = .ok b ↔ ∃ a, x = .ok a ∧ f a = b := by
  cases x <;> simp [Except.map]

theorem okOr_eq_ok {found : Option α} {error : ε} {a : α} :
    okOr found error = .ok a ↔ found = some a := by
  cases found <;> simp [okOr]

theorem mapError_eq_ok {x : Except ε α} {f : ε → ζ} {a : α} : x.mapError f = .ok a ↔ x = .ok a := by
  cases x <;> simp [Except.mapError]

end

variable {platform : Platform} {config : ProxyConfig} {targets : List BrokerTarget}

def LooksUp (platform : Platform) (targets : List BrokerTarget) (server : String)
    (target : BrokerTarget) : Prop :=
  ∃ addr, platform.parseAddr server = .ok addr ∧
    targets.find? (BrokerTarget.isServer addr (hostOf server)) = some target

structure Serves (platform : Platform) (config : ProxyConfig) (targets : List BrokerTarget)
    (server mapping : String) (listener : MappedListener) (advertiseHost : String) : Prop where
  entry : parseMappingEntry platform mapping (config.proxy.advertiseHost.getD "") =
    .ok (listener.bindAddr, advertiseHost, listener.port)
  found : LooksUp platform targets server listener.target
  nodeId : listener.nodeId = listener.target.nodeId

theorem mapServer_eq_ok {server mapping advertiseHost : String} {listener : MappedListener} :
    mapServer platform config targets server mapping = .ok (listener, advertiseHost) ↔
      Serves platform config targets server mapping listener advertiseHost := by
  simp only [mapServer, bind_eq_ok, mapError_eq_ok, okOr_eq_ok, Prod.exists, pure, Except.pure,
    Except.ok.injEq, Prod.mk.injEq]
  constructor
  · rintro ⟨bindAddr, host, port, entry, addr, resolved, target, found, rfl, rfl⟩
    exact ⟨entry, ⟨addr, resolved, found⟩, rfl⟩
  · rintro ⟨entry, ⟨addr, resolved, found⟩, nodeId⟩
    refine ⟨_, _, _, entry, addr, resolved, _, found, ?_, rfl⟩
    rw [← nodeId]

def portEntry (served : MappedListener × String) : Int32 × String × UInt16 :=
  (served.1.nodeId, served.2, served.1.port)

theorem mapServers_eq_ok {pairs : List (String × String)}
    {nodePorts after : Table Int32 (String × UInt16)} {listeners all : List MappedListener} :
    mapServers platform config targets pairs nodePorts listeners = .ok (after, all) ↔
      ∃ served, List.Forall₂ (fun pair out =>
          Serves platform config targets pair.1 pair.2 out.1 out.2) pairs served ∧
        all = listeners ++ served.map (·.1) ∧ after = Table.insertAll (served.map portEntry) nodePorts := by
  induction pairs generalizing nodePorts listeners with
  | nil =>
      simp only [mapServers, Except.ok.injEq, Prod.mk.injEq, List.forall₂_nil_left_iff]
      constructor
      · rintro ⟨rfl, rfl⟩
        exact ⟨[], rfl, by simp, rfl⟩
      · rintro ⟨_, rfl, rfl, rfl⟩
        simp
  | cons pair rest ih =>
      obtain ⟨server, mapping⟩ := pair
      simp only [mapServers, bind_eq_ok, Prod.exists, mapServer_eq_ok, ih]
      constructor
      · rintro ⟨listener, advertiseHost, serves, served, all, rfl, rfl⟩
        exact ⟨(listener, advertiseHost) :: served, .cons serves all, by simp, rfl⟩
      · rintro ⟨_, all, rfl, rfl⟩
        cases all with
        | @cons _ out _ served serves others =>
            exact ⟨out.1, out.2, serves, served, others, by simp, rfl⟩

theorem buildRewriteMap_eq_ok {map : RewriteMap} {listeners : List MappedListener} :
    buildRewriteMap platform config targets = .ok (map, listeners) ↔
      ∃ served, List.Forall₂ (fun pair out =>
          Serves platform config targets pair.1 pair.2 out.1 out.2) config.pairs served ∧
        listeners = served.map (·.1) ∧ map.nodePorts = Table.insertAll (served.map portEntry) ∅ := by
  obtain ⟨nodePorts⟩ := map
  simp only [buildRewriteMap, map_eq_ok, Prod.exists, mapServers_eq_ok, List.nil_append,
    Prod.mk.injEq, RewriteMap.mk.injEq]
  constructor
  · rintro ⟨_, _, ⟨served, each, rfl, rfl⟩, rfl, rfl⟩
    exact ⟨served, each, rfl, rfl⟩
  · rintro ⟨served, each, rfl, rfl⟩
    exact ⟨_, _, ⟨served, each, rfl, rfl⟩, rfl, rfl⟩

theorem forall₂_getElem? {α β : Type} {R : α → β → Prop} {l : List α} {m : List β}
    (all : List.Forall₂ R l m) {i : Nat} {b : β} (here : m[i]? = some b) :
    ∃ a, l[i]? = some a ∧ R a b := by
  obtain ⟨bound, rfl⟩ := List.getElem?_eq_some_iff.mp here
  have within : i < l.length := all.length_eq ▸ bound
  exact ⟨_, List.getElem?_eq_getElem within, (List.forall₂_iff_get.mp all).2 i within bound⟩

theorem listener_serves {map : RewriteMap} {listeners : List MappedListener}
    (built : buildRewriteMap platform config targets = .ok (map, listeners)) {i : Nat}
    {listener : MappedListener} (here : listeners[i]? = some listener) :
    ∃ server mapping advertiseHost, config.pairs[i]? = some (server, mapping) ∧
      Serves platform config targets server mapping listener advertiseHost := by
  obtain ⟨served, each, rfl, _⟩ := buildRewriteMap_eq_ok.mp built
  rw [List.getElem?_map, Option.map_eq_some_iff] at here
  obtain ⟨out, place, rfl⟩ := here
  obtain ⟨pair, asked, serves⟩ := forall₂_getElem? each place
  exact ⟨_, _, _, asked, serves⟩

/-! ## The first target that matches -/

theorem isServer_of_addr {target : BrokerTarget} (host : String) :
    target.isServer target.realAddr host = true := by
  simp [BrokerTarget.isServer]

theorem isServer_iff_host {target : BrokerTarget} {addr : SocketAddr} {host : String}
    (other : target.realAddr ≠ addr) : target.isServer addr host = true ↔ target.realHost = host := by
  have apart : ¬ (target.realAddr.ip = addr.ip ∧ target.realAddr.port = addr.port) :=
    fun ⟨ip, port⟩ => other (SocketAddr.ext ip port)
  simp [BrokerTarget.isServer, apart]

theorem find_isServer_iff {host : String} {n : Nat} {target : BrokerTarget}
    (distinct : (targets.map (·.realAddr)).Nodup) (place : targets[n]? = some target) :
    targets.find? (BrokerTarget.isServer target.realAddr host) = some target ↔
      ∀ m earlier, m < n → targets[m]? = some earlier → earlier.realHost ≠ host := by
  obtain ⟨bound, rfl⟩ := List.getElem?_eq_some_iff.mp place
  have apart (m : Nat) (within : m < targets.length) (other : m ≠ n) :
      targets[m].realAddr ≠ targets[n].realAddr := by
    intro same
    have shorter : m < (targets.map (·.realAddr)).length := by simpa using within
    have inside : n < (targets.map (·.realAddr)).length := by simpa using bound
    apply other
    apply (@List.Nodup.getElem_inj_iff _ _ distinct m shorter n inside).mp
    simpa using same
  constructor
  · intro found m earlier before there
    obtain ⟨within, rfl⟩ := List.getElem?_eq_some_iff.mp there
    obtain ⟨_, first, inside, same, missed⟩ := List.find?_eq_some_iff_getElem.mp found
    have position : first = n := by
      by_contra other
      exact apart first inside other (congrArg BrokerTarget.realAddr same)
    subst position
    intro sameHost
    have matching := (isServer_iff_host (apart m within (by omega))).mpr sameHost
    simpa [matching] using missed m before
  · intro hosts
    refine List.find?_eq_some_iff_getElem.mpr ⟨isServer_of_addr host, n, bound, rfl, ?_⟩
    intro m before
    have within : m < targets.length := by omega
    rw [Bool.not_eq_true', ← Bool.not_eq_true, isServer_iff_host (apart m within (by omega))]
    exact hosts m _ before (List.getElem?_eq_getElem within)

/-- A target with the address of the `i`-th bootstrap server is the target of the `i`-th listener
exactly if no target before it in the list has the server's host name. -/
theorem listener_target_iff {map : RewriteMap} {listeners : List MappedListener}
    (distinct : (targets.map (·.realAddr)).Nodup)
    (built : buildRewriteMap platform config targets = .ok (map, listeners)) {i : Nat}
    {listener : MappedListener} (here : listeners[i]? = some listener) {server : String}
    (asked : config.cluster.bootstrapServers[i]? = some server) {n : Nat} {target : BrokerTarget}
    (place : targets[n]? = some target) (address : platform.parseAddr server = .ok target.realAddr) :
    listener.target = target ↔
      ∀ m earlier, m < n → targets[m]? = some earlier → earlier.realHost ≠ hostOf server := by
  obtain ⟨_, mapping, advertiseHost, pair, serves⟩ := listener_serves built here
  obtain ⟨own, _⟩ := List.getElem?_zip_eq_some.mp pair
  rw [asked, Option.some.injEq] at own
  subst own
  obtain ⟨addr, resolved, found⟩ := serves.found
  rw [address, Except.ok.injEq] at resolved
  subst resolved
  rw [← find_isServer_iff distinct place, found, Option.some.injEq]

/-! ## Two brokers on one host -/

def Platform.ofNames (names : List (String × UInt32)) : Platform where
  debug := id
  parseAddr server :=
    match rsplitOnce ':' server.toList with
    | some (host, port) =>
        match names.lookup (String.ofList host), parseU16 port with
        | some bits, some port => .ok ⟨.v4 bits, port⟩
        | _, _ => .error (.resolve server)
    | none => .error (.resolve server)

def localPlatform : Platform := .ofNames [("localhost", 0x7F000001)]

def oneHost : ProxyConfig :=
  { cluster := ⟨["localhost:9092", "localhost:9093"]⟩
    proxy := ⟨none, ["proxy:19092", "proxy:19093"]⟩
    pool := ⟨16, 2⟩ }

def firstTarget : BrokerTarget := ⟨1, ⟨.v4 0x7F000001, 9092⟩, "localhost"⟩

def secondTarget : BrokerTarget := ⟨2, ⟨.v4 0x7F000001, 9093⟩, "localhost"⟩

theorem oneHost_built : ∃ map,
    buildRewriteMap localPlatform oneHost [firstTarget, secondTarget] =
      .ok (map, [⟨1, 19092, ":19092", firstTarget⟩, ⟨1, 19093, ":19093", firstTarget⟩]) :=
  ⟨_, rfl⟩

theorem listener_target_iff_second : firstTarget = secondTarget ↔
    ∀ m earlier, m < 1 → [firstTarget, secondTarget][m]? = some earlier →
      earlier.realHost ≠ hostOf "localhost:9093" := by
  obtain ⟨map, built⟩ := oneHost_built
  exact listener_target_iff (i := 1) (n := 1) (by decide) built rfl rfl rfl rfl

theorem listener_target_other : ¬ ∀ map listeners,
    buildRewriteMap localPlatform oneHost [firstTarget, secondTarget] = .ok (map, listeners) →
      ∀ (i : Nat) listener server target, listeners[i]? = some listener →
        oneHost.cluster.bootstrapServers[i]? = some server → target ∈ [firstTarget, secondTarget] →
        localPlatform.parseAddr server = .ok target.realAddr → listener.target = target := by
  intro claim
  obtain ⟨map, built⟩ := oneHost_built
  have same := claim map _ built 1 ⟨1, 19093, ":19093", firstTarget⟩ "localhost:9093" secondTarget rfl rfl
    (by decide) rfl
  exact absurd same (by decide)

end KafkaProxy.Startup
