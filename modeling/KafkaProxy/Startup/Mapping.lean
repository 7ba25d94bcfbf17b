import KafkaProxy.Startup.Listeners
import KafkaProxy.Startup.Text

/-!
# Mapping entries

An entry is read twice: when the configuration is checked, which asks for a host to advertise only,
and when the rewrite map is built, which reads the ports as well.
-/

namespace KafkaProxy.Startup
open Library

def listenAddress (listenBind bindAddr : String) : String :=
  if bindAddr.toList.head? = some ':' then listenBind ++ bindAddr else bindAddr

def HasPort (part : List Char) : Prop :=
  ∃ host port p, rsplitOnce ':' part = some (host, port) ∧ parseU16 port = some p

/-- The part to advertise has a host, or there is one to fall back to. -/
def HasHost (config : ProxyConfig) (advertise : List Char) : Prop :=
  ((rsplitOnce ':' advertise).map (·.1)).getD [] ≠ [] ∨
    trim (config.proxy.advertiseHost.getD "").toList ≠ []

variable {platform : Platform} {config : ProxyConfig} {mapping : String}

theorem validateEntry_eq_ok_iff (i : Nat) : config.validateEntry platform i mapping = .ok () ↔
    ∃ bind advertise, mappingParts mapping = some (bind, advertise) ∧ HasHost config advertise := by
  simp only [ProxyConfig.validateEntry, bind_eq_ok, okOr_eq_ok, Prod.exists]
  apply exists_congr
  intro bind
  apply exists_congr
  intro advertise
  apply and_congr_right
  intro _
  rw [HasHost, ← not_and_or, ← List.isEmpty_iff, ← List.isEmpty_iff, ← Bool.and_eq_true]
  split_ifs with missing <;> simp [missing]

theorem bindAddress_eq_ok_iff {port : UInt16} {bind : Option (List Char)} :
    (∃ bindAddr, bindAddress platform mapping port bind = .ok bindAddr) ↔
      ∀ part ∈ bind, HasPort part := by
  cases bind with
  | none => simp [bindAddress]
  | some part =>
      simp only [bindAddress, bind_eq_ok, okOr_eq_ok, Prod.exists, pure, Except.pure, Option.mem_some_iff,
        forall_eq', Except.ok.injEq, HasPort]
      constructor
      · rintro ⟨_, host, port, split, p, read, _⟩
        exact ⟨host, port, p, split, read⟩
      · rintro ⟨host, port, p, split, read⟩
        exact ⟨_, host, port, split, p, read, rfl⟩

theorem mappingParts_trimmed {bind : Option (List Char)} {advertise : List Char}
    (parts : mappingParts mapping = some (bind, advertise)) : ∃ raw, advertise = trim raw := by
  unfold mappingParts at parts
  generalize mapping.toList.splitOn ',' = raw at parts
  match raw, parts with
  | [last], parts => exact ⟨last, by cases parts; rfl⟩
  | [_, last], parts => exact ⟨last, by cases parts; rfl⟩
  | [_, _, last], parts => exact ⟨last, by cases parts; rfl⟩

theorem host_not_blank {raw host port : List Char} (split : rsplitOnce ':' (trim raw) = some (host, port))
    (given : host ≠ []) : trim host ≠ [] := by
  obtain ⟨c, rest, rfl⟩ := List.exists_cons_of_ne_nil given
  have first : c ∈ (trim raw).head? := by rw [eq_of_rsplitOnce split]; rfl
  exact trim_ne_nil (head?_trim first)

theorem trim_advertised {raw host port : List Char} {fallback : String}
    (split : rsplitOnce ':' (trim raw) = some (host, port)) :
    trim (if host.isEmpty then fallback else String.ofList host).toList ≠ [] ↔
      host ≠ [] ∨ trim fallback.toList ≠ [] := by
  cases host with
  | nil => simp
  | cons c rest =>
      have given : c :: rest ≠ [] := List.cons_ne_nil c rest
      rw [List.isEmpty_cons, if_neg (by decide), String.toList_ofList]
      exact iff_of_true (host_not_blank split given) (.inl given)

theorem parseMappingEntry_eq_ok_iff : (∃ bindAddr host port,
      parseMappingEntry platform mapping (config.proxy.advertiseHost.getD "") =
        .ok (bindAddr, host, port) ∧ trim host.toList ≠ []) ↔
    ∃ bind advertise, mappingParts mapping = some (bind, advertise) ∧ HasHost config advertise ∧
      HasPort advertise ∧ ∀ part ∈ bind, HasPort part := by
  simp only [parseMappingEntry, bind_eq_ok, okOr_eq_ok, Prod.exists, pure, Except.pure, Except.ok.injEq,
    Prod.mk.injEq]
  constructor
  · rintro ⟨_, _, _, ⟨bind, advertise, parts, host, text, split, port, read, addr, bound, rfl, rfl, rfl⟩,
      shown⟩
    obtain ⟨raw, rfl⟩ := mappingParts_trimmed parts
    refine ⟨bind, _, parts, ?_, ⟨host, text, port, split, read⟩, bindAddress_eq_ok_iff.mp ⟨addr, bound⟩⟩
    rw [HasHost, split]
    exact (trim_advertised split).mp shown
  · rintro ⟨bind, advertise, parts, given, ⟨host, text, port, split, read⟩, binds⟩
    obtain ⟨addr, bound⟩ := bindAddress_eq_ok_iff.mpr binds
    obtain ⟨raw, rfl⟩ := mappingParts_trimmed parts
    refine ⟨_, _, _, ⟨bind, _, parts, host, text, split, port, read, addr, bound, rfl, rfl, rfl⟩, ?_⟩
    rw [HasHost, split] at given
    exact (trim_advertised split).mpr given

/-- The two readings agree exactly on the entries whose parts, where a host is known, end in ports. -/
theorem validateEntry_agrees_iff (i : Nat) :
    (config.validateEntry platform i mapping = .ok () ↔ ∃ bindAddr host port,
        parseMappingEntry platform mapping (config.proxy.advertiseHost.getD "") =
          .ok (bindAddr, host, port) ∧ trim host.toList ≠ []) ↔
      ∀ bind advertise, mappingParts mapping = some (bind, advertise) → HasHost config advertise →
        HasPort advertise ∧ ∀ part ∈ bind, HasPort part := by
  rw [validateEntry_eq_ok_iff, parseMappingEntry_eq_ok_iff]
  constructor
  · intro agree bind advertise parts given
    obtain ⟨_, _, again, _, ports⟩ := agree.mp ⟨bind, advertise, parts, given⟩
    rw [parts, Option.some_inj, Prod.mk.injEq] at again
    obtain ⟨rfl, rfl⟩ := again
    exact ports
  · intro ports
    constructor
    · rintro ⟨bind, advertise, parts, given⟩
      exact ⟨bind, advertise, parts, given, ports bind advertise parts given⟩
    · rintro ⟨bind, advertise, parts, given, _⟩
      exact ⟨bind, advertise, parts, given⟩

theorem validateEntry_agrees_not : ¬ ∀ (platform : Platform) (config : ProxyConfig) (i : Nat) mapping,
    config.validateEntry platform i mapping = .ok () ↔ ∃ bindAddr host port,
      parseMappingEntry platform mapping (config.proxy.advertiseHost.getD "") =
        .ok (bindAddr, host, port) ∧ trim host.toList ≠ [] := by
  intro claim
  obtain ⟨_, _, _, read, _⟩ := (claim localPlatform oneHost 0 "proxy.svc:kafka").mp (by decide +kernel)
  have refused : parseMappingEntry localPlatform "proxy.svc:kafka" (oneHost.proxy.advertiseHost.getD "") =
      .error (.config "bootstrap_server_mapping 项 proxy.svc:kafka 广告端口非法") := by decide +kernel
  rw [refused] at read
  cases read

/-! ## The addresses that are bound -/

/-- A host as it stands in an entry: no comma, and no blank at its ends. -/
structure Plain (host : String) : Prop where
  comma : ',' ∉ host.toList
  trimmed : trim host.toList = host.toList

def hostPort (host : String) (port : UInt16) : String := host ++ ":" ++ toString port.toNat

theorem toList_hostPort (host : String) (port : UInt16) :
    (hostPort host port).toList = host.toList ++ ':' :: Nat.toDigits 10 port.toNat := by
  simp [hostPort, Nat.toString_eq_repr, Nat.toList_repr]

theorem not_mem_digits {c : Char} (other : c.isDigit = false) (port : UInt16) :
    c ∉ Nat.toDigits 10 port.toNat := by
  intro member
  have digit := Nat.isDigit_of_mem_toDigits (by decide) (by decide) member
  rw [other] at digit
  cases digit

theorem rsplitOnce_hostPort (host : String) (port : UInt16) :
    rsplitOnce ':' (hostPort host port).toList = some (host.toList, Nat.toDigits 10 port.toNat) := by
  rw [toList_hostPort]
  exact rsplitOnce_append (not_mem_digits (by decide) port)

section Plain
variable {host : String} (plain : Plain host) (port : UInt16)
include plain

theorem Plain.comma_hostPort : ',' ∉ (hostPort host port).toList := by
  rw [toList_hostPort, List.mem_append, List.mem_cons, not_or, not_or]
  exact ⟨plain.comma, by decide, not_mem_digits (by decide) port⟩

theorem Plain.trim_hostPort : trim (hostPort host port).toList = (hostPort host port).toList := by
  rw [toList_hostPort]
  apply trim_eq_self
  · intro c first
    cases begins : host.toList with
    | nil =>
        rw [begins] at first
        cases first
        decide
    | cons d rest =>
        rw [begins] at first
        cases first
        exact head?_trim (by rw [plain.trimmed, begins]; rfl)
  · intro c last
    rw [← List.singleton_append, ← List.append_assoc,
      List.getLast?_append_of_ne_nil _ Nat.toDigits_ne_nil] at last
    apply isWhiteSpace_of_isDigit
    exact Nat.isDigit_of_mem_toDigits (by decide) (by decide) (List.mem_of_getLast? last)

end Plain

theorem mappingParts_one {H : String} (plain : Plain H) (p : UInt16) :
    mappingParts (hostPort H p) = some (none, (hostPort H p).toList) := by
  rw [mappingParts, List.splitOn_eq_singleton (plain.comma_hostPort p), List.map_singleton,
    plain.trim_hostPort]

theorem mappingParts_two {B H : String} (bind : Plain B) (host : Plain H) (q p : UInt16) :
    mappingParts (hostPort B q ++ "," ++ hostPort H p) =
      some (some (hostPort B q).toList, (hostPort H p).toList) := by
  have text : (hostPort B q ++ "," ++ hostPort H p).toList =
      (hostPort B q).toList ++ ',' :: (hostPort H p).toList := by simp
  rw [mappingParts, text, List.splitOn_append_cons_self_of_not_mem (bind.comma_hostPort q),
    List.splitOn_eq_singleton (host.comma_hostPort p), List.map_cons, List.map_singleton,
    bind.trim_hostPort, host.trim_hostPort]

theorem mappingParts_three {O B H : String} (orig : Plain O) (bind : Plain B) (host : Plain H)
    (q p : UInt16) : mappingParts (O ++ "," ++ hostPort B q ++ "," ++ hostPort H p) =
      some (some (hostPort B q).toList, (hostPort H p).toList) := by
  have text : (O ++ "," ++ hostPort B q ++ "," ++ hostPort H p).toList =
      O.toList ++ ',' :: ((hostPort B q).toList ++ ',' :: (hostPort H p).toList) := by simp
  rw [mappingParts, text, List.splitOn_append_cons_self_of_not_mem orig.comma,
    List.splitOn_append_cons_self_of_not_mem (bind.comma_hostPort q),
    List.splitOn_eq_singleton (host.comma_hostPort p), List.map_cons, List.map_cons, List.map_singleton,
    bind.trim_hostPort, host.trim_hostPort]

theorem bindAddress_hostPort (B : String) (p q : UInt16) :
    bindAddress platform mapping p (some (hostPort B q).toList) = .ok (hostPort B q) := by
  simp only [bindAddress, rsplitOnce_hostPort, parseU16_toDigits, okOr, bind, Except.bind, pure,
    Except.pure, String.ofList_toList]
  rfl

theorem parseMappingEntry_of_parts (platform : Platform) (fallback : String)
    {bind : Option (List Char)} {H bindAddr : String} {p : UInt16}
    (parts : mappingParts mapping = some (bind, (hostPort H p).toList))
    (bound : bindAddress platform mapping p bind = .ok bindAddr) :
    parseMappingEntry platform mapping fallback =
      .ok (bindAddr, if H = "" then fallback else H, p) := by
  have empty : H.toList.isEmpty = decide (H = "") := by
    rw [Bool.eq_iff_iff, List.isEmpty_iff, decide_eq_true_eq, ← String.toList_eq_nil_iff]
  simp only [parseMappingEntry, parts, rsplitOnce_hostPort, parseU16_toDigits, bound, okOr, Bind.bind,
    Except.bind, pure, Except.pure, String.ofList_toList, empty, decide_eq_true_eq]

/-- The entry is read with this host and port to advertise, and the listener of it binds the address. -/
def Uses (platform : Platform) (listenBind fallback mapping host : String) (port : UInt16)
    (bind : String) : Prop :=
  ∃ bindAddr, parseMappingEntry platform mapping fallback = .ok (bindAddr, host, port) ∧
    listenAddress listenBind bindAddr = bind

theorem head?_hostPort {B : String} (given : B ≠ "") (q : UInt16) :
    (hostPort B q).toList.head? = B.toList.head? := by
  rw [toList_hostPort]
  exact List.head?_append_of_ne_nil _ (mt String.toList_eq_nil_iff.mp given)

theorem listenAddress_hostPort {L B : String} {q : UInt16} :
    listenAddress L (hostPort B q) = hostPort (if B = "" then L else B) q ↔
      B = "" ∨ B.toList.head? ≠ some ':' ∨ L = "" := by
  by_cases missing : B = ""
  · subst missing
    rw [if_pos rfl, listenAddress, toList_hostPort]
    simp [hostPort, String.append_assoc]
  · rw [if_neg missing, listenAddress, head?_hostPort missing]
    by_cases colon : B.toList.head? = some ':'
    · rw [if_pos colon, String.append_eq_right_iff]
      simp [missing, colon]
    · simp [colon]

/-- With a host to bind that begins with a colon, its port is bound on `listen_bind` and that host. -/
theorem mapping_uses_iff (platform : Platform) {L B H O fallback : String} (bind : Plain B)
    (host : Plain H) (orig : Plain O) (p q : UInt16) :
    Uses platform L fallback (hostPort H p) (if H = "" then fallback else H) p (hostPort L p) ∧
    (Uses platform L fallback (hostPort B q ++ "," ++ hostPort H p) (if H = "" then fallback else H) p
        (hostPort (if B = "" then L else B) q) ↔ B = "" ∨ B.toList.head? ≠ some ':' ∨ L = "") ∧
    (Uses platform L fallback (O ++ "," ++ hostPort B q ++ "," ++ hostPort H p)
        (if H = "" then fallback else H) p (hostPort (if B = "" then L else B) q) ↔
      B = "" ∨ B.toList.head? ≠ some ':' ∨ L = "") := by
  have one := parseMappingEntry_of_parts platform fallback
    (mappingParts_one host p) rfl
  have two := parseMappingEntry_of_parts platform fallback
    (mappingParts_two bind host q p) (bindAddress_hostPort B p q)
  have three := parseMappingEntry_of_parts platform fallback
    (mappingParts_three orig bind host q p) (bindAddress_hostPort B p q)
  refine ⟨⟨_, one, ?_⟩, ?_, ?_⟩
  · exact (listenAddress_hostPort (B := "")).mpr (.inl rfl)
  · simp only [Uses, two, Except.ok.injEq, Prod.mk.injEq, and_true, exists_eq_left',
      listenAddress_hostPort]
  · simp only [Uses, three, Except.ok.injEq, Prod.mk.injEq, and_true, exists_eq_left',
      listenAddress_hostPort]

theorem plain_proxy : Plain "proxy" := ⟨by decide, by decide⟩

theorem plain_loopback : Plain "::1" := ⟨by decide, by decide⟩

theorem mapping_uses_iff_loopback :
    Uses localPlatform "" "" (hostPort "::1" 9092 ++ "," ++ hostPort "proxy" 19092) "proxy" 19092
      (hostPort "::1" 9092) :=
  (mapping_uses_iff localPlatform plain_loopback plain_proxy plain_proxy 19092 9092).2.1.mpr
    (.inr (.inr rfl))

theorem mapping_uses_not : ¬ ∀ (L B H O fallback : String) (p q : UInt16), Plain B → Plain H → Plain O →
    Uses localPlatform L fallback (hostPort H p) (if H = "" then fallback else H) p (hostPort L p) ∧
    Uses localPlatform L fallback (hostPort B q ++ "," ++ hostPort H p)
      (if H = "" then fallback else H) p (hostPort (if B = "" then L else B) q) ∧
    Uses localPlatform L fallback (O ++ "," ++ hostPort B q ++ "," ++ hostPort H p)
      (if H = "" then fallback else H) p (hostPort (if B = "" then L else B) q) := by
  intro claim
  obtain ⟨_, ⟨bindAddr, read, bound⟩, _⟩ := claim "0.0.0.0" "::1" "proxy" "proxy" "" 19092 9092
    plain_loopback plain_proxy plain_proxy
  have entry := parseMappingEntry_of_parts localPlatform ""
    (mappingParts_two plain_loopback plain_proxy 9092 19092) (bindAddress_hostPort "::1" 19092 9092)
  rw [entry, Except.ok.injEq, Prod.mk.injEq] at read
  rw [← read.1] at bound
  exact absurd (listenAddress_hostPort.mp bound) (by decide)

end KafkaProxy.Startup
