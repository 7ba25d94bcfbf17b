import KafkaProxy.Startup.Fallback
import KafkaProxy.Startup.Mapping

/-!
# How the proxy signs in to the brokers

From the configuration to what the Kafka client is told before it connects: for a connection to a
broker of one listener, in either mode, and for the connection at the start that asks for the metadata.
-/

namespace KafkaProxy.Startup
open Library

inductive AuthMechanism where
  | none
  | plain
  | scramSha256
  | scramSha512
  | gssapi
  | mtls
  deriving DecidableEq, Repr

structure AuthConfig where
  mechanism : AuthMechanism
  username : Option String
  password : Option String
  kerberosPrincipal : Option String
  kerberosKeytab : Option String
  kerberosKdc : Option String
  kerberosRealm : Option String
  deriving DecidableEq, Repr

inductive UpstreamError where
  | missing (field : String)
  | unsupportedMechanism (mechanism : String)
  | invalidKdc (kdc : String)
  deriving DecidableEq, Repr

/-! ## The Kafka client -/

inductive SaslMechanismType where
  | plain
  | scramSha256
  | scramSha512
  deriving DecidableEq, Repr

structure SaslCredentials where
  mechanism : SaslMechanismType
  username : String
  password : String
  deriving DecidableEq, Repr

structure KerberosCredentials where
  principal : String
  keytab : Option String
  realm : Option String
  brokerHostname : Option String
  deriving DecidableEq, Repr

inductive SecurityProtocol where
  | plaintext
  | saslPlaintext
  deriving DecidableEq, Repr

structure Builder where
  addr : SocketAddr
  protocol : SecurityProtocol
  clientId : String
  sasl : Option (SaslMechanismType × SaslCredentials)
  kerberos : Option KerberosCredentials
  kdc : Option (String × UInt16)
  brokerHostname : Option String
  deriving DecidableEq, Repr

structure ClientBuilder where
  bootstrapServers : List String
  plaintext : Bool
  sasl : Option (SaslMechanismType × String × String)
  kerberos : Option KerberosCredentials
  kdc : Option (String × UInt16)
  clientId : Option String
  brokerHostname : Option String
  deriving DecidableEq, Repr

def clientBuilder (bootstrapServers : List String) : ClientBuilder :=
  ⟨bootstrapServers, false, none, none, none, none, none⟩

/-! ## From the configuration -/

inductive AuthInner where
  | plaintext
  | sasl (mechanism : SaslMechanismType) (credentials : SaslCredentials)
  | gssapi (creds : KerberosCredentials) (kdcHost : String) (kdcPort : UInt16)
  deriving DecidableEq, Repr

def userPass (auth : AuthConfig) : Except UpstreamError (String × String) := do
  let u ← okOr auth.username (.missing "username")
  let p ← okOr auth.password (.missing "password")
  return (u, p)

def parseKdc (auth : AuthConfig) : Except UpstreamError (String × UInt16) := do
  let kdc ← okOr auth.kerberosKdc (.missing "kerberos_kdc")
  let (h, p) ← okOr (rsplitOnce ':' kdc.toList) (.invalidKdc kdc)
  let port ← okOr (parseU16 p) (.invalidKdc kdc)
  return (String.ofList h, port)

def fromSasl (auth : AuthConfig) (mechanism : SaslMechanismType) : Except UpstreamError AuthInner := do
  let (u, p) ← userPass auth
  return .sasl mechanism ⟨mechanism, u, p⟩

def fromConfig (auth : AuthConfig) : Except UpstreamError AuthInner :=
  match auth.mechanism with
  | .none => return .plaintext
  | .gssapi => do
      let principal ← okOr auth.kerberosPrincipal (.missing "kerberos_principal")
      let keytab ← okOr auth.kerberosKeytab (.missing "kerberos_keytab")
      let (kdcHost, kdcPort) ← parseKdc auth
      return .gssapi ⟨principal, some keytab, auth.kerberosRealm, none⟩ kdcHost kdcPort
  | .plain => fromSasl auth .plain
  | .scramSha256 => fromSasl auth .scramSha256
  | .scramSha512 => fromSasl auth .scramSha512
  | .mtls => .error (.unsupportedMechanism "mtls")

namespace AuthInner

def securityProtocol : AuthInner → SecurityProtocol
  | plaintext => .plaintext
  | sasl _ _ | gssapi _ _ _ => .saslPlaintext

def connectFramed (auth : AuthInner) (addr : SocketAddr) (brokerHost : String) : Builder :=
  let builder : Builder := ⟨addr, auth.securityProtocol, "kafka-proxy", none, none, none, none⟩
  match auth with
  | plaintext => builder
  | sasl mechanism credentials => { builder with sasl := some (mechanism, credentials) }
  | gssapi creds kdcHost kdcPort =>
      { builder with
        kerberos := some { creds with brokerHostname := some brokerHost }
        kdc := some (kdcHost, kdcPort)
        brokerHostname := some brokerHost }

def applyToClientBuilder (auth : AuthInner) (builder : ClientBuilder) : ClientBuilder :=
  match auth with
  | plaintext => { builder with plaintext := true }
  | sasl mechanism credentials =>
      { builder with sasl := some (mechanism, credentials.username, credentials.password) }
  | gssapi creds kdcHost kdcPort =>
      { builder with
        kerberos := some creds
        kdc := some (kdcHost, kdcPort)
        clientId := some "kafka-proxy-bootstrap" }

def bootstrapClient (auth : AuthInner) (servers : List String) : ClientBuilder :=
  let builder := auth.applyToClientBuilder (clientBuilder servers)
  match auth, servers.head?.bind fun server => rsplitOnce ':' server.toList with
  | gssapi _ _ _, some (host, _) => { builder with brokerHostname := some (String.ofList host) }
  | _, _ => builder

end AuthInner

def MappedListener.connect (listener : MappedListener) (auth : AuthInner) : Builder :=
  auth.connectFramed listener.target.realAddr listener.target.realHost

/-! ## Who signs in -/

/-- The part of a request to the client that says as whom to sign in. -/
inductive Identity where
  | anonymous
  | password (mechanism : SaslMechanismType) (username password : String)
  | kerberos (principal keytab : String) (realm : Option String) (kdcHost : String) (kdcPort : UInt16)
  deriving DecidableEq, Repr

def Identity.inner : Identity → AuthInner
  | anonymous => .plaintext
  | password mechanism u p => .sasl mechanism ⟨mechanism, u, p⟩
  | kerberos principal keytab realm host port => .gssapi ⟨principal, some keytab, realm, none⟩ host port

def AuthMechanism.sasl : AuthMechanism → Option SaslMechanismType
  | plain => some .plain
  | scramSha256 => some .scramSha256
  | scramSha512 => some .scramSha512
  | none | gssapi | mtls => Option.none

/-- The configuration names the identity. Its KDC is a host and a port with the last colon between. -/
inductive Describes (auth : AuthConfig) : Identity → Prop where
  | anonymous (mechanism : auth.mechanism = .none) : Describes auth .anonymous
  | password {m : SaslMechanismType} {u p : String} (mechanism : auth.mechanism.sasl = some m)
      (username : auth.username = some u) (password : auth.password = some p) :
      Describes auth (.password m u p)
  | kerberos {principal keytab kdc host : String} {text : List Char} {port : UInt16}
      (mechanism : auth.mechanism = .gssapi) (named : auth.kerberosPrincipal = some principal)
      (keys : auth.kerberosKeytab = some keytab) (address : auth.kerberosKdc = some kdc)
      (split : kdc.toList = host.toList ++ ':' :: text) (last : ':' ∉ text)
      (numeral : parseU16 text = some port) :
      Describes auth (.kerberos principal keytab auth.kerberosRealm host port)

variable {auth : AuthConfig} {inner : AuthInner}

theorem userPass_eq_ok {u p : String} :
    userPass auth = .ok (u, p) ↔ auth.username = some u ∧ auth.password = some p := by
  simp only [userPass, bind_eq_ok, okOr_eq_ok, pure, Except.pure, Except.ok.injEq, Prod.mk.injEq]
  constructor
  · rintro ⟨_, username, _, password, rfl, rfl⟩
    exact ⟨username, password⟩
  · rintro ⟨username, password⟩
    exact ⟨u, username, p, password, rfl, rfl⟩

theorem parseKdc_eq_ok {host : String} {port : UInt16} :
    parseKdc auth = .ok (host, port) ↔ ∃ kdc text, auth.kerberosKdc = some kdc ∧
      kdc.toList = host.toList ++ ':' :: text ∧ ':' ∉ text ∧ parseU16 text = some port := by
  simp only [parseKdc, bind_eq_ok, okOr_eq_ok, Prod.exists, pure, Except.pure, Except.ok.injEq,
    Prod.mk.injEq, rsplitOnce_eq_some]
  constructor
  · rintro ⟨kdc, address, h, text, ⟨split, last⟩, _, numeral, rfl, rfl⟩
    exact ⟨kdc, text, address, by rw [split, String.toList_ofList], last, numeral⟩
  · rintro ⟨kdc, text, address, split, last, numeral⟩
    exact ⟨kdc, address, host.toList, text, ⟨split, last⟩, port, numeral, String.ofList_toList, rfl⟩

theorem fromSasl_eq_ok {m : SaslMechanismType} : fromSasl auth m = .ok inner ↔
    ∃ u p, auth.username = some u ∧ auth.password = some p ∧ inner = .sasl m ⟨m, u, p⟩ := by
  simp only [fromSasl, bind_eq_ok, Prod.exists, userPass_eq_ok, pure, Except.pure, Except.ok.injEq]
  constructor
  · rintro ⟨u, p, ⟨username, password⟩, rfl⟩
    exact ⟨u, p, username, password, rfl⟩
  · rintro ⟨u, p, username, password, rfl⟩
    exact ⟨u, p, ⟨username, password⟩, rfl⟩

theorem fromConfig_eq_ok : fromConfig auth = .ok inner ↔ ∃ id, Describes auth id ∧ inner = id.inner := by
  constructor
  · intro accepted
    have sasl {m : SaslMechanismType} (mechanism : auth.mechanism.sasl = some m)
        (read : fromSasl auth m = .ok inner) : ∃ id, Describes auth id ∧ inner = id.inner := by
      obtain ⟨u, p, username, password, rfl⟩ := fromSasl_eq_ok.mp read
      exact ⟨_, .password mechanism username password, rfl⟩
    unfold fromConfig at accepted
    split at accepted
    case h_1 mechanism =>
      cases accepted
      exact ⟨_, .anonymous mechanism, rfl⟩
    case h_2 mechanism =>
      simp only [bind_eq_ok, okOr_eq_ok, Prod.exists, parseKdc_eq_ok] at accepted
      obtain ⟨_, named, _, keys, _, _, ⟨kdc, text, address, split, last, numeral⟩, same⟩ := accepted
      cases same
      exact ⟨_, .kerberos mechanism named keys address split last numeral, rfl⟩
    case h_3 mechanism => exact sasl (by rw [mechanism]; rfl) accepted
    case h_4 mechanism => exact sasl (by rw [mechanism]; rfl) accepted
    case h_5 mechanism => exact sasl (by rw [mechanism]; rfl) accepted
    case h_6 => cases accepted
  · rintro ⟨id, describes, rfl⟩
    cases describes with
    | anonymous mechanism => simp only [fromConfig, mechanism]; rfl
    | @password m u p mechanism username password =>
        have read : fromSasl auth m = .ok (.sasl m ⟨m, u, p⟩) :=
          fromSasl_eq_ok.mpr ⟨u, p, username, password, rfl⟩
        unfold fromConfig
        cases own : auth.mechanism with
        | none | gssapi | mtls =>
            rw [own] at mechanism
            cases mechanism
        | plain | scramSha256 | scramSha512 =>
            rw [own] at mechanism
            cases mechanism
            exact read
    | @kerberos principal keytab kdc host text port mechanism named keys address split last numeral =>
        have read := parseKdc_eq_ok.mpr ⟨kdc, text, address, split, last, numeral⟩
        simp only [fromConfig, mechanism, bind_eq_ok, okOr_eq_ok, Prod.exists]
        exact ⟨principal, named, keytab, keys, host, port, read, rfl⟩

/-! ## The configuration of an identity -/

def Identity.config : Identity → AuthConfig
  | anonymous => ⟨.none, none, none, none, none, none, none⟩
  | password m u p =>
      let mechanism := match m with
        | .plain => .plain
        | .scramSha256 => .scramSha256
        | .scramSha512 => .scramSha512
      ⟨mechanism, some u, some p, none, none, none, none⟩
  | kerberos principal keytab realm host port =>
      ⟨.gssapi, none, none, some principal, some keytab, some (hostPort host port), realm⟩

theorem fromConfig_config (id : Identity) : fromConfig id.config = .ok id.inner := by
  rw [fromConfig_eq_ok]
  refine ⟨id, ?_, rfl⟩
  cases id with
  | anonymous => exact .anonymous rfl
  | password m u p => cases m <;> exact .password rfl rfl rfl
  | kerberos principal keytab realm host port =>
      exact .kerberos rfl rfl rfl rfl (toList_hostPort host port) (not_mem_digits (by decide) port)
        (parseU16_toDigits port)

/-! ## The errors -/

def AuthConfig.field (auth : AuthConfig) : String → Option String
  | "username" => auth.username
  | "password" => auth.password
  | "kerberos_principal" => auth.kerberosPrincipal
  | "kerberos_keytab" => auth.kerberosKeytab
  | "kerberos_kdc" => auth.kerberosKdc
  | _ => none

def Explains (auth : AuthConfig) : UpstreamError → Prop
  | .missing field => auth.field field = none
  | .unsupportedMechanism mechanism => auth.mechanism = .mtls ∧ mechanism = "mtls"
  | .invalidKdc kdc => auth.kerberosKdc = some kdc ∧ ¬ HasPort kdc.toList

section
variable {ε α β : Type}

theorem bind_eq_error {x : Except ε α} {f : α → Except ε β} {e : ε} :
    (x >>= f) = .error e ↔ x = .error e ∨ ∃ a, x = .ok a ∧ f a = .error e := by
  cases x with
  | error e => simp [bind, Except.bind]
  | ok a => simp [bind, Except.bind]

theorem okOr_eq_error {found : Option α} {error e : ε} :
    okOr found error = .error e ↔ found = none ∧ error = e := by
  cases found <;> simp [okOr]

end

theorem explains_userPass {e : UpstreamError} (refused : userPass auth = .error e) : Explains auth e := by
  simp only [userPass, bind_eq_error, okOr_eq_error] at refused
  obtain ⟨username, rfl⟩ | ⟨_, _, ⟨password, rfl⟩ | ⟨_, _, returned⟩⟩ := refused
  · exact username
  · exact password
  · cases returned

theorem explains_parseKdc {e : UpstreamError} (refused : parseKdc auth = .error e) : Explains auth e := by
  simp only [parseKdc, bind_eq_error, okOr_eq_error, okOr_eq_ok, Prod.exists] at refused
  obtain ⟨address, rfl⟩ | ⟨kdc, address, ⟨whole, rfl⟩ | ⟨h, text, split, ⟨wrong, rfl⟩ | ⟨_, _, returned⟩⟩⟩ :=
    refused
  · exact address
  · refine ⟨address, ?_⟩
    rintro ⟨_, _, _, split, _⟩
    rw [whole] at split
    cases split
  · refine ⟨address, ?_⟩
    rintro ⟨_, _, _, again, numeral⟩
    rw [split, Option.some_inj, Prod.mk.injEq] at again
    rw [← again.2, wrong] at numeral
    cases numeral
  · cases returned

theorem fromConfig_error {e : UpstreamError} (refused : fromConfig auth = .error e) : Explains auth e := by
  have sasl {m : SaslMechanismType} (read : fromSasl auth m = .error e) : Explains auth e := by
    simp only [fromSasl, bind_eq_error, Prod.exists] at read
    obtain early | ⟨_, _, _, returned⟩ := read
    · exact explains_userPass early
    · cases returned
  unfold fromConfig at refused
  split at refused
  case h_1 => cases refused
  case h_2 =>
    simp only [bind_eq_error, okOr_eq_error, Prod.exists] at refused
    obtain ⟨named, rfl⟩ | ⟨_, _, ⟨keys, rfl⟩ | ⟨_, _, early | ⟨_, _, _, returned⟩⟩⟩ := refused
    · exact named
    · exact keys
    · exact explains_parseKdc early
    · cases returned
  case h_3 => exact sasl refused
  case h_4 => exact sasl refused
  case h_5 => exact sasl refused
  case h_6 mechanism =>
    cases refused
    exact ⟨mechanism, rfl⟩

/-! ## The connections -/

def Builder.identity (builder : Builder) : Option Identity :=
  match builder.protocol, builder.sasl, builder.kerberos, builder.kdc with
  | .plaintext, none, none, none => some .anonymous
  | .saslPlaintext, some (m, credentials), none, none =>
      if credentials.mechanism = m then some (.password m credentials.username credentials.password)
      else none
  | .saslPlaintext, none, some ⟨principal, some keytab, realm, _⟩, some (host, port) =>
      some (.kerberos principal keytab realm host port)
  | _, _, _, _ => none

def ClientBuilder.identity (builder : ClientBuilder) : Option Identity :=
  match builder.plaintext, builder.sasl, builder.kerberos, builder.kdc with
  | true, none, none, none => some .anonymous
  | false, some (m, u, p), none, none => some (.password m u p)
  | false, none, some ⟨principal, some keytab, realm, _⟩, some (host, port) =>
      some (.kerberos principal keytab realm host port)
  | _, _, _, _ => none

theorem identity_connectFramed (id : Identity) (addr : SocketAddr) (host : String) :
    (id.inner.connectFramed addr host).identity = some id := by
  cases id <;> simp [Identity.inner, AuthInner.connectFramed, AuthInner.securityProtocol, Builder.identity]

theorem identity_bootstrapClient (id : Identity) (servers : List String) :
    (id.inner.bootstrapClient servers).identity = some id := by
  unfold AuthInner.bootstrapClient
  dsimp only
  split <;> cases id <;> rfl

theorem service_connectFramed (inner : AuthInner) (addr : SocketAddr) (host : String) :
    ∀ kerberos ∈ (inner.connectFramed addr host).kerberos,
      kerberos.brokerHostname = some host ∧
        (inner.connectFramed addr host).brokerHostname = some host := by
  cases inner with
  | plaintext | sasl => nofun
  | gssapi creds kdcHost kdcPort =>
      intro kerberos same
      cases same
      exact ⟨rfl, rfl⟩

variable {platform : Platform} {config : ProxyConfig} {brokers : List Broker}
  {targets : List BrokerTarget} {map : RewriteMap} {listeners : List MappedListener}

structure IsBroker (platform : Platform) (b : Broker) (target : BrokerTarget) : Prop where
  nodeId : target.nodeId = b.nodeId
  resolved : platform.parseAddr (b.host ++ ":" ++ toString b.port.toInt) = .ok target.realAddr
  host : target.realHost = b.host

structure IsServer (platform : Platform) (i : Nat) (server : String) (target : BrokerTarget) : Prop where
  nodeId : target.nodeId = fallbackId i
  resolved : platform.parseAddr server = .ok target.realAddr
  host : target.realHost = hostOf server

theorem mem_brokerTargets (made : brokerTargets platform brokers = .ok targets) {target : BrokerTarget}
    (member : target ∈ targets) : ∃ b ∈ brokers, IsBroker platform b target := by
  induction brokers generalizing targets with
  | nil =>
      cases made
      cases member
  | cons b rest ih =>
      simp only [brokerTargets, bind_eq_ok, mapError_eq_ok, pure, Except.pure, Except.ok.injEq] at made
      obtain ⟨addr, resolved, others, later, rfl⟩ := made
      cases List.mem_cons.mp member with
      | inl same => exact ⟨b, List.mem_cons_self, same ▸ ⟨rfl, resolved, rfl⟩⟩
      | inr there =>
          obtain ⟨c, listed, broker⟩ := ih later there
          exact ⟨c, List.mem_cons_of_mem _ listed, broker⟩

theorem server_of_fallbackTargets {servers : List String} {i : Nat}
    (made : fallbackTargets platform i servers = .ok targets) {target : BrokerTarget}
    (member : target ∈ targets) :
    ∃ j server, servers[j]? = some server ∧ IsServer platform (i + j) server target := by
  induction servers generalizing i targets with
  | nil =>
      cases made
      cases member
  | cons server rest ih =>
      simp only [fallbackTargets, bind_eq_ok, mapError_eq_ok, pure, Except.pure, Except.ok.injEq] at made
      obtain ⟨addr, resolved, others, later, rfl⟩ := made
      cases List.mem_cons.mp member with
      | inl same => exact ⟨0, server, rfl, same ▸ ⟨rfl, resolved, rfl⟩⟩
      | inr there =>
          obtain ⟨j, other, asked, own⟩ := ih later there
          refine ⟨j + 1, other, asked, ?_⟩
          rwa [Nat.add_right_comm, Nat.add_assoc] at own

/-- The proxy signs in everywhere as the configuration says, and the connections of a listener go to one
broker, with that broker's name for the service. Without metadata the broker is a bootstrap server. -/
theorem connections_identify (accepted : fromConfig auth = .ok inner)
    (made : bootstrapTargets platform config brokers = .ok targets)
    (built : buildRewriteMap platform config targets = .ok (map, listeners)) :
    ∃ id, Describes auth id ∧
      (inner.bootstrapClient config.cluster.bootstrapServers).identity = some id ∧
      ∀ listener ∈ listeners, (listener.connect inner).identity = some id ∧
        listener.nodeId = listener.target.nodeId ∧
        (listener.connect inner).addr = listener.target.realAddr ∧
        (∀ kerberos ∈ (listener.connect inner).kerberos,
          kerberos.brokerHostname = some listener.target.realHost ∧
            (listener.connect inner).brokerHostname = some listener.target.realHost) ∧
        if brokers = [] then
          ∃ i server, config.cluster.bootstrapServers[i]? = some server ∧
            IsServer platform i server listener.target
        else ∃ b ∈ brokers, IsBroker platform b listener.target := by
  obtain ⟨id, describes, rfl⟩ := fromConfig_eq_ok.mp accepted
  refine ⟨id, describes, identity_bootstrapClient id _, ?_⟩
  intro listener member
  obtain ⟨i, here⟩ := List.mem_iff_getElem?.mp member
  obtain ⟨server, mapping, advertiseHost, _, serves⟩ := listener_serves built here
  have known := serves.found.mem
  refine ⟨identity_connectFramed id _ _, serves.nodeId, ?_, service_connectFramed _ _ _, ?_⟩
  · cases id <;> rfl
  · cases brokers with
    | nil =>
        rw [if_pos rfl]
        obtain ⟨j, server, asked, own⟩ := server_of_fallbackTargets made known
        exact ⟨j, server, asked, by simpa using own⟩
    | cons b rest =>
        rw [if_neg (List.cons_ne_nil b rest)]
        exact mem_brokerTargets made known

/-! ## Kerberos with one broker -/

def kerberosUser : Identity := .kerberos "proxy" "proxy.keytab" none "kdc" 88

theorem connections_identify_one :
    fromConfig kerberosUser.config = .ok kerberosUser.inner ∧
    ∃ id, (MappedListener.connect ⟨1, 19092, ":19092", firstTarget⟩ kerberosUser.inner).identity = some id ∧
      Describes kerberosUser.config id := by
  obtain ⟨map, built⟩ := oneHost_built
  have made : bootstrapTargets localPlatform oneHost [⟨1, "localhost", 9092⟩, ⟨2, "localhost", 9093⟩] =
      .ok [firstTarget, secondTarget] := by decide +kernel
  obtain ⟨id, describes, _, each⟩ := connections_identify (fromConfig_config kerberosUser) made built
  exact ⟨fromConfig_config kerberosUser, id, (each _ List.mem_cons_self).1, describes⟩

end KafkaProxy.Startup
