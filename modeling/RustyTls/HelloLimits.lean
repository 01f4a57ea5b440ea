import RustyTls.Delivery

/-!
# RustyTls.HelloLimits

How long the client's records in the clear are.

A hello is as long as `helloLength` says, whatever its lists, its name and its session, and it is
put into one record whose length field is a cast. Nothing between the ticket that a server chose
in an earlier connection and that cast looks at the length, so a hello is `WithinLimits` exactly
when its configuration makes a short one.
-/

namespace RustyTls

open Core

/-! ### Records in the clear -/

/-- A record in the clear that is within the protocol's limits, and so passes the checks that a
server makes before it looks at what is in it. -/
structure WithinLimits (record : Bytes) : Prop where
  declared : Whole record
  short : record.length ≤ headerLen + maxFragmentLen
  accepted : ∀ (ring : Ring) (state : Server.State), state.InClear →
    Server.unframe ring state record = .ok (record.drop headerLen, state)

theorem withinLimits_iff {version : UInt16} {fragment : Bytes} :
    WithinLimits (plaintextRecord .handshake version fragment) ↔
      fragment.length ≤ maxFragmentLen := by
  constructor
  · intro h
    have hshort := h.short
    rw [plaintextRecord_length] at hshort
    omega
  · intro h
    refine ⟨whole_plaintextRecord _ _ h, ?_, ?_⟩
    · rw [plaintextRecord_length]
      omega
    · intro ring state hclear
      rw [drop_plaintextRecord]
      exact Server.unframe_clear ring hclear version h

/-! ### The length of a hello -/

/-- How long a group's public keys are. -/
def NamedGroup.shareLen : NamedGroup → Nat
  | .x25519 => 32
  | .secP256R1 => 65
  | .secP384R1 => 97

/-- What the crate documents of its public keys: an X25519 key, or an uncompressed point. -/
def Ring.ShareLengths (ring : Ring) : Prop :=
  ∀ (group : NamedGroup) (secret key : Bytes),
    ring.computePublicKey group.ringAlgorithm secret = some key → key.length = group.shareLen

namespace Client

/-- The length of the server_name extension; an address has none. -/
def nameLength : ServerName → Nat
  | .dns name => 9 + name.length
  | .ip _ => 0

/-- The length of the pre_shared_key extension: its one ticket, and a binder of its hash. -/
def offerLength : Option Resumption → Nat
  | none => 0
  | some resumption => 15 + resumption.session.ticket.length +
      (resumption.session.suite.parts.map (·.2.len)).getD 0

/-- The length of a hello with a share for a group. -/
def helloLength (config : ClientConfig) (group : NamedGroup) : Nat :=
  112 + 2 * config.cipherSuites.length + 2 * config.groups.length +
    2 * SignatureScheme.tls13Supported.length + group.shareLen + nameLength config.serverName +
    offerLength config.resumption

variable {ring : Ring} {entropy : Entropy} {config : ClientConfig} {kx : KeyExchange}

theorem serverNameData_length (name : Bytes) :
    (serverNameData (.dns name)).length = 5 + name.length := by
  have happends : Writer.Appends (Writer.vectorU16 fun w => (w.u8 0).vectorU16 (.bytes name))
      (prefixed 2 ([0] ++ prefixed 2 name)) :=
    Writer.vectorU16_appends (Writer.comp_appends (Writer.u8_appends 0)
      (Writer.vectorU16_appends (Writer.bytes_appends name)))
  rw [serverNameData, happends Writer.new]
  simp [Writer.intoVec, Writer.new]
  omega

theorem keyShareData_length (kx : KeyExchange) :
    (keyShareData kx).length = 6 + kx.publicKey.length := by
  have happends : Writer.Appends (Writer.vectorU16 fun w =>
      (w.u16 kx.group.asU16).vectorU16 (.bytes kx.publicKey))
      (prefixed 2 (beBytes 2 kx.group.asU16.toNat ++ prefixed 2 kx.publicKey)) :=
    Writer.vectorU16_appends (Writer.comp_appends (Writer.u16_appends kx.group.asU16)
      (Writer.vectorU16_appends (Writer.bytes_appends kx.publicKey)))
  rw [keyShareData, happends Writer.new]
  simp [Writer.intoVec, Writer.new]
  omega

theorem supportedGroupsData_length (groups : List NamedGroup) :
    (supportedGroupsData groups).length = 2 + 2 * groups.length := by
  rw [Server.supportedGroupsData_eq, prefixed_length, u16Bytes_length, List.length_map]

theorem baseExtensions_length (config : ClientConfig) (kx : KeyExchange) :
    (extensionBytes (baseExtensions config kx)).length
      = 35 + 2 * config.groups.length + 2 * SignatureScheme.tls13Supported.length +
        kx.publicKey.length + nameLength config.serverName := by
  have hname : (extensionBytes (if (serverNameData config.serverName).isEmpty then []
      else [⟨ExtensionType.serverName, serverNameData config.serverName⟩])).length
      = nameLength config.serverName := by
    cases config.serverName with
    | dns name =>
        have hlen := serverNameData_length name
        have hsome : (serverNameData (.dns name)).isEmpty = false :=
          List.isEmpty_eq_false_iff.mpr (List.ne_nil_of_length_pos (by omega))
        simp only [hsome, Bool.false_eq_true, if_false, extensionBytes, List.flatMap_cons,
          List.flatMap_nil, List.append_nil, List.length_append, beBytes_length, prefixed_length,
          hlen, nameLength]
        omega
    | ip address => rfl
  have hschemes : signatureAlgorithmsData.length
      = 2 + 2 * SignatureScheme.tls13Supported.length := by decide
  have hversions : (Writer.new.vectorU8 (.u16 0x0304)).intoVec.length = 3 := rfl
  have hmodes : (Writer.new.vectorU8 (.u8 1)).intoVec.length = 2 := rfl
  rw [baseExtensions, extensionBytes, List.flatMap_append, List.length_append, ← extensionBytes,
    ← extensionBytes, hname]
  simp only [extensionBytes, List.flatMap_cons, List.flatMap_nil, List.append_nil,
    List.length_append, beBytes_length, prefixed_length, hschemes, hversions, hmodes,
    keyShareData_length, supportedGroupsData_length]
  omega

/-- A hello is as long as its configuration makes it. -/
theorem sentHello_length {random sessionId binder : Bytes} (hrandom : random.length = 32)
    (hid : sessionId.length = 32) (hshare : kx.publicKey.length = kx.group.shareLen)
    (hbinder : ∀ resumption, config.resumption = some resumption →
      ∃ hash, sessionHash resumption.session = .ok hash ∧ binder.length = hash.len) :
    (Message.encode .clientHello (sentHello config kx random sessionId binder).encode).length
      = helloLength config kx.group := by
  have hoffer : (extensionBytes (sentExtensions config kx binder)).length
      = (extensionBytes (baseExtensions config kx)).length + offerLength config.resumption := by
    rw [sentExtensions, extensionBytes, List.flatMap_append, List.length_append, ← extensionBytes]
    congr 1
    cases hresumption : config.resumption with
    | none => rfl
    | some resumption =>
        obtain ⟨hash, hhash, hlen⟩ := hbinder resumption hresumption
        simp only [sessionHash, bind_eq_ok, okOr_eq_ok] at hhash
        obtain ⟨⟨aead, hash'⟩, hparts, heq⟩ := hhash
        obtain rfl := Except.ok.inj heq
        simp only [Option.toList_some, List.map_cons, List.map_nil, List.flatMap_cons,
          List.flatMap_nil, List.append_nil, List.length_append, beBytes_length, prefixed_length,
          identityBytes, binderBytes, hlen, offerLength, hparts, Option.map_some, Option.getD_some,
          offeredIdentity]
        omega
  rw [baseExtensions_length] at hoffer
  rw [Message.encode_eq, ClientHello.encode_eq]
  simp only [sentHello, plainHello, List.length_cons, prefixed_length, List.length_append,
    u16Bytes_length, beBytes_length, List.length_map, List.length_nil, hrandom, hid, hoffer, hshare,
    helloLength]
  omega

theorem generate_length (hshares : ring.ShareLengths) {group : NamedGroup}
    (hkx : KeyExchange.generate ring entropy group = .ok kx) :
    kx.publicKey.length = group.shareLen := by
  obtain ⟨rfl, hpublic⟩ := KeyExchange.generate_inv hkx
  exact hshares _ _ _ hpublic

/-- What is built has the length of its configuration, and an identity of the usual length. -/
theorem buildClientHello_length (lawful : ring.Lawful)
    (hcheck : checkResumption config = .ok ()) {drawn : Entropy} {group : NamedGroup}
    (hkx : KeyExchange.generate ring drawn group = .ok kx)
    (hshare : kx.publicKey.length = group.shareLen) {identity : Option (Bytes × Bytes)}
    (hidentity : ∀ pair, identity = some pair → pair.1.length = 32 ∧ pair.2.length = 32)
    {front hello random sessionId : Bytes}
    (h : buildClientHello ring entropy config kx identity front = .ok (hello, random, sessionId)) :
    hello.length = helloLength config group ∧ random.length = 32 ∧ sessionId.length = 32 := by
  simp only [buildClientHello, bind_eq_ok] at h
  obtain ⟨⟨random', sessionId'⟩, hdrawn, encoded, hencode, heq⟩ := h
  obtain ⟨rfl, hpair⟩ := Prod.mk.inj (Except.ok.inj heq)
  obtain ⟨rfl, rfl⟩ := Prod.mk.inj hpair
  have hlengths : random'.length = 32 ∧ sessionId'.length = 32 := by
    cases identity with
    | some pair =>
        obtain rfl := Except.ok.inj hdrawn
        exact hidentity _ rfl
    | none =>
        simp only [helloIdentity, randomBytes, bind_eq_ok, okOr_eq_ok] at hdrawn
        obtain ⟨_, hrandom, _, hid, heq⟩ := hdrawn
        obtain ⟨rfl, rfl⟩ := Prod.mk.inj (Except.ok.inj heq)
        exact ⟨entropy.fill_length _ _ _ hrandom, entropy.fill_length _ _ _ hid⟩
  obtain ⟨hkxGroup, -⟩ := KeyExchange.generate_inv hkx
  obtain ⟨binder, encoded', hencode', hsent, hbinds⟩ :=
    encodeHello_eq lawful hcheck kx random' sessionId' front
  obtain rfl := Except.ok.inj (hencode'.symm.trans hencode)
  refine ⟨?_, hlengths⟩
  rw [hsent, ← hkxGroup]
  refine sentHello_length hlengths.1 hlengths.2 (hkxGroup ▸ hshare) ?_
  intro resumption hresumption
  obtain ⟨hash, _, hhash, -, hbinder⟩ := hbinds resumption hresumption
  exact ⟨hash, hhash, hbinder ▸ pskBinder_length lawful hash _ _⟩

/-! ### The hellos of a run -/

/-- The group that a HelloRetryRequest asks for. -/
def requestedGroup (message : Message) : Option NamedGroup := do
  let hello ← (ServerHello.parse message.body).toOption
  let share ← find hello.extensions ExtensionType.keyShare
  NamedGroup.fromU16 (UInt16.ofNat (beNat share))

/-- A step that answers a HelloRetryRequest with another hello. -/
def Retries (step : Endpoint.Taken State) : Prop :=
  (∃ awaiting, step.before = .awaitServerHello awaiting) ∧ step.reply ≠ []

/-- What a client repeats in its second hello, and how long that one is. -/
structure Sized (config : ClientConfig) (log : List (Endpoint.Taken State)) (state : State) :
    Prop where
  identity : ∀ awaiting, state = .awaitServerHello awaiting →
    awaiting.random.length = 32 ∧ awaiting.sessionId.length = 32
  retries : ∀ step ∈ log, Retries step → ∃ group, requestedGroup step.message = some group ∧
    (WithinLimits step.reply ↔ helloLength config group ≤ maxFragmentLen)

variable {log : List (Endpoint.Taken State)} {state next : State} {message : Message}
  {reply : Bytes}

theorem sized_retry (lawful : ring.Lawful) (hshares : ring.ShareLengths)
    (hcheck : checkResumption config = .ok ()) {awaiting : Awaiting}
    (hidentity : awaiting.random.length = 32 ∧ awaiting.sessionId.length = 32) {hello : ServerHello}
    {hash : Hash} (hparse : ServerHello.parse message.body = .ok hello)
    (h : retry ring entropy config awaiting message hello hash = .ok (reply, next)) :
    (∃ group, requestedGroup message = some group ∧
      (WithinLimits reply ↔ helloLength config group ≤ maxFragmentLen)) ∧
    ∀ awaiting', next = .awaitServerHello awaiting' →
      awaiting'.random.length = 32 ∧ awaiting'.sessionId.length = 32 := by
  obtain ⟨share, group, kx, second, random, sessionId, hshare, -, hgroup, -, hkx, hbuild, rfl, rfl⟩ :=
    retry_inv h
  obtain ⟨hlength, hrandom, hid⟩ := buildClientHello_length lawful hcheck hkx
    (generate_length hshares hkx) (fun pair hpair => by
      obtain rfl := Option.some.inj hpair
      exact hidentity) hbuild
  refine ⟨⟨group, ?_, ?_⟩, ?_⟩
  · simp [requestedGroup, hparse, Except.toOption, hshare, hgroup]
  · rw [withinLimits_iff, hlength]
  · intro awaiting' hnext
    obtain rfl := State.awaitServerHello.inj hnext
    exact ⟨hrandom, hid⟩

/-- One message. -/
theorem sized_handle (lawful : ring.Lawful) (hshares : ring.ShareLengths)
    (hcheck : checkResumption config = .ok ()) (hsized : Sized config log state)
    (h : handleMessage ring entropy config state message = .ok (reply, next)) :
    Sized config (log ++ [⟨entropy, state, message, reply, next⟩]) next := by
  have hstep : (∀ awaiting, next = .awaitServerHello awaiting →
        awaiting.random.length = 32 ∧ awaiting.sessionId.length = 32) ∧
      (Retries ⟨entropy, state, message, reply, next⟩ → ∃ group,
        requestedGroup message = some group ∧
        (WithinLimits reply ↔ helloLength config group ≤ maxFragmentLen)) := by
    cases state with
    | awaitServerHello awaiting =>
        obtain ⟨hello, aead, hash, haccepted, ⟨-, -, hretry⟩ | ⟨-, hnegotiate⟩⟩ :=
          handleServerHello_inv h
        · obtain ⟨hgroup, hnext⟩ := sized_retry lawful hshares hcheck (hsized.identity _ rfl)
            haccepted.parsed hretry
          exact ⟨hnext, fun _ => hgroup⟩
        · obtain ⟨_, _, _, _, _, -, -, -, -, -, rfl, rfl⟩ := negotiate_inv hnegotiate
          exact ⟨by simp, fun hretries => absurd rfl hretries.2⟩
    | inFlight expect negotiated =>
        refine ⟨?_, ?_⟩
        · intro awaiting hnext
          rcases flight_next h with ⟨-, -, -, _, _, _, _, rfl⟩ | ⟨-, -, h⟩
          · cases hnext
          · obtain ⟨_, _, -, -, -, rfl, -⟩ := finish_inv h
            cases hnext
        · intro h
          obtain ⟨⟨awaiting, hbefore⟩, -⟩ := h
          cases hbefore
    | done connection => simp [handleMessage] at h
    | failed => simp [handleMessage] at h
  refine ⟨hstep.1, ?_⟩
  intro step hmem hretries
  rcases List.mem_append.mp hmem with hmem | hmem
  · exact hsized.retries step hmem hretries
  · obtain rfl := List.mem_singleton.mp hmem
    exact hstep.2 hretries

theorem sized_unframe {record fragment : Bytes} (hsized : Sized config log state)
    (h : unframe ring state record = .ok (fragment, next)) : Sized config log next := by
  rcases unframe_inv h with ⟨-, rfl, -⟩ | ⟨_, _, _, rfl, rfl, -⟩
  · exact hsized
  · exact ⟨by simp, hsized.retries⟩

/-- The first hello. -/
theorem start_length (lawful : ring.Lawful) (hshares : ring.ShareLengths)
    {handshake : ClientHandshake} {record : Bytes}
    (h : start ring entropy config = .ok (handshake, record)) :
    checkResumption config = .ok () ∧ Sized config [] handshake.state ∧
      ∃ group, config.groups.head? = some group ∧
        (WithinLimits record ↔ helloLength config group ≤ maxFragmentLen) := by
  obtain ⟨group, kx, hello, random, sessionId, hgroup, hcheck, hkx, hbuild, rfl, rfl⟩ := start_inv h
  obtain ⟨hlength, hrandom, hid⟩ :=
    buildClientHello_length lawful hcheck hkx (generate_length hshares hkx) (by simp) hbuild
  refine ⟨hcheck, ⟨?_, by simp⟩, group, hgroup, by rw [withinLimits_iff, hlength]⟩
  intro awaiting hstate
  obtain rfl := State.awaitServerHello.inj hstate
  exact ⟨hrandom, hid⟩

/-- The client's records in the clear are within the limits exactly when its configuration makes
short hellos. Whatever the server answers, the record that `start` returns and the one that
answers a HelloRetryRequest declare their own length and carry at most `MAX_FRAGMENT_LEN` bytes,
and a server takes them apart, exactly when the hello with a share for the first configured group,
and the one with a share for the group that was asked for, are no longer than that. -/
theorem run_hellos_withinLimits_iff (lawful : ring.Lawful) (hshares : ring.ShareLengths)
    {handshake : ClientHandshake} {record : Bytes}
    (hstart : start ring entropy config = .ok (handshake, record))
    (inputs : List (Entropy × Bytes)) :
    (WithinLimits record ∧ ∀ step ∈ (endpoint ring config).taken handshake inputs,
        Retries step → WithinLimits step.reply) ↔
      (∀ group, config.groups.head? = some group →
          helloLength config group ≤ maxFragmentLen) ∧
        ∀ step ∈ (endpoint ring config).taken handshake inputs, Retries step →
          ∀ group, requestedGroup step.message = some group →
            helloLength config group ≤ maxFragmentLen := by
  obtain ⟨hcheck, hsized, first, hfirst, hrecord⟩ := start_length lawful hshares hstart
  have hrun := Endpoint.taken_induct (endpoint ring config) (P := Sized config)
    (fun _ _ hsized => ⟨by simp [endpoint], hsized.retries⟩)
    (fun _ _ _ _ _ hsized h => sized_unframe hsized h)
    (fun _ _ _ _ _ _ hsized h => sized_handle lawful hshares hcheck hsized h)
    inputs handshake [] hsized
  rw [List.nil_append] at hrun
  constructor
  · intro h
    obtain ⟨hwithin, hsteps⟩ := h
    refine ⟨?_, ?_⟩
    · intro group hgroup
      obtain rfl := Option.some.inj (hfirst.symm.trans hgroup)
      exact hrecord.mp hwithin
    · intro step hmem hretries group hgroup
      obtain ⟨group', hgroup', hiff⟩ := hrun.retries step hmem hretries
      obtain rfl := Option.some.inj (hgroup'.symm.trans hgroup)
      exact hiff.mp (hsteps step hmem hretries)
  · intro h
    obtain ⟨hgroups, hsteps⟩ := h
    refine ⟨hrecord.mpr (hgroups first hfirst), ?_⟩
    intro step hmem hretries
    obtain ⟨group, hgroup, hiff⟩ := hrun.retries step hmem hretries
    exact hiff.mpr (hsteps step hmem hretries group hgroup)

end Client

/-- A stand-in for the crate with public keys as long as the real ones. -/
def Ring.sampleShares : Ring :=
  { Ring.sample with
    computePublicKey := fun alg secret =>
      let length := match alg with
        | .x25519 => 32
        | .ecdhP256 => 65
        | .ecdhP384 => 97
      some (beBytes length (9 * beNat secret)) }

theorem Ring.sampleShares_lawful : Ring.sampleShares.Lawful :=
  ⟨sample_lawful.digest_length, sample_lawful.hmac_length, sample_lawful.seal_length,
    sample_lawful.open_seal⟩

theorem Ring.sampleShares_lengths : Ring.sampleShares.ShareLengths := by
  intro group secret key h
  obtain rfl := Option.some.inj h
  cases group <;> exact beBytes_length ..

/-- The sample client with a second group, and a server that asks for it. -/
theorem Client.run_hellos_withinLimits_iff_retried :
    let config := { Client.ClientConfig.sample with groups := [.x25519, .secP384R1] }
    let inputs := [(Entropy.sample 10, Server.plaintextRecord .handshake
      (Server.retryMessage (List.replicate 32 10) .tlsAes128GcmSha256 .secP384R1))]
    ∃ handshake record, Client.start .sampleShares (.sample 9) config = .ok (handshake, record) ∧
      ((Client.endpoint .sampleShares config).taken handshake inputs).length = 1 ∧
      WithinLimits record ∧
      ∀ step ∈ (Client.endpoint .sampleShares config).taken handshake inputs,
        Client.Retries step → WithinLimits step.reply := by
  intro config inputs
  have hcheck : ((Client.start .sampleShares (.sample 9) config).toOption.any fun started =>
      ((Client.endpoint .sampleShares config).taken started.1 inputs).length == 1) = true := by
    decide +kernel
  obtain ⟨⟨handshake, record⟩, hstarted, hcount⟩ := (Option.any_eq_true _ _).mp hcheck
  have hstart := toOption_eq_some.mp hstarted
  have hshort : ∀ group, Client.helloLength config group ≤ maxFragmentLen := by
    intro group
    cases group <;> decide
  exact ⟨handshake, record, hstart, by simpa using hcount,
    (Client.run_hellos_withinLimits_iff Ring.sampleShares_lawful Ring.sampleShares_lengths
      hstart inputs).mpr ⟨fun group _ => hshort group, fun _ _ _ group _ => hshort group⟩⟩

/-! ### Tickets that make long hellos -/

/-- A session that a connection delivers. -/
def Session.Delivered (ring : Ring) (session : Session) : Prop :=
  ∃ (connection : Connection) (record : Bytes) (sessions : List Session),
    (connection.read ring record).1 = .ok (.tickets sessions) ∧ session ∈ sessions

/-- The contents of a NewSessionTicket with an empty nonce. -/
def ticketBody (ticket : Bytes) : Bytes :=
  beBytes 4 (60 : UInt32).toNat ++ (beBytes 4 (0 : UInt32).toNat ++ (prefixed 1 [] ++
    (prefixed 2 ticket ++ prefixed 2 [])))

/-- The session that it gives. -/
def ticketSession (ring : Ring) (connection : Connection) (ticket : Bytes) : Session where
  ticket := ticket
  lifetime := 60
  ageAdd := 0
  suite := connection.suite
  peerCertificates := connection.certificates
  psk := expandLabel ring connection.hash connection.resumptionMaster "resumption" []
    connection.hash.len

theorem sessionFrom_ticketBody (ring : Ring) (connection : Connection) {ticket : Bytes}
    (hne : ticket ≠ []) (hlen : ticket.length < 2 ^ 16) :
    connection.sessionFrom ring (ticketBody ticket)
      = .ok (ticketSession ring connection ticket) := by
  have hlifetime : (Reader.mk (ticketBody ticket)).u32 = .ok (60, ⟨beBytes 4 (0 : UInt32).toNat ++
      (prefixed 1 [] ++ (prefixed 2 ticket ++ prefixed 2 []))⟩) := Reader.u32_iff.mpr rfl
  have hage : (Reader.mk (beBytes 4 (0 : UInt32).toNat ++ (prefixed 1 [] ++ (prefixed 2 ticket ++
      prefixed 2 [])))).u32 = .ok (0, ⟨prefixed 1 [] ++ (prefixed 2 ticket ++ prefixed 2 [])⟩) :=
    Reader.u32_iff.mpr rfl
  have hnonce : (Reader.mk (prefixed 1 [] ++ (prefixed 2 ticket ++ prefixed 2 []))).vectorU8
      = .ok ([], ⟨prefixed 2 ticket ++ prefixed 2 []⟩) := Reader.vectorU8_iff.mpr ⟨rfl, by simp⟩
  have hticket : (Reader.mk (prefixed 2 ticket ++ prefixed 2 [])).vectorU16
      = .ok (ticket, ⟨prefixed 2 []⟩) := Reader.vectorU16_iff.mpr ⟨rfl, hlen⟩
  have hextensions : (Reader.mk (prefixed 2 [])).vectorU16 = .ok ([], ⟨[]⟩) :=
    Reader.vectorU16_iff.mpr ⟨rfl, by simp⟩
  simp only [Connection.sessionFrom, wire, hlifetime, hage, hnonce, hticket, hextensions, mapErr_ok,
    ok_bind, Reader.finish_nil, refuse_neg _ hne, ticketSession]

/-- Every ticket that fits a record in a NewSessionTicket is delivered. -/
theorem delivered_ticketSession {ring : Ring} (complete : ring.Complete) {connection : Connection}
    {key : DirectionKey} (hopener : connection.opener = ⟨key, .startingAt 0⟩)
    (hmaster : connection.resumptionMaster ≠ []) {ticket : Bytes} (hne : ticket ≠ [])
    (hlen : ticket.length ≤ maxFragmentLen - 17) :
    Session.Delivered ring (ticketSession ring connection ticket) := by
  obtain ⟨hmax, -⟩ := limits
  have hbody : (ticketBody ticket).length = 13 + ticket.length := by
    simp only [ticketBody, List.length_append, beBytes_length, prefixed_length, List.length_nil]
    omega
  have hencoded : (Message.encode .newSessionTicket (ticketBody ticket)).length
      ≤ maxFragmentLen := by
    rw [Message.encode_eq, List.length_cons, prefixed_length, hbody]
    omega
  obtain ⟨record, hrecord⟩ := @sealRecord_complete ring complete ⟨key, .startingAt 0⟩ 0 rfl
    .handshake _ hencoded
  have hopen := (sealedUnder complete.toLawful hrecord).opens
  rw [← hopener] at hopen
  have hframed : Framed (Message.of .newSessionTicket (ticketBody ticket)) :=
    @Message.of_framed .newSessionTicket rfl _ (by omega)
  have hmessages : wholeMessages (Message.encode .newSessionTicket (ticketBody ticket))
      = [Message.of .newSessionTicket (ticketBody ticket)] := by
    rw [← wholeMessages_single hframed, Message.of]
  refine ⟨connection, record, [ticketSession ring connection ticket], ?_,
    List.mem_singleton_self _⟩
  rw [Connection.read_handshake hopen, Connection.postHandshake_eq, hmessages]
  have hsession := sessionFrom_ticketBody ring { connection with opener := ⟨key, .advance 0⟩ } hne
    (show ticket.length < 2 ^ 16 by omega)
  simp only [Connection.postHandshakeLoop, Connection.postHandshakeMessage, Message.of,
    if_neg hmaster, hsession]
  rfl

namespace Client

/-- The sample client with a session whose ticket has 16,300 bytes makes a hello that is too long
for a record. -/
theorem start_longTicket {ticket : Bytes} (hticket : ticket.length = 16300) {config : ClientConfig}
    (hconfig : config = { ClientConfig.sample with
      resumption := some ⟨ticketSession .sample (.sample [7]) ticket, 0⟩ }) :
    ∃ handshake record, start .sample (.sample 9) config = .ok (handshake, record) ∧
      ¬ WithinLimits record := by
  have hcheck : checkResumption config = .ok () := hconfig ▸ rfl
  obtain ⟨kx, hkx⟩ : ∃ kx, KeyExchange.generate .sample (.sample 9) .x25519 = .ok kx := ⟨_, rfl⟩
  obtain ⟨binder, encoded, hencode, -⟩ := encodeHello_eq Ring.sample_lawful hcheck kx
    (List.replicate 32 9) (List.replicate 32 10) []
  have hbuild : buildClientHello .sample (.sample 9) config kx none []
      = .ok (encoded, List.replicate 32 9, List.replicate 32 10) := by
    have hidentity : helloIdentity (.sample 9) none
        = .ok (List.replicate 32 9, List.replicate 32 10) := rfl
    simp only [buildClientHello, hidentity, ok_bind, hencode]
  have hshare : kx.publicKey.length = NamedGroup.x25519.shareLen := by
    obtain ⟨-, hpublic⟩ := KeyExchange.generate_inv hkx
    rw [← Option.some.inj hpublic]
    exact beBytes_length ..
  obtain ⟨hlength, -⟩ :=
    buildClientHello_length Ring.sample_lawful hcheck hkx hshare (by simp) hbuild
  have hgroup : config.groups.head? = some .x25519 := hconfig ▸ rfl
  refine ⟨⟨.awaitServerHello ⟨encoded, kx, false, List.replicate 32 9, List.replicate 32 10⟩, []⟩,
    plaintextRecord .handshake 0x0301 encoded, ?_, ?_⟩
  · simp only [start, hgroup, okOr_some, ok_bind, hcheck, hkx, mapErr_ok, hbuild]
  · rw [withinLimits_iff, hlength]
    have htotal : helloLength config .x25519 = 16519 := by
      simp only [hconfig, helloLength, offerLength, ticketSession, hticket]
      rfl
    rw [htotal]
    decide

/-- A session with a ticket of 16,300 bytes. -/
def longSession : Session :=
  ticketSession .sample (.sample [7]) (List.replicate 16300 0)

/-- The sample client with it. -/
def ClientConfig.sampleLong : ClientConfig :=
  { ClientConfig.sample with resumption := some ⟨longSession, 0⟩ }

/-- A server delivers the session, and the hello that offers it is too long for a record. -/
theorem start_not_withinLimits : Session.Delivered .sample longSession ∧
    (∃ name, ClientConfig.sampleLong.serverName = .dns name ∧ isValidDnsName name = true) ∧
    ∃ handshake record, start .sample (.sample 9) .sampleLong = .ok (handshake, record) ∧
      ¬ WithinLimits record := by
  have hticket : (List.replicate 16300 (0 : UInt8)).length = 16300 := List.length_replicate
  refine ⟨?_, ⟨_, rfl, by decide⟩, start_longTicket hticket rfl⟩
  refine delivered_ticketSession Ring.sample_complete rfl (by simp [Connection.sample]) ?_ ?_
  · exact List.ne_nil_of_length_pos (by omega)
  · rw [hticket]
    decide

end Client

end RustyTls
