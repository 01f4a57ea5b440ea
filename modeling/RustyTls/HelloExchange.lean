import RustyTls.HelloOffer
import RustyTls.ServerRetry
import RustyTls.PostHandshake

/-!
# RustyTls.HelloExchange

The hellos of an honest run: this client against this server, with every record delivered.

`Compatible` is what the two configurations must have in common and `Entropy.Works` what is
assumed of the random source. A hello that `Offers` what the client is configured with is taken
up or answered with a retry (`handleHello_offered`), a retry is answered with the hello it asks
for (`handleServerHello_retried`), and the ServerHello is accepted with the keys and the session
that the server chose (`handleServerHello_answered`). Nothing can stop a server's flight but its
own length (`complete_answers`).
-/

namespace RustyTls

open Core

/-! ### What an honest run assumes -/

/-- A random source that delivers, and does not by accident draw the random that marks a
HelloRetryRequest. -/
structure Entropy.Works (ring : Ring) (entropy : Entropy) : Prop where
  ephemeral : ∀ alg, ∃ secret key, entropy.ephemeral alg = some secret ∧
    ring.computePublicKey alg secret = some key
  fill : ∀ draw length, ∃ bytes, entropy.fill draw length = some bytes
  unmarked : entropy.fill 0 32 ≠ some helloRetryRequestRandom

/-- A private key is the one of a certificate: what it signs, under any scheme it has, verifies
under the certificate's key. -/
def SigningKey.Proves (ring : Ring) (key : SigningKey) (info : SubjectPublicKeyInfo) : Prop :=
  ∀ scheme ∈ key.schemes, ∃ algorithm, scheme.tls13Algorithm info = .ok algorithm ∧
    ring.KeyPair (key.ringAlgorithm scheme) algorithm key.pair info.key

/-- A client meets what a server asks of it. -/
def Server.ClientAuth.SatisfiedBy (ring : Ring) (auth : Server.ClientAuth)
    (client : Client.ClientConfig) : Prop :=
  match client.identity with
  | none => auth.required = false
  | some identity => ∃ leaf rest path,
      collect (identity.certificates.map Certificate.parse) = .ok (leaf :: rest) ∧
      validatePath ring leaf rest auth.anchors auth.path = .ok path ∧
      identity.key.Proves ring leaf.subjectPublicKeyInfo

/-- A client and a server that have everything in common that a handshake needs. -/
structure Compatible (ring : Ring) (client : Client.ClientConfig) (server : Server.ServerConfig) :
    Prop where
  implemented : ∀ suite ∈ server.cipherSuites, suite.parts ≠ none
  suite : ∃ suite ∈ server.cipherSuites, suite ∈ client.cipherSuites
  group : ∃ group ∈ server.groups, group ∈ client.groups
  accepted : ∃ leaf rest path,
    collect (server.certificates.map Certificate.parse) = .ok (leaf :: rest) ∧
    verifyPeerCertificate ring leaf rest client.anchors client.serverName client.path = .ok path ∧
    server.key.Proves ring leaf.subjectPublicKeyInfo
  clientAuth : ∀ auth, server.clientAuth = some auth → auth.SatisfiedBy ring client
  session : ∀ resumption, client.resumption = some resumption →
    Server.Honours ring server resumption.session

theorem KeyExchange.generate_works {ring : Ring} {entropy : Entropy} (hworks : entropy.Works ring)
    (group : NamedGroup) : ∃ kx, generate ring entropy group = .ok kx ∧ kx.group = group ∧
      ring.computePublicKey group.ringAlgorithm kx.secret = some kx.publicKey := by
  obtain ⟨secret, key, hsecret, hkey⟩ := hworks.ephemeral group.ringAlgorithm
  refine ⟨⟨group, secret, key⟩, ?_, rfl, hkey⟩
  simp only [generate, hsecret, okOr_some, ok_bind, hkey]

/-- A key that belongs to a certificate signs, and the signature verifies. -/
theorem SigningKey.Proves.signs {ring : Ring} {key : SigningKey} {info : SubjectPublicKeyInfo}
    (h : key.Proves ring info) {scheme : SignatureScheme} (hscheme : scheme ∈ key.schemes)
    (entropy : Entropy) (message : Bytes) :
    ∃ signature, key.sign ring entropy scheme message = .ok signature ∧ signature ≠ [] ∧
      verifyTls13Signature ring scheme info message signature = .ok () := by
  obtain ⟨algorithm, halgorithm, hpair⟩ := h scheme hscheme
  obtain ⟨signature, hsign, hne, hverify⟩ := hpair entropy.signing message
  refine ⟨signature, ?_, hne, ?_⟩
  · rw [SigningKey.sign, refuse_neg _ (not_not.mpr hscheme), ok_bind, hsign, okOr_some]
  · rw [verifyTls13Signature, halgorithm, ok_bind, refuse_neg _ (by simp [hverify])]

/-- Sealing fails on nothing but a fragment that is too long. -/
theorem sealRecord_fresh {ring : Ring} (complete : ring.Complete) (key : DirectionKey)
    (fragment : Bytes) :
    (∃ record, (Sealer.mk key (.startingAt 0)).sealRecord ring .handshake fragment 0
      = (.ok record, ⟨key, .advance 0⟩)) ∨
    ((Sealer.mk key (.startingAt 0)).sealRecord ring .handshake fragment 0).1
      = .error (.fragmentTooLong fragment.length maxFragmentLen) := by
  by_cases hlen : fragment.length ≤ maxFragmentLen
  · exact .inl (sealRecord_complete complete rfl .handshake hlen)
  · right
    rw [Sealer.sealRecord, Sealer.sealing, refuse_pos _ (Nat.not_le.mp hlen)]
    rfl

/-! ### The client's hello -/

/-- The hello that a waiting client has sent. -/
def Client.Awaiting.hello (awaiting : Client.Awaiting) (config : Client.ClientConfig)
    (binder : Bytes) : ClientHello :=
  Client.sentHello config awaiting.kx awaiting.random awaiting.sessionId binder

/-- A client waits for the answer to a hello: `front` is what stands for the messages before it,
and `binder` is in its offer. -/
structure Client.Offers (ring : Ring) (config : Client.ClientConfig) (awaiting : Client.Awaiting)
    (front encoded binder : Bytes) : Prop where
  clientHello : awaiting.clientHello = front ++ encoded
  encodes : encoded = Message.encode .clientHello (awaiting.hello config binder).encode
  binds : Client.Binds ring config front encoded binder
  random : awaiting.random.length = 32
  sessionId : awaiting.sessionId.length = 32
  short : encoded.length ≤ maxFragmentLen
  group : awaiting.kx.group ∈ config.groups
  share : ring.computePublicKey awaiting.kx.group.ringAlgorithm awaiting.kx.secret
    = some awaiting.kx.publicKey

namespace Client.Offers

variable {ring : Ring} {client : ClientConfig} {server : Server.ServerConfig}
  {awaiting : Awaiting} {front encoded binder : Bytes}

theorem sessionId_short (h : Offers ring client awaiting front encoded binder) :
    awaiting.sessionId.length < 2 ^ 8 := by
  rw [h.sessionId]
  decide

theorem fits (h : Offers ring client awaiting front encoded binder)
    (hsuites : client.cipherSuites ≠ []) : (awaiting.hello client binder).Fits :=
  sentHello_fits h.random h.sessionId hsuites (h.encodes ▸ h.short)

theorem parsed (h : Offers ring client awaiting front encoded binder)
    (hsuites : client.cipherSuites ≠ []) :
    ClientHello.parse (awaiting.hello client binder).encode
      = .ok (awaiting.hello client binder) :=
  ClientHello.parse_iff.mpr ⟨rfl, h.fits hsuites⟩

theorem groups_short (h : Offers ring client awaiting front encoded binder)
    (hsuites : client.cipherSuites ≠ []) : 2 * client.groups.length < 2 ^ 16 := by
  have hmem : (⟨ExtensionType.supportedGroups, supportedGroupsData client.groups⟩ : Extension)
      ∈ (awaiting.hello client binder).extensions := by
    simp [Awaiting.hello, sentHello, sentExtensions, baseExtensions]
  have hdata := Nat.lt_of_le_of_lt (extension_data_le hmem) (h.fits hsuites).extensions.length
  rw [Server.supportedGroupsData_eq, prefixed_length, u16Bytes_length, List.length_map] at hdata
  omega

end Client.Offers

namespace Server

variable {ring : Ring} {client : Client.ClientConfig} {server : ServerConfig}
  {awaiting : Client.Awaiting} {front encoded binder : Bytes} {entropy : Entropy}

/-- What a server selects for a hello of this client. -/
structure Chosen (ring : Ring) (client : Client.ClientConfig) (server : ServerConfig)
    (awaiting : Client.Awaiting) (selected : Selected) : Prop where
  offered : selected.suite ∈ client.cipherSuites
  parts : selected.suite.parts = some (selected.aead, selected.hash)
  scheme : selected.scheme ∈ server.key.schemes
  group : selected.group = awaiting.kx.group
  peerKey : selected.peerKey = awaiting.kx.publicKey
  psk : TakesUp ring client server selected.suite selected.hash selected.psk

theorem cipherSuite_eq {suite other : CipherSuite} (h : suite.code = other.code) :
    suite = other := by
  cases suite
  cases other
  simpa using h

theorem mem_of_code_mem {suite : CipherSuite} {suites : List CipherSuite}
    (h : suite.code ∈ suites.map (·.code)) : suite ∈ suites := by
  obtain ⟨other, hmem, hcode⟩ := List.mem_map.mp h
  rwa [← cipherSuite_eq hcode]

/-- The server's first suite that the client offers. -/
theorem selectSuite (hcompat : Compatible ring client server) :
    ∃ suite aead hash, server.cipherSuites.find? (fun suite =>
        (client.cipherSuites.map (·.code)).contains suite.code) = some suite ∧
      suite ∈ client.cipherSuites ∧ suite.parts = some (aead, hash) := by
  obtain ⟨common, hserver, hclient⟩ := hcompat.suite
  have hsome : (server.cipherSuites.find? fun suite =>
      (client.cipherSuites.map (·.code)).contains suite.code).isSome = true := by
    rw [List.find?_isSome]
    exact ⟨common, hserver, by simpa using ⟨common, hclient, rfl⟩⟩
  obtain ⟨suite, hfind⟩ := Option.isSome_iff_exists.mp hsome
  have hcode := List.find?_some hfind
  obtain ⟨⟨aead, hash⟩, hparts⟩ := Option.ne_none_iff_exists'.mp
    (hcompat.implemented suite (List.mem_of_find?_eq_some hfind))
  exact ⟨suite, aead, hash, hfind, mem_of_code_mem (by simpa using hcode), hparts⟩

theorem checkVersion_sent (client : Client.ClientConfig) (kx : KeyExchange)
    (random sessionId binder : Bytes) :
    checkVersion (Client.sentHello client kx random sessionId binder) = .ok () := by
  rw [checkVersion, refuse_eq_ok, Client.sentHello, Client.sentExtensions,
    Client.find_supportedVersions]
  decide

/-- A hello of this client is taken up, or answered with a retry when its share is of no use. -/
theorem handleHello_offered (complete : ring.Complete) (hcompat : Compatible ring client server)
    (hoffers : Client.Offers ring client awaiting [] encoded binder) (entropy : Entropy) :
    (∃ suite aead hash, suite ∈ client.cipherSuites ∧ suite.parts = some (aead, hash) ∧
      awaiting.kx.group ∉ server.groups ∧
      handleHello ring entropy server
          (Message.of .clientHello (awaiting.hello client binder).encode)
        = retry ring server (Message.of .clientHello (awaiting.hello client binder).encode)
            (awaiting.hello client binder) suite aead hash) ∨
    ∃ selected, Chosen ring client server awaiting selected ∧
      handleHello ring entropy server
          (Message.of .clientHello (awaiting.hello client binder).encode)
        = Server.complete ring entropy server encoded (awaiting.hello client binder) selected
            true := by
  obtain ⟨suite, aead, hash, hsuite, hoffered, hparts⟩ := selectSuite hcompat
  have hne : client.cipherSuites ≠ [] := List.ne_nil_of_mem hoffered
  obtain ⟨scheme, hmem, hscheme⟩ := @selectScheme_sent server (awaiting.hello client binder)
    (Client.find_signatureAlgorithms client awaiting.kx _)
  have hpublic := complete.publicKey_length _ _ _ hoffers.share
  have hshares : offeredShares (awaiting.hello client binder)
      = .ok [(awaiting.kx.group.asU16, awaiting.kx.publicKey)] := by
    have hfind : find (awaiting.hello client binder).extensions ExtensionType.keyShare
        = some (Client.keyShareData awaiting.kx) := Client.find_keyShare_base client awaiting.kx _
    rw [offeredShares, hfind]
    simp only [clientKeyShares_sent hpublic, mapErr_ok]
  have hversion : checkVersion (awaiting.hello client binder) = .ok () :=
    checkVersion_sent client awaiting.kx _ _ binder
  have hsuite' : server.cipherSuites.find?
      (fun suite => (awaiting.hello client binder).cipherSuites.contains suite.code)
      = some suite := hsuite
  have hchoose := chooseShare_sent server awaiting.kx
  by_cases hgroup : awaiting.kx.group ∈ server.groups
  · rw [if_pos hgroup] at hchoose
    obtain ⟨psk, hpsk, htakes⟩ := acceptPsk_sent complete.toLawful hparts hcompat.session
      (hoffers.fits hne) (hoffers.encodes ▸ hoffers.binds)
    have hpsk' : acceptPsk ring server (awaiting.hello client binder)
        (Message.encode .clientHello (awaiting.hello client binder).encode) [] suite hash
        = .ok psk := hpsk
    refine .inr ⟨⟨suite, aead, hash, scheme, awaiting.kx.group, awaiting.kx.publicKey, psk⟩,
      ⟨hoffered, hparts, hmem, rfl, rfl, htakes⟩, ?_⟩
    simp only [handleHello, Message.of, ne_eq, not_true_eq_false, refuse_neg _ not_false, ok_bind,
      hoffers.parsed hne, mapErr_ok, hversion, hsuite', okOr_some, hparts, hscheme, hshares,
      hchoose, hpsk', hoffers.encodes]
  · rw [if_neg hgroup] at hchoose
    refine .inl ⟨suite, aead, hash, hoffered, hparts, hgroup, ?_⟩
    simp only [handleHello, Message.of, ne_eq, not_true_eq_false, refuse_neg _ not_false, ok_bind,
      hoffers.parsed hne, mapErr_ok, hversion, hsuite', okOr_some, hparts, hscheme, hshares,
      hchoose]

/-- What a server remembers of a hello of this client, for the one that it asked for. -/
structure Remembers (ring : Ring) (client : Client.ClientConfig) (awaiting : Client.Awaiting)
    (encoded : Bytes) (retrying : Retrying) : Prop where
  group : retrying.group ∈ client.groups
  offered : retrying.suite ∈ client.cipherSuites
  parts : retrying.suite.parts = some (retrying.aead, retrying.hash)
  random : retrying.random = awaiting.random
  sessionId : retrying.sessionId = awaiting.sessionId
  head : retrying.transcriptHead = messageHash ring retrying.hash encoded ++
    Message.encode .serverHello
      (retryRequest awaiting.sessionId retrying.suite retrying.group).encode

theorem retry_offered (hcompat : Compatible ring client server)
    (hoffers : Client.Offers ring client awaiting [] encoded binder) {suite : CipherSuite}
    {aead : Aead} {hash : Hash} (hoffered : suite ∈ client.cipherSuites)
    (hparts : suite.parts = some (aead, hash)) :
    ∃ retrying, Remembers ring client awaiting encoded retrying ∧
      retry ring server (Message.of .clientHello (awaiting.hello client binder).encode)
          (awaiting.hello client binder) suite aead hash
        = .ok (plaintextRecord .handshake (Message.encode .serverHello
            (retryRequest awaiting.sessionId retrying.suite retrying.group).encode) ++
            plaintextRecord .changeCipherSpec [0x01], .awaitRetriedClientHello retrying) := by
  have hne : client.cipherSuites ≠ [] := List.ne_nil_of_mem hoffered
  have hfind : find (awaiting.hello client binder).extensions ExtensionType.supportedGroups
      = some (Client.supportedGroupsData client.groups) :=
    Client.find_supportedGroups client awaiting.kx _
  obtain ⟨common, hserver, hclient⟩ := hcompat.group
  have hsome : (server.groups.find? fun group =>
      (client.groups.map (·.asU16)).contains group.asU16).isSome = true := by
    rw [List.find?_isSome]
    exact ⟨common, hserver, by simpa using ⟨common, hclient, rfl⟩⟩
  obtain ⟨group, hgroup⟩ := Option.isSome_iff_exists.mp hsome
  have hmem : group ∈ client.groups := by
    have hcode := List.find?_some hgroup
    obtain ⟨other, hother, heq⟩ := List.mem_map.mp (List.contains_iff_mem.mp hcode)
    rwa [← NamedGroup.asU16_injective heq]
  refine ⟨⟨group, suite, aead, hash, messageHash ring hash encoded ++ Message.encode .serverHello
    (retryRequest awaiting.sessionId suite group).encode, awaiting.random, awaiting.sessionId⟩,
    ⟨hmem, hoffered, hparts, rfl, rfl, rfl⟩, ?_⟩
  simp only [retry, hfind, okOr_some, ok_bind, clientSupportedGroups_sent (hoffers.groups_short hne),
    mapErr_ok, hgroup]
  rw [hoffers.encodes]
  rfl

/-- The hello that answers a retry is taken up. -/
theorem retriedHello_offered (complete : ring.Complete) (hcompat : Compatible ring client server)
    {retrying : Retrying} {first : Bytes}
    (hremembers : Remembers ring client awaiting first retrying)
    (hoffers : Client.Offers ring client awaiting retrying.transcriptHead encoded binder)
    (hgroup : awaiting.kx.group = retrying.group) (entropy : Entropy) :
    ∃ selected, Chosen ring client server awaiting selected ∧
      retriedHello ring entropy server retrying
          (Message.of .clientHello (awaiting.hello client binder).encode)
        = Server.complete ring entropy server awaiting.clientHello (awaiting.hello client binder)
            selected false := by
  have hne : client.cipherSuites ≠ [] := List.ne_nil_of_mem hremembers.offered
  obtain ⟨scheme, hmem, hscheme⟩ := @selectScheme_sent server (awaiting.hello client binder)
    (Client.find_signatureAlgorithms client awaiting.kx _)
  have hpublic := complete.publicKey_length _ _ _ hoffers.share
  have hfind : find (awaiting.hello client binder).extensions ExtensionType.keyShare
      = some (Client.keyShareData awaiting.kx) := Client.find_keyShare_base client awaiting.kx _
  have hversion : checkVersion (awaiting.hello client binder) = .ok () :=
    checkVersion_sent client awaiting.kx _ _ binder
  have hsame : ¬ ((awaiting.hello client binder).random ≠ retrying.random ∨
      (awaiting.hello client binder).sessionId ≠ retrying.sessionId) := by
    rw [hremembers.random, hremembers.sessionId]
    simp [Client.Awaiting.hello, Client.sentHello, Client.plainHello]
  have hsuite : ¬ retrying.suite.code ∉ (awaiting.hello client binder).cipherSuites :=
    not_not.mpr (List.mem_map_of_mem hremembers.offered)
  obtain ⟨psk, hpsk, htakes⟩ := acceptPsk_sent complete.toLawful hremembers.parts hcompat.session
    (hoffers.fits hne) (hoffers.encodes ▸ hoffers.binds)
  have hpsk' : acceptPsk ring server (awaiting.hello client binder)
      (Message.encode .clientHello (awaiting.hello client binder).encode) retrying.transcriptHead
      retrying.suite retrying.hash = .ok psk := hpsk
  refine ⟨⟨retrying.suite, retrying.aead, retrying.hash, scheme, retrying.group,
    awaiting.kx.publicKey, psk⟩,
    ⟨hremembers.offered, hremembers.parts, hmem, hgroup.symm, rfl, htakes⟩, ?_⟩
  simp only [retriedHello, Message.of, ne_eq, not_true_eq_false, refuse_neg _ not_false, ok_bind,
    hoffers.parsed hne, mapErr_ok, refuse_neg _ hsame, hversion, refuse_neg _ hsuite, hscheme, hfind,
    okOr_some, clientKeyShares_sent hpublic, shareFor_sent, if_pos hgroup, hpsk',
    hoffers.clientHello, hoffers.encodes]

/-! ### The server's flight -/

/-- The one thing a call may fail with: a flight that does not fit a record. -/
def TooLong {α : Type} (result : Except ServerError α) : Prop :=
  ∃ len max, result = .error (.record (.fragmentTooLong len max))

theorem serverAuthentication_ok (hcompat : Compatible ring client server)
    {scheme : SignatureScheme} (hscheme : scheme ∈ server.key.schemes) (entropy : Entropy)
    (psk : Option AcceptedPsk) (transcript : Transcript) :
    ∃ authentication, serverAuthentication ring entropy server scheme psk transcript
      = .ok authentication := by
  cases psk with
  | some psk => exact ⟨[], rfl⟩
  | none =>
      obtain ⟨leaf, rest, path, -, -, hproves⟩ := hcompat.accepted
      obtain ⟨signature, hsign, -⟩ := hproves.signs hscheme entropy
        (certificateVerifyContent serverCertificateVerifyContext
          ((transcript.add (certificateMessage server.certificates)).hash ring))
      simp only [serverAuthentication, hsign, mapErr_ok, ok_bind]
      exact ⟨_, rfl⟩

/-- A hello that is taken up is answered, unless the flight does not fit a record. -/
theorem complete_answers (complete : ring.Complete) (hcompat : Compatible ring client server)
    (hoffers : Client.Offers ring client awaiting front encoded binder) {selected : Selected}
    (hchosen : Chosen ring client server awaiting selected) (hworks : entropy.Works ring)
    (head : Bytes) (hello : ClientHello) (ccs : Bool) :
    (∃ reply next,
      Server.complete ring entropy server head hello selected ccs = .ok (reply, next)) ∨
    TooLong (Server.complete ring entropy server head hello selected ccs) := by
  have lawful := complete.toLawful
  obtain ⟨kx, hkx, hkxGroup, hkxPublic⟩ := KeyExchange.generate_works hworks selected.group
  obtain ⟨random, hrandom⟩ := hworks.fill 0 32
  obtain ⟨secret, hsecret⟩ : ∃ secret, kx.agree ring selected.peerKey = .ok secret := by
    rw [hchosen.group] at hkxGroup hkxPublic
    obtain ⟨shared, hshared, -⟩ := complete.agrees _ _ _ _ _ hkxPublic hoffers.share
    refine ⟨shared, ?_⟩
    rw [KeyExchange.agree, hkxGroup, hchosen.peerKey, hshared, okOr_some]
  simp only [Server.complete, hkx, randomBytes, hrandom, hsecret, okOr_some, mapErr_ok, ok_bind,
    sealer_new lawful, opener_new lawful]
  generalize (((Transcript.new selected.hash).add head).add _).add _ = transcript
  obtain ⟨authentication, hauth⟩ := serverAuthentication_ok hcompat hchosen.scheme entropy
    selected.psk transcript
  simp only [hauth, ok_bind]
  generalize directionKey lawful selected.hash _ selected.aead = key
  rcases sealRecord_fresh complete key (_ ++ authentication ++ Message.encode .finished _)
    with ⟨record, hrecord⟩ | hlong
  · left
    rw [hrecord]
    exact ⟨_, _, rfl⟩
  · right
    rw [hlong]
    exact ⟨_, _, rfl⟩

end Server

/-! ### The client's answer -/

/-- The session that a server's choice resumes. -/
def Client.resumedSession (config : Client.ClientConfig) (psk : Option Server.AcceptedPsk) :
    Option Session :=
  psk.bind fun _ => config.resumption.map (·.session)

namespace Client

variable {ring : Ring} {client : ClientConfig} {server : Server.ServerConfig}
  {awaiting : Awaiting} {front encoded binder : Bytes} {entropy : Entropy}

/-- A ServerHello as this server writes it. -/
def answerHello (awaiting : Awaiting) (selected : Server.Selected) (draw : Server.FlightDraw) :
    ServerHello where
  random := draw.random
  sessionId := awaiting.sessionId
  cipherSuite := selected.suite.code
  extensions := Server.helloExtensions draw.kx selected.psk

theorem keyShare_eq (kx : KeyExchange) :
    ((Writer.new.u16 kx.group.asU16).vectorU16 (.bytes kx.publicKey)).intoVec
      = beBytes 2 kx.group.asU16.toNat ++ prefixed 2 kx.publicKey := by
  have happends := Writer.comp_appends (Writer.u16_appends kx.group.asU16)
    (Writer.vectorU16_appends (Writer.bytes_appends kx.publicKey))
  have hbuffer := congrArg Writer.intoVec (happends Writer.new)
  simpa [Writer.intoVec, Writer.new] using hbuffer

theorem serverKeyShare_sent {kx : KeyExchange} (hlen : kx.publicKey.length ≤ 97) :
    serverKeyShare ((Writer.new.u16 kx.group.asU16).vectorU16 (.bytes kx.publicKey)).intoVec
      = .ok (kx.group.asU16, kx.publicKey) := by
  have hgroup : (Reader.mk (beBytes 2 kx.group.asU16.toNat ++ prefixed 2 kx.publicKey)).u16
      = .ok (kx.group.asU16, ⟨prefixed 2 kx.publicKey⟩) := Reader.u16_iff.mpr rfl
  have hkey : (Reader.mk (prefixed 2 kx.publicKey)).vectorU16 = .ok (kx.publicKey, ⟨[]⟩) :=
    Reader.vectorU16_iff.mpr ⟨(List.append_nil _).symm, by omega⟩
  rw [keyShare_eq]
  simp only [serverKeyShare, wire, hgroup, mapErr_ok, ok_bind, hkey, Reader.finish_nil]

theorem helloExtensions_fit {kx : KeyExchange} (hlen : kx.publicKey.length ≤ 97)
    (psk : Option Server.AcceptedPsk) :
    ExtensionsFit (Server.helloExtensions kx psk) ∧
      (extensionBytes (Server.helloExtensions kx psk)).length ≤ 200 := by
  have hbytes : (extensionBytes (Server.helloExtensions kx psk)).length ≤ 200 := by
    rw [Server.helloExtensions, keyShare_eq]
    cases psk with
    | none =>
        simp only [extensionBytes, Option.toList, List.map_nil, List.append_nil, List.flatMap_cons,
          List.flatMap_nil, List.length_append, beBytes_length, prefixed_length, List.length_cons,
          List.length_nil]
        omega
    | some psk =>
        simp only [extensionBytes, Option.toList, List.map_cons, List.map_nil, List.cons_append,
          List.nil_append, List.flatMap_cons, List.flatMap_nil, List.length_append,
          beBytes_length, prefixed_length, List.length_cons, List.length_nil]
        omega
  refine ⟨⟨by omega, ?_⟩, hbytes⟩
  cases psk with
  | none =>
      show [ExtensionType.keyShare, ExtensionType.supportedVersions].Nodup
      decide
  | some psk =>
      show [ExtensionType.keyShare, ExtensionType.supportedVersions,
        ExtensionType.preSharedKey].Nodup
      decide

/-- What the client makes of the server's choice is what the server made of the offer. -/
theorem acceptedSession_taken {suite : CipherSuite} {hash : Hash}
    {psk : Option Server.AcceptedPsk} (h : Server.TakesUp ring client server suite hash psk)
    {hello : ServerHello} {kx : KeyExchange}
    (hextensions : hello.extensions = Server.helloExtensions kx psk) :
    acceptedSession client hello hash = .ok (resumedSession client psk) := by
  cases h with
  | nothing _ =>
      have hfind : find hello.extensions ExtensionType.preSharedKey = none := by
        rw [hextensions]
        rfl
      rw [acceptedSession, hfind]
      rfl
  | @session resumption _ _ hresumption hhash _ =>
      have hfind : find hello.extensions ExtensionType.preSharedKey
          = some (beBytes 2 (0 : UInt16).toNat) := by
        rw [hextensions]
        rfl
      have hselected : selectedIdentity (beBytes 2 (0 : UInt16).toNat) = .ok 0 := by decide
      simp only [acceptedSession, hfind, hresumption, okOr_some, ok_bind, hselected, ne_eq,
        not_true_eq_false, refuse_neg _ not_false, hhash, resumedSession, Option.bind_some,
        Option.map_some]

theorem earlySchedule_taken {suite : CipherSuite} {hash : Hash}
    {psk : Option Server.AcceptedPsk} (h : Server.TakesUp ring client server suite hash psk) :
    earlySchedule ring hash (resumedSession client psk) = Server.earlySchedule ring hash psk := by
  cases h with
  | nothing _ => rfl
  | session _ hresumption _ _ =>
      simp only [resumedSession, hresumption, Option.bind_some, Option.map_some]
      rfl

/-- The client accepts the ServerHello of this server. -/
theorem handleServerHello_answered (complete : ring.Complete)
    (hoffers : Offers ring client awaiting front encoded binder) {selected : Server.Selected}
    (hchosen : Server.Chosen ring client server awaiting selected)
    {draw : Server.FlightDraw} {drawn : Entropy} (hworks : drawn.Works ring)
    (hkx : KeyExchange.generate ring drawn selected.group = .ok draw.kx)
    (hrandom : drawn.fill 0 32 = some draw.random)
    (hagreed : draw.kx.agree ring selected.peerKey = .ok draw.sharedSecret) :
    ∃ negotiated, handleServerHello ring entropy client awaiting
        (Message.of .serverHello (answerHello awaiting selected draw).encode)
          = .ok ([], .inFlight .encryptedExtensions negotiated) ∧
      Derived ring awaiting (Message.of .serverHello (answerHello awaiting selected draw).encode)
        selected.suite selected.aead selected.hash (resumedSession client selected.psk)
        draw.sharedSecret negotiated := by
  obtain ⟨kx, hkx', hkxGroup, hkxPublic⟩ := KeyExchange.generate_works hworks selected.group
  obtain rfl : kx = draw.kx := Except.ok.inj (hkx'.symm.trans hkx)
  have hpublic := complete.publicKey_length _ _ _ hkxPublic
  have hparse : ServerHello.parse (answerHello awaiting selected draw).encode
      = .ok (answerHello awaiting selected draw) := by
    exact ServerHello.parse_iff.mpr ⟨rfl, drawn.fill_length _ _ _ hrandom, hoffers.sessionId_short,
      (helloExtensions_fit hpublic selected.psk).1⟩
  have hunmarked : (answerHello awaiting selected draw).isHelloRetryRequest = false := by
    rw [ServerHello.isHelloRetryRequest, beq_eq_false_iff_ne]
    intro heq
    exact hworks.unmarked (hrandom.trans (congrArg some heq))
  have hversion : checkVersion (answerHello awaiting selected draw) = .ok () := rfl
  have hshare : find (answerHello awaiting selected draw).extensions ExtensionType.keyShare
      = some ((Writer.new.u16 draw.kx.group.asU16).vectorU16 (.bytes draw.kx.publicKey)).intoVec :=
    rfl
  have hgroup : ¬ draw.kx.group.asU16 ≠ awaiting.kx.group.asU16 := by
    rw [hkxGroup, hchosen.group]
    simp
  have hsession := acceptedSession_taken hchosen.psk
    (show (answerHello awaiting selected draw).extensions = _ from rfl)
  have hsecret : awaiting.kx.agree ring draw.kx.publicKey = .ok draw.sharedSecret := by
    -- Both ends of the agreement get the same secret.
    rw [hchosen.group] at hkxGroup hkxPublic
    obtain ⟨shared, hserver, hclient⟩ := complete.agrees _ _ _ _ _ hkxPublic hoffers.share
    rw [KeyExchange.agree, hkxGroup, hchosen.peerKey, hserver] at hagreed
    obtain rfl : shared = draw.sharedSecret := by simpa using hagreed
    rw [KeyExchange.agree, hclient, okOr_some]
  have hsuite : (⟨(answerHello awaiting selected draw).cipherSuite⟩ : CipherSuite)
      = selected.suite := rfl
  have hecho : ¬ ¬ (answerHello awaiting selected draw).sessionId = awaiting.sessionId :=
    not_not.mpr rfl
  simp only [handleServerHello, Message.of, ne_eq, not_true_eq_false, refuse_neg _ not_false,
    ok_bind, hparse, mapErr_ok, hsuite, refuse_neg _ (not_not.mpr hchosen.offered), hchosen.parts,
    okOr_some, hversion, refuse_neg _ hecho, hunmarked, Bool.false_eq_true, false_and, if_false,
    negotiate, hshare, serverKeyShare_sent hpublic, refuse_neg _ hgroup, hsession, hsecret,
    opener_new complete.toLawful]
  exact ⟨_, rfl, rfl, rfl, rfl, rfl, rfl, rfl, rfl, opener_new complete.toLawful _ _ _, rfl, rfl,
    rfl⟩

/-- A retry request is short. -/
theorem retryRequest_fits {sessionId : Bytes} (hid : sessionId.length < 2 ^ 8) (suite : CipherSuite)
    (group : NamedGroup) : (Server.retryRequest sessionId suite group).Fits := by
  refine ⟨rfl, hid, ?_, ?_⟩
  · show (extensionBytes [⟨ExtensionType.keyShare, (Writer.new.u16 group.asU16).intoVec⟩,
      ⟨ExtensionType.supportedVersions, [0x03, 0x04]⟩]).length < 2 ^ 16
    cases group <;> decide
  · show [ExtensionType.keyShare, ExtensionType.supportedVersions].Nodup
    decide

/-- The client answers the request of this server with the hello it asks for. -/
theorem handleServerHello_retried (lawful : ring.Lawful) (hcheck : checkResumption client = .ok ())
    (hoffers : Offers ring client awaiting [] encoded binder) (hfirst : awaiting.retried = false)
    {retrying : Server.Retrying}
    (hremembers : Server.Remembers ring client awaiting encoded retrying)
    (hworks : entropy.Works ring) :
    ∃ awaiting' second binder', handleServerHello ring entropy client awaiting
        (Message.of .serverHello
          (Server.retryRequest awaiting.sessionId retrying.suite retrying.group).encode)
          = .ok (plaintextRecord .handshake 0x0303 second, .awaitServerHello awaiting') ∧
      (second.length ≤ maxFragmentLen →
        Offers ring client awaiting' retrying.transcriptHead second binder') ∧
      awaiting'.kx.group = retrying.group ∧ awaiting'.random = awaiting.random ∧
      awaiting'.sessionId = awaiting.sessionId := by
  let request := Server.retryRequest awaiting.sessionId retrying.suite retrying.group
  obtain ⟨kx, hkx, hkxGroup, hkxPublic⟩ := KeyExchange.generate_works hworks retrying.group
  obtain ⟨binder', second, hencode, hsecond, hbinds⟩ := encodeHello_eq lawful hcheck kx
    awaiting.random awaiting.sessionId retrying.transcriptHead
  have hparse : ServerHello.parse request.encode = .ok request :=
    ServerHello.parse_iff.mpr ⟨rfl, retryRequest_fits hoffers.sessionId_short _ _⟩
  have hversion : checkVersion request = .ok () := rfl
  have hmarked : request.isHelloRetryRequest = true := by
    rw [ServerHello.isHelloRetryRequest]
    exact beq_self_eq_true _
  have hshare : find request.extensions ExtensionType.keyShare
      = some (Writer.new.u16 retrying.group.asU16).intoVec := rfl
  have hwanted : ¬ ¬ (Writer.new.u16 retrying.group.asU16).intoVec.length = 2 ∧
      UInt16.ofNat (beNat (Writer.new.u16 retrying.group.asU16).intoVec)
        = retrying.group.asU16 := by
    cases retrying.group <;> decide
  have hsuite : (⟨request.cipherSuite⟩ : CipherSuite) = retrying.suite := rfl
  have hecho : ¬ ¬ request.sessionId = awaiting.sessionId := not_not.mpr rfl
  have honce : ¬ (True ∧ awaiting.retried = true) := by simp [hfirst]
  have hfront : messageHash ring retrying.hash awaiting.clientHello ++
      Message.encode .serverHello request.encode = retrying.transcriptHead := by
    rw [hremembers.head, hoffers.clientHello]
    rfl
  refine ⟨⟨retrying.transcriptHead ++ second, kx, true, awaiting.random, awaiting.sessionId⟩,
    second, binder', ?_, ?_, hkxGroup, rfl, rfl⟩
  · show handleServerHello ring entropy client awaiting
      (Message.of .serverHello request.encode) = _
    simp only [handleServerHello, Message.of, ne_eq, not_true_eq_false, refuse_neg _ not_false,
      ok_bind, hparse, mapErr_ok, hsuite, refuse_neg _ (not_not.mpr hremembers.offered),
      hremembers.parts, okOr_some, hversion, refuse_neg _ hecho, hmarked, refuse_neg _ honce, if_true,
      retry, hshare, refuse_neg _ hwanted.1, hwanted.2, NamedGroup.fromU16_asU16,
      refuse_neg _ (not_not.mpr hremembers.group), hkx, buildClientHello, helloIdentity, hfront,
      hencode]
  · intro hshort
    exact ⟨rfl, hsecond, hbinds, hoffers.random, hoffers.sessionId, hshort,
      hkxGroup ▸ hremembers.group, hkxGroup ▸ hkxPublic⟩

end Client

end RustyTls
