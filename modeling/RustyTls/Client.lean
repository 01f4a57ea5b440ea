import RustyTls.Endpoint

/-!
# RustyTls.Client

The client's handshake (`handrolled/client.rs`).

The configuration is borrowed for as long as a handshake lives and never changes, so it is a
parameter here. The functions that handle a message take the state apart and return the next
one; reassembly, and the failed state that every error leaves behind, are `Endpoint`'s.
-/

namespace RustyTls.Client

open Core

/-! ### Configuration -/

/-- A session to resume, and how long ago it was issued. -/
structure Resumption where
  session : Session
  ageMs : UInt32
  deriving Repr, DecidableEq

/-- What a client authenticates itself with, when asked. -/
structure ClientIdentity where
  certificates : List Bytes
  key : SigningKey
  deriving Repr, DecidableEq

structure ClientConfig where
  serverName : ServerName
  anchors : List TrustAnchor
  path : PathOptions
  groups : List NamedGroup
  cipherSuites : List CipherSuite
  identity : Option ClientIdentity
  resumption : Option Resumption
  deriving Repr, DecidableEq

/-! ### States -/

/-- What the encrypted flight must bring next. -/
inductive Expect
  | encryptedExtensions
  | certificate
  | certificateVerify
  | finished
  deriving Repr, DecidableEq

def Expect.name : Expect → String
  | .encryptedExtensions => "EncryptedExtensions"
  | .certificate => "Certificate"
  | .certificateVerify => "CertificateVerify"
  | .finished => "Finished"

/-- What is known before the ServerHello. -/
structure Awaiting where
  clientHello : Bytes
  kx : KeyExchange
  retried : Bool
  random : Bytes
  sessionId : Bytes
  deriving Repr, DecidableEq

/-- What is known once the ServerHello has been accepted. -/
structure Negotiated where
  suite : CipherSuite
  aead : Aead
  hash : Hash
  transcript : Transcript
  schedule : KeySchedule
  clientHandshakeSecret : Bytes
  serverHandshakeSecret : Bytes
  opener : Opener
  certificates : List Bytes
  certificateTranscript : Bytes
  certificateRequest : Option CertificateRequestMessage
  resumed : Bool
  deriving Repr, DecidableEq

inductive State
  | awaitServerHello (awaiting : Awaiting)
  | inFlight (expect : Expect) (negotiated : Negotiated)
  | done (connection : Connection)
  | failed
  deriving Repr, DecidableEq

/-- A client's handshake. -/
abbrev ClientHandshake := Reassembling State

/-! ### ClientHello -/

def randomBytes (entropy : Entropy) (draw len : Nat) : Except ClientError Bytes :=
  okOr (entropy.fill draw len) .random

/-- The hash a session's PSK is bound to. -/
def sessionHash (session : Session) : Except ClientError Hash := do
  let (_, hash) ← okOr session.suite.parts ClientError.unusableSession
  .ok hash

/-- A hello's random and session id: those of the hello it repeats, or fresh ones. -/
def helloIdentity (entropy : Entropy) (identity : Option (Bytes × Bytes)) :
    Except ClientError (Bytes × Bytes) :=
  match identity with
  | some identity => .ok identity
  | none => do
      let random ← randomBytes entropy 0 32
      let sessionId ← randomBytes entropy 1 32
      .ok (random, sessionId)

/-- The contents of server_name; an address has none. -/
def serverNameData : ServerName → Bytes
  | .dns name => (Writer.new.vectorU16 fun w => (w.u8 0).vectorU16 (.bytes name)).intoVec
  | .ip _ => []

/-- The contents of supported_groups. -/
def supportedGroupsData (groups : List NamedGroup) : Bytes :=
  (Writer.new.vectorU16 (.each groups fun group => Writer.u16 group.asU16)).intoVec

/-- The contents of signature_algorithms. -/
def signatureAlgorithmsData : Bytes :=
  (Writer.new.vectorU16 (.each SignatureScheme.tls13Supported fun scheme =>
    Writer.u16 scheme.code)).intoVec

/-- The contents of a client's key_share: one share. -/
def keyShareData (kx : KeyExchange) : Bytes :=
  (Writer.new.vectorU16 fun w => (w.u16 kx.group.asU16).vectorU16 (.bytes kx.publicKey)).intoVec

/-- The extensions of every hello, in order, before any offer of a PSK. -/
def baseExtensions (config : ClientConfig) (kx : KeyExchange) : List Extension :=
  let name := serverNameData config.serverName
  (if name.isEmpty then [] else [⟨ExtensionType.serverName, name⟩]) ++
    [⟨ExtensionType.supportedVersions, (Writer.new.vectorU8 (.u16 0x0304)).intoVec⟩,
      ⟨ExtensionType.supportedGroups, supportedGroupsData config.groups⟩,
      ⟨ExtensionType.signatureAlgorithms, signatureAlgorithmsData⟩,
      ⟨ExtensionType.keyShare, keyShareData kx⟩,
      ⟨ExtensionType.pskKeyExchangeModes, (Writer.new.vectorU8 (.u8 1)).intoVec⟩]

/-- The one identity offered for a session. -/
def offeredIdentity (resumption : Resumption) : PskIdentity where
  identity := resumption.session.ticket
  obfuscatedTicketAge := resumption.ageMs + resumption.session.ageAdd

/-- A hello that offers no PSK. -/
def plainHello (config : ClientConfig) (kx : KeyExchange) (random sessionId : Bytes) :
    ClientHello where
  random := random
  sessionId := sessionId
  cipherSuites := config.cipherSuites.map (·.code)
  extensions := baseExtensions config kx

/-- A hello that offers a session, its binder not yet computed. The offer goes last. -/
def offeringHello (config : ClientConfig) (kx : KeyExchange) (random sessionId : Bytes)
    (resumption : Resumption) (hash : Hash) : ClientHello :=
  let hello := plainHello config kx random sessionId
  { hello with
    extensions := hello.extensions ++ [⟨ExtensionType.preSharedKey,
      preSharedKeyPlaceholder [offeredIdentity resumption] [hash.len]⟩] }

/-- Encode a hello that offers a session, its binder computed over everything before it. -/
def encodeOffering (ring : Ring) (hello : ClientHello) (hash : Hash) (psk transcriptPrefix : Bytes) :
    Except HandshakeError Bytes := do
  let placeheld ← BinderHello.new hello [hash.len]
  let covered := transcriptPrefix ++ placeheld.truncated
  placeheld.finish [pskBinder ring hash psk (hash.hash ring covered)]

/-- Encode a hello, with a session's offer if one is configured. -/
def encodeHello (ring : Ring) (config : ClientConfig) (kx : KeyExchange)
    (random sessionId transcriptPrefix : Bytes) : Except ClientError Bytes :=
  match config.resumption with
  | none => .ok (Message.encode .clientHello (plainHello config kx random sessionId).encode)
  | some resumption => do
      let hash ← sessionHash resumption.session
      mapErr .handshake (encodeOffering ring
        (offeringHello config kx random sessionId resumption hash) hash resumption.session.psk
        transcriptPrefix)

/-- The encoded hello with its random and session id. -/
def buildClientHello (ring : Ring) (entropy : Entropy) (config : ClientConfig) (kx : KeyExchange)
    (identity : Option (Bytes × Bytes)) (transcriptPrefix : Bytes) :
    Except ClientError (Bytes × Bytes × Bytes) := do
  let (random, sessionId) ← helloIdentity entropy identity
  let encoded ← encodeHello ring config kx random sessionId transcriptPrefix
  .ok (encoded, random, sessionId)

/-- A session can be offered: its suite is, and is one this code implements. -/
def checkResumption (config : ClientConfig) : Except ClientError Unit :=
  match config.resumption with
  | none => .ok ()
  | some resumption => do
      refuse (resumption.session.suite ∉ config.cipherSuites) .unusableSession
      let _ ← sessionHash resumption.session
      .ok ()

/-- Start a handshake: the state and the first record to send. -/
def start (ring : Ring) (entropy : Entropy) (config : ClientConfig) :
    Except ClientError (ClientHandshake × Bytes) := do
  let group ← okOr config.groups.head? ClientError.badKeyShare
  checkResumption config
  let kx ← mapErr .kx (KeyExchange.generate ring entropy group)
  let (hello, random, sessionId) ← buildClientHello ring entropy config kx none []
  .ok (⟨.awaitServerHello ⟨hello, kx, false, random, sessionId⟩, []⟩,
    plaintextRecord .handshake 0x0301 hello)

/-! ### ServerHello -/

def downgradeSentinelTls12 : Bytes := [0x44, 0x4f, 0x57, 0x4e, 0x47, 0x52, 0x44, 0x01]

def downgradeSentinelOlder : Bytes := [0x44, 0x4f, 0x57, 0x4e, 0x47, 0x52, 0x44, 0x00]

def isDowngradeSentinel (random : Bytes) : Bool :=
  8 ≤ random.length &&
    (random.drop (random.length - 8) == downgradeSentinelTls12 ||
      random.drop (random.length - 8) == downgradeSentinelOlder)

/-- TLS 1.3 was selected. -/
def checkVersion (hello : ServerHello) : Except ClientError Unit :=
  if find hello.extensions ExtensionType.supportedVersions = some [0x03, 0x04] then .ok ()
  else if isDowngradeSentinel hello.random then .error .downgradeDetected
  else .error .notTls13

/-- The group and the key of a server's key_share. -/
def serverKeyShare (data : Bytes) : Except HandshakeError (UInt16 × Bytes) := do
  let (group, reader) ← wire (Reader.mk data).u16
  let (key, reader) ← wire reader.vectorU16
  wire reader.finish
  .ok (group, key)

/-- The index of a ServerHello's pre_shared_key. -/
def selectedIdentity : Bytes → Except ClientError UInt16
  | [high, low] => .ok (UInt16.ofNat (beNat [high, low]))
  | _ => .error (.handshake (.pskOffer "selected_identity is not two octets"))

/-- The session the server accepted, if it accepted one. -/
def acceptedSession (config : ClientConfig) (hello : ServerHello) (hash : Hash) :
    Except ClientError (Option Session) :=
  match find hello.extensions ExtensionType.preSharedKey with
  | none => .ok none
  | some data => do
      let resumption ← okOr config.resumption ClientError.unofferedPsk
      let selected ← selectedIdentity data
      refuse (selected ≠ 0) (.badPskIdentity selected)
      let bound ← sessionHash resumption.session
      refuse (bound ≠ hash) .pskHashMismatch
      .ok (some resumption.session)

/-- The start of the key schedule: from the session's PSK, or from zeroes. -/
def earlySchedule (ring : Ring) (hash : Hash) (session : Option Session) : KeySchedule :=
  match session with
  | some session => KeySchedule.newWithPsk ring hash session.psk
  | none => KeySchedule.new ring hash

/-- Accept a ServerHello that is not a retry, and derive the handshake keys. -/
def negotiate (ring : Ring) (config : ClientConfig) (awaiting : Awaiting) (message : Message)
    (hello : ServerHello) (suite : CipherSuite) (aead : Aead) (hash : Hash) :
    Except ClientError (Bytes × State) := do
  let share ← okOr (find hello.extensions ExtensionType.keyShare) ClientError.badKeyShare
  let (group, peerKey) ← mapErr .handshake (serverKeyShare share)
  refuse (group ≠ awaiting.kx.group.asU16) .badKeyShare
  let session ← acceptedSession config hello hash
  let transcript := ((Transcript.new hash).add awaiting.clientHello).add message.encoded
  let helloHash := transcript.hash ring
  let secret ← mapErr .kx (awaiting.kx.agree ring peerKey)
  let schedule := (earlySchedule ring hash session).intoHandshake ring secret
  let clientHandshakeSecret := schedule.derive ring "c hs traffic" helloHash
  let serverHandshakeSecret := schedule.derive ring "s hs traffic" helloHash
  let keys := trafficKeys ring hash serverHandshakeSecret aead.keyLen
  let opener ← mapErr .record (Opener.new aead keys.key keys.iv)
  .ok ([], .inFlight .encryptedExtensions
    { suite, aead, hash, transcript, schedule, clientHandshakeSecret, serverHandshakeSecret, opener
      certificates := (session.map (·.peerCertificates)).getD []
      certificateTranscript := []
      certificateRequest := none
      resumed := session.isSome })

/-- The message that stands for the first ClientHello once there has been a retry. -/
def messageHash (ring : Ring) (hash : Hash) (clientHello : Bytes) : Bytes :=
  [254, 0x00, 0x00, UInt8.ofNat hash.len] ++ hash.hash ring clientHello

/-- Answer a HelloRetryRequest. -/
def retry (ring : Ring) (entropy : Entropy) (config : ClientConfig) (awaiting : Awaiting)
    (message : Message) (hello : ServerHello) (hash : Hash) : Except ClientError (Bytes × State) := do
  let share ← okOr (find hello.extensions ExtensionType.keyShare) ClientError.badKeyShare
  refuse (share.length ≠ 2) .badKeyShare
  let wanted := UInt16.ofNat (beNat share)
  let group ← okOr (NamedGroup.fromU16 wanted) (ClientError.unofferedGroup wanted)
  refuse (group ∉ config.groups) (.unofferedGroup wanted)
  let kx ← mapErr .kx (KeyExchange.generate ring entropy group)
  let replayed := messageHash ring hash awaiting.clientHello ++ message.encoded
  let (second, random, sessionId) ←
    buildClientHello ring entropy config kx (some (awaiting.random, awaiting.sessionId)) replayed
  .ok (plaintextRecord .handshake 0x0303 second,
    .awaitServerHello ⟨replayed ++ second, kx, true, random, sessionId⟩)

def handleServerHello (ring : Ring) (entropy : Entropy) (config : ClientConfig)
    (awaiting : Awaiting) (message : Message) : Except ClientError (Bytes × State) := do
  refuse (message.typ ≠ .serverHello) (.unexpectedMessage "ServerHello" message.typ)
  let hello ← mapErr .handshake (ServerHello.parse message.body)
  let suite : CipherSuite := ⟨hello.cipherSuite⟩
  refuse (suite ∉ config.cipherSuites) (.unofferedCipherSuite hello.cipherSuite)
  let (aead, hash) ← okOr suite.parts (ClientError.unofferedCipherSuite hello.cipherSuite)
  checkVersion hello
  refuse (hello.sessionId ≠ awaiting.sessionId) .sessionIdMismatch
  refuse (hello.isHelloRetryRequest = true ∧ awaiting.retried = true) .repeatedHelloRetryRequest
  if hello.isHelloRetryRequest then
    retry ring entropy config awaiting message hello hash
  else
    negotiate ring config awaiting message hello suite aead hash

/-! ### The encrypted flight -/

/-- A CertificateRequest, which leaves the Certificate as what is expected next. -/
def handleCertificateRequest (expect : Expect) (negotiated : Negotiated) (message : Message) :
    Except ClientError (Bytes × State) := do
  refuse (negotiated.resumed = true) (.unexpectedMessage "Finished" message.typ)
  refuse (expect ≠ .certificate) (.unexpectedMessage expect.name message.typ)
  refuse (negotiated.certificateRequest.isSome = true)
    (.unexpectedMessage "Certificate" message.typ)
  let request ← mapErr .handshake (CertificateRequestMessage.parse message.body)
  .ok ([], .inFlight expect { negotiated with
    certificateRequest := some request
    transcript := negotiated.transcript.addMessage message })

def handleEncryptedExtensions (negotiated : Negotiated) (message : Message) :
    Except ClientError (Bytes × State) := do
  let extensions ← mapErr .handshake (parseEncryptedExtensions message.body)
  refuse ((find extensions ExtensionType.earlyData).isSome = true) .unexpectedEarlyData
  .ok ([], .inFlight (if negotiated.resumed then .finished else .certificate) { negotiated with
    transcript := negotiated.transcript.addMessage message })

def handleCertificate (ring : Ring) (negotiated : Negotiated) (message : Message) :
    Except ClientError (Bytes × State) := do
  let certificate ← mapErr .handshake (CertificateMessage.parse message.body)
  refuse (certificate.entries = []) .noCertificates
  let transcript := negotiated.transcript.addMessage message
  .ok ([], .inFlight .certificateVerify { negotiated with
    certificates := certificate.entries.map (·.certificate)
    transcript
    certificateTranscript := transcript.hash ring })

/-- The chain is acceptable for the configured name, and its leaf signed the transcript. -/
def checkPeer (ring : Ring) (config : ClientConfig) (negotiated : Negotiated)
    (verify : CertificateVerify) : Except ClientError Unit := do
  let parsed ← mapErr .malformedCertificate (collect (negotiated.certificates.map Certificate.parse))
  let leaf ← okOr parsed.head? ClientError.noCertificates
  let _ ← mapErr .path (verifyPeerCertificate ring leaf parsed.tail config.anchors config.serverName
    config.path)
  mapErr .verify (verifyTls13Signature ring ⟨verify.scheme⟩ leaf.subjectPublicKeyInfo
    (certificateVerifyContent serverCertificateVerifyContext negotiated.certificateTranscript)
    verify.signature)

def handleCertificateVerify (ring : Ring) (config : ClientConfig) (negotiated : Negotiated)
    (message : Message) : Except ClientError (Bytes × State) := do
  let verify ← mapErr .handshake (CertificateVerify.parse message.body)
  checkPeer ring config negotiated verify
  .ok ([], .inFlight .finished { negotiated with
    transcript := negotiated.transcript.addMessage message })

/-! ### The client's flight -/

/-- A client's Certificate message. -/
def clientCertificateMessage (context : Bytes) (chain : List Bytes) : Bytes :=
  let w := Writer.new.vectorU8 (.bytes context)
  Message.encode .certificate (w.vectorU24 (.each chain fun certificate w =>
    (w.vectorU24 (.bytes certificate)).vectorU16 (fun w => w))).intoVec

/-- The identity the client answers with: its own, if its key can sign with a scheme that the
request names. -/
def answeringIdentity (config : ClientConfig) (request : CertificateRequestMessage) :
    Option ClientIdentity :=
  config.identity.filter fun identity =>
    identity.key.schemes.any fun scheme => request.schemes.contains scheme.code

/-- The CertificateVerify that proves the answering identity. -/
def proveIdentity (ring : Ring) (entropy : Entropy) (identity : ClientIdentity)
    (request : CertificateRequestMessage) (transcript : Transcript) :
    Except ClientError Bytes := do
  let scheme ← okOr (identity.key.schemes.find? fun scheme => request.schemes.contains scheme.code)
    (ClientError.panicked "filtered on exactly this above")
  let content := certificateVerifyContent clientCertificateVerifyContext (transcript.hash ring)
  let signature ← mapErr .sign (identity.key.sign ring entropy scheme content)
  .ok (Message.encode .certificateVerify
    ((Writer.new.u16 scheme.code).vectorU16 (.bytes signature)).intoVec)

/-- The answer to a CertificateRequest: a Certificate, empty when there is no identity to
answer with, and a CertificateVerify when there is. -/
def answerRequest (ring : Ring) (entropy : Entropy) (config : ClientConfig)
    (request : CertificateRequestMessage) (transcript : Transcript) : Except ClientError Bytes :=
  match answeringIdentity config request with
  | none => .ok (clientCertificateMessage request.context [])
  | some identity => do
      let certificate := clientCertificateMessage request.context identity.certificates
      let verify ← proveIdentity ring entropy identity request (transcript.add certificate)
      .ok (certificate ++ verify)

/-- What the client sends before its Finished. -/
def clientAuthentication (ring : Ring) (entropy : Entropy) (config : ClientConfig)
    (negotiated : Negotiated) (transcript : Transcript) : Except ClientError Bytes :=
  match negotiated.certificateRequest with
  | none => .ok []
  | some request => answerRequest ring entropy config request transcript

/-- The server's Finished: verify it, send the client's own flight, and switch to the
application keys. -/
def finish (ring : Ring) (entropy : Entropy) (config : ClientConfig) (negotiated : Negotiated)
    (message : Message) : Except ClientError (Bytes × State) := do
  let verifyData ← mapErr .handshake (parseFinished message.body)
  refuse (verifyFinished ring negotiated.hash negotiated.serverHandshakeSecret
    (negotiated.transcript.hash ring) verifyData = false) .badFinished
  let transcript := negotiated.transcript.addMessage message
  let afterServerFinished := transcript.hash ring
  let master := negotiated.schedule.intoMaster ring
  let clientSecret := master.derive ring "c ap traffic" afterServerFinished
  let serverSecret := master.derive ring "s ap traffic" afterServerFinished
  let authentication ← clientAuthentication ring entropy config negotiated transcript
  let transcript := transcript.add authentication
  let finished := Message.encode .finished (finishedVerifyData ring negotiated.hash
    negotiated.clientHandshakeSecret (transcript.hash ring))
  let handshakeKeys := trafficKeys ring negotiated.hash negotiated.clientHandshakeSecret
    negotiated.aead.keyLen
  let sealer ← mapErr .record (Sealer.new negotiated.aead handshakeKeys.key handshakeKeys.iv)
  let sealed ← mapErr .record (sealer.sealRecord ring .handshake (authentication ++ finished) 0).1
  let clientKeys := trafficKeys ring negotiated.hash clientSecret negotiated.aead.keyLen
  let serverKeys := trafficKeys ring negotiated.hash serverSecret negotiated.aead.keyLen
  let resumptionMaster := master.derive ring "res master" ((transcript.add finished).hash ring)
  let sealer ← mapErr .record (Sealer.new negotiated.aead clientKeys.key clientKeys.iv)
  let opener ← mapErr .record (Opener.new negotiated.aead serverKeys.key serverKeys.iv)
  .ok (plaintextRecord .changeCipherSpec 0x0303 [0x01] ++ sealed, .done
    { aead := negotiated.aead, hash := negotiated.hash, suite := negotiated.suite, sealer, opener
      clientSecret, serverSecret, certificates := negotiated.certificates
      resumed := negotiated.resumed, resumptionMaster })

/-- One message of the encrypted flight. -/
def handleFlightMessage (ring : Ring) (entropy : Entropy) (config : ClientConfig) (expect : Expect)
    (negotiated : Negotiated) (message : Message) : Except ClientError (Bytes × State) :=
  if message.typ = .certificateRequest then
    handleCertificateRequest expect negotiated message
  else
    match expect, message.typ with
    | .encryptedExtensions, .encryptedExtensions => handleEncryptedExtensions negotiated message
    | .certificate, .certificate => handleCertificate ring negotiated message
    | .certificateVerify, .certificateVerify =>
        handleCertificateVerify ring config negotiated message
    | .finished, .finished => finish ring entropy config negotiated message
    | expected, got => .error (.unexpectedMessage expected.name got)

/-! ### Records -/

/-- One message in one state. -/
def handleMessage (ring : Ring) (entropy : Entropy) (config : ClientConfig) (state : State)
    (message : Message) : Except ClientError (Bytes × State) :=
  match state with
  | .awaitServerHello awaiting => handleServerHello ring entropy config awaiting message
  | .inFlight expect negotiated =>
      handleFlightMessage ring entropy config expect negotiated message
  | .done _ | .failed => .error .failed

/-- An alert before the ServerHello is in the clear and is reported as what it says. -/
def checkPlaintextAlert (state : State) (record : Bytes) : Except ClientError Unit :=
  match state with
  | .awaitServerHello _ =>
      refuse (ContentType.fromU8 (record.headD 0) = .alert) (.ofAlert (record.drop headerLen))
  | _ => .ok ()

/-- The handshake bytes a record carries, and the state with its opener moved on. -/
def fragmentOf (ring : Ring) (state : State) (record : Bytes) :
    Except ClientError (Bytes × State) :=
  match state with
  | .awaitServerHello awaiting => do
      let typ := ContentType.fromU8 (record.headD 0)
      refuse (typ ≠ .handshake) (.unexpectedContentType typ)
      .ok (record.drop headerLen, .awaitServerHello awaiting)
  | .inFlight expect negotiated =>
      match negotiated.opener.openRecord ring record with
      | (.error err, _) => .error (.record err)
      | (.ok ⟨.handshake, fragment⟩, opener) =>
          .ok (fragment, .inFlight expect { negotiated with opener })
      | (.ok ⟨.alert, fragment⟩, _) => .error (.ofAlert fragment)
      | (.ok ⟨other, _⟩, _) => .error (.unexpectedContentType other)
  | .done _ | .failed => .error .failed

/-- What a record is checked for before anything in it is looked at. -/
def unframe (ring : Ring) (state : State) (record : Bytes) : Except ClientError (Bytes × State) := do
  checkPlaintextAlert state record
  let declared := Opener.declaredLength record
  refuse (record.length ≠ headerLen + declared)
    (.record (.lengthMismatch declared (record.length - headerLen)))
  refuse (maxEncryptedFragmentLen < declared) (.record (.encryptedFragmentTooLong declared))
  fragmentOf ring state record

/-- The client's end of a handshake. -/
def endpoint (ring : Ring) (config : ClientConfig) : Endpoint ClientError State where
  failed := .failed
  alreadyFailed := .failed
  ofRecord := .record
  ofHandshake := .handshake
  unframe := unframe ring
  handle entropy := handleMessage ring entropy config

namespace ClientHandshake

def readRecord (ring : Ring) (entropy : Entropy) (config : ClientConfig)
    (handshake : ClientHandshake) (record : Bytes) :
    Except ClientError Bytes × ClientHandshake :=
  (endpoint ring config).readRecord entropy handshake record

def isFinished (handshake : ClientHandshake) : Bool :=
  match handshake.state with
  | .done _ => true
  | _ => false

theorem isFinished_iff {handshake : ClientHandshake} :
    handshake.isFinished = true ↔ ∃ connection, handshake.state = .done connection := by
  unfold isFinished
  cases handshake.state <;> simp

def intoConnection (handshake : ClientHandshake) : Except ClientError Connection :=
  match handshake.state with
  | .done connection => .ok connection
  | _ => .error .failed

end ClientHandshake

/-- A client that trusts the key `[7]` and connects to `a.b`, for running the model. -/
def ClientConfig.sample : ClientConfig where
  serverName := .dns [0x61, dot, 0x62]
  anchors := [⟨tlv 0x30 [], ⟨⟨Oid.ed25519, none, ed25519Identifier⟩, [7], []⟩, none⟩]
  path := {}
  groups := [.x25519]
  cipherSuites := [.tlsAes128GcmSha256]
  identity := none
  resumption := none

end RustyTls.Client
