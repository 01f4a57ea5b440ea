import RustyTls.Endpoint
import RustyTls.Ticket

/-!
# RustyTls.Server

The server's handshake (`handrolled/server.rs`).

The layout is the client's: the configuration is a parameter, one function per message
returns the next state, and reassembly is `Endpoint`'s.

The draws of a call are numbered in `Entropy`: number 0 is the ServerHello's random, and the
`k`-th ticket takes its nonce, its `age_add` and the nonce it is sealed under from the three
numbers after `3 * k`.
-/

namespace RustyTls.Server

open Core

/-- Everything a server connection can fail with. `panicked` is not an error of the source:
it is an `expect` or an index that does not hold, which unwinds. -/
inductive ServerError
  | handshake (error : HandshakeError)
  | record (error : RecordError)
  | kx (error : KxError)
  | sign (error : SignError)
  | unexpectedMessage (expected : String) (got : HandshakeType)
  | unexpectedContentType (typ : ContentType)
  | notTls13
  | noSharedCipherSuite
  | noSharedGroup
  | retriedHelloStillHasNoShare (group : NamedGroup)
  | retriedHelloChangedIdentity
  | noSharedSignatureScheme
  | badFinished
  | clientCertificateRequired
  | malformedClientCertificate (error : X509Error)
  | clientCertificate (error : PathError)
  | clientCertificateVerify (error : VerifyError)
  | peerAlert (alert : Alert)
  | failed
  | random
  | badBinder
  | pskOfferNotLast
  | earlyDataOffered
  | ticket (error : TicketError)
  | panicked (expectation : String)
  deriving Repr, DecidableEq

/-- What an alert's contents report. -/
def alertError (body : Bytes) : ServerError :=
  match Alert.parse body with
  | some alert => .peerAlert alert
  | none => .unexpectedContentType .alert

/-! ### Configuration -/

/-- What a server resumes sessions with. -/
structure Tickets where
  keys : TicketKeys
  now : Int64
  lifetime : UInt32
  maxAgeSkewMs : Option UInt32
  count : Nat
  deriving Repr, DecidableEq

/-- What a server asks of a client's certificate. -/
structure ClientAuth where
  anchors : List TrustAnchor
  path : PathOptions
  required : Bool
  deriving Repr, DecidableEq

structure ServerConfig where
  certificates : List Bytes
  key : SigningKey
  cipherSuites : List CipherSuite
  groups : List NamedGroup
  clientAuth : Option ClientAuth
  tickets : Option Tickets
  deriving Repr, DecidableEq

/-! ### States -/

/-- What the client must send next. -/
inductive ExpectFromClient
  | finished
  | certificate
  | certificateVerify
  | finishedAfterEmptyCertificate
  deriving Repr, DecidableEq

def ExpectFromClient.name : ExpectFromClient → String
  | .finished | .finishedAfterEmptyCertificate => "Finished"
  | .certificate => "Certificate"
  | .certificateVerify => "CertificateVerify"

/-- What is known once the server has sent its flight. -/
structure Negotiated where
  aead : Aead
  hash : Hash
  suite : CipherSuite
  transcript : Transcript
  clientHandshakeSecret : Bytes
  opener : Opener
  clientApplicationSecret : Bytes
  serverApplicationSecret : Bytes
  master : KeySchedule
  expect : ExpectFromClient
  clientCertificates : List Bytes
  clientCertificateTranscript : Bytes
  deriving Repr, DecidableEq

/-- What is remembered across a retry. -/
structure Retrying where
  group : NamedGroup
  suite : CipherSuite
  aead : Aead
  hash : Hash
  transcriptHead : Bytes
  random : Bytes
  sessionId : Bytes
  deriving Repr, DecidableEq

inductive State
  | awaitClientHello
  | awaitRetriedClientHello (retrying : Retrying)
  | awaitFinished (negotiated : Negotiated)
  | done (connection : Connection)
  | failed
  deriving Repr, DecidableEq

/-- A server's handshake. -/
abbrev ServerHandshake := Reassembling State

/-! ### Reading a ClientHello -/

/-- The contents of a vector that is all there is. -/
def soleVector (data : Bytes) : Except HandshakeError Bytes := do
  let (list, reader) ← wire (Reader.mk data).vectorU16
  wire reader.finish
  .ok list

def clientSupportedGroups (data : Bytes) : Except HandshakeError (List UInt16) := do
  let list ← soleVector data
  u16List list

/-- One round of the loop over the key shares. -/
def nextKeyShare (out : List (UInt16 × Bytes)) (rest : Bytes) :
    Except HandshakeError (List (UInt16 × Bytes) × Bytes) := do
  let (group, list) ← wire (Reader.mk rest).u16
  let (key, list) ← wire list.vectorU16
  .ok (out ++ [(group, key)], list.rest)

def clientKeyShares (data : Bytes) : Except HandshakeError (List (UInt16 × Bytes)) := do
  let list ← soleVector data
  consume nextKeyShare [] list

def clientSignatureSchemes (data : Bytes) : Except HandshakeError (List UInt16) := do
  let list ← soleVector data
  u16List list

/-- TLS 1.3 is among the versions listed; a list that ends in half a version offers what
stands before it. -/
def listsTls13 : Bytes → Bool
  | high :: low :: rest => beNat [high, low] == 0x0304 || listsTls13 rest
  | _ => false

def offersTls13 (data : Bytes) : Bool :=
  match (Reader.mk data).vectorU8 with
  | .ok (list, _) => listsTls13 list
  | .error _ => false

def offersPskDheKe (data : Bytes) : Bool :=
  match (Reader.mk data).vectorU8 with
  | .ok (list, _) => list.contains 1
  | .error _ => false

/-- TLS 1.3 was offered. -/
def checkVersion (hello : ClientHello) : Except ServerError Unit :=
  refuse ((find hello.extensions ExtensionType.supportedVersions).any offersTls13 = false) .notTls13

/-- A scheme that the key can produce and the client accepts. -/
def selectScheme (config : ServerConfig) (hello : ClientHello) :
    Except ServerError SignatureScheme := do
  let offered ← okOr (find hello.extensions ExtensionType.signatureAlgorithms)
    ServerError.noSharedSignatureScheme
  let offered ← mapErr .handshake (clientSignatureSchemes offered)
  okOr (config.key.schemes.find? fun scheme => offered.contains scheme.code)
    .noSharedSignatureScheme

/-- The key shares of a first hello; it may have none. -/
def offeredShares (hello : ClientHello) : Except ServerError (List (UInt16 × Bytes)) :=
  match find hello.extensions ExtensionType.keyShare with
  | some data => mapErr .handshake (clientKeyShares data)
  | none => .ok []

/-- The key of the first share for a group. -/
def shareFor (shares : List (UInt16 × Bytes)) (group : NamedGroup) : Option Bytes :=
  (shares.find? fun share => share.1 == group.asU16).map (·.2)

/-- The first of the server's groups that a share was sent for. -/
def chooseShare (config : ServerConfig) (shares : List (UInt16 × Bytes)) :
    Option (NamedGroup × Bytes) :=
  config.groups.findSome? fun group => (shareFor shares group).map (group, ·)

/-! ### Pre-shared keys -/

/-- A PSK the server resumes with. -/
structure AcceptedPsk where
  index : UInt16
  psk : Bytes
  clientCertificates : List Bytes
  deriving Repr, DecidableEq

/-- The client a ticket belongs to can still be authenticated as this configuration
requires. -/
def clientIsStillAcceptable (ring : Ring) (config : ServerConfig) (contents : TicketContents) :
    Bool :=
  match config.clientAuth with
  | none => contents.clientCertificates.isEmpty
  | some auth =>
      if contents.clientCertificates.isEmpty then
        !auth.required
      else
        match collect (contents.clientCertificates.map Certificate.parse) with
        | .ok (endEntity :: intermediates) =>
            (validatePath ring endEntity intermediates auth.anchors auth.path).isOk
        | _ => false

/-- A ticket that opened is one this handshake can resume from. -/
def usable (ring : Ring) (config : ServerConfig) (tickets : Tickets) (suite : CipherSuite)
    (offered : PskIdentity) (contents : TicketContents) : Bool :=
  contents.suite == suite && contents.isCurrent tickets.now &&
    contents.identity == TicketContents.identityOf ring config.certificates &&
    (tickets.maxAgeSkewMs.all fun skew =>
      contents.ageIsPlausible offered.obfuscatedTicketAge tickets.now skew) &&
    clientIsStillAcceptable ring config contents

/-- The loop of `accept_psk` over the offered identities, from one index on. An identity that
cannot be used is passed over; the first that can decides. -/
def selectPsk (ring : Ring) (config : ServerConfig) (tickets : Tickets) (suite : CipherSuite)
    (hash : Hash) (covered : Bytes) (binders : List Bytes) :
    Nat → List PskIdentity → Except ServerError (Option AcceptedPsk)
  | _, [] => .ok none
  | index, offered :: rest =>
      match TicketContents.openContents ring offered.identity tickets.keys with
      | none => selectPsk ring config tickets suite hash covered binders (index + 1) rest
      | some (.error err) => .error (.ticket err)
      | some (.ok contents) =>
          if usable ring config tickets suite offered contents then do
            let binder ← okOr binders[index]? (ServerError.panicked "index out of bounds")
            refuse (verifyPskBinder ring hash contents.psk covered binder = false) .badBinder
            .ok (some ⟨UInt16.ofNat index, contents.psk, contents.clientCertificates⟩)
          else
            selectPsk ring config tickets suite hash covered binders (index + 1) rest

/-- Take up a pre_shared_key offer. -/
def takeOffer (ring : Ring) (config : ServerConfig) (tickets : Tickets) (data encodedHello : Bytes)
    (transcriptPrefix : Bytes) (suite : CipherSuite) (hash : Hash) :
    Except ServerError (Option AcceptedPsk) := do
  let offer ← mapErr .handshake (PresharedKeyOffer.parse data)
  let truncated ← mapErr .handshake (offer.truncated encodedHello)
  let covered := hash.hash ring (transcriptPrefix ++ truncated)
  selectPsk ring config tickets suite hash covered offer.binders 0 offer.identities

/-- The client offers to combine a PSK with a key exchange. -/
def offersDhe (hello : ClientHello) : Bool :=
  (find hello.extensions ExtensionType.pskKeyExchangeModes).any offersPskDheKe

/-- The PSK a hello is resumed with, if it is. -/
def acceptPsk (ring : Ring) (config : ServerConfig) (hello : ClientHello)
    (encodedHello transcriptPrefix : Bytes) (suite : CipherSuite) (hash : Hash) :
    Except ServerError (Option AcceptedPsk) := do
  refuse ((find hello.extensions ExtensionType.earlyData).isSome = true) .earlyDataOffered
  match find hello.extensions ExtensionType.preSharedKey with
  | none => .ok none
  | some data =>
      refuse (hello.extensions.getLast?.map (·.typ) ≠ some ExtensionType.preSharedKey)
        .pskOfferNotLast
      match config.tickets with
      | none => .ok none
      | some tickets =>
          if offersDhe hello then
            takeOffer ring config tickets data encodedHello transcriptPrefix suite hash
          else
            .ok none

/-! ### The server's flight -/

def randomBytes (entropy : Entropy) (draw len : Nat) : Except ServerError Bytes :=
  okOr (entropy.fill draw len) .random

/-- A server's records in the clear are all of one version. -/
def plaintextRecord (typ : ContentType) (fragment : Bytes) : Bytes :=
  RustyTls.plaintextRecord typ 0x0303 fragment

/-- The server's Certificate message. -/
def certificateMessage (chain : List Bytes) : Bytes :=
  let w := Writer.new.vectorU8 (fun w => w)
  Message.encode .certificate (w.vectorU24 (.each chain fun certificate w =>
    (w.vectorU24 (.bytes certificate)).vectorU16 (fun w => w))).intoVec

/-- What the hello decided. -/
structure Selected where
  suite : CipherSuite
  aead : Aead
  hash : Hash
  scheme : SignatureScheme
  group : NamedGroup
  peerKey : Bytes
  psk : Option AcceptedPsk
  deriving Repr, DecidableEq

/-- The extensions of a ServerHello. -/
def helloExtensions (kx : KeyExchange) (psk : Option AcceptedPsk) : List Extension :=
  [⟨ExtensionType.keyShare,
      ((Writer.new.u16 kx.group.asU16).vectorU16 (.bytes kx.publicKey)).intoVec⟩,
    ⟨ExtensionType.supportedVersions, [0x03, 0x04]⟩] ++
    psk.toList.map fun psk => ⟨ExtensionType.preSharedKey, beBytes 2 psk.index.toNat⟩

/-- EncryptedExtensions, with none. -/
def encryptedExtensions : Bytes :=
  Message.encode .encryptedExtensions (Writer.new.vectorU16 (fun w => w)).intoVec

/-- The CertificateRequest of a server that asks for client authentication. -/
def certificateRequest : Bytes :=
  let schemes := (Writer.new.vectorU16 (.each SignatureScheme.tls13Supported fun scheme =>
    Writer.u16 scheme.code)).intoVec
  let w := Writer.new.vectorU8 (fun w => w)
  Message.encode .certificateRequest (w.vectorU16 fun w =>
    (w.u16 ExtensionType.signatureAlgorithms).vectorU16 (.bytes schemes)).intoVec

/-- Client authentication is asked for: never in a resumed handshake. -/
def asksForCertificate (config : ServerConfig) (psk : Option AcceptedPsk) : Bool :=
  config.clientAuth.isSome && psk.isNone

/-- The server's Certificate and CertificateVerify, which a resumed handshake has not. -/
def serverAuthentication (ring : Ring) (entropy : Entropy) (config : ServerConfig)
    (scheme : SignatureScheme) (psk : Option AcceptedPsk) (transcript : Transcript) :
    Except ServerError Bytes :=
  match psk with
  | some _ => .ok []
  | none => do
      let certificate := certificateMessage config.certificates
      let content := certificateVerifyContent serverCertificateVerifyContext
        ((transcript.add certificate).hash ring)
      let signature ← mapErr .sign (config.key.sign ring entropy scheme content)
      .ok (certificate ++ Message.encode .certificateVerify
        ((Writer.new.u16 scheme.code).vectorU16 (.bytes signature)).intoVec)

/-- The start of the key schedule: from the PSK, or from zeroes. -/
def earlySchedule (ring : Ring) (hash : Hash) (psk : Option AcceptedPsk) : KeySchedule :=
  match psk with
  | some psk => KeySchedule.newWithPsk ring hash psk.psk
  | none => KeySchedule.new ring hash

/-- Answer a hello that has been accepted: ServerHello, the encrypted flight, and the keys of
both phases. -/
def complete (ring : Ring) (entropy : Entropy) (config : ServerConfig) (transcriptHead : Bytes)
    (hello : ClientHello) (selected : Selected) (sendChangeCipherSpec : Bool) :
    Except ServerError (Bytes × State) := do
  let hash := selected.hash
  let kx ← mapErr .kx (KeyExchange.generate ring entropy selected.group)
  let random ← randomBytes entropy 0 32
  let serverHello := Message.encode .serverHello
    (ServerHello.encode ⟨random, hello.sessionId, selected.suite.code,
      helloExtensions kx selected.psk⟩)
  let transcript := ((Transcript.new hash).add transcriptHead).add serverHello
  let helloHash := transcript.hash ring
  let secret ← mapErr .kx (kx.agree ring selected.peerKey)
  let schedule := (earlySchedule ring hash selected.psk).intoHandshake ring secret
  let clientHandshakeSecret := schedule.derive ring "c hs traffic" helloHash
  let serverHandshakeSecret := schedule.derive ring "s hs traffic" helloHash
  let serverKeys := trafficKeys ring hash serverHandshakeSecret selected.aead.keyLen
  let sealer ← mapErr .record (Sealer.new selected.aead serverKeys.key serverKeys.iv)
  let asks := asksForCertificate config selected.psk
  let opening := encryptedExtensions ++ (if asks then certificateRequest else [])
  let authentication ← serverAuthentication ring entropy config selected.scheme selected.psk
    (transcript.add opening)
  let transcript := (transcript.add opening).add authentication
  let finished := Message.encode .finished (finishedVerifyData ring hash serverHandshakeSecret
    (transcript.hash ring))
  let transcript := transcript.add finished
  let afterServerFinished := transcript.hash ring
  let master := schedule.intoMaster ring
  let clientKeys := trafficKeys ring hash clientHandshakeSecret selected.aead.keyLen
  let opener ← mapErr .record (Opener.new selected.aead clientKeys.key clientKeys.iv)
  let flight ← mapErr .record
    (sealer.sealRecord ring .handshake (opening ++ authentication ++ finished) 0).1
  .ok (plaintextRecord .handshake serverHello ++
      (if sendChangeCipherSpec then plaintextRecord .changeCipherSpec [0x01] else []) ++ flight,
    .awaitFinished
      { aead := selected.aead, hash, suite := selected.suite, transcript, clientHandshakeSecret
        opener, master
        clientApplicationSecret := master.derive ring "c ap traffic" afterServerFinished
        serverApplicationSecret := master.derive ring "s ap traffic" afterServerFinished
        expect := if asks then .certificate else .finished
        clientCertificates := (selected.psk.map (·.clientCertificates)).getD []
        clientCertificateTranscript := [] })

/-! ### The hellos -/

/-- The message that stands for the first ClientHello once there has been a retry. -/
def messageHash (ring : Ring) (hash : Hash) (clientHello : Bytes) : Bytes :=
  [254, 0x00, 0x00, UInt8.ofNat hash.len] ++ hash.hash ring clientHello

/-- Ask for another hello, with a share for a group in common. -/
def retry (ring : Ring) (config : ServerConfig) (message : Message) (hello : ClientHello)
    (suite : CipherSuite) (aead : Aead) (hash : Hash) : Except ServerError (Bytes × State) := do
  let offered ← okOr (find hello.extensions ExtensionType.supportedGroups) ServerError.noSharedGroup
  let offered ← mapErr .handshake (clientSupportedGroups offered)
  let group ← okOr (config.groups.find? fun group => offered.contains group.asU16)
    ServerError.noSharedGroup
  let request := Message.encode .serverHello (ServerHello.encode
    ⟨helloRetryRequestRandom, hello.sessionId, suite.code,
      [⟨ExtensionType.keyShare, (Writer.new.u16 group.asU16).intoVec⟩,
        ⟨ExtensionType.supportedVersions, [0x03, 0x04]⟩]⟩)
  let transcriptHead := messageHash ring hash message.encoded ++ request
  .ok (plaintextRecord .handshake request ++ plaintextRecord .changeCipherSpec [0x01],
    .awaitRetriedClientHello
      { group, suite, aead, hash, transcriptHead, random := hello.random
        sessionId := hello.sessionId })

/-- The first ClientHello. -/
def handleHello (ring : Ring) (entropy : Entropy) (config : ServerConfig) (message : Message) :
    Except ServerError (Bytes × State) := do
  refuse (message.typ ≠ .clientHello) (.unexpectedMessage "ClientHello" message.typ)
  let hello ← mapErr .handshake (ClientHello.parse message.body)
  checkVersion hello
  let suite ← okOr (config.cipherSuites.find? fun suite => hello.cipherSuites.contains suite.code)
    ServerError.noSharedCipherSuite
  let (aead, hash) ← okOr suite.parts ServerError.noSharedCipherSuite
  let scheme ← selectScheme config hello
  let shares ← offeredShares hello
  match chooseShare config shares with
  | none => retry ring config message hello suite aead hash
  | some (group, peerKey) => do
      let psk ← acceptPsk ring config hello message.encoded [] suite hash
      complete ring entropy config message.encoded hello
        { suite, aead, hash, scheme, group, peerKey, psk } true

/-- The hello that answers a retry. -/
def retriedHello (ring : Ring) (entropy : Entropy) (config : ServerConfig) (retrying : Retrying)
    (message : Message) : Except ServerError (Bytes × State) := do
  refuse (message.typ ≠ .clientHello) (.unexpectedMessage "ClientHello" message.typ)
  let hello ← mapErr .handshake (ClientHello.parse message.body)
  refuse (hello.random ≠ retrying.random ∨ hello.sessionId ≠ retrying.sessionId)
    .retriedHelloChangedIdentity
  checkVersion hello
  refuse (retrying.suite.code ∉ hello.cipherSuites) .retriedHelloChangedIdentity
  let scheme ← selectScheme config hello
  let shares ← okOr (find hello.extensions ExtensionType.keyShare)
    (ServerError.retriedHelloStillHasNoShare retrying.group)
  let shares ← mapErr .handshake (clientKeyShares shares)
  let peerKey ← okOr (shareFor shares retrying.group)
    (ServerError.retriedHelloStillHasNoShare retrying.group)
  let psk ← acceptPsk ring config hello message.encoded retrying.transcriptHead retrying.suite
    retrying.hash
  complete ring entropy config (retrying.transcriptHead ++ message.encoded) hello
    { suite := retrying.suite, aead := retrying.aead, hash := retrying.hash, scheme
      group := retrying.group, peerKey, psk } false

/-! ### The client's flight -/

/-- An empty Certificate: the client has nothing to offer. -/
def emptyCertificate (auth : ClientAuth) (negotiated : Negotiated) (message : Message) :
    Except ServerError (Bytes × State) := do
  refuse (auth.required = true) .clientCertificateRequired
  .ok ([], .awaitFinished { negotiated with
    transcript := negotiated.transcript.addMessage message
    expect := .finishedAfterEmptyCertificate })

/-- A certificate chain, validated before anything is signed with it. -/
def certificateChain (ring : Ring) (auth : ClientAuth) (negotiated : Negotiated)
    (message : Message) (chain : List Bytes) : Except ServerError (Bytes × State) := do
  let parsed ← mapErr .malformedClientCertificate (collect (chain.map Certificate.parse))
  let endEntity ← okOr parsed.head? (ServerError.panicked "checked non-empty above")
  let _ ← mapErr .clientCertificate
    (validatePath ring endEntity parsed.tail auth.anchors auth.path)
  let transcript := negotiated.transcript.addMessage message
  .ok ([], .awaitFinished { negotiated with
    transcript
    clientCertificateTranscript := transcript.hash ring
    clientCertificates := chain
    expect := .certificateVerify })

def handleCertificate (ring : Ring) (config : ServerConfig) (negotiated : Negotiated)
    (message : Message) : Except ServerError (Bytes × State) := do
  let certificate ← mapErr .handshake (CertificateMessage.parse message.body)
  let auth ← okOr config.clientAuth (ServerError.panicked "only requested when configured")
  if certificate.entries = [] then
    emptyCertificate auth negotiated message
  else
    certificateChain ring auth negotiated message (certificate.entries.map (·.certificate))

def handleCertificateVerify (ring : Ring) (negotiated : Negotiated) (message : Message) :
    Except ServerError (Bytes × State) := do
  let verify ← mapErr .handshake (CertificateVerify.parse message.body)
  let leaf ← okOr negotiated.clientCertificates.head?
    (ServerError.panicked "a CertificateVerify is only expected after a non-empty chain")
  let leaf ← mapErr .malformedClientCertificate (Certificate.parse leaf)
  mapErr .clientCertificateVerify (verifyTls13Signature ring ⟨verify.scheme⟩
    leaf.subjectPublicKeyInfo
    (certificateVerifyContent clientCertificateVerifyContext negotiated.clientCertificateTranscript)
    verify.signature)
  .ok ([], .awaitFinished { negotiated with
    transcript := negotiated.transcript.addMessage message
    expect := .finished })

/-! ### Tickets -/

/-- What a ticket for a connection says. -/
def ticketContents (ring : Ring) (config : ServerConfig) (tickets : Tickets)
    (negotiated : Negotiated) (ageAdd : UInt32) (psk : Bytes) : TicketContents where
  suite := negotiated.suite
  issuedAt := tickets.now
  lifetime := tickets.lifetime
  ageAdd := ageAdd
  identity := TicketContents.identityOf ring config.certificates
  clientCertificates := negotiated.clientCertificates
  psk := psk

/-- The ticket sealed for a connection, and its NewSessionTicket message. -/
def issueTicket (ring : Ring) (entropy : Entropy) (config : ServerConfig) (tickets : Tickets)
    (negotiated : Negotiated) (resumptionMaster : Bytes) (k : Nat) : Except ServerError Bytes := do
  let nonce ← randomBytes entropy (3 * k + 1) 32
  let psk := expandLabel ring negotiated.hash resumptionMaster "resumption" nonce
    negotiated.hash.len
  let ageAdd ← randomBytes entropy (3 * k + 2) 4
  let ageAdd := UInt32.ofNat (beNat ageAdd)
  let contents := ticketContents ring config tickets negotiated ageAdd psk
  let sealed ← mapErr .ticket
    (contents.sealContents ring tickets.keys.current (entropy.fill (3 * k + 3) nonceLen))
  let w := (Writer.new.u32 tickets.lifetime).u32 ageAdd
  let w := (w.vectorU8 (.bytes nonce)).vectorU16 (.bytes sealed)
  .ok (Message.encode .newSessionTicket (w.vectorU16 (fun w => w)).intoVec)

/-- The loop of `issue_tickets`. -/
def issueLoop (ring : Ring) (entropy : Entropy) (config : ServerConfig) (tickets : Tickets)
    (negotiated : Negotiated) (resumptionMaster : Bytes) :
    (remaining k : Nat) → Except ServerError Bytes
  | 0, _ => .ok []
  | remaining + 1, k => do
      let message ← issueTicket ring entropy config tickets negotiated resumptionMaster k
      let rest ← issueLoop ring entropy config tickets negotiated resumptionMaster remaining (k + 1)
      .ok (message ++ rest)

/-- The tickets of a connection in one record, and the sealer after it. -/
def issueTickets (ring : Ring) (entropy : Entropy) (config : ServerConfig)
    (negotiated : Negotiated) (sealer : Sealer) : Except ServerError (Bytes × Sealer) :=
  match config.tickets with
  | none => .ok ([], sealer)
  | some tickets =>
      if tickets.count = 0 then
        .ok ([], sealer)
      else do
        let resumptionMaster := negotiated.master.derive ring "res master"
          (negotiated.transcript.hash ring)
        let flight ← issueLoop ring entropy config tickets negotiated resumptionMaster
          tickets.count 0
        let (result, sealer) := sealer.sealRecord ring .handshake flight 0
        let record ← mapErr .record result
        .ok (record, sealer)

/-- The client's Finished: verify it and switch to the application keys. -/
def handleFinished (ring : Ring) (entropy : Entropy) (config : ServerConfig)
    (negotiated : Negotiated) (message : Message) : Except ServerError (Bytes × State) := do
  let verifyData ← mapErr .handshake (parseFinished message.body)
  refuse (verifyFinished ring negotiated.hash negotiated.clientHandshakeSecret
    (negotiated.transcript.hash ring) verifyData = false) .badFinished
  let clientKeys := trafficKeys ring negotiated.hash negotiated.clientApplicationSecret
    negotiated.aead.keyLen
  let serverKeys := trafficKeys ring negotiated.hash negotiated.serverApplicationSecret
    negotiated.aead.keyLen
  let sealer ← mapErr .record (Sealer.new negotiated.aead serverKeys.key serverKeys.iv)
  let negotiated := { negotiated with transcript := negotiated.transcript.addMessage message }
  let (out, sealer) ← issueTickets ring entropy config negotiated sealer
  let opener ← mapErr .record (Opener.new negotiated.aead clientKeys.key clientKeys.iv)
  .ok (out, .done (Connection.fromParts negotiated.aead negotiated.hash negotiated.suite sealer
    opener negotiated.serverApplicationSecret negotiated.clientApplicationSecret
    negotiated.clientCertificates))

/-- One message of the client's flight. -/
def clientFlight (ring : Ring) (entropy : Entropy) (config : ServerConfig)
    (negotiated : Negotiated) (message : Message) : Except ServerError (Bytes × State) :=
  match negotiated.expect, message.typ with
  | .certificate, .certificate => handleCertificate ring config negotiated message
  | .certificateVerify, .certificateVerify => handleCertificateVerify ring negotiated message
  | .finished, .finished => handleFinished ring entropy config negotiated message
  | .finishedAfterEmptyCertificate, .finished =>
      handleFinished ring entropy config negotiated message
  | expected, got => .error (.unexpectedMessage expected.name got)

/-! ### Records -/

/-- One message in one state. -/
def handle (ring : Ring) (entropy : Entropy) (config : ServerConfig) (state : State)
    (message : Message) : Except ServerError (Bytes × State) :=
  match state with
  | .awaitClientHello => handleHello ring entropy config message
  | .awaitRetriedClientHello retrying => retriedHello ring entropy config retrying message
  | .awaitFinished negotiated => clientFlight ring entropy config negotiated message
  | .done _ | .failed => .error .failed

/-- The handshake bytes of a record in the clear. -/
def plaintextFragment (record : Bytes) : Except ServerError Bytes := do
  let typ := ContentType.fromU8 (record.headD 0)
  refuse (typ = .alert) (alertError (record.drop headerLen))
  refuse (typ ≠ .handshake) (.unexpectedContentType typ)
  .ok (record.drop headerLen)

/-- The handshake bytes a record carries, and the state with its opener moved on. -/
def fragmentOf (ring : Ring) (state : State) (record : Bytes) :
    Except ServerError (Bytes × State) :=
  match state with
  | .awaitClientHello => do
      let fragment ← plaintextFragment record
      .ok (fragment, .awaitClientHello)
  | .awaitRetriedClientHello retrying => do
      let fragment ← plaintextFragment record
      .ok (fragment, .awaitRetriedClientHello retrying)
  | .awaitFinished negotiated =>
      match negotiated.opener.openRecord ring record with
      | (.error err, _) => .error (.record err)
      | (.ok ⟨.handshake, fragment⟩, opener) =>
          .ok (fragment, .awaitFinished { negotiated with opener })
      | (.ok ⟨.alert, fragment⟩, _) => .error (alertError fragment)
      | (.ok ⟨other, _⟩, _) => .error (.unexpectedContentType other)
  | .done _ | .failed => .error .failed

/-- What a record is checked for before anything in it is looked at. -/
def unframe (ring : Ring) (state : State) (record : Bytes) : Except ServerError (Bytes × State) := do
  let declared := Opener.declaredLength record
  refuse (record.length ≠ headerLen + declared)
    (.record (.lengthMismatch declared (record.length - headerLen)))
  refuse (maxEncryptedFragmentLen < declared) (.record (.encryptedFragmentTooLong declared))
  fragmentOf ring state record

/-- The server's end of a handshake. -/
def endpoint (ring : Ring) (config : ServerConfig) : Endpoint ServerError State where
  failed := .failed
  alreadyFailed := .failed
  ofRecord := .record
  ofHandshake := .handshake
  unframe := unframe ring
  handle entropy := handle ring entropy config

namespace ServerHandshake

def new : ServerHandshake := ⟨.awaitClientHello, []⟩

def readRecord (ring : Ring) (entropy : Entropy) (config : ServerConfig)
    (handshake : ServerHandshake) (record : Bytes) :
    Except ServerError Bytes × ServerHandshake :=
  (endpoint ring config).readRecord entropy handshake record

def isFinished (handshake : ServerHandshake) : Bool :=
  match handshake.state with
  | .done _ => true
  | _ => false

theorem isFinished_iff {handshake : ServerHandshake} :
    handshake.isFinished = true ↔ ∃ connection, handshake.state = .done connection := by
  unfold isFinished
  cases handshake.state <;> simp

def intoConnection (handshake : ServerHandshake) : Except ServerError Connection :=
  match handshake.state with
  | .done connection => .ok connection
  | _ => .error .failed

end ServerHandshake

/-- Tickets issued at time 0 and good for 100 seconds. -/
def Tickets.sample : Tickets := ⟨⟨⟨List.replicate 32 5, rfl⟩, []⟩, 0, 100, none, 1⟩

/-- A server for `a.b` with a certificate that the key `[7]` issued to its key `[9]`, for running
the model. -/
def ServerConfig.sample : ServerConfig where
  certificates := [sampleDer [9] [0x61, dot, 0x62]
    (checksum 32 ([7] ++ sampleTbs [9] [0x61, dot, 0x62]))]
  key := .ed25519 [9]
  cipherSuites := [.tlsAes128GcmSha256]
  groups := [.x25519]
  clientAuth := none
  tickets := some .sample

end RustyTls.Server
