import RustyTls.Client
import RustyTls.Derivations

/-!
# RustyTls.ClientDerivations

The calls of `expand_label` of a client's handshake and of a connection.

Every function of `handrolled/client.rs` that derives something, on whatever path, has its twin
here, and its lemma goes through the function step by step. No state has to be reachable for it. A
context that is not a digest is the nonce of a ticket: whatever the peer sent, it was read out of a
vector with a one-octet length (`sessionFrom_makes`).
-/

namespace RustyTls

open Core Core.Logged

/-! ### The client -/

namespace Client

def loggedEncodeOffering (ring : Ring) (hello : ClientHello) (hash : Hash)
    (psk transcriptPrefix : Bytes) : Deriving HandshakeError Bytes := do
  let placeheld ← check (BinderHello.new hello [hash.len])
  let covered := transcriptPrefix ++ placeheld.truncated
  let binder ← call (loggedPskBinder ring hash psk (hash.hash ring covered))
  check (placeheld.finish [binder])

def loggedEncodeHello (ring : Ring) (config : ClientConfig) (kx : KeyExchange)
    (random sessionId transcriptPrefix : Bytes) : Deriving ClientError Bytes :=
  match config.resumption with
  | none => pure (Message.encode .clientHello (plainHello config kx random sessionId).encode)
  | some resumption => do
      let hash ← check (sessionHash resumption.session)
      let result ← call (loggedEncodeOffering ring
        (offeringHello config kx random sessionId resumption hash) hash resumption.session.psk
        transcriptPrefix).run
      check (mapErr .handshake result)

def loggedBuildClientHello (ring : Ring) (entropy : Entropy) (config : ClientConfig)
    (kx : KeyExchange) (identity : Option (Bytes × Bytes)) (transcriptPrefix : Bytes) :
    Deriving ClientError (Bytes × Bytes × Bytes) := do
  let (random, sessionId) ← check (helloIdentity entropy identity)
  let encoded ← loggedEncodeHello ring config kx random sessionId transcriptPrefix
  pure (encoded, random, sessionId)

def loggedStart (ring : Ring) (entropy : Entropy) (config : ClientConfig) :
    Deriving ClientError (ClientHandshake × Bytes) := do
  let group ← check (okOr config.groups.head? ClientError.badKeyShare)
  check (checkResumption config)
  let kx ← check (mapErr .kx (KeyExchange.generate ring entropy group))
  let (hello, random, sessionId) ← loggedBuildClientHello ring entropy config kx none []
  pure (⟨.awaitServerHello ⟨hello, kx, false, random, sessionId⟩, []⟩,
    plaintextRecord .handshake 0x0301 hello)

def loggedNegotiate (ring : Ring) (config : ClientConfig) (awaiting : Awaiting) (message : Message)
    (hello : ServerHello) (suite : CipherSuite) (aead : Aead) (hash : Hash) :
    Deriving ClientError (Bytes × State) := do
  let share ← check (okOr (find hello.extensions ExtensionType.keyShare) ClientError.badKeyShare)
  let (group, peerKey) ← check (mapErr .handshake (serverKeyShare share))
  check (refuse (group ≠ awaiting.kx.group.asU16) .badKeyShare)
  let session ← check (acceptedSession config hello hash)
  let transcript := ((Transcript.new hash).add awaiting.clientHello).add message.encoded
  let helloHash := transcript.hash ring
  let secret ← check (mapErr .kx (awaiting.kx.agree ring peerKey))
  let schedule ← call ((earlySchedule ring hash session).loggedIntoHandshake ring secret)
  let clientHandshakeSecret ← call (schedule.loggedDerive ring "c hs traffic" helloHash)
  let serverHandshakeSecret ← call (schedule.loggedDerive ring "s hs traffic" helloHash)
  let keys ← call (loggedTrafficKeys ring hash serverHandshakeSecret aead.keyLen)
  let opener ← check (mapErr .record (Opener.new aead keys.key keys.iv))
  pure ([], .inFlight .encryptedExtensions
    { suite, aead, hash, transcript, schedule, clientHandshakeSecret, serverHandshakeSecret, opener
      certificates := (session.map (·.peerCertificates)).getD []
      certificateTranscript := []
      certificateRequest := none
      resumed := session.isSome })

def loggedRetry (ring : Ring) (entropy : Entropy) (config : ClientConfig) (awaiting : Awaiting)
    (message : Message) (hello : ServerHello) (hash : Hash) :
    Deriving ClientError (Bytes × State) := do
  let share ← check (okOr (find hello.extensions ExtensionType.keyShare) ClientError.badKeyShare)
  check (refuse (share.length ≠ 2) .badKeyShare)
  let wanted := UInt16.ofNat (beNat share)
  let group ← check (okOr (NamedGroup.fromU16 wanted) (ClientError.unofferedGroup wanted))
  check (refuse (group ∉ config.groups) (.unofferedGroup wanted))
  let kx ← check (mapErr .kx (KeyExchange.generate ring entropy group))
  let replayed := messageHash ring hash awaiting.clientHello ++ message.encoded
  let (second, random, sessionId) ← loggedBuildClientHello ring entropy config kx
    (some (awaiting.random, awaiting.sessionId)) replayed
  pure (plaintextRecord .handshake 0x0303 second,
    .awaitServerHello ⟨replayed ++ second, kx, true, random, sessionId⟩)

def loggedHandleServerHello (ring : Ring) (entropy : Entropy) (config : ClientConfig)
    (awaiting : Awaiting) (message : Message) : Deriving ClientError (Bytes × State) := do
  check (refuse (message.typ ≠ .serverHello) (.unexpectedMessage "ServerHello" message.typ))
  let hello ← check (mapErr .handshake (ServerHello.parse message.body))
  let suite : CipherSuite := ⟨hello.cipherSuite⟩
  check (refuse (suite ∉ config.cipherSuites) (.unofferedCipherSuite hello.cipherSuite))
  let (aead, hash) ← check (okOr suite.parts (ClientError.unofferedCipherSuite hello.cipherSuite))
  check (checkVersion hello)
  check (refuse (hello.sessionId ≠ awaiting.sessionId) .sessionIdMismatch)
  check (refuse (hello.isHelloRetryRequest = true ∧ awaiting.retried = true)
    .repeatedHelloRetryRequest)
  if hello.isHelloRetryRequest then
    loggedRetry ring entropy config awaiting message hello hash
  else
    loggedNegotiate ring config awaiting message hello suite aead hash

def loggedFinish (ring : Ring) (entropy : Entropy) (config : ClientConfig)
    (negotiated : Negotiated) (message : Message) : Deriving ClientError (Bytes × State) := do
  let verifyData ← check (mapErr .handshake (parseFinished message.body))
  let verified ← call (loggedVerifyFinished ring negotiated.hash negotiated.serverHandshakeSecret
    (negotiated.transcript.hash ring) verifyData)
  check (refuse (verified = false) .badFinished)
  let transcript := negotiated.transcript.addMessage message
  let afterServerFinished := transcript.hash ring
  let master ← call (negotiated.schedule.loggedIntoMaster ring)
  let clientSecret ← call (master.loggedDerive ring "c ap traffic" afterServerFinished)
  let serverSecret ← call (master.loggedDerive ring "s ap traffic" afterServerFinished)
  let authentication ← check (clientAuthentication ring entropy config negotiated transcript)
  let transcript := transcript.add authentication
  let verifyData ← call (loggedFinishedVerifyData ring negotiated.hash
    negotiated.clientHandshakeSecret (transcript.hash ring))
  let finished := Message.encode .finished verifyData
  let handshakeKeys ← call (loggedTrafficKeys ring negotiated.hash negotiated.clientHandshakeSecret
    negotiated.aead.keyLen)
  let sealer ← check (mapErr .record
    (Sealer.new negotiated.aead handshakeKeys.key handshakeKeys.iv))
  let sealed ← check (mapErr .record
    (sealer.sealRecord ring .handshake (authentication ++ finished) 0).1)
  let clientKeys ← call (loggedTrafficKeys ring negotiated.hash clientSecret negotiated.aead.keyLen)
  let serverKeys ← call (loggedTrafficKeys ring negotiated.hash serverSecret negotiated.aead.keyLen)
  let resumptionMaster ← call (master.loggedDerive ring "res master"
    ((transcript.add finished).hash ring))
  let sealer ← check (mapErr .record (Sealer.new negotiated.aead clientKeys.key clientKeys.iv))
  let opener ← check (mapErr .record (Opener.new negotiated.aead serverKeys.key serverKeys.iv))
  pure (plaintextRecord .changeCipherSpec 0x0303 [0x01] ++ sealed, .done
    { aead := negotiated.aead, hash := negotiated.hash, suite := negotiated.suite, sealer, opener
      clientSecret, serverSecret, certificates := negotiated.certificates
      resumed := negotiated.resumed, resumptionMaster })

def loggedHandleFlightMessage (ring : Ring) (entropy : Entropy) (config : ClientConfig)
    (expect : Expect) (negotiated : Negotiated) (message : Message) :
    Deriving ClientError (Bytes × State) :=
  if message.typ = .certificateRequest then
    check (handleCertificateRequest expect negotiated message)
  else
    match expect, message.typ with
    | .encryptedExtensions, .encryptedExtensions =>
        check (handleEncryptedExtensions negotiated message)
    | .certificate, .certificate => check (handleCertificate ring negotiated message)
    | .certificateVerify, .certificateVerify =>
        check (handleCertificateVerify ring config negotiated message)
    | .finished, .finished => loggedFinish ring entropy config negotiated message
    | expected, got => check (.error (.unexpectedMessage expected.name got))

def loggedHandleMessage (ring : Ring) (entropy : Entropy) (config : ClientConfig) (state : State)
    (message : Message) : Deriving ClientError (Bytes × State) :=
  match state with
  | .awaitServerHello awaiting => loggedHandleServerHello ring entropy config awaiting message
  | .inFlight expect negotiated =>
      loggedHandleFlightMessage ring entropy config expect negotiated message
  | .done _ | .failed => check (.error .failed)

section
variable {ring : Ring} (lawful : ring.Lawful)
include lawful

theorem encodeOffering_makes (hello : ClientHello) (hash : Hash) (psk transcriptPrefix : Bytes) :
    Derives (loggedEncodeOffering ring hello hash psk transcriptPrefix).run
      (encodeOffering ring hello hash psk transcriptPrefix) := by
  refine .check ?_
  intro placeheld _
  exact .call (pskBinder_makes lawful) (.last _)

theorem encodeHello_makes (config : ClientConfig) (kx : KeyExchange)
    (random sessionId transcriptPrefix : Bytes) :
    Derives (loggedEncodeHello ring config kx random sessionId transcriptPrefix).run
      (encodeHello ring config kx random sessionId transcriptPrefix) := by
  unfold loggedEncodeHello encodeHello
  generalize config.resumption = offered
  cases offered with
  | none => exact .pure _
  | some resumption =>
      refine .check ?_
      intro hash _
      exact .call (encodeOffering_makes lawful _ _ _ _) (.last _)

theorem buildClientHello_makes (entropy : Entropy) (config : ClientConfig) (kx : KeyExchange)
    (identity : Option (Bytes × Bytes)) (transcriptPrefix : Bytes) :
    Derives (loggedBuildClientHello ring entropy config kx identity transcriptPrefix).run
      (buildClientHello ring entropy config kx identity transcriptPrefix) := by
  refine .check ?_
  intro p _
  refine .attempt (encodeHello_makes lawful config kx p.1 p.2 transcriptPrefix) ?_
  intro encoded _
  exact .pure _

theorem start_makes (entropy : Entropy) (config : ClientConfig) :
    Derives (loggedStart ring entropy config).run (start ring entropy config) := by
  refine .check ?_
  intro group _
  refine .check ?_
  intro _ _
  refine .check ?_
  intro kx _
  refine .attempt (buildClientHello_makes lawful entropy config kx none []) ?_
  intro p _
  exact .pure _

theorem retry_makes (entropy : Entropy) (config : ClientConfig) (awaiting : Awaiting)
    (message : Message) (hello : ServerHello) (hash : Hash) :
    Derives (loggedRetry ring entropy config awaiting message hello hash).run
      (retry ring entropy config awaiting message hello hash) := by
  refine .check ?_
  intro share _
  refine .check ?_
  intro _ _
  refine .check ?_
  intro group _
  refine .check ?_
  intro _ _
  refine .check ?_
  intro kx _
  refine .attempt (buildClientHello_makes lawful entropy config kx _ _) ?_
  intro p _
  exact .pure _

theorem negotiate_makes (config : ClientConfig) (awaiting : Awaiting) (message : Message)
    (hello : ServerHello) (suite : CipherSuite) (aead : Aead) (hash : Hash) :
    Derives (loggedNegotiate ring config awaiting message hello suite aead hash).run
      (negotiate ring config awaiting message hello suite aead hash) := by
  refine .check ?_
  intro share _
  refine .check ?_
  intro p _
  refine .check ?_
  intro _ _
  refine .check ?_
  intro session _
  refine .check ?_
  intro secret _
  refine .call (intoHandshake_makes lawful secret) ?_
  refine .call (derive_makes lawful (by decide)) ?_
  refine .call (derive_makes lawful (by decide)) ?_
  refine .call (trafficKeys_makes aead.keyLen_lt) ?_
  refine .check ?_
  intro opener _
  exact .pure _

theorem handleServerHello_makes (entropy : Entropy) (config : ClientConfig) (awaiting : Awaiting)
    (message : Message) :
    Derives (loggedHandleServerHello ring entropy config awaiting message).run
      (handleServerHello ring entropy config awaiting message) := by
  refine .check ?_
  intro _ _
  refine .check ?_
  intro hello _
  refine .check ?_
  intro _ _
  refine .check ?_
  intro p _
  refine .check ?_
  intro _ _
  refine .check ?_
  intro _ _
  refine .check ?_
  intro _ _
  cases hello.isHelloRetryRequest with
  | true => exact retry_makes lawful entropy config awaiting message hello p.2
  | false => exact negotiate_makes lawful config awaiting message hello _ p.1 p.2

theorem finish_makes (entropy : Entropy) (config : ClientConfig) (negotiated : Negotiated)
    (message : Message) :
    Derives (loggedFinish ring entropy config negotiated message).run
      (finish ring entropy config negotiated message) := by
  have hkeys := negotiated.aead.keyLen_lt
  refine .check ?_
  intro verifyData _
  refine .call verifyFinished_makes ?_
  refine .check ?_
  intro _ _
  refine .call (intoMaster_makes lawful) ?_
  refine .call (derive_makes lawful (by decide)) ?_
  refine .call (derive_makes lawful (by decide)) ?_
  refine .check ?_
  intro authentication _
  refine .call finishedVerifyData_makes ?_
  refine .call (trafficKeys_makes hkeys) ?_
  refine .check ?_
  intro sealer _
  refine .check ?_
  intro sealed _
  refine .call (trafficKeys_makes hkeys) ?_
  refine .call (trafficKeys_makes hkeys) ?_
  refine .call (derive_makes lawful (by decide)) ?_
  refine .check ?_
  intro sealer _
  refine .check ?_
  intro opener _
  exact .pure _

theorem handleFlightMessage_makes (entropy : Entropy) (config : ClientConfig) (expect : Expect)
    (negotiated : Negotiated) (message : Message) :
    Derives (loggedHandleFlightMessage ring entropy config expect negotiated message).run
      (handleFlightMessage ring entropy config expect negotiated message) := by
  have hfinish := finish_makes lawful entropy config negotiated message
  unfold loggedHandleFlightMessage handleFlightMessage
  generalize message.typ = typ
  split
  · exact .last _
  · cases expect <;> cases typ <;> first | exact .last _ | exact hfinish

theorem handleMessage_makes (entropy : Entropy) (config : ClientConfig) (state : State)
    (message : Message) :
    Derives (loggedHandleMessage ring entropy config state message).run
      (handleMessage ring entropy config state message) := by
  cases state with
  | awaitServerHello awaiting => exact handleServerHello_makes lawful entropy config awaiting message
  | inFlight expect negotiated =>
      exact handleFlightMessage_makes lawful entropy config expect negotiated message
  | done connection => exact .last _
  | failed => exact .last _

end

end Client

/-! ### The connection -/

namespace Connection

def loggedSessionFrom (ring : Ring) (connection : Connection) (body : Bytes) :
    Deriving HandshakeError Session := do
  let (lifetime, reader) ← check (wire (Reader.mk body).u32)
  let (ageAdd, reader) ← check (wire reader.u32)
  let (nonce, reader) ← check (wire reader.vectorU8)
  let (ticket, reader) ← check (wire reader.vectorU16)
  let (_, reader) ← check (wire reader.vectorU16)
  check (wire reader.finish)
  check (refuse (ticket = []) (.empty "a NewSessionTicket's ticket"))
  let psk ← call (loggedExpandLabel ring connection.hash connection.resumptionMaster "resumption"
    nonce connection.hash.len)
  pure { ticket, lifetime, ageAdd, psk, suite := connection.suite,
         peerCertificates := connection.certificates }

def loggedRekeyReceiving (ring : Ring) (connection : Connection) :
    Logged LabelInput (Except ClientError Unit × Connection) := do
  let secret ← loggedUpdateTrafficSecret ring connection.hash connection.serverSecret
  let keys ← loggedTrafficKeys ring connection.hash secret connection.aead.keyLen
  let connection := { connection with serverSecret := secret }
  match Opener.new connection.aead keys.key keys.iv with
  | .ok opener => pure (.ok (), { connection with opener })
  | .error err => pure (.error (.record err), connection)

def loggedRekeySending (ring : Ring) (connection : Connection) :
    Logged LabelInput (Except ClientError Bytes × Connection) :=
  match connection.sealer.sealRecord ring .handshake (Message.encode .keyUpdate [0x00]) 0 with
  | (.error err, sealer) => pure (.error (.record err), { connection with sealer })
  | (.ok record, sealer) => do
      let secret ← loggedUpdateTrafficSecret ring connection.hash connection.clientSecret
      let keys ← loggedTrafficKeys ring connection.hash secret connection.aead.keyLen
      match Sealer.new connection.aead keys.key keys.iv with
      | .ok sealer => pure (.ok record, { connection with clientSecret := secret, sealer })
      | .error err =>
          pure (.error (.record err), { connection with clientSecret := secret, sealer })

def loggedKeyUpdate (ring : Ring) (connection : Connection) (body : Bytes) :
    Logged LabelInput (Except ClientError Bytes × Connection) := do
  match ← connection.loggedRekeyReceiving ring with
  | (.error err, connection) => pure (.error err, connection)
  | (.ok (), connection) =>
      if body = [0x01] then connection.loggedRekeySending ring else pure (.ok [], connection)

def loggedPostHandshakeMessage (ring : Ring) (connection : Connection) (message : Message) :
    Logged LabelInput (Except ClientError (Bytes × List Session) × Connection) :=
  match message.typ with
  | .newSessionTicket =>
      if connection.resumptionMaster = [] then
        pure (.ok ([], []), connection)
      else do
        match ← (connection.loggedSessionFrom ring message.body).run with
        | .ok session => pure (.ok ([], [session]), connection)
        | .error err => pure (.error (.handshake err), connection)
  | .keyUpdate => do
      match ← connection.loggedKeyUpdate ring message.body with
      | (.ok reply, connection) => pure (.ok (reply, []), connection)
      | (.error err, connection) => pure (.error err, connection)
  | other => pure (.error (.unexpectedMessage "a post-handshake message" other), connection)

def loggedPostHandshakeLoop (ring : Ring) : Connection → List Message →
    Logged LabelInput (Except ClientError (Bytes × List Session) × Connection)
  | connection, [] => pure (.ok ([], []), connection)
  | connection, message :: rest => do
      match ← connection.loggedPostHandshakeMessage ring message with
      | (.error err, connection) => pure (.error err, connection)
      | (.ok (reply, sessions), connection) =>
          match ← loggedPostHandshakeLoop ring connection rest with
          | (.error err, connection) => pure (.error err, connection)
          | (.ok (replies, more), connection) =>
              pure (.ok (reply ++ replies, sessions ++ more), connection)

def loggedPostHandshake (ring : Ring) (connection : Connection) (fragment : Bytes) :
    Logged LabelInput (Except ClientError Incoming × Connection) :=
  match messages (fragment.take (completePrefix fragment)) with
  | .error err => pure (.error (.handshake err), connection)
  | .ok ms => do
      match ← loggedPostHandshakeLoop ring connection ms with
      | (.error err, connection) => pure (.error err, connection)
      | (.ok (reply, sessions), connection) => pure (postHandshakeResult reply sessions, connection)

def loggedIncoming (ring : Ring) (connection : Connection) (opened : Opened) :
    Logged LabelInput (Except ClientError Incoming × Connection) :=
  match opened.typ with
  | .applicationData => pure (.ok (.application opened.fragment), connection)
  | .handshake => connection.loggedPostHandshake ring opened.fragment
  | .alert =>
      if (Alert.parse opened.fragment).map (·.description) = some .closeNotify then
        pure (.ok .closed, connection)
      else
        pure (.error (.ofAlert opened.fragment), connection)
  | other => pure (.error (.unexpectedContentType other), connection)

def loggedRead (ring : Ring) (connection : Connection) (record : Bytes) :
    Logged LabelInput (Except ClientError Incoming × Connection) :=
  if record.head? = some changeCipherSpec then
    pure (.ok .handled, connection)
  else
    match connection.opener.openRecord ring record with
    | (.error err, opener) => pure (.error (.record err), { connection with opener })
    | (.ok opened, opener) => { connection with opener }.loggedIncoming ring opened

/-- The records read on a connection one after the other, and the connection they leave. -/
def loggedReads (ring : Ring) : Connection → List Bytes → Logged LabelInput Connection
  | connection, [] => pure connection
  | connection, record :: rest => do
      let (_, next) ← connection.loggedRead ring record
      loggedReads ring next rest

section
variable (ring : Ring)

theorem sessionFrom_makes (connection : Connection) (body : Bytes) :
    Derives (connection.loggedSessionFrom ring body).run (connection.sessionFrom ring body) := by
  refine .check ?_
  intro lifetime _
  refine .check ?_
  intro ageAdd _
  refine .check ?_
  intro nonce hnonce
  -- Whatever the peer sent, the nonce was read behind one octet of length.
  have hlen : nonce.1.length < 2 ^ 8 := (Reader.vectorU8_iff.mp (mapErr_eq_ok.mp hnonce)).2
  refine .check ?_
  intro ticket _
  refine .check ?_
  intro extensions _
  refine .check ?_
  intro _ _
  refine .check ?_
  intro _ _
  exact .call (expandLabel_makes (by decide) (Nat.le_of_lt_succ hlen) connection.hash.len_lt)
    (.pure _)

theorem rekeyReceiving_makes (connection : Connection) :
    Derives (connection.loggedRekeyReceiving ring) (connection.rekeyReceiving ring) := by
  refine .bind updateTrafficSecret_makes ?_
  refine .bind (trafficKeys_makes connection.aead.keyLen_lt) ?_
  simp only [rekeyReceiving]
  generalize trafficKeys ring connection.hash
    (updateTrafficSecret ring connection.hash connection.serverSecret) connection.aead.keyLen = keys
  cases Opener.new connection.aead keys.key keys.iv with
  | ok opener => exact .pure _
  | error err => exact .pure _

theorem rekeySending_makes (connection : Connection) :
    Derives (connection.loggedRekeySending ring) (connection.rekeySending ring) := by
  unfold loggedRekeySending rekeySending
  generalize connection.sealer.sealRecord ring .handshake (Message.encode .keyUpdate [0x00]) 0 = out
  obtain ⟨result, sealer⟩ := out
  cases result with
  | error err => exact .pure _
  | ok record =>
      refine .bind updateTrafficSecret_makes ?_
      refine .bind (trafficKeys_makes connection.aead.keyLen_lt) ?_
      simp only
      generalize trafficKeys ring connection.hash
        (updateTrafficSecret ring connection.hash connection.clientSecret) connection.aead.keyLen
          = keys
      cases Sealer.new connection.aead keys.key keys.iv with
      | ok sealer => exact .pure _
      | error err => exact .pure _

theorem keyUpdate_makes (connection : Connection) (body : Bytes) :
    Derives (connection.loggedKeyUpdate ring body) (connection.keyUpdate ring body) := by
  refine .bind (rekeyReceiving_makes ring connection) ?_
  unfold keyUpdate
  generalize connection.rekeyReceiving ring = out
  obtain ⟨result, next⟩ := out
  cases result with
  | error err => exact .pure _
  | ok _ =>
      simp only
      split
      · exact rekeySending_makes ring next
      · exact .pure _

theorem postHandshakeMessage_makes (connection : Connection) (message : Message) :
    Derives (connection.loggedPostHandshakeMessage ring message)
      (connection.postHandshakeMessage ring message) := by
  unfold loggedPostHandshakeMessage postHandshakeMessage
  generalize message.typ = typ
  cases typ with
  | newSessionTicket =>
      simp only
      split
      · exact .pure _
      have hsession := sessionFrom_makes ring connection message.body
      generalize connection.sessionFrom ring message.body = result at hsession ⊢
      refine .bind hsession ?_
      cases result with
      | ok session => exact .pure _
      | error err => exact .pure _
  | keyUpdate =>
      have hupdate := keyUpdate_makes ring connection message.body
      generalize connection.keyUpdate ring message.body = out at hupdate ⊢
      refine .bind hupdate ?_
      obtain ⟨result, next⟩ := out
      cases result with
      | ok reply => exact .pure _
      | error err => exact .pure _
  | _ => exact .pure _

theorem postHandshakeLoop_makes : ∀ (ms : List Message) (connection : Connection),
    Derives (loggedPostHandshakeLoop ring connection ms) (postHandshakeLoop ring connection ms) := by
  intro ms
  induction ms with
  | nil =>
      intro connection
      exact .pure _
  | cons message rest ih =>
      intro connection
      have hmessage := postHandshakeMessage_makes ring connection message
      unfold loggedPostHandshakeLoop postHandshakeLoop
      generalize connection.postHandshakeMessage ring message = out at hmessage ⊢
      refine .bind hmessage ?_
      obtain ⟨result, next⟩ := out
      cases result with
      | error err => exact .pure _
      | ok answered =>
          have hrest := ih next
          simp only
          generalize postHandshakeLoop ring next rest = out at hrest ⊢
          refine .bind hrest ?_
          obtain ⟨result, last⟩ := out
          cases result with
          | error err => exact .pure _
          | ok more => exact .pure _

theorem postHandshake_makes (connection : Connection) (fragment : Bytes) :
    Derives (connection.loggedPostHandshake ring fragment)
      (connection.postHandshake ring fragment) := by
  unfold loggedPostHandshake postHandshake
  generalize messages (fragment.take (completePrefix fragment)) = parsed
  cases parsed with
  | error err => exact .pure _
  | ok ms =>
      have hloop := postHandshakeLoop_makes ring ms connection
      simp only
      generalize postHandshakeLoop ring connection ms = out at hloop ⊢
      refine .bind hloop ?_
      obtain ⟨result, next⟩ := out
      cases result with
      | error err => exact .pure _
      | ok answered => exact .pure _

theorem incoming_makes (connection : Connection) (opened : Opened) :
    Derives (connection.loggedIncoming ring opened) (connection.incoming ring opened) := by
  have hpost := postHandshake_makes ring connection opened.fragment
  unfold loggedIncoming incoming
  generalize opened.typ = typ
  cases typ with
  | handshake => exact hpost
  | alert =>
      simp only
      split
      · exact .pure _
      · exact .pure _
  | _ => exact .pure _

theorem read_makes (connection : Connection) (record : Bytes) :
    Derives (connection.loggedRead ring record) (connection.read ring record) := by
  unfold loggedRead read
  split
  · exact .pure _
  generalize connection.opener.openRecord ring record = out
  obtain ⟨result, opener⟩ := out
  cases result with
  | error err => exact .pure _
  | ok opened => exact incoming_makes ring _ opened

/-- Reads one after the other. -/
theorem reads_makes : ∀ (records : List Bytes) (connection : Connection),
    Derives (loggedReads ring connection records)
      (records.foldl (fun connection record => (connection.read ring record).2) connection) := by
  intro records
  induction records with
  | nil =>
      intro connection
      exact .pure _
  | cons record rest ih =>
      intro connection
      exact .bind (read_makes ring connection record) (ih _)

end

end Connection

end RustyTls
