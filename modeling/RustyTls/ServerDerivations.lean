import RustyTls.Server
import RustyTls.Derivations

/-!
# RustyTls.ServerDerivations

The calls of `expand_label` of a server's handshake: the binder of a ticket it accepts, the keys of
its flight, and the secrets of the tickets it issues, whose nonces are its own and have 32 octets
(`issueTicket_makes`).
-/

namespace RustyTls.Server

open Core Core.Logged

def loggedSelectPsk (ring : Ring) (config : ServerConfig) (tickets : Tickets) (suite : CipherSuite)
    (hash : Hash) (covered : Bytes) (binders : List Bytes) :
    Nat → List PskIdentity → Deriving ServerError (Option AcceptedPsk)
  | _, [] => pure none
  | index, offered :: rest =>
      match TicketContents.openContents ring offered.identity tickets.keys with
      | none => loggedSelectPsk ring config tickets suite hash covered binders (index + 1) rest
      | some (.error err) => check (.error (.ticket err))
      | some (.ok contents) =>
          if usable ring config tickets suite offered contents then do
            let binder ← check (okOr binders[index]? (ServerError.panicked "index out of bounds"))
            let verified ← call (loggedVerifyPskBinder ring hash contents.psk covered binder)
            check (refuse (verified = false) .badBinder)
            pure (some ⟨UInt16.ofNat index, contents.psk, contents.clientCertificates⟩)
          else
            loggedSelectPsk ring config tickets suite hash covered binders (index + 1) rest

def loggedTakeOffer (ring : Ring) (config : ServerConfig) (tickets : Tickets)
    (data encodedHello transcriptPrefix : Bytes) (suite : CipherSuite) (hash : Hash) :
    Deriving ServerError (Option AcceptedPsk) := do
  let offer ← check (mapErr .handshake (PresharedKeyOffer.parse data))
  let truncated ← check (mapErr .handshake (offer.truncated encodedHello))
  let covered := hash.hash ring (transcriptPrefix ++ truncated)
  loggedSelectPsk ring config tickets suite hash covered offer.binders 0 offer.identities

def loggedAcceptPsk (ring : Ring) (config : ServerConfig) (hello : ClientHello)
    (encodedHello transcriptPrefix : Bytes) (suite : CipherSuite) (hash : Hash) :
    Deriving ServerError (Option AcceptedPsk) := do
  check (refuse ((find hello.extensions ExtensionType.earlyData).isSome = true) .earlyDataOffered)
  match find hello.extensions ExtensionType.preSharedKey with
  | none => pure none
  | some data =>
      check (refuse (hello.extensions.getLast?.map (·.typ) ≠ some ExtensionType.preSharedKey)
        .pskOfferNotLast)
      match config.tickets with
      | none => pure none
      | some tickets =>
          if offersDhe hello then
            loggedTakeOffer ring config tickets data encodedHello transcriptPrefix suite hash
          else
            pure none

def loggedComplete (ring : Ring) (entropy : Entropy) (config : ServerConfig)
    (transcriptHead : Bytes) (hello : ClientHello) (selected : Selected)
    (sendChangeCipherSpec : Bool) : Deriving ServerError (Bytes × State) := do
  let hash := selected.hash
  let kx ← check (mapErr .kx (KeyExchange.generate ring entropy selected.group))
  let random ← check (randomBytes entropy 0 32)
  let serverHello := Message.encode .serverHello
    (ServerHello.encode ⟨random, hello.sessionId, selected.suite.code,
      helloExtensions kx selected.psk⟩)
  let transcript := ((Transcript.new hash).add transcriptHead).add serverHello
  let helloHash := transcript.hash ring
  let secret ← check (mapErr .kx (kx.agree ring selected.peerKey))
  let schedule ← call ((earlySchedule ring hash selected.psk).loggedIntoHandshake ring secret)
  let clientHandshakeSecret ← call (schedule.loggedDerive ring "c hs traffic" helloHash)
  let serverHandshakeSecret ← call (schedule.loggedDerive ring "s hs traffic" helloHash)
  let serverKeys ← call (loggedTrafficKeys ring hash serverHandshakeSecret selected.aead.keyLen)
  let sealer ← check (mapErr .record (Sealer.new selected.aead serverKeys.key serverKeys.iv))
  let asks := asksForCertificate config selected.psk
  let opening := encryptedExtensions ++ (if asks then certificateRequest else [])
  let authentication ← check (serverAuthentication ring entropy config selected.scheme selected.psk
    (transcript.add opening))
  let transcript := (transcript.add opening).add authentication
  let verifyData ← call (loggedFinishedVerifyData ring hash serverHandshakeSecret
    (transcript.hash ring))
  let finished := Message.encode .finished verifyData
  let transcript := transcript.add finished
  let afterServerFinished := transcript.hash ring
  let master ← call (schedule.loggedIntoMaster ring)
  let clientApplicationSecret ← call (master.loggedDerive ring "c ap traffic" afterServerFinished)
  let serverApplicationSecret ← call (master.loggedDerive ring "s ap traffic" afterServerFinished)
  let clientKeys ← call (loggedTrafficKeys ring hash clientHandshakeSecret selected.aead.keyLen)
  let opener ← check (mapErr .record (Opener.new selected.aead clientKeys.key clientKeys.iv))
  let flight ← check (mapErr .record
    (sealer.sealRecord ring .handshake (opening ++ authentication ++ finished) 0).1)
  pure (plaintextRecord .handshake serverHello ++
      (if sendChangeCipherSpec then plaintextRecord .changeCipherSpec [0x01] else []) ++ flight,
    .awaitFinished
      { aead := selected.aead, hash, suite := selected.suite, transcript, clientHandshakeSecret
        opener, master, clientApplicationSecret, serverApplicationSecret
        expect := if asks then .certificate else .finished
        clientCertificates := (selected.psk.map (·.clientCertificates)).getD []
        clientCertificateTranscript := [] })

def loggedHandleHello (ring : Ring) (entropy : Entropy) (config : ServerConfig) (message : Message) :
    Deriving ServerError (Bytes × State) := do
  check (refuse (message.typ ≠ .clientHello) (.unexpectedMessage "ClientHello" message.typ))
  let hello ← check (mapErr .handshake (ClientHello.parse message.body))
  check (checkVersion hello)
  let suite ← check (okOr
    (config.cipherSuites.find? fun suite => hello.cipherSuites.contains suite.code)
    ServerError.noSharedCipherSuite)
  let (aead, hash) ← check (okOr suite.parts ServerError.noSharedCipherSuite)
  let scheme ← check (selectScheme config hello)
  let shares ← check (offeredShares hello)
  match chooseShare config shares with
  | none => check (retry ring config message hello suite aead hash)
  | some (group, peerKey) => do
      let psk ← loggedAcceptPsk ring config hello message.encoded [] suite hash
      loggedComplete ring entropy config message.encoded hello
        { suite, aead, hash, scheme, group, peerKey, psk } true

def loggedRetriedHello (ring : Ring) (entropy : Entropy) (config : ServerConfig)
    (retrying : Retrying) (message : Message) : Deriving ServerError (Bytes × State) := do
  check (refuse (message.typ ≠ .clientHello) (.unexpectedMessage "ClientHello" message.typ))
  let hello ← check (mapErr .handshake (ClientHello.parse message.body))
  check (refuse (hello.random ≠ retrying.random ∨ hello.sessionId ≠ retrying.sessionId)
    .retriedHelloChangedIdentity)
  check (checkVersion hello)
  check (refuse (retrying.suite.code ∉ hello.cipherSuites) .retriedHelloChangedIdentity)
  let scheme ← check (selectScheme config hello)
  let shares ← check (okOr (find hello.extensions ExtensionType.keyShare)
    (ServerError.retriedHelloStillHasNoShare retrying.group))
  let shares ← check (mapErr .handshake (clientKeyShares shares))
  let peerKey ← check (okOr (shareFor shares retrying.group)
    (ServerError.retriedHelloStillHasNoShare retrying.group))
  let psk ← loggedAcceptPsk ring config hello message.encoded retrying.transcriptHead
    retrying.suite retrying.hash
  loggedComplete ring entropy config (retrying.transcriptHead ++ message.encoded) hello
    { suite := retrying.suite, aead := retrying.aead, hash := retrying.hash, scheme
      group := retrying.group, peerKey, psk } false

def loggedIssueTicket (ring : Ring) (entropy : Entropy) (config : ServerConfig) (tickets : Tickets)
    (negotiated : Negotiated) (resumptionMaster : Bytes) (k : Nat) : Deriving ServerError Bytes := do
  let nonce ← check (randomBytes entropy (3 * k + 1) 32)
  let psk ← call (loggedExpandLabel ring negotiated.hash resumptionMaster "resumption" nonce
    negotiated.hash.len)
  let ageAdd ← check (randomBytes entropy (3 * k + 2) 4)
  let ageAdd := UInt32.ofNat (beNat ageAdd)
  let contents := ticketContents ring config tickets negotiated ageAdd psk
  let sealed ← check (mapErr .ticket
    (contents.sealContents ring tickets.keys.current (entropy.fill (3 * k + 3) nonceLen)))
  let w := (Writer.new.u32 tickets.lifetime).u32 ageAdd
  let w := (w.vectorU8 (.bytes nonce)).vectorU16 (.bytes sealed)
  pure (Message.encode .newSessionTicket (w.vectorU16 (fun w => w)).intoVec)

def loggedIssueLoop (ring : Ring) (entropy : Entropy) (config : ServerConfig) (tickets : Tickets)
    (negotiated : Negotiated) (resumptionMaster : Bytes) :
    (remaining k : Nat) → Deriving ServerError Bytes
  | 0, _ => pure []
  | remaining + 1, k => do
      let message ← loggedIssueTicket ring entropy config tickets negotiated resumptionMaster k
      let rest ← loggedIssueLoop ring entropy config tickets negotiated resumptionMaster remaining
        (k + 1)
      pure (message ++ rest)

def loggedIssueTickets (ring : Ring) (entropy : Entropy) (config : ServerConfig)
    (negotiated : Negotiated) (sealer : Sealer) : Deriving ServerError (Bytes × Sealer) :=
  match config.tickets with
  | none => pure ([], sealer)
  | some tickets =>
      if tickets.count = 0 then
        pure ([], sealer)
      else do
        let resumptionMaster ← call (negotiated.master.loggedDerive ring "res master"
          (negotiated.transcript.hash ring))
        let flight ← loggedIssueLoop ring entropy config tickets negotiated resumptionMaster
          tickets.count 0
        let (result, sealer) := sealer.sealRecord ring .handshake flight 0
        let record ← check (mapErr .record result)
        pure (record, sealer)

def loggedHandleFinished (ring : Ring) (entropy : Entropy) (config : ServerConfig)
    (negotiated : Negotiated) (message : Message) : Deriving ServerError (Bytes × State) := do
  let verifyData ← check (mapErr .handshake (parseFinished message.body))
  let verified ← call (loggedVerifyFinished ring negotiated.hash negotiated.clientHandshakeSecret
    (negotiated.transcript.hash ring) verifyData)
  check (refuse (verified = false) .badFinished)
  let clientKeys ← call (loggedTrafficKeys ring negotiated.hash negotiated.clientApplicationSecret
    negotiated.aead.keyLen)
  let serverKeys ← call (loggedTrafficKeys ring negotiated.hash negotiated.serverApplicationSecret
    negotiated.aead.keyLen)
  let sealer ← check (mapErr .record (Sealer.new negotiated.aead serverKeys.key serverKeys.iv))
  let negotiated := { negotiated with transcript := negotiated.transcript.addMessage message }
  let (out, sealer) ← loggedIssueTickets ring entropy config negotiated sealer
  let opener ← check (mapErr .record (Opener.new negotiated.aead clientKeys.key clientKeys.iv))
  pure (out, .done (Connection.fromParts negotiated.aead negotiated.hash negotiated.suite sealer
    opener negotiated.serverApplicationSecret negotiated.clientApplicationSecret
    negotiated.clientCertificates))

def loggedClientFlight (ring : Ring) (entropy : Entropy) (config : ServerConfig)
    (negotiated : Negotiated) (message : Message) : Deriving ServerError (Bytes × State) :=
  match negotiated.expect, message.typ with
  | .certificate, .certificate => check (handleCertificate ring config negotiated message)
  | .certificateVerify, .certificateVerify =>
      check (handleCertificateVerify ring negotiated message)
  | .finished, .finished => loggedHandleFinished ring entropy config negotiated message
  | .finishedAfterEmptyCertificate, .finished =>
      loggedHandleFinished ring entropy config negotiated message
  | expected, got => check (.error (.unexpectedMessage expected.name got))

def loggedHandle (ring : Ring) (entropy : Entropy) (config : ServerConfig) (state : State)
    (message : Message) : Deriving ServerError (Bytes × State) :=
  match state with
  | .awaitClientHello => loggedHandleHello ring entropy config message
  | .awaitRetriedClientHello retrying => loggedRetriedHello ring entropy config retrying message
  | .awaitFinished negotiated => loggedClientFlight ring entropy config negotiated message
  | .done _ | .failed => check (.error .failed)

section
variable {ring : Ring} (lawful : ring.Lawful)
include lawful

theorem selectPsk_makes (config : ServerConfig) (tickets : Tickets) (suite : CipherSuite)
    (hash : Hash) (covered : Bytes) (binders : List Bytes) :
    ∀ (identities : List PskIdentity) (index : Nat),
      Derives (loggedSelectPsk ring config tickets suite hash covered binders index identities).run
        (selectPsk ring config tickets suite hash covered binders index identities) := by
  intro identities
  induction identities with
  | nil =>
      intro index
      exact .pure _
  | cons offered rest ih =>
      intro index
      unfold loggedSelectPsk selectPsk
      generalize TicketContents.openContents ring offered.identity tickets.keys = opened
      cases opened with
      | none => exact ih _
      | some decoded =>
          cases decoded with
          | error err => exact .last _
          | ok contents =>
              simp only
              split
              · refine .check ?_
                intro binder _
                refine .call (verifyPskBinder_makes lawful) ?_
                refine .check ?_
                intro _ _
                exact .pure _
              · exact ih _

theorem takeOffer_makes (config : ServerConfig) (tickets : Tickets)
    (data encodedHello transcriptPrefix : Bytes) (suite : CipherSuite) (hash : Hash) :
    Derives
      (loggedTakeOffer ring config tickets data encodedHello transcriptPrefix suite hash).run
      (takeOffer ring config tickets data encodedHello transcriptPrefix suite hash) := by
  refine .check ?_
  intro offer _
  refine .check ?_
  intro truncated _
  exact selectPsk_makes lawful config tickets suite hash _ _ _ _

theorem acceptPsk_makes (config : ServerConfig) (hello : ClientHello)
    (encodedHello transcriptPrefix : Bytes) (suite : CipherSuite) (hash : Hash) :
    Derives (loggedAcceptPsk ring config hello encodedHello transcriptPrefix suite hash).run
      (acceptPsk ring config hello encodedHello transcriptPrefix suite hash) := by
  refine .check ?_
  intro _ _
  generalize find hello.extensions ExtensionType.preSharedKey = offer
  cases offer with
  | none => exact .pure _
  | some data =>
      refine .check ?_
      intro _ _
      cases config.tickets with
      | none => exact .pure _
      | some tickets =>
          simp only
          split
          · exact takeOffer_makes lawful config tickets data encodedHello transcriptPrefix suite hash
          · exact .pure _

theorem complete_makes (entropy : Entropy) (config : ServerConfig) (transcriptHead : Bytes)
    (hello : ClientHello) (selected : Selected) (sendChangeCipherSpec : Bool) :
    Derives
      (loggedComplete ring entropy config transcriptHead hello selected sendChangeCipherSpec).run
      (complete ring entropy config transcriptHead hello selected sendChangeCipherSpec) := by
  have hkeys := selected.aead.keyLen_lt
  refine .check ?_
  intro kx _
  refine .check ?_
  intro random _
  refine .check ?_
  intro secret _
  refine .call (intoHandshake_makes lawful secret) ?_
  refine .call (derive_makes lawful (by decide)) ?_
  refine .call (derive_makes lawful (by decide)) ?_
  refine .call (trafficKeys_makes hkeys) ?_
  refine .check ?_
  intro sealer _
  refine .check ?_
  intro authentication _
  refine .call finishedVerifyData_makes ?_
  refine .call (intoMaster_makes lawful) ?_
  refine .call (derive_makes lawful (by decide)) ?_
  refine .call (derive_makes lawful (by decide)) ?_
  refine .call (trafficKeys_makes hkeys) ?_
  refine .check ?_
  intro opener _
  refine .check ?_
  intro flight _
  exact .pure _

theorem handleHello_makes (entropy : Entropy) (config : ServerConfig) (message : Message) :
    Derives (loggedHandleHello ring entropy config message).run
      (handleHello ring entropy config message) := by
  refine .check ?_
  intro _ _
  refine .check ?_
  intro hello _
  refine .check ?_
  intro _ _
  refine .check ?_
  intro suite _
  refine .check ?_
  intro p _
  refine .check ?_
  intro scheme _
  refine .check ?_
  intro shares _
  generalize chooseShare config shares = choice
  cases choice with
  | none => exact .last _
  | some chosen =>
      refine .attempt (acceptPsk_makes lawful config hello message.encoded [] suite p.2) ?_
      intro psk _
      exact complete_makes lawful entropy config _ hello _ true

theorem retriedHello_makes (entropy : Entropy) (config : ServerConfig) (retrying : Retrying)
    (message : Message) :
    Derives (loggedRetriedHello ring entropy config retrying message).run
      (retriedHello ring entropy config retrying message) := by
  refine .check ?_
  intro _ _
  refine .check ?_
  intro hello _
  refine .check ?_
  intro _ _
  refine .check ?_
  intro _ _
  refine .check ?_
  intro _ _
  refine .check ?_
  intro scheme _
  refine .check ?_
  intro data _
  refine .check ?_
  intro shares _
  refine .check ?_
  intro peerKey _
  refine .attempt (acceptPsk_makes lawful config hello message.encoded retrying.transcriptHead
    retrying.suite retrying.hash) ?_
  intro psk _
  exact complete_makes lawful entropy config _ hello _ false

omit lawful in
theorem issueTicket_makes (entropy : Entropy) (config : ServerConfig) (tickets : Tickets)
    (negotiated : Negotiated) (resumptionMaster : Bytes) (k : Nat) :
    Derives (loggedIssueTicket ring entropy config tickets negotiated resumptionMaster k).run
      (issueTicket ring entropy config tickets negotiated resumptionMaster k) := by
  refine .check ?_
  intro nonce hnonce
  -- The nonce fills the buffer it was drawn into.
  have hlen : nonce.length = 32 := entropy.fill_length _ _ _ (okOr_eq_ok.mp hnonce)
  refine .call (expandLabel_makes (by decide) (by rw [hlen]; decide) negotiated.hash.len_lt) ?_
  refine .check ?_
  intro ageAdd _
  refine .check ?_
  intro sealed _
  exact .pure _

omit lawful in
theorem issueLoop_makes (entropy : Entropy) (config : ServerConfig) (tickets : Tickets)
    (negotiated : Negotiated) (resumptionMaster : Bytes) : ∀ remaining k : Nat,
    Derives (loggedIssueLoop ring entropy config tickets negotiated resumptionMaster remaining k).run
      (issueLoop ring entropy config tickets negotiated resumptionMaster remaining k) := by
  intro remaining
  induction remaining with
  | zero =>
      intro k
      exact .pure _
  | succ remaining ih =>
      intro k
      refine .attempt (issueTicket_makes entropy config tickets negotiated resumptionMaster k) ?_
      intro message _
      refine .attempt (ih (k + 1)) ?_
      intro rest _
      exact .pure _

theorem issueTickets_makes (entropy : Entropy) (config : ServerConfig) (negotiated : Negotiated)
    (sealer : Sealer) : Derives (loggedIssueTickets ring entropy config negotiated sealer).run
      (issueTickets ring entropy config negotiated sealer) := by
  unfold loggedIssueTickets issueTickets
  generalize config.tickets = configured
  cases configured with
  | none => exact .pure _
  | some tickets =>
      simp only
      split
      · exact .pure _
      refine .call (derive_makes lawful (by decide)) ?_
      refine .attempt (issueLoop_makes entropy config tickets negotiated _ tickets.count 0) ?_
      intro flight _
      refine .check ?_
      intro record _
      exact .pure _

theorem handleFinished_makes (entropy : Entropy) (config : ServerConfig) (negotiated : Negotiated)
    (message : Message) :
    Derives (loggedHandleFinished ring entropy config negotiated message).run
      (handleFinished ring entropy config negotiated message) := by
  have hkeys := negotiated.aead.keyLen_lt
  refine .check ?_
  intro verifyData _
  refine .call verifyFinished_makes ?_
  refine .check ?_
  intro _ _
  refine .call (trafficKeys_makes hkeys) ?_
  refine .call (trafficKeys_makes hkeys) ?_
  refine .check ?_
  intro sealer _
  refine .attempt (issueTickets_makes lawful entropy config _ sealer) ?_
  intro p _
  refine .check ?_
  intro opener _
  exact .pure _

theorem clientFlight_makes (entropy : Entropy) (config : ServerConfig) (negotiated : Negotiated)
    (message : Message) :
    Derives (loggedClientFlight ring entropy config negotiated message).run
      (clientFlight ring entropy config negotiated message) := by
  have hfinished := handleFinished_makes lawful entropy config negotiated message
  unfold loggedClientFlight clientFlight
  generalize negotiated.expect = expect
  generalize message.typ = typ
  cases expect <;> cases typ <;> first | exact .last _ | exact hfinished

theorem handle_makes (entropy : Entropy) (config : ServerConfig) (state : State)
    (message : Message) :
    Derives (loggedHandle ring entropy config state message).run
      (handle ring entropy config state message) := by
  cases state with
  | awaitClientHello => exact handleHello_makes lawful entropy config message
  | awaitRetriedClientHello retrying =>
      exact retriedHello_makes lawful entropy config retrying message
  | awaitFinished negotiated => exact clientFlight_makes lawful entropy config negotiated message
  | done connection => exact .last _
  | failed => exact .last _

end

end RustyTls.Server
