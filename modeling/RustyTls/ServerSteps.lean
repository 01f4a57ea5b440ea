import RustyTls.Psk

/-!
# RustyTls.ServerSteps

What each step of the server's handshake can do: one lemma per handler, guards included. The
server's flight is put together from four things that are not determined by the hello, a
`FlightDraw`; everything else in it is a function of these (`complete_inv`).
-/

namespace RustyTls.Server

open Core

variable {ring : Ring} {entropy : Entropy} {config : ServerConfig} {message : Message}
  {negotiated : Negotiated} {reply : Bytes} {next : State}

/-! ### The server's flight -/

/-- What a server's flight is made from, beside the hello it answers. -/
structure FlightDraw where
  kx : KeyExchange
  random : Bytes
  sharedSecret : Bytes
  /-- Certificate and CertificateVerify, or nothing when resumed. -/
  authentication : Bytes

namespace FlightDraw

variable (ring : Ring) (config : ServerConfig) (head : Bytes) (hello : ClientHello)
  (selected : Selected) (draw : FlightDraw)

/-- The ServerHello message. -/
def serverHello : Bytes :=
  Message.encode .serverHello (ServerHello.encode
    ⟨draw.random, hello.sessionId, selected.suite.code, helloExtensions draw.kx selected.psk⟩)

/-- The transcript through the ServerHello. -/
def hellos : Bytes := head ++ draw.serverHello hello selected

/-- The handshake's key schedule, seeded from the PSK if one was accepted. -/
def schedule : KeySchedule :=
  (earlySchedule ring selected.hash selected.psk).intoHandshake ring draw.sharedSecret

/-- The client handshake traffic secret. -/
def clientSecret : Bytes :=
  (draw.schedule ring selected).derive ring "c hs traffic"
    (selected.hash.hash ring (draw.hellos head hello selected))

/-- The server handshake traffic secret. -/
def serverSecret : Bytes :=
  (draw.schedule ring selected).derive ring "s hs traffic"
    (selected.hash.hash ring (draw.hellos head hello selected))

/-- What the encrypted flight opens with. -/
def opening : Bytes :=
  encryptedExtensions ++ (if asksForCertificate config selected.psk then certificateRequest else [])

/-- The transcript up to the server's Finished. -/
def covered : Bytes :=
  draw.hellos head hello selected ++ opening config selected ++ draw.authentication

/-- The server's Finished. -/
def finished : Bytes :=
  Message.encode .finished (finishedVerifyData ring selected.hash
    (draw.serverSecret ring head hello selected)
    (selected.hash.hash ring (draw.covered config head hello selected)))

/-- The transcript through the server's Finished: everything before the client's flight. -/
def sent : Bytes :=
  draw.covered config head hello selected ++ draw.finished ring config head hello selected

/-- The encrypted flight. -/
def flight : Bytes :=
  opening config selected ++ draw.authentication ++ draw.finished ring config head hello selected

end FlightDraw

/-- The keys and the expectations a flight leaves behind. -/
structure Completed (ring : Ring) (entropy : Entropy) (config : ServerConfig) (head : Bytes)
    (hello : ClientHello) (selected : Selected) (draw : FlightDraw) (negotiated : Negotiated) :
    Prop where
  kx : KeyExchange.generate ring entropy selected.group = .ok draw.kx
  random : entropy.fill 0 32 = some draw.random
  agreed : draw.kx.agree ring selected.peerKey = .ok draw.sharedSecret
  authentication : serverAuthentication ring entropy config selected.scheme selected.psk
    ⟨selected.hash, draw.hellos head hello selected ++ FlightDraw.opening config selected⟩
      = .ok draw.authentication
  aead : negotiated.aead = selected.aead
  hash : negotiated.hash = selected.hash
  suite : negotiated.suite = selected.suite
  transcript : negotiated.transcript
    = ⟨selected.hash, draw.sent ring config head hello selected⟩
  clientSecret : negotiated.clientHandshakeSecret = draw.clientSecret ring head hello selected
  master : negotiated.master = (draw.schedule ring selected).intoMaster ring
  clientApplication : negotiated.clientApplicationSecret
    = negotiated.master.derive ring "c ap traffic"
        (selected.hash.hash ring (draw.sent ring config head hello selected))
  serverApplication : negotiated.serverApplicationSecret
    = negotiated.master.derive ring "s ap traffic"
        (selected.hash.hash ring (draw.sent ring config head hello selected))
  opener : Opener.new selected.aead
    (trafficKeys ring selected.hash (draw.clientSecret ring head hello selected)
      selected.aead.keyLen).key
    (trafficKeys ring selected.hash (draw.clientSecret ring head hello selected)
      selected.aead.keyLen).iv = .ok negotiated.opener
  expect : negotiated.expect
    = if asksForCertificate config selected.psk then .certificate else .finished
  certificates : negotiated.clientCertificates
    = (selected.psk.map (·.clientCertificates)).getD []

/-- A completed hello has sent the flight, sealed under the server's handshake key. -/
theorem complete_inv {head : Bytes} {hello : ClientHello} {selected : Selected} {ccs : Bool}
    (h : complete ring entropy config head hello selected ccs = .ok (reply, next)) :
    ∃ draw negotiated sealer record,
      Completed ring entropy config head hello selected draw negotiated ∧
      Sealer.new selected.aead
        (trafficKeys ring selected.hash (draw.serverSecret ring head hello selected)
          selected.aead.keyLen).key
        (trafficKeys ring selected.hash (draw.serverSecret ring head hello selected)
          selected.aead.keyLen).iv = .ok sealer ∧
      (sealer.sealRecord ring .handshake (draw.flight ring config head hello selected) 0).1
        = .ok record ∧
      reply = plaintextRecord .handshake (draw.serverHello hello selected) ++
        (if ccs then plaintextRecord .changeCipherSpec [0x01] else []) ++ record ∧
      next = .awaitFinished negotiated := by
  simp only [complete, randomBytes, bind_eq_ok, okOr_eq_ok, mapErr_eq_ok] at h
  obtain ⟨kx, hkx, random, hrandom, secret, hsecret, sealer, hsealer, authentication, hauth, opener,
    hopener, record, hrecord, heq⟩ := h
  obtain ⟨hreply, hnext⟩ := Prod.mk.inj (Except.ok.inj heq)
  refine ⟨⟨kx, random, secret, authentication⟩, _, sealer, record, ?_, hsealer, ?_, hreply.symm,
    hnext.symm⟩
  · exact ⟨hkx, hrandom, hsecret, hauth, rfl, rfl, rfl, rfl, rfl, rfl, rfl, rfl, hopener, rfl, rfl⟩
  · exact hrecord

/-! ### Hellos -/

theorem retry_inv {hello : ClientHello} {suite : CipherSuite} {aead : Aead} {hash : Hash}
    (h : retry ring config message hello suite aead hash = .ok (reply, next)) :
    ∃ offered groups group,
      find hello.extensions ExtensionType.supportedGroups = some offered ∧
      clientSupportedGroups offered = .ok groups ∧
      config.groups.find? (fun group => groups.contains group.asU16) = some group ∧
      next = .awaitRetriedClientHello
        { group, suite, aead, hash, random := hello.random, sessionId := hello.sessionId
          transcriptHead := messageHash ring hash message.encoded ++ Message.encode .serverHello
            (ServerHello.encode ⟨helloRetryRequestRandom, hello.sessionId, suite.code,
              [⟨ExtensionType.keyShare, (Writer.new.u16 group.asU16).intoVec⟩,
                ⟨ExtensionType.supportedVersions, [0x03, 0x04]⟩]⟩) } := by
  simp only [retry, bind_eq_ok, okOr_eq_ok, mapErr_eq_ok] at h
  obtain ⟨offered, hoffered, groups, hgroups, group, hgroup, heq⟩ := h
  obtain ⟨-, hnext⟩ := Prod.mk.inj (Except.ok.inj heq)
  exact ⟨offered, groups, group, hoffered, hgroups, hgroup, hnext.symm⟩

theorem handleHello_inv (h : handleHello ring entropy config message = .ok (reply, next)) :
    ∃ hello suite aead hash scheme shares,
      message.typ = .clientHello ∧ ClientHello.parse message.body = .ok hello ∧
      checkVersion hello = .ok () ∧
      config.cipherSuites.find? (fun suite => hello.cipherSuites.contains suite.code) = some suite ∧
      suite.parts = some (aead, hash) ∧ selectScheme config hello = .ok scheme ∧
      offeredShares hello = .ok shares ∧
      ((chooseShare config shares = none ∧
          retry ring config message hello suite aead hash = .ok (reply, next)) ∨
        ∃ group peerKey psk, chooseShare config shares = some (group, peerKey) ∧
          acceptPsk ring config hello message.encoded [] suite hash = .ok psk ∧
          complete ring entropy config message.encoded hello
            ⟨suite, aead, hash, scheme, group, peerKey, psk⟩ true = .ok (reply, next)) := by
  simp only [handleHello, bind_eq_ok, okOr_eq_ok, mapErr_eq_ok, refuse_eq_ok] at h
  obtain ⟨_, htyp, hello, hparse, _, hversion, suite, hsuite, ⟨aead, hash⟩, hparts, scheme, hscheme,
    shares, hshares, h⟩ := h
  refine ⟨hello, suite, aead, hash, scheme, shares, not_not.mp htyp, hparse, hversion, hsuite, hparts,
    hscheme, hshares, ?_⟩
  split at h
  · next hnone => exact .inl ⟨hnone, h⟩
  · next group peerKey hchosen =>
      rw [bind_eq_ok] at h
      obtain ⟨psk, hpsk, h⟩ := h
      exact .inr ⟨group, peerKey, psk, hchosen, hpsk, h⟩

theorem retriedHello_inv {retrying : Retrying}
    (h : retriedHello ring entropy config retrying message = .ok (reply, next)) :
    ∃ hello scheme data shares peerKey psk,
      message.typ = .clientHello ∧ ClientHello.parse message.body = .ok hello ∧
      hello.random = retrying.random ∧ hello.sessionId = retrying.sessionId ∧
      checkVersion hello = .ok () ∧ retrying.suite.code ∈ hello.cipherSuites ∧
      selectScheme config hello = .ok scheme ∧
      find hello.extensions ExtensionType.keyShare = some data ∧
      clientKeyShares data = .ok shares ∧ shareFor shares retrying.group = some peerKey ∧
      acceptPsk ring config hello message.encoded retrying.transcriptHead retrying.suite
        retrying.hash = .ok psk ∧
      complete ring entropy config (retrying.transcriptHead ++ message.encoded) hello
        ⟨retrying.suite, retrying.aead, retrying.hash, scheme, retrying.group, peerKey, psk⟩ false
          = .ok (reply, next) := by
  simp only [retriedHello, bind_eq_ok, okOr_eq_ok, mapErr_eq_ok, refuse_eq_ok, not_or, not_not] at h
  obtain ⟨_, htyp, hello, hparse, _, ⟨hrandom, hid⟩, _, hversion, _, hsuite, scheme, hscheme, data,
    hdata, shares, hshares, peerKey, hpeer, psk, hpsk, h⟩ := h
  exact ⟨hello, scheme, data, shares, peerKey, psk, htyp, hparse, hrandom, hid, hversion, hsuite,
    hscheme, hdata, hshares, hpeer, hpsk, h⟩

/-! ### The client's flight -/

theorem handleCertificate_inv (h : handleCertificate ring config negotiated message
    = .ok (reply, next)) :
    ∃ certificate auth, CertificateMessage.parse message.body = .ok certificate ∧
      config.clientAuth = some auth ∧
      ((certificate.entries = [] ∧ auth.required = false ∧ next = .awaitFinished { negotiated with
          transcript := negotiated.transcript.addMessage message
          expect := .finishedAfterEmptyCertificate }) ∨
        (certificate.entries ≠ [] ∧ ∃ leaf rest path,
          collect ((certificate.entries.map (·.certificate)).map Certificate.parse)
            = .ok (leaf :: rest) ∧
          validatePath ring leaf rest auth.anchors auth.path = .ok path ∧
          next = .awaitFinished { negotiated with
            transcript := negotiated.transcript.addMessage message
            clientCertificateTranscript := (negotiated.transcript.addMessage message).hash ring
            clientCertificates := certificate.entries.map (·.certificate)
            expect := .certificateVerify })) := by
  simp only [handleCertificate, bind_eq_ok, okOr_eq_ok, mapErr_eq_ok] at h
  obtain ⟨certificate, hparse, auth, hauth, h⟩ := h
  refine ⟨certificate, auth, hparse, hauth, ?_⟩
  split at h
  · next hempty =>
      simp only [emptyCertificate, bind_eq_ok, refuse_eq_ok] at h
      obtain ⟨_, hrequired, heq⟩ := h
      obtain ⟨-, hnext⟩ := Prod.mk.inj (Except.ok.inj heq)
      exact .inl ⟨hempty, by simpa using hrequired, hnext.symm⟩
  · next hne =>
      simp only [certificateChain, bind_eq_ok, okOr_eq_ok, mapErr_eq_ok] at h
      obtain ⟨parsed, hparsed, leaf, hleaf, path, hpath, heq⟩ := h
      obtain ⟨-, hnext⟩ := Prod.mk.inj (Except.ok.inj heq)
      cases parsed with
      | nil => simp at hleaf
      | cons first rest =>
          obtain rfl : first = leaf := by simpa using hleaf
          exact .inr ⟨hne, first, rest, path, hparsed, hpath, hnext.symm⟩

theorem handleCertificateVerify_inv (h : handleCertificateVerify ring negotiated message
    = .ok (reply, next)) :
    ∃ verify der leaf, CertificateVerify.parse message.body = .ok verify ∧
      negotiated.clientCertificates.head? = some der ∧ Certificate.parse der = .ok leaf ∧
      verifyTls13Signature ring ⟨verify.scheme⟩ leaf.subjectPublicKeyInfo
        (certificateVerifyContent clientCertificateVerifyContext
          negotiated.clientCertificateTranscript) verify.signature = .ok () ∧
      next = .awaitFinished { negotiated with
        transcript := negotiated.transcript.addMessage message
        expect := .finished } := by
  simp only [handleCertificateVerify, bind_eq_ok, okOr_eq_ok, mapErr_eq_ok] at h
  obtain ⟨verify, hparse, der, hder, leaf, hleaf, _, hverify, heq⟩ := h
  obtain ⟨-, hnext⟩ := Prod.mk.inj (Except.ok.inj heq)
  exact ⟨verify, der, leaf, hparse, hder, hleaf, hverify, hnext.symm⟩

theorem handleFinished_inv (h : handleFinished ring entropy config negotiated message
    = .ok (reply, next)) :
    ∃ serverSealer sealer opener,
      verifyFinished ring negotiated.hash negotiated.clientHandshakeSecret
        (negotiated.transcript.hash ring) message.body = true ∧
      issueTickets ring entropy config
        { negotiated with transcript := negotiated.transcript.addMessage message } serverSealer
          = .ok (reply, sealer) ∧
      next = .done (Connection.fromParts negotiated.aead negotiated.hash negotiated.suite sealer
        opener negotiated.serverApplicationSecret negotiated.clientApplicationSecret
        negotiated.clientCertificates) := by
  simp only [handleFinished, parseFinished, bind_eq_ok, mapErr_eq_ok, refuse_eq_ok] at h
  obtain ⟨verifyData, ⟨_, -, hdata⟩, _, hverify, serverSealer, -, ⟨out, sealer⟩, hissue, opener, -,
    heq⟩ := h
  obtain ⟨rfl, hnext⟩ := Prod.mk.inj (Except.ok.inj heq)
  obtain rfl : message.body = verifyData := Except.ok.inj hdata
  exact ⟨serverSealer, sealer, opener, by simpa using hverify, hissue, hnext.symm⟩

/-- Which handler a message of the client's flight goes to. -/
theorem clientFlight_inv (h : clientFlight ring entropy config negotiated message
    = .ok (reply, next)) :
    (negotiated.expect = .certificate ∧ message.typ = .certificate ∧
        handleCertificate ring config negotiated message = .ok (reply, next)) ∨
      (negotiated.expect = .certificateVerify ∧ message.typ = .certificateVerify ∧
        handleCertificateVerify ring negotiated message = .ok (reply, next)) ∨
      ((negotiated.expect = .finished ∨ negotiated.expect = .finishedAfterEmptyCertificate) ∧
        message.typ = .finished ∧
        handleFinished ring entropy config negotiated message = .ok (reply, next)) := by
  unfold clientFlight at h
  split at h
  · next hexpect htyp => exact .inl ⟨hexpect, htyp, h⟩
  · next hexpect htyp => exact .inr (.inl ⟨hexpect, htyp, h⟩)
  · next hexpect htyp => exact .inr (.inr ⟨.inl hexpect, htyp, h⟩)
  · next hexpect htyp => exact .inr (.inr ⟨.inr hexpect, htyp, h⟩)
  · simp at h

/-- Its certificates are not answered. -/
theorem handleCertificate_silent (h : handleCertificate ring config negotiated message
    = .ok (reply, next)) : reply = [] := by
  simp only [handleCertificate, bind_eq_ok] at h
  obtain ⟨certificate, -, auth, -, h⟩ := h
  split at h
  · simp only [emptyCertificate, bind_eq_ok] at h
    obtain ⟨_, -, heq⟩ := h
    exact (Prod.mk.inj (Except.ok.inj heq)).1.symm
  · simp only [certificateChain, bind_eq_ok] at h
    obtain ⟨_, -, _, -, _, -, heq⟩ := h
    exact (Prod.mk.inj (Except.ok.inj heq)).1.symm

theorem handleCertificateVerify_silent (h : handleCertificateVerify ring negotiated message
    = .ok (reply, next)) : reply = [] := by
  simp only [handleCertificateVerify, bind_eq_ok] at h
  obtain ⟨_, -, _, -, _, -, _, -, heq⟩ := h
  exact (Prod.mk.inj (Except.ok.inj heq)).1.symm

/-- What a message of the client's flight leaves behind: before the Finished nothing is sent, and
the flight goes on with the keys it had. -/
theorem flight_next (h : clientFlight ring entropy config negotiated message
    = .ok (reply, next)) :
    (message.typ ≠ .clientHello ∧ message.typ ≠ .finished ∧ reply = [] ∧
      ∃ expect clientCertificates clientCertificateTranscript,
        next = .awaitFinished { negotiated with
          transcript := negotiated.transcript.addMessage message
          expect, clientCertificates, clientCertificateTranscript }) ∨
    ((negotiated.expect = .finished ∨ negotiated.expect = .finishedAfterEmptyCertificate) ∧
      message.typ = .finished ∧
      handleFinished ring entropy config negotiated message = .ok (reply, next)) := by
  rcases clientFlight_inv h with ⟨-, htyp, h⟩ | ⟨-, htyp, h⟩ | ⟨hexpect, htyp, h⟩
  · have hreply := handleCertificate_silent h
    obtain ⟨certificate, auth, -, -, ⟨-, -, hnext⟩ | ⟨-, _, _, _, -, -, hnext⟩⟩ :=
      handleCertificate_inv h
    · exact .inl ⟨by simp [htyp], by simp [htyp], hreply, _, _, _, hnext⟩
    · exact .inl ⟨by simp [htyp], by simp [htyp], hreply, _, _, _, hnext⟩
  · have hreply := handleCertificateVerify_silent h
    obtain ⟨_, _, _, -, -, -, -, hnext⟩ := handleCertificateVerify_inv h
    exact .inl ⟨by simp [htyp], by simp [htyp], hreply, _, _, _, hnext⟩
  · exact .inr ⟨hexpect, htyp, h⟩

/-! ### Records -/

/-- The server has not sent its flight: records are in the clear. -/
def State.InClear : State → Prop
  | .awaitClientHello | .awaitRetriedClientHello _ => True
  | _ => False

/-- Taking a record apart changes nothing of the state but the opener's counter. -/
theorem unframe_inv {state : State} {record fragment : Bytes}
    (h : unframe ring state record = .ok (fragment, next)) :
    (state.InClear ∧ next = state ∧ fragment = record.drop headerLen) ∨
      ∃ negotiated opener, state = .awaitFinished negotiated ∧
        next = .awaitFinished { negotiated with opener } ∧
        negotiated.opener.openRecord ring record = (.ok ⟨.handshake, fragment⟩, opener) := by
  simp only [unframe, bind_eq_ok, refuse_eq_ok] at h
  obtain ⟨_, -, _, -, h⟩ := h
  cases state with
  | awaitClientHello =>
      simp only [fragmentOf, plaintextFragment, bind_eq_ok, refuse_eq_ok] at h
      obtain ⟨fragment', ⟨_, -, _, -, hfragment⟩, heq⟩ := h
      obtain ⟨rfl, hnext⟩ := Prod.mk.inj (Except.ok.inj heq)
      exact .inl ⟨trivial, hnext.symm, (Except.ok.inj hfragment).symm⟩
  | awaitRetriedClientHello retrying =>
      simp only [fragmentOf, plaintextFragment, bind_eq_ok, refuse_eq_ok] at h
      obtain ⟨fragment', ⟨_, -, _, -, hfragment⟩, heq⟩ := h
      obtain ⟨rfl, hnext⟩ := Prod.mk.inj (Except.ok.inj heq)
      exact .inl ⟨trivial, hnext.symm, (Except.ok.inj hfragment).symm⟩
  | awaitFinished negotiated =>
      simp only [fragmentOf] at h
      split at h
      · simp at h
      · next fragment' opener hopen =>
          obtain ⟨rfl, hnext⟩ := Prod.mk.inj (Except.ok.inj h)
          exact .inr ⟨negotiated, opener, rfl, hnext.symm, hopen⟩
      · simp at h
      · simp at h
  | done connection => simp [fragmentOf] at h
  | failed => simp [fragmentOf] at h

end RustyTls.Server
