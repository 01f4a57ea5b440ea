import RustyTls.Client

/-!
# RustyTls.ClientSteps

What each step of the client's handshake can do: one inversion lemma per handler, guards
included. The results about whole runs are read off these, and none of them unfolds a handler
again.
-/

namespace RustyTls.Client

open Core

variable {ring : Ring} {entropy : Entropy} {config : ClientConfig} {awaiting : Awaiting}
  {message : Message} {negotiated : Negotiated} {reply : Bytes} {next : State}

/-! ### Hellos -/

theorem start_inv {handshake : ClientHandshake} {record : Bytes}
    (h : start ring entropy config = .ok (handshake, record)) :
    ∃ group kx hello random sessionId, config.groups.head? = some group ∧
      checkResumption config = .ok () ∧ KeyExchange.generate ring entropy group = .ok kx ∧
      buildClientHello ring entropy config kx none [] = .ok (hello, random, sessionId) ∧
      handshake = ⟨.awaitServerHello ⟨hello, kx, false, random, sessionId⟩, []⟩ ∧
      record = plaintextRecord .handshake 0x0301 hello := by
  simp only [start, bind_eq_ok, okOr_eq_ok, mapErr_eq_ok] at h
  obtain ⟨group, hgroup, _, hcheck, kx, hkx, ⟨hello, random, sessionId⟩, hbuild, heq⟩ := h
  obtain ⟨hhandshake, hrecord⟩ := Prod.mk.inj (Except.ok.inj heq)
  exact ⟨group, kx, hello, random, sessionId, hgroup, hcheck, hkx, hbuild, hhandshake.symm,
    hrecord.symm⟩

/-- The group a HelloRetryRequest asks for a share of. -/
def askedGroup (request : ServerHello) : Option NamedGroup :=
  (find request.extensions ExtensionType.keyShare).bind fun share =>
    if share.length = 2 then NamedGroup.fromU16 (UInt16.ofNat (beNat share)) else none

/-- The checks every ServerHello passes before anything is done with it. -/
structure HelloAccepted (config : ClientConfig) (awaiting : Awaiting) (message : Message)
    (hello : ServerHello) (aead : Aead) (hash : Hash) : Prop where
  typ : message.typ = .serverHello
  parsed : ServerHello.parse message.body = .ok hello
  offered : (⟨hello.cipherSuite⟩ : CipherSuite) ∈ config.cipherSuites
  parts : (⟨hello.cipherSuite⟩ : CipherSuite).parts = some (aead, hash)
  version : find hello.extensions ExtensionType.supportedVersions = some [0x03, 0x04]
  echo : hello.sessionId = awaiting.sessionId

theorem checkVersion_eq_ok {hello : ServerHello} {u : Unit} (h : checkVersion hello = .ok u) :
    find hello.extensions ExtensionType.supportedVersions = some [0x03, 0x04] := by
  unfold checkVersion at h
  split at h
  · assumption
  · split at h <;> simp at h

theorem handleServerHello_inv
    (h : handleServerHello ring entropy config awaiting message = .ok (reply, next)) :
    ∃ hello aead hash, HelloAccepted config awaiting message hello aead hash ∧
      ((hello.isHelloRetryRequest = true ∧ awaiting.retried = false ∧
          retry ring entropy config awaiting message hello hash = .ok (reply, next)) ∨
        (hello.isHelloRetryRequest = false ∧
          negotiate ring config awaiting message hello ⟨hello.cipherSuite⟩ aead hash
            = .ok (reply, next))) := by
  simp only [handleServerHello, bind_eq_ok, okOr_eq_ok, mapErr_eq_ok, refuse_eq_ok] at h
  obtain ⟨_, htyp, hello, hparse, _, hoffered, ⟨aead, hash⟩, hparts, _, hversion, _, hecho, _, hretry,
    h⟩ := h
  refine ⟨hello, aead, hash, ⟨not_not.mp htyp, hparse, not_not.mp hoffered, hparts,
    checkVersion_eq_ok hversion, not_not.mp hecho⟩, ?_⟩
  cases hhrr : hello.isHelloRetryRequest with
  | true =>
      rw [hhrr, if_pos rfl] at h
      have hfirst : awaiting.retried = false := by
        simpa [hhrr] using hretry
      exact .inl ⟨rfl, hfirst, h⟩
  | false =>
      rw [hhrr, if_neg (by simp)] at h
      exact .inr ⟨rfl, h⟩

theorem retry_inv {hello : ServerHello} {hash : Hash}
    (h : retry ring entropy config awaiting message hello hash = .ok (reply, next)) :
    ∃ share group kx second random sessionId,
      find hello.extensions ExtensionType.keyShare = some share ∧ share.length = 2 ∧
      NamedGroup.fromU16 (UInt16.ofNat (beNat share)) = some group ∧ group ∈ config.groups ∧
      KeyExchange.generate ring entropy group = .ok kx ∧
      buildClientHello ring entropy config kx (some (awaiting.random, awaiting.sessionId))
        (messageHash ring hash awaiting.clientHello ++ message.encoded)
          = .ok (second, random, sessionId) ∧
      reply = plaintextRecord .handshake 0x0303 second ∧
      next = .awaitServerHello
        ⟨messageHash ring hash awaiting.clientHello ++ message.encoded ++ second, kx, true, random,
          sessionId⟩ := by
  simp only [retry, bind_eq_ok, okOr_eq_ok, mapErr_eq_ok, refuse_eq_ok] at h
  obtain ⟨share, hshare, _, hlen, group, hgroup, _, hmem, kx, hkx, ⟨second, random, sessionId⟩,
    hbuild, heq⟩ := h
  obtain ⟨hreply, hnext⟩ := Prod.mk.inj (Except.ok.inj heq)
  exact ⟨share, group, kx, second, random, sessionId, hshare, not_not.mp hlen, hgroup,
    not_not.mp hmem, hkx, hbuild, hreply.symm, hnext.symm⟩

/-- The session an accepted ServerHello resumes, and how the server said so. -/
theorem acceptedSession_inv {hello : ServerHello} {hash : Hash} {session : Session}
    (h : acceptedSession config hello hash = .ok (some session)) :
    ∃ resumption data, config.resumption = some resumption ∧ session = resumption.session ∧
      find hello.extensions ExtensionType.preSharedKey = some data ∧
      selectedIdentity data = .ok 0 ∧ sessionHash session = .ok hash := by
  unfold acceptedSession at h
  split at h
  · simp at h
  · next data hdata =>
      simp only [bind_eq_ok, okOr_eq_ok, refuse_eq_ok] at h
      obtain ⟨resumption, hresumption, selected, hselected, _, hzero, bound, hbound, _, hhash, heq⟩ := h
      obtain rfl : resumption.session = session := by simpa using heq
      rw [not_not.mp hzero] at hselected
      rw [not_not.mp hhash] at hbound
      exact ⟨resumption, data, hresumption, rfl, hdata, hselected, hbound⟩

/-- The keys that a ServerHello gives, and the state that waits for the flight. -/
structure Derived (ring : Ring) (awaiting : Awaiting) (message : Message) (suite : CipherSuite)
    (aead : Aead) (hash : Hash) (session : Option Session) (secret : Bytes)
    (negotiated : Negotiated) : Prop where
  suite_eq : negotiated.suite = suite
  aead_eq : negotiated.aead = aead
  hash_eq : negotiated.hash = hash
  transcript_eq : negotiated.transcript = ⟨hash, awaiting.clientHello ++ message.encoded⟩
  schedule_eq : negotiated.schedule = (earlySchedule ring hash session).intoHandshake ring secret
  client_eq : negotiated.clientHandshakeSecret = negotiated.schedule.derive ring "c hs traffic"
    (hash.hash ring (awaiting.clientHello ++ message.encoded))
  server_eq : negotiated.serverHandshakeSecret = negotiated.schedule.derive ring "s hs traffic"
    (hash.hash ring (awaiting.clientHello ++ message.encoded))
  opener_eq : Opener.new aead
    (trafficKeys ring hash negotiated.serverHandshakeSecret aead.keyLen).key
    (trafficKeys ring hash negotiated.serverHandshakeSecret aead.keyLen).iv = .ok negotiated.opener
  certificates_eq : negotiated.certificates = (session.map (·.peerCertificates)).getD []
  request_eq : negotiated.certificateRequest = none
  resumed_eq : negotiated.resumed = session.isSome

theorem negotiate_inv {hello : ServerHello} {suite : CipherSuite} {aead : Aead} {hash : Hash}
    (h : negotiate ring config awaiting message hello suite aead hash = .ok (reply, next)) :
    ∃ share peerKey session secret negotiated,
      find hello.extensions ExtensionType.keyShare = some share ∧
      serverKeyShare share = .ok (awaiting.kx.group.asU16, peerKey) ∧
      acceptedSession config hello hash = .ok session ∧
      awaiting.kx.agree ring peerKey = .ok secret ∧
      Derived ring awaiting message suite aead hash session secret negotiated ∧
      reply = [] ∧ next = .inFlight .encryptedExtensions negotiated := by
  simp only [negotiate, bind_eq_ok, okOr_eq_ok, mapErr_eq_ok, refuse_eq_ok] at h
  obtain ⟨share, hshare, ⟨group, peerKey⟩, hkey, _, hgroup, session, hsession, secret, hsecret, opener,
    hopener, heq⟩ := h
  obtain ⟨hreply, hnext⟩ := Prod.mk.inj (Except.ok.inj heq)
  obtain rfl : group = awaiting.kx.group.asU16 := not_not.mp hgroup
  refine ⟨share, peerKey, session, secret, _, hshare, hkey, hsession, hsecret, ?_, hreply.symm,
    hnext.symm⟩
  exact ⟨rfl, rfl, rfl, rfl, rfl, rfl, rfl, hopener, rfl, rfl, rfl⟩

/-! ### The flight -/

theorem handleCertificateRequest_inv {expect : Expect}
    (h : handleCertificateRequest expect negotiated message = .ok (reply, next)) :
    ∃ request, negotiated.resumed = false ∧ expect = .certificate ∧
      negotiated.certificateRequest = none ∧
      CertificateRequestMessage.parse message.body = .ok request ∧ reply = [] ∧
      next = .inFlight .certificate { negotiated with
        certificateRequest := some request
        transcript := negotiated.transcript.addMessage message } := by
  simp only [handleCertificateRequest, bind_eq_ok, mapErr_eq_ok, refuse_eq_ok] at h
  obtain ⟨_, hresumed, _, hexpect, _, hrequest, request, hparse, heq⟩ := h
  obtain ⟨hreply, hnext⟩ := Prod.mk.inj (Except.ok.inj heq)
  obtain rfl : expect = .certificate := not_not.mp hexpect
  exact ⟨request, by simpa using hresumed, rfl, by simpa using hrequest, hparse, hreply.symm,
    hnext.symm⟩

theorem handleEncryptedExtensions_inv
    (h : handleEncryptedExtensions negotiated message = .ok (reply, next)) :
    reply = [] ∧ next = .inFlight (if negotiated.resumed then .finished else .certificate)
      { negotiated with transcript := negotiated.transcript.addMessage message } := by
  simp only [handleEncryptedExtensions, bind_eq_ok, mapErr_eq_ok, refuse_eq_ok] at h
  obtain ⟨extensions, -, _, -, heq⟩ := h
  obtain ⟨hreply, hnext⟩ := Prod.mk.inj (Except.ok.inj heq)
  exact ⟨hreply.symm, hnext.symm⟩

theorem handleCertificate_inv (h : handleCertificate ring negotiated message = .ok (reply, next)) :
    ∃ certificate, CertificateMessage.parse message.body = .ok certificate ∧
      certificate.entries ≠ [] ∧ reply = [] ∧
      next = .inFlight .certificateVerify { negotiated with
        certificates := certificate.entries.map (·.certificate)
        transcript := negotiated.transcript.addMessage message
        certificateTranscript := (negotiated.transcript.addMessage message).hash ring } := by
  simp only [handleCertificate, bind_eq_ok, mapErr_eq_ok, refuse_eq_ok] at h
  obtain ⟨certificate, hparse, _, hne, heq⟩ := h
  obtain ⟨hreply, hnext⟩ := Prod.mk.inj (Except.ok.inj heq)
  exact ⟨certificate, hparse, hne, hreply.symm, hnext.symm⟩

theorem checkPeer_inv {verify : CertificateVerify} {u : Unit}
    (h : checkPeer ring config negotiated verify = .ok u) :
    ∃ leaf rest path, collect (negotiated.certificates.map Certificate.parse) = .ok (leaf :: rest) ∧
      verifyPeerCertificate ring leaf rest config.anchors config.serverName config.path = .ok path ∧
      verifyTls13Signature ring ⟨verify.scheme⟩ leaf.subjectPublicKeyInfo
        (certificateVerifyContent serverCertificateVerifyContext negotiated.certificateTranscript)
        verify.signature = .ok () := by
  simp only [checkPeer, bind_eq_ok, okOr_eq_ok, mapErr_eq_ok] at h
  obtain ⟨parsed, hparsed, leaf, hleaf, path, hpath, hverify⟩ := h
  cases parsed with
  | nil => simp at hleaf
  | cons first rest =>
      obtain rfl : first = leaf := by simpa using hleaf
      exact ⟨first, rest, path, hparsed, hpath, hverify⟩

theorem handleCertificateVerify_inv
    (h : handleCertificateVerify ring config negotiated message = .ok (reply, next)) :
    ∃ verify, CertificateVerify.parse message.body = .ok verify ∧
      checkPeer ring config negotiated verify = .ok () ∧ reply = [] ∧
      next = .inFlight .finished { negotiated with
        transcript := negotiated.transcript.addMessage message } := by
  simp only [handleCertificateVerify, bind_eq_ok, mapErr_eq_ok] at h
  obtain ⟨verify, hparse, _, hcheck, heq⟩ := h
  obtain ⟨hreply, hnext⟩ := Prod.mk.inj (Except.ok.inj heq)
  exact ⟨verify, hparse, hcheck, hreply.symm, hnext.symm⟩

/-- What a Finished that verified leaves: the connection's fields, and its keys. -/
theorem finish_inv (h : finish ring entropy config negotiated message = .ok (reply, next)) :
    ∃ authentication connection,
      message.body ≠ [] ∧
      verifyFinished ring negotiated.hash negotiated.serverHandshakeSecret
        (negotiated.transcript.hash ring) message.body = true ∧
      clientAuthentication ring entropy config negotiated
        (negotiated.transcript.addMessage message) = .ok authentication ∧
      next = .done connection ∧ connection.aead = negotiated.aead ∧
      connection.hash = negotiated.hash ∧ connection.suite = negotiated.suite ∧
      connection.certificates = negotiated.certificates ∧
      connection.resumed = negotiated.resumed := by
  simp only [finish, parseFinished, bind_eq_ok, mapErr_eq_ok, refuse_eq_ok] at h
  obtain ⟨verifyData, ⟨_, hne, hdata⟩, _, hverify, authentication, hauth, _, -, _, -, _, -, _, -, heq⟩ := h
  obtain ⟨-, hnext⟩ := Prod.mk.inj (Except.ok.inj heq)
  obtain rfl : message.body = verifyData := Except.ok.inj hdata
  exact ⟨authentication, _, hne, by simpa using hverify, hauth, hnext.symm, rfl, rfl, rfl, rfl, rfl⟩

/-- Which handler a message of the flight goes to. -/
theorem handleFlightMessage_inv {expect : Expect}
    (h : handleFlightMessage ring entropy config expect negotiated message = .ok (reply, next)) :
    (message.typ = .certificateRequest ∧
        handleCertificateRequest expect negotiated message = .ok (reply, next)) ∨
      (expect = .encryptedExtensions ∧ message.typ = .encryptedExtensions ∧
        handleEncryptedExtensions negotiated message = .ok (reply, next)) ∨
      (expect = .certificate ∧ message.typ = .certificate ∧
        handleCertificate ring negotiated message = .ok (reply, next)) ∨
      (expect = .certificateVerify ∧ message.typ = .certificateVerify ∧
        handleCertificateVerify ring config negotiated message = .ok (reply, next)) ∨
      (expect = .finished ∧ message.typ = .finished ∧
        finish ring entropy config negotiated message = .ok (reply, next)) := by
  unfold handleFlightMessage at h
  split at h
  · next htyp => exact .inl ⟨htyp, h⟩
  · split at h
    · next htyp => exact .inr (.inl ⟨rfl, htyp, h⟩)
    · next htyp => exact .inr (.inr (.inl ⟨rfl, htyp, h⟩))
    · next htyp => exact .inr (.inr (.inr (.inl ⟨rfl, htyp, h⟩)))
    · next htyp => exact .inr (.inr (.inr (.inr ⟨rfl, htyp, h⟩)))
    · simp at h

/-- What a message of the flight leaves behind: before the Finished nothing is sent, and the flight
goes on with the keys it had. -/
theorem flight_next {expect : Expect}
    (h : handleFlightMessage ring entropy config expect negotiated message = .ok (reply, next)) :
    (message.typ ≠ .serverHello ∧ message.typ ≠ .finished ∧ reply = [] ∧
      ∃ expect' certificates certificateTranscript certificateRequest,
        next = .inFlight expect' { negotiated with
          transcript := negotiated.transcript.addMessage message
          certificates, certificateTranscript, certificateRequest }) ∨
    (expect = .finished ∧ message.typ = .finished ∧
      finish ring entropy config negotiated message = .ok (reply, next)) := by
  rcases handleFlightMessage_inv h with
    ⟨htyp, h⟩ | ⟨-, htyp, h⟩ | ⟨-, htyp, h⟩ | ⟨-, htyp, h⟩ | ⟨hexpect, htyp, h⟩
  · obtain ⟨request, -, -, -, -, hreply, hnext⟩ := handleCertificateRequest_inv h
    exact .inl ⟨by simp [htyp], by simp [htyp], hreply, _, _, _, _, hnext⟩
  · obtain ⟨hreply, hnext⟩ := handleEncryptedExtensions_inv h
    exact .inl ⟨by simp [htyp], by simp [htyp], hreply, _, _, _, _, hnext⟩
  · obtain ⟨certificate, -, -, hreply, hnext⟩ := handleCertificate_inv h
    exact .inl ⟨by simp [htyp], by simp [htyp], hreply, _, _, _, _, hnext⟩
  · obtain ⟨verify, -, -, hreply, hnext⟩ := handleCertificateVerify_inv h
    exact .inl ⟨by simp [htyp], by simp [htyp], hreply, _, _, _, _, hnext⟩
  · exact .inr ⟨hexpect, htyp, h⟩

/-! ### Records -/

/-- Taking a record apart changes nothing of the state but the opener's counter. -/
theorem unframe_inv {state : State} {record fragment : Bytes}
    (h : unframe ring state record = .ok (fragment, next)) :
    ((∃ awaiting, state = .awaitServerHello awaiting) ∧ next = state ∧
        fragment = record.drop headerLen) ∨
      ∃ expect negotiated opener, state = .inFlight expect negotiated ∧
        next = .inFlight expect { negotiated with opener } ∧
        negotiated.opener.openRecord ring record = (.ok ⟨.handshake, fragment⟩, opener) := by
  simp only [unframe, bind_eq_ok, refuse_eq_ok] at h
  obtain ⟨_, -, _, -, _, -, h⟩ := h
  cases state with
  | awaitServerHello awaiting =>
      simp only [fragmentOf, bind_eq_ok, refuse_eq_ok] at h
      obtain ⟨_, -, heq⟩ := h
      obtain ⟨hfragment, hnext⟩ := Prod.mk.inj (Except.ok.inj heq)
      exact .inl ⟨⟨awaiting, rfl⟩, hnext.symm, hfragment.symm⟩
  | inFlight expect negotiated =>
      simp only [fragmentOf] at h
      split at h
      · simp at h
      · next fragment' opener hopen =>
          obtain ⟨rfl, hnext⟩ := Prod.mk.inj (Except.ok.inj h)
          exact .inr ⟨expect, negotiated, opener, rfl, hnext.symm, hopen⟩
      · simp at h
      · simp at h
  | done connection => simp [fragmentOf] at h
  | failed => simp [fragmentOf] at h

end RustyTls.Client
