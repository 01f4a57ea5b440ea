import RustyTls.ClientSteps
import RustyTls.Server

/-!
# RustyTls.ClientSound

Server authentication over whole client runs.

The invariant `Progress` relates the state to the steps taken so far. Before the ServerHello none
was taken, or one with a HelloRetryRequest, and what the client waits with is its first hello or the
one that the retry asked for (`Opened`). In the flight it splits the messages at the ServerHello,
which answered what the client then waited with (`Heard`), gives the secrets their derivation from
the two shares and the transcript up to there, and says which messages of the flight have come and
what was checked of each. A connection is then one whose last message was a Finished in the last of
these states (`ServerAuthenticated`).
-/

namespace RustyTls.Client

open Core

/-! ### What authenticates a server -/

/-- A client that has sent its first hello, with a share for the first of the configured groups.
`opening` is what it waits with. -/
structure Started (ring : Ring) (entropy : Entropy) (config : ClientConfig)
    (handshake : ClientHandshake) (record : Bytes) (opening : Awaiting) : Prop where
  state : handshake = ⟨.awaitServerHello opening, []⟩
  record_eq : record = plaintextRecord .handshake 0x0301 opening.clientHello
  group : config.groups.head? = some opening.kx.group
  kx : KeyExchange.generate ring entropy opening.kx.group = .ok opening.kx
  hello : buildClientHello ring entropy config opening.kx none []
    = .ok (opening.clientHello, opening.random, opening.sessionId)
  retried : opening.retried = false

/-- The hellos that a client waits with: the first, or the one that a retry asked for. The list is
what was accepted before the answer. After a retry the bytes kept are the head of the transcript:
the first hello's hash on the suite of the retry, the retry and the second hello. -/
inductive Opened (ring : Ring) (config : ClientConfig) (start : Awaiting) :
    List Message → Awaiting → Prop
  | direct : Opened ring config start [] start
  | retried {request : Message} {hello : ServerHello} {aead : Aead} {hash : Hash}
      {entropy : Entropy} {group : NamedGroup} {kx : KeyExchange} {second random sessionId : Bytes} :
      HelloAccepted config start request hello aead hash → hello.isHelloRetryRequest = true →
      askedGroup hello = some group → group ∈ config.groups →
      KeyExchange.generate ring entropy group = .ok kx →
      buildClientHello ring entropy config kx (some (start.random, start.sessionId))
        (messageHash ring hash start.clientHello ++ request.encoded)
          = .ok (second, random, sessionId) →
      Opened ring config start [request]
        ⟨messageHash ring hash start.clientHello ++ request.encoded ++ second, kx, true, random,
          sessionId⟩

/-- The parts of a client's handshake up to the ServerHello. -/
structure Hellos where
  /-- The messages before the ServerHello. -/
  before : List Message
  /-- What the client waited for it with: its hellos, and the share it had sent. -/
  awaiting : Awaiting
  serverHello : Message
  hello : ServerHello
  /-- The session resumed, if the server accepted one. -/
  session : Option Session
  /-- The server's share. -/
  peerKey : Bytes
  sharedSecret : Bytes

namespace Hellos

/-- The transcript through the ServerHello. -/
def transcript (x : Hellos) : Bytes := x.awaiting.clientHello ++ x.serverHello.encoded

def suite (x : Hellos) : CipherSuite := ⟨x.hello.cipherSuite⟩

/-- The handshake's key schedule, seeded from the session's PSK if there is one. -/
def schedule (ring : Ring) (x : Hellos) (hash : Hash) : KeySchedule :=
  (earlySchedule ring hash x.session).intoHandshake ring x.sharedSecret

/-- The server handshake traffic secret. -/
def serverSecret (ring : Ring) (x : Hellos) (hash : Hash) : Bytes :=
  (x.schedule ring hash).derive ring "s hs traffic" (hash.hash ring x.transcript)

/-- The client handshake traffic secret. -/
def clientSecret (ring : Ring) (x : Hellos) (hash : Hash) : Bytes :=
  (x.schedule ring hash).derive ring "c hs traffic" (hash.hash ring x.transcript)

/-- What the client has checked of the hellos. The shared secret is that of the share in its hello
and the share in the ServerHello, which is for the same group. -/
structure Valid (ring : Ring) (config : ClientConfig) (start : Awaiting) (x : Hellos) (aead : Aead)
    (hash : Hash) : Prop where
  opened : Opened ring config start x.before x.awaiting
  accepted : HelloAccepted config x.awaiting x.serverHello x.hello aead hash
  notRetry : x.hello.isHelloRetryRequest = false
  share : ∃ data, find x.hello.extensions ExtensionType.keyShare = some data ∧
    serverKeyShare data = .ok (x.awaiting.kx.group.asU16, x.peerKey)
  agreed : x.awaiting.kx.agree ring x.peerKey = .ok x.sharedSecret
  session : acceptedSession config x.hello hash = .ok x.session

end Hellos

/-- The steps of a run through a flight: the ServerHello came where the client waited with these
hellos, and the flight after it. -/
structure Heard (log : List (Endpoint.Taken State)) (hellos : Hellos) (flight : List Message) :
    Prop where
  log_eq : log.map (·.message) = hellos.before ++ hellos.serverHello :: flight
  waited : ∃ step ∈ log, step.before = .awaitServerHello hellos.awaiting ∧
    step.message = hellos.serverHello

/-- The flight of a full handshake through its Certificate: EncryptedExtensions, at most one
CertificateRequest, and a Certificate that is not empty. -/
def CertificateAccepted (flight : List Message) (certificates : List Bytes) : Prop :=
  ∃ extensions requests certificate message, flight = extensions :: requests ++ [certificate] ∧
    extensions.typ = .encryptedExtensions ∧ requests.length ≤ 1 ∧
    (∀ m ∈ requests, m.typ = .certificateRequest) ∧ certificate.typ = .certificate ∧
    CertificateMessage.parse certificate.body = .ok message ∧ message.entries ≠ [] ∧
    certificates = message.entries.map (·.certificate)

/-- The chain is acceptable for the configured name, and its leaf signed the transcript through
the Certificate under the server's context. -/
def PeerVerified (ring : Ring) (config : ClientConfig) (hash : Hash) (signed : Bytes)
    (certificates : List Bytes) (verify : Message) : Prop :=
  ∃ message leaf rest path, verify.typ = .certificateVerify ∧
    CertificateVerify.parse verify.body = .ok message ∧
    collect (certificates.map Certificate.parse) = .ok (leaf :: rest) ∧
    verifyPeerCertificate ring leaf rest config.anchors config.serverName config.path = .ok path ∧
    verifyTls13Signature ring ⟨message.scheme⟩ leaf.subjectPublicKeyInfo
      (certificateVerifyContent serverCertificateVerifyContext (hash.hash ring signed))
      message.signature = .ok ()

/-- The flight of a full handshake up to its Finished. -/
def FullFlight (ring : Ring) (config : ClientConfig) (hash : Hash) (hellos : Bytes)
    (flight : List Message) (certificates : List Bytes) : Prop :=
  ∃ opening verify, flight = opening ++ [verify] ∧ CertificateAccepted opening certificates ∧
    PeerVerified ring config hash (hellos ++ octets opening) certificates verify

/-- A flight resumed from a session: nothing but EncryptedExtensions before the Finished, and
the session's own chain. -/
def ResumedFlight (config : ClientConfig) (hello : ServerHello) (hash : Hash) (session : Session)
    (flight : List Message) (certificates : List Bytes) : Prop :=
  (∃ resumption data, config.resumption = some resumption ∧ session = resumption.session ∧
      find hello.extensions ExtensionType.preSharedKey = some data ∧
      selectedIdentity data = .ok 0 ∧ sessionHash session = .ok hash) ∧
    (∃ extensions : Message, flight = [extensions] ∧ extensions.typ = .encryptedExtensions) ∧
    certificates = session.peerCertificates

/-- How the server of an established connection was authenticated. `hellos`, `flight` and
`finished` are the accepted messages in their roles. -/
structure ServerAuthenticated (ring : Ring) (config : ClientConfig) (start : Awaiting)
    (log : List (Endpoint.Taken State)) (connection : Connection) (hellos : Hellos)
    (flight : List Message) (finished : Message) : Prop where
  heard : Heard log hellos (flight ++ [finished])
  hellos_valid : hellos.Valid ring config start connection.aead connection.hash
  suite_eq : connection.suite = hellos.suite
  suite_offered : connection.suite ∈ config.cipherSuites
  finished_typ : finished.typ = .finished
  finished_verified : verifyFinished ring connection.hash
    (hellos.serverSecret ring connection.hash)
    (connection.hash.hash ring (hellos.transcript ++ octets flight)) finished.body = true
  authenticated :
    (connection.resumed = false ∧ hellos.session = none ∧
        FullFlight ring config connection.hash hellos.transcript flight connection.certificates) ∨
      (connection.resumed = true ∧ ∃ session, hellos.session = some session ∧
        ResumedFlight config hellos.hello connection.hash session flight connection.certificates)

/-! ### The invariant -/

/-- What has been accepted of the flight when `expect` comes next. -/
def FlightSoFar (ring : Ring) (config : ClientConfig) (hellos : Hellos) (negotiated : Negotiated)
    (flight : List Message) : Expect → Prop
  | .encryptedExtensions => flight = [] ∧
      negotiated.certificates = (hellos.session.map (·.peerCertificates)).getD [] ∧
      negotiated.certificateRequest = none
  | .certificate => negotiated.resumed = false ∧
      ∃ extensions requests, flight = extensions :: requests ∧
        extensions.typ = .encryptedExtensions ∧ (∀ m ∈ requests, m.typ = .certificateRequest) ∧
        (negotiated.certificateRequest = none ∧ requests = [] ∨
          negotiated.certificateRequest ≠ none ∧ requests.length = 1)
  | .certificateVerify => negotiated.resumed = false ∧
      CertificateAccepted flight negotiated.certificates ∧
      negotiated.certificateTranscript
        = negotiated.hash.hash ring (hellos.transcript ++ octets flight)
  | .finished =>
      (negotiated.resumed = false ∧
          FullFlight ring config negotiated.hash hellos.transcript flight negotiated.certificates) ∨
        (negotiated.resumed = true ∧
          negotiated.certificates = (hellos.session.map (·.peerCertificates)).getD [] ∧
          ∃ extensions : Message, flight = [extensions] ∧ extensions.typ = .encryptedExtensions)

/-- The secrets and the transcript of a flight in progress. -/
structure InFlight (ring : Ring) (config : ClientConfig) (start : Awaiting) (hellos : Hellos)
    (flight : List Message) (negotiated : Negotiated) : Prop where
  valid : hellos.Valid ring config start negotiated.aead negotiated.hash
  suite : negotiated.suite = hellos.suite
  transcript : negotiated.transcript = ⟨negotiated.hash, hellos.transcript ++ octets flight⟩
  schedule : negotiated.schedule = hellos.schedule ring negotiated.hash
  clientSecret : negotiated.clientHandshakeSecret = hellos.clientSecret ring negotiated.hash
  serverSecret : negotiated.serverHandshakeSecret = hellos.serverSecret ring negotiated.hash
  resumed : negotiated.resumed = hellos.session.isSome

/-- The state, against the steps taken so far. -/
def Progress (ring : Ring) (config : ClientConfig) (start : Awaiting)
    (log : List (Endpoint.Taken State)) : State → Prop
  | .awaitServerHello awaiting => Opened ring config start (log.map (·.message)) awaiting
  | .inFlight expect negotiated => ∃ hellos flight, Heard log hellos flight ∧
      InFlight ring config start hellos flight negotiated ∧
      FlightSoFar ring config hellos negotiated flight expect
  | .done connection => ∃ hellos flight finished,
      ServerAuthenticated ring config start log connection hellos flight finished
  | .failed => True

section Step

variable {ring : Ring} {entropy : Entropy} {config : ClientConfig} {start : Awaiting}
  {before : List Message} {log : List (Endpoint.Taken State)} {state : State} {m : Message}
  {reply : Bytes} {next : State}

theorem opened_first {awaiting : Awaiting} (hopened : Opened ring config start before awaiting)
    (hfirst : awaiting.retried = false) : before = [] ∧ awaiting = start := by
  cases hopened with
  | direct => exact ⟨rfl, rfl⟩
  | retried _ _ _ _ _ _ => simp at hfirst

/-- A retry: only the first hello can be followed by one. -/
theorem opened_retry {awaiting : Awaiting} {hello : ServerHello} {aead : Aead} {hash : Hash}
    (hopened : Opened ring config start before awaiting) (hfirst : awaiting.retried = false)
    (hok : HelloAccepted config awaiting m hello aead hash)
    (hmarked : hello.isHelloRetryRequest = true)
    (h : retry ring entropy config awaiting m hello hash = .ok (reply, next)) :
    ∃ again, next = .awaitServerHello again ∧ Opened ring config start (before ++ [m]) again := by
  obtain ⟨rfl, rfl⟩ := opened_first hopened hfirst
  obtain ⟨share, group, kx, second, random, sessionId, hshare, hlen, hgroup, hmem, hkx, hbuild, -,
    rfl⟩ := retry_inv h
  refine ⟨_, rfl, .retried hok hmarked ?_ hmem hkx hbuild⟩
  rw [askedGroup, hshare, Option.bind_some, if_pos hlen, hgroup]

/-- A message joins the flight. -/
theorem Heard.snoc {hellos : Hellos} {flight : List Message} {step : Endpoint.Taken State}
    (h : Heard log hellos flight) : Heard (log ++ [step]) hellos (flight ++ [step.message]) := by
  obtain ⟨waiting, hmem, hwaited⟩ := h.waited
  refine ⟨?_, waiting, List.mem_append_left _ hmem, hwaited⟩
  simp [h.log_eq]

/-- The ServerHello, or the retry before it. -/
theorem progress_serverHello {awaiting : Awaiting}
    (hP : Opened ring config start (log.map (·.message)) awaiting)
    (h : handleServerHello ring entropy config awaiting m = .ok (reply, next)) :
    Progress ring config start (log ++ [⟨entropy, .awaitServerHello awaiting, m, reply, next⟩])
      next := by
  obtain ⟨hello, aead, hash, hok, ⟨hhrr, hfirst, h⟩ | ⟨hhrr, h⟩⟩ := handleServerHello_inv h
  · obtain ⟨again, rfl, hopened⟩ := opened_retry hP hfirst hok hhrr h
    rw [Progress, List.map_append]
    exact hopened
  · obtain ⟨share, peerKey, session, secret, negotiated, hshare, hkey, hsession, hsecret, hder, -,
      rfl⟩ := negotiate_inv h
    refine ⟨⟨log.map (·.message), awaiting, m, hello, session, peerKey, secret⟩, [],
      ⟨by simp, _, List.mem_append_right _ (List.mem_singleton_self _), rfl, rfl⟩, ?_, ?_⟩
    · have hhash := hder.hash_eq
      refine ⟨⟨hP, ?_, hhrr, ⟨share, hshare, hkey⟩, hsecret, ?_⟩, hder.suite_eq, ?_, ?_, ?_, ?_,
        hder.resumed_eq⟩
      · rw [hder.aead_eq, hhash]
        exact hok
      · rw [hhash]
        exact hsession
      · rw [hder.transcript_eq, hhash]
        simp [Hellos.transcript]
      · rw [hder.schedule_eq, hhash]
        rfl
      · rw [hder.client_eq, hder.schedule_eq, hhash]
        rfl
      · rw [hder.server_eq, hder.schedule_eq, hhash]
        rfl
    · exact ⟨rfl, hder.certificates_eq, hder.request_eq⟩

variable {hellos : Hellos} {flight : List Message} {negotiated : Negotiated}

/-- A message joins the flight: it goes into the transcript and changes nothing of the keys. -/
theorem InFlight.add (h : InFlight ring config start hellos flight negotiated) {joined : Negotiated}
    (hjoined : joined = { negotiated with
      transcript := negotiated.transcript.addMessage m
      certificates := joined.certificates
      certificateTranscript := joined.certificateTranscript
      certificateRequest := joined.certificateRequest }) :
    InFlight ring config start hellos (flight ++ [m]) joined := by
  rw [hjoined]
  refine ⟨h.valid, h.suite, ?_, h.schedule, h.clientSecret, h.serverSecret, h.resumed⟩
  simp [Transcript.addMessage, Transcript.add, h.transcript]

theorem progress_finish (hin : InFlight ring config start hellos flight negotiated)
    (hheard : Heard log hellos flight)
    (hso : FlightSoFar ring config hellos negotiated flight .finished) (htyp : m.typ = .finished)
    (h : finish ring entropy config negotiated m = .ok (reply, next)) :
    Progress ring config start (log ++ [⟨entropy, state, m, reply, next⟩]) next := by
  obtain ⟨_, connection, -, hverify, -, rfl, haead, hhash, hsuite, hcerts, hresumed⟩ := finish_inv h
  have hsecret : negotiated.serverHandshakeSecret = hellos.serverSecret ring connection.hash := by
    rw [hin.serverSecret, hhash]
  have hcovered : negotiated.transcript.hash ring
      = connection.hash.hash ring (hellos.transcript ++ octets flight) := by
    rw [hin.transcript, hhash]
    rfl
  refine ⟨hellos, flight, m, hheard.snoc, ?_, ?_, ?_, htyp, ?_, ?_⟩
  · rw [haead, hhash]
    exact hin.valid
  · rw [hsuite, hin.suite]
  · rw [hsuite, hin.suite]
    exact hin.valid.accepted.offered
  · rw [← hhash, hsecret, hcovered] at hverify
    exact hverify
  · rw [hresumed, hhash, hcerts]
    rcases hso with ⟨hfull, hflight⟩ | ⟨hres, hcertificates, hflight⟩
    · refine .inl ⟨hfull, ?_, hflight⟩
      have hsome := hin.resumed
      rw [hfull] at hsome
      simpa using hsome.symm
    · have hsome := hin.resumed
      rw [hres] at hsome
      obtain ⟨session, hsession⟩ := Option.isSome_iff_exists.mp hsome.symm
      refine .inr ⟨hres, session, hsession, ?_, hflight, ?_⟩
      · have hvalid := hin.valid.session
        rw [hsession] at hvalid
        exact acceptedSession_inv hvalid
      · rw [hcertificates, hsession]
        rfl

/-- One message of the flight. -/
theorem progress_flight {expect : Expect}
    (hin : InFlight ring config start hellos flight negotiated)
    (hheard : Heard log hellos flight)
    (hso : FlightSoFar ring config hellos negotiated flight expect)
    (h : handleFlightMessage ring entropy config expect negotiated m = .ok (reply, next)) :
    Progress ring config start (log ++ [⟨entropy, state, m, reply, next⟩]) next := by
  have hmore : Heard (log ++ [⟨entropy, state, m, reply, next⟩]) hellos (flight ++ [m]) :=
    hheard.snoc
  rcases handleFlightMessage_inv h with ⟨htyp, h⟩ | ⟨rfl, htyp, h⟩ | ⟨rfl, htyp, h⟩ | ⟨rfl, htyp, h⟩ |
    ⟨rfl, htyp, h⟩
  · -- A CertificateRequest: the first one, where a Certificate is expected.
    obtain ⟨request, hresumed, rfl, hnone, -, -, rfl⟩ := handleCertificateRequest_inv h
    obtain ⟨-, extensions, requests, rfl, hext, -, hreq⟩ := hso
    have hempty : requests = [] := by
      rcases hreq with ⟨-, hempty⟩ | ⟨hsome, -⟩
      · exact hempty
      · exact absurd hnone hsome
    refine ⟨hellos, _, hmore, hin.add rfl, hresumed, extensions, [m], ?_, hext, ?_,
      .inr ⟨by simp, rfl⟩⟩
    · simp [hempty]
    · intro m' hm'
      rw [List.mem_singleton.mp hm']
      exact htyp
  · obtain ⟨-, rfl⟩ := handleEncryptedExtensions_inv h
    obtain ⟨rfl, hcerts, hreq⟩ := hso
    refine ⟨hellos, _, hmore, hin.add rfl, ?_⟩
    cases hres : negotiated.resumed with
    | true => exact .inr ⟨rfl, hcerts, m, rfl, htyp⟩
    | false => exact ⟨rfl, m, [], rfl, htyp, by simp, .inl ⟨hreq, rfl⟩⟩
  · obtain ⟨certificate, hparse, hne, -, rfl⟩ := handleCertificate_inv h
    obtain ⟨hresumed, extensions, requests, rfl, hext, hrequests, hreq⟩ := hso
    have hone : requests.length ≤ 1 := by
      rcases hreq with ⟨-, hempty⟩ | ⟨-, hlen⟩
      · simp [hempty]
      · omega
    refine ⟨hellos, _, hmore, hin.add rfl, hresumed, ⟨extensions, requests, m, certificate, rfl, hext,
      hone, hrequests, htyp, hparse, hne, rfl⟩, ?_⟩
    simp [Transcript.addMessage, Transcript.add, hin.transcript, Transcript.hash]
  · obtain ⟨verify, hparse, hcheck, -, rfl⟩ := handleCertificateVerify_inv h
    obtain ⟨hresumed, hcert, htranscript⟩ := hso
    obtain ⟨leaf, rest, path, hchain, hpath, hsigned⟩ := checkPeer_inv hcheck
    rw [htranscript] at hsigned
    exact ⟨hellos, _, hmore, hin.add rfl, .inl ⟨hresumed, flight, m, rfl, hcert, verify, leaf, rest,
      path, htyp, hparse, hchain, hpath, hsigned⟩⟩
  · exact progress_finish hin hheard hso htyp h

/-- The invariant survives every message. -/
theorem progress_handle (hP : Progress ring config start log state)
    (h : handleMessage ring entropy config state m = .ok (reply, next)) :
    Progress ring config start (log ++ [⟨entropy, state, m, reply, next⟩]) next := by
  cases state with
  | awaitServerHello awaiting => exact progress_serverHello hP h
  | inFlight expect negotiated =>
      obtain ⟨hellos, flight, hheard, hin, hso⟩ := hP
      exact progress_flight hin hheard hso h
  | done connection => simp [handleMessage] at h
  | failed => simp [handleMessage] at h

/-- Nor does the opener's counter matter to it. -/
theorem progress_unframe {record fragment : Bytes}
    (hP : Progress ring config start log state)
    (h : unframe ring state record = .ok (fragment, next)) :
    Progress ring config start log next := by
  rcases unframe_inv h with ⟨-, rfl, -⟩ | ⟨expect, negotiated, opener, rfl, rfl, -⟩
  · exact hP
  · obtain ⟨hellos, flight, hheard, hin, hso⟩ := hP
    refine ⟨hellos, flight, hheard, ⟨hin.valid, hin.suite, hin.transcript, hin.schedule,
      hin.clientSecret, hin.serverSecret, hin.resumed⟩, ?_⟩
    cases expect <;> exact hso

end Step

/-- Every run keeps the invariant. -/
theorem progress_run (ring : Ring) (config : ClientConfig) (start : Awaiting)
    (handshake : ClientHandshake) (hP : Progress ring config start [] handshake.state)
    (inputs : List (Entropy × Bytes)) :
    Progress ring config start ((endpoint ring config).taken handshake inputs)
      ((endpoint ring config).run handshake inputs).state := by
  have hrun := Endpoint.taken_induct (endpoint ring config) (P := Progress ring config start)
    (fun _ _ _ => trivial) (fun _ _ _ _ _ hP h => progress_unframe hP h)
    (fun _ _ _ _ _ _ hP h => progress_handle hP h) inputs handshake [] hP
  exact hrun

/-- A client that starts has started with something to wait with. -/
theorem started_of_start {ring : Ring} {entropy : Entropy} {config : ClientConfig}
    {handshake : ClientHandshake} {record : Bytes}
    (h : start ring entropy config = .ok (handshake, record)) :
    ∃ opening, Started ring entropy config handshake record opening := by
  obtain ⟨group, kx, hello, random, sessionId, hgroup, -, hkx, hbuild, hstate, hrecord⟩ := start_inv h
  have hkxGroup : kx.group = group := (KeyExchange.generate_inv hkx).1
  refine ⟨⟨hello, kx, false, random, sessionId⟩, hstate, hrecord, ?_, ?_, hbuild, rfl⟩
  · rw [hgroup, hkxGroup]
  · rw [hkxGroup]
    exact hkx

/-- A started client satisfies the invariant, with nothing accepted. -/
theorem Started.progress {ring : Ring} {entropy : Entropy} {config : ClientConfig}
    {handshake : ClientHandshake} {record : Bytes} {opening : Awaiting}
    (h : Started ring entropy config handshake record opening) :
    Progress ring config opening [] handshake.state := by
  rw [h.state]
  exact Opened.direct

/-- Whatever records a client is given, a handshake that is done has authenticated the server:
by a chain that is acceptable for the configured name with a signature of this transcript, or
by the PSK of the session it was configured to resume. -/
theorem run_serverAuthenticated (ring : Ring) (config : ClientConfig) (entropy : Entropy)
    (handshake : ClientHandshake) (record : Bytes)
    (hstart : start ring entropy config = .ok (handshake, record))
    (inputs : List (Entropy × Bytes)) (connection : Connection)
    (hdone : ((endpoint ring config).run handshake inputs).state = .done connection) :
    (endpoint ring config).accepted handshake inputs
      = ((endpoint ring config).taken handshake inputs).map (·.message) ∧
    ∃ opening hellos flight finished, Started ring entropy config handshake record opening ∧
      ServerAuthenticated ring config opening ((endpoint ring config).taken handshake inputs)
        connection hellos flight finished := by
  obtain ⟨opening, hstarted⟩ := started_of_start hstart
  have hprogress := progress_run ring config opening handshake hstarted.progress inputs
  rw [hdone] at hprogress
  obtain ⟨hellos, flight, finished, hauth⟩ := hprogress
  exact ⟨Endpoint.accepted_eq_taken _ inputs handshake, opening, hellos, flight, finished, hstarted,
    hauth⟩

/-- The sample client, started. -/
def sampleStarted : ClientHandshake × Bytes :=
  match start .sample (.sample 1) .sample with
  | .ok started => started
  | .error _ => (⟨.failed, []⟩, [])

theorem start_sampleStarted :
    start .sample (.sample 1) .sample = .ok (sampleStarted.1, sampleStarted.2) := by
  decide +kernel

/-- The records in which the sample server answers a client's first record. -/
def sampleAnswer (record : Bytes) : List Bytes :=
  match (Server.ServerHandshake.readRecord .sample (.sample 2) .sample .new record).1 with
  | .ok reply => records reply
  | .error _ => []

theorem run_serverAuthenticated_sample :
    ∃ connection, ((endpoint .sample .sample).run sampleStarted.1
        ((sampleAnswer sampleStarted.2).map (.sample 3, ·))).state = .done connection ∧
      ∃ opening hellos flight finished,
        Started .sample (.sample 1) .sample sampleStarted.1 sampleStarted.2 opening ∧
        ServerAuthenticated .sample .sample opening ((endpoint .sample .sample).taken
          sampleStarted.1 ((sampleAnswer sampleStarted.2).map (.sample 3, ·)))
          connection hellos flight finished := by
  have hdone : ClientHandshake.isFinished ((endpoint .sample .sample).run sampleStarted.1
      ((sampleAnswer sampleStarted.2).map (.sample 3, ·))) = true := by decide +kernel
  obtain ⟨connection, hdone⟩ := ClientHandshake.isFinished_iff.mp hdone
  exact ⟨connection, hdone, (run_serverAuthenticated _ _ _ _ _ start_sampleStarted _ _ hdone).2⟩

end RustyTls.Client
