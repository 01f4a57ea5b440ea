import RustyTls.HelloExchange

/-!
# RustyTls.FlightExchange

The server's flight of an honest run, as this client reads it, and the client's answer.

`Reads` follows the client through the messages and keeps the transcripts it hashes on the way;
one `handleFlight` lemma per message is all that is known of the handlers. `handleAll_flight` is
the whole: the flight is read to its end, the answer is sealed under the key that the server
expects it under, and the transcripts hashed are `handshakeTranscripts`, which is written in the
server's terms. The answer is one of three (`Answers`).
-/

namespace RustyTls

open Core

/-! ### Reading messages -/

namespace Endpoint

variable {ε σ τ : Type} (entropy : Entropy) (handle : σ → Message → Except ε (Bytes × σ))
  (observe : Taken σ → List τ)

/-- What is observed of the steps that a list of messages takes. -/
def observed (s : σ) (ms : List Message) : List τ :=
  (stepsOf entropy handle s ms).flatMap observe

/-- Messages that are taken without an answer, from one state to another, with what is observed
of their steps. -/
def Reads (s : σ) (ms : List Message) (s' : σ) (ts : List τ) : Prop :=
  ∀ rest, handleAll handle s (ms ++ rest) = handleAll handle s' rest ∧
    observed entropy handle observe s (ms ++ rest) = ts ++ observed entropy handle observe s' rest

variable {entropy} {handle} {observe} {s s' s'' : σ} {ts ts' : List τ}

theorem Reads.nil : Reads entropy handle observe s [] s [] :=
  fun _ => ⟨rfl, rfl⟩

theorem Reads.single {m : Message} (hhandle : handle s m = .ok ([], s'))
    (hobserve : observe ⟨entropy, s, m, [], s'⟩ = ts) :
    Reads entropy handle observe s [m] s' ts := by
  intro rest
  constructor
  · rw [List.singleton_append, handleAll_cons, hhandle, ok_bind]
    cases handleAll handle s' rest with
    | error err => rfl
    | ok result => simp
  · rw [List.singleton_append, observed, stepsOf, hhandle]
    simp only [List.flatMap_cons, hobserve]
    rfl

theorem Reads.append {ms ms' : List Message} (h : Reads entropy handle observe s ms s' ts)
    (h' : Reads entropy handle observe s' ms' s'' ts') :
    Reads entropy handle observe s (ms ++ ms') s'' (ts ++ ts') := by
  intro rest
  obtain ⟨hall, hobserved⟩ := h (ms' ++ rest)
  obtain ⟨hall', hobserved'⟩ := h' rest
  rw [List.append_assoc, hall, hall', hobserved, hobserved', List.append_assoc]
  exact ⟨rfl, rfl⟩

/-- The observation of a message that is answered. -/
theorem observed_single {m : Message} {reply : Bytes} (hhandle : handle s m = .ok (reply, s')) :
    observed entropy handle observe s [m] = observe ⟨entropy, s, m, reply, s'⟩ := by
  rw [observed, stepsOf, hhandle]
  simp [stepsOf]

end Endpoint

/-! ### Certificate messages -/

theorem certificateBody_eq {context : Bytes} {write : Writer → Writer}
    (hcontext : Writer.Appends write context) (chain : List Bytes) :
    ((Writer.new.vectorU8 write).vectorU24 (.each chain fun certificate w =>
      (w.vectorU24 (.bytes certificate)).vectorU16 (fun w => w))).intoVec
      = (CertificateMessage.ofChain context chain).encode := by
  have hentries : Writer.Appends (Writer.vectorU24 (.each chain fun certificate w =>
      (w.vectorU24 (.bytes certificate)).vectorU16 (fun w => w)))
      (prefixed 3 (chain.flatMap fun certificate => prefixed 3 certificate ++ prefixed 2 [])) := by
    refine Writer.vectorU24_appends (Writer.each_appends ?_ _)
    intro certificate
    exact Writer.comp_appends (Writer.vectorU24_appends (Writer.bytes_appends certificate))
      (Writer.vectorU16_appends Writer.id_appends)
  have happends := Writer.vectorU8_appends hcontext
  rw [CertificateMessage.encode_eq, happends _, hentries _]
  simp [Writer.intoVec, Writer.new, CertificateMessage.ofChain, CertificateMessage.entryBytes,
    List.flatMap_map]

theorem Server.certificateMessage_eq (chain : List Bytes) :
    Server.certificateMessage chain
      = Message.encode .certificate (CertificateMessage.ofChain [] chain).encode :=
  congrArg (Message.encode .certificate) (certificateBody_eq Writer.id_appends chain)

theorem Client.clientCertificateMessage_eq (context : Bytes) (chain : List Bytes) :
    Client.clientCertificateMessage context chain
      = Message.encode .certificate (CertificateMessage.ofChain context chain).encode :=
  congrArg (Message.encode .certificate) (certificateBody_eq (Writer.bytes_appends context) chain)

/-- A chain that fits a record is read back. -/
theorem parse_certificateChain {context : Bytes} {chain : List Bytes}
    (hlen : (Message.encode .certificate
      (CertificateMessage.ofChain context chain).encode).length ≤ maxFragmentLen)
    (hcontext : context.length < 2 ^ 8) :
    CertificateMessage.parse (CertificateMessage.ofChain context chain).encode
      = .ok (CertificateMessage.ofChain context chain) := by
  obtain ⟨hmax, -⟩ := limits
  rw [Message.encode_eq, CertificateMessage.encode_eq, hmax] at hlen
  simp only [List.length_cons, prefixed_length, List.length_append] at hlen
  exact CertificateMessage.parse_encode (CertificateMessage.ofChain_fits hcontext (by omega))

theorem certificateVerifyBody_eq (scheme : SignatureScheme) (signature : Bytes) :
    ((Writer.new.u16 scheme.code).vectorU16 (.bytes signature)).intoVec
      = (CertificateVerify.mk scheme.code signature).encode := rfl

theorem parse_certificateVerify {verify : CertificateVerify} (hne : verify.signature ≠ [])
    (hlen : (Message.encode .certificateVerify verify.encode).length ≤ maxFragmentLen) :
    CertificateVerify.parse verify.encode = .ok verify := by
  obtain ⟨hmax, -⟩ := limits
  rw [Message.encode_eq, CertificateVerify.encode_eq, hmax] at hlen
  simp only [List.length_cons, prefixed_length, List.length_append] at hlen
  exact CertificateVerify.parse_encode hne (by omega)

/-- The transcript that a server signs, unless it resumes. -/
def Server.FlightDraw.certified (config : ServerConfig) (head : Bytes) (hello : ClientHello)
    (selected : Selected) (draw : FlightDraw) : List Transcript :=
  if selected.psk.isSome then
    []
  else
    [⟨selected.hash, draw.hellos head hello selected ++ opening config selected ++
      certificateMessage config.certificates⟩]

/-! ### The server's flight, read by the client -/

namespace Client

variable {ring : Ring} {client : ClientConfig} {server : Server.ServerConfig} {entropy : Entropy}
  {negotiated : Negotiated}

/-- The keys of a client are those of the flight that it reads. -/
structure InStep (ring : Ring) (head : Bytes) (hello : ClientHello) (selected : Server.Selected)
    (draw : Server.FlightDraw) (negotiated : Negotiated) : Prop where
  suite : negotiated.suite = selected.suite
  aead : negotiated.aead = selected.aead
  hash : negotiated.hash = selected.hash
  schedule : negotiated.schedule = draw.schedule ring selected
  clientSecret : negotiated.clientHandshakeSecret = draw.clientSecret ring head hello selected
  serverSecret : negotiated.serverHandshakeSecret = draw.serverSecret ring head hello selected
  resumed : negotiated.resumed = selected.psk.isSome

theorem handleFlight_encryptedExtensions (entropy : Entropy) (negotiated : Negotiated) :
    handleFlightMessage ring entropy client .encryptedExtensions negotiated
        (Message.of .encryptedExtensions (Writer.new.vectorU16 (fun w => w)).intoVec)
      = .ok ([], .inFlight (if negotiated.resumed then .finished else .certificate)
          { negotiated with transcript := negotiated.transcript.add Server.encryptedExtensions }) :=
  rfl

theorem handleFlight_certificateRequest (entropy : Entropy) (hresumed : negotiated.resumed = false)
    (hfirst : negotiated.certificateRequest = none) (body : Bytes)
    {request : CertificateRequestMessage} (hparse : CertificateRequestMessage.parse body = .ok request) :
    handleFlightMessage ring entropy client .certificate negotiated
        (Message.of .certificateRequest body)
      = .ok ([], .inFlight .certificate { negotiated with
          certificateRequest := some request
          transcript := negotiated.transcript.add (Message.encode .certificateRequest body) }) := by
  have hresumed' : ¬ negotiated.resumed = true := by simp [hresumed]
  have hfirst' : ¬ negotiated.certificateRequest.isSome = true := by simp [hfirst]
  simp only [handleFlightMessage, Message.of, if_true, handleCertificateRequest,
    refuse_neg _ hresumed', ok_bind, ne_eq, not_true_eq_false, refuse_neg _ not_false,
    refuse_neg _ hfirst', hparse, mapErr_ok]
  rfl

theorem handleFlight_certificate (entropy : Entropy) {chain : List Bytes} (hne : chain ≠ [])
    (hlen : (Message.encode .certificate
      (CertificateMessage.ofChain [] chain).encode).length ≤ maxFragmentLen) :
    handleFlightMessage ring entropy client .certificate negotiated
        (Message.of .certificate (CertificateMessage.ofChain [] chain).encode)
      = .ok ([], .inFlight .certificateVerify { negotiated with
          certificates := chain
          transcript := negotiated.transcript.add (Server.certificateMessage chain)
          certificateTranscript
            := (negotiated.transcript.add (Server.certificateMessage chain)).hash ring }) := by
  have hentries : ¬ (CertificateMessage.ofChain [] chain).entries = [] := by
    simpa [CertificateMessage.ofChain] using hne
  have hchain : (CertificateMessage.ofChain [] chain).entries.map (·.certificate) = chain := by
    simp [CertificateMessage.ofChain, Function.comp_def]
  rw [Server.certificateMessage_eq]
  simp only [handleFlightMessage, Message.of, reduceCtorEq, if_false, handleCertificate,
    parse_certificateChain hlen (by decide), mapErr_ok, ok_bind, refuse_neg _ hentries, hchain]
  rfl

theorem handleFlight_certificateVerify (entropy : Entropy) {verify : CertificateVerify}
    (hparse : CertificateVerify.parse verify.encode = .ok verify) {leaf : Certificate}
    {rest : List Certificate} {path : VerifiedPath}
    (hchain : collect (negotiated.certificates.map Certificate.parse) = .ok (leaf :: rest))
    (hpath : verifyPeerCertificate ring leaf rest client.anchors client.serverName client.path
      = .ok path)
    (hverify : verifyTls13Signature ring ⟨verify.scheme⟩ leaf.subjectPublicKeyInfo
      (certificateVerifyContent serverCertificateVerifyContext negotiated.certificateTranscript)
      verify.signature = .ok ()) :
    handleFlightMessage ring entropy client .certificateVerify negotiated
        (Message.of .certificateVerify verify.encode)
      = .ok ([], .inFlight .finished { negotiated with
          transcript := negotiated.transcript.add
            (Message.encode .certificateVerify verify.encode) }) := by
  have hcheck : checkPeer ring client negotiated verify = .ok () := by
    simp only [checkPeer, hchain, mapErr_ok, ok_bind, List.head?_cons, okOr_some, List.tail_cons,
      hpath, hverify]
  simp only [handleFlightMessage, Message.of, reduceCtorEq, if_false, handleCertificateVerify,
    hparse, mapErr_ok, ok_bind, hcheck]
  rfl

/-! ### The client's flight -/

/-- The request that this server makes. -/
def serverRequest : CertificateRequestMessage where
  context := []
  schemes := SignatureScheme.tls13Supported.map (·.code)

theorem answeringIdentity_serverRequest (config : ClientConfig) :
    answeringIdentity config serverRequest = config.identity := by
  cases hidentity : config.identity with
  | none => rw [answeringIdentity, hidentity]; rfl
  | some identity =>
      rw [answeringIdentity, hidentity, Option.filter_some_eq_some]
      cases identity.key <;> rfl

/-- What a client sends before its Finished, as messages: nothing when it was not asked, an empty
Certificate when it has none, or its chain and a proof that it holds the leaf's key. -/
inductive Answers (ring : Ring) (client : ClientConfig) (server : Server.ServerConfig)
    (transcript : Transcript) : Option CertificateRequestMessage → List Message → Prop
  | unasked : Answers ring client server transcript none []
  | declined {auth : Server.ClientAuth} : server.clientAuth = some auth → auth.required = false →
      client.identity = none →
      Answers ring client server transcript (some serverRequest)
        [Message.of .certificate (CertificateMessage.ofChain [] []).encode]
  | proved {auth : Server.ClientAuth} {identity : ClientIdentity} {leaf : Certificate}
      {rest : List Certificate} {path : VerifiedPath} {verify : CertificateVerify} :
      server.clientAuth = some auth → client.identity = some identity →
      collect (identity.certificates.map Certificate.parse) = .ok (leaf :: rest) →
      validatePath ring leaf rest auth.anchors auth.path = .ok path → verify.signature ≠ [] →
      verifyTls13Signature ring ⟨verify.scheme⟩ leaf.subjectPublicKeyInfo
        (certificateVerifyContent clientCertificateVerifyContext
          ((transcript.add (clientCertificateMessage [] identity.certificates)).hash ring))
        verify.signature = .ok () →
      Answers ring client server transcript (some serverRequest)
        [Message.of .certificate (CertificateMessage.ofChain [] identity.certificates).encode,
          Message.of .certificateVerify verify.encode]

/-- A client that the server's posture suits can always answer it. -/
theorem clientAuthentication_answers (hcompat : Compatible ring client server)
    (entropy : Entropy) (transcript : Transcript)
    (hrequest : negotiated.certificateRequest = none ∨
      ∃ auth, server.clientAuth = some auth ∧
        negotiated.certificateRequest = some serverRequest) :
    ∃ ms, Answers ring client server transcript negotiated.certificateRequest ms ∧
      clientAuthentication ring entropy client negotiated transcript = .ok (octets ms) := by
  rcases hrequest with hnone | ⟨auth, hauth, hsome⟩
  · rw [hnone, clientAuthentication, hnone]
    exact ⟨[], .unasked, rfl⟩
  have hsatisfied := hcompat.clientAuth auth hauth
  have hanswering := answeringIdentity_serverRequest client
  rw [hsome]
  rw [Server.ClientAuth.SatisfiedBy] at hsatisfied
  cases hidentity : client.identity with
  | none =>
      rw [hidentity] at hsatisfied hanswering
      refine ⟨_, .declined hauth hsatisfied hidentity, ?_⟩
      simp only [clientAuthentication, hsome, answerRequest, hanswering,
        clientCertificateMessage_eq]
      simp [octets, Message.of, serverRequest]
  | some identity =>
      rw [hidentity] at hsatisfied hanswering
      obtain ⟨leaf, rest, path, hchain, hpath, hproves⟩ := hsatisfied
      obtain ⟨scheme, hscheme⟩ : ∃ scheme, identity.key.schemes.find? (fun scheme =>
          serverRequest.schemes.contains scheme.code) = some scheme := by
        cases identity.key <;> exact ⟨_, rfl⟩
      obtain ⟨signature, hsign, hne, hverify⟩ := hproves.signs (List.mem_of_find?_eq_some hscheme)
        entropy (certificateVerifyContent clientCertificateVerifyContext
          ((transcript.add (clientCertificateMessage [] identity.certificates)).hash ring))
      refine ⟨[Message.of .certificate
        (CertificateMessage.ofChain [] identity.certificates).encode, Message.of .certificateVerify
        (CertificateVerify.mk scheme.code signature).encode],
        .proved hauth hidentity hchain hpath hne hverify, ?_⟩
      simp only [clientAuthentication, hsome, answerRequest, hanswering, proveIdentity, hscheme,
        okOr_some, ok_bind, show serverRequest.context = [] from rfl, hsign, mapErr_ok,
        certificateVerifyBody_eq]
      simp [octets, Message.of, clientCertificateMessage_eq]

/-- The client's Finished. -/
def finishedMessage (ring : Ring) (negotiated : Negotiated) (transcript : Transcript) : Message :=
  Message.of .finished (finishedVerifyData ring negotiated.hash negotiated.clientHandshakeSecret
    (transcript.hash ring))

/-- The one thing a call may fail with: a flight that does not fit a record. -/
def TooLong {α : Type} (result : Except ClientError α) : Prop :=
  ∃ len max, result = .error (.record (.fragmentTooLong len max))

theorem hashBytes_ne {bytes : Bytes} {hash : Hash} (h : bytes.length = hash.len) : bytes ≠ [] := by
  intro hnil
  rw [hnil] at h
  have := hash.len_pos
  simp at h
  omega

/-- What a client is left with, once it has read the flight. -/
structure Finishes (lawful : ring.Lawful) (negotiated : Negotiated) (transcript : Transcript)
    (connection : Connection) : Prop where
  suite : connection.suite = negotiated.suite
  resumed : connection.resumed = negotiated.resumed
  sealer : connection.sealer = ⟨directionKey lawful negotiated.hash
    ((negotiated.schedule.intoMaster ring).derive ring "c ap traffic" (transcript.hash ring))
    negotiated.aead, .startingAt 0⟩
  opener : connection.opener = ⟨directionKey lawful negotiated.hash
    ((negotiated.schedule.intoMaster ring).derive ring "s ap traffic" (transcript.hash ring))
    negotiated.aead, .startingAt 0⟩

/-- The server's Finished is verified and answered, unless the answer does not fit a record. -/
theorem finish_answers (complete : ring.Complete) {body : Bytes}
    (hbody : body = finishedVerifyData ring negotiated.hash negotiated.serverHandshakeSecret
      (negotiated.transcript.hash ring)) {ms : List Message}
    (hauth : clientAuthentication ring entropy client negotiated
      (negotiated.transcript.add (Message.encode .finished body)) = .ok (octets ms)) :
    (∃ record sealer connection,
      (Sealer.mk (directionKey complete.toLawful negotiated.hash negotiated.clientHandshakeSecret
        negotiated.aead) (.startingAt 0)).sealRecord ring .handshake (octets (ms ++
          [finishedMessage ring negotiated ((negotiated.transcript.add
            (Message.encode .finished body)).add (octets ms))])) 0 = (.ok record, sealer) ∧
      handleFlightMessage ring entropy client .finished negotiated (Message.of .finished body)
        = .ok (plaintextRecord .changeCipherSpec 0x0303 [0x01] ++ record, .done connection) ∧
      Finishes complete.toLawful negotiated
        (negotiated.transcript.add (Message.encode .finished body)) connection) ∨
    TooLong (handleFlightMessage ring entropy client .finished negotiated
      (Message.of .finished body)) := by
  have lawful := complete.toLawful
  have hne : body ≠ [] := hashBytes_ne (hbody ▸ finishedVerifyData_length lawful _ _ _)
  have hparse : parseFinished body = .ok body := by
    rw [parseFinished, refuse_neg _ hne, ok_bind]
  have hverify : verifyFinished ring negotiated.hash negotiated.serverHandshakeSecret
      (negotiated.transcript.hash ring) body = true := verifyFinished_iff.mpr hbody.symm
  have hverify' : ¬ verifyFinished ring negotiated.hash negotiated.serverHandshakeSecret
      (negotiated.transcript.hash ring) body = false := by simp [hverify]
  have hoctets : octets (ms ++ [finishedMessage ring negotiated ((negotiated.transcript.add
      (Message.encode .finished body)).add (octets ms))])
      = octets ms ++ Message.encode .finished (finishedVerifyData ring negotiated.hash
          negotiated.clientHandshakeSecret (((negotiated.transcript.add
            (Message.encode .finished body)).add (octets ms)).hash ring)) := by
    simp [finishedMessage, Message.of]
  have hadd : negotiated.transcript.addMessage ⟨.finished, body, Message.encode .finished body⟩
      = negotiated.transcript.add (Message.encode .finished body) := rfl
  rw [hoctets]
  simp only [handleFlightMessage, Message.of, reduceCtorEq, if_false, finish, hparse, mapErr_ok,
    ok_bind, refuse_neg _ hverify', hadd, hauth, sealer_new lawful, opener_new lawful]
  rcases sealRecord_fresh complete (directionKey lawful negotiated.hash
    negotiated.clientHandshakeSecret negotiated.aead) (octets ms ++ Message.encode .finished
      (finishedVerifyData ring negotiated.hash negotiated.clientHandshakeSecret
        (((negotiated.transcript.add (Message.encode .finished body)).add
          (octets ms)).hash ring))) with ⟨record, hrecord⟩ | hlong
  · left
    rw [hrecord]
    exact ⟨record, _, _, rfl, rfl, rfl, rfl, rfl, rfl⟩
  · right
    rw [hlong]
    exact ⟨_, _, rfl⟩

/-! ### The transcripts it hashes -/

/-- What a client hashes as it finishes: the transcript that the server's Finished covers, the one
the application secrets are derived from, the one it signs, the one its own Finished covers and
the one of the whole handshake. -/
def finishHashed (ring : Ring) (config : ClientConfig) (entropy : Entropy)
    (negotiated : Negotiated) (message : Message) : List Transcript :=
  let received := negotiated.transcript.addMessage message
  match clientAuthentication ring entropy config negotiated received with
  | .error _ => [negotiated.transcript, received]
  | .ok authentication =>
      let answered := received.add authentication
      let signed := match negotiated.certificateRequest with
        | none => []
        | some request => (answeringIdentity config request).toList.map fun identity =>
            received.add (clientCertificateMessage request.context identity.certificates)
      [negotiated.transcript, received] ++ signed ++
        [answered, answered.addMessage (finishedMessage ring negotiated answered)]

/-- The transcripts that a client hashes in one step, in order. -/
def hashed (ring : Ring) (config : ClientConfig) (step : Endpoint.Taken State) : List Transcript :=
  match step.before, step.after with
  | .awaitServerHello _, .inFlight _ negotiated => [negotiated.transcript]
  | .inFlight _ _, .inFlight .certificateVerify negotiated => [negotiated.transcript]
  | .inFlight _ negotiated, .done _ =>
      finishHashed ring config step.entropy negotiated step.message
  | _, _ => []

/-- The client reads messages from one state to another, and hashes these transcripts. -/
abbrev Reads (ring : Ring) (client : ClientConfig) (entropy : Entropy) (state : State)
    (ms : List Message) (state' : State) (ts : List Transcript) : Prop :=
  Endpoint.Reads entropy (handleMessage ring entropy client) (hashed ring client) state ms state' ts

theorem reads_single {expect : Expect} {s' : State} {m : Message} {ts : List Transcript}
    (hhandle : handleFlightMessage ring entropy client expect negotiated m = .ok ([], s'))
    (hhashed : hashed ring client ⟨entropy, .inFlight expect negotiated, m, [], s'⟩ = ts) :
    Reads ring client entropy (.inFlight expect negotiated) [m] s' ts :=
  Endpoint.Reads.single hhandle hhashed

/-! ### A whole flight -/

theorem framed_of_short {typ : HandshakeType} (htyp : typ.Known) {body : Bytes}
    (h : (Message.encode typ body).length ≤ maxFragmentLen) : Framed (Message.of typ body) := by
  obtain ⟨hmax, -⟩ := limits
  rw [Message.encode_eq, hmax] at h
  simp only [List.length_cons, prefixed_length] at h
  exact Message.of_framed htyp (by omega)

/-- The request of this server, as its client parses it. -/
theorem certificateRequest_eq :
    ∃ body, Server.certificateRequest = Message.encode .certificateRequest body ∧
      CertificateRequestMessage.parse body = .ok serverRequest ∧ body.length < 2 ^ 24 := by
  refine ⟨_, rfl, ?_, ?_⟩
  · decide
  · decide

/-- Everything before the Certificate: EncryptedExtensions, and the request if there is one. -/
theorem reads_opening {selected : Server.Selected} (hresumed : negotiated.resumed = false)
    (hfull : selected.psk = none) (hrequest : negotiated.certificateRequest = none) :
    ∃ ms request, (∀ m ∈ ms, Framed m) ∧
      octets ms = Server.FlightDraw.opening server selected ∧
      (request = none ∨ ∃ auth, server.clientAuth = some auth ∧ request = some serverRequest) ∧
      request.isSome = Server.asksForCertificate server selected.psk ∧
      Reads ring client entropy (.inFlight .encryptedExtensions negotiated) ms
        (.inFlight .certificate { negotiated with
          certificateRequest := request
          transcript := negotiated.transcript.add (Server.FlightDraw.opening server selected) })
        [] := by
  let extensions := Message.of .encryptedExtensions (Writer.new.vectorU16 (fun w => w)).intoVec
  have hextensions : Framed extensions := @Message.of_framed .encryptedExtensions rfl _ (by decide)
  have hread : Reads ring client entropy (.inFlight .encryptedExtensions negotiated) [extensions]
      (.inFlight .certificate { negotiated with
        transcript := negotiated.transcript.add Server.encryptedExtensions }) [] := by
    have hhandle := @handleFlight_encryptedExtensions ring client entropy negotiated
    rw [if_neg (by simp [hresumed])] at hhandle
    exact reads_single hhandle rfl
  cases hauth : server.clientAuth with
  | none =>
      have hasks : Server.asksForCertificate server selected.psk = false := by
        simp [Server.asksForCertificate, hauth]
      have hopening : Server.FlightDraw.opening server selected = Server.encryptedExtensions := by
        simp [Server.FlightDraw.opening, hasks]
      refine ⟨[extensions], none, by simpa using hextensions, ?_, .inl rfl, by simp [hasks], ?_⟩
      · rw [hopening]
        simp [extensions, Message.of, Server.encryptedExtensions]
      · rw [hopening, ← hrequest]
        exact hread
  | some auth =>
      have hasks : Server.asksForCertificate server selected.psk = true := by
        simp [Server.asksForCertificate, hauth, hfull]
      obtain ⟨body, hbody, hparse, hlen⟩ := certificateRequest_eq
      have hopening : Server.FlightDraw.opening server selected
          = Server.encryptedExtensions ++ Message.encode .certificateRequest body := by
        simp [Server.FlightDraw.opening, hasks, hbody]
      have hframed : Framed (Message.of .certificateRequest body) :=
        @Message.of_framed .certificateRequest rfl _ hlen
      refine ⟨[extensions] ++ [Message.of .certificateRequest body], some serverRequest, ?_, ?_,
        .inr ⟨auth, rfl, rfl⟩, by simp [hasks], ?_⟩
      · exact List.forall_mem_append.mpr
          ⟨List.forall_mem_singleton.mpr hextensions, List.forall_mem_singleton.mpr hframed⟩
      · rw [hopening]
        simp [extensions, Message.of, Server.encryptedExtensions]
      · have htranscript : negotiated.transcript.add (Server.FlightDraw.opening server selected)
            = (negotiated.transcript.add Server.encryptedExtensions).add
                (Message.encode .certificateRequest body) := by
          rw [hopening]
          simp [Transcript.add]
        rw [htranscript]
        exact hread.append (reads_single (@handleFlight_certificateRequest ring client
          { negotiated with transcript := negotiated.transcript.add Server.encryptedExtensions }
          entropy hresumed hrequest body serverRequest hparse) rfl)

/-- The Certificate of a compatible server and the proof of its key. -/
theorem reads_authentication (hcompat : Compatible ring client server) {scheme : SignatureScheme}
    (hscheme : scheme ∈ server.key.schemes) {drawn : Entropy} {authentication : Bytes}
    (h : Server.serverAuthentication ring drawn server scheme none negotiated.transcript
      = .ok authentication) (hshort : authentication.length ≤ maxFragmentLen) :
    ∃ ms, (∀ m ∈ ms, Framed m) ∧ octets ms = authentication ∧
      Reads ring client entropy (.inFlight .certificate negotiated) ms
        (.inFlight .finished { negotiated with
          certificates := server.certificates
          transcript := negotiated.transcript.add authentication
          certificateTranscript := (negotiated.transcript.add
            (Server.certificateMessage server.certificates)).hash ring })
        [negotiated.transcript.add (Server.certificateMessage server.certificates)] := by
  simp only [Server.serverAuthentication, bind_eq_ok, mapErr_eq_ok] at h
  obtain ⟨signature, hsign, heq⟩ := h
  obtain ⟨leaf, rest, path, hchain, hpath, hproves⟩ := hcompat.accepted
  obtain ⟨signature', hsign', hne, hverify⟩ := hproves.signs hscheme drawn _
  obtain rfl : signature' = signature := Except.ok.inj (hsign'.symm.trans hsign)
  let verify : CertificateVerify := ⟨scheme.code, signature'⟩
  obtain rfl : Server.certificateMessage server.certificates ++
      Message.encode .certificateVerify verify.encode = authentication := Except.ok.inj heq
  rw [List.length_append, Server.certificateMessage_eq] at hshort
  have hcertificate : (Message.encode .certificate
      (CertificateMessage.ofChain [] server.certificates).encode).length ≤ maxFragmentLen := by
    omega
  have hverifyLen : (Message.encode .certificateVerify verify.encode).length ≤ maxFragmentLen := by
    omega
  have hnotEmpty : server.certificates ≠ [] := by
    intro hnil
    rw [hnil] at hchain
    simp [collect] at hchain
  have hcertificateRead := reads_single (@handleFlight_certificate ring client negotiated entropy _
    hnotEmpty hcertificate) rfl
  have hverifyRead := reads_single (@handleFlight_certificateVerify ring client
    { negotiated with
      certificates := server.certificates
      transcript := negotiated.transcript.add (Server.certificateMessage server.certificates)
      certificateTranscript := (negotiated.transcript.add
        (Server.certificateMessage server.certificates)).hash ring }
    entropy verify (parse_certificateVerify hne hverifyLen) leaf rest path hchain hpath hverify) rfl
  refine ⟨[Message.of .certificate (CertificateMessage.ofChain [] server.certificates).encode] ++
    [Message.of .certificateVerify verify.encode], ?_, ?_, ?_⟩
  · exact List.forall_mem_append.mpr
      ⟨List.forall_mem_singleton.mpr (@framed_of_short .certificate rfl _ hcertificate),
        List.forall_mem_singleton.mpr (@framed_of_short .certificateVerify rfl _ hverifyLen)⟩
  · rw [octets_append, Server.certificateMessage_eq]
    simp [Message.of]
  · have htranscript : negotiated.transcript.add (Server.certificateMessage server.certificates ++
        Message.encode .certificateVerify verify.encode)
        = (negotiated.transcript.add (Server.certificateMessage server.certificates)).add
          (Message.encode .certificateVerify verify.encode) := by
      simp [Transcript.add]
    rw [htranscript]
    exact hcertificateRead.append hverifyRead

/-- The messages `ms` are the flight up to its Finished, and reading them leads to `final`. -/
structure ReadsFlight (ring : Ring) (client : ClientConfig) (server : Server.ServerConfig)
    (entropy : Entropy) (head : Bytes) (hello : ClientHello) (selected : Server.Selected)
    (draw : Server.FlightDraw) (negotiated : Negotiated) (ms : List Message)
    (final : Negotiated) : Prop where
  framed : ∀ m ∈ ms, Framed m
  octets : octets ms = Server.FlightDraw.opening server selected ++ draw.authentication
  reads : Reads ring client entropy (.inFlight .encryptedExtensions negotiated) ms
    (.inFlight .finished final) (draw.certified server head hello selected)
  instep : InStep ring head hello selected draw final
  transcript : final.transcript = ⟨selected.hash, draw.covered server head hello selected⟩
  posture : final.certificateRequest = none ∨ ∃ auth, server.clientAuth = some auth ∧
    final.certificateRequest = some serverRequest
  asked : final.certificateRequest.isSome = Server.asksForCertificate server selected.psk

section Flight

variable {head : Bytes} {hello : ClientHello} {selected : Server.Selected}
  {draw : Server.FlightDraw}

/-- On a resumed session EncryptedExtensions is all there is. -/
theorem reads_resumedFlight (hpsk : selected.psk.isSome = true) (hnothing : draw.authentication = [])
    (hinstep : InStep ring head hello selected draw negotiated)
    (htranscript : negotiated.transcript = ⟨selected.hash, draw.hellos head hello selected⟩)
    (hrequest : negotiated.certificateRequest = none) :
    ∃ ms final,
      ReadsFlight ring client server entropy head hello selected draw negotiated ms final := by
  obtain ⟨psk, hpsk⟩ := Option.isSome_iff_exists.mp hpsk
  have hresumed : negotiated.resumed = true := by simp [hinstep.resumed, hpsk]
  have hasks : Server.asksForCertificate server selected.psk = false := by
    simp [Server.asksForCertificate, hpsk]
  have hopening : Server.FlightDraw.opening server selected = Server.encryptedExtensions := by
    simp [Server.FlightDraw.opening, hasks]
  have hcertified : draw.certified server head hello selected = [] := by
    simp [Server.FlightDraw.certified, hpsk]
  have hhandle := @handleFlight_encryptedExtensions ring client entropy negotiated
  rw [if_pos hresumed] at hhandle
  refine ⟨[Message.of .encryptedExtensions (Writer.new.vectorU16 (fun w => w)).intoVec],
    { negotiated with transcript := negotiated.transcript.add Server.encryptedExtensions },
    ?_, ?_, ?_, ?_, ?_, .inl hrequest, ?_⟩
  · exact List.forall_mem_singleton.mpr (@Message.of_framed .encryptedExtensions rfl _ (by decide))
  · rw [hopening, hnothing]
    simp [Message.of, Server.encryptedExtensions]
  · rw [hcertified]
    exact reads_single hhandle rfl
  · exact ⟨hinstep.suite, hinstep.aead, hinstep.hash, hinstep.schedule, hinstep.clientSecret,
      hinstep.serverSecret, hinstep.resumed⟩
  · simp [htranscript, Transcript.add, Server.FlightDraw.covered, hopening, hnothing]
  · rw [hasks]
    simp [hrequest]

/-- Otherwise the server proves who it is. -/
theorem reads_fullFlight (hcompat : Compatible ring client server) {drawn : Entropy}
    (hpsk : selected.psk = none) (hscheme : selected.scheme ∈ server.key.schemes)
    (hauthentication : Server.serverAuthentication ring drawn server selected.scheme none
      ⟨selected.hash, draw.hellos head hello selected ++ Server.FlightDraw.opening server selected⟩
        = .ok draw.authentication)
    (hshort : draw.authentication.length ≤ maxFragmentLen)
    (hinstep : InStep ring head hello selected draw negotiated)
    (htranscript : negotiated.transcript = ⟨selected.hash, draw.hellos head hello selected⟩)
    (hrequest : negotiated.certificateRequest = none) :
    ∃ ms final,
      ReadsFlight ring client server entropy head hello selected draw negotiated ms final := by
  have hresumed : negotiated.resumed = false := by simp [hinstep.resumed, hpsk]
  obtain ⟨front, request, hframed, hoctets, hposture, hasked, hreads⟩ :=
    @reads_opening ring client server entropy negotiated selected hresumed hpsk hrequest
  have hopened : negotiated.transcript.add (Server.FlightDraw.opening server selected)
      = ⟨selected.hash,
        draw.hellos head hello selected ++ Server.FlightDraw.opening server selected⟩ := by
    rw [htranscript]
    rfl
  obtain ⟨back, hframed', hoctets', hreads'⟩ := @reads_authentication ring client server entropy
    { negotiated with
      certificateRequest := request
      transcript := negotiated.transcript.add (Server.FlightDraw.opening server selected) }
    hcompat _ hscheme drawn _ (hopened ▸ hauthentication) hshort
  have hcertified : draw.certified server head hello selected
      = [(negotiated.transcript.add (Server.FlightDraw.opening server selected)).add
          (Server.certificateMessage server.certificates)] := by
    simp [Server.FlightDraw.certified, hpsk, htranscript, Transcript.add]
  refine ⟨front ++ back, _, List.forall_mem_append.mpr ⟨hframed, hframed'⟩, ?_,
    hcertified ▸ hreads.append hreads', ?_, ?_, hposture, hasked⟩
  · rw [octets_append, hoctets, hoctets']
  · exact ⟨hinstep.suite, hinstep.aead, hinstep.hash, hinstep.schedule, hinstep.clientSecret,
      hinstep.serverSecret, hinstep.resumed⟩
  · simp [htranscript, Transcript.add, Server.FlightDraw.covered]

/-- The flight up to its Finished. -/
theorem reads_flight (hcompat : Compatible ring client server) {drawn : Entropy}
    (hscheme : selected.scheme ∈ server.key.schemes)
    (hauthentication : Server.serverAuthentication ring drawn server selected.scheme selected.psk
      ⟨selected.hash, draw.hellos head hello selected ++ Server.FlightDraw.opening server selected⟩
        = .ok draw.authentication)
    (hshort : (draw.flight ring server head hello selected).length ≤ maxFragmentLen)
    (hinstep : InStep ring head hello selected draw negotiated)
    (htranscript : negotiated.transcript = ⟨selected.hash, draw.hellos head hello selected⟩)
    (hrequest : negotiated.certificateRequest = none) :
    ∃ ms final,
      ReadsFlight ring client server entropy head hello selected draw negotiated ms final := by
  cases hpsk : selected.psk with
  | some psk =>
      rw [hpsk] at hauthentication
      have hnothing : draw.authentication = [] := (Except.ok.inj hauthentication).symm
      exact reads_resumedFlight (by simp [hpsk]) hnothing hinstep htranscript hrequest
  | none =>
      rw [hpsk] at hauthentication
      have hpart : draw.authentication.length ≤ maxFragmentLen := by
        simp only [Server.FlightDraw.flight, List.length_append] at hshort
        omega
      exact reads_fullFlight hcompat hpsk hscheme hauthentication hpart hinstep htranscript hrequest

end Flight

/-- The transcript that a client signs with its answer, if it does. -/
def signedBy (transcript : Transcript) : List Message → List Transcript
  | [certificate, _] => [transcript.addMessage certificate]
  | _ => []

theorem finishHashed_answers {message : Message} {ms : List Message}
    (hanswers : Answers ring client server (negotiated.transcript.addMessage message)
      negotiated.certificateRequest ms)
    (hauth : clientAuthentication ring entropy client negotiated
      (negotiated.transcript.addMessage message) = .ok (octets ms)) :
    finishHashed ring client entropy negotiated message
      = [negotiated.transcript, negotiated.transcript.addMessage message] ++
        signedBy (negotiated.transcript.addMessage message) ms ++
        [(negotiated.transcript.addMessage message).add (octets ms),
          ((negotiated.transcript.addMessage message).add (octets ms)).addMessage
            (finishedMessage ring negotiated
              ((negotiated.transcript.addMessage message).add (octets ms)))] := by
  have hanswering := answeringIdentity_serverRequest client
  simp only [finishHashed, hauth]
  generalize hrequest : negotiated.certificateRequest = request at hanswers ⊢
  cases hanswers with
  | unasked => rfl
  | declined _ _ hidentity =>
      rw [hidentity] at hanswering
      simp only [hanswering]
      rfl
  | proved _ hidentity _ _ _ _ =>
      rw [hidentity] at hanswering
      simp only [hanswering, Option.toList_some, List.map_cons, List.map_nil, signedBy,
        Transcript.addMessage, Message.of, show serverRequest.context = [] from rfl,
        clientCertificateMessage_eq]

/-- The client's Finished, from the flight that it answers. -/
def flightFinished (ring : Ring) (server : Server.ServerConfig) (head : Bytes)
    (hello : ClientHello) (selected : Server.Selected) (draw : Server.FlightDraw)
    (answer : List Message) : Message :=
  Message.of .finished (finishedVerifyData ring selected.hash
    (draw.clientSecret ring head hello selected)
    (selected.hash.hash ring (draw.sent ring server head hello selected ++ octets answer)))

/-- The transcripts of a handshake at the points where it hashes them, from the ServerHello to the
client's Finished. -/
def handshakeTranscripts (ring : Ring) (server : Server.ServerConfig) (head : Bytes)
    (hello : ClientHello) (selected : Server.Selected) (draw : Server.FlightDraw)
    (answer : List Message) : List Transcript :=
  let sent : Transcript := ⟨selected.hash, draw.sent ring server head hello selected⟩
  draw.certified server head hello selected ++
    [⟨selected.hash, draw.covered server head hello selected⟩, sent] ++ signedBy sent answer ++
    [sent.add (octets answer), (sent.add (octets answer)).addMessage
      (flightFinished ring server head hello selected draw answer)]

/-- A flight of this server is read to its end and answered, unless the answer does not fit a
record. -/
theorem handleAll_flight (complete : ring.Complete) (hcompat : Compatible ring client server)
    {head : Bytes} {hello : ClientHello} {selected : Server.Selected} {draw : Server.FlightDraw}
    {drawn : Entropy} (hscheme : selected.scheme ∈ server.key.schemes)
    (hauthentication : Server.serverAuthentication ring drawn server selected.scheme selected.psk
      ⟨selected.hash, draw.hellos head hello selected ++ Server.FlightDraw.opening server selected⟩
        = .ok draw.authentication)
    (hshort : (draw.flight ring server head hello selected).length ≤ maxFragmentLen)
    (hinstep : InStep ring head hello selected draw negotiated)
    (htranscript : negotiated.transcript = ⟨selected.hash, draw.hellos head hello selected⟩)
    (hrequest : negotiated.certificateRequest = none) :
    ∃ ms, (∀ m ∈ ms, Framed m) ∧ octets ms = draw.flight ring server head hello selected ∧
      ((∃ answer record sealer connection request,
          Answers ring client server ⟨selected.hash, draw.sent ring server head hello selected⟩
            request answer ∧
          request.isSome = Server.asksForCertificate server selected.psk ∧
          handleAll (handleMessage ring entropy client)
              (.inFlight .encryptedExtensions negotiated) ms
            = .ok (plaintextRecord .changeCipherSpec 0x0303 [0x01] ++ record, .done connection) ∧
          Endpoint.observed entropy (handleMessage ring entropy client) (hashed ring client)
              (.inFlight .encryptedExtensions negotiated) ms
            = handshakeTranscripts ring server head hello selected draw answer ∧
          (Sealer.mk (directionKey complete.toLawful selected.hash
            (draw.clientSecret ring head hello selected) selected.aead)
            (.startingAt 0)).sealRecord ring .handshake (octets (answer ++
              [flightFinished ring server head hello selected draw answer])) 0
            = (.ok record, sealer) ∧
          connection.suite = selected.suite ∧ connection.resumed = selected.psk.isSome ∧
          connection.sealer.key = directionKey complete.toLawful selected.hash
            (((draw.schedule ring selected).intoMaster ring).derive ring "c ap traffic"
              (selected.hash.hash ring (draw.sent ring server head hello selected)))
            selected.aead ∧
          connection.opener.key = directionKey complete.toLawful selected.hash
            (((draw.schedule ring selected).intoMaster ring).derive ring "s ap traffic"
              (selected.hash.hash ring (draw.sent ring server head hello selected)))
            selected.aead) ∨
        TooLong (handleAll (handleMessage ring entropy client)
          (.inFlight .encryptedExtensions negotiated) ms)) := by
  obtain ⟨ms, final, hframed, hoctets, hreads, hfinal, hcovered, hposture, hasked⟩ :=
    @reads_flight ring client server entropy negotiated head hello selected draw hcompat
      drawn hscheme hauthentication hshort hinstep htranscript hrequest
  obtain ⟨body, hverifyData⟩ : ∃ body, body = finishedVerifyData ring selected.hash
      (draw.serverSecret ring head hello selected)
      (selected.hash.hash ring (draw.covered server head hello selected)) := ⟨_, rfl⟩
  have hbody : body = finishedVerifyData ring final.hash final.serverHandshakeSecret
      (final.transcript.hash ring) := by
    rw [hverifyData, hfinal.hash, hfinal.serverSecret, hcovered]
    rfl
  have hfinished : draw.finished ring server head hello selected
      = Message.encode .finished body := by
    rw [hverifyData]
    rfl
  have hsent : final.transcript.add (Message.encode .finished body)
      = ⟨selected.hash, draw.sent ring server head hello selected⟩ := by
    rw [hcovered, Server.FlightDraw.sent, hfinished]
    rfl
  have hflight : octets (ms ++ [Message.of .finished body])
      = draw.flight ring server head hello selected := by
    rw [octets_append, hoctets, Server.FlightDraw.flight, hfinished]
    simp [Message.of]
  obtain ⟨hall, hhashed⟩ := hreads [Message.of .finished body]
  refine ⟨ms ++ [Message.of .finished body], ?_, hflight, ?_⟩
  · refine List.forall_mem_append.mpr ⟨hframed, List.forall_mem_singleton.mpr ?_⟩
    refine @framed_of_short .finished rfl _ ?_
    simp only [Server.FlightDraw.flight, hfinished, List.length_append] at hshort
    omega
  obtain ⟨answer, hanswers, hauth⟩ := @clientAuthentication_answers ring client server final
    hcompat entropy (final.transcript.add (Message.encode .finished body)) hposture
  have hadd : final.transcript.addMessage (Message.of .finished body)
      = final.transcript.add (Message.encode .finished body) := rfl
  have hlast := @finishHashed_answers ring client server entropy final (Message.of .finished body)
    answer (hadd ▸ hanswers) (hadd ▸ hauth)
  rw [hall, hhashed, handleAll_singleton]
  rcases finish_answers complete hbody hauth with ⟨record, sealer, connection, hseal, hhandle, hends⟩
    | hlong
  · left
    have hown : finishedMessage ring final ((final.transcript.add
        (Message.encode .finished body)).add (octets answer))
        = flightFinished ring server head hello selected draw answer := by
      rw [finishedMessage, flightFinished, hfinal.hash, hfinal.clientSecret, hsent]
      rfl
    have hone : Endpoint.observed entropy (handleMessage ring entropy client) (hashed ring client)
        (.inFlight .finished final) [Message.of .finished body]
        = finishHashed ring client entropy final (Message.of .finished body) := by
      have hhandle' : handleMessage ring entropy client (.inFlight .finished final)
          (Message.of .finished body) = _ := hhandle
      exact Endpoint.observed_single hhandle'
    rw [hadd, hown, hsent] at hlast
    rw [hown, hfinal.hash, hfinal.clientSecret, hfinal.aead] at hseal
    rw [hsent] at hanswers
    refine ⟨answer, record, sealer, connection, _, hanswers, hasked, hhandle, ?_, hseal,
      hends.suite.trans hfinal.suite, hends.resumed.trans hfinal.resumed, ?_, ?_⟩
    · rw [hone, hlast, hcovered, handshakeTranscripts]
      simp
    · rw [hends.sealer, hfinal.hash, hfinal.schedule, hfinal.aead, hsent]
      rfl
    · rw [hends.opener, hfinal.hash, hfinal.schedule, hfinal.aead, hsent]
      rfl
  · right
    exact hlong

end Client

end RustyTls
