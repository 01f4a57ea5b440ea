import RustyTls.ClientSteps
import RustyTls.ServerRetry
import RustyTls.ServerSound
import RustyTls.Core.Raises

/-!
# RustyTls.NoPanic

No record makes an endpoint panic.

An `expect` or an index of the source that does not hold is the error `panicked` of the model, so
that a panic is an error like any other and `Raises` says where it cannot come from. Each of them
rests on something that was settled at an earlier message: the client is asked for a certificate
only when the configuration can judge one, a CertificateVerify is waited for only after a chain,
and an offer parses only with a binder for every identity. `Expecting` keeps the first two over
whole runs.
-/

namespace RustyTls

open Core

/-! ### Reading records -/

namespace Endpoint

variable {ε σ : Type} {endpoint : Endpoint ε σ} {P : σ → Prop} {E : ε → Prop}

/-- Messages fail with the errors of one of them, in a state they have kept in order. -/
theorem handleAll_raises {handle : σ → Message → Except ε (Bytes × σ)}
    (hraises : ∀ s m, P s → Raises E (handle s m))
    (hkeeps : ∀ s m reply s', P s → handle s m = .ok (reply, s') → P s') :
    ∀ {ms : List Message} {s : σ}, P s → Raises E (handleAll handle s ms) := by
  intro ms
  induction ms with
  | nil =>
      intro s _
      exact raises_ok _
  | cons m ms ih =>
      intro s hP
      rw [handleAll_cons, raises_bind]
      refine ⟨hraises s m hP, ?_⟩
      intro answer hanswer
      rw [raises_bind]
      exact ⟨ih (hkeeps s m answer.1 answer.2 hP hanswer), fun _ _ => raises_ok _⟩

/-- A read fails with the errors of the record layer, or with those of a message in a state that
is in order. -/
theorem readRecord_raises [DecidableEq σ] (halready : E endpoint.alreadyFailed)
    (hrecord : ∀ e, E (endpoint.ofRecord e))
    (hunframe : ∀ s record, P s → Raises E (endpoint.unframe s record))
    (hopens : ∀ s record fragment s', P s → endpoint.unframe s record = .ok (fragment, s') → P s')
    (hraises : ∀ entropy s m, P s → Raises E (endpoint.handle entropy s m))
    (hkeeps : ∀ entropy s m reply s', P s → endpoint.handle entropy s m = .ok (reply, s') → P s')
    {handshake : Reassembling σ} (hP : P handshake.state) (entropy : Entropy) (record : Bytes) :
    Raises E (endpoint.readRecord entropy handshake record).1 := by
  have hinner : Raises E (endpoint.readRecordInner entropy handshake record) := by
    rw [readRecordInner]
    split
    · exact raises_error.mpr (hrecord _)
    split
    · exact raises_ok _
    rw [raises_bind]
    refine ⟨hunframe _ record hP, ?_⟩
    intro h
    obtain ⟨fragment, state⟩ := h
    intro hopened
    simp only
    rw [drain_eq, raises_bind, raises_bind]
    refine ⟨⟨?_, fun _ _ => raises_ok _⟩, fun _ _ => raises_ok _⟩
    exact handleAll_raises (hraises entropy) (hkeeps entropy) (hopens _ _ _ _ hP hopened)
  rw [readRecord]
  split
  · exact raises_error.mpr halready
  split
  · exact raises_ok _
  · next err herror => exact raises_error.mpr (hinner err herror)

end Endpoint

/-! ### The server -/

namespace Server

/-- Not a panic. -/
def ServerError.Calm : ServerError → Prop
  | .panicked _ => False
  | _ => True

section
variable (ring : Ring) (entropy : Entropy) (config : ServerConfig)

theorem checkVersion_calm (hello : ClientHello) : Raises ServerError.Calm (checkVersion hello) := by
  simp [checkVersion, ServerError.Calm]

theorem selectScheme_calm (hello : ClientHello) :
    Raises ServerError.Calm (selectScheme config hello) := by
  simp [selectScheme, ServerError.Calm]

theorem offeredShares_calm (hello : ClientHello) :
    Raises ServerError.Calm (offeredShares hello) := by
  unfold offeredShares
  split <;> simp [ServerError.Calm]

/-- The loop over the identities indexes the binders in step with them. -/
theorem selectPsk_calm (tickets : Tickets) (suite : CipherSuite) (hash : Hash)
    (covered : Bytes) (binders : List Bytes) (identities : List PskIdentity) (index : Nat)
    (hcount : index + identities.length ≤ binders.length) :
    Raises ServerError.Calm
      (selectPsk ring config tickets suite hash covered binders index identities) := by
  induction identities generalizing index with
  | nil => exact raises_ok _
  | cons offered rest ih =>
      rw [List.length_cons] at hcount
      have hrest := ih (index + 1) (by omega)
      have hbinder : binders[index]? ≠ none := by
        rw [ne_eq, List.getElem?_eq_none_iff]
        omega
      rw [selectPsk]
      split
      · exact hrest
      · exact raises_error.mpr trivial
      · split
        · simp [hbinder, ServerError.Calm]
        · exact hrest

/-- An offer that parses has a binder for every identity. -/
theorem takeOffer_calm (tickets : Tickets) (data encodedHello transcriptPrefix : Bytes)
    (suite : CipherSuite) (hash : Hash) :
    Raises ServerError.Calm
      (takeOffer ring config tickets data encodedHello transcriptPrefix suite hash) := by
  rw [takeOffer, raises_bind]
  refine ⟨by simp [ServerError.Calm], ?_⟩
  intro offer hoffer
  rw [raises_bind]
  refine ⟨by simp [ServerError.Calm], ?_⟩
  intro truncated _
  have hlength := (PresharedKeyOffer.parse_iff.mp (mapErr_eq_ok.mp hoffer)).2.length_eq
  exact selectPsk_calm ring config tickets suite hash _ offer.binders offer.identities 0 (by omega)

theorem acceptPsk_calm (hello : ClientHello) (encodedHello transcriptPrefix : Bytes)
    (suite : CipherSuite) (hash : Hash) :
    Raises ServerError.Calm
      (acceptPsk ring config hello encodedHello transcriptPrefix suite hash) := by
  rw [acceptPsk, raises_bind]
  refine ⟨by simp [ServerError.Calm], ?_⟩
  intro _ _
  split
  · exact raises_ok _
  · rw [raises_bind]
    refine ⟨by simp [ServerError.Calm], ?_⟩
    intro _ _
    split
    · exact raises_ok _
    · split
      · exact takeOffer_calm ring config _ _ _ _ _ _
      · exact raises_ok _

theorem serverAuthentication_calm (scheme : SignatureScheme) (psk : Option AcceptedPsk)
    (transcript : Transcript) :
    Raises ServerError.Calm
      (serverAuthentication ring entropy config scheme psk transcript) := by
  unfold serverAuthentication
  split <;> simp [ServerError.Calm]

theorem complete_calm (head : Bytes) (hello : ClientHello) (selected : Selected) (ccs : Bool) :
    Raises ServerError.Calm (complete ring entropy config head hello selected ccs) := by
  simp [complete, randomBytes, serverAuthentication_calm, ServerError.Calm]

theorem retry_calm (message : Message) (hello : ClientHello) (suite : CipherSuite) (aead : Aead)
    (hash : Hash) :
    Raises ServerError.Calm (retry ring config message hello suite aead hash) := by
  simp [retry, ServerError.Calm]

theorem handleHello_calm (message : Message) :
    Raises ServerError.Calm (handleHello ring entropy config message) := by
  simp only [handleHello, raises_bind, raises_refuse, raises_mapErr, raises_okOr, raises_true,
    checkVersion_calm, selectScheme_calm, offeredShares_calm, ServerError.Calm, implies_true,
    true_and]
  intro _ _ hello _ _ _ suite _ parts _ scheme _ shares _
  split
  · exact retry_calm ring config message hello suite parts.1 parts.2
  · simp [acceptPsk_calm, complete_calm]

theorem retriedHello_calm (retrying : Retrying) (message : Message) :
    Raises ServerError.Calm (retriedHello ring entropy config retrying message) := by
  simp [retriedHello, checkVersion_calm, selectScheme_calm, acceptPsk_calm, complete_calm,
    ServerError.Calm]

theorem issueTicket_calm (tickets : Tickets) (negotiated : Negotiated) (resumptionMaster : Bytes)
    (k : Nat) :
    Raises ServerError.Calm
      (issueTicket ring entropy config tickets negotiated resumptionMaster k) := by
  simp [issueTicket, randomBytes, ServerError.Calm]

theorem issueLoop_calm (tickets : Tickets) (negotiated : Negotiated) (resumptionMaster : Bytes)
    (remaining k : Nat) :
    Raises ServerError.Calm
      (issueLoop ring entropy config tickets negotiated resumptionMaster remaining k) := by
  induction remaining generalizing k with
  | zero => exact raises_ok _
  | succ remaining ih => simp [issueLoop, issueTicket_calm, ih]

theorem issueTickets_calm (negotiated : Negotiated) (sealer : Sealer) :
    Raises ServerError.Calm (issueTickets ring entropy config negotiated sealer) := by
  unfold issueTickets
  split
  · exact raises_ok _
  split
  · exact raises_ok _
  · simp [issueLoop_calm, ServerError.Calm]

theorem handleFinished_calm (negotiated : Negotiated) (message : Message) :
    Raises ServerError.Calm (handleFinished ring entropy config negotiated message) := by
  simp [handleFinished, issueTickets_calm, ServerError.Calm]

/-- A chain that is not empty is not empty when it has been parsed. -/
theorem certificateChain_calm (auth : ClientAuth) (negotiated : Negotiated) (message : Message)
    {chain : List Bytes} (hchain : chain ≠ []) :
    Raises ServerError.Calm (certificateChain ring auth negotiated message chain) := by
  rw [certificateChain, raises_bind]
  refine ⟨by simp [ServerError.Calm], ?_⟩
  intro parsed hparsed
  have hne : parsed.head? ≠ none := by
    rw [ne_eq, List.head?_eq_none_iff]
    intro h
    obtain rfl := h
    have hempty := collect_eq_ok.mp (mapErr_eq_ok.mp hparsed)
    exact hchain (by simpa using hempty)
  simp [hne, ServerError.Calm]

theorem handleCertificate_calm (negotiated : Negotiated) (message : Message)
    (hauth : config.clientAuth ≠ none) :
    Raises ServerError.Calm (handleCertificate ring config negotiated message) := by
  rw [handleCertificate, raises_bind]
  refine ⟨by simp [ServerError.Calm], ?_⟩
  intro certificate _
  rw [raises_bind]
  refine ⟨by simp [hauth], ?_⟩
  intro auth _
  split
  · simp [emptyCertificate, ServerError.Calm]
  · next hne => exact certificateChain_calm ring auth negotiated message (by simpa using hne)

theorem handleCertificateVerify_calm (negotiated : Negotiated) (message : Message)
    (hchain : negotiated.clientCertificates ≠ []) :
    Raises ServerError.Calm (handleCertificateVerify ring negotiated message) := by
  simp [handleCertificateVerify, hchain, ServerError.Calm]

end

/-! ### What the server waits for -/

/-- A certificate is waited for only where it can be judged, and its proof only after a chain. -/
def Expecting (config : ServerConfig) : State → Prop
  | .awaitFinished negotiated =>
      (negotiated.expect = .certificate → config.clientAuth ≠ none) ∧
        (negotiated.expect = .certificateVerify → negotiated.clientCertificates ≠ [])
  | _ => True

section
variable {ring : Ring} {entropy : Entropy} {config : ServerConfig} {state next : State}
  {message : Message} {reply record fragment : Bytes}

theorem expecting_complete {head : Bytes} {hello : ClientHello} {selected : Selected} {ccs : Bool}
    (h : complete ring entropy config head hello selected ccs = .ok (reply, next)) :
    Expecting config next := by
  obtain ⟨draw, negotiated, _, _, hcompleted, -, -, -, rfl⟩ := complete_inv h
  have hexpect := hcompleted.expect
  split at hexpect
  · next hasks =>
      refine ⟨?_, ?_⟩
      · intro _ hnone
        simp [asksForCertificate, hnone] at hasks
      · intro hverify
        rw [hexpect] at hverify
        cases hverify
  · refine ⟨?_, ?_⟩
    · intro hcertificate
      rw [hexpect] at hcertificate
      cases hcertificate
    · intro hverify
      rw [hexpect] at hverify
      cases hverify

theorem expecting_flight {negotiated : Negotiated}
    (h : clientFlight ring entropy config negotiated message = .ok (reply, next)) :
    Expecting config next := by
  rcases clientFlight_inv h with ⟨-, -, h⟩ | ⟨-, -, h⟩ | ⟨-, -, h⟩
  · obtain ⟨certificate, auth, -, -, ⟨-, -, rfl⟩ | ⟨hne, _, _, _, -, -, rfl⟩⟩ :=
      handleCertificate_inv h
    · exact ⟨fun hexpect => (by cases hexpect), fun hexpect => (by cases hexpect)⟩
    · exact ⟨fun hexpect => (by cases hexpect), fun _ => by simpa using hne⟩
  · obtain ⟨_, _, _, -, -, -, -, rfl⟩ := handleCertificateVerify_inv h
    exact ⟨fun hexpect => (by cases hexpect), fun hexpect => (by cases hexpect)⟩
  · obtain ⟨_, _, _, -, -, rfl⟩ := handleFinished_inv h
    trivial

theorem expecting_handle (h : handle ring entropy config state message = .ok (reply, next)) :
    Expecting config next := by
  cases state with
  | awaitClientHello =>
      obtain ⟨_, _, _, _, _, _, -, -, -, -, -, -, -, ⟨-, h⟩ | ⟨_, _, _, -, -, h⟩⟩ := handleHello_inv h
      · obtain ⟨_, _, _, -, -, -, rfl⟩ := retry_inv h
        trivial
      · exact expecting_complete h
  | awaitRetriedClientHello retrying =>
      obtain ⟨_, _, _, _, _, _, -, -, -, -, -, -, -, -, -, -, -, h⟩ := retriedHello_inv h
      exact expecting_complete h
  | awaitFinished negotiated => exact expecting_flight h
  | done connection => simp [handle] at h
  | failed => simp [handle] at h

theorem expecting_unframe (hexpecting : Expecting config state)
    (h : unframe ring state record = .ok (fragment, next)) : Expecting config next := by
  rcases unframe_inv h with ⟨-, rfl, -⟩ | ⟨negotiated, opener, rfl, rfl, -⟩
  · exact hexpecting
  · exact hexpecting

theorem clientFlight_calm {negotiated : Negotiated}
    (hexpecting : Expecting config (.awaitFinished negotiated)) :
    Raises ServerError.Calm (clientFlight ring entropy config negotiated message) := by
  unfold clientFlight
  split
  · next hexpect _ => exact handleCertificate_calm ring config _ _ (hexpecting.1 hexpect)
  · next hexpect _ => exact handleCertificateVerify_calm ring _ _ (hexpecting.2 hexpect)
  · exact handleFinished_calm ring entropy config _ _
  · exact handleFinished_calm ring entropy config _ _
  · exact raises_error.mpr trivial

theorem handle_calm (hexpecting : Expecting config state) :
    Raises ServerError.Calm (handle ring entropy config state message) := by
  cases state with
  | awaitClientHello => exact handleHello_calm ring entropy config message
  | awaitRetriedClientHello retrying => exact retriedHello_calm ring entropy config retrying message
  | awaitFinished negotiated => exact clientFlight_calm hexpecting
  | done connection => exact raises_error.mpr trivial
  | failed => exact raises_error.mpr trivial

theorem alertError_calm (body : Bytes) : ServerError.Calm (alertError body) := by
  unfold alertError
  split <;> trivial

theorem plaintextFragment_calm : Raises ServerError.Calm (plaintextFragment record) := by
  simp only [plaintextFragment, raises_bind, raises_refuse]
  exact ⟨fun _ => alertError_calm _, fun _ _ => by simp [ServerError.Calm]⟩

theorem unframe_calm : Raises ServerError.Calm (unframe ring state record) := by
  simp only [unframe, raises_bind, raises_refuse, ServerError.Calm, implies_true, true_and]
  intro _ _ _ _
  cases state with
  | awaitClientHello => simp [fragmentOf, plaintextFragment_calm]
  | awaitRetriedClientHello retrying => simp [fragmentOf, plaintextFragment_calm]
  | awaitFinished negotiated =>
      rw [fragmentOf]
      split
      · exact raises_error.mpr trivial
      · exact raises_ok _
      · exact raises_error.mpr (alertError_calm _)
      · exact raises_error.mpr trivial
  | done connection => exact raises_error.mpr trivial
  | failed => exact raises_error.mpr trivial

/-- In every state a run reaches, what the server waits for can be judged. -/
theorem run_expecting (ring : Ring) (config : ServerConfig) (inputs : List (Entropy × Bytes)) :
    Expecting config ((endpoint ring config).run ServerHandshake.new inputs).state :=
  @Endpoint.run_induct _ _ _ (endpoint ring config) (fun _ state => Expecting config state)
    (fun _ => trivial) (fun _ _ _ _ _ hexpecting h => expecting_unframe hexpecting h)
    (fun _ _ _ _ _ _ _ h => expecting_handle h) inputs ServerHandshake.new [] trivial

theorem readRecord_calm (ring : Ring) (config : ServerConfig) (inputs : List (Entropy × Bytes))
    (entropy : Entropy) (record : Bytes) :
    Raises ServerError.Calm (ServerHandshake.readRecord ring entropy config
      ((endpoint ring config).run ServerHandshake.new inputs) record).1 :=
  @Endpoint.readRecord_raises _ _ (endpoint ring config) (Expecting config) ServerError.Calm _
    trivial (fun _ => trivial) (fun _ _ _ => unframe_calm)
    (fun _ _ _ _ hexpecting h => expecting_unframe hexpecting h)
    (fun _ _ _ hexpecting => handle_calm hexpecting) (fun _ _ _ _ _ _ h => expecting_handle h)
    _ (run_expecting ring config inputs) entropy record

end

end Server

/-! ### The client -/

/-- Not a panic. -/
def ClientError.Calm : ClientError → Prop
  | .panicked _ => False
  | _ => True

namespace Client

variable {ring : Ring} {entropy : Entropy} {config : ClientConfig} {state : State}
  {message : Message} {record : Bytes}

theorem checkVersion_calm (hello : ServerHello) : Raises ClientError.Calm (checkVersion hello) := by
  unfold checkVersion
  split
  · exact raises_ok _
  split
  · exact raises_error.mpr trivial
  · exact raises_error.mpr trivial

theorem sessionHash_calm (session : Session) : Raises ClientError.Calm (sessionHash session) := by
  simp [sessionHash, ClientError.Calm]

theorem buildClientHello_calm (kx : KeyExchange) (identity : Option (Bytes × Bytes))
    (transcriptPrefix : Bytes) :
    Raises ClientError.Calm (buildClientHello ring entropy config kx identity transcriptPrefix) := by
  have hidentity : Raises ClientError.Calm (helloIdentity entropy identity) := by
    unfold helloIdentity
    split <;> simp [randomBytes, ClientError.Calm]
  have hencode : ∀ random sessionId, Raises ClientError.Calm
      (encodeHello ring config kx random sessionId transcriptPrefix) := by
    intro random sessionId
    unfold encodeHello
    split <;> simp [sessionHash_calm, ClientError.Calm]
  simp [buildClientHello, hidentity, hencode]

theorem acceptedSession_calm (hello : ServerHello) (hash : Hash) :
    Raises ClientError.Calm (acceptedSession config hello hash) := by
  have hselected : ∀ data, Raises ClientError.Calm (selectedIdentity data) := by
    intro data
    unfold selectedIdentity
    split
    · exact raises_ok _
    · exact raises_error.mpr trivial
  unfold acceptedSession
  split <;> simp [hselected, sessionHash_calm, ClientError.Calm]

theorem handleServerHello_calm (awaiting : Awaiting) :
    Raises ClientError.Calm (handleServerHello ring entropy config awaiting message) := by
  have hretry : ∀ hello hash, Raises ClientError.Calm
      (retry ring entropy config awaiting message hello hash) := by
    intro hello hash
    simp [retry, buildClientHello_calm, ClientError.Calm]
  have hnegotiate : ∀ hello suite aead hash, Raises ClientError.Calm
      (negotiate ring config awaiting message hello suite aead hash) := by
    intro hello suite aead hash
    simp [negotiate, acceptedSession_calm, ClientError.Calm]
  simp only [handleServerHello, raises_bind, raises_refuse, raises_mapErr, raises_okOr, raises_true,
    checkVersion_calm, ClientError.Calm, implies_true, true_and]
  intro _ _ hello _ _ _ parts _ _ _ _ _ _ _
  split
  · exact hretry _ _
  · exact hnegotiate _ _ _ _

/-- The identity the client answers with has a scheme that the request names, so it is found
when it is looked for. -/
theorem answerRequest_calm (request : CertificateRequestMessage) (transcript : Transcript) :
    Raises ClientError.Calm (answerRequest ring entropy config request transcript) := by
  unfold answerRequest
  split
  · exact raises_ok _
  · next identity hidentity =>
      have hfound : ∃ scheme, scheme ∈ identity.key.schemes ∧ scheme.code ∈ request.schemes := by
        have hfilter := (Option.filter_eq_some_iff.mp hidentity).2
        simpa using hfilter
      simp [proveIdentity, hfound, ClientError.Calm]

theorem finish_calm (negotiated : Negotiated) :
    Raises ClientError.Calm (finish ring entropy config negotiated message) := by
  have hauthentication : ∀ transcript, Raises ClientError.Calm
      (clientAuthentication ring entropy config negotiated transcript) := by
    intro transcript
    unfold clientAuthentication
    split
    · exact raises_ok _
    · exact answerRequest_calm _ _
  simp [finish, hauthentication, ClientError.Calm]

theorem handleFlightMessage_calm (expect : Expect) (negotiated : Negotiated) :
    Raises ClientError.Calm
      (handleFlightMessage ring entropy config expect negotiated message) := by
  unfold handleFlightMessage
  split
  · simp [handleCertificateRequest, ClientError.Calm]
  split
  · simp [handleEncryptedExtensions, ClientError.Calm]
  · simp [handleCertificate, ClientError.Calm]
  · simp [handleCertificateVerify, checkPeer, ClientError.Calm]
  · exact finish_calm negotiated
  · exact raises_error.mpr trivial

theorem handleMessage_calm : Raises ClientError.Calm
    (handleMessage ring entropy config state message) := by
  cases state with
  | awaitServerHello awaiting => exact handleServerHello_calm awaiting
  | inFlight expect negotiated => exact handleFlightMessage_calm expect negotiated
  | done connection => exact raises_error.mpr trivial
  | failed => exact raises_error.mpr trivial

theorem ofAlert_calm (body : Bytes) : ClientError.Calm (.ofAlert body) := by
  unfold ClientError.ofAlert
  split <;> trivial

theorem unframe_calm : Raises ClientError.Calm (unframe ring state record) := by
  have halert : Raises ClientError.Calm (checkPlaintextAlert state record) := by
    unfold checkPlaintextAlert
    split
    · exact raises_refuse.mpr fun _ => ofAlert_calm _
    · exact raises_ok _
  have hfragment : Raises ClientError.Calm (fragmentOf ring state record) := by
    cases state with
    | awaitServerHello awaiting => simp [fragmentOf, ClientError.Calm]
    | inFlight expect negotiated =>
        rw [fragmentOf]
        split
        · exact raises_error.mpr trivial
        · exact raises_ok _
        · exact raises_error.mpr (ofAlert_calm _)
        · exact raises_error.mpr trivial
    | done connection => exact raises_error.mpr trivial
    | failed => exact raises_error.mpr trivial
  simp [unframe, halert, hfragment, ClientError.Calm]

/-- The client's one `expect` holds in every state. -/
theorem readRecord_calm (ring : Ring) (config : ClientConfig) (handshake : ClientHandshake)
    (entropy : Entropy) (record : Bytes) :
    Raises ClientError.Calm (handshake.readRecord ring entropy config record).1 :=
  @Endpoint.readRecord_raises _ _ (endpoint ring config) (fun _ => True) ClientError.Calm _
    trivial (fun _ => trivial) (fun _ _ _ => unframe_calm) (fun _ _ _ _ _ _ => trivial)
    (fun _ _ _ _ => handleMessage_calm) (fun _ _ _ _ _ _ _ => trivial) handshake trivial entropy
    record

end Client

/-- No record makes an endpoint panic: in every state that a server reaches, a certificate is
waited for only when client authentication is configured and its proof only after a chain, every
offer that parses has as many binders as identities, and no read of either endpoint fails with an
`expect` or an index. -/
theorem run_no_panic :
    (∀ (ring : Ring) (config : Server.ServerConfig) (inputs : List (Entropy × Bytes)),
      (∀ negotiated, ((Server.endpoint ring config).run Server.ServerHandshake.new inputs).state
          = .awaitFinished negotiated →
        (negotiated.expect = .certificate → config.clientAuth ≠ none) ∧
        (negotiated.expect = .certificateVerify → negotiated.clientCertificates ≠ [])) ∧
      (∀ entropy record why, (Server.ServerHandshake.readRecord ring entropy config
        ((Server.endpoint ring config).run Server.ServerHandshake.new inputs) record).1
          ≠ .error (.panicked why))) ∧
    (∀ data offer, PresharedKeyOffer.parse data = .ok offer →
      offer.binders.length = offer.identities.length) ∧
    (∀ (ring : Ring) (config : Client.ClientConfig) (handshake : Client.ClientHandshake)
      (inputs : List (Entropy × Bytes)) (entropy : Entropy) (record : Bytes) (why : String),
      (Client.ClientHandshake.readRecord ring entropy config
        ((Client.endpoint ring config).run handshake inputs) record).1 ≠ .error (.panicked why)) := by
  refine ⟨?_, ?_, ?_⟩
  · intro ring config inputs
    refine ⟨?_, ?_⟩
    · intro negotiated hstate
      have hexpecting := Server.run_expecting ring config inputs
      rw [hstate] at hexpecting
      exact hexpecting
    · intro entropy record why hpanic
      exact Server.readRecord_calm ring config inputs entropy record _ hpanic
  · intro data offer hparse
    exact (PresharedKeyOffer.parse_iff.mp hparse).2.length_eq.symm
  · intro ring config handshake inputs entropy record why hpanic
    exact Client.readRecord_calm ring config _ entropy record _ hpanic

/-- The state waits for a certificate. -/
def Server.State.asks : Server.State → Bool
  | .awaitFinished negotiated => negotiated.expect == .certificate
  | _ => false

theorem Server.State.asks_iff {state : Server.State} : state.asks = true ↔
    ∃ negotiated, state = .awaitFinished negotiated ∧ negotiated.expect = .certificate := by
  cases state <;> simp [Server.State.asks]

/-- A server that asks for a certificate, after a hello with a share. -/
theorem run_no_panic_asking :
    let hello := Server.sampleHello [⟨ExtensionType.keyShare, [0, 5, 0, 0x1d, 0, 1, 4]⟩]
    let inputs := [(Entropy.sample 1, Server.plaintextRecord .handshake
      (Message.encode .clientHello hello.encode))]
    ∃ negotiated, ((Server.endpoint .sample Server.sampleAsking).run Server.ServerHandshake.new
        inputs).state = .awaitFinished negotiated ∧ negotiated.expect = .certificate ∧
      Server.sampleAsking.clientAuth ≠ none ∧
      ∀ entropy record why, (Server.ServerHandshake.readRecord .sample entropy Server.sampleAsking
        ((Server.endpoint .sample Server.sampleAsking).run Server.ServerHandshake.new inputs)
        record).1 ≠ .error (.panicked why) := by
  intro hello inputs
  have hasks : ((Server.endpoint .sample Server.sampleAsking).run Server.ServerHandshake.new
      inputs).state.asks = true := by decide +kernel
  obtain ⟨negotiated, hstate, hexpect⟩ := Server.State.asks_iff.mp hasks
  obtain ⟨hwaits, hcalm⟩ := run_no_panic.1 .sample Server.sampleAsking inputs
  exact ⟨negotiated, hstate, hexpect, (hwaits negotiated hstate).1 hexpect, hcalm⟩

end RustyTls
