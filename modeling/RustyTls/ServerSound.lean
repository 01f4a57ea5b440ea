import RustyTls.Client
import RustyTls.ServerRetry

/-!
# RustyTls.ServerSound

Client authentication over whole server runs.

The invariant `Progress` relates the state to the steps taken so far, as the client's does. An
`Answer` is a hello together with the flight it was answered with (`AnswersHello`): after a retry its
transcript begins with the hash of the first hello and the retry that this server wrote. Once a step
has sent the flight (`SendsFlight`) the invariant says how far the client has come in identifying
itself, and a connection is one whose client has come all the way (`ClientIdentified`): anonymous,
declined, certified in this handshake, or resumed from a ticket that was checked again in this
handshake.
-/

namespace RustyTls

open Core

/-- The message that stands for a first hello in a transcript with a retry. -/
def hashMessage (ring : Ring) (hash : Hash) (clientHello : Bytes) : Message where
  typ := .unknown 254
  body := hash.hash ring clientHello
  encoded := Client.messageHash ring hash clientHello

namespace Server

/-! ### The hello that was answered -/

/-- A hello and the flight it was answered with. -/
structure Answer where
  /-- The messages accepted before the hello. -/
  before : List Message
  /-- What stands for them in the transcript. -/
  front : List Message
  message : Message
  hello : ClientHello
  selected : Selected
  entropy : Entropy
  draw : FlightDraw

namespace Answer

/-- The transcript through the hello. -/
def head (answer : Answer) : Bytes := octets answer.front ++ answer.message.encoded

/-- The transcript through the server's Finished. -/
def sent (ring : Ring) (config : ServerConfig) (answer : Answer) : Bytes :=
  answer.draw.sent ring config answer.head answer.hello answer.selected

/-- The client handshake traffic secret. -/
def clientSecret (ring : Ring) (answer : Answer) : Bytes :=
  answer.draw.clientSecret ring answer.head answer.hello answer.selected

/-- The server handshake traffic secret. -/
def serverSecret (ring : Ring) (answer : Answer) : Bytes :=
  answer.draw.serverSecret ring answer.head answer.hello answer.selected

end Answer

/-- A first hello that brings no share for a group of the server's. -/
structure WithoutShare (config : ServerConfig) (first : Message) (opening : ClientHello)
    (suite : CipherSuite) (group : NamedGroup) : Prop where
  typ : first.typ = .clientHello
  parsed : ClientHello.parse first.body = .ok opening
  suite : config.cipherSuites.find? (fun suite => opening.cipherSuites.contains suite.code)
    = some suite
  noShare : ∃ shares, offeredShares opening = .ok shares ∧ chooseShare config shares = none
  group : ∃ data groups, find opening.extensions ExtensionType.supportedGroups = some data ∧
    clientSupportedGroups data = .ok groups ∧
    config.groups.find? (fun group => groups.contains group.asU16) = some group

/-- What a retry leaves in the transcript. -/
def retriedFront (ring : Ring) (hash : Hash) (first : Message) (opening : ClientHello)
    (suite : CipherSuite) (group : NamedGroup) : List Message :=
  [hashMessage ring hash first.encoded,
    Message.of .serverHello (retryRequest opening.sessionId suite group).encode]

/-- How a server came to the suite, the group and the share that it selected. -/
inductive Selects (ring : Ring) (config : ServerConfig) (hello : ClientHello)
    (selected : Selected) : List Message → List Message → Prop
  | direct {shares : List (UInt16 × Bytes)} :
      config.cipherSuites.find? (fun suite => hello.cipherSuites.contains suite.code)
        = some selected.suite →
      offeredShares hello = .ok shares →
      chooseShare config shares = some (selected.group, selected.peerKey) →
      Selects ring config hello selected [] []
  | retried {first : Message} {opening : ClientHello} {data : Bytes}
      {shares : List (UInt16 × Bytes)} :
      WithoutShare config first opening selected.suite selected.group →
      hello.random = opening.random → hello.sessionId = opening.sessionId →
      find hello.extensions ExtensionType.keyShare = some data →
      clientKeyShares data = .ok shares →
      shareFor shares selected.group = some selected.peerKey →
      Selects ring config hello selected [first]
        (retriedFront ring selected.hash first opening selected.suite selected.group)

/-- A server's flight, the hello it answers and what it leaves the server with. -/
structure AnswersHello (ring : Ring) (config : ServerConfig) (answer : Answer)
    (negotiated : Negotiated) : Prop where
  typ : answer.message.typ = .clientHello
  parsed : ClientHello.parse answer.message.body = .ok answer.hello
  parts : answer.selected.suite.parts = some (answer.selected.aead, answer.selected.hash)
  selects : Selects ring config answer.hello answer.selected answer.before answer.front
  psk : acceptPsk ring config answer.hello answer.message.encoded (octets answer.front)
    answer.selected.suite answer.selected.hash = .ok answer.selected.psk
  completed : Completed ring answer.entropy config answer.head answer.hello answer.selected
    answer.draw negotiated
  short : (answer.draw.flight ring config answer.head answer.hello answer.selected).length
    ≤ maxFragmentLen

/-- The records of an answer: the ServerHello, a change_cipher_spec unless a retry has brought it, and
the flight under the server handshake traffic key. -/
def Answer.Replies (ring : Ring) (config : ServerConfig) (answer : Answer) (reply : Bytes) : Prop :=
  ∃ sealer record,
    Sealer.new answer.selected.aead
      (trafficKeys ring answer.selected.hash (answer.serverSecret ring)
        answer.selected.aead.keyLen).key
      (trafficKeys ring answer.selected.hash (answer.serverSecret ring)
        answer.selected.aead.keyLen).iv = .ok sealer ∧
    (sealer.sealRecord ring .handshake
      (answer.draw.flight ring config answer.head answer.hello answer.selected) 0).1 = .ok record ∧
    reply = plaintextRecord .handshake (answer.draw.serverHello answer.hello answer.selected) ++
      (if answer.before = [] then plaintextRecord .changeCipherSpec [0x01] else []) ++ record

/-- A step that sends the server's flight, after the messages before it. -/
structure SendsFlight (ring : Ring) (config : ServerConfig) (before : List Message)
    (step : Endpoint.Taken State) (answer : Answer) (negotiated : Negotiated) : Prop where
  before : answer.before = before
  message : answer.message = step.message
  entropy : answer.entropy = step.entropy
  after : step.after = .awaitFinished negotiated
  answers : AnswersHello ring config answer negotiated
  replies : answer.Replies ring config step.reply

/-- The steps of a run through some of the client's flight: one of them sent the server's, and the
messages after it are the client's. -/
def Heard (ring : Ring) (config : ServerConfig) (log : List (Endpoint.Taken State)) (answer : Answer)
    (flight : List Message) : Prop :=
  ∃ pre step post answered, log = pre ++ step :: post ∧
    SendsFlight ring config (pre.map (·.message)) step answer answered ∧
    post.map (·.message) = flight

section Heard

variable {ring : Ring} {config : ServerConfig} {log : List (Endpoint.Taken State)} {answer : Answer}
  {flight : List Message}

theorem Heard.log_eq (h : Heard ring config log answer flight) :
    log.map (·.message) = answer.before ++ answer.message :: flight := by
  obtain ⟨pre, step, post, answered, rfl, hsends, rfl⟩ := h
  rw [hsends.before, hsends.message, List.map_append, List.map_cons]

theorem Heard.answers (h : Heard ring config log answer flight) :
    ∃ answered, AnswersHello ring config answer answered := by
  obtain ⟨_, _, _, answered, -, hsends, -⟩ := h
  exact ⟨answered, hsends.answers⟩

/-- A message joins the client's flight. -/
theorem Heard.snoc {step : Endpoint.Taken State} (h : Heard ring config log answer flight) :
    Heard ring config (log ++ [step]) answer (flight ++ [step.message]) := by
  obtain ⟨pre, sending, post, answered, rfl, hsends, rfl⟩ := h
  exact ⟨pre, sending, post ++ [step], answered, by simp, hsends, by simp⟩

end Heard

/-! ### What identifies a client -/

/-- A chain that the configuration accepts from a client. -/
def ChainAccepted (ring : Ring) (auth : ClientAuth) (certificates : List Bytes) : Prop :=
  ∃ leaf rest path, collect (certificates.map Certificate.parse) = .ok (leaf :: rest) ∧
    validatePath ring leaf rest auth.anchors auth.path = .ok path

/-- The leaf of a chain signed the transcript through the Certificate under the client's
context. -/
def SignedBy (ring : Ring) (hash : Hash) (signed : Bytes) (certificates : List Bytes)
    (verify : Message) : Prop :=
  ∃ message der leaf, verify.typ = .certificateVerify ∧
    CertificateVerify.parse verify.body = .ok message ∧ certificates.head? = some der ∧
    Certificate.parse der = .ok leaf ∧
    verifyTls13Signature ring ⟨message.scheme⟩ leaf.subjectPublicKeyInfo
      (certificateVerifyContent clientCertificateVerifyContext (hash.hash ring signed))
      message.signature = .ok ()

/-- A Certificate message and the chain in it. -/
def Presents (certificate : Message) (certificates : List Bytes) : Prop :=
  certificate.typ = .certificate ∧ ∃ message,
    CertificateMessage.parse certificate.body = .ok message ∧
    certificates = message.entries.map (·.certificate)

/-- How a client identified itself: the flight it sent before its Finished, and the chain the
connection reports for it. -/
inductive ClientIdentified (ring : Ring) (config : ServerConfig) (x : Answer) :
    List Message → List Bytes → Prop
  | anonymous : x.selected.psk = none → config.clientAuth = none →
      ClientIdentified ring config x [] []
  | declined {auth : ClientAuth} {certificate : Message} : x.selected.psk = none →
      config.clientAuth = some auth → auth.required = false → Presents certificate [] →
      ClientIdentified ring config x [certificate] []
  | certified {auth : ClientAuth} {certificate verify : Message} {certificates : List Bytes} :
      x.selected.psk = none → config.clientAuth = some auth → certificates ≠ [] →
      Presents certificate certificates → ChainAccepted ring auth certificates →
      SignedBy ring x.selected.hash (x.sent ring config ++ certificate.encoded) certificates verify →
      ClientIdentified ring config x [certificate, verify] certificates
  | resumed {psk : AcceptedPsk} : x.selected.psk = some psk →
      ClientIdentified ring config x [] psk.clientCertificates

/-- What a connection of a server stands on. `flight` and `finished` are what the client sent
after the server's flight. -/
structure ClientAuthenticated (ring : Ring) (config : ServerConfig)
    (log : List (Endpoint.Taken State)) (connection : Connection) (x : Answer)
    (flight : List Message) (finished : Message) : Prop where
  heard : Heard ring config log x (flight ++ [finished])
  hash_eq : connection.hash = x.selected.hash
  suite_eq : connection.suite = x.selected.suite
  identified : ClientIdentified ring config x flight connection.certificates
  finished_typ : finished.typ = .finished
  finished_verified : verifyFinished ring connection.hash (x.clientSecret ring)
    (connection.hash.hash ring (x.sent ring config ++ octets flight)) finished.body = true

/-! ### The invariant -/

/-- How far the client has come when `expect` comes next. -/
def FlightSoFar (ring : Ring) (config : ServerConfig) (x : Answer) (negotiated : Negotiated)
    (flight : List Message) : ExpectFromClient → Prop
  | .certificate => flight = [] ∧ x.selected.psk = none ∧ negotiated.clientCertificates = []
  | .certificateVerify => x.selected.psk = none ∧ ∃ auth certificate, flight = [certificate] ∧
      config.clientAuth = some auth ∧ negotiated.clientCertificates ≠ [] ∧
      Presents certificate negotiated.clientCertificates ∧
      ChainAccepted ring auth negotiated.clientCertificates ∧
      negotiated.clientCertificateTranscript
        = x.selected.hash.hash ring (x.sent ring config ++ certificate.encoded)
  | .finished | .finishedAfterEmptyCertificate =>
      ClientIdentified ring config x flight negotiated.clientCertificates

/-- The secrets and the transcript once the server's flight has been sent. -/
structure InFlight (ring : Ring) (config : ServerConfig) (x : Answer) (flight : List Message)
    (negotiated : Negotiated) : Prop where
  aead : negotiated.aead = x.selected.aead
  hash : negotiated.hash = x.selected.hash
  suite : negotiated.suite = x.selected.suite
  transcript : negotiated.transcript = ⟨x.selected.hash, x.sent ring config ++ octets flight⟩
  clientSecret : negotiated.clientHandshakeSecret = x.clientSecret ring

/-- What a server waits with that has asked for another hello. -/
def Asked (ring : Ring) (config : ServerConfig) (log : List Message) (retrying : Retrying) : Prop :=
  ∃ first opening, log = [first] ∧
    WithoutShare config first opening retrying.suite retrying.group ∧
    retrying.suite.parts = some (retrying.aead, retrying.hash) ∧
    retrying.random = opening.random ∧ retrying.sessionId = opening.sessionId ∧
    retrying.transcriptHead = octets
      (retriedFront ring retrying.hash first opening retrying.suite retrying.group)

/-- The state, against the steps taken so far. -/
def Progress (ring : Ring) (config : ServerConfig) (log : List (Endpoint.Taken State)) :
    State → Prop
  | .awaitClientHello => log = []
  | .awaitRetriedClientHello retrying => Asked ring config (log.map (·.message)) retrying
  | .awaitFinished negotiated => ∃ x flight, Heard ring config log x flight ∧
      InFlight ring config x flight negotiated ∧
      FlightSoFar ring config x negotiated flight negotiated.expect
  | .done connection => ∃ x flight finished,
      ClientAuthenticated ring config log connection x flight finished
  | .failed => True

section Step

variable {ring : Ring} {entropy : Entropy} {config : ServerConfig} {before : List Message}
  {log : List (Endpoint.Taken State)} {state : State} {m : Message} {reply : Bytes} {next : State}

theorem complete_answers_hello {front : List Message} {hello : ClientHello}
    {selected : Selected} {ccs : Bool} (hccs : ccs = decide (before = []))
    (htyp : m.typ = .clientHello) (hparse : ClientHello.parse m.body = .ok hello)
    (hparts : selected.suite.parts = some (selected.aead, selected.hash))
    (hselects : Selects ring config hello selected before front)
    (hpsk : acceptPsk ring config hello m.encoded (octets front) selected.suite selected.hash
      = .ok selected.psk)
    (h : complete ring entropy config (octets front ++ m.encoded) hello selected ccs
      = .ok (reply, next)) :
    ∃ answer negotiated, SendsFlight ring config before ⟨entropy, state, m, reply, next⟩ answer
      negotiated := by
  obtain ⟨draw, negotiated, sealer, record, hcompleted, hsealer, hseal, hreply, hnext⟩ :=
    complete_inv h
  obtain ⟨_, _, -, hshort, -⟩ := sealRecord_ok (Prod.ext hseal rfl)
  refine ⟨⟨before, front, m, hello, selected, entropy, draw⟩, negotiated, rfl, rfl, rfl, hnext,
    ⟨htyp, hparse, hparts, hselects, hpsk, hcompleted, hshort⟩, sealer, record, hsealer, hseal, ?_⟩
  rw [hreply, hccs]
  simp

/-- What a hello leads to: a retry, or an answer. -/
def Leads (ring : Ring) (config : ServerConfig) (before : List Message)
    (step : Endpoint.Taken State) : Prop :=
  (∃ retrying, step.after = .awaitRetriedClientHello retrying ∧
      Asked ring config (before ++ [step.message]) retrying) ∨
    ∃ answer negotiated, SendsFlight ring config before step answer negotiated

theorem leads_hello (h : handleHello ring entropy config m = .ok (reply, next)) :
    Leads ring config [] ⟨entropy, state, m, reply, next⟩ := by
  obtain ⟨hello, suite, aead, hash, scheme, shares, htyp, hparse, -, hsuite, hparts, -, hshares,
    ⟨hnone, h⟩ | ⟨group, peerKey, psk, hchosen, hpsk, h⟩⟩ := handleHello_inv h
  · obtain ⟨data, groups, group, hdata, hgroups, hgroup, rfl⟩ := retry_inv h
    refine .inl ⟨_, rfl, m, hello, rfl, ⟨htyp, hparse, hsuite, ⟨shares, hshares, hnone⟩,
      data, groups, hdata, hgroups, hgroup⟩, hparts, rfl, rfl, ?_⟩
    rw [retriedFront, octets_cons, octets_cons, octets_nil, List.append_nil]
    rfl
  · exact .inr (@complete_answers_hello ring entropy config [] state m reply next [] hello
      ⟨suite, aead, hash, scheme, group, peerKey, psk⟩ true rfl htyp hparse hparts
      (.direct hsuite hshares hchosen) hpsk h)

theorem leads_retried {retrying : Retrying} (hasked : Asked ring config before retrying)
    (h : retriedHello ring entropy config retrying m = .ok (reply, next)) :
    Leads ring config before ⟨entropy, state, m, reply, next⟩ := by
  obtain ⟨first, opening, rfl, hwithout, hparts, hrandom, hid, hhead⟩ := hasked
  obtain ⟨hello, scheme, data, shares, peerKey, psk, htyp, hparse, hrandom', hid', -, -, -, hdata,
    hshares, hpeer, hpsk, h⟩ := retriedHello_inv h
  rw [hhead] at h hpsk
  exact .inr (@complete_answers_hello ring entropy config [first] state m reply next _ hello
    ⟨retrying.suite, retrying.aead, retrying.hash, scheme, retrying.group, peerKey, psk⟩ false
    (by simp) htyp hparse hparts
    (.retried hwithout (hrandom'.trans hrandom) (hid'.trans hid) hdata hshares hpeer) hpsk h)

/-- Where a client begins that has just been answered. -/
theorem flightSoFar_answered {answer : Answer} {negotiated : Negotiated}
    (hanswers : AnswersHello ring config answer negotiated) :
    FlightSoFar ring config answer negotiated [] negotiated.expect := by
  rw [hanswers.completed.expect]
  have hcerts := hanswers.completed.certificates
  cases hpsk : answer.selected.psk with
  | some psk =>
      have hasks : asksForCertificate config (some psk) = false := by simp [asksForCertificate]
      rw [hpsk] at hcerts
      rw [hasks, if_neg (by simp)]
      show ClientIdentified ring config _ [] negotiated.clientCertificates
      rw [hcerts]
      exact .resumed hpsk
  | none =>
      rw [hpsk] at hcerts
      cases hauth : config.clientAuth with
      | none =>
          have hasks : asksForCertificate config none = false := by simp [asksForCertificate, hauth]
          rw [hasks, if_neg (by simp)]
          show ClientIdentified ring config _ [] negotiated.clientCertificates
          rw [hcerts]
          exact .anonymous hpsk hauth
      | some auth =>
          have hasks : asksForCertificate config none = true := by simp [asksForCertificate, hauth]
          rw [hasks, if_pos rfl]
          exact ⟨rfl, hpsk, hcerts⟩

theorem Leads.progress {step : Endpoint.Taken State}
    (h : Leads ring config (log.map (·.message)) step) :
    Progress ring config (log ++ [step]) step.after := by
  rcases h with ⟨retrying, hafter, hasked⟩ | ⟨answer, negotiated, hsends⟩
  · rw [hafter, Progress, List.map_append]
    exact hasked
  · have hdone := hsends.answers.completed
    rw [hsends.after]
    refine ⟨answer, [], ⟨log, step, [], negotiated, rfl, hsends, rfl⟩,
      ⟨hdone.aead, hdone.hash, hdone.suite, ?_, hdone.clientSecret⟩,
      flightSoFar_answered hsends.answers⟩
    simpa [Answer.sent] using hdone.transcript

variable {x : Answer} {flight : List Message} {negotiated : Negotiated}

/-- A message joins the client's flight: it goes into the transcript and changes nothing of the
keys. -/
theorem InFlight.add (h : InFlight ring config x flight negotiated) {joined : Negotiated}
    (hjoined : joined = { negotiated with
      transcript := negotiated.transcript.addMessage m
      expect := joined.expect
      clientCertificates := joined.clientCertificates
      clientCertificateTranscript := joined.clientCertificateTranscript }) :
    InFlight ring config x (flight ++ [m]) joined := by
  rw [hjoined]
  refine ⟨h.aead, h.hash, h.suite, ?_, h.clientSecret⟩
  simp [Transcript.addMessage, Transcript.add, h.transcript]

theorem progress_certificate (hin : InFlight ring config x flight negotiated)
    (hheard : Heard ring config log x flight)
    (hso : FlightSoFar ring config x negotiated flight .certificate) (htyp : m.typ = .certificate)
    (h : handleCertificate ring config negotiated m = .ok (reply, next)) :
    Progress ring config (log ++ [⟨entropy, state, m, reply, next⟩]) next := by
  have hmore : Heard ring config (log ++ [⟨entropy, state, m, reply, next⟩]) x (flight ++ [m]) :=
    hheard.snoc
  obtain ⟨rfl, hpsk, hcerts⟩ := hso
  obtain ⟨certificate, auth, hparse, hauth, hcase⟩ := handleCertificate_inv h
  rcases hcase with ⟨hempty, hrequired, rfl⟩ | ⟨hne, leaf, rest, path, hchain, hpath, rfl⟩
  · refine ⟨x, _, hmore, hin.add rfl, ?_⟩
    show ClientIdentified ring config x [m] negotiated.clientCertificates
    rw [hcerts]
    exact .declined hpsk hauth hrequired ⟨htyp, certificate, hparse, by simp [hempty]⟩
  · refine ⟨x, _, hmore, hin.add rfl, hpsk, auth, m, rfl, hauth, ?_, ⟨htyp, certificate, hparse, rfl⟩,
      ⟨leaf, rest, path, hchain, hpath⟩, ?_⟩
    · simpa using hne
    · simp [Transcript.addMessage, Transcript.add, hin.transcript, Transcript.hash]

theorem progress_certificateVerify (hin : InFlight ring config x flight negotiated)
    (hheard : Heard ring config log x flight)
    (hso : FlightSoFar ring config x negotiated flight .certificateVerify)
    (htyp : m.typ = .certificateVerify)
    (h : handleCertificateVerify ring negotiated m = .ok (reply, next)) :
    Progress ring config (log ++ [⟨entropy, state, m, reply, next⟩]) next := by
  have hmore : Heard ring config (log ++ [⟨entropy, state, m, reply, next⟩]) x (flight ++ [m]) :=
    hheard.snoc
  obtain ⟨hpsk, auth, certificate, rfl, hauth, hne, hpresents, hchain, htranscript⟩ := hso
  obtain ⟨verify, der, leaf, hparse, hder, hleaf, hverify, rfl⟩ := handleCertificateVerify_inv h
  rw [htranscript] at hverify
  refine ⟨x, _, hmore, hin.add rfl, ?_⟩
  exact .certified hpsk hauth hne hpresents hchain
    ⟨verify, der, leaf, htyp, hparse, hder, hleaf, hverify⟩

theorem progress_finished (hin : InFlight ring config x flight negotiated)
    (hheard : Heard ring config log x flight)
    (hso : ClientIdentified ring config x flight negotiated.clientCertificates)
    (htyp : m.typ = .finished)
    (h : handleFinished ring entropy config negotiated m = .ok (reply, next)) :
    Progress ring config (log ++ [⟨entropy, state, m, reply, next⟩]) next := by
  obtain ⟨_, sealer, opener, hverify, -, rfl⟩ := handleFinished_inv h
  refine ⟨x, flight, m, hheard.snoc, hin.hash, hin.suite, hso, htyp, ?_⟩
  have hcovered : negotiated.transcript.hash ring
      = negotiated.hash.hash ring (x.sent ring config ++ octets flight) := by
    rw [hin.transcript, hin.hash]
    rfl
  rw [hin.clientSecret, hcovered] at hverify
  exact hverify

/-- One message of the client's flight. -/
theorem progress_flight (hin : InFlight ring config x flight negotiated)
    (hheard : Heard ring config log x flight)
    (hso : FlightSoFar ring config x negotiated flight negotiated.expect)
    (h : clientFlight ring entropy config negotiated m = .ok (reply, next)) :
    Progress ring config (log ++ [⟨entropy, state, m, reply, next⟩]) next := by
  rcases clientFlight_inv h with ⟨hexpect, htyp, h⟩ | ⟨hexpect, htyp, h⟩ | ⟨hexpect, htyp, h⟩
  · rw [hexpect] at hso
    exact progress_certificate hin hheard hso htyp h
  · rw [hexpect] at hso
    exact progress_certificateVerify hin hheard hso htyp h
  · have hidentified : ClientIdentified ring config x flight negotiated.clientCertificates := by
      rcases hexpect with hexpect | hexpect
      · rw [hexpect] at hso
        exact hso
      · rw [hexpect] at hso
        exact hso
    exact progress_finished hin hheard hidentified htyp h

/-- The invariant survives every message. -/
theorem progress_handle (hP : Progress ring config log state)
    (h : handle ring entropy config state m = .ok (reply, next)) :
    Progress ring config (log ++ [⟨entropy, state, m, reply, next⟩]) next := by
  cases state with
  | awaitClientHello =>
      obtain rfl : log = [] := hP
      exact (leads_hello h).progress
  | awaitRetriedClientHello retrying => exact (leads_retried hP h).progress
  | awaitFinished negotiated =>
      obtain ⟨x, flight, hheard, hin, hso⟩ := hP
      exact progress_flight hin hheard hso h
  | done connection => simp [handle] at h
  | failed => simp [handle] at h

/-- Nor does the opener's counter matter to it. -/
theorem progress_unframe {record fragment : Bytes}
    (hP : Progress ring config log state)
    (h : unframe ring state record = .ok (fragment, next)) : Progress ring config log next := by
  rcases unframe_inv h with ⟨-, rfl, -⟩ | ⟨negotiated, opener, rfl, rfl, -⟩
  · exact hP
  · obtain ⟨x, flight, hheard, hin, hso⟩ := hP
    refine ⟨x, flight, hheard, ⟨hin.aead, hin.hash, hin.suite, hin.transcript,
      hin.clientSecret⟩, ?_⟩
    cases hexpect : negotiated.expect <;> rw [hexpect] at hso <;> exact hso

end Step

/-- Every run keeps the invariant. -/
theorem progress_run (ring : Ring) (config : ServerConfig) (inputs : List (Entropy × Bytes)) :
    Progress ring config ((endpoint ring config).taken ServerHandshake.new inputs)
      ((endpoint ring config).run ServerHandshake.new inputs).state := by
  have hrun := Endpoint.taken_induct (endpoint ring config) (P := Progress ring config)
    (fun _ _ _ => trivial) (fun _ _ _ _ _ hP h => progress_unframe hP h)
    (fun _ _ _ _ _ _ hP h => progress_handle hP h) inputs ServerHandshake.new [] rfl
  exact hrun

/-! ### The contract -/

/-- A ticket's client is still acceptable: nobody is asked for and it names nobody, or it names
nobody and nobody is required, or its chain validates now. -/
theorem clientIsStillAcceptable_inv {ring : Ring} {config : ServerConfig} {contents : TicketContents}
    (h : clientIsStillAcceptable ring config contents = true) :
    (config.clientAuth = none ∧ contents.clientCertificates = []) ∨
      ∃ auth, config.clientAuth = some auth ∧
        ((contents.clientCertificates = [] ∧ auth.required = false) ∨
          (contents.clientCertificates ≠ [] ∧
            ChainAccepted ring auth contents.clientCertificates)) := by
  unfold clientIsStillAcceptable at h
  split at h
  · next hauth => exact .inl ⟨hauth, by simpa using h⟩
  next auth hauth =>
  split at h
  · next hempty => exact .inr ⟨auth, hauth, .inl ⟨by simpa using hempty, by simpa using h⟩⟩
  next hempty =>
  split at h
  · next leaf rest hparsed =>
      cases hpath : validatePath ring leaf rest auth.anchors auth.path with
      | error err => simp [hpath, Except.isOk, Except.toBool] at h
      | ok path =>
          exact .inr ⟨auth, hauth, .inr ⟨by simpa using hempty, leaf, rest, path, hparsed, hpath⟩⟩
  · simp at h

/-- The chain of a resumed client comes out of its ticket, and was checked again. -/
theorem resumed_acceptable {ring : Ring} {config : ServerConfig} {x : Answer}
    {answered : Negotiated} (hanswers : AnswersHello ring config x answered) {psk : AcceptedPsk}
    (hpsk : x.selected.psk = some psk) :
    (config.clientAuth = none ∧ psk.clientCertificates = []) ∨
      ∃ auth, config.clientAuth = some auth ∧
        ((psk.clientCertificates = [] ∧ auth.required = false) ∨
          (psk.clientCertificates ≠ [] ∧ ChainAccepted ring auth psk.clientCertificates)) := by
  have haccept := hanswers.psk
  rw [hpsk] at haccept
  obtain ⟨_, _, _, _, contents, _, haccepted⟩ := acceptPsk_inv haccept
  rw [haccepted.chain_eq]
  exact clientIsStillAcceptable_inv haccepted.acceptable.client

/-- A chain that was validated in this handshake and that the client proved to be its own: it signed
the transcript with the leaf's key, or resumed with a ticket that names the chain. -/
def ChainProven (ring : Ring) (config : ServerConfig) (x : Answer) (flight : List Message)
    (certificates : List Bytes) : Prop :=
  ∃ auth, config.clientAuth = some auth ∧ ChainAccepted ring auth certificates ∧
    ((∃ certificate verify, flight = [certificate, verify] ∧ Presents certificate certificates ∧
        SignedBy ring x.selected.hash (x.sent ring config ++ certificate.encoded) certificates
          verify) ∨
      ∃ psk tickets offer truncated offered contents binder, x.selected.psk = some psk ∧
        PskAccepted ring config x.hello x.message.encoded (octets x.front) x.selected.suite
          x.selected.hash psk tickets offer truncated offered contents binder ∧
        contents.clientCertificates = certificates)

section Contract

variable {ring : Ring} {config : ServerConfig} {x : Answer} {answered : Negotiated}
  {flight : List Message} {certificates : List Bytes}

theorem certificates_of_none (hanswers : AnswersHello ring config x answered)
    (h : ClientIdentified ring config x flight certificates) (hauth : config.clientAuth = none) :
    certificates = [] := by
  cases h with
  | anonymous _ _ => rfl
  | declined _ _ _ _ => rfl
  | certified _ hsome _ _ _ _ => simp [hauth] at hsome
  | resumed hpsk =>
      rcases resumed_acceptable hanswers hpsk with ⟨-, hempty⟩ | ⟨auth, hsome, -⟩
      · exact hempty
      · simp [hauth] at hsome

theorem certificates_of_required (hanswers : AnswersHello ring config x answered)
    (h : ClientIdentified ring config x flight certificates) {auth : ClientAuth}
    (hauth : config.clientAuth = some auth) (hrequired : auth.required = true) :
    certificates ≠ [] := by
  cases h with
  | anonymous _ hnone => simp [hauth] at hnone
  | declined _ hsome hoptional _ =>
      rw [hauth] at hsome
      obtain rfl := Option.some.inj hsome
      simp [hrequired] at hoptional
  | certified _ _ hne _ _ _ => exact hne
  | resumed hpsk =>
      rcases resumed_acceptable hanswers hpsk with ⟨hnone, -⟩ | ⟨auth', hsome, hcase⟩
      · simp [hauth] at hnone
      · rw [hauth] at hsome
        obtain rfl := Option.some.inj hsome
        rcases hcase with ⟨-, hoptional⟩ | ⟨hne, -⟩
        · simp [hrequired] at hoptional
        · exact hne

/-- Someone is reported: the chain was proven in this handshake. -/
theorem certificates_of_ne_nil (hanswers : AnswersHello ring config x answered)
    (h : ClientIdentified ring config x flight certificates) (hne : certificates ≠ []) :
    ChainProven ring config x flight certificates := by
  cases h with
  | anonymous _ _ => exact absurd rfl hne
  | declined _ _ _ _ => exact absurd rfl hne
  | certified _ hauth _ hpresents hchain hsigned =>
      exact ⟨_, hauth, hchain, .inl ⟨_, _, rfl, hpresents, hsigned⟩⟩
  | @resumed psk hpsk =>
      have haccept := hanswers.psk
      rw [hpsk] at haccept
      obtain ⟨tickets, offer, truncated, offered, contents, binder, haccepted⟩ :=
        acceptPsk_inv haccept
      rcases resumed_acceptable hanswers hpsk with
        ⟨-, hempty⟩ | ⟨auth, hauth, ⟨hempty, -⟩ | ⟨-, hchain⟩⟩
      · exact absurd hempty hne
      · exact absurd hempty hne
      · exact ⟨auth, hauth, hchain, .inr ⟨psk, tickets, offer, truncated, offered, contents, binder,
          hpsk, haccepted, haccepted.chain_eq.symm⟩⟩

end Contract

/-- Whatever records a server is given, the connection of a handshake that is done reports
nobody if nobody is asked for, somebody if somebody is required, and nobody who was not
validated in this handshake and who did not prove possession in it, by a signature or by the
key of a ticket that names them. The client's Finished verified in every case. -/
theorem run_clientAuthenticated (ring : Ring) (config : ServerConfig)
    (inputs : List (Entropy × Bytes)) (connection : Connection)
    (hdone : ((endpoint ring config).run ServerHandshake.new inputs).state = .done connection) :
    (endpoint ring config).accepted ServerHandshake.new inputs
      = ((endpoint ring config).taken ServerHandshake.new inputs).map (·.message) ∧
    ∃ x flight finished,
      ClientAuthenticated ring config
        ((endpoint ring config).taken ServerHandshake.new inputs) connection x flight finished ∧
      (config.clientAuth = none → connection.peerCertificates = []) ∧
      (∀ auth, config.clientAuth = some auth → auth.required = true →
        connection.peerCertificates ≠ []) ∧
      (connection.peerCertificates ≠ [] →
        ChainProven ring config x flight connection.peerCertificates) := by
  have hprogress := progress_run ring config inputs
  rw [hdone] at hprogress
  obtain ⟨x, flight, finished, hauth⟩ := hprogress
  obtain ⟨answered, hanswers⟩ := hauth.heard.answers
  refine ⟨Endpoint.accepted_eq_taken _ inputs _, x, flight, finished, hauth, ?_, ?_, ?_⟩
  · exact certificates_of_none hanswers hauth.identified
  · intro auth
    exact certificates_of_required hanswers hauth.identified
  · exact certificates_of_ne_nil hanswers hauth.identified

/-- The sample server, asking for a certificate that the key `[7]` issued. -/
def sampleAsking : ServerConfig :=
  { ServerConfig.sample with
    clientAuth := some ⟨Client.ClientConfig.sample.anchors, {}, true⟩ }

/-- The sample client, with the same certificate for its own. -/
def sampleIdentified : Client.ClientConfig :=
  { Client.ClientConfig.sample with
    identity := some ⟨ServerConfig.sample.certificates, ServerConfig.sample.key⟩ }

/-- What the sample client sends to the sample server in a handshake with it. -/
def sampleDialogue : List (Entropy × Bytes) :=
  match Client.start .sample (.sample 1) sampleIdentified with
  | .error _ => []
  | .ok (client, first) =>
      let answer := (endpoint .sample sampleAsking).replies ServerHandshake.new [(.sample 2, first)]
      let second := (Client.endpoint .sample sampleIdentified).replies client
        ((records answer).map (.sample 3, ·))
      (.sample 2, first) :: (records second).map (.sample 4, ·)

/-- The sample server reports the sample client. -/
theorem run_clientAuthenticated_sample :
    ∃ connection, ((endpoint .sample sampleAsking).run ServerHandshake.new sampleDialogue).state
        = .done connection ∧
      ∃ x flight finished,
        ClientAuthenticated .sample sampleAsking
          ((endpoint .sample sampleAsking).taken ServerHandshake.new sampleDialogue) connection x
          flight finished ∧
        connection.peerCertificates ≠ [] ∧
        ChainProven .sample sampleAsking x flight connection.peerCertificates := by
  have hdone : ServerHandshake.isFinished ((endpoint .sample sampleAsking).run ServerHandshake.new
      sampleDialogue) = true := by decide +kernel
  obtain ⟨connection, hdone⟩ := ServerHandshake.isFinished_iff.mp hdone
  obtain ⟨-, x, flight, finished, hauth, -, hrequired, hproven⟩ :=
    run_clientAuthenticated _ _ _ _ hdone
  have hsome := hrequired _ rfl rfl
  exact ⟨connection, hdone, x, flight, finished, hauth, hsome, hproven hsome⟩

end Server

end RustyTls
