import RustyTls.ClientSound
import RustyTls.HelloLimits
import RustyTls.ServerSound

/-!
# RustyTls.Views

What each end has on record of a handshake, whatever the network did to it.

A transcript is the octets of a list of messages, those an end sent and those it accepted in the
order they went by, and the list can be read back from the octets (`octets_inj`). After a retry the
list begins with the hash of the first hello (`hashMessage`), which is framed like a message.

On the client's side `Underway` is the invariant of a run. It keeps the hellos an answer came to
(`Opened`) and how the keys came out of them (`Keyed`). On the server's side it keeps the step that
sent the server's flight, which answered a hello of this very run (`Sends`), and what the client sent
since.
-/

namespace RustyTls

open Core

/-! ### Lists of messages -/

/-- Framed messages are told apart in the octets they make up. -/
theorem octets_inj {ms ms' : List Message} (hframed : ∀ m ∈ ms, Framed m)
    (hframed' : ∀ m ∈ ms', Framed m) (h : octets ms = octets ms') : ms = ms' := by
  have hread := messages_framed ms hframed
  rw [← octets, h] at hread
  exact Except.ok.inj (hread.symm.trans (messages_framed ms' hframed'))

theorem hashMessage_framed {ring : Ring} (lawful : ring.Lawful) (hash : Hash)
    (clientHello : Bytes) : Framed (hashMessage ring hash clientHello) := by
  have hlen := hash.hash_length lawful clientHello
  have hle := hash.len_le
  refine ⟨254, rfl, ?_, ?_⟩
  · show (hash.hash ring clientHello).length < 2 ^ 24
    omega
  · show Client.messageHash ring hash clientHello = _
    rw [Client.messageHash]
    show _ = (254 : UInt8) :: (beBytes 3 (hash.hash ring clientHello).length ++ _)
    rw [hlen]
    cases hash <;> rfl

namespace Endpoint

variable {ε σ : Type} {endpoint : Endpoint ε σ}

theorem stepsOf_mem {entropy : Entropy} {handle : σ → Message → Except ε (Bytes × σ)}
    {step : Taken σ} : ∀ {ms : List Message} {s : σ}, step ∈ stepsOf entropy handle s ms →
      step.entropy = entropy ∧ step.message ∈ ms := by
  intro ms
  induction ms with
  | nil =>
      intro s h
      simp [stepsOf] at h
  | cons m ms ih =>
      intro s h
      cases hhandle : handle s m with
      | error err => simp [stepsOf, hhandle] at h
      | ok result =>
          obtain ⟨reply, s'⟩ := result
          simp only [stepsOf, hhandle, List.mem_cons] at h
          rcases h with rfl | h
          · exact ⟨rfl, List.mem_cons_self⟩
          · obtain ⟨hentropy, hmem⟩ := ih h
            exact ⟨hentropy, List.mem_cons_of_mem _ hmem⟩

theorem recordSteps_mem {entropy : Entropy} {handshake : Reassembling σ} {record : Bytes}
    {step : Taken σ} (h : step ∈ endpoint.recordSteps entropy handshake record) :
    step.entropy = entropy ∧ Framed step.message := by
  unfold recordSteps at h
  split at h
  · exact absurd h List.not_mem_nil
  · split at h
    · obtain ⟨hentropy, hmem⟩ := stepsOf_mem h
      exact ⟨hentropy, (split_spec _).2.1 _ hmem⟩
    · exact absurd h List.not_mem_nil

/-- `Q` holds where each step of a log begins, of the steps before it, and each step is one. -/
def HoldsBefore (endpoint : Endpoint ε σ) (Q : List (Taken σ) → σ → Prop) (log : List (Taken σ)) :
    Prop :=
  ∀ (pre : List (Taken σ)) (step : Taken σ) (post : List (Taken σ)), log = pre ++ step :: post →
    Q pre step.before ∧
      endpoint.handle step.entropy step.before step.message = .ok (step.reply, step.after)

theorem HoldsBefore.snoc {Q : List (Taken σ) → σ → Prop} {log : List (Taken σ)} {step : Taken σ}
    (h : HoldsBefore endpoint Q log) (hQ : Q log step.before)
    (hstep : endpoint.handle step.entropy step.before step.message = .ok (step.reply, step.after)) :
    HoldsBefore endpoint Q (log ++ [step]) := by
  intro pre step' post hsplit
  -- The new step is the last one, or the split is one of the log before it.
  rcases List.eq_nil_or_concat post with rfl | ⟨post', last, rfl⟩
  · obtain ⟨rfl, heq⟩ := List.append_inj' hsplit rfl
    obtain rfl := List.singleton_inj.mp heq
    exact ⟨hQ, hstep⟩
  · rw [List.concat_eq_append, ← List.cons_append, ← List.append_assoc] at hsplit
    exact h pre step' post' (List.append_inj' hsplit rfl).1

variable [DecidableEq σ]

/-- Every step of a run is taken with the entropy of an input, and with a framed message. -/
theorem taken_mem {step : Taken σ} : ∀ {inputs : List (Entropy × Bytes)}
    {handshake : Reassembling σ}, step ∈ endpoint.taken handshake inputs →
      (∃ record, (step.entropy, record) ∈ inputs) ∧ Framed step.message := by
  intro inputs
  induction inputs with
  | nil =>
      intro handshake h
      exact absurd h List.not_mem_nil
  | cons input rest ih =>
      intro handshake h
      obtain ⟨entropy, record⟩ := input
      cases hread : endpoint.readRecord entropy handshake record with
      | mk result next =>
          rw [taken, hread] at h
          have hlater : step ∈ endpoint.taken next rest →
              (∃ record', (step.entropy, record') ∈ (entropy, record) :: rest) ∧
                Framed step.message := by
            intro h
            obtain ⟨⟨record', hmem⟩, hframed⟩ := ih h
            exact ⟨⟨record', List.mem_cons_of_mem _ hmem⟩, hframed⟩
          cases result with
          | error err => exact hlater h
          | ok reply =>
              rcases List.mem_append.mp h with h | h
              · obtain ⟨rfl, hframed⟩ := recordSteps_mem h
                exact ⟨⟨record, List.mem_cons_self⟩, hframed⟩
              · exact hlater h

/-- A run takes a step, after it has accepted the messages of a log. -/
def Takes (endpoint : Endpoint ε σ) (handshake : Reassembling σ) (inputs : List (Entropy × Bytes))
    (log : List Message) (step : Taken σ) : Prop :=
  ∃ pre post, endpoint.taken handshake inputs = pre ++ step :: post ∧ log = pre.map Taken.message

section Takes

variable {handshake : Reassembling σ} {inputs : List (Entropy × Bytes)} {log : List Message}
  {step : Taken σ}

theorem exists_takes (h : step ∈ endpoint.taken handshake inputs) :
    ∃ log, endpoint.Takes handshake inputs log step := by
  obtain ⟨pre, post, hsplit⟩ := List.append_of_mem h
  exact ⟨_, pre, post, hsplit, rfl⟩

theorem Takes.mem (h : endpoint.Takes handshake inputs log step) :
    step ∈ endpoint.taken handshake inputs := by
  obtain ⟨pre, post, hsplit, -⟩ := h
  simp [hsplit]

theorem Takes.framed (h : endpoint.Takes handshake inputs log step) :
    ∀ m ∈ log ++ [step.message], Framed m := by
  have hstep := (taken_mem h.mem).2
  obtain ⟨pre, post, hsplit, rfl⟩ := h
  refine List.forall_mem_append.mpr ⟨?_, List.forall_mem_singleton.mpr hstep⟩
  intro m hmem
  obtain ⟨taken, htaken, rfl⟩ := List.mem_map.mp hmem
  exact (taken_mem (hsplit ▸ List.mem_append_left _ htaken)).2

end Takes

/-- The invariant rule for runs and for every step of them: what survives a failure and the opener's
moves and is kept by every message, holds after a run and where each of its steps begins. -/
theorem taken_each (endpoint : Endpoint ε σ) {Q : List (Taken σ) → σ → Prop}
    (hfailed : ∀ log s, Q log s → Q log endpoint.failed)
    (hunframe : ∀ log s record fragment s', Q log s →
      endpoint.unframe s record = .ok (fragment, s') → Q log s')
    (hhandle : ∀ entropy log s m reply s', Q log s →
      endpoint.handle entropy s m = .ok (reply, s') → Q (log ++ [⟨entropy, s, m, reply, s'⟩]) s')
    (inputs : List (Entropy × Bytes)) (handshake : Reassembling σ) (hQ : Q [] handshake.state) :
    Q (endpoint.taken handshake inputs) (endpoint.run handshake inputs).state ∧
      HoldsBefore endpoint Q (endpoint.taken handshake inputs) := by
  have hrun := taken_induct endpoint (P := fun log s => Q log s ∧ HoldsBefore endpoint Q log)
    (fun _ _ hP => ⟨hfailed _ _ hP.1, hP.2⟩)
    (fun _ _ _ _ _ hP h => ⟨hunframe _ _ _ _ _ hP.1 h, hP.2⟩)
    (fun entropy log s m reply s' hP h => ⟨hhandle _ _ _ _ _ _ hP.1 h, hP.2.snoc hP.1 h⟩)
    inputs handshake [] ⟨hQ, by simp [HoldsBefore]⟩
  exact hrun

end Endpoint

/-! ### The client's side -/

theorem CertificateRequestMessage.parse_context {body : Bytes}
    {request : CertificateRequestMessage} (h : parse body = .ok request) :
    request.context.length < 2 ^ 8 := by
  simp only [parse, wire, bind_eq_ok, mapErr_eq_ok] at h
  obtain ⟨⟨context, reader⟩, hcontext, _, -, _, -, _, -, _, -, _, -, _, -, heq⟩ := h
  obtain ⟨-, hlen⟩ := Reader.vectorU8_iff.mp hcontext
  rw [← Except.ok.inj heq]
  exact hlen

namespace Client

/-- The answer to a hello. -/
structure Reply where
  message : Message
  hello : ServerHello
  peerKey : Bytes
  session : Option Session
  sharedSecret : Bytes

/-- The keys of a flight in progress, and the hellos they come from. -/
structure Keyed (ring : Ring) (config : ClientConfig) (awaiting : Awaiting) (answer : Reply)
    (flight : List Message) (negotiated : Negotiated) : Prop where
  accepted : HelloAccepted config awaiting answer.message answer.hello negotiated.aead negotiated.hash
  notRetry : answer.hello.isHelloRetryRequest = false
  share : ∃ data, find answer.hello.extensions ExtensionType.keyShare = some data ∧
    serverKeyShare data = .ok (awaiting.kx.group.asU16, answer.peerKey)
  session : acceptedSession config answer.hello negotiated.hash = .ok answer.session
  agreed : awaiting.kx.agree ring answer.peerKey = .ok answer.sharedSecret
  suite : negotiated.suite = ⟨answer.hello.cipherSuite⟩
  transcript : negotiated.transcript
    = ⟨negotiated.hash, awaiting.clientHello ++ answer.message.encoded ++ octets flight⟩
  schedule : negotiated.schedule
    = (earlySchedule ring negotiated.hash answer.session).intoHandshake ring answer.sharedSecret
  clientSecret : negotiated.clientHandshakeSecret = negotiated.schedule.derive ring "c hs traffic"
    (negotiated.hash.hash ring (awaiting.clientHello ++ answer.message.encoded))
  serverSecret : negotiated.serverHandshakeSecret = negotiated.schedule.derive ring "s hs traffic"
    (negotiated.hash.hash ring (awaiting.clientHello ++ answer.message.encoded))
  resumed : negotiated.resumed = answer.session.isSome
  unfinished : ∀ m ∈ flight, m.typ ≠ .finished

/-- The context of a request can be written back. -/
def ShortContext (negotiated : Negotiated) : Prop :=
  ∀ request, negotiated.certificateRequest = some request → request.context.length < 2 ^ 8

/-- A flight in progress, against the steps taken so far. -/
def Reading (ring : Ring) (config : ClientConfig) (start : Awaiting)
    (log : List (Endpoint.Taken State)) (expect : Expect) (negotiated : Negotiated) : Prop :=
  Progress ring config start log (.inFlight expect negotiated) ∧
    ShortContext negotiated ∧
    ∃ before awaiting answer flight,
      log.map (·.message) = before ++ answer.message :: flight ∧
      Opened ring config start before awaiting ∧
      Keyed ring config awaiting answer flight negotiated

/-- The state, against the steps taken so far. -/
def Underway (ring : Ring) (config : ClientConfig) (start : Awaiting)
    (log : List (Endpoint.Taken State)) : State → Prop
  | .awaitServerHello awaiting => Progress ring config start log (.awaitServerHello awaiting)
  | .inFlight expect negotiated => Reading ring config start log expect negotiated
  | .done _ | .failed => True

section Steps

variable {ring : Ring} {config : ClientConfig} {start : Awaiting}
  {log : List (Endpoint.Taken State)} {entropy : Entropy} {state : State} {m : Message}
  {reply : Bytes} {next : State}

/-- The answer, or the retry before it. -/
theorem underway_serverHello {awaiting : Awaiting}
    (hopened : Progress ring config start log (.awaitServerHello awaiting))
    (h : handleServerHello ring entropy config awaiting m = .ok (reply, next)) :
    Underway ring config start
      (log ++ [⟨entropy, .awaitServerHello awaiting, m, reply, next⟩]) next := by
  have hnext := progress_serverHello hopened h
  have hsent : Opened ring config start (log.map (·.message)) awaiting := hopened
  obtain ⟨hello, aead, hash, hok, ⟨hhrr, hfirst, h⟩ | ⟨hhrr, h⟩⟩ := handleServerHello_inv h
  · obtain ⟨again, rfl, -⟩ := opened_retry hsent hfirst hok hhrr h
    exact hnext
  · obtain ⟨share, peerKey, session, secret, negotiated, hshare, hkey, hsession, hsecret, hder, -,
      rfl⟩ := negotiate_inv h
    have hcontext : ShortContext negotiated := by
      intro request hrequest
      rw [hder.request_eq] at hrequest
      cases hrequest
    refine ⟨hnext, hcontext, log.map (·.message), awaiting, ⟨m, hello, peerKey, session, secret⟩, [],
      by simp, hsent, ?_⟩
    have hhash := hder.hash_eq
    refine ⟨?_, hhrr, ⟨share, hshare, hkey⟩, ?_, hsecret, hder.suite_eq, ?_, ?_, ?_, ?_,
      hder.resumed_eq, by simp⟩
    · rw [hhash, hder.aead_eq]
      exact hok
    · rw [hhash]
      exact hsession
    · rw [hder.transcript_eq, hhash]
      simp
    · rw [hder.schedule_eq, hhash]
    · rw [hder.client_eq, hhash]
    · rw [hder.server_eq, hhash]

/-- A message joins the flight: it goes into the transcript and changes nothing of the keys. -/
theorem Keyed.add {awaiting : Awaiting} {answer : Reply} {flight : List Message}
    {negotiated joined : Negotiated} (h : Keyed ring config awaiting answer flight negotiated)
    (htyp : m.typ ≠ .finished) (hjoined : joined = { negotiated with
      transcript := negotiated.transcript.addMessage m
      certificates := joined.certificates
      certificateTranscript := joined.certificateTranscript
      certificateRequest := joined.certificateRequest }) :
    Keyed ring config awaiting answer (flight ++ [m]) joined := by
  rw [hjoined]
  refine ⟨h.accepted, h.notRetry, h.share, h.session, h.agreed, h.suite, ?_, h.schedule,
    h.clientSecret, h.serverSecret, h.resumed, ?_⟩
  · simp [Transcript.addMessage, Transcript.add, h.transcript]
  · exact List.forall_mem_append.mpr ⟨h.unfinished, List.forall_mem_singleton.mpr htyp⟩

theorem shortContext_flight {expect expect' : Expect} {negotiated negotiated' : Negotiated}
    (hcontext : ShortContext negotiated)
    (h : handleFlightMessage ring entropy config expect negotiated m
      = .ok (reply, .inFlight expect' negotiated')) : ShortContext negotiated' := by
  rcases handleFlightMessage_inv h with
    ⟨-, h⟩ | ⟨-, -, h⟩ | ⟨-, -, h⟩ | ⟨-, -, h⟩ | ⟨-, -, h⟩
  · obtain ⟨request, -, -, -, hparse, -, hnext⟩ := handleCertificateRequest_inv h
    obtain ⟨-, rfl⟩ := State.inFlight.inj hnext
    intro request' hrequest
    obtain rfl := Option.some.inj hrequest
    exact CertificateRequestMessage.parse_context hparse
  · obtain ⟨-, hnext⟩ := handleEncryptedExtensions_inv h
    obtain ⟨-, rfl⟩ := State.inFlight.inj hnext
    exact hcontext
  · obtain ⟨_, -, -, -, hnext⟩ := handleCertificate_inv h
    obtain ⟨-, rfl⟩ := State.inFlight.inj hnext
    exact hcontext
  · obtain ⟨_, -, -, -, hnext⟩ := handleCertificateVerify_inv h
    obtain ⟨-, rfl⟩ := State.inFlight.inj hnext
    exact hcontext
  · obtain ⟨_, _, -, -, -, hnext, -⟩ := finish_inv h
    cases hnext

/-- One message of the flight. -/
theorem underway_flight {expect : Expect} {negotiated : Negotiated}
    (hreading : Reading ring config start log expect negotiated)
    (h : handleFlightMessage ring entropy config expect negotiated m = .ok (reply, next)) :
    Underway ring config start
      (log ++ [⟨entropy, .inFlight expect negotiated, m, reply, next⟩]) next := by
  have hnext : Progress ring config start
      (log ++ [⟨entropy, .inFlight expect negotiated, m, reply, next⟩]) next :=
    progress_handle hreading.1 h
  rcases flight_next h with ⟨-, htyp, -, _, _, _, _, rfl⟩ | ⟨rfl, htyp, h⟩
  · obtain ⟨-, hcontext, before, awaiting, answer, flight, hlog, hopened, hkeyed⟩ := hreading
    exact ⟨hnext, shortContext_flight hcontext h, before, awaiting, answer, flight ++ [m],
      by simp [hlog], hopened, hkeyed.add htyp rfl⟩
  · obtain ⟨_, connection, -, -, -, rfl, -⟩ := finish_inv h
    trivial

theorem underway_handle (hunder : Underway ring config start log state)
    (h : handleMessage ring entropy config state m = .ok (reply, next)) :
    Underway ring config start (log ++ [⟨entropy, state, m, reply, next⟩]) next := by
  cases state with
  | awaitServerHello awaiting => exact underway_serverHello hunder h
  | inFlight expect negotiated => exact underway_flight hunder h
  | done connection => simp [handleMessage] at h
  | failed => simp [handleMessage] at h

theorem underway_unframe {record fragment : Bytes}
    (hunder : Underway ring config start log state)
    (h : unframe ring state record = .ok (fragment, next)) :
    Underway ring config start log next := by
  rcases unframe_inv h with ⟨-, rfl, -⟩ | ⟨expect, negotiated, opener, rfl, rfl, hopen⟩
  · exact hunder
  · obtain ⟨hprogress, hcontext, before, awaiting, answer, flight, hlog, hopened, hk⟩ := hunder
    refine ⟨progress_unframe hprogress h, hcontext, before, awaiting, answer, flight, hlog, hopened,
      ?_⟩
    exact ⟨hk.accepted, hk.notRetry, hk.share, hk.session, hk.agreed, hk.suite, hk.transcript,
      hk.schedule, hk.clientSecret, hk.serverSecret, hk.resumed, hk.unfinished⟩

end Steps

/-- Every run of a client that waits for an answer is under way where a step begins. -/
theorem underway_takes {ring : Ring} {config : ClientConfig} {start : Awaiting}
    {inputs : List (Entropy × Bytes)} {log : List Message} {step : Endpoint.Taken State}
    (hstep : (endpoint ring config).Takes ⟨.awaitServerHello start, []⟩ inputs log step) :
    (∃ pre, log = pre.map (·.message) ∧ Underway ring config start pre step.before) ∧
      handleMessage ring step.entropy config step.before step.message
        = .ok (step.reply, step.after) := by
  have heach := Endpoint.taken_each (endpoint ring config) (Q := Underway ring config start)
    (fun _ _ _ => trivial) (fun _ _ _ _ _ hunder h => underway_unframe hunder h)
    (fun _ _ _ _ _ _ hunder h => underway_handle hunder h)
    inputs ⟨.awaitServerHello start, []⟩ Opened.direct
  obtain ⟨pre, post, hsplit, rfl⟩ := hstep
  obtain ⟨hunder, hhandle⟩ := heach.2 pre step post hsplit
  exact ⟨⟨pre, rfl, hunder⟩, hhandle⟩

/-! ### The hellos of a client -/

/-- Every hello that the configuration makes fits a record. -/
def ShortHellos (config : ClientConfig) : Prop :=
  ∀ group ∈ config.groups, helloLength config group ≤ maxFragmentLen

instance (config : ClientConfig) : Decidable (ShortHellos config) :=
  inferInstanceAs (Decidable (∀ group ∈ config.groups, _))

section Hellos

variable {ring : Ring} {config : ClientConfig} {start awaiting : Awaiting} {before : List Message}

/-- What a client builds is a hello that it can wait with. -/
theorem buildClientHello_offers (lawful : ring.Lawful) (hshares : ring.ShareLengths)
    (hshort : ShortHellos config) (hcheck : checkResumption config = .ok ())
    {entropy drawn : Entropy} {group : NamedGroup} (hmem : group ∈ config.groups)
    {kx : KeyExchange} (hkx : KeyExchange.generate ring drawn group = .ok kx)
    {identity : Option (Bytes × Bytes)}
    (hidentity : ∀ pair, identity = some pair → pair.1.length = 32 ∧ pair.2.length = 32)
    {front encoded random sessionId : Bytes}
    (h : buildClientHello ring entropy config kx identity front = .ok (encoded, random, sessionId))
    (retried : Bool) :
    ∃ binder, Offers ring config ⟨front ++ encoded, kx, retried, random, sessionId⟩ front encoded
      binder := by
  obtain ⟨hlength, hrandom, hid⟩ :=
    buildClientHello_length lawful hcheck hkx (generate_length hshares hkx) hidentity h
  obtain ⟨hgroup, hpublic⟩ := KeyExchange.generate_inv hkx
  simp only [buildClientHello, bind_eq_ok] at h
  obtain ⟨⟨random', sessionId'⟩, -, encoded', hencode, heq⟩ := h
  obtain ⟨rfl, hpair⟩ := Prod.mk.inj (Except.ok.inj heq)
  obtain ⟨rfl, rfl⟩ := Prod.mk.inj hpair
  obtain ⟨binder, encoded, hencode', hsent, hbinds⟩ :=
    encodeHello_eq lawful hcheck kx random' sessionId' front
  obtain rfl := Except.ok.inj (hencode'.symm.trans hencode)
  exact ⟨binder, rfl, hsent, hbinds, hrandom, hid, hlength ▸ hshort group hmem, hgroup ▸ hmem,
    hpublic⟩

/-- Where the hello that a client waits with comes from. -/
inductive Origin (ring : Ring) (config : ClientConfig) (start awaiting : Awaiting) :
    List Message → List Message → Prop
  | direct : awaiting = start → Origin ring config start awaiting [] []
  | retried {request : Message} {hello : ServerHello} {aead : Aead} {hash : Hash} :
      HelloAccepted config start request hello aead hash → hello.isHelloRetryRequest = true →
      askedGroup hello = some awaiting.kx.group → awaiting.random = start.random →
      awaiting.sessionId = start.sessionId →
      Origin ring config start awaiting [request]
        [hashMessage ring hash start.clientHello, request]

/-- A waiting client has sent a hello that fits a record, after the messages that stand for what
went before it. -/
theorem Opened.offers (lawful : ring.Lawful) (hshares : ring.ShareLengths)
    (hshort : ShortHellos config) {entropy : Entropy} {record : Bytes}
    (hstart : Client.start ring entropy config = .ok (⟨.awaitServerHello start, []⟩, record))
    (h : Opened ring config start before awaiting) :
    ∃ front encoded binder, Offers ring config awaiting (octets front) encoded binder ∧
      Origin ring config start awaiting before front := by
  obtain ⟨group, kx, hello, random, sessionId, hgroup, hcheck, hkx, hbuild, heq, -⟩ :=
    start_inv hstart
  obtain rfl : start = ⟨hello, kx, false, random, sessionId⟩ := by simpa using heq
  obtain ⟨binder, hoffers⟩ := buildClientHello_offers lawful hshares hshort hcheck
    (List.mem_of_mem_head? hgroup) hkx (by simp) hbuild false
  cases h with
  | direct => exact ⟨[], hello, binder, hoffers, .direct rfl⟩
  | @retried request _ _ hash _ _ _ second random' sessionId' hok hmarked hasked hmem hkx' hbuild' =>
      obtain ⟨-, hsame⟩ := buildClientHello_sends hbuild'
      obtain ⟨hrandom, hid⟩ := Prod.mk.inj (hsame _ rfl)
      subst hrandom hid
      have hidentity : ∀ pair : Bytes × Bytes, some (random', sessionId') = some pair →
          pair.1.length = 32 ∧ pair.2.length = 32 := by
        intro pair hpair
        obtain rfl := Option.some.inj hpair
        exact ⟨hoffers.random, hoffers.sessionId⟩
      obtain ⟨binder', hoffers'⟩ := buildClientHello_offers lawful hshares hshort hcheck hmem hkx'
        hidentity hbuild' true
      have hfront : octets [hashMessage ring hash hello, request]
          = messageHash ring hash hello ++ request.encoded := by
        rw [octets_cons, octets_cons, octets_nil, List.append_nil]
        rfl
      refine ⟨[hashMessage ring hash hello, request], second, binder', hfront ▸ hoffers', ?_⟩
      exact .retried hok hmarked (by rw [hasked, (KeyExchange.generate_inv hkx').1]) rfl rfl

/-- The hello that a client waits with, as a message. -/
def Awaiting.message (awaiting : Awaiting) (config : ClientConfig) (binder : Bytes) : Message :=
  Message.of .clientHello (awaiting.hello config binder).encode

theorem Offers.framed {front encoded binder : Bytes}
    (h : Offers ring config awaiting front encoded binder) :
    Framed (awaiting.message config binder) := by
  have hlen := h.short
  obtain ⟨hmax, -⟩ := limits
  rw [h.encodes, Message.encode_eq, List.length_cons, prefixed_length, hmax] at hlen
  exact @Message.of_framed .clientHello rfl _ (by omega)

theorem Offers.octets_eq {front : List Message} {encoded binder : Bytes}
    (h : Offers ring config awaiting (octets front) encoded binder) :
    octets (front ++ [awaiting.message config binder]) = awaiting.clientHello := by
  rw [h.clientHello, h.encodes, octets_append, octets_cons, octets_nil, List.append_nil]
  rfl

end Hellos

end Client

/-! ### The server's side -/

namespace Server

/-- What the server still knows of its answer when some of the client's flight has come. -/
structure Continues (answered : Negotiated) (flight : List Message) (negotiated : Negotiated) :
    Prop where
  aead : negotiated.aead = answered.aead
  hash : negotiated.hash = answered.hash
  suite : negotiated.suite = answered.suite
  transcript : negotiated.transcript
    = ⟨answered.transcript.hashAlg, answered.transcript.buffer ++ octets flight⟩
  clientSecret : negotiated.clientHandshakeSecret = answered.clientHandshakeSecret
  master : negotiated.master = answered.master
  clientApplication : negotiated.clientApplicationSecret = answered.clientApplicationSecret
  serverApplication : negotiated.serverApplicationSecret = answered.serverApplicationSecret
  unfinished : ∀ m ∈ flight, m.typ ≠ .finished

/-- How far the client has come with what the server asked it for. -/
def Authenticating (ring : Ring) (config : ServerConfig) (answer : Answer) (flight : List Message)
    (negotiated : Negotiated) : Prop :=
  match negotiated.expect with
  | .certificate => flight = [] ∧ asksForCertificate config answer.selected.psk = true
  | .certificateVerify => asksForCertificate config answer.selected.psk = true ∧
      negotiated.clientCertificateTranscript = negotiated.transcript.hash ring ∧
      ∃ certificate message, flight = [certificate] ∧
        CertificateMessage.parse certificate.body = .ok message ∧
        negotiated.clientCertificates = message.entries.map (·.certificate)
  | .finished | .finishedAfterEmptyCertificate => True

/-- A run of a server sends a flight. -/
def Sends (ring : Ring) (config : ServerConfig) (inputs : List (Entropy × Bytes)) (answer : Answer)
    (answered : Negotiated) : Prop :=
  ∃ before step, (endpoint ring config).Takes ServerHandshake.new inputs before step ∧
    SendsFlight ring config before step answer answered

/-- The client's flight in progress, against the steps taken so far: one of them sent the server's
flight, and the messages after it are the client's. -/
def Hearing (ring : Ring) (config : ServerConfig) (log : List (Endpoint.Taken State))
    (negotiated : Negotiated) : Prop :=
  ∃ pre step post answer answered, log = pre ++ step :: post ∧
    SendsFlight ring config (pre.map Endpoint.Taken.message) step answer answered ∧
    Continues answered (post.map Endpoint.Taken.message) negotiated ∧
    Authenticating ring config answer (post.map Endpoint.Taken.message) negotiated

/-- The state, against the steps taken so far. -/
def Underway (ring : Ring) (config : ServerConfig) (log : List (Endpoint.Taken State)) :
    State → Prop
  | .awaitClientHello => log = []
  | .awaitRetriedClientHello retrying => Asked ring config (log.map Endpoint.Taken.message) retrying
  | .awaitFinished negotiated => Hearing ring config log negotiated
  | .done _ | .failed => True

section Steps

variable {ring : Ring} {config : ServerConfig} {log : List (Endpoint.Taken State)}
  {entropy : Entropy} {state : State} {m : Message} {reply : Bytes} {next : State}

theorem Leads.underway {step : Endpoint.Taken State}
    (h : Leads ring config (log.map Endpoint.Taken.message) step) :
    Underway ring config (log ++ [step]) step.after := by
  rcases h with ⟨retrying, hafter, hasked⟩ | ⟨answer, negotiated, hsends⟩
  · rw [hafter, Underway, List.map_append]
    exact hasked
  · rw [hsends.after]
    refine ⟨log, step, [], answer, negotiated, rfl, hsends,
      ⟨rfl, rfl, rfl, by simp, rfl, rfl, rfl, rfl, by simp⟩, ?_⟩
    rw [Authenticating, hsends.answers.completed.expect]
    by_cases hasks : asksForCertificate config answer.selected.psk = true
    · rw [if_pos hasks]
      exact ⟨rfl, hasks⟩
    · rw [if_neg hasks]
      trivial

/-- A message joins the client's flight. -/
theorem Continues.add {answered negotiated joined : Negotiated} {flight : List Message}
    (h : Continues answered flight negotiated) (htyp : m.typ ≠ .finished)
    (hjoined : joined = { negotiated with
      transcript := negotiated.transcript.addMessage m
      expect := joined.expect
      clientCertificates := joined.clientCertificates
      clientCertificateTranscript := joined.clientCertificateTranscript }) :
    Continues answered (flight ++ [m]) joined := by
  rw [hjoined]
  refine ⟨h.aead, h.hash, h.suite, ?_, h.clientSecret, h.master, h.clientApplication,
    h.serverApplication, ?_⟩
  · simp [Transcript.addMessage, Transcript.add, h.transcript]
  · exact List.forall_mem_append.mpr ⟨h.unfinished, List.forall_mem_singleton.mpr htyp⟩

/-- What the client was asked for, one message on. -/
theorem authenticating_flight {answer : Answer} {flight : List Message}
    {negotiated negotiated' : Negotiated}
    (hauth : Authenticating ring config answer flight negotiated)
    (h : clientFlight ring entropy config negotiated m = .ok (reply, .awaitFinished negotiated')) :
    Authenticating ring config answer (flight ++ [m]) negotiated' := by
  rcases clientFlight_inv h with ⟨hexpect, -, h⟩ | ⟨-, -, h⟩ | ⟨-, -, h⟩
  · rw [Authenticating, hexpect] at hauth
    obtain ⟨rfl, hasks⟩ := hauth
    obtain ⟨certificate, auth, hparse, -, ⟨-, -, hnext⟩ | ⟨-, _, _, _, -, -, hnext⟩⟩ :=
      handleCertificate_inv h
    · obtain rfl := State.awaitFinished.inj hnext
      trivial
    · obtain rfl := State.awaitFinished.inj hnext
      exact ⟨hasks, rfl, m, certificate, rfl, hparse, rfl⟩
  · obtain ⟨_, _, _, -, -, -, -, hnext⟩ := handleCertificateVerify_inv h
    obtain rfl := State.awaitFinished.inj hnext
    trivial
  · obtain ⟨_, _, _, -, -, hnext⟩ := handleFinished_inv h
    cases hnext

/-- One message of the client's flight. -/
theorem underway_flight {negotiated : Negotiated} (hhearing : Hearing ring config log negotiated)
    (h : clientFlight ring entropy config negotiated m = .ok (reply, next)) (state : State) :
    Underway ring config (log ++ [⟨entropy, state, m, reply, next⟩]) next := by
  rcases flight_next h with ⟨-, htyp, -, _, _, _, rfl⟩ | ⟨-, htyp, h⟩
  · obtain ⟨pre, step, post, answer, answered, rfl, hsends, hcontinues, hauth⟩ := hhearing
    refine ⟨pre, step, post ++ [_], answer, answered, by simp; rfl, hsends, ?_, ?_⟩
    · rw [List.map_append]
      exact hcontinues.add htyp rfl
    · rw [List.map_append]
      exact authenticating_flight hauth h
  · obtain ⟨_, _, _, -, -, rfl⟩ := handleFinished_inv h
    trivial

theorem underway_handle (hunder : Underway ring config log state)
    (h : handle ring entropy config state m = .ok (reply, next)) :
    Underway ring config (log ++ [⟨entropy, state, m, reply, next⟩]) next := by
  cases state with
  | awaitClientHello =>
      obtain rfl : log = [] := hunder
      exact Leads.underway (leads_hello h)
  | awaitRetriedClientHello retrying => exact (leads_retried hunder h).underway
  | awaitFinished negotiated => exact underway_flight hunder h _
  | done connection => simp [handle] at h
  | failed => simp [handle] at h

theorem underway_unframe {record fragment : Bytes} (hunder : Underway ring config log state)
    (h : unframe ring state record = .ok (fragment, next)) : Underway ring config log next := by
  rcases unframe_inv h with ⟨-, rfl, -⟩ | ⟨negotiated, opener, rfl, rfl, -⟩
  · exact hunder
  · obtain ⟨pre, step, post, answer, answered, hlog, hsends, hc, hauth⟩ := hunder
    exact ⟨pre, step, post, answer, answered, hlog, hsends, ⟨hc.aead, hc.hash, hc.suite,
      hc.transcript, hc.clientSecret, hc.master, hc.clientApplication, hc.serverApplication,
      hc.unfinished⟩, hauth⟩

end Steps

section Run

variable {ring : Ring} {config : ServerConfig} {inputs : List (Entropy × Bytes)}
  {log : List Message} {step : Endpoint.Taken State}

/-- A server that takes a step of the client's flight has sent a flight of its own in the run, and
heard the client's since. -/
theorem hearing_takes (hstep : (endpoint ring config).Takes ServerHandshake.new inputs log step)
    {negotiated : Negotiated} (hbefore : step.before = .awaitFinished negotiated) :
    ∃ given answered heard, Sends ring config inputs given answered ∧
      log = given.before ++ given.message :: heard ∧ Continues answered heard negotiated ∧
      Authenticating ring config given heard negotiated ∧
      clientFlight ring step.entropy config negotiated step.message
        = .ok (step.reply, step.after) := by
  have heach := Endpoint.taken_each (endpoint ring config) (Q := Underway ring config)
    (fun _ _ _ => trivial) (fun _ _ _ _ _ hunder h => underway_unframe hunder h)
    (fun _ _ _ _ _ _ hunder h => underway_handle hunder h) inputs ServerHandshake.new rfl
  obtain ⟨pre, post, hsplit, rfl⟩ := hstep
  obtain ⟨hunder, hhandle⟩ := heach.2 pre step post hsplit
  rw [hbefore] at hunder hhandle
  obtain ⟨earlier, sending, later, given, answered, rfl, hsends, hcontinues, hauth⟩ := hunder
  refine ⟨given, answered, later.map Endpoint.Taken.message,
    ⟨_, sending, ⟨earlier, later ++ step :: post, by simp [hsplit], rfl⟩, hsends⟩, ?_, hcontinues,
    hauth, hhandle⟩
  rw [hsends.before, hsends.message]
  simp

theorem Sends.answers {answer : Answer} {answered : Negotiated}
    (h : Sends ring config inputs answer answered) : AnswersHello ring config answer answered := by
  obtain ⟨_, _, -, hsends⟩ := h
  exact hsends.answers

/-- What a server accepted before it sent its flight is framed. -/
theorem Sends.framed {answer : Answer} {answered : Negotiated}
    (h : Sends ring config inputs answer answered) :
    ∀ m ∈ answer.before ++ [answer.message], Framed m := by
  obtain ⟨before, step, htakes, hsends⟩ := h
  rw [hsends.before, hsends.message]
  exact htakes.framed

end Run

/-! ### The flight of a server -/

namespace Answer

/-- The ServerHello. -/
def serverHello (answer : Answer) : ServerHello where
  random := answer.draw.random
  sessionId := answer.hello.sessionId
  cipherSuite := answer.selected.suite.code
  extensions := helloExtensions answer.draw.kx answer.selected.psk

/-- The ServerHello, as a message. -/
def serverHelloMessage (answer : Answer) : Message :=
  Message.of .serverHello answer.serverHello.encode

/-- The messages through the ServerHello. -/
def hellos (answer : Answer) : List Message :=
  answer.front ++ [answer.message, answer.serverHelloMessage]

theorem octets_hellos (answer : Answer) : octets answer.hellos
    = answer.draw.hellos answer.head answer.hello answer.selected := by
  rw [hellos, octets_append, octets_cons, octets_cons, octets_nil, List.append_nil,
    ← List.append_assoc]
  rfl

end Answer

/-- The server's Certificate, as a message. -/
def certificateOf (config : ServerConfig) : Message :=
  Message.of .certificate (CertificateMessage.ofChain [] config.certificates).encode

/-- The messages of a flight before its Finished. -/
structure FlightMessages (config : ServerConfig) (answer : Answer)
    (opening authentication : List Message) : Prop where
  framed : ∀ m ∈ opening ++ authentication, Framed m
  unfinished : ∀ m ∈ opening ++ authentication, m.typ ≠ .finished
  opening_octets : octets opening = FlightDraw.opening config answer.selected
  authentication_octets : octets authentication = answer.draw.authentication
  certified : answer.selected.psk = none →
    ∃ verify, authentication = [certificateOf config, verify]
  resumed : answer.selected.psk.isSome = true → authentication = []

section Flight

variable {ring : Ring} {config : ServerConfig} {answer : Answer} {negotiated : Negotiated}

/-- What the encrypted flight opens with, as messages. -/
theorem opening_messages (config : ServerConfig) (selected : Selected) :
    ∃ opening : List Message, (∀ m ∈ opening, Framed m) ∧ (∀ m ∈ opening, m.typ ≠ .finished) ∧
      octets opening = FlightDraw.opening config selected := by
  let extensions := Message.of .encryptedExtensions (Writer.new.vectorU16 (fun w => w)).intoVec
  have hextensions : Framed extensions := @Message.of_framed .encryptedExtensions rfl _ (by decide)
  obtain ⟨body, hbody, -, hlen⟩ := Client.certificateRequest_eq
  have hrequest : Framed (Message.of .certificateRequest body) :=
    @Message.of_framed .certificateRequest rfl _ hlen
  by_cases hasks : asksForCertificate config selected.psk = true
  · refine ⟨[extensions, Message.of .certificateRequest body], ?_, ?_, ?_⟩
    · simpa using ⟨hextensions, hrequest⟩
    · simp [extensions, Message.of]
    · rw [FlightDraw.opening, if_pos hasks, hbody]
      simp [extensions, Message.of, encryptedExtensions]
  · refine ⟨[extensions], by simpa using hextensions, by simp [extensions, Message.of], ?_⟩
    rw [FlightDraw.opening, if_neg hasks]
    simp [extensions, Message.of, encryptedExtensions]

/-- What authenticates a server, as messages. -/
theorem authentication_messages {entropy : Entropy} {scheme : SignatureScheme}
    {psk : Option AcceptedPsk} {transcript : Transcript} {authentication : Bytes}
    (h : serverAuthentication ring entropy config scheme psk transcript = .ok authentication)
    (hshort : authentication.length ≤ maxFragmentLen) :
    ∃ ms : List Message, (∀ m ∈ ms, Framed m) ∧ (∀ m ∈ ms, m.typ ≠ .finished) ∧
      octets ms = authentication ∧
      (psk = none → ∃ verify, ms = [certificateOf config, verify]) ∧
      (psk.isSome = true → ms = []) := by
  cases psk with
  | some psk =>
      obtain rfl : [] = authentication := Except.ok.inj h
      exact ⟨[], by simp, by simp, rfl, by simp, fun _ => rfl⟩
  | none =>
      simp only [serverAuthentication, bind_eq_ok, mapErr_eq_ok] at h
      obtain ⟨signature, -, heq⟩ := h
      obtain rfl := Except.ok.inj heq
      rw [List.length_append, certificateMessage_eq] at hshort
      have hcertificate : Framed (certificateOf config) :=
        @Client.framed_of_short .certificate rfl _ (by omega)
      have hverify : Framed (Message.of .certificateVerify
          ((Writer.new.u16 scheme.code).vectorU16 (.bytes signature)).intoVec) :=
        @Client.framed_of_short .certificateVerify rfl _ (by omega)
      refine ⟨[certificateOf config, _], by simpa using ⟨hcertificate, hverify⟩,
        by simp [certificateOf, Message.of], ?_, fun _ => ⟨_, rfl⟩, by simp⟩
      rw [certificateMessage_eq]
      simp [certificateOf, Message.of]

theorem AnswersHello.flightMessages (h : AnswersHello ring config answer negotiated) :
    ∃ opening authentication, FlightMessages config answer opening authentication := by
  obtain ⟨opening, hopening, htyps, hoctets⟩ := opening_messages config answer.selected
  have hshort : answer.draw.authentication.length ≤ maxFragmentLen := by
    have hflight := h.short
    rw [FlightDraw.flight, List.length_append, List.length_append] at hflight
    omega
  obtain ⟨authentication, hframed, htyps', hoctets', hcertified, hresumed⟩ :=
    authentication_messages h.completed.authentication hshort
  exact ⟨opening, authentication, List.forall_mem_append.mpr ⟨hopening, hframed⟩,
    List.forall_mem_append.mpr ⟨htyps, htyps'⟩, hoctets, hoctets', hcertified, hresumed⟩

/-- A ServerHello is read back as it was written. -/
theorem AnswersHello.parse_serverHello (complete : ring.Complete)
    (h : AnswersHello ring config answer negotiated) :
    ServerHello.parse answer.serverHello.encode = .ok answer.serverHello := by
  obtain ⟨-, hpublic⟩ := KeyExchange.generate_inv h.completed.kx
  obtain ⟨-, hfits⟩ := ClientHello.parse_iff.mp h.parsed
  exact ServerHello.parse_iff.mpr ⟨rfl, answer.entropy.fill_length _ _ _ h.completed.random,
    hfits.sessionId, (Client.helloExtensions_fit (complete.publicKey_length _ _ _ hpublic) _).1⟩

/-- The messages through the ServerHello are framed. -/
theorem AnswersHello.framed_hellos (complete : ring.Complete)
    (h : AnswersHello ring config answer negotiated) (hmessage : Framed answer.message) :
    ∀ m ∈ answer.hellos, Framed m := by
  obtain ⟨-, hpublic⟩ := KeyExchange.generate_inv h.completed.kx
  obtain ⟨-, hfits⟩ := ClientHello.parse_iff.mp h.parsed
  have hanswer : Framed answer.serverHelloMessage := by
    refine @Client.framed_of_short .serverHello rfl _ (ServerHello.encode_short ?_ ?_ ?_)
    · exact answer.entropy.fill_length _ _ _ h.completed.random
    · exact hfits.sessionId
    · exact (Client.helloExtensions_fit (complete.publicKey_length _ _ _ hpublic) _).2
  refine List.forall_mem_append.mpr ⟨?_, by simpa using ⟨hmessage, hanswer⟩⟩
  have hselects := h.selects
  cases hfront : answer.front with
  | nil => simp
  | cons _ _ =>
      rw [hfront] at hselects
      generalize answer.before = before at hselects
      cases hselects with
      | @retried first opening _ _ hwithout _ _ _ _ _ =>
          obtain ⟨-, hopening⟩ := ClientHello.parse_iff.mp hwithout.parsed
          have hrequest := @Client.framed_of_short .serverHello rfl _
            (retryRequest_short hopening.sessionId answer.selected.suite answer.selected.group)
          simpa using ⟨hashMessage_framed complete.toLawful _ _, hrequest⟩

end Flight

end Server

end RustyTls
