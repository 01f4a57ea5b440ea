import RustyTls.RecordSound
import RustyTls.ServerSteps

/-!
# RustyTls.ServerRetry

What a server does with a first hello it has no key share in, over whole runs.

`Trace` is the shape of a run's steps: a ServerHello at once, or a HelloRetryRequest and then at
most a ServerHello, and after that messages of the client's flight. `Requested` says when a retry
is sent and what it asks for; `AnsweredRetry` that the ServerHello after it is for the suite and
the group of the retry, on a transcript that begins with the two hellos and the retry between
them. The waiting state keeps just enough of the first hello for that.
-/

namespace RustyTls.Server

open Core

/-- The HelloRetryRequest a server sends. -/
def retryRequest (sessionId : Bytes) (suite : CipherSuite) (group : NamedGroup) : ServerHello where
  random := helloRetryRequestRandom
  sessionId := sessionId
  cipherSuite := suite.code
  extensions := [⟨ExtensionType.keyShare, (Writer.new.u16 group.asU16).intoVec⟩,
    ⟨ExtensionType.supportedVersions, [0x03, 0x04]⟩]

/-- The message it is sent in. -/
def retryMessage (sessionId : Bytes) (suite : CipherSuite) (group : NamedGroup) : Bytes :=
  Message.encode .serverHello (retryRequest sessionId suite group).encode

/-- A hello offers TLS 1.3. -/
def OffersTls13 (hello : ClientHello) : Prop :=
  (find hello.extensions ExtensionType.supportedVersions).any offersTls13 = true

/-- What a retry promised. -/
structure Promise where
  suite : CipherSuite
  aead : Aead
  hash : Hash
  group : NamedGroup

/-- The step that sends a retry: `first` has no share for any configured group, and the group
named is configured, supported by the client and without a share. -/
structure Requested (config : ServerConfig) (step : Endpoint.Taken State) (first : ClientHello)
    (promise : Promise) : Prop where
  typ : step.message.typ = .clientHello
  parsed : ClientHello.parse step.message.body = .ok first
  noShare : ∃ shares, offeredShares first = .ok shares ∧
    ∀ group ∈ config.groups, shareFor shares group = none
  configured : promise.group ∈ config.groups
  supported : ∃ data groups, find first.extensions ExtensionType.supportedGroups = some data ∧
    clientSupportedGroups data = .ok groups ∧ promise.group.asU16 ∈ groups
  suite : promise.suite ∈ config.cipherSuites ∧ promise.suite.code ∈ first.cipherSuites
  parts : promise.suite.parts = some (promise.aead, promise.hash)
  reply : step.reply = plaintextRecord .handshake
      (retryMessage first.sessionId promise.suite promise.group) ++
    plaintextRecord .changeCipherSpec [0x01]

/-- What the server waits with after a retry. -/
def Promise.retrying (ring : Ring) (promise : Promise) (first : ClientHello) (encoded : Bytes) :
    Retrying where
  group := promise.group
  suite := promise.suite
  aead := promise.aead
  hash := promise.hash
  transcriptHead := messageHash ring promise.hash encoded ++
    retryMessage first.sessionId promise.suite promise.group
  random := first.random
  sessionId := first.sessionId

/-- A step that sends a ServerHello, for a suite and a group: it has the random and the share that
the step drew. Behind it comes a change_cipher_spec, if none was sent yet, and one sealed record. -/
structure Answered (ring : Ring) (step : Endpoint.Taken State) (hello : ClientHello)
    (suite : CipherSuite) (group : NamedGroup) (ccs : Bool) : Prop where
  typ : step.message.typ = .clientHello
  parsed : ClientHello.parse step.message.body = .ok hello
  reply : ∃ random kx psk record, step.entropy.fill 0 32 = some random ∧
    KeyExchange.generate ring step.entropy group = .ok kx ∧ kx.group = group ∧ Sealed ring record ∧
    step.reply = plaintextRecord .handshake (Message.encode .serverHello (ServerHello.encode
        ⟨random, hello.sessionId, suite.code, helloExtensions kx psk⟩)) ++
      (if ccs then plaintextRecord .changeCipherSpec [0x01] else []) ++ record

/-- The step that sends the ServerHello after a retry: it answers a second hello with the
identity of the first that still offers what the retry named. -/
structure AnsweredRetry (ring : Ring) (request step : Endpoint.Taken State)
    (first second : ClientHello) (promise : Promise) : Prop where
  answered : Answered ring step second promise.suite promise.group false
  random : second.random = first.random
  sessionId : second.sessionId = first.sessionId
  suite : promise.suite.code ∈ second.cipherSuites
  version : OffersTls13 second
  share : ∃ data shares key, find second.extensions ExtensionType.keyShare = some data ∧
    clientKeyShares data = .ok shares ∧ shareFor shares promise.group = some key
  transcript : ∃ negotiated rest, step.after = .awaitFinished negotiated ∧
    negotiated.suite = promise.suite ∧
    negotiated.transcript = ⟨promise.hash, messageHash ring promise.hash request.message.encoded ++
      retryMessage first.sessionId promise.suite promise.group ++ step.message.encoded ++ rest⟩

/-- A step of the client's flight: it is not a hello, and it sends nothing or one sealed record. -/
structure OfFlight (ring : Ring) (step : Endpoint.Taken State) : Prop where
  typ : step.message.typ ≠ .clientHello
  reply : step.reply = [] ∨ Sealed ring step.reply

/-- The steps of a run. -/
inductive Conversation (ring : Ring) (config : ServerConfig) : List (Endpoint.Taken State) → Prop
  /-- Nothing was answered. -/
  | silent : Conversation ring config []
  /-- The first hello was answered. -/
  | direct {step : Endpoint.Taken State} {hello : ClientHello} {suite : CipherSuite}
      {group : NamedGroup} {rest : List (Endpoint.Taken State)}
      (hanswered : Answered ring step hello suite group true)
      (hrest : ∀ later ∈ rest, OfFlight ring later) :
      Conversation ring config (step :: rest)
  /-- Another hello was asked for. -/
  | requested {request : Endpoint.Taken State} {first : ClientHello} {promise : Promise}
      (hrequested : Requested config request first promise) :
      Conversation ring config [request]
  /-- Another hello was asked for and answered. -/
  | retried {request step : Endpoint.Taken State} {first second : ClientHello} {promise : Promise}
      {rest : List (Endpoint.Taken State)} (hrequested : Requested config request first promise)
      (hanswered : AnsweredRetry ring request step first second promise)
      (hrest : ∀ later ∈ rest, OfFlight ring later) :
      Conversation ring config (request :: step :: rest)

/-- How a state stands to the steps that led to it. -/
def Linked (ring : Ring) (config : ServerConfig) (log : List (Endpoint.Taken State)) :
    State → Prop
  | .awaitClientHello => log = []
  | .awaitRetriedClientHello retrying => ∃ request first promise, log = [request] ∧
      Requested config request first promise ∧
      retrying = promise.retrying ring first request.message.encoded
  | .awaitFinished _ => ∀ more, (∀ later ∈ more, OfFlight ring later) →
      Conversation ring config (log ++ more)
  | .done _ | .failed => True

/-- The invariant of a run. -/
def Trace (ring : Ring) (config : ServerConfig) (log : List (Endpoint.Taken State))
    (state : State) : Prop :=
  Conversation ring config log ∧ Linked ring config log state

section Steps

variable {ring : Ring} {entropy : Entropy} {config : ServerConfig} {message : Message}
  {log : List (Endpoint.Taken State)} {reply : Bytes} {next : State}

theorem chooseShare_eq_none {shares : List (UInt16 × Bytes)}
    (h : chooseShare config shares = none) :
    ∀ group ∈ config.groups, shareFor shares group = none := by
  intro group hgroup
  have := List.findSome?_eq_none_iff.mp h group hgroup
  simpa using this

theorem retry_reply {hello : ClientHello} {suite : CipherSuite} {aead : Aead} {hash : Hash}
    (h : retry ring config message hello suite aead hash = .ok (reply, next)) :
    ∃ group, group ∈ config.groups ∧
      (∃ data groups, find hello.extensions ExtensionType.supportedGroups = some data ∧
        clientSupportedGroups data = .ok groups ∧ group.asU16 ∈ groups) ∧
      reply = plaintextRecord .handshake (retryMessage hello.sessionId suite group) ++
        plaintextRecord .changeCipherSpec [0x01] ∧
      next = .awaitRetriedClientHello
        (Promise.retrying ring ⟨suite, aead, hash, group⟩ hello message.encoded) := by
  simp only [retry, bind_eq_ok, okOr_eq_ok, mapErr_eq_ok] at h
  obtain ⟨data, hdata, groups, hgroups, group, hgroup, heq⟩ := h
  obtain ⟨hreply, hnext⟩ := Prod.mk.inj (Except.ok.inj heq)
  refine ⟨group, List.mem_of_find?_eq_some hgroup, ⟨data, groups, hdata, hgroups, ?_⟩,
    hreply.symm, hnext.symm⟩
  simpa using List.find?_some hgroup

theorem checkVersion_offers {hello : ClientHello} {u : Unit} (h : checkVersion hello = .ok u) :
    OffersTls13 hello := by
  simpa [checkVersion, OffersTls13] using h

/-- A completed hello was answered for the suite and the group selected. -/
theorem complete_answered {head : Bytes} {hello : ClientHello} {selected : Selected} {ccs : Bool}
    (before : State) (htyp : message.typ = .clientHello)
    (hparse : ClientHello.parse message.body = .ok hello)
    (h : complete ring entropy config head hello selected ccs = .ok (reply, next)) :
    Answered ring ⟨entropy, before, message, reply, next⟩ hello selected.suite selected.group ccs ∧
    ∃ negotiated rest, next = .awaitFinished negotiated ∧ negotiated.suite = selected.suite ∧
      negotiated.transcript = ⟨selected.hash, head ++ rest⟩ := by
  obtain ⟨draw, negotiated, sealer, record, hcompleted, -, hseal, rfl, rfl⟩ := complete_inv h
  obtain ⟨hgroup, -⟩ := KeyExchange.generate_inv hcompleted.kx
  refine ⟨⟨htyp, hparse, draw.random, draw.kx, selected.psk, record, hcompleted.random,
    hcompleted.kx, hgroup, ⟨sealer, _, _, Prod.ext hseal rfl⟩, rfl⟩, negotiated,
    draw.serverHello hello selected ++ (FlightDraw.opening config selected ++
      (draw.authentication ++ draw.finished ring config head hello selected)), rfl,
    hcompleted.suite, ?_⟩
  rw [hcompleted.transcript]
  simp only [FlightDraw.sent, FlightDraw.covered, FlightDraw.hellos, List.append_assoc]

theorem trace_hello (hlog : log = [])
    (h : handleHello ring entropy config message = .ok (reply, next)) :
    Trace ring config (log ++ [⟨entropy, .awaitClientHello, message, reply, next⟩]) next := by
  subst hlog
  obtain ⟨hello, suite, aead, hash, scheme, shares, htyp, hparse, -, hsuite, hparts, -, hshares,
    ⟨hnone, h⟩ | ⟨group, peerKey, psk, -, -, h⟩⟩ := handleHello_inv h
  · obtain ⟨group, hgroup, hsupported, hreply, rfl⟩ := retry_reply h
    have hrequested : Requested config ⟨entropy, .awaitClientHello, message, reply,
        .awaitRetriedClientHello
          (Promise.retrying ring ⟨suite, aead, hash, group⟩ hello message.encoded)⟩ hello
        ⟨suite, aead, hash, group⟩ := by
      refine ⟨htyp, hparse, ⟨shares, hshares, chooseShare_eq_none hnone⟩, hgroup, hsupported,
        ⟨List.mem_of_find?_eq_some hsuite, ?_⟩, hparts, hreply⟩
      simpa using List.find?_some hsuite
    exact ⟨.requested hrequested, _, hello, _, rfl, hrequested, rfl⟩
  · obtain ⟨hanswered, negotiated, _, rfl, -⟩ :=
      complete_answered .awaitClientHello htyp hparse h
    exact ⟨.direct hanswered (by simp), fun more hmore => .direct hanswered hmore⟩

theorem trace_retriedHello {request : Endpoint.Taken State} {first : ClientHello}
    {promise : Promise} (hrequested : Requested config request first promise)
    (h : retriedHello ring entropy config
      (promise.retrying ring first request.message.encoded) message = .ok (reply, next)) :
    Trace ring config [request, ⟨entropy, .awaitRetriedClientHello
      (promise.retrying ring first request.message.encoded), message, reply, next⟩] next := by
  obtain ⟨second, scheme, data, shares, peerKey, psk, htyp, hparse, hrandom, hid, hversion, hsuite,
    -, hdata, hshares, hpeer, -, h⟩ := retriedHello_inv h
  obtain ⟨hanswered, negotiated, rest, rfl, hnegotiated, htranscript⟩ :=
    complete_answered (.awaitRetriedClientHello
      (promise.retrying ring first request.message.encoded)) htyp hparse h
  have hretry : AnsweredRetry ring request _ first second promise :=
    ⟨hanswered, hrandom, hid, hsuite, checkVersion_offers hversion,
      ⟨data, shares, peerKey, hdata, hshares, hpeer⟩, negotiated, rest, rfl, hnegotiated,
      htranscript⟩
  exact ⟨.retried hrequested hretry (by simp),
    fun more hmore => .retried hrequested hretry hmore⟩

theorem issueTickets_reply {negotiated : Negotiated} {sealer sealer' : Sealer}
    (h : issueTickets ring entropy config negotiated sealer = .ok (reply, sealer')) :
    reply = [] ∨ Sealed ring reply := by
  unfold issueTickets at h
  split at h
  · obtain ⟨rfl, -⟩ := Prod.mk.inj (Except.ok.inj h)
    exact .inl rfl
  · split at h
    · obtain ⟨rfl, -⟩ := Prod.mk.inj (Except.ok.inj h)
      exact .inl rfl
    · simp only [bind_eq_ok, mapErr_eq_ok] at h
      obtain ⟨flight, -, record, hrecord, heq⟩ := h
      obtain ⟨rfl, -⟩ := Prod.mk.inj (Except.ok.inj heq)
      exact .inr ⟨sealer, _, flight, Prod.ext hrecord rfl⟩

theorem clientFlight_ofFlight {negotiated : Negotiated} (before : State)
    (h : clientFlight ring entropy config negotiated message = .ok (reply, next)) :
    OfFlight ring ⟨entropy, before, message, reply, next⟩ ∧
      ((∃ negotiated', next = .awaitFinished negotiated') ∨ ∃ connection, next = .done connection) := by
  rcases flight_next h with ⟨htyp, -, hreply, _, _, _, rfl⟩ | ⟨-, htyp, h⟩
  · exact ⟨⟨htyp, .inl hreply⟩, .inl ⟨_, rfl⟩⟩
  · obtain ⟨serverSealer, sealer, opener, -, hissue, rfl⟩ := handleFinished_inv h
    exact ⟨⟨by simp [htyp], issueTickets_reply hissue⟩, .inr ⟨_, rfl⟩⟩

/-- One message keeps the invariant. -/
theorem trace_handle {state : State} (htrace : Trace ring config log state)
    (h : handle ring entropy config state message = .ok (reply, next)) :
    Trace ring config (log ++ [⟨entropy, state, message, reply, next⟩]) next := by
  obtain ⟨-, hlinked⟩ := htrace
  cases state with
  | awaitClientHello => exact trace_hello hlinked h
  | awaitRetriedClientHello retrying =>
      obtain ⟨request, first, promise, rfl, hrequested, rfl⟩ := hlinked
      exact trace_retriedHello hrequested h
  | awaitFinished negotiated =>
      obtain ⟨hstep, hnext⟩ := clientFlight_ofFlight (.awaitFinished negotiated) h
      have hmore : ∀ more, (∀ later ∈ more, OfFlight ring later) → Conversation ring config
          (log ++ [⟨entropy, .awaitFinished negotiated, message, reply, next⟩] ++ more) := by
        intro more hmore
        rw [List.append_assoc]
        refine hlinked _ ?_
        intro later hlater
        rcases List.mem_append.mp hlater with hlater | hlater
        · obtain rfl := List.mem_singleton.mp hlater
          exact hstep
        · exact hmore later hlater
      have hnow := hmore [] (by simp)
      rw [List.append_nil] at hnow
      rcases hnext with ⟨negotiated', rfl⟩ | ⟨connection, rfl⟩
      · exact ⟨hnow, hmore⟩
      · exact ⟨hnow, trivial⟩
  | done connection => simp [handle] at h
  | failed => simp [handle] at h

theorem trace_unframe {state : State} {record fragment : Bytes}
    (htrace : Trace ring config log state)
    (h : unframe ring state record = .ok (fragment, next)) : Trace ring config log next := by
  rcases unframe_inv h with ⟨-, rfl, -⟩ | ⟨negotiated, opener, rfl, rfl, -⟩
  · exact htrace
  · exact htrace

end Steps

/-- Every run is a conversation. -/
theorem conversation_run (ring : Ring) (config : ServerConfig) (inputs : List (Entropy × Bytes)) :
    Conversation ring config ((endpoint ring config).taken ServerHandshake.new inputs) := by
  have hrun := Endpoint.taken_induct (endpoint ring config) (P := Trace ring config)
    (fun _ _ htrace => ⟨htrace.1, trivial⟩)
    (fun _ _ _ _ _ htrace h => trace_unframe htrace h)
    (fun _ _ _ _ _ _ htrace h => trace_handle htrace h)
    inputs ServerHandshake.new [] ⟨.silent, rfl⟩
  rw [List.nil_append] at hrun
  exact hrun.1

/-! ### What a conversation sends -/

/-- The records of a reply: a retry, a ServerHello and a sealed flight, a sealed record alone, or
none. -/
inductive Replies (ring : Ring) : Bytes → Prop
  | nothing : Replies ring []
  | retry {sessionId : Bytes} {suite : CipherSuite} {group : NamedGroup} :
      Replies ring (plaintextRecord .handshake (retryMessage sessionId suite group) ++
        plaintextRecord .changeCipherSpec [0x01])
  | flight {hello : ServerHello} {ccs : Bool} {record : Bytes} : Sealed ring record →
      Replies ring (plaintextRecord .handshake (Message.encode .serverHello hello.encode) ++
        (if ccs then plaintextRecord .changeCipherSpec [0x01] else []) ++ record)
  | sealed {record : Bytes} : Sealed ring record → Replies ring record

/-- A step whose reply begins with a HelloRetryRequest. -/
def AsksAgain (step : Endpoint.Taken State) : Prop :=
  ∃ (request : ServerHello) (rest : Bytes), request.isHelloRetryRequest = true ∧
    step.reply = plaintextRecord .handshake (Message.encode .serverHello request.encode) ++ rest

section Replying

variable {ring : Ring} {config : ServerConfig} {step : Endpoint.Taken State}
  {log : List (Endpoint.Taken State)}

theorem Answered.replies {hello : ClientHello} {suite : CipherSuite} {group : NamedGroup}
    {ccs : Bool} (h : Answered ring step hello suite group ccs) : Replies ring step.reply := by
  obtain ⟨_, _, _, _, -, -, -, hsealed, hreply⟩ := h.reply
  rw [hreply]
  exact .flight hsealed

theorem OfFlight.replies (h : OfFlight ring step) : Replies ring step.reply := by
  rcases h.reply with hnone | hsealed
  · rw [hnone]
    exact .nothing
  · exact .sealed hsealed

theorem Requested.replies {first : ClientHello} {promise : Promise}
    (h : Requested config step first promise) : Replies ring step.reply := by
  rw [h.reply]
  exact .retry

theorem Conversation.replies (h : Conversation ring config log) :
    ∀ step ∈ log, Replies ring step.reply := by
  cases h with
  | silent => simp
  | direct hanswered hrest =>
      exact List.forall_mem_cons.mpr ⟨hanswered.replies, fun later hmem => (hrest later hmem).replies⟩
  | requested hrequested => exact List.forall_mem_singleton.mpr hrequested.replies
  | retried hrequested hanswered hrest =>
      exact List.forall_mem_cons.mpr ⟨hrequested.replies, List.forall_mem_cons.mpr
        ⟨hanswered.answered.replies, fun later hmem => (hrest later hmem).replies⟩⟩

/-- Where the random of a hello stands in the reply that begins with it. -/
theorem random_of_reply {hello : ServerHello} (hrandom : hello.random.length = 32) (rest : Bytes) :
    ((plaintextRecord .handshake (Message.encode .serverHello hello.encode) ++ rest).drop 11).take 32
      = hello.random := by
  have hsplit : plaintextRecord .handshake (Message.encode .serverHello hello.encode) ++ rest
      = (([ContentType.handshake.asU8] ++ beBytes 2 (0x0303 : UInt16).toNat ++
          beBytes 2 (Message.encode .serverHello hello.encode).length ++
          [HandshakeType.serverHello.asU8] ++ beBytes 3 hello.encode.length ++
          beBytes 2 legacyVersion.toNat) ++ hello.random) ++ (prefixed 1 hello.sessionId ++
            (beBytes 2 hello.cipherSuite.toNat ++
              (0 :: (prefixed 2 (extensionBytes hello.extensions) ++ rest)))) := by
    conv_lhs => rw [plaintextRecord, RustyTls.plaintextRecord, Message.encode_eq, prefixed,
      ServerHello.encode_eq]
    simp only [List.append_assoc, List.cons_append, List.nil_append, Message.encode_eq, prefixed,
      ServerHello.encode_eq]
  rw [hsplit, List.append_assoc, List.drop_left' (by simp), List.take_left' hrandom]

/-- A ServerHello is a HelloRetryRequest if its random was so drawn, and no other reply begins with
one. -/
theorem Answered.asksAgain {hello : ClientHello} {suite : CipherSuite} {group : NamedGroup}
    {ccs : Bool} (h : Answered ring step hello suite group ccs) (hasks : AsksAgain step) :
    step.entropy.fill 0 32 = some helloRetryRequestRandom := by
  obtain ⟨request, rest, hmarked, hreply⟩ := hasks
  obtain ⟨random, _, _, _, hdrawn, -, -, -, hreply'⟩ := h.reply
  have hmarked : request.random = helloRetryRequestRandom := by
    simpa [ServerHello.isHelloRetryRequest] using hmarked
  have hlength := step.entropy.fill_length _ _ _ hdrawn
  have hfirst := @random_of_reply request (by rw [hmarked]; rfl) rest
  rw [← hreply, hreply', List.append_assoc, random_of_reply hlength, hmarked] at hfirst
  exact hdrawn.trans (congrArg some hfirst)

theorem OfFlight.not_asksAgain (h : OfFlight ring step) : ¬ AsksAgain step := by
  intro hasks
  obtain ⟨request, rest, -, hreply⟩ := hasks
  have hhead : step.reply.head? = some ContentType.handshake.asU8 := by
    rw [hreply]
    rfl
  rcases h.reply with hnone | hsealed
  · simp [hnone] at hhead
  · obtain ⟨_, hsealed⟩ := hsealed.head
    rw [hsealed] at hhead
    exact absurd (Option.some.inj hhead) (by decide)

/-- Only the first step of a conversation asks again, unless a random is drawn so. -/
theorem Conversation.asksAgain (h : Conversation ring config log)
    {before after : List (Endpoint.Taken State)} (hlog : log = before ++ step :: after)
    (hasks : AsksAgain step) :
    (before = [] ∧ ∃ first promise, Requested config step first promise) ∨
      step.entropy.fill 0 32 = some helloRetryRequestRandom := by
  have hflight : ∀ {rest : List (Endpoint.Taken State)}, (∀ later ∈ rest, OfFlight ring later) →
      step ∉ rest := fun hrest hmem => (hrest step hmem).not_asksAgain hasks
  have hmem : step ∈ log := by simp [hlog]
  cases h with
  | silent => simp at hmem
  | direct hanswered hrest =>
      rcases List.mem_cons.mp hmem with rfl | hmem
      · exact .inr (hanswered.asksAgain hasks)
      · exact absurd hmem (hflight hrest)
  | requested hrequested =>
      cases before with
      | nil =>
          obtain ⟨rfl, -⟩ := List.cons.inj hlog
          exact .inl ⟨rfl, _, _, hrequested⟩
      | cons _ before => simp at hlog
  | retried hrequested hanswered hrest =>
      cases before with
      | nil =>
          obtain ⟨rfl, -⟩ := List.cons.inj hlog
          exact .inl ⟨rfl, _, _, hrequested⟩
      | cons _ before =>
          obtain ⟨-, hlog⟩ := List.cons.inj hlog
          have hlater := List.mem_append_right before (List.mem_cons_self (a := step) (l := after))
          rw [← List.append_eq, ← hlog] at hlater
          rcases List.mem_cons.mp hlater with rfl | hmem
          · exact .inr (hanswered.answered.asksAgain hasks)
          · exact absurd hmem (hflight hrest)

end Replying

/-- Whatever records a server is given, what it answered is one conversation: at most one retry,
sent only to a hello without a share for any configured group and for a configured group that
hello supports; and if a ServerHello follows a retry, it is on the suite and the group the retry
named, answers a hello with the identity of the first that still offers both and TLS 1.3, and
its transcript begins with the hash of the first hello, the retry and the second hello. The records
of every reply are accounted for, and only the first reply begins with a HelloRetryRequest, unless
the random drawn for a ServerHello is the one that marks it. -/
theorem run_conversation (ring : Ring) (config : ServerConfig) (inputs : List (Entropy × Bytes)) :
    (endpoint ring config).replies ServerHandshake.new inputs
      = ((endpoint ring config).taken ServerHandshake.new inputs).flatMap (·.reply) ∧
    Conversation ring config ((endpoint ring config).taken ServerHandshake.new inputs) ∧
    (∀ step ∈ (endpoint ring config).taken ServerHandshake.new inputs, Replies ring step.reply) ∧
    ∀ before step after, (endpoint ring config).taken ServerHandshake.new inputs
        = before ++ step :: after → AsksAgain step →
      (before = [] ∧ ∃ first promise, Requested config step first promise) ∨
        step.entropy.fill 0 32 = some helloRetryRequestRandom := by
  have hconversation := conversation_run ring config inputs
  refine ⟨Endpoint.replies_eq_taken _ inputs _, hconversation, hconversation.replies, ?_⟩
  intro before step after hlog hasks
  exact hconversation.asksAgain hlog hasks

/-! ### Offers the server does not take -/

/-- A hello without early data, and with its pre-shared keys, if any, in its last extension. -/
def Allowed (hello : ClientHello) : Prop :=
  (∀ extension ∈ hello.extensions, extension.typ ≠ ExtensionType.earlyData) ∧
    ((∃ extension ∈ hello.extensions, extension.typ = ExtensionType.preSharedKey) →
      hello.extensions.getLast?.map (·.typ) = some ExtensionType.preSharedKey)

/-- A step that answers a ClientHello answers one that is allowed. -/
def AnswersAllowed (step : Endpoint.Taken State) : Prop :=
  ∀ hello, step.message.typ = .clientHello → ClientHello.parse step.message.body = .ok hello →
    Allowed hello

/-- A first hello that brings a share for a group of the server's, so that it is not answered
with a retry. -/
def BringsShare (config : ServerConfig) (step : Endpoint.Taken State) : Prop :=
  step.before = .awaitClientHello → ∀ hello shares,
    ClientHello.parse step.message.body = .ok hello → offeredShares hello = .ok shares →
      chooseShare config shares ≠ none

theorem exists_of_mem {extensions : List Extension} {extension : Extension} {typ : UInt16}
    (hmem : extension ∈ extensions) (htyp : extension.typ = typ) :
    ∃ data, find extensions typ = some data := by
  have hsome : (extensions.find? (·.typ == typ)).isSome = true :=
    List.find?_isSome.mpr ⟨extension, hmem, by simpa using htyp⟩
  obtain ⟨found, hfound⟩ := Option.isSome_iff_exists.mp hsome
  exact ⟨found.data, by rw [find, hfound]; rfl⟩

/-- Whatever becomes of an offer, it was looked at. -/
theorem allowed_of_acceptPsk {ring : Ring} {config : ServerConfig} {hello : ClientHello}
    {encodedHello transcriptPrefix : Bytes} {suite : CipherSuite} {hash : Hash}
    {psk : Option AcceptedPsk}
    (h : acceptPsk ring config hello encodedHello transcriptPrefix suite hash = .ok psk) :
    Allowed hello := by
  simp only [acceptPsk, bind_eq_ok, refuse_eq_ok] at h
  obtain ⟨_, hearly, h⟩ := h
  refine ⟨fun extension hmem htyp => ?_, ?_⟩
  · obtain ⟨data, hdata⟩ := exists_of_mem hmem htyp
    rw [hdata] at hearly
    exact hearly rfl
  · intro hshape
    obtain ⟨extension, hmem, htyp⟩ := hshape
    obtain ⟨data, hdata⟩ := exists_of_mem hmem htyp
    rw [hdata] at h
    simp only [bind_eq_ok, refuse_eq_ok] at h
    obtain ⟨_, hlast, -⟩ := h
    exact not_not.mp hlast

/-- One message: a ClientHello that is answered without a retry is allowed. -/
theorem answersAllowed_handle {ring : Ring} {config : ServerConfig} {entropy : Entropy}
    {state next : State} {message : Message} {reply : Bytes}
    (h : handle ring entropy config state message = .ok (reply, next))
    (hshare : BringsShare config ⟨entropy, state, message, reply, next⟩) :
    AnswersAllowed ⟨entropy, state, message, reply, next⟩ := by
  intro hello htyp hparse
  simp only at htyp hparse
  cases state with
  | awaitClientHello =>
      obtain ⟨hello', _, _, _, _, shares, -, hparse', -, -, -, -, hshares, hanswer⟩ :=
        handleHello_inv h
      obtain rfl := Except.ok.inj (hparse.symm.trans hparse')
      rcases hanswer with ⟨hnone, -⟩ | ⟨_, _, _, -, hpsk, -⟩
      · exact absurd hnone (hshare rfl _ _ hparse hshares)
      · exact allowed_of_acceptPsk hpsk
  | awaitRetriedClientHello retrying =>
      obtain ⟨hello', _, _, _, _, _, -, hparse', -, -, -, -, -, -, -, -, hpsk, -⟩ :=
        retriedHello_inv h
      obtain rfl := Except.ok.inj (hparse.symm.trans hparse')
      exact allowed_of_acceptPsk hpsk
  | awaitFinished negotiated =>
      rcases flight_next h with ⟨hother, -⟩ | ⟨-, hfinished, -⟩
      · exact absurd htyp hother
      · rw [htyp] at hfinished
        cases hfinished
  | done connection => simp [handle] at h
  | failed => simp [handle] at h

/-- Forbidden offers are refused in every step of a run but one in which a first hello brings no
share the server can use: the check is in `acceptPsk`, which a hello answered with a retry does not
reach. The hello after a retry is checked. -/
theorem run_answers_allowed (ring : Ring) (config : ServerConfig) (inputs : List (Entropy × Bytes)) :
    ∀ step ∈ (endpoint ring config).taken ServerHandshake.new inputs, BringsShare config step →
      AnswersAllowed step := by
  have hrun := Endpoint.taken_induct (endpoint ring config)
    (P := fun log _ => ∀ step ∈ log, BringsShare config step → AnswersAllowed step)
    (fun _ _ hlog => hlog) (fun _ _ _ _ _ hlog _ => hlog)
    (fun entropy log state message reply next hlog h step hstep => by
      rcases List.mem_append.mp hstep with hstep | hstep
      · exact hlog step hstep
      · obtain rfl := List.mem_singleton.mp hstep
        exact answersAllowed_handle h)
    inputs ServerHandshake.new [] (by simp)
  rwa [List.nil_append] at hrun

/-- A hello for the sample server with some more extensions. -/
def sampleHello (more : List Extension) : ClientHello where
  random := List.replicate 32 0
  sessionId := []
  cipherSuites := [0x1301]
  extensions := [⟨ExtensionType.supportedVersions, [2, 0x03, 0x04]⟩,
    ⟨ExtensionType.supportedGroups, [0, 2, 0, 0x1d]⟩,
    ⟨ExtensionType.signatureAlgorithms, [0, 2, 0x08, 0x07]⟩] ++ more

/-- The steps of the sample server that reads it. -/
def sampleSteps (more : List Extension) : List (Endpoint.Taken State) :=
  (endpoint .sample .sample).taken ServerHandshake.new
    [(.sample 1, plaintextRecord .handshake (Message.encode .clientHello (sampleHello more).encode))]

/-- A hello with a share is answered at once, and is allowed. -/
theorem run_answers_allowed_share :
    let share : Extension := ⟨ExtensionType.keyShare, [0, 5, 0, 0x1d, 0, 1, 3]⟩
    (sampleSteps [share]).map (·.message.body) = [(sampleHello [share]).encode] ∧
      ∀ step ∈ sampleSteps [share], AnswersAllowed step := by
  intro share
  have hbodies : (sampleSteps [share]).map (·.message.body) = [(sampleHello [share]).encode] := by
    decide +kernel
  have hparse : ClientHello.parse (sampleHello [share]).encode = .ok (sampleHello [share]) := by
    decide +kernel
  have hchoice : ∀ shares, offeredShares (sampleHello [share]) = .ok shares →
      chooseShare .sample shares ≠ none := by
    intro shares h
    have hshares : offeredShares (sampleHello [share]) = .ok [(0x1d, [3])] := by decide +kernel
    obtain rfl := Except.ok.inj (hshares.symm.trans h)
    decide
  refine ⟨hbodies, ?_⟩
  intro step hstep
  refine run_answers_allowed _ _ _ step hstep ?_
  intro _ hello shares hstepParse hshares
  have hbody : step.message.body = (sampleHello [share]).encode := by
    have hmem := List.mem_map_of_mem (f := (·.message.body)) hstep
    rw [hbodies] at hmem
    simpa using hmem
  rw [hbody, hparse] at hstepParse
  obtain rfl := Except.ok.inj hstepParse
  exact hchoice shares hshares

/-- Without a share, a hello that offers early data is answered with a retry. -/
theorem run_answers_early_data :
    ∃ step ∈ sampleSteps [⟨ExtensionType.earlyData, []⟩], ¬ AnswersAllowed step := by
  obtain ⟨step, hstep, hbody⟩ : ∃ step ∈ sampleSteps [⟨ExtensionType.earlyData, []⟩],
      step.message.body = (sampleHello [⟨ExtensionType.earlyData, []⟩]).encode ∧
        step.message.typ = .clientHello := by
    have hsteps : (sampleSteps [⟨ExtensionType.earlyData, []⟩]).map
        (fun step => (step.message.body, step.message.typ)) =
        [((sampleHello [⟨ExtensionType.earlyData, []⟩]).encode, .clientHello)] := by decide +kernel
    obtain ⟨step, hstep, heq⟩ := List.mem_map.mp (hsteps ▸ List.mem_singleton_self _)
    exact ⟨step, hstep, Prod.mk.inj heq⟩
  have hparse : ClientHello.parse (sampleHello [⟨ExtensionType.earlyData, []⟩]).encode
      = .ok (sampleHello [⟨ExtensionType.earlyData, []⟩]) := by decide +kernel
  refine ⟨step, hstep, fun hallowed => ?_⟩
  have hearly := (hallowed _ hbody.2 (hbody.1 ▸ hparse)).1 ⟨ExtensionType.earlyData, []⟩
    (by simp [sampleHello])
  exact hearly rfl

end RustyTls.Server
