import RustyTls.ClientSteps
import RustyTls.FlightCodec
import RustyTls.RecordSound

/-!
# RustyTls.ClientRetry

What a client does with a HelloRetryRequest, over whole runs.

`Trace` is the shape of a run's steps: at most one answered retry, then at most one accepted
ServerHello, then messages of the flight. Each part keeps what later parts depend on: the
answered retry the hello it sent, the accepted ServerHello the suite that every later state has.

Two checks are missing. The suite that a retry named is not held against the suite of the
ServerHello that follows, and a retry that asks for the group whose share the first hello
already carried is answered.
-/

namespace RustyTls.Client

open Core

/-! ### Hellos -/

/-- A message that is a HelloRetryRequest. -/
structure IsRetryRequest (message : Message) (request : ServerHello) : Prop where
  typ : message.typ = .serverHello
  parsed : ServerHello.parse message.body = .ok request
  marked : request.isHelloRetryRequest = true

/-- A message that is a ServerHello proper. -/
structure IsServerHello (message : Message) (hello : ServerHello) : Prop where
  typ : message.typ = .serverHello
  parsed : ServerHello.parse message.body = .ok hello
  unmarked : hello.isHelloRetryRequest = false

/-- The hello a client sends: its encoding, and the fields that the configuration and the key
exchange decide. -/
structure Sends (config : ClientConfig) (encoded : Bytes) (hello : ClientHello)
    (kx : KeyExchange) : Prop where
  encoded : encoded = Message.encode .clientHello hello.encode
  suites : hello.cipherSuites = config.cipherSuites.map (·.code)
  share : find hello.extensions ExtensionType.keyShare = some (keyShareData kx)

theorem find_keyShare_base (config : ClientConfig) (kx : KeyExchange) (more : List Extension) :
    find (baseExtensions config kx ++ more) ExtensionType.keyShare = some (keyShareData kx) := by
  unfold baseExtensions
  dsimp only
  by_cases hname : (serverNameData config.serverName).isEmpty = true
  · rw [if_pos hname]
    rfl
  · rw [if_neg hname]
    rfl

theorem encodeHello_sends {ring : Ring} {config : ClientConfig} {kx : KeyExchange}
    {random sessionId front encoded : Bytes}
    (h : encodeHello ring config kx random sessionId front = .ok encoded) :
    ∃ hello, Sends config encoded hello kx ∧ hello.random = random ∧
      hello.sessionId = sessionId := by
  unfold encodeHello at h
  cases hresumption : config.resumption with
  | none =>
      rw [hresumption] at h
      obtain rfl := Except.ok.inj h
      refine ⟨plainHello config kx random sessionId, ⟨rfl, rfl, ?_⟩, rfl, rfl⟩
      have := find_keyShare_base config kx []
      rwa [List.append_nil] at this
  | some resumption =>
      rw [hresumption] at h
      simp only [encodeOffering, bind_eq_ok, mapErr_eq_ok] at h
      obtain ⟨hash, -, placeheld, hnew, hfinish⟩ := h
      obtain ⟨placeheld', hnew', hall⟩ := @BinderHello.new_finish
        (offeringHello config kx random sessionId resumption hash) (baseExtensions config kx)
        [offeredIdentity resumption] [hash.len] (by simp) rfl
      obtain rfl : placeheld = placeheld' := Except.ok.inj (hnew.symm.trans hnew')
      -- Binders of the wrong lengths would have been refused.
      have hlens : placeheld.binderLens = [hash.len] := by
        simp only [BinderHello.new, bind_eq_ok, refuse_eq_ok] at hnew
        obtain ⟨_, -, _, -, _, -, _, -, heq⟩ := hnew
        rw [← Except.ok.inj heq]
      obtain ⟨_, hmatch, -⟩ := bind_eq_ok.mp hfinish
      rw [refuse_eq_ok, not_not, hlens] at hmatch
      obtain ⟨hencoded, -⟩ := hall _ hmatch
      obtain rfl := Except.ok.inj (hencoded.symm.trans hfinish)
      exact ⟨_, ⟨rfl, rfl, find_keyShare_base config kx _⟩, rfl, rfl⟩

theorem buildClientHello_sends {ring : Ring} {entropy : Entropy} {config : ClientConfig}
    {kx : KeyExchange} {identity : Option (Bytes × Bytes)}
    {front encoded random sessionId : Bytes}
    (h : buildClientHello ring entropy config kx identity front
      = .ok (encoded, random, sessionId)) :
    (∃ hello, Sends config encoded hello kx ∧ hello.random = random ∧
      hello.sessionId = sessionId) ∧
    ∀ id, identity = some id → (random, sessionId) = id := by
  simp only [buildClientHello, bind_eq_ok] at h
  obtain ⟨⟨random', sessionId'⟩, hidentity, encoded', hencode, heq⟩ := h
  obtain ⟨rfl, rfl, rfl⟩ : encoded' = encoded ∧ random' = random ∧ sessionId' = sessionId := by
    simpa using heq
  refine ⟨encodeHello_sends hencode, ?_⟩
  intro id h
  obtain rfl := h
  exact (Except.ok.inj hidentity).symm

/-! ### The shape of a run -/

/-- The step that answers a retry: `first` is what the client waited with before it, `awaiting`
after it. -/
structure Retried (ring : Ring) (config : ClientConfig) (first : Awaiting)
    (step : Endpoint.Taken State) (request : ServerHello) (awaiting : Awaiting) : Prop where
  isRequest : IsRetryRequest step.message request
  offered : (⟨request.cipherSuite⟩ : CipherSuite) ∈ config.cipherSuites
  asked : askedGroup request = some awaiting.kx.group
  configured : awaiting.kx.group ∈ config.groups
  answer : ∃ aead hash second hello,
    (⟨request.cipherSuite⟩ : CipherSuite).parts = some (aead, hash) ∧
    Sends config second hello awaiting.kx ∧ hello.random = first.random ∧
    hello.sessionId = first.sessionId ∧
    step.reply = plaintextRecord .handshake 0x0303 second ∧
    awaiting.clientHello
      = messageHash ring hash first.clientHello ++ step.message.encoded ++ second
  once : awaiting.retried = true

/-- The steps up to the ServerHello, and what the client then waits with. -/
inductive Opening (ring : Ring) (config : ClientConfig) (first : Awaiting) :
    List (Endpoint.Taken State) → Awaiting → Prop
  | direct : Opening ring config first [] first
  | retried {step : Endpoint.Taken State} {request : ServerHello} {awaiting : Awaiting}
      (h : Retried ring config first step request awaiting) :
      Opening ring config first [step] awaiting

/-- The step that accepts a ServerHello. -/
structure Answered (config : ClientConfig) (step : Endpoint.Taken State) (hello : ServerHello)
    (hash : Hash) : Prop where
  isHello : IsServerHello step.message hello
  offered : (⟨hello.cipherSuite⟩ : CipherSuite) ∈ config.cipherSuites
  parts : ∃ aead, (⟨hello.cipherSuite⟩ : CipherSuite).parts = some (aead, hash)
  silent : step.reply = []

/-- A step of the flight: it is not a hello, and it sends nothing or a change_cipher_spec and one
sealed record. -/
structure OfFlight (ring : Ring) (step : Endpoint.Taken State) : Prop where
  typ : step.message.typ ≠ .serverHello
  reply : step.reply = [] ∨ ∃ record, Sealed ring record ∧
    step.reply = plaintextRecord .changeCipherSpec 0x0303 [0x01] ++ record

/-- What a state has kept of the hellos it follows. -/
def Keeps (awaiting : Awaiting) (hello : ServerHello) (hash : Hash) : State → Prop
  | .awaitServerHello _ => False
  | .inFlight _ negotiated => negotiated.suite = ⟨hello.cipherSuite⟩ ∧ negotiated.hash = hash ∧
      ∃ rest, negotiated.transcript = ⟨hash, awaiting.clientHello ++ rest⟩
  | .done connection => connection.suite = ⟨hello.cipherSuite⟩ ∧ connection.hash = hash
  | .failed => True

/-- The steps of a run, and the state they lead to. -/
inductive Trace (ring : Ring) (config : ClientConfig) (first : Awaiting) :
    List (Endpoint.Taken State) → State → Prop
  | opening {log : List (Endpoint.Taken State)} {awaiting : Awaiting} {state : State}
      (hopening : Opening ring config first log awaiting)
      (hstate : state = .awaitServerHello awaiting ∨ state = .failed) :
      Trace ring config first log state
  | flight {log rest : List (Endpoint.Taken State)} {awaiting : Awaiting}
      {step : Endpoint.Taken State} {hello : ServerHello} {hash : Hash} {state : State}
      (hopening : Opening ring config first log awaiting)
      (hanswered : Answered config step hello hash)
      (hrest : ∀ later ∈ rest, OfFlight ring later) (hkeeps : Keeps awaiting hello hash state) :
      Trace ring config first (log ++ step :: rest) state

section Steps

variable {ring : Ring} {entropy : Entropy} {config : ClientConfig} {first : Awaiting}
  {log : List (Endpoint.Taken State)} {message : Message} {reply : Bytes} {next : State}

theorem trace_serverHello {awaiting : Awaiting}
    (hopening : Opening ring config first log awaiting)
    (h : handleServerHello ring entropy config awaiting message = .ok (reply, next)) :
    Trace ring config first
      (log ++ [⟨entropy, .awaitServerHello awaiting, message, reply, next⟩]) next := by
  obtain ⟨hello, aead, hash, hok, ⟨hmarked, honce, h⟩ | ⟨hmarked, h⟩⟩ := handleServerHello_inv h
  · -- A retry: it is the first thing the client reads.
    obtain ⟨share, group, kx, second, random, sessionId, hshare, hlen, hgroup, hmem, hkx, hbuild,
      rfl, rfl⟩ := retry_inv h
    obtain ⟨⟨sent, hsends, hrandom, hid⟩, hidentity⟩ := buildClientHello_sends hbuild
    obtain ⟨rfl, rfl⟩ : random = awaiting.random ∧ sessionId = awaiting.sessionId := by
      simpa using hidentity _ rfl
    obtain ⟨hkxGroup, -⟩ := KeyExchange.generate_inv hkx
    cases hopening with
    | direct =>
        have hrequest : IsRetryRequest message hello := ⟨hok.typ, hok.parsed, hmarked⟩
        refine .opening (.retried ⟨hrequest, hok.offered, ?_, ?_,
          ⟨aead, hash, second, sent, hok.parts, hsends, hrandom, hid, rfl, rfl⟩, rfl⟩) (.inl rfl)
        · rw [askedGroup, hshare, Option.bind_some, if_pos hlen, hgroup, hkxGroup]
        · rw [hkxGroup]
          exact hmem
    | retried hretried =>
        rw [hretried.once] at honce
        simp at honce
  · obtain ⟨share, peerKey, session, secret, negotiated, -, -, -, -, hderived, rfl, rfl⟩ :=
      negotiate_inv h
    have hanswered : Answered config
        ⟨entropy, .awaitServerHello awaiting, message, [], .inFlight .encryptedExtensions negotiated⟩
        hello hash :=
      ⟨⟨hok.typ, hok.parsed, hmarked⟩, hok.offered, ⟨aead, hok.parts⟩, rfl⟩
    refine .flight hopening hanswered (by simp) ?_
    refine ⟨hderived.suite_eq, hderived.hash_eq, message.encoded, hderived.transcript_eq⟩

/-- A message of the flight changes nothing that the hellos decided. -/
theorem flight_keeps {awaiting : Awaiting} {hello : ServerHello} {hash : Hash} {expect : Expect}
    {negotiated : Negotiated} (hkeeps : Keeps awaiting hello hash (.inFlight expect negotiated))
    (h : handleFlightMessage ring entropy config expect negotiated message = .ok (reply, next)) :
    Keeps awaiting hello hash next ∧
      OfFlight ring ⟨entropy, .inFlight expect negotiated, message, reply, next⟩ := by
  obtain ⟨hsuite, hhash, rest, htranscript⟩ := hkeeps
  have hadd : negotiated.transcript.addMessage message
      = ⟨hash, awaiting.clientHello ++ (rest ++ message.encoded)⟩ := by
    rw [htranscript]
    simp [Transcript.addMessage, Transcript.add]
  rcases flight_next h with ⟨htyp, -, rfl, _, _, _, _, rfl⟩ | ⟨-, htyp, h⟩
  · exact ⟨⟨hsuite, hhash, _, hadd⟩, htyp, .inl rfl⟩
  · obtain ⟨authentication, connection, -, -, -, rfl, -, hhash', hsuite', -, -⟩ := finish_inv h
    refine ⟨⟨hsuite'.trans hsuite, hhash'.trans hhash⟩, by simp [htyp], .inr ?_⟩
    simp only [finish, bind_eq_ok] at h
    obtain ⟨_, -, _, -, _, -, sealer, -, record, hrecord, _, -, _, -, heq⟩ := h
    exact ⟨record, ⟨sealer, _, _, Prod.ext (mapErr_eq_ok.mp hrecord) rfl⟩,
      (Prod.mk.inj (Except.ok.inj heq)).1.symm⟩

/-- One message keeps the shape. -/
theorem trace_handle {state : State} (htrace : Trace ring config first log state)
    (h : handleMessage ring entropy config state message = .ok (reply, next)) :
    Trace ring config first (log ++ [⟨entropy, state, message, reply, next⟩]) next := by
  cases htrace with
  | opening hopening hstate =>
      rcases hstate with rfl | rfl
      · exact trace_serverHello hopening h
      · simp [handleMessage] at h
  | flight hopening hanswered hrest hkeeps =>
      cases state with
      | awaitServerHello awaiting => exact hkeeps.elim
      | inFlight expect negotiated =>
          obtain ⟨hkeeps', hstep⟩ := flight_keeps hkeeps h
          rw [List.append_assoc, List.cons_append]
          refine .flight hopening hanswered ?_ hkeeps'
          intro later hlater
          rcases List.mem_append.mp hlater with hlater | hlater
          · exact hrest later hlater
          · obtain rfl := List.mem_singleton.mp hlater
            exact hstep
      | done connection => simp [handleMessage] at h
      | failed => simp [handleMessage] at h

theorem trace_unframe {state : State} {record fragment : Bytes}
    (htrace : Trace ring config first log state)
    (h : unframe ring state record = .ok (fragment, next)) :
    Trace ring config first log next := by
  rcases unframe_inv h with ⟨-, rfl, -⟩ | ⟨expect, negotiated, opener, rfl, rfl, -⟩
  · exact htrace
  · cases htrace with
    | opening hopening hstate => simp at hstate
    | flight hopening hanswered hrest hkeeps => exact .flight hopening hanswered hrest hkeeps

theorem trace_failed {state : State} (htrace : Trace ring config first log state) :
    Trace ring config first log .failed := by
  cases htrace with
  | opening hopening hstate => exact .opening hopening (.inr rfl)
  | flight hopening hanswered hrest hkeeps => exact .flight hopening hanswered hrest trivial

end Steps

/-- Every run has the shape. -/
theorem trace_run (ring : Ring) (config : ClientConfig) (first : Awaiting) (buffer : Bytes)
    (inputs : List (Entropy × Bytes)) :
    Trace ring config first
      ((endpoint ring config).taken ⟨.awaitServerHello first, buffer⟩ inputs)
      ((endpoint ring config).run ⟨.awaitServerHello first, buffer⟩ inputs).state := by
  have hrun := Endpoint.taken_induct (endpoint ring config) (P := Trace ring config first)
    (fun _ _ htrace => trace_failed htrace)
    (fun _ _ _ _ _ htrace h => trace_unframe htrace h)
    (fun _ _ _ _ _ _ htrace h => trace_handle htrace h)
    inputs ⟨.awaitServerHello first, buffer⟩ [] (.opening .direct (.inl rfl))
  rwa [List.nil_append] at hrun


/-! ### Reading a run -/

theorem IsRetryRequest.not_hello {message : Message} {request hello : ServerHello}
    (hrequest : IsRetryRequest message request) : ¬ IsServerHello message hello := by
  intro hhello
  obtain rfl := Except.ok.inj (hrequest.parsed.symm.trans hhello.parsed)
  exact absurd hrequest.marked (by simp [hhello.unmarked])

/-- A retry that was answered is the first step there is. -/
theorem Opening.retry {ring : Ring} {config : ClientConfig} {first awaiting : Awaiting}
    {log : List (Endpoint.Taken State)} {step : Endpoint.Taken State} {request : ServerHello}
    (hopening : Opening ring config first log awaiting) (hmem : step ∈ log)
    (hrequest : IsRetryRequest step.message request) :
    log = [step] ∧ Retried ring config first step request awaiting := by
  cases hopening with
  | direct => simp at hmem
  | retried hretried =>
      obtain rfl := List.mem_singleton.mp hmem
      obtain rfl := Except.ok.inj (hretried.isRequest.parsed.symm.trans hrequest.parsed)
      exact ⟨rfl, hretried⟩

section Read

variable {ring : Ring} {config : ClientConfig} {first awaiting : Awaiting}
  {log rest : List (Endpoint.Taken State)} {step : Endpoint.Taken State} {hello : ServerHello}
  {hash : Hash}

/-- Nothing from the ServerHello on is a retry. -/
theorem retry_mem_opening (hanswered : Answered config step hello hash)
    (hrest : ∀ later ∈ rest, OfFlight ring later) {t : Endpoint.Taken State} {request : ServerHello}
    (hmem : t ∈ log ++ step :: rest) (hrequest : IsRetryRequest t.message request) : t ∈ log := by
  rcases List.mem_append.mp hmem with hmem | hmem
  · exact hmem
  · rcases List.mem_cons.mp hmem with rfl | hmem
    · exact absurd hanswered.isHello hrequest.not_hello
    · exact absurd hrequest.typ (hrest t hmem).typ

/-- The ServerHello is the only one. -/
theorem hello_mem_unique (hopening : Opening ring config first log awaiting)
    (hanswered : Answered config step hello hash) (hrest : ∀ later ∈ rest, OfFlight ring later)
    {t : Endpoint.Taken State} {hello' : ServerHello} (hmem : t ∈ log ++ step :: rest)
    (hhello : IsServerHello t.message hello') : hello' = hello := by
  rcases List.mem_append.mp hmem with hmem | hmem
  · cases hopening with
    | direct => simp at hmem
    | retried hretried =>
        obtain rfl := List.mem_singleton.mp hmem
        exact absurd hhello hretried.isRequest.not_hello
  · rcases List.mem_cons.mp hmem with rfl | hmem
    · exact Except.ok.inj (hhello.parsed.symm.trans hanswered.isHello.parsed)
    · exact absurd hhello.typ (hrest t hmem).typ

end Read

/-! ### The suite of a retry -/

/-- The suite a handshake runs on, once there is one. -/
def State.suite? : State → Option CipherSuite
  | .inFlight _ negotiated => some negotiated.suite
  | .done connection => some connection.suite
  | _ => none

/-- Whatever retry was answered named the suite in force, and the transcript of the flight is on
that suite's hash from its head on. -/
def SuiteKept (ring : Ring) (first : Bytes) (log : List (Endpoint.Taken State)) (state : State)
    (suite : CipherSuite) : Prop :=
  ∀ t ∈ log, ∀ request, IsRetryRequest t.message request →
    suite = ⟨request.cipherSuite⟩ ∧
    ∀ expect negotiated, state = .inFlight expect negotiated →
      ∃ rest, negotiated.transcript = ⟨negotiated.hash,
        messageHash ring negotiated.hash first ++ t.message.encoded ++ rest⟩

/-- The ServerHello after a retry names the retry's suite. -/
def SameSuite (log : List (Endpoint.Taken State)) : Prop :=
  ∀ t ∈ log, ∀ t' ∈ log, ∀ request hello, IsRetryRequest t.message request →
    IsServerHello t'.message hello → hello.cipherSuite = request.cipherSuite

/-- No two different suites are offered that are implemented. -/
def OffersOne (config : ClientConfig) : Prop :=
  ∀ a ∈ config.cipherSuites, ∀ b ∈ config.cipherSuites,
    a.parts.isSome = true → b.parts.isSome = true → a = b

theorem suiteKept_iff {ring : Ring} {config : ClientConfig} {first : Awaiting}
    {log : List (Endpoint.Taken State)} {state : State} {suite : CipherSuite}
    (htrace : Trace ring config first log state) (hsuite : state.suite? = some suite) :
    (SuiteKept ring first.clientHello log state suite ↔ SameSuite log) ∧
    (OffersOne config → SameSuite log) := by
  cases htrace with
  | opening hopening hstate => rcases hstate with rfl | rfl <;> simp [State.suite?] at hsuite
  | @flight log rest awaiting step hello hash _ hopening hanswered hrest hkeeps =>
      have hstateSuite : suite = ⟨hello.cipherSuite⟩ := by
        cases state with
        | inFlight expect negotiated => exact (Option.some.inj hsuite).symm.trans hkeeps.1
        | done connection => exact (Option.some.inj hsuite).symm.trans hkeeps.1
        | _ => simp [State.suite?] at hsuite
      refine ⟨⟨?_, ?_⟩, ?_⟩
      · intro hkept t ht t' ht' request hello' hrequest hhello'
        obtain rfl := hello_mem_unique hopening hanswered hrest ht' hhello'
        have := (hkept t ht request hrequest).1
        rw [hstateSuite] at this
        exact congrArg CipherSuite.code this
      · intro hsame t ht request hrequest
        have hequal := hsame t ht step (by simp) request hello hrequest hanswered.isHello
        refine ⟨by rw [hstateSuite, hequal], ?_⟩
        intro expect negotiated h
        obtain rfl := h
        obtain ⟨-, hhash, more, htranscript⟩ := hkeeps
        obtain ⟨-, hretried⟩ :=
          hopening.retry (retry_mem_opening hanswered hrest ht hrequest) hrequest
        obtain ⟨aead, hash', second, -, hparts, -, -, -, -, hhead⟩ := hretried.answer
        -- One suite has one hash.
        obtain ⟨aead', hparts'⟩ := hanswered.parts
        rw [hequal, hparts] at hparts'
        obtain rfl : hash' = hash := by simpa using congrArg (Option.map Prod.snd) hparts'
        exact ⟨second ++ more, by rw [htranscript, hhash, hhead]; simp⟩
      · intro hone t ht t' ht' request hello' hrequest hhello'
        obtain rfl := hello_mem_unique hopening hanswered hrest ht' hhello'
        obtain ⟨-, hretried⟩ :=
          hopening.retry (retry_mem_opening hanswered hrest ht hrequest) hrequest
        obtain ⟨aead, hash', -, -, hparts, -⟩ := hretried.answer
        obtain ⟨aead', hparts'⟩ := hanswered.parts
        have := hone _ hanswered.offered _ hretried.offered (by simp [hparts']) (by simp [hparts])
        exact congrArg CipherSuite.code this

/-- Whatever records a client is given: in a flight or when done, the suite of an answered retry
is the suite in force exactly when the ServerHello that followed named it too, and a client that
offers only one suite it implements leaves the server no choice. -/
theorem run_retrySuite_iff (ring : Ring) (config : ClientConfig) (entropy : Entropy)
    (handshake : ClientHandshake) (record : Bytes)
    (hstart : start ring entropy config = .ok (handshake, record))
    (inputs : List (Entropy × Bytes)) (suite : CipherSuite)
    (hsuite : ((endpoint ring config).run handshake inputs).state.suite? = some suite) :
    ∃ first, record = plaintextRecord .handshake 0x0301 first ∧
      (SuiteKept ring first ((endpoint ring config).taken handshake inputs)
          ((endpoint ring config).run handshake inputs).state suite ↔
        SameSuite ((endpoint ring config).taken handshake inputs)) ∧
      (OffersOne config → SuiteKept ring first ((endpoint ring config).taken handshake inputs)
        ((endpoint ring config).run handshake inputs).state suite) := by
  obtain ⟨group, kx, hello, random, sessionId, -, -, -, -, rfl, rfl⟩ := start_inv hstart
  have htrace := trace_run ring config ⟨hello, kx, false, random, sessionId⟩ [] inputs
  obtain ⟨hiff, hone⟩ := suiteKept_iff htrace hsuite
  exact ⟨hello, rfl, hiff, fun h => hiff.mpr (hone h)⟩

/-- The session id of a hello a client has just sent. -/
def sentSessionId (handshake : ClientHandshake) : Bytes :=
  match handshake.state with
  | .awaitServerHello awaiting => awaiting.sessionId
  | _ => []

/-- A client with nothing but its first hello sent. -/
def started (config : ClientConfig) : ClientHandshake × Bytes :=
  match start .sample (.sample 1) config with
  | .ok started => started
  | .error _ => (⟨.failed, []⟩, [])

/-- A ServerHello on TLS 1.3, with the contents of its key_share. -/
def helloOf (random sessionId : Bytes) (suite : CipherSuite) (share : Bytes) : ServerHello :=
  ⟨random, sessionId, suite.code,
    [⟨ExtensionType.keyShare, share⟩, ⟨ExtensionType.supportedVersions, [0x03, 0x04]⟩]⟩

/-- The record a hello is sent in. -/
def helloRecord (hello : ServerHello) : Bytes :=
  plaintextRecord .handshake 0x0303 (Message.encode .serverHello hello.encode)

/-- A retry that asks for X25519 on one suite, and a ServerHello on another. -/
def retriedInputs (config : ClientConfig) (retrySuite helloSuite : CipherSuite) :
    List (Entropy × Bytes) :=
  let sessionId := sentSessionId (started config).1
  [(.sample 2, helloRecord (helloOf helloRetryRequestRandom sessionId retrySuite [0x00, 0x1d])),
    (.sample 3, helloRecord (helloOf (List.replicate 32 0) sessionId helloSuite
      [0x00, 0x1d, 0, 2, 8, 9]))]

/-- A client that shares P-384, would share X25519, and offers suites on two hashes. -/
def twoHashes : ClientConfig :=
  { ClientConfig.sample with
    groups := [.secP384R1, .x25519]
    cipherSuites := [.tlsAes128GcmSha256, .tlsAes256GcmSha384] }

/-- The sample client offers one suite. -/
theorem run_retrySuite_iff_sample :
    ∃ first, (started .sample).2 = plaintextRecord .handshake 0x0301 first ∧
      SuiteKept .sample first ((endpoint .sample .sample).taken (started .sample).1
          (retriedInputs .sample .tlsAes128GcmSha256 .tlsAes128GcmSha256))
        ((endpoint .sample .sample).run (started .sample).1
          (retriedInputs .sample .tlsAes128GcmSha256 .tlsAes128GcmSha256)).state
        .tlsAes128GcmSha256 := by
  have hstart : start .sample (.sample 1) .sample
      = .ok ((started .sample).1, (started .sample).2) := by decide +kernel
  have hsuite : ((endpoint .sample .sample).run (started .sample).1
      (retriedInputs .sample .tlsAes128GcmSha256 .tlsAes128GcmSha256)).state.suite?
        = some .tlsAes128GcmSha256 := by decide +kernel
  obtain ⟨first, hfirst, -, hkept⟩ := run_retrySuite_iff _ _ _ _ _ hstart _ _ hsuite
  refine ⟨first, hfirst, hkept ?_⟩
  intro a ha b hb _ _
  exact (List.mem_singleton.mp ha).trans (List.mem_singleton.mp hb).symm

/-- The retry of `retriedInputs`. -/
def retryRequestOf (config : ClientConfig) (suite : CipherSuite) : ServerHello :=
  helloOf helloRetryRequestRandom (sentSessionId (started config).1) suite [0x00, 0x1d]

/-- A retry on SHA-256 is answered, and the ServerHello that follows it on SHA-384 accepted. -/
theorem run_retrySuite_changed :
    start .sample (.sample 1) twoHashes = .ok ((started twoHashes).1, (started twoHashes).2) ∧
    ((endpoint .sample twoHashes).run (started twoHashes).1
      (retriedInputs twoHashes .tlsAes128GcmSha256 .tlsAes256GcmSha384)).state.suite?
        = some .tlsAes256GcmSha384 ∧
    ∀ first, ¬ SuiteKept .sample first
      ((endpoint .sample twoHashes).taken (started twoHashes).1
        (retriedInputs twoHashes .tlsAes128GcmSha256 .tlsAes256GcmSha384))
      ((endpoint .sample twoHashes).run (started twoHashes).1
        (retriedInputs twoHashes .tlsAes128GcmSha256 .tlsAes256GcmSha384)).state
      .tlsAes256GcmSha384 := by
  refine ⟨by decide +kernel, by decide +kernel, ?_⟩
  intro first hkept
  have hmem : Message.of .serverHello (retryRequestOf twoHashes .tlsAes128GcmSha256).encode
      ∈ ((endpoint .sample twoHashes).taken (started twoHashes).1
        (retriedInputs twoHashes .tlsAes128GcmSha256 .tlsAes256GcmSha384)).map (·.message) := by
    decide +kernel
  obtain ⟨t, ht, hmessage⟩ := List.mem_map.mp hmem
  have hrequest : IsRetryRequest t.message (retryRequestOf twoHashes .tlsAes128GcmSha256) := by
    rw [hmessage]
    exact ⟨rfl, by decide +kernel, by decide +kernel⟩
  have hsuite := (hkept t ht _ hrequest).1
  exact absurd (congrArg CipherSuite.code hsuite) (by decide +kernel)

/-! ### The discipline of a retry -/

/-- The records of a reply: a hello, a change_cipher_spec and a sealed flight, or none. -/
inductive Replies (ring : Ring) : Bytes → Prop
  | nothing : Replies ring []
  | hello {body : Bytes} :
      Replies ring (plaintextRecord .handshake 0x0303 (Message.encode .clientHello body))
  | flight {record : Bytes} : Sealed ring record →
      Replies ring (plaintextRecord .changeCipherSpec 0x0303 [0x01] ++ record)

/-- A step that sends a ClientHello. -/
def SendsHello (step : Endpoint.Taken State) : Prop :=
  ∃ body, step.reply = plaintextRecord .handshake 0x0303 (Message.encode .clientHello body)

/-- At most one more hello is sent, with the random, session id and suites of the first, and
only for a retry that asks for a group that is configured and is not `share`, the group of the
share already sent; it carries a share for the group asked for. -/
structure RetryDisciplined (config : ClientConfig) (first : ClientHello) (share : NamedGroup)
    (log : List (Endpoint.Taken State)) : Prop where
  once : log.Pairwise fun t t' => ¬ (SendsHello t ∧ SendsHello t')
  each : ∀ t ∈ log, SendsHello t → ∃ request kx second hello,
    IsRetryRequest t.message request ∧ askedGroup request = some kx.group ∧
    kx.group ∈ config.groups ∧ kx.group ≠ share ∧
    t.reply = plaintextRecord .handshake 0x0303 second ∧ Sends config second hello kx ∧
    hello.random = first.random ∧ hello.sessionId = first.sessionId ∧
    hello.cipherSuites = first.cipherSuites

theorem Answered.not_sendsHello {config : ClientConfig} {step : Endpoint.Taken State}
    {hello : ServerHello} {hash : Hash} (h : Answered config step hello hash) :
    ¬ SendsHello step := by
  intro hshape
  obtain ⟨body, hbody⟩ := hshape
  rw [h.silent] at hbody
  simp [plaintextRecord] at hbody

theorem OfFlight.not_sendsHello {ring : Ring} {step : Endpoint.Taken State}
    (h : OfFlight ring step) : ¬ SendsHello step := by
  intro hshape
  obtain ⟨body, hbody⟩ := hshape
  rcases h.reply with hsilent | ⟨record, -, hccs⟩
  · rw [hsilent] at hbody
    simp [plaintextRecord] at hbody
  · rw [hccs] at hbody
    have hhead := congrArg List.head? hbody
    simp [plaintextRecord, ContentType.asU8] at hhead

theorem OfFlight.replies {ring : Ring} {step : Endpoint.Taken State} (h : OfFlight ring step) :
    Replies ring step.reply := by
  rcases h.reply with hnone | ⟨record, hsealed, hreply⟩
  · rw [hnone]
    exact .nothing
  · rw [hreply]
    exact .flight hsealed

theorem Retried.replies {ring : Ring} {config : ClientConfig} {first awaiting : Awaiting}
    {step : Endpoint.Taken State} {request : ServerHello}
    (h : Retried ring config first step request awaiting) : Replies ring step.reply := by
  obtain ⟨_, _, _, _, -, hsends, -, -, hreply, -⟩ := h.answer
  rw [hreply, hsends.encoded]
  exact .hello

theorem Opening.replies {ring : Ring} {config : ClientConfig} {first awaiting : Awaiting}
    {log : List (Endpoint.Taken State)} (h : Opening ring config first log awaiting) :
    ∀ step ∈ log, Replies ring step.reply := by
  cases h with
  | direct => simp
  | retried hretried => exact List.forall_mem_singleton.mpr hretried.replies

/-- A reply of a client is one of three. -/
theorem Trace.replies {ring : Ring} {config : ClientConfig} {first : Awaiting}
    {log : List (Endpoint.Taken State)} {state : State}
    (htrace : Trace ring config first log state) : ∀ step ∈ log, Replies ring step.reply := by
  cases htrace with
  | opening hopening hstate => exact hopening.replies
  | flight hopening hanswered hrest hkeeps =>
      refine List.forall_mem_append.mpr ⟨hopening.replies, List.forall_mem_cons.mpr ⟨?_, ?_⟩⟩
      · rw [hanswered.silent]
        exact .nothing
      · exact fun later hmem => (hrest later hmem).replies

/-- Only the answered retry sends a hello. -/
theorem Trace.sendsHello {ring : Ring} {config : ClientConfig} {first : Awaiting}
    {log : List (Endpoint.Taken State)} {state : State}
    (htrace : Trace ring config first log state) :
    (∀ t ∈ log, ¬ SendsHello t ∧ ∀ request, ¬ IsRetryRequest t.message request) ∨
    ∃ step rest request awaiting, log = step :: rest ∧
      Retried ring config first step request awaiting ∧
      ∀ t ∈ rest, ¬ SendsHello t ∧ ∀ request, ¬ IsRetryRequest t.message request := by
  -- What follows the hellos neither sends one nor is a retry.
  have hflight : ∀ {step : Endpoint.Taken State} {hello : ServerHello} {hash : Hash}
      {rest : List (Endpoint.Taken State)}, Answered config step hello hash →
      (∀ later ∈ rest, OfFlight ring later) →
      ∀ t ∈ step :: rest, ¬ SendsHello t ∧ ∀ request, ¬ IsRetryRequest t.message request := by
    intro step hello hash rest hanswered hrest t ht
    rcases List.mem_cons.mp ht with rfl | ht
    · exact ⟨hanswered.not_sendsHello, fun _ hrequest => hrequest.not_hello hanswered.isHello⟩
    · exact ⟨(hrest t ht).not_sendsHello, fun _ hrequest => (hrest t ht).typ hrequest.typ⟩
  cases htrace with
  | opening hopening hstate =>
      cases hopening with
      | direct => exact .inl (by simp)
      | retried hretried => exact .inr ⟨_, [], _, _, rfl, hretried, by simp⟩
  | flight hopening hanswered hrest hkeeps =>
      cases hopening with
      | direct => exact .inl (hflight hanswered hrest)
      | retried hretried => exact .inr ⟨_, _, _, _, rfl, hretried, hflight hanswered hrest⟩

/-- Whatever records a client is given, its retry is disciplined exactly when no retry that it
accepts asks for the group of the share in its first hello. A reply is a hello, a
change_cipher_spec and one sealed record, or nothing. -/
theorem run_retryDiscipline_iff (ring : Ring) (config : ClientConfig) (entropy : Entropy)
    (handshake : ClientHandshake) (record : Bytes)
    (hstart : start ring entropy config = .ok (handshake, record))
    (inputs : List (Entropy × Bytes)) :
    (endpoint ring config).replies handshake inputs
      = ((endpoint ring config).taken handshake inputs).flatMap (·.reply) ∧
    (∀ step ∈ (endpoint ring config).taken handshake inputs, Replies ring step.reply) ∧
    ∃ encoded first kx, record = plaintextRecord .handshake 0x0301 encoded ∧
      Sends config encoded first kx ∧ config.groups.head? = some kx.group ∧
      (RetryDisciplined config first kx.group ((endpoint ring config).taken handshake inputs) ↔
        ∀ t ∈ (endpoint ring config).taken handshake inputs, ∀ request,
          IsRetryRequest t.message request → askedGroup request ≠ some kx.group) := by
  refine ⟨Endpoint.replies_eq_taken _ inputs handshake, ?_⟩
  obtain ⟨group, kx, encoded, random, sessionId, hgroup, -, hkx, hbuild, rfl, rfl⟩ :=
    start_inv hstart
  obtain ⟨⟨first, hsends, hrandom, hid⟩, -⟩ := buildClientHello_sends hbuild
  obtain ⟨hkxGroup, -⟩ := KeyExchange.generate_inv hkx
  have htrace := trace_run ring config ⟨encoded, kx, false, random, sessionId⟩ [] inputs
  refine ⟨htrace.replies, encoded, first, kx, rfl, hsends, by rw [hgroup, hkxGroup], ?_⟩
  generalize (endpoint ring config).taken ⟨.awaitServerHello ⟨encoded, kx, false, random, sessionId⟩,
    []⟩ inputs = log at htrace ⊢
  rcases htrace.sendsHello with hnone | ⟨step, rest, request, awaiting, rfl, hretried, hnone⟩
  · -- No retry was answered.
    refine iff_of_true ⟨?_, ?_⟩ ?_
    · exact List.pairwise_of_forall_mem_list fun t ht t' _ h => (hnone t ht).1 h.1
    · exact fun t ht hsendsHello => absurd hsendsHello (hnone t ht).1
    · exact fun t ht request hrequest => absurd hrequest ((hnone t ht).2 request)
  · obtain ⟨aead, hash, second, hello, -, hsecond, hrandom', hid', hreply, -⟩ := hretried.answer
    have hsent : SendsHello step := ⟨hello.encode, by rw [hreply, hsecond.encoded]⟩
    constructor
    · intro hdisciplined t ht request' hrequest'
      rcases List.mem_cons.mp ht with rfl | ht
      · obtain ⟨request'', kx', _, _, hrequest'', hasked, -, hne, -⟩ :=
          hdisciplined.each t (by simp) hsent
        obtain rfl := Except.ok.inj (hrequest'.parsed.symm.trans hrequest''.parsed)
        rw [hasked]
        exact fun heq => hne (Option.some.inj heq)
      · exact absurd hrequest' ((hnone t ht).2 request')
    · intro hfresh
      refine ⟨?_, ?_⟩
      · rw [List.pairwise_cons]
        refine ⟨fun t ht h => (hnone t ht).1 h.2, ?_⟩
        exact List.pairwise_of_forall_mem_list fun t ht t' _ h => (hnone t ht).1 h.1
      · intro t ht hsendsHello
        rcases List.mem_cons.mp ht with rfl | ht
        · refine ⟨request, awaiting.kx, second, hello, hretried.isRequest, hretried.asked,
            hretried.configured, ?_, hreply, hsecond, hrandom'.trans hrandom.symm,
            hid'.trans hid.symm, hsecond.suites.trans hsends.suites.symm⟩
          intro heq
          exact hfresh t (by simp) request hretried.isRequest (by rw [hretried.asked, heq])
        · exact absurd hsendsHello (hnone t ht).1

/-- The record of a retry that asks for X25519. -/
def retryInput (config : ClientConfig) : List (Entropy × Bytes) :=
  [(.sample 2, helloRecord (retryRequestOf config .tlsAes128GcmSha256))]

/-- A client that shares P-384 and is asked for X25519. -/
theorem run_retryDiscipline_iff_twoHashes :
    ∃ first, RetryDisciplined twoHashes first .secP384R1
      ((endpoint .sample twoHashes).taken (started twoHashes).1 (retryInput twoHashes)) := by
  have hstart : start .sample (.sample 1) twoHashes
      = .ok ((started twoHashes).1, (started twoHashes).2) := by decide +kernel
  obtain ⟨-, -, encoded, first, kx, -, -, hgroup, hiff⟩ :=
    run_retryDiscipline_iff _ _ _ _ _ hstart (retryInput twoHashes)
  obtain hkx : NamedGroup.secP384R1 = kx.group := Option.some.inj hgroup
  rw [← hkx] at hiff
  refine ⟨first, hiff.mpr ?_⟩
  intro t ht request hrequest
  have hlog : ((endpoint .sample twoHashes).taken (started twoHashes).1
      (retryInput twoHashes)).map (·.message)
        = [Message.of .serverHello (retryRequestOf twoHashes .tlsAes128GcmSha256).encode] := by
    decide +kernel
  have hmessage : t.message
      = Message.of .serverHello (retryRequestOf twoHashes .tlsAes128GcmSha256).encode := by
    simpa [hlog] using List.mem_map_of_mem (f := (·.message)) ht
  have hparsed : ServerHello.parse (retryRequestOf twoHashes .tlsAes128GcmSha256).encode
      = .ok (retryRequestOf twoHashes .tlsAes128GcmSha256) := by decide +kernel
  have hbody := hrequest.parsed
  rw [hmessage] at hbody
  obtain rfl := Except.ok.inj (hbody.symm.trans hparsed)
  decide +kernel

/-- A client whose only share is for X25519 answers a retry that asks for X25519. -/
theorem run_retryDiscipline_repeated :
    start .sample (.sample 1) .sample = .ok ((started .sample).1, (started .sample).2) ∧
    ClientConfig.sample.groups.head? = some .x25519 ∧
    ∀ first, ¬ RetryDisciplined .sample first .x25519
      ((endpoint .sample .sample).taken (started .sample).1 (retryInput .sample)) := by
  refine ⟨by decide +kernel, rfl, ?_⟩
  intro first hdisciplined
  -- The one step of the run: the retry, and the hello it is answered with.
  have hlog : ((endpoint .sample .sample).taken (started .sample).1 (retryInput .sample)).map
      (fun t => (t.message, t.reply))
        = [(Message.of .serverHello (retryRequestOf .sample .tlsAes128GcmSha256).encode,
            plaintextRecord .handshake 0x0303 (Message.encode .clientHello
              (((endpoint .sample .sample).replies (started .sample).1
                (retryInput .sample)).drop 9)))] := by decide +kernel
  obtain ⟨t, ht, hstep⟩ := List.mem_map.mp (hlog ▸ List.mem_singleton_self _)
  obtain ⟨hmessage, hreply⟩ := Prod.mk.inj hstep
  obtain ⟨request, kx, _, _, hrequest, hasked, -, hne, -⟩ := hdisciplined.each t ht ⟨_, hreply⟩
  have hparsed : ServerHello.parse (retryRequestOf .sample .tlsAes128GcmSha256).encode
      = .ok (retryRequestOf .sample .tlsAes128GcmSha256) := by decide +kernel
  have hbody := hrequest.parsed
  rw [hmessage] at hbody
  obtain rfl := Except.ok.inj (hbody.symm.trans hparsed)
  have hx25519 : askedGroup (retryRequestOf .sample .tlsAes128GcmSha256) = some .x25519 := by
    decide +kernel
  exact hne (Option.some.inj (hasked.symm.trans hx25519))

end RustyTls.Client
