import RustyTls.ServerRetry

/-!
# RustyTls.SessionIds

The session id a server keeps and echoes, over whole runs.

RFC 8446 gives `legacy_session_id` at most 32 octets, and the waiting state of a retry is
documented to rely on it. `ClientHello::parse` reads it behind a one-octet length and looks no
further, so 255 octets pass. A server keeps and sends back exactly what the hello it answers
carried (`echoes_handle`): the bound holds in the runs whose hellos keep to it, and in no other.
-/

namespace RustyTls.Server

open Core

/-- The longest session id of the grammar. -/
def maxSessionId : Nat := 32

/-- The `legacy_session_id_echo` of the ServerHello that a reply begins with, if it does: behind
the headers of the record and the message, the version and the random. -/
def sessionIdEcho (reply : Bytes) : Option Bytes :=
  if reply.headD 0 = ContentType.handshake.asU8 ∧
      (reply.drop headerLen).headD 0 = HandshakeType.serverHello.asU8 then
    ((Reader.mk (reply.drop (headerLen + 4 + 2 + 32))).vectorU8.toOption).map (·.1)
  else
    none

theorem sessionIdEcho_hello {hello : ServerHello} (hrandom : hello.random.length = 32)
    (hid : hello.sessionId.length < 2 ^ 8) (rest : Bytes) :
    sessionIdEcho (plaintextRecord .handshake (Message.encode .serverHello hello.encode) ++ rest)
      = some hello.sessionId := by
  have hmessage : plaintextRecord .handshake (Message.encode .serverHello hello.encode) ++ rest
      = ([ContentType.handshake.asU8] ++ beBytes 2 (0x0303 : UInt16).toNat ++
          beBytes 2 (Message.encode .serverHello hello.encode).length) ++
        (HandshakeType.serverHello.asU8 :: (prefixed 3 hello.encode ++ rest)) := by
    simp only [plaintextRecord, RustyTls.plaintextRecord, Message.encode_eq, List.append_assoc,
      List.cons_append]
  have hbehind : (prefixed 3 hello.encode ++ rest).drop (3 + 2 + 32) = prefixed 1 hello.sessionId ++
      (beBytes 2 hello.cipherSuite.toNat ++
        (0 :: (prefixed 2 (extensionBytes hello.extensions) ++ rest))) := by
    have hfront : prefixed 3 hello.encode ++ rest = (beBytes 3 hello.encode.length ++
        beBytes 2 legacyVersion.toNat ++ hello.random) ++ (prefixed 1 hello.sessionId ++
          (beBytes 2 hello.cipherSuite.toNat ++
            (0 :: (prefixed 2 (extensionBytes hello.extensions) ++ rest)))) := by
      conv_lhs => rw [prefixed, ServerHello.encode_eq]
      simp only [List.append_assoc, List.cons_append, ServerHello.encode_eq]
    rw [hfront, List.drop_left' (by simp [hrandom])]
  have hbody : (plaintextRecord .handshake (Message.encode .serverHello hello.encode) ++ rest).drop
      headerLen = HandshakeType.serverHello.asU8 :: (prefixed 3 hello.encode ++ rest) := by
    rw [hmessage, List.drop_left' (by simp [headerLen])]
  have hread : (Reader.mk ((plaintextRecord .handshake
      (Message.encode .serverHello hello.encode) ++ rest).drop (headerLen + 4 + 2 + 32))).vectorU8
      = .ok (hello.sessionId, ⟨beBytes 2 hello.cipherSuite.toNat ++
        (0 :: (prefixed 2 (extensionBytes hello.extensions) ++ rest))⟩) := by
    have hsplit : headerLen + 4 + 2 + 32 = headerLen + (3 + 2 + 32 + 1) := rfl
    rw [hsplit, ← List.drop_drop, hbody, List.drop_succ_cons, hbehind]
    exact Reader.vectorU8_iff.mpr ⟨rfl, hid⟩
  have hhead : (plaintextRecord .handshake (Message.encode .serverHello hello.encode) ++ rest).headD 0
      = ContentType.handshake.asU8 := rfl
  rw [sessionIdEcho, hread, hbody, if_pos ⟨hhead, rfl⟩]
  rfl

/-! ### What one message does -/

/-- The step sends back and keeps the session id of the hello it answers, or answers none. -/
def Echoes (step : Endpoint.Taken State) : Prop :=
  (∃ hello, step.message.typ = .clientHello ∧ ClientHello.parse step.message.body = .ok hello ∧
    sessionIdEcho step.reply = some hello.sessionId ∧
    ∀ retrying, step.after = .awaitRetriedClientHello retrying →
      retrying.sessionId = hello.sessionId) ∨
  (step.message.typ ≠ .clientHello ∧ sessionIdEcho step.reply = none ∧
    ∀ retrying, step.after ≠ .awaitRetriedClientHello retrying)

section
variable {ring : Ring} {entropy : Entropy} {config : ServerConfig} {message : Message}
  {reply : Bytes} {state next : State} {hello : ClientHello}

theorem echoes_complete {head : Bytes} {selected : Selected} {ccs : Bool} (before : State)
    (htyp : message.typ = .clientHello) (hparse : ClientHello.parse message.body = .ok hello)
    (h : complete ring entropy config head hello selected ccs = .ok (reply, next)) :
    Echoes ⟨entropy, before, message, reply, next⟩ := by
  obtain ⟨draw, negotiated, sealer, record, hcompleted, -, -, hreply, hnext⟩ := complete_inv h
  have hid := (ClientHello.parse_iff.mp hparse).2.sessionId
  have hrandom := entropy.fill_length _ _ _ hcompleted.random
  refine .inl ⟨hello, htyp, hparse, ?_, ?_⟩
  · rw [hreply, List.append_assoc]
    exact @sessionIdEcho_hello ⟨draw.random, hello.sessionId, selected.suite.code,
      helloExtensions draw.kx selected.psk⟩ hrandom hid _
  · intro retrying hafter
    rw [hnext] at hafter
    cases hafter

theorem echoes_retry {suite : CipherSuite} {aead : Aead} {hash : Hash} (before : State)
    (htyp : message.typ = .clientHello) (hparse : ClientHello.parse message.body = .ok hello)
    (h : retry ring config message hello suite aead hash = .ok (reply, next)) :
    Echoes ⟨entropy, before, message, reply, next⟩ := by
  obtain ⟨group, -, -, hreply, hnext⟩ := retry_reply h
  have hid := (ClientHello.parse_iff.mp hparse).2.sessionId
  refine .inl ⟨hello, htyp, hparse, ?_, ?_⟩
  · rw [hreply]
    exact @sessionIdEcho_hello (retryRequest hello.sessionId suite group) rfl hid _
  · intro retrying hafter
    rw [hnext] at hafter
    cases hafter
    rfl

theorem echoes_flight {negotiated : Negotiated} (before : State)
    (h : clientFlight ring entropy config negotiated message = .ok (reply, next)) :
    Echoes ⟨entropy, before, message, reply, next⟩ := by
  obtain ⟨hstep, hnext⟩ := clientFlight_ofFlight before h
  refine .inr ⟨hstep.typ, ?_, ?_⟩
  · rcases hstep.reply with hreply | hsealed
    · rw [hreply]
      rfl
    · obtain ⟨rest, hreply⟩ := hsealed.head
      rw [hreply, sessionIdEcho, if_neg]
      intro h
      obtain ⟨hhead, -⟩ := h
      have houter : ContentType.applicationData.asU8 = ContentType.handshake.asU8 := hhead
      exact absurd houter (by decide)
  · intro retrying hafter
    rcases hnext with ⟨negotiated', hnext⟩ | ⟨connection, hnext⟩
    · rw [hnext] at hafter
      cases hafter
    · rw [hnext] at hafter
      cases hafter

theorem echoes_handle (h : handle ring entropy config state message = .ok (reply, next)) :
    Echoes ⟨entropy, state, message, reply, next⟩ := by
  cases state with
  | awaitClientHello =>
      obtain ⟨hello, _, _, _, _, _, htyp, hparse, -, -, -, -, -, hanswer⟩ := handleHello_inv h
      rcases hanswer with ⟨-, h⟩ | ⟨_, _, _, -, -, h⟩
      · exact echoes_retry _ htyp hparse h
      · exact echoes_complete _ htyp hparse h
  | awaitRetriedClientHello retrying =>
      obtain ⟨hello, _, _, _, _, _, htyp, hparse, -, -, -, -, -, -, -, -, -, h⟩ := retriedHello_inv h
      exact echoes_complete _ htyp hparse h
  | awaitFinished negotiated => exact echoes_flight _ h
  | done connection => simp [handle] at h
  | failed => simp [handle] at h

end

/-! ### Whole runs -/

/-- A state that waits for a second hello was left by a step of the run. -/
def Retained (log : List (Endpoint.Taken State)) (state : State) : Prop :=
  (∀ step ∈ log, Echoes step) ∧
    ∀ retrying, state = .awaitRetriedClientHello retrying → ∃ step ∈ log, step.after = state

theorem run_retained (ring : Ring) (config : ServerConfig) (inputs : List (Entropy × Bytes)) :
    Retained ((endpoint ring config).taken ServerHandshake.new inputs)
      ((endpoint ring config).run ServerHandshake.new inputs).state := by
  have hrun := @Endpoint.taken_induct _ _ _ (endpoint ring config) Retained
    (fun log state hlog => ⟨hlog.1, fun _ hfailed => by cases hfailed⟩)
    (fun log state record fragment next hlog hunframe => by
      rcases unframe_inv hunframe with ⟨-, hnext, -⟩ | ⟨negotiated, opener, -, hnext, -⟩
      · rw [hnext]
        exact hlog
      · refine ⟨hlog.1, ?_⟩
        intro retrying hwaiting
        rw [hnext] at hwaiting
        cases hwaiting)
    (fun entropy log state message reply next hlog hhandle => by
      refine ⟨?_, ?_⟩
      · intro step hstep
        rcases List.mem_append.mp hstep with hstep | hstep
        · exact hlog.1 step hstep
        · obtain rfl := List.mem_singleton.mp hstep
          exact echoes_handle hhandle
      · intro retrying _
        exact ⟨_, List.mem_append_right _ (List.mem_singleton_self _), rfl⟩)
    inputs ServerHandshake.new [] ⟨by simp, fun _ hwaiting => by cases hwaiting⟩
  rwa [List.nil_append] at hrun

/-- Every session id a run keeps or echoes is one of the grammar. -/
structure SessionIdsBounded (ring : Ring) (config : ServerConfig)
    (inputs : List (Entropy × Bytes)) : Prop where
  waiting : ∀ retrying, ((endpoint ring config).run ServerHandshake.new inputs).state
    = .awaitRetriedClientHello retrying → retrying.sessionId.length ≤ maxSessionId
  kept : ∀ step ∈ (endpoint ring config).taken ServerHandshake.new inputs, ∀ retrying,
    step.after = .awaitRetriedClientHello retrying → retrying.sessionId.length ≤ maxSessionId
  echoed : ∀ step ∈ (endpoint ring config).taken ServerHandshake.new inputs, ∀ echo,
    sessionIdEcho step.reply = some echo → echo.length ≤ maxSessionId

/-- In every run the session ids that a server keeps and echoes have at most 32 octets exactly
when those of the hellos it answers have. A reply holds at most one hello, in its first record. -/
theorem run_sessionIds_iff (ring : Ring) (config : ServerConfig)
    (inputs : List (Entropy × Bytes)) :
    (∀ step ∈ (endpoint ring config).taken ServerHandshake.new inputs,
      Replies ring step.reply) ∧
    (SessionIdsBounded ring config inputs ↔
      ∀ step ∈ (endpoint ring config).taken ServerHandshake.new inputs, ∀ hello,
        step.message.typ = .clientHello → ClientHello.parse step.message.body = .ok hello →
        hello.sessionId.length ≤ maxSessionId) := by
  obtain ⟨hechoes, hwaiting⟩ := run_retained ring config inputs
  refine ⟨(conversation_run ring config inputs).replies, ?_⟩
  constructor
  · intro hbounded step hstep hello htyp hparse
    rcases hechoes step hstep with ⟨hello', -, hparse', hecho, -⟩ | ⟨hother, -⟩
    · obtain rfl := Except.ok.inj (hparse.symm.trans hparse')
      exact hbounded.echoed step hstep _ hecho
    · exact absurd htyp hother
  · intro hhellos
    have hkept : ∀ step ∈ (endpoint ring config).taken ServerHandshake.new inputs, ∀ retrying,
        step.after = .awaitRetriedClientHello retrying →
        retrying.sessionId.length ≤ maxSessionId := by
      intro step hstep retrying hafter
      rcases hechoes step hstep with ⟨hello, htyp, hparse, -, hid⟩ | ⟨-, -, hnone⟩
      · rw [hid retrying hafter]
        exact hhellos step hstep hello htyp hparse
      · exact absurd hafter (hnone retrying)
    refine ⟨?_, hkept, ?_⟩
    · intro retrying hstate
      obtain ⟨step, hstep, hafter⟩ := hwaiting retrying hstate
      exact hkept step hstep retrying (hafter.trans hstate)
    · intro step hstep echo hecho
      rcases hechoes step hstep with ⟨hello, htyp, hparse, hecho', -⟩ | ⟨-, hnone, -⟩
      · obtain rfl := Option.some.inj (hecho'.symm.trans hecho)
        exact hhellos step hstep hello htyp hparse
      · rw [hnone] at hecho
        cases hecho

/-- A hello with a session id of 33 octets, and without a share: it is answered with a retry that
carries all of them back. -/
theorem run_sessionIds_overlong :
    let hello : ClientHello := { sampleHello [] with sessionId := List.replicate 33 7 }
    ¬ SessionIdsBounded .sample .sample
      [(.sample 1, plaintextRecord .handshake (Message.encode .clientHello hello.encode))] := by
  intro hello hbounded
  have hechoes : ((endpoint .sample .sample).taken ServerHandshake.new
      [(.sample 1, plaintextRecord .handshake (Message.encode .clientHello hello.encode))]).map
        (fun step => sessionIdEcho step.reply) = [some (List.replicate 33 7)] := by
    decide +kernel
  obtain ⟨step, hstep, hecho⟩ := List.mem_map.mp (hechoes ▸ List.mem_singleton_self _)
  have hlength := hbounded.echoed step hstep _ hecho
  exact absurd hlength (by decide)

end RustyTls.Server
