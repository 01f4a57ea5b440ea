import RustyTls.Agreement

/-!
# RustyTls.ResumedFlag

Whether a connection says of itself that it was resumed.

The client's connection says what the ServerHello told it, and the ServerHello what the server
made of the hello it answers (`Told`). The server's own connection is put together from its parts
without any of that, and never says that it was resumed. So the two ends differ after every
handshake in which the server could resume (`CanResume`), and only then.
-/

namespace RustyTls

open Core

/-! ### What a server resumes -/

namespace Server

/-- The suite in which a waiting server takes up a hello. -/
def State.suiteFor (config : ServerConfig) (hello : ClientHello) : State → Option CipherSuite
  | .awaitClientHello =>
      config.cipherSuites.find? fun suite => hello.cipherSuites.contains suite.code
  | .awaitRetriedClientHello retrying => some retrying.suite
  | _ => none

/-- A waiting server asks for no other hello: this one has a share for a group of the server's, or
is the one it asked for. -/
def State.Settled (config : ServerConfig) (hello : ClientHello) : State → Prop
  | .awaitClientHello =>
      ∃ shares, offeredShares hello = .ok shares ∧ chooseShare config shares ≠ none
  | .awaitRetriedClientHello _ => True
  | _ => False

/-- A waiting server is given a hello that it can resume from: it has tickets, and one of those
that the hello offers, in the one mode there is, is acceptable. -/
structure CanResume (ring : Ring) (config : ServerConfig) (state : State) (message : Message)
    (hello : ClientHello) (suite : CipherSuite) (tickets : Tickets) (data : Bytes)
    (offer : PresharedKeyOffer) (offered : PskIdentity) (contents : TicketContents) : Prop where
  parses : ClientHello.parse message.body = .ok hello
  settled : state.Settled config hello
  suite_eq : state.suiteFor config hello = some suite
  configured : config.tickets = some tickets
  mode : offersDhe hello = true
  offers : find hello.extensions ExtensionType.preSharedKey = some data
  parses_offer : PresharedKeyOffer.parse data = .ok offer
  mem : offered ∈ offer.identities
  acceptable : Acceptable ring config tickets suite offered contents

/-- A step in which a server was given a hello that it can resume from. -/
def Resumes (ring : Ring) (config : ServerConfig) (step : Endpoint.Taken State) : Prop :=
  ∃ hello suite tickets data offer offered contents,
    CanResume ring config step.before step.message hello suite tickets data offer offered contents

/-- A step that answers a hello with the server's flight. -/
def Answers (step : Endpoint.Taken State) : Prop :=
  step.before.InClear ∧ ∃ negotiated, step.after = .awaitFinished negotiated

section Steps

variable {ring : Ring} {config : ServerConfig} {entropy : Entropy} {message : Message}
  {reply : Bytes} {state next : State}

/-- An identity that is passed over cannot be resumed from. -/
theorem selectPsk_none {tickets : Tickets} {suite : CipherSuite} {hash : Hash} {covered : Bytes}
    {binders : List Bytes} : ∀ {identities : List PskIdentity} {base : Nat},
      selectPsk ring config tickets suite hash covered binders base identities = .ok none →
      ∀ offered ∈ identities, ∀ contents, ¬ Acceptable ring config tickets suite offered contents := by
  intro identities
  induction identities with
  | nil =>
      intro base _ offered hmem
      simp at hmem
  | cons first rest ih =>
      intro base h offered hmem contents hacc
      rw [selectPsk] at h
      rcases List.mem_cons.mp hmem with rfl | hmem
      · rw [hacc.opens] at h
        simp only [(usable_iff hacc.opens).mpr hacc, if_true, bind_eq_ok] at h
        obtain ⟨_, -, _, -, heq⟩ := h
        simp at heq
      · split at h
        · exact ih h offered hmem contents hacc
        · simp at h
        · split at h
          · simp only [bind_eq_ok] at h
            obtain ⟨_, -, _, -, heq⟩ := h
            simp at heq
          · exact ih h offered hmem contents hacc

/-- A hello is taken up with a session exactly when there is one that the server can resume. -/
theorem acceptPsk_isSome_iff {hello : ClientHello} {encodedHello transcriptPrefix : Bytes}
    {suite : CipherSuite} {hash : Hash} {psk : Option AcceptedPsk}
    (hparse : ClientHello.parse message.body = .ok hello) (hsettled : state.Settled config hello)
    (hsuite : state.suiteFor config hello = some suite)
    (h : acceptPsk ring config hello encodedHello transcriptPrefix suite hash = .ok psk) :
    psk.isSome = true ↔ ∃ hello suite tickets data offer offered contents,
      CanResume ring config state message hello suite tickets data offer offered contents := by
  constructor
  · intro hsome
    obtain ⟨accepted, rfl⟩ := Option.isSome_iff_exists.mp hsome
    obtain ⟨tickets, offer, _, offered, contents, _, haccepted⟩ := acceptPsk_inv h
    obtain ⟨data, hdata, hoffer⟩ := haccepted.parsed
    refine ⟨hello, suite, tickets, data, offer, offered, contents, hparse, hsettled, hsuite,
      haccepted.configured, ?_, hdata, hoffer, haccepted.mem_identities, haccepted.acceptable⟩
    by_contra hmode
    simp only [acceptPsk, hdata, haccepted.configured, if_neg hmode, bind_eq_ok] at h
    obtain ⟨_, -, _, -, heq⟩ := h
    simp at heq
  · intro hshape
    obtain ⟨hello', suite', tickets, data, offer, offered, contents, hcan⟩ := hshape
    obtain rfl := Except.ok.inj (hparse.symm.trans hcan.parses)
    obtain rfl := Option.some.inj (hsuite.symm.trans hcan.suite_eq)
    simp only [acceptPsk, hcan.offers, hcan.configured, if_pos hcan.mode, takeOffer,
      hcan.parses_offer, mapErr_ok, ok_bind, bind_eq_ok, mapErr_eq_ok] at h
    obtain ⟨_, -, _, -, truncated, -, hselect⟩ := h
    cases psk with
    | some accepted => rfl
    | none => exact absurd hcan.acceptable (selectPsk_none hselect offered hcan.mem contents)

/-- Invert a message in the clear: a request for another hello, or the server's flight with what it
made of the hello's offer. -/
theorem handle_clear_inv (hclear : state.InClear)
    (h : handle ring entropy config state message = .ok (reply, next)) :
    ∃ hello, ClientHello.parse message.body = .ok hello ∧
      ((¬ state.Settled config hello ∧ (∃ retrying, next = .awaitRetriedClientHello retrying) ∧
          ∃ suite group, reply = plaintextRecord .handshake
            (retryMessage hello.sessionId suite group) ++ Network.changeCipherSpecRecord) ∨
        ∃ selected head ccs, state.Settled config hello ∧
          state.suiteFor config hello = some selected.suite ∧
          acceptPsk ring config hello message.encoded state.transcriptHead selected.suite
            selected.hash = .ok selected.psk ∧
          complete ring entropy config head hello selected ccs = .ok (reply, next)) := by
  cases state with
  | awaitClientHello =>
      obtain ⟨hello, suite, aead, hash, scheme, shares, -, hparse, -, hsuite, hparts, -, hshares,
        ⟨hnone, h⟩ | ⟨group, peerKey, psk, hchosen, hpsk, h⟩⟩ := handleHello_inv h
      · obtain ⟨group, -, -, hreply, hnext⟩ := retry_reply h
        refine ⟨hello, hparse, .inl ⟨?_, ⟨_, hnext⟩, suite, group, hreply⟩⟩
        intro h
        obtain ⟨shares', hshares', hsome⟩ := h
        obtain rfl := Except.ok.inj (hshares.symm.trans hshares')
        exact hsome hnone
      · exact ⟨hello, hparse, .inr ⟨⟨suite, aead, hash, scheme, group, peerKey, psk⟩, _, true,
          ⟨shares, hshares, by simp [hchosen]⟩, hsuite, hpsk, h⟩⟩
  | awaitRetriedClientHello retrying =>
      obtain ⟨hello, scheme, data, shares, peerKey, psk, -, hparse, -, -, -, -, -, -, -, -, hpsk,
        h⟩ := retriedHello_inv h
      exact ⟨hello, hparse, .inr ⟨⟨retrying.suite, retrying.aead, retrying.hash, scheme,
        retrying.group, peerKey, psk⟩, _, false, trivial, rfl, hpsk, h⟩⟩
  | awaitFinished negotiated => exact hclear.elim
  | done connection => exact hclear.elim
  | failed => exact hclear.elim

/-- A server resumes only from a state in which it waits for a hello. -/
theorem Resumes.inClear {step : Endpoint.Taken State} (h : Resumes ring config step) :
    step.before.InClear := by
  obtain ⟨hello, _, _, _, _, _, _, hcan⟩ := h
  have hsettled := hcan.settled
  cases hstate : step.before with
  | awaitClientHello => trivial
  | awaitRetriedClientHello retrying => trivial
  | awaitFinished negotiated => simp [hstate, State.Settled] at hsettled
  | done connection => simp [hstate, State.Settled] at hsettled
  | failed => simp [hstate, State.Settled] at hsettled

/-- A hello that can be resumed from is answered. -/
theorem Resumes.answers (h : Resumes ring config ⟨entropy, state, message, reply, next⟩)
    (hhandle : handle ring entropy config state message = .ok (reply, next)) :
    Answers ⟨entropy, state, message, reply, next⟩ := by
  refine ⟨h.inClear, ?_⟩
  obtain ⟨hello, hparse, ⟨hnot, -⟩ | ⟨selected, head, ccs, -, -, -, hcomplete⟩⟩ :=
    handle_clear_inv h.inClear hhandle
  · obtain ⟨hello', _, _, _, _, _, _, hcan⟩ := h
    obtain rfl := Except.ok.inj (hparse.symm.trans hcan.parses)
    exact absurd hcan.settled hnot
  · obtain ⟨draw, negotiated, _, _, -, -, -, -, hnext⟩ := complete_inv hcomplete
    exact ⟨negotiated, hnext⟩

end Steps

end Server

/-! ### What the client is told -/

namespace Network

/-- A ServerHello that its record carries whole. -/
structure Carries (hello : ServerHello) (record : Bytes) : Prop where
  fits : hello.Fits
  short : (Message.encode .serverHello hello.encode).length ≤ maxFragmentLen
  record_eq : record
    = Server.plaintextRecord .handshake (Message.encode .serverHello hello.encode)

/-- A flag says whether the server could resume from the hello that it answered. -/
def Flagged (ring : Ring) (config : Server.ServerConfig) (log : List (Endpoint.Taken Server.State))
    (flag : Bool) : Prop :=
  ∃ step ∈ log, Server.Answers step ∧ (flag = true ↔ Server.Resumes ring config step)

/-- What a record of the server's can be: a change_cipher_spec, a sealed one, a request for another
hello, or a ServerHello that names a session exactly when the server could resume it. -/
inductive Told (ring : Ring) (config : Server.ServerConfig)
    (log : List (Endpoint.Taken Server.State)) : Bytes → Prop
  | changeCipherSpec : Told ring config log changeCipherSpecRecord
  | sealed {record : Bytes} : record.headD 0 = outerType → Told ring config log record
  | request {hello : ServerHello} {record : Bytes} : Carries hello record →
      hello.isHelloRetryRequest = true → Told ring config log record
  | answer {hello : ServerHello} {record : Bytes} : Carries hello record →
      Flagged ring config log (find hello.extensions ExtensionType.preSharedKey).isSome →
      Told ring config log record

variable {ring : Ring} {config : Server.ServerConfig} {log : List (Endpoint.Taken Server.State)}

theorem Flagged.mono {flag : Bool} (h : Flagged ring config log flag)
    {log' : List (Endpoint.Taken Server.State)} (hsub : log ⊆ log') :
    Flagged ring config log' flag := by
  obtain ⟨step, hmem, hstep⟩ := h
  exact ⟨step, hsub hmem, hstep⟩

theorem Told.mono {record : Bytes} (h : Told ring config log record)
    {log' : List (Endpoint.Taken Server.State)} (hsub : log ⊆ log') :
    Told ring config log' record := by
  cases h with
  | changeCipherSpec => exact .changeCipherSpec
  | sealed houter => exact .sealed houter
  | request hcarries hretry => exact .request hcarries hretry
  | answer hcarries hflagged => exact .answer hcarries (hflagged.mono hsub)

theorem records_flatten {rs : List Bytes} (h : ∀ record ∈ rs, Whole record) :
    records rs.flatten = rs := by
  induction rs with
  | nil => rfl
  | cons record rs ih =>
      rw [List.flatten_cons, records_append (h record List.mem_cons_self),
        ih fun record hmem => h record (List.mem_cons_of_mem _ hmem)]

theorem Carries.whole {hello : ServerHello} {record : Bytes} (h : Carries hello record) :
    Whole record := by
  rw [h.record_eq]
  exact whole_plaintextRecord _ _ h.short

/-- The records of one step, and what each of them tells. -/
def Tells (ring : Ring) (config : Server.ServerConfig) (step : Endpoint.Taken Server.State) : Prop :=
  ∃ rs : List Bytes, step.reply = rs.flatten ∧
    ∀ record ∈ rs, Whole record ∧ Told ring config [step] record

variable {entropy : Entropy} {state next : Server.State} {message : Message} {reply : Bytes}

theorem tells_nothing (step : Endpoint.Taken Server.State) (h : step.reply = []) :
    Tells ring config step := ⟨[], h, by simp⟩

theorem tells_changeCipherSpec (log : List (Endpoint.Taken Server.State)) :
    Whole changeCipherSpecRecord ∧ Told ring config log changeCipherSpecRecord :=
  ⟨whole_changeCipherSpecRecord, .changeCipherSpec⟩

theorem tells_sealed (lawful : ring.Lawful) {sealer : Sealer} {fragment record : Bytes}
    (h : (sealer.sealRecord ring .handshake fragment 0).1 = .ok record)
    (log : List (Endpoint.Taken Server.State)) : Whole record ∧ Told ring config log record := by
  obtain ⟨hwhole, -, houter⟩ := sealRecord_whole lawful h
  exact ⟨hwhole, .sealed houter⟩

/-- A request for another hello is told as one. -/
theorem tells_request {sessionId : Bytes} (hid : sessionId.length < 2 ^ 8) (suite : CipherSuite)
    (group : NamedGroup) (log : List (Endpoint.Taken Server.State)) :
    Whole (Server.plaintextRecord .handshake (Server.retryMessage sessionId suite group)) ∧
      Told ring config log
        (Server.plaintextRecord .handshake (Server.retryMessage sessionId suite group)) := by
  have hcarries : Carries (Server.retryRequest sessionId suite group)
      (Server.plaintextRecord .handshake (Server.retryMessage sessionId suite group)) :=
    ⟨Client.retryRequest_fits hid suite group, Server.retryRequest_short hid suite group, rfl⟩
  have hmarked : (Server.retryRequest sessionId suite group).isHelloRetryRequest = true :=
    beq_self_eq_true helloRetryRequestRandom
  exact ⟨hcarries.whole, .request hcarries hmarked⟩

/-- A ServerHello names a session exactly when one was taken up. -/
theorem find_preSharedKey_hello (kx : KeyExchange) (psk : Option Server.AcceptedPsk) :
    (find (Server.helloExtensions kx psk) ExtensionType.preSharedKey).isSome = psk.isSome := by
  cases psk <;> rfl

/-- The server's flight tells what it made of the hello. -/
theorem tells_flight (complete : ring.Complete) (hclear : state.InClear) {hello : ClientHello}
    {selected : Server.Selected} {head : Bytes} {ccs : Bool}
    (hparse : ClientHello.parse message.body = .ok hello)
    (hsettled : state.Settled config hello)
    (hsuite : state.suiteFor config hello = some selected.suite)
    (hpsk : Server.acceptPsk ring config hello message.encoded state.transcriptHead selected.suite
      selected.hash = .ok selected.psk)
    (h : Server.complete ring entropy config head hello selected ccs = .ok (reply, next)) :
    Tells ring config ⟨entropy, state, message, reply, next⟩ := by
  obtain ⟨draw, negotiated, sealer, record, hcompleted, -, hseal, hreply, hnext⟩ :=
    Server.complete_inv h
  obtain ⟨-, hpublic⟩ := KeyExchange.generate_inv hcompleted.kx
  obtain ⟨hextensions, hbytes⟩ :=
    Client.helloExtensions_fit (complete.publicKey_length _ _ _ hpublic) selected.psk
  have hrandom := entropy.fill_length _ _ _ hcompleted.random
  have hid := (ClientHello.parse_iff.mp hparse).2.sessionId
  have hcarries : Carries ⟨draw.random, hello.sessionId, selected.suite.code,
      Server.helloExtensions draw.kx selected.psk⟩
      (Server.plaintextRecord .handshake (draw.serverHello hello selected)) :=
    ⟨⟨hrandom, hid, hextensions⟩, ServerHello.encode_short hrandom hid hbytes, rfl⟩
  have hflagged : Flagged ring config [⟨entropy, state, message, reply, next⟩]
      (find (Server.helloExtensions draw.kx selected.psk) ExtensionType.preSharedKey).isSome := by
    refine ⟨_, List.mem_singleton_self _, ⟨hclear, negotiated, hnext⟩, ?_⟩
    rw [find_preSharedKey_hello]
    exact Server.acceptPsk_isSome_iff hparse hsettled hsuite hpsk
  have hhello : Whole (Server.plaintextRecord .handshake (draw.serverHello hello selected)) ∧
      Told ring config [⟨entropy, state, message, reply, next⟩]
        (Server.plaintextRecord .handshake (draw.serverHello hello selected)) :=
    ⟨hcarries.whole, .answer hcarries hflagged⟩
  have hsealed := @tells_sealed ring config complete.toLawful _ _ _ hseal
    [⟨entropy, state, message, reply, next⟩]
  cases ccs with
  | true =>
      refine ⟨[_, changeCipherSpecRecord, record], ?_,
        by simpa using ⟨hhello, tells_changeCipherSpec _, hsealed⟩⟩
      simp only [hreply, if_true, List.flatten_cons, List.flatten_nil, List.append_nil,
        List.append_assoc]
      rfl
  | false =>
      refine ⟨[_, record], ?_, by simpa using ⟨hhello, hsealed⟩⟩
      simp only [hreply, Bool.false_eq_true, if_false, List.flatten_cons, List.flatten_nil,
        List.append_nil]

/-- The tickets of a connection are one sealed record, if they are any. -/
theorem tells_tickets (lawful : ring.Lawful) {negotiated : Server.Negotiated}
    {sealer sealer' : Sealer} (step : Endpoint.Taken Server.State)
    (h : Server.issueTickets ring entropy config negotiated sealer = .ok (step.reply, sealer')) :
    Tells ring config step := by
  unfold Server.issueTickets at h
  split at h
  · exact tells_nothing step (Prod.mk.inj (Except.ok.inj h)).1.symm
  · split at h
    · exact tells_nothing step (Prod.mk.inj (Except.ok.inj h)).1.symm
    · simp only [bind_eq_ok, mapErr_eq_ok] at h
      obtain ⟨flight, -, record, hrecord, heq⟩ := h
      obtain ⟨hreply, -⟩ := Prod.mk.inj (Except.ok.inj heq)
      exact ⟨[record], by simp [hreply], by simpa using tells_sealed lawful hrecord [step]⟩

/-- One message: every record that it is answered with tells what the server made of it. -/
theorem tells_handle (complete : ring.Complete)
    (h : Server.handle ring entropy config state message = .ok (reply, next)) :
    Tells ring config ⟨entropy, state, message, reply, next⟩ := by
  by_cases hclear : state.InClear
  · obtain ⟨hello, hparse, ⟨-, -, suite, group, hreply⟩ |
      ⟨selected, head, ccs, hsettled, hsuite, hpsk, hcomplete⟩⟩ := Server.handle_clear_inv hclear h
    · have hid := (ClientHello.parse_iff.mp hparse).2.sessionId
      exact ⟨[Server.plaintextRecord .handshake (Server.retryMessage hello.sessionId suite group),
        changeCipherSpecRecord], by simp [hreply],
        by simpa using ⟨tells_request hid suite group _, tells_changeCipherSpec _⟩⟩
    · exact tells_flight complete hclear hparse hsettled hsuite hpsk hcomplete
  · cases state with
    | awaitClientHello => exact absurd trivial hclear
    | awaitRetriedClientHello retrying => exact absurd trivial hclear
    | awaitFinished negotiated =>
        rcases Server.flight_next h with ⟨-, -, hreply, -⟩ | ⟨-, -, h⟩
        · exact tells_nothing _ hreply
        · obtain ⟨_, _, _, -, hissue, -⟩ := Server.handleFinished_inv h
          exact tells_tickets complete.toLawful _ hissue
    | done connection => simp [Server.handle] at h
    | failed => simp [Server.handle] at h

/-- The records of some steps are those of each, one after the other. -/
theorem tells_all {steps : List (Endpoint.Taken Server.State)}
    (h : ∀ step ∈ steps, Tells ring config step) :
    ∃ rs : List Bytes, steps.flatMap (·.reply) = rs.flatten ∧
      ∀ record ∈ rs, Whole record ∧ Told ring config steps record := by
  induction steps with
  | nil => exact ⟨[], rfl, by simp⟩
  | cons step steps ih =>
      obtain ⟨rs, hreply, hrs⟩ := h step List.mem_cons_self
      obtain ⟨rest, hreplies, hrest⟩ := ih fun later hmem => h later (List.mem_cons_of_mem _ hmem)
      refine ⟨rs ++ rest, by rw [List.flatMap_cons, hreply, hreplies, List.flatten_append], ?_⟩
      intro record hmem
      rcases List.mem_append.mp hmem with hmem | hmem
      · obtain ⟨hwhole, htold⟩ := hrs record hmem
        exact ⟨hwhole, htold.mono (by simp)⟩
      · obtain ⟨hwhole, htold⟩ := hrest record hmem
        exact ⟨hwhole, htold.mono (by simp)⟩

/-- What a server sends for a record is told by the steps that the record takes. -/
theorem told_sentBy (complete : ring.Complete) {handshake after : Server.ServerHandshake}
    {record : Bytes} {result : Except Server.ServerError Bytes}
    (h : (Server.endpoint ring config).readRecord entropy handshake record = (result, after)) :
    ∀ sent ∈ sentBy result, Told ring config
      ((Server.endpoint ring config).recordSteps entropy handshake record) sent := by
  have htells := Endpoint.readRecord_induct (Server.endpoint ring config)
    (P := fun log _ => ∀ step ∈ log, Tells ring config step)
    (fun _ _ hlog => hlog) (fun _ _ _ _ _ hlog _ => hlog)
    (fun entropy log state message reply next hlog hhandle step hstep => by
      rcases List.mem_append.mp hstep with hstep | hstep
      · exact hlog step hstep
      · obtain rfl := List.mem_singleton.mp hstep
        exact tells_handle complete hhandle)
    [] (by simp) h
  rw [List.nil_append] at htells
  rcases Endpoint.readRecord_inv h with ⟨⟨err, rfl⟩, -⟩ | ⟨reply, rfl, hinner⟩
  · intro sent hmem
    simp [sentBy] at hmem
  · rcases Endpoint.recordSteps_inv hinner with ⟨-, -, rfl⟩ | ⟨fragment, state, -, hsteps, hall⟩
    · intro sent hmem
      have hnone : records [] = [] := rfl
      simp [sentBy, hnone] at hmem
    · obtain ⟨rs, hreplies, hrs⟩ := tells_all htells
      have hreply : reply = rs.flatten := by
        rw [← hreplies, hsteps]
        exact (Endpoint.stepsOf_of_handleAll hall).2.symm
      intro sent hmem
      rw [sentBy, hreply, records_flatten fun record hmem => (hrs record hmem).1] at hmem
      exact (hrs sent hmem).2

/-! ### What the server's log says -/

/-- A server answers one hello, and its connection does not say that it was resumed. -/
structure Kept (ring : Ring) (config : Server.ServerConfig)
    (log : List (Endpoint.Taken Server.State)) (state : Server.State) : Prop where
  waits : state.InClear → ∀ step ∈ log, ¬ Server.Answers step
  once : ∀ step ∈ log, ∀ other ∈ log, Server.Answers step → Server.Answers other → step = other
  answers : ∀ step ∈ log, Server.Resumes ring config step → Server.Answers step
  plain : ∀ connection, state = .done connection → connection.resumed = false

/-- Where a message leads: to another hello from the first, to the flight from either, and to a
connection without a flag from the flight. -/
theorem handle_next (h : Server.handle ring entropy config state message = .ok (reply, next)) :
    (next.InClear → state.InClear) ∧
      ∀ connection, next = .done connection → connection.resumed = false := by
  by_cases hclear : state.InClear
  · refine ⟨fun _ => hclear, fun connection hdone => ?_⟩
    obtain ⟨hello, -, ⟨-, ⟨retrying, hnext⟩, -⟩ | ⟨selected, head, ccs, -, -, -, hcomplete⟩⟩ :=
      Server.handle_clear_inv hclear h
    · rw [hnext] at hdone
      cases hdone
    · obtain ⟨_, _, _, _, -, -, -, -, hnext⟩ := Server.complete_inv hcomplete
      rw [hnext] at hdone
      cases hdone
  · cases state with
    | awaitClientHello => exact absurd trivial hclear
    | awaitRetriedClientHello retrying => exact absurd trivial hclear
    | awaitFinished negotiated =>
        rcases Server.flight_next h with ⟨-, -, -, _, _, _, rfl⟩ | ⟨-, -, h⟩
        · exact ⟨False.elim, by simp⟩
        · obtain ⟨_, _, _, -, -, rfl⟩ := Server.handleFinished_inv h
          refine ⟨False.elim, fun connection hdone => ?_⟩
          obtain rfl := Server.State.done.inj hdone
          rfl
    | done connection => simp [Server.handle] at h
    | failed => simp [Server.handle] at h

theorem kept_handle (hkept : Kept ring config log state)
    (h : Server.handle ring entropy config state message = .ok (reply, next)) :
    Kept ring config (log ++ [⟨entropy, state, message, reply, next⟩]) next := by
  obtain ⟨hback, hplain⟩ := handle_next h
  refine ⟨?_, ?_, ?_, hplain⟩
  · intro hclear step hstep hanswers
    rcases List.mem_append.mp hstep with hstep | hstep
    · exact hkept.waits (hback hclear) step hstep hanswers
    · obtain rfl := List.mem_singleton.mp hstep
      obtain ⟨-, negotiated, rfl⟩ := hanswers
      exact hclear
  · intro step hstep other hother hanswers hanswers'
    rcases List.mem_append.mp hstep with hstep | hstep <;>
      rcases List.mem_append.mp hother with hother | hother
    · exact hkept.once step hstep other hother hanswers hanswers'
    · obtain rfl := List.mem_singleton.mp hother
      exact absurd hanswers (hkept.waits hanswers'.1 step hstep)
    · obtain rfl := List.mem_singleton.mp hstep
      exact absurd hanswers' (hkept.waits hanswers.1 other hother)
    · rw [List.mem_singleton.mp hstep, List.mem_singleton.mp hother]
  · intro step hstep hresumes
    rcases List.mem_append.mp hstep with hstep | hstep
    · exact hkept.answers step hstep hresumes
    · obtain rfl := List.mem_singleton.mp hstep
      exact hresumes.answers h

theorem kept_unframe {record fragment : Bytes} (hkept : Kept ring config log state)
    (h : Server.unframe ring state record = .ok (fragment, next)) :
    Kept ring config log next := by
  rcases Server.unframe_inv h with ⟨-, rfl, -⟩ | ⟨negotiated, opener, rfl, rfl, -⟩
  · exact hkept
  · exact ⟨False.elim, hkept.once, hkept.answers, by simp⟩

/-- One record keeps what the log says. -/
theorem kept_readRecord {handshake after : Server.ServerHandshake} {record : Bytes}
    {result : Except Server.ServerError Bytes} (hkept : Kept ring config log handshake.state)
    (h : (Server.endpoint ring config).readRecord entropy handshake record = (result, after)) :
    Kept ring config (log ++ (Server.endpoint ring config).recordSteps entropy handshake record)
      after.state :=
  Endpoint.readRecord_induct (Server.endpoint ring config) (P := Kept ring config)
    (fun _ _ hkept => ⟨False.elim, hkept.once, hkept.answers, by simp [Server.endpoint]⟩)
    (fun _ _ _ _ _ hkept h => kept_unframe hkept h)
    (fun _ _ _ _ _ _ hkept h => kept_handle hkept h) log hkept h

/-! ### What the client makes of it -/

/-- What a client knows once it has read a ServerHello: whether the server could resume. -/
def Knows (ring : Ring) (config : Server.ServerConfig) (log : List (Endpoint.Taken Server.State)) :
    Client.State → Prop
  | .awaitServerHello _ => False
  | .inFlight _ negotiated => Flagged ring config log negotiated.resumed
  | .done connection => Flagged ring config log connection.resumed
  | .failed => True

/-- A client waits for a ServerHello, of which it has no part, or knows what it says. -/
def Informed (ring : Ring) (config : Server.ServerConfig)
    (log : List (Endpoint.Taken Server.State)) (handshake : Client.ClientHandshake) : Prop :=
  (∃ awaiting, handshake = ⟨.awaitServerHello awaiting, []⟩) ∨ Knows ring config log handshake.state

theorem Informed.mono {handshake : Client.ClientHandshake} (h : Informed ring config log handshake)
    {log' : List (Endpoint.Taken Server.State)} (hsub : log ⊆ log') :
    Informed ring config log' handshake := by
  rcases h with hwaits | hknows
  · exact .inl hwaits
  · right
    unfold Knows at hknows ⊢
    split at hknows
    · exact hknows
    · exact hknows.mono hsub
    · exact hknows.mono hsub
    · trivial

variable {client : Client.ClientConfig} {handshake after : Client.ClientHandshake}
  {result : Except ClientError Bytes} {record : Bytes}

/-- A session is accepted exactly when the ServerHello names one. -/
theorem acceptedSession_isSome {hello : ServerHello} {hash : Hash} {session : Option Session}
    (h : Client.acceptedSession client hello hash = .ok session) :
    session.isSome = (find hello.extensions ExtensionType.preSharedKey).isSome := by
  unfold Client.acceptedSession at h
  split at h
  · next hnone =>
      obtain rfl := Except.ok.inj h
      rw [hnone]
      rfl
  · next data hdata =>
      simp only [bind_eq_ok] at h
      obtain ⟨_, -, _, -, _, -, _, -, _, -, heq⟩ := h
      obtain rfl := Except.ok.inj heq
      rw [hdata]
      rfl

/-- A ServerHello tells the client whether the server could resume, and a request tells nothing. -/
theorem informed_hello {awaiting : Client.Awaiting} {hello : ServerHello} {next : Client.State}
    (hcarries : Carries hello record)
    (htold : hello.isHelloRetryRequest = true ∨
      Flagged ring config log (find hello.extensions ExtensionType.preSharedKey).isSome)
    (h : Client.handleServerHello ring entropy client awaiting
      (Message.of .serverHello hello.encode) = .ok (reply, next)) :
    Informed ring config log ⟨next, []⟩ := by
  obtain ⟨hello', aead, hash, haccepted, ⟨-, -, hretry⟩ | ⟨hanswer, hnegotiate⟩⟩ :=
    Client.handleServerHello_inv h
  · obtain ⟨_, _, _, _, _, _, -, -, -, -, -, -, -, rfl⟩ := Client.retry_inv hretry
    exact .inl ⟨_, rfl⟩
  · have hparse : ServerHello.parse hello.encode = .ok hello :=
      ServerHello.parse_iff.mpr ⟨rfl, hcarries.fits⟩
    obtain rfl := Except.ok.inj (hparse.symm.trans haccepted.parsed)
    obtain ⟨_, _, session, _, negotiated, -, -, hsession, -, hderived, -, rfl⟩ :=
      Client.negotiate_inv hnegotiate
    right
    show Flagged ring config log negotiated.resumed
    rw [hderived.resumed_eq, acceptedSession_isSome hsession]
    rcases htold with hretry | hflagged
    · simp [hanswer] at hretry
    · exact hflagged

/-- A client that waits for a ServerHello reads nothing out of a sealed record. -/
theorem unframe_sealed_clear {awaiting : Client.Awaiting} (houter : record.headD 0 = outerType)
    {p : Bytes × Client.State} :
    Client.unframe ring (.awaitServerHello awaiting) record ≠ .ok p := by
  intro h
  have htyp : ContentType.fromU8 outerType = .applicationData := rfl
  simp only [Client.unframe, Client.fragmentOf, houter, htyp, bind_eq_ok, refuse_eq_ok] at h
  obtain ⟨_, -, _, -, _, -, _, hhandshake, -⟩ := h
  exact hhandshake (by decide)

/-- A message of the flight changes nothing of what a client knows. -/
theorem knows_flight {expect : Client.Expect} {negotiated : Client.Negotiated} {next : Client.State}
    (hflagged : Flagged ring config log negotiated.resumed)
    (h : Client.handleFlightMessage ring entropy client expect negotiated message
      = .ok (reply, next)) : Knows ring config log next := by
  rcases Client.flight_next h with ⟨-, -, -, _, _, _, _, rfl⟩ | ⟨-, -, h⟩
  · exact hflagged
  · obtain ⟨_, connection, -, -, -, rfl, -, -, -, -, hresumed⟩ := Client.finish_inv h
    show Flagged ring config log connection.resumed
    rw [hresumed]
    exact hflagged

theorem knows_handle {before next : Client.State} (hknows : Knows ring config log before)
    (h : Client.handleMessage ring entropy client before message = .ok (reply, next)) :
    Knows ring config log next := by
  cases before with
  | awaitServerHello awaiting => exact hknows.elim
  | inFlight expect negotiated => exact knows_flight hknows h
  | done connection => simp [Client.handleMessage] at h
  | failed => simp [Client.handleMessage] at h

theorem knows_unframe {before next : Client.State} {fragment : Bytes}
    (hknows : Knows ring config log before)
    (h : Client.unframe ring before record = .ok (fragment, next)) : Knows ring config log next := by
  rcases Client.unframe_inv h with ⟨⟨_, rfl⟩, -, -⟩ | ⟨_, _, _, rfl, rfl, -⟩
  · exact hknows.elim
  · exact hknows

/-- A record that carries a ServerHello hands it to a client that waits for one. -/
theorem informed_carried {awaiting : Client.Awaiting} {hello : ServerHello}
    (hcarries : Carries hello record)
    (htold : hello.isHelloRetryRequest = true ∨
      Flagged ring config log (find hello.extensions ExtensionType.preSharedKey).isSome)
    (h : (Client.endpoint ring client).readRecord entropy ⟨.awaitServerHello awaiting, []⟩ record
      = (result, after)) : Informed ring config log after := by
  have hrecord : record = plaintextRecord .handshake 0x0303
      (Message.encode .serverHello hello.encode) := hcarries.record_eq
  obtain ⟨hread, -⟩ := @Endpoint.readRecord_message _ _ _ (Client.endpoint ring client)
    entropy (.awaitServerHello awaiting) record (by simp [Client.endpoint]) hcarries.whole
    (by rw [hrecord]; exact plaintextRecord_carries _ _)
    (Message.of .serverHello hello.encode)
    (hrecord ▸ Client.unframe_clear ring awaiting 0x0303 hcarries.short)
    (@Client.framed_of_short .serverHello rfl _ hcarries.short)
  rw [h] at hread
  cases hhandle : (Client.endpoint ring client).handle entropy (.awaitServerHello awaiting)
      (Message.of .serverHello hello.encode) with
  | error err =>
      rw [hhandle] at hread
      obtain ⟨-, rfl⟩ := Prod.mk.inj hread
      exact .inr trivial
  | ok answer =>
      obtain ⟨reply, next⟩ := answer
      rw [hhandle] at hread
      obtain ⟨-, rfl⟩ := Prod.mk.inj hread
      exact informed_hello hcarries htold hhandle

/-- One record: a client that was told nothing else knows what the server's log says. -/
theorem informed_readRecord (hinformed : Informed ring config log handshake)
    (htold : Told ring config log record)
    (h : (Client.endpoint ring client).readRecord entropy handshake record = (result, after)) :
    Informed ring config log after := by
  rcases hinformed with ⟨awaiting, rfl⟩ | hknows
  · cases htold with
    | changeCipherSpec =>
        obtain ⟨hskip, -⟩ := @Endpoint.readRecord_changeCipherSpec _ _ _
          (Client.endpoint ring client) entropy ⟨.awaitServerHello awaiting, []⟩
          changeCipherSpecRecord (by simp [Client.endpoint]) whole_changeCipherSpecRecord rfl
        obtain ⟨-, rfl⟩ := Prod.mk.inj (hskip.symm.trans h)
        exact .inl ⟨awaiting, rfl⟩
    | sealed houter =>
        rcases Endpoint.readRecord_inv h with ⟨-, hfailed⟩ | ⟨reply, -, hinner⟩
        · right
          rw [hfailed]
          trivial
        · rcases Endpoint.readRecordInner_inv hinner with
            ⟨-, rfl, -⟩ | ⟨fragment, state, hopen, -⟩
          · exact .inl ⟨awaiting, rfl⟩
          · exact absurd hopen (unframe_sealed_clear houter)
    | request hcarries hretry => exact informed_carried hcarries (.inl hretry) h
    | answer hcarries hflagged => exact informed_carried hcarries (.inr hflagged) h
  · have hafter := Endpoint.readRecord_induct (Client.endpoint ring client)
      (P := fun _ state => Knows ring config log state)
      (fun _ _ _ => trivial) (fun _ _ _ _ _ hknows hopen => knows_unframe hknows hopen)
      (fun _ _ _ _ _ _ hknows hhandle => knows_handle hknows hhandle) [] hknows h
    exact .inr hafter

/-! ### Runs -/

/-- One record reaches its end, whatever comes of it there. A handshake that is finished reads no
more. -/
inductive Moves (ring : Ring) (client : Client.ClientConfig) (server : Server.ServerConfig) :
    Network → Network → Prop
  | toServer {network : Network} {record : Bytes} {rest : List Bytes} {entropy : Entropy}
      {result : Except Server.ServerError Bytes} {next : Server.ServerHandshake} :
      network.toServer = record :: rest → network.server.isFinished = false →
      network.server.readRecord ring entropy server record = (result, next) →
      Moves ring client server network { network with
        server := next
        toServer := rest
        toClient := network.toClient ++ sentBy result
        serverLog := network.serverLog ++
          (Server.endpoint ring server).recordSteps entropy network.server record }
  | toClient {network : Network} {record : Bytes} {rest : List Bytes} {entropy : Entropy}
      {result : Except ClientError Bytes} {next : Client.ClientHandshake} :
      network.toClient = record :: rest → network.client.isFinished = false →
      network.client.readRecord ring entropy client record = (result, next) →
      Moves ring client server network { network with
        client := next
        toClient := rest
        toServer := network.toServer ++ sentBy result
        clientLog := network.clientLog ++
          (Client.endpoint ring client).recordSteps entropy network.client record }

theorem Delivers.moves {server : Server.ServerConfig} {network network' : Network}
    (h : Delivers ring client server network network') : Moves ring client server network network' := by
  cases h with
  | toServer hqueue hwaits _ hread _ => exact .toServer hqueue hwaits hread
  | toClient hqueue hwaits _ hread _ => exact .toClient hqueue hwaits hread

theorem Run.moves {server : Server.ServerConfig} {start network : Network} {n : Nat}
    (h : Run ring client server start n network) :
    Relation.ReflTransGen (Moves ring client server) start network := by
  induction h with
  | start => exact .refl
  | step _ hdelivers ih => exact ih.tail hdelivers.moves

/-- Everything the client was told, and has still to be told, is what the server made of it. -/
structure Consistent (ring : Ring) (server : Server.ServerConfig) (network : Network) : Prop where
  kept : Kept ring server network.serverLog network.server.state
  told : ∀ record ∈ network.toClient, Told ring server network.serverLog record
  informed : Informed ring server network.serverLog network.client

/-- The step lemma. -/
theorem Consistent.moves (complete : ring.Complete) {server : Server.ServerConfig}
    {network network' : Network} (h : Consistent ring server network)
    (hmoves : Moves ring client server network network') : Consistent ring server network' := by
  cases hmoves with
  | @toServer record rest entropy result next hqueue _ hread =>
      have hgrows := List.subset_append_left network.serverLog
        ((Server.endpoint ring server).recordSteps entropy network.server record)
      refine ⟨kept_readRecord h.kept hread, ?_, h.informed.mono hgrows⟩
      intro sent hsent
      rcases List.mem_append.mp hsent with hsent | hsent
      · exact (h.told sent hsent).mono hgrows
      · exact (told_sentBy complete hread sent hsent).mono (List.subset_append_right _ _)
  | @toClient record rest entropy result next hqueue _ hread =>
      have hfirst : Told ring server network.serverLog record :=
        h.told record (hqueue ▸ List.mem_cons_self)
      refine ⟨h.kept, ?_, informed_readRecord h.informed hfirst hread⟩
      intro later hlater
      exact h.told later (hqueue ▸ List.mem_cons_of_mem _ hlater)

/-- The run lemma. -/
theorem Consistent.run (complete : ring.Complete) {server : Server.ServerConfig}
    {start network : Network} (h : Consistent ring server start)
    (hrun : Relation.ReflTransGen (Moves ring client server) start network) :
    Consistent ring server network := by
  induction hrun with
  | refl => exact h
  | tail _ hmoves ih => exact ih.moves complete hmoves

theorem consistent_opened {server : Server.ServerConfig} {entropy : Entropy}
    (hstart : Client.start ring entropy client = .ok (handshake, record)) :
    Consistent ring server (opened handshake record) := by
  obtain ⟨_, _, _, _, _, -, -, -, -, rfl, -⟩ := Client.start_inv hstart
  refine ⟨⟨by simp [opened], by simp [opened], by simp [opened], ?_⟩, by simp [opened],
    .inl ⟨_, rfl⟩⟩
  intro connection hdone
  simp [opened, Server.ServerHandshake.new] at hdone

/-- What the two ends of a connection with the sample server say, the client's first, for running
the model. -/
def flagsAfter (client : Client.ClientConfig) (turns : List (Entropy × End)) :
    Option (Bool × Bool) := do
  let (handshake, record) ← (Client.start .sample (.sample 9) client).toOption
  let network ← deliverAll .sample client .sample (opened handshake record) turns
  match network.client.state, network.server.state with
  | .done c, .done s => some (c.resumed, s.resumed)
  | _, _ => none

theorem run_of_flagsAfter {client : Client.ClientConfig} {turns : List (Entropy × End)}
    (hworks : ∀ turn ∈ turns, ∃ seed, turn.1 = .sample seed) {flags : Bool × Bool}
    (h : flagsAfter client turns = some flags) : ∃ handshake record network c s,
      Client.start .sample (.sample 9) client = .ok (handshake, record) ∧
      Relation.ReflTransGen (Moves .sample client .sample) (opened handshake record) network ∧
      network.client.state = .done c ∧ network.server.state = .done s ∧
      (c.resumed, s.resumed) = flags := by
  simp only [flagsAfter, Option.bind_eq_bind, Option.bind_eq_some_iff] at h
  obtain ⟨⟨handshake, record⟩, hstart, network, hdelivered, h⟩ := h
  have hstart' := toOption_eq_some.mp hstart
  have hrun := run_of_deliverAll (fun turn hmem => by
    obtain ⟨seed, hseed⟩ := hworks turn hmem
    rw [hseed]
    exact Entropy.sample_works seed) .start hdelivered
  split at h
  · next c s hclient hserver =>
      exact ⟨handshake, record, network, c, s, hstart', hrun.moves, hclient, hserver,
        Option.some.inj h⟩
  · cases h

/-- The two ends of a connection agree on whether it was resumed exactly when it was not: in every
honest run of any client against any server, whatever either of them is configured with, once both
are done their flags are the same exactly when the server was given no hello that it could resume
from. -/
theorem run_resumed_iff (complete : ring.Complete) {server : Server.ServerConfig} {entropy : Entropy}
    (hstart : Client.start ring entropy client = .ok (handshake, record)) {network : Network}
    (hrun : Relation.ReflTransGen (Moves ring client server) (opened handshake record) network)
    {c s : Connection} (hclient : network.client.state = .done c)
    (hserver : network.server.state = .done s) :
    s.resumed = c.resumed ↔ ∀ step ∈ network.serverLog, ¬ Server.Resumes ring server step := by
  have hconsistent := (consistent_opened hstart).run complete hrun
  have hplain := hconsistent.kept.plain s hserver
  obtain ⟨flight, hflight, hanswers, hflag⟩ : Flagged ring server network.serverLog c.resumed := by
    rcases hconsistent.informed with ⟨awaiting, hwaits⟩ | hknows
    · rw [hwaits] at hclient
      cases hclient
    · rw [hclient] at hknows
      exact hknows
  rw [hplain]
  constructor
  · intro hsame step hstep hresumes
    obtain rfl := hconsistent.kept.once step hstep flight hflight
      (hconsistent.kept.answers step hstep hresumes) hanswers
    exact Bool.false_ne_true (hsame.trans (hflag.mpr hresumes))
  · intro hnone
    have hfalse : c.resumed ≠ true := fun htrue => hnone flight hflight (hflag.mp htrue)
    exact (Bool.eq_false_iff.mpr hfalse).symm

/-- A client without a session: neither end says that it resumed one. -/
theorem run_resumed_iff_sample : ∃ handshake record network c s,
    Client.start .sample (.sample 9) .sample = .ok (handshake, record) ∧
    Relation.ReflTransGen (Moves .sample .sample .sample) (opened handshake record) network ∧
    network.client.state = .done c ∧ network.server.state = .done s ∧ s.resumed = c.resumed ∧
    ∀ step ∈ network.serverLog, ¬ Server.Resumes .sample .sample step := by
  have hflags : flagsAfter .sample [(.sample 10, .server), (.sample 11, .client),
      (.sample 12, .client), (.sample 13, .client), (.sample 14, .server), (.sample 15, .server)]
      = some (false, false) := by decide +kernel
  obtain ⟨handshake, record, network, c, s, hstart, hrun, hclient, hserver, heq⟩ :=
    run_of_flagsAfter (by simp) hflags
  obtain ⟨hc, hs⟩ := Prod.mk.inj heq
  have hsame : s.resumed = c.resumed := hs.trans hc.symm
  exact ⟨handshake, record, network, c, s, hstart, hrun, hclient, hserver, hsame,
    (run_resumed_iff Ring.sample_complete hstart hrun hclient hserver).mp hsame⟩

/-- The retrying client resumes its session, and the server's connection does not say so. -/
theorem run_resumed_differs : ∃ handshake record network c s,
    Client.start .sample (.sample 9) .sampleRetrying = .ok (handshake, record) ∧
    Relation.ReflTransGen (Moves .sample .sampleRetrying .sample) (opened handshake record) network ∧
    network.client.state = .done c ∧ network.server.state = .done s ∧
    c.resumed = true ∧ s.resumed = false := by
  have hflags : flagsAfter .sampleRetrying sampleTurns = some (true, false) := by decide +kernel
  obtain ⟨handshake, record, network, c, s, hstart, hrun, hclient, hserver, heq⟩ :=
    run_of_flagsAfter (by simp [sampleTurns]) hflags
  obtain ⟨hc, hs⟩ := Prod.mk.inj heq
  exact ⟨handshake, record, network, c, s, hstart, hrun, hclient, hserver, hc, hs⟩

end Network

end RustyTls
