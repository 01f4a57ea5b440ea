import RustyTls.ClientSteps
import RustyTls.ServerSteps
import RustyTls.Symbolic

/-!
# RustyTls.Seals

Every call of `Sealer::seal` in the life of an endpoint.

A handler of the handshake calls `seal` at most once, and not at its end: it may still fail, and
a message after it in the same record may be refused, when the record it sealed is never sent.
The log of calls is therefore kept beside the results. A `Handling` is a handler taken apart at
its call, `handling_result` says that put together again it is the handler, and the log is made
of the calls that succeed. On a connection, a write and each requested update call once.

The log grows in order: by generation of the key and, within one, by number. `Standing` is that
invariant, and it is kept by every message of a handshake and every call on the connection.
-/

namespace RustyTls

open Core

/-! ### Calls -/

/-- A call of `seal` that succeeded. -/
structure Seal where
  key : DirectionKey
  seq : UInt64
  deriving Repr, DecidableEq

def Seal.nonce (made : Seal) : Bytes := made.key.nonce made.seq

/-- The call on a sealer, if it succeeds. -/
def Sealer.made (ring : Ring) (sealer : Sealer) (typ : ContentType) (fragment : Bytes) : List Seal :=
  match sealer.sealing ring typ fragment 0 with
  | .ok (_, seq) => [⟨sealer.key, seq⟩]
  | .error _ => []

theorem Sealer.made_cases (ring : Ring) (sealer : Sealer) (typ : ContentType) (fragment : Bytes) :
    (∃ seq record, sealer.seq.next = some seq ∧ sealer.made ring typ fragment = [⟨sealer.key, seq⟩] ∧
      sealer.sealRecord ring typ fragment 0 = (.ok record, { sealer with seq := .advance seq })) ∨
    (sealer.made ring typ fragment = [] ∧
      ∃ err, sealer.sealRecord ring typ fragment 0 = (.error err, sealer)) := by
  cases hsealing : sealer.sealing ring typ fragment 0 with
  | ok out =>
      obtain ⟨record, seq⟩ := out
      have hrecord : sealer.sealRecord ring typ fragment 0
          = (.ok record, { sealer with seq := .advance seq }) := by
        rw [sealRecord, hsealing]
      refine .inl ⟨seq, record, ?_, by rw [made, hsealing], hrecord⟩
      simp only [sealing, bind_eq_ok, okOr_eq_ok, Sequence.peek] at hsealing
      obtain ⟨_, -, _, -, seq', hseq, sealed, -, heq⟩ := hsealing
      obtain ⟨-, rfl⟩ := Prod.mk.inj (Except.ok.inj heq)
      exact hseq
  | error err =>
      exact .inr ⟨by rw [made, hsealing], err, by rw [sealRecord, hsealing]⟩

/-- A handler, up to its call of `seal`. -/
inductive Handling (ε σ : Type)
  /-- It makes none. -/
  | returns (result : Except ε (Bytes × σ))
  /-- It makes one, and goes on with what comes of it. -/
  | seals (sealer : Sealer) (fragment : Bytes)
      (resume : Except RecordError Bytes × Sealer → Except ε (Bytes × σ))

namespace Handling

variable {ε σ α : Type}

/-- A step before the call. -/
def after (first : Except ε α) (rest : α → Handling ε σ) : Handling ε σ :=
  match first with
  | .ok a => rest a
  | .error err => .returns (.error err)

def result (ring : Ring) : Handling ε σ → Except ε (Bytes × σ)
  | .returns result => result
  | .seals sealer fragment resume => resume (sealer.sealRecord ring .handshake fragment 0)

def made (ring : Ring) : Handling ε σ → List Seal
  | .returns _ => []
  | .seals sealer fragment _ => sealer.made ring .handshake fragment

@[simp] theorem returns_result (ring : Ring) (result : Except ε (Bytes × σ)) :
    (Handling.returns result).result ring = result := rfl

@[simp] theorem seals_result (ring : Ring) (sealer : Sealer) (fragment : Bytes)
    (resume : Except RecordError Bytes × Sealer → Except ε (Bytes × σ)) :
    (Handling.seals sealer fragment resume).result ring
      = resume (sealer.sealRecord ring .handshake fragment 0) := rfl

@[simp] theorem after_result (ring : Ring) (first : Except ε α) (rest : α → Handling ε σ) :
    (after first rest).result ring = (first >>= fun a => (rest a).result ring) := by
  cases first <;> rfl

/-- A handler that fails before its call. -/
def Fails (ring : Ring) (handling : Handling ε σ) : Prop :=
  handling.made ring = [] ∧ ∃ err, handling.result ring = .error err

/-- To show that a handler fails or does something, assume that the step before the call
succeeded. -/
theorem after_cases {ring : Ring} {first : Except ε α} {rest : α → Handling ε σ}
    {P : Handling ε σ → Prop} (hfails : ∀ handling, handling.Fails ring → P handling)
    (h : ∀ a, first = .ok a → P (rest a)) : P (after first rest) := by
  cases hfirst : first with
  | ok a => exact h a hfirst
  | error err => exact hfails _ ⟨rfl, err, rfl⟩

end Handling

/-! ### Handlers -/

namespace Client

/-- `finish`, taken apart. -/
def finishHandling (ring : Ring) (entropy : Entropy) (config : ClientConfig)
    (negotiated : Negotiated) (message : Message) : Handling ClientError State :=
  .after (mapErr .handshake (parseFinished message.body)) fun verifyData =>
  .after (refuse (verifyFinished ring negotiated.hash negotiated.serverHandshakeSecret
    (negotiated.transcript.hash ring) verifyData = false) .badFinished) fun _ =>
  let transcript := negotiated.transcript.addMessage message
  let afterServerFinished := transcript.hash ring
  let master := negotiated.schedule.intoMaster ring
  let clientSecret := master.derive ring "c ap traffic" afterServerFinished
  let serverSecret := master.derive ring "s ap traffic" afterServerFinished
  .after (clientAuthentication ring entropy config negotiated transcript) fun authentication =>
  let transcript := transcript.add authentication
  let finished := Message.encode .finished (finishedVerifyData ring negotiated.hash
    negotiated.clientHandshakeSecret (transcript.hash ring))
  let handshakeKeys := trafficKeys ring negotiated.hash negotiated.clientHandshakeSecret
    negotiated.aead.keyLen
  .after (mapErr .record (Sealer.new negotiated.aead handshakeKeys.key handshakeKeys.iv)) fun sealer =>
  .seals sealer (authentication ++ finished) fun out => do
    let sealed ← mapErr .record out.1
    let clientKeys := trafficKeys ring negotiated.hash clientSecret negotiated.aead.keyLen
    let serverKeys := trafficKeys ring negotiated.hash serverSecret negotiated.aead.keyLen
    let resumptionMaster := master.derive ring "res master" ((transcript.add finished).hash ring)
    let sealer ← mapErr .record (Sealer.new negotiated.aead clientKeys.key clientKeys.iv)
    let opener ← mapErr .record (Opener.new negotiated.aead serverKeys.key serverKeys.iv)
    .ok (plaintextRecord .changeCipherSpec 0x0303 [0x01] ++ sealed, .done
      { aead := negotiated.aead, hash := negotiated.hash, suite := negotiated.suite, sealer, opener
        clientSecret, serverSecret, certificates := negotiated.certificates
        resumed := negotiated.resumed, resumptionMaster })

/-- A client's handler of one message. Only `finish` seals. -/
def handling (ring : Ring) (config : ClientConfig) (entropy : Entropy) (state : State)
    (message : Message) : Handling ClientError State :=
  match state with
  | .inFlight .finished negotiated =>
      if message.typ = .finished then
        finishHandling ring entropy config negotiated message
      else
        .returns (handleMessage ring entropy config state message)
  | _ => .returns (handleMessage ring entropy config state message)

theorem finishHandling_result (ring : Ring) (entropy : Entropy) (config : ClientConfig)
    (negotiated : Negotiated) (message : Message) :
    (finishHandling ring entropy config negotiated message).result ring
      = finish ring entropy config negotiated message := by
  simp only [finishHandling, Handling.after_result, Handling.seals_result]
  rfl

theorem handling_result (ring : Ring) (config : ClientConfig) (entropy : Entropy) (state : State)
    (message : Message) :
    (handling ring config entropy state message).result ring
      = (endpoint ring config).handle entropy state message := by
  unfold handling
  split
  · next negotiated =>
      split
      · next htyp =>
          rw [finishHandling_result]
          simp [endpoint, handleMessage, handleFlightMessage, htyp]
      · rfl
  · rfl

end Client

namespace Server

/-- `complete`, taken apart. -/
def completeHandling (ring : Ring) (entropy : Entropy) (config : ServerConfig)
    (transcriptHead : Bytes) (hello : ClientHello) (selected : Selected)
    (sendChangeCipherSpec : Bool) : Handling ServerError State :=
  let hash := selected.hash
  .after (mapErr .kx (KeyExchange.generate ring entropy selected.group)) fun kx =>
  .after (randomBytes entropy 0 32) fun random =>
  let serverHello := Message.encode .serverHello
    (ServerHello.encode ⟨random, hello.sessionId, selected.suite.code,
      helloExtensions kx selected.psk⟩)
  let transcript := ((Transcript.new hash).add transcriptHead).add serverHello
  let helloHash := transcript.hash ring
  .after (mapErr .kx (kx.agree ring selected.peerKey)) fun secret =>
  let schedule := (earlySchedule ring hash selected.psk).intoHandshake ring secret
  let clientHandshakeSecret := schedule.derive ring "c hs traffic" helloHash
  let serverHandshakeSecret := schedule.derive ring "s hs traffic" helloHash
  let serverKeys := trafficKeys ring hash serverHandshakeSecret selected.aead.keyLen
  .after (mapErr .record (Sealer.new selected.aead serverKeys.key serverKeys.iv)) fun sealer =>
  let asks := asksForCertificate config selected.psk
  let opening := encryptedExtensions ++ (if asks then certificateRequest else [])
  .after (serverAuthentication ring entropy config selected.scheme selected.psk
    (transcript.add opening)) fun authentication =>
  let transcript := (transcript.add opening).add authentication
  let finished := Message.encode .finished (finishedVerifyData ring hash serverHandshakeSecret
    (transcript.hash ring))
  let transcript := transcript.add finished
  let afterServerFinished := transcript.hash ring
  let master := schedule.intoMaster ring
  let clientKeys := trafficKeys ring hash clientHandshakeSecret selected.aead.keyLen
  .after (mapErr .record (Opener.new selected.aead clientKeys.key clientKeys.iv)) fun opener =>
  .seals sealer (opening ++ authentication ++ finished) fun out => do
    let flight ← mapErr .record out.1
    .ok (plaintextRecord .handshake serverHello ++
        (if sendChangeCipherSpec then plaintextRecord .changeCipherSpec [0x01] else []) ++ flight,
      .awaitFinished
        { aead := selected.aead, hash, suite := selected.suite, transcript, clientHandshakeSecret
          opener, master
          clientApplicationSecret := master.derive ring "c ap traffic" afterServerFinished
          serverApplicationSecret := master.derive ring "s ap traffic" afterServerFinished
          expect := if asks then .certificate else .finished
          clientCertificates := (selected.psk.map (·.clientCertificates)).getD []
          clientCertificateTranscript := [] })

theorem completeHandling_result (ring : Ring) (entropy : Entropy) (config : ServerConfig)
    (head : Bytes) (hello : ClientHello) (selected : Selected) (ccs : Bool) :
    (completeHandling ring entropy config head hello selected ccs).result ring
      = complete ring entropy config head hello selected ccs := by
  simp only [completeHandling, Handling.after_result, Handling.seals_result]
  rfl

/-- `hello`, taken apart. -/
def helloHandling (ring : Ring) (entropy : Entropy) (config : ServerConfig) (message : Message) :
    Handling ServerError State :=
  .after (refuse (message.typ ≠ .clientHello) (.unexpectedMessage "ClientHello" message.typ)) fun _ =>
  .after (mapErr .handshake (ClientHello.parse message.body)) fun hello =>
  .after (checkVersion hello) fun _ =>
  .after (okOr (config.cipherSuites.find? fun suite => hello.cipherSuites.contains suite.code)
    ServerError.noSharedCipherSuite) fun suite =>
  .after (okOr suite.parts ServerError.noSharedCipherSuite) fun parts =>
  .after (selectScheme config hello) fun scheme =>
  .after (offeredShares hello) fun shares =>
  match chooseShare config shares with
  | none => .returns (retry ring config message hello suite parts.1 parts.2)
  | some (group, peerKey) =>
      .after (acceptPsk ring config hello message.encoded [] suite parts.2) fun psk =>
      completeHandling ring entropy config message.encoded hello
        { suite, aead := parts.1, hash := parts.2, scheme, group, peerKey, psk } true

theorem helloHandling_result (ring : Ring) (entropy : Entropy) (config : ServerConfig)
    (message : Message) :
    (helloHandling ring entropy config message).result ring
      = handleHello ring entropy config message := by
  simp only [helloHandling, handleHello, Handling.after_result]
  congr 1; funext _
  congr 1; funext hello
  congr 1; funext _
  congr 1; funext suite
  congr 1; funext parts
  congr 1; funext scheme
  congr 1; funext shares
  cases chooseShare config shares with
  | none => rfl
  | some chosen => simp only [Handling.after_result, completeHandling_result]

/-- `retried_hello`, taken apart. -/
def retriedHandling (ring : Ring) (entropy : Entropy) (config : ServerConfig)
    (retrying : Retrying) (message : Message) : Handling ServerError State :=
  .after (refuse (message.typ ≠ .clientHello) (.unexpectedMessage "ClientHello" message.typ)) fun _ =>
  .after (mapErr .handshake (ClientHello.parse message.body)) fun hello =>
  .after (refuse (hello.random ≠ retrying.random ∨ hello.sessionId ≠ retrying.sessionId)
    .retriedHelloChangedIdentity) fun _ =>
  .after (checkVersion hello) fun _ =>
  .after (refuse (retrying.suite.code ∉ hello.cipherSuites) .retriedHelloChangedIdentity) fun _ =>
  .after (selectScheme config hello) fun scheme =>
  .after (okOr (find hello.extensions ExtensionType.keyShare)
    (ServerError.retriedHelloStillHasNoShare retrying.group)) fun shares =>
  .after (mapErr .handshake (clientKeyShares shares)) fun shares =>
  .after (okOr (shareFor shares retrying.group)
    (ServerError.retriedHelloStillHasNoShare retrying.group)) fun peerKey =>
  .after (acceptPsk ring config hello message.encoded retrying.transcriptHead retrying.suite
    retrying.hash) fun psk =>
  completeHandling ring entropy config (retrying.transcriptHead ++ message.encoded) hello
    { suite := retrying.suite, aead := retrying.aead, hash := retrying.hash, scheme
      group := retrying.group, peerKey, psk } false

theorem retriedHandling_result (ring : Ring) (entropy : Entropy) (config : ServerConfig)
    (retrying : Retrying) (message : Message) :
    (retriedHandling ring entropy config retrying message).result ring
      = retriedHello ring entropy config retrying message := by
  simp only [retriedHandling, retriedHello, Handling.after_result, completeHandling_result]

/-- The flight of tickets, if there is one. -/
def ticketFlight (ring : Ring) (entropy : Entropy) (config : ServerConfig)
    (negotiated : Negotiated) : Except ServerError (Option Bytes) :=
  match config.tickets with
  | none => .ok none
  | some tickets =>
      if tickets.count = 0 then
        .ok none
      else do
        let resumptionMaster := negotiated.master.derive ring "res master"
          (negotiated.transcript.hash ring)
        let flight ← issueLoop ring entropy config tickets negotiated resumptionMaster
          tickets.count 0
        .ok (some flight)

theorem issueTickets_eq (ring : Ring) (entropy : Entropy) (config : ServerConfig)
    (negotiated : Negotiated) (sealer : Sealer) :
    issueTickets ring entropy config negotiated sealer =
      (ticketFlight ring entropy config negotiated >>= fun flight =>
        match flight with
        | none => .ok ([], sealer)
        | some flight => mapErr .record (sealer.sealRecord ring .handshake flight 0).1 >>= fun record =>
            .ok (record, (sealer.sealRecord ring .handshake flight 0).2)) := by
  cases htickets : config.tickets with
  | none => simp [issueTickets, ticketFlight, htickets]
  | some tickets =>
      by_cases hcount : tickets.count = 0
      · simp [issueTickets, ticketFlight, htickets, hcount]
      · simp only [issueTickets, ticketFlight, htickets, if_neg hcount, bind_assoc, ok_bind]

/-- `finished`, taken apart. -/
def finishedHandling (ring : Ring) (entropy : Entropy) (config : ServerConfig)
    (negotiated : Negotiated) (message : Message) : Handling ServerError State :=
  .after (mapErr .handshake (parseFinished message.body)) fun verifyData =>
  .after (refuse (verifyFinished ring negotiated.hash negotiated.clientHandshakeSecret
    (negotiated.transcript.hash ring) verifyData = false) .badFinished) fun _ =>
  let clientKeys := trafficKeys ring negotiated.hash negotiated.clientApplicationSecret
    negotiated.aead.keyLen
  let serverKeys := trafficKeys ring negotiated.hash negotiated.serverApplicationSecret
    negotiated.aead.keyLen
  .after (mapErr .record (Sealer.new negotiated.aead serverKeys.key serverKeys.iv)) fun sealer =>
  let negotiated := { negotiated with transcript := negotiated.transcript.addMessage message }
  let established := fun (out : Bytes) (sealer : Sealer) => do
    let opener ← mapErr .record (Opener.new negotiated.aead clientKeys.key clientKeys.iv)
    .ok (out, .done (Connection.fromParts negotiated.aead negotiated.hash negotiated.suite sealer
      opener negotiated.serverApplicationSecret negotiated.clientApplicationSecret
      negotiated.clientCertificates))
  .after (ticketFlight ring entropy config negotiated) fun flight =>
  match flight with
  | none => .returns (established [] sealer)
  | some flight => .seals sealer flight fun out => do
      let record ← mapErr .record out.1
      established record out.2

theorem finishedHandling_result (ring : Ring) (entropy : Entropy) (config : ServerConfig)
    (negotiated : Negotiated) (message : Message) :
    (finishedHandling ring entropy config negotiated message).result ring
      = handleFinished ring entropy config negotiated message := by
  simp only [finishedHandling, handleFinished, Handling.after_result, issueTickets_eq, bind_assoc]
  congr 1; funext verifyData
  congr 1; funext _
  congr 1; funext sealer
  congr 1; funext flight
  cases flight with
  | none => rfl
  | some flight => simp only [Handling.seals_result, bind_assoc, ok_bind]

/-- A server's handler of one message. -/
def handling (ring : Ring) (config : ServerConfig) (entropy : Entropy) (state : State)
    (message : Message) : Handling ServerError State :=
  match state with
  | .awaitClientHello => helloHandling ring entropy config message
  | .awaitRetriedClientHello retrying => retriedHandling ring entropy config retrying message
  | .awaitFinished negotiated =>
      if (negotiated.expect = .finished ∨ negotiated.expect = .finishedAfterEmptyCertificate) ∧
          message.typ = .finished then
        finishedHandling ring entropy config negotiated message
      else
        .returns (handle ring entropy config state message)
  | _ => .returns (handle ring entropy config state message)

theorem handling_result (ring : Ring) (config : ServerConfig) (entropy : Entropy) (state : State)
    (message : Message) :
    (handling ring config entropy state message).result ring
      = (endpoint ring config).handle entropy state message := by
  unfold handling
  split
  · rw [helloHandling_result]
    rfl
  · rw [retriedHandling_result]
    rfl
  · next negotiated =>
      split
      · next hfinished =>
          obtain ⟨hexpect, htyp⟩ := hfinished
          rw [finishedHandling_result]
          rcases hexpect with hexpect | hexpect <;>
            simp [endpoint, handle, clientFlight, hexpect, htyp]
      · rfl
  · rfl

end Server

/-! ### Handshakes -/

namespace Endpoint

variable {ε σ : Type}

/-- The calls made while messages are handled, up to the first that is refused. -/
def sealsOf (ring : Ring) (handling : σ → Message → Handling ε σ) : σ → List Message → List Seal
  | _, [] => []
  | s, m :: ms => (handling s m).made ring ++
      match (handling s m).result ring with
      | .ok (_, s') => sealsOf ring handling s' ms
      | .error _ => []

variable [DecidableEq σ] (ring : Ring) (endpoint : Endpoint ε σ)
  (handling : Entropy → σ → Message → Handling ε σ)

/-- The calls made while a record is read. -/
def recordSeals (entropy : Entropy) (handshake : Reassembling σ) (record : Bytes) : List Seal :=
  if handshake.state = endpoint.failed ∨ record.length < headerLen ∨
      record.headD 0 = changeCipherSpec then
    []
  else
    match endpoint.unframe handshake.state record with
    | .ok (fragment, state) =>
        sealsOf ring (handling entropy) state (wholeMessages (handshake.buffer ++ fragment))
    | .error _ => []

/-- The calls made in a run. -/
def runSeals : Reassembling σ → List (Entropy × Bytes) → List Seal
  | _, [] => []
  | handshake, (entropy, record) :: rest =>
      recordSeals ring endpoint handling entropy handshake record ++
        runSeals (endpoint.readRecord entropy handshake record).2 rest

/-- The state a result leaves behind. -/
def left (result : Except ε (Bytes × σ)) : σ :=
  match result with
  | .ok (_, state) => state
  | .error _ => endpoint.failed

/-- What a handler leaves, with its call in the log. -/
def Leaves (P : List Seal → σ → Prop) (log : List Seal) (handling : Handling ε σ) : Prop :=
  P (log ++ handling.made ring) (endpoint.left (handling.result ring))

section Leaves

variable {ring endpoint} {P : List Seal → σ → Prop} {log : List Seal}

omit [DecidableEq σ] in
theorem leaves_fails (hfailed : P log endpoint.failed) (handling : Handling ε σ)
    (h : handling.Fails ring) : endpoint.Leaves ring P log handling := by
  obtain ⟨hmade, err, hresult⟩ := h
  rw [Leaves, hmade, hresult, List.append_nil]
  exact hfailed

omit [DecidableEq σ] in
theorem leaves_returns (hfailed : P log endpoint.failed) {result : Except ε (Bytes × σ)}
    (h : ∀ reply next, result = .ok (reply, next) → P log next) :
    endpoint.Leaves ring P log (.returns result) := by
  rw [Leaves, Handling.made, List.append_nil, Handling.returns_result]
  cases hresult : result with
  | ok out => exact h out.1 out.2 hresult
  | error err => exact hfailed

omit [DecidableEq σ] in
/-- A handler at its call: it goes on with the record, or fails. -/
theorem leaves_seals (hfailed : P log endpoint.failed) {sealer : Sealer} {fragment : Bytes}
    {resume : Except RecordError Bytes × Sealer → Except ε (Bytes × σ)}
    (herror : ∀ err, ∃ err', resume (.error err, sealer) = .error err')
    (hok : ∀ seq record, sealer.seq.next = some seq → P (log ++ [⟨sealer.key, seq⟩])
      (endpoint.left (resume (.ok record, { sealer with seq := .advance seq })))) :
    endpoint.Leaves ring P log (.seals sealer fragment resume) := by
  rw [Leaves, Handling.made, Handling.seals_result]
  rcases sealer.made_cases ring .handshake fragment with
    ⟨seq, record, hseq, hmade, hseal⟩ | ⟨hmade, err, hseal⟩
  · rw [hmade, hseal]
    exact hok seq record hseq
  · obtain ⟨err', hresume⟩ := herror err
    rw [hmade, hseal, hresume, List.append_nil]
    exact hfailed

end Leaves

section Induct

variable {ring endpoint handling} {P : List Seal → σ → Prop}
  (hresult : ∀ entropy s m, (handling entropy s m).result ring = endpoint.handle entropy s m)
  (hfailed : ∀ log s, P log s → P log endpoint.failed)
  (hunframe : ∀ log s record fragment s', P log s →
    endpoint.unframe s record = .ok (fragment, s') → P log s')
  (hhandle : ∀ entropy log s m, P log s → endpoint.Leaves ring P log (handling entropy s m))

omit [DecidableEq σ] in
include hresult hhandle in
theorem sealsOf_induct (entropy : Entropy) (ms : List Message) : ∀ {log : List Seal} {s : σ},
    P log s → P (log ++ sealsOf ring (handling entropy) s ms)
      (endpoint.left (handleAll (endpoint.handle entropy) s ms)) := by
  induction ms with
  | nil =>
      intro log s hP
      simpa [sealsOf, left] using hP
  | cons m ms ih =>
      intro log s hP
      have hstep := hhandle entropy log s m hP
      rw [Leaves, hresult] at hstep
      rw [sealsOf, handleAll_cons, hresult]
      cases hhandles : endpoint.handle entropy s m with
      | error err =>
          rw [hhandles] at hstep
          simpa [left] using hstep
      | ok out =>
          obtain ⟨reply, s'⟩ := out
          rw [hhandles] at hstep
          have hrest := ih hstep
          simp only [ok_bind]
          rw [← List.append_assoc]
          cases hall : handleAll (endpoint.handle entropy) s' ms with
          | error err => simpa [left, hall] using hrest
          | ok out => simpa [left, hall] using hrest

include hresult hfailed hunframe hhandle in
theorem recordSeals_induct (entropy : Entropy) {handshake : Reassembling σ} (record : Bytes)
    {log : List Seal} (hP : P log handshake.state) :
    P (log ++ recordSeals ring endpoint handling entropy handshake record)
      (endpoint.readRecord entropy handshake record).2.state := by
  rw [recordSeals, readRecord]
  by_cases hstate : handshake.state = endpoint.failed
  · simpa [hstate] using hP
  rw [if_neg hstate]
  by_cases hlen : record.length < headerLen
  · simpa [readRecordInner, hlen] using hfailed _ _ hP
  by_cases hccs : record.headD 0 = changeCipherSpec
  · have hinner : endpoint.readRecordInner entropy handshake record = .ok ([], handshake) := by
      rw [readRecordInner, if_neg hlen, if_pos hccs]
    rw [hinner, if_pos (.inr (.inr hccs)), List.append_nil]
    exact hP
  rw [if_neg (by simp only [hstate, hlen, hccs, or_self, not_false_eq_true])]
  cases hunframes : endpoint.unframe handshake.state record with
  | error err =>
      simp only [readRecordInner, if_neg hlen, if_neg hccs, hunframes, error_bind, List.append_nil]
      exact hfailed _ _ hP
  | ok out =>
      obtain ⟨fragment, state⟩ := out
      have hall := sealsOf_induct hresult hhandle entropy
        (wholeMessages (handshake.buffer ++ fragment)) (hunframe _ _ _ _ _ hP hunframes)
      simp only [readRecordInner, if_neg hlen, if_neg hccs, hunframes, ok_bind, drain_eq]
      cases hhandles : handleAll (endpoint.handle entropy) state
          (wholeMessages (handshake.buffer ++ fragment)) with
      | error err =>
          rw [hhandles] at hall
          exact hall
      | ok out =>
          rw [hhandles] at hall
          exact hall

include hresult hfailed hunframe hhandle in
/-- The invariant rule for the calls of a run: what survives a failure and the opener's moves
and is kept by every message, refused or not, holds after every run. -/
theorem runSeals_induct : ∀ (inputs : List (Entropy × Bytes)) (handshake : Reassembling σ)
    (log : List Seal), P log handshake.state →
      P (log ++ runSeals ring endpoint handling handshake inputs)
        (endpoint.run handshake inputs).state := by
  intro inputs
  induction inputs with
  | nil =>
      intro handshake log hP
      simpa [runSeals, run] using hP
  | cons input rest ih =>
      intro handshake log hP
      obtain ⟨entropy, record⟩ := input
      have hrecord := recordSeals_induct hresult hfailed hunframe hhandle entropy record hP
      have hrest := ih _ _ hrecord
      rw [runSeals, ← List.append_assoc]
      exact hrest

end Induct

end Endpoint

/-! ### Connections -/

namespace Connection

/-- A call on a connection. -/
inductive Call
  | write (data : Bytes)
  | read (record : Bytes)
  deriving Repr, DecidableEq

/-- The connection after a call. -/
def afterCall (ring : Ring) (connection : Connection) : Call → Connection
  | .write data => (connection.write ring data).2
  | .read record => (connection.read ring record).2

/-- The calls of `seal` for one post-handshake message. -/
def messageSeals (ring : Ring) (connection : Connection) (m : Message) : List Seal :=
  if m.typ = .keyUpdate then
    match connection.rekeyReceiving ring with
    | (.error _, _) => []
    | (.ok (), connection) =>
        if m.body = [0x01] then
          connection.sealer.made ring .handshake (Message.encode .keyUpdate [0x00])
        else
          []
  else
    []

/-- Those for the messages of a fragment, up to the first that is refused. -/
def loopSeals (ring : Ring) : Connection → List Message → List Seal
  | _, [] => []
  | connection, m :: ms => connection.messageSeals ring m ++
      match connection.postHandshakeMessage ring m with
      | (.ok _, connection) => loopSeals ring connection ms
      | (.error _, _) => []

/-- Those of one call. -/
def callSeals (ring : Ring) (connection : Connection) : Call → List Seal
  | .write data => connection.sealer.made ring .applicationData data
  | .read record =>
      if record.head? = some changeCipherSpec then
        []
      else
        match connection.opener.openRecord ring record with
        | (.ok ⟨.handshake, fragment⟩, opener) =>
            { connection with opener }.loopSeals ring (wholeMessages fragment)
        | _ => []

/-- Those of a series of calls. -/
def callsSeals (ring : Ring) : Connection → List Call → List Seal
  | _, [] => []
  | connection, call :: calls =>
      connection.callSeals ring call ++ callsSeals ring (connection.afterCall ring call) calls

end Connection

end RustyTls
