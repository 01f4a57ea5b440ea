import RustyTls.Network
import RustyTls.Resumption

/-!
# RustyTls.Agreement

Honest runs of the two handshakes against each other.

A run is at one of a few `Stage`s, each named for what was done last; change_cipher_spec records
may stand anywhere in the queues and change nothing, so the stages leave them out (`stripped`).
Each record that carries messages brings the run to a later stage (`Advances`), and no stage is
without one, so a run with nothing left to deliver has ended with the two ends in agreement.
-/

namespace RustyTls

open Core

namespace Network

variable {ring : Ring} {client : Client.ClientConfig} {server : Server.ServerConfig}

/-! ### Agreement -/

/-- The two ends are done and agree: on the suite, on the key of each direction, on every
transcript that was hashed, in the order in which it was, and on whether the session that the
client offered is resumed, which it is exactly when the server can. -/
structure Agreed (ring : Ring) (client : Client.ClientConfig) (server : Server.ServerConfig)
    (network : Network) (c s : Connection) (flight : Endpoint.Taken Server.State)
    (before after : List (Endpoint.Taken Server.State)) (head : Bytes) (hello : ClientHello)
    (selected : Server.Selected) (draw : Server.FlightDraw) (negotiated : Server.Negotiated) :
    Prop where
  clientDone : network.client.state = .done c
  serverDone : network.server.state = .done s
  suite : c.cipherSuite = s.cipherSuite
  clientToServer : c.sealer.key = s.opener.key
  serverToClient : s.sealer.key = c.opener.key
  log : network.serverLog = before ++ flight :: after
  flies : Server.Flies ring server flight head hello selected draw negotiated
  transcripts : network.clientLog.flatMap (Client.hashed ring client)
    = before.flatMap Server.hashed ++ draw.transcripts ring server head hello selected ++
      after.flatMap Server.hashed
  resumed : c.resumed = selected.psk.isSome
  accepted : selected.psk.isSome = true ↔ Server.Resumable ring client server s.cipherSuite

/-! ### Stages -/

/-- How far an honest run has come, without the change_cipher_spec records on their way, and how
many records at most are still to be sent. -/
inductive Stage (lawful : ring.Lawful) (client : Client.ClientConfig)
    (server : Server.ServerConfig) : Network → Nat → Prop
  | offered {awaiting : Client.Awaiting} {encoded binder : Bytes} :
      Client.Offers ring client awaiting [] encoded binder → awaiting.retried = false →
      Stage lawful client server ⟨⟨.awaitServerHello awaiting, []⟩, ⟨.awaitClientHello, []⟩,
        [plaintextRecord .handshake 0x0301 encoded], [], [], []⟩ 7
  | asked {awaiting : Client.Awaiting} {encoded binder : Bytes} {retrying : Server.Retrying}
      {before : List (Endpoint.Taken Server.State)} :
      Client.Offers ring client awaiting [] encoded binder → awaiting.retried = false →
      Server.Remembers ring client awaiting encoded retrying →
      before.flatMap Server.hashed = [] →
      Stage lawful client server ⟨⟨.awaitServerHello awaiting, []⟩,
        ⟨.awaitRetriedClientHello retrying, []⟩, [],
        [Server.plaintextRecord .handshake (Message.encode .serverHello
          (Server.retryRequest awaiting.sessionId retrying.suite retrying.group).encode)],
        [], before⟩ 5
  | offeredAgain {awaiting : Client.Awaiting} {first encoded binder : Bytes}
      {retrying : Server.Retrying} {log : List (Endpoint.Taken Client.State)}
      {before : List (Endpoint.Taken Server.State)} :
      Client.Offers ring client awaiting retrying.transcriptHead encoded binder →
      Server.Remembers ring client awaiting first retrying →
      awaiting.kx.group = retrying.group →
      log.flatMap (Client.hashed ring client) = [] → before.flatMap Server.hashed = [] →
      Stage lawful client server ⟨⟨.awaitServerHello awaiting, []⟩,
        ⟨.awaitRetriedClientHello retrying, []⟩, [plaintextRecord .handshake 0x0303 encoded], [],
        log, before⟩ 4
  | answered {awaiting : Client.Awaiting} {log : List (Endpoint.Taken Client.State)}
      {before : List (Endpoint.Taken Server.State)} {flight : Endpoint.Taken Server.State}
      {head : Bytes} {hello : ClientHello} {selected : Server.Selected}
      {draw : Server.FlightDraw} {negotiated : Server.Negotiated} {record : Bytes} :
      Flight lawful client server awaiting flight head hello selected draw negotiated record →
      log.flatMap (Client.hashed ring client) = [] → before.flatMap Server.hashed = [] →
      Stage lawful client server ⟨⟨.awaitServerHello awaiting, []⟩, ⟨.awaitFinished negotiated, []⟩,
        [], [Server.plaintextRecord .handshake (draw.serverHello hello selected), record], log,
        before ++ [flight]⟩ 2
  | reading {awaiting : Client.Awaiting} {received : Client.Negotiated}
      {log : List (Endpoint.Taken Client.State)} {before : List (Endpoint.Taken Server.State)}
      {flight : Endpoint.Taken Server.State} {head : Bytes} {hello : ClientHello}
      {selected : Server.Selected} {draw : Server.FlightDraw} {negotiated : Server.Negotiated}
      {record : Bytes} :
      Flight lawful client server awaiting flight head hello selected draw negotiated record →
      Client.InStep ring head hello selected draw received →
      received.transcript = ⟨selected.hash, draw.hellos head hello selected⟩ →
      received.certificateRequest = none →
      received.opener = ⟨directionKey lawful selected.hash
        (draw.serverSecret ring head hello selected) selected.aead, .startingAt 0⟩ →
      log.flatMap (Client.hashed ring client) = [received.transcript] →
      before.flatMap Server.hashed = [] →
      Stage lawful client server ⟨⟨.inFlight .encryptedExtensions received, []⟩,
        ⟨.awaitFinished negotiated, []⟩, [], [record], log, before ++ [flight]⟩ 2
  | replied {awaiting : Client.Awaiting} {toClient : List Bytes} {c : Connection}
      {log : List (Endpoint.Taken Client.State)} {before : List (Endpoint.Taken Server.State)}
      {flight : Endpoint.Taken Server.State} {head : Bytes} {hello : ClientHello}
      {selected : Server.Selected} {draw : Server.FlightDraw} {negotiated : Server.Negotiated}
      {record reply : Bytes} {request : Option CertificateRequestMessage}
      {answer : List Message} :
      Flight lawful client server awaiting flight head hello selected draw negotiated record →
      Replies lawful client server head hello selected draw request answer reply c →
      log.flatMap (Client.hashed ring client)
        = [⟨selected.hash, draw.hellos head hello selected⟩] ++
          Client.handshakeTranscripts ring server head hello selected draw answer →
      before.flatMap Server.hashed = [] →
      Stage lawful client server ⟨⟨.done c, []⟩, ⟨.awaitFinished negotiated, []⟩, [reply],
        toClient, log, before ++ [flight]⟩ 0

/-! ### One delivery -/

/-- The two ends are done and agree. -/
def Agrees (ring : Ring) (client : Client.ClientConfig) (server : Server.ServerConfig)
    (network : Network) : Prop :=
  ∃ c s flight before after head hello selected draw negotiated,
    Agreed ring client server network c s flight before after head hello selected draw negotiated

/-- A delivery has brought the run on, with `sent` records of the `k` that were still to come. -/
def Advances (lawful : ring.Lawful) (client : Client.ClientConfig) (server : Server.ServerConfig)
    (network : Network) (sent k : Nat) : Prop :=
  (∃ k', Stage lawful client server network k' ∧ sent + k' ≤ k) ∨ Agrees ring client server network

/-- The network once the server has read a record. -/
def serverReads (ring : Ring) (server : Server.ServerConfig) (network : Network)
    (entropy : Entropy) (record : Bytes) : Network :=
  let result := (Server.endpoint ring server).readRecord entropy network.server record
  { network with
    server := result.2
    toServer := network.toServer.tail
    toClient := network.toClient ++ carried (sentBy result.1)
    serverLog := network.serverLog ++
      (Server.endpoint ring server).recordSteps entropy network.server record }

section Server

variable {entropy : Entropy} {awaiting : Client.Awaiting} {front encoded binder : Bytes}

/-- A hello that is completed brings the run to the server's flight. -/
theorem advances_completed (complete : ring.Complete) (hcompat : Compatible ring client server)
    (hworks : entropy.Works ring)
    (hoffers : Client.Offers ring client awaiting front encoded binder)
    {selected : Server.Selected} (hchosen : Server.Chosen ring client server awaiting selected)
    {state : Server.State} (hclear : state.InClear) (hfront : state.transcriptHead = front)
    {ccs : Bool} (hhandle : Server.handle ring entropy server state
        (Message.of .clientHello (awaiting.hello client binder).encode)
      = Server.complete ring entropy server awaiting.clientHello (awaiting.hello client binder)
          selected ccs) (version : UInt16)
    (hfits : ¬ Server.TooLong ((Server.endpoint ring server).readRecord entropy ⟨state, []⟩
      (plaintextRecord .handshake version encoded)).1)
    {log : List (Endpoint.Taken Client.State)} (hlog : log.flatMap (Client.hashed ring client) = [])
    {before : List (Endpoint.Taken Server.State)} (hbefore : before.flatMap Server.hashed = [])
    {k : Nat} (hk : (if ccs then 5 else 4) ≤ k) :
    Advances complete.toLawful client server (serverReads ring server
        ⟨⟨.awaitServerHello awaiting, []⟩, ⟨state, []⟩, [plaintextRecord .handshake version encoded],
          [], log, before⟩ entropy (plaintextRecord .handshake version encoded))
      (sentBy ((Server.endpoint ring server).readRecord entropy ⟨state, []⟩
        (plaintextRecord .handshake version encoded)).1).length k := by
  obtain ⟨hread, hsteps⟩ := @Server.readRecord_hello ring client server entropy awaiting front
    encoded binder state hclear hoffers version
  rw [hhandle] at hread
  rw [hread] at hfits
  obtain ⟨reply, draw, negotiated, record, hcomplete, hreply, hflight⟩ :=
    Server.complete_flight complete hcompat hworks hoffers hchosen hfront
      (Server.tooLong_readResult rfl hfits)
  rw [hcomplete] at hread
  have hread' : (Server.endpoint ring server).readRecord entropy ⟨state, []⟩
      (plaintextRecord .handshake version encoded)
      = (.ok reply, ⟨.awaitFinished negotiated, []⟩) := hread
  rw [Endpoint.stepsOf, hhandle, hcomplete] at hsteps
  have hcompleted := hflight.flies.completed
  have hhello : Whole (Server.plaintextRecord .handshake
      (draw.serverHello (awaiting.hello client binder) selected)) := by
    obtain ⟨hkxGroup, hkxPublic⟩ := KeyExchange.generate_inv hcompleted.kx
    refine whole_plaintextRecord _ _ (ServerHello.encode_short
      (entropy.fill_length _ _ _ hcompleted.random) hoffers.sessionId_short ?_)
    exact (Client.helloExtensions_fit (complete.publicKey_length _ _ _ hkxPublic) selected.psk).2
  obtain ⟨hcarried, hlength⟩ := @sentBy_flight Server.ServerError _ _ hhello
    (plaintextRecord_carries _ _) hflight.sealed.whole (sealed_carries hflight.sealed) ccs
  have hrecords : carried (sentBy (.ok reply : Except Server.ServerError Bytes))
      = [Server.plaintextRecord .handshake
          (draw.serverHello (awaiting.hello client binder) selected), record] := by
    rw [hreply]
    exact hcarried
  have hcount : (sentBy (.ok reply : Except Server.ServerError Bytes)).length
      = if ccs then 3 else 2 := by
    rw [hreply]
    exact hlength
  left
  refine ⟨2, ?_, ?_⟩
  · have hstage := Stage.answered hflight hlog hbefore
    simp only [serverReads, hread', hsteps, hrecords, Endpoint.stepsOf]
    exact hstage
  · rw [hread', hcount]
    cases ccs <;> simp at hk ⊢ <;> omega

/-- The first hello is answered with a flight, or with a request for another. -/
theorem advances_offered (complete : ring.Complete) (hcompat : Compatible ring client server)
    (hworks : entropy.Works ring) (hoffers : Client.Offers ring client awaiting [] encoded binder)
    (hfirst : awaiting.retried = false)
    (hfits : ¬ Server.TooLong ((Server.endpoint ring server).readRecord entropy
      ⟨.awaitClientHello, []⟩ (plaintextRecord .handshake 0x0301 encoded)).1) :
    Advances complete.toLawful client server (serverReads ring server
        ⟨⟨.awaitServerHello awaiting, []⟩, ⟨.awaitClientHello, []⟩,
          [plaintextRecord .handshake 0x0301 encoded], [], [], []⟩ entropy
        (plaintextRecord .handshake 0x0301 encoded))
      (sentBy ((Server.endpoint ring server).readRecord entropy
        ⟨.awaitClientHello, []⟩ (plaintextRecord .handshake 0x0301 encoded)).1).length 7 := by
  rcases Server.handleHello_offered complete hcompat hoffers entropy with
    ⟨suite, aead, hash, hoffered, hparts, -, hhandle⟩ | ⟨selected, hchosen, hhandle⟩
  · obtain ⟨retrying, hremembers, hretry⟩ :=
      @Server.retry_offered ring client server awaiting encoded binder hcompat hoffers suite aead
        hash hoffered hparts
    obtain ⟨hread, hsteps⟩ := @Server.readRecord_hello ring client server entropy awaiting []
      encoded binder .awaitClientHello trivial hoffers 0x0301
    obtain ⟨request, hrequest⟩ : ∃ request, request = Server.plaintextRecord .handshake
        (Message.encode .serverHello
          (Server.retryRequest awaiting.sessionId retrying.suite retrying.group).encode) :=
      ⟨_, rfl⟩
    have hwhole : Whole request := by
      rw [hrequest]
      exact whole_plaintextRecord _ _ (Server.retryRequest_short hoffers.sessionId_short _ _)
    have hhandle' : Server.handle ring entropy server .awaitClientHello
        (Message.of .clientHello (awaiting.hello client binder).encode)
        = .ok (request ++ changeCipherSpecRecord, .awaitRetriedClientHello retrying) := by
      rw [hrequest]
      exact hhandle.trans hretry
    rw [hhandle'] at hread
    rw [Endpoint.stepsOf, hhandle'] at hsteps
    have hread' : (Server.endpoint ring server).readRecord entropy
        ⟨.awaitClientHello, []⟩ (plaintextRecord .handshake 0x0301 encoded)
          = (.ok (request ++ changeCipherSpecRecord),
            ⟨.awaitRetriedClientHello retrying, []⟩) := hread
    have hsent : sentBy (.ok (request ++ changeCipherSpecRecord) : Except Server.ServerError Bytes)
        = [request, changeCipherSpecRecord] := by
      rw [sentBy, records_append hwhole, records_single whole_changeCipherSpecRecord]
    have hcarried : carried [request, changeCipherSpecRecord] = [request] := by
      rw [carried_cons (hrequest ▸ plaintextRecord_carries _ _), carried_changeCipherSpec]
      rfl
    have hsteps' : (Server.endpoint ring server).recordSteps entropy
        ⟨.awaitClientHello, []⟩ (plaintextRecord .handshake 0x0301 encoded) = _ := hsteps
    left
    refine ⟨5, ?_, ?_⟩
    · simp only [serverReads, hread', hsteps', hsent, hcarried, Endpoint.stepsOf]
      rw [hrequest]
      exact Stage.asked hoffers hfirst hremembers rfl
    · rw [hread', hsent]
      simp
  · have hhandle' : Server.handle ring entropy server .awaitClientHello
        (Message.of .clientHello (awaiting.hello client binder).encode)
        = Server.complete ring entropy server awaiting.clientHello (awaiting.hello client binder)
            selected true := by
      rw [hoffers.clientHello]
      exact hhandle
    exact @advances_completed ring client server entropy awaiting [] encoded binder complete
      hcompat hworks hoffers selected hchosen .awaitClientHello trivial rfl true hhandle' 0x0301
      hfits [] rfl [] rfl 7 (by decide)

/-- The hello that was asked for is answered with a flight. -/
theorem advances_offeredAgain (complete : ring.Complete) (hcompat : Compatible ring client server)
    (hworks : entropy.Works ring) {retrying : Server.Retrying} {first : Bytes}
    (hoffers : Client.Offers ring client awaiting retrying.transcriptHead encoded binder)
    (hremembers : Server.Remembers ring client awaiting first retrying)
    (hgroup : awaiting.kx.group = retrying.group)
    {log : List (Endpoint.Taken Client.State)} (hlog : log.flatMap (Client.hashed ring client) = [])
    {before : List (Endpoint.Taken Server.State)} (hbefore : before.flatMap Server.hashed = [])
    (hfits : ¬ Server.TooLong ((Server.endpoint ring server).readRecord entropy
      ⟨.awaitRetriedClientHello retrying, []⟩ (plaintextRecord .handshake 0x0303 encoded)).1) :
    Advances complete.toLawful client server (serverReads ring server
        ⟨⟨.awaitServerHello awaiting, []⟩, ⟨.awaitRetriedClientHello retrying, []⟩,
          [plaintextRecord .handshake 0x0303 encoded], [], log, before⟩ entropy
          (plaintextRecord .handshake 0x0303 encoded))
      (sentBy ((Server.endpoint ring server).readRecord entropy
        ⟨.awaitRetriedClientHello retrying, []⟩
        (plaintextRecord .handshake 0x0303 encoded)).1).length 4 := by
  obtain ⟨selected, hchosen, hhandle⟩ := Server.retriedHello_offered complete hcompat hremembers
    hoffers hgroup entropy
  exact @advances_completed ring client server entropy awaiting retrying.transcriptHead encoded
    binder complete hcompat hworks hoffers selected hchosen (.awaitRetriedClientHello retrying)
    trivial rfl false hhandle 0x0303 hfits log hlog before hbefore 4 (by decide)

/-- The chain that a server takes over from a ticket fits another. -/
theorem chain_bound {lawful : ring.Lawful} {step : Endpoint.Taken Server.State} {head : Bytes}
    {hello : ClientHello} {selected : Server.Selected} {draw : Server.FlightDraw}
    {negotiated : Server.Negotiated} {record : Bytes}
    (h : Flight lawful client server awaiting step head hello selected draw negotiated record) :
    (TicketContents.chainBytes negotiated.clientCertificates).length < 2 ^ 16 := by
  have hchain := h.flies.completed.certificates
  have htakes := h.chosen.psk
  generalize selected.psk = psk at hchain htakes
  cases htakes with
  | nothing _ =>
      rw [hchain]
      decide
  | session _ _ _ hbound =>
      rw [hchain]
      exact hbound

/-- The client's flight ends the handshake at the server. -/
theorem agrees_replied (complete : ring.Complete) (hworks : entropy.Works ring) {c : Connection}
    {log : List (Endpoint.Taken Client.State)} {before : List (Endpoint.Taken Server.State)}
    {flight : Endpoint.Taken Server.State} {head : Bytes} {hello : ClientHello}
    {selected : Server.Selected} {draw : Server.FlightDraw} {negotiated : Server.Negotiated}
    {record reply : Bytes} {request : Option CertificateRequestMessage} {answer : List Message}
    (hflight : Flight complete.toLawful client server awaiting flight head hello selected draw
      negotiated record)
    (hreplies : Replies complete.toLawful client server head hello selected draw request answer
      reply c)
    (hlog : log.flatMap (Client.hashed ring client)
      = [⟨selected.hash, draw.hellos head hello selected⟩] ++
        Client.handshakeTranscripts ring server head hello selected draw answer)
    (hbefore : before.flatMap Server.hashed = []) (toClient : List Bytes)
    (hfits : ¬ Server.TooLong ((Server.endpoint ring server).readRecord entropy
      ⟨.awaitFinished negotiated, []⟩ reply).1) :
    Agrees ring client server (serverReads ring server ⟨⟨.done c, []⟩,
      ⟨.awaitFinished negotiated, []⟩, [reply], toClient, log, before ++ [flight]⟩ entropy
        reply) := by
  have hcompleted := hflight.flies.completed
  have hnew := hcompleted.opener
  rw [opener_new complete.toLawful] at hnew
  have hunframe := Server.unframe_sealed hreplies.sealed (Except.ok.inj hnew).symm
  have hbound := chain_bound hflight
  obtain ⟨hframed, hends⟩ := @Server.handleAll_answer ring client server entropy
    { negotiated with opener := ⟨_, .advance 0⟩ } complete hworks head hello selected draw
    hcompleted.hash hcompleted.clientSecret hcompleted.transcript hcompleted.expect
    hbound request answer hreplies.answers hreplies.asked hreplies.sealed.fits
  obtain ⟨hread, hsteps⟩ := @Endpoint.readRecord_octets _ _ _ (Server.endpoint ring server)
    entropy ⟨.awaitFinished negotiated, []⟩ reply (by simp [Server.endpoint]) rfl hreplies.sealed.whole
    (sealed_carries hreplies.sealed) _ _ hunframe hframed
  rw [hread] at hfits
  rcases hends with ⟨out, s, hall, hobserved, hfinishes⟩ | hlong
  · have hread' : (Server.endpoint ring server).readRecord entropy
        ⟨.awaitFinished negotiated, []⟩ reply = (.ok out, ⟨.done s, []⟩) := by
      rw [hread]
      exact congrArg (Server.endpoint ring server).readResult hall
    have hsuites : s.suite = selected.suite := hfinishes.suite.trans hcompleted.suite
    refine ⟨c, s, flight, before, (Server.endpoint ring server).recordSteps entropy
      ⟨.awaitFinished negotiated, []⟩ reply, head, hello, selected, draw, negotiated, rfl, ?_,
      hreplies.suite.trans hsuites.symm, ?_, ?_, ?_, hflight.flies, ?_, hreplies.resumed, ?_⟩
    · simp only [serverReads, hread']
    · rw [hreplies.sealer, hfinishes.opener]
      simp only [hcompleted.hash, hcompleted.aead, hcompleted.clientApplication, hcompleted.master]
    · rw [hreplies.opener, hfinishes.sealer]
      simp only [hcompleted.hash, hcompleted.aead, hcompleted.serverApplication, hcompleted.master]
    · simp only [serverReads, List.append_assoc, List.singleton_append]
    · have hafter : ((Server.endpoint ring server).recordSteps entropy
          ⟨.awaitFinished negotiated, []⟩ reply).flatMap Server.hashed = _ :=
        (congrArg (List.flatMap Server.hashed) hsteps).trans hobserved
      rw [hafter, hbefore]
      simp only [serverReads, hlog, Client.handshakeTranscripts, Server.FlightDraw.transcripts]
      simp [Transcript.add]
    · rw [Connection.cipherSuite, hsuites]
      exact hflight.chosen.psk.isSome_iff
  · exact absurd hlong (Server.tooLong_readResult rfl hfits)

end Server

/-- The network once the client has read a record. -/
def clientReads (ring : Ring) (client : Client.ClientConfig) (network : Network)
    (entropy : Entropy) (record : Bytes) : Network :=
  let result := (Client.endpoint ring client).readRecord entropy network.client record
  { network with
    client := result.2
    toClient := network.toClient.tail
    toServer := network.toServer ++ carried (sentBy result.1)
    clientLog := network.clientLog ++
      (Client.endpoint ring client).recordSteps entropy network.client record }

section Client

variable {entropy : Entropy} {awaiting : Client.Awaiting} {encoded binder : Bytes}

/-- A request for another hello is answered with one. -/
theorem advances_asked (lawful : ring.Lawful) (hcheck : Client.checkResumption client = .ok ())
    (hworks : entropy.Works ring) (hoffers : Client.Offers ring client awaiting [] encoded binder)
    (hfirst : awaiting.retried = false) {retrying : Server.Retrying}
    (hremembers : Server.Remembers ring client awaiting encoded retrying)
    {before : List (Endpoint.Taken Server.State)} (hbefore : before.flatMap Server.hashed = [])
    {request : Bytes} (hrequest : request = Server.plaintextRecord .handshake
      (Message.encode .serverHello
        (Server.retryRequest awaiting.sessionId retrying.suite retrying.group).encode))
    (hfits : Client.FitsRecord ((Client.endpoint ring client).readRecord entropy
      ⟨.awaitServerHello awaiting, []⟩ request).1) :
    Advances lawful client server (clientReads ring client
        ⟨⟨.awaitServerHello awaiting, []⟩, ⟨.awaitRetriedClientHello retrying, []⟩, [], [request],
          [], before⟩ entropy request)
      (sentBy ((Client.endpoint ring client).readRecord entropy
        ⟨.awaitServerHello awaiting, []⟩ request).1).length 5 := by
  obtain ⟨awaiting', second, binder', hhandle, hoffers', hgroup, hrandom, hid⟩ :=
    Client.handleServerHello_retried lawful hcheck hoffers hfirst hremembers hworks
  obtain ⟨hread, hsteps⟩ := Client.readRecord_serverHello
    (Server.retryRequest_short hoffers.sessionId_short _ _) hhandle hrequest
  rw [hread] at hfits
  have hshort := hfits.hello second rfl
  have hsent : sentBy (.ok (plaintextRecord .handshake 0x0303 second) : Except ClientError Bytes)
      = [plaintextRecord .handshake 0x0303 second] :=
    records_single (whole_plaintextRecord _ _ hshort)
  have hremembers' : Server.Remembers ring client awaiting' encoded retrying :=
    ⟨hremembers.group, hremembers.offered, hremembers.parts, hremembers.random.trans hrandom.symm,
      hremembers.sessionId.trans hid.symm, by rw [hid]; exact hremembers.head⟩
  left
  refine ⟨4, ?_, ?_⟩
  · simp only [clientReads, hread, hsteps, hsent, carried_cons (plaintextRecord_carries _ _)]
    exact Stage.offeredAgain (hoffers' hshort) hremembers' hgroup rfl hbefore
  · rw [hread, hsent]
    simp

/-- The ServerHello gives the client the server's keys. -/
theorem advances_answered (complete : ring.Complete)
    {log : List (Endpoint.Taken Client.State)} (hlog : log.flatMap (Client.hashed ring client) = [])
    {before : List (Endpoint.Taken Server.State)} (hbefore : before.flatMap Server.hashed = [])
    {flight : Endpoint.Taken Server.State} {head : Bytes} {hello : ClientHello}
    {selected : Server.Selected} {draw : Server.FlightDraw} {negotiated : Server.Negotiated}
    {record : Bytes} (hflight : Flight complete.toLawful client server awaiting flight head hello
      selected draw negotiated record)
    {answer : Bytes} (hanswer : answer = Server.plaintextRecord .handshake
      (draw.serverHello hello selected)) :
    Advances complete.toLawful client server (clientReads ring client
        ⟨⟨.awaitServerHello awaiting, []⟩, ⟨.awaitFinished negotiated, []⟩, [], [answer, record],
          log, before ++ [flight]⟩ entropy answer)
      (sentBy ((Client.endpoint ring client).readRecord entropy
        ⟨.awaitServerHello awaiting, []⟩ answer).1).length 2 := by
  have hcompleted := hflight.flies.completed
  obtain ⟨front, encoded, binder, hoffers, rfl, rfl⟩ := hflight.offers
  obtain ⟨received, hhandle, hderived⟩ := @Client.handleServerHello_answered ring client server
    awaiting front encoded binder entropy complete hoffers selected hflight.chosen draw
    flight.entropy hflight.works hcompleted.kx hcompleted.random hcompleted.agreed
  obtain ⟨hkxGroup, hkxPublic⟩ := KeyExchange.generate_inv hcompleted.kx
  have hshort : (Message.encode .serverHello
      (Client.answerHello awaiting selected draw).encode).length ≤ maxFragmentLen :=
    ServerHello.encode_short (flight.entropy.fill_length _ _ _ hcompleted.random)
      hoffers.sessionId_short
      (Client.helloExtensions_fit (complete.publicKey_length _ _ _ hkxPublic) selected.psk).2
  obtain ⟨hread, hsteps⟩ := Client.readRecord_serverHello hshort hhandle hanswer
  have hsent : sentBy (.ok [] : Except ClientError Bytes) = [] := rfl
  have hinstep : Client.InStep ring awaiting.clientHello (awaiting.hello client binder) selected
      draw received := by
    have hschedule : received.schedule = draw.schedule ring selected := by
      rw [hderived.schedule_eq, Client.earlySchedule_taken hflight.chosen.psk]
      rfl
    refine ⟨hderived.suite_eq, hderived.aead_eq, hderived.hash_eq, hschedule, ?_, ?_, ?_⟩
    · rw [hderived.client_eq, hschedule]
      rfl
    · rw [hderived.server_eq, hschedule]
      rfl
    · rw [hderived.resumed_eq]
      exact Client.resumedSession_isSome hflight.chosen.psk
  left
  refine ⟨2, ?_, ?_⟩
  · simp only [clientReads, hread, hsteps, hsent]
    refine Stage.reading hflight hinstep hderived.transcript_eq hderived.request_eq ?_ ?_ hbefore
    · have hnew := hderived.opener_eq
      rw [opener_new complete.toLawful, hinstep.serverSecret] at hnew
      exact (Except.ok.inj hnew).symm
    · rw [List.flatMap_append, hlog]
      simp [Client.hashed]
  · rw [hread, hsent]
    simp

/-- The server's flight ends the handshake at the client, which answers it. -/
theorem advances_reading (complete : ring.Complete) (hcompat : Compatible ring client server)
    {received : Client.Negotiated} {log : List (Endpoint.Taken Client.State)}
    {before : List (Endpoint.Taken Server.State)} (hbefore : before.flatMap Server.hashed = [])
    {flight : Endpoint.Taken Server.State} {head : Bytes} {hello : ClientHello}
    {selected : Server.Selected} {draw : Server.FlightDraw} {negotiated : Server.Negotiated}
    {record : Bytes} (hflight : Flight complete.toLawful client server awaiting flight head hello
      selected draw negotiated record)
    (hinstep : Client.InStep ring head hello selected draw received)
    (htranscript : received.transcript = ⟨selected.hash, draw.hellos head hello selected⟩)
    (hrequest : received.certificateRequest = none)
    (hopener : received.opener = ⟨directionKey complete.toLawful selected.hash
      (draw.serverSecret ring head hello selected) selected.aead, .startingAt 0⟩)
    (hlog : log.flatMap (Client.hashed ring client) = [received.transcript])
    (hfits : Client.FitsRecord ((Client.endpoint ring client).readRecord entropy
      ⟨.inFlight .encryptedExtensions received, []⟩ record).1) :
    Advances complete.toLawful client server (clientReads ring client
        ⟨⟨.inFlight .encryptedExtensions received, []⟩, ⟨.awaitFinished negotiated, []⟩, [],
          [record], log, before ++ [flight]⟩ entropy record)
      (sentBy ((Client.endpoint ring client).readRecord entropy
        ⟨.inFlight .encryptedExtensions received, []⟩ record).1).length 2 := by
  have hcompleted := hflight.flies.completed
  have hunframe := Client.unframe_sealed hflight.sealed .encryptedExtensions hopener
  obtain ⟨opened, hopened⟩ : ∃ opened, opened = { received with opener := ⟨directionKey
      complete.toLawful selected.hash (draw.serverSecret ring head hello selected) selected.aead,
      .advance 0⟩ } := ⟨_, rfl⟩
  rw [← hopened] at hunframe
  have hinstep' : Client.InStep ring head hello selected draw opened := by
    rw [hopened]
    exact ⟨hinstep.suite, hinstep.aead, hinstep.hash, hinstep.schedule, hinstep.clientSecret,
      hinstep.serverSecret, hinstep.resumed⟩
  obtain ⟨ms, hframed, hoctets, hends⟩ := @Client.handleAll_flight ring client server entropy
    opened complete hcompat head hello selected draw flight.entropy hflight.chosen.scheme
    hcompleted.authentication hflight.sealed.fits hinstep' (by rw [hopened]; exact htranscript)
    (by rw [hopened]; exact hrequest)
  rw [← hoctets] at hunframe
  obtain ⟨hread, hsteps⟩ := @Endpoint.readRecord_octets _ _ _ (Client.endpoint ring client)
    entropy ⟨.inFlight .encryptedExtensions received, []⟩ record (by simp [Client.endpoint]) rfl
    hflight.sealed.whole (sealed_carries hflight.sealed) ms _ hunframe hframed
  rcases hends with ⟨answer, reply, sealer, c, request, hanswers, hasked, hall, hobserved, hseal,
    hsuite, hresumed, hsealer, hopener'⟩ | ⟨len, max, hlong⟩
  · have hsealed := sealedUnder complete.toLawful hseal
    have hread' : (Client.endpoint ring client).readRecord entropy
        ⟨.inFlight .encryptedExtensions received, []⟩ record
        = (.ok (changeCipherSpecRecord ++ reply), ⟨.done c, []⟩) := by
      rw [hread]
      exact congrArg (Client.endpoint ring client).readResult hall
    have hsent : sentBy (.ok (changeCipherSpecRecord ++ reply) : Except ClientError Bytes)
        = [changeCipherSpecRecord, reply] := by
      rw [sentBy, records_append whole_changeCipherSpecRecord, records_single hsealed.whole]
    have hcarried : carried [changeCipherSpecRecord, reply] = [reply] := by
      rw [carried_changeCipherSpec, carried_cons (sealed_carries hsealed)]
      rfl
    left
    refine ⟨0, ?_, ?_⟩
    · simp only [clientReads, hread', hsent, hcarried]
      refine Stage.replied hflight ⟨hanswers, hasked, hsealed, hsuite, hresumed, hsealer,
        hopener'⟩ ?_ hbefore
      rw [List.flatMap_append, hlog, htranscript]
      exact congrArg _ ((congrArg (List.flatMap (Client.hashed ring client)) hsteps).trans hobserved)
    · rw [hread', hsent]
      simp
  · rw [hread] at hfits
    refine absurd ?_ hfits.flight
    exact ⟨len, max, congrArg (fun outcome =>
      ((Client.endpoint ring client).readResult outcome).1) hlong⟩

end Client

/-! ### Runs -/

section Runs

variable {network network' : Network} {entropy : Entropy} {record : Bytes} {rest : List Bytes}
  {k n : Nat}

/-- Neither end fails on the way. -/
theorem Stage.not_failed {lawful : ring.Lawful} (h : Stage lawful client server network k) :
    network.client.state ≠ .failed ∧ network.server.state ≠ .failed := by
  cases h <;> simp

/-- Whatever message-carrying record reaches the server brings the run on. -/
theorem Stage.serverReads (complete : ring.Complete) (hcompat : Compatible ring client server)
    (h : Stage complete.toLawful client server network k)
    (hqueue : network.toServer = record :: rest) (hworks : entropy.Works ring)
    (hfits : ¬ Server.TooLong
      ((Server.endpoint ring server).readRecord entropy network.server record).1) :
    Advances complete.toLawful client server (network.serverReads ring server entropy record)
      (sentBy ((Server.endpoint ring server).readRecord entropy network.server record).1).length
      k := by
  cases h with
  | offered hoffers hfirst =>
      obtain ⟨rfl, -⟩ := List.cons.inj hqueue
      exact advances_offered complete hcompat hworks hoffers hfirst hfits
  | asked _ _ _ _ => simp at hqueue
  | offeredAgain hoffers hremembers hgroup hlog hbefore =>
      obtain ⟨rfl, -⟩ := List.cons.inj hqueue
      exact advances_offeredAgain complete hcompat hworks hoffers hremembers hgroup hlog hbefore
        hfits
  | answered _ _ _ => simp at hqueue
  | reading _ _ _ _ _ _ _ => simp at hqueue
  | replied hflight hreplies hlog hbefore =>
      obtain ⟨rfl, -⟩ := List.cons.inj hqueue
      exact .inr (agrees_replied complete hworks hflight hreplies hlog hbefore _ hfits)

/-- Whatever message-carrying record reaches the client brings the run on. -/
theorem Stage.clientReads (complete : ring.Complete) (hcompat : Compatible ring client server)
    (hcheck : Client.checkResumption client = .ok ())
    (h : Stage complete.toLawful client server network k)
    (hqueue : network.toClient = record :: rest) (hwaits : network.client.isFinished = false)
    (hworks : entropy.Works ring)
    (hfits : Client.FitsRecord
      ((Client.endpoint ring client).readRecord entropy network.client record).1) :
    Advances complete.toLawful client server (network.clientReads ring client entropy record)
      (sentBy ((Client.endpoint ring client).readRecord entropy network.client record).1).length
      k := by
  cases h with
  | offered _ _ => simp at hqueue
  | asked hoffers hfirst hremembers hbefore =>
      obtain ⟨hrecord, -⟩ := List.cons.inj hqueue
      rw [hrecord]
      exact advances_asked complete.toLawful hcheck hworks hoffers hfirst hremembers hbefore
        hrecord.symm hfits
  | offeredAgain _ _ _ _ _ => simp at hqueue
  | answered hflight hlog hbefore =>
      obtain ⟨hrecord, -⟩ := List.cons.inj hqueue
      rw [hrecord]
      exact advances_answered complete hlog hbefore hflight hrecord.symm
  | reading hflight hinstep htranscript hrequest hopener hlog hbefore =>
      obtain ⟨rfl, -⟩ := List.cons.inj hqueue
      exact advances_reading complete hcompat hbefore hflight hinstep htranscript hrequest hopener
        hlog hfits
  | replied _ _ _ _ => simp [Client.ClientHandshake.isFinished] at hwaits

/-- The network without the records that carry nothing. -/
def stripped (network : Network) : Network :=
  { network with toServer := carried network.toServer, toClient := carried network.toClient }

/-- The invariant of an honest run: it is at one of the stages, and bounded by the records that
are on their way and those that are still to be sent, or it has ended in agreement. -/
inductive Honest (lawful : ring.Lawful) (client : Client.ClientConfig)
    (server : Server.ServerConfig) (n : Nat) (network : Network) : Prop
  | going {k : Nat} : Stage lawful client server network.stripped k →
      n + network.toServer.length + network.toClient.length + k ≤ 8 →
      Honest lawful client server n network
  | ended : Agrees ring client server network → n ≤ 8 → Honest lawful client server n network

theorem Agrees.finished (h : Agrees ring client server network) :
    network.client.isFinished = true ∧ network.server.isFinished = true := by
  obtain ⟨c, s, _, _, _, _, _, _, _, _, hagreed⟩ := h
  exact ⟨Client.ClientHandshake.isFinished_iff.mpr ⟨c, hagreed.clientDone⟩,
    Server.ServerHandshake.isFinished_iff.mpr ⟨s, hagreed.serverDone⟩⟩

theorem Agrees.of_stripped (h : Agrees ring client server network.stripped) :
    Agrees ring client server network := by
  obtain ⟨c, s, flight, before, after, head, hello, selected, draw, negotiated, h⟩ := h
  exact ⟨c, s, flight, before, after, head, hello, selected, draw, negotiated, h.clientDone,
    h.serverDone, h.suite, h.clientToServer, h.serverToClient, h.log, h.flies, h.transcripts,
    h.resumed, h.accepted⟩

theorem Honest.of_advances {lawful : ring.Lawful} {sent : Nat}
    (h : Advances lawful client server network.stripped sent k)
    (hbound : n + network.toServer.length + network.toClient.length + k ≤ 8 + sent)
    (hn : n ≤ 8) : Honest lawful client server n network := by
  rcases h with ⟨k', hstage, hle⟩ | hagrees
  · exact .going hstage (by omega)
  · exact .ended hagrees.of_stripped hn

theorem honest_toServer (complete : ring.Complete) (hcompat : Compatible ring client server)
    (hstage : Stage complete.toLawful client server network.stripped k)
    (hbound : n + network.toServer.length + network.toClient.length + k ≤ 8)
    (hqueue : network.toServer = record :: rest) (hworks : entropy.Works ring)
    {result : Except Server.ServerError Bytes} {next : Server.ServerHandshake}
    (hread : (Server.endpoint ring server).readRecord entropy network.server record
      = (result, next)) (hfits : ¬ Server.TooLong result) :
    Honest complete.toLawful client server (n + 1) { network with
      server := next
      toServer := rest
      toClient := network.toClient ++ sentBy result
      serverLog := network.serverLog ++
        (Server.endpoint ring server).recordSteps entropy network.server record } := by
  rw [hqueue, List.length_cons] at hbound
  by_cases hccs : record = changeCipherSpecRecord
  · obtain ⟨hskip, hsteps⟩ := @Endpoint.readRecord_changeCipherSpec _ _ _
      (Server.endpoint ring server) entropy network.server record hstage.not_failed.2
      (hccs ▸ whole_changeCipherSpecRecord) (hccs ▸ rfl)
    obtain ⟨rfl, rfl⟩ := Prod.mk.inj (hskip.symm.trans hread)
    have hsame : carried network.toServer = carried rest := by
      rw [hqueue, hccs, carried_changeCipherSpec]
    have hnothing : sentBy (.ok [] : Except Server.ServerError Bytes) = [] := rfl
    rw [hsteps, hnothing, List.append_nil, List.append_nil]
    refine .going (k := k) ?_ ?_
    · rw [stripped, hsame] at hstage
      exact hstage
    · simp only
      omega
  · have hcarried : network.stripped.toServer = record :: carried rest := by
      simp only [stripped, hqueue, carried_of_ne hccs]
    have hread' : (Server.endpoint ring server).readRecord entropy network.stripped.server record
        = (result, next) := hread
    have hadvances := hstage.serverReads complete hcompat hcarried hworks (by rw [hread']; exact hfits)
    rw [hread'] at hadvances
    simp only [Network.serverReads, hread', hcarried] at hadvances
    have hgrown := carried_append network.toClient (sentBy result)
    simp only [stripped, List.tail_cons, ← hgrown] at hadvances
    refine Honest.of_advances hadvances ?_ (by omega)
    simp only [List.length_append]
    omega

theorem honest_toClient (complete : ring.Complete) (hcompat : Compatible ring client server)
    (hcheck : Client.checkResumption client = .ok ())
    (hstage : Stage complete.toLawful client server network.stripped k)
    (hbound : n + network.toServer.length + network.toClient.length + k ≤ 8)
    (hqueue : network.toClient = record :: rest) (hwaits : network.client.isFinished = false)
    (hworks : entropy.Works ring) {result : Except ClientError Bytes}
    {next : Client.ClientHandshake}
    (hread : (Client.endpoint ring client).readRecord entropy network.client record
      = (result, next)) (hfits : Client.FitsRecord result) :
    Honest complete.toLawful client server (n + 1) { network with
      client := next
      toClient := rest
      toServer := network.toServer ++ sentBy result
      clientLog := network.clientLog ++
        (Client.endpoint ring client).recordSteps entropy network.client record } := by
  rw [hqueue, List.length_cons] at hbound
  by_cases hccs : record = changeCipherSpecRecord
  · obtain ⟨hskip, hsteps⟩ := @Endpoint.readRecord_changeCipherSpec _ _ _
      (Client.endpoint ring client) entropy network.client record hstage.not_failed.1
      (hccs ▸ whole_changeCipherSpecRecord) (hccs ▸ rfl)
    obtain ⟨rfl, rfl⟩ := Prod.mk.inj (hskip.symm.trans hread)
    have hsame : carried network.toClient = carried rest := by
      rw [hqueue, hccs, carried_changeCipherSpec]
    have hnothing : sentBy (.ok [] : Except ClientError Bytes) = [] := rfl
    rw [hsteps, hnothing, List.append_nil, List.append_nil]
    refine .going (k := k) ?_ ?_
    · rw [stripped, hsame] at hstage
      exact hstage
    · simp only
      omega
  · have hcarried : network.stripped.toClient = record :: carried rest := by
      simp only [stripped, hqueue, carried_of_ne hccs]
    have hread' : (Client.endpoint ring client).readRecord entropy network.stripped.client record
        = (result, next) := hread
    have hadvances := hstage.clientReads complete hcompat hcheck hcarried hwaits hworks
      (by rw [hread']; exact hfits)
    rw [hread'] at hadvances
    simp only [Network.clientReads, hread', hcarried] at hadvances
    have hgrown := carried_append network.toServer (sentBy result)
    simp only [stripped, List.tail_cons, ← hgrown] at hadvances
    refine Honest.of_advances hadvances ?_ (by omega)
    simp only [List.length_append]
    omega

/-- The step lemma of honest runs. -/
theorem honest_delivers (complete : ring.Complete) (hcompat : Compatible ring client server)
    (hcheck : Client.checkResumption client = .ok ())
    (h : Honest complete.toLawful client server n network)
    (hdelivers : Delivers ring client server network network') :
    Honest complete.toLawful client server (n + 1) network' := by
  cases h with
  | ended hagrees _ =>
      obtain ⟨hclient, hserver⟩ := hagrees.finished
      cases hdelivers with
      | toServer _ hwaits _ _ _ => simp [hserver] at hwaits
      | toClient _ hwaits _ _ _ => simp [hclient] at hwaits
  | going hstage hbound =>
      cases hdelivers with
      | toServer hqueue _ hworks hread hfits =>
          exact honest_toServer complete hcompat hstage hbound hqueue hworks hread hfits
      | toClient hqueue hwaits hworks hread hfits =>
          exact honest_toClient complete hcompat hcheck hstage hbound hqueue hwaits hworks hread
            hfits

theorem honest_run (complete : ring.Complete) (hcompat : Compatible ring client server)
    (hcheck : Client.checkResumption client = .ok ()) {start : Network}
    (hstart : Honest complete.toLawful client server 0 start)
    (hrun : Run ring client server start n network) :
    Honest complete.toLawful client server n network := by
  induction hrun with
  | start => exact hstart
  | step _ hdelivers ih => exact honest_delivers complete hcompat hcheck ih hdelivers

/-- At every stage a record waits for an end that has not finished. -/
theorem Stage.waits {lawful : ring.Lawful} (h : Stage lawful client server network k) :
    (network.toServer ≠ [] ∧ network.server.isFinished = false) ∨
      (network.toClient ≠ [] ∧ network.client.isFinished = false) := by
  cases h with
  | offered _ _ => exact .inl ⟨List.cons_ne_nil _ _, rfl⟩
  | asked _ _ _ _ => exact .inr ⟨List.cons_ne_nil _ _, rfl⟩
  | offeredAgain _ _ _ _ _ => exact .inl ⟨List.cons_ne_nil _ _, rfl⟩
  | answered _ _ _ => exact .inr ⟨List.cons_ne_nil _ _, rfl⟩
  | reading _ _ _ _ _ _ _ => exact .inr ⟨List.cons_ne_nil _ _, rfl⟩
  | replied _ _ _ _ => exact .inl ⟨List.cons_ne_nil _ _, rfl⟩

theorem Stage.not_quiet {lawful : ring.Lawful}
    (h : Stage lawful client server network.stripped k) : ¬ network.Quiet := by
  have hwaits : ∀ {queue : List Bytes}, carried queue ≠ [] → queue ≠ [] := by
    intro _ hne h
    obtain rfl := h
    exact hne rfl
  intro hshape
  obtain ⟨hserver, hclient⟩ := hshape
  rcases h.waits with ⟨hqueue, hfinished⟩ | ⟨hqueue, hfinished⟩
  · rcases hserver with hnil | hdone
    · exact hwaits hqueue hnil
    · exact Bool.false_ne_true (hfinished.symm.trans hdone)
  · rcases hclient with hnil | hdone
    · exact hwaits hqueue hnil
    · exact Bool.false_ne_true (hfinished.symm.trans hdone)

end Runs

end Network

/-- A session is honoured by every server that shares the keys its ticket was sealed under. -/
theorem Server.honours_of_sealed {ring : Ring} (lawful : ring.Lawful)
    {config : Server.ServerConfig} {session : Session} {keys : TicketKeys}
    (hkeys : ∀ tickets, config.tickets = some tickets → tickets.keys = keys)
    {contents : TicketContents} (hfits : contents.Fits) {entropy : Entropy} {draw : Nat}
    (hseal : contents.sealContents ring keys.current (entropy.fill draw nonceLen)
      = .ok session.ticket)
    (hsuite : contents.suite = session.suite) (hpsk : contents.psk = session.psk) :
    Server.Honours ring config session := by
  have hopens : TicketContents.openContents ring session.ticket keys = some (.ok contents) := by
    exact TicketContents.openContents_eq_ok.mpr
      ⟨_, TicketKeys.openTicket_seal lawful hseal, TicketContents.decode_encode hfits⟩
  refine ⟨?_, ?_, ?_⟩
  · intro hnil
    simp only [TicketContents.sealContents, TicketKey.sealTicket, bind_eq_ok, okOr_eq_ok] at hseal
    obtain ⟨nonce, hnonce, out, -, heq⟩ := hseal
    have hlen := entropy.fill_length _ _ _ hnonce
    rw [← Except.ok.inj heq] at hnil
    obtain ⟨rfl, -⟩ := List.append_eq_nil_iff.mp hnil
    simp [nonceLen] at hlen
  · intro tickets htickets err herr
    rw [hkeys tickets htickets, hopens] at herr
    simp at herr
  · intro tickets htickets opened hopened
    rw [hkeys tickets htickets, hopens] at hopened
    obtain rfl := Except.ok.inj (Option.some.inj hopened)
    exact ⟨hsuite, hpsk⟩

theorem Entropy.sample_works (seed : UInt8) : (Entropy.sample seed).Works .sample where
  ephemeral _ := ⟨_, _, rfl, rfl⟩
  fill _ _ := ⟨_, rfl⟩
  unmarked := by
    intro h
    have hrandom : List.replicate 32 (seed + UInt8.ofNat 0) = helloRetryRequestRandom :=
      Option.some.inj h
    have hfirst := congrArg (·[0]?) hrandom
    have hsecond := congrArg (·[1]?) hrandom
    simp [helloRetryRequestRandom] at hfirst hsecond
    rw [hfirst] at hsecond
    exact absurd hsecond (by decide)

theorem Ring.sample_keyPair (signing : SigningAlgorithm) (verification : VerificationAlgorithm)
    (key : Bytes) : Ring.sample.KeyPair signing verification key key := by
  intro rng message
  refine ⟨checksum 32 (key ++ message), rfl, ?_, ?_⟩
  · exact List.ne_nil_of_length_pos (by simp [checksum])
  · simp [sample]

/-- A client of the sample server that leads with a group the server does not have, and has a
session to offer. -/
def Client.ClientConfig.sampleRetrying : Client.ClientConfig :=
  { Client.ClientConfig.sample with
    groups := [.secP256R1, .x25519]
    resumption := some ⟨Client.sampleSession, 0⟩ }

/-- Whether a client accepts a server's chain and its key `key`, for running the model. -/
def Client.ClientConfig.accepts (client : Client.ClientConfig) (chain : List Bytes) (key : Bytes) :
    Bool :=
  match collect (chain.map Certificate.parse) with
  | .ok (leaf :: rest) =>
      match verifyPeerCertificate .sample leaf rest client.anchors client.serverName client.path,
        SignatureScheme.ed25519.tls13Algorithm leaf.subjectPublicKeyInfo with
      | .ok _, .ok _ => decide (leaf.subjectPublicKeyInfo.key = key)
      | _, _ => false
  | _ => false

/-- The chain of the sample server is accepted by its clients, and its key signs for it. -/
theorem Server.ServerConfig.sample_accepted : ∃ leaf rest path,
    collect (Server.ServerConfig.sample.certificates.map Certificate.parse) = .ok (leaf :: rest) ∧
    verifyPeerCertificate .sample leaf rest Client.ClientConfig.sampleRetrying.anchors
      Client.ClientConfig.sampleRetrying.serverName Client.ClientConfig.sampleRetrying.path
      = .ok path ∧
    Server.ServerConfig.sample.key.Proves .sample leaf.subjectPublicKeyInfo := by
  have hcheck : Client.ClientConfig.sampleRetrying.accepts
      Server.ServerConfig.sample.certificates [9] = true := by decide +kernel
  unfold Client.ClientConfig.accepts at hcheck
  split at hcheck
  · next leaf rest hchain =>
      split at hcheck
      · next path algorithm hpath halgorithm =>
          refine ⟨leaf, rest, path, hchain, hpath, ?_⟩
          intro scheme hscheme
          obtain rfl := List.mem_singleton.mp hscheme
          refine ⟨algorithm, halgorithm, ?_⟩
          rw [of_decide_eq_true hcheck]
          exact Ring.sample_keyPair _ _ [9]
      · cases hcheck
  · cases hcheck

theorem Compatible.sample : Compatible .sample Client.ClientConfig.sampleRetrying
    Server.ServerConfig.sample where
  implemented := by decide
  suite := ⟨.tlsAes128GcmSha256, by decide, by decide⟩
  group := ⟨.x25519, by decide, by decide⟩
  accepted := Server.ServerConfig.sample_accepted
  clientAuth := by
    intro auth h
    cases h
  session := by
    intro resumption h
    obtain rfl := Option.some.inj h
    have hkeys : ∀ tickets, Server.ServerConfig.sample.tickets = some tickets →
        tickets.keys = Server.Tickets.sample.keys := by
      intro tickets htickets
      obtain rfl := Option.some.inj htickets
      rfl
    exact @Server.honours_of_sealed .sample Ring.sample_lawful .sample Client.sampleSession _ hkeys
      Client.sampleContents ⟨by decide, by decide, by decide, by decide⟩ (.sample 4) 3 rfl rfl rfl

namespace Network

variable {ring : Ring} {client : Client.ClientConfig} {server : Server.ServerConfig}

/-- The turns of a handshake with a retry. -/
def sampleTurns : List (Entropy × End) :=
  [(.sample 10, .server), (.sample 11, .client), (.sample 12, .client), (.sample 13, .server),
    (.sample 14, .client), (.sample 15, .client), (.sample 16, .server), (.sample 17, .server)]

/-- Whether the client's connection is a resumed one. -/
def reportsResumed (network : Network) : Bool :=
  match network.client.state with
  | .done c => c.resumed
  | _ => false

/-- Honest runs agree. Whatever client that starts meets whatever server it has a suite, a group
and the trust in common with, with any posture on client certificates that it satisfies and with
or without a session to offer: when every flight fits a record, and every record is delivered once
and in order, at most eight deliveries can be made, and when none is left both ends are done and
`Agreed`: they report one suite, each direction's key is the same at its two ends, each hashed the
same transcripts at the points where keys are derived and where something is signed or
authenticated, and the server resumed the client's session exactly when it could. -/
theorem run_agrees (complete : ring.Complete) (hcompat : Compatible ring client server)
    {entropy : Entropy} {handshake : Client.ClientHandshake} {record : Bytes}
    (hstart : Client.start ring entropy client = .ok (handshake, record))
    (hfits : record.length ≤ headerLen + maxFragmentLen) {n : Nat} {network : Network}
    (hrun : Run ring client server (opened handshake record) n network) :
    n ≤ 8 ∧ (network.Quiet → Agrees ring client server network) := by
  obtain ⟨hcheck, awaiting, encoded, binder, rfl, rfl, hfirst, hoffers⟩ :=
    Client.start_offers complete.toLawful hstart hfits
  have hopened : Honest complete.toLawful client server 0
      (opened ⟨.awaitServerHello awaiting, []⟩ (plaintextRecord .handshake 0x0301 encoded)) := by
    refine .going (k := 7) ?_ (by simp [opened])
    have hcarried := carried_cons (plaintextRecord_carries 0x0301 encoded) []
    rw [stripped]
    simp only [opened, hcarried]
    exact Stage.offered hoffers hfirst
  cases honest_run complete hcompat hcheck hopened hrun with
  | going hstage hbound => exact ⟨by omega, fun hquiet => absurd hquiet hstage.not_quiet⟩
  | ended hagrees hbound => exact ⟨hbound, fun _ => hagrees⟩

/-- The retrying client resumes its session. -/
theorem run_agrees_retried : ∃ handshake record network c,
    Client.start .sample (.sample 9) .sampleRetrying = .ok (handshake, record) ∧
    Run .sample .sampleRetrying .sample (opened handshake record) 8 network ∧ network.Quiet ∧
    network.client.state = .done c ∧ c.resumed = true ∧
    Agrees .sample .sampleRetrying .sample network := by
  have hcheck : ((Client.start .sample (.sample 9) .sampleRetrying).toOption.any fun started =>
      decide (started.2.length ≤ headerLen + maxFragmentLen) &&
        (deliverAll .sample .sampleRetrying .sample (opened started.1 started.2) sampleTurns).any
          fun network => decide network.Quiet && network.reportsResumed) = true := by
    decide +kernel
  obtain ⟨⟨handshake, record⟩, hstarted, hends⟩ := (Option.any_eq_true _ _).mp hcheck
  have hstart := toOption_eq_some.mp hstarted
  rw [Bool.and_eq_true, decide_eq_true_eq, Option.any_eq_true] at hends
  obtain ⟨hlen, network, hdelivered, hends⟩ := hends
  rw [Bool.and_eq_true, decide_eq_true_eq, reportsResumed] at hends
  obtain ⟨hquiet, hresumed⟩ := hends
  split at hresumed
  · next c hdone =>
      have hworks : ∀ turn ∈ sampleTurns, turn.1.Works .sample := by
        intro turn hmem
        simp only [sampleTurns, List.mem_cons, List.not_mem_nil, or_false] at hmem
        rcases hmem with rfl | rfl | rfl | rfl | rfl | rfl | rfl | rfl <;>
          exact Entropy.sample_works _
      have hrun := run_of_deliverAll hworks .start hdelivered
      exact ⟨handshake, record, network, c, hstart, hrun, hquiet, hdone, hresumed,
        (run_agrees Ring.sample_complete Compatible.sample hstart hlen hrun).2 hquiet⟩
  · cases hresumed

end Network

end RustyTls
