import RustyTls.IssuedTickets
import RustyTls.SignedAgreement

/-!
# RustyTls.MutualAgreement

Agreement of the two ends on the client's Finished, and what it leaves them with.

The client's Finished is the last message of a handshake. A server that takes the one a client sent
has read that client's whole flight, after its own: the two transcripts are the same from the first
hello on, so the connections have each other's keys, in both directions, and the same resumption
secret.
-/

namespace RustyTls

open Core

/-- Two connections that are the two ends of one. -/
structure Paired (c s : Connection) : Prop where
  aead : c.aead = s.aead
  hash : c.hash = s.hash
  suite : c.suite = s.suite
  clientToServer : c.clientSecret = s.serverSecret
  serverToClient : c.serverSecret = s.clientSecret

/-! ### The client's flight -/

namespace Client

/-- What the server's Finished leaves a client with. -/
structure Ends {ring : Ring} (lawful : ring.Lawful) (negotiated : Negotiated) (finished : Message)
    (answer : List Message) (c : Connection) : Prop where
  aead : c.aead = negotiated.aead
  hash : c.hash = negotiated.hash
  suite : c.suite = negotiated.suite
  certificates : c.certificates = negotiated.certificates
  sealer : c.sealer = ⟨directionKey lawful c.hash c.clientSecret c.aead, .startingAt 0⟩
  opener : c.opener = ⟨directionKey lawful c.hash c.serverSecret c.aead, .startingAt 0⟩
  resumptionMaster : c.resumptionMaster = (negotiated.schedule.intoMaster ring).derive ring
    "res master" (((answered negotiated finished answer).addMessage
      (finishedMessage ring negotiated (answered negotiated finished answer))).hash ring)

section Flight

variable {ring : Ring} {entropy : Entropy} {config : ClientConfig} {negotiated : Negotiated}

/-- What a client sends before its Finished is messages. -/
theorem clientAuthentication_messages {transcript : Transcript} {authentication : Bytes}
    (h : clientAuthentication ring entropy config negotiated transcript = .ok authentication)
    (hshort : authentication.length ≤ maxFragmentLen) :
    ∃ answer : List Message, authentication = octets answer ∧ ∀ m ∈ answer, Framed m := by
  unfold clientAuthentication at h
  split at h
  · obtain rfl := Except.ok.inj h
    exact ⟨[], rfl, by simp⟩
  · next request hrequest =>
      unfold answerRequest at h
      split at h
      · obtain rfl := Except.ok.inj h
        rw [clientCertificateMessage_eq] at hshort ⊢
        exact ⟨[Message.of .certificate (CertificateMessage.ofChain request.context []).encode],
          by simp [Message.of], List.forall_mem_singleton.mpr
            (@framed_of_short .certificate rfl _ hshort)⟩
      · next identity hidentity =>
          simp only [proveIdentity, bind_eq_ok] at h
          obtain ⟨_, ⟨scheme, -, signature, -, hverify⟩, heq⟩ := h
          obtain rfl := Except.ok.inj hverify
          obtain rfl := Except.ok.inj heq
          rw [List.length_append, clientCertificateMessage_eq] at hshort
          refine ⟨[certificateOf request identity, Message.of .certificateVerify
            ((Writer.new.u16 scheme.code).vectorU16 (.bytes signature)).intoVec], ?_, ?_⟩
          · rw [octets_cons, octets_cons, octets_nil, List.append_nil, certificateOf_encoded]
            rfl
          · refine List.forall_mem_cons.mpr ⟨@framed_of_short .certificate rfl _ (by omega), ?_⟩
            exact List.forall_mem_singleton.mpr
              (@framed_of_short .certificateVerify rfl _ (by omega))

/-- The messages that a client answers the server's Finished with, and its connection. -/
theorem finish_ends (lawful : ring.Lawful) {finished : Message} {reply : Bytes} {next : State}
    (h : finish ring entropy config negotiated finished = .ok (reply, next)) :
    ∃ answer c, next = .done c ∧ (∀ m ∈ answer, Framed m) ∧
      clientAuthentication ring entropy config negotiated
        (negotiated.transcript.addMessage finished) = .ok (octets answer) ∧
      Ends lawful negotiated finished answer c := by
  simp only [finish, bind_eq_ok, mapErr_eq_ok, sealer_new lawful, opener_new lawful] at h
  obtain ⟨_, -, _, -, authentication, hauth, _, -, sealed, hseal, sealer, hsealer, opener, hopener,
    heq⟩ := h
  obtain ⟨-, rfl⟩ := Prod.mk.inj (Except.ok.inj heq)
  obtain rfl := Except.ok.inj hsealer
  obtain rfl := Except.ok.inj hopener
  obtain ⟨_, _, -, hshort, -⟩ := sealRecord_ok (Prod.ext hseal rfl)
  rw [List.length_append] at hshort
  obtain ⟨answer, rfl, hframed⟩ := clientAuthentication_messages hauth (by omega)
  exact ⟨answer, _, rfl, hframed, hauth, rfl, rfl, rfl, rfl, rfl, rfl, rfl⟩

/-- A run of a client completes its handshake: after the messages of a log it takes the server's
Finished, and answers. -/
structure Completes (ring : Ring) (config : ClientConfig) (run : Entropy × List (Entropy × Bytes))
    (start : Awaiting) (log : List Message) (negotiated : Negotiated) (finished : Message)
    (answer : List Message) (connection : Connection) : Prop where
  started : ∃ record, Client.start ring run.1 config = .ok (⟨.awaitServerHello start, []⟩, record)
  finishes : ∃ step, (endpoint ring config).Takes ⟨.awaitServerHello start, []⟩ run.2 log step ∧
    step.before = .inFlight .finished negotiated ∧ step.message = finished ∧
      step.after = .done connection ∧
      clientAuthentication ring step.entropy config negotiated
        (negotiated.transcript.addMessage finished) = .ok (octets answer)
  framed : ∀ m ∈ answer, Framed m

/-- Every step to a connection completes a handshake. -/
theorem completes_of_takes (lawful : ring.Lawful) {start : Awaiting} {record : Bytes}
    (hstart : Client.start ring entropy config = .ok (⟨.awaitServerHello start, []⟩, record))
    {inputs : List (Entropy × Bytes)} {log : List Message} {step : Endpoint.Taken State}
    (hstep : (endpoint ring config).Takes ⟨.awaitServerHello start, []⟩ inputs log step)
    (hbefore : step.before = .inFlight .finished negotiated) {connection : Connection}
    (hafter : step.after = .done connection) :
    ∃ answer, clientAuthentication ring step.entropy config negotiated
        (negotiated.transcript.addMessage step.message) = .ok (octets answer) ∧
      Completes ring config (entropy, inputs) start log negotiated step.message answer
        connection := by
  obtain ⟨-, hhandle⟩ := underway_takes hstep
  rw [hbefore] at hhandle
  rcases flight_next hhandle with ⟨-, -, -, _, _, _, _, hnext⟩ | ⟨-, -, hfinish⟩
  · rw [hafter] at hnext
    cases hnext
  · obtain ⟨answer, _, -, hframed, hauth, -⟩ := finish_ends lawful hfinish
    exact ⟨answer, hauth, ⟨record, hstart⟩, ⟨step, hstep, hbefore, rfl, hafter, hauth⟩, hframed⟩

/-- What a client had read when it completed its handshake. -/
theorem Completes.reading (lawful : ring.Lawful) {run : Entropy × List (Entropy × Bytes)}
    {start : Awaiting} {log : List Message} {finished : Message} {answer : List Message}
    {connection : Connection}
    (h : Completes ring config run start log negotiated finished answer connection) :
    ∃ entropy reply, (∀ m ∈ log ++ [finished], Framed m) ∧ finished.typ = .finished ∧
      (∃ steps, log = steps.map (·.message) ∧
        Reading ring config start steps .finished negotiated) ∧
      finish ring entropy config negotiated finished = .ok (reply, .done connection) ∧
      Ends lawful negotiated finished answer connection := by
  obtain ⟨step, hstep, hbefore, rfl, hafter, hauth⟩ := h.finishes
  obtain ⟨⟨steps, hsteps, hunder⟩, hhandle⟩ := underway_takes hstep
  rw [hbefore] at hunder hhandle
  rw [hafter] at hhandle
  rcases flight_next hhandle with ⟨-, -, -, _, _, _, _, hnext⟩ | ⟨-, htyp, hfinish⟩
  · cases hnext
  · refine ⟨step.entropy, step.reply, hstep.framed, htyp, ⟨steps, hsteps, hunder⟩, hfinish, ?_⟩
    obtain ⟨answer', c, hnext, hframed', hauth', hends⟩ := finish_ends lawful hfinish
    obtain rfl := State.done.inj hnext
    obtain rfl := octets_inj h.framed hframed' (Except.ok.inj (hauth.symm.trans hauth'))
    exact hends

end Flight

end Client

/-! ### The sample ends -/

/-- Whether a client's step completes a handshake, and a server's step takes the Finished that it is
answered with. -/
def takesFinished (ring : Ring) (config : Client.ClientConfig)
    (mine : Endpoint.Taken Client.State) (its : Endpoint.Taken Server.State) : Bool :=
  match mine.before, mine.after, its.before with
  | .inFlight .finished reached, .done _, .awaitFinished _ =>
      ((Client.clientAuthentication ring mine.entropy config reached
        (reached.transcript.addMessage mine.message)).toOption.any fun authentication =>
          decide (its.message = Client.finishedMessage ring reached
            ((reached.transcript.addMessage mine.message).add authentication)))
  | _, _, _ => false

/-- Whether a client's step and a server's end their handshakes as the two ends of one connection,
under two keys. -/
def endsPaired (ring : Ring) (mine : Endpoint.Taken Client.State)
    (its : Endpoint.Taken Server.State) : Bool :=
  match mine.before, mine.after, its.before, its.after with
  | .inFlight .finished _, .done c, .awaitFinished negotiated, .done s =>
      decide (c.aead = s.aead ∧ c.hash = s.hash ∧ c.suite = s.suite ∧
        c.clientSecret = s.serverSecret ∧ c.serverSecret = s.clientSecret ∧
        c.resumptionMaster = negotiated.resumptionMaster ring its.message ∧
        c.sealer.key.key ≠ c.opener.key.key)
  | _, _, _, _ => false

/-- What the sample server remembers of the sample client. -/
def Server.sampleContents : TicketContents where
  suite := .tlsAes128GcmSha256
  issuedAt := 0
  lifetime := 100
  ageAdd := 0x06060606
  identity := TicketContents.identityOf .sampleSigned Server.ServerConfig.sample.certificates
  clientCertificates := Server.ServerConfig.sample.certificates
  psk := [216, 45, 54, 183, 6, 89, 202, 24, 170, 249, 181, 140, 242, 189, 39, 53, 14, 106, 135, 109,
    176, 145, 140, 25, 8, 79, 137, 111, 22, 67, 3, 249]

/-- What the sample client is given. -/
def Server.sampleSession : Session where
  ticket := (Server.sampleContents.sealContents .sampleSigned Server.Tickets.sample.keys.current
    ((Entropy.sample 4).fill 3 nonceLen)).toOption.getD []
  lifetime := Server.sampleContents.lifetime
  ageAdd := Server.sampleContents.ageAdd
  suite := Server.sampleContents.suite
  peerCertificates := Server.ServerConfig.sample.certificates
  psk := Server.sampleContents.psk

/-- Whether the step that ends a server's handshake gives the sample client its session. -/
def givesSample (mine : Endpoint.Taken Client.State) (its : Endpoint.Taken Server.State) : Bool :=
  match mine.after, its.after with
  | .done c, .done s =>
      decide (its.reply ≠ [] ∧ c.suite = .tlsAes128GcmSha256 ∧
        s.certificates = Server.ServerConfig.sample.certificates ∧
        (c.read .sampleSigned its.reply).1 = .ok (.tickets [Server.sampleSession]))
  | _, _ => false

/-- The last steps of the sample client and the sample server. -/
theorem sample_lastSteps : ∃ mine ∈ (Client.endpoint .sampleSigned Server.sampleIdentified).taken
      ⟨.awaitServerHello Client.sampleOpening, []⟩ Client.sampleHeard,
    ∃ its ∈ (Server.endpoint .sampleSigned Server.sampleAsking).taken Server.ServerHandshake.new
      Server.sampleDialogue,
      takesFinished .sampleSigned Server.sampleIdentified mine its = true ∧
        endsPaired .sampleSigned mine its = true ∧ givesSample mine its = true := by
  have hcheck : (((Client.endpoint .sampleSigned Server.sampleIdentified).taken
      ⟨.awaitServerHello Client.sampleOpening, []⟩ Client.sampleHeard).getLast?.any fun mine =>
        ((Server.endpoint .sampleSigned Server.sampleAsking).taken Server.ServerHandshake.new
          Server.sampleDialogue).getLast?.any fun its =>
            takesFinished .sampleSigned Server.sampleIdentified mine its &&
              (endsPaired .sampleSigned mine its && givesSample mine its)) = true := by
    decide +kernel
  obtain ⟨mine, hmine, hany⟩ := (Option.any_eq_true _ _).mp hcheck
  obtain ⟨its, hits, hall⟩ := (Option.any_eq_true _ _).mp hany
  obtain ⟨htakes, hboth⟩ := Bool.and_eq_true_iff.mp hall
  exact ⟨mine, List.mem_of_getLast? hmine, its, List.mem_of_getLast? hits, htakes,
    Bool.and_eq_true_iff.mp hboth⟩

/-! ### The server that takes it -/

section Agreement

variable {ring : Ring} {client : Client.ClientConfig} {server : Server.ServerConfig}
  {start awaiting : Client.Awaiting} {reply : Client.Reply}
  {log reading flight answer heard : List Message}
  {reached : Client.Negotiated} {finished : Message} {given : Server.Answer}
  {answered negotiated : Server.Negotiated}

/-- What a server is left with by the step that ends its handshake. -/
theorem Server.ends_of_taken (lawful : ring.Lawful) {inputs : List (Entropy × Bytes)}
    {step : Endpoint.Taken State}
    (hstep : step ∈ (endpoint ring server).taken ServerHandshake.new inputs)
    (hbefore : step.before = .awaitFinished negotiated) {s : Connection}
    (hafter : step.after = .done s) :
    ∃ messages issued, Ends lawful step.entropy server negotiated step.message messages issued
      step.reply s := by
  obtain ⟨_, htakes⟩ := Endpoint.exists_takes hstep
  obtain ⟨_, _, _, -, -, -, -, hhandle⟩ := hearing_takes htakes hbefore
  rw [hafter] at hhandle
  rcases flight_next hhandle with ⟨-, -, -, _, _, _, hnext⟩ | ⟨-, -, hfinished⟩
  · cases hnext
  · obtain ⟨messages, issued, _, hnext, hends⟩ := handleFinished_ends lawful hfinished
    obtain rfl := State.done.inj hnext
    exact ⟨messages, issued, hends⟩

/-- The two ends of one session have each other's secrets, and one to resume with. -/
theorem paired_of_sameSession (lawful : ring.Lawful) {entropy entropy' : Entropy}
    {bytes out : Bytes} {c s : Connection} {messages : List Message} {issued : List IssuedTicket}
    (hfinish : Client.finish ring entropy client reached finished = .ok (bytes, .done c))
    (hmine : Client.Ends lawful reached finished answer c)
    (hkeyed : Client.Keyed ring client awaiting reply flight reached)
    (hanswers : Server.AnswersHello ring server given answered)
    (hcontinues : Server.Continues answered heard negotiated) {last : Message}
    (hits : Server.Ends lawful entropy' server negotiated last messages issued out s)
    (hlast : last = Client.finishedMessage ring reached (Client.answered reached finished answer))
    (hsent : reached.transcript.buffer ++ finished.encoded
      = given.draw.sent ring server given.head given.hello given.selected)
    (hsame : (Client.answered reached finished answer).buffer = negotiated.transcript.buffer)
    (hsession : SameSession ring client server start reading reached given answered) :
    Paired c s ∧ c.resumptionMaster = negotiated.resumptionMaster ring last := by
  obtain ⟨hclient, hserver⟩ := Server.secrets_of_sent hsession hkeyed hanswers hfinish hsent
  have hhash : reached.hash = negotiated.hash := hsession.hash.trans hcontinues.hash.symm
  refine ⟨⟨?_, ?_, ?_, ?_, ?_⟩, ?_⟩
  · rw [hmine.aead, hits.aead, hsession.aead, hcontinues.aead]
  · rw [hmine.hash, hits.hash, hhash]
  · rw [hmine.suite, hits.suite, hsession.suite, hcontinues.suite]
  · rw [hclient, hits.receiving, hcontinues.clientApplication]
  · rw [hserver, hits.sending, hcontinues.serverApplication]
  · have htranscript : Client.answered reached finished answer = negotiated.transcript := by
      have halg : negotiated.transcript.hashAlg = negotiated.hash := by
        rw [hcontinues.transcript, hanswers.completed.transcript, hcontinues.hash,
          hanswers.completed.hash]
      rw [hkeyed.answered_eq] at hsame ⊢
      dsimp only at hsame
      rw [hhash, ← halg, hsame]
    rw [hmine.resumptionMaster, ← hlast, htranscript, hsession.master, ← hcontinues.master]
    rfl

/-- What a client's run and a server's have come to: the client took the server's Finished, the
server has heard all that the client answered, the two have one session, and their connections are
the ends of one. -/
structure Connects {ring : Ring} (lawful : ring.Lawful) (client : Client.ClientConfig)
    (server : Server.ServerConfig) (start : Client.Awaiting) (reading : List Message)
    (reached : Client.Negotiated) (finished : Message) (answer : List Message)
    (connection : Connection) (given : Server.Answer) (answered : Server.Negotiated)
    (heard : List Message) (negotiated : Server.Negotiated) (step : Endpoint.Taken Server.State) :
    Prop where
  answer_eq : answer = heard
  finished_eq : finished = given.finishedMessage ring server
  session : SameSession ring client server start reading reached given answered
  mine : Client.Ends lawful reached finished answer connection
  its : ∃ messages issued s, step.after = .done s ∧
    Server.Ends lawful step.entropy server negotiated step.message messages issued step.reply s ∧
    Paired connection s ∧
    connection.resumptionMaster = negotiated.resumptionMaster ring step.message

/-- **Agreement on the client's Finished**, with or without a certificate, a session to resume or a
retry. Where a server takes the Finished that a run of a client sent, the client had accepted the
server's, the server has heard all that the client answered, and the two have one session. The
connections that they establish are the ends of one: they have each other's secrets, one secret to
resume with, and sequence numbers that start afresh. Else two inputs of the MAC, two transcripts, the
first hellos that the two runs sent and received or two PSKs under the binder collide. -/
theorem Server.run_finishedByClient (complete : ring.Complete) (hshares : ring.ShareLengths)
    (hshort : Client.ShortHellos client) {inputs : List (Entropy × Bytes)}
    {step : Endpoint.Taken State}
    (hstep : (endpoint ring server).Takes ServerHandshake.new inputs log step)
    (hbefore : step.before = .awaitFinished negotiated)
    {run : Entropy × List (Entropy × Bytes)} {connection : Connection}
    (hcompletes : Client.Completes ring client run start reading reached finished answer connection)
    (hmessage : step.message
      = Client.finishedMessage ring reached (Client.answered reached finished answer)) :
    ∃ given answered heard, Sends ring server inputs given answered ∧
      log = given.before ++ given.message :: heard ∧ Continues answered heard negotiated ∧
      (Collides (reached.hash.mac ring)
          (finishedInput ring reached.hash reached.clientHandshakeSecret
            (Client.answered reached finished answer).buffer)
          (finishedInput ring negotiated.hash negotiated.clientHandshakeSecret
            negotiated.transcript.buffer) ∨
        Collides (reached.hash.hash ring) (Client.answered reached finished answer).buffer
          negotiated.transcript.buffer ∨
        FirstHellosCollide ring start given ∨ BindersCollide ring client given ∨
        Connects complete.toLawful client server start reading reached finished answer connection
          given answered heard negotiated step) := by
  have lawful := complete.toLawful
  have hframed : ∀ m ∈ log, Framed m := (List.forall_mem_append.mp hstep.framed).1
  obtain ⟨given, answered, heard, hsends, rfl, hcontinues, -, hhandle⟩ :=
    hearing_takes hstep hbefore
  have hanswers := hsends.answers
  refine ⟨given, answered, heard, hsends, rfl, hcontinues, ?_⟩
  rcases flight_next hhandle with ⟨-, htyp, -⟩ | ⟨-, -, hfinished⟩
  · rw [hmessage] at htyp
    exact absurd rfl htyp
  obtain ⟨_, _, _, hverify, -⟩ := handleFinished_inv hfinished
  obtain ⟨record, hstart⟩ := hcompletes.started
  obtain ⟨entropy, bytes, hmine, htyp, ⟨steps, hsteps, -, -, before, awaiting, reply, flight, hlog,
    hopened, hkeyed⟩, hfinish, hends⟩ := hcompletes.reading lawful
  obtain rfl := hsteps.trans hlog
  have hmac : finishedVerifyData ring reached.hash reached.clientHandshakeSecret
      (reached.hash.hash ring (Client.answered reached finished answer).buffer)
      = finishedVerifyData ring negotiated.hash negotiated.clientHandshakeSecret
          (negotiated.hash.hash ring negotiated.transcript.buffer) := by
    have halg : negotiated.transcript.hash ring
        = negotiated.hash.hash ring negotiated.transcript.buffer := by
      rw [hcontinues.transcript, hanswers.completed.transcript, hcontinues.hash,
        hanswers.completed.hash]
      rfl
    rw [verifyFinished, Ring.hmacVerify, beq_iff_eq, hmessage, hkeyed.answered_eq, halg] at hverify
    rw [hkeyed.answered_eq]
    exact hverify.symm
  rcases transcript_of_finished lawful hmac with hcollides | hcollides | ⟨hhash, hsame⟩
  · exact .inl hcollides
  · exact .inr (.inl hcollides)
  · rcases sameSession_of_answered complete hshares hshort hstart hopened hkeyed hmine
      hcompletes.framed htyp hanswers hcontinues hframed hhash hsame with
      hcollides | hcollides | ⟨hheard, htheirs, hsent, hsession⟩
    · exact .inr (.inr (.inl hcollides))
    · exact .inr (.inr (.inr (.inl hcollides)))
    · obtain ⟨messages, issued, s, hdone, hits⟩ := handleFinished_ends lawful hfinished
      obtain ⟨hpaired, hmaster⟩ := paired_of_sameSession lawful hfinish hends hkeyed hanswers
        hcontinues hits hmessage hsent hsame hsession
      exact .inr (.inr (.inr (.inr ⟨hheard, htheirs, hsession, hends, messages, issued, s, hdone,
        hits, hpaired, hmaster⟩)))

end Agreement

/-- The sample server takes the sample client's Finished. -/
theorem Server.run_finishedByClient_sample :
    ∃ log step negotiated reading reached finished answer connection,
      (endpoint .sampleSigned sampleAsking).Takes ServerHandshake.new sampleDialogue log step ∧
        step.before = .awaitFinished negotiated ∧
        Client.Completes .sampleSigned sampleIdentified (.sample 1, Client.sampleHeard)
          Client.sampleOpening reading reached finished answer connection ∧
        ∃ given answered heard, Sends .sampleSigned sampleAsking sampleDialogue given answered ∧
          log = given.before ++ given.message :: heard ∧ Continues answered heard negotiated ∧
          (Collides (reached.hash.mac .sampleSigned)
              (finishedInput .sampleSigned reached.hash reached.clientHandshakeSecret
                (Client.answered reached finished answer).buffer)
              (finishedInput .sampleSigned negotiated.hash negotiated.clientHandshakeSecret
                negotiated.transcript.buffer) ∨
            Collides (reached.hash.hash .sampleSigned)
              (Client.answered reached finished answer).buffer negotiated.transcript.buffer ∨
            FirstHellosCollide .sampleSigned Client.sampleOpening given ∨
            BindersCollide .sampleSigned sampleIdentified given ∨
            Connects Ring.sampleSigned_complete.toLawful sampleIdentified sampleAsking
              Client.sampleOpening reading reached finished answer connection given answered heard
              negotiated step) := by
  obtain ⟨mine, hmine, step, hstep, htakes, -⟩ := sample_lastSteps
  unfold takesFinished at htakes
  split at htakes
  · next reached connection negotiated hreached hdone hbefore =>
      obtain ⟨authentication, hauth, hmessage⟩ := (Option.any_eq_true _ _).mp htakes
      have hauth := toOption_eq_some.mp hauth
      obtain ⟨record, hstart⟩ := Client.start_sampleOpening
      obtain ⟨reading, hreading⟩ := Endpoint.exists_takes hmine
      obtain ⟨log, hlog⟩ := Endpoint.exists_takes hstep
      obtain ⟨answer, hoctets, hcompletes⟩ := Client.completes_of_takes
        Ring.sampleSigned_complete.toLawful hstart hreading hreached hdone
      obtain rfl := Except.ok.inj (hauth.symm.trans hoctets)
      exact ⟨log, step, negotiated, reading, reached, mine.message, answer, connection, hlog,
        hbefore, hcompletes, run_finishedByClient Ring.sampleSigned_complete
          Ring.sampleSigned_lengths (by decide) hlog hbefore hcompletes
          (of_decide_eq_true hmessage)⟩
  · cases htakes

end RustyTls
