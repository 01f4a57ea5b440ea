import RustyTls.Duplex
import RustyTls.RecordPadding
import RustyTls.TicketAge

/-!
# RustyTls.Returning

A client that comes back with a session it was given.

The first connection ends in `Established` ends, and the client makes sessions of the tickets that
it is sent. A server that still keeps the ticket's key, has the certificates it was issued under, is
asked in time and would choose the same suite takes the session up: whatever the network does, a
client that completes the second handshake with that server has resumed, and the server knows it by
the certificates it presented the first time.
-/

namespace RustyTls

open Core

namespace Server

/-- What it takes for a server to resume a session of an earlier connection: it keeps the ticket's
key, it is asked within the ticket's lifetime and told the age well enough, it has the same
certificates, it would choose the suite again, and it would still accept the client's
certificates. -/
structure Renews (ring : Ring) (server later : ServerConfig) (returning : Client.ClientConfig)
    (c s : Connection) (resumption : Client.Resumption) : Prop where
  keeps : ∀ tickets, server.tickets = some tickets → ∃ tickets', later.tickets = some tickets' ∧
    tickets'.keys.Keeps ring tickets.keys.current resumption.session.ticket ∧
    tickets.now.toInt ≤ tickets'.now.toInt ∧
    tickets'.now.toInt - tickets.now.toInt ≤ tickets.lifetime.toNat ∧
    ∀ skew, tickets'.maxAgeSkewMs = some skew →
      |min (2 ^ 32 - 1) (1000 * (tickets'.now.toInt - tickets.now.toInt)) -
        (resumption.ageMs.toNat : Int)| ≤ (skew.toNat : Int)
  identity : later.certificates = server.certificates
  sameSuite : commonSuite returning later = some c.suite
  stillAccepted : ∀ contents : TicketContents, contents.clientCertificates = s.certificates →
    clientIsStillAcceptable ring later contents = true

section Renewing

variable {ring : Ring} {entropy : Entropy} {server later : ServerConfig} {tickets : Tickets}
  {negotiated : Negotiated} {resumptionMaster : Bytes} {issued : IssuedTicket}
  {returning : Client.ClientConfig} {c s : Connection} {age : UInt32}

/-- A ticket's contents are acceptable to a server that renews its session. -/
theorem Renews.acceptable (lawful : ring.Lawful)
    (hissues : Issues ring entropy server tickets negotiated resumptionMaster issued)
    (hshort : issued.ticket.length < 2 ^ 16) (htickets : server.tickets = some tickets)
    (hsuite : c.suite = negotiated.suite)
    (hcertificates : s.certificates = negotiated.clientCertificates)
    (h : Renews ring server later returning c s ⟨issued.session ring tickets.lifetime c, age⟩) :
    ∃ tickets', later.tickets = some tickets' ∧ ∃ psk,
      Acceptable ring later tickets' c.suite
        (Client.offeredIdentity ⟨issued.session ring tickets.lifetime c, age⟩)
        (ticketContents ring server tickets negotiated issued.ageAdd psk) := by
  obtain ⟨tickets', hlater, hkeeps, hpast, hcurrent, hage⟩ := h.keeps tickets htickets
  refine ⟨tickets', hlater, _, hissues.opens lawful hshort hkeeps, hsuite.symm, ?_, ?_, ?_, ?_⟩
  · exact (TicketContents.isCurrent_iff _ _).mpr (.inl ⟨hpast, hcurrent⟩)
  · rw [h.identity]
    rfl
  · intro skew hskew
    rw [TicketContents.ageIsPlausible_eq]
    have hreported : TicketContents.reportedAgeMs (ticketContents ring server tickets negotiated
        issued.ageAdd (expandLabel ring negotiated.hash resumptionMaster "resumption" issued.nonce
          negotiated.hash.len)) (age + issued.ageAdd) = age := by
      simp [TicketContents.reportedAgeMs, ticketContents]
    have hmax : max 0 (tickets'.now.toInt - tickets.now.toInt)
        = tickets'.now.toInt - tickets.now.toInt := by omega
    simp only [Client.offeredIdentity, IssuedTicket.session, hreported]
    simp only [TicketContents.ageMs, ticketContents, hmax]
    exact hage skew hskew
  · exact h.stillAccepted _ hcertificates.symm

end Renewing

end Server

section Returning

variable {ring : Ring} {client returning : Client.ClientConfig} {server later : Server.ServerConfig}
  {c s : Connection} {messages : List Message} {issued : List IssuedTicket} {out : Bytes}
  {resumption : Client.Resumption}

/-- What stands behind a session that a client was given: the ticket, as the server issued it. -/
theorem Duplex.Established.issues {lawful : ring.Lawful}
    (h : Duplex.Established lawful client server c s messages issued out) {session : Session}
    (hsession : session ∈ Duplex.sessionsOf ring server c issued) :
    ∃ entropy tickets negotiated one, server.tickets = some tickets ∧
      Server.Issues ring entropy server tickets negotiated c.resumptionMaster one ∧
      one.ticket.length < 2 ^ 16 ∧ session = one.session ring tickets.lifetime c ∧
      c.suite = negotiated.suite ∧ c.hash = negotiated.hash ∧
      s.certificates = negotiated.clientCertificates := by
  obtain ⟨_, step, -, negotiated, -, -, -, hends, hmaster⟩ := h.ends
  have hsends := hends.tickets
  obtain ⟨one, hone, rfl⟩ := List.mem_map.mp hsession
  generalize hsealer : s.sealer = sealer at hsends
  cases hsends with
  | nothing => simp at hone
  | @record tickets _ _ _ hconfig hlength hne hissues hseal =>
      obtain ⟨_, _, -, hshort, -⟩ := sealRecord_ok hseal
      obtain ⟨hmax, -⟩ := limits
      have hin : one.message tickets.lifetime ∈ issued.map (·.message tickets.lifetime) :=
        List.mem_map.mpr ⟨one, hone, rfl⟩
      have hlen := Nat.le_trans (encoded_length_le hin) hshort
      rw [IssuedTicket.message_encoded] at hlen
      refine ⟨step.entropy, tickets, negotiated, one, hconfig, hmaster ▸ hissues one hone, by omega,
        by rw [hconfig]; rfl, ?_, ?_, hends.certificates⟩
      · rw [h.paired.suite, hends.suite]
      · rw [h.paired.hash, hends.hash]

/-- A session that a server renews is one that it honours, and can resume. -/
theorem Server.Renews.resumable {lawful : ring.Lawful}
    (h : Duplex.Established lawful client server c s messages issued out)
    (hsession : resumption.session ∈ Duplex.sessionsOf ring server c issued)
    (hrenews : Renews ring server later returning c s resumption)
    (hresumption : returning.resumption = some resumption) :
    Honours ring later resumption.session ∧ Resumable ring returning later c.suite ∧
      ∀ tickets' contents, later.tickets = some tickets' →
        Acceptable ring later tickets' c.suite (Client.offeredIdentity resumption) contents →
        contents.clientCertificates = s.certificates := by
  obtain ⟨entropy, tickets, negotiated, one, htickets, hissues, hshort, hone, hsuite, hhash,
    hcertificates⟩ := h.issues hsession
  obtain ⟨session, age⟩ := resumption
  obtain rfl : session = one.session ring tickets.lifetime c := hone
  obtain ⟨tickets', hlater, hkeeps, -⟩ := hrenews.keeps tickets htickets
  obtain ⟨tickets'', hlater', psk, hacceptable⟩ :=
    hrenews.acceptable lawful hissues hshort htickets hsuite hcertificates
  obtain rfl := Option.some.inj (hlater.symm.trans hlater')
  refine ⟨?_, ⟨_, tickets', _, hresumption, hlater, hacceptable⟩, ?_⟩
  · refine hissues.honoured lawful hshort hsuite hhash rfl ?_
    intro other hother
    obtain rfl := Option.some.inj (hlater.symm.trans hother)
    exact hkeeps
  · intro other contents hother hacc
    obtain rfl := Option.some.inj (hlater.symm.trans hother)
    rw [hacc.unique hacceptable, hcertificates]
    rfl

/-- The server takes up the session of a hello that offers it. -/
theorem Server.AnswersHello.takesUp (complete : ring.Complete) {start awaiting : Client.Awaiting}
    {reply : Client.Reply} {flight : List Message} {negotiated : Client.Negotiated}
    {answer : Answer} {answered : Negotiated}
    (hanswers : AnswersHello ring later answer answered)
    (hhellos : SameHellos ring returning later start awaiting reply answer)
    (hkeyed : Client.Keyed ring returning awaiting reply flight negotiated)
    (hhonours : ∀ resumption, returning.resumption = some resumption →
      Honours ring later resumption.session) :
    TakesUp ring returning later answer.selected.suite answer.selected.hash
      answer.selected.psk := by
  obtain ⟨binder, hhello, hoffers⟩ := hhellos.hello
  have hsuites : returning.cipherSuites ≠ [] := List.ne_nil_of_mem hkeyed.accepted.offered
  obtain ⟨psk, hpsk, htakes⟩ := acceptPsk_sent complete.toLawful hanswers.parts hhonours
    (hoffers.fits hsuites) (hoffers.encodes ▸ hoffers.binds)
  have hselected := hanswers.psk
  rw [hhello, hoffers.encodes] at hselected
  obtain rfl := Except.ok.inj (hpsk.symm.trans hselected)
  exact htakes

/-- A server that can resume the session that a client offers takes it up, with the PSK and the
certificates that its ticket says. -/
theorem Server.AnswersHello.renewed (complete : ring.Complete) {start awaiting : Client.Awaiting}
    {reply : Client.Reply} {flight : List Message} {negotiated : Client.Negotiated}
    {answer : Answer} {answered : Negotiated}
    (hanswers : AnswersHello ring later answer answered)
    (hhellos : SameHellos ring returning later start awaiting reply answer)
    (hkeyed : Client.Keyed ring returning awaiting reply flight negotiated)
    (hresumption : returning.resumption = some resumption)
    (hhonour : Honours ring later resumption.session)
    (hresumable : Resumable ring returning later answer.selected.suite) :
    ∃ accepted tickets' contents, answer.selected.psk = some accepted ∧
      later.tickets = some tickets' ∧ accepted.psk = resumption.session.psk ∧
      accepted.clientCertificates = contents.clientCertificates ∧
      Acceptable ring later tickets' answer.selected.suite (Client.offeredIdentity resumption)
        contents := by
  have hhonours : ∀ other, returning.resumption = some other →
      Honours ring later other.session := by
    intro other hother
    obtain rfl := Option.some.inj (hresumption.symm.trans hother)
    exact hhonour
  have htakes := hanswers.takesUp complete hhellos hkeyed hhonours
  have hselected := hanswers.psk
  generalize hpsk : answer.selected.psk = psk at htakes
  cases htakes with
  | nothing hnot => exact absurd hresumable hnot
  | @session other certificates _ hother _ _ =>
      obtain rfl := Option.some.inj (hresumption.symm.trans hother)
      rw [hpsk] at hselected
      obtain ⟨tickets', offer, _, offered, contents, _, haccepted⟩ := acceptPsk_inv hselected
      obtain ⟨binder, hhello, hoffers⟩ := hhellos.hello
      obtain ⟨data, hdata, hparse⟩ := haccepted.parsed
      have hsuites : returning.cipherSuites ≠ [] := List.ne_nil_of_mem hkeyed.accepted.offered
      have hoffer := parse_offer_sent complete.toLawful hresumption hhonour.ticket_ne
        (hoffers.fits hsuites) (hoffers.encodes ▸ hoffers.binds)
      rw [hhello, Client.Awaiting.hello, Client.sentHello, Client.find_preSharedKey_sent,
        hresumption] at hdata
      obtain rfl := Option.some.inj hdata
      obtain rfl := Except.ok.inj (hoffer.symm.trans hparse)
      obtain rfl := List.mem_singleton.mp haccepted.mem_identities
      exact ⟨_, tickets', contents, rfl, haccepted.configured, rfl, haccepted.chain_eq,
        haccepted.acceptable⟩

/-- **A client that comes back resumes.** Let a client have been given sessions by a connection with
a server, let it offer one of them to a server that `Renews` it, and let it accept the Finished that
a run of that server sent, whatever the network did on the way. Then the client's second connection
is a resumed one, with the secrets of the server's run, and that run knows the client by the
certificates of the first connection. Else two inputs of the MAC, two transcripts or two first
hellos collide. -/
theorem Client.run_resumesTicket (complete : ring.Complete) (hshares : ring.ShareLengths)
    (hestablished : Duplex.Established complete.toLawful client server c s messages issued out)
    (hsession : resumption.session ∈ Duplex.sessionsOf ring server c issued)
    (hresumption : returning.resumption = some resumption)
    (hrenews : Server.Renews ring server later returning c s resumption)
    (hshort : ShortHellos returning) {entropy : Entropy} {start : Awaiting} {record : Bytes}
    (hstart : Client.start ring entropy returning = .ok (⟨.awaitServerHello start, []⟩, record))
    {inputs : List (Entropy × Bytes)} {log : List Message} {step : Endpoint.Taken State}
    (hstep : (endpoint ring returning).Takes ⟨.awaitServerHello start, []⟩ inputs log step)
    {negotiated : Negotiated} (hbefore : step.before = .inFlight .finished negotiated)
    {run : List (Entropy × Bytes)} {answer : Server.Answer} {answered : Server.Negotiated}
    (hsends : Server.Sends ring later run answer answered)
    (hmessage : step.message = answer.finishedMessage ring later) :
    let covered := answer.draw.covered later answer.head answer.hello answer.selected
    Collides (negotiated.hash.mac ring)
        (finishedInput ring negotiated.hash negotiated.serverHandshakeSecret
          negotiated.transcript.buffer)
        (finishedInput ring answer.selected.hash
          (answer.draw.serverSecret ring answer.head answer.hello answer.selected) covered) ∨
      Collides (negotiated.hash.hash ring) negotiated.transcript.buffer covered ∨
      FirstHellosCollide ring start answer ∨
      SameSession ring returning later start log negotiated answer answered ∧
        answered.clientCertificates = s.certificates ∧
        ∃ connection, step.after = .done connection ∧ connection.resumed = true ∧
          connection.suite = c.suite ∧
          connection.clientSecret = answered.clientApplicationSecret ∧
          connection.serverSecret = answered.serverApplicationSecret := by
  intro covered
  have hanswers := hsends.answers
  rcases sameHellos_of_finished complete hshares hshort hstart hstep hbefore hsends hmessage with
    hcollides | hcollides | hcollides |
      ⟨before, awaiting, reply, flight, connection, rfl, hopened, hsame, hhash, hoctets, hhellos,
        hkeyed, hdone, hfinish⟩
  · exact .inl hcollides
  · exact .inr (.inl hcollides)
  · exact .inr (.inr (.inl hcollides))
  obtain ⟨hhonour, hresumable, hchain⟩ := hrenews.resumable hestablished hsession hresumption
  have hsuite : answer.selected.suite = c.suite :=
    Option.some.inj (hhellos.suite.symm.trans hrenews.sameSuite)
  obtain ⟨accepted, tickets', contents, hpsk, hlater, hkey, hcertificates, hacceptable⟩ :=
    hanswers.renewed complete hhellos hkeyed hresumption hhonour (hsuite ▸ hresumable)
  rw [hsuite] at hacceptable
  -- The client resumes the one session that it offered.
  obtain ⟨session, hsome⟩ : ∃ session, reply.session = some session := by
    rw [← Option.isSome_iff_exists, hhellos.resumed, hpsk]
    rfl
  have hmine : session = resumption.session := by
    have haccepted := hkeyed.session
    rw [hsome] at haccepted
    obtain ⟨other, data, hother, rfl, -⟩ := acceptedSession_inv haccepted
    rw [Option.some.inj (hresumption.symm.trans hother)]
  have hagreed : reply.session.map (·.psk) = answer.selected.psk.map (·.psk) := by
    rw [hsome, hpsk, hmine, Option.map_some, Option.map_some, hkey]
  have hsession' := hhellos.sameSession hopened hkeyed hanswers hagreed hoctets
  refine .inr (.inr (.inr ⟨hsession', ?_, connection, hdone, ?_, ?_, ?_⟩))
  · rw [hanswers.completed.certificates, hpsk, Option.map_some, Option.getD_some, hcertificates,
      hchain tickets' contents hlater hacceptable]
  · obtain ⟨_, _, -, -, -, hnext, -, -, -, -, hresumed⟩ := finish_inv hfinish
    obtain rfl := State.done.inj hnext
    rw [hresumed, hkeyed.resumed, hsome]
    rfl
  · obtain ⟨_, _, -, -, -, hnext, -, -, hsuite', -⟩ := finish_inv hfinish
    obtain rfl := State.done.inj hnext
    rw [hsuite', hsession'.suite, hanswers.completed.suite, hsuite]
  · refine Server.secrets_of_sent hsession' hkeyed hanswers hfinish ?_
    rw [hsame, hmessage]
    rfl

end Returning

/-! ### The sample client comes back -/

/-- What an established client reads of the record with its tickets. -/
theorem Duplex.Established.reads {ring : Ring} {lawful : ring.Lawful} {client : Client.ClientConfig}
    {server : Server.ServerConfig} {c s : Connection} {messages : List Message}
    {issued : List IssuedTicket} {out : Bytes}
    (h : Duplex.Established lawful client server c s messages issued out) (hout : out ≠ []) :
    (c.read ring out).1 = .ok (.tickets (Duplex.sessionsOf ring server c issued)) := by
  obtain ⟨_, _, _, _, _, _, hcompletes⟩ := h.completes
  obtain ⟨_, _, -, -, -, -, hmine⟩ := hcompletes.reading lawful
  obtain ⟨_, step, -, negotiated, -, -, -, hits, -⟩ := h.ends
  have hopener := Duplex.opener_of_paired hmine hits h.paired
  have hsends := hits.tickets
  generalize hsealer : s.sealer = sealer at hsends
  cases hsends with
  | nothing => exact absurd rfl hout
  | @record tickets _ _ _ hconfig hlength hne hissues hseal =>
      obtain ⟨_, _, -, hshort, -, -, hrecord, -⟩ := sealRecord_ok hseal
      have hopen := openRecord_sealRecord lawful (by decide) hseal
      have hmaster : c.resumptionMaster ≠ [] := by
        rw [hmine.resumptionMaster]
        exact Duplex.derive_ne lawful _ _ _
      have hread := Connection.postHandshake_issued ring
        { c with opener := ⟨s.sealer.key, s.sealer.seq⟩ } hmaster hne (Server.Issues.reads hissues)
        hshort
      rw [hsealer] at hread
      rw [← hopener] at hopen
      rw [Connection.read, if_neg (Connection.head_of_openRecord hopen), hopen]
      simp only [Duplex.sessionsOf, hconfig, Option.map_some, Option.getD_some]
      exact congrArg Prod.fst hread

namespace Server

/-- The sample client, come back. -/
def sampleReturning : Client.ClientConfig :=
  { sampleIdentified with resumption := some ⟨sampleSession, 0⟩ }

/-- It waits, and what it has sent. -/
def sampleReopening : Client.Awaiting × Bytes :=
  match Client.start .sampleSigned (.sample 5) sampleReturning with
  | .ok (⟨.awaitServerHello awaiting, _⟩, record) => (awaiting, record)
  | _ => (⟨[], ⟨.x25519, [], []⟩, false, [], []⟩, [])

/-- The step in which the sample server answers it. -/
def sampleRenewal : Endpoint.Taken State :=
  ((endpoint .sampleSigned sampleAsking).taken ServerHandshake.new
    [(.sample 6, sampleReopening.2)]).head?.getD
      ⟨.sample 6, .failed, ⟨.finished, [], []⟩, [], .failed⟩

/-- What the client hears of it. -/
def sampleWelcome : List (Entropy × Bytes) :=
  (records sampleRenewal.reply).map (.sample 7, ·)

/-- What it answers. -/
def sampleRenewing : Answer :=
  let message := sampleRenewal.message
  let hello := (ClientHello.parse message.body).toOption.getD ⟨[], [], [], []⟩
  let psk := (acceptPsk .sampleSigned sampleAsking hello message.encoded [] .tlsAes128GcmSha256
    .sha256).toOption.getD none
  ⟨[], [], message, hello,
    ⟨.tlsAes128GcmSha256, .aes128Gcm, .sha256, .ed25519, .x25519, beBytes 32 45, psk⟩, .sample 6,
    ⟨⟨.x25519, [6], beBytes 32 54⟩, List.replicate 32 6, beBytes 32 270, []⟩⟩

theorem sampleSession_renewed {c s : Connection} (hsuite : c.suite = .tlsAes128GcmSha256)
    (hcertificates : s.certificates = ServerConfig.sample.certificates) :
    Renews .sampleSigned sampleAsking sampleAsking sampleReturning c s ⟨sampleSession, 0⟩ := by
  refine ⟨?_, rfl, ?_, ?_⟩
  · intro tickets htickets
    obtain rfl := Option.some.inj htickets
    refine ⟨.sample, rfl, ⟨List.mem_cons_self, ?_⟩, le_refl _, by decide, ?_⟩
    · intro other hmem hne
      exact absurd (List.mem_singleton.mp hmem) hne
    · intro skew hskew
      cases hskew
  · rw [hsuite]
    decide
  · intro contents hcontents
    have hsame : clientIsStillAcceptable .sampleSigned sampleAsking contents
        = clientIsStillAcceptable .sampleSigned sampleAsking sampleContents := by
      have hsample : sampleContents.clientCertificates = ServerConfig.sample.certificates := rfl
      simp only [clientIsStillAcceptable, hcontents, hcertificates, hsample]
    rw [hsame]
    decide +kernel

theorem start_sampleReopening : ∃ record, Client.start .sampleSigned (.sample 5) sampleReturning
    = .ok (⟨.awaitServerHello sampleReopening.1, []⟩, record) := by
  have hcheck : ((Client.start .sampleSigned (.sample 5) sampleReturning).toOption.any
      fun started => decide (started.1 = ⟨.awaitServerHello sampleReopening.1, []⟩)) = true := by
    decide +kernel
  obtain ⟨⟨handshake, record⟩, hstarted, hsame⟩ := (Option.any_eq_true _ _).mp hcheck
  obtain rfl := of_decide_eq_true hsame
  exact ⟨record, toOption_eq_some.mp hstarted⟩

/-- The sample server answers the sample client that has come back. -/
theorem sampleRenewing_sends : ∃ answered, Sends .sampleSigned sampleAsking
    [(.sample 6, sampleReopening.2)] sampleRenewing answered := by
  have hcheck : (((endpoint .sampleSigned sampleAsking).taken ServerHandshake.new
      [(.sample 6, sampleReopening.2)]).head?.any
        (sampleRenewing.sentBy .sampleSigned sampleAsking)) = true := by decide +kernel
  obtain ⟨step, hhead, hsent⟩ := (Option.any_eq_true _ _).mp hcheck
  obtain ⟨⟨_, hinput⟩, -⟩ := Endpoint.taken_mem (List.mem_of_mem_head? hhead)
  obtain ⟨hentropy, -⟩ := Prod.mk.inj (List.mem_singleton.mp hinput)
  exact Answer.sends_of_head hhead hentropy.symm hsent

end Server

/-- The sample client resumes its session, and nothing collides. -/
theorem Client.run_resumesTicket_sample : ∃ c s messages issued out,
    Duplex.Established Ring.sampleSigned_complete.toLawful Server.sampleIdentified
      Server.sampleAsking c s messages issued out ∧
    Server.sampleSession ∈ Duplex.sessionsOf .sampleSigned Server.sampleAsking c issued ∧
    ∃ answered log step negotiated, (endpoint .sampleSigned Server.sampleReturning).Takes
        ⟨.awaitServerHello Server.sampleReopening.1, []⟩ Server.sampleWelcome log step ∧
      step.before = .inFlight .finished negotiated ∧
      SameSession .sampleSigned Server.sampleReturning Server.sampleAsking Server.sampleReopening.1
        log negotiated Server.sampleRenewing answered ∧
      answered.clientCertificates = s.certificates ∧
      ∃ connection, step.after = .done connection ∧ connection.resumed = true ∧
        connection.suite = c.suite ∧
        connection.clientSecret = answered.clientApplicationSecret ∧
        connection.serverSecret = answered.serverApplicationSecret := by
  obtain ⟨c, s, messages, issued, out, hestablished, -, hout, hsuite, hcertificates, hread⟩ :=
    Duplex.established_sample
  have hsession : Server.sampleSession
      ∈ Duplex.sessionsOf .sampleSigned Server.sampleAsking c issued := by
    rw [hestablished.reads hout] at hread
    rw [Incoming.tickets.inj (Except.ok.inj hread)]
    exact List.mem_singleton_self _
  obtain ⟨answered, hsends⟩ := Server.sampleRenewing_sends
  have hcheck : (((endpoint .sampleSigned Server.sampleReturning).taken
      ⟨.awaitServerHello Server.sampleReopening.1, []⟩ Server.sampleWelcome).any fun step =>
        step.before.negotiated?.any fun reached => reached.1 == .finished &&
          finishesAnswer .sampleSigned Server.sampleAsking Server.sampleRenewing step.message
            reached.2) = true := by decide +kernel
  obtain ⟨step, hstep, hany⟩ := List.any_eq_true.mp hcheck
  obtain ⟨⟨expect, negotiated⟩, hreached, hfinished⟩ := (Option.any_eq_true _ _).mp hany
  rw [Bool.and_eq_true, beq_iff_eq] at hfinished
  obtain ⟨rfl, hfinishes⟩ := hfinished
  obtain ⟨hmessage, htranscript, hhash, hsecret⟩ := of_decide_eq_true hfinishes
  obtain ⟨record, hstart⟩ := Server.start_sampleReopening
  have hbefore := State.negotiated?_eq hreached
  obtain ⟨log, htakes⟩ := Endpoint.exists_takes hstep
  refine ⟨c, s, messages, issued, out, hestablished, hsession, answered, log, step, negotiated,
    htakes, hbefore, ?_⟩
  rcases run_resumesTicket Ring.sampleSigned_complete Ring.sampleSigned_lengths hestablished
    hsession rfl (Server.sampleSession_renewed hsuite hcertificates) (by decide +kernel) hstart htakes
    hbefore hsends hmessage with ⟨hne, -⟩ | ⟨hne, -⟩ | ⟨_, hfirst, -⟩ | hresumed
  · exact absurd (by rw [htranscript, hhash, hsecret]) hne
  · exact absurd htranscript hne
  · cases hfirst
  · exact hresumed

end RustyTls
