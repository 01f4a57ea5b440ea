import RustyTls.FlightExchange

/-!
# RustyTls.AnswerExchange

The client's flight of an honest run, as this server reads it, and the tickets that it issues: the
counterpart of `FlightExchange`, for the three answers that a client can give. The transcripts
that the server hashes on the way are those at the end of `handshakeTranscripts`.
-/

namespace RustyTls.Server

open Core

variable {ring : Ring} {client : Client.ClientConfig} {server : ServerConfig} {entropy : Entropy}
  {negotiated : Negotiated}

/-! ### The transcripts it hashes -/

/-- The transcripts that a server hashes in one step of the client's flight, in order: the one a
client signed, the one its Finished covers, and the one of the whole handshake. -/
def hashed (step : Endpoint.Taken State) : List Transcript :=
  match step.before, step.after with
  | .awaitFinished _, .awaitFinished negotiated =>
      if negotiated.expect = .certificateVerify then [negotiated.transcript] else []
  | .awaitFinished negotiated, .done _ =>
      [negotiated.transcript, negotiated.transcript.addMessage step.message]
  | _, _ => []

/-- The server reads messages from one state to another, and hashes these transcripts. -/
abbrev Reads (ring : Ring) (server : ServerConfig) (entropy : Entropy) (state : State)
    (ms : List Message) (state' : State) (ts : List Transcript) : Prop :=
  Endpoint.Reads entropy (handle ring entropy server) hashed state ms state' ts

theorem reads_single {s' : State} {m : Message} {ts : List Transcript}
    (hhandle : clientFlight ring entropy server negotiated m = .ok ([], s'))
    (hhashed : hashed ⟨entropy, .awaitFinished negotiated, m, [], s'⟩ = ts) :
    Reads ring server entropy (.awaitFinished negotiated) [m] s' ts :=
  Endpoint.Reads.single hhandle hhashed

/-! ### The client's messages -/

theorem clientFlight_emptyCertificate (entropy : Entropy) {auth : ClientAuth}
    (hauth : server.clientAuth = some auth) (hoptional : auth.required = false)
    (hexpect : negotiated.expect = .certificate) :
    clientFlight ring entropy server negotiated
        (Message.of .certificate (CertificateMessage.ofChain [] []).encode)
      = .ok ([], .awaitFinished { negotiated with
          transcript := negotiated.transcript.addMessage
            (Message.of .certificate (CertificateMessage.ofChain [] []).encode)
          expect := .finishedAfterEmptyCertificate }) := by
  have hparse : CertificateMessage.parse (CertificateMessage.ofChain [] []).encode
      = .ok (CertificateMessage.ofChain [] []) :=
    parse_certificateChain (by decide) (by decide)
  have hentries : (CertificateMessage.ofChain [] []).entries = [] := rfl
  simp only [clientFlight, hexpect, Message.of, handleCertificate, hparse, mapErr_ok, ok_bind, hauth,
    okOr_some, hentries, if_true, emptyCertificate, hoptional, Bool.false_eq_true,
    refuse_neg _ not_false]

theorem clientFlight_certificate (entropy : Entropy) {auth : ClientAuth}
    (hauth : server.clientAuth = some auth) {chain : List Bytes} {leaf : Certificate}
    {rest : List Certificate} {path : VerifiedPath}
    (hchain : collect (chain.map Certificate.parse) = .ok (leaf :: rest))
    (hpath : validatePath ring leaf rest auth.anchors auth.path = .ok path)
    (hlen : (Message.encode .certificate
      (CertificateMessage.ofChain [] chain).encode).length ≤ maxFragmentLen)
    (hexpect : negotiated.expect = .certificate) :
    clientFlight ring entropy server negotiated
        (Message.of .certificate (CertificateMessage.ofChain [] chain).encode)
      = .ok ([], .awaitFinished { negotiated with
          transcript := negotiated.transcript.addMessage
            (Message.of .certificate (CertificateMessage.ofChain [] chain).encode)
          clientCertificateTranscript := (negotiated.transcript.addMessage
            (Message.of .certificate (CertificateMessage.ofChain [] chain).encode)).hash ring
          clientCertificates := chain
          expect := .certificateVerify }) := by
  have hne : chain ≠ [] := by
    intro hnil
    rw [hnil] at hchain
    simp [collect] at hchain
  have hentries : ¬ (CertificateMessage.ofChain [] chain).entries = [] := by
    simpa [CertificateMessage.ofChain] using hne
  have hcertificates : (CertificateMessage.ofChain [] chain).entries.map (·.certificate)
      = chain := by
    simp [CertificateMessage.ofChain, Function.comp_def]
  simp only [clientFlight, hexpect, Message.of, handleCertificate,
    parse_certificateChain hlen (by decide), mapErr_ok, ok_bind, hauth, okOr_some, if_neg hentries,
    hcertificates, certificateChain, hchain, List.head?_cons, List.tail_cons, hpath]

theorem clientFlight_certificateVerify (entropy : Entropy) {verify : CertificateVerify}
    (hparse : CertificateVerify.parse verify.encode = .ok verify) {der : Bytes}
    {leaf : Certificate} (hder : negotiated.clientCertificates.head? = some der)
    (hleaf : Certificate.parse der = .ok leaf)
    (hverify : verifyTls13Signature ring ⟨verify.scheme⟩ leaf.subjectPublicKeyInfo
      (certificateVerifyContent clientCertificateVerifyContext
        negotiated.clientCertificateTranscript) verify.signature = .ok ())
    (hexpect : negotiated.expect = .certificateVerify) :
    clientFlight ring entropy server negotiated (Message.of .certificateVerify verify.encode)
      = .ok ([], .awaitFinished { negotiated with
          transcript := negotiated.transcript.addMessage
            (Message.of .certificateVerify verify.encode)
          expect := .finished }) := by
  simp only [clientFlight, hexpect, Message.of, handleCertificateVerify, hparse, mapErr_ok, ok_bind,
    hder, okOr_some, hleaf, hverify]

theorem collect_head {chain : List Bytes} {leaf : Certificate} {rest : List Certificate}
    (h : collect (chain.map Certificate.parse) = .ok (leaf :: rest)) :
    ∃ der, chain.head? = some der ∧ Certificate.parse der = .ok leaf := by
  cases chain with
  | nil => simp [collect] at h
  | cons der chain =>
      simp only [List.map_cons, collect, bind_eq_ok] at h
      obtain ⟨leaf', hleaf, rest', -, heq⟩ := h
      obtain ⟨rfl, -⟩ : leaf' = leaf ∧ rest' = rest := by simpa using heq
      exact ⟨der, rfl, hleaf⟩

/-- The chain of a message takes more octets than it does in a ticket. -/
theorem chainBytes_le (context : Bytes) (chain : List Bytes) :
    (TicketContents.chainBytes chain).length ≤ (Message.encode .certificate
      (CertificateMessage.ofChain context chain).encode).length := by
  have hentries : (TicketContents.chainBytes chain).length
      ≤ (CertificateMessage.entryBytes (CertificateMessage.ofChain context chain).entries).length := by
    induction chain with
    | nil => simp [TicketContents.chainBytes]
    | cons certificate chain ih =>
        simp only [TicketContents.chainBytes, CertificateMessage.entryBytes,
          CertificateMessage.ofChain, List.map_cons, List.flatMap_cons, List.length_append,
          prefixed_length] at ih ⊢
        omega
  rw [Message.encode_eq, CertificateMessage.encode_eq]
  simp only [List.length_cons, prefixed_length, List.length_append]
  omega

/-- The client's flight up to its Finished. -/
theorem reads_answer {request : Option CertificateRequestMessage} {answer : List Message}
    (hanswers : Client.Answers ring client server negotiated.transcript request answer)
    (hexpect : negotiated.expect = if request.isSome then .certificate else .finished)
    (hshort : (octets answer).length ≤ maxFragmentLen)
    (hbound : (TicketContents.chainBytes negotiated.clientCertificates).length < 2 ^ 16) :
    ∃ expect certificates signed, (∀ m ∈ answer, Framed m) ∧
      (expect = .finished ∨ expect = .finishedAfterEmptyCertificate) ∧
      (TicketContents.chainBytes certificates).length < 2 ^ 16 ∧
      Reads ring server entropy (.awaitFinished negotiated) answer
        (.awaitFinished { negotiated with
          transcript := negotiated.transcript.add (octets answer)
          clientCertificateTranscript := signed
          clientCertificates := certificates
          expect := expect })
        (Client.signedBy negotiated.transcript answer) := by
  obtain ⟨hmax, -⟩ := limits
  cases hanswers with
  | unasked =>
      refine ⟨.finished, negotiated.clientCertificates, negotiated.clientCertificateTranscript,
        by simp, .inl rfl, hbound, ?_⟩
      have hsame : { negotiated with
          transcript := negotiated.transcript.add (octets [])
          clientCertificateTranscript := negotiated.clientCertificateTranscript
          clientCertificates := negotiated.clientCertificates
          expect := .finished } = negotiated := by
        rw [Option.isSome_none, if_neg (by simp)] at hexpect
        rw [← hexpect]
        simp [Transcript.add]
      rw [hsame]
      exact Endpoint.Reads.nil
  | declined hauth hoptional _ =>
      refine ⟨.finishedAfterEmptyCertificate, negotiated.clientCertificates,
        negotiated.clientCertificateTranscript, ?_, .inr rfl, hbound, ?_⟩
      · exact List.forall_mem_singleton.mpr (@Client.framed_of_short .certificate rfl _ (by decide))
      · rw [octets_cons, octets_nil, List.append_nil]
        exact reads_single (clientFlight_emptyCertificate entropy hauth hoptional hexpect) rfl
  | @proved auth identity leaf rest path verify hauth _ hchain hpath hne hverify =>
      obtain ⟨der, hder, hleaf⟩ := collect_head hchain
      have hlen : (Message.encode .certificate
          (CertificateMessage.ofChain [] identity.certificates).encode).length
          ≤ maxFragmentLen := by
        simp only [octets_cons, octets_nil, Message.of, List.length_append] at hshort
        omega
      have hverifyLen : (Message.encode .certificateVerify verify.encode).length
          ≤ maxFragmentLen := by
        simp only [octets_cons, octets_nil, Message.of, List.length_append] at hshort
        omega
      have hchainLen := chainBytes_le [] identity.certificates
      let certificate := Message.of .certificate
        (CertificateMessage.ofChain [] identity.certificates).encode
      let received : Negotiated := { negotiated with
        transcript := negotiated.transcript.addMessage certificate
        clientCertificateTranscript := (negotiated.transcript.addMessage certificate).hash ring
        clientCertificates := identity.certificates
        expect := .certificateVerify }
      have hcertificate : Reads ring server entropy (.awaitFinished negotiated) [certificate]
          (.awaitFinished received) [negotiated.transcript.addMessage certificate] :=
        reads_single (clientFlight_certificate entropy hauth hchain hpath hlen hexpect) rfl
      have hsigned : received.clientCertificateTranscript = (negotiated.transcript.add
          (Client.clientCertificateMessage [] identity.certificates)).hash ring := by
        rw [Client.clientCertificateMessage_eq]
        rfl
      have hproof : Reads ring server entropy (.awaitFinished received)
          [Message.of .certificateVerify verify.encode]
          (.awaitFinished { received with
            transcript := received.transcript.addMessage
              (Message.of .certificateVerify verify.encode)
            expect := .finished }) [] :=
        reads_single (clientFlight_certificateVerify entropy
          (parse_certificateVerify hne hverifyLen) hder hleaf (by rw [hsigned]; exact hverify) rfl)
          rfl
      refine ⟨.finished, identity.certificates, received.clientCertificateTranscript, ?_, .inl rfl,
        by omega, ?_⟩
      · exact List.forall_mem_cons.mpr ⟨@Client.framed_of_short .certificate rfl _ hlen,
          List.forall_mem_singleton.mpr (@Client.framed_of_short .certificateVerify rfl _ hverifyLen)⟩
      · have htranscript : negotiated.transcript.add
            (octets [certificate, Message.of .certificateVerify verify.encode])
            = received.transcript.addMessage (Message.of .certificateVerify verify.encode) := by
          simp [received, Transcript.addMessage, Transcript.add]
        rw [htranscript]
        exact hcertificate.append hproof

/-! ### Tickets -/

/-- Sealing the contents of a ticket does not fail. -/
theorem sealContents_ok (complete : ring.Complete) (hworks : entropy.Works ring)
    {contents : TicketContents} (hidentity : contents.identity.length ≤ 32)
    (hchain : (TicketContents.chainBytes contents.clientCertificates).length < 2 ^ 16)
    (hpsk : contents.psk.length ≤ 48) (key : TicketKey) (draw : Nat) :
    ∃ ticket, contents.sealContents ring key (entropy.fill draw nonceLen) = .ok ticket := by
  obtain ⟨nonce, hnonce⟩ := hworks.fill draw nonceLen
  have hlen : contents.encode.length < 2 ^ 32 := by
    rw [TicketContents.encode_eq]
    simp only [List.length_cons, List.length_append, beBytes_length, prefixed_length]
    omega
  obtain ⟨sealed, hsealed⟩ := complete.seals .aes256Gcm key.secret nonce ticketAad contents.encode
    key.secret_length (entropy.fill_length _ _ _ hnonce) hlen
  refine ⟨nonce ++ sealed, ?_⟩
  rw [TicketContents.sealContents, TicketKey.sealTicket, hnonce, okOr_some, ok_bind, hsealed,
    okOr_some, ok_bind]

theorem issueTicket_ok (complete : ring.Complete) (hworks : entropy.Works ring)
    (hchain : (TicketContents.chainBytes negotiated.clientCertificates).length < 2 ^ 16)
    (tickets : Tickets) (resumptionMaster : Bytes) (k : Nat) :
    ∃ message, issueTicket ring entropy server tickets negotiated resumptionMaster k
      = .ok message := by
  obtain ⟨nonce, hnonce⟩ := hworks.fill (3 * k + 1) 32
  obtain ⟨age, hage⟩ := hworks.fill (3 * k + 2) 4
  have hpsk : (expandLabel ring negotiated.hash resumptionMaster "resumption" nonce
      negotiated.hash.len).length ≤ 48 := by
    rw [expandLabel_length complete.toLawful _ _ _ _ (by have := negotiated.hash.len_pos; omega)]
    exact negotiated.hash.len_le
  have hidentity : (TicketContents.identityOf ring server.certificates).length ≤ 32 := by
    rw [TicketContents.identityOf, Hash.hash_length complete.toLawful]
    decide
  obtain ⟨sealed, hsealed⟩ := @sealContents_ok ring entropy complete hworks
    (ticketContents ring server tickets negotiated (UInt32.ofNat (beNat age))
      (expandLabel ring negotiated.hash resumptionMaster "resumption" nonce negotiated.hash.len))
    hidentity hchain hpsk tickets.keys.current (3 * k + 3)
  simp only [issueTicket, randomBytes, hnonce, okOr_some, ok_bind, hage, hsealed, mapErr_ok]
  exact ⟨_, rfl⟩

theorem issueLoop_ok (complete : ring.Complete) (hworks : entropy.Works ring)
    (hchain : (TicketContents.chainBytes negotiated.clientCertificates).length < 2 ^ 16)
    (tickets : Tickets) (resumptionMaster : Bytes) : ∀ remaining k,
    ∃ flight, issueLoop ring entropy server tickets negotiated resumptionMaster remaining k
      = .ok flight := by
  intro remaining
  induction remaining with
  | zero => exact fun k => ⟨[], rfl⟩
  | succ remaining ih =>
      intro k
      obtain ⟨message, hmessage⟩ := @issueTicket_ok ring server entropy negotiated complete hworks
        hchain tickets resumptionMaster k
      obtain ⟨rest, hrest⟩ := ih (k + 1)
      exact ⟨message ++ rest, by rw [issueLoop, hmessage, ok_bind, hrest, ok_bind]⟩

/-- Tickets are issued, unless they do not fit a record; the key they are sealed under stays. -/
theorem issueTickets_ok (complete : ring.Complete) (hworks : entropy.Works ring)
    (hchain : (TicketContents.chainBytes negotiated.clientCertificates).length < 2 ^ 16)
    (key : DirectionKey) :
    (∃ out sealer, issueTickets ring entropy server negotiated ⟨key, .startingAt 0⟩
        = .ok (out, sealer) ∧ sealer.key = key) ∨
      TooLong (issueTickets ring entropy server negotiated ⟨key, .startingAt 0⟩) := by
  rw [issueTickets]
  cases htickets : server.tickets with
  | none => exact .inl ⟨_, _, rfl, rfl⟩
  | some tickets =>
      by_cases hcount : tickets.count = 0
      · simp only [if_pos hcount]
        exact .inl ⟨_, _, rfl, rfl⟩
      · simp only [if_neg hcount]
        obtain ⟨flight, hflight⟩ := @issueLoop_ok ring server entropy negotiated complete hworks
          hchain tickets (negotiated.master.derive ring "res master"
            (negotiated.transcript.hash ring)) tickets.count 0
        simp only [hflight, ok_bind]
        rcases sealRecord_fresh complete key flight with ⟨record, hrecord⟩ | hlong
        · rw [hrecord]
          exact .inl ⟨_, _, rfl, rfl⟩
        · rw [hlong]
          exact .inr ⟨_, _, rfl⟩

/-! ### The client's Finished -/

/-- What a server is left with, once it has read the client's flight. -/
structure Finishes (lawful : ring.Lawful) (negotiated : Negotiated) (connection : Connection) :
    Prop where
  suite : connection.suite = negotiated.suite
  sealer : connection.sealer.key = directionKey lawful negotiated.hash
    negotiated.serverApplicationSecret negotiated.aead
  opener : connection.opener.key = directionKey lawful negotiated.hash
    negotiated.clientApplicationSecret negotiated.aead

/-- The client's Finished ends the handshake, unless the tickets do not fit a record. -/
theorem finished_ends (complete : ring.Complete) (hworks : entropy.Works ring)
    (hchain : (TicketContents.chainBytes negotiated.clientCertificates).length < 2 ^ 16)
    (hexpect : negotiated.expect = .finished ∨ negotiated.expect = .finishedAfterEmptyCertificate)
    {body : Bytes} (hbody : body = finishedVerifyData ring negotiated.hash
      negotiated.clientHandshakeSecret (negotiated.transcript.hash ring)) :
    (∃ reply connection,
      clientFlight ring entropy server negotiated (Message.of .finished body)
        = .ok (reply, .done connection) ∧
      Finishes complete.toLawful negotiated connection) ∨
    TooLong (clientFlight ring entropy server negotiated (Message.of .finished body)) := by
  have lawful := complete.toLawful
  have hne : body ≠ [] := Client.hashBytes_ne (hbody ▸ finishedVerifyData_length lawful _ _ _)
  have hparse : parseFinished body = .ok body := by
    rw [parseFinished, refuse_neg _ hne, ok_bind]
  have hverify : ¬ verifyFinished ring negotiated.hash negotiated.clientHandshakeSecret
      (negotiated.transcript.hash ring) body = false := by
    simp [verifyFinished_iff.mpr hbody.symm]
  have hflight : clientFlight ring entropy server negotiated (Message.of .finished body)
      = handleFinished ring entropy server negotiated (Message.of .finished body) := by
    rcases hexpect with hexpect | hexpect
    · simp only [clientFlight, hexpect, Message.of]
    · simp only [clientFlight, hexpect, Message.of]
  rw [hflight]
  simp only [handleFinished, Message.of, hparse, mapErr_ok, ok_bind, refuse_neg _ hverify,
    sealer_new lawful, opener_new lawful]
  rcases @issueTickets_ok ring server entropy { negotiated with
      transcript := negotiated.transcript.addMessage
        ⟨.finished, body, Message.encode .finished body⟩ } complete hworks hchain
    (directionKey lawful negotiated.hash negotiated.serverApplicationSecret negotiated.aead)
    with ⟨out, sealer, hissue, hkey⟩ | ⟨len, max, hlong⟩
  · left
    simp only [hissue, ok_bind]
    exact ⟨_, _, rfl, rfl, hkey, rfl⟩
  · right
    simp only [hlong]
    exact ⟨len, max, rfl⟩

/-- A flight of this client is read to its end, unless the tickets do not fit a record. -/
theorem handleAll_answer (complete : ring.Complete) (hworks : entropy.Works ring) {head : Bytes}
    {hello : ClientHello} {selected : Selected} {draw : FlightDraw}
    (hhash : negotiated.hash = selected.hash)
    (hsecret : negotiated.clientHandshakeSecret = draw.clientSecret ring head hello selected)
    (htranscript : negotiated.transcript
      = ⟨selected.hash, draw.sent ring server head hello selected⟩)
    (hexpect : negotiated.expect
      = if asksForCertificate server selected.psk then .certificate else .finished)
    (hbound : (TicketContents.chainBytes negotiated.clientCertificates).length < 2 ^ 16)
    {request : Option CertificateRequestMessage} {answer : List Message}
    (hanswers : Client.Answers ring client server
      ⟨selected.hash, draw.sent ring server head hello selected⟩ request answer)
    (hasked : request.isSome = asksForCertificate server selected.psk)
    (hshort : (octets (answer ++ [Client.flightFinished ring server head hello selected draw
      answer])).length ≤ maxFragmentLen) :
    (∀ m ∈ answer ++ [Client.flightFinished ring server head hello selected draw answer],
      Framed m) ∧
    ((∃ reply connection,
        handleAll (handle ring entropy server) (.awaitFinished negotiated)
            (answer ++ [Client.flightFinished ring server head hello selected draw answer])
          = .ok (reply, .done connection) ∧
        Endpoint.observed entropy (handle ring entropy server) hashed (.awaitFinished negotiated)
            (answer ++ [Client.flightFinished ring server head hello selected draw answer])
          = Client.signedBy ⟨selected.hash, draw.sent ring server head hello selected⟩ answer ++
            [⟨selected.hash, draw.sent ring server head hello selected ++ octets answer⟩,
              Transcript.addMessage
                ⟨selected.hash, draw.sent ring server head hello selected ++ octets answer⟩
                (Client.flightFinished ring server head hello selected draw answer)] ∧
        Finishes complete.toLawful negotiated connection) ∨
      TooLong (handleAll (handle ring entropy server) (.awaitFinished negotiated)
        (answer ++ [Client.flightFinished ring server head hello selected draw answer]))) := by
  rw [← hasked] at hexpect
  rw [octets_append, List.length_append] at hshort
  obtain ⟨expect, certificates, signed, hframed, hends, hbound', hreads⟩ :=
    @reads_answer ring client server entropy negotiated request answer
      (htranscript ▸ hanswers) hexpect (by omega) hbound
  obtain ⟨body, hverifyData⟩ : ∃ body, body = finishedVerifyData ring selected.hash
      (draw.clientSecret ring head hello selected)
      (selected.hash.hash ring (draw.sent ring server head hello selected ++ octets answer)) :=
    ⟨_, rfl⟩
  have hfinished : Client.flightFinished ring server head hello selected draw answer
      = Message.of .finished body := by
    rw [hverifyData]
    rfl
  rw [hfinished] at hshort ⊢
  obtain ⟨hall, hobserved⟩ := hreads [Message.of .finished body]
  refine ⟨?_, ?_⟩
  · refine List.forall_mem_append.mpr ⟨hframed, List.forall_mem_singleton.mpr ?_⟩
    refine @Client.framed_of_short .finished rfl _ ?_
    simp only [octets_cons, octets_nil, List.append_nil, Message.of] at hshort
    omega
  have hbody : body = finishedVerifyData ring negotiated.hash negotiated.clientHandshakeSecret
      ((negotiated.transcript.add (octets answer)).hash ring) := by
    rw [hverifyData, hhash, hsecret, htranscript]
    rfl
  rw [hall, hobserved, handleAll_singleton]
  rcases @finished_ends ring server entropy { negotiated with
      transcript := negotiated.transcript.add (octets answer)
      clientCertificateTranscript := signed
      clientCertificates := certificates
      expect := expect } complete hworks hbound' hends body hbody
    with ⟨reply, connection, hflight, hfinishes⟩ | hlong
  · left
    have hhandle : handle ring entropy server (.awaitFinished { negotiated with
        transcript := negotiated.transcript.add (octets answer)
        clientCertificateTranscript := signed
        clientCertificates := certificates
        expect := expect }) (Message.of .finished body) = .ok (reply, .done connection) := hflight
    refine ⟨reply, connection, hhandle, ?_, hfinishes.suite, hfinishes.sealer, hfinishes.opener⟩
    rw [Endpoint.observed_single hhandle, hashed, htranscript]
    rfl
  · exact .inr hlong

end RustyTls.Server
