import RustyTls.Sessions
import RustyTls.TicketSound
import RustyTls.ServerSound

/-!
# RustyTls.Resumption

Where the chain that a resumed connection reports came from, on both ends.

A client copies the chain out of the session it offered, a server out of the ticket it opened,
and either may give out new sessions and tickets from a connection that never saw a certificate
itself. Over any number of resumptions the chain is the one of the full handshake at the root.
The client's half is `Client.ConnectionSequence.root`; this is the server's.

Forged tickets are excluded by assumption, and only those that are in fact offered: of the
tickets in the hellos of a sequence, those that open under the shared keys were issued by an
earlier handshake of it.
-/

namespace RustyTls

open Core

/-! ### Tickets under their key -/

/-- A ticket opens, under the keys it was sealed with, to what was sealed. -/
theorem TicketKeys.openTicket_seal {ring : Ring} (lawful : ring.Lawful) {keys : TicketKeys}
    {entropy : Entropy} {draw : Nat} {plaintext ticket : Bytes}
    (h : keys.current.sealTicket ring (entropy.fill draw nonceLen) plaintext = .ok ticket) :
    keys.openTicket ring ticket = some plaintext := by
  have hopen := TicketContents.openTicket_sealTicket lawful (entropy.fill_length _ _) h
  rw [TicketKeys.openTicket, List.findSome?_cons, hopen]
  rfl

/-- What a server reads out of a ticket: the identity and the chain it was sealed with. -/
theorem TicketContents.openContents_seal {ring : Ring} (lawful : ring.Lawful) {keys : TicketKeys}
    {entropy : Entropy} {draw : Nat} {contents opened : TicketContents} {ticket : Bytes}
    (hidentity : contents.identity.length < 2 ^ 8)
    (hseal : contents.sealContents ring keys.current (entropy.fill draw nonceLen) = .ok ticket)
    (hopen : openContents ring ticket keys = some (.ok opened)) :
    opened.identity = contents.identity ∧
      opened.clientCertificates = contents.clientCertificates := by
  obtain ⟨plaintext, hplaintext, hdecode⟩ := openContents_eq_ok.mp hopen
  obtain rfl := Option.some.inj ((TicketKeys.openTicket_seal lawful hseal).symm.trans hplaintext)
  exact decode_encode_inv hidentity hdecode

theorem TicketContents.identityOf_length {ring : Ring} (lawful : ring.Lawful)
    (certificates : List Bytes) : (identityOf ring certificates).length < 2 ^ 8 := by
  rw [identityOf, Hash.hash, lawful.digest_length]
  decide

namespace Server

/-! ### Sequences of handshakes -/

/-- One handshake of a server. -/
structure Attempt where
  config : ServerConfig
  inputs : List (Entropy × Bytes)

/-- The ticket in the message that `issue_ticket` makes for a place, of what is drawn in the step
that takes the client's Finished. -/
def sealedTicket (ring : Ring) (config : ServerConfig) (tickets : Tickets) (negotiated : Negotiated)
    (step : Endpoint.Taken State) (k : Nat) : Option Bytes := do
  let nonce ← step.entropy.fill (3 * k + 1) 32
  let ageAdd ← step.entropy.fill (3 * k + 2) 4
  let resumptionMaster := negotiated.master.derive ring "res master"
    ((negotiated.transcript.addMessage step.message).hash ring)
  let psk := expandLabel ring negotiated.hash resumptionMaster "resumption" nonce
    negotiated.hash.len
  let contents := ticketContents ring config tickets negotiated (UInt32.ofNat (beNat ageAdd)) psk
  (contents.sealContents ring tickets.keys.current
    (step.entropy.fill (3 * k + 3) nonceLen)).toOption

/-- The tickets that a hello offers. -/
def offeredTickets (m : Message) : List Bytes :=
  match ClientHello.parse m.body with
  | .error _ => []
  | .ok hello =>
      match (find hello.extensions ExtensionType.preSharedKey).map PresharedKeyOffer.parse with
      | some (.ok offer) => offer.identities.map (·.identity)
      | _ => []

namespace Attempt

variable (ring : Ring) (attempt : Attempt)

/-- The connection that the handshake ends in. -/
def established : Option Connection :=
  match ((endpoint ring attempt.config).run ServerHandshake.new attempt.inputs).state with
  | .done connection => some connection
  | _ => none

/-- The messages it accepted. -/
def accepted : List Message :=
  (endpoint ring attempt.config).accepted ServerHandshake.new attempt.inputs

/-- The steps it took. -/
def taken : List (Endpoint.Taken State) :=
  (endpoint ring attempt.config).taken ServerHandshake.new attempt.inputs

/-- The tickets it was offered. -/
def offered : List Bytes := (attempt.accepted ring).flatMap offeredTickets

/-- A ticket that `issue_tickets` sealed as the handshake finished. -/
def Issues (ticket : Bytes) : Prop :=
  ∃ tickets negotiated step connection k,
    attempt.config.tickets = some tickets ∧ attempt.established ring = some connection ∧
    step ∈ attempt.taken ring ∧ step.before = .awaitFinished negotiated ∧
    step.after = .done connection ∧ k < tickets.count ∧
    sealedTicket ring attempt.config tickets negotiated step k = some ticket

/-- The handshake resumed with this ticket: it is the identity that the connection's PSK was
accepted for, and the binder at its place verified. -/
def Resumes (ticket : Bytes) : Prop :=
  ∃ connection x flight finished psk tickets offer truncated offered contents binder,
    attempt.established ring = some connection ∧
    ClientAuthenticated ring attempt.config (attempt.taken ring) connection x flight finished ∧
    x.selected.psk = some psk ∧
    PskAccepted ring attempt.config x.hello x.message.encoded (octets x.front) x.selected.suite
      x.selected.hash psk tickets offer truncated offered contents binder ∧
    offered.identity = ticket

/-- The handshake resumed with a ticket that the earlier one issued. -/
def Continues (earlier : Attempt) : Prop :=
  ∃ ticket, attempt.Resumes ring ticket ∧ earlier.Issues ring ticket

/-- A full handshake in which the client identified itself by this chain: with a Certificate
that validated and a CertificateVerify, or by none. -/
def Identifies (certificates : List Bytes) : Prop :=
  ∃ connection x flight finished, attempt.established ring = some connection ∧
    ClientAuthenticated ring attempt.config (attempt.taken ring) connection x flight finished ∧
    x.selected.psk = none ∧ ClientIdentified ring attempt.config x flight certificates ∧
    (certificates = [] ↔
      ¬ ∃ certificate ∈ flight, ∃ chain, Presents certificate chain ∧ chain ≠ [])

end Attempt

/-- A sequence of handshakes by servers that share their ticket keys, in which the tickets
offered that open were issued by earlier handshakes. -/
inductive HandshakeSequence (ring : Ring) (keys : TicketKeys) : List Attempt → Prop
  | nil : HandshakeSequence ring keys []
  | next {earlier : List Attempt} {attempt : Attempt} : HandshakeSequence ring keys earlier →
      (∀ tickets, attempt.config.tickets = some tickets → tickets.keys = keys) →
      (∀ ticket ∈ attempt.offered ring, TicketContents.openContents ring ticket keys ≠ none →
        ∃ origin ∈ earlier, origin.Issues ring ticket) →
      HandshakeSequence ring keys (earlier ++ [attempt])

variable {ring : Ring} {attempt : Attempt} {connection : Connection}

theorem Attempt.established_inv (h : attempt.established ring = some connection) :
    ((endpoint ring attempt.config).run ServerHandshake.new attempt.inputs).state
      = .done connection := by
  unfold established at h
  split at h
  · next connection' hdone =>
      obtain rfl := Option.some.inj h
      exact hdone
  · simp at h

/-- The ticket a PSK was taken from is one that the hello offered. -/
theorem mem_offeredTickets {x : Answer} {answered : Negotiated}
    (hanswers : AnswersHello ring attempt.config x answered) {psk : AcceptedPsk} {tickets : Tickets}
    {offer : PresharedKeyOffer} {truncated : Bytes} {offered : PskIdentity}
    {contents : TicketContents} {binder : Bytes}
    (h : PskAccepted ring attempt.config x.hello x.message.encoded (octets x.front) x.selected.suite
      x.selected.hash psk tickets offer truncated offered contents binder) :
    offered.identity ∈ offeredTickets x.message := by
  obtain ⟨data, hdata, hoffer⟩ := h.parsed
  simp only [offeredTickets, hanswers.parsed, hdata, Option.map_some, hoffer]
  exact List.mem_map_of_mem h.mem_identities

theorem Presents.unique {certificate : Message} {chain other : List Bytes}
    (h : Presents certificate chain) (h' : Presents certificate other) : chain = other := by
  obtain ⟨-, message, hparse, rfl⟩ := h
  obtain ⟨-, message', hparse', rfl⟩ := h'
  rw [hparse] at hparse'
  rw [Except.ok.inj hparse']

/-- A chain is empty exactly when the client presented none. -/
theorem identified_empty_iff {config : ServerConfig} {x : Answer} {flight : List Message}
    {certificates : List Bytes} (hfull : x.selected.psk = none)
    (h : ClientIdentified ring config x flight certificates) :
    certificates = [] ↔
      ¬ ∃ certificate ∈ flight, ∃ chain, Presents certificate chain ∧ chain ≠ [] := by
  cases h with
  | anonymous _ _ => simp
  | @declined _ certificate _ _ _ hpresents =>
      refine ⟨fun _ => ?_, fun _ => rfl⟩
      intro ⟨other, hmem, chain, hpresents', hne⟩
      obtain rfl := List.mem_singleton.mp hmem
      exact hne (hpresents'.unique hpresents)
  | @certified _ certificate _ _ _ _ hne hpresents _ _ =>
      refine ⟨fun hempty => absurd hempty hne, fun hnone => ?_⟩
      exact absurd ⟨certificate, List.mem_cons_self .., certificates, hpresents, hne⟩ hnone
  | resumed hpsk => simp [hfull] at hpsk

/-- A ticket that opened yields the chain of the connection it was issued on, and was issued
under the same identity. -/
theorem Attempt.Issues.opens (lawful : ring.Lawful) {earlier : Attempt} {keys : TicketKeys}
    (hkeys : ∀ tickets, earlier.config.tickets = some tickets → tickets.keys = keys) {ticket : Bytes}
    {contents : TicketContents} (h : earlier.Issues ring ticket)
    (hopen : TicketContents.openContents ring ticket keys = some (.ok contents)) :
    ∃ connection, earlier.established ring = some connection ∧
      contents.clientCertificates = connection.certificates ∧
      contents.identity = TicketContents.identityOf ring earlier.config.certificates := by
  obtain ⟨tickets, negotiated, step, connection, k, htickets, hestablished, hstep, hbefore, hafter, -,
    hsealed⟩ := h
  have hcertificates : connection.certificates = negotiated.clientCertificates := by
    have hhandle := Endpoint.taken_handle _ _ _ step hstep
    rw [hbefore, hafter] at hhandle
    rcases flight_next hhandle with ⟨-, -, -, _, _, _, hnext⟩ | ⟨-, -, hfinished⟩
    · cases hnext
    · obtain ⟨_, _, _, -, -, hdone⟩ := handleFinished_inv hfinished
      rw [State.done.inj hdone]
      rfl
  simp only [sealedTicket, bind, Option.bind_eq_some_iff, toOption_eq_some] at hsealed
  obtain ⟨nonce, -, ageAdd, -, hseal⟩ := hsealed
  rw [hkeys tickets htickets] at hseal
  obtain ⟨hidentity, hchain⟩ := TicketContents.openContents_seal lawful
    (TicketContents.identityOf_length lawful _) hseal hopen
  exact ⟨connection, hestablished, hchain.trans hcertificates.symm, hidentity⟩

/-- How an established connection came by its client's chain: the client identified itself by
it, or it was in the ticket that the handshake resumed with. -/
theorem Attempt.established_chain (h : attempt.established ring = some connection) :
    attempt.Identifies ring connection.certificates ∨
      ∃ tickets ticket contents, attempt.config.tickets = some tickets ∧
        ticket ∈ attempt.offered ring ∧ attempt.Resumes ring ticket ∧
        TicketContents.openContents ring ticket tickets.keys = some (.ok contents) ∧
        contents.identity = TicketContents.identityOf ring attempt.config.certificates ∧
        connection.certificates = contents.clientCertificates := by
  have hprogress := progress_run ring attempt.config attempt.inputs
  rw [established_inv h] at hprogress
  obtain ⟨x, flight, finished, hauth⟩ := hprogress
  cases hpsk : x.selected.psk with
  | none =>
      exact .inl ⟨connection, x, flight, finished, h, hauth, hpsk, hauth.identified,
        identified_empty_iff hpsk hauth.identified⟩
  | some psk =>
      obtain ⟨answered, hanswers⟩ := hauth.heard.answers
      have haccept := hanswers.psk
      rw [hpsk] at haccept
      obtain ⟨tickets, offer, truncated, offered, contents, binder, haccepted⟩ := acceptPsk_inv haccept
      have hchain : connection.certificates = psk.clientCertificates := by
        have hidentified := hauth.identified
        generalize connection.certificates = certificates at hidentified
        cases hidentified with
        | anonymous hnone _ => simp [hpsk] at hnone
        | declined hnone _ _ _ => simp [hpsk] at hnone
        | certified hnone _ _ _ _ _ => simp [hpsk] at hnone
        | resumed hsome =>
            rw [hpsk] at hsome
            rw [Option.some.inj hsome]
      have hmem : x.message ∈ attempt.accepted ring := by
        rw [Attempt.accepted, Endpoint.accepted_eq_taken, hauth.heard.log_eq]
        simp
      refine .inr ⟨tickets, offered.identity, contents, haccepted.configured, ?_, ?_,
        haccepted.acceptable.opens, haccepted.acceptable.identity, hchain.trans haccepted.chain_eq⟩
      · exact List.mem_flatMap.mpr ⟨x.message, hmem, mem_offeredTickets hanswers haccepted⟩
      · exact ⟨connection, x, flight, finished, psk, tickets, offer, truncated, offered, contents,
          binder, h, hauth, hpsk, haccepted, rfl⟩

theorem HandshakeSequence.keys {keys : TicketKeys} {attempts : List Attempt}
    (h : HandshakeSequence ring keys attempts) :
    ∀ attempt ∈ attempts, ∀ tickets, attempt.config.tickets = some tickets → tickets.keys = keys := by
  induction h with
  | nil => simp
  | next _ hkeys _ ih =>
      intro attempt hmem
      rcases List.mem_append.mp hmem with hearlier | hnew
      · exact ih attempt hearlier
      · rw [List.mem_singleton.mp hnew]
        exact hkeys

/-- The root of a connection's chain of tickets: a full handshake in which the client identified
itself by the chain that the connection reports, under the same server identity. -/
theorem HandshakeSequence.root (lawful : ring.Lawful) {keys : TicketKeys} {attempts : List Attempt}
    (h : HandshakeSequence ring keys attempts) :
    ∀ attempt ∈ attempts, ∀ connection, attempt.established ring = some connection →
      ∃ root ∈ attempts, Relation.ReflTransGen (Attempt.Continues ring) attempt root ∧
        root.Identifies ring connection.certificates ∧
        TicketContents.identityOf ring root.config.certificates
          = TicketContents.identityOf ring attempt.config.certificates := by
  induction h with
  | nil => simp
  | @next earlier last hearlier hkeys hissued ih =>
      intro attempt hmem connection hestablished
      rcases List.mem_append.mp hmem with hold | hnew
      · obtain ⟨root, hroot, hpath, hidentifies, hidentity⟩ := ih attempt hold connection hestablished
        exact ⟨root, List.mem_append_left _ hroot, hpath, hidentifies, hidentity⟩
      · obtain rfl := List.mem_singleton.mp hnew
        rcases Attempt.established_chain hestablished with
          hidentifies |
          ⟨tickets, ticket, contents, htickets, hoffered, hresumes, hopen, hidentity, hchain⟩
        · exact ⟨attempt, hmem, .refl, hidentifies, rfl⟩
        · rw [hkeys tickets htickets] at hopen
          obtain ⟨origin, horigin, hissues⟩ := hissued ticket hoffered (by simp [hopen])
          obtain ⟨connection', hestablished', hchain', hidentity'⟩ :=
            hissues.opens lawful (hearlier.keys origin horigin) hopen
          obtain ⟨root, hroot, hpath, hidentifies, hroot'⟩ := ih origin horigin connection' hestablished'
          refine ⟨root, List.mem_append_left _ hroot, .head ⟨ticket, hresumes, hissues⟩ hpath, ?_, ?_⟩
          · rw [hchain, hchain']
            exact hidentifies
          · rw [hroot', ← hidentity', hidentity]

end Server

/-! ### Both ends -/

/-- Resumption keeps the chain. On the client, every connection of a sequence in which the
sessions offered were given to earlier connections reports the chain of some full handshake of
the sequence, accepted there with its CertificateVerify. On a server, every connection of a
sequence that shares its ticket keys reports the chain by which the client identified itself in
the full handshake at the root of its tickets, which ran under the same server identity. -/
theorem resumption_provenance (ring : Ring) (lawful : ring.Lawful) :
    (∀ attempts, Client.ConnectionSequence (Client.Attempt.Continues ring) attempts →
      ∀ attempt ∈ attempts, ∀ connection, attempt.established ring = some connection →
        ∃ root ∈ attempts, root.Verifies ring connection.peerCertificates) ∧
    ∀ keys attempts, Server.HandshakeSequence ring keys attempts →
      ∀ attempt ∈ attempts, ∀ connection, attempt.established ring = some connection →
        ∃ root ∈ attempts, Relation.ReflTransGen (Server.Attempt.Continues ring) attempt root ∧
          root.Identifies ring connection.peerCertificates ∧
          TicketContents.identityOf ring root.config.certificates
            = TicketContents.identityOf ring attempt.config.certificates := by
  constructor
  · intro attempts h attempt hmem connection hestablished
    obtain ⟨root, hroot, -, hverifies⟩ := h.root (fun _ _ h => h) attempt hmem connection hestablished
    exact ⟨root, hroot, hverifies⟩
  · intro keys attempts h attempt hmem connection hestablished
    exact h.root lawful attempt hmem connection hestablished

/-- A client that offers the sample session. -/
def Client.sampleReturning : Client.ClientConfig :=
  { Client.ClientConfig.sample with resumption := some ⟨Client.sampleSession, 0⟩ }

/-- The sample server's end of a handshake: a hello, and the flight that answers its own. -/
def Server.sampleAttempt (config : Client.ClientConfig) (seed : UInt8) : Server.Attempt where
  config := .sample
  inputs :=
    match Client.start .sample (.sample seed) config with
    | .error _ => []
    | .ok (client, first) =>
        (.sample (seed + 1), first) :: (records ((Client.endpoint .sample config).replies client
          ((Client.sampleExchange config seed).1.map (.sample (seed + 2), ·)))).map
            (.sample (seed + 3), ·)

/-- Whether a step ends in a connection and issues a ticket in the first place. -/
def Server.issuesFirst (ring : Ring) (config : ServerConfig) (tickets : Tickets)
    (connection : Connection) (ticket : Bytes) (step : Endpoint.Taken State) : Bool :=
  match step.before with
  | .awaitFinished negotiated => decide (step.after = .done connection ∧
      sealedTicket ring config tickets negotiated step 0 = some ticket)
  | _ => false

/-- The sample server's first handshake issues the sample session's ticket. -/
theorem Server.sampleAttempt_issues :
    (Server.sampleAttempt .sample 1).Issues .sample Client.sampleSession.ticket := by
  have hcheck : (((Server.sampleAttempt .sample 1).established .sample).any fun connection =>
      ((Server.sampleAttempt .sample 1).taken .sample).any
        (Server.issuesFirst .sample .sample .sample connection Client.sampleSession.ticket))
          = true := by decide +kernel
  obtain ⟨connection, hestablished, hany⟩ := (Option.any_eq_true _ _).mp hcheck
  obtain ⟨step, hstep, hissues⟩ := List.any_eq_true.mp hany
  unfold Server.issuesFirst at hissues
  split at hissues
  · next negotiated hbefore =>
      obtain ⟨hafter, hsealed⟩ := of_decide_eq_true hissues
      exact ⟨.sample, negotiated, step, connection, 0, rfl, hestablished, hstep, hbefore, hafter,
        by decide, hsealed⟩
  · cases hissues

theorem resumption_provenance_sample :
    (∃ connection, (Client.sampleResuming (.dns [0x41, dot, 0x62])).established .sample
        = some connection ∧ connection.resumed = true ∧
      ∃ root ∈ [] ++ [Client.sampleAttempt .sample 1] ++
        [Client.sampleResuming (.dns [0x41, dot, 0x62])],
        root.Verifies .sample connection.peerCertificates) ∧
    ∃ connection, (Server.sampleAttempt Client.sampleReturning 9).established .sample
        = some connection ∧
      (Server.sampleAttempt Client.sampleReturning 9).offered .sample
        = [Client.sampleSession.ticket] ∧
      ∃ root ∈ [] ++ [Server.sampleAttempt .sample 1] ++
        [Server.sampleAttempt Client.sampleReturning 9],
        Relation.ReflTransGen (Server.Attempt.Continues .sample)
          (Server.sampleAttempt Client.sampleReturning 9) root ∧
        root.Identifies .sample connection.peerCertificates ∧
        TicketContents.identityOf .sample root.config.certificates
          = TicketContents.identityOf .sample
            (Server.sampleAttempt Client.sampleReturning 9).config.certificates := by
  constructor
  · obtain ⟨connection, hestablished, hresumed⟩ :=
      (Option.any_eq_true _ _).mp Client.sampleResuming_established
    have hsequence : Client.ConnectionSequence (Client.Attempt.Continues .sample)
        ([] ++ [Client.sampleAttempt .sample 1] ++
          [Client.sampleResuming (.dns [0x41, dot, 0x62])]) := by
      refine .next (.next .nil ?_) ?_
      · intro h
        exact absurd rfl h
      · intro _
        exact ⟨_, List.mem_singleton_self _, Client.sampleResuming_continues _⟩
    exact ⟨connection, hestablished, hresumed,
      (resumption_provenance .sample Ring.sample_lawful).1 _ hsequence _
        (List.mem_append_right _ (List.mem_singleton_self _)) _ hestablished⟩
  · have hoffered : (Server.sampleAttempt .sample 1).offered .sample = [] := by decide +kernel
    have hsecond : (Server.sampleAttempt Client.sampleReturning 9).offered .sample
          = [Client.sampleSession.ticket] ∧
        ((Server.sampleAttempt Client.sampleReturning 9).established .sample).isSome = true := by
      decide +kernel
    obtain ⟨hoffered', hsome⟩ := hsecond
    obtain ⟨connection, hestablished'⟩ := Option.isSome_iff_exists.mp hsome
    have hkeys : ∀ tickets, Server.ServerConfig.sample.tickets = some tickets →
        tickets.keys = Server.Tickets.sample.keys := by
      intro tickets h
      rw [← Option.some.inj h]
    have hsequence : Server.HandshakeSequence .sample Server.Tickets.sample.keys
        ([] ++ [Server.sampleAttempt .sample 1] ++
          [Server.sampleAttempt Client.sampleReturning 9]) := by
      refine .next (.next .nil hkeys ?_) hkeys ?_
      · simp [hoffered]
      · intro ticket hticket _
        rw [hoffered', List.mem_singleton] at hticket
        exact ⟨_, List.mem_singleton_self _, hticket ▸ Server.sampleAttempt_issues⟩
    exact ⟨connection, hestablished', hoffered',
      (resumption_provenance .sample Ring.sample_lawful).2 _ _ hsequence _
        (List.mem_append_right _ (List.mem_singleton_self _)) _ hestablished'⟩

end RustyTls
