import RustyTls.Agreement

/-!
# RustyTls.IssuedTickets

The tickets of a connection, from the server that issues them to the client that keeps them.

`issue_tickets` draws a nonce and an age mask for each ticket, seals what it wants to remember, and
sends all of them in one record. An `IssuedTicket` is what it drew and sealed for one of them. The
client derives the same PSK from the nonce, if it has the same resumption secret, and so every session
that it keeps is honoured by every server with the ticket keys.
-/

namespace RustyTls

open Core

/-- What a server draws and seals for one ticket. -/
structure IssuedTicket where
  nonce : Bytes
  ageAdd : UInt32
  ticket : Bytes
  deriving Repr, DecidableEq

namespace IssuedTicket

/-- The body of the NewSessionTicket that carries it. -/
def body (issued : IssuedTicket) (lifetime : UInt32) : Bytes :=
  beBytes 4 lifetime.toNat ++ (beBytes 4 issued.ageAdd.toNat ++ (prefixed 1 issued.nonce ++
    (prefixed 2 issued.ticket ++ prefixed 2 [])))

/-- The NewSessionTicket that carries it. -/
def message (issued : IssuedTicket) (lifetime : UInt32) : Message :=
  Message.of .newSessionTicket (issued.body lifetime)

/-- The session that a client makes of it. -/
def session (ring : Ring) (issued : IssuedTicket) (lifetime : UInt32) (connection : Connection) :
    Session where
  ticket := issued.ticket
  lifetime := lifetime
  ageAdd := issued.ageAdd
  suite := connection.suite
  peerCertificates := connection.certificates
  psk := expandLabel ring connection.hash connection.resumptionMaster "resumption" issued.nonce
    connection.hash.len

theorem message_encoded (issued : IssuedTicket) (lifetime : UInt32) :
    (issued.message lifetime).encoded.length
      = 17 + issued.nonce.length + issued.ticket.length := by
  rw [message, Message.of, Message.encode_eq]
  simp only [body, List.length_cons, prefixed_length, List.length_append, beBytes_length,
    List.length_nil]
  omega

/-- A ticket that was sent is framed. -/
theorem message_framed {issued : IssuedTicket} {lifetime : UInt32}
    (h : (issued.message lifetime).encoded.length ≤ maxFragmentLen) :
    Framed (issued.message lifetime) :=
  @Client.framed_of_short .newSessionTicket rfl _ h

/-- The client reads back what the server wrote. -/
theorem sessionFrom_body (ring : Ring) (connection : Connection) {issued : IssuedTicket}
    (lifetime : UInt32) (hnonce : issued.nonce.length < 2 ^ 8)
    (hticket : issued.ticket.length < 2 ^ 16) (hne : issued.ticket ≠ []) :
    connection.sessionFrom ring (issued.body lifetime)
      = .ok (issued.session ring lifetime connection) := by
  have hlifetime : (Reader.mk (issued.body lifetime)).u32 = .ok (lifetime,
      ⟨beBytes 4 issued.ageAdd.toNat ++ (prefixed 1 issued.nonce ++
        (prefixed 2 issued.ticket ++ prefixed 2 []))⟩) := Reader.u32_iff.mpr rfl
  have hage : (Reader.mk (beBytes 4 issued.ageAdd.toNat ++ (prefixed 1 issued.nonce ++
      (prefixed 2 issued.ticket ++ prefixed 2 [])))).u32 = .ok (issued.ageAdd,
      ⟨prefixed 1 issued.nonce ++ (prefixed 2 issued.ticket ++ prefixed 2 [])⟩) :=
    Reader.u32_iff.mpr rfl
  have hdrawn : (Reader.mk (prefixed 1 issued.nonce ++ (prefixed 2 issued.ticket ++
      prefixed 2 []))).vectorU8
      = .ok (issued.nonce, ⟨prefixed 2 issued.ticket ++ prefixed 2 []⟩) :=
    Reader.vectorU8_iff.mpr ⟨rfl, hnonce⟩
  have hsealed : (Reader.mk (prefixed 2 issued.ticket ++ prefixed 2 [])).vectorU16
      = .ok (issued.ticket, ⟨prefixed 2 []⟩) := Reader.vectorU16_iff.mpr ⟨rfl, hticket⟩
  have hextensions : (Reader.mk (prefixed 2 [])).vectorU16 = .ok ([], ⟨[]⟩) :=
    Reader.vectorU16_iff.mpr ⟨rfl, by simp⟩
  simp only [Connection.sessionFrom, wire, hlifetime, hage, hdrawn, hsealed, hextensions, mapErr_ok,
    ok_bind, Reader.finish_nil, refuse_neg _ hne, session]

end IssuedTicket

/-- A set of keys opens a ticket with the key it was sealed under, and with no other: the key is the
current one or, after a rotation, a previous one. -/
structure TicketKeys.Keeps (ring : Ring) (keys : TicketKeys) (key : TicketKey) (ticket : Bytes) :
    Prop where
  mem : key ∈ keys.current :: keys.previous
  only : ∀ other ∈ keys.current :: keys.previous, other ≠ key →
    (other.openTicket ring ticket).toOption = none

namespace Server

/-- A server made a ticket: the nonce has its length, and what is sealed says what it should. -/
structure Issues (ring : Ring) (entropy : Entropy) (config : ServerConfig) (tickets : Tickets)
    (negotiated : Negotiated) (resumptionMaster : Bytes) (issued : IssuedTicket) : Prop where
  nonce : issued.nonce.length = 32
  sealed : ∃ draw, (ticketContents ring config tickets negotiated issued.ageAdd
    (expandLabel ring negotiated.hash resumptionMaster "resumption" issued.nonce
      negotiated.hash.len)).sealContents ring tickets.keys.current (entropy.fill draw nonceLen)
        = .ok issued.ticket

/-- The resumption secret that a server makes its tickets of. -/
def Negotiated.resumptionMaster (ring : Ring) (negotiated : Negotiated) (finished : Message) :
    Bytes :=
  negotiated.master.derive ring "res master" ((negotiated.transcript.addMessage finished).hash ring)

section Issuing

variable {ring : Ring} {entropy : Entropy} {config : ServerConfig} {tickets : Tickets}
  {negotiated : Negotiated} {resumptionMaster : Bytes}

/-- One ticket. -/
theorem issueTicket_inv {k : Nat} {message : Bytes}
    (h : issueTicket ring entropy config tickets negotiated resumptionMaster k = .ok message) :
    ∃ issued, Issues ring entropy config tickets negotiated resumptionMaster issued ∧
      message = (issued.message tickets.lifetime).encoded := by
  simp only [issueTicket, randomBytes, bind_eq_ok, okOr_eq_ok, mapErr_eq_ok] at h
  obtain ⟨nonce, hnonce, age, -, ticket, hseal, heq⟩ := h
  refine ⟨⟨nonce, UInt32.ofNat (beNat age), ticket⟩,
    ⟨entropy.fill_length _ _ _ hnonce, _, hseal⟩, ?_⟩
  have hdrawn := Writer.vectorU8_appends (Writer.bytes_appends nonce)
  have hsealed := Writer.vectorU16_appends (Writer.bytes_appends ticket)
  have hextensions : Writer.Appends (Writer.vectorU16 fun w => w) (prefixed 2 []) :=
    Writer.vectorU16_appends (by intro w; simp)
  rw [← Except.ok.inj heq]
  simp only [IssuedTicket.message, Message.of, IssuedTicket.body, hdrawn _, hsealed _, hextensions _,
    Writer.intoVec, Writer.u32, Writer.new]
  simp

/-- The loop makes as many tickets as it is asked for. -/
theorem issueLoop_inv : ∀ {remaining k : Nat} {flight : Bytes},
    issueLoop ring entropy config tickets negotiated resumptionMaster remaining k = .ok flight →
    ∃ issued : List IssuedTicket, issued.length = remaining ∧
      (∀ one ∈ issued, Issues ring entropy config tickets negotiated resumptionMaster one) ∧
      flight = octets (issued.map (·.message tickets.lifetime)) := by
  intro remaining
  induction remaining with
  | zero =>
      intro k flight h
      obtain rfl := Except.ok.inj h
      exact ⟨[], rfl, by simp, rfl⟩
  | succ remaining ih =>
      intro k flight h
      simp only [issueLoop, bind_eq_ok] at h
      obtain ⟨message, hmessage, rest, hrest, heq⟩ := h
      obtain ⟨one, hone, rfl⟩ := issueTicket_inv hmessage
      obtain ⟨issued, hlength, hissues, rfl⟩ := ih hrest
      refine ⟨one :: issued, by simp [hlength], List.forall_mem_cons.mpr ⟨hone, hissues⟩, ?_⟩
      rw [← Except.ok.inj heq, List.map_cons, octets_cons]

/-- What a ticket that was sent says fits its lengths: a longer one would not have fitted the record
it was sent in. -/
theorem Issues.fits (lawful : ring.Lawful) {issued : IssuedTicket}
    (h : Issues ring entropy config tickets negotiated resumptionMaster issued)
    (hshort : issued.ticket.length < 2 ^ 16) :
    (ticketContents ring config tickets negotiated issued.ageAdd
      (expandLabel ring negotiated.hash resumptionMaster "resumption" issued.nonce
        negotiated.hash.len)).Fits := by
  obtain ⟨draw, hseal⟩ := h.sealed
  have hle := negotiated.hash.len_le
  have hpsk := expandLabel_length lawful negotiated.hash resumptionMaster "resumption" issued.nonce
    (show negotiated.hash.len ≤ 254 * negotiated.hash.len by omega)
  refine ⟨TicketContents.identityOf_length lawful _, ?_, ?_, ?_⟩
  · simp only [TicketContents.sealContents, TicketKey.sealTicket, bind_eq_ok, okOr_eq_ok] at hseal
    obtain ⟨nonce, -, sealed, hsealed, heq⟩ := hseal
    have hlen := lawful.seal_length _ _ _ _ _ _ hsealed
    rw [← Except.ok.inj heq, List.length_append, hlen, TicketContents.encode_eq] at hshort
    simp only [List.length_cons, List.length_append, beBytes_length, prefixed_length] at hshort
    omega
  · simp only [ticketContents, hpsk]
    omega
  · exact Client.hashBytes_ne hpsk

theorem Issues.ticket_ne {issued : IssuedTicket}
    (h : Issues ring entropy config tickets negotiated resumptionMaster issued) :
    issued.ticket ≠ [] := by
  obtain ⟨draw, hseal⟩ := h.sealed
  simp only [TicketContents.sealContents, TicketKey.sealTicket, bind_eq_ok, okOr_eq_ok] at hseal
  obtain ⟨nonce, hnonce, sealed, -, heq⟩ := hseal
  have hlen := entropy.fill_length _ _ _ hnonce
  intro hnil
  rw [← Except.ok.inj heq] at hnil
  obtain ⟨rfl, -⟩ := List.append_eq_nil_iff.mp hnil
  simp [nonceLen] at hlen

/-- The client can read what was issued. -/
theorem Issues.reads {issued : List IssuedTicket}
    (h : ∀ one ∈ issued, Issues ring entropy config tickets negotiated resumptionMaster one) :
    ∀ one ∈ issued, one.nonce.length < 2 ^ 8 ∧ one.ticket ≠ [] := by
  intro one hmem
  have hnonce := (h one hmem).nonce
  exact ⟨by omega, (h one hmem).ticket_ne⟩

/-- A ticket opens to what was sealed in it, for every server that still keeps its key. -/
theorem Issues.opens (lawful : ring.Lawful) {issued : IssuedTicket}
    (h : Issues ring entropy config tickets negotiated resumptionMaster issued)
    (hshort : issued.ticket.length < 2 ^ 16) {keys : TicketKeys}
    (hkeeps : keys.Keeps ring tickets.keys.current issued.ticket) :
    TicketContents.openContents ring issued.ticket keys
      = some (.ok (ticketContents ring config tickets negotiated issued.ageAdd
        (expandLabel ring negotiated.hash resumptionMaster "resumption" issued.nonce
          negotiated.hash.len))) := by
  obtain ⟨draw, hseal⟩ := h.sealed
  have hopen := TicketContents.openTicket_sealTicket lawful (entropy.fill_length _ _) hseal
  exact TicketContents.openContents_eq_ok.mpr
    ⟨_, TicketContents.openTicket_of_only hkeeps.mem hopen hkeeps.only,
      TicketContents.decode_encode (h.fits lawful hshort)⟩

/-- The session that a client with the server's resumption secret makes of a ticket is honoured by
every server that keeps its key. -/
theorem Issues.honoured (lawful : ring.Lawful) {issued : IssuedTicket}
    (h : Issues ring entropy config tickets negotiated resumptionMaster issued)
    (hshort : issued.ticket.length < 2 ^ 16) {connection : Connection}
    (hsuite : connection.suite = negotiated.suite) (hhash : connection.hash = negotiated.hash)
    (hmaster : connection.resumptionMaster = resumptionMaster) {later : ServerConfig}
    (hkeeps : ∀ tickets', later.tickets = some tickets' →
      tickets'.keys.Keeps ring tickets.keys.current issued.ticket) :
    Honours ring later (issued.session ring tickets.lifetime connection) := by
  refine ⟨h.ticket_ne, ?_, ?_⟩
  · intro tickets' htickets err herr
    rw [IssuedTicket.session, h.opens lawful hshort (hkeeps tickets' htickets)] at herr
    simp at herr
  · intro tickets' htickets contents hopened
    rw [IssuedTicket.session, h.opens lawful hshort (hkeeps tickets' htickets)] at hopened
    obtain rfl := Except.ok.inj (Option.some.inj hopened)
    simp only [IssuedTicket.session, ticketContents, hsuite, hhash, hmaster, and_self]

/-- A server's fresh sealer and the tickets it seals, all in one record. -/
inductive SendsTickets (ring : Ring) (entropy : Entropy) (config : ServerConfig)
    (negotiated : Negotiated) (resumptionMaster : Bytes) (fresh : Sealer) :
    List Message → List IssuedTicket → Bytes → Sealer → Prop
  | nothing : SendsTickets ring entropy config negotiated resumptionMaster fresh [] [] [] fresh
  | record {tickets : Tickets} {issued : List IssuedTicket} {out : Bytes} {sealer : Sealer} :
      config.tickets = some tickets → issued.length = tickets.count → issued ≠ [] →
      (∀ one ∈ issued, Issues ring entropy config tickets negotiated resumptionMaster one) →
      fresh.sealRecord ring .handshake (octets (issued.map (·.message tickets.lifetime))) 0
        = (.ok out, sealer) →
      SendsTickets ring entropy config negotiated resumptionMaster fresh
        (issued.map (·.message tickets.lifetime)) issued out sealer

theorem issueTickets_inv {fresh sealer : Sealer} {out : Bytes}
    (h : issueTickets ring entropy config negotiated fresh = .ok (out, sealer)) :
    ∃ messages issued, SendsTickets ring entropy config negotiated
      (negotiated.master.derive ring "res master" (negotiated.transcript.hash ring)) fresh messages
      issued out sealer := by
  unfold issueTickets at h
  split at h
  · obtain ⟨rfl, rfl⟩ := Prod.mk.inj (Except.ok.inj h)
    exact ⟨[], [], .nothing⟩
  · next tickets htickets =>
      split at h
      · obtain ⟨rfl, rfl⟩ := Prod.mk.inj (Except.ok.inj h)
        exact ⟨[], [], .nothing⟩
      · next hcount =>
          simp only [bind_eq_ok, mapErr_eq_ok] at h
          obtain ⟨flight, hflight, record, hrecord, heq⟩ := h
          obtain ⟨rfl, rfl⟩ := Prod.mk.inj (Except.ok.inj heq)
          obtain ⟨issued, hlength, hissues, rfl⟩ := issueLoop_inv hflight
          refine ⟨_, issued, .record htickets hlength ?_ hissues (Prod.ext hrecord rfl)⟩
          intro hnil
          rw [hnil] at hlength
          exact hcount hlength.symm

/-- What a server is left with by the client's Finished. -/
structure Ends (lawful : ring.Lawful) (entropy : Entropy) (config : ServerConfig)
    (negotiated : Negotiated) (finished : Message) (messages : List Message)
    (issued : List IssuedTicket) (out : Bytes) (s : Connection) : Prop where
  aead : s.aead = negotiated.aead
  hash : s.hash = negotiated.hash
  suite : s.suite = negotiated.suite
  sending : s.clientSecret = negotiated.serverApplicationSecret
  receiving : s.serverSecret = negotiated.clientApplicationSecret
  certificates : s.certificates = negotiated.clientCertificates
  opener : s.opener = ⟨directionKey lawful negotiated.hash negotiated.clientApplicationSecret
    negotiated.aead, .startingAt 0⟩
  tickets : SendsTickets ring entropy config negotiated (negotiated.resumptionMaster ring finished)
    ⟨directionKey lawful negotiated.hash negotiated.serverApplicationSecret negotiated.aead,
      .startingAt 0⟩ messages issued out s.sealer

theorem SendsTickets.of_transcript {transcript : Transcript} {fresh sealer : Sealer}
    {messages : List Message} {issued : List IssuedTicket} {out : Bytes}
    (h : SendsTickets ring entropy config { negotiated with transcript } resumptionMaster fresh
      messages issued out sealer) :
    SendsTickets ring entropy config negotiated resumptionMaster fresh messages issued out
      sealer := by
  cases h with
  | nothing => exact .nothing
  | record htickets hlength hne hissues hseal =>
      exact .record htickets hlength hne (fun one hmem => ⟨(hissues one hmem).nonce,
        (hissues one hmem).sealed⟩) hseal

theorem handleFinished_ends (lawful : ring.Lawful) {finished : Message} {out : Bytes} {next : State}
    (h : handleFinished ring entropy config negotiated finished = .ok (out, next)) :
    ∃ messages issued s, next = .done s ∧
      Ends lawful entropy config negotiated finished messages issued out s := by
  simp only [handleFinished, bind_eq_ok, mapErr_eq_ok, sealer_new lawful, opener_new lawful] at h
  obtain ⟨_, -, _, -, fresh, hfresh, ⟨reply, sealer⟩, hissue, opener, hopener, heq⟩ := h
  obtain ⟨rfl, rfl⟩ := Prod.mk.inj (Except.ok.inj heq)
  obtain rfl := Except.ok.inj hfresh
  obtain rfl := Except.ok.inj hopener
  obtain ⟨messages, issued, hsends⟩ := issueTickets_inv hissue
  exact ⟨messages, issued, _, rfl, rfl, rfl, rfl, rfl, rfl, rfl, rfl, hsends.of_transcript⟩

end Issuing

end Server

/-! ### The client that reads them -/

theorem encoded_length_le {m : Message} {ms : List Message} (h : m ∈ ms) :
    m.encoded.length ≤ (octets ms).length := by
  obtain ⟨before, after, rfl⟩ := List.append_of_mem h
  rw [octets_append, octets_cons, List.length_append, List.length_append]
  omega

namespace Connection

/-- The messages of the record, one after the other, each of which gives its session. -/
theorem postHandshakeLoop_issued (ring : Ring) (connection : Connection) (lifetime : UInt32)
    (hmaster : connection.resumptionMaster ≠ []) : ∀ {issued : List IssuedTicket},
    (∀ one ∈ issued, one.nonce.length < 2 ^ 8 ∧ one.ticket.length < 2 ^ 16 ∧ one.ticket ≠ []) →
    connection.postHandshakeLoop ring (issued.map (·.message lifetime))
      = (.ok ([], issued.map (·.session ring lifetime connection)), connection) := by
  intro issued
  induction issued with
  | nil => exact fun _ => rfl
  | cons one issued ih =>
      intro h
      obtain ⟨⟨hnonce, hticket, hne⟩, hrest⟩ := List.forall_mem_cons.mp h
      have hone : connection.postHandshakeMessage ring (one.message lifetime)
          = (.ok ([], [one.session ring lifetime connection]), connection) := by
        simp only [postHandshakeMessage, IssuedTicket.message, Message.of, if_neg hmaster,
          IssuedTicket.sessionFrom_body ring connection lifetime hnonce hticket hne]
      rw [List.map_cons, postHandshakeLoop_ok hone, ih hrest]
      rfl

/-- A client that has a resumption secret makes a session of every ticket in the record. -/
theorem postHandshake_issued (ring : Ring) (connection : Connection) {lifetime : UInt32}
    (hmaster : connection.resumptionMaster ≠ []) {issued : List IssuedTicket} (hne : issued ≠ [])
    (hall : ∀ one ∈ issued, one.nonce.length < 2 ^ 8 ∧ one.ticket ≠ [])
    (hshort : (octets (issued.map (·.message lifetime))).length ≤ maxFragmentLen) :
    connection.postHandshake ring (octets (issued.map (·.message lifetime)))
      = (.ok (.tickets (issued.map (·.session ring lifetime connection))), connection) := by
  obtain ⟨hmax, -⟩ := limits
  have hone : ∀ one ∈ issued, (one.message lifetime).encoded.length ≤ maxFragmentLen := by
    intro one hmem
    have hin : one.message lifetime ∈ issued.map (·.message lifetime) :=
      List.mem_map.mpr ⟨one, hmem, rfl⟩
    exact Nat.le_trans (encoded_length_le hin) hshort
  have hframed : ∀ m ∈ issued.map (·.message lifetime), Framed m := by
    intro m hmem
    obtain ⟨one, hin, rfl⟩ := List.mem_map.mp hmem
    exact IssuedTicket.message_framed (hone one hin)
  have hwhole : wholeMessages (octets (issued.map (·.message lifetime)))
      = issued.map (·.message lifetime) := by
    have hsplit := (@split_framed _ hframed [] rfl).2.1
    rwa [List.append_nil] at hsplit
  have hloop := @postHandshakeLoop_issued ring connection lifetime hmaster issued ?_
  · rw [postHandshake_eq, hwhole, hloop, ok_bind, postHandshakeResult, if_pos (by simpa using hne),
      if_neg (by simp)]
  · intro one hmem
    have hlen := hone one hmem
    rw [IssuedTicket.message_encoded] at hlen
    exact ⟨(hall one hmem).1, by omega, (hall one hmem).2⟩

end Connection

end RustyTls
