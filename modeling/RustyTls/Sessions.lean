import RustyTls.ClientSound
import RustyTls.NameSound
import Mathlib.Logic.Relation

/-!
# RustyTls.Sessions

Sequences of client connections, each of which may offer a session that an earlier one was
given.

A session carries the chain of the connection it came from, and a resumed connection carries
the chain of its session, so a chain of resumptions of any length ends in a full handshake
whose CertificateVerify was checked for this very chain.

The name is another matter. `check_peer` compares it with the certificate, and only a full
handshake gets there: a session offered on a connection to another name is resumed all the
same. Names are safe exactly as far as the application offers each session under the name it
was obtained for.
-/

namespace RustyTls

open Core

/-! ### What a connection is used for -/

/-- One use of an established connection. -/
inductive Use
  | read (record : Bytes)
  | write (data : Bytes)
  deriving Repr, DecidableEq

namespace Connection

/-- The sessions that a connection's uses deliver. -/
def sessions (ring : Ring) : Connection → List Use → List Session
  | _, [] => []
  | connection, .write data :: rest => sessions ring (connection.write ring data).2 rest
  | connection, .read record :: rest =>
      match connection.read ring record with
      | (.ok (.tickets delivered), next) => delivered ++ sessions ring next rest
      | (_, next) => sessions ring next rest

variable (ring : Ring) (connection : Connection)

@[simp] theorem write_certificates (data : Bytes) :
    (connection.write ring data).2.certificates = connection.certificates := rfl

theorem rekeyReceiving_certificates :
    (connection.rekeyReceiving ring).2.certificates = connection.certificates := by
  simp only [rekeyReceiving]
  split <;> rfl

theorem rekeySending_certificates :
    (connection.rekeySending ring).2.certificates = connection.certificates := by
  simp only [rekeySending]
  split
  · rfl
  · split <;> rfl

theorem keyUpdate_certificates (body : Bytes) :
    (connection.keyUpdate ring body).2.certificates = connection.certificates := by
  have hreceiving := rekeyReceiving_certificates ring connection
  simp only [keyUpdate]
  split
  · next heq =>
      rw [heq] at hreceiving
      exact hreceiving
  · next heq =>
      rw [heq] at hreceiving
      split
      · rw [rekeySending_certificates]
        exact hreceiving
      · exact hreceiving

/-- A session carries the chain of the connection it came from. -/
theorem sessionFrom_certificates {ring : Ring} {connection : Connection} {body : Bytes} {session : Session}
    (h : connection.sessionFrom ring body = .ok session) :
    session.peerCertificates = connection.certificates := by
  simp only [sessionFrom, bind_eq_ok] at h
  obtain ⟨_, -, _, -, _, -, _, -, _, -, _, -, _, -, heq⟩ := h
  obtain rfl := Except.ok.inj heq
  rfl

/-- One message keeps the chain, and a session it gives carries it. -/
theorem postHandshakeMessage_certificates (message : Message) :
    (connection.postHandshakeMessage ring message).2.certificates = connection.certificates ∧
      ∀ reply delivered, (connection.postHandshakeMessage ring message).1 = .ok (reply, delivered) →
        ∀ session ∈ delivered, session.peerCertificates = connection.certificates := by
  simp only [postHandshakeMessage]
  split
  · split
    · refine ⟨rfl, ?_⟩
      intro reply delivered h
      obtain ⟨-, rfl⟩ : [] = reply ∧ [] = delivered := by simpa using h
      simp
    · split
      · next session hsession =>
          refine ⟨rfl, ?_⟩
          intro reply delivered h
          obtain ⟨-, rfl⟩ : [] = reply ∧ [session] = delivered := by simpa using h
          simpa using sessionFrom_certificates hsession
      · refine ⟨rfl, ?_⟩
        intro reply delivered h
        simp at h
  · have hupdate := keyUpdate_certificates ring connection message.body
    split
    · next reply next heq =>
        rw [heq] at hupdate
        refine ⟨hupdate, ?_⟩
        intro reply' delivered h
        obtain ⟨-, rfl⟩ : reply = reply' ∧ [] = delivered := by simpa using h
        simp
    · next heq =>
        rw [heq] at hupdate
        refine ⟨hupdate, ?_⟩
        intro reply delivered h
        simp at h
  · refine ⟨rfl, ?_⟩
    intro reply delivered h
    simp at h

/-- So do the messages of a fragment, by induction over them. -/
theorem postHandshakeLoop_certificates : ∀ (ms : List Message) (connection : Connection),
    (postHandshakeLoop ring connection ms).2.certificates = connection.certificates ∧
      ∀ reply delivered, (postHandshakeLoop ring connection ms).1 = .ok (reply, delivered) →
        ∀ session ∈ delivered, session.peerCertificates = connection.certificates := by
  intro ms
  induction ms with
  | nil =>
      intro connection
      refine ⟨rfl, ?_⟩
      intro reply delivered h
      obtain ⟨-, rfl⟩ : [] = reply ∧ [] = delivered := by simpa [postHandshakeLoop] using h
      simp
  | cons m ms ih =>
      intro connection
      obtain ⟨hkept, hdelivered⟩ :=
        postHandshakeMessage_certificates ring connection m
      rw [postHandshakeLoop]
      split
      · next heq =>
          rw [heq] at hkept
          refine ⟨hkept, ?_⟩
          intro reply delivered h
          simp at h
      · next reply first next heq =>
          rw [heq] at hkept hdelivered
          obtain ⟨hkept', hdelivered'⟩ := ih next
          split
          · next heq' =>
              rw [heq'] at hkept'
              refine ⟨hkept'.trans hkept, ?_⟩
              intro reply delivered h
              simp at h
          · next replies more last heq' =>
              rw [heq'] at hkept' hdelivered'
              refine ⟨hkept'.trans hkept, ?_⟩
              intro reply' delivered h session hsession
              obtain ⟨-, rfl⟩ : reply ++ replies = reply' ∧ first ++ more = delivered := by
                simpa using h
              rcases List.mem_append.mp hsession with hfirst | hmore
              · exact hdelivered _ _ rfl session hfirst
              · rw [hdelivered' _ _ rfl session hmore, hkept]

theorem postHandshakeResult_tickets {reply : Bytes} {delivered sessions : List Session}
    (h : postHandshakeResult reply delivered = .ok (.tickets sessions)) : sessions = delivered := by
  unfold postHandshakeResult at h
  split at h
  · split at h
    · simp at h
    · simpa [eq_comm] using h
  · split at h <;> simp at h

theorem postHandshake_certificates (fragment : Bytes) :
    (connection.postHandshake ring fragment).2.certificates = connection.certificates ∧
      ∀ delivered, (connection.postHandshake ring fragment).1 = .ok (.tickets delivered) →
        ∀ session ∈ delivered, session.peerCertificates = connection.certificates := by
  simp only [postHandshake]
  split
  · refine ⟨rfl, ?_⟩
    intro delivered h
    simp at h
  · next ms _ =>
      obtain ⟨hkept, hdelivered⟩ := postHandshakeLoop_certificates ring ms connection
      split
      · next heq =>
          rw [heq] at hkept
          refine ⟨hkept, ?_⟩
          intro delivered h
          simp at h
      · next reply sessions next heq =>
          rw [heq] at hkept hdelivered
          refine ⟨hkept, ?_⟩
          intro delivered h
          rw [postHandshakeResult_tickets h]
          exact hdelivered _ _ rfl

/-- Reading a record keeps the chain, and the sessions it delivers carry it. -/
theorem read_certificates (record : Bytes) :
    (connection.read ring record).2.certificates = connection.certificates ∧
      ∀ delivered, (connection.read ring record).1 = .ok (.tickets delivered) →
        ∀ session ∈ delivered, session.peerCertificates = connection.certificates := by
  have hquiet : ∀ {result : Except ClientError Incoming}, (∀ delivered, result ≠ .ok (.tickets delivered)) →
      ∀ delivered, result = .ok (.tickets delivered) →
        ∀ session ∈ delivered, session.peerCertificates = connection.certificates :=
    fun hnone delivered h => absurd h (hnone delivered)
  simp only [read]
  split
  · exact ⟨rfl, hquiet (by simp)⟩
  · split
    · exact ⟨rfl, hquiet (by simp)⟩
    · next opened opener _ =>
        simp only [incoming]
        split
        · exact ⟨rfl, hquiet (by simp)⟩
        · exact postHandshake_certificates ring { connection with opener } _
        · split
          · exact ⟨rfl, hquiet (by simp)⟩
          · exact ⟨rfl, hquiet (by simp)⟩
        · exact ⟨rfl, hquiet (by simp)⟩

/-- Every session a connection delivers carries its chain. -/
theorem sessions_certificates : ∀ (uses : List Use) (connection : Connection),
    ∀ session ∈ connection.sessions ring uses,
      session.peerCertificates = connection.certificates := by
  intro uses
  induction uses with
  | nil =>
      intro connection session h
      simp [sessions] at h
  | cons use rest ih =>
      intro connection session h
      cases use with
      | write data => exact ih (connection.write ring data).2 session h
      | read record =>
          obtain ⟨hkept, hdelivered⟩ := read_certificates ring connection record
          rw [sessions] at h
          split at h
          · next delivered next heq =>
              rw [heq] at hkept hdelivered
              rcases List.mem_append.mp h with hfirst | hrest
              · exact hdelivered _ rfl session hfirst
              · rw [ih next session hrest, hkept]
          · next result next _ heq =>
              rw [heq] at hkept
              rw [ih next session h, hkept]

end Connection

namespace Client

/-! ### Sequences of connections -/

/-- One connection of a client: its configuration, what its handshake reads, and what the
connection is used for once it is established. -/
structure Attempt where
  config : ClientConfig
  entropy : Entropy
  inputs : List (Entropy × Bytes)
  uses : List Use

namespace Attempt

variable (ring : Ring) (attempt : Attempt)

/-- The connection that the handshake ends in. -/
def established : Option Connection :=
  match start ring attempt.entropy attempt.config with
  | .error _ => none
  | .ok (handshake, _) =>
      match ((endpoint ring attempt.config).run handshake attempt.inputs).state with
      | .done connection => some connection
      | _ => none

/-- The sessions that the connection is given. -/
def delivered : List Session :=
  match attempt.established ring with
  | some connection => connection.sessions ring attempt.uses
  | none => []

/-- A full handshake in which this chain was accepted for the configured name and its leaf
signed the transcript. -/
def Verifies (certificates : List Bytes) : Prop :=
  ∃ handshake record opening connection hellos flight finished,
    start ring attempt.entropy attempt.config = .ok (handshake, record) ∧
    Started ring attempt.entropy attempt.config handshake record opening ∧
    ((endpoint ring attempt.config).run handshake attempt.inputs).state = .done connection ∧
    connection.resumed = false ∧
    ServerAuthenticated ring attempt.config opening
      ((endpoint ring attempt.config).taken handshake attempt.inputs) connection hellos flight
      finished ∧
    FullFlight ring attempt.config connection.hash hellos.transcript flight certificates

/-- The session offered is one that an earlier connection was given, unchanged. -/
def Continues (earlier : Attempt) : Prop :=
  ∃ resumption, attempt.config.resumption = some resumption ∧
    resumption.session ∈ earlier.delivered ring

end Attempt

/-- A sequence of connections in which every session offered has a source. -/
inductive ConnectionSequence (source : Attempt → Attempt → Prop) : List Attempt → Prop
  | nil : ConnectionSequence source []
  | next {earlier : List Attempt} {attempt : Attempt} : ConnectionSequence source earlier →
      (attempt.config.resumption ≠ none → ∃ origin ∈ earlier, source attempt origin) →
      ConnectionSequence source (earlier ++ [attempt])

variable {ring : Ring} {attempt : Attempt} {connection : Connection}

theorem Attempt.established_inv (h : attempt.established ring = some connection) :
    ∃ handshake record, start ring attempt.entropy attempt.config = .ok (handshake, record) ∧
      ((endpoint ring attempt.config).run handshake attempt.inputs).state = .done connection := by
  unfold established at h
  split at h
  · simp at h
  · next handshake record hstart =>
      split at h
      · next connection' hdone =>
          obtain rfl := Option.some.inj h
          exact ⟨handshake, record, hstart, hdone⟩
      · simp at h

/-- A session is given by a connection, and carries its chain. -/
theorem Attempt.delivered_inv {session : Session} (h : session ∈ attempt.delivered ring) :
    ∃ connection, attempt.established ring = some connection ∧
      session.peerCertificates = connection.certificates := by
  unfold delivered at h
  split at h
  · next connection hconnection =>
      exact ⟨connection, hconnection, Connection.sessions_certificates ring _ _ _ h⟩
  · simp at h

/-- How an established connection came by its chain: it verified the chain itself, or has it
from the session it offered. -/
theorem Attempt.established_chain (h : attempt.established ring = some connection) :
    (connection.resumed = false ∧ attempt.Verifies ring connection.certificates) ∨
      (connection.resumed = true ∧ ∃ resumption, attempt.config.resumption = some resumption ∧
        connection.certificates = resumption.session.peerCertificates) := by
  obtain ⟨handshake, record, hstart, hdone⟩ := established_inv h
  obtain ⟨opening, hstarted⟩ := started_of_start hstart
  have hprogress := progress_run ring attempt.config opening handshake hstarted.progress
    attempt.inputs
  rw [hdone] at hprogress
  obtain ⟨hellos, flight, finished, hauth⟩ := hprogress
  rcases hauth.authenticated with ⟨hfull, -, hflight⟩ | ⟨hresumed, session, -, hflight⟩
  · exact .inl ⟨hfull, handshake, record, opening, connection, hellos, flight, finished, hstart,
      hstarted, hdone, hfull, hauth, hflight⟩
  · obtain ⟨⟨resumption, _, hoffered, rfl, -⟩, -, hcertificates⟩ := hflight
    exact .inr ⟨hresumed, resumption, hoffered, hcertificates⟩

/-- The root of a connection's chain of sessions: a full handshake that verified the chain the
connection reports, reached from source to source. -/
theorem ConnectionSequence.root {source : Attempt → Attempt → Prop}
    (hsource : ∀ a b, source a b → a.Continues ring b) {attempts : List Attempt}
    (h : ConnectionSequence source attempts) :
    ∀ attempt ∈ attempts, ∀ connection, attempt.established ring = some connection →
      ∃ root ∈ attempts, Relation.ReflTransGen source attempt root ∧
        root.Verifies ring connection.certificates := by
  induction h with
  | nil => simp
  | @next earlier last _ hlast ih =>
      intro attempt hmem connection hestablished
      rcases List.mem_append.mp hmem with hearlier | hnew
      · obtain ⟨root, hroot, hpath, hverifies⟩ := ih attempt hearlier connection hestablished
        exact ⟨root, List.mem_append_left _ hroot, hpath, hverifies⟩
      · obtain rfl := List.mem_singleton.mp hnew
        rcases Attempt.established_chain hestablished with
          ⟨-, hverifies⟩ | ⟨-, resumption, hoffered, hcertificates⟩
        · exact ⟨attempt, hmem, .refl, hverifies⟩
        · obtain ⟨origin, horigin, hstep⟩ := hlast (by simp [hoffered])
          obtain ⟨resumption', hoffered', hsession⟩ := hsource _ _ hstep
          obtain rfl : resumption = resumption' := by simpa [hoffered] using hoffered'
          obtain ⟨connection', hestablished', hcarried⟩ := Attempt.delivered_inv hsession
          obtain ⟨root, hroot, hpath, hverifies⟩ := ih origin horigin connection' hestablished'
          refine ⟨root, List.mem_append_left _ hroot, .head hstep hpath, ?_⟩
          rw [hcertificates, hcarried]
          exact hverifies

/-! ### Names -/

/-- The first certificate of a chain is one for this name. -/
def leafNames (certificates : List Bytes) (name : ServerName) : Bool :=
  match certificates with
  | [] => false
  | der :: _ =>
      match Certificate.parse der with
      | .ok leaf => (verifyServerName leaf name).isOk
      | .error _ => false

theorem leafNames_cons {der : Bytes} {leaf : Certificate} (hleaf : Certificate.parse der = .ok leaf)
    {certificates : List Bytes} {name : ServerName} :
    leafNames (der :: certificates) name = (verifyServerName leaf name).isOk := by
  unfold leafNames
  split
  · next hnil => cases hnil
  · next hcons =>
      obtain ⟨rfl, -⟩ := List.cons.inj hcons
      rw [hleaf]

theorem leafNames_congr {name other : ServerName} (hsame : SameName name other)
    (certificates : List Bytes) : leafNames certificates name = leafNames certificates other := by
  unfold leafNames
  split
  · rfl
  · split
    · rw [hsame.verifyServerName_eq]
    · rfl

/-- A full handshake has compared its leaf with the configured name. -/
theorem Attempt.Verifies.leafNames {certificates : List Bytes}
    (h : attempt.Verifies ring certificates) :
    leafNames certificates attempt.config.serverName = true := by
  obtain ⟨_, _, _, _, _, _, _, -, -, -, -, -, _, _, -, -, _, leaf, rest, _, -, -, hparsed, hpeer,
    -⟩ := h
  rw [verifyPeerCertificate, bind_eq_ok] at hpeer
  obtain ⟨_, hname, -⟩ := hpeer
  rw [mapErr_eq_ok] at hname
  cases certificates with
  | nil => simp [collect] at hparsed
  | cons der certificates =>
      rw [collect_eq_ok] at hparsed
      obtain ⟨hleaf, -⟩ := List.cons.inj hparsed
      rw [leafNames_cons hleaf, hname]
      rfl

/-- The session offered is one obtained for the name that is asked for now. -/
def Attempt.ContinuesSameName (ring : Ring) (attempt earlier : Attempt) : Prop :=
  attempt.Continues ring earlier ∧ SameName attempt.config.serverName earlier.config.serverName

/-- The names along a chain of sessions are one name. -/
theorem sameName_of_path {root : Attempt}
    (h : Relation.ReflTransGen (Attempt.ContinuesSameName ring) attempt root)
    (certificates : List Bytes) :
    Client.leafNames certificates attempt.config.serverName
      = Client.leafNames certificates root.config.serverName := by
  induction h with
  | refl => rfl
  | tail _ hstep ih =>
      rw [ih]
      exact leafNames_congr hstep.2 certificates

/-- In every sequence of connections in which each session is offered for the name that it was
obtained for, the leaf of a resumed session is one for the name of the new connection. -/
theorem resumed_leafNames (ring : Ring) (attempts : List Attempt)
    (h : ConnectionSequence (Attempt.ContinuesSameName ring) attempts) :
    ∀ attempt ∈ attempts, ∀ connection, attempt.established ring = some connection →
      connection.resumed = true → ∃ resumption, attempt.config.resumption = some resumption ∧
        connection.peerCertificates = resumption.session.peerCertificates ∧
        Client.leafNames resumption.session.peerCertificates attempt.config.serverName = true := by
  intro attempt hmem connection hestablished hresumed
  obtain ⟨root, -, hpath, hverifies⟩ := h.root (fun _ _ h => h.1) attempt hmem connection hestablished
  rcases Attempt.established_chain hestablished with ⟨hfull, -⟩ | ⟨-, resumption, hoffered, hchain⟩
  · simp [hfull] at hresumed
  · refine ⟨resumption, hoffered, hchain, ?_⟩
    rw [← hchain, sameName_of_path hpath]
    exact hverifies.leafNames

/-- The records in which the sample server answers a client's hello, and those that it sends
after the client's flight. -/
def sampleExchange (config : ClientConfig) (seed : UInt8) : List Bytes × List Bytes :=
  match start .sample (.sample seed) config with
  | .error _ => ([], [])
  | .ok (client, first) =>
      let server := Server.endpoint .sample .sample
      match server.readRecord (.sample (seed + 1)) Server.ServerHandshake.new first with
      | (.error _, _) => ([], [])
      | (.ok answer, waiting) =>
          let second := (endpoint .sample config).replies client
            ((records answer).map (.sample (seed + 2), ·))
          (records answer,
            records (server.replies waiting ((records second).map (.sample (seed + 3), ·))))

/-- A connection to the sample server, on which everything it sends is read. -/
def sampleAttempt (config : ClientConfig) (seed : UInt8) : Attempt where
  config := config
  entropy := .sample seed
  inputs := (sampleExchange config seed).1.map (.sample (seed + 2), ·)
  uses := (sampleExchange config seed).2.map .read

/-- The key of the first session that the sample server gives. -/
def samplePsk : Bytes :=
  [0x30, 0x42, 0x0a, 0xa7, 0x9e, 0x6a, 0x2a, 0xc2, 0x61, 0x95, 0x59, 0xf2, 0xa4, 0x84, 0x13, 0x5e,
    0x1b, 0x52, 0xa0, 0xc8, 0xea, 0x96, 0x72, 0x36, 0x81, 0xc7, 0x4c, 0xb7, 0xc0, 0xce, 0xd0, 0x13]

/-- What its ticket says. -/
def sampleContents : TicketContents where
  suite := .tlsAes128GcmSha256
  issuedAt := 0
  lifetime := 100
  ageAdd := 0x06060606
  identity := TicketContents.identityOf .sample Server.ServerConfig.sample.certificates
  clientCertificates := []
  psk := samplePsk

/-- The session that the sample server gives on a first connection. -/
def sampleSession : Session where
  ticket := ((sampleContents.sealContents .sample Server.Tickets.sample.keys.current
    ((Entropy.sample 4).fill 3 nonceLen)).toOption).getD []
  lifetime := 100
  ageAdd := 0x06060606
  suite := .tlsAes128GcmSha256
  peerCertificates := Server.ServerConfig.sample.certificates
  psk := samplePsk

/-- A connection that resumes it, to some name. -/
def sampleResuming (name : ServerName) : Attempt :=
  sampleAttempt { ClientConfig.sample with
    serverName := name, resumption := some ⟨sampleSession, 0⟩ } 9

theorem sampleResuming_continues (name : ServerName) :
    (sampleResuming name).Continues .sample (sampleAttempt .sample 1) := by
  have hsession : sampleSession ∈ (sampleAttempt .sample 1).delivered .sample := by decide +kernel
  refine ⟨⟨sampleSession, 0⟩, rfl, ?_⟩
  dsimp only
  exact hsession

/-- The sample client resumes under another spelling of the name. -/
theorem sampleResuming_established :
    ((sampleResuming (.dns [0x41, dot, 0x62])).established .sample).any (·.resumed) = true := by
  decide +kernel

theorem resumed_leafNames_sample :
    ∃ connection, (sampleResuming (.dns [0x41, dot, 0x62])).established .sample = some connection ∧
      Client.leafNames connection.peerCertificates (.dns [0x41, dot, 0x62]) = true := by
  have hsequence : ConnectionSequence (Attempt.ContinuesSameName .sample)
      ([] ++ [sampleAttempt .sample 1] ++ [sampleResuming (.dns [0x41, dot, 0x62])]) := by
    refine .next (.next .nil ?_) ?_
    · intro h
      exact absurd rfl h
    · intro _
      exact ⟨_, List.mem_singleton_self _, sampleResuming_continues _, rfl⟩
  obtain ⟨connection, hestablished, hresumed⟩ :=
    (Option.any_eq_true _ _).mp sampleResuming_established
  obtain ⟨_, -, hchain, hnames⟩ := resumed_leafNames _ _ hsequence _
    (List.mem_append_right _ (List.mem_singleton_self _)) _ hestablished hresumed
  exact ⟨connection, hestablished, hchain ▸ hnames⟩

/-- A session obtained for `a.b` is resumed on a connection to `c.d`, which its certificate does
not name. -/
theorem resumed_other_name :
    ConnectionSequence (Attempt.Continues .sample)
      ([] ++ [sampleAttempt .sample 1] ++ [sampleResuming (.dns [0x63, dot, 0x64])]) ∧
    ∃ connection, (sampleResuming (.dns [0x63, dot, 0x64])).established .sample = some connection ∧
      connection.resumed = true ∧
      (sampleResuming (.dns [0x63, dot, 0x64])).config.serverName = .dns [0x63, dot, 0x64] ∧
      Client.leafNames connection.peerCertificates (.dns [0x63, dot, 0x64]) = false := by
  constructor
  · refine .next (.next .nil ?_) ?_
    · intro h
      exact absurd rfl h
    · intro _
      exact ⟨_, List.mem_singleton_self _, sampleResuming_continues _⟩
  · have hresumed : ((sampleResuming (.dns [0x63, dot, 0x64])).established .sample).any
        (fun connection => connection.resumed &&
          !Client.leafNames connection.peerCertificates (.dns [0x63, dot, 0x64])) = true := by
      decide +kernel
    obtain ⟨connection, hestablished, hresumed⟩ := (Option.any_eq_true _ _).mp hresumed
    rw [Bool.and_eq_true, Bool.not_eq_true'] at hresumed
    exact ⟨connection, hestablished, hresumed.1, rfl, hresumed.2⟩

end Client

end RustyTls
