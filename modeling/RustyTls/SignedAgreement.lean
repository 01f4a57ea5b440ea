import RustyTls.ActiveNetwork
import RustyTls.AnswerExchange

/-!
# RustyTls.SignedAgreement

Agreement of the two ends on what they signed and authenticated, with an active network between them.

What an end signs is a digest of its transcript, and so is what a Finished authenticates. Where the
other end accepts it, the digests of two transcripts are equal: the transcripts are, or the two of
them are a collision of the hash, which the results exhibit. That signatures cannot be forged is
taken up as `Unforged`: what verifies under a key was signed in one of the runs of its owner, of
which there are as many as one likes.
-/

namespace RustyTls

open Core

/-! ### A crate in which two signatures have been made -/

/-- Two shares of a group that is written in at least 32 octets agree. -/
theorem sampleShares_agree {w : Nat} (hle : 32 ≤ w) (a b : Nat) :
    beBytes 32 (a * beNat (beBytes w (9 * b))) = beBytes 32 (b * beNat (beBytes w (9 * a))) := by
  have hreduce : ∀ m n : Nat, beBytes 32 (m * beNat (beBytes w n)) = beBytes 32 (m * n) := by
    intro m n
    rw [beNat_beBytes_mod, ← beBytes_mod, ← beBytes_mod 32 (m * n), Nat.mul_mod,
      Nat.mod_mod_of_dvd _ (pow_dvd_pow 256 hle), ← Nat.mul_mod]
  rw [hreduce, hreduce]
  congr 1
  ring

theorem Ring.sampleShares_complete : Ring.sampleShares.Complete where
  toLawful := Ring.sampleShares_lawful
  seals := Ring.sample_complete.seals
  publicKey_length := by
    intro alg secret key h
    obtain rfl := Option.some.inj h
    cases alg <;> simp
  agrees := by
    intro alg a b publicA publicB hA hB
    obtain rfl := Option.some.inj hA
    obtain rfl := Option.some.inj hB
    refine ⟨_, rfl, congrArg some ?_⟩
    cases alg <;> exact sampleShares_agree (by decide) _ _

/-- `ring`, in which nothing verifies under `key` but `contents`. -/
def Ring.verifyingOnly (ring : Ring) (key : Bytes) (contents : List Bytes) : Ring :=
  { ring with
    verify := fun alg key' message signature =>
      ring.verify alg key' message signature && (key' != key || contents.contains message) }

theorem Ring.verifyingOnly_complete {ring : Ring} (complete : ring.Complete) (key : Bytes)
    (contents : List Bytes) : (ring.verifyingOnly key contents).Complete :=
  ⟨⟨complete.digest_length, complete.hmac_length, complete.seal_length, complete.open_seal⟩,
    complete.seals, complete.publicKey_length, complete.agrees⟩

theorem Ring.verifyingOnly_mem {ring : Ring} {info : SubjectPublicKeyInfo} {contents : List Bytes}
    {scheme : SignatureScheme} {message signature : Bytes}
    (h : verifyTls13Signature (ring.verifyingOnly info.key contents) scheme info message signature
      = .ok ()) : message ∈ contents := by
  simp only [verifyTls13Signature, bind_eq_ok, refuse_eq_ok] at h
  obtain ⟨_, -, h⟩ := h
  simp only [Ring.verifyingOnly, bne_self_eq_false, Bool.false_or, List.contains_eq_mem,
    Bool.not_eq_false, Bool.and_eq_true, decide_eq_true_eq] at h
  exact h.2

/-! ### What the server signs -/

namespace Server

/-- The transcript through the Certificate, which a server signs. -/
def Answer.signed (config : ServerConfig) (answer : Answer) : Bytes :=
  octets answer.hellos ++ FlightDraw.opening config answer.selected ++
    certificateMessage config.certificates

/-- A run of a server signs a digest. -/
structure Signs (ring : Ring) (config : ServerConfig) (inputs : List (Entropy × Bytes))
    (answer : Answer) (answered : Negotiated) (digest : Bytes) : Prop where
  sends : Sends ring config inputs answer answered
  full : answer.selected.psk = none
  digest : digest = answer.selected.hash.hash ring (answer.signed config)

/-- Whatever verifies under a key as a server's CertificateVerify has been signed in one of the
server's runs. -/
def Unforged (ring : Ring) (config : ServerConfig) (runs : Set (List (Entropy × Bytes)))
    (info : SubjectPublicKeyInfo) : Prop :=
  ∀ scheme digest signature, verifyTls13Signature ring scheme info
      (certificateVerifyContent serverCertificateVerifyContext digest) signature = .ok () →
    ∃ inputs ∈ runs, ∃ answer answered, Signs ring config inputs answer answered digest

section Flight

variable {ring : Ring} {config : ServerConfig} {inputs : List (Entropy × Bytes)}
  {answer : Answer} {answered : Negotiated}

/-- What a server signs, as messages. -/
theorem AnswersHello.signed_messages (h : AnswersHello ring config answer answered)
    (hpsk : answer.selected.psk = none) :
    ∃ opening, (∀ m ∈ opening ++ [certificateOf config], Framed m) ∧
      answer.signed config = octets (answer.hellos ++ (opening ++ [certificateOf config])) := by
  obtain ⟨opening, authentication, hmessages⟩ := h.flightMessages
  obtain ⟨verify, rfl⟩ := hmessages.certified hpsk
  refine ⟨opening, ?_, ?_⟩
  · intro m hmem
    refine hmessages.framed m ?_
    rcases List.mem_append.mp hmem with hmem | hmem
    · exact List.mem_append_left _ hmem
    · obtain rfl := List.mem_singleton.mp hmem
      simp
  · rw [Answer.signed, certificateMessage_eq, octets_append, octets_append, octets_cons, octets_nil,
      List.append_nil, hmessages.opening_octets, List.append_assoc]
    rfl

/-- The chain of a server is read back from its Certificate. -/
theorem AnswersHello.parse_certificate (h : AnswersHello ring config answer answered)
    (hpsk : answer.selected.psk = none) :
    CertificateMessage.parse (certificateOf config).body
      = .ok (CertificateMessage.ofChain [] config.certificates) := by
  refine parse_certificateChain ?_ (by decide)
  obtain ⟨opening, authentication, hmessages⟩ := h.flightMessages
  obtain ⟨verify, rfl⟩ := hmessages.certified hpsk
  have hshort := h.short
  rw [FlightDraw.flight, ← hmessages.authentication_octets, octets_cons] at hshort
  simp only [List.length_append] at hshort
  have hencoded : (certificateOf config).encoded
      = Message.encode .certificate (CertificateMessage.ofChain [] config.certificates).encode := rfl
  rw [← hencoded]
  omega

end Flight

end Server

/-! ### A handshake in which both ends sign -/

/-- The keys of a flight in progress. -/
def Client.State.negotiated? : Client.State → Option (Client.Expect × Client.Negotiated)
  | .inFlight expect negotiated => some (expect, negotiated)
  | _ => none

theorem Client.State.negotiated?_eq {state : Client.State} {expect : Client.Expect}
    {negotiated : Client.Negotiated} (h : state.negotiated? = some (expect, negotiated)) :
    state = .inFlight expect negotiated := by
  cases state <;> simp_all [negotiated?]

/-- What a server is left with by its flight. -/
def Server.State.negotiated? : Server.State → Option Server.Negotiated
  | .awaitFinished negotiated => some negotiated
  | _ => none

theorem Server.State.negotiated?_eq {state : Server.State} {negotiated : Server.Negotiated}
    (h : state.negotiated? = some negotiated) : state = .awaitFinished negotiated := by
  cases state <;> simp_all [negotiated?]

namespace Client

/-- The sample client, waiting. -/
def sampleOpening : Awaiting :=
  match start .sample (.sample 1) Server.sampleIdentified with
  | .ok (⟨.awaitServerHello awaiting, _⟩, _) => awaiting
  | _ => ⟨[], ⟨.x25519, [], []⟩, false, [], []⟩

/-- What the sample server sends the sample client. -/
def sampleHeard : List (Entropy × Bytes) :=
  (records ((Server.endpoint .sample Server.sampleAsking).replies Server.ServerHandshake.new
    (Server.sampleDialogue.take 1))).map (.sample 3, ·)

/-- The digest that the sample client finds signed. -/
def sampleDigest : Bytes :=
  [217, 132, 121, 215, 202, 195, 81, 226, 191, 97, 52, 101, 47, 102, 83, 255, 234, 13, 184, 129, 36,
    105, 171, 146, 142, 151, 26, 13, 46, 189, 21, 234]

end Client

/-- The digest that the sample server finds signed. -/
def Server.sampleDigest : Bytes :=
  [218, 54, 40, 20, 110, 79, 113, 108, 242, 118, 108, 202, 187, 126, 201, 98, 58, 66, 104, 5, 170,
    118, 165, 237, 14, 152, 251, 127, 3, 49, 230, 200]

/-- A crate in which the sample key has signed just these two digests. -/
def Ring.sampleSigned : Ring :=
  Ring.sampleShares.verifyingOnly [9]
    [certificateVerifyContent serverCertificateVerifyContext Client.sampleDigest,
      certificateVerifyContent clientCertificateVerifyContext Server.sampleDigest]

theorem Ring.sampleSigned_complete : Ring.sampleSigned.Complete :=
  Ring.verifyingOnly_complete Ring.sampleShares_complete _ _

theorem Ring.sampleSigned_lengths : Ring.sampleSigned.ShareLengths :=
  Ring.sampleShares_lengths

theorem certificateVerifyContent_inj {context context' : String}
    (hlen : (ascii context).length = (ascii context').length) {digest digest' : Bytes}
    (h : certificateVerifyContent context digest = certificateVerifyContent context' digest') :
    ascii context = ascii context' ∧ digest = digest' := by
  simp only [certificateVerifyContent, List.append_assoc] at h
  obtain ⟨hcontext, hrest⟩ := List.append_inj (List.append_cancel_left h) hlen
  exact ⟨hcontext, List.append_cancel_left hrest⟩

theorem contexts_apart : (ascii serverCertificateVerifyContext).length
      = (ascii clientCertificateVerifyContext).length ∧
    ascii serverCertificateVerifyContext ≠ ascii clientCertificateVerifyContext := by
  decide +kernel

namespace Server

/-- The step in which the sample server answers the sample client. -/
def sampleStep : Endpoint.Taken State :=
  (((endpoint .sample sampleAsking).taken ServerHandshake.new
    (sampleDialogue.take 1)).head?).getD ⟨.sample 2, .failed, ⟨.finished, [], []⟩, [], .failed⟩

def sampleSelected : Selected :=
  ⟨.tlsAes128GcmSha256, .aes128Gcm, .sha256, .ed25519, .x25519, beBytes 32 9, none⟩

def sampleRead : ClientHello :=
  match ClientHello.parse sampleStep.message.body with
  | .ok hello => hello
  | .error _ => ⟨[], [], [], []⟩

def sampleDraw : FlightDraw :=
  let draw : FlightDraw := ⟨⟨.x25519, [2], beBytes 32 18⟩, List.replicate 32 2, beBytes 32 18, []⟩
  { draw with
    authentication :=
      match serverAuthentication .sample (.sample 2) sampleAsking .ed25519 none
        ⟨.sha256, draw.hellos sampleStep.message.encoded sampleRead sampleSelected ++
          FlightDraw.opening sampleAsking sampleSelected⟩ with
      | .ok authentication => authentication
      | .error _ => [] }

/-- What the sample server answers the sample client. -/
def sampleSigning : Answer :=
  ⟨[], [], sampleStep.message, sampleRead, sampleSelected, .sample 2, sampleDraw⟩

theorem completed_iff {ring : Ring} {entropy : Entropy} {config : ServerConfig} {head : Bytes}
    {hello : ClientHello} {selected : Selected} {draw : FlightDraw} {negotiated : Negotiated} :
    (KeyExchange.generate ring entropy selected.group = .ok draw.kx ∧
      entropy.fill 0 32 = some draw.random ∧
      draw.kx.agree ring selected.peerKey = .ok draw.sharedSecret ∧
      serverAuthentication ring entropy config selected.scheme selected.psk
        ⟨selected.hash, draw.hellos head hello selected ++ FlightDraw.opening config selected⟩
          = .ok draw.authentication ∧
      negotiated.aead = selected.aead ∧ negotiated.hash = selected.hash ∧
      negotiated.suite = selected.suite ∧
      negotiated.transcript = ⟨selected.hash, draw.sent ring config head hello selected⟩ ∧
      negotiated.clientHandshakeSecret = draw.clientSecret ring head hello selected ∧
      negotiated.master = (draw.schedule ring selected).intoMaster ring ∧
      negotiated.clientApplicationSecret = negotiated.master.derive ring "c ap traffic"
        (selected.hash.hash ring (draw.sent ring config head hello selected)) ∧
      negotiated.serverApplicationSecret = negotiated.master.derive ring "s ap traffic"
        (selected.hash.hash ring (draw.sent ring config head hello selected)) ∧
      Opener.new selected.aead
        (trafficKeys ring selected.hash (draw.clientSecret ring head hello selected)
          selected.aead.keyLen).key
        (trafficKeys ring selected.hash (draw.clientSecret ring head hello selected)
          selected.aead.keyLen).iv = .ok negotiated.opener ∧
      negotiated.expect
        = (if asksForCertificate config selected.psk then .certificate else .finished) ∧
      negotiated.clientCertificates = (selected.psk.map (·.clientCertificates)).getD []) ↔
    Completed ring entropy config head hello selected draw negotiated := by
  constructor
  · intro h
    obtain ⟨h₁, h₂, h₃, h₄, h₅, h₆, h₇, h₈, h₉, h₁₀, h₁₁, h₁₂, h₁₃, h₁₄, h₁₅⟩ := h
    exact ⟨h₁, h₂, h₃, h₄, h₅, h₆, h₇, h₈, h₉, h₁₀, h₁₁, h₁₂, h₁₃, h₁₄, h₁₅⟩
  · intro h
    exact ⟨h.kx, h.random, h.agreed, h.authentication, h.aead, h.hash, h.suite, h.transcript,
      h.clientSecret, h.master, h.clientApplication, h.serverApplication, h.opener, h.expect,
      h.certificates⟩

instance (ring : Ring) (entropy : Entropy) (config : ServerConfig) (head : Bytes)
    (hello : ClientHello) (selected : Selected) (draw : FlightDraw) (negotiated : Negotiated) :
    Decidable (Completed ring entropy config head hello selected draw negotiated) :=
  decidable_of_iff _ completed_iff

theorem Answer.replies_iff {ring : Ring} {config : ServerConfig} {answer : Answer} {reply : Bytes} :
    ((Sealer.new answer.selected.aead
        (trafficKeys ring answer.selected.hash (answer.serverSecret ring)
          answer.selected.aead.keyLen).key
        (trafficKeys ring answer.selected.hash (answer.serverSecret ring)
          answer.selected.aead.keyLen).iv).toOption.any fun sealer =>
      (sealer.sealRecord ring .handshake (answer.draw.flight ring config answer.head answer.hello
        answer.selected) 0).1.toOption.any fun record => decide (
          reply = plaintextRecord .handshake
            (answer.draw.serverHello answer.hello answer.selected) ++
              (if answer.before = [] then plaintextRecord .changeCipherSpec [0x01] else []) ++
              record)) = true ↔
    answer.Replies ring config reply := by
  simp only [Option.any_eq_true, toOption_eq_some, decide_eq_true_eq, Answer.Replies,
    exists_and_left]

instance (ring : Ring) (config : ServerConfig) (answer : Answer) (reply : Bytes) :
    Decidable (answer.Replies ring config reply) :=
  decidable_of_iff _ Answer.replies_iff

/-- Whether an answer to a hello that brought its share is one of the server's. -/
def Answer.direct (ring : Ring) (config : ServerConfig) (answer : Answer)
    (negotiated : Negotiated) : Bool :=
  decide (answer.before = [] ∧ answer.front = [] ∧ answer.message.typ = .clientHello ∧
    ClientHello.parse answer.message.body = .ok answer.hello ∧
    answer.selected.suite.parts = some (answer.selected.aead, answer.selected.hash) ∧
    config.cipherSuites.find? (fun suite => answer.hello.cipherSuites.contains suite.code)
      = some answer.selected.suite ∧
    (offeredShares answer.hello).toOption.bind (chooseShare config)
      = some (answer.selected.group, answer.selected.peerKey) ∧
    acceptPsk ring config answer.hello answer.message.encoded [] answer.selected.suite
      answer.selected.hash = .ok answer.selected.psk ∧
    Completed ring answer.entropy config answer.message.encoded answer.hello answer.selected
      answer.draw negotiated ∧
    (answer.draw.flight ring config answer.message.encoded answer.hello answer.selected).length
      ≤ maxFragmentLen)

theorem Answer.direct_answers {ring : Ring} {config : ServerConfig} {answer : Answer}
    {negotiated : Negotiated} (h : answer.direct ring config negotiated = true) :
    AnswersHello ring config answer negotiated := by
  obtain ⟨before, front, message, hello, selected, entropy, draw⟩ := answer
  obtain ⟨rfl, rfl, htyp, hparse, hparts, hsuite, hshare, hpsk, hcompleted, hshort⟩ :=
    of_decide_eq_true h
  obtain ⟨shares, hshares, hchoose⟩ := Option.bind_eq_some_iff.mp hshare
  have hoffered := toOption_eq_some.mp hshares
  exact ⟨htyp, hparse, hparts, .direct hsuite hoffered hchoose, hpsk, hcompleted, hshort⟩

/-- Whether a step sends an answer to a hello that brought its share. -/
def Answer.sentBy (ring : Ring) (config : ServerConfig) (answer : Answer)
    (step : Endpoint.Taken State) : Bool :=
  step.after.negotiated?.any fun negotiated =>
    decide (answer.message = step.message ∧ answer.Replies ring config step.reply) &&
      answer.direct ring config negotiated

/-- The first step of a run sends the server's flight. -/
theorem Answer.sends_of_head {ring : Ring} {config : ServerConfig} {answer : Answer}
    {inputs : List (Entropy × Bytes)} {step : Endpoint.Taken State}
    (hhead : ((endpoint ring config).taken ServerHandshake.new inputs).head? = some step)
    (hentropy : answer.entropy = step.entropy) (h : answer.sentBy ring config step = true) :
    ∃ negotiated, Sends ring config inputs answer negotiated := by
  obtain ⟨rest, htaken⟩ := List.head?_eq_some_iff.mp hhead
  obtain ⟨negotiated, hafter, hboth⟩ := (Option.any_eq_true _ _).mp h
  obtain ⟨hstep, hdirect⟩ := Bool.and_eq_true_iff.mp hboth
  obtain ⟨hmessage, hreplies⟩ := of_decide_eq_true hstep
  have hanswers := answer.direct_answers hdirect
  have hbefore : answer.before = [] := (of_decide_eq_true hdirect).1
  exact ⟨negotiated, [], step, ⟨[], rest, htaken, rfl⟩, hbefore, hmessage, hentropy,
    State.negotiated?_eq hafter, hanswers, hreplies⟩

theorem sampleDialogue_entropy {input : Entropy × Bytes} (h : input ∈ sampleDialogue) :
    input.1 = .sample 2 ∨ input.1 = .sample 4 := by
  unfold sampleDialogue at h
  split at h
  · exact absurd h List.not_mem_nil
  · rcases List.mem_cons.mp h with rfl | h
    · exact .inl rfl
    · obtain ⟨_, -, rfl⟩ := List.mem_map.mp h
      exact .inr rfl

theorem sampleSigning_sends : ∃ answered, Sends .sampleSigned sampleAsking sampleDialogue
    sampleSigning answered := by
  have hcheck : (((endpoint .sampleSigned sampleAsking).taken ServerHandshake.new
      sampleDialogue).head?.any fun step => step.entropy.fill 0 1 == some [2] &&
        sampleSigning.sentBy .sampleSigned sampleAsking step) = true := by decide +kernel
  obtain ⟨step, hhead, hboth⟩ := (Option.any_eq_true _ _).mp hcheck
  rw [Bool.and_eq_true, beq_iff_eq] at hboth
  obtain ⟨hfill, hsent⟩ := hboth
  have hentropy : sampleSigning.entropy = step.entropy := by
    obtain ⟨⟨_, hinput⟩, -⟩ := Endpoint.taken_mem (List.mem_of_mem_head? hhead)
    rcases sampleDialogue_entropy hinput with heq | heq
    · exact heq.symm
    · rw [show step.entropy = .sample 4 from heq] at hfill
      exact absurd hfill (by decide)
  exact Answer.sends_of_head hhead hentropy hsent

theorem sampleSigned_unforged {info : SubjectPublicKeyInfo} (hkey : info.key = [9]) :
    Unforged .sampleSigned sampleAsking {sampleDialogue} info := by
  intro scheme digest signature h
  obtain ⟨answered, hsends⟩ := sampleSigning_sends
  refine ⟨_, rfl, sampleSigning, answered, hsends, rfl, ?_⟩
  rw [Ring.sampleSigned, ← hkey] at h
  have hsame : digest = Client.sampleDigest := by
    rcases List.mem_cons.mp (Ring.verifyingOnly_mem h) with heq | hmem
    · exact (certificateVerifyContent_inj rfl heq).2
    · obtain ⟨hcontext, -⟩ := certificateVerifyContent_inj contexts_apart.1
        (List.mem_singleton.mp hmem)
      exact absurd hcontext contexts_apart.2
  rw [hsame]
  decide +kernel

end Server

theorem Client.start_sampleOpening : ∃ record,
    Client.start .sampleSigned (.sample 1) Server.sampleIdentified
      = .ok (⟨.awaitServerHello sampleOpening, []⟩, record) := by
  have hcheck : ((Client.start .sampleSigned (.sample 1) Server.sampleIdentified).toOption.any
      fun started => decide (started.1 = ⟨.awaitServerHello sampleOpening, []⟩)) = true := by
    decide +kernel
  obtain ⟨⟨handshake, record⟩, hstarted, hsame⟩ := (Option.any_eq_true _ _).mp hcheck
  obtain rfl := of_decide_eq_true hsame
  exact ⟨record, toOption_eq_some.mp hstarted⟩

/-- Whether the leaf of a chain has the sample key. -/
def sampleKeyed (chain : List Bytes) : Bool :=
  (chain.head?.bind fun der => (Certificate.parse der).toOption).any fun leaf =>
    decide (leaf.subjectPublicKeyInfo.key = [9])

theorem key_of_sampleKeyed {chain : List Bytes} (h : sampleKeyed chain = true) {der : Bytes}
    {leaf : Certificate} (hder : chain.head? = some der) (hleaf : Certificate.parse der = .ok leaf) :
    leaf.subjectPublicKeyInfo.key = [9] := by
  rw [sampleKeyed, hder, Option.bind_some, hleaf] at h
  exact of_decide_eq_true h

namespace Client

section SignedByServer

variable {ring : Ring} {client : ClientConfig} {server : Server.ServerConfig} {entropy : Entropy}
  {start : Awaiting} {record : Bytes} {inputs : List (Entropy × Bytes)}

/-- The chain that a client has read is the one in the last message it accepted. -/
theorem certificates_of_last {negotiated : Negotiated} {log : List (Endpoint.Taken State)}
    {front : List Message} {certificate : Message} {message : CertificateMessage}
    (hprogress : Progress ring client start log (.inFlight .certificateVerify negotiated))
    (hlog : log.map (·.message) = front ++ [certificate])
    (hparse : CertificateMessage.parse certificate.body = .ok message) :
    negotiated.certificates = message.entries.map (·.certificate) := by
  obtain ⟨hellos, flight, hheard, -, -, ⟨_, requests, last, message', rfl, -, -, -, -, hparse', -,
    hcertificates⟩, -⟩ := hprogress
  have hlog' := hheard.log_eq
  have hlast : last = certificate := by
    rw [hlog, ← List.cons_append, ← List.append_assoc] at hlog'
    have hends := (List.append_inj' hlog' rfl).2
    exact (List.singleton_inj.mp hends).symm
  rw [hlast] at hparse'
  obtain rfl := Except.ok.inj (hparse'.symm.trans hparse)
  exact hcertificates

/-- A CertificateVerify that a client accepts verifies under the key of the chain it has read. -/
theorem certificateVerify_accepted {negotiated : Negotiated} {message : Message} {reply : Bytes}
    {next : State}
    (h : handleMessage ring entropy client (.inFlight .certificateVerify negotiated) message
      = .ok (reply, next)) :
    ∃ (verify : CertificateVerify) (leaf : Certificate) (rest : List Certificate),
      collect (negotiated.certificates.map Certificate.parse) = .ok (leaf :: rest) ∧
      verifyTls13Signature ring ⟨verify.scheme⟩ leaf.subjectPublicKeyInfo
        (certificateVerifyContent serverCertificateVerifyContext negotiated.certificateTranscript)
        verify.signature = .ok () := by
  rcases handleFlightMessage_inv h with
    ⟨-, h⟩ | ⟨hexpect, -⟩ | ⟨hexpect, -⟩ | ⟨-, -, h⟩ | ⟨hexpect, -⟩
  · obtain ⟨_, -, hexpect, -⟩ := handleCertificateRequest_inv h
    cases hexpect
  · cases hexpect
  · cases hexpect
  · obtain ⟨verify, -, hcheck, -⟩ := handleCertificateVerify_inv h
    obtain ⟨leaf, rest, path, hchain, -, hverify⟩ := checkPeer_inv hcheck
    exact ⟨verify, leaf, rest, hchain, hverify⟩
  · cases hexpect

/-- **Agreement on the server's signature.** Whatever the network delivers to a client: where the
client accepts a CertificateVerify under a key that only runs of the server sign with, one of those
runs signed in answer to the client's own hello. The two have one transcript, the suite, the group
and the keys their configurations come to, and the client holds the server's chain. Else two
transcripts collide under the hash, or two first hellos do. -/
theorem run_signedByServer (complete : ring.Complete) (hshares : ring.ShareLengths)
    (hshort : ShortHellos client)
    (hstart : Client.start ring entropy client = .ok (⟨.awaitServerHello start, []⟩, record))
    {log : List Message} {step : Endpoint.Taken State}
    (hstep : (endpoint ring client).Takes ⟨.awaitServerHello start, []⟩ inputs log step)
    {negotiated : Negotiated} (hbefore : step.before = .inFlight .certificateVerify negotiated)
    {runs : Set (List (Entropy × Bytes))}
    (hunforged : ∀ leaf rest, collect (negotiated.certificates.map Certificate.parse)
      = .ok (leaf :: rest) → Server.Unforged ring server runs leaf.subjectPublicKeyInfo) :
    ∃ run ∈ runs, ∃ answer answered,
      Server.Signs ring server run answer answered negotiated.certificateTranscript ∧
      (Collides (negotiated.hash.hash ring) negotiated.transcript.buffer (answer.signed server) ∨
        FirstHellosCollide ring start answer ∨
        negotiated.transcript.buffer = answer.signed server ∧
        negotiated.certificates = server.certificates ∧
        SameSession ring client server start log negotiated answer answered) := by
  have hframed : ∀ m ∈ log, Framed m := (List.forall_mem_append.mp hstep.framed).1
  obtain ⟨⟨steps, hsteps, hunder⟩, hhandle⟩ := underway_takes hstep
  rw [hbefore] at hunder hhandle
  obtain ⟨verify, leaf, rest, hchain, hverify⟩ := certificateVerify_accepted hhandle
  obtain ⟨run, hrun, answer, answered, hsigns⟩ :=
    hunforged leaf rest hchain ⟨verify.scheme⟩ _ _ hverify
  refine ⟨run, hrun, answer, answered, hsigns, ?_⟩
  obtain ⟨hprogress, -, before, awaiting, reply, flight, hlog, hopened, hkeyed⟩ := hunder
  obtain rfl := hsteps.trans hlog
  have hanswers := hsigns.sends.answers
  have hbuffer : negotiated.transcript.buffer
      = awaiting.clientHello ++ reply.message.encoded ++ octets flight := by
    rw [hkeyed.transcript]
  have hdigest : negotiated.hash.hash ring negotiated.transcript.buffer
      = answer.selected.hash.hash ring (answer.signed server) := by
    rw [← hsigns.digest]
    obtain ⟨hellos, flight', -, hin, -, -, htranscript⟩ := hprogress
    rw [htranscript, hin.transcript]
  have hhash := Hash.eq_of_hash complete.toLawful hdigest
  rw [← hhash] at hdigest
  rcases eq_or_collides hdigest with hsame | hcollides
  · obtain ⟨opening, hsent, hsigned⟩ := hanswers.signed_messages hsigns.full
    rw [hbuffer, hsigned] at hsame
    obtain ⟨hflight, hhellos | hcollides⟩ := sameHellos complete hshares hshort hstart hopened hkeyed
      hframed hanswers hsigns.sends.framed hsent hsame
    · refine .inr (.inr ⟨by rw [hbuffer, hsame, hsigned], ?_, ?_⟩)
      · have hread : steps.map (·.message)
            = (before ++ reply.message :: opening) ++ [Server.certificateOf server] := by
          rw [hlog, hflight]
          simp
        rw [certificates_of_last hprogress hread (hanswers.parse_certificate hsigns.full)]
        simp [CertificateMessage.ofChain, Function.comp_def]
      · exact hhellos.sameSession hopened hkeyed hanswers (hhellos.psk_none hsigns.full)
          (SameHellos.octets_eq hsame hflight)
    · exact .inr (.inl hcollides)
  · exact .inl hcollides

end SignedByServer

/-- The sample client's own handshake with the sample server. -/
theorem run_signedByServer_sample :
    ∃ log step negotiated, (endpoint .sampleSigned Server.sampleIdentified).Takes
        ⟨.awaitServerHello sampleOpening, []⟩ sampleHeard log step ∧
      step.before = .inFlight .certificateVerify negotiated ∧ ∃ answer answered,
        Server.Signs .sampleSigned Server.sampleAsking Server.sampleDialogue answer answered
          negotiated.certificateTranscript ∧
        (Collides (negotiated.hash.hash .sampleSigned) negotiated.transcript.buffer
            (answer.signed Server.sampleAsking) ∨
          FirstHellosCollide .sampleSigned sampleOpening answer ∨
          negotiated.transcript.buffer = answer.signed Server.sampleAsking ∧
          negotiated.certificates = Server.sampleAsking.certificates ∧
          SameSession .sampleSigned Server.sampleIdentified Server.sampleAsking sampleOpening log
            negotiated answer answered) := by
  have hcheck : (((endpoint .sampleSigned Server.sampleIdentified).taken
      ⟨.awaitServerHello sampleOpening, []⟩ sampleHeard).any fun step =>
        step.before.negotiated?.any fun reached => reached.1 == .certificateVerify &&
          sampleKeyed reached.2.certificates) = true := by decide +kernel
  obtain ⟨step, hstep, hany⟩ := List.any_eq_true.mp hcheck
  obtain ⟨⟨expect, negotiated⟩, hreached, hkeyed⟩ := (Option.any_eq_true _ _).mp hany
  rw [Bool.and_eq_true, beq_iff_eq] at hkeyed
  obtain ⟨rfl, hkeyed⟩ := hkeyed
  obtain ⟨record, hstart⟩ := start_sampleOpening
  have hbefore := State.negotiated?_eq hreached
  have hunforged : ∀ leaf rest, collect (negotiated.certificates.map Certificate.parse)
      = .ok (leaf :: rest) → Server.Unforged .sampleSigned Server.sampleAsking
        {Server.sampleDialogue} leaf.subjectPublicKeyInfo := by
    intro leaf rest hchain
    obtain ⟨der, hder, hleaf⟩ := Server.collect_head hchain
    exact Server.sampleSigned_unforged (key_of_sampleKeyed hkeyed hder hleaf)
  obtain ⟨log, htakes⟩ := Endpoint.exists_takes hstep
  obtain ⟨run, rfl, answer, answered, hsigns, hagrees⟩ := run_signedByServer
    Ring.sampleSigned_complete Ring.sampleSigned_lengths (by decide) hstart htakes hbefore hunforged
  exact ⟨log, step, negotiated, htakes, hbefore, answer, answered, hsigns, hagrees⟩

end Client

/-! ### What the client signs -/

namespace Client

/-- The transcript through the client's Certificate, which a client signs. -/
def signed (negotiated : Negotiated) (finished : Message) (request : CertificateRequestMessage)
    (identity : ClientIdentity) : Bytes :=
  negotiated.transcript.buffer ++ finished.encoded ++
    clientCertificateMessage request.context identity.certificates

/-- A run of a client signs a digest: it was asked to, it has something to answer with, and it has
accepted the server's Finished after the messages of a log. -/
structure Signs (ring : Ring) (config : ClientConfig) (run : Entropy × List (Entropy × Bytes))
    (start : Awaiting) (log : List Message) (negotiated : Negotiated) (finished : Message)
    (connection : Connection) (request : CertificateRequestMessage) (identity : ClientIdentity)
    (digest : Bytes) : Prop where
  started : ∃ record, Client.start ring run.1 config = .ok (⟨.awaitServerHello start, []⟩, record)
  finishes : ∃ step, (endpoint ring config).Takes ⟨.awaitServerHello start, []⟩ run.2 log step ∧
    step.before = .inFlight .finished negotiated ∧ step.message = finished ∧
      step.after = .done connection
  asked : negotiated.certificateRequest = some request
  answers : answeringIdentity config request = some identity
  digest : digest = negotiated.hash.hash ring (signed negotiated finished request identity)

/-- Whatever verifies under a key as a client's CertificateVerify has been signed in one of the
client's runs. -/
def Unforged (ring : Ring) (config : ClientConfig) (runs : Set (Entropy × List (Entropy × Bytes)))
    (info : SubjectPublicKeyInfo) : Prop :=
  ∀ scheme digest signature, verifyTls13Signature ring scheme info
      (certificateVerifyContent clientCertificateVerifyContext digest) signature = .ok () →
    ∃ run ∈ runs, ∃ start log negotiated finished connection request identity,
      Signs ring config run start log negotiated finished connection request identity digest

/-- Whether a step of a client's takes it to a connection, and signs a digest. -/
def signsAt (ring : Ring) (config : ClientConfig) (digest : Bytes) (step : Endpoint.Taken State) :
    Bool :=
  match step.before, step.after with
  | .inFlight .finished negotiated, .done _ =>
      negotiated.certificateRequest.any fun request =>
        (answeringIdentity config request).any fun identity =>
          decide (digest = negotiated.hash.hash ring
            (signed negotiated step.message request identity))
  | _, _ => false

theorem sampleSigned_unforged {info : SubjectPublicKeyInfo} (hkey : info.key = [9]) :
    Unforged .sampleSigned Server.sampleIdentified {(.sample 1, sampleHeard)} info := by
  intro scheme digest signature h
  rw [Ring.sampleSigned, ← hkey] at h
  have hsame : digest = Server.sampleDigest := by
    rcases List.mem_cons.mp (Ring.verifyingOnly_mem h) with heq | hmem
    · obtain ⟨hcontext, -⟩ := certificateVerifyContent_inj contexts_apart.1.symm heq
      exact absurd hcontext.symm contexts_apart.2
    · exact (certificateVerifyContent_inj rfl (List.mem_singleton.mp hmem)).2
  have hcheck : (((endpoint .sampleSigned Server.sampleIdentified).taken
      ⟨.awaitServerHello sampleOpening, []⟩ sampleHeard).any
        (signsAt .sampleSigned Server.sampleIdentified Server.sampleDigest)) = true := by
    decide +kernel
  obtain ⟨step, hstep, hsigns⟩ := List.any_eq_true.mp hcheck
  unfold signsAt at hsigns
  split at hsigns
  · next negotiated connection hbefore hafter =>
      obtain ⟨request, hasked, hsigns⟩ := (Option.any_eq_true _ _).mp hsigns
      obtain ⟨identity, hanswers, hdigest⟩ := (Option.any_eq_true _ _).mp hsigns
      obtain ⟨log, htakes⟩ := Endpoint.exists_takes hstep
      refine ⟨_, rfl, sampleOpening, log, negotiated, step.message, connection, request, identity,
        start_sampleOpening, ?_, hasked, hanswers, ?_⟩
      · dsimp only
        exact ⟨step, htakes, hbefore, rfl, hafter⟩
      · rw [hsame]
        exact of_decide_eq_true hdigest
  · cases hsigns

/-- The secrets of a client's connection, and the flight it sent to get there. -/
theorem finish_secrets {ring : Ring} {entropy : Entropy} {config : ClientConfig}
    {negotiated : Negotiated} {message : Message} {reply : Bytes} {connection : Connection}
    (h : finish ring entropy config negotiated message = .ok (reply, .done connection)) :
    connection.clientSecret = (negotiated.schedule.intoMaster ring).derive ring "c ap traffic"
        ((negotiated.transcript.addMessage message).hash ring) ∧
      connection.serverSecret = (negotiated.schedule.intoMaster ring).derive ring "s ap traffic"
        ((negotiated.transcript.addMessage message).hash ring) ∧
      ∃ authentication, clientAuthentication ring entropy config negotiated
          (negotiated.transcript.addMessage message) = .ok authentication ∧
        authentication.length ≤ maxFragmentLen := by
  simp only [finish, bind_eq_ok, mapErr_eq_ok] at h
  obtain ⟨_, -, _, -, authentication, hauth, _, -, sealed, hseal, _, -, _, -, heq⟩ := h
  obtain ⟨-, hnext⟩ := Prod.mk.inj (Except.ok.inj heq)
  obtain rfl := State.done.inj hnext
  refine ⟨rfl, rfl, authentication, hauth, ?_⟩
  obtain ⟨_, _, -, hshort, -⟩ := sealRecord_ok (Prod.ext hseal rfl)
  rw [List.length_append] at hshort
  omega

/-- The client's Certificate, as a message. -/
def certificateOf (request : CertificateRequestMessage) (identity : ClientIdentity) : Message :=
  Message.of .certificate
    (CertificateMessage.ofChain request.context identity.certificates).encode

theorem certificateOf_encoded (request : CertificateRequestMessage) (identity : ClientIdentity) :
    (certificateOf request identity).encoded
      = clientCertificateMessage request.context identity.certificates := by
  rw [clientCertificateMessage_eq]
  rfl

end Client

section SignedByClient

variable {ring : Ring} {client : Client.ClientConfig} {server : Server.ServerConfig}
  {inputs : List (Entropy × Bytes)}

/-- The client's Certificate is framed, where it signs. -/
theorem Client.certificateOf_framed {entropy : Entropy} {negotiated : Client.Negotiated}
    {message : Message} {reply : Bytes} {connection : Connection}
    {request : CertificateRequestMessage} {identity : Client.ClientIdentity}
    (h : Client.finish ring entropy client negotiated message = .ok (reply, .done connection))
    (hasked : negotiated.certificateRequest = some request)
    (hidentity : Client.answeringIdentity client request = some identity) :
    (Client.certificateOf request identity).encoded.length ≤ maxFragmentLen ∧
      Framed (Client.certificateOf request identity) := by
  obtain ⟨-, -, authentication, hauth, hshort⟩ := Client.finish_secrets h
  have hlen : (Client.certificateOf request identity).encoded.length ≤ maxFragmentLen := by
    simp only [Client.clientAuthentication, hasked, Client.answerRequest, hidentity,
      bind_eq_ok] at hauth
    obtain ⟨verify, -, heq⟩ := hauth
    obtain rfl := Except.ok.inj heq
    rw [List.length_append, ← Client.certificateOf_encoded] at hshort
    omega
  exact ⟨hlen, @Client.framed_of_short .certificate rfl _ hlen⟩

/-- A client that has signed had read all of the server's flight. -/
theorem Client.Signs.reading {run : Entropy × List (Entropy × Bytes)} {start : Client.Awaiting}
    {log : List Message} {reached : Client.Negotiated} {finished : Message}
    {connection : Connection} {request : CertificateRequestMessage}
    {identity : Client.ClientIdentity} {digest : Bytes}
    (h : Client.Signs ring client run start log reached finished connection request identity
      digest) :
    ∃ entropy reply, (∀ m ∈ log ++ [finished], Framed m) ∧ finished.typ = .finished ∧
      (∃ steps, log = steps.map (·.message) ∧
        Client.Reading ring client start steps .finished reached) ∧
      Client.finish ring entropy client reached finished = .ok (reply, .done connection) := by
  obtain ⟨step, hstep, hbefore, rfl, hafter⟩ := h.finishes
  obtain ⟨⟨steps, hsteps, hunder⟩, hhandle⟩ := Client.underway_takes hstep
  rw [hbefore] at hunder hhandle
  rw [hafter] at hhandle
  rcases Client.flight_next hhandle with ⟨-, -, -, _, _, _, _, hnext⟩ | ⟨-, htyp, hfinish⟩
  · cases hnext
  · exact ⟨step.entropy, step.reply, hstep.framed, htyp, ⟨steps, hsteps, hunder⟩, hfinish⟩

namespace Server

/-- The server's Finished, as a message. -/
def Answer.finishedMessage (ring : Ring) (config : ServerConfig) (answer : Answer) : Message :=
  Message.of .finished (finishedVerifyData ring answer.selected.hash
    (answer.draw.serverSecret ring answer.head answer.hello answer.selected)
    (answer.selected.hash.hash ring
      (answer.draw.covered config answer.head answer.hello answer.selected)))

theorem Answer.finishedMessage_framed (lawful : ring.Lawful) (config : ServerConfig)
    (answer : Answer) : Framed (answer.finishedMessage ring config) := by
  refine @Message.of_framed .finished rfl _ ?_
  have hlen := finishedVerifyData_length lawful answer.selected.hash
    (answer.draw.serverSecret ring answer.head answer.hello answer.selected)
    (answer.selected.hash.hash ring
      (answer.draw.covered config answer.head answer.hello answer.selected))
  have hle := answer.selected.hash.len_le
  omega

/-- What a server has sent, as messages. -/
theorem FlightMessages.octets_sent {config : ServerConfig} {answer : Answer}
    {opening authentication : List Message}
    (h : FlightMessages config answer opening authentication) :
    answer.draw.sent ring config answer.head answer.hello answer.selected
      = octets (answer.hellos ++
          (opening ++ authentication ++ [answer.finishedMessage ring config])) := by
  rw [octets_append, octets_append, octets_append, Answer.octets_hellos, h.opening_octets,
    h.authentication_octets, octets_cons, octets_nil, List.append_nil, FlightDraw.sent,
    FlightDraw.covered]
  simp only [List.append_assoc]
  rfl

end Server

/-- Two lists that are cut at the first element of a kind are cut at the same place. -/
theorem append_cons_inj {α : Type} {P : α → Prop} {a b : α} (ha : P a) (hb : P b) {as bs : List α} :
    ∀ {xs ys : List α}, (∀ x ∈ xs, ¬ P x) → (∀ y ∈ ys, ¬ P y) → xs ++ a :: as = ys ++ b :: bs →
      xs = ys ∧ a = b ∧ as = bs := by
  intro xs
  induction xs with
  | nil =>
      intro ys _ hys h
      cases ys with
      | nil => exact ⟨rfl, List.cons.inj h⟩
      | cons y ys =>
          obtain ⟨rfl, -⟩ := List.cons.inj h
          exact absurd ha (hys a List.mem_cons_self)
  | cons x xs ih =>
      intro ys hxs hys h
      cases ys with
      | nil =>
          obtain ⟨rfl, -⟩ := List.cons.inj h
          exact absurd hb (hxs x List.mem_cons_self)
      | cons y ys =>
          obtain ⟨rfl, htail⟩ := List.cons.inj h
          obtain ⟨rfl, hrest⟩ :=
            ih (List.forall_mem_cons.mp hxs).2 (List.forall_mem_cons.mp hys).2 htail
          exact ⟨rfl, hrest⟩

/-- The client's transcript through what it answers with. -/
def Client.answered (negotiated : Client.Negotiated) (finished : Message) (answer : List Message) :
    Transcript :=
  (negotiated.transcript.addMessage finished).add (octets answer)

section OneTranscript

variable {start awaiting : Client.Awaiting} {reply : Client.Reply}
  {flight answer heard : List Message} {reached : Client.Negotiated} {finished : Message}
  {given : Server.Answer} {answered negotiated : Server.Negotiated}

/-- The client's transcript through what it answers with. -/
theorem Client.Keyed.answered_eq (h : Client.Keyed ring client awaiting reply flight reached)
    (finished : Message) (answer : List Message) :
    Client.answered reached finished answer
      = ⟨reached.hash, awaiting.clientHello ++ reply.message.encoded ++
          octets (flight ++ finished :: answer)⟩ := by
  simp [Client.answered, Transcript.addMessage, Transcript.add, h.transcript]

/-- The server's transcript through what it has heard. -/
theorem Server.Continues.transcript_eq (h : Server.Continues answered heard negotiated)
    (hanswers : Server.AnswersHello ring server given answered)
    {opening authentication : List Message}
    (hmessages : Server.FlightMessages server given opening authentication) :
    negotiated.transcript = ⟨negotiated.hash, octets (given.hellos ++ (opening ++ authentication ++
      given.finishedMessage ring server :: heard))⟩ := by
  rw [h.transcript, hanswers.completed.transcript, h.hash, hanswers.completed.hash,
    hmessages.octets_sent]
  simp

/-- Equal transcripts are of one session: the client took the Finished that the server sent, and
answered what the server heard. -/
theorem sameSession_of_answered (complete : ring.Complete) (hshares : ring.ShareLengths)
    (hshort : Client.ShortHellos client) {entropy : Entropy} {record : Bytes}
    (hstart : Client.start ring entropy client = .ok (⟨.awaitServerHello start, []⟩, record))
    {before : List Message} (hopened : Client.Opened ring client start before awaiting)
    (hkeyed : Client.Keyed ring client awaiting reply flight reached)
    (hmine : ∀ m ∈ before ++ reply.message :: flight ++ [finished], Framed m)
    (hanswer : ∀ m ∈ answer, Framed m) (htyp : finished.typ = .finished)
    (hanswers : Server.AnswersHello ring server given answered)
    (hcontinues : Server.Continues answered heard negotiated)
    (hits : ∀ m ∈ given.before ++ given.message :: heard, Framed m)
    (hhash : reached.hash = negotiated.hash)
    (hsame : (Client.answered reached finished answer).buffer = negotiated.transcript.buffer) :
    FirstHellosCollide ring start given ∨ BindersCollide ring client given ∨
      answer = heard ∧ finished = given.finishedMessage ring server ∧
        reached.transcript.buffer ++ finished.encoded
          = given.draw.sent ring server given.head given.hello given.selected ∧
        SameSession ring client server start (before ++ reply.message :: flight) reached given
          answered := by
  obtain ⟨opening, authentication, hmessages⟩ := hanswers.flightMessages
  have hlists : awaiting.clientHello ++ reply.message.encoded ++
      octets (flight ++ finished :: answer)
      = octets (given.hellos ++ (opening ++ authentication ++
          given.finishedMessage ring server :: heard)) := by
    rw [hkeyed.answered_eq, hcontinues.transcript_eq hanswers hmessages] at hsame
    exact hsame
  have hmine' : ∀ m ∈ before ++ reply.message :: (flight ++ finished :: answer), Framed m := by
    intro m hmem
    have hmem' : m ∈ (before ++ reply.message :: flight ++ [finished]) ++ answer := by
      simpa using hmem
    exact (List.mem_append.mp hmem').elim (hmine m) (hanswer m)
  have hsent : ∀ m ∈ opening ++ authentication ++ given.finishedMessage ring server :: heard,
      Framed m := by
    refine List.forall_mem_append.mpr ⟨hmessages.framed, List.forall_mem_cons.mpr
      ⟨given.finishedMessage_framed complete.toLawful server, ?_⟩⟩
    intro m hmem
    exact hits m (by simp [hmem])
  have hheard : ∀ m ∈ given.before ++ [given.message], Framed m := by
    intro m hmem
    refine hits m ?_
    rw [List.append_cons]
    exact List.mem_append_left _ hmem
  obtain ⟨hafter, hhellos | hcollides⟩ := sameHellos complete hshares hshort hstart hopened hkeyed
    hmine' hanswers hheard hsent hlists
  · have hselected : reached.hash = given.selected.hash := by
      rw [hhash, hcontinues.hash, hanswers.completed.hash]
    rcases hhellos.psk_agreed complete.toLawful hkeyed hanswers hselected with hpsk | hcollides
    · have hoctets := SameHellos.octets_eq hlists hafter
      obtain ⟨hflight, hfinished, htail⟩ := append_cons_inj (P := fun m => m.typ = .finished) htyp
        rfl hkeyed.unfinished hmessages.unfinished hafter
      refine .inr (.inr ⟨htail, hfinished, ?_,
        hhellos.sameSession hopened hkeyed hanswers hpsk hoctets⟩)
      have hbuffer : reached.transcript.buffer = awaiting.clientHello ++ reply.message.encoded ++
          octets flight := by rw [hkeyed.transcript]
      rw [hbuffer, hoctets, hflight, hfinished, hmessages.octets_sent, ← Server.Answer.octets_hellos]
      simp
    · exact .inr (.inl hcollides)
  · exact .inl hcollides

end OneTranscript

namespace Server

theorem certificateVerify_accepted {entropy : Entropy} {negotiated : Negotiated} {message : Message}
    {reply : Bytes} {next : State} (hexpect : negotiated.expect = .certificateVerify)
    (h : handle ring entropy server (.awaitFinished negotiated) message = .ok (reply, next)) :
    ∃ (verify : CertificateVerify) (der : Bytes) (leaf : Certificate),
      negotiated.clientCertificates.head? = some der ∧ Certificate.parse der = .ok leaf ∧
      verifyTls13Signature ring ⟨verify.scheme⟩ leaf.subjectPublicKeyInfo
        (certificateVerifyContent clientCertificateVerifyContext
          negotiated.clientCertificateTranscript) verify.signature = .ok () := by
  rcases clientFlight_inv h with ⟨hother, -⟩ | ⟨-, -, h⟩ | ⟨hother, -⟩
  · rw [hexpect] at hother
    cases hother
  · obtain ⟨verify, der, leaf, -, hder, hleaf, hverify, -⟩ := handleCertificateVerify_inv h
    exact ⟨verify, der, leaf, hder, hleaf, hverify⟩
  · rw [hexpect] at hother
    simp at hother

/-- The same session through the server's Finished has the same application secrets. -/
theorem secrets_of_sent {start awaiting : Client.Awaiting} {answering : Client.Reply}
    {log flight : List Message} {reached : Client.Negotiated} {finished : Message} {entropy : Entropy}
    {reply : Bytes} {connection : Connection} {answer : Answer} {answered : Negotiated}
    (hsession : SameSession ring client server start log reached answer answered)
    (hkeyed : Client.Keyed ring client awaiting answering flight reached)
    (hanswers : AnswersHello ring server answer answered)
    (hfinish : Client.finish ring entropy client reached finished = .ok (reply, .done connection))
    (hsent : reached.transcript.buffer ++ finished.encoded
      = answer.draw.sent ring server answer.head answer.hello answer.selected) :
    connection.clientSecret = answered.clientApplicationSecret ∧
      connection.serverSecret = answered.serverApplicationSecret := by
  obtain ⟨hclient, hserver, -⟩ := Client.finish_secrets hfinish
  have hdigest : (reached.transcript.addMessage finished).hash ring
      = answer.selected.hash.hash ring
          (answer.draw.sent ring server answer.head answer.hello answer.selected) := by
    rw [← hsent, ← hanswers.completed.hash, ← hsession.hash, hkeyed.transcript]
    rfl
  rw [hclient, hserver, hdigest, hsession.master]
  exact ⟨hanswers.completed.clientApplication.symm, hanswers.completed.serverApplication.symm⟩

/-- **Agreement on the client's signature.** Whatever the network delivers to a server: where the
server accepts a CertificateVerify under a key that only runs of the client sign with, one of those
runs has completed its handshake with this very server run, whose Finished it accepted. Their
transcripts are the same through the client's Certificate, the server holds the client's chain, and
the two have the same traffic secrets. Else two transcripts collide under the hash, or the first
hellos that the two runs sent and received do. -/
theorem run_signedByClient (complete : ring.Complete) (hshares : ring.ShareLengths)
    (hshort : Client.ShortHellos client) {log : List Message} {step : Endpoint.Taken State}
    (hstep : (endpoint ring server).Takes ServerHandshake.new inputs log step)
    {negotiated : Negotiated} (hbefore : step.before = .awaitFinished negotiated)
    (hexpect : negotiated.expect = .certificateVerify)
    {runs : Set (Entropy × List (Entropy × Bytes))}
    (hunforged : ∀ der leaf, negotiated.clientCertificates.head? = some der →
      Certificate.parse der = .ok leaf →
      Client.Unforged ring client runs leaf.subjectPublicKeyInfo) :
    ∃ run ∈ runs, ∃ start reading reached finished connection request identity,
      Client.Signs ring client run start reading reached finished connection request identity
        negotiated.clientCertificateTranscript ∧
      (Collides (negotiated.hash.hash ring) (Client.signed reached finished request identity)
          negotiated.transcript.buffer ∨
        ∃ answer answered certificate, Sends ring server inputs answer answered ∧
          log = answer.before ++ answer.message :: [certificate] ∧
          Continues answered [certificate] negotiated ∧
          (FirstHellosCollide ring start answer ∨
            Client.signed reached finished request identity = negotiated.transcript.buffer ∧
            finished = answer.finishedMessage ring server ∧
            negotiated.clientCertificates = identity.certificates ∧
            SameSession ring client server start reading reached answer answered ∧
            connection.clientSecret = negotiated.clientApplicationSecret ∧
            connection.serverSecret = negotiated.serverApplicationSecret)) := by
  have hframed : ∀ m ∈ log, Framed m := (List.forall_mem_append.mp hstep.framed).1
  obtain ⟨answer, answered, heard, hsends, rfl, hcontinues, hauth, hhandle⟩ :=
    hearing_takes hstep hbefore
  have hanswers := hsends.answers
  obtain ⟨verify, der, leaf, hder, hleaf, hverify⟩ := certificateVerify_accepted hexpect hhandle
  obtain ⟨run, hrun, start, reading, reached, finished, connection, request, identity, hsigns⟩ :=
    hunforged der leaf hder hleaf ⟨verify.scheme⟩ _ _ hverify
  refine ⟨run, hrun, start, reading, reached, finished, connection, request, identity, hsigns, ?_⟩
  rw [Authenticating, hexpect] at hauth
  obtain ⟨hasks, htranscript, certificate, message, rfl, hparse, hcertificates⟩ := hauth
  have hpsk : answer.selected.psk = none := by
    rw [asksForCertificate, Bool.and_eq_true] at hasks
    simpa using hasks.2
  have hselected : negotiated.hash = answer.selected.hash :=
    hcontinues.hash.trans hanswers.completed.hash
  have hserver : negotiated.transcript = ⟨answer.selected.hash,
      answer.draw.sent ring server answer.head answer.hello answer.selected ++
        certificate.encoded⟩ := by
    rw [hcontinues.transcript, hanswers.completed.transcript]
    simp
  have hdigest : reached.hash.hash ring (Client.signed reached finished request identity)
      = negotiated.hash.hash ring negotiated.transcript.buffer := by
    rw [← hsigns.digest, htranscript, hserver, hselected]
    rfl
  have hhash := Hash.eq_of_hash complete.toLawful hdigest
  rw [hhash] at hdigest
  rcases eq_or_collides hdigest with hsame | hcollides
  · refine .inr ⟨answer, answered, certificate, hsends, rfl, hcontinues, ?_⟩
    obtain ⟨record, hstart⟩ := hsigns.started
    obtain ⟨entropy, reply, hclient, hfinished, ⟨steps, hsteps, -, hcontext, before, awaiting,
      answering, flight, hlog, hopened, hkeyed⟩, hfinish⟩ := hsigns.reading
    obtain rfl := hsteps.trans hlog
    obtain ⟨hlen, hcertificate⟩ :=
      Client.certificateOf_framed hfinish hsigns.asked hsigns.answers
    have hanswered : (Client.answered reached finished
        [Client.certificateOf request identity]).buffer = negotiated.transcript.buffer := by
      rw [← hsame, Client.signed, ← Client.certificateOf_encoded]
      simp [Client.answered, Transcript.addMessage, Transcript.add]
    rcases sameSession_of_answered complete hshares hshort hstart hopened hkeyed hclient
      (List.forall_mem_singleton.mpr hcertificate) hfinished hanswers hcontinues hframed hhash
      hanswered with hcollides | hcollides | ⟨hheard, htheirs, hsent, hsession⟩
    · exact .inl hcollides
    · obtain ⟨_, _, _, -, hsome, -⟩ := hcollides
      rw [hpsk] at hsome
      cases hsome
    · obtain rfl := List.singleton_inj.mp hheard
      refine .inr ⟨hsame, htheirs, ?_, hsession, ?_⟩
      · obtain rfl := Except.ok.inj ((parse_certificateChain hlen
          (hcontext request hsigns.asked)).symm.trans hparse)
        rw [hcertificates]
        simp [CertificateMessage.ofChain, Function.comp_def]
      · rw [hcontinues.clientApplication, hcontinues.serverApplication]
        exact secrets_of_sent hsession hkeyed hanswers hfinish hsent
  · exact .inl hcollides

/-- The sample server's own handshake with the sample client. -/
theorem run_signedByClient_sample :
    ∃ log step negotiated,
      (endpoint .sampleSigned sampleAsking).Takes ServerHandshake.new sampleDialogue log step ∧
        step.before = .awaitFinished negotiated ∧ negotiated.expect = .certificateVerify ∧
        ∃ start reading reached finished connection request identity,
          Client.Signs .sampleSigned sampleIdentified (.sample 1, Client.sampleHeard) start reading
            reached finished connection request identity negotiated.clientCertificateTranscript ∧
          (Collides (negotiated.hash.hash .sampleSigned)
              (Client.signed reached finished request identity) negotiated.transcript.buffer ∨
            ∃ answer answered certificate,
              Sends .sampleSigned sampleAsking sampleDialogue answer answered ∧
              log = answer.before ++ answer.message :: [certificate] ∧
              Continues answered [certificate] negotiated ∧
              (FirstHellosCollide .sampleSigned start answer ∨
                Client.signed reached finished request identity = negotiated.transcript.buffer ∧
                finished = answer.finishedMessage .sampleSigned sampleAsking ∧
                negotiated.clientCertificates = identity.certificates ∧
                SameSession .sampleSigned sampleIdentified sampleAsking start reading reached answer
                  answered ∧
                connection.clientSecret = negotiated.clientApplicationSecret ∧
                connection.serverSecret = negotiated.serverApplicationSecret)) := by
  have hcheck : (((endpoint .sampleSigned sampleAsking).taken ServerHandshake.new
      sampleDialogue).any fun step => step.before.negotiated?.any fun negotiated =>
        negotiated.expect == .certificateVerify &&
          sampleKeyed negotiated.clientCertificates) = true := by decide +kernel
  obtain ⟨step, hstep, hany⟩ := List.any_eq_true.mp hcheck
  obtain ⟨negotiated, hreached, hkeyed⟩ := (Option.any_eq_true _ _).mp hany
  rw [Bool.and_eq_true, beq_iff_eq] at hkeyed
  obtain ⟨hexpect, hkeyed⟩ := hkeyed
  have hbefore := State.negotiated?_eq hreached
  have hunforged : ∀ der leaf, negotiated.clientCertificates.head? = some der →
      Certificate.parse der = .ok leaf → Client.Unforged .sampleSigned sampleIdentified
        {(.sample 1, Client.sampleHeard)} leaf.subjectPublicKeyInfo := by
    intro der leaf hder hleaf
    exact Client.sampleSigned_unforged (key_of_sampleKeyed hkeyed hder hleaf)
  obtain ⟨log, htakes⟩ := Endpoint.exists_takes hstep
  obtain ⟨run, rfl, hsigns⟩ := run_signedByClient Ring.sampleSigned_complete
    Ring.sampleSigned_lengths (by decide) htakes hbefore hexpect hunforged
  exact ⟨log, step, negotiated, htakes, hbefore, hexpect, hsigns⟩

end Server

end SignedByClient

/-! ### What the server's Finished authenticates -/

/-- The key and the digest behind a Finished. -/
def finishedInput (ring : Ring) (hash : Hash) (trafficSecret transcript : Bytes) : Bytes × Bytes :=
  (finishedKey ring hash trafficSecret, hash.hash ring transcript)

/-- The MAC, of a key and a message. -/
def Hash.mac (ring : Ring) (hash : Hash) (input : Bytes × Bytes) : Bytes :=
  ring.hmacSign hash.algorithm input.1 input.2

/-- Equal Finished values are over equal transcripts, or there is a collision. -/
theorem transcript_of_finished {ring : Ring} (lawful : ring.Lawful) {hash hash' : Hash}
    {secret secret' transcript transcript' : Bytes}
    (h : finishedVerifyData ring hash secret (hash.hash ring transcript)
      = finishedVerifyData ring hash' secret' (hash'.hash ring transcript')) :
    Collides (hash.mac ring) (finishedInput ring hash secret transcript)
        (finishedInput ring hash' secret' transcript') ∨
      Collides (hash.hash ring) transcript transcript' ∨
      hash = hash' ∧ transcript = transcript' := by
  have hlen := finishedVerifyData_length lawful hash secret (hash.hash ring transcript)
  rw [h, finishedVerifyData_length lawful] at hlen
  obtain rfl := Hash.len_injective hlen
  have hmac : hash'.mac ring (finishedInput ring hash' secret transcript)
      = hash'.mac ring (finishedInput ring hash' secret' transcript') := h
  rcases eq_or_collides hmac with hinput | hcollides
  · obtain ⟨-, hdigest⟩ := Prod.mk.inj hinput
    rcases eq_or_collides hdigest with hsame | hcollides
    · exact .inr (.inr ⟨rfl, hsame⟩)
    · exact .inr (.inl hcollides)
  · exact .inl hcollides

namespace Client

section FinishedByServer

variable {ring : Ring} {client : ClientConfig} {server : Server.ServerConfig} {entropy : Entropy}
  {start : Awaiting} {record : Bytes} {inputs : List (Entropy × Bytes)} {log : List Message}
  {step : Endpoint.Taken State} {negotiated : Negotiated} {run : List (Entropy × Bytes)}
  {answer : Server.Answer} {answered : Server.Negotiated}

/-- A client that accepts the Finished of a run of the server's has met that run: their hellos are
the same, and so are their transcripts. -/
theorem sameHellos_of_finished (complete : ring.Complete) (hshares : ring.ShareLengths)
    (hshort : ShortHellos client)
    (hstart : Client.start ring entropy client = .ok (⟨.awaitServerHello start, []⟩, record))
    (hstep : (endpoint ring client).Takes ⟨.awaitServerHello start, []⟩ inputs log step)
    (hbefore : step.before = .inFlight .finished negotiated)
    (hsends : Server.Sends ring server run answer answered)
    (hmessage : step.message = answer.finishedMessage ring server) :
    let covered := answer.draw.covered server answer.head answer.hello answer.selected
    Collides (negotiated.hash.mac ring)
        (finishedInput ring negotiated.hash negotiated.serverHandshakeSecret
          negotiated.transcript.buffer)
        (finishedInput ring answer.selected.hash
          (answer.draw.serverSecret ring answer.head answer.hello answer.selected) covered) ∨
      Collides (negotiated.hash.hash ring) negotiated.transcript.buffer covered ∨
      FirstHellosCollide ring start answer ∨
      ∃ before awaiting reply flight connection, log = before ++ reply.message :: flight ∧
        Opened ring client start before awaiting ∧ negotiated.transcript.buffer = covered ∧
        negotiated.hash = answer.selected.hash ∧
        awaiting.clientHello ++ reply.message.encoded
          = answer.draw.hellos answer.head answer.hello answer.selected ∧
        SameHellos ring client server start awaiting reply answer ∧
        Keyed ring client awaiting reply flight negotiated ∧ step.after = .done connection ∧
        finish ring step.entropy client negotiated step.message
          = .ok (step.reply, .done connection) := by
  intro covered
  have hframed : ∀ m ∈ log, Framed m := (List.forall_mem_append.mp hstep.framed).1
  obtain ⟨⟨steps, hsteps, hunder⟩, hhandle⟩ := underway_takes hstep
  rw [hbefore] at hunder hhandle
  obtain ⟨-, -, before, awaiting, reply, flight, hlog, hopened, hkeyed⟩ := hunder
  obtain rfl := hsteps.trans hlog
  have hanswers := hsends.answers
  rcases flight_next hhandle with ⟨-, htyp, -⟩ | ⟨-, -, hfinish⟩
  · rw [hmessage] at htyp
    exact absurd rfl htyp
  obtain ⟨_, connection, -, hverify, -, hdone, -⟩ := finish_inv hfinish
  have hmac : finishedVerifyData ring negotiated.hash negotiated.serverHandshakeSecret
      (negotiated.hash.hash ring negotiated.transcript.buffer)
      = finishedVerifyData ring answer.selected.hash
          (answer.draw.serverSecret ring answer.head answer.hello answer.selected)
          (answer.selected.hash.hash ring covered) := by
    rw [verifyFinished, Ring.hmacVerify, beq_iff_eq, hmessage, hkeyed.transcript] at hverify
    rw [hkeyed.transcript]
    exact hverify
  rcases transcript_of_finished complete.toLawful hmac with hcollides | hcollides | ⟨hhash, hsame⟩
  · exact .inl hcollides
  · exact .inr (.inl hcollides)
  obtain ⟨opening, authentication, hmessages⟩ := hanswers.flightMessages
  have hlists : awaiting.clientHello ++ reply.message.encoded ++ octets flight
      = octets (answer.hellos ++ (opening ++ authentication)) := by
    have hbuffer : awaiting.clientHello ++ reply.message.encoded ++ octets flight = covered := by
      rw [← hsame, hkeyed.transcript]
    rw [hbuffer, octets_append, octets_append, Server.Answer.octets_hellos,
      hmessages.opening_octets, hmessages.authentication_octets, ← List.append_assoc]
    rfl
  obtain ⟨hflight, hhellos | hcollides⟩ := sameHellos complete hshares hshort hstart hopened hkeyed
    hframed hanswers hsends.framed hmessages.framed hlists
  · rw [hdone] at hfinish
    exact .inr (.inr (.inr ⟨before, awaiting, reply, flight, connection, rfl, hopened, hsame, hhash,
      SameHellos.octets_eq hlists hflight, hhellos, hkeyed, hdone, hfinish⟩))
  · exact .inr (.inr (.inl hcollides))

/-- Whether a message is the Finished of an answer, and a client covers with it what the server
did. -/
def finishesAnswer (ring : Ring) (config : Server.ServerConfig) (answer : Server.Answer)
    (message : Message) (reached : Negotiated) : Bool :=
  decide (message = answer.finishedMessage ring config ∧
    reached.transcript.buffer
      = answer.draw.covered config answer.head answer.hello answer.selected ∧
    reached.hash = answer.selected.hash ∧
    reached.serverHandshakeSecret
      = answer.draw.serverSecret ring answer.head answer.hello answer.selected)

/-- **Agreement on the server's Finished**, with or without a session to resume. Where a client
accepts the very Finished that a run of the server sent, the run answered the client's own hello, the
two have one transcript and one session, of one PSK if it is resumed, and the client's connection has
the server's traffic secrets. Else two inputs of the MAC, two transcripts, two first hellos or two
PSKs under the binder collide. -/
theorem run_finishedByServer (complete : ring.Complete) (hshares : ring.ShareLengths)
    (hshort : ShortHellos client)
    (hstart : Client.start ring entropy client = .ok (⟨.awaitServerHello start, []⟩, record))
    (hstep : (endpoint ring client).Takes ⟨.awaitServerHello start, []⟩ inputs log step)
    (hbefore : step.before = .inFlight .finished negotiated)
    (hsends : Server.Sends ring server run answer answered)
    (hmessage : step.message = answer.finishedMessage ring server) :
    let covered := answer.draw.covered server answer.head answer.hello answer.selected
    Collides (negotiated.hash.mac ring)
        (finishedInput ring negotiated.hash negotiated.serverHandshakeSecret
          negotiated.transcript.buffer)
        (finishedInput ring answer.selected.hash
          (answer.draw.serverSecret ring answer.head answer.hello answer.selected) covered) ∨
      Collides (negotiated.hash.hash ring) negotiated.transcript.buffer covered ∨
      FirstHellosCollide ring start answer ∨ BindersCollide ring client answer ∨
      negotiated.transcript.buffer = covered ∧
        SameSession ring client server start log negotiated answer answered ∧
        ∃ connection, step.after = .done connection ∧
          connection.clientSecret = answered.clientApplicationSecret ∧
          connection.serverSecret = answered.serverApplicationSecret := by
  intro covered
  have hanswers := hsends.answers
  rcases sameHellos_of_finished complete hshares hshort hstart hstep hbefore hsends hmessage with
    hcollides | hcollides | hcollides |
      ⟨before, awaiting, reply, flight, connection, rfl, hopened, hsame, hhash, hoctets, hhellos,
        hkeyed, hdone, hfinish⟩
  · exact .inl hcollides
  · exact .inr (.inl hcollides)
  · exact .inr (.inr (.inl hcollides))
  rcases hhellos.psk_agreed complete.toLawful hkeyed hanswers hhash with hpsk | hcollides
  · have hsession := hhellos.sameSession hopened hkeyed hanswers hpsk hoctets
    refine .inr (.inr (.inr (.inr ⟨hsame, hsession, connection, hdone, ?_⟩)))
    refine Server.secrets_of_sent hsession hkeyed hanswers hfinish ?_
    rw [hsame, hmessage]
    rfl
  · exact .inr (.inr (.inr (.inl hcollides)))

end FinishedByServer

/-- The sample client takes the sample server's Finished, and nothing collides. -/
theorem run_finishedByServer_sample : ∃ answered log step negotiated,
    Server.Sends .sampleSigned Server.sampleAsking Server.sampleDialogue Server.sampleSigning
      answered ∧
    (endpoint .sampleSigned Server.sampleIdentified).Takes ⟨.awaitServerHello sampleOpening, []⟩
      sampleHeard log step ∧
    step.before = .inFlight .finished negotiated ∧
    negotiated.transcript.buffer = Server.sampleSigning.draw.covered Server.sampleAsking
      Server.sampleSigning.head Server.sampleSigning.hello Server.sampleSigning.selected ∧
    SameSession .sampleSigned Server.sampleIdentified Server.sampleAsking sampleOpening log
      negotiated Server.sampleSigning answered ∧
    ∃ connection, step.after = .done connection ∧
      connection.clientSecret = answered.clientApplicationSecret ∧
      connection.serverSecret = answered.serverApplicationSecret := by
  obtain ⟨answered, hsends⟩ := Server.sampleSigning_sends
  have hcheck : (((endpoint .sampleSigned Server.sampleIdentified).taken
      ⟨.awaitServerHello sampleOpening, []⟩ sampleHeard).any fun step =>
        step.before.negotiated?.any fun reached => reached.1 == .finished &&
          finishesAnswer .sampleSigned Server.sampleAsking Server.sampleSigning step.message
            reached.2) = true := by decide +kernel
  obtain ⟨step, hstep, hany⟩ := List.any_eq_true.mp hcheck
  obtain ⟨⟨expect, negotiated⟩, hreached, hfinished⟩ := (Option.any_eq_true _ _).mp hany
  rw [Bool.and_eq_true, beq_iff_eq] at hfinished
  obtain ⟨rfl, hfinishes⟩ := hfinished
  obtain ⟨hmessage, htranscript, hhash, hsecret⟩ := of_decide_eq_true hfinishes
  obtain ⟨record, hstart⟩ := start_sampleOpening
  have hbefore := State.negotiated?_eq hreached
  obtain ⟨log, htakes⟩ := Endpoint.exists_takes hstep
  refine ⟨answered, log, step, negotiated, hsends, htakes, hbefore, ?_⟩
  rcases run_finishedByServer Ring.sampleSigned_complete Ring.sampleSigned_lengths (by decide) hstart
    htakes hbefore hsends hmessage with
    ⟨hne, -⟩ | ⟨hne, -⟩ | ⟨_, hfirst, -⟩ | ⟨_, _, _, hoffered, -⟩ | hsession
  · exact absurd (by rw [htranscript, hhash, hsecret]) hne
  · exact absurd htranscript hne
  · cases hfirst
  · cases hoffered
  · exact hsession

end Client

end RustyTls
