import RustyTls.AnswerExchange

/-!
# RustyTls.Delivery

Records on their way from one end of a handshake to the other.

A reply is cut into the records it was made of (`records_append`), and each of them reaches the
messages it was made of (`readRecord_octets`): a hello in the clear, or a flight that was sealed
under the key the other end opens with. A change_cipher_spec reaches nothing. The first record of
a client is a hello (`start_offers`), and a hello that is completed is answered with a `Flight`.
-/

namespace RustyTls

open Core

/-! ### Cutting a stream -/

/-- A record that is as long as its header says. -/
def Whole (record : Bytes) : Prop :=
  record.length = headerLen + Opener.declaredLength record

theorem Whole.header {record : Bytes} (h : Whole record) : headerLen ≤ record.length := by
  rw [Whole] at h
  omega

theorem Whole.recordLength {record : Bytes} (h : Whole record) (rest : Bytes) :
    recordLength (record ++ rest) = some record.length := by
  have hheader := h.header
  have hdeclared : Opener.declaredLength (record ++ rest) = Opener.declaredLength record := by
    have hlen : headerLen = 5 := rfl
    rw [Opener.declaredLength, Opener.declaredLength, List.drop_append_of_le_length (by omega),
      List.take_append_of_le_length (by simp only [List.length_drop]; omega)]
  rw [RustyTls.recordLength, if_pos (by rw [List.length_append]; omega), hdeclared, ← h]

theorem recordsFuel_append {record : Bytes} (h : Whole record) (fuel : Nat) (rest : Bytes) :
    recordsFuel (fuel + 1) (record ++ rest) = record :: recordsFuel fuel rest := by
  rw [recordsFuel, h.recordLength rest]
  simp only [List.length_append, if_pos (Nat.le_add_right _ _), List.take_left, List.drop_left]

/-- The fuel of `records` is enough. -/
theorem recordsFuel_eq : ∀ (m n : Nat) (stream : Bytes), stream.length ≤ m → stream.length ≤ n →
    recordsFuel m stream = recordsFuel n stream := by
  intro m
  induction m with
  | zero =>
      intro n stream hm hn
      obtain rfl := List.length_eq_zero_iff.mp (Nat.le_zero.mp hm)
      cases n with
      | zero => rfl
      | succ n => rfl
  | succ m ih =>
      intro n stream hm hn
      cases n with
      | zero =>
          obtain rfl := List.length_eq_zero_iff.mp (Nat.le_zero.mp hn)
          rfl
      | succ n =>
          rw [recordsFuel, recordsFuel]
          cases hlength : recordLength stream with
          | none => rfl
          | some length =>
              have hpos : headerLen ≤ length := by
                rw [recordLength] at hlength
                split at hlength
                · obtain rfl := Option.some.inj hlength
                  omega
                · cases hlength
              have hfive : headerLen = 5 := rfl
              have hdrop : (stream.drop length).length = stream.length - length :=
                List.length_drop ..
              simp only
              by_cases hle : length ≤ stream.length
              · rw [if_pos hle, if_pos hle, ih n (stream.drop length) (by omega) (by omega)]
              · rw [if_neg hle, if_neg hle]

theorem records_append {record : Bytes} (h : Whole record) (rest : Bytes) :
    records (record ++ rest) = record :: records rest := by
  have hheader := h.header
  have hfive : headerLen = 5 := rfl
  obtain ⟨fuel, hfuel⟩ : ∃ fuel, (record ++ rest).length = fuel + 1 :=
    ⟨(record ++ rest).length - 1, by rw [List.length_append]; omega⟩
  rw [List.length_append] at hfuel
  rw [records, List.length_append, hfuel, recordsFuel_append h, records,
    recordsFuel_eq fuel rest.length rest (by omega) (Nat.le_refl _)]

theorem records_single {record : Bytes} (h : Whole record) : records record = [record] := by
  have hcut := records_append h []
  rw [List.append_nil] at hcut
  exact hcut

/-! ### The records that a handshake sends -/

theorem plaintextRecord_length (typ : ContentType) (version : UInt16) (fragment : Bytes) :
    (plaintextRecord typ version fragment).length = headerLen + fragment.length := by
  simp [plaintextRecord, headerLen]
  omega

theorem declaredLength_plaintextRecord (typ : ContentType) (version : UInt16) {fragment : Bytes}
    (h : fragment.length ≤ maxFragmentLen) :
    Opener.declaredLength (plaintextRecord typ version fragment) = fragment.length := by
  obtain ⟨hmax, -⟩ := limits
  have hfield : ((plaintextRecord typ version fragment).drop 3).take 2
      = beBytes 2 fragment.length := by
    simp [plaintextRecord]
  rw [Opener.declaredLength, hfield, beNat_beBytes (by omega)]

theorem whole_plaintextRecord (typ : ContentType) (version : UInt16) {fragment : Bytes}
    (h : fragment.length ≤ maxFragmentLen) : Whole (plaintextRecord typ version fragment) := by
  rw [Whole, plaintextRecord_length, declaredLength_plaintextRecord typ version h]

theorem drop_plaintextRecord (typ : ContentType) (version : UInt16) (fragment : Bytes) :
    (plaintextRecord typ version fragment).drop headerLen = fragment := by
  rw [plaintextRecord]
  refine List.drop_left' ?_
  simp [headerLen]

/-- A record as it is sealed under a fresh key, for the end that opens with that key. -/
structure SealedUnder (ring : Ring) (key : DirectionKey) (fragment record : Bytes) : Prop where
  whole : Whole record
  short : Opener.declaredLength record ≤ maxEncryptedFragmentLen
  fits : fragment.length ≤ maxFragmentLen
  outer : record.headD 0 = outerType
  opens : (Opener.mk key (.startingAt 0)).openRecord ring record
    = (.ok ⟨.handshake, fragment⟩, ⟨key, .advance 0⟩)

/-- A sealed record is as long as it says, and says nothing of what is in it. -/
theorem sealRecord_whole {ring : Ring} (lawful : ring.Lawful) {sealer : Sealer} {typ : ContentType}
    {fragment record : Bytes} (h : (sealer.sealRecord ring typ fragment 0).1 = .ok record) :
    Whole record ∧ Opener.declaredLength record = fragment.length + 1 + 0 + tagLen ∧
      record.headD 0 = outerType := by
  obtain ⟨seq, sealed, -, hfragment, -, hsealed, rfl, -⟩ := sealRecord_ok (Prod.ext h rfl)
  have hlen := lawful.seal_length _ _ _ _ _ _ hsealed
  simp only [Sealer.innerPlaintext, List.length_append, List.length_singleton,
    List.length_replicate] at hlen
  obtain ⟨hmax, -, -, htag, -⟩ := limits
  have hdeclared : Opener.declaredLength (additionalData (fragment.length + 1 + 0 + tagLen) ++
      sealed) = fragment.length + 1 + 0 + tagLen := declaredLength_append (by omega) sealed
  refine ⟨?_, hdeclared, rfl⟩
  rw [Whole, hdeclared, List.length_append, additionalData_length]
  omega

theorem sealedUnder {ring : Ring} (lawful : ring.Lawful) {key : DirectionKey} {sealer : Sealer}
    {fragment record : Bytes} (h : (Sealer.mk key (.startingAt 0)).sealRecord ring .handshake
      fragment 0 = (.ok record, sealer)) : SealedUnder ring key fragment record := by
  obtain ⟨hwhole, hdeclared, houter⟩ := sealRecord_whole lawful (congrArg Prod.fst h)
  obtain ⟨seq, sealed, hpeek, hfragment, hinner, hsealed, rfl, -⟩ := sealRecord_ok h
  obtain rfl : (0 : UInt64) = seq := Except.ok.inj hpeek
  obtain ⟨hmax, hmaxEnc, hmaxInner, htag, -⟩ := limits
  have hlen := hwhole
  rw [Whole, hdeclared, List.length_append, additionalData_length] at hlen
  refine ⟨hwhole, ?_, hfragment, houter, ?_⟩
  · rw [hdeclared]
    omega
  · exact openRecord_of_openInPlace (by omega) (by omega) (by omega) hpeek
      (lawful.open_seal _ _ _ _ _ _ hsealed)
      (@innerContent_innerPlaintext .handshake (by decide) fragment 0) hfragment

/-! ### What an end makes of them -/

theorem Client.unframe_clear (ring : Ring) (awaiting : Client.Awaiting) (version : UInt16)
    {fragment : Bytes} (h : fragment.length ≤ maxFragmentLen) :
    Client.unframe ring (.awaitServerHello awaiting) (plaintextRecord .handshake version fragment)
      = .ok (fragment, .awaitServerHello awaiting) := by
  obtain ⟨hmax, hmaxEnc, -⟩ := limits
  have hwhole := whole_plaintextRecord .handshake version h
  have hlong : ¬ maxEncryptedFragmentLen < fragment.length := by omega
  rw [Whole, declaredLength_plaintextRecord .handshake version h] at hwhole
  simp only [Client.unframe, declaredLength_plaintextRecord .handshake version h, hwhole, ne_eq,
    not_true_eq_false, refuse_neg _ not_false, refuse_neg _ hlong, ok_bind, Client.fragmentOf,
    drop_plaintextRecord]
  rfl

theorem Server.unframe_clear (ring : Ring) {state : Server.State} (hclear : state.InClear)
    (version : UInt16) {fragment : Bytes} (h : fragment.length ≤ maxFragmentLen) :
    Server.unframe ring state (RustyTls.plaintextRecord .handshake version fragment)
      = .ok (fragment, state) := by
  obtain ⟨hmax, hmaxEnc, -⟩ := limits
  have hwhole := whole_plaintextRecord .handshake version h
  have hlong : ¬ maxEncryptedFragmentLen < fragment.length := by omega
  have hfragment : Server.plaintextFragment
      (RustyTls.plaintextRecord .handshake version fragment) = .ok fragment := by
    rw [Server.plaintextFragment, drop_plaintextRecord]
    rfl
  rw [Whole, declaredLength_plaintextRecord .handshake version h] at hwhole
  simp only [Server.unframe, declaredLength_plaintextRecord .handshake version h, hwhole, ne_eq,
    not_true_eq_false, refuse_neg _ not_false, refuse_neg _ hlong, ok_bind]
  cases state with
  | awaitClientHello => rw [Server.fragmentOf, hfragment, ok_bind]
  | awaitRetriedClientHello retrying => rw [Server.fragmentOf, hfragment, ok_bind]
  | awaitFinished negotiated => exact hclear.elim
  | done connection => exact hclear.elim
  | failed => exact hclear.elim

theorem Client.unframe_sealed {ring : Ring} {key : DirectionKey} {fragment record : Bytes}
    (h : SealedUnder ring key fragment record) (expect : Client.Expect)
    {negotiated : Client.Negotiated} (hopener : negotiated.opener = ⟨key, .startingAt 0⟩) :
    Client.unframe ring (.inFlight expect negotiated) record
      = .ok (fragment, .inFlight expect { negotiated with opener := ⟨key, .advance 0⟩ }) := by
  have hopens := h.opens
  have hlength : ¬ record.length ≠ headerLen + Opener.declaredLength record := not_not.mpr h.whole
  rw [← hopener] at hopens
  simp only [Client.unframe, Client.checkPlaintextAlert, ok_bind, refuse_neg _ hlength,
    refuse_neg _ (Nat.not_lt.mpr h.short), Client.fragmentOf, hopens]

theorem Server.unframe_sealed {ring : Ring} {key : DirectionKey} {fragment record : Bytes}
    (h : SealedUnder ring key fragment record) {negotiated : Server.Negotiated}
    (hopener : negotiated.opener = ⟨key, .startingAt 0⟩) :
    Server.unframe ring (.awaitFinished negotiated) record
      = .ok (fragment, .awaitFinished { negotiated with opener := ⟨key, .advance 0⟩ }) := by
  have hopens := h.opens
  have hlength : ¬ record.length ≠ headerLen + Opener.declaredLength record := not_not.mpr h.whole
  rw [← hopener] at hopens
  simp only [Server.unframe, ok_bind, refuse_neg _ hlength,
    refuse_neg _ (Nat.not_lt.mpr h.short), Server.fragmentOf, hopens]

namespace Endpoint

variable {ε σ : Type} [DecidableEq σ] {endpoint : Endpoint ε σ} {entropy : Entropy}
  {handshake : Reassembling σ} {record : Bytes}

/-- What a read comes to, from what its messages came to. -/
def readResult (endpoint : Endpoint ε σ) : Except ε (Bytes × σ) → Except ε Bytes × Reassembling σ
  | .ok (reply, state) => (.ok reply, ⟨state, []⟩)
  | .error err => (.error err, ⟨endpoint.failed, []⟩)

/-- A record of whole messages hands exactly these to the handler. -/
theorem readRecord_octets (hstate : handshake.state ≠ endpoint.failed)
    (hbuffer : handshake.buffer = []) (hwhole : Whole record)
    (hccs : record.headD 0 ≠ changeCipherSpec) {ms : List Message} {state : σ}
    (hunframe : endpoint.unframe handshake.state record = .ok (octets ms, state))
    (hframed : ∀ m ∈ ms, Framed m) :
    endpoint.readRecord entropy handshake record
        = endpoint.readResult (handleAll (endpoint.handle entropy) state ms) ∧
      endpoint.recordSteps entropy handshake record
        = stepsOf entropy (endpoint.handle entropy) state ms := by
  have hheader := Nat.not_lt.mpr hwhole.header
  obtain ⟨-, hmessages, hrest⟩ := @split_framed ms hframed [] rfl
  rw [List.append_nil] at hmessages hrest
  have hmessages' : wholeMessages (octets ms) = ms := hmessages
  have hrest' : remainder (octets ms) = [] := hrest
  constructor
  · rw [readRecord, if_neg hstate]
    simp only [readRecordInner, if_neg hheader, if_neg hccs, hunframe, ok_bind, hbuffer,
      List.nil_append, drain_eq, hmessages', hrest']
    cases handleAll (endpoint.handle entropy) state ms with
    | error err =>
        obtain ⟨s, buffer⟩ := handshake
        obtain rfl : buffer = [] := hbuffer
        rfl
    | ok result => rfl
  · rw [recordSteps, if_neg (not_or.mpr ⟨hheader, hccs⟩), hunframe]
    simp only [hbuffer, List.nil_append, hmessages']

/-- A change_cipher_spec is read and changes nothing. -/
theorem readRecord_changeCipherSpec (hstate : handshake.state ≠ endpoint.failed)
    (hwhole : Whole record) (hccs : record.headD 0 = changeCipherSpec) :
    endpoint.readRecord entropy handshake record = (.ok [], handshake) ∧
      endpoint.recordSteps entropy handshake record = [] := by
  have hheader := Nat.not_lt.mpr hwhole.header
  constructor
  · rw [readRecord, if_neg hstate, readRecordInner, if_neg hheader, if_pos hccs]
  · rw [recordSteps, if_pos (.inr hccs)]

end Endpoint

/-! ### What a server hashes for its flight -/

namespace Server

/-- What stands for the messages before the hello that a server waits for. -/
def State.transcriptHead : State → Bytes
  | .awaitRetriedClientHello retrying => retrying.transcriptHead
  | _ => []

/-- The transcripts that a server hashes for its flight: the one its handshake keys come from, the
one it signs, the one its Finished covers and the one the application keys come from. -/
def FlightDraw.transcripts (ring : Ring) (config : ServerConfig) (head : Bytes)
    (hello : ClientHello) (selected : Selected) (draw : FlightDraw) : List Transcript :=
  [⟨selected.hash, draw.hellos head hello selected⟩] ++
    draw.certified config head hello selected ++
    [⟨selected.hash, draw.covered config head hello selected⟩,
      ⟨selected.hash, draw.sent ring config head hello selected⟩]

/-- A step that answers a hello with the server's flight. -/
structure Flies (ring : Ring) (config : ServerConfig) (step : Endpoint.Taken State) (head : Bytes)
    (hello : ClientHello) (selected : Selected) (draw : FlightDraw) (negotiated : Negotiated) :
    Prop where
  after : step.after = .awaitFinished negotiated
  head_eq : head = step.before.transcriptHead ++ step.message.encoded
  parses : ClientHello.parse step.message.body = .ok hello
  completed : Completed ring step.entropy config head hello selected draw negotiated

end Server

/-! ### The client's first record -/

theorem Client.start_offers {ring : Ring} (lawful : ring.Lawful) {entropy : Entropy}
    {config : Client.ClientConfig} {handshake : Client.ClientHandshake} {record : Bytes}
    (h : Client.start ring entropy config = .ok (handshake, record))
    (hlen : record.length ≤ headerLen + maxFragmentLen) :
    Client.checkResumption config = .ok () ∧
    ∃ awaiting encoded binder, handshake = ⟨.awaitServerHello awaiting, []⟩ ∧
      record = plaintextRecord .handshake 0x0301 encoded ∧ awaiting.retried = false ∧
      Client.Offers ring config awaiting [] encoded binder := by
  obtain ⟨group, kx, encoded, random, sessionId, hgroup, hcheck, hkx, hbuild, rfl, rfl⟩ :=
    Client.start_inv h
  obtain ⟨hkxGroup, hkxPublic⟩ := KeyExchange.generate_inv hkx
  simp only [Client.buildClientHello, Client.helloIdentity, Client.randomBytes, bind_eq_ok,
    okOr_eq_ok] at hbuild
  obtain ⟨⟨random', sessionId'⟩, ⟨_, hrandom, _, hid, hidentity⟩, encoded', hencode, heq⟩ := hbuild
  obtain ⟨rfl, rfl⟩ := Prod.mk.inj (Except.ok.inj hidentity)
  obtain ⟨rfl, hrest⟩ := Prod.mk.inj (Except.ok.inj heq)
  obtain ⟨rfl, rfl⟩ := Prod.mk.inj hrest
  obtain ⟨binder, encoded, hencode', hsent, hbinds⟩ := Client.encodeHello_eq lawful hcheck kx _ _ []
  obtain rfl := Except.ok.inj (hencode'.symm.trans hencode)
  rw [plaintextRecord_length] at hlen
  exact ⟨hcheck, _, _, binder, rfl, rfl, rfl, rfl, hsent, hbinds, entropy.fill_length _ _ _ hrandom,
    entropy.fill_length _ _ _ hid, by omega, hkxGroup ▸ List.mem_of_mem_head? hgroup, hkxPublic⟩

/-! ### One message -/

theorem Endpoint.readRecord_message {ε σ : Type} [DecidableEq σ] {endpoint : Endpoint ε σ}
    {entropy : Entropy} {state : σ} {record : Bytes} (hstate : state ≠ endpoint.failed)
    (hwhole : Whole record) (hccs : record.headD 0 ≠ changeCipherSpec) {m : Message}
    (hunframe : endpoint.unframe state record = .ok (m.encoded, state)) (hframed : Framed m) :
    endpoint.readRecord entropy ⟨state, []⟩ record
        = endpoint.readResult (endpoint.handle entropy state m) ∧
      endpoint.recordSteps entropy ⟨state, []⟩ record
        = stepsOf entropy (endpoint.handle entropy) state [m] := by
  have hoctets : octets [m] = m.encoded := by simp
  have hread := @Endpoint.readRecord_octets ε σ _ endpoint entropy ⟨state, []⟩ record hstate rfl
    hwhole hccs [m] state (hoctets ▸ hunframe) (by simpa using hframed)
  rwa [handleAll_singleton] at hread

/-! ### The flight -/

/-- The flight of a server, with the hello that it answers. -/
structure Flight {ring : Ring} (lawful : ring.Lawful) (client : Client.ClientConfig)
    (server : Server.ServerConfig) (awaiting : Client.Awaiting)
    (step : Endpoint.Taken Server.State) (head : Bytes) (hello : ClientHello)
    (selected : Server.Selected) (draw : Server.FlightDraw) (negotiated : Server.Negotiated)
    (record : Bytes) : Prop where
  offers : ∃ front encoded binder, Client.Offers ring client awaiting front encoded binder ∧
    head = awaiting.clientHello ∧ hello = awaiting.hello client binder
  chosen : Server.Chosen ring client server awaiting selected
  works : step.entropy.Works ring
  flies : Server.Flies ring server step head hello selected draw negotiated
  sealed : SealedUnder ring (directionKey lawful selected.hash
    (draw.serverSecret ring head hello selected) selected.aead)
    (draw.flight ring server head hello selected) record

namespace Server

variable {ring : Ring} {client : Client.ClientConfig} {server : ServerConfig} {entropy : Entropy}
  {awaiting : Client.Awaiting} {front encoded binder : Bytes}

/-- A hello that is completed is answered with a flight. -/
theorem complete_flight (complete : ring.Complete) (hcompat : Compatible ring client server)
    (hworks : entropy.Works ring)
    (hoffers : Client.Offers ring client awaiting front encoded binder) {selected : Selected}
    (hchosen : Chosen ring client server awaiting selected) {state : State}
    (hstate : state.transcriptHead = front) {ccs : Bool}
    (hfits : ¬ TooLong (Server.complete ring entropy server awaiting.clientHello
      (awaiting.hello client binder) selected ccs)) :
    ∃ reply draw negotiated record,
      Server.complete ring entropy server awaiting.clientHello (awaiting.hello client binder)
          selected ccs = .ok (reply, .awaitFinished negotiated) ∧
      reply = plaintextRecord .handshake
          (draw.serverHello (awaiting.hello client binder) selected) ++
        (if ccs then plaintextRecord .changeCipherSpec [0x01] else []) ++ record ∧
      Flight complete.toLawful client server awaiting ⟨entropy, state,
          Message.of .clientHello (awaiting.hello client binder).encode, reply,
          .awaitFinished negotiated⟩ awaiting.clientHello (awaiting.hello client binder) selected
        draw negotiated record := by
  have hne : client.cipherSuites ≠ [] := List.ne_nil_of_mem hchosen.offered
  rcases complete_answers complete hcompat hoffers hchosen hworks awaiting.clientHello
    (awaiting.hello client binder) ccs with ⟨reply, next, hcomplete⟩ | hlong
  · obtain ⟨draw, negotiated, sealer, record, hcompleted, hsealer, hseal, hreply, rfl⟩ :=
      complete_inv hcomplete
    rw [sealer_new complete.toLawful] at hsealer
    obtain rfl := Except.ok.inj hsealer
    refine ⟨reply, draw, negotiated, record, hcomplete, hreply,
      ⟨front, encoded, binder, hoffers, rfl, rfl⟩, hchosen, hworks,
      ⟨rfl, ?_, hoffers.parsed hne, hcompleted⟩, sealedUnder complete.toLawful (Prod.ext hseal rfl)⟩
    rw [hoffers.clientHello, hstate, hoffers.encodes]
    rfl
  · exact absurd hlong hfits

/-- A hello in the clear is handled as it was sent. -/
theorem readRecord_hello {state : State} (hclear : state.InClear)
    (hoffers : Client.Offers ring client awaiting front encoded binder) (version : UInt16) :
    (endpoint ring server).readRecord entropy ⟨state, []⟩
          (RustyTls.plaintextRecord .handshake version encoded)
        = (endpoint ring server).readResult (handle ring entropy server state
            (Message.of .clientHello (awaiting.hello client binder).encode)) ∧
      (endpoint ring server).recordSteps entropy ⟨state, []⟩
          (RustyTls.plaintextRecord .handshake version encoded)
        = Endpoint.stepsOf entropy (handle ring entropy server) state
            [Message.of .clientHello (awaiting.hello client binder).encode] := by
  have hframed : Framed (Message.of .clientHello (awaiting.hello client binder).encode) :=
    @Client.framed_of_short .clientHello rfl _ (hoffers.encodes ▸ hoffers.short)
  refine Endpoint.readRecord_message ?_ (whole_plaintextRecord _ _ hoffers.short)
    (by simp [RustyTls.plaintextRecord, ContentType.asU8, changeCipherSpec]) ?_ hframed
  · cases state with
    | awaitClientHello => simp [endpoint]
    | awaitRetriedClientHello retrying => simp [endpoint]
    | awaitFinished negotiated => exact hclear.elim
    | done connection => exact hclear.elim
    | failed => exact hclear.elim
  · have hencoded : (Message.of .clientHello (awaiting.hello client binder).encode).encoded
        = encoded := hoffers.encodes.symm
    rw [hencoded]
    exact unframe_clear ring hclear version hoffers.short

theorem tooLong_readResult {outcome : Except ServerError (Bytes × State)}
    {result : Except ServerError Bytes} {next : ServerHandshake}
    (hread : (endpoint ring server).readResult outcome = (result, next))
    (hfits : ¬ TooLong result) : ¬ TooLong outcome := by
  intro h
  obtain ⟨len, max, rfl⟩ := h
  obtain ⟨rfl, -⟩ := Prod.mk.inj hread
  exact hfits ⟨len, max, rfl⟩

end Server

theorem ServerHello.encode_short {hello : ServerHello} (hrandom : hello.random.length = 32)
    (hid : hello.sessionId.length < 2 ^ 8) (hextensions : (extensionBytes hello.extensions).length ≤ 200) :
    (Message.encode .serverHello hello.encode).length ≤ maxFragmentLen := by
  obtain ⟨hmax, -⟩ := limits
  rw [Message.encode_eq, ServerHello.encode_eq, hmax]
  simp only [List.length_cons, prefixed_length, List.length_append, beBytes_length, hrandom]
  omega

theorem Server.retryRequest_short {sessionId : Bytes} (hid : sessionId.length < 2 ^ 8)
    (suite : CipherSuite) (group : NamedGroup) :
    (Message.encode .serverHello (Server.retryRequest sessionId suite group).encode).length
      ≤ maxFragmentLen := by
  refine ServerHello.encode_short rfl hid ?_
  show (extensionBytes [⟨ExtensionType.keyShare, (Writer.new.u16 group.asU16).intoVec⟩,
    ⟨ExtensionType.supportedVersions, [0x03, 0x04]⟩]).length ≤ 200
  cases group <;> decide

theorem Client.resumedSession_isSome {ring : Ring} {client : Client.ClientConfig}
    {server : Server.ServerConfig} {suite : CipherSuite} {hash : Hash}
    {psk : Option Server.AcceptedPsk} (h : Server.TakesUp ring client server suite hash psk) :
    (Client.resumedSession client psk).isSome = psk.isSome := by
  cases h with
  | nothing _ => rfl
  | session _ hresumption _ _ => simp [Client.resumedSession, hresumption]

/-- A ServerHello in the clear is handled as it was sent. -/
theorem Client.readRecord_serverHello {ring : Ring} {client : Client.ClientConfig}
    {entropy : Entropy} {awaiting : Client.Awaiting} {hello : ServerHello} {reply : Bytes}
    {next : Client.State}
    (hshort : (Message.encode .serverHello hello.encode).length ≤ maxFragmentLen)
    (hhandle : Client.handleServerHello ring entropy client awaiting
      (Message.of .serverHello hello.encode) = .ok (reply, next)) {record : Bytes}
    (hrecord : record = plaintextRecord .handshake 0x0303
      (Message.encode .serverHello hello.encode)) :
    (Client.endpoint ring client).readRecord entropy ⟨.awaitServerHello awaiting, []⟩ record
        = (.ok reply, ⟨next, []⟩) ∧
      (Client.endpoint ring client).recordSteps entropy ⟨.awaitServerHello awaiting, []⟩ record
        = [⟨entropy, .awaitServerHello awaiting, Message.of .serverHello hello.encode, reply,
            next⟩] := by
  have hframed : Framed (Message.of .serverHello hello.encode) :=
    @Client.framed_of_short .serverHello rfl _ hshort
  have hhandle' : Client.handleMessage ring entropy client (.awaitServerHello awaiting)
      (Message.of .serverHello hello.encode) = .ok (reply, next) := hhandle
  obtain ⟨hread, hsteps⟩ := @Endpoint.readRecord_message _ _ _ (Client.endpoint ring client)
    entropy (.awaitServerHello awaiting) record (by simp [Client.endpoint])
    (hrecord ▸ whole_plaintextRecord _ _ hshort)
    (by rw [hrecord]; simp [plaintextRecord, ContentType.asU8, changeCipherSpec])
    (Message.of .serverHello hello.encode)
    (hrecord ▸ Client.unframe_clear ring awaiting 0x0303 hshort) hframed
  refine ⟨hread.trans (congrArg (Client.endpoint ring client).readResult hhandle'), ?_⟩
  rw [hsteps, Endpoint.stepsOf]
  simp only [Client.endpoint, hhandle', Endpoint.stepsOf]

/-- The client's reply to a flight, sealed as the server opens it, and the connection that the
client is left with. -/
structure Replies {ring : Ring} (lawful : ring.Lawful) (client : Client.ClientConfig)
    (server : Server.ServerConfig) (head : Bytes) (hello : ClientHello)
    (selected : Server.Selected) (draw : Server.FlightDraw)
    (request : Option CertificateRequestMessage) (answer : List Message) (record : Bytes)
    (c : Connection) : Prop where
  answers : Client.Answers ring client server
    ⟨selected.hash, draw.sent ring server head hello selected⟩ request answer
  asked : request.isSome = Server.asksForCertificate server selected.psk
  sealed : SealedUnder ring (directionKey lawful selected.hash
    (draw.clientSecret ring head hello selected) selected.aead)
    (octets (answer ++ [Client.flightFinished ring server head hello selected draw answer])) record
  suite : c.suite = selected.suite
  resumed : c.resumed = selected.psk.isSome
  sealer : c.sealer.key = directionKey lawful selected.hash
    (((draw.schedule ring selected).intoMaster ring).derive ring "c ap traffic"
      (selected.hash.hash ring (draw.sent ring server head hello selected)))
    selected.aead
  opener : c.opener.key = directionKey lawful selected.hash
    (((draw.schedule ring selected).intoMaster ring).derive ring "s ap traffic"
      (selected.hash.hash ring (draw.sent ring server head hello selected)))
    selected.aead

end RustyTls
