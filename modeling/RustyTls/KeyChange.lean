import RustyTls.Provenance
import RustyTls.RecordSound
import RustyTls.ClientSound
import RustyTls.ServerSound

/-!
# RustyTls.KeyChange

The change from plaintext to handshake keys, and from those to application keys, as the two
handshakes make it.

Nothing in `read_record` looks at what is left in the reassembly buffer when the keys change.
Messages that share a record with the hello are processed as part of the protected flight, and
the beginning of a message behind a Finished is still there when the handshake is over. A peer
whose records end where its keys change is not affected: in every run of such records each
message of the protected flight came out of records that opened under the peer's handshake key.
-/

namespace RustyTls

open Core

/-- The keys of an opener. -/
def Opener.trafficKeys (opener : Opener) : TrafficKeys := ⟨opener.key.key, opener.key.iv⟩

theorem Opener.new_inv {alg : Aead} {keys : TrafficKeys} {opener : Opener}
    (h : Opener.new alg keys.key keys.iv = .ok opener) :
    opener.key.alg = alg ∧ opener.trafficKeys = keys := by
  simp only [Opener.new, Opener.newAt, bind_eq_ok, DirectionKey.new] at h
  obtain ⟨key, hkey, heq⟩ := h
  obtain rfl := Except.ok.inj heq
  split at hkey
  · split at hkey
    · obtain rfl := Except.ok.inj hkey
      exact ⟨rfl, rfl⟩
    · simp at hkey
  · simp at hkey

/-- Opening a record leaves the key. -/
theorem Opener.openRecord_key {ring : Ring} {opener opener' : Opener} {record : Bytes}
    {opened : Opened} (h : opener.openRecord ring record = (.ok opened, opener')) :
    opener'.key = opener.key := by
  obtain ⟨_, _, _, -, -, -, -, rfl⟩ := openRecord_ok h
  rfl

namespace Client

/-- The server's handshake traffic key. -/
def Negotiated.serverKeys (ring : Ring) (negotiated : Negotiated) : TrafficKeys :=
  trafficKeys ring negotiated.hash negotiated.serverHandshakeSecret negotiated.aead.keyLen

/-- A ServerHello for a suite the client offered that is not a request to retry. -/
def bringsKeys (config : ClientConfig) (m : Message) : Bool :=
  m.typ = .serverHello &&
    match ServerHello.parse m.body with
    | .ok hello =>
        !hello.isHelloRetryRequest && config.cipherSuites.contains ⟨hello.cipherSuite⟩
    | .error _ => false

/-- The keys of the client's states. -/
def keyPolicy (ring : Ring) (config : ClientConfig) : KeyPolicy State where
  origin
    | .inFlight _ negotiated => .opened negotiated.opener.key.alg negotiated.opener.trafficKeys
    | _ => .clear
  guard
    | .inFlight _ negotiated => some (.opened negotiated.aead (negotiated.serverKeys ring))
    | _ => none
  opens := bringsKeys config
  isDone
    | .done _ => true
    | _ => false

/-- The opener holds the server's handshake key. -/
def OpensServer (ring : Ring) : State → Prop
  | .inFlight _ negotiated => negotiated.opener.key.alg = negotiated.aead ∧
      negotiated.opener.trafficKeys = negotiated.serverKeys ring
  | _ => True

variable {ring : Ring} {entropy : Entropy} {config : ClientConfig} {message : Message}
  {reply : Bytes} {next : State}

theorem keyPolicy_serverHello {awaiting : Awaiting}
    (h : handleServerHello ring entropy config awaiting message = .ok (reply, next)) :
    OpensServer ring next ∧
      (keyPolicy ring config).Step (.awaitServerHello awaiting) message next := by
  obtain ⟨hello, aead, hash, haccepted, ⟨-, -, hretry⟩ | ⟨hhrr, hnegotiate⟩⟩ :=
    handleServerHello_inv h
  · obtain ⟨_, _, _, _, _, _, -, -, -, -, -, -, -, rfl⟩ := retry_inv hretry
    exact ⟨trivial, .clear rfl rfl rfl⟩
  · obtain ⟨_, _, _, _, negotiated, -, -, -, -, hderived, -, rfl⟩ := negotiate_inv hnegotiate
    obtain ⟨halg, hkeys⟩ := Opener.new_inv hderived.opener_eq
    have hopens : bringsKeys config message = true := by
      simp [bringsKeys, haccepted.typ, haccepted.parsed, hhrr, haccepted.offered]
    refine ⟨?_, .opens rfl hopens rfl⟩
    rw [OpensServer, Negotiated.serverKeys, hderived.aead_eq, hderived.hash_eq]
    exact ⟨halg, hkeys⟩

theorem keyPolicy_flight {expect : Expect} {negotiated : Negotiated}
    (hinv : OpensServer ring (.inFlight expect negotiated))
    (h : handleFlightMessage ring entropy config expect negotiated message = .ok (reply, next)) :
    OpensServer ring next ∧
      (keyPolicy ring config).Step (.inFlight expect negotiated) message next := by
  have hkeyed : (keyPolicy ring config).guard (.inFlight expect negotiated) ≠ none :=
    Option.some_ne_none _
  rcases flight_next h with ⟨-, -, -, _, _, _, _, rfl⟩ | ⟨-, htyp, h⟩
  · exact ⟨hinv, .keeps hkeyed rfl rfl⟩
  · obtain ⟨_, _, -, -, -, rfl, -⟩ := finish_inv h
    exact ⟨trivial, .closes hkeyed htyp rfl rfl⟩

theorem keyPolicy_sound (ring : Ring) (config : ClientConfig) :
    (keyPolicy ring config).Sound (endpoint ring config) (OpensServer ring) where
  failed := ⟨trivial, rfl, rfl⟩
  done := by
    intro entropy s m p hdone hok
    cases s with
    | done connection => simp [endpoint, handleMessage] at hok
    | awaitServerHello | inFlight | failed => simp [keyPolicy] at hdone
  unframe := by
    intro s record fragment s' hinv h
    rcases unframe_inv h with ⟨⟨awaiting, rfl⟩, rfl, -⟩ | ⟨expect, negotiated, opener, rfl, rfl, hopen⟩
    · refine ⟨trivial, rfl, rfl, ?_⟩
      intro origin horigin
      simp [keyPolicy] at horigin
    · obtain ⟨halg, hkeys⟩ := hinv
      have hkey := Opener.openRecord_key hopen
      refine ⟨⟨?_, ?_⟩, rfl, rfl, ?_⟩
      · show opener.key.alg = negotiated.aead
        rw [hkey, halg]
      · show opener.trafficKeys = negotiated.serverKeys ring
        rw [Opener.trafficKeys, hkey]
        exact hkeys
      · intro origin horigin
        obtain rfl := Option.some.inj horigin
        show Origin.opened negotiated.opener.key.alg negotiated.opener.trafficKeys = _
        rw [halg, hkeys]
  handle := by
    intro entropy s m reply s' hinv h
    cases s with
    | awaitServerHello awaiting => exact keyPolicy_serverHello h
    | inFlight expect negotiated => exact keyPolicy_flight hinv h
    | done connection => simp [endpoint, handleMessage] at h
    | failed => simp [endpoint, handleMessage] at h

end Client

namespace Server

/-- The client's handshake traffic key. -/
def Negotiated.clientKeys (ring : Ring) (negotiated : Negotiated) : TrafficKeys :=
  trafficKeys ring negotiated.hash negotiated.clientHandshakeSecret negotiated.aead.keyLen

/-- A ClientHello with a key share for one of the server's groups, so that no retry is needed. -/
def bringsKeys (config : ServerConfig) (m : Message) : Bool :=
  m.typ = .clientHello &&
    match ClientHello.parse m.body with
    | .ok hello =>
        match offeredShares hello with
        | .ok shares => (chooseShare config shares).isSome
        | .error _ => false
    | .error _ => false

/-- The keys of the server's states. -/
def keyPolicy (ring : Ring) (config : ServerConfig) : KeyPolicy State where
  origin
    | .awaitFinished negotiated => .opened negotiated.opener.key.alg negotiated.opener.trafficKeys
    | _ => .clear
  guard
    | .awaitFinished negotiated => some (.opened negotiated.aead (negotiated.clientKeys ring))
    | _ => none
  opens := bringsKeys config
  isDone
    | .done _ => true
    | _ => false

/-- The opener holds the client's handshake key, and a retry asks for one of the server's
groups. -/
def OpensClient (ring : Ring) (config : ServerConfig) : State → Prop
  | .awaitFinished negotiated => negotiated.opener.key.alg = negotiated.aead ∧
      negotiated.opener.trafficKeys = negotiated.clientKeys ring
  | .awaitRetriedClientHello retrying => retrying.group ∈ config.groups
  | _ => True

variable {ring : Ring} {entropy : Entropy} {config : ServerConfig} {message : Message}
  {reply : Bytes} {next : State}

theorem opensClient_complete {head : Bytes} {hello : ClientHello} {selected : Selected} {ccs : Bool}
    (h : complete ring entropy config head hello selected ccs = .ok (reply, next)) :
    OpensClient ring config next ∧ (keyPolicy ring config).isDone next = false := by
  obtain ⟨draw, negotiated, _, _, hcompleted, -, -, -, rfl⟩ := complete_inv h
  obtain ⟨halg, hkeys⟩ := Opener.new_inv hcompleted.opener
  refine ⟨?_, rfl⟩
  rw [OpensClient, Negotiated.clientKeys, hcompleted.aead, hcompleted.hash, hcompleted.clientSecret]
  exact ⟨halg, hkeys⟩

/-- A share for one of the server's groups is enough for it to choose one. -/
theorem chooseShare_isSome {shares : List (UInt16 × Bytes)} {group : NamedGroup} {key : Bytes}
    (hgroup : group ∈ config.groups) (hshare : shareFor shares group = some key) :
    (chooseShare config shares).isSome = true := by
  rw [chooseShare, List.findSome?_isSome_iff]
  exact ⟨group, hgroup, by simp [hshare]⟩

theorem keyPolicy_hello (h : handleHello ring entropy config message = .ok (reply, next)) :
    OpensClient ring config next ∧ (keyPolicy ring config).Step .awaitClientHello message next := by
  obtain ⟨hello, _, _, _, _, shares, htyp, hparse, -, -, -, -, hshares, hcase⟩ := handleHello_inv h
  rcases hcase with ⟨-, hretry⟩ | ⟨group, peerKey, _, hchosen, -, hcomplete⟩
  · obtain ⟨_, _, group, -, -, hgroup, rfl⟩ := retry_inv hretry
    exact ⟨List.mem_of_find?_eq_some hgroup, .clear rfl rfl rfl⟩
  · obtain ⟨hinv, hrunning⟩ := opensClient_complete hcomplete
    have hopens : bringsKeys config message = true := by
      simp [bringsKeys, htyp, hparse, hshares, hchosen]
    exact ⟨hinv, .opens rfl hopens hrunning⟩

theorem keyPolicy_retriedHello {retrying : Retrying} (hgroup : retrying.group ∈ config.groups)
    (h : retriedHello ring entropy config retrying message = .ok (reply, next)) :
    OpensClient ring config next ∧
      (keyPolicy ring config).Step (.awaitRetriedClientHello retrying) message next := by
  obtain ⟨hello, _, data, shares, peerKey, _, htyp, hparse, -, -, -, -, -, hdata, hshares, hpeer, -,
    hcomplete⟩ := retriedHello_inv h
  obtain ⟨hinv, hrunning⟩ := opensClient_complete hcomplete
  have hoffered : offeredShares hello = .ok shares := by
    simp [offeredShares, hdata, hshares]
  have hopens : bringsKeys config message = true := by
    simp [bringsKeys, htyp, hparse, hoffered, chooseShare_isSome hgroup hpeer]
  exact ⟨hinv, .opens rfl hopens hrunning⟩

theorem keyPolicy_flight {negotiated : Negotiated}
    (hinv : OpensClient ring config (.awaitFinished negotiated))
    (h : clientFlight ring entropy config negotiated message = .ok (reply, next)) :
    OpensClient ring config next ∧
      (keyPolicy ring config).Step (.awaitFinished negotiated) message next := by
  have hkeyed : (keyPolicy ring config).guard (.awaitFinished negotiated) ≠ none :=
    Option.some_ne_none _
  rcases flight_next h with ⟨-, -, -, _, _, _, rfl⟩ | ⟨-, htyp, h⟩
  · exact ⟨hinv, .keeps hkeyed rfl rfl⟩
  · obtain ⟨_, _, _, -, -, rfl⟩ := handleFinished_inv h
    exact ⟨trivial, .closes hkeyed htyp rfl rfl⟩

theorem keyPolicy_sound (ring : Ring) (config : ServerConfig) :
    (keyPolicy ring config).Sound (endpoint ring config) (OpensClient ring config) where
  failed := ⟨trivial, rfl, rfl⟩
  done := by
    intro entropy s m p hdone hok
    cases s with
    | done connection => simp [endpoint, handle] at hok
    | awaitClientHello | awaitRetriedClientHello | awaitFinished | failed =>
        simp [keyPolicy] at hdone
  unframe := by
    intro s record fragment s' hinv h
    rcases unframe_inv h with ⟨hclear, rfl, -⟩ | ⟨negotiated, opener, rfl, rfl, hopen⟩
    · cases s' with
      | awaitClientHello | awaitRetriedClientHello =>
          refine ⟨hinv, rfl, rfl, ?_⟩
          intro origin horigin
          simp [keyPolicy] at horigin
      | awaitFinished | done | failed => exact hclear.elim
    · obtain ⟨halg, hkeys⟩ := hinv
      have hkey := Opener.openRecord_key hopen
      refine ⟨⟨?_, ?_⟩, rfl, rfl, ?_⟩
      · show opener.key.alg = negotiated.aead
        rw [hkey, halg]
      · show opener.trafficKeys = negotiated.clientKeys ring
        rw [Opener.trafficKeys, hkey]
        exact hkeys
      · intro origin horigin
        obtain rfl := Option.some.inj horigin
        show Origin.opened negotiated.opener.key.alg negotiated.opener.trafficKeys = _
        rw [halg, hkeys]
  handle := by
    intro entropy s m reply s' hinv h
    cases s with
    | awaitClientHello => exact keyPolicy_hello h
    | awaitRetriedClientHello retrying => exact keyPolicy_retriedHello hinv h
    | awaitFinished negotiated => exact keyPolicy_flight hinv h
    | done connection => simp [endpoint, handle] at h
    | failed => simp [endpoint, handle] at h

end Server

/-! ### Both ends -/

/-- Key changes fall between records. For every configuration of either end and every run of
records in which nothing stands behind a hello that brings the handshake keys, and nothing
unfinished behind a Finished: each byte of each message processed in the protected flight came
out of a record that opened under the peer's handshake traffic key, and a handshake that is
over has an empty buffer. -/
theorem run_keyBoundary (ring : Ring) :
    (∀ config entropy handshake first,
      Client.start ring entropy config = .ok (handshake, first) → ∀ inputs,
      (Client.endpoint ring config).alignedRun (Client.keyPolicy ring config) handshake inputs
        = true →
      (Client.endpoint ring config).KeyBoundary (Client.keyPolicy ring config) handshake inputs) ∧
    ∀ config inputs,
      (Server.endpoint ring config).alignedRun (Server.keyPolicy ring config)
        Server.ServerHandshake.new inputs = true →
      (Server.endpoint ring config).KeyBoundary (Server.keyPolicy ring config)
        Server.ServerHandshake.new inputs := by
  constructor
  · intro config entropy handshake first hstart inputs haligned
    obtain ⟨_, _, _, _, _, -, -, -, -, rfl, -⟩ := Client.start_inv hstart
    refine Endpoint.keyBoundary (Client.keyPolicy_sound ring config) ?_ rfl haligned
    trivial
  · intro config inputs haligned
    refine Endpoint.keyBoundary (Server.keyPolicy_sound ring config) ?_ rfl haligned
    trivial

/-- The records of the sample handshake, as the client reads them. -/
def Client.sampleInputs : List (Entropy × Bytes) :=
  (Client.sampleAnswer Client.sampleStarted.2).map (.sample 3, ·)

/-- The sample handshakes keep to record boundaries on both ends. -/
theorem run_keyBoundary_sample :
    (Client.endpoint .sample .sample).KeyBoundary (Client.keyPolicy .sample .sample)
      Client.sampleStarted.1 Client.sampleInputs ∧
    (Server.endpoint .sample Server.sampleAsking).KeyBoundary
      (Server.keyPolicy .sample Server.sampleAsking) Server.ServerHandshake.new
      Server.sampleDialogue := by
  exact ⟨(run_keyBoundary .sample).1 _ _ _ _ Client.start_sampleStarted _ (by decide +kernel),
    (run_keyBoundary .sample).2 _ _ (by decide +kernel)⟩

/-- A ServerHello with EncryptedExtensions behind it in the same plaintext record. -/
def Client.sampleMixed : Bytes :=
  plaintextRecord .handshake 0x0303
    (((Client.sampleAnswer Client.sampleStarted.2).headD []).drop headerLen ++
      Server.encryptedExtensions)

/-- What the sample server's flight would be with another octet behind its Finished. -/
def Client.sampleTrailing : List (Entropy × Bytes) :=
  let hello := Client.sampleInputs.take 2
  match ((Client.endpoint .sample .sample).run Client.sampleStarted.1 hello).state with
  | .inFlight _ negotiated =>
      let flight := ((Client.sampleInputs.getLast?.map (·.2)).getD [])
      match (negotiated.opener.openRecord .sample flight).1, Sealer.new negotiated.aead
          (negotiated.serverKeys .sample).key (negotiated.serverKeys .sample).iv with
      | .ok opened, .ok sealer =>
          match (sealer.sealRecord .sample .handshake (opened.fragment ++ [4]) 0).1 with
          | .ok record => hello ++ [(.sample 3, record)]
          | .error _ => []
      | _, _ => []
  | _ => []

theorem Client.guard_ne_clear (ring : Ring) (config : Client.ClientConfig) (s : Client.State) :
    (Client.keyPolicy ring config).guard s ≠ some .clear := by
  cases s <;> simp [Client.keyPolicy]

/-- EncryptedExtensions in the clear is processed in the protected flight, and a handshake is
over with an octet left in its buffer. -/
theorem keyBoundary_fails :
    Client.start .sample (.sample 1) .sample = .ok (Client.sampleStarted.1, Client.sampleStarted.2) ∧
    ¬ (Client.endpoint .sample .sample).KeyBoundary (Client.keyPolicy .sample .sample)
      Client.sampleStarted.1 [(.sample 3, Client.sampleMixed)] ∧
    ¬ (Client.endpoint .sample .sample).KeyBoundary (Client.keyPolicy .sample .sample)
      Client.sampleStarted.1 Client.sampleTrailing := by
  refine ⟨Client.start_sampleStarted, ?_, ?_⟩
  · intro h
    have hmixed : ((Client.endpoint .sample .sample).history (Client.keyPolicy .sample .sample)
        Client.sampleStarted.1 [] [(.sample 3, Client.sampleMixed)]).any (fun visit =>
          ((Client.keyPolicy .sample .sample).guard visit.state).isSome &&
            visit.origins.contains .clear) = true := by decide +kernel
    rw [List.any_eq_true] at hmixed
    obtain ⟨visit, hvisit, hclear⟩ := hmixed
    rw [Bool.and_eq_true, Option.isSome_iff_exists, List.contains_iff_mem] at hclear
    obtain ⟨⟨origin, hguard⟩, hmem⟩ := hclear
    rw [h.opened visit hvisit origin hguard] at hmem
    obtain rfl := List.eq_of_mem_replicate hmem
    exact Client.guard_ne_clear _ _ _ hguard
  · intro h
    have hleft : (fun last : Client.ClientHandshake =>
        (Client.keyPolicy .sample .sample).isDone last.state = true ∧ last.buffer ≠ [])
        ((Client.endpoint .sample .sample).run Client.sampleStarted.1 Client.sampleTrailing) := by
      decide +kernel
    exact hleft.2 (h.empty hleft.1)

end RustyTls
