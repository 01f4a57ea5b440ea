import RustyTls.ClientRetry
import RustyTls.FlightCodec
import RustyTls.ScheduleSound
import RustyTls.Psk
import RustyTls.TicketSound

/-!
# RustyTls.HelloOffer

The hello that this client sends, and what this server reads in it.

`sentHello` is the hello as a value and `encodeHello_eq` says that the two-phase encoding puts it
on the wire with the binder that belongs there. The server then finds each of its extensions,
and what it makes of the offered session is `TakesUp`: it resumes exactly when the ticket is
`Acceptable`, and the binder is never what stops it.
-/

namespace RustyTls

open Core

theorem pskBinder_length {ring : Ring} (lawful : ring.Lawful) (hash : Hash)
    (psk transcriptHash : Bytes) : (pskBinder ring hash psk transcriptHash).length = hash.len := by
  rw [pskBinder]
  exact hmacSign_length lawful hash _ _

namespace Client

/-- The extensions of a hello, with the binder of its offer. -/
def sentExtensions (config : ClientConfig) (kx : KeyExchange) (binder : Bytes) : List Extension :=
  baseExtensions config kx ++ config.resumption.toList.map fun resumption =>
    ⟨ExtensionType.preSharedKey,
      identityBytes [offeredIdentity resumption] ++ binderBytes [binder]⟩

/-- The hello that a client sends. -/
def sentHello (config : ClientConfig) (kx : KeyExchange) (random sessionId binder : Bytes) :
    ClientHello :=
  { plainHello config kx random sessionId with extensions := sentExtensions config kx binder }

/-- What an encoded hello's binder is: absent without a session to offer, else computed over
everything before it. -/
def Binds (ring : Ring) (config : ClientConfig) (front encoded binder : Bytes) : Prop :=
  ∀ resumption, config.resumption = some resumption →
    ∃ hash before, sessionHash resumption.session = .ok hash ∧
      encoded = before ++ binderBytes [binder] ∧
      binder = pskBinder ring hash resumption.session.psk (hash.hash ring (front ++ before))

theorem checkResumption_inv {config : ClientConfig} (h : checkResumption config = .ok ())
    {resumption : Resumption} (hresumption : config.resumption = some resumption) :
    resumption.session.suite ∈ config.cipherSuites ∧
      ∃ hash, sessionHash resumption.session = .ok hash := by
  rw [checkResumption, hresumption] at h
  simp only [bind_eq_ok, refuse_eq_ok, not_not] at h
  obtain ⟨_, hoffered, hash, hhash, -⟩ := h
  exact ⟨hoffered, hash, hhash⟩

/-- A hello is encoded whenever its session can be offered, and this is what it says. -/
theorem encodeHello_eq {ring : Ring} (lawful : ring.Lawful) {config : ClientConfig}
    (hcheck : checkResumption config = .ok ()) (kx : KeyExchange)
    (random sessionId front : Bytes) :
    ∃ binder encoded, encodeHello ring config kx random sessionId front = .ok encoded ∧
      encoded
        = Message.encode .clientHello (sentHello config kx random sessionId binder).encode ∧
      Binds ring config front encoded binder := by
  cases hresumption : config.resumption with
  | none =>
      refine ⟨[], _, by rw [encodeHello, hresumption], ?_, ?_⟩
      · simp [sentHello, sentExtensions, hresumption, plainHello]
      · intro resumption h
        rw [hresumption] at h
        simp at h
  | some resumption =>
      obtain ⟨-, hash, hhash⟩ := checkResumption_inv hcheck hresumption
      obtain ⟨placeheld, hnew, hall⟩ := @BinderHello.new_finish
        (offeringHello config kx random sessionId resumption hash) (baseExtensions config kx)
        [offeredIdentity resumption] [hash.len] (by simp) rfl
      let binder := pskBinder ring hash resumption.session.psk
        (hash.hash ring (front ++ placeheld.truncated))
      have hlen : [binder].map (·.length) = [hash.len] := by
        simp [binder, pskBinder_length lawful]
      obtain ⟨hfinish, hsplit⟩ := hall [binder] hlen
      have hsent : sentHello config kx random sessionId binder
          = { offeringHello config kx random sessionId resumption hash with
              extensions := baseExtensions config kx ++ [⟨ExtensionType.preSharedKey,
                identityBytes [offeredIdentity resumption] ++ binderBytes [binder]⟩] } := by
        simp [sentHello, sentExtensions, hresumption, offeringHello]
      refine ⟨binder, _, ?_, rfl, ?_⟩
      · rw [encodeHello, hresumption]
        simp only [hhash, ok_bind, encodeOffering, hnew]
        rw [hfinish, mapErr_ok, hsent]
      · intro resumption' h
        rw [hresumption] at h
        obtain rfl := Option.some.inj h
        exact ⟨hash, placeheld.truncated, hhash, by rw [hsent]; exact hsplit, rfl⟩

/-! ### Its extensions -/

section Extensions

variable (config : ClientConfig) (kx : KeyExchange) (more : List Extension)

theorem find_baseExtensions {typ : UInt16} (hne : ExtensionType.serverName ≠ typ) :
    find (baseExtensions config kx ++ more) typ
      = find ([⟨ExtensionType.supportedVersions, (Writer.new.vectorU8 (.u16 0x0304)).intoVec⟩,
          ⟨ExtensionType.supportedGroups, supportedGroupsData config.groups⟩,
          ⟨ExtensionType.signatureAlgorithms, signatureAlgorithmsData⟩,
          ⟨ExtensionType.keyShare, keyShareData kx⟩,
          ⟨ExtensionType.pskKeyExchangeModes, (Writer.new.vectorU8 (.u8 1)).intoVec⟩] ++ more)
          typ := by
  unfold baseExtensions
  dsimp only
  by_cases hname : (serverNameData config.serverName).isEmpty = true
  · rw [if_pos hname]
    rfl
  · rw [if_neg hname]
    simp only [find, List.cons_append, List.nil_append, List.find?_cons]
    rw [beq_eq_false_iff_ne.mpr hne]

theorem find_supportedVersions :
    find (baseExtensions config kx ++ more) ExtensionType.supportedVersions
      = some [2, 0x03, 0x04] := by
  rw [find_baseExtensions _ _ _ (by decide)]
  rfl

theorem find_supportedGroups :
    find (baseExtensions config kx ++ more) ExtensionType.supportedGroups
      = some (supportedGroupsData config.groups) := by
  rw [find_baseExtensions _ _ _ (by decide)]
  rfl

theorem find_signatureAlgorithms :
    find (baseExtensions config kx ++ more) ExtensionType.signatureAlgorithms
      = some signatureAlgorithmsData := by
  rw [find_baseExtensions _ _ _ (by decide)]
  rfl

theorem find_pskKeyExchangeModes :
    find (baseExtensions config kx ++ more) ExtensionType.pskKeyExchangeModes = some [1, 1] := by
  rw [find_baseExtensions _ _ _ (by decide)]
  rfl

end Extensions

theorem find_earlyData_sent (config : ClientConfig) (kx : KeyExchange) (binder : Bytes) :
    find (sentExtensions config kx binder) ExtensionType.earlyData = none := by
  rw [sentExtensions, find_baseExtensions _ _ _ (by decide)]
  cases config.resumption <;> rfl

theorem find_preSharedKey_sent (config : ClientConfig) (kx : KeyExchange) (binder : Bytes) :
    find (sentExtensions config kx binder) ExtensionType.preSharedKey
      = config.resumption.map fun resumption =>
          identityBytes [offeredIdentity resumption] ++ binderBytes [binder] := by
  rw [sentExtensions, find_baseExtensions _ _ _ (by decide)]
  cases config.resumption <;> rfl

/-- No two extensions of a hello are of one type. -/
theorem nodup_sentExtensions (config : ClientConfig) (kx : KeyExchange) (binder : Bytes) :
    ((sentExtensions config kx binder).map (·.typ)).Nodup := by
  have htypes : (sentExtensions config kx binder).map (·.typ)
      = (if (serverNameData config.serverName).isEmpty then [] else [ExtensionType.serverName]) ++
        [ExtensionType.supportedVersions, ExtensionType.supportedGroups,
          ExtensionType.signatureAlgorithms, ExtensionType.keyShare,
          ExtensionType.pskKeyExchangeModes] ++
        (if config.resumption.isSome then [ExtensionType.preSharedKey] else []) := by
    unfold sentExtensions baseExtensions
    dsimp only
    cases config.resumption <;> split <;> simp
  rw [htypes]
  split <;> split <;> decide

/-- A hello that fits a record fits its own length fields. -/
theorem sentHello_fits {config : ClientConfig} {kx : KeyExchange}
    {random sessionId binder : Bytes} (hrandom : random.length = 32)
    (hid : sessionId.length = 32) (hsuites : config.cipherSuites ≠ [])
    (hlen : (Message.encode .clientHello
      (sentHello config kx random sessionId binder).encode).length ≤ maxFragmentLen) :
    (sentHello config kx random sessionId binder).Fits := by
  obtain ⟨hmax, -⟩ := limits
  rw [Message.encode_eq, ClientHello.encode_eq, hmax] at hlen
  simp only [List.length_cons, prefixed_length, List.length_append, u16Bytes_length] at hlen
  refine ⟨hrandom, ?_, ?_, ?_, ?_, nodup_sentExtensions config kx binder⟩
  · simp only [sentHello, plainHello]
    omega
  · omega
  · simpa [sentHello, plainHello] using hsuites
  · omega

end Client

/-! ### What the server reads in it -/

namespace Server

theorem soleVector_prefixed {list : Bytes} (hlen : list.length < 2 ^ 16) :
    soleVector (prefixed 2 list) = .ok list := by
  have hread : (Reader.mk (prefixed 2 list)).vectorU16 = .ok (list, ⟨[]⟩) :=
    Reader.vectorU16_iff.mpr ⟨(List.append_nil _).symm, hlen⟩
  simp only [soleVector, wire, hread, mapErr_ok, ok_bind, Reader.finish_nil]

theorem supportedGroupsData_eq (groups : List NamedGroup) :
    Client.supportedGroupsData groups = prefixed 2 (u16Bytes (groups.map (·.asU16))) := by
  have happends : Writer.Appends (Writer.vectorU16
      (.each groups fun group => Writer.u16 group.asU16))
      (prefixed 2 (groups.flatMap fun group => beBytes 2 group.asU16.toNat)) :=
    Writer.vectorU16_appends
      (Writer.each_appends (fun g => Writer.u16_appends (NamedGroup.asU16 g)) _)
  rw [Client.supportedGroupsData, happends Writer.new]
  simp [Writer.intoVec, Writer.new, u16Bytes, List.flatMap_map]

theorem clientSupportedGroups_sent {groups : List NamedGroup} (hlen : 2 * groups.length < 2 ^ 16) :
    clientSupportedGroups (Client.supportedGroupsData groups) = .ok (groups.map (·.asU16)) := by
  rw [clientSupportedGroups, supportedGroupsData_eq, soleVector_prefixed (by simpa using hlen),
    ok_bind]
  exact u16List_iff.mpr rfl

theorem clientSignatureSchemes_sent :
    clientSignatureSchemes Client.signatureAlgorithmsData
      = .ok (SignatureScheme.tls13Supported.map (·.code)) := by
  have hdata : Client.signatureAlgorithmsData
      = prefixed 2 (u16Bytes (SignatureScheme.tls13Supported.map (·.code))) := by decide
  rw [clientSignatureSchemes, hdata, soleVector_prefixed (by decide), ok_bind]
  exact u16List_iff.mpr rfl

/-- Every key this code signs with can sign for every client of this code. -/
theorem selectScheme_sent {config : ServerConfig} {hello : ClientHello}
    (hfind : find hello.extensions ExtensionType.signatureAlgorithms
      = some Client.signatureAlgorithmsData) :
    ∃ scheme ∈ config.key.schemes, selectScheme config hello = .ok scheme := by
  have hsome : ∃ scheme, config.key.schemes.find? (fun scheme =>
      (SignatureScheme.tls13Supported.map (·.code)).contains scheme.code) = some scheme := by
    cases config.key <;> exact ⟨_, rfl⟩
  obtain ⟨scheme, hscheme⟩ := hsome
  refine ⟨scheme, List.mem_of_find?_eq_some hscheme, ?_⟩
  simp only [selectScheme, hfind, okOr_some, ok_bind, clientSignatureSchemes_sent, mapErr_ok,
    hscheme]

theorem nextKeyShare_iff (out : List (UInt16 × Bytes)) (input : Bytes)
    (out' : List (UInt16 × Bytes)) (rest : Bytes) :
    nextKeyShare out input = .ok (out', rest) ↔
      ∃ share : UInt16 × Bytes, out' = out ++ [share] ∧
        input = (beBytes 2 share.1.toNat ++ prefixed 2 share.2) ++ rest ∧
        share.2.length < 2 ^ 16 := by
  simp only [nextKeyShare, wire, bind_eq_ok, mapErr_eq_ok]
  constructor
  · intro h
    obtain ⟨⟨group, r⟩, hgroup, ⟨key, r'⟩, hkey, heq⟩ := h
    obtain ⟨rfl, rfl⟩ : out ++ [(group, key)] = out' ∧ r'.rest = rest := by simpa using heq
    obtain ⟨hrest, hlen⟩ := Reader.vectorU16_iff.mp hkey
    refine ⟨(group, key), rfl, ?_, hlen⟩
    rw [List.append_assoc, ← hrest]
    exact Reader.u16_iff.mp hgroup
  · intro h
    obtain ⟨⟨group, key⟩, rfl, rfl, hlen⟩ := h
    exact ⟨(group, ⟨prefixed 2 key ++ rest⟩), Reader.u16_iff.mpr (by simp), (key, ⟨rest⟩),
      Reader.vectorU16_iff.mpr ⟨rfl, hlen⟩, rfl⟩

theorem nextKeyShare_consuming : Consuming nextKeyShare := by
  intro out input out' rest h
  obtain ⟨share, -, rfl, -⟩ := (nextKeyShare_iff _ _ _ _).mp h
  simp
  omega

theorem clientKeyShares_sent {kx : KeyExchange} (hlen : kx.publicKey.length ≤ 97) :
    clientKeyShares (Client.keyShareData kx) = .ok [(kx.group.asU16, kx.publicKey)] := by
  have happends : Writer.Appends (Writer.vectorU16 fun w =>
      (w.u16 kx.group.asU16).vectorU16 (.bytes kx.publicKey))
      (prefixed 2 (beBytes 2 kx.group.asU16.toNat ++ prefixed 2 kx.publicKey)) :=
    Writer.vectorU16_appends (Writer.comp_appends (Writer.u16_appends kx.group.asU16)
      (Writer.vectorU16_appends (Writer.bytes_appends kx.publicKey)))
  have hdata : Client.keyShareData kx
      = prefixed 2 (beBytes 2 kx.group.asU16.toNat ++ prefixed 2 kx.publicKey) := by
    rw [Client.keyShareData, happends Writer.new]
    simp [Writer.intoVec, Writer.new]
  have hshort : (beBytes 2 kx.group.asU16.toNat ++ prefixed 2 kx.publicKey).length < 2 ^ 16 := by
    simp only [List.length_append, beBytes_length, prefixed_length]
    omega
  rw [clientKeyShares, hdata, soleVector_prefixed hshort, ok_bind]
  refine (consume_each nextKeyShare_consuming nextKeyShare_iff).mpr ⟨by simp, ?_⟩
  intro share hmem
  obtain rfl := List.mem_singleton.mp hmem
  simp only
  omega

theorem shareFor_sent (kx : KeyExchange) (group : NamedGroup) :
    shareFor [(kx.group.asU16, kx.publicKey)] group
      = if kx.group = group then some kx.publicKey else none := by
  by_cases heq : kx.group = group
  · simp [shareFor, heq]
  · have hcode : kx.group.asU16 ≠ group.asU16 := fun h => heq (NamedGroup.asU16_injective h)
    simp [shareFor, heq, hcode]

/-- A server takes up the one share that was sent, or asks for another. -/
theorem chooseShare_sent (config : ServerConfig) (kx : KeyExchange) :
    chooseShare config [(kx.group.asU16, kx.publicKey)]
      = if kx.group ∈ config.groups then some (kx.group, kx.publicKey) else none := by
  rw [chooseShare]
  induction config.groups with
  | nil => rfl
  | cons group groups ih =>
      rw [List.findSome?_cons, shareFor_sent]
      by_cases heq : kx.group = group
      · simp [heq]
      · simp [heq, ih]

/-! ### The pre-shared key it offers -/

/-- What the server's keys make of a session's ticket, if they open it, is the session. -/
structure Honours (ring : Ring) (config : ServerConfig) (session : Session) : Prop where
  ticket_ne : session.ticket ≠ []
  decodes : ∀ tickets, config.tickets = some tickets → ∀ err,
    TicketContents.openContents ring session.ticket tickets.keys ≠ some (.error err)
  same : ∀ tickets, config.tickets = some tickets → ∀ contents,
    TicketContents.openContents ring session.ticket tickets.keys = some (.ok contents) →
      contents.suite = session.suite ∧ contents.psk = session.psk

/-- The server can resume from the session that the client offers. -/
def Resumable (ring : Ring) (client : Client.ClientConfig) (config : ServerConfig)
    (suite : CipherSuite) : Prop :=
  ∃ resumption tickets contents, client.resumption = some resumption ∧
    config.tickets = some tickets ∧
    Acceptable ring config tickets suite (Client.offeredIdentity resumption) contents

/-- What the server took up of a client's offer: the session, exactly when it can be resumed. -/
inductive TakesUp (ring : Ring) (client : Client.ClientConfig) (config : ServerConfig)
    (suite : CipherSuite) (hash : Hash) : Option AcceptedPsk → Prop
  | nothing : ¬ Resumable ring client config suite → TakesUp ring client config suite hash none
  | session {resumption : Client.Resumption} {certificates : List Bytes} :
      Resumable ring client config suite → client.resumption = some resumption →
      Client.sessionHash resumption.session = .ok hash →
      (TicketContents.chainBytes certificates).length < 2 ^ 16 →
      TakesUp ring client config suite hash
        (some ⟨0, resumption.session.psk, certificates⟩)

theorem TakesUp.isSome_iff {ring : Ring} {client : Client.ClientConfig} {config : ServerConfig}
    {suite : CipherSuite} {hash : Hash} {psk : Option AcceptedPsk}
    (h : TakesUp ring client config suite hash psk) :
    psk.isSome = true ↔ Resumable ring client config suite := by
  cases h with
  | nothing hnot => simpa using hnot
  | session hresumable _ _ _ => simpa using hresumable

/-- The offer of a hello that fits, as the server parses it. -/
theorem parse_offer_sent {ring : Ring} (lawful : ring.Lawful) {client : Client.ClientConfig}
    {kx : KeyExchange} {random sessionId binder front encoded : Bytes}
    {resumption : Client.Resumption} (hresumption : client.resumption = some resumption)
    (hne : resumption.session.ticket ≠ [])
    (hfits : (Client.sentHello client kx random sessionId binder).Fits)
    (hbinds : Client.Binds ring client front encoded binder) :
    PresharedKeyOffer.parse (identityBytes [Client.offeredIdentity resumption] ++
        binderBytes [binder])
      = .ok ⟨[Client.offeredIdentity resumption], [binder]⟩ := by
  obtain ⟨hash, before, -, -, hbinder⟩ := hbinds resumption hresumption
  have hbinderLen : binder.length = hash.len := by
    rw [hbinder]
    exact pskBinder_length lawful hash _ _
  have hmem : (⟨ExtensionType.preSharedKey, identityBytes [Client.offeredIdentity resumption] ++
      binderBytes [binder]⟩ : Extension)
      ∈ (Client.sentHello client kx random sessionId binder).extensions := by
    simp [Client.sentHello, Client.sentExtensions, hresumption]
  have hdata := Nat.lt_of_le_of_lt (extension_data_le hmem) hfits.extensions.length
  simp only [List.length_append] at hdata
  refine PresharedKeyOffer.parse_iff.mpr ⟨rfl, ?_, ?_, ?_, ?_, by simp, rfl⟩
  · intro identity hidentity
    obtain rfl := List.mem_singleton.mp hidentity
    refine ⟨?_, hne⟩
    simp only [identityBytes, List.flatMap_cons, List.flatMap_nil, prefixed_length,
      List.length_append, beBytes_length] at hdata
    omega
  · intro other hother
    obtain rfl := List.mem_singleton.mp hother
    cases hash <;> simp [hbinderLen, Hash.len]
  · simp only
    omega
  · simp only
    omega

/-- The server's cut of a hello is the one its binder was computed over. -/
theorem binder_verifies {ring : Ring} {client : Client.ClientConfig}
    {front encoded binder before : Bytes} {resumption : Client.Resumption} {hash : Hash}
    (hresumption : client.resumption = some resumption)
    (hbinds : Client.Binds ring client front encoded binder)
    (hhash : Client.sessionHash resumption.session = .ok hash)
    (hcut : encoded = before ++ binderBytes [binder]) :
    verifyPskBinder ring hash resumption.session.psk (hash.hash ring (front ++ before)) binder
      = true := by
  obtain ⟨hash', before', hhash', hcut', hbinder⟩ := hbinds resumption hresumption
  obtain rfl : hash' = hash := Except.ok.inj (hhash'.symm.trans hhash)
  obtain rfl : before' = before := List.append_cancel_right (hcut'.symm.trans hcut)
  exact verifyFinished_iff.mpr hbinder.symm

section Offered

variable {ring : Ring} {client : Client.ClientConfig} {config : ServerConfig} {tickets : Tickets}
  {suite : CipherSuite} {resumption : Client.Resumption}

theorem resumable_iff (hresumption : client.resumption = some resumption)
    (htickets : config.tickets = some tickets) :
    Resumable ring client config suite ↔ ∃ contents,
      Acceptable ring config tickets suite (Client.offeredIdentity resumption) contents := by
  simp [Resumable, hresumption, htickets]

/-- There is one identity, so the first acceptable one is that. -/
theorem firstAcceptable_offered {aead : Aead} {hash : Hash}
    (hparts : suite.parts = some (aead, hash)) (htickets : config.tickets = some tickets)
    (hhonour : Honours ring config resumption.session) {index : Nat} {contents : TicketContents}
    (hfirst : FirstAcceptable ring config tickets suite [Client.offeredIdentity resumption]
      index contents) :
    index = 0 ∧
      Acceptable ring config tickets suite (Client.offeredIdentity resumption) contents ∧
      contents.psk = resumption.session.psk ∧
      Client.sessionHash resumption.session = .ok hash := by
  obtain ⟨offered, hoffered, hacc⟩ := hfirst.acceptable
  obtain ⟨hindex, hget⟩ := List.getElem?_eq_some_iff.mp hoffered
  obtain rfl : index = 0 := by simpa using hindex
  obtain rfl : Client.offeredIdentity resumption = offered := hget
  obtain ⟨hsuite, hpsk⟩ := hhonour.same tickets htickets contents hacc.opens
  refine ⟨rfl, hacc, hpsk, ?_⟩
  rw [Client.sessionHash, ← hsuite, hacc.suite_eq, hparts]
  rfl

/-- Selecting from the one identity that was offered, with its binder. -/
theorem takesUp_of_selection {aead : Aead} {hash : Hash}
    (hparts : suite.parts = some (aead, hash)) (hresumption : client.resumption = some resumption)
    (htickets : config.tickets = some tickets) (hhonour : Honours ring config resumption.session)
    {covered binder : Bytes} {result : Except ServerError (Option AcceptedPsk)}
    (hbound : Client.sessionHash resumption.session = .ok hash →
      verifyPskBinder ring hash resumption.session.psk covered binder = true)
    (h : Selection ring config tickets suite hash covered [binder] 0
      [Client.offeredIdentity resumption] result) :
    ∃ psk, result = .ok psk ∧ TakesUp ring client config suite hash psk := by
  cases h with
  | @accepted index contents accepted hfirst hbinder hverify =>
      obtain ⟨rfl, hacc, hpsk, hhash⟩ := firstAcceptable_offered hparts htickets hhonour hfirst
      rw [hpsk]
      exact ⟨_, rfl, .session ((resumable_iff hresumption htickets).mpr ⟨contents, hacc⟩)
        hresumption hhash (TicketContents.openContents_chain hacc.opens)⟩
  | @refused index contents refused hfirst hbinder hverify =>
      obtain ⟨rfl, -, hpsk, hhash⟩ := firstAcceptable_offered hparts htickets hhonour hfirst
      obtain rfl : binder = refused := by simpa using hbinder
      rw [hpsk, hbound hhash] at hverify
      simp at hverify
  | noneAcceptable hnone =>
      refine ⟨none, rfl, .nothing fun hresumable => ?_⟩
      obtain ⟨contents, hacc⟩ := (resumable_iff hresumption htickets).mp hresumable
      exact hnone _ (List.mem_singleton.mpr rfl) contents hacc

end Offered

/-- The server takes up the session of a hello exactly when it can be resumed, and never fails
on an offer. -/
theorem acceptPsk_sent {ring : Ring} (lawful : ring.Lawful) {client : Client.ClientConfig}
    {config : ServerConfig} {kx : KeyExchange} {random sessionId binder front : Bytes}
    {suite : CipherSuite} {aead : Aead} {hash : Hash} (hparts : suite.parts = some (aead, hash))
    (hhonours : ∀ resumption, client.resumption = some resumption →
      Honours ring config resumption.session)
    (hfits : (Client.sentHello client kx random sessionId binder).Fits)
    (hbinds : Client.Binds ring client front (Message.encode .clientHello
      (Client.sentHello client kx random sessionId binder).encode) binder) :
    ∃ psk, acceptPsk ring config (Client.sentHello client kx random sessionId binder)
        (Message.encode .clientHello (Client.sentHello client kx random sessionId binder).encode)
        front suite hash = .ok psk ∧
      TakesUp ring client config suite hash psk := by
  have hearly : find (Client.sentHello client kx random sessionId binder).extensions
      ExtensionType.earlyData = none := Client.find_earlyData_sent client kx binder
  cases hresumption : client.resumption with
  | none =>
      refine ⟨none, ?_, .nothing ?_⟩
      · have hfind : find (Client.sentHello client kx random sessionId binder).extensions
            ExtensionType.preSharedKey = none := by
          rw [Client.sentHello, Client.find_preSharedKey_sent, hresumption]
          rfl
        rw [acceptPsk, refuse_neg _ (by simp [hearly]), ok_bind, hfind]
      · intro h
        obtain ⟨resumption, _, _, h, -⟩ := h
        rw [hresumption] at h
        simp at h
  | some resumption =>
      have hlast : (Client.sentHello client kx random sessionId binder).extensions.getLast?
          = some ⟨ExtensionType.preSharedKey,
              identityBytes [Client.offeredIdentity resumption] ++ binderBytes [binder]⟩ := by
        simp [Client.sentHello, Client.sentExtensions, hresumption]
      cases htickets : config.tickets with
      | none =>
          refine ⟨none, ?_, .nothing ?_⟩
          · have hfind : find (Client.sentHello client kx random sessionId binder).extensions
                ExtensionType.preSharedKey = some (identityBytes
                  [Client.offeredIdentity resumption] ++ binderBytes [binder]) := by
              rw [Client.sentHello, Client.find_preSharedKey_sent, hresumption]
              rfl
            rw [acceptPsk, refuse_neg _ (by simp [hearly]), ok_bind, hfind]
            simp only [hlast, Option.map_some]
            rw [refuse_neg _ (by simp), ok_bind, htickets]
          · intro h
            obtain ⟨_, _, _, -, h, -⟩ := h
            rw [htickets] at h
            simp at h
      | some tickets =>
          have hhonour := hhonours resumption hresumption
          have hoffer := parse_offer_sent lawful hresumption hhonour.ticket_ne hfits hbinds
          have hmode : offersDhe (Client.sentHello client kx random sessionId binder) = true := by
            rw [offersDhe, Client.sentHello, Client.sentExtensions,
              Client.find_pskKeyExchangeModes]
            decide
          obtain ⟨before, hcut, haccept⟩ := acceptPsk_eq_selectPsk ring suite hash htickets
            (ClientHello.parse_iff.mpr ⟨rfl, hfits⟩) hearly hlast hoffer hmode front
          rw [binderList_eq hoffer] at hcut
          rw [haccept]
          have hselection := @selectPsk_selection ring tickets [binder] config suite hash
            (hash.hash ring (front ++ before)) [Client.offeredIdentity resumption] 0
            (by simpa [Decodes, Client.offeredIdentity] using hhonour.decodes tickets htickets)
            (by simp)
          refine takesUp_of_selection hparts hresumption htickets hhonour ?_ hselection
          intro hhash
          exact binder_verifies hresumption hbinds hhash hcut

end Server

end RustyTls
