import RustyTls.FlightCodec

/-!
# RustyTls.CodecInverse

What the codecs promise together, over the equivalences of `HandshakeCodec` and `FlightCodec`.

`codec_inversion` is the inversion of the four message codecs and of the framing: no octets are
accepted but the encoding of what they are read as, and every value that fits its length fields
comes back. `binders_agree` is the two-phase encoding of a resuming hello: the sender's cut
point, the spliced message and the receiver's re-encoding name the same octets.
`truncated_last_iff` is the receiver alone: it looks for the binders at the end of a message, and
finds the end of a later extension there if that is a copy of them.
-/

namespace RustyTls

open Core

/-- Encoding undoes parsing on every octet string that is accepted, and parsing undoes encoding on
every value that fits its lengths. -/
theorem codec_inversion :
    (∀ body hello, ClientHello.parse body = .ok hello → hello.encode = body) ∧
    (∀ body hello, ServerHello.parse body = .ok hello → hello.encode = body) ∧
    (∀ body message, CertificateMessage.parse body = .ok message → message.encode = body) ∧
    (∀ body verify, CertificateVerify.parse body = .ok verify → verify.encode = body) ∧
    (∀ input ms, messages input = .ok ms →
      octets ms = input ∧ ∀ m ∈ ms, m.encoded = Message.encode m.typ m.body) ∧
    (∀ hello : ClientHello, hello.Fits → ClientHello.parse hello.encode = .ok hello) ∧
    (∀ hello : ServerHello, hello.Fits → ServerHello.parse hello.encode = .ok hello) ∧
    (∀ message : CertificateMessage, message.Fits →
      CertificateMessage.parse message.encode = .ok message) ∧
    (∀ verify : CertificateVerify, verify.signature ≠ [] → verify.signature.length < 2 ^ 16 →
      CertificateVerify.parse verify.encode = .ok verify) := by
  refine ⟨fun body hello h => (ClientHello.parse_iff.mp h).1.symm,
    fun body hello h => (ServerHello.parse_iff.mp h).1.symm,
    fun body message h => (CertificateMessage.parse_iff.mp h).1.symm,
    fun body verify h => (CertificateVerify.parse_iff.mp h).1.symm, fun input ms h => ?_,
    fun hello h => ClientHello.parse_iff.mpr ⟨rfl, h⟩,
    fun hello h => ServerHello.parse_iff.mpr ⟨rfl, h⟩,
    fun message h => CertificateMessage.parse_encode h,
    fun verify hne hlen => CertificateVerify.parse_encode hne hlen⟩
  obtain ⟨hinput, hframed⟩ := messages_iff.mp h
  exact ⟨hinput.symm, fun m hm => (hframed m hm).encoded_eq⟩

/-- A message of each kind, and one of a type nobody knows. -/
theorem codec_inversion_sample :
    let random := List.replicate 32 9
    ∃ hello answer chain verify ms,
      ClientHello.parse ([3, 3] ++ random ++ [0, 0, 2, 0x13, 1, 1, 0, 0, 4, 0xff, 1, 0, 0])
        = .ok hello ∧
      hello.encode = [3, 3] ++ random ++ [0, 0, 2, 0x13, 1, 1, 0, 0, 4, 0xff, 1, 0, 0] ∧
      ClientHello.parse hello.encode = .ok hello ∧
      ServerHello.parse ([3, 3] ++ random ++ [1, 5, 0x13, 1, 0, 0, 0]) = .ok answer ∧
      answer.encode = [3, 3] ++ random ++ [1, 5, 0x13, 1, 0, 0, 0] ∧
      ServerHello.parse answer.encode = .ok answer ∧
      CertificateMessage.parse [0, 0, 0, 6, 0, 0, 1, 7, 0, 0] = .ok chain ∧
      chain.encode = [0, 0, 0, 6, 0, 0, 1, 7, 0, 0] ∧
      CertificateMessage.parse chain.encode = .ok chain ∧
      CertificateVerify.parse [8, 7, 0, 1, 5] = .ok verify ∧ verify.encode = [8, 7, 0, 1, 5] ∧
      CertificateVerify.parse verify.encode = .ok verify ∧
      messages [0x63, 0, 0, 1, 0xab, 20, 0, 0, 0] = .ok ms ∧
      octets ms = [0x63, 0, 0, 1, 0xab, 20, 0, 0, 0] := by
  intro random
  obtain ⟨hclient, hserver, hcertificate, hverify, hframes, hclient', hserver', hcertificate',
    hverify'⟩ := codec_inversion
  obtain ⟨hello, hhello⟩ := @toOption_isSome _ _ (ClientHello.parse ([3, 3] ++ random
    ++ [0, 0, 2, 0x13, 1, 1, 0, 0, 4, 0xff, 1, 0, 0])) |>.mp (by decide +kernel)
  obtain ⟨answer, hanswer⟩ := @toOption_isSome _ _ (ServerHello.parse ([3, 3] ++ random
    ++ [1, 5, 0x13, 1, 0, 0, 0])) |>.mp (by decide +kernel)
  obtain ⟨chain, hchain⟩ := @toOption_isSome _ _
    (CertificateMessage.parse [0, 0, 0, 6, 0, 0, 1, 7, 0, 0]) |>.mp (by decide +kernel)
  obtain ⟨verify, hsigned⟩ := @toOption_isSome _ _ (CertificateVerify.parse [8, 7, 0, 1, 5])
    |>.mp (by decide +kernel)
  obtain ⟨ms, hms⟩ := @toOption_isSome _ _ (messages [0x63, 0, 0, 1, 0xab, 20, 0, 0, 0])
    |>.mp (by decide +kernel)
  obtain ⟨-, hne, hlen⟩ := CertificateVerify.parse_iff.mp hsigned
  exact ⟨hello, answer, chain, verify, ms, hhello, hclient _ _ hhello,
    hclient' _ (ClientHello.parse_iff.mp hhello).2, hanswer, hserver _ _ hanswer,
    hserver' _ (ServerHello.parse_iff.mp hanswer).2, hchain, hcertificate _ _ hchain,
    hcertificate' _ (CertificateMessage.parse_iff.mp hchain).2, hsigned, hverify _ _ hsigned,
    hverify' _ hne hlen, hms, (hframes _ _ hms).1⟩

/-! ### Binders -/

/-- Replacing the data of a hello's last extension by as many octets keeps every length. -/
theorem ClientHello.Fits.replace_last {hello : ClientHello} {base : List Extension} {typ : UInt16}
    {data data' : Bytes} (hfits : hello.Fits) (hlast : hello.extensions = base ++ [⟨typ, data⟩])
    (hlen : data'.length = data.length) :
    ClientHello.Fits { hello with extensions := base ++ [⟨typ, data'⟩] } where
  random := hfits.random
  sessionId := hfits.sessionId
  suites := hfits.suites
  suites_ne := hfits.suites_ne
  extensions := by
    obtain ⟨hbytes, hnodup⟩ := hfits.extensions
    rw [hlast] at hbytes hnodup
    refine ⟨?_, by simpa using hnodup⟩
    simp only [extensionBytes, List.flatMap_append, List.flatMap_cons, List.flatMap_nil,
      List.append_nil, List.length_append, beBytes_length, prefixed_length] at hbytes ⊢
    omega

/-- A hello that fits is a message that fits. -/
theorem ClientHello.Fits.encode_length {hello : ClientHello} (hfits : hello.Fits) :
    hello.encode.length < 2 ^ 24 := by
  have hrandom := hfits.random
  have hsession := hfits.sessionId
  have hsuites := hfits.suites
  have hextensions := hfits.extensions.length
  rw [ClientHello.encode_eq]
  simp only [List.length_append, beBytes_length, prefixed_length, u16Bytes_length,
    List.length_singleton]
  omega

theorem identity_length_le {identities : List PskIdentity} {identity : PskIdentity}
    (h : identity ∈ identities) :
    identity.identity.length ≤ (identityBytes identities).length := by
  obtain ⟨before, after, rfl⟩ := List.append_of_mem h
  simp only [identityBytes, prefixed_length, List.flatMap_append, List.flatMap_cons,
    List.length_append]
  omega

/-- The two-phase encoding agrees with the receiver. For a hello that ends with an offer of
placeholders, filling in binders of the announced lengths gives a message whose part before the
binders is what they were computed over; the receiver reads back the same hello with the same
identities and those binders, and cuts the message at the same place. -/
theorem binders_agree {hello : ClientHello} {base : List Extension} {identities : List PskIdentity}
    {lens : List Nat} (hfits : hello.Fits)
    (hlast : hello.extensions
      = base ++ [⟨ExtensionType.preSharedKey, preSharedKeyPlaceholder identities lens⟩])
    (hne : identities ≠ []) (hidentity : ∀ identity ∈ identities, identity.identity ≠ [])
    (hcount : lens.length = identities.length) (hlens : ∀ len ∈ lens, 32 ≤ len ∧ len ≤ 255) :
    ∃ placeheld, BinderHello.new hello lens = .ok placeheld ∧
      ∀ binders : List Bytes, binders.map (·.length) = lens →
        ∃ message data, placeheld.finish binders = .ok message ∧
          placeheld.truncated <+: message ∧
          (∃ body, messages message = .ok [⟨.clientHello, body, message⟩] ∧
            ClientHello.parse body = .ok { hello with
              extensions := base ++ [⟨ExtensionType.preSharedKey, data⟩] }) ∧
          PresharedKeyOffer.parse data = .ok ⟨identities, binders⟩ ∧
          PresharedKeyOffer.truncated ⟨identities, binders⟩ message = .ok placeheld.truncated := by
  have hlensNe : lens ≠ [] := by
    intro hnil
    rw [hnil] at hcount
    exact hne (List.length_eq_zero_iff.mp hcount.symm)
  obtain ⟨placeheld, hnew, hfinish⟩ := BinderHello.new_finish hlensNe hlast
  refine ⟨placeheld, hnew, fun binders hbinders => ?_⟩
  obtain ⟨hmessage, hcut⟩ := hfinish binders hbinders
  obtain ⟨data, hdata⟩ : ∃ data, data = identityBytes identities ++ binderBytes binders := ⟨_, rfl⟩
  rw [← hdata] at hmessage hcut
  -- the data keeps its length, so the finished hello fits where the placeheld one did
  have hlength : data.length = (preSharedKeyPlaceholder identities lens).length := by
    rw [hdata, preSharedKeyPlaceholder_eq, List.length_append, List.length_append,
      binderBytes_length, binderBytes_length, hbinders]
    simp [Function.comp_def]
  have hfits' := hfits.replace_last hlast hlength
  have hmem : (⟨ExtensionType.preSharedKey, data⟩ : Extension) ∈
      base ++ [⟨ExtensionType.preSharedKey, data⟩] := by simp
  have hdataLen : data.length < 2 ^ 16 :=
    Nat.lt_of_le_of_lt (extension_data_le hmem) hfits'.extensions.length
  have hoffer : PresharedKeyOffer.Fits ⟨identities, binders⟩ := by
    have hparts : data.length = (identityBytes identities).length + (binderBytes binders).length := by
      rw [hdata, List.length_append]
    refine ⟨fun identity hmem => ⟨?_, hidentity identity hmem⟩, fun binder hmem => ?_, ?_, ?_, hne, ?_⟩
    · have hle := identity_length_le hmem
      simp only at hle
      omega
    · have hlen := hlens binder.length (hbinders ▸ List.mem_map_of_mem hmem)
      omega
    · simp only
      omega
    · simp only
      omega
    · rw [← hcount, ← hbinders, List.length_map]
  refine ⟨_, data, hmessage, ?_, ⟨_, ?_, ClientHello.parse_iff.mpr ⟨rfl, hfits'⟩⟩,
    PresharedKeyOffer.parse_iff.mpr ⟨hdata, hoffer⟩, ?_⟩
  · rw [hcut]
    exact List.prefix_append _ _
  · have hframed : Framed (Message.of .clientHello _) :=
      Message.of_framed (show HandshakeType.Known .clientHello from rfl) hfits'.encode_length
    exact messages_iff.mpr ⟨by simp, by simpa [Message.of] using hframed⟩
  · rw [hcut]
    exact PresharedKeyOffer.truncated_append ⟨identities, binders⟩ _

/-- A hello with one identity and one placeholder of 32 octets. -/
def placeholderHello : ClientHello where
  random := List.replicate 32 0
  sessionId := []
  cipherSuites := [0x1301]
  extensions := [⟨ExtensionType.preSharedKey, preSharedKeyPlaceholder [⟨[7], 0⟩] [32]⟩]

theorem binders_agree_placeholder :
    ∃ placeheld, BinderHello.new placeholderHello [32] = .ok placeheld ∧
      ∀ binders : List Bytes, binders.map (·.length) = [32] →
        ∃ message data, placeheld.finish binders = .ok message ∧
          placeheld.truncated <+: message ∧
          (∃ body, messages message = .ok [⟨.clientHello, body, message⟩] ∧
            ClientHello.parse body = .ok { placeholderHello with
              extensions := [] ++ [⟨ExtensionType.preSharedKey, data⟩] }) ∧
          PresharedKeyOffer.parse data = .ok ⟨[⟨[7], 0⟩], binders⟩ ∧
          PresharedKeyOffer.truncated ⟨[⟨[7], 0⟩], binders⟩ message = .ok placeheld.truncated :=
  binders_agree ⟨rfl, by decide, by decide, by decide, by decide, by decide⟩ rfl (by decide)
    (by decide) rfl (by decide)

/-! ### What the binders cover -/

/-- The truncation cuts a message that ends with the binders, before them. -/
theorem PresharedKeyOffer.truncated_eq_ok {offer : PresharedKeyOffer} {message cut : Bytes} :
    offer.truncated message = .ok cut ↔ message = cut ++ binderBytes offer.binders := by
  constructor
  · intro h
    obtain ⟨_, hlen, h⟩ := bind_eq_ok.mp h
    obtain ⟨_, htail, h⟩ := bind_eq_ok.mp h
    rw [refuse_eq_ok, not_not, writeBinders_new] at htail
    rw [← Except.ok.inj h, ← htail, List.take_append_drop]
  · intro h
    obtain rfl := h
    exact offer.truncated_append cut

/-- Where the binders of an offer are in a hello: the extensions after it follow them. -/
theorem binders_suffix {body data : Bytes} {hello : ClientHello} {typ : UInt16}
    {base after : List Extension} {offer : PresharedKeyOffer}
    (hparse : ClientHello.parse body = .ok hello)
    (hextensions : hello.extensions = base ++ ⟨typ, data⟩ :: after)
    (hoffer : PresharedKeyOffer.parse data = .ok offer) :
    binderBytes offer.binders ++ extensionBytes after <:+ Message.encode .clientHello body := by
  obtain ⟨hencoded, -⟩ := ClientHello.parse_iff.mp hparse
  obtain ⟨rfl, -⟩ := PresharedKeyOffer.parse_iff.mp hoffer
  have hlist : binderBytes offer.binders ++ extensionBytes after <:+
      extensionBytes hello.extensions := by
    simp only [hextensions, extensionBytes, List.flatMap_append, List.flatMap_cons, prefixed,
      List.append_assoc]
    iterate 4 apply List.suffix_append_of_suffix
    exact List.suffix_rfl
  have hbody : extensionBytes hello.extensions <:+ hello.encode := by
    rw [ClientHello.encode_eq]
    iterate 5 apply List.suffix_append_of_suffix
    exact suffix_prefixed _ _
  have hmessage : hello.encode <:+ Message.encode .clientHello hello.encode := by
    rw [Message.encode_eq]
    exact (suffix_prefixed _ _).trans (List.suffix_cons _ _)
  rw [hencoded]
  exact (hlist.trans hbody).trans hmessage

/-- The truncation of a hello is right about the position of its offer, and cuts before its
binders, exactly when the offer is the last extension or what follows its binders does not end
with a copy of them. -/
theorem truncated_last_iff {body data : Bytes} {hello : ClientHello} {base after : List Extension}
    {offer : PresharedKeyOffer} (hparse : ClientHello.parse body = .ok hello)
    (hextensions : hello.extensions = base ++ ⟨ExtensionType.preSharedKey, data⟩ :: after)
    (hoffer : PresharedKeyOffer.parse data = .ok offer) :
    ∃ before, Message.encode .clientHello body
        = before ++ (binderBytes offer.binders ++ extensionBytes after) ∧
      ((((∃ cut, offer.truncated (Message.encode .clientHello body) = .ok cut) ↔ after = []) ∧
        (after = [] → offer.truncated (Message.encode .clientHello body) = .ok before)) ↔
      (after = [] ∨
        ¬ binderBytes offer.binders <:+ binderBytes offer.binders ++ extensionBytes after)) := by
  obtain ⟨before, hbefore⟩ := binders_suffix hparse hextensions hoffer
  refine ⟨before, hbefore.symm, ?_⟩
  rw [← hbefore]
  have hok : (∃ cut, offer.truncated (before ++ (binderBytes offer.binders ++ extensionBytes after))
      = .ok cut) ↔
      binderBytes offer.binders <:+ binderBytes offer.binders ++ extensionBytes after := by
    have hinside : binderBytes offer.binders ++ extensionBytes after <:+
        before ++ (binderBytes offer.binders ++ extensionBytes after) := List.suffix_append _ _
    constructor
    · intro h
      obtain ⟨cut, hcut⟩ := h
      have htail : binderBytes offer.binders <:+
          before ++ (binderBytes offer.binders ++ extensionBytes after) :=
        ⟨cut, (PresharedKeyOffer.truncated_eq_ok.mp hcut).symm⟩
      exact List.suffix_of_suffix_length_le htail hinside (by simp)
    · intro htail
      obtain ⟨cut, hcut⟩ := htail.trans hinside
      exact ⟨cut, PresharedKeyOffer.truncated_eq_ok.mpr hcut.symm⟩
  have hself : binderBytes offer.binders ++ extensionBytes [] = binderBytes offer.binders :=
    List.append_nil _
  rw [hok]
  constructor
  · intro h
    obtain ⟨hlast, -⟩ := h
    by_cases hafter : after = []
    · exact .inl hafter
    · exact .inr (mt hlast.mp hafter)
  · intro hshape
    rcases hshape with rfl | hnot
    · rw [hself]
      exact ⟨iff_of_true List.suffix_rfl rfl, fun _ => offer.truncated_append before⟩
    · have hafter : after ≠ [] := by
        intro h
        obtain rfl := h
        exact hnot (hself.symm ▸ List.suffix_rfl)
      exact ⟨iff_of_false hnot hafter, fun h => absurd h hafter⟩

/-- The binder of the samples. -/
def sampleBinder : Bytes := List.replicate 32 0

/-- A hello with an offer, and these extensions after it. -/
def offeringHello (after : List Extension) : ClientHello where
  random := List.replicate 32 0
  sessionId := []
  cipherSuites := [0x1301]
  extensions := ⟨ExtensionType.preSharedKey,
    identityBytes [⟨[7], 0⟩] ++ binderBytes [sampleBinder]⟩ :: after

theorem offeringHello_offer :
    PresharedKeyOffer.parse (identityBytes [⟨[7], 0⟩] ++ binderBytes [sampleBinder])
      = .ok ⟨[⟨[7], 0⟩], [sampleBinder]⟩ :=
  PresharedKeyOffer.parse_iff.mpr
    ⟨rfl, by decide, by decide, by decide, by decide, by decide, rfl⟩

/-- An offer at the end. -/
theorem truncated_last_iff_end : ∃ before,
    Message.encode .clientHello (offeringHello []).encode = before ++ binderBytes [sampleBinder] ∧
    PresharedKeyOffer.truncated ⟨[⟨[7], 0⟩], [sampleBinder]⟩
      (Message.encode .clientHello (offeringHello []).encode) = .ok before := by
  have hparse : ClientHello.parse (offeringHello []).encode = .ok (offeringHello []) :=
    ClientHello.parse_iff.mpr ⟨rfl, rfl, by decide, by decide, by decide, by decide, by decide⟩
  have hlast : (offeringHello []).extensions = [] ++ [⟨ExtensionType.preSharedKey,
      identityBytes [⟨[7], 0⟩] ++ binderBytes [sampleBinder]⟩] := rfl
  obtain ⟨before, hbefore, hiff⟩ := truncated_last_iff hparse hlast offeringHello_offer
  exact ⟨before, by simpa [extensionBytes] using hbefore, (hiff.mpr (.inl rfl)).2 rfl⟩

/-- An extension after the offer that ends with a copy of its binders: the truncation takes the
copy for them, so that the offer's own binders are part of what they cover. -/
theorem truncated_copied_binders :
    ClientHello.parse (offeringHello [⟨0xff02, binderBytes [sampleBinder]⟩]).encode
      = .ok (offeringHello [⟨0xff02, binderBytes [sampleBinder]⟩]) ∧
    PresharedKeyOffer.parse (identityBytes [⟨[7], 0⟩] ++ binderBytes [sampleBinder])
      = .ok ⟨[⟨[7], 0⟩], [sampleBinder]⟩ ∧
    ∃ cut, PresharedKeyOffer.truncated ⟨[⟨[7], 0⟩], [sampleBinder]⟩
      (Message.encode .clientHello
        (offeringHello [⟨0xff02, binderBytes [sampleBinder]⟩]).encode) = .ok cut := by
  have hparse : ClientHello.parse (offeringHello [⟨0xff02, binderBytes [sampleBinder]⟩]).encode
      = .ok (offeringHello [⟨0xff02, binderBytes [sampleBinder]⟩]) :=
    ClientHello.parse_iff.mpr ⟨rfl, rfl, by decide, by decide, by decide, by decide, by decide⟩
  have hfirst : (offeringHello [⟨0xff02, binderBytes [sampleBinder]⟩]).extensions
      = [] ++ ⟨ExtensionType.preSharedKey,
        identityBytes [⟨[7], 0⟩] ++ binderBytes [sampleBinder]⟩ ::
          [⟨0xff02, binderBytes [sampleBinder]⟩] := rfl
  have hcopy : binderBytes [sampleBinder] <:+
      extensionBytes [⟨0xff02, binderBytes [sampleBinder]⟩] := by
    simp only [extensionBytes, List.flatMap_cons, List.flatMap_nil, List.append_nil]
    exact List.suffix_append_of_suffix (suffix_prefixed _ _)
  have hplace := binders_suffix hparse hfirst offeringHello_offer
  have hinside : binderBytes [sampleBinder] <:+ binderBytes [sampleBinder] ++
      extensionBytes [⟨0xff02, binderBytes [sampleBinder]⟩] := List.suffix_append_of_suffix hcopy
  obtain ⟨cut, hcut⟩ := hinside.trans hplace
  exact ⟨hparse, offeringHello_offer, cut, PresharedKeyOffer.truncated_eq_ok.mpr hcut.symm⟩

end RustyTls
