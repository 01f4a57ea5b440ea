import RustyTls.Ticket

/-!
# RustyTls.TicketSound

What comes out of a ticket is what was sealed into it. The client's chain is written behind a
two-octet length that a long chain does not fit; a ticket for such a chain does not decode at
all, so it never yields another chain (`decode_encode_inv`). Contents that do fit come back
whole (`decode_encode`). Nothing looks at the lengths when a ticket is sealed, so the tickets that
come back as they were are exactly those of contents that fit (`sealContents_roundTrip_iff`).
-/

namespace RustyTls.TicketContents

open Core

/-- A chain, each certificate behind its length. -/
def chainBytes (certificates : List Bytes) : Bytes := certificates.flatMap (prefixed 2)

theorem encode_eq (contents : TicketContents) :
    contents.encode = ticketVersion :: (beBytes 2 contents.suite.code.toNat ++
      (beBytes 4 (contents.issuedAt >>> 32).toUInt64.toUInt32.toNat ++
        (beBytes 4 contents.issuedAt.toUInt64.toUInt32.toNat ++
          (beBytes 4 contents.lifetime.toNat ++ (beBytes 4 contents.ageAdd.toNat ++
            (prefixed 1 contents.identity ++ (prefixed 2 (chainBytes contents.clientCertificates) ++
              prefixed 1 contents.psk))))))) := by
  have hchain : Writer.Appends (Writer.vectorU16 (.each contents.clientCertificates fun certificate =>
      Writer.vectorU16 (.bytes certificate))) (prefixed 2 (chainBytes contents.clientCertificates)) :=
    Writer.vectorU16_appends (Writer.each_appends
      (fun certificate => Writer.vectorU16_appends (Writer.bytes_appends certificate)) _)
  have hidentity := Writer.vectorU8_appends (Writer.bytes_appends contents.identity)
  have hpsk := Writer.vectorU8_appends (Writer.bytes_appends contents.psk)
  simp only [encode, hpsk _, hchain _, hidentity _, Writer.intoVec, Writer.u8, Writer.u16, Writer.u32,
    Writer.new]
  simp

theorem nextCertificate_iff (out : List Bytes) (input : Bytes) (out' : List Bytes) (rest : Bytes) :
    nextCertificate out input = .ok (out', rest) ↔
      ∃ certificate, out' = out ++ [certificate] ∧ input = prefixed 2 certificate ++ rest ∧
        certificate.length < 2 ^ 16 := by
  simp only [nextCertificate, wireTicket, bind_eq_ok, mapErr_eq_ok]
  constructor
  · intro h
    obtain ⟨⟨certificate, r⟩, hread, heq⟩ := h
    obtain ⟨rfl, rfl⟩ : out ++ [certificate] = out' ∧ r.rest = rest := by simpa using heq
    obtain ⟨hinput, hlen⟩ := Reader.vectorU16_iff.mp hread
    exact ⟨certificate, rfl, hinput, hlen⟩
  · intro h
    obtain ⟨certificate, rfl, hinput, hlen⟩ := h
    exact ⟨(certificate, ⟨rest⟩), Reader.vectorU16_iff.mpr ⟨hinput, hlen⟩, rfl⟩

theorem nextCertificate_consuming : Consuming nextCertificate := by
  intro out input out' rest h
  obtain ⟨certificate, -, rfl, -⟩ := (nextCertificate_iff _ _ _ _).mp h
  simp only [List.length_append, prefixed_length]
  omega

/-- The loop over the chain reads back the chain. -/
theorem consume_chainBytes {certificates : List Bytes} (h : (chainBytes certificates).length < 2 ^ 16) :
    consume nextCertificate [] (chainBytes certificates) = .ok certificates := by
  refine (consume_each nextCertificate_consuming nextCertificate_iff).mpr ⟨rfl, ?_⟩
  intro certificate hmem
  obtain ⟨before, after, rfl⟩ := List.append_of_mem hmem
  simp only [chainBytes, List.flatMap_append, List.flatMap_cons, List.length_append,
    prefixed_length] at h
  omega

/-- A chain too long for its length field leaves more behind it than a key can account for. -/
theorem chainBytes_lt_of_read {contents : TicketContents} {chain psk : Bytes} {rest : Bytes}
    (hchain : prefixed 2 (chainBytes contents.clientCertificates) ++ prefixed 1 contents.psk
      = prefixed 2 chain ++ rest) (hchainLen : chain.length < 2 ^ 16) (hpsk : rest = prefixed 1 psk)
    (hpskLen : psk.length < 2 ^ 8) : (chainBytes contents.clientCertificates).length < 2 ^ 16 := by
  have htotal := congrArg List.length hchain
  simp only [prefixed, List.append_assoc] at hchain
  obtain ⟨hlength, -⟩ := List.append_inj hchain (by simp)
  have hmod := congrArg beNat hlength
  rw [beNat_beBytes_mod, beNat_beBytes_mod] at hmod
  simp only [List.length_append, prefixed_length, hpsk] at htotal
  omega

theorem decode_encode_eq (contents : TicketContents) :
    decode contents.encode = some <$> decodeFields ⟨contents.encode.drop 1⟩ := by
  rw [encode_eq, decode, Reader.u8_append]
  rfl

/-- A ticket that decodes yields the server's identity and the client's chain it was sealed
with. -/
theorem decode_encode_inv {contents decoded : TicketContents}
    (hidentity : contents.identity.length < 2 ^ 8)
    (h : decode contents.encode = .ok (some decoded)) :
    decoded.identity = contents.identity ∧
      decoded.clientCertificates = contents.clientCertificates := by
  rw [decode_encode_eq, map_eq_ok] at h
  obtain ⟨decoded', h, heq⟩ := h
  obtain rfl := Option.some.inj heq
  simp only [encode_eq, List.drop_succ_cons, List.drop_zero, decodeFields, wireTicket,
    Reader.u16_append, Reader.u32_append, mapErr_ok, ok_bind, bind_eq_ok, mapErr_eq_ok] at h
  obtain ⟨⟨identity, r⟩, hread, ⟨chain, r₁⟩, hchain, certificates, hloop, ⟨psk, r₂⟩, hpsk, _, hfinish,
    _, -, heq⟩ := h
  obtain ⟨hrest, hlen⟩ := Reader.vectorU8_iff.mp hread
  obtain ⟨hrest₁, hlen₁⟩ := Reader.vectorU16_iff.mp hchain
  obtain ⟨hrest₂, hlen₂⟩ := Reader.vectorU8_iff.mp hpsk
  have hend : r₂.rest = [] := Reader.finish_eq_ok.mp hfinish
  obtain ⟨rfl, hafter⟩ := prefixed_append_inj hidentity hlen hrest
  rw [← hafter] at hrest₁
  rw [hend, List.append_nil] at hrest₂
  have hshort := chainBytes_lt_of_read hrest₁ hlen₁ hrest₂ hlen₂
  obtain ⟨rfl, -⟩ := prefixed_append_inj (by simpa using hshort) (by simpa using hlen₁) hrest₁
  rw [consume_chainBytes hshort] at hloop
  obtain rfl := Except.ok.inj hloop
  obtain rfl := Except.ok.inj heq
  exact ⟨rfl, rfl⟩

/-! ### Contents that fit -/

theorem setWidth_halves (b : BitVec 64) :
    (BitVec.setWidth 64 (BitVec.setWidth 32 (b.sshiftRight 32)) <<< 32) |||
      BitVec.setWidth 64 (BitVec.setWidth 32 b) = b := by
  apply BitVec.eq_of_getLsbD_eq
  intro i hi
  simp only [BitVec.getLsbD_or, BitVec.getLsbD_shiftLeft, BitVec.getLsbD_setWidth,
    BitVec.getLsbD_sshiftRight]
  by_cases hlow : i < 32
  · simp [hlow, hi]
  · have hhigh : i - 32 < 32 := by omega
    have hbit : 32 + (i - 32) = i := by omega
    have hwidth : i - 32 < 64 := by omega
    simp [hlow, hi, hhigh, hbit, hwidth]

/-- A signed time is the sum of its halves, whatever its sign. -/
theorem issuedAt_halves (time : Int64) :
    ((time >>> 32).toUInt64.toUInt32.toUInt64.toInt64 <<< 32) |||
      time.toUInt64.toUInt32.toUInt64.toInt64 = time := by
  apply Int64.toBitVec_inj.mp
  have hshift : (Int64.toBitVec 32).smod 64 = 32#64 := by decide
  simp only [Int64.toBitVec_or, Int64.toBitVec_shiftLeft, UInt64.toBitVec_toInt64,
    UInt32.toBitVec_toUInt64, UInt64.toBitVec_toUInt32, Int64.toBitVec_toUInt64,
    Int64.toBitVec_shiftRight, hshift]
  exact setWidth_halves time.toBitVec

/-- Contents whose fields fit their lengths, with a key. -/
structure Fits (contents : TicketContents) : Prop where
  identity : contents.identity.length < 2 ^ 8
  chain : (chainBytes contents.clientCertificates).length < 2 ^ 16
  psk : contents.psk.length < 2 ^ 8
  psk_ne : contents.psk ≠ []

/-- A ticket whose contents fit gives them back. -/
theorem decode_encode {contents : TicketContents} (hfits : contents.Fits) :
    decode contents.encode = .ok (some contents) := by
  have hidentity : (Reader.mk (prefixed 1 contents.identity ++
      (prefixed 2 (chainBytes contents.clientCertificates) ++ prefixed 1 contents.psk))).vectorU8
      = .ok (contents.identity,
        ⟨prefixed 2 (chainBytes contents.clientCertificates) ++ prefixed 1 contents.psk⟩) :=
    Reader.vectorU8_iff.mpr ⟨rfl, hfits.identity⟩
  have hchain : (Reader.mk (prefixed 2 (chainBytes contents.clientCertificates) ++
      prefixed 1 contents.psk)).vectorU16
      = .ok (chainBytes contents.clientCertificates, ⟨prefixed 1 contents.psk⟩) :=
    Reader.vectorU16_iff.mpr ⟨rfl, hfits.chain⟩
  have hpsk : (Reader.mk (prefixed 1 contents.psk)).vectorU8 = .ok (contents.psk, ⟨[]⟩) :=
    Reader.vectorU8_iff.mpr ⟨(List.append_nil _).symm, hfits.psk⟩
  have hfields : decodeFields ⟨contents.encode.drop 1⟩ = .ok contents := by
    simp only [encode_eq, List.drop_succ_cons, List.drop_zero, decodeFields, wireTicket,
      Reader.u16_append, Reader.u32_append, mapErr_ok, ok_bind, hidentity, hchain,
      consume_chainBytes hfits.chain, hpsk, Reader.finish_nil, refuse_neg _ hfits.psk_ne,
      issuedAt_halves]
  rw [decode_encode_eq, hfields]
  rfl

/-- Only contents that fit are ever decoded. -/
theorem fits_of_decode {plaintext : Bytes} {contents : TicketContents}
    (h : decode plaintext = .ok (some contents)) : contents.Fits := by
  simp only [decode, bind_eq_ok] at h
  obtain ⟨⟨version, reader⟩, -, h⟩ := h
  split at h
  · simp at h
  · obtain ⟨fields, hfields, heq⟩ := map_eq_ok.mp h
    obtain rfl := Option.some.inj heq
    simp only [decodeFields, wireTicket, bind_eq_ok, mapErr_eq_ok, refuse_eq_ok] at hfields
    obtain ⟨_, -, _, -, _, -, _, -, _, -, ⟨identity, r₁⟩, hidentity, ⟨chain, r₂⟩, hchain,
      certificates, hloop, ⟨psk, r₃⟩, hpsk, _, -, _, hne, heq⟩ := hfields
    obtain rfl := Except.ok.inj heq
    obtain ⟨hbytes, -⟩ := (consume_each nextCertificate_consuming nextCertificate_iff).mp hloop
    obtain ⟨-, hchainLen⟩ := Reader.vectorU16_iff.mp hchain
    refine ⟨(Reader.vectorU8_iff.mp hidentity).2, ?_, (Reader.vectorU8_iff.mp hpsk).2, hne⟩
    simp only at hbytes hchainLen ⊢
    rw [chainBytes, ← hbytes]
    exact hchainLen

/-! ### Opening -/

/-- A ticket opens to what its plaintext decodes to. -/
theorem openContents_eq_ok {ring : Ring} {ticket : Bytes} {keys : TicketKeys}
    {contents : TicketContents} :
    openContents ring ticket keys = some (.ok contents) ↔
      ∃ plaintext, keys.openTicket ring ticket = some plaintext ∧
        decode plaintext = .ok (some contents) := by
  rw [← Option.map_eq_some_iff]
  unfold openContents
  split
  · next decoded hdecode => simp [hdecode]
  · next hdecode => simp [hdecode]
  · next hdecode => simp [hdecode]
  · next err hdecode => simp [hdecode]

/-- The chain in a ticket that opens fits its length field. -/
theorem openContents_chain {ring : Ring} {ticket : Bytes} {keys : TicketKeys}
    {contents : TicketContents} (h : openContents ring ticket keys = some (.ok contents)) :
    (chainBytes contents.clientCertificates).length < 2 ^ 16 := by
  obtain ⟨plaintext, -, hdecode⟩ := openContents_eq_ok.mp h
  exact (fits_of_decode hdecode).chain

/-- A key opens what it sealed. -/
theorem openTicket_sealTicket {ring : Ring} (lawful : ring.Lawful) {key : TicketKey}
    {drawn : Option Bytes} (hdrawn : ∀ nonce, drawn = some nonce → nonce.length = nonceLen)
    {plaintext ticket : Bytes} (h : key.sealTicket ring drawn plaintext = .ok ticket) :
    key.openTicket ring ticket = .ok plaintext := by
  simp only [TicketKey.sealTicket, bind_eq_ok, okOr_eq_ok] at h
  obtain ⟨nonce, hnonce, out, hseal, heq⟩ := h
  obtain rfl := Except.ok.inj heq
  have hlen := hdrawn nonce hnonce
  rw [TicketKey.openTicket, refuse_neg _ (by simp [hlen]), ok_bind, ← hlen, List.take_left,
    List.drop_left, lawful.open_seal _ _ _ _ _ _ hseal, okOr_some]

/-- The only key of a set that opens a ticket decides what it says. -/
theorem openTicket_of_only {ring : Ring} {keys : TicketKeys} {key : TicketKey}
    {ticket plaintext : Bytes} (hmem : key ∈ keys.current :: keys.previous)
    (hopen : key.openTicket ring ticket = .ok plaintext)
    (honly : ∀ other ∈ keys.current :: keys.previous, other ≠ key →
      (other.openTicket ring ticket).toOption = none) :
    keys.openTicket ring ticket = some plaintext := by
  cases hfound : keys.openTicket ring ticket with
  | none =>
      have hnone := List.findSome?_eq_none_iff.mp hfound key hmem
      rw [hopen] at hnone
      cases hnone
  | some found =>
      obtain ⟨before, other, after, hkeys, hother, -⟩ := List.findSome?_eq_some_iff.mp hfound
      have hin : other ∈ keys.current :: keys.previous := by rw [hkeys]; simp
      by_cases hsame : other = key
      · rw [hsame, hopen] at hother
        exact hother.symm
      · rw [honly other hin hsame] at hother
        cases hother

/-- The lengths of the contents fit the octets they are written in. -/
structure Representable (contents : TicketContents) : Prop where
  identity : contents.identity.length < 2 ^ 8
  chain : (chainBytes contents.clientCertificates).length < 2 ^ 16
  psk : contents.psk.length < 2 ^ 8

/-- A ticket that was sealed opens to its contents, under every set of keys in which only its own
opens it, exactly when their lengths fit: `seal` does not check them. -/
theorem sealContents_roundTrip_iff {ring : Ring} (lawful : ring.Lawful) {contents : TicketContents}
    (hpsk : contents.psk ≠ []) {key : TicketKey} {drawn : Option Bytes}
    (hdrawn : ∀ nonce, drawn = some nonce → nonce.length = nonceLen) {ticket : Bytes}
    (h : contents.sealContents ring key drawn = .ok ticket) :
    (∀ keys : TicketKeys, key ∈ keys.current :: keys.previous →
      (∀ other ∈ keys.current :: keys.previous, other ≠ key →
        (other.openTicket ring ticket).toOption = none) →
      openContents ring ticket keys = some (.ok contents)) ↔ contents.Representable := by
  have hopen := openTicket_sealTicket lawful hdrawn h
  constructor
  · intro hround
    have hself := hround ⟨key, []⟩ (by simp) (by simp +contextual)
    obtain ⟨plaintext, -, hdecode⟩ := openContents_eq_ok.mp hself
    have hfits := fits_of_decode hdecode
    exact ⟨hfits.identity, hfits.chain, hfits.psk⟩
  · intro h
    obtain ⟨hidentity, hchain, hpskLen⟩ := h
    intro keys hmem honly
    exact openContents_eq_ok.mpr ⟨contents.encode, openTicket_of_only hmem hopen honly,
      decode_encode ⟨hidentity, hchain, hpskLen, hpsk⟩⟩

/-- A sample, with a client that presented this chain. -/
def sample (chain : List Bytes) : TicketContents :=
  ⟨⟨0x1301⟩, -1, 7200, 5, [1, 2, 3], chain, [9]⟩

/-- The key of the samples. -/
def sampleKey : TicketKey := ⟨List.replicate 32 4, rfl⟩

/-- The ticket for that chain. -/
def sampleSealed (chain : List Bytes) : Except TicketError Bytes :=
  (sample chain).sealContents .sample sampleKey (some (List.replicate 12 6))

theorem sampleSealed_drawn :
    ∀ nonce, some (List.replicate 12 (6 : UInt8)) = some nonce → nonce.length = nonceLen := by
  simp [nonceLen]

/-- A ticket of before 1970 for two certificates, opened among two keys. -/
theorem sealContents_roundTrip_iff_negative :
    ∃ ticket, sampleSealed [[7, 8], []] = .ok ticket ∧
      openContents .sample ticket ⟨⟨List.replicate 32 5, rfl⟩, [sampleKey]⟩
        = some (.ok (sample [[7, 8], []])) := by
  obtain ⟨ticket, hticket⟩ : ∃ ticket, sampleSealed [[7, 8], []] = .ok ticket := ⟨_, rfl⟩
  have hround := (sealContents_roundTrip_iff Ring.sample_lawful (by decide) sampleSealed_drawn
    hticket).mpr ⟨by decide, by decide, by decide⟩
  refine ⟨ticket, hticket, hround _ (by simp) ?_⟩
  obtain rfl := Except.ok.inj hticket
  decide +kernel

/-- A ticket for a chain that does not fit is refused when it comes back. -/
theorem openContents_overlong {ring : Ring} (lawful : ring.Lawful) {contents : TicketContents}
    (hidentity : contents.identity.length < 2 ^ 8)
    (hlong : ¬ (chainBytes contents.clientCertificates).length < 2 ^ 16) {key : TicketKey}
    {drawn : Option Bytes} (hdrawn : ∀ nonce, drawn = some nonce → nonce.length = nonceLen)
    {ticket : Bytes} (h : contents.sealContents ring key drawn = .ok ticket) :
    ∃ err, openContents ring ticket ⟨key, []⟩ = some (.error err) := by
  have hopen : (TicketKeys.mk key []).openTicket ring ticket = some contents.encode :=
    openTicket_of_only (by simp) (openTicket_sealTicket lawful hdrawn h) (by simp +contextual)
  rw [openContents, hopen, Option.map_some, decode_encode_eq]
  cases hfields : decodeFields ⟨contents.encode.drop 1⟩ with
  | error err => exact ⟨err, rfl⟩
  | ok decoded =>
      have hdecode : decode contents.encode = .ok (some decoded) := by
        rw [decode_encode_eq, hfields]
        rfl
      have hchain := (fits_of_decode hdecode).chain
      rw [(decode_encode_inv hidentity hdecode).2] at hchain
      exact absurd hchain hlong

/-- A client certificate of 65534 octets and the two octets of its length are one octet too many:
the ticket is made, and is an error when it comes back. -/
theorem sealContents_overlong_certificate :
    ∃ ticket err, sampleSealed [List.replicate 65534 0] = .ok ticket ∧
      openContents .sample ticket ⟨sampleKey, []⟩ = some (.error err) := by
  -- the certificate is known by its length alone, so that nothing computes with its octets
  have hgeneral : ∀ certificate : Bytes, certificate.length = 65534 →
      ∃ ticket err, sampleSealed [certificate] = .ok ticket ∧
        openContents .sample ticket ⟨sampleKey, []⟩ = some (.error err) := by
    intro certificate hlen
    obtain ⟨ticket, hticket⟩ : ∃ ticket, sampleSealed [certificate] = .ok ticket := ⟨_, rfl⟩
    obtain ⟨err, herr⟩ := openContents_overlong Ring.sample_lawful (by simp [sample])
      (by simp [sample, chainBytes, prefixed_length, hlen]) sampleSealed_drawn hticket
    exact ⟨ticket, err, hticket, herr⟩
  exact hgeneral _ List.length_replicate

end RustyTls.TicketContents
