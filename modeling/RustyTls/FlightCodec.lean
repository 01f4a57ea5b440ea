import RustyTls.HandshakeCodec

/-!
# RustyTls.FlightCodec

The codecs of the encrypted flights, and the two-phase encoding of a hello that offers a
pre-shared key.

`BinderHello.new_finish` is the second: filling the binders into a placeheld hello gives the
encoding of the hello that carries them, and what the binders are computed over is everything
before them. The receiving side cuts its copy at the same place
(`PresharedKeyOffer.truncated_append`).
-/

namespace RustyTls

open Core

/-! ### Certificate -/

namespace CertificateMessage

/-- The octets of a list of entries. -/
def entryBytes (entries : List CertificateEntry) : Bytes :=
  entries.flatMap fun entry => prefixed 3 entry.certificate ++ prefixed 2 entry.extensions

theorem nextEntry_iff (out : List CertificateEntry) (input : Bytes) (out' : List CertificateEntry)
    (rest : Bytes) :
    nextEntry out input = .ok (out', rest) ↔
      ∃ entry, out' = out ++ [entry] ∧
        input = (prefixed 3 entry.certificate ++ prefixed 2 entry.extensions) ++ rest ∧
        entry.certificate.length < 2 ^ 24 ∧ entry.extensions.length < 2 ^ 16 := by
  simp only [nextEntry, wire, bind_eq_ok, mapErr_eq_ok]
  constructor
  · intro h
    obtain ⟨⟨certificate, r⟩, hcertificate, ⟨extensions, r'⟩, hextensions, heq⟩ := h
    obtain ⟨rfl, rfl⟩ : out ++ [⟨certificate, extensions⟩] = out' ∧ r'.rest = rest := by
      simpa using heq
    obtain ⟨hinput, hlen⟩ := Reader.vectorU24_iff.mp hcertificate
    obtain ⟨hrest, hlen'⟩ := Reader.vectorU16_iff.mp hextensions
    refine ⟨⟨certificate, extensions⟩, rfl, ?_, hlen, hlen'⟩
    rw [List.append_assoc, ← hrest]
    exact hinput
  · intro h
    obtain ⟨⟨certificate, extensions⟩, rfl, rfl, hlen, hlen'⟩ := h
    exact ⟨(certificate, ⟨prefixed 2 extensions ++ rest⟩),
      Reader.vectorU24_iff.mpr ⟨by simp, hlen⟩, (extensions, ⟨rest⟩),
      Reader.vectorU16_iff.mpr ⟨rfl, hlen'⟩, rfl⟩

theorem nextEntry_consuming : Consuming nextEntry := by
  intro out input out' rest h
  obtain ⟨entry, -, rfl, -⟩ := (nextEntry_iff _ _ _ _).mp h
  simp only [List.length_append, prefixed_length]
  omega

/-- A message whose fields fit their lengths. -/
structure Fits (message : CertificateMessage) : Prop where
  context : message.context.length < 2 ^ 8
  entries : (entryBytes message.entries).length < 2 ^ 24
  entry : ∀ entry ∈ message.entries, entry.extensions.length < 2 ^ 16

theorem encode_eq (message : CertificateMessage) :
    message.encode = prefixed 1 message.context ++ prefixed 3 (entryBytes message.entries) := by
  have hentries : Writer.Appends (Writer.vectorU24 (.each message.entries fun entry w =>
      (w.vectorU24 (.bytes entry.certificate)).vectorU16 (.bytes entry.extensions)))
      (prefixed 3 (entryBytes message.entries)) := by
    refine Writer.vectorU24_appends (Writer.each_appends ?_ _)
    intro entry
    exact Writer.comp_appends (Writer.vectorU24_appends (Writer.bytes_appends entry.certificate))
      (Writer.vectorU16_appends (Writer.bytes_appends entry.extensions))
  have hcontext := Writer.vectorU8_appends (Writer.bytes_appends message.context)
  simp only [encode, hentries _, hcontext _, Writer.intoVec, Writer.new, List.nil_append]

/-- A Certificate parses exactly when it is the encoding of one. -/
theorem parse_iff {body : Bytes} {message : CertificateMessage} :
    parse body = .ok message ↔ body = message.encode ∧ message.Fits := by
  simp only [parse, wire, bind_eq_ok, mapErr_eq_ok]
  constructor
  · intro h
    obtain ⟨⟨context, r₁⟩, hcontext, ⟨list, r₂⟩, hlist, entries, hentries, _, hfinish, heq⟩ := h
    obtain rfl := Except.ok.inj heq
    obtain ⟨hbody, hcontextLen⟩ := Reader.vectorU8_iff.mp hcontext
    obtain ⟨hrest, hlistLen⟩ := Reader.vectorU24_iff.mp hlist
    obtain ⟨rfl, hentry⟩ := (consume_each nextEntry_consuming nextEntry_iff).mp hentries
    have hend : r₂.rest = [] := Reader.finish_eq_ok.mp hfinish
    refine ⟨?_, hcontextLen, hlistLen, fun entry hmem => (hentry entry hmem).2⟩
    simp only at hbody hrest
    rw [hbody, hrest, hend, encode_eq]
    simp [entryBytes]
  · intro h
    obtain ⟨rfl, hfits⟩ := h
    have hentry : ∀ entry ∈ message.entries,
        entry.certificate.length < 2 ^ 24 ∧ entry.extensions.length < 2 ^ 16 := by
      intro entry hmem
      refine ⟨?_, hfits.entry entry hmem⟩
      have hlen := hfits.entries
      obtain ⟨before, after, hsplit⟩ := List.append_of_mem hmem
      simp only [hsplit, entryBytes, List.flatMap_append, List.flatMap_cons, List.length_append,
        prefixed_length] at hlen
      omega
    exact ⟨(message.context, ⟨prefixed 3 (entryBytes message.entries)⟩),
      Reader.vectorU8_iff.mpr ⟨encode_eq message, hfits.context⟩,
      (entryBytes message.entries, ⟨[]⟩),
      Reader.vectorU24_iff.mpr ⟨(List.append_nil _).symm, hfits.entries⟩, message.entries,
      (consume_each nextEntry_consuming nextEntry_iff).mpr ⟨rfl, hentry⟩, (),
      Reader.finish_eq_ok.mpr rfl, rfl⟩

theorem parse_encode {message : CertificateMessage} (hfits : message.Fits) :
    parse message.encode = .ok message := parse_iff.mpr ⟨rfl, hfits⟩

/-- What a side sends for a chain: every certificate without extensions of its own. -/
def ofChain (context : Bytes) (chain : List Bytes) : CertificateMessage where
  context := context
  entries := chain.map fun certificate => ⟨certificate, []⟩

theorem ofChain_fits {context : Bytes} {chain : List Bytes} (hcontext : context.length < 2 ^ 8)
    (hlen : (entryBytes (ofChain context chain).entries).length < 2 ^ 24) :
    (ofChain context chain).Fits where
  context := hcontext
  entries := hlen
  entry := by
    intro entry hmem
    obtain ⟨certificate, -, rfl⟩ := List.mem_map.mp hmem
    exact Nat.pow_pos (by decide)

end CertificateMessage

/-! ### CertificateVerify -/

namespace CertificateVerify

theorem encode_eq (verify : CertificateVerify) :
    verify.encode = beBytes 2 verify.scheme.toNat ++ prefixed 2 verify.signature := by
  have hsignature := Writer.vectorU16_appends (Writer.bytes_appends verify.signature)
  simp only [encode, hsignature _, Writer.u16, Writer.intoVec, Writer.new, List.nil_append]

/-- A CertificateVerify parses exactly when it is the encoding of one with a signature in it. -/
theorem parse_iff {body : Bytes} {verify : CertificateVerify} :
    parse body = .ok verify ↔
      body = verify.encode ∧ verify.signature ≠ [] ∧ verify.signature.length < 2 ^ 16 := by
  simp only [parse, wire, bind_eq_ok, mapErr_eq_ok, refuse_eq_ok]
  constructor
  · intro h
    obtain ⟨⟨scheme, r₁⟩, hscheme, ⟨signature, r₂⟩, hsignature, _, hfinish, _, hne, heq⟩ := h
    obtain rfl := Except.ok.inj heq
    obtain ⟨hrest, hlen⟩ := Reader.vectorU16_iff.mp hsignature
    have hbody := Reader.u16_iff.mp hscheme
    have hend : r₂.rest = [] := Reader.finish_eq_ok.mp hfinish
    refine ⟨?_, hne, hlen⟩
    simp only at hbody hrest
    rw [hbody, hrest, hend, List.append_nil, encode_eq]
  · intro h
    obtain ⟨rfl, hne, hlen⟩ := h
    exact ⟨(verify.scheme, ⟨prefixed 2 verify.signature⟩),
      Reader.u16_iff.mpr (encode_eq verify), (verify.signature, ⟨[]⟩),
      Reader.vectorU16_iff.mpr ⟨(List.append_nil _).symm, hlen⟩, (), Reader.finish_eq_ok.mpr rfl,
      (), hne, rfl⟩

theorem parse_encode {verify : CertificateVerify} (hne : verify.signature ≠ [])
    (hlen : verify.signature.length < 2 ^ 16) : parse verify.encode = .ok verify :=
  parse_iff.mpr ⟨rfl, hne, hlen⟩

end CertificateVerify

/-! ### Hellos that offer a pre-shared key -/

theorem preSharedKeyPlaceholder_eq (identities : List PskIdentity) (lens : List Nat) :
    preSharedKeyPlaceholder identities lens
      = identityBytes identities ++ binderBytes (lens.map (List.replicate · 0)) := by
  have hidentities : Writer.Appends (Writer.vectorU16 (.each identities fun identity w =>
      (w.vectorU16 (.bytes identity.identity)).u32 identity.obfuscatedTicketAge))
      (identityBytes identities) := by
    refine Writer.vectorU16_appends (Writer.each_appends ?_ _)
    intro identity
    exact Writer.comp_appends (Writer.vectorU16_appends (Writer.bytes_appends identity.identity))
      (Writer.u32_appends identity.obfuscatedTicketAge)
  simp only [preSharedKeyPlaceholder, hidentities _, writeBinders_appends _ _, Writer.intoVec,
    Writer.new, List.nil_append]

/-- Up to the last octets of its last extension, a hello depends on them only by their number. -/
theorem encode_clientHello_split (hello : ClientHello) (typ : UInt16) (front : Bytes) (n : Nat) :
    ∃ before, ∀ tail : Bytes, tail.length = n →
      Message.encode .clientHello (ClientHello.encode
        { hello with extensions := hello.extensions ++ [⟨typ, front ++ tail⟩] })
        = before ++ tail := by
  -- Everything before the tail, with the lengths that a tail of `n` octets gives.
  let extensions := extensionBytes hello.extensions ++
    (beBytes 2 typ.toNat ++ (beBytes 2 (front.length + n) ++ front))
  let body := beBytes 2 legacyVersion.toNat ++ (hello.random ++ (prefixed 1 hello.sessionId ++
    (prefixed 2 (u16Bytes hello.cipherSuites) ++ (prefixed 1 [0] ++
      (beBytes 2 (extensions.length + n) ++ extensions)))))
  refine ⟨HandshakeType.clientHello.asU8 :: (beBytes 3 (body.length + n) ++ body), ?_⟩
  intro tail htail
  have hextensions : extensionBytes (hello.extensions ++ [⟨typ, front ++ tail⟩])
      = extensions ++ tail := by
    simp [extensions, extensionBytes, prefixed, htail]
  have hbody : ClientHello.encode
      { hello with extensions := hello.extensions ++ [⟨typ, front ++ tail⟩] } = body ++ tail := by
    rw [ClientHello.encode_eq]
    simp only [hextensions, body, prefixed, List.length_append, htail, List.append_assoc]
  rw [hbody, Message.encode_eq, prefixed, List.length_append, htail]
  simp

namespace BinderHello

/-- Writing binders over placeholders of their lengths. -/
theorem splice_eq : ∀ (binders : List Bytes) (front : Bytes),
    splice (front ++ ((binders.map (·.length)).map (List.replicate · 0)).flatMap (prefixed 1))
      front.length binders = front ++ binders.flatMap (prefixed 1) := by
  intro binders
  induction binders with
  | nil => simp [splice]
  | cons binder binders ih =>
      intro front
      -- The first binder lands behind its length octet; the rest follow in its place.
      let rest := ((binders.map (·.length)).map (List.replicate · (0 : UInt8))).flatMap (prefixed 1)
      have hshape : front ++ (((binder :: binders).map (·.length)).map
          (List.replicate · (0 : UInt8))).flatMap (prefixed 1)
          = (front ++ beBytes 1 binder.length) ++ (List.replicate binder.length 0 ++ rest) := by
        simp [prefixed, rest]
      have hlen : (front ++ beBytes 1 binder.length).length = front.length + 1 := by simp
      have hover : Writer.overwrite ((front ++ beBytes 1 binder.length) ++
          (List.replicate binder.length 0 ++ rest)) (front.length + 1) binder
          = (front ++ prefixed 1 binder) ++ rest := by
        rw [Writer.overwrite, ← hlen, List.take_left, List.drop_append]
        simp [prefixed]
      have hnext : front.length + 1 + binder.length = (front ++ prefixed 1 binder).length := by
        simp
        omega
      rw [splice, hshape, hover, hnext, ih]
      simp

/-- The two-phase encoding: a placeheld hello is cut right before its binders, and filling them
in gives the encoding of the hello that carries them. -/
theorem new_finish {hello : ClientHello} {base : List Extension} {identities : List PskIdentity}
    {lens : List Nat} (hne : lens ≠ [])
    (hlast : hello.extensions
      = base ++ [⟨ExtensionType.preSharedKey, preSharedKeyPlaceholder identities lens⟩]) :
    ∃ placeheld, new hello lens = .ok placeheld ∧ ∀ binders : List Bytes,
      binders.map (·.length) = lens →
        placeheld.finish binders = .ok (Message.encode .clientHello (ClientHello.encode
          { hello with extensions := base ++
            [⟨ExtensionType.preSharedKey, identityBytes identities ++ binderBytes binders⟩] })) ∧
        Message.encode .clientHello (ClientHello.encode
          { hello with extensions := base ++
            [⟨ExtensionType.preSharedKey, identityBytes identities ++ binderBytes binders⟩] })
          = placeheld.truncated ++ binderBytes binders := by
  obtain ⟨before, hbefore⟩ := encode_clientHello_split { hello with extensions := base }
    ExtensionType.preSharedKey (identityBytes identities) (binderBlockLen lens)
  let zeros := lens.map (List.replicate · (0 : UInt8))
  have hzeros : (binderBytes zeros).length = binderBlockLen lens := by
    rw [binderBytes_length]
    simp [zeros, Function.comp_def]
  have hencoded : Message.encode .clientHello hello.encode = before ++ binderBytes zeros := by
    have hhello : hello = { hello with extensions := base ++
        [⟨ExtensionType.preSharedKey, identityBytes identities ++ binderBytes zeros⟩] } := by
      rw [← preSharedKeyPlaceholder_eq, ← hlast]
    rw [hhello]
    exact hbefore _ hzeros
  have hlength : (before ++ binderBytes zeros).length - binderBlockLen lens = before.length := by
    rw [List.length_append, hzeros, Nat.add_sub_cancel]
  refine ⟨⟨before ++ binderBytes zeros, before.length, lens⟩, ?_, ?_⟩
  · have hlastType : hello.extensions.getLast?.map (·.typ) = some ExtensionType.preSharedKey := by
      simp [hlast]
    rw [new, refuse_neg _ hne, ok_bind, refuse_neg _ (not_not.mpr hlastType), ok_bind, hencoded]
    simp only [hlength, List.drop_left, writeBinders_new]
    rw [refuse_neg _ (by rw [List.length_append, hzeros]; omega), ok_bind,
      refuse_neg _ (not_not.mpr rfl), ok_bind]
  · intro binders hlens
    have hblock : (binderBytes binders).length = binderBlockLen lens := by
      rw [binderBytes_length, hlens]
    have hfinal := hbefore (binderBytes binders) hblock
    have htotal : (zeros.flatMap (prefixed 1)).length = (binders.flatMap (prefixed 1)).length := by
      have := hzeros.trans hblock.symm
      simpa [binderBytes] using this
    have hfilled : splice (before ++ binderBytes zeros) (before.length + 2) binders
        = before ++ binderBytes binders := by
      have hfront : before ++ binderBytes zeros
          = (before ++ beBytes 2 (binders.flatMap (prefixed 1)).length) ++
            ((binders.map (·.length)).map (List.replicate · 0)).flatMap (prefixed 1) := by
        rw [hlens, binderBytes, prefixed, htotal]
        simp [zeros]
      have hstart : before.length + 2
          = (before ++ beBytes 2 (binders.flatMap (prefixed 1)).length).length := by simp
      rw [hfront, hstart, splice_eq]
      simp [binderBytes, prefixed]
    have htruncated : (BinderHello.mk (before ++ binderBytes zeros) before.length lens).truncated
        = before := List.take_left ..
    rw [finish, refuse_neg _ (not_not.mpr hlens), ok_bind, htruncated, hfilled]
    exact ⟨congrArg Except.ok hfinal.symm, hfinal⟩

end BinderHello

end RustyTls
