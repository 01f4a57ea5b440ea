import RustyTls.DerCanonical
import RustyTls.X509

/-!
# RustyTls.X509Canonical

A certificate has no octets outside what is signed.

The proof follows `Certificate.parse` field by field. Each of its readers moves the cursor
over one whole element (`readAlgorithmIdentifier_spans` and the lemmas after it), so a
certificate that is accepted *is* the encoding of its three parts, and its `tbsCertificate`
the encoding of its fields in order (`parse_layout`). The outer algorithm is a copy of the
signed one, which leaves the signature as the only freedom.
-/

namespace RustyTls

open Core Der

/-! ### Reads that end the parse when they fail -/

section
variable {α : Type} {r r' : Der.Reader} {tag : Tag}

theorem on_eq_ok {read : Read α} {a : α} : on r read = .ok (a, r') ↔ read r = .ok a r' := by
  unfold on
  cases read r with
  | ok b r₁ => simp
  | error e r₁ => simp

theorem onX_eq_ok {read : Read α} {a : α} : onX r read = .ok (a, r') ↔ read r = .ok a r' := by
  rw [onX, mapErr_eq_ok, on_eq_ok]

theorem finishX_eq_ok {u : Unit} : finishX r = .ok u ↔ r.isEmpty = true := by
  simp [finishX, Der.Reader.finish]

theorem read_spans {value : Value} (h : onX r (read tag) = .ok (value, r')) :
    value.encoded = encodeTlv tag value.contents ∧ Spans r value.encoded r' ∧ r'.pos < 2 ^ 64 := by
  obtain ⟨hany, rfl⟩ := read_iff.mp (onX_eq_ok.mp h)
  obtain ⟨-, henc, hspan, hword⟩ := readAny_iff.mp hany
  exact ⟨henc, hspan, hword⟩

theorem readSequence_spans {inner : Der.Reader} (h : onX r readSequence = .ok (inner, r')) :
    ∃ contents, inner = Der.Reader.new contents ∧ Spans r (encodeTlv .sequence contents) r' ∧
      r'.pos < 2 ^ 64 := by
  obtain ⟨value, r₁, hread, hpure⟩ := Read.bind_eq_ok.mp (onX_eq_ok.mp h)
  obtain ⟨rfl, rfl⟩ := Read.pure_eq_ok.mp hpure
  obtain ⟨henc, hspan, hword⟩ := read_spans (onX_eq_ok.mpr hread)
  exact ⟨value.contents, rfl, henc ▸ hspan, hword⟩

/-- The octets of an optional field. -/
def optionalField (value : Option Value) : List Bytes := (value.map (·.encoded)).toList

theorem optionalField_elements {value : Option Value}
    (h : ∀ v ∈ value, v.encoded = encodeTlv tag v.contents) :
    ∀ field ∈ optionalField value, Element field := by
  intro field hfield
  simp only [optionalField, Option.mem_toList, Option.map_eq_some_iff] at hfield
  obtain ⟨v, hv, rfl⟩ := hfield
  exact ⟨tag, v.contents, h v hv⟩

/-- An optional field is one element or none. -/
theorem readOptional_spans {value : Option Value} (h : onX r (readOptional tag) = .ok (value, r'))
    (hinside : r.pos ≤ r.input.length) :
    (∀ v ∈ value, v.encoded = encodeTlv tag v.contents) ∧
      Spans r (optionalField value).flatten r' := by
  rcases readOptional_inv (on_eq_ok.mpr (onX_eq_ok.mp h)) with ⟨rfl, rfl⟩ | ⟨v, rfl, hany, rfl⟩
  · exact ⟨by simp, ⟨rfl, rfl, rfl, hinside⟩⟩
  · obtain ⟨-, henc, hspan, -⟩ := readAny_iff.mp (on_eq_ok.mp hany)
    exact ⟨by simpa using henc, by simpa [optionalField] using hspan⟩

theorem readAlgorithmIdentifier_spans {algorithm : AlgorithmIdentifier}
    (h : readAlgorithmIdentifier r = .ok (algorithm, r')) :
    Element algorithm.encoded ∧ Spans r algorithm.encoded r' := by
  obtain ⟨⟨value, r₁⟩, hread, h⟩ := bind_eq_ok.mp h
  obtain ⟨⟨oid, inner⟩, -, h⟩ := bind_eq_ok.mp h
  obtain ⟨⟨parameters, inner'⟩, -, h⟩ := bind_eq_ok.mp h
  obtain ⟨-, -, h⟩ := bind_eq_ok.mp h
  obtain ⟨rfl, rfl⟩ := Prod.mk.inj (Except.ok.inj h)
  obtain ⟨henc, hspan, -⟩ := read_spans hread
  exact ⟨⟨.sequence, value.contents, henc⟩, hspan⟩

theorem readSpki_spans {spki : SubjectPublicKeyInfo} (h : readSpki r = .ok (spki, r')) :
    Element spki.encoded ∧ Spans r spki.encoded r' := by
  obtain ⟨⟨value, r₁⟩, hread, h⟩ := bind_eq_ok.mp h
  obtain ⟨⟨algorithm, inner⟩, -, h⟩ := bind_eq_ok.mp h
  obtain ⟨⟨key, inner'⟩, -, h⟩ := bind_eq_ok.mp h
  obtain ⟨-, -, h⟩ := bind_eq_ok.mp h
  obtain ⟨rfl, rfl⟩ := Prod.mk.inj (Except.ok.inj h)
  obtain ⟨henc, hspan, -⟩ := read_spans hread
  exact ⟨⟨.sequence, value.contents, henc⟩, hspan⟩

theorem readValidity_spans {validity : Validity} (h : readValidity r = .ok (validity, r')) :
    ∃ field, Element field ∧ Spans r field r' := by
  obtain ⟨⟨inner, r₁⟩, hread, h⟩ := bind_eq_ok.mp h
  obtain ⟨⟨notBefore, inner'⟩, -, h⟩ := bind_eq_ok.mp h
  obtain ⟨⟨notAfter, inner''⟩, -, h⟩ := bind_eq_ok.mp h
  obtain ⟨-, -, h⟩ := bind_eq_ok.mp h
  obtain ⟨-, rfl⟩ := Prod.mk.inj (Except.ok.inj h)
  obtain ⟨contents, -, hspan, -⟩ := readSequence_spans hread
  exact ⟨_, ⟨.sequence, contents, rfl⟩, hspan⟩
end

/-! ### The parts of a certificate -/

namespace Certificate

/-- The algorithm inside a `tbsCertificate`: what `parse` reads before it gets to the issuer. -/
def tbsAlgorithm (contents : Bytes) : Except X509Error AlgorithmIdentifier := do
  let (_, tbs) ← onX (Der.Reader.new contents) (readOptional (.context 0 true))
  let (_, tbs) ← onX tbs readUnsignedInteger
  let (algorithm, _) ← readAlgorithmIdentifier tbs
  .ok algorithm

/-- The octets of an accepted certificate, and of the fields inside what it signs. -/
structure Layout (der : Bytes) (certificate : Certificate) (contents : Bytes) : Prop where
  whole : der = encodeTlv .sequence (certificate.tbsDer ++
    certificate.signatureAlgorithm.encoded ++ encodeTlv .bitString (0 :: certificate.signature))
  signed : certificate.tbsDer = encodeTlv .sequence contents
  short : certificate.tbsDer.length < 2 ^ 64
  algorithm : tbsAlgorithm contents = .ok certificate.signatureAlgorithm
  fields : ∃ (front : List Bytes) (validity : Bytes) (back : List Bytes),
    contents = (front ++ [certificate.issuer, validity, certificate.subject,
      certificate.subjectPublicKeyInfo.encoded] ++ back).flatten ∧
    ∀ field ∈ front ++ [certificate.issuer, validity, certificate.subject,
      certificate.subjectPublicKeyInfo.encoded] ++ back, Element field

/-- The extensions are what the last field of the signed part was read as. -/
def ExtensionsLast (certificate : Certificate) (contents : Bytes) : Prop :=
  ∃ (front : List Bytes) (wrapper : Option Value),
    contents = (front ++ optionalField wrapper).flatten ∧
    (∀ field ∈ front, Element field) ∧
    (∀ value ∈ wrapper, value.encoded = encodeTlv (.context 3 true) value.contents) ∧
    parseExtensions certificate.version wrapper = .ok certificate.extensions

theorem parse_layout {der : Bytes} {certificate : Certificate} (h : parse der = .ok certificate) :
    ∃ contents, Layout der certificate contents ∧ der.length < 2 ^ 64 ∧
      ExtensionsLast certificate contents := by
  obtain ⟨⟨inner, outer⟩, houter, h⟩ := bind_eq_ok.mp h
  obtain ⟨_, hfinish, h⟩ := bind_eq_ok.mp h
  obtain ⟨⟨tbsValue, rest⟩, htbs, h⟩ := bind_eq_ok.mp h
  obtain ⟨⟨wrapper, t₁⟩, hversion, h⟩ := bind_eq_ok.mp h
  obtain ⟨version, -, h⟩ := bind_eq_ok.mp h
  obtain ⟨⟨serial, t₂⟩, hserial, h⟩ := bind_eq_ok.mp h
  obtain ⟨⟨algorithm, t₃⟩, halgorithm, h⟩ := bind_eq_ok.mp h
  obtain ⟨⟨issuer, t₄⟩, hissuer, h⟩ := bind_eq_ok.mp h
  obtain ⟨⟨validity, t₅⟩, hvalidity, h⟩ := bind_eq_ok.mp h
  obtain ⟨⟨subject, t₆⟩, hsubject, h⟩ := bind_eq_ok.mp h
  obtain ⟨⟨spki, t₇⟩, hspki, h⟩ := bind_eq_ok.mp h
  obtain ⟨⟨issuerId, t₈⟩, hissuerId, h⟩ := bind_eq_ok.mp h
  obtain ⟨⟨subjectId, t₉⟩, hsubjectId, h⟩ := bind_eq_ok.mp h
  obtain ⟨-, -, h⟩ := bind_eq_ok.mp h
  obtain ⟨⟨exts, t₁₀⟩, hexts, h⟩ := bind_eq_ok.mp h
  obtain ⟨extensions, hextensions, h⟩ := bind_eq_ok.mp h
  obtain ⟨_, htbsEnd, h⟩ := bind_eq_ok.mp h
  obtain ⟨⟨outerAlgorithm, rest₁⟩, houterAlgorithm, h⟩ := bind_eq_ok.mp h
  obtain ⟨_, hsame, h⟩ := bind_eq_ok.mp h
  obtain ⟨⟨signature, rest₂⟩, hsignature, h⟩ := bind_eq_ok.mp h
  obtain ⟨_, hend, h⟩ := bind_eq_ok.mp h
  obtain rfl := Except.ok.inj h
  -- the three parts of the certificate
  obtain ⟨contents, rfl, hspanOuter, hword⟩ := readSequence_spans houter
  obtain ⟨htbsEnc, hspanTbs, htbsWord⟩ := read_spans htbs
  obtain ⟨-, hspanOuterAlg⟩ := readAlgorithmIdentifier_spans houterAlgorithm
  have hspanSig := readBitStringOctets_readsAs _ _ _ (onX_eq_ok.mp hsignature)
  have hsameEnc : outerAlgorithm.encoded = algorithm.encoded := by
    simpa using refuse_eq_ok.mp hsame
  rw [hsameEnc] at hspanOuterAlg
  have hcontents := ((hspanTbs.append hspanOuterAlg).append hspanSig).whole (finishX_eq_ok.mp hend)
  have hwhole := hspanOuter.whole (finishX_eq_ok.mp hfinish)
  -- the fields of what is signed
  obtain ⟨hfront, hspan₁⟩ := readOptional_spans hversion (Nat.zero_le _)
  have hspan₂ := readUnsignedInteger_readsAs _ _ _ (onX_eq_ok.mp hserial)
  obtain ⟨halgEl, hspan₃⟩ := readAlgorithmIdentifier_spans halgorithm
  obtain ⟨hissuerEnc, hspan₄, -⟩ := read_spans hissuer
  obtain ⟨validityField, hvalidityEl, hspan₅⟩ := readValidity_spans hvalidity
  obtain ⟨hsubjectEnc, hspan₆, -⟩ := read_spans hsubject
  obtain ⟨hspkiEl, hspan₇⟩ := readSpki_spans hspki
  obtain ⟨hids₁, hspan₈⟩ := readOptional_spans hissuerId hspan₇.insideEnd
  obtain ⟨hids₂, hspan₉⟩ := readOptional_spans hsubjectId hspan₈.insideEnd
  obtain ⟨hlast, hspan₁₀⟩ := readOptional_spans hexts hspan₉.insideEnd
  have hsigned := (((((((((hspan₁.append hspan₂).append hspan₃).append hspan₄).append
    hspan₅).append hspan₆).append hspan₇).append hspan₈).append hspan₉).append
    hspan₁₀).whole (finishX_eq_ok.mp htbsEnd)
  have helements : ∀ field ∈ optionalField wrapper ++
      [encodeTlv .integer (integerContents serial), algorithm.encoded, issuer.encoded,
        validityField, subject.encoded, spki.encoded] ++
      (optionalField issuerId ++ optionalField subjectId), Element field := by
    intro field hfield
    simp only [List.mem_append, List.mem_cons, List.not_mem_nil, or_false] at hfield
    rcases hfield with (h | h | h | h | h | h | h) | h | h
    · exact optionalField_elements hfront _ h
    · exact ⟨.integer, _, h⟩
    · exact h ▸ halgEl
    · exact h ▸ ⟨.sequence, _, hissuerEnc⟩
    · exact h ▸ hvalidityEl
    · exact h ▸ ⟨.sequence, _, hsubjectEnc⟩
    · exact h ▸ hspkiEl
    · exact optionalField_elements hids₁ _ h
    · exact optionalField_elements hids₂ _ h
  refine ⟨tbsValue.contents, ⟨?_, htbsEnc, ?_, ?_, ?_⟩, ?_, _, exts, ?_, helements, hlast,
    hextensions⟩
  · rw [hwhole, hcontents]
  · have hpos := hspanTbs.pos
    simp only
    omega
  · exact bind_eq_ok.mpr ⟨_, hversion, bind_eq_ok.mpr ⟨_, hserial, bind_eq_ok.mpr
      ⟨_, halgorithm, rfl⟩⟩⟩
  · refine ⟨optionalField wrapper ++ [encodeTlv .integer (integerContents serial),
      algorithm.encoded], validityField,
      optionalField issuerId ++ optionalField subjectId ++ optionalField exts, ?_, ?_⟩
    · rw [hsigned]
      simp
    · intro field hfield
      refine (List.mem_append.mp ?_).elim (helements field) (optionalField_elements hlast field)
      simpa only [List.append_assoc, List.cons_append, List.nil_append] using hfield
  · have hpos := hspanOuter.pos
    rw [hwhole]
    simp only [Der.Reader.new] at hpos
    omega
  · rw [hsigned]
    simp

/-- Certificates are not malleable outside what is signed: an accepted certificate is the
encoding of its signed part, its algorithm and its signature, with the names and the key in
the signed part as whole elements, so the signed part and the signature determine it. -/
theorem parse_canonical :
    (∀ a b certificate certificate', parse a = .ok certificate → parse b = .ok certificate' →
      certificate.tbsDer = certificate'.tbsDer →
      certificate.signature = certificate'.signature → a = b) ∧
    (∀ der certificate, parse der = .ok certificate →
      der = encodeTlv .sequence (certificate.tbsDer ++ certificate.signatureAlgorithm.encoded ++
        encodeTlv .bitString (0 :: certificate.signature)) ∧
      ∃ (front : List Bytes) (validity : Bytes) (back : List Bytes),
        certificate.tbsDer = encodeTlv .sequence (front ++ [certificate.issuer, validity,
          certificate.subject, certificate.subjectPublicKeyInfo.encoded] ++ back).flatten ∧
        ∀ field ∈ front ++ [certificate.issuer, validity, certificate.subject,
          certificate.subjectPublicKeyInfo.encoded] ++ back, Element field) := by
  constructor
  · intro a b certificate certificate' ha hb htbs hsignature
    obtain ⟨contents, hlayout, -⟩ := parse_layout ha
    obtain ⟨contents', hlayout', -⟩ := parse_layout hb
    have hsigned : encodeTlv .sequence contents = encodeTlv .sequence contents' := by
      rw [← hlayout.signed, ← hlayout'.signed, htbs]
    obtain ⟨-, rfl⟩ := encodeTlv_inj (hlayout.signed ▸ hlayout.short) hsigned
    have halgorithm : certificate.signatureAlgorithm = certificate'.signatureAlgorithm :=
      Except.ok.inj (hlayout.algorithm.symm.trans hlayout'.algorithm)
    rw [hlayout.whole, hlayout'.whole, htbs, hsignature, halgorithm]
  · intro der certificate h
    obtain ⟨contents, hlayout, -⟩ := parse_layout h
    obtain ⟨front, validity, back, hcontents, helements⟩ := hlayout.fields
    refine ⟨hlayout.whole, front, validity, back, ?_, helements⟩
    rw [hlayout.signed, hcontents]

/-- The sample certificate is its three parts. -/
theorem parse_canonical_sample :
    ∃ certificate, parse (sampleDer [0x07] [0x61] [0x09]) = .ok certificate ∧
      sampleDer [0x07] [0x61] [0x09] = encodeTlv .sequence (certificate.tbsDer ++
        certificate.signatureAlgorithm.encoded ++
        encodeTlv .bitString (0 :: certificate.signature)) := by
  have hsome : (parse (sampleDer [0x07] [0x61] [0x09])).isOk = true := by decide +kernel
  cases h : parse (sampleDer [0x07] [0x61] [0x09]) with
  | error e => rw [h] at hsome; exact absurd hsome (by simp [Except.isOk, Except.toBool])
  | ok certificate => exact ⟨certificate, rfl, (parse_canonical.2 _ _ h).1⟩

end Certificate

end RustyTls
