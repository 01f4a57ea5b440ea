import RustyTls.RecordSound

/-!
# RustyTls.RecordPadding

What one record carries, for every content type and padding.

A record ends with its type octet and zeros behind it, and the opener finds the octet by scanning
back over zeros. So the scan stops at the type octet if that is not itself a zero, whatever the
content ends with (`innerContent_innerPlaintext`), and it never reports a zero
(`innerContent_ne_zero`). `Unknown(0)` is a content type like any other to `seal`, which does not
look at it: such a record is made, and the octet before the zeros is taken for its type.
-/

namespace RustyTls

open Core

/-- The scan stops at an octet that is not a zero. -/
theorem innerContent_ne_zero {plaintext content : Bytes} {typ : UInt8}
    (h : Opener.innerContent plaintext = some (typ, content)) : typ ≠ 0 := by
  unfold Opener.innerContent at h
  split at h
  · cases h
  · next octet rest hscan =>
      obtain ⟨rfl, -⟩ := Prod.mk.inj (Option.some.inj h)
      have hhead := List.head?_dropWhile_not (· == 0) plaintext.reverse
      rw [hscan] at hhead
      simpa using hhead

/-- A record of a type that is not zero opens to what was sealed. -/
theorem openRecord_sealRecord {ring : Ring} (lawful : ring.Lawful) {sealer sealer' : Sealer}
    {typ : ContentType} {fragment record : Bytes} {padding : Nat} (htyp : typ.asU8 ≠ 0)
    (h : sealer.sealRecord ring typ fragment padding = (.ok record, sealer')) :
    (Opener.mk sealer.key sealer.seq).openRecord ring record
      = (.ok ⟨.fromU8 typ.asU8, fragment⟩, ⟨sealer'.key, sealer'.seq⟩) := by
  obtain ⟨seq, sealed, hpeek, hfragment, hinner, hsealed, rfl, rfl⟩ := sealRecord_ok h
  obtain ⟨-, hmaxEnc, hmaxInner, htag, -⟩ := limits
  have hlen := lawful.seal_length _ _ _ _ _ _ hsealed
  have hplain : (Sealer.innerPlaintext typ fragment padding).length
      = fragment.length + 1 + padding := by
    simp [Sealer.innerPlaintext]
    omega
  exact openRecord_of_openInPlace (by omega) (by omega) (by omega) hpeek
    (lawful.open_seal _ _ _ _ _ _ hsealed) (innerContent_innerPlaintext htyp fragment padding)
    hfragment

/-- Records come back as they were sealed, for every content, every padding and exactly the types
that are not zero: the opener of the same key and number returns the type octet and the fragment
that the sealer was given, and both have moved on alike. -/
theorem sealRecord_roundTrip_iff {ring : Ring} (lawful : ring.Lawful) {sealer sealer' : Sealer}
    {typ : ContentType} {fragment record : Bytes} {padding : Nat}
    (h : sealer.sealRecord ring typ fragment padding = (.ok record, sealer')) :
    (∃ opened, (Opener.mk sealer.key sealer.seq).openRecord ring record
        = (.ok opened, ⟨sealer'.key, sealer'.seq⟩) ∧
      opened.typ.asU8 = typ.asU8 ∧ opened.fragment = fragment) ↔ typ.asU8 ≠ 0 := by
  constructor
  · intro h
    obtain ⟨opened, hopen, htyp, -⟩ := h
    obtain ⟨_, _, _, -, -, hinner, hoctet, -⟩ := openRecord_ok hopen
    rw [← htyp, hoctet]
    exact innerContent_ne_zero hinner
  · intro htyp
    exact ⟨_, openRecord_sealRecord lawful htyp h, ContentType.asU8_fromU8 _, rfl⟩

/-- The sample's key, and its first number. -/
def Sealer.sample : Sealer :=
  ⟨⟨.aes128Gcm, List.replicate 16 3, List.replicate 12 4, rfl, rfl⟩, .startingAt 0⟩

/-- A fragment that ends with zeros, under a type nobody has assigned, with padding. -/
theorem sealRecord_roundTrip_iff_zeros : ∃ record sealer' opened,
    Sealer.sample.sealRecord .sample (.unknown 99) [7, 0, 0] 3 = (.ok record, sealer') ∧
    (Opener.mk Sealer.sample.key Sealer.sample.seq).openRecord .sample record
      = (.ok opened, ⟨sealer'.key, sealer'.seq⟩) ∧
    opened.typ.asU8 = 99 ∧ opened.fragment = [7, 0, 0] := by
  obtain ⟨opened, hopen, htyp, hfragment⟩ :=
    (@sealRecord_roundTrip_iff .sample Ring.sample_lawful .sample _ (.unknown 99) [7, 0, 0] _ 3
      rfl).mpr (by decide)
  exact ⟨_, _, opened, rfl, hopen, htyp, hfragment⟩

/-- A record of type zero is sealed, and opens to its fragment's last octet as the type and what
is before that. -/
theorem sealRecord_roundTrip_zeroType : ∃ record sealer',
    Sealer.sample.sealRecord .sample (.unknown 0) [7, 23] 0 = (.ok record, sealer') ∧
    (Opener.mk Sealer.sample.key Sealer.sample.seq).openRecord .sample record
      = (.ok ⟨.applicationData, [7]⟩, ⟨sealer'.key, sealer'.seq⟩) :=
  ⟨_, _, rfl, by decide +kernel⟩

end RustyTls
