import RustyTls.Core.Base128
import RustyTls.DerCanonical

/-!
# RustyTls.Oids

The syntax of object identifiers is exact.

`read_oid` goes over the contents once, with a flag that says whether the next octet starts a
subidentifier. `oidOctetsOk_iff_front` relates the flag to the grammar: from either value of it,
the loop accepts what is left exactly when that begins with the rest of one subidentifier and
goes on with more of them. Accepted identifiers are therefore lists of numbers written in the one
shortest way, and comparing their octets compares the numbers.
-/

namespace RustyTls.Der

open Core

/-- Contents that are a non-empty concatenation of minimal base-128 subidentifiers. -/
def OidContents (contents : Bytes) : Prop :=
  ∃ subidentifiers : List Bytes, subidentifiers ≠ [] ∧ (∀ s ∈ subidentifiers, MinimalGroup s) ∧
    contents = subidentifiers.flatten

/-- The numbers of an object identifier, one a subidentifier. -/
def ObjectIdentifier.numbers (oid : ObjectIdentifier) : List Nat := groupNats oid.asBytes

/-! ### The loop and its flag -/

section
variable {octet : UInt8} {octets : Bytes} {start : Bool}

theorem ne_of_highBit_clear (h : octet < 0x80) : octet ≠ 0x80 := by
  intro heq
  obtain rfl := heq
  exact absurd h (by decide)

/-- An octet with the high bit clear ends a subidentifier: what follows starts afresh. -/
theorem oidOctetsOk_ends (h : octet < 0x80) :
    oidOctetsOk start (octet :: octets) = oidOctetsOk true octets := by
  have hbit : (octet &&& 0x80 == 0) = true := by simpa using highBit_clear_iff.mpr h
  have hne : (octet == 0x80) = false := by simpa using ne_of_highBit_clear h
  cases octets with
  | nil => simp [oidOctetsOk, hbit, hne]
  | cons next octets => simp [oidOctetsOk, hbit, hne]

/-- An octet with the high bit set needs another one, and may not be a leading zero. -/
theorem oidOctetsOk_continues (h : ¬ octet < 0x80) :
    oidOctetsOk start (octet :: octets) = true ↔
      (start = true → octet ≠ 0x80) ∧ octets ≠ [] ∧ oidOctetsOk false octets = true := by
  have hbit : (octet &&& 0x80 == 0) = false := by
    rw [beq_eq_false_iff_ne]
    exact fun hclear => h (highBit_clear_iff.mp hclear)
  cases octets with
  | nil => simp [oidOctetsOk, hbit]
  | cons next octets =>
      cases start with
      | true => simp [oidOctetsOk, hbit]
      | false => simp [oidOctetsOk, hbit]

end

/-- What the loop accepts, from either value of its flag: the rest of one subidentifier, which
must not start with a zero digit if it is the whole of it, and then more of them. -/
theorem oidOctetsOk_iff_front {octets : Bytes} (start : Bool) (hne : octets ≠ []) :
    oidOctetsOk start octets = true ↔
      ∃ group rest, octets = group ++ rest ∧ DigitGroup group ∧
        (start = true → group.head? ≠ some 0x80) ∧ oidOctetsOk true rest = true := by
  induction octets generalizing start with
  | nil => exact absurd rfl hne
  | cons octet octets ih =>
      by_cases hclear : octet < 0x80
      · rw [oidOctetsOk_ends hclear]
        constructor
        · intro h
          refine ⟨[octet], octets, rfl, (digitGroup_cons_clear hclear).mpr rfl, fun _ => ?_, h⟩
          simpa using ne_of_highBit_clear hclear
        · intro h
          obtain ⟨group, rest, heq, hgroup, -, h⟩ := h
          obtain ⟨o, group, rfl⟩ := List.exists_cons_of_ne_nil hgroup.ne_nil
          obtain ⟨rfl, rfl⟩ := List.cons.inj heq
          rw [digitGroup_cons_clear hclear] at hgroup
          rwa [hgroup]
      · rw [oidOctetsOk_continues hclear]
        constructor
        · intro h
          obtain ⟨hfirst, hmore, h⟩ := h
          obtain ⟨group, rest, rfl, hgroup, -, hrest⟩ := (ih false hmore).mp h
          refine ⟨octet :: group, rest, rfl, (digitGroup_cons_set hclear).mpr hgroup, ?_, hrest⟩
          simpa using hfirst
        · intro h
          obtain ⟨group, rest, heq, hgroup, hfirst, hrest⟩ := h
          obtain ⟨o, group, rfl⟩ := List.exists_cons_of_ne_nil hgroup.ne_nil
          obtain ⟨rfl, rfl⟩ := List.cons.inj heq
          rw [digitGroup_cons_set hclear] at hgroup
          have hmore : group ++ rest ≠ [] := List.append_ne_nil_of_left_ne_nil hgroup.ne_nil rest
          refine ⟨by simpa using hfirst, hmore, (ih false hmore).mpr ?_⟩
          exact ⟨group, rest, rfl, hgroup, by simp, hrest⟩

/-- The loop accepts the concatenations of minimal subidentifiers. -/
theorem oidOctetsOk_iff {octets : Bytes} :
    oidOctetsOk true octets = true ↔
      ∃ groups : List Bytes, (∀ g ∈ groups, MinimalGroup g) ∧ octets = groups.flatten := by
  constructor
  · intro h
    -- a subidentifier has at least its last octet, so what is left is shorter
    induction hlen : octets.length using Nat.strongRecOn generalizing octets with
    | _ n ih =>
        by_cases hne : octets = []
        · exact ⟨[], fun _ hg => absurd hg List.not_mem_nil, hne⟩
        · obtain ⟨group, rest, rfl, hgroup, hfirst, hrest⟩ :=
            (oidOctetsOk_iff_front true hne).mp h
          have hshort : rest.length < n := by
            have hpos := List.length_pos_iff.mpr hgroup.ne_nil
            rw [List.length_append] at hlen
            omega
          obtain ⟨groups, hgroups, rfl⟩ := ih rest.length hshort hrest rfl
          refine ⟨group :: groups, fun g hg => ?_, rfl⟩
          rcases List.mem_cons.mp hg with rfl | hg
          · exact ⟨hgroup, hfirst rfl⟩
          · exact hgroups g hg
  · intro h
    obtain ⟨groups, hgroups, rfl⟩ := h
    induction groups with
    | nil => rfl
    | cons group groups ih =>
        have hminimal := hgroups group List.mem_cons_self
        have hne : (group :: groups).flatten ≠ [] :=
          List.append_ne_nil_of_left_ne_nil hminimal.1.ne_nil groups.flatten
        refine (oidOctetsOk_iff_front true hne).mpr
          ⟨group, groups.flatten, rfl, hminimal.1, fun _ => hminimal.2, ?_⟩
        exact ih fun g hg => hgroups g (List.mem_cons_of_mem group hg)

/-- The contents `read_oid` accepts, as the source tests them. -/
theorem oidContents_iff {contents : Bytes} :
    OidContents contents ↔ contents ≠ [] ∧ oidOctetsOk true contents = true := by
  rw [oidOctetsOk_iff]
  constructor
  · intro h
    obtain ⟨groups, hne, hgroups, rfl⟩ := h
    refine ⟨?_, groups, hgroups, rfl⟩
    cases groups with
    | nil => exact absurd rfl hne
    | cons group groups =>
        have hminimal := hgroups group List.mem_cons_self
        exact List.append_ne_nil_of_left_ne_nil hminimal.1.ne_nil groups.flatten
  · intro h
    obtain ⟨hne, groups, hgroups, rfl⟩ := h
    refine ⟨groups, ?_, hgroups, rfl⟩
    intro h
    obtain rfl := h
    exact hne rfl

/-- The same contents by their numbers. -/
theorem oidContents_iff_numbers {contents : Bytes} :
    OidContents contents ↔ ∃ ns : List Nat, ns ≠ [] ∧ ns.flatMap base128 = contents := by
  constructor
  · intro h
    obtain ⟨groups, hne, hgroups, rfl⟩ := h
    refine ⟨groupNats groups.flatten, ?_, flatMap_base128_groupNats hgroups⟩
    rw [groupNats_flatten fun g hg => (hgroups g hg).1]
    simpa using hne
  · intro h
    obtain ⟨ns, hne, rfl⟩ := h
    refine ⟨ns.map base128, by simpa using hne, fun s hs => ?_, List.flatMap_def⟩
    obtain ⟨n, -, hn⟩ := List.mem_map.mp hs
    exact minimalGroup_iff.mpr ⟨n, hn⟩

/-! ### `read_oid` -/

section
variable {r r' : Reader} {oid : ObjectIdentifier}

theorem readOid_iff : readOid r = .ok oid r' ↔
    (∃ encoded, readAny r = .ok ⟨.oid, oid.asBytes, encoded⟩ r') ∧ OidContents oid.asBytes := by
  rw [oidContents_iff]
  constructor
  · intro h
    obtain ⟨value, r₁, hvalue, h⟩ := Read.bind_eq_ok.mp h
    obtain ⟨hany, htag⟩ := read_iff.mp hvalue
    dsimp only at h
    split at h
    · exact absurd h Read.throw_bind_ne_ok
    next hne =>
    split at h
    · exact absurd h Read.throw_bind_ne_ok
    next hok =>
    obtain ⟨rfl, rfl⟩ := Read.pure_eq_ok.mp h
    obtain ⟨tag, contents, encoded⟩ := value
    obtain rfl : tag = .oid := htag
    exact ⟨⟨encoded, hany⟩, hne, by simpa using hok⟩
  · intro h
    obtain ⟨⟨encoded, hany⟩, hne, hok⟩ := h
    refine Read.bind_eq_ok.mpr ⟨_, r', read_iff.mpr ⟨hany, rfl⟩, ?_⟩
    dsimp only
    rw [if_neg hne, if_neg (by simp [hok])]
    exact Read.pure_eq_ok.mpr ⟨rfl, rfl⟩

/-- Decoding an accepted identifier to its numbers and encoding them again. -/
theorem OidContents.reencodes (h : OidContents oid.asBytes) :
    oid.numbers.flatMap base128 = oid.asBytes := by
  obtain ⟨groups, -, hgroups, hflat⟩ := h
  rw [ObjectIdentifier.numbers, hflat]
  exact flatMap_base128_groupNats hgroups

end

/-- `read_oid` accepts an `OBJECT IDENTIFIER` exactly when its contents are a non-empty
concatenation of minimal subidentifiers, which are the encodings of numbers. An accepted one
decodes to the one list of numbers that encodes to its octets, and two accepted ones have equal
octets exactly when their numbers are equal. -/
theorem oid_syntax_exact {r r' : Reader} {contents encoded : Bytes}
    (hat : readAny r = .ok ⟨.oid, contents, encoded⟩ r') :
    ((∃ oid r₁, readOid r = .ok oid r₁) ↔ OidContents contents) ∧
    (OidContents contents ↔ ∃ ns : List Nat, ns ≠ [] ∧ ns.flatMap base128 = contents) ∧
    ∀ oid r₁, readOid r = .ok oid r₁ →
      oid.asBytes = contents ∧ r₁ = r' ∧
      (∀ ns, ns.flatMap base128 = contents ↔ ns = oid.numbers) ∧
      ∀ s other s', readOid s = .ok other s' →
        (oid.asBytes = other.asBytes ↔ oid.numbers = other.numbers) := by
  have hread : ∀ oid r₁, readOid r = .ok oid r₁ →
      oid.asBytes = contents ∧ r₁ = r' ∧ OidContents oid.asBytes := by
    intro oid r₁ h
    obtain ⟨⟨encoded', hany⟩, hcontents⟩ := readOid_iff.mp h
    rw [hat] at hany
    obtain ⟨hvalue, hcursor⟩ := EStateM.Result.ok.inj hany
    exact ⟨(Value.mk.inj hvalue).2.1.symm, hcursor.symm, hcontents⟩
  refine ⟨⟨?_, ?_⟩, oidContents_iff_numbers, fun oid r₁ h => ?_⟩
  · intro h
    obtain ⟨oid, r₁, h⟩ := h
    obtain ⟨heq, -, hcontents⟩ := hread oid r₁ h
    rwa [heq] at hcontents
  · exact fun h => ⟨⟨contents⟩, r', readOid_iff.mpr ⟨⟨encoded, hat⟩, h⟩⟩
  obtain ⟨heq, hcursor, hcontents⟩ := hread oid r₁ h
  refine ⟨heq, hcursor, fun ns => ⟨?_, ?_⟩, fun s other s' hother => ⟨?_, ?_⟩⟩
  · intro hns
    rw [ObjectIdentifier.numbers, heq, ← hns, groupNats_flatMap_base128]
  · intro hns
    rw [hns, hcontents.reencodes, heq]
  · intro hbytes
    rw [ObjectIdentifier.numbers, ObjectIdentifier.numbers, hbytes]
  · intro hnumbers
    rw [← hcontents.reencodes, ← (readOid_iff.mp hother).2.reencodes, hnumbers]

/-- The key purpose `1.3.6.1.5.5.7.3.1`, the first two arcs being one number. -/
theorem oid_syntax_exact_serverAuth :
    (∃ oid r₁, readOid ⟨[0x06, 0x08, 0x2b, 0x06, 0x01, 0x05, 0x05, 0x07, 0x03, 0x01], 0⟩ =
      .ok oid r₁) ∧ OidContents [0x2b, 0x06, 0x01, 0x05, 0x05, 0x07, 0x03, 0x01] := by
  have hat : readAny ⟨[0x06, 0x08, 0x2b, 0x06, 0x01, 0x05, 0x05, 0x07, 0x03, 0x01], 0⟩ =
      .ok ⟨.oid, [0x2b, 0x06, 0x01, 0x05, 0x05, 0x07, 0x03, 0x01],
        [0x06, 0x08, 0x2b, 0x06, 0x01, 0x05, 0x05, 0x07, 0x03, 0x01]⟩
        ⟨[0x06, 0x08, 0x2b, 0x06, 0x01, 0x05, 0x05, 0x07, 0x03, 0x01], 10⟩ := rfl
  have hcontents : OidContents [0x2b, 0x06, 0x01, 0x05, 0x05, 0x07, 0x03, 0x01] :=
    oidContents_iff.mpr ⟨by simp, rfl⟩
  exact ⟨(oid_syntax_exact hat).1.mpr hcontents, hcontents⟩

end RustyTls.Der
