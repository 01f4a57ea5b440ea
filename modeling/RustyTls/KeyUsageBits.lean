import Mathlib.Data.Nat.Bitwise
import RustyTls.X509Canonical

/-!
# RustyTls.KeyUsageBits

The flags of a `keyUsage` extension against the bits its BIT STRING declares.

A BIT STRING is a number of unused bits and the octets they are the end of. `read_extensions`
reads both, and then makes the flags of the octets alone. So the flags are the bits of the octets
from the top down (`has_keyUsageBits`), and they are the declared bits exactly when the unused ones
of a single octet are zeros, and a second octet has one used bit (`onlyDeclared_iff`).

What the extension of a certificate says is a statement about the certificate's octets
(`DeclaresKeyUsage`): elements follow each other in only one way, so the one the parser comes to
is the one that is there (`parse_keyUsage`).
-/

namespace RustyTls

open Core Der

/-! ### Bits of a string -/

/-- The bit at `i` of a string of octets, the most significant of each first. -/
def bitAt (octets : Bytes) (i : Nat) : Bool := (octets.getD (i / 8) 0).toNat.testBit (7 - i % 8)

/-- How many bits a BIT STRING declares. -/
def declaredBits (octets : Bytes) (unused : UInt8) : Nat := 8 * octets.length - unused.toNat

/-- The bit at `i` is declared, and set. -/
def DeclaredSet (octets : Bytes) (unused : UInt8) (i : Nat) : Prop :=
  i < declaredBits octets unused ∧ bitAt octets i = true

/-- Every flag reported as set is a declared bit, and no more bits are declared than there are
flags. -/
def OnlyDeclared (usage : KeyUsage) (octets : Bytes) (unused : UInt8) : Prop :=
  (∀ i < 9, usage.has (UInt16.ofNat i) = true → i < declaredBits octets unused) ∧
  declaredBits octets unused ≤ 9

/-- No bit is set that is not declared, and none declared beyond the ninth: an empty string, one
octet whose unused bits are zeros, or two octets of which the second has one bit in use. -/
def CleanString (octets : Bytes) (unused : UInt8) : Prop :=
  octets = [] ∨ (∃ octet, octets = [octet] ∧ 2 ^ unused.toNat ∣ octet.toNat) ∨
    (octets.length = 2 ∧ unused = 7)

/-- What `read_bit_string_flags` and the `keyUsage` arm check. -/
structure ReadableString (octets : Bytes) (unused : UInt8) : Prop where
  octetsLe : octets.length ≤ 2
  unusedLe : unused.toNat ≤ 7
  unusedOfNil : octets = [] → unused = 0

/-- A flag is a bit of the number, counted from the top. -/
theorem has_iff_testBit (bits : UInt16) {i : Nat} (hi : i < 16) :
    KeyUsage.has ⟨bits⟩ (UInt16.ofNat i) = bits.toNat.testBit (15 - i) := by
  have hmask : ∀ i < 16, ((0x8000 : UInt16) >>> UInt16.ofNat i).toNat = 2 ^ (15 - i) := by decide
  rw [Bool.eq_iff_iff, KeyUsage.has, bne_iff_ne, ne_eq, ← UInt16.toNat_inj, UInt16.toNat_and,
    hmask i hi, Nat.and_two_pow]
  cases bits.toNat.testBit (15 - i) <;> simp

/-- The number has the first octet above the second. -/
theorem testBit_keyUsageBits (octets : Bytes) (k : Nat) :
    (keyUsageBits octets).toNat.testBit k
      = if k < 8 then ((octets.drop 1).headD 0).toNat.testBit k
        else decide (k < 16) && (octets.headD 0).toNat.testBit (k - 8) := by
  have hshift : ((octets.headD 0).toUInt16 <<< 8).toNat = (octets.headD 0).toNat <<< 8 % 2 ^ 16 := by
    rw [UInt16.toNat_shiftLeft]
    rfl
  rw [keyUsageBits, UInt16.toNat_or, Nat.testBit_or, hshift, Nat.testBit_mod_two_pow,
    Nat.testBit_shiftLeft, UInt8.toNat_toUInt16]
  split
  · next h => simp [Nat.not_le.mpr h]
  · next h =>
      have hsecond := Nat.testBit_lt_two_pow (((octets.drop 1).headD 0).toNat_lt.trans_le
        (Nat.pow_le_pow_right (by decide) (Nat.not_lt.mp h)))
      rw [hsecond, decide_eq_true (Nat.not_lt.mp h), Bool.or_false, Bool.true_and]

/-- The flags are the bits of the octets. -/
theorem has_keyUsageBits {octets : Bytes} (hlen : octets.length ≤ 2) {i : Nat} (hi : i < 9) :
    KeyUsage.has ⟨keyUsageBits octets⟩ (UInt16.ofNat i) = bitAt octets i := by
  rw [has_iff_testBit _ (by omega), testBit_keyUsageBits]
  by_cases h : i < 8
  · have hfirst : 15 - i - 8 = 7 - i := by omega
    rw [if_neg (by omega), decide_eq_true (by omega), Bool.true_and, bitAt, Nat.div_eq_of_lt h,
      Nat.mod_eq_of_lt h, hfirst]
    cases octets <;> rfl
  · obtain rfl : i = 8 := by omega
    rcases octets with _ | ⟨b, _ | ⟨c, rest⟩⟩ <;> simp [bitAt]

/-- A power of two divides the numbers whose low bits are zeros. -/
theorem two_pow_dvd_iff {n k : Nat} : 2 ^ k ∣ n ↔ ∀ j < k, n.testBit j = false := by
  rw [Nat.dvd_iff_mod_eq_zero]
  constructor
  · intro h j hj
    have hbit := Nat.testBit_mod_two_pow n k j
    simpa [h, hj] using hbit.symm
  · intro h
    refine Nat.eq_of_testBit_eq fun j => ?_
    rw [Nat.testBit_mod_two_pow, Nat.zero_testBit]
    by_cases hj : j < k
    · rw [h j hj, Bool.and_false]
    · rw [decide_eq_false hj, Bool.false_and]

/-- Exactly the clean strings have no flag but the declared ones. -/
theorem onlyDeclared_iff {octets : Bytes} {unused : UInt8} (h : ReadableString octets unused) :
    OnlyDeclared ⟨keyUsageBits octets⟩ octets unused ↔ CleanString octets unused := by
  obtain ⟨hlen, hunused, hnil⟩ := h
  have hflags : ∀ i < 9, KeyUsage.has ⟨keyUsageBits octets⟩ (UInt16.ofNat i) = bitAt octets i :=
    fun i hi => has_keyUsageBits hlen hi
  unfold OnlyDeclared CleanString declaredBits
  rcases octets with _ | ⟨first, _ | ⟨second, _ | ⟨third, rest⟩⟩⟩
  · refine iff_of_true ⟨fun i hi hset => ?_, by simp⟩ (.inl rfl)
    rw [hflags i hi] at hset
    simp [bitAt] at hset
  · simp only [List.length_singleton, Nat.mul_one, reduceCtorEq, false_or, List.cons.injEq,
      and_true, exists_eq_left', Nat.reduceEqDiff, false_and, or_false, two_pow_dvd_iff]
    have hbit : ∀ i < 8, bitAt [first] i = first.toNat.testBit (7 - i) := by
      intro i hi
      simp [bitAt, Nat.div_eq_of_lt hi, Nat.mod_eq_of_lt hi]
    constructor
    · intro h
      obtain ⟨hset, -⟩ := h
      intro j hj
      -- the bit is at `7 - j` of the octet, which is not declared
      by_contra hone
      rw [Bool.not_eq_false] at hone
      have hflag := hflags (7 - j) (by omega)
      rw [hbit _ (by omega), Nat.sub_sub_self (by omega), hone] at hflag
      have hlt := hset (7 - j) (by omega) hflag
      omega
    · intro hzero
      refine ⟨fun i hi hflag => ?_, by omega⟩
      rw [hflags i hi] at hflag
      by_contra hnot
      by_cases h : i < 8
      · rw [hbit i h, hzero (7 - i) (by omega)] at hflag
        cases hflag
      · obtain rfl : i = 8 := by omega
        simp [bitAt] at hflag
  · have hseven : unused = 7 ↔ unused.toNat = 7 := by
      rw [← UInt8.toNat_inj]
      rfl
    simp only [List.length_cons, List.length_nil, reduceCtorEq, false_or, List.cons.injEq,
      and_false, false_and, exists_const, true_and, hseven]
    constructor
    · intro h
      obtain ⟨-, hle⟩ := h
      omega
    · intro hlast
      exact ⟨fun i hi _ => by omega, by omega⟩
  · simp only [List.length_cons] at hlen
    omega

/-- Clean strings that are the same set of bits have the same flags. -/
theorem sameFlags_of_sameBits {octets octets' : Bytes} {unused unused' : UInt8}
    (h : ReadableString octets unused) (h' : ReadableString octets' unused')
    (hclean : OnlyDeclared ⟨keyUsageBits octets⟩ octets unused)
    (hclean' : OnlyDeclared ⟨keyUsageBits octets'⟩ octets' unused')
    (hsame : ∀ i, DeclaredSet octets unused i ↔ DeclaredSet octets' unused' i) {i : Nat}
    (hi : i < 9) :
    KeyUsage.has ⟨keyUsageBits octets⟩ (UInt16.ofNat i)
      = KeyUsage.has ⟨keyUsageBits octets'⟩ (UInt16.ofNat i) := by
  have hset : ∀ {octets : Bytes} {unused : UInt8}, ReadableString octets unused →
      OnlyDeclared ⟨keyUsageBits octets⟩ octets unused →
      (KeyUsage.has ⟨keyUsageBits octets⟩ (UInt16.ofNat i) = true ↔
        DeclaredSet octets unused i) := by
    intro octets unused hread honly
    have hflag := has_keyUsageBits hread.octetsLe hi
    constructor
    · intro hbit
      exact ⟨honly.1 i hi hbit, hflag ▸ hbit⟩
    · intro h
      obtain ⟨-, hbit⟩ := h
      rw [hflag, hbit]
  rw [Bool.eq_iff_iff, hset h hclean, hset h' hclean']
  exact hsame i

/-! ### The extensions of a certificate -/

/-- One extension, as `read_extensions` takes it off its list. -/
structure ExtensionItem where
  id : ObjectIdentifier
  critical : Bool
  contents : Bytes

/-- The fields of an encoded extension, of which `critical` may be left out. -/
def extensionFields (id : ObjectIdentifier) (critical : Option Bytes) (contents : Bytes) :
    List Bytes :=
  encodeTlv .oid id.asBytes :: (critical.map (encodeTlv .boolean)).toList ++
    [encodeTlv .octetString contents]

/-- The octets `element` are an extension of this id and contents. -/
def EncodesExtension (id : ObjectIdentifier) (contents element : Bytes) : Prop :=
  ∃ critical, element = encodeTlv .sequence (extensionFields id critical contents).flatten

theorem extensionFields_elements (id : ObjectIdentifier) (critical : Option Bytes)
    (contents : Bytes) : ∀ field ∈ extensionFields id critical contents, Element field := by
  intro field hfield
  simp only [extensionFields, List.cons_append, List.mem_cons, List.mem_append, List.not_mem_nil,
    or_false, Option.mem_toList, Option.map_eq_some_iff] at hfield
  rcases hfield with rfl | ⟨flag, -, rfl⟩ | rfl
  · exact ⟨_, _, rfl⟩
  · exact ⟨_, _, rfl⟩
  · exact ⟨_, _, rfl⟩

/-- An extension is of one id, and has one value. -/
theorem EncodesExtension.inj {element contents contents' : Bytes} {id id' : ObjectIdentifier}
    (hshort : element.length < 2 ^ 64) (h : EncodesExtension id contents element)
    (h' : EncodesExtension id' contents' element) : id = id' ∧ contents = contents' := by
  obtain ⟨critical, rfl⟩ := h
  obtain ⟨critical', heq⟩ := h'
  obtain ⟨-, hflat⟩ := encodeTlv_inj hshort heq
  have hbody := (encodeTlv_length _ _).trans hshort
  have hfields := elements_inj (extensionFields_elements id critical contents)
    (extensionFields_elements id' critical' contents') hbody hflat
  have hpart : ∀ field ∈ extensionFields id critical contents, field.length < 2 ^ 64 :=
    fun field hfield => (List.sublist_flatten_of_mem hfield).length_le.trans_lt hbody
  -- the first field is the id, and the last one the value
  have hhead : encodeTlv .oid id.asBytes = encodeTlv .oid id'.asBytes :=
    (List.cons.inj hfields).1
  have hlast : encodeTlv .octetString contents = encodeTlv .octetString contents' := by
    have hends := congrArg List.getLast? hfields
    rw [extensionFields, extensionFields, List.getLast?_concat, List.getLast?_concat] at hends
    exact Option.some.inj hends
  obtain ⟨-, hid⟩ := encodeTlv_inj (hpart _ (by simp [extensionFields])) hhead
  obtain ⟨-, hcontents⟩ := encodeTlv_inj (hpart _ (by simp [extensionFields])) hlast
  exact ⟨by cases id; cases id'; simpa using hid, hcontents⟩

theorem readExtension_spans {list list' : Der.Reader} {id : ObjectIdentifier} {critical : Bool}
    {contents : Bytes} (h : readExtension list = .ok ((id, critical, contents), list')) :
    ∃ element, EncodesExtension id contents element ∧ Spans list element list' := by
  obtain ⟨⟨extension, rest⟩, hsequence, h⟩ := bind_eq_ok.mp h
  obtain ⟨⟨oid, e₁⟩, hoid, h⟩ := bind_eq_ok.mp h
  obtain ⟨⟨flag, e₂⟩, hflag, h⟩ := bind_eq_ok.mp h
  obtain ⟨_, -, h⟩ := bind_eq_ok.mp h
  obtain ⟨⟨value, e₃⟩, hvalue, h⟩ := bind_eq_ok.mp h
  obtain ⟨_, hfinish, h⟩ := bind_eq_ok.mp h
  obtain ⟨⟨rfl, -, rfl⟩, rfl⟩ : (oid = id ∧ _ = critical ∧ value.contents = contents) ∧
      rest = list' := by
    simpa using h
  obtain ⟨body, rfl, hspan, -⟩ := readSequence_spans hsequence
  have hspan₁ := readOid_readsAs _ _ _ (onX_eq_ok.mp hoid)
  obtain ⟨hflagEnc, hspan₂⟩ := readOptional_spans hflag hspan₁.insideEnd
  obtain ⟨henc, hspan₃, -⟩ := read_spans hvalue
  have hbody := ((hspan₁.append hspan₂).append hspan₃).whole (finishX_eq_ok.mp hfinish)
  have hfield : optionalField flag = ((flag.map (·.contents)).map (encodeTlv .boolean)).toList := by
    cases flag with
    | none => rfl
    | some v => simpa [optionalField] using hflagEnc v rfl
  refine ⟨_, ⟨flag.map (·.contents), rfl⟩, ?_⟩
  rw [hbody, henc, hfield] at hspan
  simpa [extensionFields] using hspan

/-- Applying the extensions `items`, whose octets are `elements`, leads from `exts` to `exts'`. No
id is among those seen before, or comes twice. -/
structure AppliesExtensions (exts : Extensions) (seen : List ObjectIdentifier)
    (elements : List Bytes) (items : List ExtensionItem) (exts' : Extensions) : Prop where
  encodes : List.Forall₂ (fun element item => EncodesExtension item.id item.contents element)
    elements items
  applied : items.foldlM (fun exts item => applyExtension exts item.id item.critical item.contents)
    exts = .ok exts'
  fresh : ∀ item ∈ items, item.id ∉ seen
  nodup : (items.map (·.id)).Nodup

theorem AppliesExtensions.nil (exts : Extensions) (seen : List ObjectIdentifier) :
    AppliesExtensions exts seen [] [] exts :=
  ⟨.nil, rfl, by simp, List.nodup_nil⟩

theorem AppliesExtensions.cons {exts exts₁ exts' : Extensions} {seen : List ObjectIdentifier}
    {element : Bytes} {item : ExtensionItem} {elements : List Bytes} {items : List ExtensionItem}
    (hencodes : EncodesExtension item.id item.contents element) (hnew : item.id ∉ seen)
    (happly : applyExtension exts item.id item.critical item.contents = .ok exts₁)
    (h : AppliesExtensions exts₁ (seen ++ [item.id]) elements items exts') :
    AppliesExtensions exts seen (element :: elements) (item :: items) exts' where
  encodes := .cons hencodes h.encodes
  applied := by
    rw [List.foldlM_cons, happly]
    exact h.applied
  fresh := by
    simp only [List.mem_cons, forall_eq_or_imp]
    exact ⟨hnew, fun other hmem hseen => h.fresh other hmem (List.mem_append_left _ hseen)⟩
  nodup := by
    rw [List.map_cons, List.nodup_cons]
    refine ⟨fun hmem => ?_, h.nodup⟩
    obtain ⟨other, hother, hid⟩ := List.mem_map.mp hmem
    exact h.fresh other hother (by simp [hid])

/-- `read_extensions` applies every extension of its list in order, each id once. -/
theorem readExtensionsLoop_spec {fuel : Nat} {exts exts' : Extensions}
    {seen : List ObjectIdentifier} {list : Der.Reader} (hinside : list.pos ≤ list.input.length)
    (hfuel : list.input.length - list.pos ≤ fuel)
    (h : readExtensionsLoop fuel exts seen list = .ok exts') :
    ∃ elements items, list.input.drop list.pos = elements.flatten ∧
      AppliesExtensions exts seen elements items exts' := by
  -- By induction on the rounds: each takes an element off the list, which has an octet.
  induction fuel generalizing exts seen list with
  | zero =>
      obtain rfl := Except.ok.inj h
      exact ⟨[], [], List.drop_eq_nil_of_le (by omega), .nil _ _⟩
  | succ fuel ih =>
      unfold readExtensionsLoop at h
      split at h
      · next hend =>
          obtain rfl := Except.ok.inj h
          simp only [Der.Reader.isEmpty, decide_eq_true_eq] at hend
          exact ⟨[], [], List.drop_eq_nil_of_le hend, .nil _ _⟩
      · obtain ⟨⟨⟨id, critical, contents⟩, list'⟩, hread, h⟩ := bind_eq_ok.mp h
        obtain ⟨_, hnew, h⟩ := bind_eq_ok.mp h
        obtain ⟨exts₁, happly, h⟩ := bind_eq_ok.mp h
        obtain ⟨element, hencodes, hspan⟩ := readExtension_spans hread
        have hpos : 0 < element.length := by
          obtain ⟨_, rfl⟩ := hencodes
          simp [encodeTlv]
        have hnext := hspan.pos
        obtain ⟨elements, items, hflat, hitems⟩ := ih hspan.insideEnd (by rw [hspan.input]; omega) h
        refine ⟨element :: elements, ⟨id, critical, contents⟩ :: items, ?_,
          .cons hencodes (refuse_eq_ok.mp hnew) happly hitems⟩
        rw [hspan.ahead, List.flatten_cons, ← hflat, hspan.input]

theorem readBitStringFlags_spans {r r' : Der.Reader} {octets : Bytes} {unused : UInt8}
    (h : readBitStringFlags r = .ok (octets, unused) r') :
    Spans r (encodeTlv .bitString (unused :: octets)) r' ∧ unused.toNat ≤ 7 ∧
      (octets = [] → unused = 0) := by
  obtain ⟨value, r₁, rest, hspan, hrest, hok⟩ := read_bind_inv h
  split at hrest
  · subst hrest
    exact absurd hok Read.throw_ne_ok
  · next first bits hcontents =>
      subst hrest
      dsimp only at hok
      split at hok
      · exact absurd hok Read.throw_bind_ne_ok
      · next hvalid =>
          obtain ⟨hpair, rfl⟩ := Read.pure_eq_ok.mp hok
          obtain ⟨rfl, rfl⟩ := Prod.mk.inj hpair
          rw [not_or] at hvalid
          refine ⟨hcontents ▸ hspan, ?_, ?_⟩
          · simpa [UInt8.lt_iff_toNat_lt] using hvalid.1
          · intro hnil
            by_contra hne
            exact hvalid.2 ⟨hnil, hne⟩

/-- What the `keyUsage` arm reads and stores. -/
theorem applyExtension_keyUsage {exts exts' : Extensions} {critical : Bool} {contents : Bytes}
    (h : applyExtension exts Oid.keyUsage critical contents = .ok exts') :
    ∃ octets unused, ReadableString octets unused ∧
      contents = encodeTlv .bitString (unused :: octets) ∧
      exts'.keyUsage = some ⟨keyUsageBits octets⟩ := by
  simp only [applyExtension, show ¬ Oid.keyUsage = Oid.basicConstraints by decide, if_false,
    if_true] at h
  obtain ⟨⟨⟨octets, unused⟩, inner⟩, hread, h⟩ := bind_eq_ok.mp h
  obtain ⟨_, hfinish, h⟩ := bind_eq_ok.mp h
  obtain ⟨_, hlen, h⟩ := bind_eq_ok.mp h
  obtain rfl := Except.ok.inj h
  obtain ⟨hspan, hunused, hnil⟩ := readBitStringFlags_spans (onX_eq_ok.mp hread)
  have hlen : octets.length ≤ 2 := by simpa using refuse_eq_ok.mp hlen
  exact ⟨octets, unused, ⟨hlen, hunused, hnil⟩, hspan.whole (finishX_eq_ok.mp hfinish), rfl⟩

/-- The other arms leave the flags. -/
theorem applyExtension_keyUsage_ne {exts exts' : Extensions} {id : ObjectIdentifier}
    {critical : Bool} {contents : Bytes} (hid : id ≠ Oid.keyUsage)
    (h : applyExtension exts id critical contents = .ok exts') :
    exts'.keyUsage = exts.keyUsage := by
  unfold applyExtension at h
  simp only [if_neg hid] at h
  -- four arms that read a value to its end and store it
  iterate 4
    split at h
    · obtain ⟨_, -, h⟩ := bind_eq_ok.mp h
      obtain ⟨_, -, h⟩ := bind_eq_ok.mp h
      obtain rfl := Except.ok.inj h
      rfl
  split at h
  · obtain rfl := Except.ok.inj h
    rfl
  · obtain rfl := Except.ok.inj h
    rfl

theorem AppliesExtensions.keyUsage_ne {exts exts' : Extensions} {seen : List ObjectIdentifier}
    {elements : List Bytes} {items : List ExtensionItem}
    (h : AppliesExtensions exts seen elements items exts')
    (hne : ∀ item ∈ items, item.id ≠ Oid.keyUsage) : exts'.keyUsage = exts.keyUsage := by
  have happlied := h.applied
  clear h
  induction items generalizing exts with
  | nil =>
      obtain rfl := Except.ok.inj happlied
      rfl
  | cons item rest ih =>
      rw [List.foldlM_cons] at happlied
      obtain ⟨exts₁, happly, hrest⟩ := bind_eq_ok.mp happlied
      rw [ih (fun other hmem => hne other (by simp [hmem])) hrest,
        applyExtension_keyUsage_ne (hne item (by simp)) happly]

/-- The flags come from the one extension that has the id. -/
theorem AppliesExtensions.keyUsage {exts exts' : Extensions} {seen : List ObjectIdentifier}
    {elements : List Bytes} {items : List ExtensionItem} {item : ExtensionItem}
    (h : AppliesExtensions exts seen elements items exts') (hmem : item ∈ items)
    (hid : item.id = Oid.keyUsage) :
    ∃ octets unused, ReadableString octets unused ∧
      item.contents = encodeTlv .bitString (unused :: octets) ∧
      exts'.keyUsage = some ⟨keyUsageBits octets⟩ := by
  obtain ⟨encodes, happlied, fresh, hnodup⟩ := h
  induction encodes generalizing exts seen with
  | nil => cases hmem
  | @cons element first elements rest hfirst hencodes ih =>
      rw [List.foldlM_cons] at happlied
      obtain ⟨exts₁, happly, hrest⟩ := bind_eq_ok.mp happlied
      rw [List.map_cons, List.nodup_cons] at hnodup
      have hrestFresh : ∀ other ∈ rest, other.id ∉ [first.id] := by
        intro other hother hsame
        rw [List.mem_singleton] at hsame
        exact hnodup.1 (List.mem_map.mpr ⟨other, hother, hsame⟩)
      rcases List.mem_cons.mp hmem with rfl | hmem
      · rw [hid] at happly
        obtain ⟨octets, unused, hread, hcontents, hstored⟩ := applyExtension_keyUsage happly
        refine ⟨octets, unused, hread, hcontents, ?_⟩
        have hrun : AppliesExtensions exts₁ [item.id] elements rest exts' :=
          ⟨hencodes, hrest, hrestFresh, hnodup.2⟩
        rw [hrun.keyUsage_ne, hstored]
        intro other hother hsame
        exact hrestFresh other hother (by rw [hsame, hid]; simp)
      · exact ih hmem hrest hrestFresh hnodup.2

/-! ### The string in a certificate -/

/-- The octets of a certificate have a `keyUsage` extension among their extensions, whose value is
the BIT STRING of these octets and unused bits: a certificate is a sequence that starts with the
sequence of its signed fields, and the last of them is the list of extensions. -/
def DeclaresKeyUsage (der octets : Bytes) (unused : UInt8) : Prop :=
  ∃ (fields : List Bytes) (rest : Bytes) (elements : List Bytes),
    der = encodeTlv .sequence (encodeTlv .sequence fields.flatten ++ rest) ∧
    (∀ field ∈ fields, Element field) ∧
    fields.getLast? = some (encodeTlv (.context 3 true) (encodeTlv .sequence elements.flatten)) ∧
    (∀ element ∈ elements, Element element) ∧
    ∃ element ∈ elements,
      EncodesExtension Oid.keyUsage (encodeTlv .bitString (unused :: octets)) element

/-- The extensions of a certificate that has any are those of the list in its last field. -/
theorem parse_extensions {der : Bytes} {certificate : Certificate}
    (h : Certificate.parse der = .ok certificate) (hsome : certificate.extensions ≠ {}) :
    ∃ (front : List Bytes) (rest : Bytes) (elements : List Bytes) (items : List ExtensionItem),
      der.length < 2 ^ 64 ∧
      der = encodeTlv .sequence (encodeTlv .sequence (front ++
        [encodeTlv (.context 3 true) (encodeTlv .sequence elements.flatten)]).flatten ++ rest) ∧
      (∀ field ∈ front ++ [encodeTlv (.context 3 true) (encodeTlv .sequence elements.flatten)],
        Element field) ∧
      AppliesExtensions {} [] elements items certificate.extensions := by
  obtain ⟨contents, hlayout, hshort, front, wrapper, hcontents, hfront, hwrapper, hparse⟩ :=
    Certificate.parse_layout h
  cases wrapper with
  | none => exact absurd (Except.ok.inj hparse).symm hsome
  | some value =>
      obtain ⟨_, -, hparse⟩ := bind_eq_ok.mp hparse
      obtain ⟨⟨list, inner⟩, hsequence, hparse⟩ := bind_eq_ok.mp hparse
      obtain ⟨_, hfinish, hparse⟩ := bind_eq_ok.mp hparse
      obtain ⟨_, -, hloop⟩ := bind_eq_ok.mp hparse
      obtain ⟨body, rfl, hspan, -⟩ := readSequence_spans hsequence
      obtain ⟨elements, items, hflat, hitems⟩ :=
        readExtensionsLoop_spec (Nat.zero_le _) (Nat.sub_le _ _) hloop
      have hbody : body = elements.flatten := hflat
      have hvalue := hspan.whole (finishX_eq_ok.mp hfinish)
      refine ⟨front, certificate.signatureAlgorithm.encoded ++
        encodeTlv .bitString (0 :: certificate.signature), elements, items, hshort, ?_, ?_,
        hitems⟩
      · have hencoded := hwrapper value rfl
        rw [hvalue, hbody] at hencoded
        rw [hlayout.whole, hlayout.signed, hcontents, optionalField, Option.map_some,
          Option.toList_some, hencoded, List.append_assoc]
      · simp only [List.mem_append, List.mem_singleton]
        rintro field (hfield | rfl)
        · exact hfront field hfield
        · exact ⟨_, _, rfl⟩

section Items

variable {exts exts' : Extensions} {seen : List ObjectIdentifier} {elements : List Bytes}
  {items : List ExtensionItem}

theorem AppliesExtensions.item_of_element (h : AppliesExtensions exts seen elements items exts')
    {element : Bytes} (hmem : element ∈ elements) :
    ∃ item ∈ items, EncodesExtension item.id item.contents element := by
  have hencodes := h.encodes
  clear h
  induction hencodes with
  | nil => cases hmem
  | @cons first item _ _ hfirst _ ih =>
      rcases List.mem_cons.mp hmem with rfl | hmem
      · exact ⟨item, by simp, hfirst⟩
      · obtain ⟨other, hother, hencodes⟩ := ih hmem
        exact ⟨other, by simp [hother], hencodes⟩

theorem AppliesExtensions.element_of_item (h : AppliesExtensions exts seen elements items exts')
    {item : ExtensionItem} (hmem : item ∈ items) :
    ∃ element ∈ elements, EncodesExtension item.id item.contents element := by
  have hencodes := h.encodes
  clear h
  induction hencodes with
  | nil => cases hmem
  | @cons element first _ _ hfirst _ ih =>
      rcases List.mem_cons.mp hmem with rfl | hmem
      · exact ⟨element, by simp, hfirst⟩
      · obtain ⟨other, hother, hencodes⟩ := ih hmem
        exact ⟨other, by simp [hother], hencodes⟩

theorem AppliesExtensions.isElement (h : AppliesExtensions exts seen elements items exts') :
    ∀ element ∈ elements, Element element := by
  intro element hmem
  obtain ⟨item, -, critical, hencodes⟩ := h.item_of_element hmem
  exact ⟨.sequence, _, hencodes⟩

end Items

/-- A certificate whose flags are known has a string they come from. -/
theorem exists_declaresKeyUsage {der : Bytes} {certificate : Certificate} {usage : KeyUsage}
    (h : Certificate.parse der = .ok certificate)
    (husage : certificate.extensions.keyUsage = some usage) :
    ∃ octets unused, DeclaresKeyUsage der octets unused := by
  have hsome : certificate.extensions ≠ {} := fun hnone => by simp [hnone] at husage
  obtain ⟨front, rest, elements, items, -, hder, hfront, hitems⟩ := parse_extensions h hsome
  have hid : ∃ item ∈ items, item.id = Oid.keyUsage := by
    by_contra hnone
    push Not at hnone
    rw [hitems.keyUsage_ne hnone] at husage
    cases husage
  obtain ⟨item, hmem, hid⟩ := hid
  obtain ⟨octets, unused, -, hcontents, -⟩ := hitems.keyUsage hmem hid
  obtain ⟨element, helement, hencodes⟩ := hitems.element_of_item hmem
  refine ⟨octets, unused, _, rest, elements, hder, hfront, List.getLast?_concat,
    hitems.isElement, element, helement, ?_⟩
  rw [← hid, ← hcontents]
  exact hencodes

/-- The parser reads the string that is there. -/
theorem parse_keyUsage {der octets : Bytes} {unused : UInt8} {certificate : Certificate}
    {usage : KeyUsage} (h : Certificate.parse der = .ok certificate)
    (husage : certificate.extensions.keyUsage = some usage)
    (hdeclares : DeclaresKeyUsage der octets unused) :
    ReadableString octets unused ∧ usage = ⟨keyUsageBits octets⟩ := by
  have hsome : certificate.extensions ≠ {} := fun hnone => by simp [hnone] at husage
  obtain ⟨front, rest, elements, items, hshort, hder, hfront, hitems⟩ := parse_extensions h hsome
  obtain ⟨fields, rest', elements', hder', hfields, hlast, helements', element, hmem, hencodes⟩ :=
    hdeclares
  -- level by level, the elements of the declaration are the ones that were read
  have hinner : ∀ {tag : Tag} {contents : Bytes}, (encodeTlv tag contents).length < 2 ^ 64 →
      contents.length < 2 ^ 64 := fun hlen => (encodeTlv_length _ _).trans hlen
  have hpart : ∀ {parts : List Bytes} {part : Bytes}, part ∈ parts →
      parts.flatten.length < 2 ^ 64 → part.length < 2 ^ 64 :=
    fun hpart hlen => (List.sublist_flatten_of_mem hpart).length_le.trans_lt hlen
  have hlen₁ := hshort
  rw [hder] at hlen₁
  obtain ⟨-, hwhole⟩ := encodeTlv_inj hlen₁ (hder.symm.trans hder')
  have hlen₂ := hinner hlen₁
  obtain ⟨-, hsigned, -⟩ := encodeTlv_append_inj hlen₂ hwhole
  rw [List.length_append] at hlen₂
  have hlen₃ := hinner (Nat.lt_of_le_of_lt (Nat.le_add_right _ _) hlen₂)
  obtain rfl := elements_inj hfront hfields hlen₃ hsigned
  rw [List.getLast?_concat, Option.some.injEq] at hlast
  have hlen₄ := hpart (List.mem_append_right front (List.mem_singleton_self _)) hlen₃
  obtain ⟨-, hlist⟩ := encodeTlv_inj hlen₄ hlast
  have hlen₅ := hinner hlen₄
  obtain ⟨-, hflat⟩ := encodeTlv_inj hlen₅ hlist
  have hlen₆ := hinner hlen₅
  obtain rfl := elements_inj hitems.isElement helements' hlen₆ hflat
  have hlen₇ := hpart hmem hlen₆
  obtain ⟨item, hitem, hencodes'⟩ := hitems.item_of_element hmem
  obtain ⟨hid, hcontents⟩ := hencodes.inj hlen₇ hencodes'
  obtain ⟨octets', unused', hread, hvalue, hstored⟩ := hitems.keyUsage hitem hid.symm
  obtain ⟨critical, rfl⟩ := hencodes
  have hlen₈ := hpart (List.mem_append_right _ (List.mem_singleton_self _)) (hinner hlen₇)
  obtain ⟨-, hstring⟩ := encodeTlv_inj (hinner hlen₈) (hcontents.trans hvalue)
  obtain ⟨rfl, rfl⟩ := List.cons.inj hstring
  exact ⟨hread, Option.some.inj (husage.symm.trans hstored)⟩

/-- The flags of accepted certificates are the declared bits, and depend on nothing else, exactly
when their strings are clean. -/
theorem keyUsage_declared_iff {der der' octets octets' : Bytes} {unused unused' : UInt8}
    {certificate certificate' : Certificate} {usage usage' : KeyUsage}
    (h : Certificate.parse der = .ok certificate)
    (husage : certificate.extensions.keyUsage = some usage)
    (hdeclares : DeclaresKeyUsage der octets unused)
    (h' : Certificate.parse der' = .ok certificate')
    (husage' : certificate'.extensions.keyUsage = some usage')
    (hdeclares' : DeclaresKeyUsage der' octets' unused') :
    OnlyDeclared usage octets unused ∧ OnlyDeclared usage' octets' unused' ∧
      ((∀ i, DeclaredSet octets unused i ↔ DeclaredSet octets' unused' i) →
        ∀ i < 9, usage.has (UInt16.ofNat i) = usage'.has (UInt16.ofNat i)) ↔
    CleanString octets unused ∧ CleanString octets' unused' := by
  obtain ⟨hread, rfl⟩ := parse_keyUsage h husage hdeclares
  obtain ⟨hread', rfl⟩ := parse_keyUsage h' husage' hdeclares'
  rw [← onlyDeclared_iff hread, ← onlyDeclared_iff hread']
  constructor
  · intro h
    obtain ⟨honly, honly', -⟩ := h
    exact ⟨honly, honly'⟩
  · intro h
    obtain ⟨honly, honly'⟩ := h
    exact ⟨honly, honly', fun hsame i hi => sameFlags_of_sameBits hread hread' honly honly' hsame hi⟩

/-- The fields of the sample that come before its extensions. -/
def keyUsageFields : List Bytes :=
  [encodeTlv (.context 0 true) (encodeTlv .integer [2]), encodeTlv .integer [1],
    encodeTlv .sequence (encodeTlv .oid Oid.ed25519.asBytes), encodeTlv .sequence [],
    encodeTlv .sequence (encodeTlv .utcTime [0x37, 0x30, 0x30, 0x31, 0x30, 0x31, 0x30, 0x30, 0x30,
      0x30, 0x30, 0x30, 0x5a] ++ encodeTlv .utcTime [0x34, 0x39, 0x31, 0x32, 0x33, 0x31, 0x32,
      0x33, 0x35, 0x39, 0x35, 0x39, 0x5a]),
    encodeTlv .sequence [],
    encodeTlv .sequence (encodeTlv .sequence (encodeTlv .oid Oid.ed25519.asBytes) ++
      encodeTlv .bitString [0, 7])]

/-- A certificate with a `keyUsage` extension of the given string. -/
def keyUsageDer (octets : Bytes) (unused : UInt8) : Bytes :=
  encodeTlv .sequence (encodeTlv .sequence (keyUsageFields ++
    [encodeTlv (.context 3 true) (encodeTlv .sequence
      [encodeTlv .sequence (extensionFields Oid.keyUsage none
        (encodeTlv .bitString (unused :: octets))).flatten].flatten)]).flatten ++
    (encodeTlv .sequence (encodeTlv .oid Oid.ed25519.asBytes) ++ encodeTlv .bitString [0, 9]))

theorem keyUsageDer_declares (octets : Bytes) (unused : UInt8) :
    DeclaresKeyUsage (keyUsageDer octets unused) octets unused := by
  refine ⟨_, _, _, rfl, ?_, List.getLast?_concat, ?_, _, List.mem_singleton_self _, none, rfl⟩
  · intro field hfield
    simp only [keyUsageFields, List.cons_append, List.nil_append, List.mem_cons, List.not_mem_nil,
      or_false] at hfield
    rcases hfield with rfl | rfl | rfl | rfl | rfl | rfl | rfl | rfl <;> exact ⟨_, _, rfl⟩
  · simp only [List.mem_singleton, forall_eq]
    exact ⟨_, _, rfl⟩

/-- The flags of that certificate, if it is accepted. -/
def keyUsageOf (octets : Bytes) (unused : UInt8) : Option KeyUsage :=
  (Certificate.parse (keyUsageDer octets unused)).toOption.bind (·.extensions.keyUsage)

theorem keyUsageOf_inv {octets : Bytes} {unused : UInt8} {usage : KeyUsage}
    (h : keyUsageOf octets unused = some usage) :
    ∃ certificate, Certificate.parse (keyUsageDer octets unused) = .ok certificate ∧
      certificate.extensions.keyUsage = some usage := by
  obtain ⟨certificate, hparse, husage⟩ := Option.bind_eq_some_iff.mp h
  exact ⟨certificate, toOption_eq_some.mp hparse, husage⟩

/-- `keyCertSign` and `cRLSign` in seven bits and in nine. -/
theorem keyUsage_declared_iff_same :
    ∃ certificate certificate',
      Certificate.parse (keyUsageDer [0x06] 1) = .ok certificate ∧
      Certificate.parse (keyUsageDer [0x06, 0x00] 7) = .ok certificate' ∧
      certificate.extensions.keyUsage = some ⟨0x0600⟩ ∧
      certificate'.extensions.keyUsage = some ⟨0x0600⟩ ∧
      OnlyDeclared ⟨0x0600⟩ [0x06] 1 ∧ OnlyDeclared ⟨0x0600⟩ [0x06, 0x00] 7 := by
  obtain ⟨certificate, hparse, husage⟩ :=
    keyUsageOf_inv (by decide +kernel : keyUsageOf [0x06] 1 = some ⟨0x0600⟩)
  obtain ⟨certificate', hparse', husage'⟩ :=
    keyUsageOf_inv (by decide +kernel : keyUsageOf [0x06, 0x00] 7 = some ⟨0x0600⟩)
  obtain ⟨honly, honly', -⟩ := (keyUsage_declared_iff hparse husage (keyUsageDer_declares _ _)
    hparse' husage' (keyUsageDer_declares _ _)).mpr
    ⟨.inr (.inl ⟨0x06, rfl, by decide⟩), .inr (.inr ⟨rfl, rfl⟩)⟩
  exact ⟨certificate, certificate', hparse, hparse', husage, husage', honly, honly'⟩

/-- Five bits are declared here, all of them zero, and the sixth is reported: the certificate may
sign others. With a zero in its place the declared bits are the same, and it may not. -/
theorem keyUsage_undeclared_keyCertSign :
    ∃ certificate certificate' usage usage',
      Certificate.parse (keyUsageDer [0x04] 3) = .ok certificate ∧
      Certificate.parse (keyUsageDer [0x00] 3) = .ok certificate' ∧
      certificate.extensions.keyUsage = some usage ∧
      certificate'.extensions.keyUsage = some usage' ∧
      DeclaresKeyUsage (keyUsageDer [0x04] 3) [0x04] 3 ∧
      DeclaresKeyUsage (keyUsageDer [0x00] 3) [0x00] 3 ∧
      usage.has 5 = true ∧ ¬ 5 < declaredBits [0x04] 3 ∧
      (∀ i, DeclaredSet [0x04] 3 i ↔ DeclaredSet [0x00] 3 i) ∧ usage'.has 5 = false := by
  obtain ⟨certificate, hparse, husage⟩ :=
    keyUsageOf_inv (by decide +kernel : keyUsageOf [0x04] 3 = some ⟨0x0400⟩)
  obtain ⟨certificate', hparse', husage'⟩ :=
    keyUsageOf_inv (by decide +kernel : keyUsageOf [0x00] 3 = some ⟨0x0000⟩)
  refine ⟨certificate, certificate', _, _, hparse, hparse', husage, husage',
    keyUsageDer_declares _ _, keyUsageDer_declares _ _, by decide, by decide, ?_, by decide⟩
  intro i
  have hsame : ∀ i < 5, bitAt [0x04] i = bitAt [0x00] i := by decide
  exact and_congr_right fun hi => by rw [hsame i hi]

end RustyTls
