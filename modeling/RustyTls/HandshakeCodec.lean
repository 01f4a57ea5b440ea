import RustyTls.Framing

/-!
# RustyTls.HandshakeCodec

The message codecs as equations: a parser accepts exactly the encodings of the values that fit
their length fields, and returns the value encoded. One equivalence per message; both
directions are used, the one from parsing to learn what a peer sent, the other to run a
handshake on what this side wrote.
-/

namespace RustyTls

open Core

/-! ### Messages -/

/-- The type octet of a message that has a name of its own. -/
def HandshakeType.Known (typ : HandshakeType) : Prop := HandshakeType.fromU8 typ.asU8 = typ

theorem Message.encode_eq (typ : HandshakeType) (body : Bytes) :
    Message.encode typ body = typ.asU8 :: prefixed 3 body := by
  have happends := Writer.comp_appends (Writer.u8_appends typ.asU8)
    (Writer.vectorU24_appends (Writer.bytes_appends body))
  have hencode : Message.encode typ body = Writer.new.buffer ++ ([typ.asU8] ++ prefixed 3 body) :=
    congrArg Writer.buffer (happends Writer.new)
  simpa [Writer.new] using hencode

/-- Every type octet is kept, known or not. -/
@[simp] theorem HandshakeType.asU8_fromU8 (octet : UInt8) : (fromU8 octet).asU8 = octet := by
  unfold fromU8
  split_ifs <;> simp_all [asU8]

/-- A message off the wire is the encoding of its type and body. -/
theorem Framed.encoded_eq {m : Message} (h : Framed m) : m.encoded = Message.encode m.typ m.body := by
  obtain ⟨octet, htyp, -, henc⟩ := h
  rw [Message.encode_eq, htyp, HandshakeType.asU8_fromU8, henc, prefixed]

/-- The message with a given type and body. -/
def Message.of (typ : HandshakeType) (body : Bytes) : Message := ⟨typ, body, Message.encode typ body⟩

theorem Message.of_framed {typ : HandshakeType} (htyp : typ.Known) {body : Bytes}
    (hbody : body.length < 2 ^ 24) : Framed (Message.of typ body) :=
  ⟨typ.asU8, htyp.symm, hbody, Message.encode_eq typ body⟩

/-! ### Lists of extensions -/

theorem nextU16_iff (out : List UInt16) (input : Bytes) (out' : List UInt16) (rest : Bytes) :
    nextU16 out input = .ok (out', rest) ↔
      ∃ v, out' = out ++ [v] ∧ input = beBytes 2 v.toNat ++ rest ∧ True := by
  simp only [nextU16, wire, bind_eq_ok, mapErr_eq_ok]
  constructor
  · intro h
    obtain ⟨⟨v, r⟩, hread, heq⟩ := h
    obtain ⟨rfl, rfl⟩ : out ++ [v] = out' ∧ r.rest = rest := by simpa using heq
    exact ⟨v, rfl, Reader.u16_iff.mp hread, trivial⟩
  · intro h
    obtain ⟨v, rfl, rfl, -⟩ := h
    exact ⟨(v, ⟨rest⟩), Reader.u16_iff.mpr rfl, rfl⟩

theorem nextU16_consuming : Consuming nextU16 := by
  intro out input out' rest h
  obtain ⟨v, -, rfl, -⟩ := (nextU16_iff _ _ _ _).mp h
  simp

/-- The octets of a list of `uint16`s. -/
def u16Bytes (vs : List UInt16) : Bytes := vs.flatMap fun v => beBytes 2 v.toNat

@[simp] theorem u16Bytes_length (vs : List UInt16) : (u16Bytes vs).length = 2 * vs.length := by
  induction vs with
  | nil => rfl
  | cons v vs ih =>
      have hcons : u16Bytes (v :: vs) = beBytes 2 v.toNat ++ u16Bytes vs := rfl
      rw [hcons, List.length_append, ih, beBytes_length, List.length_cons]
      omega

theorem u16List_iff {list : Bytes} {vs : List UInt16} :
    u16List list = .ok vs ↔ list = u16Bytes vs := by
  rw [u16List, consume_each nextU16_consuming nextU16_iff]
  simp [u16Bytes]

/-- The octets of a list of extensions. -/
def extensionBytes (extensions : List Extension) : Bytes :=
  extensions.flatMap fun extension => beBytes 2 extension.typ.toNat ++ prefixed 2 extension.data

/-- Extensions that can be written: they fit their lengths and have pairwise different types. -/
structure ExtensionsFit (extensions : List Extension) : Prop where
  length : (extensionBytes extensions).length < 2 ^ 16
  nodup : (extensions.map (·.typ)).Nodup

theorem nextExtension_iff (out : List Extension) (input : Bytes) (out' : List Extension)
    (rest : Bytes) :
    nextExtension out input = .ok (out', rest) ↔
      ∃ extension, out' = out ++ [extension] ∧
        input = (beBytes 2 extension.typ.toNat ++ prefixed 2 extension.data) ++ rest ∧
        extension.data.length < 2 ^ 16 ∧ ∀ other ∈ out, other.typ ≠ extension.typ := by
  simp only [nextExtension, wire, bind_eq_ok, mapErr_eq_ok, refuse_eq_ok]
  constructor
  · intro h
    obtain ⟨⟨typ, r⟩, htyp, ⟨data, r'⟩, hdata, _, hfresh, heq⟩ := h
    obtain ⟨rfl, rfl⟩ : out ++ [⟨typ, data⟩] = out' ∧ r'.rest = rest := by simpa using heq
    obtain ⟨hrest, hlen⟩ := Reader.vectorU16_iff.mp hdata
    refine ⟨⟨typ, data⟩, rfl, ?_, hlen, by simpa using hfresh⟩
    rw [List.append_assoc, ← hrest]
    exact Reader.u16_iff.mp htyp
  · intro h
    obtain ⟨⟨typ, data⟩, rfl, rfl, hlen, hfresh⟩ := h
    refine ⟨(typ, ⟨prefixed 2 data ++ rest⟩), Reader.u16_iff.mpr (by simp), (data, ⟨rest⟩),
      Reader.vectorU16_iff.mpr ⟨rfl, hlen⟩, (), ?_, rfl⟩
    simpa using hfresh

theorem nextExtension_consuming : Consuming nextExtension := by
  intro out input out' rest h
  obtain ⟨extension, -, rfl, -⟩ := (nextExtension_iff _ _ _ _).mp h
  simp
  omega

/-- No two of a list differ in place and agree in key. -/
theorem nodup_map_iff {α β : Type} (key : α → β) (xs : List α) :
    (xs.map key).Nodup ↔
      ∀ before x after, xs = before ++ x :: after → ∀ y ∈ before, key y ≠ key x := by
  constructor
  · intro h before x after hsplit y hy hkey
    rw [hsplit, List.map_append, List.map_cons, List.nodup_append] at h
    exact h.2.2 (key y) (List.mem_map_of_mem hy) (key x) (List.mem_cons_self ..) hkey
  · intro h
    induction xs with
    | nil => simp
    | cons a xs ih =>
        rw [List.map_cons, List.nodup_cons]
        constructor
        · intro hmem
          obtain ⟨x, hx, hkey⟩ := List.mem_map.mp hmem
          obtain ⟨before, after, hsplit⟩ := List.append_of_mem hx
          exact h (a :: before) x after (by simp [hsplit]) a (List.mem_cons_self ..) hkey.symm
        · refine ih ?_
          intro before x after hsplit y hy
          exact h (a :: before) x after (by simp [hsplit]) y (List.mem_cons_of_mem _ hy)

theorem extension_data_le {extensions : List Extension} {extension : Extension}
    (h : extension ∈ extensions) : extension.data.length ≤ (extensionBytes extensions).length := by
  obtain ⟨before, after, rfl⟩ := List.append_of_mem h
  simp [extensionBytes]
  omega

theorem parseExtensions_iff {r r' : Reader} {extensions : List Extension} :
    parseExtensions r = .ok (extensions, r') ↔
      r.rest = prefixed 2 (extensionBytes extensions) ++ r'.rest ∧ ExtensionsFit extensions := by
  simp only [parseExtensions, wire, bind_eq_ok, mapErr_eq_ok]
  constructor
  · intro h
    obtain ⟨⟨block, r''⟩, hblock, found, hloop, heq⟩ := h
    obtain ⟨rfl, rfl⟩ : found = extensions ∧ r'' = r' := by simpa using heq
    obtain ⟨hrest, hlen⟩ := Reader.vectorU16_iff.mp hblock
    obtain ⟨xs, rfl, rfl, hQ⟩ := (consume_items nextExtension_consuming nextExtension_iff).mp hloop
    refine ⟨hrest, hlen, (nodup_map_iff _ _).mpr ?_⟩
    intro before x after hsplit y hy
    exact (hQ before x after hsplit).2 y (by simpa using hy)
  · intro h
    obtain ⟨hrest, hlen, hnodup⟩ := h
    refine ⟨(extensionBytes extensions, r'), Reader.vectorU16_iff.mpr ⟨hrest, hlen⟩, extensions, ?_, rfl⟩
    refine (consume_items nextExtension_consuming nextExtension_iff).mpr ⟨extensions, rfl, rfl, ?_⟩
    intro before x after hsplit
    have hx : x ∈ extensions := by simp [hsplit]
    refine ⟨Nat.lt_of_le_of_lt (extension_data_le hx) hlen, ?_⟩
    intro y hy
    exact (nodup_map_iff _ _).mp hnodup before x after hsplit y (by simpa using hy)

theorem writeExtensions_appends (extensions : List Extension) :
    Writer.Appends (writeExtensions extensions) (prefixed 2 (extensionBytes extensions)) := by
  refine Writer.vectorU16_appends (Writer.each_appends ?_ extensions)
  intro extension
  exact Writer.comp_appends (Writer.u16_appends extension.typ)
    (Writer.vectorU16_appends (Writer.bytes_appends extension.data))

/-- Finding an extension by its type, when no other has it. -/
theorem find_eq_some {extensions : List Extension} (hnodup : (extensions.map (·.typ)).Nodup)
    {extension : Extension} (h : extension ∈ extensions) :
    find extensions extension.typ = some extension.data := by
  obtain ⟨before, after, hsplit⟩ := List.append_of_mem h
  have hfresh := (nodup_map_iff _ _).mp hnodup before extension after hsplit
  have hfind : extensions.find? (·.typ == extension.typ) = some extension := by
    rw [hsplit, List.find?_append, List.find?_eq_none.mpr]
    · simp
    · intro y hy
      simpa using hfresh y hy
  rw [find, hfind]
  rfl

/-! ### ClientHello -/

namespace ClientHello

/-- A hello whose fields fit their lengths. -/
structure Fits (hello : ClientHello) : Prop where
  random : hello.random.length = 32
  sessionId : hello.sessionId.length < 2 ^ 8
  suites : 2 * hello.cipherSuites.length < 2 ^ 16
  suites_ne : hello.cipherSuites ≠ []
  extensions : ExtensionsFit hello.extensions

theorem encode_eq (hello : ClientHello) :
    hello.encode = beBytes 2 legacyVersion.toNat ++ (hello.random ++ (prefixed 1 hello.sessionId ++
      (prefixed 2 (u16Bytes hello.cipherSuites) ++ (prefixed 1 [0] ++
        prefixed 2 (extensionBytes hello.extensions))))) := by
  have hsuites : Writer.Appends (Writer.vectorU16 (.each hello.cipherSuites .u16))
      (prefixed 2 (u16Bytes hello.cipherSuites)) :=
    Writer.vectorU16_appends (Writer.each_appends Writer.u16_appends _)
  have hid := Writer.vectorU8_appends (Writer.bytes_appends hello.sessionId)
  have hzero := Writer.vectorU8_appends (Writer.u8_appends 0)
  simp only [encode, writeExtensions_appends _ _, hzero _, hsuites _, hid _, Writer.intoVec,
    Writer.bytes, Writer.u16, Writer.new]
  simp

/-- A ClientHello parses exactly when it is the encoding of one. -/
theorem parse_iff {body : Bytes} {hello : ClientHello} :
    parse body = .ok hello ↔ body = hello.encode ∧ hello.Fits := by
  simp only [parse, wire, bind_eq_ok, mapErr_eq_ok, refuse_eq_ok]
  constructor
  · intro h
    obtain ⟨⟨version, r₁⟩, hversion, _, hlegacy, ⟨random, r₂⟩, hrandom, ⟨sessionId, r₃⟩, hsessionId,
      ⟨suites, r₄⟩, hsuites, cipherSuites, hlist, _, hne, ⟨compression, r₅⟩, hcompression, _, hzero,
      ⟨extensions, r₆⟩, hextensions, _, hfinish, heq⟩ := h
    obtain rfl := Except.ok.inj heq
    obtain ⟨hrest₁, hrandomLen⟩ := Reader.take_iff.mp hrandom
    obtain ⟨hrest₂, hidLen⟩ := Reader.vectorU8_iff.mp hsessionId
    obtain ⟨hrest₃, hsuitesLen⟩ := Reader.vectorU16_iff.mp hsuites
    obtain ⟨hrest₄, -⟩ := Reader.vectorU8_iff.mp hcompression
    obtain ⟨hrest₅, hfit⟩ := parseExtensions_iff.mp hextensions
    have hbody := Reader.u16_iff.mp hversion
    have hend : r₆.rest = [] := Reader.finish_eq_ok.mp hfinish
    obtain rfl := u16List_iff.mp hlist
    refine ⟨?_, hrandomLen, hidLen, by simpa using hsuitesLen, hne, hfit⟩
    obtain rfl : version = legacyVersion := not_not.mp hlegacy
    obtain rfl : compression = [0] := not_not.mp hzero
    rw [encode_eq]
    simp only at hbody hrest₁ hrest₂ hrest₃ hrest₄ hrest₅
    rw [hbody, hrest₁, hrest₂, hrest₃, hrest₄, hrest₅, hend]
    simp
  · intro h
    obtain ⟨hbody, hfits⟩ := h
    rw [hbody, encode_eq]
    refine ⟨(legacyVersion, _), Reader.u16_iff.mpr rfl, (), by simp, (hello.random, _),
      Reader.take_iff.mpr ⟨rfl, hfits.random⟩, (hello.sessionId, _),
      Reader.vectorU8_iff.mpr ⟨rfl, hfits.sessionId⟩, (u16Bytes hello.cipherSuites, _),
      Reader.vectorU16_iff.mpr ⟨rfl, by simpa using hfits.suites⟩, hello.cipherSuites,
      u16List_iff.mpr rfl, (), hfits.suites_ne, ([0], _), Reader.vectorU8_iff.mpr ⟨rfl, by decide⟩, (),
      by simp, (hello.extensions, ⟨[]⟩), parseExtensions_iff.mpr ⟨by simp [prefixed], hfits.extensions⟩, (),
      Reader.finish_eq_ok.mpr rfl, rfl⟩

end ClientHello

/-! ### ServerHello -/

namespace ServerHello

/-- A hello whose fields fit their lengths. -/
structure Fits (hello : ServerHello) : Prop where
  random : hello.random.length = 32
  sessionId : hello.sessionId.length < 2 ^ 8
  extensions : ExtensionsFit hello.extensions

theorem encode_eq (hello : ServerHello) :
    hello.encode = beBytes 2 legacyVersion.toNat ++ (hello.random ++ (prefixed 1 hello.sessionId ++
      (beBytes 2 hello.cipherSuite.toNat ++ (0 :: prefixed 2 (extensionBytes hello.extensions))))) := by
  have hid := Writer.vectorU8_appends (Writer.bytes_appends hello.sessionId)
  simp only [encode, writeExtensions_appends _ _, hid _, Writer.intoVec, Writer.bytes, Writer.u16,
    Writer.u8, Writer.new]
  simp

/-- A ServerHello parses exactly when it is the encoding of one. -/
theorem parse_iff {body : Bytes} {hello : ServerHello} :
    parse body = .ok hello ↔ body = hello.encode ∧ hello.Fits := by
  simp only [parse, wire, bind_eq_ok, mapErr_eq_ok, refuse_eq_ok]
  constructor
  · intro h
    obtain ⟨⟨version, r₁⟩, hversion, _, hlegacy, ⟨random, r₂⟩, hrandom, ⟨sessionId, r₃⟩, hsessionId,
      ⟨suite, r₄⟩, hsuite, ⟨compression, r₅⟩, hcompression, _, hzero, ⟨extensions, r₆⟩, hextensions, _,
      hfinish, heq⟩ := h
    obtain rfl := Except.ok.inj heq
    obtain ⟨hrest₁, hrandomLen⟩ := Reader.take_iff.mp hrandom
    obtain ⟨hrest₂, hidLen⟩ := Reader.vectorU8_iff.mp hsessionId
    have hrest₃ := Reader.u16_iff.mp hsuite
    have hrest₄ := Reader.u8_iff.mp hcompression
    obtain ⟨hrest₅, hfit⟩ := parseExtensions_iff.mp hextensions
    have hbody := Reader.u16_iff.mp hversion
    have hend : r₆.rest = [] := Reader.finish_eq_ok.mp hfinish
    refine ⟨?_, hrandomLen, hidLen, hfit⟩
    obtain rfl : version = legacyVersion := not_not.mp hlegacy
    obtain rfl : compression = 0 := not_not.mp hzero
    rw [encode_eq]
    simp only at hbody hrest₁ hrest₂ hrest₃ hrest₄ hrest₅
    rw [hbody, hrest₁, hrest₂, hrest₃, hrest₄, hrest₅, hend]
    simp
  · intro h
    obtain ⟨hbody, hfits⟩ := h
    rw [hbody, encode_eq]
    exact ⟨(legacyVersion, _), Reader.u16_iff.mpr rfl, (), by simp, (hello.random, _),
      Reader.take_iff.mpr ⟨rfl, hfits.random⟩, (hello.sessionId, _),
      Reader.vectorU8_iff.mpr ⟨rfl, hfits.sessionId⟩, (hello.cipherSuite, _),
      Reader.u16_iff.mpr rfl, (0, ⟨_⟩), Reader.u8_iff.mpr rfl, (), by simp, (hello.extensions, ⟨[]⟩),
      parseExtensions_iff.mpr ⟨by simp [prefixed], hfits.extensions⟩, (), Reader.finish_eq_ok.mpr rfl,
      rfl⟩

end ServerHello

/-! ### pre_shared_key -/

/-- The octets of an offer's identities. -/
def identityBytes (identities : List PskIdentity) : Bytes :=
  prefixed 2 (identities.flatMap fun identity =>
    prefixed 2 identity.identity ++ beBytes 4 identity.obfuscatedTicketAge.toNat)

/-- The octets of an offer's binders. -/
def binderBytes (binders : List Bytes) : Bytes := prefixed 2 (binders.flatMap (prefixed 1))

theorem writeBinders_appends (binders : List Bytes) :
    Writer.Appends (writeBinders binders) (binderBytes binders) := by
  refine Writer.vectorU16_appends (Writer.each_appends ?_ binders)
  intro binder
  exact Writer.vectorU8_appends (Writer.bytes_appends binder)

theorem writeBinders_new (binders : List Bytes) :
    (writeBinders binders Writer.new).intoVec = binderBytes binders := by
  rw [writeBinders_appends binders Writer.new]
  rfl

theorem binderBytes_length (binders : List Bytes) :
    (binderBytes binders).length = binderBlockLen (binders.map (·.length)) := by
  have hsum : (binders.flatMap (prefixed 1)).length = ((binders.map (·.length)).map (1 + ·)).sum := by
    induction binders with
    | nil => rfl
    | cons binder binders ih => simp [ih]
  rw [binderBytes, prefixed_length, hsum, binderBlockLen]

namespace PresharedKeyOffer

theorem nextIdentity_iff (out : List PskIdentity) (input : Bytes) (out' : List PskIdentity)
    (rest : Bytes) :
    nextIdentity out input = .ok (out', rest) ↔
      ∃ identity, out' = out ++ [identity] ∧
        input = (prefixed 2 identity.identity ++
          beBytes 4 identity.obfuscatedTicketAge.toNat) ++ rest ∧
        identity.identity.length < 2 ^ 16 ∧ identity.identity ≠ [] := by
  simp only [nextIdentity, wire, bind_eq_ok, mapErr_eq_ok, refuse_eq_ok]
  constructor
  · intro h
    obtain ⟨⟨identity, r⟩, hidentity, ⟨age, r'⟩, hage, _, hne, heq⟩ := h
    obtain ⟨rfl, rfl⟩ : out ++ [⟨identity, age⟩] = out' ∧ r'.rest = rest := by simpa using heq
    obtain ⟨hrest, hlen⟩ := Reader.vectorU16_iff.mp hidentity
    refine ⟨⟨identity, age⟩, rfl, ?_, hlen, hne⟩
    rw [List.append_assoc, ← Reader.u32_iff.mp hage]
    exact hrest
  · intro h
    obtain ⟨⟨identity, age⟩, rfl, rfl, hlen, hne⟩ := h
    exact ⟨(identity, ⟨beBytes 4 age.toNat ++ rest⟩), Reader.vectorU16_iff.mpr ⟨by simp, hlen⟩,
      (age, ⟨rest⟩), Reader.u32_iff.mpr rfl, (), hne, rfl⟩

theorem nextIdentity_consuming : Consuming nextIdentity := by
  intro out input out' rest h
  obtain ⟨identity, -, rfl, -⟩ := (nextIdentity_iff _ _ _ _).mp h
  simp
  omega

theorem nextBinder_iff (out : List Bytes) (input : Bytes) (out' : List Bytes) (rest : Bytes) :
    nextBinder out input = .ok (out', rest) ↔
      ∃ binder, out' = out ++ [binder] ∧ input = prefixed 1 binder ++ rest ∧
        binder.length < 2 ^ 8 ∧ 32 ≤ binder.length := by
  simp only [nextBinder, wire, bind_eq_ok, mapErr_eq_ok, refuse_eq_ok]
  constructor
  · intro h
    obtain ⟨⟨binder, r⟩, hbinder, _, hshort, heq⟩ := h
    obtain ⟨rfl, rfl⟩ : out ++ [binder] = out' ∧ r.rest = rest := by simpa using heq
    obtain ⟨hrest, hlen⟩ := Reader.vectorU8_iff.mp hbinder
    exact ⟨binder, rfl, hrest, hlen, Nat.not_lt.mp hshort⟩
  · intro h
    obtain ⟨binder, rfl, rfl, hlen, hshort⟩ := h
    exact ⟨(binder, ⟨rest⟩), Reader.vectorU8_iff.mpr ⟨rfl, hlen⟩, (), Nat.not_lt.mpr hshort, rfl⟩

theorem nextBinder_consuming : Consuming nextBinder := by
  intro out input out' rest h
  obtain ⟨binder, -, rfl, -⟩ := (nextBinder_iff _ _ _ _).mp h
  simp only [List.length_append, prefixed_length]
  omega

/-- An offer whose fields fit their lengths, with a binder for every identity. -/
structure Fits (offer : PresharedKeyOffer) : Prop where
  identity : ∀ identity ∈ offer.identities,
    identity.identity.length < 2 ^ 16 ∧ identity.identity ≠ []
  binder : ∀ binder ∈ offer.binders, binder.length < 2 ^ 8 ∧ 32 ≤ binder.length
  identities : (identityBytes offer.identities).length < 2 ^ 16 + 2
  binders : (binderBytes offer.binders).length < 2 ^ 16 + 2
  identities_ne : offer.identities ≠ []
  length_eq : offer.identities.length = offer.binders.length

/-- An offer parses exactly when it is the encoding of one. -/
theorem parse_iff {data : Bytes} {offer : PresharedKeyOffer} :
    parse data = .ok offer ↔
      data = identityBytes offer.identities ++ binderBytes offer.binders ∧ offer.Fits := by
  simp only [parse, wire, bind_eq_ok, mapErr_eq_ok, refuse_eq_ok]
  constructor
  · intro h
    obtain ⟨⟨ids, r₁⟩, hids, identities, hidentities, ⟨list, r₂⟩, hlist, binders, hbinders, _, hfinish,
      _, hne, _, hcount, heq⟩ := h
    obtain rfl := Except.ok.inj heq
    obtain ⟨hdata, hidsLen⟩ := Reader.vectorU16_iff.mp hids
    obtain ⟨hrest, hlistLen⟩ := Reader.vectorU16_iff.mp hlist
    obtain ⟨rfl, hidentity⟩ := (consume_each nextIdentity_consuming nextIdentity_iff).mp hidentities
    obtain ⟨rfl, hbinder⟩ := (consume_each nextBinder_consuming nextBinder_iff).mp hbinders
    have hend : r₂.rest = [] := Reader.finish_eq_ok.mp hfinish
    refine ⟨?_, hidentity, hbinder, ?_, ?_, hne, not_not.mp hcount⟩
    · simp only at hdata hrest
      rw [hdata, hrest, hend]
      simp [identityBytes, binderBytes]
    · simp only [identityBytes, prefixed_length]
      omega
    · simp only [binderBytes, prefixed_length]
      omega
  · intro h
    obtain ⟨rfl, hfits⟩ := h
    have hids := hfits.identities
    have hlist := hfits.binders
    simp only [identityBytes, binderBytes, prefixed_length] at hids hlist
    exact ⟨(_, ⟨binderBytes offer.binders⟩), Reader.vectorU16_iff.mpr ⟨rfl, by omega⟩,
      offer.identities,
      (consume_each nextIdentity_consuming nextIdentity_iff).mpr ⟨rfl, hfits.identity⟩,
      (_, ⟨[]⟩), Reader.vectorU16_iff.mpr ⟨(List.append_nil _).symm, by omega⟩, offer.binders,
      (consume_each nextBinder_consuming nextBinder_iff).mpr ⟨rfl, hfits.binder⟩, (),
      Reader.finish_eq_ok.mpr rfl, (), hfits.identities_ne, (), not_not.mpr hfits.length_eq, rfl⟩

/-- What precedes the binders, in a message that ends with them. -/
theorem truncated_append (offer : PresharedKeyOffer) (before : Bytes) :
    offer.truncated (before ++ binderBytes offer.binders) = .ok before := by
  have hblock := binderBytes_length offer.binders
  have hshort : ¬ (before ++ binderBytes offer.binders).length
      < binderBlockLen (offer.binders.map (·.length)) := by
    rw [← hblock, List.length_append]
    omega
  have hstart : (before ++ binderBytes offer.binders).length
      - binderBlockLen (offer.binders.map (·.length)) = before.length := by
    rw [← hblock, List.length_append]
    omega
  rw [truncated, refuse_neg _ hshort, ok_bind]
  simp only [hstart, List.drop_left, List.take_left, writeBinders_new]
  rw [refuse_neg _ (by simp), ok_bind]

end PresharedKeyOffer

theorem suffix_prefixed (w : Nat) (bytes : Bytes) : bytes <:+ prefixed w bytes :=
  List.suffix_append ..

/-- A hello ends with the data of its last extension. -/
theorem encode_clientHello_ends {hello : ClientHello} {extension : Extension}
    (hlast : hello.extensions.getLast? = some extension) :
    ∃ before, Message.encode .clientHello hello.encode = before ++ extension.data := by
  obtain ⟨init, hinit⟩ := List.getLast?_eq_some_iff.mp hlast
  have hdata : extension.data <:+ extensionBytes hello.extensions := by
    refine ⟨extensionBytes init ++ beBytes 2 extension.typ.toNat ++
      beBytes 2 extension.data.length, ?_⟩
    rw [hinit]
    simp [extensionBytes, prefixed]
  have hbody : prefixed 2 (extensionBytes hello.extensions) <:+ hello.encode := by
    rw [ClientHello.encode_eq]
    simp only [← List.append_assoc]
    exact List.suffix_append ..
  have hmessage : hello.encode <:+ Message.encode .clientHello hello.encode := by
    rw [Message.encode_eq]
    exact (suffix_prefixed 3 _).trans (List.suffix_cons ..)
  obtain ⟨before, hbefore⟩ := (hdata.trans (suffix_prefixed 2 _)).trans (hbody.trans hmessage)
  exact ⟨before, hbefore.symm⟩

end RustyTls
