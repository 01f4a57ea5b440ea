import RustyTls.Wire

/-!
# RustyTls.NestedVectors

The writer and the reader are inverse on every nested structure.

A structure is its `Fields` in order: integers, raw bytes, and vectors whose contents are fields
again. `Fields.write` writes them with the calls of `Writer`, a vector's contents inside its
closure; `Fields.read` makes the matching calls of `Reader`, a vector's contents through its own
sub-reader, which must be used up.

The writer fills in a prefix once the closure has appended an amount it did not know. `extents`
records, for every vector at every depth, where in the shared buffer its prefix was reserved and
where its closure had got to; `extents_hold` says that in the finished buffer each prefix still
stands there and counts what follows it. A read of a structure succeeds exactly on what writing it
appends (`read_ok`, `read_append`), so nothing shorter will do.
-/

namespace RustyTls

open Core

/-! ### Structures -/

/-- The octets of a vector's length prefix. -/
inductive PrefixWidth
  | one
  | two
  | three
  deriving Repr, DecidableEq

/-- A field other than a vector, with its value. -/
inductive Leaf
  | u8 (value : UInt8)
  | u16 (value : UInt16)
  | u24 (value : Nat)
  | u32 (value : UInt32)
  | bytes (value : Bytes)
  deriving Repr, DecidableEq

/-- What a reader knows of a field other than a vector before it has read it. -/
inductive LeafKind
  | u8
  | u16
  | u24
  | u32
  | bytes (count : Nat)
  deriving Repr, DecidableEq

/-- The fields of a structure in their order. -/
inductive Fields (α : Type)
  | done
  | leaf (value : α) (rest : Fields α)
  | vector (width : PrefixWidth) (contents rest : Fields α)
  deriving Repr, DecidableEq

namespace PrefixWidth

def octets : PrefixWidth → Nat
  | one => 1
  | two => 2
  | three => 3

/-- The writer's call for a vector of this width. -/
def write : PrefixWidth → (Writer → Writer) → Writer → Writer
  | one => Writer.vectorU8
  | two => Writer.vectorU16
  | three => Writer.vectorU24

/-- The reader's call for the contents of a vector of this width. -/
def sub : PrefixWidth → Reader → Except WireError (Reader × Reader)
  | one => Reader.subU8
  | two => Reader.subU16
  | three => Reader.subU24

end PrefixWidth

namespace Leaf

def write : Leaf → Writer → Writer
  | u8 value => Writer.u8 value
  | u16 value => Writer.u16 value
  | u24 value => Writer.u24 value
  | u32 value => Writer.u32 value
  | bytes value => Writer.bytes value

def encode : Leaf → Bytes
  | u8 value => [value]
  | u16 value => beBytes 2 value.toNat
  | u24 value => beBytes 3 value
  | u32 value => beBytes 4 value.toNat
  | bytes value => value

def kind : Leaf → LeafKind
  | u8 _ => .u8
  | u16 _ => .u16
  | u24 _ => .u24
  | u32 _ => .u32
  | bytes value => .bytes value.length

/-- The value is one its width can carry; a `uint24` comes in a wider type. -/
def Fits : Leaf → Prop
  | u24 value => value < 2 ^ 24
  | _ => True

end Leaf

/-- The reader's call for a field other than a vector. -/
def LeafKind.read : LeafKind → Reader → Except WireError (Leaf × Reader)
  | u8, r => do
      let (value, r) ← r.u8
      .ok (.u8 value, r)
  | u16, r => do
      let (value, r) ← r.u16
      .ok (.u16 value, r)
  | u24, r => do
      let (value, r) ← r.u24
      .ok (.u24 value, r)
  | u32, r => do
      let (value, r) ← r.u32
      .ok (.u32 value, r)
  | bytes count, r => do
      let (value, r) ← r.take count
      .ok (.bytes value, r)

namespace Fields

def map {α β : Type} (f : α → β) : Fields α → Fields β
  | done => done
  | leaf value rest => leaf (f value) (rest.map f)
  | vector width contents rest => vector width (contents.map f) (rest.map f)

/-- What a reader knows of a structure before it has read it. -/
def kinds (t : Fields Leaf) : Fields LeafKind := t.map Leaf.kind

/-- Write a structure: one call a field, a vector's contents inside its closure. -/
def write : Fields Leaf → Writer → Writer
  | done, w => w
  | leaf value rest, w => rest.write (value.write w)
  | vector width contents rest, w => rest.write (width.write (fun w => contents.write w) w)

/-- Read a structure: one call a field, a vector's contents through its sub-reader. -/
def read : Fields LeafKind → Reader → Except WireError (Fields Leaf × Reader)
  | done, r => .ok (done, r)
  | leaf kind rest, r => do
      let (value, r) ← kind.read r
      let (values, r) ← rest.read r
      .ok (leaf value values, r)
  | vector width contents rest, r => do
      let (inner, r) ← width.sub r
      let (held, inner) ← contents.read inner
      inner.finish
      let (values, r) ← rest.read r
      .ok (vector width held values, r)

/-- Every value, and the contents of every vector, are of a size its width can carry. -/
def Fits : Fields Leaf → Prop
  | done => True
  | leaf value rest => value.Fits ∧ rest.Fits
  | vector width contents rest =>
      (contents.write Writer.new).buffer.length < 256 ^ width.octets ∧ contents.Fits ∧ rest.Fits

/-- The octets of a structure. -/
def encode : Fields Leaf → Bytes
  | done => []
  | leaf value rest => value.encode ++ rest.encode
  | vector width contents rest => prefixed width.octets contents.encode ++ rest.encode

end Fields

/-! ### Writing -/

theorem PrefixWidth.write_appends (width : PrefixWidth) {body : Writer → Writer} {out : Bytes}
    (hbody : Writer.Appends body out) :
    Writer.Appends (width.write body) (prefixed width.octets out) := by
  cases width with
  | one => exact Writer.vectorU8_appends hbody
  | two => exact Writer.vectorU16_appends hbody
  | three => exact Writer.vectorU24_appends hbody

theorem Leaf.write_appends (value : Leaf) : Writer.Appends value.write value.encode := by
  cases value with
  | u8 value => exact Writer.u8_appends value
  | u16 value => exact Writer.u16_appends value
  | u24 value => exact Writer.u24_appends value
  | u32 value => exact Writer.u32_appends value
  | bytes value => exact Writer.bytes_appends value

namespace Fields

theorem write_appends (t : Fields Leaf) : Writer.Appends t.write t.encode := by
  induction t with
  | done => exact Writer.id_appends
  | leaf value rest ih =>
      intro w
      exact Writer.comp_appends value.write_appends ih w
  | vector width contents rest ihContents ihRest =>
      intro w
      exact Writer.comp_appends (width.write_appends ihContents) ihRest w

theorem write_new (t : Fields Leaf) : (t.write Writer.new).buffer = t.encode := by
  rw [write_appends t Writer.new]
  exact List.nil_append _

end Fields

/-! ### Reading -/

theorem LeafKind.read_iff {kind : LeafKind} {r r' : Reader} {value : Leaf} :
    kind.read r = .ok (value, r') ↔
      r.rest = value.encode ++ r'.rest ∧ value.kind = kind ∧ value.Fits := by
  cases kind with
  | u8 =>
      simp only [read, bind_eq_ok, Prod.exists, Reader.u8_iff]
      cases value <;> simp [Leaf.encode, Leaf.kind, Leaf.Fits]
  | u16 =>
      simp only [read, bind_eq_ok, Prod.exists, Reader.u16_iff]
      cases value <;> simp [Leaf.encode, Leaf.kind, Leaf.Fits]
  | u24 =>
      simp only [read, bind_eq_ok, Prod.exists, Reader.u24_iff]
      cases value <;> simp [Leaf.encode, Leaf.kind, Leaf.Fits]
  | u32 =>
      simp only [read, bind_eq_ok, Prod.exists, Reader.u32_iff]
      cases value <;> simp [Leaf.encode, Leaf.kind, Leaf.Fits]
  | bytes count =>
      simp only [read, bind_eq_ok, Prod.exists, Reader.take_iff]
      cases value <;> simp [Leaf.encode, Leaf.kind, Leaf.Fits]

theorem PrefixWidth.sub_iff {width : PrefixWidth} {r inner r' : Reader} :
    width.sub r = .ok (inner, r') ↔
      r.rest = prefixed width.octets inner.rest ++ r'.rest ∧
        inner.rest.length < 256 ^ width.octets := by
  have hinner : ∀ bytes, Reader.mk bytes = inner ↔ bytes = inner.rest := by
    intro bytes
    cases inner
    simp
  cases width with
  | one => simp [sub, octets, Reader.subU8, bind_eq_ok, Reader.vectorU8_iff, hinner, and_assoc]
  | two => simp [sub, octets, Reader.subU16, bind_eq_ok, Reader.vectorU16_iff, hinner, and_assoc]
  | three => simp [sub, octets, Reader.subU24, bind_eq_ok, Reader.vectorU24_iff, hinner, and_assoc]

namespace Fields

/-- What a successful read was made over. -/
theorem read_ok {s : Fields LeafKind} {r r' : Reader} {t : Fields Leaf}
    (h : s.read r = .ok (t, r')) : r.rest = t.encode ++ r'.rest ∧ t.kinds = s ∧ t.Fits := by
  induction s generalizing r t r' with
  | done =>
      obtain ⟨rfl, rfl⟩ := Prod.mk.inj (Except.ok.inj h)
      exact ⟨rfl, rfl, trivial⟩
  | leaf kind rest ih =>
      simp only [read, bind_eq_ok, Prod.exists, LeafKind.read_iff] at h
      obtain ⟨value, r₁, ⟨hvalue, hkind, hfits⟩, values, r₂, hread, heq⟩ := h
      obtain ⟨rfl, rfl⟩ := Prod.mk.inj (Except.ok.inj heq)
      obtain ⟨hrest, hkinds, hrestFits⟩ := ih hread
      refine ⟨?_, ?_, hfits, hrestFits⟩
      · rw [hvalue, hrest, encode, List.append_assoc]
      · rw [← hkind, ← hkinds]
        rfl
  | vector width contents rest ihContents ihRest =>
      simp only [read, bind_eq_ok, Prod.exists, PrefixWidth.sub_iff, Reader.finish_eq_ok] at h
      obtain ⟨inner, r₁, ⟨hvector, hwidth⟩, held, inner', hinner, -, hfinish, values, r₂, hread,
        heq⟩ := h
      obtain ⟨rfl, rfl⟩ := Prod.mk.inj (Except.ok.inj heq)
      obtain ⟨hheld, hheldKinds, hheldFits⟩ := ihContents hinner
      obtain ⟨hrest, hkinds, hrestFits⟩ := ihRest hread
      -- the sub-reader was used up, so the contents are all the vector holds
      rw [hfinish, List.append_nil] at hheld
      rw [hheld] at hvector hwidth
      refine ⟨?_, ?_, ?_, hheldFits, hrestFits⟩
      · rw [hvector, hrest, encode, List.append_assoc]
      · rw [← hheldKinds, ← hkinds]
        rfl
      · rwa [write_new]

/-- Reading what writing a structure appends, with anything after it. -/
theorem read_append {t : Fields Leaf} (hfits : t.Fits) (after : Bytes) :
    t.kinds.read ⟨t.encode ++ after⟩ = .ok (t, ⟨after⟩) := by
  induction t generalizing after with
  | done => rfl
  | leaf value rest ih =>
      have hvalue : value.kind.read ⟨value.encode ++ (rest.encode ++ after)⟩ =
          .ok (value, ⟨rest.encode ++ after⟩) :=
        LeafKind.read_iff.mpr ⟨rfl, rfl, hfits.1⟩
      have hkinds : (leaf value rest).kinds = leaf value.kind rest.kinds := rfl
      rw [hkinds, encode, List.append_assoc, read, hvalue, ok_bind]
      simp only [ih hfits.2, ok_bind]
  | vector width contents rest ihContents ihRest =>
      obtain ⟨hwidth, hcontents, hrest⟩ := hfits
      rw [write_new] at hwidth
      have hsub : width.sub ⟨prefixed width.octets contents.encode ++ (rest.encode ++ after)⟩ =
          .ok (⟨contents.encode⟩, ⟨rest.encode ++ after⟩) :=
        PrefixWidth.sub_iff.mpr ⟨rfl, hwidth⟩
      have hinner := ihContents hcontents []
      rw [List.append_nil] at hinner
      have hkinds : (vector width contents rest).kinds =
          vector width contents.kinds rest.kinds := rfl
      rw [hkinds, encode, List.append_assoc, read, hsub, ok_bind]
      simp only [hinner, Reader.finish_nil, ihRest hrest, ok_bind]

end Fields

/-! ### Where the prefixes are -/

/-- Where a vector is in the writer's buffer: its prefix is reserved at `start`, and its closure
leaves the buffer at `stop`. -/
structure Extent where
  start : Nat
  width : PrefixWidth
  contents : Fields Leaf
  stop : Nat

/-- The extents of the vectors of a structure, at every depth, in the order they are written. -/
def Fields.extents : Fields Leaf → Writer → List Extent
  | done, _ => []
  | leaf value rest, w => rest.extents (value.write w)
  | vector width contents rest, w =>
      let opened : Writer := ⟨w.buffer ++ List.replicate width.octets 0⟩
      ⟨w.buffer.length, width, contents, (contents.write opened).buffer.length⟩ ::
        (contents.extents opened ++ rest.extents (width.write (fun w => contents.write w) w))

namespace Extent

/-- Where the contents start. -/
def body (e : Extent) : Nat := e.start + e.width.octets

/-- In the finished `buffer`, the prefix at `e` counts the octets that follow it inside the
vector, and these are what its contents are written as. -/
structure Holds (e : Extent) (buffer : Bytes) : Prop where
  inside : e.body ≤ e.stop ∧ e.stop ≤ buffer.length
  counts : beNat ((buffer.drop e.start).take e.width.octets) = e.stop - e.body
  follows : (buffer.drop e.body).take (e.stop - e.body) = (e.contents.write Writer.new).buffer

theorem holds_prefixed {width : PrefixWidth} {contents : Fields Leaf} {before after : Bytes}
    (hfits : contents.encode.length < 256 ^ width.octets) :
    Holds ⟨before.length, width, contents, before.length + width.octets + contents.encode.length⟩
      (before ++ (prefixed width.octets contents.encode ++ after)) := by
  have hspan : ∀ n, n + contents.encode.length - n = contents.encode.length := by
    intro n
    omega
  refine ⟨⟨Nat.le_add_right _ _, ?_⟩, ?_, ?_⟩
  · simp only [List.length_append, prefixed_length]
    omega
  · have hprefix : (before ++ (prefixed width.octets contents.encode ++ after)).drop before.length
        = beBytes width.octets contents.encode.length ++ (contents.encode ++ after) := by
      rw [List.drop_left, prefixed, List.append_assoc]
    simp only [body, hspan, hprefix]
    rw [List.take_left' (beBytes_length _ _), beNat_beBytes hfits]
  · have hbody : (before ++ (prefixed width.octets contents.encode ++ after)).drop
        (before.length + width.octets) = contents.encode ++ after := by
      rw [← List.drop_drop, List.drop_left, prefixed, List.append_assoc,
        List.drop_left' (beBytes_length _ _)]
    simp only [body, hspan, hbody, Fields.write_new, List.take_left]

end Extent

/-- Whatever stands in front of a structure, at the length the writer had reached, and whatever
comes after it: the backfilled prefixes are where they were reserved. -/
theorem Fields.extents_hold {t : Fields Leaf} (hfits : t.Fits) {w : Writer} {before : Bytes}
    (hlen : before.length = w.buffer.length) (after : Bytes) :
    ∀ e ∈ t.extents w, e.Holds (before ++ (t.encode ++ after)) := by
  induction t generalizing w before after with
  | done => exact fun e he => absurd he List.not_mem_nil
  | leaf value rest ih =>
      intro e he
      rw [encode, List.append_assoc, ← List.append_assoc before]
      refine ih hfits.2 ?_ after e he
      rw [value.write_appends w]
      simp [hlen]
  | vector width contents rest ihContents ihRest =>
      intro e he
      obtain ⟨hwidth, hcontents, hrest⟩ := hfits
      rw [write_new] at hwidth
      rw [encode, List.append_assoc]
      rw [extents, List.mem_cons, List.mem_append] at he
      rcases he with rfl | hinner | hlater
      · rw [contents.write_appends]
        simp only [List.length_append, List.length_replicate, ← hlen]
        exact Extent.holds_prefixed hwidth
      · -- inside, what stands in front ends with the prefix, not with the zeros reserved for it
        have hfront : (before ++ beBytes width.octets contents.encode.length).length =
            (w.buffer ++ List.replicate width.octets 0).length := by simp [hlen]
        rw [prefixed, List.append_assoc, ← List.append_assoc before]
        exact ihContents hcontents hfront (rest.encode ++ after) e hinner
      · rw [← List.append_assoc before]
        refine ihRest hrest ?_ after e hlater
        rw [width.write_appends contents.write_appends w]
        simp [hlen]

/-- Writing a structure whose values and vectors fit and reading it with the matching calls gives
it back with every reader used up; every length prefix, at any depth, counts what follows it
inside its vector; and the same calls fail on every proper beginning of what was written. -/
theorem writer_reader_inverse (t : Fields Leaf) (hfits : t.Fits) :
    (∃ r, t.kinds.read ⟨(t.write Writer.new).intoVec⟩ = .ok (t, r) ∧ r.finish = .ok ()) ∧
    (∀ e ∈ t.extents Writer.new, e.Holds (t.write Writer.new).intoVec) ∧
    ∀ bytes, bytes <+: (t.write Writer.new).intoVec → bytes ≠ (t.write Writer.new).intoVec →
      ∃ e, t.kinds.read ⟨bytes⟩ = .error e := by
  have hbytes : (t.write Writer.new).intoVec = t.encode := t.write_new
  have hread := Fields.read_append hfits []
  rw [List.append_nil] at hread
  rw [hbytes]
  refine ⟨⟨⟨[]⟩, hread, rfl⟩, ?_, ?_⟩
  · have hhold := @Fields.extents_hold t hfits Writer.new [] rfl []
    rwa [List.nil_append, List.append_nil] at hhold
  · intro bytes h
    obtain ⟨missing, hmissing⟩ := h
    intro hne
    cases hshort : t.kinds.read ⟨bytes⟩ with
    | error e => exact ⟨e, rfl⟩
    | ok out =>
        obtain ⟨t', r'⟩ := out
        obtain ⟨hrest, hkinds, hfits'⟩ := Fields.read_ok hshort
        -- the read would go the same way on the whole, and stop before the missing octets
        have hlong := Fields.read_append hfits' (r'.rest ++ missing)
        have hwhole : t'.encode ++ (r'.rest ++ missing) = t.encode := by
          rw [← hmissing, ← List.append_assoc]
          exact congrArg (· ++ missing) hrest.symm
        rw [hkinds, hwhole, hread] at hlong
        have hend : [] = r'.rest ++ missing :=
          Reader.mk.inj (Prod.mk.inj (Except.ok.inj hlong)).2
        obtain ⟨-, rfl⟩ := List.append_eq_nil_iff.mp hend.symm
        exact absurd ((List.append_nil _).symm.trans hmissing) hne

/-- A vector in a vector, with fields on both sides of it. -/
def nestedFields : Fields Leaf :=
  .vector .two
    (.leaf (.u8 1) (.vector .one (.leaf (.bytes [2, 3]) .done) (.leaf (.u24 70000) .done)))
    (.leaf (.u32 5) .done)

theorem writer_reader_inverse_nested :
    nestedFields.Fits ∧ ∃ r, nestedFields.kinds.read
      ⟨[0x00, 0x07, 0x01, 0x02, 0x02, 0x03, 0x01, 0x11, 0x70, 0x00, 0x00, 0x00, 0x05]⟩ =
        .ok (nestedFields, r) ∧ r.finish = .ok () := by
  have hlength : 70000 < 2 ^ 24 := by decide
  have hfits : nestedFields.Fits :=
    ⟨by decide, ⟨trivial, by decide, ⟨trivial, trivial⟩, hlength, trivial⟩, trivial, trivial⟩
  have hbytes : (nestedFields.write Writer.new).intoVec =
      [0x00, 0x07, 0x01, 0x02, 0x02, 0x03, 0x01, 0x11, 0x70, 0x00, 0x00, 0x00, 0x05] := by
    decide
  have hinverse := (writer_reader_inverse nestedFields hfits).1
  rw [hbytes] at hinverse
  exact ⟨hfits, hinverse⟩

end RustyTls
