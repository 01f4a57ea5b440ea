import RustyTls.Core.Bytes
import RustyTls.Core.Result

/-!
# RustyTls.Der

The strict DER reader (`handrolled/der.rs`).

A `Reader` keeps the source's pair of a slice and a position, because a failed read leaves
the position wherever it had got to and an iterator above (`GeneralNames`) can observe
that. `Read` is therefore a state monad whose errors keep the state. Callers that give up
on the first error run a read through `on`, which forgets the position of a failed one.

`usize` is 64 bits wide throughout.
-/

namespace RustyTls.Der

open Core

/-- An ASN.1 tag octet, restricted to the low-tag-number form. -/
structure Tag where
  octet : UInt8
  deriving Repr, DecidableEq

namespace Tag

def boolean : Tag := ⟨0x01⟩
def integer : Tag := ⟨0x02⟩
def bitString : Tag := ⟨0x03⟩
def octetString : Tag := ⟨0x04⟩
def null : Tag := ⟨0x05⟩
def oid : Tag := ⟨0x06⟩
def utcTime : Tag := ⟨0x17⟩
def generalizedTime : Tag := ⟨0x18⟩
def sequence : Tag := ⟨0x30⟩

/-- A context-specific tag, e.g. `[0]` in a certificate's `version` field. -/
def context (number : UInt8) (constructed : Bool) : Tag :=
  ⟨0x80 ||| (if constructed then 0x20 else 0) ||| number⟩

end Tag

/-- Everything the reader can refuse. -/
inductive DerError
  | unexpectedEnd
  | unexpectedTag (expected : Tag) (found : UInt8)
  | highTagNumberForm
  | indefiniteLength
  | nonMinimalLength
  | lengthTooLarge
  | trailingData (remaining : Nat)
  | nonMinimalInteger
  | negativeInteger
  | integerTooLarge
  | emptyInteger
  | nonCanonicalBoolean (octet : UInt8)
  | malformedBitString
  | malformedOid
  | malformedString
  deriving Repr, DecidableEq

/-- One value, kept as both its contents and the bytes it was encoded from. -/
structure Value where
  tag : Tag
  contents : Bytes
  encoded : Bytes
  deriving Repr, DecidableEq

/-- An OID, kept in its encoded form for exact comparison. -/
structure ObjectIdentifier where
  asBytes : Bytes
  deriving Repr, DecidableEq

/-- A cursor over a DER-encoded byte slice. -/
structure Reader where
  input : Bytes
  pos : Nat
  deriving Repr, DecidableEq

/-- A read: it moves the cursor, and may fail with the cursor part of the way along. -/
abbrev Read (α : Type) := EStateM DerError Reader α

/-- Run a read whose failure ends the parse. -/
def on {α : Type} (r : Reader) (read : Read α) : Except DerError (α × Reader) :=
  match read r with
  | .ok a r' => .ok (a, r')
  | .error e _ => .error e

namespace Reader

/-- Start reading at the beginning of `input`. -/
def new (input : Bytes) : Reader := ⟨input, 0⟩

/-- True when every byte has been consumed. -/
def isEmpty (r : Reader) : Bool := r.input.length ≤ r.pos

/-- How many bytes remain unread. -/
def remaining (r : Reader) : Nat := r.input.length - r.pos

/-- Consume the reader, erroring if anything is left. -/
def finish (r : Reader) : Except DerError Unit :=
  refuse (r.isEmpty = false) (.trailingData r.remaining)

/-- The tag octet of the next value, without consuming it. -/
def peek (r : Reader) : Option UInt8 := r.input[r.pos]?

end Reader

/-- Read `n` bytes. -/
def take (n : Nat) : Read Bytes := do
  let r ← get
  let stop := r.pos + n
  if 2 ^ 64 ≤ stop then
    throw .lengthTooLarge
  if r.input.length < stop then
    throw .unexpectedEnd
  set { r with pos := stop }
  return (r.input.drop r.pos).take n

/-- Read one byte. -/
def takeByte : Read UInt8 := do
  let bytes ← take 1
  return bytes.headD 0

/-- Read the length octets of a value, in their one minimal form. -/
def readLength : Read Nat := do
  let first ← takeByte
  if first = 0x80 then
    throw .indefiniteLength
  else if first = 0xff then
    throw .nonMinimalLength
  else if first < 0x80 then
    return first.toNat
  else
    let count := (first &&& 0x7f).toNat
    let bytes ← take count
    -- A leading zero means a shorter encoding existed.
    if bytes.headD 0 = 0 then
      throw .nonMinimalLength
    if 8 < count then
      throw .lengthTooLarge
    let len := beNat bytes
    -- The short form could have carried this.
    if len < 0x80 then
      throw .nonMinimalLength
    return len

/-- Read the next value whatever its tag. -/
def readAny : Read Value := do
  let start := (← get).pos
  let tagOctet ← takeByte
  if tagOctet &&& 0x1f = 0x1f then
    throw .highTagNumberForm
  let len ← readLength
  let contents ← take len
  let r ← get
  return { tag := ⟨tagOctet⟩, contents, encoded := (r.input.drop start).take (r.pos - start) }

/-- Read the next value, requiring `tag`; a wrong tag is put back. -/
def read (tag : Tag) : Read Value := do
  let before ← get
  let value ← readAny
  if value.tag ≠ tag then
    set before
    throw (.unexpectedTag tag value.tag.octet)
  return value

/-- Read the next value if it has `tag`, otherwise leave the cursor alone. -/
def readOptional (tag : Tag) : Read (Option Value) := do
  match (← get).peek with
  | some octet =>
      if octet = tag.octet then
        return some (← read tag)
      else
        return none
  | none => return none

/-- Read a `SEQUENCE` and return a reader over its contents. -/
def readSequence : Read Reader := do
  return Reader.new (← read .sequence).contents

/-- Read an unsigned `INTEGER`, returning its minimal big-endian magnitude with any DER sign
octet removed. -/
def readUnsignedInteger : Read Bytes := do
  match (← read .integer).contents with
  | [] => throw .emptyInteger
  | [first] =>
      if first &&& 0x80 ≠ 0 then throw .negativeInteger else return [first]
  | first :: second :: rest =>
      if first &&& 0x80 ≠ 0 then
        throw .negativeInteger
      else if first = 0 then
        -- A leading zero is only permitted to clear the sign bit.
        if second &&& 0x80 = 0 then throw .nonMinimalInteger else return second :: rest
      else
        return first :: second :: rest

/-- Read an unsigned `INTEGER` that must fit in a `u64`. -/
def readU64 : Read Nat := do
  let magnitude ← readUnsignedInteger
  if 8 < magnitude.length then
    throw .integerTooLarge
  return beNat magnitude

/-- Read a `BOOLEAN`, requiring DER's canonical `0x00`/`0xff`. -/
def readBool : Read Bool := do
  match (← read .boolean).contents with
  | [0x00] => return false
  | [0xff] => return true
  | [other] => throw (.nonCanonicalBoolean other)
  | _ => throw .malformedBitString

/-- Read a `BIT STRING` that uses a whole number of octets, returning them. -/
def readBitStringOctets : Read Bytes := do
  match (← read .bitString).contents with
  | [] => throw .malformedBitString
  | unused :: rest => if unused = 0 then return rest else throw .malformedBitString

/-- Read a `BIT STRING` used as a flag set, returning its bits and the number of unused
trailing bits. -/
def readBitStringFlags : Read (Bytes × UInt8) := do
  match (← read .bitString).contents with
  | [] => throw .malformedBitString
  | unused :: bits =>
      if 7 < unused ∨ (bits = [] ∧ unused ≠ 0) then
        throw .malformedBitString
      return (bits, unused)

/-- The loop of `read_oid` over the octets of an OID: every subidentifier is base-128 with the
high bit set on all but its last octet, and does not start with `0x80`. -/
def oidOctetsOk : Bool → Bytes → Bool
  | _, [] => true
  | start, [octet] => !(start && octet == 0x80) && octet &&& 0x80 == 0
  | start, octet :: rest =>
      !(start && octet == 0x80) && oidOctetsOk (octet &&& 0x80 == 0) rest

/-- Read an `OBJECT IDENTIFIER`, returning its encoded body. -/
def readOid : Read ObjectIdentifier := do
  let contents := (← read .oid).contents
  if contents = [] then
    throw .malformedOid
  if oidOctetsOk true contents = false then
    throw .malformedOid
  return ⟨contents⟩

/-- Read a `NULL`, which must have no contents. -/
def readNull : Read Unit := do
  if (← read .null).contents = [] then return () else throw .malformedString

/-! ### Inverting a read -/

section
variable {α β : Type} {r r' : Reader}

theorem Read.bind_eq_ok {x : Read α} {f : α → Read β} {b : β} :
    (x >>= f) r = .ok b r' ↔ ∃ a r₁, x r = .ok a r₁ ∧ f a r₁ = .ok b r' := by
  show EStateM.bind x f r = _ ↔ _
  unfold EStateM.bind
  cases x r with
  | ok a r₁ => simp
  | error e r₁ => simp

@[simp] theorem Read.get_eq_ok {r₀ : Reader} :
    (get : Read Reader) r = .ok r₀ r' ↔ r = r₀ ∧ r = r' := by
  show EStateM.Result.ok r r = _ ↔ _
  simp

@[simp] theorem Read.throw_ne_ok {e : DerError} {a : α} :
    ¬ (throw e : Read α) r = .ok a r' := by
  show ¬ EStateM.Result.error e r = _
  simp

@[simp] theorem Read.set_eq_ok {r₀ : Reader} {u : PUnit} :
    (set r₀ : Read PUnit) r = .ok u r' ↔ r₀ = r' := by
  show EStateM.Result.ok _ r₀ = _ ↔ _
  simp

@[simp] theorem Read.pure_eq_ok {a b : α} :
    (pure a : Read α) r = .ok b r' ↔ a = b ∧ r = r' := by
  show EStateM.Result.ok a r = _ ↔ _
  simp

/-- A read that succeeds moves the cursor at least `k` octets on in the same input, and not
beyond its end. -/
def Advances (k : Nat) (read : Read α) : Prop :=
  ∀ r a r', read r = .ok a r' →
    r'.input = r.input ∧ r.pos + k ≤ r'.pos ∧ r'.pos ≤ max r.pos r.input.length

theorem take_advances (n : Nat) : Advances n (take n) := by
  intro r a r' h
  simp only [take, Read.bind_eq_ok, Read.get_eq_ok] at h
  obtain ⟨_, _, ⟨rfl, rfl⟩, h⟩ := h
  split at h
  · simp [Read.bind_eq_ok] at h
  · split at h
    · simp [Read.bind_eq_ok] at h
    · next hlen =>
        simp only [Read.bind_eq_ok, Read.set_eq_ok, Read.pure_eq_ok] at h
        obtain ⟨_, _, rfl, -, rfl⟩ := h
        exact ⟨rfl, Nat.le_refl _, by simp only; omega⟩

theorem Advances.bind {j k : Nat} {x : Read α} {f : α → Read β} (hx : Advances j x)
    (hf : ∀ a, Advances k (f a)) : Advances (j + k) (x >>= f) := by
  intro r b r' h
  obtain ⟨a, r₁, hx', hf'⟩ := Read.bind_eq_ok.mp h
  obtain ⟨hin, hpos, hend⟩ := hx _ _ _ hx'
  obtain ⟨hin', hpos', hend'⟩ := hf a _ _ _ hf'
  rw [hin] at hend'
  exact ⟨hin'.trans hin, by omega, by omega⟩

theorem pure_advances (a : α) : Advances 0 (pure a : Read α) := by
  intro r b r' h
  obtain ⟨-, rfl⟩ := Read.pure_eq_ok.mp h
  exact ⟨rfl, Nat.le_refl _, Nat.le_max_left _ _⟩

theorem throw_advances (k : Nat) (e : DerError) : Advances k (throw e : Read α) := by
  intro r b r' h
  exact absurd h Read.throw_ne_ok

theorem get_advances : Advances 0 (get : Read Reader) := by
  intro r b r' h
  obtain ⟨-, rfl⟩ := Read.get_eq_ok.mp h
  exact ⟨rfl, Nat.le_refl _, Nat.le_max_left _ _⟩

theorem takeByte_advances : Advances 1 takeByte :=
  (take_advances 1).bind fun _ => pure_advances _

theorem Advances.mono {j k : Nat} {x : Read α} (h : Advances k x) (hle : j ≤ k) : Advances j x := by
  intro r a r' hx
  obtain ⟨hin, hpos, hend⟩ := h r a r' hx
  exact ⟨hin, by omega, hend⟩

theorem throw_bind_advances (k : Nat) (e : DerError) (f : α → Read β) :
    Advances k ((throw e : Read α) >>= f) := by
  intro r b r' h
  obtain ⟨a, r₁, hthrow, -⟩ := Read.bind_eq_ok.mp h
  exact absurd hthrow Read.throw_ne_ok

theorem readLength_advances : Advances 0 readLength := by
  refine (takeByte_advances.bind (k := 0) fun first => ?_).mono (by omega)
  split
  · exact throw_advances _ _
  · split
    · exact throw_advances _ _
    · split
      · exact pure_advances _
      · refine ((take_advances _).bind (k := 0) fun bytes => ?_).mono (by omega)
        dsimp only
        split
        · exact throw_bind_advances _ _ _
        · split
          · exact throw_bind_advances _ _ _
          · split
            · exact throw_bind_advances _ _ _
            · exact pure_advances _

theorem readAny_advances : Advances 1 readAny := by
  refine get_advances.bind (k := 1) fun _ => ?_
  refine takeByte_advances.bind (k := 0) fun tagOctet => ?_
  split
  · exact throw_bind_advances _ _ _
  · refine readLength_advances.bind (k := 0) fun len => ?_
    refine ((take_advances len).bind (k := 0) fun contents => ?_).mono (by omega)
    exact get_advances.bind (k := 0) fun _ => pure_advances _

/-- A required tag is the next value's. -/
theorem read_inv {tag : Tag} {value : Value} (h : on r (read tag) = .ok (value, r')) :
    on r readAny = .ok (value, r') ∧ value.tag = tag := by
  unfold on at h ⊢
  split at h
  · next v r₁ hread =>
      obtain ⟨rfl, rfl⟩ : v = value ∧ r₁ = r' := by simpa using h
      simp only [Der.read, Read.bind_eq_ok, Read.get_eq_ok] at hread
      obtain ⟨_, _, ⟨rfl, rfl⟩, v', r₂, hany, hcheck⟩ := hread
      split at hcheck
      · simp only [Read.bind_eq_ok, Read.throw_ne_ok, false_and, and_false, exists_false] at hcheck
      · next htag =>
          obtain ⟨rfl, rfl⟩ := Read.pure_eq_ok.mp hcheck
          rw [hany]
          exact ⟨rfl, by simpa using htag⟩
  · exact absurd h (by simp)

/-- An optional value that is there is the next one; one that is not leaves the cursor. -/
theorem readOptional_inv {tag : Tag} {value : Option Value}
    (h : on r (readOptional tag) = .ok (value, r')) :
    (value = none ∧ r' = r) ∨
    ∃ v, value = some v ∧ on r readAny = .ok (v, r') ∧ v.tag = tag := by
  unfold on at h
  split at h
  · next v r₁ hread =>
      obtain ⟨rfl, rfl⟩ : v = value ∧ r₁ = r' := by simpa using h
      simp only [readOptional, Read.bind_eq_ok, Read.get_eq_ok] at hread
      obtain ⟨_, _, ⟨rfl, rfl⟩, hread⟩ := hread
      cases hpeek : r.peek with
      | none =>
          rw [hpeek] at hread
          obtain ⟨rfl, rfl⟩ := Read.pure_eq_ok.mp hread
          exact .inl ⟨rfl, rfl⟩
      | some octet =>
        rw [hpeek] at hread
        dsimp only at hread
        split at hread
        · obtain ⟨w, r₂, hw, hpure⟩ := Read.bind_eq_ok.mp hread
          obtain ⟨rfl, rfl⟩ := Read.pure_eq_ok.mp hpure
          have hon : on r (read tag) = .ok (w, r₂) := by simp [on, hw]
          exact .inr ⟨w, rfl, read_inv hon⟩
        · obtain ⟨rfl, rfl⟩ := Read.pure_eq_ok.mp hread
          exact .inl ⟨rfl, rfl⟩
  · exact absurd h (by simp)

theorem on_readAny_advances {value : Value} (h : on r readAny = .ok (value, r')) :
    r'.input = r.input ∧ r.pos < r'.pos ∧ r'.pos ≤ r.input.length := by
  unfold on at h
  split at h
  · next v r₁ hread =>
      obtain ⟨rfl, rfl⟩ : v = value ∧ r₁ = r' := by simpa using h
      obtain ⟨hin, hpos, hend⟩ := readAny_advances _ _ _ hread
      exact ⟨hin, hpos, by omega⟩
  · exact absurd h (by simp)
end

end RustyTls.Der
