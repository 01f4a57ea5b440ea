import RustyTls.Core.Bytes
import RustyTls.Core.Result

/-!
# RustyTls.Wire

The TLS presentation language (`handrolled/wire.rs`): a strict reader of fixed-width
integers and length-prefixed vectors, and the writer that produces them.

A `Reader` is the unread suffix of its input; the source's pair of a slice and a
position is never observed beyond that suffix. Every read has two lemmas: `_append`
runs it on what the writer emits, `_ok` says what a successful read consumed. Parsing
and encoding of whole messages is done with these alone.

A `Writer` backfills each vector's length after its body has run, as the source does.
`Appends` is the property that makes the backfill harmless: a body that only appends
leaves the placeholder where it was, and `vector_appends` turns one vector into its
prefix followed by its contents.
-/

namespace RustyTls

open Core

/-- Everything the wire reader can refuse. -/
inductive WireError
  /-- The input ended before a value was complete. -/
  | unexpectedEnd (needed available : Nat)
  /-- Bytes remained after the last value a structure defines. -/
  | trailingData (remaining : Nat)
  /-- A length prefix described more bytes than the enclosing structure has. -/
  | lengthOverrun (declared available : Nat)
  /-- A vector was empty where the grammar requires at least one element. -/
  | emptyVector
  deriving Repr, DecidableEq

/-- A vector on the wire: its length in `w` octets, then its contents. -/
def prefixed (w : Nat) (bytes : Bytes) : Bytes := beBytes w bytes.length ++ bytes

@[simp] theorem prefixed_length (w : Nat) (bytes : Bytes) :
    (prefixed w bytes).length = w + bytes.length := by
  simp [prefixed]

/-- The length in front says where a vector ends. -/
theorem prefixed_append_inj {w : Nat} {as bs xs ys : Bytes} (has : as.length < 256 ^ w)
    (hbs : bs.length < 256 ^ w) (h : prefixed w as ++ xs = prefixed w bs ++ ys) :
    as = bs ∧ xs = ys := by
  simp only [prefixed, List.append_assoc] at h
  obtain ⟨hfront, hrest⟩ := List.append_inj h (by simp)
  exact List.append_inj hrest (beBytes_inj has hbs hfront)

/-! ### The reader -/

/-- A cursor over a TLS-encoded byte slice: the bytes not yet read. -/
structure Reader where
  rest : Bytes
  deriving Repr, DecidableEq

namespace Reader

/-- True when every byte has been consumed. -/
def isEmpty (r : Reader) : Bool := r.rest.isEmpty

/-- How many bytes remain. -/
def remaining (r : Reader) : Nat := r.rest.length

/-- Consume the reader, erroring if anything is left. -/
def finish (r : Reader) : Except WireError Unit :=
  refuse (r.rest ≠ []) (.trailingData r.remaining)

/-- Read `count` bytes. -/
def take (r : Reader) (count : Nat) : Except WireError (Bytes × Reader) :=
  if count ≤ r.rest.length then
    .ok (r.rest.take count, ⟨r.rest.drop count⟩)
  else
    .error (.unexpectedEnd count r.remaining)

/-- Read a `uint8`. -/
def u8 (r : Reader) : Except WireError (UInt8 × Reader) := do
  let (bytes, r) ← r.take 1
  .ok (UInt8.ofNat (beNat bytes), r)

/-- Read a `uint16`, big-endian. -/
def u16 (r : Reader) : Except WireError (UInt16 × Reader) := do
  let (bytes, r) ← r.take 2
  .ok (UInt16.ofNat (beNat bytes), r)

/-- Read a `uint24`, the length prefix on a handshake message. -/
def u24 (r : Reader) : Except WireError (Nat × Reader) := do
  let (bytes, r) ← r.take 3
  .ok (beNat bytes, r)

/-- Read a `uint32`. -/
def u32 (r : Reader) : Except WireError (UInt32 × Reader) := do
  let (bytes, r) ← r.take 4
  .ok (UInt32.ofNat (beNat bytes), r)

/-- `take`, naming a length prefix that overruns its container. -/
def takeChecked (r : Reader) (length : Nat) : Except WireError (Bytes × Reader) := do
  refuse (length > r.remaining) (.lengthOverrun length r.remaining)
  r.take length

/-- Read a vector with a one-octet length prefix, returning its contents. -/
def vectorU8 (r : Reader) : Except WireError (Bytes × Reader) := do
  let (length, r) ← r.u8
  r.takeChecked length.toNat

/-- Read a vector with a two-octet length prefix. -/
def vectorU16 (r : Reader) : Except WireError (Bytes × Reader) := do
  let (length, r) ← r.u16
  r.takeChecked length.toNat

/-- Read a vector with a three-octet length prefix. -/
def vectorU24 (r : Reader) : Except WireError (Bytes × Reader) := do
  let (length, r) ← r.u24
  r.takeChecked length

/-- A vector's contents as their own reader, for a one-octet prefix. -/
def subU8 (r : Reader) : Except WireError (Reader × Reader) := do
  let (contents, r) ← r.vectorU8
  .ok (⟨contents⟩, r)

/-- As `subU8`, for a two-octet prefix. -/
def subU16 (r : Reader) : Except WireError (Reader × Reader) := do
  let (contents, r) ← r.vectorU16
  .ok (⟨contents⟩, r)

/-- As `subU8`, for a three-octet prefix. -/
def subU24 (r : Reader) : Except WireError (Reader × Reader) := do
  let (contents, r) ← r.vectorU24
  .ok (⟨contents⟩, r)

/-! ### Reading what was written -/

theorem take_append {n : Nat} (as bs : Bytes) (hn : as.length = n) :
    (Reader.mk (as ++ bs)).take n = .ok (as, ⟨bs⟩) := by
  subst hn
  simp [take]

theorem u8_append (v : UInt8) (bs : Bytes) : (Reader.mk (v :: bs)).u8 = .ok (v, ⟨bs⟩) := by
  have htake : (Reader.mk (v :: bs)).take 1 = .ok ([v], ⟨bs⟩) := take_append [v] bs rfl
  simp [u8, htake]

theorem u16_append (v : UInt16) (bs : Bytes) :
    (Reader.mk (beBytes 2 v.toNat ++ bs)).u16 = .ok (v, ⟨bs⟩) := by
  have hv : beNat (beBytes 2 v.toNat) = v.toNat := beNat_beBytes (by simpa using v.toNat_lt)
  simp [u16, take_append _ bs (beBytes_length 2 _), hv]

theorem u24_append {n : Nat} (hn : n < 2 ^ 24) (bs : Bytes) :
    (Reader.mk (beBytes 3 n ++ bs)).u24 = .ok (n, ⟨bs⟩) := by
  have hv : beNat (beBytes 3 n) = n := beNat_beBytes (by simpa using hn)
  simp [u24, take_append _ bs (beBytes_length 3 _), hv]

theorem u32_append (v : UInt32) (bs : Bytes) :
    (Reader.mk (beBytes 4 v.toNat ++ bs)).u32 = .ok (v, ⟨bs⟩) := by
  have hv : beNat (beBytes 4 v.toNat) = v.toNat := beNat_beBytes (by simpa using v.toNat_lt)
  simp [u32, take_append _ bs (beBytes_length 4 _), hv]

theorem takeChecked_append {n : Nat} (as bs : Bytes) (hn : as.length = n) :
    (Reader.mk (as ++ bs)).takeChecked n = .ok (as, ⟨bs⟩) := by
  have hle : ¬ n > (Reader.mk (as ++ bs)).remaining := by
    simp [remaining, ← hn]
  rw [takeChecked, refuse_neg _ hle, ok_bind, take_append as bs hn]

theorem vectorU8_append {as : Bytes} (hlen : as.length < 2 ^ 8) (bs : Bytes) :
    (Reader.mk (beBytes 1 as.length ++ (as ++ bs))).vectorU8 = .ok (as, ⟨bs⟩) := by
  have hone : beBytes 1 as.length = [UInt8.ofNat as.length] := by simp [beBytes]
  have hn : (UInt8.ofNat as.length).toNat = as.length := by
    simpa using Nat.mod_eq_of_lt hlen
  rw [vectorU8, hone, List.singleton_append, u8_append]
  simp only [ok_bind, hn]
  exact takeChecked_append as bs rfl

theorem vectorU16_append {as : Bytes} (hlen : as.length < 2 ^ 16) (bs : Bytes) :
    (Reader.mk (beBytes 2 as.length ++ (as ++ bs))).vectorU16 = .ok (as, ⟨bs⟩) := by
  have hn : (UInt16.ofNat as.length).toNat = as.length := by
    simpa using Nat.mod_eq_of_lt hlen
  have hread := u16_append (UInt16.ofNat as.length) (as ++ bs)
  rw [hn] at hread
  rw [vectorU16, hread]
  simp only [ok_bind, hn]
  exact takeChecked_append as bs rfl

theorem vectorU24_append {as : Bytes} (hlen : as.length < 2 ^ 24) (bs : Bytes) :
    (Reader.mk (beBytes 3 as.length ++ (as ++ bs))).vectorU24 = .ok (as, ⟨bs⟩) := by
  rw [vectorU24, u24_append hlen, ok_bind]
  exact takeChecked_append as bs rfl

/-! ### What a successful read consumed -/

theorem finish_eq_ok {r : Reader} {u : Unit} : r.finish = .ok u ↔ r.rest = [] := by
  simp [finish]

@[simp] theorem finish_nil : (Reader.mk []).finish = .ok () := rfl

theorem take_ok {r r' : Reader} {n : Nat} {as : Bytes} (h : r.take n = .ok (as, r')) :
    r.rest = as ++ r'.rest ∧ as.length = n := by
  unfold take at h
  split at h
  · next hle =>
      obtain ⟨rfl, rfl⟩ : r.rest.take n = as ∧ Reader.mk (r.rest.drop n) = r' := by
        simpa using h
      exact ⟨(List.take_append_drop n r.rest).symm, by simpa using hle⟩
  · exact absurd h (by simp)

theorem u8_ok {r r' : Reader} {v : UInt8} (h : r.u8 = .ok (v, r')) :
    r.rest = v :: r'.rest := by
  simp only [u8, bind_eq_ok] at h
  obtain ⟨⟨as, r₁⟩, htake, heq⟩ := h
  obtain ⟨hrest, hlen⟩ := take_ok htake
  obtain ⟨rfl, rfl⟩ : UInt8.ofNat (beNat as) = v ∧ r₁ = r' := by simpa using heq
  obtain ⟨b, rfl⟩ := List.length_eq_one_iff.mp hlen
  simpa using hrest

theorem u16_ok {r r' : Reader} {v : UInt16} (h : r.u16 = .ok (v, r')) :
    r.rest = beBytes 2 v.toNat ++ r'.rest := by
  simp only [u16, bind_eq_ok] at h
  obtain ⟨⟨as, r₁⟩, htake, heq⟩ := h
  obtain ⟨hrest, hlen⟩ := take_ok htake
  obtain ⟨rfl, rfl⟩ : UInt16.ofNat (beNat as) = v ∧ r₁ = r' := by simpa using heq
  have hlt : beNat as < 2 ^ 16 := by simpa [hlen] using beNat_lt as
  have hval : (UInt16.ofNat (beNat as)).toNat = beNat as := by
    simpa using Nat.mod_eq_of_lt hlt
  rw [hval, ← hlen, beBytes_beNat, hrest]

theorem u24_ok {r r' : Reader} {n : Nat} (h : r.u24 = .ok (n, r')) :
    r.rest = beBytes 3 n ++ r'.rest ∧ n < 2 ^ 24 := by
  simp only [u24, bind_eq_ok] at h
  obtain ⟨⟨as, r₁⟩, htake, heq⟩ := h
  obtain ⟨hrest, hlen⟩ := take_ok htake
  obtain ⟨rfl, rfl⟩ : beNat as = n ∧ r₁ = r' := by simpa using heq
  have hlt : beNat as < 2 ^ 24 := by simpa [hlen] using beNat_lt as
  rw [← hlen, beBytes_beNat]
  exact ⟨hrest, hlt⟩

theorem u32_ok {r r' : Reader} {v : UInt32} (h : r.u32 = .ok (v, r')) :
    r.rest = beBytes 4 v.toNat ++ r'.rest := by
  simp only [u32, bind_eq_ok] at h
  obtain ⟨⟨as, r₁⟩, htake, heq⟩ := h
  obtain ⟨hrest, hlen⟩ := take_ok htake
  obtain ⟨rfl, rfl⟩ : UInt32.ofNat (beNat as) = v ∧ r₁ = r' := by simpa using heq
  have hlt : beNat as < 2 ^ 32 := by simpa [hlen] using beNat_lt as
  have hval : (UInt32.ofNat (beNat as)).toNat = beNat as := by
    simpa using Nat.mod_eq_of_lt hlt
  rw [hval, ← hlen, beBytes_beNat, hrest]

theorem takeChecked_ok {r r' : Reader} {n : Nat} {as : Bytes}
    (h : r.takeChecked n = .ok (as, r')) : r.rest = as ++ r'.rest ∧ as.length = n := by
  simp only [takeChecked, bind_eq_ok, refuse_eq_ok] at h
  obtain ⟨-, -, htake⟩ := h
  exact take_ok htake

theorem vectorU8_ok {r r' : Reader} {as : Bytes} (h : r.vectorU8 = .ok (as, r')) :
    r.rest = beBytes 1 as.length ++ (as ++ r'.rest) ∧ as.length < 2 ^ 8 := by
  simp only [vectorU8, bind_eq_ok] at h
  obtain ⟨⟨n, r₁⟩, hread, htake⟩ := h
  obtain ⟨hrest, hlen⟩ := takeChecked_ok htake
  have hlt : as.length < 2 ^ 8 := by rw [hlen]; exact n.toNat_lt
  refine ⟨?_, hlt⟩
  rw [u8_ok hread, hrest, hlen]
  simp [beBytes]

theorem vectorU16_ok {r r' : Reader} {as : Bytes} (h : r.vectorU16 = .ok (as, r')) :
    r.rest = beBytes 2 as.length ++ (as ++ r'.rest) ∧ as.length < 2 ^ 16 := by
  simp only [vectorU16, bind_eq_ok] at h
  obtain ⟨⟨n, r₁⟩, hread, htake⟩ := h
  obtain ⟨hrest, hlen⟩ := takeChecked_ok htake
  have hlt : as.length < 2 ^ 16 := by rw [hlen]; exact n.toNat_lt
  exact ⟨by rw [u16_ok hread, hrest, hlen], hlt⟩

theorem vectorU24_ok {r r' : Reader} {as : Bytes} (h : r.vectorU24 = .ok (as, r')) :
    r.rest = beBytes 3 as.length ++ (as ++ r'.rest) ∧ as.length < 2 ^ 24 := by
  simp only [vectorU24, bind_eq_ok] at h
  obtain ⟨⟨n, r₁⟩, hread, htake⟩ := h
  obtain ⟨hrest, hlen⟩ := takeChecked_ok htake
  obtain ⟨hn, hlt⟩ := u24_ok hread
  exact ⟨by rw [hn, hrest, hlen], by rw [hlen]; exact hlt⟩

/-! ### Reads as equations

A read succeeds exactly on what the writer emits, so a chain of reads is a chain of equations on
the input. -/

theorem take_iff {r r' : Reader} {n : Nat} {as : Bytes} :
    r.take n = .ok (as, r') ↔ r.rest = as ++ r'.rest ∧ as.length = n := by
  constructor
  · exact take_ok
  · intro h
    obtain ⟨rest⟩ := r
    obtain ⟨rfl, hlen⟩ := h
    exact take_append as r'.rest hlen

theorem u8_iff {r r' : Reader} {v : UInt8} : r.u8 = .ok (v, r') ↔ r.rest = v :: r'.rest := by
  constructor
  · exact u8_ok
  · intro h
    obtain ⟨rest⟩ := r
    obtain rfl := h
    exact u8_append v r'.rest

theorem u16_iff {r r' : Reader} {v : UInt16} :
    r.u16 = .ok (v, r') ↔ r.rest = beBytes 2 v.toNat ++ r'.rest := by
  constructor
  · exact u16_ok
  · intro h
    obtain ⟨rest⟩ := r
    obtain rfl := h
    exact u16_append v r'.rest

theorem u24_iff {r r' : Reader} {n : Nat} :
    r.u24 = .ok (n, r') ↔ r.rest = beBytes 3 n ++ r'.rest ∧ n < 2 ^ 24 := by
  constructor
  · exact u24_ok
  · intro h
    obtain ⟨rest⟩ := r
    obtain ⟨rfl, hn⟩ := h
    exact u24_append hn r'.rest

theorem u32_iff {r r' : Reader} {v : UInt32} :
    r.u32 = .ok (v, r') ↔ r.rest = beBytes 4 v.toNat ++ r'.rest := by
  constructor
  · exact u32_ok
  · intro h
    obtain ⟨rest⟩ := r
    obtain rfl := h
    exact u32_append v r'.rest

theorem vectorU8_iff {r r' : Reader} {as : Bytes} : r.vectorU8 = .ok (as, r') ↔
    r.rest = prefixed 1 as ++ r'.rest ∧ as.length < 2 ^ 8 := by
  rw [prefixed, List.append_assoc]
  constructor
  · exact vectorU8_ok
  · intro h
    obtain ⟨rest⟩ := r
    obtain ⟨rfl, hlen⟩ := h
    exact vectorU8_append hlen r'.rest

theorem vectorU16_iff {r r' : Reader} {as : Bytes} : r.vectorU16 = .ok (as, r') ↔
    r.rest = prefixed 2 as ++ r'.rest ∧ as.length < 2 ^ 16 := by
  rw [prefixed, List.append_assoc]
  constructor
  · exact vectorU16_ok
  · intro h
    obtain ⟨rest⟩ := r
    obtain ⟨rfl, hlen⟩ := h
    exact vectorU16_append hlen r'.rest

theorem vectorU24_iff {r r' : Reader} {as : Bytes} : r.vectorU24 = .ok (as, r') ↔
    r.rest = prefixed 3 as ++ r'.rest ∧ as.length < 2 ^ 24 := by
  rw [prefixed, List.append_assoc]
  constructor
  · exact vectorU24_ok
  · intro h
    obtain ⟨rest⟩ := r
    obtain ⟨rfl, hlen⟩ := h
    exact vectorU24_append hlen r'.rest

end Reader

/-! ### The writer -/

/-- A buffer that encodes TLS's presentation language. -/
structure Writer where
  buffer : Bytes
  deriving Repr, DecidableEq

namespace Writer

/-- A new, empty writer. -/
def new : Writer := ⟨[]⟩

/-- Consume the writer for its bytes. -/
def intoVec (w : Writer) : Bytes := w.buffer

/-- Append a `uint8`. -/
def u8 (value : UInt8) (w : Writer) : Writer := ⟨w.buffer ++ [value]⟩

/-- Append a `uint16`. -/
def u16 (value : UInt16) (w : Writer) : Writer := ⟨w.buffer ++ beBytes 2 value.toNat⟩

/-- Append a `uint24`. -/
def u24 (value : Nat) (w : Writer) : Writer := ⟨w.buffer ++ beBytes 3 value⟩

/-- Append a `uint32`. -/
def u32 (value : UInt32) (w : Writer) : Writer := ⟨w.buffer ++ beBytes 4 value.toNat⟩

/-- Append raw bytes. -/
def bytes (value : Bytes) (w : Writer) : Writer := ⟨w.buffer ++ value⟩

/-- Append the elements of a list one after the other: the `for` loops inside vectors. -/
def each {α : Type} (xs : List α) (f : α → Writer → Writer) (w : Writer) : Writer :=
  xs.foldl (fun w x => f x w) w

/-- Overwrite the bytes of `buffer` at `start` with `value`. -/
def overwrite (buffer : Bytes) (start : Nat) (value : Bytes) : Bytes :=
  buffer.take start ++ value ++ buffer.drop (start + value.length)

/-- Write a vector with a `width`-octet prefix whose contents `body` produces: reserve the
prefix, run the body, then backfill the length. -/
def vector (width : Nat) (body : Writer → Writer) (w : Writer) : Writer :=
  let start := w.buffer.length
  let written := body ⟨w.buffer ++ List.replicate width 0⟩
  let length := written.buffer.length - start - width
  ⟨overwrite written.buffer start (beBytes width length)⟩

/-- Write a one-octet-prefixed vector. -/
def vectorU8 (body : Writer → Writer) (w : Writer) : Writer := w.vector 1 body

/-- Write a two-octet-prefixed vector. -/
def vectorU16 (body : Writer → Writer) (w : Writer) : Writer := w.vector 2 body

/-- Write a three-octet-prefixed vector. -/
def vectorU24 (body : Writer → Writer) (w : Writer) : Writer := w.vector 3 body

/-- `body` only ever appends, and what it appends is `out`. -/
def Appends (body : Writer → Writer) (out : Bytes) : Prop :=
  ∀ w, body w = ⟨w.buffer ++ out⟩

theorem u8_appends (v : UInt8) : Appends (u8 v) [v] := fun _ => rfl

theorem u16_appends (v : UInt16) : Appends (u16 v) (beBytes 2 v.toNat) := fun _ => rfl

theorem u24_appends (n : Nat) : Appends (u24 n) (beBytes 3 n) := fun _ => rfl

theorem u32_appends (v : UInt32) : Appends (u32 v) (beBytes 4 v.toNat) := fun _ => rfl

theorem bytes_appends (bs : Bytes) : Appends (bytes bs) bs := fun _ => rfl

theorem id_appends : Appends (fun w => w) [] := fun w => by simp

theorem comp_appends {f g : Writer → Writer} {as bs : Bytes} (hf : Appends f as)
    (hg : Appends g bs) : Appends (fun w => g (f w)) (as ++ bs) := by
  intro w
  simp [hf w, hg _]

theorem each_appends {α : Type} {f : α → Writer → Writer} {enc : α → Bytes}
    (hf : ∀ x, Appends (f x) (enc x)) (xs : List α) :
    Appends (each xs f) (xs.flatMap enc) := by
  intro w
  induction xs generalizing w with
  | nil => simp [each]
  | cons x xs ih =>
      have hcons : each (x :: xs) f w = each xs f (f x w) := rfl
      rw [hcons, ih, hf x w]
      simp

/-- The backfilled prefix lands where it was reserved: a vector is its length followed by
its contents, whatever was in the buffer before. -/
theorem vector_appends (width : Nat) {body : Writer → Writer} {out : Bytes}
    (hbody : Appends body out) :
    Appends (vector width body) (prefixed width out) := by
  intro w
  have hlen : (w.buffer ++ List.replicate width 0 ++ out).length - w.buffer.length - width
      = out.length := by
    simp only [List.length_append, List.length_replicate]
    omega
  have hdrop : (w.buffer ++ List.replicate width 0 ++ out).drop (w.buffer.length + width)
      = out := by
    have hpre : (w.buffer ++ List.replicate width (0 : UInt8)).length
        = w.buffer.length + width := by simp
    rw [← hpre, List.drop_left]
  have htake : (w.buffer ++ List.replicate width 0 ++ out).take w.buffer.length = w.buffer := by
    rw [List.append_assoc, List.take_left]
  rw [vector, hbody _]
  simp only [hlen, overwrite, beBytes_length, hdrop, htake, prefixed]
  rw [List.append_assoc]

theorem vectorU8_appends {body : Writer → Writer} {out : Bytes} (hbody : Appends body out) :
    Appends (vectorU8 body) (prefixed 1 out) := vector_appends 1 hbody

theorem vectorU16_appends {body : Writer → Writer} {out : Bytes} (hbody : Appends body out) :
    Appends (vectorU16 body) (prefixed 2 out) := vector_appends 2 hbody

theorem vectorU24_appends {body : Writer → Writer} {out : Bytes} (hbody : Appends body out) :
    Appends (vectorU24 body) (prefixed 3 out) := vector_appends 3 hbody

end Writer

end RustyTls
