import RustyTls.Der

/-!
# RustyTls.DerCanonical

There is one DER encoding per value, and the reader accepts it and nothing else.

`encodeLength` and `encodeTlv` are the encoder the source does not have: the length octets
are the shortest of all definite forms (`encodeLength_shortest`). A read is then described
by the octets it moves the cursor over (`Spans`), and each reader by an equivalence: `take`,
`readLength` and `readAny` succeed exactly when the octets ahead are the canonical encoding of
what they return. The typed readers follow from `read_iff`, each one adding the octets its
result stands for.
-/

namespace RustyTls.Der

open Core

/-! ### The canonical encoding -/

/-- The length octets of a value of `n` octets, in their shortest form. -/
def encodeLength (n : Nat) : Bytes :=
  if n < 0x80 then [UInt8.ofNat n] else UInt8.ofNat (0x80 + (beMin n).length) :: beMin n

/-- A value of tag `tag` in the canonical form. -/
def encodeTlv (tag : Tag) (contents : Bytes) : Bytes :=
  tag.octet :: encodeLength contents.length ++ contents

/-- The definite forms X.690 allows for a length, of which DER allows only the shortest. -/
inductive LengthForm (n : Nat) : Bytes → Prop
  | short (h : n < 0x80) : LengthForm n [UInt8.ofNat n]
  | long (octets : Bytes) (hne : octets ≠ []) (hcount : octets.length < 0x7f)
      (hvalue : beNat octets = n) :
      LengthForm n (UInt8.ofNat (0x80 + octets.length) :: octets)

theorem beMin_length_word {n : Nat} (h : n < 2 ^ 64) : (beMin n).length ≤ 8 := by
  have hlog : Nat.log 256 n < 8 := Nat.log_lt_of_lt_pow' (by decide) (by simpa using h)
  rw [beMin_length]
  omega

theorem beMin_ne_nil (n : Nat) : beMin n ≠ [] := by
  intro h
  have hlen := congrArg List.length h
  rw [beMin_length] at hlen
  simp at hlen

/-- The length octets are one of the definite forms. -/
theorem encodeLength_form {n : Nat} (h : n < 2 ^ 64) : LengthForm n (encodeLength n) := by
  unfold encodeLength
  split
  · next hshort => exact .short hshort
  · have hle := beMin_length_word h
    exact .long _ (beMin_ne_nil n) (by omega) (beNat_beMin n)

/-- Every other definite form is longer. -/
theorem encodeLength_shortest {n : Nat} {octets : Bytes} (h : LengthForm n octets) :
    octets = encodeLength n ∨ (encodeLength n).length < octets.length := by
  cases h with
  | short hshort => exact .inl (by rw [encodeLength, if_pos hshort])
  | long octets hne hcount hvalue =>
    subst hvalue
    unfold encodeLength
    split
    · have hpos : octets.length ≠ 0 := by simpa using hne
      right
      simp only [List.length_cons, List.length_nil]
      omega
    · have hle := beMin_length_le hne
      by_cases heq : octets.length = (beMin (beNat octets)).length
      · rw [← eq_beMin_of_length heq]
        exact .inl rfl
      · right
        simp only [List.length_cons]
        omega

theorem encodeTlv_length (tag : Tag) (contents : Bytes) :
    contents.length < (encodeTlv tag contents).length := by
  simp only [encodeTlv, List.cons_append, List.length_cons, List.length_append]
  omega

/-! ### Octets a read moves over -/

/-- The cursor goes from `r` to `r'` over the octets `bytes`. -/
structure Spans (r : Reader) (bytes : Bytes) (r' : Reader) : Prop where
  input : r'.input = r.input
  pos : r'.pos = r.pos + bytes.length
  ahead : r.input.drop r.pos = bytes ++ r.input.drop r'.pos
  inside : r'.pos ≤ r.input.length

/-- The octets between two positions of a cursor. -/
def consumed (r r' : Reader) : Bytes := (r.input.drop r.pos).take (r'.pos - r.pos)

section
variable {r r₁ r' : Reader} {bytes front back : Bytes}

theorem Spans.insideEnd (h : Spans r bytes r') : r'.pos ≤ r'.input.length := by
  rw [h.input]
  exact h.inside

theorem Spans.consumed_eq (h : Spans r bytes r') : consumed r r' = bytes := by
  rw [consumed, h.pos, Nat.add_sub_cancel_left, h.ahead, List.take_left]

theorem Spans.append (h : Spans r front r₁) (h' : Spans r₁ back r') :
    Spans r (front ++ back) r' where
  input := h'.input.trans h.input
  pos := by rw [h'.pos, h.pos, List.length_append, Nat.add_assoc]
  ahead := by
    have hback := h'.ahead
    rw [h.input] at hback
    rw [h.ahead, hback, List.append_assoc]
  inside := by rw [← h.input]; exact h'.inside

/-- The cursor part of the way over a span. -/
theorem Spans.split (h : Spans r (front ++ back) r') :
    ∃ r₁, Spans r front r₁ ∧ Spans r₁ back r' := by
  have hpos := h.pos
  have hinside := h.inside
  rw [List.length_append] at hpos
  have hahead : r.input.drop (r.pos + front.length) = back ++ r.input.drop r'.pos := by
    rw [← List.drop_drop, h.ahead, List.append_assoc, List.drop_left]
  refine ⟨⟨r.input, r.pos + front.length⟩, ⟨rfl, rfl, ?_, ?_⟩, ⟨h.input, ?_, hahead, h.inside⟩⟩
  · rw [hahead, ← List.append_assoc]
    exact h.ahead
  · simp only
    omega
  · simp only
    omega

theorem Spans.uncons {b : UInt8} (h : Spans r (b :: back) r') :
    ∃ r₁, Spans r [b] r₁ ∧ Spans r₁ back r' := by
  rw [← List.singleton_append] at h
  exact h.split

/-- The cursor of an input that continues with `bytes` can move over them. -/
theorem spans_of_input (before bytes after : Bytes) :
    Spans ⟨before ++ bytes ++ after, before.length⟩ bytes
      ⟨before ++ bytes ++ after, before.length + bytes.length⟩ where
  input := rfl
  pos := rfl
  ahead := by
    rw [← List.length_append, List.drop_left, List.append_assoc, List.drop_left]
  inside := by
    simp only [List.length_append]
    omega

/-- What is left of the input once a span ends at its end. -/
theorem Spans.whole (h : Spans (Reader.new bytes) front r') (hend : r'.isEmpty = true) :
    bytes = front := by
  have hinside := h.inside
  have hin := h.input
  simp only [Reader.isEmpty, decide_eq_true_eq] at hend
  rw [hin] at hend
  have hahead := h.ahead
  rw [List.drop_of_length_le hend, List.append_nil] at hahead
  simpa [Reader.new] using hahead

/-! ### The readers as equivalences -/

theorem Read.throw_bind_ne_ok {α β : Type} {e : DerError} {f : α → Read β} {b : β} :
    ¬ ((throw e : Read α) >>= f) r = .ok b r' := by
  intro h
  obtain ⟨_, _, hthrow, -⟩ := Read.bind_eq_ok.mp h
  exact Read.throw_ne_ok hthrow

/-- `take` in one piece: both of its failures leave the cursor where it was. -/
theorem take_eq (n : Nat) (r : Reader) :
    take n r =
      if 2 ^ 64 ≤ r.pos + n then .error .lengthTooLarge r
      else if r.input.length < r.pos + n then .error .unexpectedEnd r
      else .ok ((r.input.drop r.pos).take n) { r with pos := r.pos + n } := by
  show (if 2 ^ 64 ≤ r.pos + n then _ else _ : Read Bytes) r = _
  split
  · rfl
  · show (if r.input.length < r.pos + n then _ else _ : Read Bytes) r = _
    split
    · rfl
    · rfl

theorem take_iff {n : Nat} :
    take n r = .ok bytes r' ↔ bytes.length = n ∧ Spans r bytes r' ∧ r'.pos < 2 ^ 64 := by
  rw [take_eq]
  constructor
  · intro h
    split at h
    · exact absurd h (by simp)
    next hword =>
    split at h
    · exact absurd h (by simp)
    next hlen =>
    obtain ⟨rfl, rfl⟩ := EStateM.Result.ok.inj h
    have htake : ((r.input.drop r.pos).take n).length = n := by
      rw [List.length_take, List.length_drop]
      omega
    refine ⟨htake, ⟨rfl, by rw [htake], ?_, by simp only; omega⟩, by simp only; omega⟩
    rw [← List.drop_drop]
    exact (List.take_append_drop n _).symm
  · intro h
    obtain ⟨rfl, hspan, hword⟩ := h
    have hpos := hspan.pos
    have hinside := hspan.inside
    rw [if_neg (by omega), if_neg (by omega), hspan.ahead, List.take_left, ← hpos, ← hspan.input]

theorem takeByte_iff {b : UInt8} :
    takeByte r = .ok b r' ↔ Spans r [b] r' ∧ r'.pos < 2 ^ 64 := by
  simp only [takeByte, Read.bind_eq_ok, Read.pure_eq_ok, take_iff]
  constructor
  · intro h
    obtain ⟨bytes, _, ⟨hlen, hspan, hword⟩, rfl, rfl⟩ := h
    obtain ⟨b, rfl⟩ := List.length_eq_one_iff.mp hlen
    exact ⟨hspan, hword⟩
  · intro h
    obtain ⟨hspan, hword⟩ := h
    exact ⟨[b], r', ⟨rfl, hspan, hword⟩, rfl, rfl⟩

/-- The count a long form's first octet carries. -/
theorem longCount_toNat (first : UInt8) : (first &&& 0x7f).toNat = first.toNat % 128 := by
  rw [UInt8.toNat_and]
  exact Nat.and_two_pow_sub_one_eq_mod first.toNat 7

theorem encodeLength_ofLong {first : UInt8} {octets : Bytes} (hfirst : ¬ first < 0x80)
    (hcount : octets.length = (first &&& 0x7f).toNat) (hhead : ¬ octets.headD 0 = 0)
    (hlong : ¬ beNat octets < 0x80) : encodeLength (beNat octets) = first :: octets := by
  cases octets with
  | nil => exact absurd rfl hhead
  | cons b rest =>
    have hmin : beMin (beNat (b :: rest)) = b :: rest := beMin_beNat_cons (.inl hhead)
    rw [encodeLength, if_neg hlong, hmin]
    congr 1
    apply UInt8.toNat.inj
    have hle : 128 ≤ first.toNat := by simpa [UInt8.lt_iff_toNat_lt] using hfirst
    have hlt := first.toNat_lt
    rw [hcount, longCount_toNat, UInt8.toNat_ofNat']
    omega

theorem readLength_spans {n : Nat} (h : readLength r = .ok n r') :
    n < 2 ^ 64 ∧ Spans r (encodeLength n) r' ∧ r'.pos < 2 ^ 64 := by
  obtain ⟨first, r₁, hfirst, h⟩ := Read.bind_eq_ok.mp h
  obtain ⟨hspan, hword⟩ := takeByte_iff.mp hfirst
  split at h
  · exact absurd h Read.throw_ne_ok
  split at h
  · exact absurd h Read.throw_ne_ok
  split at h
  · next hshort =>
      obtain ⟨rfl, rfl⟩ := Read.pure_eq_ok.mp h
      have hlt : first.toNat < 0x80 := UInt8.lt_iff_toNat_lt.mp hshort
      have henc : encodeLength first.toNat = [first] := by
        rw [encodeLength, if_pos hlt, UInt8.ofNat_toNat]
      rw [henc]
      exact ⟨by omega, hspan, hword⟩
  · next hlong =>
      obtain ⟨octets, r₂, htake, h⟩ := Read.bind_eq_ok.mp h
      obtain ⟨hcount, hspan', hword'⟩ := take_iff.mp htake
      split at h
      · exact absurd h Read.throw_bind_ne_ok
      next hhead =>
      dsimp only at h
      split at h
      · exact absurd h Read.throw_bind_ne_ok
      next hcap =>
      split at h
      · exact absurd h Read.throw_bind_ne_ok
      next hmin =>
      simp only [Read.pure_eq_ok] at h
      obtain ⟨rfl, rfl⟩ := h
      rw [encodeLength_ofLong hlong hcount hhead hmin]
      have hlen : octets.length ≤ 8 := by omega
      have hbound : beNat octets < 256 ^ 8 :=
        Nat.lt_of_lt_of_le (beNat_lt octets) (Nat.pow_le_pow_right (by decide) hlen)
      exact ⟨by simpa using hbound, hspan.append hspan', hword'⟩

/-- The short form, of one octet. -/
theorem readLength_short {n : Nat} (hshort : n < 0x80) (hspan : Spans r [UInt8.ofNat n] r')
    (hword : r'.pos < 2 ^ 64) : readLength r = .ok n r' := by
  have hval : (UInt8.ofNat n).toNat = n := by
    rw [UInt8.toNat_ofNat']
    omega
  refine Read.bind_eq_ok.mpr ⟨_, _, takeByte_iff.mpr ⟨hspan, hword⟩, ?_⟩
  rw [if_neg, if_neg, if_pos, hval]
  · exact Read.pure_eq_ok.mpr ⟨rfl, rfl⟩
  · rw [UInt8.lt_iff_toNat_lt, hval]
    exact hshort
  · intro heq
    rw [heq] at hval
    simp at hval
    omega
  · intro heq
    rw [heq] at hval
    simp at hval
    omega

/-- The long form, of a count and as many octets as the number needs. -/
theorem readLength_long {n : Nat} (hn : n < 2 ^ 64) (hlong : ¬ n < 0x80)
    (hspan : Spans r (UInt8.ofNat (0x80 + (beMin n).length) :: beMin n) r')
    (hword : r'.pos < 2 ^ 64) : readLength r = .ok n r' := by
  obtain ⟨r₁, hspan₁, hspan₂⟩ := hspan.uncons
  have hle := beMin_length_word hn
  obtain ⟨b, rest, hmin, hb⟩ := beMin_cons (n := n) (by omega)
  have hpos : 0 < (beMin n).length := by rw [hmin]; simp
  have hval : (UInt8.ofNat (0x80 + (beMin n).length)).toNat = 0x80 + (beMin n).length := by
    rw [UInt8.toNat_ofNat']
    omega
  have hr₁ : r₁.pos < 2 ^ 64 := by have := hspan₂.pos; omega
  refine Read.bind_eq_ok.mpr ⟨_, _, takeByte_iff.mpr ⟨hspan₁, hr₁⟩, ?_⟩
  rw [if_neg, if_neg, if_neg]
  · refine Read.bind_eq_ok.mpr ⟨beMin n, r', take_iff.mpr ⟨?_, hspan₂, hword⟩, ?_⟩
    · rw [longCount_toNat, hval]
      omega
    · rw [if_neg (by rw [hmin]; exact hb), if_neg (by rw [longCount_toNat, hval]; omega),
        beNat_beMin, if_neg (by omega)]
      exact Read.pure_eq_ok.mpr ⟨rfl, rfl⟩
  · rw [UInt8.lt_iff_toNat_lt, hval]
    simp
  · intro heq
    rw [heq] at hval
    simp at hval
    omega
  · intro heq
    rw [heq] at hval
    simp only [UInt8.reduceToNat] at hval
    omega

theorem readLength_iff {n : Nat} :
    readLength r = .ok n r' ↔ n < 2 ^ 64 ∧ Spans r (encodeLength n) r' ∧ r'.pos < 2 ^ 64 := by
  refine ⟨readLength_spans, ?_⟩
  intro h
  obtain ⟨hn, hspan, hword⟩ := h
  unfold encodeLength at hspan
  split at hspan
  · next hshort => exact readLength_short hshort hspan hword
  · next hlong => exact readLength_long hn hlong hspan hword

/-- `readAny` succeeds exactly on the canonical encoding of the value it returns. -/
theorem readAny_iff {value : Value} :
    readAny r = .ok value r' ↔
      ¬ value.tag.octet &&& 0x1f = 0x1f ∧
      value.encoded = encodeTlv value.tag value.contents ∧
      Spans r value.encoded r' ∧ r'.pos < 2 ^ 64 := by
  constructor
  · intro h
    obtain ⟨_, _, hget, hrest⟩ := Read.bind_eq_ok.mp h
    obtain ⟨rfl, rfl⟩ := Read.get_eq_ok.mp hget
    obtain ⟨octet, r₁, htag, hrest⟩ := Read.bind_eq_ok.mp hrest
    obtain ⟨hspan₁, -⟩ := takeByte_iff.mp htag
    split at hrest
    · exact absurd hrest Read.throw_bind_ne_ok
    next hlow =>
    obtain ⟨n, r₂, hlen, hbody⟩ := Read.bind_eq_ok.mp hrest
    obtain ⟨-, hspan₂, -⟩ := readLength_iff.mp hlen
    obtain ⟨contents, r₃, htake, hlast⟩ := Read.bind_eq_ok.mp hbody
    obtain ⟨hcount, hspan₃, hword⟩ := take_iff.mp htake
    obtain ⟨_, _, hget, hpure⟩ := Read.bind_eq_ok.mp hlast
    obtain ⟨rfl, rfl⟩ := Read.get_eq_ok.mp hget
    obtain ⟨rfl, rfl⟩ := Read.pure_eq_ok.mp hpure
    subst hcount
    have hspan : Spans r (encodeTlv ⟨octet⟩ contents) r₃ := (hspan₁.append hspan₂).append hspan₃
    have henc := hspan.consumed_eq
    rw [consumed, ← hspan.input] at henc
    exact ⟨hlow, henc, henc ▸ hspan, hword⟩
  · intro h
    obtain ⟨hlow, henc, hspan, hword⟩ := h
    have hfull := hspan
    rw [henc] at hspan
    obtain ⟨r₂, hhead, hspan₃⟩ := hspan.split
    obtain ⟨r₁, hspan₁, hspan₂⟩ := hhead.uncons
    have hp₁ := hspan₁.pos
    have hp₂ := hspan₂.pos
    have hp₃ := hspan₃.pos
    refine Read.bind_eq_ok.mpr ⟨r, r, Read.get_eq_ok.mpr ⟨rfl, rfl⟩, ?_⟩
    refine Read.bind_eq_ok.mpr ⟨_, r₁, takeByte_iff.mpr ⟨hspan₁, by omega⟩, ?_⟩
    rw [if_neg hlow]
    refine Read.bind_eq_ok.mpr ⟨_, r₂, readLength_iff.mpr ⟨by omega, hspan₂, by omega⟩, ?_⟩
    refine Read.bind_eq_ok.mpr ⟨_, r', take_iff.mpr ⟨rfl, hspan₃, hword⟩, ?_⟩
    refine Read.bind_eq_ok.mpr ⟨r', r', Read.get_eq_ok.mpr ⟨rfl, rfl⟩, ?_⟩
    refine Read.pure_eq_ok.mpr ⟨?_, rfl⟩
    have hconsumed := hfull.consumed_eq
    rw [consumed, ← hfull.input] at hconsumed
    cases value
    simp only [Value.mk.injEq, true_and]
    exact hconsumed

theorem read_iff {tag : Tag} {value : Value} :
    read tag r = .ok value r' ↔ readAny r = .ok value r' ∧ value.tag = tag := by
  constructor
  · intro h
    obtain ⟨_, _, hget, h⟩ := Read.bind_eq_ok.mp h
    obtain ⟨rfl, rfl⟩ := Read.get_eq_ok.mp hget
    obtain ⟨v, r₁, hany, h⟩ := Read.bind_eq_ok.mp h
    split at h
    · obtain ⟨_, _, -, h⟩ := Read.bind_eq_ok.mp h
      exact absurd h Read.throw_bind_ne_ok
    · next htag =>
        obtain ⟨rfl, rfl⟩ := Read.pure_eq_ok.mp h
        exact ⟨hany, by simpa using htag⟩
  · intro h
    obtain ⟨hany, htag⟩ := h
    refine Read.bind_eq_ok.mpr ⟨r, r, Read.get_eq_ok.mpr ⟨rfl, rfl⟩, ?_⟩
    refine Read.bind_eq_ok.mpr ⟨value, r', hany, ?_⟩
    rw [if_neg (by simpa using htag)]
    exact Read.pure_eq_ok.mpr ⟨rfl, rfl⟩

end

/-! ### Elements one after another -/

theorem encodeLength_append_inj {n m : Nat} {left right : Bytes}
    (hshort : (encodeLength n ++ left).length < 2 ^ 64) (hn : n < 2 ^ 64) (hm : m < 2 ^ 64)
    (h : encodeLength n ++ left = encodeLength m ++ right) : n = m ∧ left = right := by
  have hspan := spans_of_input [] (encodeLength n) left
  have hspan' := spans_of_input [] (encodeLength m) right
  simp only [List.nil_append, List.length_nil, Nat.zero_add] at hspan hspan'
  have hlen := congrArg List.length h
  simp only [List.length_append] at hshort hlen
  rw [← h] at hspan'
  have hread := readLength_iff.mpr ⟨hn, hspan, by simp only; omega⟩
  have hread' := readLength_iff.mpr ⟨hm, hspan', by simp only; omega⟩
  obtain ⟨rfl, -⟩ := EStateM.Result.ok.inj (hread.symm.trans hread')
  exact ⟨rfl, List.append_cancel_left h⟩

/-- An element says where it ends. -/
theorem encodeTlv_append_inj {tag tag' : Tag} {contents contents' left right : Bytes}
    (hshort : (encodeTlv tag contents ++ left).length < 2 ^ 64)
    (h : encodeTlv tag contents ++ left = encodeTlv tag' contents' ++ right) :
    tag = tag' ∧ contents = contents' ∧ left = right := by
  have hlen := congrArg List.length h
  simp only [encodeTlv, List.cons_append, List.append_assoc, List.length_cons, List.length_append]
    at hshort hlen
  simp only [encodeTlv, List.cons_append, List.append_assoc, List.cons.injEq] at h
  obtain ⟨hoctet, hrest⟩ := h
  obtain ⟨hcount, hbody⟩ := encodeLength_append_inj
    (by simp only [List.length_append]; omega) (by omega) (by omega) hrest
  obtain ⟨hcontents, hright⟩ := List.append_inj hbody hcount
  cases tag
  cases tag'
  exact ⟨congrArg Tag.mk hoctet, hcontents, hright⟩

/-- An encoding determines its contents. -/
theorem encodeTlv_inj {tag tag' : Tag} {contents contents' : Bytes}
    (hshort : (encodeTlv tag contents).length < 2 ^ 64)
    (h : encodeTlv tag contents = encodeTlv tag' contents') : tag = tag' ∧ contents = contents' := by
  rw [← List.append_nil (encodeTlv tag contents)] at h hshort
  rw [← List.append_nil (encodeTlv tag' contents')] at h
  obtain ⟨htag, hcontents, -⟩ := encodeTlv_append_inj hshort h
  exact ⟨htag, hcontents⟩

/-- One whole element of an encoding. -/
def Element (bytes : Bytes) : Prop := ∃ tag contents, bytes = encodeTlv tag contents

/-- The octets of several elements are the octets of no others. -/
theorem elements_inj {left right : List Bytes} (hleft : ∀ element ∈ left, Element element)
    (hright : ∀ element ∈ right, Element element) (hshort : left.flatten.length < 2 ^ 64)
    (h : left.flatten = right.flatten) : left = right := by
  have hnil : ∀ {elements : List Bytes}, (∀ element ∈ elements, Element element) →
      elements.flatten = [] → elements = [] := by
    intro elements helements hflat
    cases elements with
    | nil => rfl
    | cons element rest =>
        obtain ⟨tag, contents, rfl⟩ := helements element (by simp)
        simp [encodeTlv] at hflat
  induction left generalizing right with
  | nil => exact (hnil hright h.symm).symm
  | cons element rest ih =>
      cases right with
      | nil => exact hnil hleft h
      | cons element' rest' =>
          obtain ⟨tag, contents, rfl⟩ := hleft element (by simp)
          obtain ⟨tag', contents', rfl⟩ := hright element' (by simp)
          rw [List.flatten_cons, List.flatten_cons] at h
          rw [List.flatten_cons] at hshort
          obtain ⟨rfl, rfl, hrest⟩ := encodeTlv_append_inj hshort h
          rw [List.length_append] at hshort
          rw [ih (fun e he => hleft e (by simp [he])) (fun e he => hright e (by simp [he]))
            (by omega) hrest]

/-! ### The typed readers -/

section
variable {α : Type} {tag : Tag} {body : α → Bytes}

/-- A successful read of `a` moves over the canonical encoding of `body a` under `tag`. -/
def ReadsAs (tag : Tag) (body : α → Bytes) (read : Read α) : Prop :=
  ∀ r a r', read r = .ok a r' → Spans r (encodeTlv tag (body a)) r'

/-- Two successful reads with equal results moved over equal octets. -/
def ConsumesByResult (read : Read α) : Prop :=
  ∀ r₁ r₂ a r₁' r₂', read r₁ = .ok a r₁' → read r₂ = .ok a r₂' → consumed r₁ r₁' = consumed r₂ r₂'

theorem ReadsAs.consumesByResult {read : Read α} (h : ReadsAs tag body read) :
    ConsumesByResult read := by
  intro r₁ r₂ a r₁' r₂' h₁ h₂
  rw [(h _ _ _ h₁).consumed_eq, (h _ _ _ h₂).consumed_eq]

/-- A reader that requires a tag and then only looks at the contents: the value it read, and
what it went on to do with it. -/
theorem read_bind_inv {f : Value → Read α} {r r' : Reader} {a : α}
    (h : (read tag >>= f) r = .ok a r') :
    ∃ value r₁ rest, Spans r (encodeTlv tag value.contents) r₁ ∧ f value = rest ∧
      rest r₁ = .ok a r' := by
  obtain ⟨value, r₁, hvalue, hf⟩ := Read.bind_eq_ok.mp h
  obtain ⟨hany, rfl⟩ := read_iff.mp hvalue
  obtain ⟨-, henc, hspan, -⟩ := readAny_iff.mp hany
  rw [henc] at hspan
  exact ⟨value, r₁, f value, hspan, rfl, hf⟩

/-- It is enough that the contents are what the result stands for. -/
theorem ReadsAs.of_read {f : Value → Read α}
    (h : ∀ value rest r a r', f value = rest → rest r = .ok a r' →
      r' = r ∧ value.contents = body a) :
    ReadsAs tag body (read tag >>= f) := by
  intro r a r' hread
  obtain ⟨value, r₁, rest, hspan, hf, hrest⟩ := read_bind_inv hread
  obtain ⟨rfl, hbody⟩ := h _ _ _ _ _ hf hrest
  rwa [← hbody]
end

/-- The contents of an `INTEGER` of a given magnitude: a zero octet clears the sign bit. -/
def integerContents (magnitude : Bytes) : Bytes :=
  if magnitude.headD 0 &&& 0x80 = 0 then magnitude else 0 :: magnitude

theorem readUnsignedInteger_readsAs : ReadsAs .integer integerContents readUnsignedInteger := by
  refine ReadsAs.of_read fun value rest r a r' hrest h => ?_
  split at hrest <;> subst hrest
  · exact absurd h Read.throw_ne_ok
  · next first heq =>
      split at h
      · exact absurd h Read.throw_ne_ok
      · next hsign =>
          obtain ⟨rfl, rfl⟩ := Read.pure_eq_ok.mp h
          rw [heq, integerContents, if_pos (by simpa using hsign)]
          exact ⟨rfl, rfl⟩
  · next first second octets heq =>
      split at h
      · exact absurd h Read.throw_ne_ok
      next hsign =>
      split at h
      · next hzero =>
          split at h
          · exact absurd h Read.throw_ne_ok
          · next hsecond =>
              obtain ⟨rfl, rfl⟩ := Read.pure_eq_ok.mp h
              rw [heq, integerContents, List.headD_cons, if_neg hsecond, hzero]
              exact ⟨rfl, rfl⟩
      · obtain ⟨rfl, rfl⟩ := Read.pure_eq_ok.mp h
        rw [heq, integerContents, if_pos (by simpa using hsign)]
        exact ⟨rfl, rfl⟩

/-- The magnitude of an `INTEGER` is the shortest for its number. -/
theorem readUnsignedInteger_minimal {r r' : Reader} {magnitude : Bytes}
    (h : readUnsignedInteger r = .ok magnitude r') : beMin (beNat magnitude) = magnitude := by
  obtain ⟨value, r₁, rest, -, hrest, h⟩ := read_bind_inv h
  split at hrest <;> subst hrest
  · exact absurd h Read.throw_ne_ok
  · split at h
    · exact absurd h Read.throw_ne_ok
    · obtain ⟨rfl, -⟩ := Read.pure_eq_ok.mp h
      exact beMin_beNat_cons (.inr rfl)
  · split at h
    · exact absurd h Read.throw_ne_ok
    split at h
    · split at h
      · exact absurd h Read.throw_ne_ok
      · next hsecond =>
          obtain ⟨rfl, -⟩ := Read.pure_eq_ok.mp h
          refine beMin_beNat_cons (.inl fun hzero => hsecond ?_)
          rw [hzero]
          rfl
    · next hfirst =>
        obtain ⟨rfl, -⟩ := Read.pure_eq_ok.mp h
        exact beMin_beNat_cons (.inl hfirst)

theorem readU64_readsAs : ReadsAs .integer (fun n => integerContents (beMin n)) readU64 := by
  intro r n r' h
  obtain ⟨magnitude, r₁, hread, h⟩ := Read.bind_eq_ok.mp h
  split at h
  · exact absurd h Read.throw_bind_ne_ok
  · obtain ⟨rfl, rfl⟩ := Read.pure_eq_ok.mp h
    have hspan := readUnsignedInteger_readsAs _ _ _ hread
    rwa [← readUnsignedInteger_minimal hread] at hspan

theorem readBool_readsAs :
    ReadsAs .boolean (fun b => [if b then 0xff else 0x00]) readBool := by
  refine ReadsAs.of_read fun value rest r b r' hrest h => ?_
  split at hrest <;> subst hrest
  · next heq =>
      obtain ⟨rfl, rfl⟩ := Read.pure_eq_ok.mp h
      exact ⟨rfl, heq⟩
  · next heq =>
      obtain ⟨rfl, rfl⟩ := Read.pure_eq_ok.mp h
      exact ⟨rfl, heq⟩
  · exact absurd h Read.throw_ne_ok
  · exact absurd h Read.throw_ne_ok

theorem readBitStringOctets_readsAs :
    ReadsAs .bitString (fun octets => 0 :: octets) readBitStringOctets := by
  refine ReadsAs.of_read fun value rest r octets r' hrest h => ?_
  split at hrest <;> subst hrest
  · exact absurd h Read.throw_ne_ok
  · next unused octets heq =>
      split at h
      · next hzero =>
          obtain ⟨rfl, rfl⟩ := Read.pure_eq_ok.mp h
          rw [heq, hzero]
          exact ⟨rfl, rfl⟩
      · exact absurd h Read.throw_ne_ok

theorem readOid_readsAs : ReadsAs .oid ObjectIdentifier.asBytes readOid := by
  refine ReadsAs.of_read fun value rest r oid r' hrest h => ?_
  subst hrest
  dsimp only at h
  split at h
  · exact absurd h Read.throw_bind_ne_ok
  split at h
  · exact absurd h Read.throw_bind_ne_ok
  · obtain ⟨rfl, rfl⟩ := Read.pure_eq_ok.mp h
    exact ⟨rfl, rfl⟩

theorem readNull_readsAs : ReadsAs .null (fun _ => []) readNull := by
  refine ReadsAs.of_read fun value rest r u r' hrest h => ?_
  subst hrest
  split at h
  · next heq =>
      obtain ⟨-, rfl⟩ := Read.pure_eq_ok.mp h
      exact ⟨rfl, heq⟩
  · exact absurd h Read.throw_ne_ok

/-! ### One encoding per value -/

/-- Reading is canonical and complete: `readAny` accepts, at any position, exactly the shortest
definite-length encodings of low-tag-number values, and none of the typed readers gives one
result to two encodings. -/
theorem reading_canonical :
    (∀ r value r', readAny r = .ok value r' →
      value.encoded = encodeTlv value.tag value.contents ∧
      consumed r r' = value.encoded ∧ Spans r value.encoded r' ∧
      ¬ value.tag.octet &&& 0x1f = 0x1f ∧
      LengthForm value.contents.length (encodeLength value.contents.length) ∧
      ∀ octets, LengthForm value.contents.length octets →
        octets = encodeLength value.contents.length ∨
          (encodeLength value.contents.length).length < octets.length) ∧
    (∀ tag contents before after, ¬ tag.octet &&& 0x1f = 0x1f →
      (before ++ encodeTlv tag contents ++ after).length < 2 ^ 64 →
      ∃ r', readAny ⟨before ++ encodeTlv tag contents ++ after, before.length⟩ =
          .ok ⟨tag, contents, encodeTlv tag contents⟩ r' ∧
        r'.input.take r'.pos = before ++ encodeTlv tag contents ∧
        r'.input.drop r'.pos = after) ∧
    ConsumesByResult readUnsignedInteger ∧ ConsumesByResult readU64 ∧
    ConsumesByResult readBool ∧ ConsumesByResult readBitStringOctets ∧
    ConsumesByResult readOid ∧ ConsumesByResult readNull := by
  refine ⟨fun r value r' h => ?_, fun tag contents before after hlow hword => ?_,
    readUnsignedInteger_readsAs.consumesByResult, readU64_readsAs.consumesByResult,
    readBool_readsAs.consumesByResult, readBitStringOctets_readsAs.consumesByResult,
    readOid_readsAs.consumesByResult, readNull_readsAs.consumesByResult⟩
  · obtain ⟨hlow, henc, hspan, hword⟩ := readAny_iff.mp h
    have hlen : value.contents.length < 2 ^ 64 := by
      have hpos := hspan.pos
      have hshort := encodeTlv_length value.tag value.contents
      rw [← henc] at hshort
      omega
    exact ⟨henc, hspan.consumed_eq, hspan, hlow, encodeLength_form hlen,
      fun _ => encodeLength_shortest⟩
  · have hspan := spans_of_input before (encodeTlv tag contents) after
    refine ⟨_, readAny_iff.mpr ⟨hlow, rfl, hspan, ?_⟩, ?_, ?_⟩
    · simp only [List.length_append] at hword ⊢
      omega
    · rw [← List.length_append, List.take_left]
    · rw [← List.length_append, List.drop_left]

/-- A one-octet `INTEGER` in the middle of an input. -/
theorem reading_canonical_integer :
    ∃ r', readAny ⟨[0xff] ++ encodeTlv .integer [0x05] ++ [0x07], 1⟩ =
        .ok ⟨.integer, [0x05], [0x02, 0x01, 0x05]⟩ r' ∧
      r'.input.take r'.pos = [0xff, 0x02, 0x01, 0x05] ∧ r'.input.drop r'.pos = [0x07] :=
  reading_canonical.2.1 .integer [0x05] [0xff] [0x07] (by decide) (by decide)

end RustyTls.Der
