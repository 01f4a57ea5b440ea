import Mathlib.Data.List.Basic
import RustyTls.Record

/-!
# RustyTls.RecordSound

Record stream integrity under an active network.

A `Channel` is a sealer and an opener of one key, with the network between them: a run is
any list of events, each a call that seals or a byte string that the network passes to the
opener, in any order. The AEAD is ideal. `Ring.ideal` opens exactly what has been sealed so
far under the same key, nonce and additional data, so a forgery is a failed lookup.

The invariant `Channel.Inv` numbers everything: the `k`-th sealed record uses the number
`s + k`, the opener that has returned `r` records expects the number `s + r`, and the nonce
determines the number (`nonce_injective`). A record that opens is therefore the next one in
order, whatever was delivered.
-/

namespace RustyTls

open Core

/-! ### Nonces, headers and padding -/

theorem zipWith_xor_inj : ∀ {xs as bs : Bytes}, as.length = xs.length → bs.length = xs.length →
    List.zipWith (· ^^^ ·) xs as = List.zipWith (· ^^^ ·) xs bs → as = bs := by
  intro xs
  induction xs with
  | nil =>
      intro as bs has hbs _
      rw [List.length_eq_zero_iff.mp has, List.length_eq_zero_iff.mp hbs]
  | cons x xs ih =>
      intro as bs has hbs h
      cases as with
      | nil => simp at has
      | cons a as =>
          cases bs with
          | nil => simp at hbs
          | cons b bs =>
              obtain ⟨hhead, htail⟩ := List.cons.inj h
              have hab : a = b := by simpa using hhead
              rw [hab, ih (by simpa using has) (by simpa using hbs) htail]

theorem nonce_length (key : DirectionKey) (seq : UInt64) : (key.nonce seq).length = nonceLen := by
  simp [DirectionKey.nonce, key.iv_length, nonceLen]

/-- Under one key, the nonce determines the record's number. -/
theorem nonce_injective {key : DirectionKey} {a b : UInt64} (h : key.nonce a = key.nonce b) :
    a = b := by
  have hiv : (key.iv.drop (nonceLen - 8)).length = 8 := by
    rw [List.length_drop, key.iv_length]
    rfl
  have hbytes : beBytes 8 a.toNat = beBytes 8 b.toNat :=
    zipWith_xor_inj (by simp [hiv]) (by simp [hiv]) (List.append_cancel_left h)
  have hnat : a.toNat = b.toNat :=
    beBytes_inj (by simpa using a.toNat_lt) (by simpa using b.toNat_lt) hbytes
  exact UInt64.toNat_inj.mp hnat

/-- The padding scan finds the type octet that was written, zeros in the content or not. -/
theorem innerContent_innerPlaintext {typ : ContentType} (htyp : typ.asU8 ≠ 0) (fragment : Bytes)
    (padding : Nat) :
    Opener.innerContent (Sealer.innerPlaintext typ fragment padding)
      = some (typ.asU8, fragment) := by
  have hscan : (Sealer.innerPlaintext typ fragment padding).reverse.dropWhile (· == 0)
      = typ.asU8 :: fragment.reverse := by
    have hrev : (Sealer.innerPlaintext typ fragment padding).reverse
        = List.replicate padding 0 ++ typ.asU8 :: fragment.reverse := by
      simp [Sealer.innerPlaintext]
    rw [hrev, List.dropWhile_append_of_pos (by simp),
      List.dropWhile_cons_of_neg (by simpa using htyp)]
  unfold Opener.innerContent
  rw [hscan]
  simp

theorem additionalData_length (n : Nat) : (additionalData n).length = headerLen := by
  simp [additionalData, headerLen]

theorem declaredLength_append {n : Nat} (hn : n < 2 ^ 16) (body : Bytes) :
    Opener.declaredLength (additionalData n ++ body) = n := by
  have hfield : ((additionalData n ++ body).drop 3).take 2 = beBytes 2 n := by
    simp [additionalData]
  rw [Opener.declaredLength, hfield, beNat_beBytes (by simpa using hn)]

/-! ### Numbers -/

/-- A counter at the number `n`, exhausted from `2 ^ 64` on. -/
def seqAt (n : Nat) : Sequence := ⟨if n < 2 ^ 64 then some (UInt64.ofNat n) else none⟩

theorem startingAt_eq (seq : UInt64) : Sequence.startingAt seq = seqAt seq.toNat := by
  rw [seqAt, if_pos seq.toNat_lt, Sequence.startingAt, UInt64.ofNat_toNat]

theorem seqAt_peek {n : Nat} {seq : UInt64} (h : (seqAt n).peek = .ok seq) :
    n < 2 ^ 64 ∧ seq = UInt64.ofNat n := by
  simp only [seqAt, Sequence.peek, okOr_eq_ok] at h
  split at h
  · next hn => exact ⟨hn, by simpa [eq_comm] using h⟩
  · exact absurd h (by simp)

theorem seqAt_advance {n : Nat} (hn : n < 2 ^ 64) :
    Sequence.advance (UInt64.ofNat n) = seqAt (n + 1) := by
  have hval : (UInt64.ofNat n).toNat = n := by simpa using Nat.mod_eq_of_lt hn
  unfold Sequence.advance seqAt
  rw [hval]
  split
  · congr 2
    apply UInt64.toNat_inj.mp
    rw [UInt64.toNat_add, hval]
    simp
  · rfl

/-! ### What one call does -/

/-- A call that seals: its record, the AEAD call behind it and the counter it leaves. -/
theorem sealRecord_ok {ring : Ring} {sealer sealer' : Sealer} {typ : ContentType}
    {fragment record : Bytes} {padding : Nat}
    (h : sealer.sealRecord ring typ fragment padding = (.ok record, sealer')) :
    ∃ seq sealed, sealer.seq.peek = .ok seq ∧
      fragment.length ≤ maxFragmentLen ∧
      fragment.length + 1 + padding ≤ maxInnerPlaintextLen ∧
      ring.sealInPlace sealer.key.alg.ringAlgorithm sealer.key.key (sealer.key.nonce seq)
        (additionalData (fragment.length + 1 + padding + tagLen))
        (Sealer.innerPlaintext typ fragment padding) = some sealed ∧
      record = additionalData (fragment.length + 1 + padding + tagLen) ++ sealed ∧
      sealer' = { sealer with seq := .advance seq } := by
  unfold Sealer.sealRecord at h
  split at h
  · next record' seq hsealing =>
      obtain ⟨hrecord, rfl⟩ : record' = record ∧ { sealer with seq := .advance seq } = sealer' := by
        simpa using h
      subst hrecord
      simp only [Sealer.sealing, bind_eq_ok, refuse_eq_ok, okOr_eq_ok, Nat.not_lt] at hsealing
      obtain ⟨-, hfragment, -, hinner, seq', hpeek, sealed, hseal, heq⟩ := hsealing
      -- The saturating sum is the sum: it passed a bound below the saturation point.
      have hsum : saturatingAdd (saturatingAdd fragment.length 1) padding
          = fragment.length + 1 + padding := by
        obtain ⟨-, -, hmax, -, -⟩ := limits
        simp only [saturatingAdd] at hinner ⊢
        omega
      rw [hsum] at hinner hseal heq
      obtain ⟨hrecord, rfl⟩ : additionalData (fragment.length + 1 + padding + tagLen) ++ sealed
          = record' ∧ seq' = seq := by simpa using heq
      exact ⟨seq', sealed, hpeek, hfragment, hinner, hseal, hrecord.symm, rfl⟩
  · exact absurd h (by simp)

/-- A record that a sealer made of handshake messages. -/
def Sealed (ring : Ring) (record : Bytes) : Prop :=
  ∃ (sealer sealer' : Sealer) (fragment : Bytes),
    sealer.sealRecord ring .handshake fragment 0 = (.ok record, sealer')

theorem Sealed.head {ring : Ring} {record : Bytes} (h : Sealed ring record) :
    ∃ rest, record = ContentType.applicationData.asU8 :: rest := by
  obtain ⟨sealer, sealer', fragment, hseal⟩ := h
  obtain ⟨_, sealed, -, -, -, -, rfl, -⟩ := sealRecord_ok hseal
  exact ⟨_, rfl⟩

/-- A call that opens: what the AEAD returned and the counter it leaves. -/
theorem openRecord_ok {ring : Ring} {opener opener' : Opener} {record : Bytes} {opened : Opened}
    (h : opener.openRecord ring record = (.ok opened, opener')) :
    ∃ seq plaintext typ, opener.seq.peek = .ok seq ∧
      ring.openInPlace opener.key.alg.ringAlgorithm opener.key.key (opener.key.nonce seq)
        (additionalData (Opener.declaredLength record)) (record.drop headerLen)
        = some plaintext ∧
      Opener.innerContent plaintext = some (typ, opened.fragment) ∧
      opened.typ.asU8 = typ ∧ opener' = { opener with seq := .advance seq } := by
  unfold Opener.openRecord at h
  split at h
  · next opened' seq hopening =>
      obtain ⟨rfl, rfl⟩ : opened' = opened ∧ { opener with seq := .advance seq } = opener' := by
        simpa using h
      simp only [Opener.opening, bind_eq_ok, refuse_eq_ok, okOr_eq_ok] at hopening
      obtain ⟨-, -, -, -, -, -, -, -, -, -, seq', hpeek, plaintext, hopen, ⟨typ, content⟩,
        hinner, -, -, heq⟩ := hopening
      obtain ⟨rfl, rfl⟩ : Opened.mk (.fromU8 typ) content = opened' ∧ seq' = seq := by
        simpa using heq
      exact ⟨seq', plaintext, typ, hpeek, hopen, hinner, by simp, rfl⟩
  · exact absurd h (by simp)

/-- A failing open leaves the opener as it was. -/
theorem openRecord_error {ring : Ring} {opener opener' : Opener} {record : Bytes}
    {e : RecordError} (h : opener.openRecord ring record = (.error e, opener')) :
    opener' = opener := by
  unfold Opener.openRecord at h
  split at h
  · exact absurd h (by simp)
  · obtain ⟨-, rfl⟩ : _ ∧ opener = opener' := by simpa using h
    rfl

theorem sealRecord_error {ring : Ring} {sealer sealer' : Sealer} {typ : ContentType}
    {fragment : Bytes} {padding : Nat} {e : RecordError}
    (h : sealer.sealRecord ring typ fragment padding = (.error e, sealer')) :
    sealer' = sealer := by
  unfold Sealer.sealRecord at h
  split at h
  · exact absurd h (by simp)
  · obtain ⟨-, rfl⟩ : _ ∧ sealer = sealer' := by simpa using h
    rfl

/-- A well-formed record opens whenever the AEAD opens its body. -/
theorem openRecord_of_openInPlace {ring : Ring} {opener : Opener} {seq : UInt64}
    {fragment sealed plaintext : Bytes} {typ : UInt8} {n : Nat}
    (hn : tagLen + 1 ≤ n) (hmax : n ≤ maxEncryptedFragmentLen) (hbody : sealed.length = n)
    (hpeek : opener.seq.peek = .ok seq)
    (hopen : ring.openInPlace opener.key.alg.ringAlgorithm opener.key.key (opener.key.nonce seq)
      (additionalData n) sealed = some plaintext)
    (hinner : Opener.innerContent plaintext = some (typ, fragment))
    (hlen : fragment.length ≤ maxFragmentLen) :
    opener.openRecord ring (additionalData n ++ sealed)
      = (.ok ⟨.fromU8 typ, fragment⟩, { opener with seq := .advance seq }) := by
  have hdecl : Opener.declaredLength (additionalData n ++ sealed) = n := by
    apply declaredLength_append
    obtain ⟨-, hlimit, -, -, -⟩ := limits
    omega
  have hdrop : (additionalData n ++ sealed).drop headerLen = sealed := by
    rw [← additionalData_length n, List.drop_left]
  have hhead : (additionalData n ++ sealed).headD 0 = outerType := rfl
  have hlong : ¬ (additionalData n ++ sealed).length < headerLen := by
    rw [List.length_append, additionalData_length]
    omega
  have hopening : opener.opening ring (additionalData n ++ sealed)
      = .ok (⟨.fromU8 typ, fragment⟩, seq) := by
    have hmax' : ¬ maxEncryptedFragmentLen < n := by omega
    have hn' : ¬ n < tagLen + 1 := by omega
    have hlen' : ¬ maxFragmentLen < fragment.length := by omega
    simp only [Opener.opening, hhead, hdecl, hdrop, hbody, refuse_neg _ hlong, ne_eq,
      not_true_eq_false, refuse_neg _ not_false, refuse_neg _ hmax', refuse_neg _ hn', hpeek,
      ok_bind, hopen, okOr_some, hinner, refuse_neg _ hlen']
  rw [Opener.openRecord, hopening]

/-! ### The channel -/

/-- One AEAD encryption: what went in and what came out. -/
structure AeadSeal where
  alg : AeadAlgorithm
  key : Bytes
  nonce : Bytes
  aad : Bytes
  plaintext : Bytes
  ciphertext : Bytes
  deriving Repr, DecidableEq

/-- The ideal AEAD over the encryptions made so far: it opens a ciphertext that was sealed
under the same key, nonce and additional data, to what was sealed, and nothing else. -/
def Ring.ideal (ring : Ring) (table : List AeadSeal) : Ring :=
  { ring with
    openInPlace := fun alg key nonce aad ciphertext =>
      (table.find? fun e => e.alg = alg ∧ e.key = key ∧ e.nonce = nonce ∧ e.aad = aad ∧
        e.ciphertext = ciphertext).map (·.plaintext) }

/-- The two halves of a direction with the network between them: the encryptions made, the
records they gave, the type octets and fragments sealed, and those that were opened. -/
structure Channel where
  sealer : Sealer
  opener : Opener
  table : List AeadSeal := []
  records : List Bytes := []
  sent : List (UInt8 × Bytes) := []
  received : List (UInt8 × Bytes) := []

namespace Channel

/-- A call to seal, or a byte string the network passes to the opener. -/
inductive Event
  | seals (typ : ContentType) (fragment : Bytes) (padding : Nat)
  | delivers (record : Bytes)
  deriving Repr, DecidableEq

/-- The encryption behind a sealed record. -/
def encryption (sealer : Sealer) (typ : ContentType) (fragment : Bytes) (padding : Nat)
    (record : Bytes) : AeadSeal where
  alg := sealer.key.alg.ringAlgorithm
  key := sealer.key.key
  nonce := sealer.key.nonce (sealer.seq.next.getD 0)
  aad := additionalData (fragment.length + 1 + padding + tagLen)
  plaintext := Sealer.innerPlaintext typ fragment padding
  ciphertext := record.drop headerLen

def step (ring : Ring) (c : Channel) : Event → Channel
  | .seals typ fragment padding =>
      match c.sealer.sealRecord ring typ fragment padding with
      | (.ok record, sealer) =>
          { c with
            sealer
            table := c.table ++ [encryption c.sealer typ fragment padding record]
            records := c.records ++ [record]
            sent := c.sent ++ [(typ.asU8, fragment)] }
      | (.error _, sealer) => { c with sealer }
  | .delivers record =>
      match c.opener.openRecord (ring.ideal c.table) record with
      | (.ok opened, opener) =>
          { c with opener, received := c.received ++ [(opened.typ.asU8, opened.fragment)] }
      | (.error _, opener) => { c with opener }

/-- A run of the channel. -/
def run (ring : Ring) (c : Channel) (events : List Event) : Channel :=
  events.foldl (step ring) c

/-- What is known of the `k`-th sealed record. -/
structure Entry (key : DirectionKey) (n : Nat) (pair : UInt8 × Bytes) (record : Bytes)
    (e : AeadSeal) : Prop where
  nonce : e.nonce = key.nonce (UInt64.ofNat n)
  alg : e.alg = key.alg.ringAlgorithm
  sameKey : e.key = key.key
  content : Opener.innerContent e.plaintext = some pair
  short : pair.2.length ≤ maxFragmentLen
  framed : ∃ len, tagLen + 1 ≤ len ∧ len ≤ maxEncryptedFragmentLen ∧ e.aad = additionalData len ∧
    e.ciphertext.length = len ∧ record = additionalData len ++ e.ciphertext

/-- The invariant of a run from a sealer and an opener at the number `s`. -/
structure Inv (key : DirectionKey) (s : Nat) (c : Channel) : Prop where
  sealerKey : c.sealer.key = key
  openerKey : c.opener.key = key
  sealerSeq : c.sealer.seq = seqAt (s + c.sent.length)
  openerSeq : c.opener.seq = seqAt (s + c.received.length)
  numbered : s + c.sent.length ≤ 2 ^ 64
  table_length : c.table.length = c.sent.length
  records_length : c.records.length = c.sent.length
  entries : ∀ k pair record e, c.sent[k]? = some pair → c.records[k]? = some record →
    c.table[k]? = some e → Entry key (s + k) pair record e
  inOrder : c.received <+: c.sent

variable {ring : Ring} {key : DirectionKey} {s : Nat} {c : Channel}

/-- What the ideal AEAD opens under the number `s + k` is the `k`-th sealed record. -/
theorem ideal_open {aad ciphertext plaintext : Bytes} {n : Nat} (hinv : Inv key s c)
    (hn : s + n < 2 ^ 64)
    (h : (ring.ideal c.table).openInPlace key.alg.ringAlgorithm key.key
      (key.nonce (UInt64.ofNat (s + n))) aad ciphertext = some plaintext) :
    ∃ e pair record, c.table[n]? = some e ∧ c.sent[n]? = some pair ∧
      c.records[n]? = some record ∧ e.plaintext = plaintext ∧ Entry key (s + n) pair record e := by
  simp only [Ring.ideal, Option.map_eq_some_iff] at h
  obtain ⟨e, hfind, hplain⟩ := h
  have hmatch := List.find?_some hfind
  simp only [decide_eq_true_eq] at hmatch
  obtain ⟨k, hk⟩ := List.mem_iff_getElem?.mp (List.mem_of_find?_eq_some hfind)
  obtain ⟨hlt, -⟩ := List.getElem?_eq_some_iff.mp hk
  have hsent : k < c.sent.length := hinv.table_length ▸ hlt
  have hrec : k < c.records.length := by rw [hinv.records_length]; exact hsent
  have hentry := hinv.entries k _ _ e (List.getElem?_eq_getElem hsent)
    (List.getElem?_eq_getElem hrec) hk
  -- Both nonces belong to numbers below `2 ^ 64`, so the numbers are the same.
  have hnonce : key.nonce (UInt64.ofNat (s + k)) = key.nonce (UInt64.ofNat (s + n)) := by
    rw [← hentry.nonce, hmatch.2.2.1]
  have hnum := congrArg UInt64.toNat (nonce_injective hnonce)
  have hbound := hinv.numbered
  have hkn : k = n := by
    simp only [UInt64.toNat_ofNat'] at hnum
    rw [Nat.mod_eq_of_lt (by omega), Nat.mod_eq_of_lt hn] at hnum
    omega
  subst hkn
  exact ⟨e, _, _, hk, List.getElem?_eq_getElem hsent, List.getElem?_eq_getElem hrec, hplain,
    hentry⟩

/-- A record that opens is the next one in order. -/
theorem openRecord_next {record : Bytes} {opened : Opened} {opener : Opener}
    (hinv : Inv key s c)
    (h : c.opener.openRecord (ring.ideal c.table) record = (.ok opened, opener)) :
    c.sent[c.received.length]? = some (opened.typ.asU8, opened.fragment) ∧
    opener.key = key ∧ opener.seq = seqAt (s + c.received.length + 1) := by
  obtain ⟨seq, plaintext, typ, hpeek, hopen, hinner, rfl, rfl⟩ := openRecord_ok h
  rw [hinv.openerSeq] at hpeek
  obtain ⟨hlt, rfl⟩ := seqAt_peek hpeek
  rw [hinv.openerKey] at hopen
  obtain ⟨e, pair, record', -, hsent, -, rfl, hentry⟩ := ideal_open hinv hlt hopen
  rw [hentry.content] at hinner
  obtain rfl : pair = (opened.typ.asU8, opened.fragment) := by simpa using hinner
  exact ⟨hsent, hinv.openerKey, seqAt_advance hlt⟩

/-- The next record in order opens, whatever was delivered before it. -/
theorem openRecord_inOrder (ring : Ring) {record : Bytes} (hinv : Inv key s c)
    (h : c.records[c.received.length]? = some record) :
    ∃ opened opener, c.opener.openRecord (ring.ideal c.table) record = (.ok opened, opener) := by
  obtain ⟨hlt, -⟩ := List.getElem?_eq_some_iff.mp h
  have hsent : c.received.length < c.sent.length := hinv.records_length ▸ hlt
  have htable : c.received.length < c.table.length := by rw [hinv.table_length]; exact hsent
  have hbound := hinv.numbered
  have hnum : s + c.received.length < 2 ^ 64 := by omega
  obtain ⟨e, he⟩ : ∃ e, c.table[c.received.length]? = some e :=
    ⟨_, List.getElem?_eq_getElem htable⟩
  have hentry := hinv.entries _ _ _ e (List.getElem?_eq_getElem hsent) h he
  obtain ⟨len, hmin, hmax, haad, hlen, rfl⟩ := hentry.framed
  have hpeek : c.opener.seq.peek = .ok (UInt64.ofNat (s + c.received.length)) := by
    rw [hinv.openerSeq, Sequence.peek, seqAt, if_pos hnum]
    rfl
  -- The lookup finds an entry, and by the nonce it can only be this one.
  obtain ⟨plaintext, hopen⟩ : ∃ plaintext, (ring.ideal c.table).openInPlace
      key.alg.ringAlgorithm key.key (key.nonce (UInt64.ofNat (s + c.received.length)))
      (additionalData len) e.ciphertext = some plaintext := by
    have hsome : (c.table.find? fun e' => e'.alg = key.alg.ringAlgorithm ∧ e'.key = key.key ∧
        e'.nonce = key.nonce (UInt64.ofNat (s + c.received.length)) ∧
        e'.aad = additionalData len ∧ e'.ciphertext = e.ciphertext).isSome = true := by
      rw [List.find?_isSome]
      exact ⟨e, List.mem_of_getElem? he, by
        simp [hentry.alg, hentry.sameKey, hentry.nonce, haad]⟩
    obtain ⟨e', he'⟩ := Option.isSome_iff_exists.mp hsome
    exact ⟨e'.plaintext, Option.map_eq_some_iff.mpr ⟨e', he', rfl⟩⟩
  obtain ⟨e', pair, record', -, hpair, -, rfl, hentry'⟩ := ideal_open hinv hnum hopen
  obtain ⟨typ, fragment⟩ := pair
  refine ⟨_, _, openRecord_of_openInPlace hmin hmax hlen hpeek ?_ hentry'.content
    hentry'.short⟩
  rw [hinv.openerKey]
  exact hopen

/-! ### The invariant over a run -/

/-- A call that seals appends one entry with the next number. -/
theorem inv_seals {typ : ContentType} {fragment : Bytes} {padding : Nat}
    (hlen : ∀ alg key nonce aad p ct, ring.sealInPlace alg key nonce aad p = some ct →
      ct.length = p.length + tagLen)
    (hinv : Inv key s c) (htyp : typ.asU8 ≠ 0) :
    Inv key s (step ring c (.seals typ fragment padding)) := by
  simp only [step]
  split
  · next record sealer hseal =>
      obtain ⟨seq, sealed, hpeek, hfragment, hinner, hsealed, rfl, rfl⟩ := sealRecord_ok hseal
      have hpeek' := hpeek
      rw [hinv.sealerSeq] at hpeek'
      obtain ⟨hlt, rfl⟩ := seqAt_peek hpeek'
      have hnext : c.sealer.seq.next = some (UInt64.ofNat (s + c.sent.length)) := by
        simpa [Sequence.peek] using hpeek
      have hcipher : sealed.length = fragment.length + 1 + padding + tagLen := by
        rw [hlen _ _ _ _ _ _ hsealed]
        simp only [Sealer.innerPlaintext, List.length_append, List.length_singleton,
          List.length_replicate]
      have hdrop : (additionalData (fragment.length + 1 + padding + tagLen) ++ sealed).drop
          headerLen = sealed := by
        rw [← additionalData_length (fragment.length + 1 + padding + tagLen), List.drop_left]
      have hentry : Entry key (s + c.sent.length) (typ.asU8, fragment)
          (additionalData (fragment.length + 1 + padding + tagLen) ++ sealed)
          (encryption c.sealer typ fragment padding
            (additionalData (fragment.length + 1 + padding + tagLen) ++ sealed)) := by
        refine ⟨?_, ?_, ?_, innerContent_innerPlaintext htyp _ _, hfragment,
          fragment.length + 1 + padding + tagLen, ?_, ?_, rfl, ?_, ?_⟩
        · simp [encryption, hnext, hinv.sealerKey]
        · simp [encryption, hinv.sealerKey]
        · simp [encryption, hinv.sealerKey]
        · omega
        · obtain ⟨-, hlimit, hinner', htag, -⟩ := limits
          omega
        · simp only [encryption, hdrop, hcipher]
        · simp only [encryption, hdrop]
      exact {
        sealerKey := hinv.sealerKey
        openerKey := hinv.openerKey
        sealerSeq := by
          simp only [List.length_append, List.length_singleton]
          exact seqAt_advance hlt
        openerSeq := hinv.openerSeq
        numbered := by
          simp only [List.length_append, List.length_singleton]
          omega
        table_length := by simp [hinv.table_length]
        records_length := by simp [hinv.records_length]
        entries := by
          intro k pair record e hpair hrecord he
          by_cases hk : k < c.sent.length
          · rw [List.getElem?_append_left hk] at hpair
            rw [List.getElem?_append_left (hinv.records_length ▸ hk)] at hrecord
            rw [List.getElem?_append_left (hinv.table_length ▸ hk)] at he
            exact hinv.entries k pair record e hpair hrecord he
          · -- The only other index is the new one.
            obtain ⟨hk', -⟩ := List.getElem?_eq_some_iff.mp hpair
            simp only [List.length_append, List.length_singleton] at hk'
            obtain rfl : k = c.sent.length := by omega
            rw [List.getElem?_concat_length] at hpair
            rw [← hinv.records_length, List.getElem?_concat_length] at hrecord
            rw [← hinv.table_length, List.getElem?_concat_length] at he
            obtain rfl := Option.some.inj hpair
            obtain rfl := Option.some.inj hrecord
            obtain rfl := Option.some.inj he
            exact hentry
        inOrder := hinv.inOrder.trans (List.prefix_append _ _) }
  · next e sealer hseal =>
      obtain rfl := sealRecord_error hseal
      exact hinv

/-- A delivery either fails and changes nothing or returns the next record in order. -/
theorem inv_delivers (ring : Ring) (hinv : Inv key s c) (record : Bytes) :
    Inv key s (step ring c (.delivers record)) := by
  simp only [step]
  split
  · next opened opener hopen =>
      obtain ⟨hsent, hkey, hseq⟩ := openRecord_next hinv hopen
      refine { hinv with openerKey := hkey, openerSeq := ?_, inOrder := ?_ }
      · simp only [List.length_append, List.length_singleton]
        exact hseq
      · have htake : c.received = c.sent.take c.received.length :=
          List.prefix_iff_eq_take.mp hinv.inOrder
        obtain ⟨hlt, hget⟩ := List.getElem?_eq_some_iff.mp hsent
        have hnext : c.received ++ [(opened.typ.asU8, opened.fragment)]
            = c.sent.take (c.received.length + 1) := by
          rw [List.take_succ_eq_append_getElem hlt, hget, ← htake]
        rw [hnext]
        exact List.take_prefix _ _
  · next e opener hopen =>
      obtain rfl := openRecord_error hopen
      exact hinv

theorem inv_run (hlen : ∀ alg key nonce aad p ct, ring.sealInPlace alg key nonce aad p = some ct →
      ct.length = p.length + tagLen)
    {events : List Event}
    (htyp : ∀ typ fragment padding, .seals typ fragment padding ∈ events → typ.asU8 ≠ 0)
    (hinv : Inv key s c) : Inv key s (run ring c events) := by
  induction events generalizing c with
  | nil => exact hinv
  | cons event events ih =>
      have hrest : ∀ typ fragment padding, .seals typ fragment padding ∈ events →
          typ.asU8 ≠ 0 :=
        fun typ fragment padding hmem => htyp typ fragment padding (List.mem_cons_of_mem _ hmem)
      have hstep : Inv key s (step ring c event) := by
        cases event with
        | seals typ fragment padding =>
            exact inv_seals hlen hinv (htyp typ fragment padding List.mem_cons_self)
        | delivers record => exact inv_delivers ring hinv record
      exact ih hrest hstep

/-- Delivering what is left in order returns all of it. -/
theorem run_delivers_all (hinv : Inv key s c) :
    (run ring c ((c.records.drop c.received.length).map .delivers)).received = c.sent := by
  -- By induction on how many records are still to come.
  induction hn : c.records.length - c.received.length generalizing c with
  | zero =>
      have hle : c.records.length ≤ c.received.length := by omega
      rw [List.drop_eq_nil_of_le hle]
      have hsame : c.received.length = c.sent.length := by
        have := hinv.inOrder.length_le
        rw [hinv.records_length] at hle
        omega
      exact hinv.inOrder.eq_of_length hsame
  | succ n ih =>
      have hlt : c.received.length < c.records.length := by omega
      rw [List.drop_eq_getElem_cons hlt]
      obtain ⟨opened, opener, hopen⟩ := openRecord_inOrder ring hinv
        (List.getElem?_eq_getElem hlt)
      have hstep : step ring c (.delivers c.records[c.received.length])
          = { c with
              opener
              received := c.received ++ [(opened.typ.asU8, opened.fragment)] } := by
        simp only [step, hopen]
      have hinv' := inv_delivers ring hinv c.records[c.received.length]
      rw [hstep] at hinv'
      have := ih hinv' (by simp only [List.length_append, List.length_singleton]; omega)
      simp only [List.length_append, List.length_singleton] at this
      simpa only [run, List.map_cons, List.foldl_cons, hstep] using this

/-- A sealer and an opener built alike start in the invariant. -/
theorem inv_start {alg : Aead} {k iv : Bytes} {seq : UInt64} {sealer : Sealer} {opener : Opener}
    (hs : Sealer.newAt alg k iv seq = .ok sealer) (ho : Opener.newAt alg k iv seq = .ok opener) :
    ∃ key, Inv key seq.toNat { sealer, opener } := by
  simp only [Sealer.newAt, Opener.newAt, bind_eq_ok] at hs ho
  obtain ⟨key, hkey, hs⟩ := hs
  obtain ⟨key', hkey', ho⟩ := ho
  obtain rfl : key = key' := by simpa [hkey] using hkey'
  obtain rfl : Sealer.mk key (.startingAt seq) = sealer := by simpa using hs
  obtain rfl : Opener.mk key (.startingAt seq) = opener := by simpa using ho
  have hseq := startingAt_eq seq
  refine ⟨key, rfl, rfl, hseq, hseq, ?_, rfl, rfl, ?_, List.nil_prefix⟩
  · exact Nat.le_of_lt seq.toNat_lt
  · intro k pair record e hpair
    exact absurd hpair (by simp)

/-- Record stream integrity under an active network. With an ideal AEAD whose tags are
`tagLen` octets, for every run of seals with a non-zero type octet and of deliveries chosen
by the network: what the opener returned is a prefix of what was sealed, a delivery that
fails leaves the opener's number where it was, the next record in order opens, and
delivering the rest once and in order returns all of it. -/
theorem run_integrity (ring : Ring)
    (hlen : ∀ alg key nonce aad p ct, ring.sealInPlace alg key nonce aad p = some ct →
      ct.length = p.length + tagLen)
    (alg : Aead) (k iv : Bytes) (seq : UInt64) (sealer : Sealer) (opener : Opener)
    (hs : Sealer.newAt alg k iv seq = .ok sealer) (ho : Opener.newAt alg k iv seq = .ok opener)
    (events : List Event)
    (htyp : ∀ typ fragment padding, .seals typ fragment padding ∈ events → typ.asU8 ≠ 0) :
    let c := run ring { sealer, opener } events
    c.received <+: c.sent ∧
    (∀ record e opener', c.opener.openRecord (ring.ideal c.table) record = (.error e, opener') →
      opener'.seq = c.opener.seq) ∧
    (∀ record, c.records[c.received.length]? = some record →
      ∃ opened opener', c.opener.openRecord (ring.ideal c.table) record
        = (.ok opened, opener')) ∧
    (run ring c ((c.records.drop c.received.length).map .delivers)).received = c.sent := by
  intro c
  obtain ⟨key, hstart⟩ := inv_start hs ho
  have hinv : Inv key seq.toNat c := inv_run hlen htyp hstart
  refine ⟨hinv.inOrder, ?_, fun record => openRecord_inOrder ring hinv, run_delivers_all hinv⟩
  intro record e opener' herror
  rw [openRecord_error herror]

/-- Two records sealed around a forgery, then both delivered in order. -/
theorem run_integrity_sample :
    let key : DirectionKey := ⟨.aes128Gcm, List.replicate 16 7, List.replicate 12 3, rfl, rfl⟩
    let c := run Ring.sample { sealer := ⟨key, .startingAt 5⟩, opener := ⟨key, .startingAt 5⟩ }
      [.seals .handshake [0, 1] 2, .delivers [23, 3, 3], .seals .alert [] 0]
    c.received <+: c.sent ∧ c.sent = [(22, [0, 1]), (21, [])] ∧
    (run Ring.sample c ((c.records.drop c.received.length).map .delivers)).received
      = [(22, [0, 1]), (21, [])] := by
  have hrun := run_integrity Ring.sample
    (by
      intro alg key nonce aad p ct h
      obtain rfl := Option.some.inj h
      simp [checksum, tagLen])
    .aes128Gcm (List.replicate 16 7) (List.replicate 12 3) 5 _ _ rfl rfl
    [.seals .handshake [0, 1] 2, .delivers [23, 3, 3], .seals .alert [] 0]
    (by
      intro typ fragment padding hmem
      simp only [List.mem_cons, Event.seals.injEq, reduceCtorEq, false_or, List.not_mem_nil,
        or_false] at hmem
      rcases hmem with ⟨rfl, -, -⟩ | ⟨rfl, -, -⟩ <;> decide)
  exact ⟨hrun.1, rfl, hrun.2.2.2⟩

end Channel

end RustyTls
