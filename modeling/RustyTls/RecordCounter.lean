import Mathlib.Data.List.Nodup
import RustyTls.RecordSound
import RustyTls.Core.Calls

/-!
# RustyTls.RecordCounter

The counter of a record half, over every list of calls.

A half reads its counter in the middle of a call and moves it at the end of one that succeeded.
`Half` is what the two halves share: the checks a call makes before it reads the counter, the
AEAD call it makes under the nonce of the counter's number, and the counter it leaves. From that
alone the calls that succeed take the numbers from the first on in order, one each, and the last
number ends the half (`CounterLaw`), whichever calls fail in between.
-/

namespace RustyTls

open Core

/-! ### The nonce as a number -/

theorem xor_add_mul {x y a b k : Nat} (ha : a < 2 ^ k) (hb : b < 2 ^ k) :
    (x * 2 ^ k + a) ^^^ (y * 2 ^ k + b) = (x ^^^ y) * 2 ^ k + (a ^^^ b) := by
  have hpos : 0 < 2 ^ k := Nat.two_pow_pos k
  have hxor : a ^^^ b < 2 ^ k := Nat.xor_lt_two_pow ha hb
  have hdiv : ∀ {m n : Nat}, n < 2 ^ k → (m * 2 ^ k + n) / 2 ^ k = m := by
    intro m n hn
    rw [Nat.add_comm, Nat.add_mul_div_right _ _ hpos, Nat.div_eq_of_lt hn, Nat.zero_add]
  have hmod : ∀ {m n : Nat}, n < 2 ^ k → (m * 2 ^ k + n) % 2 ^ k = n := by
    intro m n hn
    rw [Nat.mul_add_mod_self_right, Nat.mod_eq_of_lt hn]
  rw [← Nat.div_add_mod' ((x * 2 ^ k + a) ^^^ (y * 2 ^ k + b)) (2 ^ k), Nat.xor_div_two_pow,
    Nat.xor_mod_two_pow, hdiv ha, hdiv hb, hmod ha, hmod hb]

theorem pow_256 (n : Nat) : 256 ^ n = 2 ^ (8 * n) := by
  rw [pow_mul]
  norm_num

theorem beNat_zipWith_xor {as bs : Bytes} (h : as.length = bs.length) :
    beNat (List.zipWith (· ^^^ ·) as bs) = beNat as ^^^ beNat bs := by
  induction as generalizing bs with
  | nil =>
      obtain rfl := List.length_eq_zero_iff.mp h.symm
      rfl
  | cons a as ih =>
      cases bs with
      | nil => simp at h
      | cons b bs =>
          have hlen : as.length = bs.length := by simpa using h
          have hzip : (List.zipWith (· ^^^ ·) as bs).length = bs.length := by simp [hlen]
          have ha : beNat as < 2 ^ (8 * bs.length) := by
            rw [← pow_256, ← hlen]
            exact beNat_lt as
          have hb : beNat bs < 2 ^ (8 * bs.length) := by
            rw [← pow_256]
            exact beNat_lt bs
          rw [List.zipWith_cons_cons, beNat_cons, beNat_cons, beNat_cons, ih hlen, hzip, hlen,
            pow_256, xor_add_mul ha hb, UInt8.toNat_xor]

theorem beNat_append (as bs : Bytes) : beNat (as ++ bs) = beNat as * 256 ^ bs.length + beNat bs := by
  rw [beNat, List.foldl_append, foldl_be]
  rfl

/-- The nonce is the IV xored with the record's number. -/
theorem beNat_nonce (key : DirectionKey) (seq : UInt64) :
    beNat (key.nonce seq) = beNat key.iv ^^^ seq.toNat := by
  have hlow : (key.iv.drop (nonceLen - 8)).length = 8 := by
    rw [List.length_drop, key.iv_length]
    rfl
  have hseq : beNat (beBytes 8 seq.toNat) = seq.toNat := beNat_beBytes (by simpa using seq.toNat_lt)
  have hiv : beNat key.iv = beNat (key.iv.take (nonceLen - 8)) * 2 ^ 64
      + beNat (key.iv.drop (nonceLen - 8)) := by
    conv_lhs => rw [← List.take_append_drop (nonceLen - 8) key.iv]
    rw [beNat_append, hlow]
    norm_num
  have hbound : beNat (key.iv.drop (nonceLen - 8)) < 2 ^ 64 := by
    have := beNat_lt (key.iv.drop (nonceLen - 8))
    rw [hlow] at this
    exact this
  have hnumber : seq.toNat = 0 * 2 ^ 64 + seq.toNat := by omega
  rw [DirectionKey.nonce, beNat_append, beNat_zipWith_xor (by simp [hlow]), hseq,
    List.length_zipWith, hlow, beBytes_length, hiv]
  conv_rhs => rw [hnumber, xor_add_mul hbound seq.toNat_lt, Nat.xor_zero]
  norm_num

theorem directionKey_iv {alg : Aead} {k iv : Bytes} {key : DirectionKey}
    (h : DirectionKey.new alg k iv = .ok key) : key.iv = iv := by
  unfold DirectionKey.new at h
  split at h
  · split at h
    · obtain rfl := Except.ok.inj h
      rfl
    · exact absurd h (by simp)
  · exact absurd h (by simp)

/-! ### The two halves -/

/-- A half as its counter sees it. -/
structure Half (σ α ρ : Type) where
  step : σ → α → Except RecordError ρ × σ
  key : σ → DirectionKey
  seq : σ → Sequence
  /-- The argument passes the checks made before the counter is read. -/
  Admits : α → Prop
  /-- The AEAD call behind a result, made under this nonce. -/
  Under : σ → α → ρ → Bytes → Prop
  ok : ∀ {s a r s'}, step s a = (.ok r, s') → ∃ n, (seq s).peek = .ok n ∧
    Under s a r ((key s).nonce n) ∧ key s' = key s ∧ seq s' = .advance n
  error : ∀ {s a e s'}, step s a = (.error e, s') → s' = s
  exhausted : ∀ {s a}, (seq s).next = none → Admits a →
    (step s a).1 = .error .sequenceExhausted

/-- The arguments of `Sealer::seal`. -/
structure SealArgs where
  typ : ContentType
  fragment : Bytes
  padding : Nat
  deriving Repr, DecidableEq

/-- Without a number left, sealing fails once the lengths have been checked. -/
theorem sealRecord_exhausted {ring : Ring} {s : Sealer} (hnone : s.seq.next = none)
    {typ : ContentType} {fragment : Bytes} {padding : Nat}
    (hfragment : fragment.length ≤ maxFragmentLen)
    (hinner : fragment.length + 1 + padding ≤ maxInnerPlaintextLen) :
    (s.sealRecord ring typ fragment padding).1 = .error .sequenceExhausted := by
  have hlong : ¬ maxFragmentLen < fragment.length := by omega
  have hsum : ¬ maxInnerPlaintextLen < saturatingAdd (saturatingAdd fragment.length 1) padding := by
    simp only [saturatingAdd]
    omega
  have hpeek : s.seq.peek = .error .sequenceExhausted := by rw [Sequence.peek, hnone]; rfl
  have hsealing : s.sealing ring typ fragment padding = .error .sequenceExhausted := by
    simp only [Sealer.sealing, refuse_neg _ hlong, refuse_neg _ hsum, ok_bind, hpeek]
    rfl
  rw [Sealer.sealRecord, hsealing]

def sealerHalf (ring : Ring) : Half Sealer SealArgs Bytes where
  step sealer a := sealer.sealRecord ring a.typ a.fragment a.padding
  key := Sealer.key
  seq := Sealer.seq
  Admits a := a.fragment.length ≤ maxFragmentLen ∧
    a.fragment.length + 1 + a.padding ≤ maxInnerPlaintextLen
  Under sealer a record nonce := ∃ sealed,
    ring.sealInPlace sealer.key.alg.ringAlgorithm sealer.key.key nonce
      (additionalData (a.fragment.length + 1 + a.padding + tagLen))
      (Sealer.innerPlaintext a.typ a.fragment a.padding) = some sealed ∧
    record = additionalData (a.fragment.length + 1 + a.padding + tagLen) ++ sealed
  ok := by
    intro s a r s' h
    obtain ⟨seq, sealed, hpeek, -, -, hseal, hrecord, rfl⟩ := sealRecord_ok h
    exact ⟨seq, hpeek, ⟨sealed, hseal, hrecord⟩, rfl, rfl⟩
  error := sealRecord_error
  exhausted := fun hnone hadmits => sealRecord_exhausted hnone hadmits.1 hadmits.2

/-- The header of a record is in order, and its body of a length that can be opened. -/
def WellFramed (record : Bytes) : Prop :=
  headerLen ≤ record.length ∧ record.headD 0 = outerType ∧
  (record.drop headerLen).length = Opener.declaredLength record ∧
  tagLen + 1 ≤ Opener.declaredLength record ∧
  Opener.declaredLength record ≤ maxEncryptedFragmentLen

/-- Without a number left, opening fails once the header has been checked. -/
theorem openRecord_exhausted {ring : Ring} {s : Opener} (hnone : s.seq.next = none)
    {record : Bytes} (hframed : WellFramed record) :
    (s.openRecord ring record).1 = .error .sequenceExhausted := by
  obtain ⟨hheader, htype, hlen, hmin, hmax⟩ := hframed
  have hheader' : ¬ record.length < headerLen := by omega
  have hmin' : ¬ Opener.declaredLength record < tagLen + 1 := by omega
  have hmax' : ¬ maxEncryptedFragmentLen < Opener.declaredLength record := by omega
  have hpeek : s.seq.peek = .error .sequenceExhausted := by rw [Sequence.peek, hnone]; rfl
  have hopening : s.opening ring record = .error .sequenceExhausted := by
    simp only [Opener.opening, refuse_neg _ hheader', htype, hlen, ne_eq, not_true_eq_false,
      refuse_neg _ not_false, refuse_neg _ hmin', refuse_neg _ hmax', ok_bind, hpeek]
    rfl
  rw [Opener.openRecord, hopening]

def openerHalf (ring : Ring) : Half Opener Bytes Opened where
  step opener record := opener.openRecord ring record
  key := Opener.key
  seq := Opener.seq
  Admits := WellFramed
  Under opener record opened nonce := ∃ plaintext typ,
    ring.openInPlace opener.key.alg.ringAlgorithm opener.key.key nonce
      (additionalData (Opener.declaredLength record)) (record.drop headerLen) = some plaintext ∧
    Opener.innerContent plaintext = some (typ, opened.fragment) ∧ opened.typ.asU8 = typ
  ok := by
    intro s record opened s' h
    obtain ⟨seq, plaintext, typ, hpeek, hopen, hinner, htyp, rfl⟩ := openRecord_ok h
    exact ⟨seq, hpeek, ⟨plaintext, typ, hopen, hinner, htyp⟩, rfl, rfl⟩
  error := openRecord_error
  exhausted := fun hnone hframed => openRecord_exhausted hnone hframed

/-! ### The counter of a run -/

section
variable {σ α ρ : Type} {half : Half σ α ρ} {key : DirectionKey} {s : σ} {args : List α}
  {call : Call σ α RecordError ρ} {n k : Nat}

/-- The nonce of the number a call finds in its half. -/
def Half.nonce (half : Half σ α ρ) (call : Call σ α RecordError ρ) : Bytes :=
  (half.key call.before).nonce ((half.seq call.before).next.getD 0)

/-- What the calls on a half built at the number `start` satisfy. -/
structure CounterLaw (half : Half σ α ρ) (iv : Bytes) (start : UInt64)
    (cs : List (Call σ α RecordError ρ)) : Prop where
  /-- The calls that succeed take the numbers from `start` on, one each, and never one past the
  last; each gives the AEAD the IV xored with its number. -/
  numbered : ∀ (k : Nat) (call : Call σ α RecordError ρ),
    (cs.filter (·.succeeded))[k]? = some call →
    start.toNat + k ≤ 2 ^ 64 - 1 ∧
    (half.nonce call).length = nonceLen ∧
    beNat (half.nonce call) = beNat iv ^^^ (start.toNat + k) ∧
    ∃ r, call.result = .ok r ∧ half.Under call.before call.argument r (half.nonce call)
  /-- No two of them have the same nonce. -/
  distinct : ((cs.filter (·.succeeded)).map half.nonce).Nodup
  /-- A call that fails changes nothing. -/
  unchanged : ∀ call ∈ cs, call.succeeded = false → call.after = call.before
  /-- After the call with the last number every call fails, and one with arguments in order for
  want of a number. -/
  exhausted : ∀ (i j : Nat) (last call : Call σ α RecordError ρ), i < j → cs[i]? = some last →
    last.succeeded = true → (half.seq last.before).next = some (UInt64.ofNat (2 ^ 64 - 1)) →
    cs[j]? = some call → call.succeeded = false ∧
    (half.Admits call.argument → call.result = .error .sequenceExhausted)

/-- The half has this key and its counter is at `n`. -/
def Half.At (half : Half σ α ρ) (key : DirectionKey) (n : Nat) (s : σ) : Prop :=
  half.key s = key ∧ half.seq s = seqAt n

/-- Each success moves the counter by one. -/
theorem Half.numbered (half : Half σ α ρ) (key : DirectionKey) :
    Numbered half.step (half.At key) where
  ok := by
    intro n s a r s' hat hstep
    obtain ⟨seq, hpeek, -, hkey, hseq⟩ := half.ok hstep
    rw [hat.2] at hpeek
    obtain ⟨hn, rfl⟩ := seqAt_peek hpeek
    exact ⟨hkey.trans hat.1, hseq.trans (seqAt_advance hn)⟩
  error := by
    intro n s a e s' hat hstep
    rw [half.error hstep]
    exact hat

theorem succeeded_iff : call.succeeded = true ↔ ∃ r, call.result = .ok r := by
  cases h : call.result with
  | ok r => simp [Call.succeeded, h, Except.isOk, Except.toBool]
  | error e => simp [Call.succeeded, h, Except.isOk, Except.toBool]

theorem failed_iff : call.succeeded = false ↔ ∃ e, call.result = .error e := by
  cases h : call.result with
  | ok r => simp [Call.succeeded, h, Except.isOk, Except.toBool]
  | error e => simp [Call.succeeded, h, Except.isOk, Except.toBool]

/-- A call that succeeds with the counter at `n` uses the number `n`. -/
theorem Half.At.used (hat : half.At key n call.before)
    (hstep : half.step call.before call.argument = (call.result, call.after))
    (hok : call.succeeded = true) :
    n < 2 ^ 64 ∧ half.nonce call = key.nonce (UInt64.ofNat n) ∧
    ∃ r, call.result = .ok r ∧ half.Under call.before call.argument r (half.nonce call) := by
  obtain ⟨r, hr⟩ := succeeded_iff.mp hok
  rw [hr] at hstep
  obtain ⟨seq, hpeek, hunder, -, -⟩ := half.ok hstep
  have hnext : (half.seq call.before).next = some seq := by
    simpa [Sequence.peek] using hpeek
  have hnonce : half.nonce call = (half.key call.before).nonce seq := by
    rw [Half.nonce, hnext, Option.getD_some]
  rw [hat.2] at hpeek
  obtain ⟨hn, rfl⟩ := seqAt_peek hpeek
  rw [hnonce]
  exact ⟨hn, by rw [hat.1], r, hr, hunder⟩

/-- A success before the `j`-th call is counted there. -/
theorem successes_take_lt {cs : List (Call σ α RecordError ρ)} {i j : Nat} (hij : i < j)
    (hget : cs[i]? = some call) (hok : call.succeeded = true) :
    successes (cs.take i) < successes (cs.take j) := by
  have hone : successes (cs.take (i + 1)) = successes (cs.take i) + 1 := by
    rw [List.take_add_one, hget, successes, successes, List.countP_append]
    simp [hok]
  have hle : successes (cs.take (i + 1)) ≤ successes (cs.take j) :=
    List.Sublist.countP_le (List.take_sublist_take_left (by omega))
  omega

section
variable {start : UInt64} (hstart : half.At key start.toNat s)
include hstart

/-- The `k`-th success uses the `k`-th number. -/
theorem success_used
    (hget : ((calls half.step s args).filter (·.succeeded))[k]? = some call) :
    start.toNat + k < 2 ^ 64 ∧ half.nonce call = key.nonce (UInt64.ofNat (start.toNat + k)) ∧
    ∃ r, call.result = .ok r ∧ half.Under call.before call.argument r (half.nonce call) := by
  have hmem := List.mem_filter.mp (List.mem_of_getElem? hget)
  exact (calls_success (half.numbered key) hstart hget).used (calls_step hmem.1) hmem.2

/-- Different numbers are different nonces. -/
theorem nonces_nodup :
    (((calls half.step s args).filter (·.succeeded)).map half.nonce).Nodup := by
  rw [List.nodup_iff_getElem?_ne_getElem?]
  intro i j hij hj
  rw [List.length_map] at hj
  have hi : i < ((calls half.step s args).filter (·.succeeded)).length := by omega
  obtain ⟨hlti, hnoncei, -⟩ := success_used hstart (List.getElem?_eq_getElem hi)
  obtain ⟨hltj, hnoncej, -⟩ := success_used hstart (List.getElem?_eq_getElem hj)
  rw [List.getElem?_map, List.getElem?_map, List.getElem?_eq_getElem hi,
    List.getElem?_eq_getElem hj, Option.map_some, Option.map_some, hnoncei, hnoncej]
  intro hsame
  have hnum := congrArg UInt64.toNat (nonce_injective (Option.some.inj hsame))
  rw [UInt64.toNat_ofNat_of_lt' hlti, UInt64.toNat_ofNat_of_lt' hltj] at hnum
  omega

/-- Once the last number is taken, the counter of every later call is past it. -/
theorem past_last {i j : Nat} {last : Call σ α RecordError ρ} (hij : i < j)
    (hlast : (calls half.step s args)[i]? = some last) (hok : last.succeeded = true)
    (hnext : (half.seq last.before).next = some (UInt64.ofNat (2 ^ 64 - 1))) :
    2 ^ 64 ≤ start.toNat + successes ((calls half.step s args).take j) := by
  have hat := calls_at (half.numbered key) hstart hlast
  have hlater := successes_take_lt hij hlast hok
  have hnumber : start.toNat + successes ((calls half.step s args).take i) = 2 ^ 64 - 1 := by
    rw [hat.2] at hnext
    obtain ⟨hlt, hseq⟩ := seqAt_peek (by rw [Sequence.peek, hnext, okOr_some])
    rw [← UInt64.toNat_ofNat_of_lt' hlt, ← hseq, UInt64.toNat_ofNat_of_lt' (by norm_num)]
  omega

/-- From a half with its counter at `start`, whatever the calls are. -/
theorem counterLaw (args : List α) : CounterLaw half key.iv start (calls half.step s args) := by
  refine { numbered := ?_, distinct := nonces_nodup hstart, unchanged := ?_, exhausted := ?_ }
  · intro k call hget
    obtain ⟨hlt, hnonce, r, hr, hunder⟩ := success_used hstart hget
    refine ⟨by omega, ?_, ?_, r, hr, hunder⟩
    · rw [hnonce, nonce_length]
    · rw [hnonce, beNat_nonce, UInt64.toNat_ofNat_of_lt' hlt]
  · intro call hmem hfail
    obtain ⟨e, he⟩ := failed_iff.mp hfail
    exact half.error (he ▸ calls_step hmem)
  · intro i j last call hij hlast hok hnext hget
    have hpast := past_last hstart hij hlast hok hnext
    have hat := calls_at (half.numbered key) hstart hget
    have hnone : (half.seq call.before).next = none := by
      rw [hat.2, seqAt, if_neg (by omega)]
    have hstep := calls_step (List.mem_of_getElem? hget)
    refine ⟨?_, ?_⟩
    · rw [Bool.eq_false_iff]
      intro hsucc
      have hused := (hat.used hstep hsucc).1
      omega
    · intro hadmits
      have hfails := half.exhausted hnone hadmits
      rw [hstep] at hfails
      exact hfails

end

end

/-- A fragment over the limit is refused before the counter is read. -/
theorem sealRecord_long {ring : Ring} {sealer : Sealer} {typ : ContentType} {fragment : Bytes}
    {padding : Nat} (h : maxFragmentLen < fragment.length) :
    sealer.sealRecord ring typ fragment padding
      = (.error (.fragmentTooLong fragment.length maxFragmentLen), sealer) := by
  have hsealing : sealer.sealing ring typ fragment padding
      = .error (.fragmentTooLong fragment.length maxFragmentLen) := by
    rw [Sealer.sealing, refuse_pos _ h, error_bind]
  rw [Sealer.sealRecord, hsealing]

/-- The counters of the record layer never repeat a number or wrap. For every first number and
every list of calls, those that succeed take the numbers from it on in order, under nonces that
all differ; one that fails changes nothing; and after the last number every call fails, for want
of a number when its arguments pass the checks that come before. -/
theorem record_counters (ring : Ring) (alg : Aead) (k iv : Bytes) (start : UInt64) :
    (∀ sealer, Sealer.newAt alg k iv start = .ok sealer → ∀ args,
      CounterLaw (sealerHalf ring) iv start (calls (sealerHalf ring).step sealer args)) ∧
    (∀ opener, Opener.newAt alg k iv start = .ok opener → ∀ records,
      CounterLaw (openerHalf ring) iv start (calls (openerHalf ring).step opener records)) := by
  refine ⟨?_, ?_⟩
  · intro sealer hnew args
    rw [Sealer.newAt, bind_eq_ok] at hnew
    obtain ⟨key, hkey, hsealer⟩ := hnew
    obtain rfl := Except.ok.inj hsealer
    rw [← directionKey_iv hkey]
    have hat : (sealerHalf ring).At key start.toNat ⟨key, .startingAt start⟩ :=
      ⟨rfl, startingAt_eq start⟩
    exact counterLaw hat args
  · intro opener hnew records
    rw [Opener.newAt, bind_eq_ok] at hnew
    obtain ⟨key, hkey, hopener⟩ := hnew
    obtain rfl := Except.ok.inj hopener
    rw [← directionKey_iv hkey]
    have hat : (openerHalf ring).At key start.toNat ⟨key, .startingAt start⟩ :=
      ⟨rfl, startingAt_eq start⟩
    exact counterLaw hat records

/-- Two records from the number before the last on, and a call after them. -/
theorem record_counters_sample :
    let key : DirectionKey := ⟨.aes128Gcm, List.replicate 16 5, List.replicate 12 9, rfl, rfl⟩
    let start : UInt64 := 18446744073709551614
    let args : List SealArgs := [⟨.handshake, [1, 2], 0⟩, ⟨.alert, [], 3⟩, ⟨.alert, [], 0⟩]
    let cs := calls (sealerHalf Ring.sample).step ⟨key, .startingAt start⟩ args
    CounterLaw (sealerHalf Ring.sample) key.iv start cs ∧
    CounterLaw (openerHalf Ring.sample) key.iv start
      (calls (openerHalf Ring.sample).step ⟨key, .startingAt start⟩ [[23, 3, 3]]) ∧
    successes cs = 2 ∧
    (cs.map (·.result)).getLast? = some (.error .sequenceExhausted) := by
  intro key start args cs
  have hlaws := record_counters Ring.sample .aes128Gcm key.key key.iv start
  exact ⟨hlaws.1 _ rfl args, hlaws.2 _ rfl [[23, 3, 3]], by decide +kernel, by decide +kernel⟩

/-- An exhausted sealer does not refuse every call for want of a number: a fragment over the
limit is refused for its length. -/
theorem exhausted_not_always : ¬ ∀ (ring : Ring) (alg : Aead) (k iv : Bytes) (start : UInt64)
    (sealer : Sealer) (args : List SealArgs) (i j : Nat)
    (last call : Call Sealer SealArgs RecordError Bytes),
    Sealer.newAt alg k iv start = .ok sealer → i < j →
    (calls (sealerHalf ring).step sealer args)[i]? = some last → last.succeeded = true →
    last.before.seq.next = some (UInt64.ofNat (2 ^ 64 - 1)) →
    (calls (sealerHalf ring).step sealer args)[j]? = some call →
    call.result = .error .sequenceExhausted := by
  intro hall
  let key : DirectionKey := ⟨.aes128Gcm, List.replicate 16 5, List.replicate 12 9, rfl, rfl⟩
  obtain ⟨fragment, hlen⟩ : ∃ fragment : Bytes, fragment.length = 16385 :=
    ⟨List.replicate 16385 0, List.length_replicate⟩
  have hlong : maxFragmentLen < fragment.length := by
    rw [hlen]
    decide
  have hresult := hall Ring.sample .aes128Gcm key.key key.iv 18446744073709551615
    ⟨key, .startingAt 18446744073709551615⟩ [⟨.alert, [], 0⟩, ⟨.alert, fragment, 0⟩] 0 1 _ _ rfl
    (by decide) rfl (by decide +kernel) rfl rfl
  have herror : ∀ sealer : Sealer, ((sealerHalf Ring.sample).step sealer ⟨.alert, fragment, 0⟩).1
      = .error (.fragmentTooLong fragment.length maxFragmentLen) := by
    intro sealer
    exact congrArg Prod.fst (sealRecord_long hlong)
  exact absurd ((herror _).symm.trans hresult) (by simp)

end RustyTls
