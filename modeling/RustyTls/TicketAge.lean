import Mathlib.Tactic.NormNum
import RustyTls.Server
import RustyTls.TicketSound

/-!
# RustyTls.TicketAge

How old a ticket is, over the integers.

The two checks of a ticket's age read the same clock and compute differently. `age_is_plausible`
saturates at the largest 32-bit number of milliseconds, and so compares every older ticket as if
it were that old (`ageIsPlausible_eq`). `is_current` subtracts without a check, and a difference
below the 64-bit range comes out positive (`isCurrent_iff`). Each result below says for which
times the check means what it says.
-/

namespace RustyTls.TicketContents

open Core

/-! ### The reported age -/

/-- The age a ticket has, in milliseconds; one from the future is new. -/
def ageMs (contents : TicketContents) (now : Int64) : Int :=
  1000 * max 0 (now.toInt - contents.issuedAt.toInt)

theorem reportedAgeMs_toNat (contents : TicketContents) (obfuscated : UInt32) :
    ((contents.reportedAgeMs obfuscated).toNat : Int)
      = ((obfuscated.toNat : Int) - contents.ageAdd.toNat) % 2 ^ 32 := by
  have ha := contents.ageAdd.toNat_lt
  rw [reportedAgeMs, UInt32.toNat_sub]
  omega

/-- The check compares the age, cut off at the largest 32-bit number. -/
theorem ageIsPlausible_eq (contents : TicketContents) (obfuscated : UInt32) (now : Int64)
    (skewMs : UInt32) :
    contents.ageIsPlausible obfuscated now skewMs = true ↔
      |min (2 ^ 32 - 1) (contents.ageMs now) - ((contents.reportedAgeMs obfuscated).toNat : Int)|
        ≤ (skewMs.toNat : Int) := by
  have hreported := (contents.reportedAgeMs obfuscated).toNat_lt
  have hnow := now.toInt_lt
  have hissued := contents.issuedAt.toInt_lt
  rw [ageIsPlausible, decide_eq_true_iff, abs_le]
  simp only [absDiff, saturatingSub, ageMs]
  omega

/-- The age check means what it says, that the reported age is within the skew of the ticket's
own, unless the ticket's age does not fit 32 bits of milliseconds and the reported age is within
the skew of the largest number that does. -/
theorem ageIsPlausible_exact_iff (contents : TicketContents) (obfuscated : UInt32) (now : Int64)
    (skewMs : UInt32) :
    (contents.ageIsPlausible obfuscated now skewMs = true ↔
      |contents.ageMs now - ((obfuscated.toNat : Int) - contents.ageAdd.toNat) % 2 ^ 32|
        ≤ (skewMs.toNat : Int)) ↔
    contents.ageMs now ≤ 2 ^ 32 - 1 ∨
      ((obfuscated.toNat : Int) - contents.ageAdd.toNat) % 2 ^ 32 + skewMs.toNat < 2 ^ 32 - 1 ∨
      contents.ageMs now
        ≤ ((obfuscated.toNat : Int) - contents.ageAdd.toNat) % 2 ^ 32 + skewMs.toNat := by
  rw [ageIsPlausible_eq, reportedAgeMs_toNat, abs_le, abs_le]
  omega

/-- A ticket of time zero that is 5 000 000 seconds old: a client that reports the largest age is
taken to agree, though the ticket is 705 032 705 milliseconds older. -/
theorem ageIsPlausible_saturated :
    let contents : TicketContents := ⟨⟨0x1301⟩, 0, 5000000, 0, [], [], [1]⟩
    ¬ (contents.ageIsPlausible 4294967295 5000000 60000 = true ↔
      |contents.ageMs 5000000 - (((4294967295 : UInt32).toNat : Int) - contents.ageAdd.toNat) % 2 ^ 32|
        ≤ ((60000 : UInt32).toNat : Int)) := by
  decide +kernel

/-! ### Currency -/

/-- The machine's difference is the integer one when it fits, and off by `2 ^ 64` when not. -/
theorem toInt_sub_cases (a b : Int64) :
    (a - b).toInt = a.toInt - b.toInt ∧ -2 ^ 63 ≤ a.toInt - b.toInt ∧ a.toInt - b.toInt < 2 ^ 63 ∨
    (a - b).toInt = a.toInt - b.toInt - 2 ^ 64 ∧ 2 ^ 63 ≤ a.toInt - b.toInt ∨
    (a - b).toInt = a.toInt - b.toInt + 2 ^ 64 ∧ a.toInt - b.toInt < -2 ^ 63 := by
  have ha := a.toInt_lt
  have ha' := a.le_toInt
  have hb := b.toInt_lt
  have hb' := b.le_toInt
  rw [Int64.toInt_sub, Int.bmod_def]
  omega

theorem lifetime_toInt (lifetime : UInt32) : lifetime.toUInt64.toInt64.toInt = lifetime.toNat := by
  have hlt : 2 * lifetime.toUInt64.toBitVec.toNat < 2 ^ 64 := by
    have hnat : lifetime.toUInt64.toBitVec.toNat = lifetime.toNat := UInt32.toNat_toUInt64 lifetime
    have := lifetime.toNat_lt
    omega
  exact BitVec.toInt_eq_toNat_of_lt hlt

/-- What the currency check accepts: the ages from zero to the lifetime, and those so far in the
future that the difference wraps round to one of these. -/
theorem isCurrent_iff (contents : TicketContents) (now : Int64) :
    contents.isCurrent now = true ↔
      (contents.issuedAt.toInt ≤ now.toInt ∧
        now.toInt - contents.issuedAt.toInt ≤ contents.lifetime.toNat) ∨
      now.toInt - contents.issuedAt.toInt ≤ contents.lifetime.toNat - 2 ^ 64 := by
  have hlifetime := contents.lifetime.toNat_lt
  have hnow := now.toInt_lt
  have hnow' := now.le_toInt
  have hissued := contents.issuedAt.toInt_lt
  have hissued' := contents.issuedAt.le_toInt
  have hcases := toInt_sub_cases now contents.issuedAt
  rw [isCurrent, Bool.and_eq_true, decide_eq_true_iff, decide_eq_true_iff, Int64.le_iff_toInt_le,
    Int64.le_iff_toInt_le, lifetime_toInt, Int64.toInt_zero]
  omega

/-- The difference of two times is a 64-bit one. -/
def DifferenceFits (now issuedAt : Int64) : Prop :=
  -2 ^ 63 ≤ now.toInt - issuedAt.toInt ∧ now.toInt - issuedAt.toInt < 2 ^ 63

theorem toInt_sub_iff (now issuedAt : Int64) :
    (now - issuedAt).toInt = now.toInt - issuedAt.toInt ↔ DifferenceFits now issuedAt := by
  have hcases := toInt_sub_cases now issuedAt
  unfold DifferenceFits
  omega

/-- The currency check means what it says at this time. -/
structure CurrencyExact (contents : TicketContents) (now : Int64) : Prop where
  noWrap : (now - contents.issuedAt).toInt = now.toInt - contents.issuedAt.toInt
  meaning : contents.isCurrent now = true ↔ contents.issuedAt.toInt ≤ now.toInt ∧
    now.toInt - contents.issuedAt.toInt ≤ contents.lifetime.toNat
  future : now.toInt < contents.issuedAt.toInt → contents.isCurrent now = false

theorem currencyExact_iff (contents : TicketContents) (now : Int64) :
    CurrencyExact contents now ↔ DifferenceFits now contents.issuedAt := by
  rw [← toInt_sub_iff]
  constructor
  · intro h
    exact h.noWrap
  · intro hnoWrap
    have hfits := (toInt_sub_iff now contents.issuedAt).mp hnoWrap
    have hlifetime := contents.lifetime.toNat_lt
    have hcurrent := isCurrent_iff contents now
    unfold DifferenceFits at hfits
    refine ⟨hnoWrap, ?_, ?_⟩
    · rw [hcurrent]
      omega
    · intro hfuture
      rw [Bool.eq_false_iff, ne_eq, hcurrent]
      omega

/-- The times of a ticket come back as they were sealed, whatever its other fields are. -/
theorem decode_encode_times {contents decoded : TicketContents}
    (h : decode contents.encode = .ok (some decoded)) :
    decoded.issuedAt = contents.issuedAt ∧ decoded.lifetime = contents.lifetime := by
  rw [decode_encode_eq, map_eq_ok] at h
  obtain ⟨fields, h, heq⟩ := h
  obtain rfl := Option.some.inj heq
  simp only [encode_eq, List.drop_succ_cons, List.drop_zero, decodeFields, wireTicket,
    Reader.u16_append, Reader.u32_append, mapErr_ok, ok_bind, bind_eq_ok, issuedAt_halves] at h
  obtain ⟨_, -, _, -, _, -, _, -, _, -, _, -, hfields⟩ := h
  obtain rfl := Except.ok.inj hfields
  exact ⟨rfl, rfl⟩

end RustyTls.TicketContents

namespace RustyTls.Server

open Core TicketContents

variable {ring : Ring} {entropy : Entropy} {config : ServerConfig} {tickets : Tickets}
  {negotiated : Negotiated} {ticket : Bytes}

/-- The server seals this ticket for a connection. -/
def Issued (ring : Ring) (entropy : Entropy) (config : ServerConfig) (tickets : Tickets)
    (negotiated : Negotiated) (ticket : Bytes) : Prop :=
  ∃ k ageAdd psk, (ticketContents ring config tickets negotiated ageAdd psk).sealContents ring
    tickets.keys.current (entropy.fill (3 * k + 3) nonceLen) = .ok ticket

/-- A ticket opens, under keys of which only its own opens it, to what its contents decode to. -/
theorem Issued.decodes (lawful : ring.Lawful)
    (hissued : Issued ring entropy config tickets negotiated ticket)
    {keys : TicketKeys} (hmem : tickets.keys.current ∈ keys.current :: keys.previous)
    (honly : ∀ other ∈ keys.current :: keys.previous, other ≠ tickets.keys.current →
      (other.openTicket ring ticket).toOption = none)
    {contents : TicketContents} (hopens : openContents ring ticket keys = some (.ok contents)) :
    ∃ ageAdd psk, decode (ticketContents ring config tickets negotiated ageAdd psk).encode
      = .ok (some contents) := by
  obtain ⟨k, ageAdd, psk, hseal⟩ := hissued
  have hdrawn : ∀ nonce, entropy.fill (3 * k + 3) nonceLen = some nonce →
      nonce.length = nonceLen := fun nonce hfill => entropy.fill_length _ _ _ hfill
  have hopen := openTicket_of_only hmem (openTicket_sealTicket lawful hdrawn hseal) honly
  obtain ⟨plaintext, hplaintext, hdecode⟩ := openContents_eq_ok.mp hopens
  obtain rfl := Option.some.inj (hopen.symm.trans hplaintext)
  exact ⟨ageAdd, psk, hdecode⟩

/-- It opens to the times it was issued with. -/
theorem Issued.times (lawful : ring.Lawful)
    (hissued : Issued ring entropy config tickets negotiated ticket)
    {keys : TicketKeys} (hmem : tickets.keys.current ∈ keys.current :: keys.previous)
    (honly : ∀ other ∈ keys.current :: keys.previous, other ≠ tickets.keys.current →
      (other.openTicket ring ticket).toOption = none)
    {contents : TicketContents} (hopens : openContents ring ticket keys = some (.ok contents)) :
    contents.issuedAt = tickets.now ∧ contents.lifetime = tickets.lifetime := by
  obtain ⟨ageAdd, psk, hdecode⟩ := hissued.decodes lawful hmem honly hopens
  exact decode_encode_times hdecode

/-- The currency check means what it says, and accepts the tickets a server has issued from the
time it issued them to the end of their lifetime, exactly when the difference of the two times is
a 64-bit one. -/
theorem isCurrent_exact_iff (contents : TicketContents) (now : Int64) :
    (CurrencyExact contents now ↔ DifferenceFits now contents.issuedAt) ∧
    (∀ (ring : Ring) (entropy : Entropy) (config : ServerConfig) (tickets later : Tickets)
      (negotiated : Negotiated) (ticket : Bytes),
      ring.Lawful → Issued ring entropy config tickets negotiated ticket →
      tickets.keys.current ∈ later.keys.current :: later.keys.previous →
      (∀ other ∈ later.keys.current :: later.keys.previous, other ≠ tickets.keys.current →
        (other.openTicket ring ticket).toOption = none) →
      openContents ring ticket later.keys = some (.ok contents) → later.now = now →
      (CurrencyExact contents now ∧
        (contents.isCurrent now = true ↔ tickets.now.toInt ≤ now.toInt ∧
          now.toInt ≤ tickets.now.toInt + tickets.lifetime.toNat) ↔
        DifferenceFits now tickets.now)) := by
  refine ⟨currencyExact_iff contents now, ?_⟩
  intro ring entropy config tickets later negotiated ticket lawful hissued hmem honly hopens _
  obtain ⟨htime, hlifetime⟩ := hissued.times lawful hmem honly hopens
  rw [currencyExact_iff, htime, and_iff_left_iff_imp]
  intro hfits
  have hexact := (currencyExact_iff contents now).mpr (by rw [htime]; exact hfits)
  rw [hexact.meaning, htime, hlifetime]
  omega

/-- A ticket of the sample server, opened half a minute later. -/
theorem isCurrent_exact_iff_sample :
    let key : DirectionKey := ⟨.aes128Gcm, List.replicate 16 2, List.replicate 12 8, rfl, rfl⟩
    let negotiated : Negotiated :=
      ⟨.aes128Gcm, .sha256, .tlsAes128GcmSha256, ⟨.sha256, []⟩, [], ⟨key, .startingAt 0⟩, [], [],
        ⟨.sha256, [3]⟩, .finished, [], []⟩
    let later : Tickets := { Tickets.sample with now := Tickets.sample.now + 30 }
    ∃ ticket contents, Issued .sample (.sample 3) .sample .sample negotiated ticket ∧
      openContents .sample ticket later.keys = some (.ok contents) ∧
      CurrencyExact contents later.now ∧ contents.isCurrent later.now = true := by
  intro key negotiated later
  obtain ⟨ticket, hticket⟩ : ∃ ticket,
      (ticketContents .sample .sample .sample negotiated 7 [5]).sealContents .sample
        Tickets.sample.keys.current ((Entropy.sample 3).fill 3 nonceLen) = .ok ticket := ⟨_, rfl⟩
  obtain ⟨contents, hcontents⟩ : ∃ contents,
      openContents .sample ticket later.keys = some (.ok contents) := by
    obtain rfl := Except.ok.inj hticket
    exact ⟨ticketContents .sample .sample .sample negotiated 7 [5], by decide +kernel⟩
  have hissued : Issued .sample (.sample 3) .sample .sample negotiated ticket :=
    ⟨0, 7, [5], hticket⟩
  have honly : ∀ other ∈ later.keys.current :: later.keys.previous,
      other ≠ Tickets.sample.keys.current → (other.openTicket .sample ticket).toOption = none := by
    intro other hmem hne
    exact absurd (List.mem_singleton.mp hmem) hne
  have hfits : DifferenceFits later.now Tickets.sample.now := by
    unfold DifferenceFits
    decide
  have hexact := ((isCurrent_exact_iff contents later.now).2 .sample (.sample 3) .sample .sample
    later negotiated ticket Ring.sample_lawful hissued (by decide) honly hcontents rfl).mpr hfits
  exact ⟨ticket, contents, hissued, hcontents, hexact.1, hexact.2.mpr (by decide)⟩

/-- A ticket of the last time there is, checked at the first: the difference wraps round to one
second, and a ticket from the future is current. -/
theorem isCurrent_wrapped :
    let contents : TicketContents := ⟨⟨0x1301⟩, 9223372036854775807, 7200, 0, [], [], [1]⟩
    ¬ (contents.isCurrent (-9223372036854775808) = true ↔
      contents.issuedAt.toInt ≤ (-9223372036854775808 : Int64).toInt ∧
        (-9223372036854775808 : Int64).toInt - contents.issuedAt.toInt
          ≤ contents.lifetime.toNat) := by
  decide +kernel

end RustyTls.Server
