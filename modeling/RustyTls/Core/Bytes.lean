import Mathlib.Data.List.Basic
import Mathlib.Algebra.Order.Ring.Nat
import Mathlib.Data.Nat.Log
import Mathlib.Tactic.Ring

/-!
# RustyTls.Core.Bytes

Octet strings and fixed-width big-endian numbers.

Every length prefix and every integer of a network format is a number written in a
fixed count of octets, most significant first. `beBytes w n` writes one (truncating
modulo `256 ^ w`, as a cast to the narrower machine type does) and `beNat` reads one
back. The two are inverse on numbers that fit (`beNat_beBytes`) and on every octet
string (`beBytes_beNat`), which is what makes a length-prefixed parse reversible.

`beMin n` writes `n` in as few octets as it needs, and at least one. It is the shortest
octet string denoting `n` (`beMin_length_le`) and the only one of its length
(`eq_beMin_of_length`), so a format that insists on it has one encoding per number.
-/

namespace RustyTls.Core

/-- An octet string. -/
abbrev Bytes := List UInt8

/-- `n` in `w` big-endian octets, modulo `256 ^ w`. -/
def beBytes : Nat → Nat → Bytes
  | 0, _ => []
  | w + 1, n => UInt8.ofNat (n / 256 ^ w) :: beBytes w n

/-- The number an octet string denotes, most significant octet first. -/
def beNat (bs : Bytes) : Nat := bs.foldl (fun acc b => acc * 256 + b.toNat) 0

@[simp] theorem beBytes_length (w n : Nat) : (beBytes w n).length = w := by
  induction w with
  | zero => rfl
  | succ w ih => simp [beBytes, ih]

@[simp] theorem beNat_nil : beNat [] = 0 := rfl

theorem foldl_be (acc : Nat) (bs : Bytes) :
    bs.foldl (fun acc b => acc * 256 + b.toNat) acc = acc * 256 ^ bs.length + beNat bs := by
  induction bs generalizing acc with
  | nil => simp
  | cons b bs ih =>
      have hcons : beNat (b :: bs) = b.toNat * 256 ^ bs.length + beNat bs := by
        rw [beNat, List.foldl_cons, ih, Nat.zero_mul, Nat.zero_add]
      rw [List.foldl_cons, ih, hcons, List.length_cons, pow_succ]
      ring

theorem beNat_cons (b : UInt8) (bs : Bytes) :
    beNat (b :: bs) = b.toNat * 256 ^ bs.length + beNat bs := by
  rw [beNat, List.foldl_cons, foldl_be]
  simp

@[simp] theorem beNat_singleton (b : UInt8) : beNat [b] = b.toNat := by
  simp [beNat_cons]

/-- A number read from `w` octets fits in `w` octets. -/
theorem beNat_lt (bs : Bytes) : beNat bs < 256 ^ bs.length := by
  induction bs with
  | nil => simp
  | cons b bs ih =>
      have hb : b.toNat ≤ 255 := by have := b.toNat_lt; omega
      calc beNat (b :: bs) = b.toNat * 256 ^ bs.length + beNat bs := beNat_cons b bs
        _ < 255 * 256 ^ bs.length + 256 ^ bs.length :=
            Nat.add_lt_add_of_le_of_lt (Nat.mul_le_mul_right _ hb) ih
        _ = 256 ^ (b :: bs).length := by rw [List.length_cons, pow_succ]; ring

/-- Writing keeps the value modulo the width. -/
theorem beNat_beBytes_mod (w n : Nat) : beNat (beBytes w n) = n % 256 ^ w := by
  induction w with
  | zero => simp [beBytes, Nat.mod_one]
  | succ w ih =>
      have hbyte : (UInt8.ofNat (n / 256 ^ w)).toNat = n / 256 ^ w % 256 := by simp
      rw [beBytes, beNat_cons, beBytes_length, ih, hbyte, pow_succ, Nat.mod_mul,
        Nat.add_comm, Nat.mul_comm]

/-- Reading back a number that fits its width. -/
theorem beNat_beBytes {w n : Nat} (h : n < 256 ^ w) : beNat (beBytes w n) = n := by
  rw [beNat_beBytes_mod, Nat.mod_eq_of_lt h]

theorem beBytes_add_mul (w n k : Nat) : beBytes w (k * 256 ^ w + n) = beBytes w n := by
  induction w generalizing n k with
  | zero => rfl
  | succ w ih =>
      have hpos : 0 < 256 ^ w := Nat.pow_pos (by decide)
      have hsplit : k * 256 ^ (w + 1) + n = (k * 256) * 256 ^ w + n := by
        rw [pow_succ]; ring
      rw [beBytes, beBytes, hsplit, ih, Nat.add_comm (k * 256 * 256 ^ w),
        Nat.add_mul_div_right _ _ hpos]
      congr 1
      apply UInt8.toNat.inj
      rw [UInt8.toNat_ofNat', UInt8.toNat_ofNat']
      simp only [Nat.reducePow]
      omega

/-- Only the value modulo the width is written. -/
theorem beBytes_mod (w n : Nat) : beBytes w (n % 256 ^ w) = beBytes w n := by
  have hsplit : n = n / 256 ^ w * 256 ^ w + n % 256 ^ w := (Nat.div_add_mod' n (256 ^ w)).symm
  rw [hsplit, beBytes_add_mul, Nat.mul_add_mod_self_right, Nat.mod_mod]

/-- Every octet string is the encoding of the number it denotes. -/
theorem beBytes_beNat (bs : Bytes) : beBytes bs.length (beNat bs) = bs := by
  induction bs with
  | nil => rfl
  | cons b bs ih =>
      have hpos : 0 < 256 ^ bs.length := Nat.pow_pos (by decide)
      rw [List.length_cons, beBytes, beNat_cons, beBytes_add_mul, ih,
        Nat.add_comm, Nat.add_mul_div_right _ _ hpos,
        Nat.div_eq_of_lt (beNat_lt bs), Nat.zero_add]
      simp

theorem beBytes_inj {w m n : Nat} (hm : m < 256 ^ w) (hn : n < 256 ^ w)
    (h : beBytes w m = beBytes w n) : m = n := by
  rw [← beNat_beBytes hm, ← beNat_beBytes hn, h]

/-! ### The shortest octet string denoting a number -/

/-- `n` in the fewest big-endian octets that hold it; zero takes one. -/
def beMin (n : Nat) : Bytes := beBytes (Nat.log 256 n + 1) n

@[simp] theorem beNat_beMin (n : Nat) : beNat (beMin n) = n :=
  beNat_beBytes (Nat.lt_pow_succ_log_self (by decide) n)

theorem beMin_length (n : Nat) : (beMin n).length = Nat.log 256 n + 1 := beBytes_length _ _

/-- An octet string without a leading zero, or of one octet, is the shortest for its number. -/
theorem beMin_beNat_cons {b : UInt8} {bs : Bytes} (h : b ≠ 0 ∨ bs = []) :
    beMin (beNat (b :: bs)) = b :: bs := by
  have hlog : Nat.log 256 (beNat (b :: bs)) = bs.length := by
    rcases h with hb | rfl
    · have hpos : 1 ≤ b.toNat := by
        have : b.toNat ≠ 0 := fun h0 => hb (UInt8.toNat.inj h0)
        omega
      refine Nat.log_eq_of_pow_le_of_lt_pow ?_ (beNat_lt (b :: bs))
      rw [beNat_cons]
      calc 256 ^ bs.length = 1 * 256 ^ bs.length := (Nat.one_mul _).symm
        _ ≤ b.toNat * 256 ^ bs.length := Nat.mul_le_mul_right _ hpos
        _ ≤ b.toNat * 256 ^ bs.length + beNat bs := Nat.le_add_right _ _
    · exact Nat.log_of_lt (by rw [beNat_singleton]; exact b.toNat_lt)
  rw [beMin, hlog]
  exact beBytes_beNat (b :: bs)

/-- The shortest octet string for a number does not start with a zero octet, unless it is the
one octet of zero itself. -/
theorem beMin_cons {n : Nat} (hn : n ≠ 0) : ∃ b bs, beMin n = b :: bs ∧ b ≠ 0 := by
  refine ⟨_, _, rfl, fun hzero => ?_⟩
  have hle : 256 ^ Nat.log 256 n ≤ n := Nat.pow_log_le_self 256 hn
  have hlt : n < 256 ^ (Nat.log 256 n + 1) := Nat.lt_pow_succ_log_self (by decide) n
  have hpos : 0 < 256 ^ Nat.log 256 n := Nat.pow_pos (by decide)
  have hone : 1 ≤ n / 256 ^ Nat.log 256 n := (Nat.one_le_div_iff hpos).mpr hle
  have hbyte : n / 256 ^ Nat.log 256 n < 256 := by
    rw [Nat.div_lt_iff_lt_mul hpos, Nat.mul_comm, ← pow_succ]
    exact hlt
  have hval := congrArg UInt8.toNat hzero
  rw [UInt8.toNat_ofNat', Nat.mod_eq_of_lt hbyte] at hval
  simp only [UInt8.toNat_zero] at hval
  omega

/-- No octet string denoting a number is shorter than `beMin`. -/
theorem beMin_length_le {bs : Bytes} (h : bs ≠ []) : (beMin (beNat bs)).length ≤ bs.length := by
  have hpos : bs.length ≠ 0 := by simpa using h
  have hlog : Nat.log 256 (beNat bs) < bs.length := Nat.log_lt_of_lt_pow' hpos (beNat_lt bs)
  rw [beMin_length]
  omega

/-- One of the same length is the same string. -/
theorem eq_beMin_of_length {bs : Bytes} (h : bs.length = (beMin (beNat bs)).length) :
    bs = beMin (beNat bs) := by
  rw [beMin_length] at h
  rw [beMin, ← h, beBytes_beNat]

end RustyTls.Core
