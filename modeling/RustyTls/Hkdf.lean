import RustyTls.Schedule

/-!
# RustyTls.Hkdf

HKDF-Expand against RFC 5869 §2.3.

The specification is a sequence of blocks, each the HMAC of the one before it, and the output is
its first octets. `hkdfExpand` computes the sequence as long as its counter lasts. The counter is
one octet, and it is moved on after a block and before the loop asks whether that block was
enough; so the last block the counter could number is never returned (`hkdfExpand_eq`).
-/

namespace RustyTls

open Core

/-- The hash and its `ring` algorithm have the same output. -/
theorem Hash.outputLen_algorithm (hash : Hash) : hash.algorithm.outputLen = hash.len := by
  cases hash <;> rfl

theorem Hash.len_pos (hash : Hash) : 0 < hash.len := by
  cases hash <;> decide

theorem Hash.len_le (hash : Hash) : hash.len ≤ 48 := by
  cases hash <;> decide

/-! ### The specification -/

/-- `T(i)` of RFC 5869 §2.3. -/
def hkdfBlock (ring : Ring) (hash : Hash) (prk info : Bytes) : Nat → Bytes
  | 0 => []
  | i + 1 => ring.hmacSign hash.algorithm prk
      (hkdfBlock ring hash prk info i ++ info ++ [UInt8.ofNat (i + 1)])

/-- `T(1) ++ ... ++ T(n)`. -/
def hkdfBlocks (ring : Ring) (hash : Hash) (prk info : Bytes) (n : Nat) : Bytes :=
  (List.range n).flatMap fun i => hkdfBlock ring hash prk info (i + 1)

/-- The output key material: the first octets of the 255 blocks. -/
def hkdfOutput (ring : Ring) (hash : Hash) (prk info : Bytes) (length : Nat) : Bytes :=
  (hkdfBlocks ring hash prk info 255).take length

section
variable {ring : Ring} (hash : Hash) (prk info : Bytes)

theorem hkdfBlocks_succ (n : Nat) : hkdfBlocks ring hash prk info (n + 1)
    = hkdfBlocks ring hash prk info n ++ hkdfBlock ring hash prk info (n + 1) := by
  rw [hkdfBlocks, List.range_succ, List.flatMap_append, List.flatMap_singleton]
  rfl

theorem hkdfBlocks_prefix_of_le {m n : Nat} (h : m ≤ n) :
    hkdfBlocks ring hash prk info m <+: hkdfBlocks ring hash prk info n := by
  induction n, h using Nat.le_induction with
  | base => exact List.prefix_refl _
  | succ n _ ih =>
      rw [hkdfBlocks_succ]
      exact ih.trans (List.prefix_append _ _)

variable (hmac : ∀ alg key message, (ring.hmacSign alg key message).length = alg.outputLen)
include hmac

theorem hkdfBlocks_length (n : Nat) : (hkdfBlocks ring hash prk info n).length = n * hash.len := by
  induction n with
  | zero => simp [hkdfBlocks]
  | succ n ih =>
      rw [hkdfBlocks_succ, List.length_append, ih, hkdfBlock, hmac, Hash.outputLen_algorithm,
        Nat.succ_mul]

theorem hkdfOutput_length {length : Nat} (h : length ≤ 255 * hash.len) :
    (hkdfOutput ring hash prk info length).length = length := by
  rw [hkdfOutput, List.length_take, hkdfBlocks_length hash prk info hmac]
  omega

/-! ### The loop -/

/-- From the block the counter stands at, the loop has the output when 254 blocks hold it, and
runs out of numbers when not. -/
theorem hkdfExpandLoop_eq {length : Nat} (fuel n : Nat) (hn : n ≤ 254) (hfuel : n + fuel = 256) :
    hkdfExpandLoop ring hash prk info length fuel (UInt8.ofNat (n + 1))
        (hkdfBlock ring hash prk info n) (hkdfBlocks ring hash prk info n)
      = if length ≤ 254 * hash.len then some (hkdfOutput ring hash prk info length) else none := by
  induction fuel generalizing n with
  | zero => omega
  | succ fuel ih =>
      rw [hkdfExpandLoop, hkdfBlocks_length hash prk info hmac]
      by_cases hdone : length ≤ n * hash.len
      · have hfits : length ≤ 254 * hash.len := hdone.trans (Nat.mul_le_mul_right _ hn)
        rw [if_pos hdone, if_pos hfits, hkdfOutput]
        obtain ⟨rest, hrest⟩ := @hkdfBlocks_prefix_of_le ring hash prk info n 255 (by omega)
        rw [← hrest, List.take_append_of_le_length]
        rw [hkdfBlocks_length hash prk info hmac]
        exact hdone
      · rw [if_neg hdone]
        have hblock : ring.hmacSign hash.algorithm prk
            (hkdfBlock ring hash prk info n ++ info ++ [UInt8.ofNat (n + 1)])
            = hkdfBlock ring hash prk info (n + 1) := rfl
        simp only [hblock, ← hkdfBlocks_succ]
        by_cases hlast : n = 254
        · -- The 255th block: it is computed, and then the counter has nowhere to go.
          rw [hlast] at hdone ⊢
          rw [if_pos (by decide), if_neg hdone]
        · have hcounter : UInt8.ofNat (n + 1) ≠ 255 := by
            intro heq
            have := congrArg UInt8.toNat heq
            simp at this
            omega
          have hsucc : UInt8.ofNat (n + 1) + 1 = UInt8.ofNat (n + 1 + 1) := by simp
          rw [if_neg hcounter, hsucc]
          exact ih (n + 1) (by omega) (by omega)

/-- HKDF-Expand is the specification up to 254 blocks, and panics beyond. -/
theorem hkdfExpand_eq (length : Nat) : hkdfExpand ring hash prk info length
    = if length ≤ 254 * hash.len then some (hkdfOutput ring hash prk info length) else none :=
  hkdfExpandLoop_eq hash prk info hmac 256 0 (by omega) rfl

end

/-- HKDF-Expand and HKDF-Expand-Label return the first octets of the specification's blocks, as
many as were asked for, exactly up to 254 of the 255 blocks the specification allows. -/
theorem hkdfExpand_exact_iff (ring : Ring)
    (hmac : ∀ alg key message, (ring.hmacSign alg key message).length = alg.outputLen)
    (hash : Hash) (prk : Bytes) (length : Nat) (hlength : length ≤ 255 * hash.len) :
    (∀ info, (hkdfExpand ring hash prk info length = some (hkdfOutput ring hash prk info length) ∧
      (hkdfOutput ring hash prk info length).length = length) ↔ length ≤ 254 * hash.len) ∧
    (∀ label context, (expandLabel ring hash prk label context length
        = hkdfOutput ring hash prk (hkdfLabel length label context) length ∧
      (expandLabel ring hash prk label context length).length = length) ↔
        length ≤ 254 * hash.len) := by
  refine ⟨?_, ?_⟩
  · intro info
    rw [hkdfExpand_eq hash prk info hmac, hkdfOutput_length hash prk info hmac hlength]
    split
    · next hfits => simp [hfits]
    · next hlong => simp [hlong]
  · intro label context
    rw [expandLabel, hkdfExpand_eq hash prk _ hmac]
    split
    · next hfits => simp [hfits, hkdfOutput_length hash prk _ hmac hlength]
    · next hlong =>
        -- What a panic leaves is not as long as what was asked for.
        have hpos : length ≠ 0 := by omega
        simp [hlong, hpos.symm]

/-- Two blocks of SHA-256. -/
theorem hkdfExpand_exact_iff_sample :
    hkdfExpand .sample .sha256 [1] [2] 40 = some (hkdfOutput .sample .sha256 [1] [2] 40) ∧
    (hkdfOutput .sample .sha256 [1] [2] 40).length = 40 :=
  ((hkdfExpand_exact_iff .sample Ring.sample_lawful.hmac_length .sha256 [1] 40 (by decide)).1
    [2]).mpr (by decide)

/-- The 255 blocks of the specification are not returned. -/
theorem hkdfExpand_last_block : ¬ hkdfExpand .sample .sha256 [1] [2] (255 * Hash.sha256.len)
    = some (hkdfOutput .sample .sha256 [1] [2] (255 * Hash.sha256.len)) := by
  rw [hkdfExpand_eq _ _ _ Ring.sample_lawful.hmac_length, if_neg (by decide)]
  simp

end RustyTls
