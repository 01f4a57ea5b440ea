import Mathlib.Data.Nat.Bitwise
import Mathlib.Data.Nat.Digits.Lemmas
import RustyTls.Core.Bytes

/-!
# RustyTls.Core.Base128

Numbers of any size in base 128, one after the other.

A number is a group of octets, its digits most significant first: the high bit is set on all but
the last. `base128 n` is the shortest group for `n`, and the only one that does not start with a
zero digit (`minimalGroup_iff`). Where a group ends can be seen from its octets alone, so a
concatenation of groups can be read back (`groupNats_flatten`).
-/

namespace RustyTls.Core

/-- `n` in base 128, without leading zero digits. -/
def base128 (n : Nat) : Bytes :=
  ((Nat.digits 128 (n / 128)).reverse.map fun d => UInt8.ofNat (128 + d)) ++ [UInt8.ofNat (n % 128)]

/-- Octets with the high bit set up to a last one without it. -/
def DigitGroup (octets : Bytes) : Prop :=
  ∃ high last, octets = high ++ [last] ∧ (∀ o ∈ high, 0x80 ≤ o) ∧ last < 0x80

/-- A group whose first digit is not a zero that could be left out. -/
def MinimalGroup (octets : Bytes) : Prop := DigitGroup octets ∧ octets.head? ≠ some 0x80

/-- The number a group denotes. -/
def groupNat (octets : Bytes) : Nat :=
  Nat.ofDigits 128 (octets.map fun o => o.toNat % 128).reverse

/-- The numbers of the groups of `octets`, `begun` being the octets of the first one that were
read before. -/
def groupNatsFrom (begun : Bytes) : Bytes → List Nat
  | [] => []
  | o :: octets =>
      if o < 0x80 then groupNat (begun ++ [o]) :: groupNatsFrom [] octets
      else groupNatsFrom (begun ++ [o]) octets

/-- The numbers of a concatenation of groups. -/
def groupNats (octets : Bytes) : List Nat := groupNatsFrom [] octets

variable {octets : Bytes} {octet last : UInt8}

/-! ### One group -/

theorem highBit_clear_iff : octet &&& 0x80 = 0 ↔ octet < 0x80 := by
  have hand : (octet &&& 0x80).toNat = (octet.toNat.testBit 7).toNat * 2 ^ 7 := by
    rw [UInt8.toNat_and]
    exact Nat.and_two_pow _ 7
  have hlt := octet.toNat_lt
  rw [← UInt8.toNat_inj, hand, Nat.testBit_eq_decide_div_mod_eq, UInt8.lt_iff_toNat_lt]
  simp only [UInt8.toNat_ofNat, Nat.reducePow, Nat.reduceMod, mul_eq_zero, OfNat.ofNat_ne_zero,
    or_false, Bool.toNat_eq_zero, decide_eq_false_iff_not]
  omega

theorem DigitGroup.ne_nil (h : DigitGroup octets) : octets ≠ [] := by
  obtain ⟨high, last, rfl, -⟩ := h
  exact List.append_ne_nil_of_right_ne_nil high (List.cons_ne_nil last [])

/-- A group ends with its first octet that has the high bit clear. -/
theorem digitGroup_cons_clear (h : octet < 0x80) : DigitGroup (octet :: octets) ↔ octets = [] := by
  constructor
  · intro hshape
    obtain ⟨high, last, heq, hhigh, -⟩ := hshape
    cases high with
    | nil => exact (List.cons.inj heq).2
    | cons o high =>
        obtain ⟨rfl, -⟩ := List.cons.inj heq
        exact absurd h (UInt8.not_lt.mpr (hhigh _ List.mem_cons_self))
  · intro heq
    obtain rfl := heq
    exact ⟨[], octet, rfl, fun _ ho => absurd ho List.not_mem_nil, h⟩

theorem digitGroup_cons_set (h : ¬ octet < 0x80) :
    DigitGroup (octet :: octets) ↔ DigitGroup octets := by
  constructor
  · intro hshape
    obtain ⟨high, last, heq, hhigh, hlast⟩ := hshape
    cases high with
    | nil =>
        obtain ⟨rfl, -⟩ := List.cons.inj heq
        exact absurd hlast h
    | cons o high =>
        obtain ⟨-, rfl⟩ := List.cons.inj heq
        exact ⟨high, last, rfl, fun p hp => hhigh p (List.mem_cons_of_mem o hp), hlast⟩
  · intro hshape
    obtain ⟨high, last, rfl, hhigh, hlast⟩ := hshape
    refine ⟨octet :: high, last, rfl, fun p hp => ?_, hlast⟩
    rcases List.mem_cons.mp hp with rfl | hp
    · exact UInt8.not_lt.mp h
    · exact hhigh p hp

theorem groupNat_concat (high : Bytes) (hlast : last < 0x80) :
    groupNat (high ++ [last]) = last.toNat + 128 * groupNat high := by
  have hdigit : last.toNat % 128 = last.toNat :=
    Nat.mod_eq_of_lt (by simpa [UInt8.lt_iff_toNat_lt] using hlast)
  simp [groupNat, Nat.ofDigits_cons, hdigit]

theorem base128_minimalGroup (n : Nat) : MinimalGroup (base128 n) := by
  have hlast : UInt8.ofNat (n % 128) < 0x80 := by
    rw [UInt8.lt_iff_toNat_lt, UInt8.toNat_ofNat']
    simp only [UInt8.toNat_ofNat, Nat.reducePow]
    omega
  have hhigh : ∀ d ∈ Nat.digits 128 (n / 128), (UInt8.ofNat (128 + d)).toNat = 128 + d := by
    intro d hd
    have hlt : d < 128 := Nat.digits_lt_base (by decide) hd
    rw [UInt8.toNat_ofNat', Nat.mod_eq_of_lt (by omega)]
  refine ⟨⟨_, _, rfl, ?_, hlast⟩, ?_⟩
  · intro o ho
    obtain ⟨d, hd, rfl⟩ := List.mem_map.mp ho
    rw [UInt8.le_iff_toNat_le, hhigh d (List.mem_reverse.mp hd)]
    exact Nat.le_add_right _ _
  · -- the most significant digit of a number is not zero
    intro hhead
    by_cases hn : n / 128 = 0
    · simp only [base128, hn, Nat.digits_zero, List.reverse_nil, List.map_nil, List.nil_append,
        List.head?_cons, Option.some.injEq] at hhead
      rw [hhead] at hlast
      exact absurd hlast (by decide)
    · have hne : Nat.digits 128 (n / 128) ≠ [] := Nat.digits_ne_nil_iff_ne_zero.mpr hn
      have hfirst := Nat.getLast_digit_ne_zero 128 hn
      rw [base128, List.head?_append_of_ne_nil _ (by simpa using hne), List.head?_map,
        List.head?_reverse, List.getLast?_eq_some_getLast hne, Option.map_some,
        Option.some.injEq] at hhead
      have hvalue := congrArg UInt8.toNat hhead
      rw [hhigh _ (List.getLast_mem hne)] at hvalue
      simp only [UInt8.toNat_ofNat] at hvalue
      omega

theorem groupNat_base128 (n : Nat) : groupNat (base128 n) = n := by
  have hlast : (UInt8.ofNat (n % 128)).toNat = n % 128 := by
    rw [UInt8.toNat_ofNat', Nat.mod_eq_of_lt (by omega)]
  have hhigh : groupNat ((Nat.digits 128 (n / 128)).reverse.map fun d => UInt8.ofNat (128 + d)) =
      n / 128 := by
    have hdigits : (Nat.digits 128 (n / 128)).map
        ((fun o : UInt8 => o.toNat % 128) ∘ fun d => UInt8.ofNat (128 + d)) =
          Nat.digits 128 (n / 128) := by
      refine (List.map_congr_left fun d hd => ?_).trans (List.map_id _)
      have hlt : d < 128 := Nat.digits_lt_base (by decide) hd
      rw [Function.comp_apply, UInt8.toNat_ofNat', id]
      omega
    rw [groupNat, List.map_map, ← List.map_reverse, List.reverse_reverse, hdigits,
      Nat.ofDigits_digits]
  rw [base128, groupNat_concat, hhigh, hlast, Nat.mod_add_div]
  rw [UInt8.lt_iff_toNat_lt, hlast]
  exact Nat.mod_lt _ (by decide)

theorem base128_groupNat (h : MinimalGroup octets) : base128 (groupNat octets) = octets := by
  obtain ⟨⟨high, last, rfl, hhigh, hlast⟩, hhead⟩ := h
  have hlt : last.toNat < 128 := by simpa [UInt8.lt_iff_toNat_lt] using hlast
  have hdigits : Nat.digits 128 (groupNat high) = (high.map fun o => o.toNat % 128).reverse := by
    refine Nat.digits_ofDigits 128 (by decide) _ ?_ ?_
    · intro d hd
      obtain ⟨o, -, rfl⟩ := List.mem_map.mp (List.mem_reverse.mp hd)
      exact Nat.mod_lt _ (by decide)
    · intro hne hzero
      cases high with
      | nil => exact hne rfl
      | cons first high =>
          have hle : 128 ≤ first.toNat := by
            simpa [UInt8.le_iff_toNat_le] using hhigh first List.mem_cons_self
          have hbound := first.toNat_lt
          rw [List.getLast_reverse, List.head_map] at hzero
          simp only [List.head_cons] at hzero
          refine hhead (congrArg some (UInt8.toNat.inj ?_))
          simp only [UInt8.toNat_ofNat, Nat.reducePow, Nat.reduceMod]
          omega
  rw [base128, groupNat_concat high hlast, Nat.add_mul_div_left _ _ (by decide),
    Nat.div_eq_of_lt hlt, Nat.zero_add, Nat.add_mul_mod_self_left, Nat.mod_eq_of_lt hlt, hdigits,
    List.reverse_reverse, List.map_map, UInt8.ofNat_toNat]
  congr 1
  refine (List.map_congr_left fun o ho => ?_).trans (List.map_id high)
  have hle : 128 ≤ o.toNat := by simpa [UInt8.le_iff_toNat_le] using hhigh o ho
  have hbound := o.toNat_lt
  apply UInt8.toNat.inj
  simp only [Function.comp_apply, UInt8.toNat_ofNat', id_eq]
  omega

/-- The minimal groups are the encodings of the numbers. -/
theorem minimalGroup_iff : MinimalGroup octets ↔ ∃ n, base128 n = octets := by
  constructor
  · exact fun h => ⟨groupNat octets, base128_groupNat h⟩
  · intro h
    obtain ⟨n, rfl⟩ := h
    exact base128_minimalGroup n

/-! ### A concatenation of groups -/

theorem groupNatsFrom_append (begun : Bytes) (hgroup : DigitGroup octets) (rest : Bytes) :
    groupNatsFrom begun (octets ++ rest) = groupNat (begun ++ octets) :: groupNats rest := by
  obtain ⟨high, last, rfl, hhigh, hlast⟩ := hgroup
  induction high generalizing begun with
  | nil =>
      rw [List.nil_append, List.singleton_append, groupNatsFrom, if_pos hlast]
      rfl
  | cons o high ih =>
      have ho : ¬ o < 0x80 := by
        rw [UInt8.not_lt]
        exact hhigh o List.mem_cons_self
      rw [List.cons_append, List.cons_append, groupNatsFrom, if_neg ho,
        ih (begun ++ [o]) fun p hp => hhigh p (List.mem_cons_of_mem o hp), List.append_assoc,
        List.singleton_append]

theorem groupNats_flatten {groups : List Bytes} (h : ∀ g ∈ groups, DigitGroup g) :
    groupNats groups.flatten = groups.map groupNat := by
  induction groups with
  | nil => rfl
  | cons g groups ih =>
      rw [List.flatten_cons, groupNats, groupNatsFrom_append [] (h g List.mem_cons_self),
        List.nil_append, ih fun g' hg' => h g' (List.mem_cons_of_mem g hg'), List.map_cons]

/-- Writing numbers and reading them back. -/
theorem groupNats_flatMap_base128 (ns : List Nat) : groupNats (ns.flatMap base128) = ns := by
  have hgroups : ∀ g ∈ ns.map base128, DigitGroup g := by
    intro g hg
    obtain ⟨n, -, rfl⟩ := List.mem_map.mp hg
    exact (base128_minimalGroup n).1
  rw [List.flatMap_def, groupNats_flatten hgroups, List.map_map]
  exact (List.map_congr_left fun n _ => groupNat_base128 n).trans (List.map_id ns)

/-- Reading a concatenation of minimal groups and writing the numbers again. -/
theorem flatMap_base128_groupNats {groups : List Bytes} (h : ∀ g ∈ groups, MinimalGroup g) :
    (groupNats groups.flatten).flatMap base128 = groups.flatten := by
  rw [groupNats_flatten fun g hg => (h g hg).1, List.flatMap_map, List.flatMap_def]
  refine congrArg List.flatten ((List.map_congr_left fun g hg => ?_).trans (List.map_id groups))
  exact base128_groupNat (h g hg)

end RustyTls.Core
