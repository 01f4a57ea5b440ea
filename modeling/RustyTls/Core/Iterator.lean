import Mathlib.Logic.Function.Iterate

/-!
# RustyTls.Core.Iterator

Iterators that may be called again after they have ended.

`next s` is the item an iterator in the state `s` yields together with the state it is left in,
or `none`. Its holder may go on calling it after a `none`, which leaves it as it was:
`nextItem next s n` is what call number `n` yields, counted from the state `s`.
`nextItem_ends` is the termination rule: when every item makes a measure of the state smaller,
the calls yield at most that many items and then nothing, for good.
-/

namespace RustyTls.Core

variable {σ ι : Type} (next : σ → Option (ι × σ))

/-- The iterator after one call. -/
def afterNext (s : σ) : σ := ((next s).map Prod.snd).getD s

/-- What call number `n` yields. -/
def nextItem (s : σ) (n : Nat) : Option ι := (next ((afterNext next)^[n] s)).map Prod.fst

variable {next} {s s' : σ} {i : ι}

theorem afterNext_of_some (h : next s = some (i, s')) : afterNext next s = s' := by
  rw [afterNext, h]
  rfl

theorem iterate_afterNext_of_none (h : next s = none) (n : Nat) : (afterNext next)^[n] s = s := by
  have hfixed : afterNext next s = s := by
    rw [afterNext, h]
    rfl
  exact Function.iterate_fixed hfixed n

theorem nextItem_of_some (h : next s = some (i, s')) : nextItem next s 0 = some i := by
  rw [nextItem, Function.iterate_zero_apply, h]
  rfl

theorem nextItem_succ (h : next s = some (i, s')) (n : Nat) :
    nextItem next s (n + 1) = nextItem next s' n := by
  rw [nextItem, Function.iterate_succ_apply, afterNext_of_some h, nextItem]

/-- An iterator that has ended stays so. -/
theorem nextItem_of_none (h : next s = none) (n : Nat) : nextItem next s n = none := by
  rw [nextItem, iterate_afterNext_of_none h, h]
  rfl

/-- Calls after the first `m` are calls of the iterator those have left behind. -/
theorem nextItem_add (s : σ) (m n : Nat) :
    nextItem next s (m + n) = nextItem next ((afterNext next)^[m] s) n := by
  rw [nextItem, Nat.add_comm, Function.iterate_add_apply, nextItem]

/-- The termination rule. -/
theorem nextItem_ends {measure : σ → Nat}
    (hless : ∀ s i s', next s = some (i, s') → measure s' < measure s) (s : σ) :
    ∃ k ≤ measure s, ∀ n, nextItem next s n = none ↔ k ≤ n := by
  induction hm : measure s using Nat.strongRecOn generalizing s with
  | _ m ih =>
      subst hm
      cases hnext : next s with
      | none => exact ⟨0, Nat.zero_le _, fun n => by simp [nextItem_of_none hnext]⟩
      | some step =>
          obtain ⟨i, s'⟩ := step
          have hlt := hless s i s' hnext
          obtain ⟨k, hk, hend⟩ := ih _ hlt s' rfl
          refine ⟨k + 1, Nat.lt_of_le_of_lt hk hlt, fun n => ?_⟩
          cases n with
          | zero => simp [nextItem_of_some hnext]
          | succ n => rw [nextItem_succ hnext, hend, Nat.add_le_add_iff_right]

end RustyTls.Core
