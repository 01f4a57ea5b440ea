import Mathlib.Data.List.Lex
import Mathlib.Data.Set.Card

/-!
# RustyTls.Core.Attempts

Attempts made one after the other, under a budget.

Some attempts cost a unit of the budget, some end the run, and each leaves its mark on what is
remembered. `go` makes them in turn, and it starves where an attempt costs what is not left. Which
attempt that is depends on the list alone (`go_eq_starved_iff`). Where the list is in order, what
stands before an attempt is what comes before it (`mem_front_iff`), and the list is not needed to
count what that costs (`countP_eq_iff`).
-/

namespace RustyTls.Core

variable {α σ : Type}

/-- A kind of attempt: which cost a unit, which end the run, and what they leave behind. -/
structure Attempts (α σ : Type) where
  costs : α → Bool
  ends : α → Bool
  mark : σ → α → σ

/-- What a run of attempts has come to. -/
inductive Outcome (σ : Type)
  | ended
  | starved (held : σ)
  | next (budget : Nat) (s : σ)
  deriving Repr, DecidableEq

namespace Attempts

variable {m : Attempts α σ} {x : α} {xs ys : List α} {budget : Nat} {s held : σ}

/-- What one attempt leaves of the budget. -/
def left (m : Attempts α σ) (budget : Nat) (x : α) : Nat :=
  if m.costs x then budget - 1 else budget

/-- Make the attempts in turn. -/
def go (m : Attempts α σ) : List α → Nat → σ → Outcome σ
  | [], budget, s => .next budget s
  | x :: rest, budget, s =>
      if m.costs x ∧ budget = 0 then
        .starved s
      else if m.ends x then
        .ended
      else
        m.go rest (m.left budget x) (m.mark s x)

theorem go_starves (hcosts : m.costs x = true) : m.go (x :: xs) 0 s = .starved s := by
  rw [go, if_pos ⟨hcosts, rfl⟩]

theorem go_ends (hbudget : budget ≠ 0) (hends : m.ends x = true) :
    m.go (x :: xs) budget s = .ended := by
  rw [go, if_neg (fun h => hbudget h.2), if_pos hends]

theorem go_next (hbudget : m.costs x = true → budget ≠ 0) (hends : m.ends x = false) :
    m.go (x :: xs) budget s = m.go xs (m.left budget x) (m.mark s x) := by
  rw [go, if_neg (fun h => hbudget h.1 h.2), hends, if_neg Bool.false_ne_true]

theorem go_append : m.go (xs ++ ys) budget s = (match m.go xs budget s with
    | .next budget s => m.go ys budget s
    | other => other) := by
  induction xs generalizing budget s with
  | nil => rfl
  | cons x rest ih =>
      rw [List.cons_append, go, go]
      by_cases hstarves : m.costs x ∧ budget = 0
      · simp only [if_pos hstarves]
      · by_cases hends : m.ends x = true
        · simp only [if_neg hstarves, if_pos hends]
        · simp only [if_neg hstarves, if_neg hends, ih]

/-- The places of a list are its head and the places of its tail. -/
theorem exists_split_cons {P : List α → α → Prop} {y : α} :
    (∃ front x rest, y :: ys = front ++ x :: rest ∧ P front x) ↔
      P [] y ∨ ∃ front x rest, ys = front ++ x :: rest ∧ P (y :: front) x := by
  constructor
  · intro h
    obtain ⟨front, x, rest, hsplit, hP⟩ := h
    cases front with
    | nil =>
        obtain ⟨rfl, -⟩ := List.cons.inj hsplit
        exact .inl hP
    | cons first front =>
        obtain ⟨rfl, hrest⟩ := List.cons.inj hsplit
        exact .inr ⟨front, x, rest, hrest, hP⟩
  · intro h
    rcases h with hP | ⟨front, x, rest, hsplit, hP⟩
    · exact ⟨[], y, ys, rfl, hP⟩
    · exact ⟨y :: front, x, rest, by rw [hsplit, List.cons_append], hP⟩

/-- A run starves at the first attempt that costs a unit after as many as the budget have, if none
before it has ended the run. -/
theorem go_eq_starved_iff : m.go xs budget s = .starved held ↔
    ∃ front x rest, xs = front ++ x :: rest ∧ m.costs x = true ∧ front.countP m.costs = budget ∧
      (∀ y ∈ front, m.ends y = false) ∧ held = front.foldl m.mark s := by
  induction xs generalizing budget s with
  | nil => simp [go]
  | cons y ys ih =>
      rw [go, exists_split_cons]
      by_cases hstarves : m.costs y ∧ budget = 0
      · obtain ⟨hcosts, rfl⟩ := hstarves
        simp [hcosts, eq_comm (a := s)]
      · have hnot : ¬ (m.costs y = true ∧ 0 = budget) := fun h => hstarves ⟨h.1, h.2.symm⟩
        rw [if_neg hstarves]
        cases hends : m.ends y with
        | true => simp [hends, ← and_assoc, hnot]
        | false =>
            -- The rest is to cost what the first attempt has left.
            have hleft : ∀ n, n = m.left budget y ↔
                n + (if m.costs y = true then 1 else 0) = budget := by
              intro n
              unfold left
              split
              · next hcosts =>
                  have hpos : budget ≠ 0 := fun hzero => hstarves ⟨hcosts, hzero⟩
                  omega
              · rfl
            simp only [Bool.false_eq_true, if_false, ih, hleft, List.countP_nil, ← and_assoc, hnot,
              false_and, false_or, List.countP_cons, List.forall_mem_cons, hends, true_and,
              List.foldl_cons]

end Attempts

/-! ### Lists in order -/

variable {β : Type} [Preorder β] {place : α → β} {xs front rest : List α} {x : α}

/-- In a list in order, what stands before an element is what comes before it. -/
theorem mem_front_iff (hsorted : xs.Pairwise (place · < place ·)) (hsplit : xs = front ++ x :: rest)
    {y : α} : y ∈ front ↔ y ∈ xs ∧ place y < place x := by
  subst hsplit
  obtain ⟨-, hrest, hfront⟩ := List.pairwise_append.mp hsorted
  constructor
  · intro hy
    exact ⟨List.mem_append_left _ hy, hfront y hy x List.mem_cons_self⟩
  · intro h
    obtain ⟨hy, hlt⟩ := h
    rcases List.mem_append.mp hy with hy | hy
    · exact hy
    · rcases List.mem_cons.mp hy with rfl | hy
      · exact absurd hlt (lt_irrefl _)
      · exact absurd hlt (lt_asymm ((List.pairwise_cons.mp hrest).1 y hy))

/-- As many of a list without repetitions are of a kind as the set of them has elements. -/
theorem countP_eq_iff {costs : α → Bool} (hnodup : front.Nodup) (n : ℕ) :
    front.countP costs = n ↔ {y | y ∈ front ∧ costs y = true}.encard = n := by
  classical
  have hset : {y | y ∈ front ∧ costs y = true} = ((front.filter costs).toFinset : Set α) := by
    ext y
    simp
  rw [hset, Set.encard_coe_eq_coe_finsetCard, List.toFinset_card_of_nodup (hnodup.filter _),
    List.countP_eq_length_filter, Nat.cast_inj]

end RustyTls.Core
