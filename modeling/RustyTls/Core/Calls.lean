import Mathlib.Data.List.Basic

/-!
# RustyTls.Core.Calls

Calls on a state, one after the other, some of which fail.

`calls` keeps every call with the state it found and the state it left. What a call may rely on
often depends on how many of the calls before it succeeded. `Numbered` says that of one call, and
gives it for every call of a run: by its place among all of them (`calls_at`) and by its place
among those that succeed (`calls_success`).
-/

namespace RustyTls.Core

variable {σ α ε ρ : Type}

/-- One call: the state it found, its argument and result, and the state it left. -/
structure Call (σ α ε ρ : Type) where
  before : σ
  argument : α
  result : Except ε ρ
  after : σ

def Call.succeeded (call : Call σ α ε ρ) : Bool := call.result.isOk

/-- The calls with these arguments. -/
def calls (step : σ → α → Except ε ρ × σ) : σ → List α → List (Call σ α ε ρ)
  | _, [] => []
  | s, a :: rest => ⟨s, a, (step s a).1, (step s a).2⟩ :: calls step (step s a).2 rest

/-- `P n` is what the state satisfies after `n` calls that succeeded. -/
structure Numbered (step : σ → α → Except ε ρ × σ) (P : Nat → σ → Prop) : Prop where
  ok : ∀ {n s a r s'}, P n s → step s a = (.ok r, s') → P (n + 1) s'
  error : ∀ {n s a e s'}, P n s → step s a = (.error e, s') → P n s'

section
variable {step : σ → α → Except ε ρ × σ} {P : Nat → σ → Prop} {s : σ} {args : List α}
  {call : Call σ α ε ρ} {n i k : Nat}

/-- How many of the first calls succeeded. -/
def successes (cs : List (Call σ α ε ρ)) : Nat := cs.countP (·.succeeded)

theorem calls_step (h : call ∈ calls step s args) :
    step call.before call.argument = (call.result, call.after) := by
  induction args generalizing s with
  | nil => exact absurd h List.not_mem_nil
  | cons a rest ih =>
      rcases List.mem_cons.mp h with rfl | hmem
      · rfl
      · exact ih hmem

/-- The first call, and what the calls after it may rely on. -/
theorem Numbered.first (h : Numbered step P) (hs : P n s) (a : α) :
    P (n + successes [Call.mk s a (step s a).1 (step s a).2]) (step s a).2 := by
  cases hstep : step s a with
  | mk result s' =>
      cases result with
      | ok r =>
          have hone : successes [Call.mk s a (.ok r : Except ε ρ) s'] = 1 := rfl
          rw [hone]
          exact h.ok hs hstep
      | error e =>
          have hzero : successes [Call.mk s a (.error e : Except ε ρ) s'] = 0 := rfl
          rw [hzero]
          exact h.error hs hstep

/-- A call finds what the successes before it have left. -/
theorem calls_at (h : Numbered step P) (hs : P n s)
    (hcall : (calls step s args)[i]? = some call) :
    P (n + successes ((calls step s args).take i)) call.before := by
  induction args generalizing s n i with
  | nil => simp [calls] at hcall
  | cons a rest ih =>
      cases i with
      | zero =>
          obtain rfl : ⟨s, a, (step s a).1, (step s a).2⟩ = call := by simpa [calls] using hcall
          exact hs
      | succ i =>
          have hrest := ih (h.first hs a) (by simpa [calls] using hcall)
          have hcount : n + successes ((calls step s (a :: rest)).take (i + 1))
              = n + successes [Call.mk s a (step s a).1 (step s a).2] +
                successes ((calls step (step s a).2 rest).take i) := by
            rw [calls, List.take_succ_cons, successes, successes, successes, Nat.add_assoc,
              ← List.countP_append]
            rfl
          rw [hcount]
          exact hrest

/-- A call that succeeds finds what the successes before it have left. -/
theorem calls_success (h : Numbered step P) (hs : P n s)
    (hcall : ((calls step s args).filter (·.succeeded))[k]? = some call) :
    P (n + k) call.before := by
  induction args generalizing s n k with
  | nil => simp [calls] at hcall
  | cons a rest ih =>
      have hfirst := h.first hs a
      cases hok : (Call.mk s a (step s a).1 (step s a).2).succeeded with
      | false =>
          simp only [successes, List.countP_singleton, hok, Bool.false_eq_true, if_false] at hfirst
          rw [calls, List.filter_cons_of_neg (by simp [hok])] at hcall
          exact ih hfirst hcall
      | true =>
          simp only [successes, List.countP_singleton, hok, if_true] at hfirst
          rw [calls, List.filter_cons_of_pos hok] at hcall
          cases k with
          | zero =>
              obtain rfl : ⟨s, a, (step s a).1, (step s a).2⟩ = call := by simpa using hcall
              exact hs
          | succ k =>
              have hrest := ih hfirst (by simpa using hcall)
              have hcount : n + (k + 1) = n + 1 + k := by omega
              rw [hcount]
              exact hrest

end

end RustyTls.Core
