/-!
# RustyTls.Core.Walk

Labelled steps, one after the other.

`Walk step a labels b` says that the steps with these labels lead from `a` to `b`. It is what is
left of a queue between two machines that must stay in step: the one behind, walked through
what is in flight, is where the one ahead already is. A sender appends at the far end
(`walk_snoc`), a receiver takes the first step (`walk_cons`).
-/

namespace RustyTls.Core

variable {σ ℓ : Type}

/-- The steps labelled `labels` lead from one state to the other. -/
def Walk (step : σ → ℓ → σ → Prop) : σ → List ℓ → σ → Prop
  | a, [], b => a = b
  | a, label :: labels, b => ∃ c, step a label c ∧ Walk step c labels b

variable {step : σ → ℓ → σ → Prop} {a b c : σ} {label : ℓ} {labels : List ℓ}

@[simp] theorem walk_nil : Walk step a [] b ↔ a = b := Iff.rfl

theorem walk_cons : Walk step a (label :: labels) b ↔ ∃ c, step a label c ∧ Walk step c labels b :=
  Iff.rfl

/-- A step at the far end. -/
theorem walk_snoc (hwalk : Walk step a labels b) (hstep : step b label c) :
    Walk step a (labels ++ [label]) c := by
  induction labels generalizing a with
  | nil =>
      obtain rfl : a = b := hwalk
      exact ⟨c, hstep, rfl⟩
  | cons first labels ih =>
      obtain ⟨d, hfirst, hrest⟩ := hwalk
      exact ⟨d, hfirst, ih hrest⟩

end RustyTls.Core
