import RustyTls.Core.Result

/-!
# RustyTls.Core.Raises

Which errors fallible code can fail with.

`Raises E x` says that whatever `x` fails with is one of `E`. It distributes over a chain of
binds, so that for a function written as one it comes down to the errors written in it
(`raises_bind` and the lemmas after it, all for `simp`); a link is only looked at with the values
that its predecessors succeeded with, which is where a check made earlier in the chain is used.
-/

namespace RustyTls.Core

variable {ε ε' α β : Type} {E : ε → Prop}

/-- The errors of `x` are among `E`. -/
def Raises (E : ε → Prop) (x : Except ε α) : Prop := ∀ e, x = .error e → E e

@[simp] theorem raises_ok (a : α) : Raises E (.ok a) := by
  intro e h
  cases h

@[simp] theorem raises_error {e : ε} : Raises E (.error e : Except ε α) ↔ E e := by
  constructor
  · intro h
    exact h e rfl
  · intro he e' heq
    cases heq
    exact he

@[simp] theorem raises_bind {x : Except ε α} {f : α → Except ε β} :
    Raises E (x >>= f) ↔ Raises E x ∧ ∀ a, x = .ok a → Raises E (f a) := by
  cases x with
  | error e => simp
  | ok a => simp

@[simp] theorem raises_refuse {c : Prop} [Decidable c] {e : ε} :
    Raises E (refuse c e) ↔ (c → E e) := by
  unfold refuse
  split
  · next hc => simp [hc]
  · next hc => simp [hc]

@[simp] theorem raises_okOr {o : Option α} {e : ε} : Raises E (okOr o e) ↔ (o = none → E e) := by
  cases o <;> simp

@[simp] theorem raises_mapErr {f : ε' → ε} {x : Except ε' α} :
    Raises E (mapErr f x) ↔ Raises (fun e => E (f e)) x := by
  cases x <;> simp

/-- Nothing is asked of the errors. -/
@[simp] theorem raises_true (x : Except ε α) : Raises (fun _ => True) x := by
  intro e _
  trivial

end RustyTls.Core
