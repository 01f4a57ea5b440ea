import RustyTls.Core.Result

/-!
# RustyTls.Core.Logged

Code that keeps a log of the calls it makes.

`Logged κ α` is a value together with the calls made on the way to it, and `ExceptT ε (Logged κ)`
is code that may fail and keeps the calls it made until then. `Makes P x a` says both things that
are wanted of such code: it comes to `a`, the value of the same code without a log, and all of its
calls are among `P`. There is one rule per step of a program: `Makes.bind` where the step cannot
fail, `Makes.check` where it makes no call, `Makes.call` where it makes some and cannot fail, and
`Makes.attempt` where it may do both. Proofs about a program are then these rules in the order of
its steps.
-/

namespace RustyTls.Core

variable {κ ε α β : Type}

/-- A value, and the calls made on the way to it. -/
structure Logged (κ α : Type) where
  value : α
  log : List κ

namespace Logged

instance : Monad (Logged κ) where
  pure a := ⟨a, []⟩
  bind x f := ⟨(f x.value).value, x.log ++ (f x.value).log⟩

/-- A step that makes no call. -/
def check (r : Except ε α) : ExceptT ε (Logged κ) α := ExceptT.mk ⟨r, []⟩

/-- A step that cannot fail. -/
def call (x : Logged κ α) : ExceptT ε (Logged κ) α := ExceptT.mk ⟨.ok x.value, x.log⟩

/-- `x` comes to `a`, and the calls it makes are among `P`. -/
structure Makes (P : κ → Prop) (x : Logged κ α) (a : α) : Prop where
  value : x.value = a
  calls : ∀ made ∈ x.log, P made

namespace Makes

variable {P : κ → Prop}

theorem pure (a : α) : Makes P (Pure.pure a) a := by
  refine ⟨rfl, ?_⟩
  intro made hmade
  exact absurd hmade List.not_mem_nil

theorem bind {x : Logged κ α} {a : α} {f : α → Logged κ β} {b : β} (hx : Makes P x a)
    (hf : Makes P (f a) b) : Makes P (x >>= f) b := by
  obtain ⟨rfl, hcalls⟩ := hx
  refine ⟨hf.value, ?_⟩
  intro made hmade
  rcases List.mem_append.mp hmade with hfirst | hrest
  · exact hcalls made hfirst
  · exact hf.calls made hrest

section
variable {f : α → ExceptT ε (Logged κ) β} {g : α → Except ε β}

theorem attempt {x : ExceptT ε (Logged κ) α} {r : Except ε α} (hx : Makes P x.run r)
    (hf : ∀ a, r = .ok a → Makes P (f a).run (g a)) : Makes P (x >>= f).run (r >>= g) := by
  cases r with
  | ok a => exact bind hx (hf a rfl)
  | error e => exact bind hx (pure _)

theorem check {r : Except ε α} (hf : ∀ a, r = .ok a → Makes P (f a).run (g a)) :
    Makes P (Logged.check r >>= f).run (r >>= g) := attempt (pure r) hf

theorem call {x : Logged κ α} {a : α} {b : Except ε β} (hx : Makes P x a)
    (hf : Makes P (f a).run b) : Makes P (Logged.call x >>= f).run b := by
  have hcall : Makes P (Logged.call x : ExceptT ε (Logged κ) α).run (.ok a) :=
    ⟨congrArg Except.ok hx.value, hx.calls⟩
  exact bind hcall hf

end

/-- The last step of code that makes no call in this branch. -/
theorem last (r : Except ε α) : Makes P (Logged.check r : ExceptT ε (Logged κ) α).run r := pure r

end Makes

end Logged

end RustyTls.Core
