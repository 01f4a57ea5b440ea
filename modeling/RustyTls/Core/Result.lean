import Mathlib.Data.Option.Basic

/-!
# RustyTls.Core.Result

Inversion and reduction lemmas for fallible code written in `Except`.

A function that returns early on its first error is a chain of binds. `bind_eq_ok`
peels one link off a successful chain, `refuse_eq_ok` turns a passed guard into the
negation of its condition, and `okOr_eq_ok` recovers the value behind a defaulted
`Option`. Proofs about a long chain are then a sequence of `obtain`s in the order of
the program, with no unfolding of the monad.
-/

namespace RustyTls.Core

variable {ε ε' α β : Type}

/-- An early return: fail with `e` when the condition `c` holds. -/
def refuse (c : Prop) [Decidable c] (e : ε) : Except ε Unit :=
  if c then .error e else .ok ()

/-- The value of an `Option`, or the error `e` when there is none. -/
def okOr (o : Option α) (e : ε) : Except ε α :=
  match o with
  | some a => .ok a
  | none => .error e

/-- Apply a function to the error of a failed computation. -/
def mapErr (f : ε → ε') : Except ε α → Except ε' α
  | .ok a => .ok a
  | .error e => .error (f e)

@[simp] theorem ok_bind (a : α) (f : α → Except ε β) : (Except.ok a >>= f) = f a := rfl

@[simp] theorem error_bind (e : ε) (f : α → Except ε β) :
    ((Except.error e : Except ε α) >>= f) = .error e := rfl

@[simp] theorem pure_eq_ok (a : α) : (pure a : Except ε α) = .ok a := rfl

theorem bind_eq_ok {x : Except ε α} {f : α → Except ε β} {b : β} :
    (x >>= f) = .ok b ↔ ∃ a, x = .ok a ∧ f a = .ok b := by
  cases x with
  | error e => simp
  | ok a => simp

theorem bind_eq_error {x : Except ε α} {f : α → Except ε β} {e : ε} :
    (x >>= f) = .error e ↔ x = .error e ∨ ∃ a, x = .ok a ∧ f a = .error e := by
  cases x with
  | error e' => simp
  | ok a => simp

theorem map_eq_ok {x : Except ε α} {f : α → β} {b : β} :
    (f <$> x) = .ok b ↔ ∃ a, x = .ok a ∧ f a = b := by
  cases x with
  | error e => simp [Functor.map, Except.map]
  | ok a => simp [Functor.map, Except.map]

@[simp] theorem refuse_eq_ok {c : Prop} [Decidable c] {e : ε} {u : Unit} :
    refuse c e = .ok u ↔ ¬ c := by
  unfold refuse
  by_cases hc : c <;> simp [hc]

theorem refuse_neg {c : Prop} [Decidable c] (e : ε) (hc : ¬ c) : refuse c e = .ok () := by
  simp [hc]

theorem refuse_pos {c : Prop} [Decidable c] (e : ε) (hc : c) : refuse c e = .error e := by
  simp [refuse, hc]

theorem refuse_eq_error {c : Prop} [Decidable c] {e e' : ε} :
    refuse c e = .error e' ↔ c ∧ e = e' := by
  unfold refuse
  by_cases hc : c <;> simp [hc]

@[simp] theorem okOr_some (a : α) (e : ε) : okOr (some a) e = .ok a := rfl

@[simp] theorem okOr_none (e : ε) : okOr (none : Option α) e = .error e := rfl

@[simp] theorem okOr_eq_ok {o : Option α} {e : ε} {a : α} : okOr o e = .ok a ↔ o = some a := by
  cases o <;> simp

theorem okOr_eq_error {o : Option α} {e e' : ε} :
    okOr o e = .error e' ↔ o = none ∧ e = e' := by
  cases o <;> simp

@[simp] theorem mapErr_ok (f : ε → ε') (a : α) : mapErr f (.ok a : Except ε α) = .ok a := rfl

@[simp] theorem mapErr_error (f : ε → ε') (e : ε) :
    mapErr f (.error e : Except ε α) = .error (f e) := rfl

@[simp] theorem mapErr_eq_ok {f : ε → ε'} {x : Except ε α} {a : α} :
    mapErr f x = .ok a ↔ x = .ok a := by
  cases x <;> simp

theorem mapErr_eq_error {f : ε → ε'} {x : Except ε α} {e' : ε'} :
    mapErr f x = .error e' ↔ ∃ e, x = .error e ∧ f e = e' := by
  cases x <;> simp

theorem toOption_eq_some {x : Except ε α} {a : α} : x.toOption = some a ↔ x = .ok a := by
  cases x <;> simp [Except.toOption]

theorem toOption_isSome {x : Except ε α} : x.toOption.isSome = true ↔ ∃ a, x = .ok a := by
  cases x <;> simp [Except.toOption]

/-- A loop of checks passes when every check does. -/
theorem forM_eq_ok {f : α → Except ε Unit} {xs : List α} :
    xs.forM f = .ok () ↔ ∀ x ∈ xs, f x = .ok () := by
  induction xs with
  | nil => simp
  | cons x xs ih =>
      have hcons : (x :: xs).forM f = (f x >>= fun _ => xs.forM f) := rfl
      rw [hcons, bind_eq_ok, List.forall_mem_cons]
      constructor
      · intro h
        obtain ⟨_, hx, hxs⟩ := h
        exact ⟨hx, ih.mp hxs⟩
      · intro h
        obtain ⟨hx, hxs⟩ := h
        exact ⟨(), hx, ih.mpr hxs⟩

/-- The first error of a list of computations, or all of their values. -/
def collect : List (Except ε α) → Except ε (List α)
  | [] => .ok []
  | x :: xs => do
      let a ← x
      let as ← collect xs
      .ok (a :: as)

theorem collect_eq_ok {xs : List (Except ε α)} {as : List α} :
    collect xs = .ok as ↔ xs = as.map .ok := by
  induction xs generalizing as with
  | nil => cases as <;> simp [collect]
  | cons x xs ih =>
      simp only [collect, bind_eq_ok]
      constructor
      · intro h
        obtain ⟨a, rfl, as', has', h⟩ := h
        obtain rfl : a :: as' = as := by simpa using h
        simp [ih.mp has']
      · intro h
        cases as with
        | nil => simp at h
        | cons a as =>
            obtain ⟨rfl, hxs⟩ : x = .ok a ∧ xs = as.map .ok := by simpa using h
            exact ⟨a, rfl, as, ih.mpr hxs, rfl⟩

end RustyTls.Core
