import RustyTls.Core.Bytes
import RustyTls.Core.Result

/-!
# RustyTls.Core.Consume

The loop `while !input.is_empty() { body }` over a shrinking octet string.

`consume body s input` runs `body` on a state and the unread input until nothing is
left. It is structural on a fuel argument, so that it evaluates, and the fuel is the
input's own length: a body that always takes at least one octet (`Consuming`) never
runs out of it. `consume_of_ne_nil` is the loop's equation; `consume_induct` is the
invariant rule for a run that succeeded; `consume_flatMap` runs the loop forwards over
the concatenation of what an encoder wrote. `consume_items` puts the two together for a loop
that collects items: it succeeds exactly on what an encoder writes.
-/

namespace RustyTls.Core

variable {ε σ α : Type}

/-- Run `body` until the input is empty, with `fuel` bounding the iterations. -/
def consumeFuel (body : σ → Bytes → Except ε (σ × Bytes)) : Nat → σ → Bytes → Except ε σ
  | _, s, [] => .ok s
  | 0, s, _ :: _ => .ok s
  | fuel + 1, s, b :: bs => do
      let (s', rest) ← body s (b :: bs)
      consumeFuel body fuel s' rest

/-- `while !input.is_empty() { (s, input) = body(s, input)?; }`. -/
def consume (body : σ → Bytes → Except ε (σ × Bytes)) (s : σ) (input : Bytes) : Except ε σ :=
  consumeFuel body input.length s input

/-- A loop body that takes at least one octet whenever it succeeds. -/
def Consuming (body : σ → Bytes → Except ε (σ × Bytes)) : Prop :=
  ∀ s input s' rest, body s input = .ok (s', rest) → rest.length < input.length

variable {body : σ → Bytes → Except ε (σ × Bytes)}

/-- Any fuel covering the input gives the same result. -/
theorem consumeFuel_eq (hb : Consuming body) : ∀ (m n : Nat) (s : σ) (input : Bytes),
    input.length ≤ m → input.length ≤ n →
      consumeFuel body m s input = consumeFuel body n s input := by
  intro m
  induction m with
  | zero =>
      intro n s input hm _
      obtain rfl : input = [] := List.length_eq_zero_iff.mp (by omega)
      cases n <;> rfl
  | succ m ih =>
      intro n s input hm hn
      cases input with
      | nil => cases n <;> rfl
      | cons b bs =>
          cases n with
          | zero => simp at hn
          | succ n =>
              rw [consumeFuel, consumeFuel]
              cases hstep : body s (b :: bs) with
              | error e => rfl
              | ok p =>
                  have hlt := hb _ _ _ _ hstep
                  simp only [List.length_cons] at hm hn hlt
                  exact ih n p.1 p.2 (by omega) (by omega)

@[simp] theorem consume_nil (s : σ) : consume body s [] = .ok s := rfl

/-- The loop's equation on a non-empty input. -/
theorem consume_of_ne_nil (hb : Consuming body) (s : σ) {input : Bytes} (h : input ≠ []) :
    consume body s input = (body s input >>= fun p => consume body p.1 p.2) := by
  cases input with
  | nil => exact absurd rfl h
  | cons b bs =>
      rw [consume, List.length_cons, consumeFuel]
      cases hstep : body s (b :: bs) with
      | error e => rfl
      | ok p =>
          have hlt := hb _ _ _ _ hstep
          simp only [List.length_cons] at hlt
          exact consumeFuel_eq hb _ _ p.1 p.2 (by omega) (Nat.le_refl _)

/-- The invariant rule: what holds at the start and is kept by every iteration holds,
with nothing left to read, when the loop ends. -/
theorem consume_induct {P : σ → Bytes → Prop} (hb : Consuming body)
    (hstep : ∀ s input s' rest, input ≠ [] → P s input →
      body s input = .ok (s', rest) → P s' rest)
    {s t : σ} {input : Bytes} (hinit : P s input) (h : consume body s input = .ok t) :
    P t [] := by
  -- The input shrinks at every iteration, so the induction is on its length.
  induction hn : input.length using Nat.strong_induction_on generalizing s input with
  | _ n ih =>
      by_cases hne : input = []
      · subst hne
        obtain rfl : s = t := by simpa using h
        exact hinit
      · rw [consume_of_ne_nil hb s hne, bind_eq_ok] at h
        obtain ⟨⟨s', rest⟩, hbody, hrest⟩ := h
        have hlt := hb _ _ _ _ hbody
        exact ih rest.length (hn ▸ hlt) (hstep _ _ _ _ hne hinit hbody) hrest rfl

/-- Running the loop over the encodings of a list of items, back to back: when each
iteration reads one item and folds it in with `f`, the loop folds the whole list in. The
relation `P s xs` says that the state `s` can take the items `xs`. -/
theorem consume_flatMap {enc : α → Bytes} {f : σ → α → σ} {P : σ → List α → Prop}
    (hb : Consuming body)
    (hitem : ∀ s x xs rest, P s (x :: xs) →
      body s (enc x ++ rest) = .ok (f s x, rest) ∧ P (f s x) xs) :
    ∀ (xs : List α) (s : σ), P s xs → consume body s (xs.flatMap enc) = .ok (xs.foldl f s) := by
  intro xs
  induction xs with
  | nil => intro s _; rfl
  | cons x xs ih =>
      intro s hP
      obtain ⟨hbody, hP'⟩ := hitem s x xs (xs.flatMap enc) hP
      have hne : enc x ++ xs.flatMap enc ≠ [] := by
        intro hnil
        have := hb _ _ _ _ hbody
        rw [hnil] at this
        simp at this
      rw [List.flatMap_cons, consume_of_ne_nil hb s hne, hbody]
      exact ih (f s x) hP'

/-! ### Loops that collect items -/

section Items

variable {body : List α → Bytes → Except ε (List α × Bytes)} {enc : α → Bytes}
  {Q : List α → α → Prop}

theorem foldl_snoc (out xs : List α) : xs.foldl (fun out x => out ++ [x]) out = out ++ xs := by
  induction xs generalizing out with
  | nil => simp
  | cons x xs ih => simp [ih]

/-- A loop that reads one item an iteration and appends it to the items read so far succeeds
exactly on the concatenation of the items' encodings. `Q out x` is what an iteration requires of
its item, given those before it. -/
theorem consume_items (hb : Consuming body)
    (hitem : ∀ out input out' rest, body out input = .ok (out', rest) ↔
      ∃ x, out' = out ++ [x] ∧ input = enc x ++ rest ∧ Q out x)
    {out out' : List α} {input : Bytes} :
    consume body out input = .ok out' ↔
      ∃ xs, out' = out ++ xs ∧ input = xs.flatMap enc ∧
        ∀ before x after, xs = before ++ x :: after → Q (out ++ before) x := by
  constructor
  · intro h
    -- The invariant: what has been read is the encoding of the items appended so far.
    have hend := consume_induct (P := fun s rest => ∃ xs, s = out ++ xs ∧
        input = xs.flatMap enc ++ rest ∧
        ∀ before x after, xs = before ++ x :: after → Q (out ++ before) x) hb ?_
      ⟨[], by simp, by simp, by simp⟩ h
    · simpa using hend
    · intro s rest s' rest' _ hP hbody
      obtain ⟨xs, rfl, hinput, hQ⟩ := hP
      obtain ⟨x, rfl, rfl, hx⟩ := (hitem _ _ _ _).mp hbody
      refine ⟨xs ++ [x], by simp, by simp [hinput], ?_⟩
      intro before y after hsplit
      rcases List.append_eq_append_iff.mp hsplit with ⟨as, has, hcons⟩ | ⟨as, has, hcons⟩
      · cases as with
        | nil =>
            obtain ⟨rfl, rfl⟩ : x = y ∧ [] = after := by simpa using hcons
            simpa [has] using hx
        | cons a as => simp at hcons
      · cases as with
        | nil =>
            obtain ⟨rfl, rfl⟩ : y = x ∧ after = [] := by simpa using hcons
            simpa [has] using hx
        | cons a as =>
            obtain ⟨rfl, -⟩ : y = a ∧ after = as ++ [x] := by simpa using hcons
            exact hQ before y as has
  · intro h
    obtain ⟨xs, rfl, rfl, hQ⟩ := h
    rw [← foldl_snoc out xs]
    refine consume_flatMap (P := fun out xs => ∀ before x after, xs = before ++ x :: after →
      Q (out ++ before) x) hb ?_ xs out hQ
    intro out x xs rest hP
    have hx : Q out x := by simpa using hP [] x xs rfl
    refine ⟨(hitem _ _ _ _).mpr ⟨x, rfl, rfl, hx⟩, ?_⟩
    intro before y after hsplit
    have := hP (x :: before) y after (by simp [hsplit])
    simpa using this

/-- The same, when nothing is required of an item but by itself. -/
theorem consume_each {R : α → Prop} (hb : Consuming body)
    (hitem : ∀ out input out' rest, body out input = .ok (out', rest) ↔
      ∃ x, out' = out ++ [x] ∧ input = enc x ++ rest ∧ R x)
    {xs : List α} {input : Bytes} :
    consume body [] input = .ok xs ↔ input = xs.flatMap enc ∧ ∀ x ∈ xs, R x := by
  rw [consume_items (Q := fun _ => R) hb hitem]
  constructor
  · intro h
    obtain ⟨ys, rfl, hinput, hR⟩ := h
    refine ⟨by simpa using hinput, ?_⟩
    intro x hx
    obtain ⟨before, after, hsplit⟩ := List.append_of_mem hx
    exact hR before x after (by simpa using hsplit)
  · intro h
    obtain ⟨hinput, hR⟩ := h
    refine ⟨xs, rfl, hinput, ?_⟩
    intro before x after hsplit
    exact hR x (by simp [hsplit])

end Items

end RustyTls.Core
