/-!
# Computations that may fail

A computation in steps gives a result exactly if each of its steps does.
-/

namespace Worksheet

variable {ε α β : Type}

@[simp] theorem ok_bind (a : α) (f : α → Except ε β) : (Except.ok a >>= f) = f a := rfl

@[simp] theorem error_bind (e : ε) (f : α → Except ε β) :
    (Except.error e >>= f) = .error e := rfl

@[simp] theorem pure_eq_ok (a : α) : (pure a : Except ε α) = .ok a := rfl

@[simp] theorem throw_eq_error (e : ε) : (throw e : Except ε α) = .error e := rfl

theorem bind_eq_ok {x : Except ε α} {f : α → Except ε β} {b : β} :
    x >>= f = .ok b ↔ ∃ a, x = .ok a ∧ f a = .ok b := by
  constructor
  · intro h
    cases x with
    | error e => cases h
    | ok a => exact ⟨a, rfl, h⟩
  · rintro ⟨a, rfl, h⟩
    exact h

/-- A result has the property `Q`, and an error the property `E`. -/
inductive Meets (E : ε → Prop) (Q : α → Prop) : Except ε α → Prop where
  | ok {a : α} (h : Q a) : Meets E Q (.ok a)
  | error {e : ε} (h : E e) : Meets E Q (.error e)

theorem Meets.result {E : ε → Prop} {Q : α → Prop} {x : Except ε α} (h : Meets E Q x) {a : α}
    (hx : x = .ok a) : Q a := by
  subst hx
  cases h
  assumption

theorem Meets.fault {E : ε → Prop} {Q : α → Prop} {x : Except ε α} (h : Meets E Q x) {e : ε}
    (hx : x = .error e) : E e := by
  subst hx
  cases h
  assumption

theorem Meets.bind {E : ε → Prop} {R : α → Prop} {Q : β → Prop} {x : Except ε α}
    {f : α → Except ε β} (hx : Meets E R x) (hf : ∀ a, R a → Meets E Q (f a)) :
    Meets E Q (x >>= f) := by
  cases hx with
  | ok h => exact hf _ h
  | error h => exact .error h

theorem Meets.imp {E E' : ε → Prop} {Q Q' : α → Prop} {x : Except ε α} (hx : Meets E Q x)
    (hE : ∀ e, E e → E' e) (hQ : ∀ a, Q a → Q' a) : Meets E' Q' x := by
  cases hx with
  | ok h => exact .ok (hQ _ h)
  | error h => exact .error (hE _ h)

end Worksheet
