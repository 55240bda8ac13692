/-! # Outcomes

What is known of a value if there is one, and of the error if there is none; and where the value
of two computations in a row comes from.
-/

namespace Gridcalc

/-- The value is such, or the error is. -/
def Ensures {ε α : Type} (value : α → Prop) (error : ε → Prop) : Except ε α → Prop
  | .ok a => value a
  | .error e => error e

namespace Ensures

variable {ε α : Type} {value : α → Prop} {error : ε → Prop} {x : Except ε α}

theorem of_ok {a : α} (h : Ensures value error x) (hx : x = .ok a) : value a := by
  subst hx
  exact h

theorem of_error {e : ε} (h : Ensures value error x) (hx : x = .error e) : error e := by
  subst hx
  exact h

end Ensures

theorem exists_of_bind_eq_ok {ε α β : Type} {x : Except ε α} {f : α → Except ε β} {b : β}
    (h : x >>= f = .ok b) : ∃ a, x = .ok a ∧ f a = .ok b := by
  cases x with
  | error e => cases h
  | ok a => exact ⟨a, rfl, h⟩

end Gridcalc
