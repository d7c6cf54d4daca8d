import Mathlib.Data.List.Basic

/-! # Runs that answer alike

Two computations that may fail answer alike when they fail with the same error or end in related
values. Sequences and loops of steps that answer alike answer alike again. -/
namespace PgYaap
namespace RelatedRuns

variable {ε α β α' β' γ : Type}

/-- The same error, or related values. -/
inductive Alike (R : α → β → Prop) : Except ε α → Except ε β → Prop
  | error (e : ε) : Alike R (.error e) (.error e)
  | ok {a : α} {b : β} : R a b → Alike R (.ok a) (.ok b)

namespace Alike

variable {R : α → β → Prop} {Q : α' → β' → Prop} {x : Except ε α} {y : Except ε β}

theorem mono {R' : α → β → Prop} (h : Alike R x y) (hR : ∀ a b, R a b → R' a b) :
    Alike R' x y := by
  cases h with
  | error e => exact .error e
  | ok h => exact .ok (hR _ _ h)

/-- One step after the other. -/
theorem bind {f : α → Except ε α'} {g : β → Except ε β'} (h : Alike R x y)
    (hstep : ∀ a b, R a b → Alike Q (f a) (g b)) : Alike Q (x >>= f) (y >>= g) := by
  cases h with
  | error e => exact .error e
  | ok h => exact hstep _ _ h

/-- Related values with the same answer. -/
theorem map_eq {f : α → γ} {g : β → γ} (h : Alike R x y) (hR : ∀ a b, R a b → f a = g b) :
    x.map f = y.map g := by
  cases h with
  | error e => rfl
  | ok h => exact congrArg Except.ok (hR _ _ h)

/-- Computations that answer the same. -/
theorem of_eq {x y : Except ε α} (h : x = y) : Alike Eq x y := by
  subst h
  cases x with
  | error e => exact .error e
  | ok a => exact .ok rfl

end Alike

end RelatedRuns
end PgYaap
