import Mathlib

/-! # Loops that may fail

A loop tests a condition and runs a body until the condition is false or the body fails. Its
turns are counted by fuel, so that the loop ends when some fuel is enough. A rank that every
successful turn lowers makes a loop end; a set of states in which the condition holds and the
body succeeds, and which the body does not leave, keeps it going. -/
namespace PgYaap

namespace WhileLoops

variable {α ε : Type} {cond : α → Bool} {body : α → Except ε α} {a : α}

/-- A `while` loop; `none` where the fuel does not reach. -/
def whileLoop (cond : α → Bool) (body : α → Except ε α) : Nat → α → Option (Except ε α)
  | 0, _ => none
  | fuel + 1, a =>
    if cond a then
      match body a with
      | .error e => some (.error e)
      | .ok a' => whileLoop cond body fuel a'
    else some (.ok a)

/-- **The loop ends**, by success or by an error. -/
def Ends (cond : α → Bool) (body : α → Except ε α) (a : α) : Prop :=
  ∃ fuel, (whileLoop cond body fuel a).isSome = true

theorem ends_of_false (h : cond a = false) : Ends cond body a := by
  refine ⟨1, ?_⟩
  rw [whileLoop, if_neg (by rw [h]; exact Bool.false_ne_true)]
  rfl

theorem ends_of_error {e : ε} (h : body a = .error e) : Ends cond body a := by
  by_cases hcond : cond a = true
  · refine ⟨1, ?_⟩
    rw [whileLoop, if_pos hcond, h]
    rfl
  · exact ends_of_false (Bool.eq_false_iff.2 hcond)

/-- A turn of the loop. -/
theorem ends_of_ok {a' : α} (h : body a = .ok a') (hends : Ends cond body a') :
    Ends cond body a := by
  by_cases hcond : cond a = true
  · obtain ⟨fuel, hfuel⟩ := hends
    refine ⟨fuel + 1, ?_⟩
    rw [whileLoop, if_pos hcond, h]
    exact hfuel
  · exact ends_of_false (Bool.eq_false_iff.2 hcond)

/-- **A loop ends** whose turns lower a rank, as long as they keep an invariant. -/
theorem ends_of_rank {inv : α → Prop} {rank : α → Nat}
    (hturn : ∀ a a', inv a → cond a = true → body a = .ok a' → inv a' ∧ rank a' < rank a)
    (ha : inv a) : Ends cond body a := by
  -- induction on a bound of the rank
  have hall : ∀ n a, inv a → rank a < n → Ends cond body a := by
    intro n
    induction n with
    | zero => exact fun a _ hrank => absurd hrank (Nat.not_lt_zero _)
    | succ n ih =>
      intro a ha hrank
      by_cases hcond : cond a = true
      · cases hbody : body a with
        | error e => exact ends_of_error hbody
        | ok a' =>
          obtain ⟨ha', hless⟩ := hturn a a' ha hcond hbody
          exact ends_of_ok hbody (ih a' ha' (by omega))
      · exact ends_of_false (Bool.eq_false_iff.2 hcond)
  exact hall (rank a + 1) a ha (Nat.lt_succ_self _)

/-- **A loop does not end** where its turns succeed and stay among states that need another. -/
theorem not_ends_of_invariant {inv : α → Prop}
    (hturn : ∀ a, inv a → cond a = true ∧ ∃ a', body a = .ok a' ∧ inv a') (ha : inv a) :
    ¬ Ends cond body a := by
  have hall : ∀ fuel a, inv a → whileLoop cond body fuel a = none := by
    intro fuel
    induction fuel with
    | zero => exact fun _ _ => rfl
    | succ fuel ih =>
      intro a ha
      obtain ⟨hcond, a', hbody, ha'⟩ := hturn a ha
      rw [whileLoop, if_pos hcond, hbody]
      exact ih a' ha'
  rintro ⟨fuel, hfuel⟩
  rw [hall fuel a ha] at hfuel
  cases hfuel

end WhileLoops
end PgYaap
