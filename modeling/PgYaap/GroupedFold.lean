import Mathlib

/-! # Commutative folds

An aggregation says what one row contributes and how two states combine. As the order of rows
does not matter, the total of a list of rows can be built row by row, or in pieces that are
combined afterwards. -/
namespace PgYaap
namespace GroupedFold

/-- The states of an aggregate, and how they combine. -/
structure Aggregation (R S : Type) where
  empty : S
  /-- What one row contributes. -/
  unit : R → S
  combine : S → S → S
  combine_assoc : ∀ a b c, combine (combine a b) c = combine a (combine b c)
  combine_comm : ∀ a b, combine a b = combine b a
  empty_combine : ∀ a, combine empty a = a

variable {R S : Type}

section Total

variable (A : Aggregation R S)

/-- The total of a list of rows. -/
def total : List R → S
  | [] => A.empty
  | row :: rows => A.combine (A.unit row) (total rows)

theorem Aggregation.combine_empty (a : S) : A.combine a A.empty = a := by
  rw [A.combine_comm, A.empty_combine]

theorem Aggregation.combine_left_comm (a b c : S) :
    A.combine a (A.combine b c) = A.combine b (A.combine a c) := by
  rw [← A.combine_assoc, A.combine_comm a b, A.combine_assoc]

theorem total_append (rows more : List R) :
    total A (rows ++ more) = A.combine (total A rows) (total A more) := by
  induction rows with
  | nil => exact (A.empty_combine _).symm
  | cons row rows ih => rw [List.cons_append, total, ih, total, A.combine_assoc]

theorem total_concat (rows : List R) (row : R) :
    total A (rows ++ [row]) = A.combine (total A rows) (A.unit row) := by
  rw [total_append, total, total, A.combine_empty]

theorem total_perm {rows more : List R} (h : rows.Perm more) : total A rows = total A more := by
  induction h with
  | nil => rfl
  | cons row _ ih => rw [total, total, ih]
  | swap a b rows => exact A.combine_left_comm _ _ _
  | trans _ _ ih₁ ih₂ => exact ih₁.trans ih₂

end Total

end GroupedFold
end PgYaap
