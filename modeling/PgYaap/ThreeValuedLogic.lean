import Mathlib

/-! # Three-valued logic

Truth values with an unknown, the connectives over lists of them and what makes each of
them true or false. -/
namespace PgYaap
namespace ThreeValuedLogic

/-- TRUE, FALSE, or unknown. -/
abbrev Truth := Option Bool

scoped instance decidableMem (t : Truth) (ts : List Truth) : Decidable (t ∈ ts) :=
  List.instDecidableMemOfLawfulBEq t ts

/-- The conjunction. -/
def allOf (ts : List Truth) : Truth :=
  if some false ∈ ts then some false else if none ∈ ts then none else some true

/-- The disjunction. -/
def anyOf (ts : List Truth) : Truth :=
  if some true ∈ ts then some true else if none ∈ ts then none else some false

/-- The negation. -/
def negate (t : Truth) : Truth := t.map not

theorem allOf_eq_true {ts : List Truth} : allOf ts = some true ↔ ∀ t ∈ ts, t = some true := by
  rw [allOf]
  by_cases hfalse : some false ∈ ts
  · rw [if_pos hfalse]
    exact ⟨nofun, fun h => absurd (h _ hfalse) (by simp)⟩
  · rw [if_neg hfalse]
    by_cases hnone : none ∈ ts
    · rw [if_pos hnone]
      exact ⟨nofun, fun h => absurd (h _ hnone) (by simp)⟩
    · rw [if_neg hnone]
      refine ⟨fun _ t ht => ?_, fun _ => rfl⟩
      match t with
      | some true => rfl
      | some false => exact absurd ht hfalse
      | none => exact absurd ht hnone

theorem allOf_eq_false {ts : List Truth} : allOf ts = some false ↔ some false ∈ ts := by
  rw [allOf]
  by_cases hfalse : some false ∈ ts
  · simp [hfalse]
  · by_cases hnone : none ∈ ts
    · simp [hfalse, hnone]
    · simp [hfalse, hnone]

theorem anyOf_eq_true {ts : List Truth} : anyOf ts = some true ↔ some true ∈ ts := by
  rw [anyOf]
  by_cases htrue : some true ∈ ts
  · simp [htrue]
  · by_cases hnone : none ∈ ts
    · simp [htrue, hnone]
    · simp [htrue, hnone]

theorem anyOf_eq_false {ts : List Truth} : anyOf ts = some false ↔ ∀ t ∈ ts, t = some false := by
  rw [anyOf]
  by_cases htrue : some true ∈ ts
  · rw [if_pos htrue]
    exact ⟨nofun, fun h => absurd (h _ htrue) (by simp)⟩
  · rw [if_neg htrue]
    by_cases hnone : none ∈ ts
    · rw [if_pos hnone]
      exact ⟨nofun, fun h => absurd (h _ hnone) (by simp)⟩
    · rw [if_neg hnone]
      refine ⟨fun _ t ht => ?_, fun _ => rfl⟩
      match t with
      | some false => rfl
      | some true => exact absurd ht htrue
      | none => exact absurd ht hnone

theorem negate_eq_true {t : Truth} : negate t = some true ↔ t = some false := by
  cases t with
  | none => simp [negate]
  | some b => simp [negate]

theorem allOf_append_eq_true {ts us : List Truth} :
    allOf (ts ++ us) = some true ↔ allOf ts = some true ∧ allOf us = some true := by
  simp only [allOf_eq_true, List.mem_append, or_imp, forall_and]

/-- Two truth values are equal when they are true alike and false alike. -/
theorem truth_ext {t u : Truth} (htrue : t = some true ↔ u = some true)
    (hfalse : t = some false ↔ u = some false) : t = u := by
  match t, u with
  | none, none => rfl
  | some true, some true => rfl
  | some false, some false => rfl
  | some true, none => exact absurd (htrue.1 rfl) nofun
  | some false, none => exact absurd (hfalse.1 rfl) nofun
  | none, some true => exact absurd (htrue.2 rfl) nofun
  | none, some false => exact absurd (hfalse.2 rfl) nofun
  | some true, some false => exact absurd (htrue.1 rfl) nofun
  | some false, some true => exact absurd (hfalse.1 rfl) nofun

theorem allOf_singleton (t : Truth) : allOf [t] = t :=
  truth_ext (by rw [allOf_eq_true, List.forall_mem_singleton])
    (by rw [allOf_eq_false, List.mem_singleton, eq_comm])

theorem anyOf_singleton (t : Truth) : anyOf [t] = t :=
  truth_ext (by rw [anyOf_eq_true, List.mem_singleton, eq_comm])
    (by rw [anyOf_eq_false, List.forall_mem_singleton])

/-- The conjunction of a list of conjunctions. -/
theorem allOf_append (ts us : List Truth) : allOf (ts ++ us) = allOf [allOf ts, allOf us] := by
  apply truth_ext
  · rw [allOf_append_eq_true, @allOf_eq_true [allOf ts, allOf us], List.forall_mem_cons,
      List.forall_mem_singleton]
  · rw [allOf_eq_false, allOf_eq_false, List.mem_append, List.mem_cons, List.mem_singleton,
      eq_comm (b := allOf ts), eq_comm (b := allOf us), allOf_eq_false, allOf_eq_false]

end ThreeValuedLogic
end PgYaap
