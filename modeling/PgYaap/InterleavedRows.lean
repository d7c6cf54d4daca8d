import Mathlib

/-! # Rows of several lists in one

Several writers append the rows of their lists to one list, in any order. A row
is named by its list and its place there. An interleaving names rows, each at
most once; when it names them all, the merged list is a rearrangement of the
concatenation. -/
namespace PgYaap

universe u

/-- Lists in step have related entries at the same place. -/
theorem forall₂_getElem? {α β : Type} {R : α → β → Prop} {l : List α} {l' : List β}
    (h : List.Forall₂ R l l') {i : Nat} {a : α} (ha : l[i]? = some a) :
    ∃ b, l'[i]? = some b ∧ R a b := by
  induction h generalizing i with
  | nil => cases ha
  | cons hab _ ih =>
    cases i with
    | zero =>
      cases ha
      exact ⟨_, rfl, hab⟩
    | succ i => exact ih ha

variable {α : Type u} {rows : List (List α)} {order : List (Nat × Nat)} {x : Nat × Nat}

/-- The row a name stands for. -/
def rowAt (rows : List (List α)) (x : Nat × Nat) : Option α := (rows[x.1]?).bind (·[x.2]?)

/-- The names of all rows. -/
def positions : List (List α) → List (Nat × Nat)
  | [] => []
  | r :: rest => (List.range r.length).map (fun i => (0, i)) ++
      (positions rest).map fun x => (x.1 + 1, x.2)

/-- The rows that an interleaving names, in its order. -/
def namedRows (rows : List (List α)) (order : List (Nat × Nat)) : List α :=
  order.filterMap (rowAt rows)

theorem rowAt_cons_succ (r : List α) (x : Nat × Nat) :
    rowAt (r :: rows) (x.1 + 1, x.2) = rowAt rows x := rfl

theorem mem_positions : x ∈ positions rows ↔ (rowAt rows x).isSome := by
  induction rows generalizing x with
  | nil => simp [positions, rowAt]
  | cons r rest ih =>
    obtain ⟨w, i⟩ := x
    unfold positions
    rw [List.mem_append]
    cases w with
    | zero => simp [rowAt]
    | succ w =>
      have hih := ih (x := (w, i))
      rw [rowAt_cons_succ r (w, i), ← hih]
      simp

theorem nodup_positions (rows : List (List α)) : (positions rows).Nodup := by
  induction rows with
  | nil => exact List.nodup_nil
  | cons r rest ih =>
    refine List.Nodup.append ?_ ?_ ?_
    · refine List.nodup_range.map ?_
      intro i j hij
      exact (Prod.mk.inj hij).2
    · refine ih.map ?_
      rintro ⟨w, i⟩ ⟨w', i'⟩ heq
      simpa using heq
    · intro y hy hy'
      obtain ⟨i, _, rfl⟩ := List.mem_map.mp hy
      obtain ⟨z, _, hz⟩ := List.mem_map.mp hy'
      cases hz

theorem filterMap_getElem?_range (r : List α) :
    (List.range r.length).filterMap (fun i => r[i]?) = r := by
  induction r with
  | nil => rfl
  | cons a r ih =>
    rw [List.length_cons, List.range_succ_eq_map, List.filterMap_cons, List.filterMap_map]
    show a :: _ = a :: r
    exact congrArg (a :: ·) ih

/-- All names stand for all rows. -/
theorem namedRows_positions (rows : List (List α)) : namedRows rows (positions rows) = rows.flatten := by
  unfold namedRows
  induction rows with
  | nil => rfl
  | cons r rest ih =>
    rw [positions, List.filterMap_append, List.filterMap_map, List.filterMap_map,
      List.flatten_cons, ← ih]
    congr 1
    exact filterMap_getElem?_range r

/-- An order names rows that exist, each at most once. -/
structure Interleaving (rows : List (List α)) (order : List (Nat × Nat)) : Prop where
  nodup : order.Nodup
  subset : order ⊆ positions rows

namespace Interleaving

theorem nil (rows : List (List α)) : Interleaving rows [] :=
  ⟨List.nodup_nil, List.nil_subset _⟩

/-- Naming one more row. -/
theorem append (h : Interleaving rows order) {r : α} (hx : x ∉ order) (hr : rowAt rows x = some r) :
    Interleaving rows (order ++ [x]) ∧
      namedRows rows (order ++ [x]) = namedRows rows order ++ [r] := by
  refine ⟨⟨?_, ?_⟩, ?_⟩
  · refine List.Nodup.append h.nodup (List.nodup_singleton x) ?_
    intro y hy hy'
    obtain rfl := List.mem_singleton.mp hy'
    exact hx hy
  · refine List.append_subset.mpr ⟨h.subset, ?_⟩
    intro y hy
    obtain rfl := List.mem_singleton.mp hy
    exact mem_positions.mpr (by rw [hr]; rfl)
  · unfold namedRows
    rw [List.filterMap_append, List.filterMap_cons, hr]
    rfl

/-- Naming every row gives all rows, each once. -/
theorem perm_flatten (h : Interleaving rows order) (hall : positions rows ⊆ order) :
    (namedRows rows order).Perm rows.flatten := by
  rw [← namedRows_positions]
  refine List.Perm.filterMap _ ?_
  refine (List.perm_ext_iff_of_nodup h.nodup (nodup_positions rows)).mpr ?_
  intro y
  exact ⟨fun hy => h.subset hy, fun hy => hall hy⟩

theorem subperm (h : Interleaving rows order) :
    ∃ l : List α, l.Perm (namedRows rows order) ∧ l.Sublist rows.flatten := by
  obtain ⟨l, hl, hsub⟩ := h.nodup.subperm h.subset
  refine ⟨l.filterMap (rowAt rows), hl.filterMap _, ?_⟩
  rw [← namedRows_positions]
  exact hsub.filterMap _

/-- A measure of the named rows is bounded by that of all rows. -/
theorem sum_le (h : Interleaving rows order) (f : α → Nat) :
    ((namedRows rows order).map f).sum ≤ (rows.flatten.map f).sum := by
  obtain ⟨l, hl, hsub⟩ := h.subperm
  rw [← (hl.map f).sum_eq]
  exact (hsub.map f).sum_le_sum fun _ _ => Nat.zero_le _

theorem length_le (h : Interleaving rows order) :
    (namedRows rows order).length ≤ rows.flatten.length := by
  obtain ⟨l, hl, hsub⟩ := h.subperm
  rw [← hl.length_eq]
  exact hsub.length_le

end Interleaving
end PgYaap
