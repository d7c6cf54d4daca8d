import Mathlib

/-! # Joins and groups of multisets

Selections, the joins of two multisets under an arbitrary match relation and the grouping by a
key, with the laws of selections. -/
namespace PgYaap
namespace BagJoins

open scoped Classical

variable {α β γ κ : Type*}

/-! ## Selections -/

/-- The rows for which `p` holds. -/
noncomputable def keep (p : α → Prop) (s : Multiset α) : Multiset α := s.filter p

section Selections

variable {p q : α → Prop} {s t : Multiset α}

theorem mem_keep {a : α} : a ∈ keep p s ↔ a ∈ s ∧ p a := Multiset.mem_filter

theorem keep_add : keep p (s + t) = keep p s + keep p t := Multiset.filter_add p s t

theorem keep_cons_of_pos {a : α} (h : p a) : keep p (a ::ₘ s) = a ::ₘ keep p s :=
  Multiset.filter_cons_of_pos s h

theorem keep_cons_of_neg {a : α} (h : ¬ p a) : keep p (a ::ₘ s) = keep p s :=
  Multiset.filter_cons_of_neg s h

theorem keep_congr (h : ∀ a ∈ s, p a ↔ q a) : keep p s = keep q s := Multiset.filter_congr h

theorem keep_keep : keep p (keep q s) = keep (fun a => q a ∧ p a) s := by
  induction s using Multiset.induction_on with
  | empty => rfl
  | cons a s ih =>
    by_cases hq : q a
    · rw [keep_cons_of_pos hq]
      by_cases hp : p a
      · rw [keep_cons_of_pos hp, ih, keep_cons_of_pos (p := fun a => q a ∧ p a) ⟨hq, hp⟩]
      · rw [keep_cons_of_neg hp, ih, keep_cons_of_neg (p := fun a => q a ∧ p a) fun h => hp h.2]
    · rw [keep_cons_of_neg hq, ih, keep_cons_of_neg (p := fun a => q a ∧ p a) fun h => hq h.1]

theorem keep_eq_zero : keep p s = 0 ↔ ∀ a ∈ s, ¬ p a := Multiset.filter_eq_nil

theorem keep_eq_self : keep p s = s ↔ ∀ a ∈ s, p a := Multiset.filter_eq_self

theorem keep_map {f : β → α} {s : Multiset β} :
    keep p (s.map f) = (keep (fun b => p (f b)) s).map f := by
  rw [keep, Multiset.filter_map, keep]
  rfl

theorem keep_bind {f : β → Multiset α} {s : Multiset β} :
    keep p (s.bind f) = s.bind fun b => keep p (f b) := by
  induction s using Multiset.induction_on with
  | empty => rfl
  | cons b s ih => rw [Multiset.cons_bind, keep_add, ih, Multiset.cons_bind]

theorem keep_le_keep (h : ∀ a ∈ s, p a → q a) : keep p s ≤ keep q s := by
  have hboth : keep p (keep q s) = keep p s := by
    rw [keep_keep]
    exact keep_congr fun a ha => and_iff_right_of_imp (h a ha)
  rw [← hboth]
  exact Multiset.filter_le p _

theorem keep_eq_keep_iff : keep p s = keep q s ↔ ∀ a ∈ s, p a ↔ q a := by
  refine ⟨fun h a ha => ?_, keep_congr⟩
  have hmem : a ∈ keep p s ↔ a ∈ keep q s := by rw [h]
  rw [mem_keep, mem_keep] at hmem
  exact ⟨fun hp => (hmem.1 ⟨ha, hp⟩).2, fun hq => (hmem.2 ⟨ha, hq⟩).2⟩

/-- Of two nested selections, the images differ where the selections do. -/
theorem keep_map_eq_iff {f : α → β}
    (h : (∀ a ∈ s, p a → q a) ∨ ∀ a ∈ s, q a → p a) :
    (keep p s).map f = (keep q s).map f ↔ ∀ a ∈ s, p a ↔ q a := by
  rw [← keep_eq_keep_iff]
  refine ⟨fun hmap => ?_, fun heq => by rw [heq]⟩
  have hcard : (keep p s).card = (keep q s).card := by
    rw [← Multiset.card_map f, hmap, Multiset.card_map]
  rcases h with h | h
  · exact Multiset.eq_of_le_of_card_le (keep_le_keep h) hcard.ge
  · exact (Multiset.eq_of_le_of_card_le (keep_le_keep h) hcard.le).symm

end Selections

/-! ## Joins -/

/-- The rows of `r` that match `a`. -/
noncomputable def matchesOf (p : α → β → Prop) (r : Multiset β) (a : α) : Multiset β :=
  keep (p a) r

/-- Every pair that matches. -/
noncomputable def innerJoin (p : α → β → Prop) (f : α → β → γ) (l : Multiset α)
    (r : Multiset β) : Multiset γ :=
  l.bind fun a => (matchesOf p r a).map (f a)

/-- Every pair that matches, and every row of `l` without a match. -/
noncomputable def outerJoin (p : α → β → Prop) (f : α → β → γ) (g : α → γ) (l : Multiset α)
    (r : Multiset β) : Multiset γ :=
  l.bind fun a => if matchesOf p r a = 0 then {g a} else (matchesOf p r a).map (f a)

/-- The rows of `l` with a match. -/
noncomputable def semiJoin (p : α → β → Prop) (l : Multiset α) (r : Multiset β) : Multiset α :=
  keep (fun a => matchesOf p r a ≠ 0) l

/-- The rows of `l` without a match. -/
noncomputable def antiJoin (p : α → β → Prop) (l : Multiset α) (r : Multiset β) : Multiset α :=
  keep (fun a => matchesOf p r a = 0) l

section Joins

variable {p p' : α → β → Prop} {f : α → β → γ} {l : Multiset α} {r : Multiset β}

theorem matchesOf_congr {a : α} (h : ∀ b, p a b ↔ p' a b) : matchesOf p r a = matchesOf p' r a :=
  keep_congr fun b _ => h b

theorem innerJoin_congr (h : ∀ a b, p a b ↔ p' a b) : innerJoin p f l r = innerJoin p' f l r :=
  Multiset.bind_congr fun a _ => by rw [matchesOf_congr (h a)]

/-- **A selection above an inner join** is one more join condition. -/
theorem keep_innerJoin (q : γ → Prop) :
    keep q (innerJoin p f l r) = innerJoin (fun a b => p a b ∧ q (f a b)) f l r := by
  rw [innerJoin, keep_bind, innerJoin]
  refine Multiset.bind_congr fun a _ => ?_
  rw [keep_map, matchesOf, keep_keep]
  rfl

end Joins

/-! ## Groups -/

/-- The groups of `l`: every key with its rows. -/
noncomputable def groups (key : α → κ) (l : Multiset α) : Multiset (κ × Multiset α) :=
  (l.map key).dedup.map fun k => (k, keep (fun a => key a = k) l)

end BagJoins
end PgYaap
