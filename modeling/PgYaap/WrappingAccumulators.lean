import Mathlib

/-! # Accumulators of a fixed width

An accumulator holds an integer of `w` bits in two's complement and a mark that no result put
into it was out of range. What it holds is always the residue of the exact result. Where the
exact results are nonnegative and only grow, the mark says whether the last one is in range
(`Tracks`): nothing is lost before. -/
namespace PgYaap
namespace WrappingAccumulators

/-- What is left of an integer in `w` bits. -/
def wrap (w : Nat) (x : Int) : Int := x.bmod (2 ^ w)

variable {w : Nat} {x y c d : Int}

theorem wrap_eq_iff (hw : 0 < w) : wrap w x = x ↔ -2 ^ (w - 1) ≤ x ∧ x < 2 ^ (w - 1) := by
  obtain ⟨k, rfl⟩ : ∃ k, w = k + 1 := ⟨w - 1, by omega⟩
  have hpow : (2 ^ (k + 1) : Nat) = 2 * 2 ^ k := by ring
  have hpos : 0 < (2 ^ k : Nat) := by positivity
  have hcast : ((2 ^ k : Nat) : Int) = 2 ^ k := by push_cast; rfl
  have hle := @Int.le_bmod x (2 ^ (k + 1)) (by omega)
  have hlt := @Int.bmod_lt x (2 ^ (k + 1)) (by omega)
  rw [wrap, Nat.add_sub_cancel]
  constructor
  · intro h
    rw [h] at hle hlt
    omega
  · rintro ⟨hlo, hhi⟩
    apply Int.bmod_eq_of_le <;> omega

/-- The residue depends on the residue alone. -/
theorem wrap_eq_wrap (h : x ≡ y [ZMOD 2 ^ w]) : wrap w x = wrap w y := by
  have hmod : x % ((2 ^ w : Nat) : Int) = y % ((2 ^ w : Nat) : Int) := by
    push_cast
    exact h
  rw [wrap, wrap, Int.bmod_def, Int.bmod_def, hmod]

theorem wrap_modEq (w : Nat) (x : Int) : wrap w x ≡ x [ZMOD 2 ^ w] := by
  have h := @Int.bmod_emod x (2 ^ w)
  show _ % _ = _ % _
  push_cast at h
  exact h

theorem wrap_wrap_mul : wrap w (wrap w x * c) = wrap w (x * c) :=
  wrap_eq_wrap ((wrap_modEq w x).mul_right c)

theorem wrap_wrap_add : wrap w (wrap w x + d) = wrap w (x + d) :=
  wrap_eq_wrap ((wrap_modEq w x).add_right d)

theorem wrap_neg_wrap : wrap w (-wrap w x) = wrap w (-x) :=
  wrap_eq_wrap (wrap_modEq w x).neg

/-- An accumulator. -/
structure Accum where
  value : Int
  exact : Bool
  deriving DecidableEq, Repr

/-- A result is put into the accumulator. -/
def Accum.set (w : Nat) (a : Accum) (result : Int) : Accum :=
  ⟨wrap w result, a.exact && wrap w result == result⟩

@[simp] theorem Accum.set_value (a : Accum) (result : Int) :
    (a.set w result).value = wrap w result := rfl

theorem Accum.set_exact_iff (a : Accum) (result : Int) :
    (a.set w result).exact = true ↔ a.exact = true ∧ wrap w result = result := by
  rw [Accum.set, Bool.and_eq_true, beq_iff_eq]

/-- The accumulator follows an exact result that only grows. -/
structure Tracks (w : Nat) (x : Int) (a : Accum) : Prop where
  nonneg : 0 ≤ x
  value : a.value = wrap w x
  exact : a.exact = true ↔ x < 2 ^ (w - 1)

theorem tracks_init (hw : 0 < w) : Tracks w 0 ⟨0, true⟩ := by
  have hpos : (0 : Int) < 2 ^ (w - 1) := by positivity
  refine ⟨le_rfl, ?_, iff_of_true rfl hpos⟩
  exact ((wrap_eq_iff hw).2 ⟨by omega, hpos⟩).symm

/-- A result that is no smaller than the one before. -/
theorem Tracks.grow {a : Accum} (hw : 0 < w) (h : Tracks w x a) (hle : x ≤ y) {result : Int}
    (hresult : wrap w result = wrap w y) (hsame : a.value = x → result = y) :
    Tracks w y (a.set w result) := by
  refine ⟨h.nonneg.trans hle, hresult, ?_⟩
  have hpos : (0 : Int) < 2 ^ (w - 1) := by positivity
  rw [Accum.set_exact_iff, h.exact]
  constructor
  · rintro ⟨hx, hexact⟩
    have hvalue : a.value = x := by
      rw [h.value, (wrap_eq_iff hw).2 ⟨by have := h.nonneg; omega, hx⟩]
    rw [hsame hvalue] at hexact
    exact ((wrap_eq_iff hw).1 hexact).2
  · intro hy
    have hnonneg := h.nonneg
    have hvalue : a.value = x := by
      rw [h.value, (wrap_eq_iff hw).2 ⟨by omega, by omega⟩]
    rw [hsame hvalue]
    exact ⟨by omega, (wrap_eq_iff hw).2 ⟨by omega, hy⟩⟩

theorem Tracks.mul {a : Accum} (hw : 0 < w) (h : Tracks w x a) (hc : 1 ≤ c) :
    Tracks w (x * c) (a.set w (a.value * c)) := by
  refine h.grow hw (le_mul_of_one_le_right h.nonneg hc) ?_ fun hvalue => by rw [hvalue]
  rw [h.value, wrap_wrap_mul]

theorem Tracks.add {a : Accum} (hw : 0 < w) (h : Tracks w x a) (hd : 0 ≤ d) :
    Tracks w (x + d) (a.set w (a.value + d)) := by
  refine h.grow hw (le_add_of_nonneg_right hd) ?_ fun hvalue => by rw [hvalue]
  rw [h.value, wrap_wrap_add]

/-- The sign at the end. -/
theorem Tracks.neg {a : Accum} (hw : 0 < w) (h : Tracks w x a) :
    (a.set w (-a.value)).value = wrap w (-x) ∧
      ((a.set w (-a.value)).exact = true ↔ x < 2 ^ (w - 1)) := by
  refine ⟨by rw [Accum.set_value, h.value, wrap_neg_wrap], ?_⟩
  rw [Accum.set_exact_iff, h.exact, and_iff_left_iff_imp]
  intro hx
  have hnonneg := h.nonneg
  have hpos : (0 : Int) < 2 ^ (w - 1) := by positivity
  rw [h.value, (wrap_eq_iff hw).2 ⟨by omega, hx⟩]
  exact (wrap_eq_iff hw).2 ⟨by omega, by omega⟩

/-! ## Sums in any order -/

/-- The order in which numbers are added: one after the other, or partial sums to each other. -/
inductive SumTree
  | leaf (x : Int)
  | add (left right : SumTree)

namespace SumTree

/-- The sum. -/
def exact : SumTree → Int
  | leaf x => x
  | add left right => left.exact + right.exact

/-- The sum in accumulators of `w` bits. -/
def computed (w : Nat) : SumTree → Int
  | leaf x => x
  | add left right => wrap w (left.computed w + right.computed w)

/-- The pairs that are added. -/
def additions (w : Nat) : SumTree → List (Int × Int)
  | leaf _ => []
  | add left right => (left.computed w, right.computed w) :: (left.additions w ++ right.additions w)

/-- The sums that come about on the way, the last one included. -/
def partials : SumTree → List Int
  | leaf _ => []
  | add left right => (left.exact + right.exact) :: (left.partials ++ right.partials)

/-- All numbers are in range. -/
def LeavesFit (w : Nat) : SumTree → Prop
  | leaf x => wrap w x = x
  | add left right => left.LeavesFit w ∧ right.LeavesFit w

/-- **The residue of the sum**, in whatever order the numbers are added. -/
theorem computed_eq {s : SumTree} (h : s.LeavesFit w) : s.computed w = wrap w s.exact := by
  induction s with
  | leaf x => exact h.symm
  | add left right ihl ihr =>
    rw [computed, exact, ihl h.1, ihr h.2]
    exact wrap_eq_wrap ((wrap_modEq w _).add (wrap_modEq w _))

/-- Where all partial sums are in range, the whole one is. -/
theorem wrap_exact_of_partials {s : SumTree} (h : s.LeavesFit w)
    (hpartials : ∀ x ∈ s.partials, wrap w x = x) : wrap w s.exact = s.exact := by
  cases s with
  | leaf x => exact h
  | add left right => exact hpartials _ List.mem_cons_self

/-- **No addition goes out of range** if and only if no partial sum does. -/
theorem additions_exact_iff {s : SumTree} (h : s.LeavesFit w) :
    (∀ p ∈ s.additions w, wrap w (p.1 + p.2) = p.1 + p.2) ↔ ∀ x ∈ s.partials, wrap w x = x := by
  induction s with
  | leaf x => exact iff_of_true (fun p hp => nomatch hp) fun x hx => nomatch hx
  | add left right ihl ihr =>
    rw [additions, partials, List.forall_mem_cons, List.forall_mem_cons, List.forall_mem_append,
      List.forall_mem_append, ihl h.1, ihr h.2]
    refine and_congr_left fun hparts => ?_
    rw [computed_eq h.1, computed_eq h.2, wrap_exact_of_partials h.1 hparts.1,
      wrap_exact_of_partials h.2 hparts.2]

end SumTree

end WrappingAccumulators
end PgYaap
