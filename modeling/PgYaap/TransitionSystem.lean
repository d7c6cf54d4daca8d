import Mathlib

/-! # Transition systems

Labelled transition systems, the states they reach, and the rule every
concurrency result of this development is assembled from: an inductive
invariant holds in every reachable state. Nothing here depends on what the states
or the labels are. -/

universe u v

/-- A labelled transition system: which states are initial, and which states a
labelled step leads to. -/
structure TransitionSystem (State : Type u) (Label : Type v) where
  Init : State → Prop
  Step : State → Label → State → Prop

namespace TransitionSystem
variable {State : Type u} {Label : Type v}

/-- The states some run from an initial state arrives in. -/
inductive Reachable (T : TransitionSystem State Label) : State → Prop
  | initial {s} (h : T.Init s) : Reachable T s
  | step {s l t} (hr : Reachable T s) (hs : T.Step s l t) : Reachable T t

/-- The system whose step on a label is a function of the state. -/
def ofFunction (Init : State → Prop) (step : State → Label → State) :
    TransitionSystem State Label where
  Init := Init
  Step s l t := t = step s l

/-- **Invariant rule.** What holds initially and is preserved by every step
holds in every reachable state. -/
theorem Reachable.invariant {T : TransitionSystem State Label} {I : State → Prop}
    (h0 : ∀ s, T.Init s → I s) (hstep : ∀ s l t, I s → T.Step s l t → I t)
    {s : State} (hr : T.Reachable s) : I s := by
  induction hr with
  | initial h => exact h0 _ h
  | step _ hs ih => exact hstep _ _ _ ih hs

/-- Playing a list of labels from a reachable state arrives in a reachable state. -/
theorem reachable_foldl {Init : State → Prop} {step : State → Label → State} (labels : List Label)
    {s : State} (hr : (ofFunction Init step).Reachable s) :
    (ofFunction Init step).Reachable (labels.foldl step s) := by
  induction labels generalizing s with
  | nil => exact hr
  | cons l ls ih => exact ih (.step hr rfl)

/-- The runs of a system all of whose steps a guard accepts. -/
def restrict (T : TransitionSystem State Label) (guard : State → Label → Prop) :
    TransitionSystem State Label where
  Init := T.Init
  Step s l t := guard s l ∧ T.Step s l t

/-- A list of labels that the guard accepts one after the other. -/
def Accepts (guard : State → Label → Prop) (step : State → Label → State) :
    State → List Label → Prop
  | _, [] => True
  | s, l :: ls => guard s l ∧ Accepts guard step (step s l) ls

instance decidableAccepts (guard : State → Label → Prop) [∀ s l, Decidable (guard s l)]
    (step : State → Label → State) (s : State) (labels : List Label) :
    Decidable (Accepts guard step s labels) :=
  match labels with
  | [] => isTrue trivial
  | l :: ls =>
    have := decidableAccepts guard step (step s l) ls
    inferInstanceAs (Decidable (_ ∧ _))

/-- Playing accepted labels stays within the restricted system. -/
theorem reachable_restrict_foldl {Init : State → Prop} {guard : State → Label → Prop}
    {step : State → Label → State} (labels : List Label) {s : State}
    (hok : Accepts guard step s labels)
    (hr : ((ofFunction Init step).restrict guard).Reachable s) :
    ((ofFunction Init step).restrict guard).Reachable (labels.foldl step s) := by
  induction labels generalizing s with
  | nil => exact hr
  | cons l ls ih => exact ih hok.2 (.step hr ⟨hok.1, rfl⟩)

/-- Every entry of a record was made after a record that the guard accepts for it. -/
def RecordedUnder {α : Type u} (Guard : List α → α → Prop) (history : List α) : Prop :=
  ∀ pre x post, history = pre ++ x :: post → Guard pre x

theorem RecordedUnder.append {α : Type u} {Guard : List α → α → Prop} {history : List α} {x : α}
    (h : RecordedUnder Guard history) (hx : Guard history x) :
    RecordedUnder Guard (history ++ [x]) := by
  intro pre y post heq
  rcases List.eq_nil_or_concat post with rfl | ⟨post, z, rfl⟩
  · obtain ⟨rfl, hxy⟩ := List.append_inj' heq rfl
    cases hxy
    exact hx
  · have heq' : history ++ [x] = (pre ++ y :: post) ++ [z] := by
      rw [heq]; simp
    obtain ⟨rfl, _⟩ := List.append_inj' heq' rfl
    exact h pre y post rfl

end TransitionSystem
