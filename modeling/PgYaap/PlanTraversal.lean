import PgYaap.PlanMeaning

/-! # Passes from the leaves to the root

Several passes rewrite the children of an operator first and then the operator above them. Such a
pass keeps the rows of a plan if every one of its steps does. -/
namespace PgYaap
namespace PlanTraversal

open LogicalPlan PlanMeaning BagJoins

/-- The children first, then the operator. -/
def bottomUp (step : LogicalOperator → Option LogicalOperator) :
    LogicalOperator → Option LogicalOperator
  | .get g => step (.get g)
  | .filter expressions child => do step (.filter expressions (← bottomUp step child))
  | .projection tableIndex expressions child => do
    step (.projection tableIndex expressions (← bottomUp step child))
  | .aggregate groupIndex aggregateIndex groups expressions child => do
    step (.aggregate groupIndex aggregateIndex groups expressions (← bottomUp step child))
  | .distinct expressions child => do step (.distinct expressions (← bottomUp step child))
  | .setOperation tableIndex all left right => do
    step (.setOperation tableIndex all (← bottomUp step left) (← bottomUp step right))
  | .crossProduct left right => do
    step (.crossProduct (← bottomUp step left) (← bottomUp step right))
  | .join join left right => do
    step (.join join (← bottomUp step left) (← bottomUp step right))
  | .delimGet tableIndex correlatedColumns => step (.delimGet tableIndex correlatedColumns)
  | .order orders child => do step (.order orders (← bottomUp step child))
  | .window tableIndex functionNames partitions orders child => do
    step (.window tableIndex functionNames partitions orders (← bottomUp step child))
  | .limit limitCount limitOffset child => do
    step (.limit limitCount limitOffset (← bottomUp step child))

/-- A property of every operator, each with its children as the pass has rewritten them. -/
def EachStep (step : LogicalOperator → Option LogicalOperator) (P : LogicalOperator → Prop) :
    LogicalOperator → Prop
  | .get g => P (.get g)
  | .filter expressions child =>
    EachStep step P child ∧ ∀ c ∈ bottomUp step child, P (.filter expressions c)
  | .projection tableIndex expressions child =>
    EachStep step P child ∧ ∀ c ∈ bottomUp step child, P (.projection tableIndex expressions c)
  | .aggregate groupIndex aggregateIndex groups expressions child =>
    EachStep step P child ∧ ∀ c ∈ bottomUp step child,
      P (.aggregate groupIndex aggregateIndex groups expressions c)
  | .distinct expressions child =>
    EachStep step P child ∧ ∀ c ∈ bottomUp step child, P (.distinct expressions c)
  | .setOperation tableIndex all left right =>
    (EachStep step P left ∧ EachStep step P right) ∧
      ∀ l ∈ bottomUp step left, ∀ r ∈ bottomUp step right, P (.setOperation tableIndex all l r)
  | .crossProduct left right =>
    (EachStep step P left ∧ EachStep step P right) ∧
      ∀ l ∈ bottomUp step left, ∀ r ∈ bottomUp step right, P (.crossProduct l r)
  | .join join left right =>
    (EachStep step P left ∧ EachStep step P right) ∧
      ∀ l ∈ bottomUp step left, ∀ r ∈ bottomUp step right, P (.join join l r)
  | .delimGet tableIndex correlatedColumns => P (.delimGet tableIndex correlatedColumns)
  | .order orders child => EachStep step P child ∧ ∀ c ∈ bottomUp step child, P (.order orders c)
  | .window tableIndex functionNames partitions orders child =>
    EachStep step P child ∧ ∀ c ∈ bottomUp step child,
      P (.window tableIndex functionNames partitions orders c)
  | .limit limitCount limitOffset child =>
    EachStep step P child ∧ ∀ c ∈ bottomUp step child, P (.limit limitCount limitOffset c)

variable {V : Type} {I : PlanInterpretation V}

/-- **Two plans for the same rows**, over the same columns. -/
structure SameRows (I : PlanInterpretation V) (plan plan' : LogicalOperator) : Prop where
  outputTables : plan'.outputTables = plan.outputTables
  inScope : inScope plan' = inScope plan
  sortOf : sortOf plan' = sortOf plan
  rows : rows I plan' = rows I plan

namespace SameRows

theorem refl (plan : LogicalOperator) : SameRows I plan plan := ⟨rfl, rfl, rfl, rfl⟩

theorem trans {p q r : LogicalOperator} (h : SameRows I p q) (h' : SameRows I q r) :
    SameRows I p r :=
  ⟨h'.outputTables.trans h.outputTables, h'.inScope.trans h.inScope, h'.sortOf.trans h.sortOf,
    h'.rows.trans h.rows⟩

section Unary

variable {child child' : LogicalOperator} (h : SameRows I child child')
include h

theorem filter (es : List Expression) : SameRows I (.filter es child) (.filter es child') :=
  ⟨h.outputTables, h.inScope, h.sortOf, by rw [PlanMeaning.rows, PlanMeaning.rows, h.rows]⟩

theorem projection (t : Nat) (es : List Expression) :
    SameRows I (.projection t es child) (.projection t es child') :=
  ⟨congrArg (insert t) h.outputTables, rfl, h.sortOf, by
    rw [PlanMeaning.rows, PlanMeaning.rows, h.rows]⟩

theorem aggregate (gi ai : Nat) (groups es : List Expression) :
    SameRows I (.aggregate gi ai groups es child) (.aggregate gi ai groups es child') :=
  ⟨congrArg (fun s => insert gi (insert ai s)) h.outputTables, rfl, rfl, by
    rw [PlanMeaning.rows, PlanMeaning.rows, h.rows]⟩

theorem distinct (es : List Expression) :
    SameRows I (.distinct es child) (.distinct es child') := by
  have hscope : PlanMeaning.inScope (.distinct es child') =
      PlanMeaning.inScope (.distinct es child) := by
    funext c
    rw [PlanMeaning.inScope, PlanMeaning.inScope, h.inScope]
  exact ⟨h.outputTables, hscope, rfl, by rw [PlanMeaning.rows, PlanMeaning.rows, h.rows, hscope]⟩

theorem order (orders : List Expression) : SameRows I (.order orders child) (.order orders child') :=
  ⟨h.outputTables, h.inScope, rfl, h.rows⟩

theorem window (t : Nat) (names : List String) (partitions orders : List Expression) :
    SameRows I (.window t names partitions orders child)
      (.window t names partitions orders child') :=
  ⟨congrArg (insert t) h.outputTables, by
    funext c
    rw [PlanMeaning.inScope, PlanMeaning.inScope, h.inScope], rfl, by
    rw [PlanMeaning.rows, PlanMeaning.rows, h.rows]⟩

theorem limit (count offset : Option Expression) :
    SameRows I (.limit count offset child) (.limit count offset child') :=
  ⟨h.outputTables, h.inScope, h.sortOf, by
    rw [PlanMeaning.rows, PlanMeaning.rows, h.rows, h.sortOf]⟩

end Unary

section Binary

variable {left left' right right' : LogicalOperator} (hl : SameRows I left left')
  (hr : SameRows I right right')
include hl hr

theorem setOperation (t : Nat) (all : Bool) :
    SameRows I (.setOperation t all left right) (.setOperation t all left' right') :=
  ⟨by rw [LogicalOperator.outputTables, LogicalOperator.outputTables, hl.outputTables,
      hr.outputTables], rfl, rfl, by rw [PlanMeaning.rows, PlanMeaning.rows, hl.rows, hr.rows]⟩

theorem crossProduct : SameRows I (.crossProduct left right) (.crossProduct left' right') :=
  ⟨by rw [LogicalOperator.outputTables, LogicalOperator.outputTables, hl.outputTables,
      hr.outputTables], by
    funext c
    rw [PlanMeaning.inScope, PlanMeaning.inScope, hl.inScope, hr.inScope], rfl, by
    rw [PlanMeaning.rows, PlanMeaning.rows, hl.rows, hr.rows, hl.inScope]⟩

theorem join (join : LogicalJoin) :
    SameRows I (.join join left right) (.join join left' right') :=
  ⟨by rw [LogicalOperator.outputTables, LogicalOperator.outputTables, hl.outputTables,
      hr.outputTables], by
    funext c
    rw [PlanMeaning.inScope, PlanMeaning.inScope, hl.inScope, hr.inScope], rfl, by
    rw [PlanMeaning.rows, PlanMeaning.rows, hl.rows, hr.rows, hl.inScope]⟩

end Binary

end SameRows

/-- **A pass whose steps keep the rows** keeps the rows of every plan. -/
theorem bottomUp_sameRows {step : LogicalOperator → Option LogicalOperator}
    {P : LogicalOperator → Prop}
    (hstep : ∀ plan, P plan → ∃ plan', step plan = some plan' ∧ SameRows I plan plan')
    {plan : LogicalOperator} (h : EachStep step P plan) :
    ∃ plan', bottomUp step plan = some plan' ∧ SameRows I plan plan' := by
  -- a step above children that have been rewritten
  have habove : ∀ (above : LogicalOperator → LogicalOperator) {child child' : LogicalOperator},
      P (above child') → SameRows I (above child) (above child') →
        ∃ plan', step (above child') = some plan' ∧ SameRows I (above child) plan' := by
    intro above child child' hP hsame
    obtain ⟨plan', hplan, hsame'⟩ := hstep _ hP
    exact ⟨plan', hplan, hsame.trans hsame'⟩
  induction plan with
  | get g => exact hstep _ h
  | delimGet t columns => exact hstep _ h
  | filter es child ih =>
    obtain ⟨c, hc, hsame⟩ := ih h.1
    simpa only [bottomUp, hc, Option.bind_eq_bind, Option.bind_some] using
      habove (.filter es) (h.2 c hc) (hsame.filter es)
  | projection t es child ih =>
    obtain ⟨c, hc, hsame⟩ := ih h.1
    simpa only [bottomUp, hc, Option.bind_eq_bind, Option.bind_some] using
      habove (.projection t es) (h.2 c hc) (hsame.projection t es)
  | aggregate gi ai groups es child ih =>
    obtain ⟨c, hc, hsame⟩ := ih h.1
    simpa only [bottomUp, hc, Option.bind_eq_bind, Option.bind_some] using
      habove (.aggregate gi ai groups es) (h.2 c hc) (hsame.aggregate gi ai groups es)
  | distinct es child ih =>
    obtain ⟨c, hc, hsame⟩ := ih h.1
    simpa only [bottomUp, hc, Option.bind_eq_bind, Option.bind_some] using
      habove (.distinct es) (h.2 c hc) (hsame.distinct es)
  | order orders child ih =>
    obtain ⟨c, hc, hsame⟩ := ih h.1
    simpa only [bottomUp, hc, Option.bind_eq_bind, Option.bind_some] using
      habove (.order orders) (h.2 c hc) (hsame.order orders)
  | window t names partitions orders child ih =>
    obtain ⟨c, hc, hsame⟩ := ih h.1
    simpa only [bottomUp, hc, Option.bind_eq_bind, Option.bind_some] using
      habove (.window t names partitions orders) (h.2 c hc)
        (hsame.window t names partitions orders)
  | limit count offset child ih =>
    obtain ⟨c, hc, hsame⟩ := ih h.1
    simpa only [bottomUp, hc, Option.bind_eq_bind, Option.bind_some] using
      habove (.limit count offset) (h.2 c hc) (hsame.limit count offset)
  | setOperation t all left right ihl ihr =>
    obtain ⟨l, hl, hsameLeft⟩ := ihl h.1.1
    obtain ⟨r, hr, hsameRight⟩ := ihr h.1.2
    obtain ⟨plan', hplan, hsame⟩ := hstep _ (h.2 l hl r hr)
    exact ⟨plan', by
      simpa only [bottomUp, hl, hr, Option.bind_eq_bind, Option.bind_some] using hplan,
      (hsameLeft.setOperation hsameRight t all).trans hsame⟩
  | crossProduct left right ihl ihr =>
    obtain ⟨l, hl, hsameLeft⟩ := ihl h.1.1
    obtain ⟨r, hr, hsameRight⟩ := ihr h.1.2
    obtain ⟨plan', hplan, hsame⟩ := hstep _ (h.2 l hl r hr)
    exact ⟨plan', by
      simpa only [bottomUp, hl, hr, Option.bind_eq_bind, Option.bind_some] using hplan,
      (hsameLeft.crossProduct hsameRight).trans hsame⟩
  | join join left right ihl ihr =>
    obtain ⟨l, hl, hsameLeft⟩ := ihl h.1.1
    obtain ⟨r, hr, hsameRight⟩ := ihr h.1.2
    obtain ⟨plan', hplan, hsame⟩ := hstep _ (h.2 l hl r hr)
    exact ⟨plan', by
      simpa only [bottomUp, hl, hr, Option.bind_eq_bind, Option.bind_some] using hplan,
      (hsameLeft.join hsameRight join).trans hsame⟩

end PlanTraversal
end PgYaap
