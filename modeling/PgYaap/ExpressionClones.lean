import PgYaap.ExpressionEvaluation

/-! # Clones of bound expressions

The rewrites copy expressions, some of them with columns replaced on the way: by expressions when
a filter passes a projection, by other columns when a dependent join is decorrelated. The copies
are compared with what they stand for: the value on every row, the plans of the subqueries and
the children that are missing. -/
namespace PgYaap
namespace ExpressionClones

open LogicalPlan (ColumnBinding)
open ExpressionEvaluation (Env)

/-- A pointer to a bound expression, with all the fields of its class; `Plan` is
`LogicalOperator`. -/
inductive Expression (Plan : Type)
  | null
  | columnRef (binding : ColumnBinding) (tableName columnName : String)
  | constant (value : String) (isNull : Bool)
  | function (functionName : String) (opOid : Int) (children : List (Expression Plan))
  | aggregate (functionName : String) (aggOid : Int) (isDistinct : Bool)
      (children : List (Expression Plan))
  | conjunction (boolExprType : Int) (children : List (Expression Plan))
  | subquery (sublinkType : Int) (sublinkName : String) (subqueryPlan : Option Plan)
      (children : List (Expression Plan))

variable {Plan V : Type}

mutual

/-- The recursion that the clones share: what becomes of a column is a parameter, and a subquery
is made anew, without its plan. -/
def cloneWith (column : ColumnBinding → String → String → Expression Plan) :
    Expression Plan → Expression Plan
  | .null => .null
  | .columnRef binding tableName columnName => column binding tableName columnName
  | .constant value isNull => .constant value isNull
  | .function functionName opOid children =>
    .function functionName opOid (cloneChildren column children)
  | .aggregate functionName aggOid isDistinct children =>
    .aggregate functionName aggOid isDistinct (cloneChildren column children)
  | .conjunction boolExprType children => .conjunction boolExprType (cloneChildren column children)
  | .subquery sublinkType sublinkName _ children =>
    .subquery sublinkType sublinkName none (cloneChildren column children)

def cloneChildren (column : ColumnBinding → String → String → Expression Plan) :
    List (Expression Plan) → List (Expression Plan)
  | [] => []
  | e :: es => cloneWith column e :: cloneChildren column es

end

def cloneExpressionTree (expression : Expression Plan) : Expression Plan :=
  cloneWith (fun binding tableName columnName => .columnRef binding tableName columnName)
    expression

def cloneExpressionWithExpressionReplacements (expression : Expression Plan)
    (replacements : ColumnBinding → Option (Expression Plan)) : Expression Plan :=
  cloneWith (fun binding tableName columnName =>
    match replacements binding with
    | some replacement => cloneExpressionTree replacement
    | none => .columnRef binding tableName columnName) expression

/-- In both of its copies, that of the optimizer and that of the decorrelation. -/
def cloneExpressionWithBindingReplacements (expression : Expression Plan)
    (replacements : ColumnBinding → Option ColumnBinding) : Expression Plan :=
  cloneWith (fun binding tableName columnName =>
    match replacements binding with
    | some replacement => .columnRef replacement tableName columnName
    | none => .columnRef binding tableName columnName) expression

def isProjectionExpressionPushdownSafe : Expression Plan → Bool
  | .columnRef .. | .constant .. => true
  | _ => false

mutual

def canRewriteProjectionFilter (replacements : ColumnBinding → Option (Expression Plan)) :
    Expression Plan → Bool
  | .columnRef binding _ _ =>
    match replacements binding with
    | none => true
    | some replacement => isProjectionExpressionPushdownSafe replacement
  | .constant _ _ => true
  | .function _ _ children => canRewriteChildren replacements children
  | .conjunction _ children => canRewriteChildren replacements children
  | _ => false

def canRewriteChildren (replacements : ColumnBinding → Option (Expression Plan)) :
    List (Expression Plan) → Bool
  | [] => true
  | e :: es => canRewriteProjectionFilter replacements e && canRewriteChildren replacements es

end

/-! ## What a clone stands for -/

/-- What the parts of an expression mean. An aggregate and a subquery may evaluate their arguments
on other rows than the one they stand on, and the plan of a subquery reads its outer columns off
a row. -/
structure Meaning (Plan V : Type) where
  constant : String → Option V
  function : String → Int → List (Option V) → Option V
  aggregate : String → Int → Bool → (Env V → List (Option V)) → Env V → Option V
  conjunction : Int → List (Option V) → Option V
  subquery : Int → String → Option (Plan × Env V) → (Env V → List (Option V)) → Env V → Option V

section Meanings

variable (M : Meaning Plan V) (column : Env V → Env V)

mutual

/-- The value of an expression whose columns have the values that `column` gives them. -/
def valueWith (row : Env V) : Expression Plan → Option V
  | .null => none
  | .columnRef binding _ _ => column row binding
  | .constant value isNull => if isNull then none else M.constant value
  | .function functionName opOid children => M.function functionName opOid (valuesWith row children)
  | .aggregate functionName aggOid isDistinct children =>
    M.aggregate functionName aggOid isDistinct (fun row => valuesWith row children) row
  | .conjunction boolExprType children => M.conjunction boolExprType (valuesWith row children)
  | .subquery sublinkType sublinkName subqueryPlan children =>
    M.subquery sublinkType sublinkName (subqueryPlan.map fun plan => (plan, column row))
      (fun row => valuesWith row children) row

def valuesWith (row : Env V) : List (Expression Plan) → List (Option V)
  | [] => []
  | e :: es => valueWith row e :: valuesWith row es

end

/-- The value of an expression on a row. -/
def valueOf (row : Env V) (e : Expression Plan) : Option V := valueWith M id row e

end Meanings

/-- What a copy could lose or make up: the plans of subqueries and missing children. -/
inductive Piece (Plan : Type)
  | null
  | plan (plan : Plan)

def Piece.isNull : Piece Plan → Bool
  | .null => true
  | .plan _ => false

mutual

/-- The pieces of an expression whose columns have the pieces that `column` gives them. -/
def piecesWith (column : ColumnBinding → List (Piece Plan)) :
    Expression Plan → List (Piece Plan)
  | .null => [.null]
  | .columnRef binding _ _ => column binding
  | .constant _ _ => []
  | .function _ _ children => piecesOfChildren column children
  | .aggregate _ _ _ children => piecesOfChildren column children
  | .conjunction _ children => piecesOfChildren column children
  | .subquery _ _ subqueryPlan children =>
    (subqueryPlan.map Piece.plan).toList ++ piecesOfChildren column children

def piecesOfChildren (column : ColumnBinding → List (Piece Plan)) :
    List (Expression Plan) → List (Piece Plan)
  | [] => []
  | e :: es => piecesWith column e ++ piecesOfChildren column es

end

def piecesOf (e : Expression Plan) : List (Piece Plan) := piecesWith (fun _ => []) e

/-- The columns of a row where some of them stand for expressions over it. -/
def columnValue (M : Meaning Plan V) (target : ColumnBinding → Option (Expression Plan))
    (row : Env V) : Env V := fun binding =>
  match target binding with
  | some e => valueOf M row e
  | none => row binding

def columnPieces (target : ColumnBinding → Option (Expression Plan)) (binding : ColumnBinding) :
    List (Piece Plan) :=
  match target binding with
  | some e => piecesOf e
  | none => []

/-- **A faithful copy** of an expression with some of its columns replaced: it has the value of
the original where the columns have the values of their replacements, whatever the parts mean,
and the plans and missing children of the original and of the replacements. -/
structure Faithful (target : ColumnBinding → Option (Expression Plan))
    (clone expression : Expression Plan) : Prop where
  value : ∀ (V : Type) (M : Meaning Plan V) (row : Env V),
    valueOf M row clone = valueWith M (columnValue M target) row expression
  pieces : piecesOf clone = piecesWith (columnPieces target) expression

/-- No subquery in the expression or in a replacement of one of its columns has a plan. -/
def NoPlans (target : ColumnBinding → Option (Expression Plan)) (expression : Expression Plan) :
    Prop :=
  ∀ piece ∈ piecesWith (columnPieces target) expression, piece.isNull = true

/-! ## The recursion of the clones -/

/-- **What the clones put in place of a column** stands for its replacement, but for the plans. -/
structure Replaces (column : ColumnBinding → String → String → Expression Plan)
    (target : ColumnBinding → Option (Expression Plan)) : Prop where
  value : ∀ binding tableName columnName,
    (∀ piece ∈ columnPieces target binding, piece.isNull = true) →
    ∀ (V : Type) (M : Meaning Plan V) (row : Env V),
      valueOf M row (column binding tableName columnName) = columnValue M target row binding
  pieces : ∀ binding tableName columnName, piecesOf (column binding tableName columnName) =
    (columnPieces target binding).filter Piece.isNull

section Clones

variable {column : ColumnBinding → String → String → Expression Plan}
  {target : ColumnBinding → Option (Expression Plan)}

mutual

/-- A clone keeps the missing children and loses the plans. -/
theorem pieces_cloneWith (h : Replaces column target) : ∀ e : Expression Plan,
    piecesOf (cloneWith column e) = (piecesWith (columnPieces target) e).filter Piece.isNull
  | .null => rfl
  | .columnRef binding tableName columnName => h.pieces binding tableName columnName
  | .constant _ _ => rfl
  | .function _ _ children => pieces_cloneChildren h children
  | .aggregate _ _ _ children => pieces_cloneChildren h children
  | .conjunction _ children => pieces_cloneChildren h children
  | .subquery _ _ subqueryPlan children => by
    rw [piecesWith, List.filter_append, ← pieces_cloneChildren h children]
    cases subqueryPlan <;> rfl

theorem pieces_cloneChildren (h : Replaces column target) : ∀ es : List (Expression Plan),
    piecesOfChildren (fun _ => []) (cloneChildren column es) =
      (piecesOfChildren (columnPieces target) es).filter Piece.isNull
  | [] => rfl
  | e :: es => by
    rw [cloneChildren, piecesOfChildren, piecesOfChildren, List.filter_append,
      ← pieces_cloneWith h e, ← pieces_cloneChildren h es]
    rfl

end

variable (M : Meaning Plan V)

mutual

/-- **Without plans a clone has the value of what it stands for.** -/
theorem value_cloneWith (h : Replaces column target) (row : Env V) : ∀ e : Expression Plan,
    NoPlans target e →
    valueOf M row (cloneWith column e) = valueWith M (columnValue M target) row e
  | .null, _ => rfl
  | .columnRef binding tableName columnName, hplans =>
    h.value binding tableName columnName hplans V M row
  | .constant _ _, _ => rfl
  | .function functionName opOid children, hplans => by
    rw [valueWith, ← values_cloneChildren h row children hplans]
    rfl
  | .aggregate functionName aggOid isDistinct children, hplans => by
    have hvalues : (fun row => valuesWith M id row (cloneChildren column children)) =
        fun row => valuesWith M (columnValue M target) row children :=
      funext fun row => values_cloneChildren h row children hplans
    rw [valueWith, ← hvalues]
    rfl
  | .conjunction boolExprType children, hplans => by
    rw [valueWith, ← values_cloneChildren h row children hplans]
    rfl
  | .subquery sublinkType sublinkName none children, hplans => by
    have hvalues : (fun row => valuesWith M id row (cloneChildren column children)) =
        fun row => valuesWith M (columnValue M target) row children :=
      funext fun row => values_cloneChildren h row children hplans
    rw [valueWith, ← hvalues]
    rfl
  | .subquery _ _ (some plan) _, hplans =>
    absurd (hplans (.plan plan) List.mem_cons_self) Bool.false_ne_true

theorem values_cloneChildren (h : Replaces column target) (row : Env V) :
    ∀ es : List (Expression Plan),
    (∀ piece ∈ piecesOfChildren (columnPieces target) es, piece.isNull = true) →
    valuesWith M id row (cloneChildren column es) =
      valuesWith M (columnValue M target) row es
  | [], _ => rfl
  | e :: es, hplans => by
    have hsplit := List.forall_mem_append.1 hplans
    rw [cloneChildren, valuesWith, valuesWith, ← value_cloneWith h row e hsplit.1,
      ← values_cloneChildren h row es hsplit.2]
    rfl

end

/-- **When the recursion makes a faithful copy.** -/
theorem faithful_cloneWith_iff (h : Replaces column target) (e : Expression Plan) :
    Faithful target (cloneWith column e) e ↔ NoPlans target e := by
  have hpieces := pieces_cloneWith h e
  constructor
  · intro hfaithful
    rw [hfaithful.pieces, eq_comm, List.filter_eq_self] at hpieces
    exact hpieces
  · intro hplans
    refine ⟨fun V M row => value_cloneWith M h row e hplans, ?_⟩
    rw [hpieces, List.filter_eq_self]
    exact hplans

end Clones

/-! ## The clones -/

/-- Nothing is replaced. -/
def noReplacements : ColumnBinding → Option (Expression Plan) := fun _ => none

/-- A column that stands for another one; its names are not read. -/
def columnTarget (replacements : ColumnBinding → Option ColumnBinding) (binding : ColumnBinding) :
    Option (Expression Plan) :=
  (replacements binding).map fun replacement => .columnRef replacement "" ""

theorem replaces_self :
    Replaces (fun binding tableName columnName => .columnRef binding tableName columnName)
      (noReplacements : ColumnBinding → Option (Expression Plan)) :=
  ⟨fun _ _ _ _ _ _ _ => rfl, fun _ _ _ => rfl⟩

theorem replaces_expressions (replacements : ColumnBinding → Option (Expression Plan)) :
    Replaces (fun binding tableName columnName =>
      match replacements binding with
      | some replacement => cloneExpressionTree replacement
      | none => .columnRef binding tableName columnName) replacements := by
  refine ⟨fun binding tableName columnName hplans V M row => ?_,
    fun binding tableName columnName => ?_⟩
  · cases hfound : replacements binding with
    | none => rw [columnValue, hfound]; rfl
    | some replacement =>
      rw [columnPieces, hfound] at hplans
      rw [columnValue, hfound]
      exact value_cloneWith M replaces_self row replacement hplans
  · cases hfound : replacements binding with
    | none => rw [columnPieces, hfound]; rfl
    | some replacement =>
      rw [columnPieces, hfound]
      exact pieces_cloneWith replaces_self replacement

theorem replaces_bindings (replacements : ColumnBinding → Option ColumnBinding) :
    Replaces (fun binding tableName columnName =>
      match replacements binding with
      | some replacement => .columnRef replacement tableName columnName
      | none => .columnRef binding tableName columnName)
      (columnTarget replacements : ColumnBinding → Option (Expression Plan)) := by
  refine ⟨fun binding tableName columnName hplans V M row => ?_,
    fun binding tableName columnName => ?_⟩
  · cases hfound : replacements binding with
    | none => rw [columnValue, columnTarget, hfound]; rfl
    | some replacement => rw [columnValue, columnTarget, hfound]; rfl
  · cases hfound : replacements binding with
    | none => rw [columnPieces, columnTarget, hfound]; rfl
    | some replacement => rw [columnPieces, columnTarget, hfound]; rfl

/-- **When the clones are faithful copies.** -/
theorem clones_faithful_iff (e : Expression Plan)
    (expressions : ColumnBinding → Option (Expression Plan))
    (bindings : ColumnBinding → Option ColumnBinding) :
    (Faithful noReplacements (cloneExpressionTree e) e ↔ NoPlans noReplacements e) ∧
    (Faithful expressions (cloneExpressionWithExpressionReplacements e expressions) e ↔
      NoPlans expressions e) ∧
    (Faithful (columnTarget bindings) (cloneExpressionWithBindingReplacements e bindings) e ↔
      NoPlans (columnTarget bindings) e) :=
  ⟨faithful_cloneWith_iff replaces_self e,
    faithful_cloneWith_iff (replaces_expressions expressions) e,
    faithful_cloneWith_iff (replaces_bindings bindings) e⟩

/-- **The plan of a subquery is lost** by every clone. -/
theorem clones_lose_plan :
    ¬ Faithful noReplacements (cloneExpressionTree (.subquery 0 "exists" (some ()) []))
        (.subquery 0 "exists" (some ()) []) ∧
    ¬ Faithful noReplacements (cloneExpressionWithExpressionReplacements
        (.subquery 0 "exists" (some ()) []) noReplacements)
        (.subquery 0 "exists" (some ()) []) ∧
    ¬ Faithful (columnTarget fun _ => none) (cloneExpressionWithBindingReplacements
        (.subquery 0 "exists" (some ()) []) fun _ => none)
        (.subquery 0 "exists" (some ()) []) :=
  ⟨fun h => absurd h.pieces nofun, fun h => absurd h.pieces nofun, fun h => absurd h.pieces nofun⟩

mutual

/-- **A tree without plans is copied as it is**, with all names and flags. -/
theorem cloneExpressionTree_eq : ∀ e : Expression Plan, NoPlans noReplacements e →
    cloneExpressionTree e = e
  | .null, _ => rfl
  | .columnRef _ _ _, _ => rfl
  | .constant _ _, _ => rfl
  | .function functionName opOid children, hplans =>
    congrArg (Expression.function functionName opOid) (cloneChildren_eq children hplans)
  | .aggregate functionName aggOid isDistinct children, hplans =>
    congrArg (Expression.aggregate functionName aggOid isDistinct) (cloneChildren_eq children hplans)
  | .conjunction boolExprType children, hplans =>
    congrArg (Expression.conjunction boolExprType) (cloneChildren_eq children hplans)
  | .subquery sublinkType sublinkName none children, hplans =>
    congrArg (Expression.subquery sublinkType sublinkName none) (cloneChildren_eq children hplans)
  | .subquery _ _ (some plan) _, hplans =>
    absurd (hplans (.plan plan) List.mem_cons_self) Bool.false_ne_true

theorem cloneChildren_eq : ∀ es : List (Expression Plan),
    (∀ piece ∈ piecesOfChildren (columnPieces noReplacements) es, piece.isNull = true) →
    cloneChildren (fun binding tableName columnName => .columnRef binding tableName columnName) es =
      es
  | [], _ => rfl
  | e :: es, hplans => by
    have hsplit := List.forall_mem_append.1 hplans
    rw [cloneChildren, cloneChildren_eq es hsplit.2]
    exact congrArg (· :: es) (cloneExpressionTree_eq e hsplit.1)

end

/-! ## Filters that may pass a projection -/

section Projections

variable {replacements : ColumnBinding → Option (Expression Plan)}

mutual

/-- What may pass a projection has no subquery, and its columns stand for columns and constants. -/
theorem pieces_of_canRewrite : ∀ e : Expression Plan,
    canRewriteProjectionFilter replacements e = true →
    piecesWith (columnPieces replacements) e = []
  | .columnRef binding _ _, hcan => by
    rw [canRewriteProjectionFilter] at hcan
    rw [piecesWith, columnPieces]
    cases hfound : replacements binding with
    | none => rfl
    | some replacement =>
      rw [hfound] at hcan
      cases replacement with
      | columnRef => rfl
      | constant => rfl
      | _ => exact absurd hcan Bool.false_ne_true
  | .constant _ _, _ => rfl
  | .function _ _ children, hcan => pieces_of_canRewriteChildren children hcan
  | .conjunction _ children, hcan => pieces_of_canRewriteChildren children hcan

theorem pieces_of_canRewriteChildren : ∀ es : List (Expression Plan),
    canRewriteChildren replacements es = true →
    piecesOfChildren (columnPieces replacements) es = []
  | [], _ => rfl
  | e :: es, hcan => by
    rw [canRewriteChildren, Bool.and_eq_true] at hcan
    rw [piecesOfChildren, pieces_of_canRewrite e hcan.1, pieces_of_canRewriteChildren es hcan.2]
    rfl

end

/-- **A filter that may pass a projection is copied faithfully**, and nothing in it is missing. -/
theorem faithful_of_canRewriteProjectionFilter {e : Expression Plan}
    (hcan : canRewriteProjectionFilter replacements e = true) :
    Faithful replacements (cloneExpressionWithExpressionReplacements e replacements) e ∧
      piecesOf (cloneExpressionWithExpressionReplacements e replacements) = [] := by
  have hpieces := pieces_of_canRewrite e hcan
  have hfaithful := (faithful_cloneWith_iff (replaces_expressions replacements) e).2
    (fun piece hpiece => absurd (hpieces ▸ hpiece) List.not_mem_nil)
  exact ⟨hfaithful, hfaithful.pieces.trans hpieces⟩

end Projections

end ExpressionClones
end PgYaap
