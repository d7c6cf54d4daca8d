import PgYaap.JoinOrderCoverage

/-! # Join sides in 64 bits

The join order optimizer keeps sets of tables in words of 64 bits and makes the bit of a table by
a shift. The words stand for the sets as long as the indexes of the tables are below 64; there
is no such limit on them, only one on the number of relations. A table with a larger index takes
the bit of a lower one, and the columns of subqueries are not looked at. -/
namespace PgYaap

open LogicalPlan JoinOrderRewrite

namespace JoinSideMasks

/-! ## Words -/

/-- `uint64_t{1} << table_index`. The shift takes the lowest six bits of its distance. -/
def tableBit (tableIndex : Nat) : UInt64 := 1 <<< UInt64.ofNat tableIndex

mutual

/-- `ExtractExpressionMask`. -/
def expressionMask : Expression → UInt64
  | .columnRef binding => tableBit binding.tableIndex
  | .function _ _ children => listMask children
  | .conjunction _ children => listMask children
  | .aggregate _ _ _ children => listMask children
  | .subquery _ _ _ => 0
  | .constant _ _ => 0
  | .opaqueExpr => 0

/-- The loop of `ExtractExpressionMask` over children. -/
def listMask : List Expression → UInt64
  | [] => 0
  | child :: rest => expressionMask child ||| listMask rest

end

mutual

/-- `TryExtractJoinSides`. -/
def joinSides : Expression → Option (UInt64 × UInt64)
  | .function _ _ [first, second] =>
    let firstMask := expressionMask first
    let secondMask := expressionMask second
    if firstMask = 0 ∨ secondMask = 0 ∨ firstMask &&& secondMask ≠ 0 then none
    else some (firstMask, secondMask)
  | .conjunction boolExprType children =>
    if boolExprType ≠ 0 then none
    else
      (mergeSides children none).bind fun sides =>
        if sides.1 = 0 ∨ sides.2 = 0 ∨ sides.1 &&& sides.2 ≠ 0 then none else some sides
  | _ => none

/-- The loop of `TryExtractJoinSides` over the children of a conjunction. -/
def mergeSides : List Expression → Option (UInt64 × UInt64) → Option (UInt64 × UInt64)
  | [], aggregate => aggregate
  | child :: rest, aggregate =>
    (joinSides child).bind fun sides =>
      match aggregate with
      | none => mergeSides rest (some sides)
      | some (left, right) =>
        if sides.1 &&& right = 0 ∧ sides.2 &&& left = 0 then
          mergeSides rest (some (left ||| sides.1, right ||| sides.2))
        else if sides.1 &&& left = 0 ∧ sides.2 &&& right = 0 then
          mergeSides rest (some (left ||| sides.2, right ||| sides.1))
        else none

end

/-- The tables whose bits are set. -/
def tables (mask : UInt64) : Finset Nat :=
  (Finset.range 64).filter fun t => mask.toNat.testBit t = true

/-- The test of `TableMaskToRelationMask`. -/
def hasTable (mask : UInt64) (tableIndex : Nat) : Bool := mask &&& tableBit tableIndex ≠ 0

/-- `TableMaskToRelationMask`, for the output tables of the relations. -/
def relationMask (mask : UInt64) (relations : List (List Nat)) : UInt64 :=
  relations.zipIdx.foldl (fun result relation =>
    if relation.1.any (hasTable mask) then result ||| tableBit relation.2 else result) 0

theorem mem_tables {mask : UInt64} {t : Nat} : t ∈ tables mask ↔ mask.toNat.testBit t = true := by
  rw [tables, Finset.mem_filter, Finset.mem_range, and_iff_right_iff_imp]
  intro hbit
  by_contra hlt
  have hsmall : mask.toNat < 2 ^ t :=
    Nat.lt_of_lt_of_le mask.toNat_lt (Nat.pow_le_pow_right Nat.two_pos (Nat.le_of_not_lt hlt))
  rw [Nat.testBit_lt_two_pow hsmall] at hbit
  cases hbit

theorem lt_of_mem_tables {mask : UInt64} {t : Nat} (h : t ∈ tables mask) : t < 64 :=
  Finset.mem_range.1 (Finset.mem_filter.1 h).1

theorem tables_or (a b : UInt64) : tables (a ||| b) = tables a ∪ tables b := by
  ext t
  rw [Finset.mem_union, mem_tables, mem_tables, mem_tables, UInt64.toNat_or, Nat.testBit_or,
    Bool.or_eq_true]

theorem tables_and (a b : UInt64) : tables (a &&& b) = tables a ∩ tables b := by
  ext t
  rw [Finset.mem_inter, mem_tables, mem_tables, mem_tables, UInt64.toNat_and, Nat.testBit_and,
    Bool.and_eq_true]

theorem tables_eq_empty {mask : UInt64} : tables mask = ∅ ↔ mask = 0 := by
  rw [Finset.eq_empty_iff_forall_notMem, ← UInt64.toNat_inj]
  constructor
  · intro h
    refine Nat.eq_of_testBit_eq fun t => ?_
    rw [UInt64.toNat_zero, Nat.zero_testBit, ← Bool.not_eq_true, ← mem_tables]
    exact h t
  · intro h t
    rw [mem_tables, h, UInt64.toNat_zero, Nat.zero_testBit]
    exact Bool.false_ne_true

/-- **The bit of a table** is that of its index modulo 64. -/
theorem tables_tableBit (t : Nat) : tables (tableBit t) = {t % 64} := by
  have hpow : (tableBit t).toNat = 2 ^ (t % 64) := by
    have hdistance : (UInt64.ofNat t).toNat % 64 = t % 64 := by
      rw [UInt64.toNat_ofNat']
      omega
    have hlt : 2 ^ (t % 64) < 2 ^ 64 := Nat.pow_lt_pow_right Nat.one_lt_two (Nat.mod_lt _ (by decide))
    rw [tableBit, UInt64.toNat_shiftLeft, hdistance, Nat.shiftLeft_eq, UInt64.toNat_one,
      Nat.one_mul, Nat.mod_eq_of_lt hlt]
  ext s
  rw [mem_tables, hpow, Nat.testBit_two_pow, decide_eq_true_iff, Finset.mem_singleton]
  exact eq_comm

theorem hasTable_iff {mask : UInt64} {t : Nat} : hasTable mask t = true ↔ t % 64 ∈ tables mask := by
  rw [hasTable, decide_eq_true_iff, Ne, ← tables_eq_empty, tables_and, tables_tableBit,
    ← Finset.disjoint_iff_inter_eq_empty, Finset.disjoint_singleton_right, not_not]

mutual

/-- The mask of an expression has the indexes of its tables modulo 64. -/
theorem tables_expressionMask : (e : Expression) →
    tables (expressionMask e) = (extractExpressionMask e).image (· % 64)
  | .columnRef binding => by
    rw [expressionMask, extractExpressionMask, tables_tableBit, Finset.image_singleton]
  | .function _ _ children => by
    rw [expressionMask, extractExpressionMask, tables_listMask children]
  | .conjunction _ children => by
    rw [expressionMask, extractExpressionMask, tables_listMask children]
  | .aggregate _ _ _ children => by
    rw [expressionMask, extractExpressionMask, tables_listMask children]
  | .subquery _ _ _ => by
    rw [expressionMask, extractExpressionMask, tables_eq_empty.2 rfl, Finset.image_empty]
  | .constant _ _ => by
    rw [expressionMask, extractExpressionMask, tables_eq_empty.2 rfl, Finset.image_empty]
  | .opaqueExpr => by
    rw [expressionMask, extractExpressionMask, tables_eq_empty.2 rfl, Finset.image_empty]

theorem tables_listMask : (es : List Expression) →
    tables (listMask es) = (extractListMask es).image (· % 64)
  | [] => by rw [listMask, extractListMask, tables_eq_empty.2 rfl, Finset.image_empty]
  | e :: es => by
    rw [listMask, extractListMask, tables_or, tables_expressionMask e, tables_listMask es,
      Finset.image_union]

end

theorem image_mod_eq {s : Finset Nat} (h : ∀ t ∈ s, t < 64) : s.image (· % 64) = s := by
  have hid : Set.EqOn (· % 64) id (s : Set Nat) := fun t ht => Nat.mod_eq_of_lt (h t ht)
  rw [Finset.image_congr hid, Finset.image_id]

/-- The tables of two words, as the sides of a condition. -/
def sidesOf (sides : UInt64 × UInt64) : Finset Nat × Finset Nat := (tables sides.1, tables sides.2)

theorem and_eq_zero {a b : UInt64} : a &&& b = 0 ↔ tables a ∩ tables b = ∅ := by
  rw [← tables_and, tables_eq_empty]

mutual

/-- **The words stand for the sets** as long as the indexes of the tables are below 64. -/
theorem joinSides_tables : (e : Expression) → (∀ t ∈ extractExpressionMask e, t < 64) →
    (joinSides e).map sidesOf = tryExtractJoinSides e
  | .function _ _ [first, second], h => by
    rw [extractExpressionMask, extractListMask, extractListMask, extractListMask,
      Finset.union_empty] at h
    have hfirst : tables (expressionMask first) = extractExpressionMask first := by
      rw [tables_expressionMask, image_mod_eq fun t ht => h t (Finset.mem_union_left _ ht)]
    have hsecond : tables (expressionMask second) = extractExpressionMask second := by
      rw [tables_expressionMask, image_mod_eq fun t ht => h t (Finset.mem_union_right _ ht)]
    rw [joinSides, tryExtractJoinSides]
    simp only [← tables_eq_empty, tables_and, hfirst, hsecond, Ne]
    split
    · rfl
    · rw [Option.map_some, sidesOf, hfirst, hsecond]
  | .function _ _ [], _ => rfl
  | .function _ _ [_], _ => rfl
  | .function _ _ (_ :: _ :: _ :: _), _ => rfl
  | .columnRef _, _ => rfl
  | .constant _ _, _ => rfl
  | .aggregate _ _ _ _, _ => rfl
  | .subquery _ _ _, _ => rfl
  | .opaqueExpr, _ => rfl
  | .conjunction boolExprType children, h => by
    rw [joinSides, tryExtractJoinSides]
    split
    · rfl
    · have hmerge := mergeSides_tables children none h
      rw [Option.map_none] at hmerge
      rw [← hmerge]
      cases mergeSides children none with
      | none => rfl
      | some sides =>
        rw [Option.map_some, Option.bind_some, Option.bind_some]
        simp only [← tables_eq_empty, tables_and, sidesOf, Ne]
        split
        · rename_i hbad
          exact (if_pos hbad).symm
        · rename_i hgood
          exact (if_neg hgood).symm

theorem mergeSides_tables : (es : List Expression) → (aggregate : Option (UInt64 × UInt64)) →
    (∀ t ∈ extractListMask es, t < 64) →
    (mergeSides es aggregate).map sidesOf = aggregateSides es (aggregate.map sidesOf)
  | [], _, _ => rfl
  | e :: es, aggregate, h => by
    rw [extractListMask] at h
    have hhead := joinSides_tables e fun t ht => h t (Finset.mem_union_left _ ht)
    have htail := fun aggregate =>
      mergeSides_tables es aggregate fun t ht => h t (Finset.mem_union_right _ ht)
    rw [mergeSides, aggregateSides, ← hhead]
    cases joinSides e with
    | none => rfl
    | some sides =>
      rw [Option.map_some, Option.bind_some, Option.bind_some]
      cases aggregate with
      | none => exact htail _
      | some merged =>
        obtain ⟨left, right⟩ := merged
        rw [Option.map_some]
        dsimp only [sidesOf]
        simp only [and_eq_zero]
        split_ifs with hsame hreverse
        · rw [htail, Option.map_some, sidesOf, tables_or, tables_or]
          exact (if_pos hsame).symm
        · rw [htail, Option.map_some, sidesOf, tables_or, tables_or]
          exact ((if_neg hsame).trans (if_pos hreverse)).symm
        · exact ((if_neg hsame).trans (if_neg hreverse)).symm

end

/-! ## Sets -/

/-- **A conjunction of binary predicates over two sides**: one operand of each is over the left
side and the other over the right side. -/
inductive Splits (tablesOf : Expression → Finset Nat) (left right : Finset Nat) :
    Expression → Prop
  | predicate {functionName : String} {opOid : Int} {first second : Expression}
      (hfirst : tablesOf first ⊆ left) (hsecond : tablesOf second ⊆ right) :
      Splits tablesOf left right (.function functionName opOid [first, second])
  | reversed {functionName : String} {opOid : Int} {first second : Expression}
      (hfirst : tablesOf first ⊆ right) (hsecond : tablesOf second ⊆ left) :
      Splits tablesOf left right (.function functionName opOid [first, second])
  | conjunction {children : List Expression} (hne : children ≠ [])
      (h : ∀ child ∈ children, Splits tablesOf left right child) :
      Splits tablesOf left right (.conjunction 0 children)

variable {tablesOf : Expression → Finset Nat} {left right left' right' : Finset Nat}
  {e : Expression}

theorem Splits.mono (h : Splits tablesOf left right e) (hleft : left ⊆ left')
    (hright : right ⊆ right') : Splits tablesOf left' right' e := by
  induction h with
  | predicate hfirst hsecond => exact .predicate (hfirst.trans hleft) (hsecond.trans hright)
  | reversed hfirst hsecond => exact .reversed (hfirst.trans hright) (hsecond.trans hleft)
  | conjunction hne h ih => exact .conjunction hne ih

theorem Splits.swap (h : Splits tablesOf left right e) : Splits tablesOf right left e := by
  induction h with
  | predicate hfirst hsecond => exact .reversed hfirst hsecond
  | reversed hfirst hsecond => exact .predicate hfirst hsecond
  | conjunction hne h ih => exact .conjunction hne ih

/-- What two sides of the tables `all` are. -/
structure Sides (all left right : Finset Nat) : Prop where
  disjoint : Disjoint left right
  left_nonempty : left.Nonempty
  right_nonempty : right.Nonempty
  union : left ∪ right = all

/-- The sides of a conjunct join those of the conjuncts before it. -/
theorem Sides.merge {all all' : Finset Nat} (h : Sides all left right)
    (h' : Sides all' left' right') (hleft : left' ∩ right = ∅) (hright : right' ∩ left = ∅) :
    Sides (all ∪ all') (left ∪ left') (right ∪ right') := by
  rw [← Finset.disjoint_iff_inter_eq_empty] at hleft hright
  refine ⟨?_, h.left_nonempty.mono Finset.subset_union_left,
    h.right_nonempty.mono Finset.subset_union_left, ?_⟩
  · rw [Finset.disjoint_union_left, Finset.disjoint_union_right, Finset.disjoint_union_right]
    exact ⟨⟨h.disjoint, hright.symm⟩, hleft, h'.disjoint⟩
  · rw [← h.union, ← h'.union]
    exact Finset.union_union_union_comm left left' right right'

theorem Sides.swap {all : Finset Nat} (h : Sides all left right) : Sides all right left :=
  ⟨h.disjoint.symm, h.right_nonempty, h.left_nonempty, (Finset.union_comm _ _).trans h.union⟩

mutual

/-- **The sets that are returned** are two sides of the tables outside subqueries, and the
expression is a conjunction of predicates over them. -/
theorem tryExtractJoinSides_spec : (e : Expression) → {sides : Finset Nat × Finset Nat} →
    tryExtractJoinSides e = some sides → Sides (extractExpressionMask e) sides.1 sides.2 ∧
      Splits extractExpressionMask sides.1 sides.2 e
  | .function functionName opOid [first, second], sides, h => by
    rw [tryExtractJoinSides] at h
    split at h
    · cases h
    · rename_i hgood
      rw [not_or, not_or, not_ne_iff] at hgood
      obtain rfl := Option.some.inj h
      refine ⟨⟨?_, ?_, ?_, ?_⟩, .predicate (Finset.Subset.refl _) (Finset.Subset.refl _)⟩
      · exact Finset.disjoint_iff_inter_eq_empty.2 hgood.2.2
      · exact Finset.nonempty_iff_ne_empty.2 hgood.1
      · exact Finset.nonempty_iff_ne_empty.2 hgood.2.1
      · rw [extractExpressionMask, extractListMask, extractListMask, extractListMask,
          Finset.union_empty]
  | .function _ _ [], _, h => nomatch h
  | .function _ _ [_], _, h => nomatch h
  | .function _ _ (_ :: _ :: _ :: _), _, h => nomatch h
  | .columnRef _, _, h => nomatch h
  | .constant _ _, _, h => nomatch h
  | .aggregate _ _ _ _, _, h => nomatch h
  | .subquery _ _ _, _, h => nomatch h
  | .opaqueExpr, _, h => nomatch h
  | .conjunction boolExprType [], sides, h => by
    rw [tryExtractJoinSides] at h
    split at h
    · cases h
    · cases h
  | .conjunction boolExprType (e :: es), sides, h => by
    rw [tryExtractJoinSides] at h
    split at h
    · cases h
    · rename_i htype
      rw [not_ne_iff] at htype
      rw [htype]
      obtain ⟨merged, hmerged, hcheck⟩ := Option.bind_eq_some_iff.1 h
      split at hcheck
      · cases hcheck
      · obtain rfl := Option.some.inj hcheck
        rw [aggregateSides] at hmerged
        obtain ⟨start, hstart, hrest⟩ := Option.bind_eq_some_iff.1 hmerged
        obtain ⟨hsides, hsplits⟩ := tryExtractJoinSides_spec e hstart
        obtain ⟨hall, hleft, hright, hes⟩ := aggregateSides_spec es hsides hrest
        refine ⟨hall, .conjunction (List.cons_ne_nil e es) fun child hchild => ?_⟩
        rcases List.mem_cons.1 hchild with rfl | hmem
        · exact hsplits.mono hleft hright
        · exact hes child hmem

theorem aggregateSides_spec : (es : List Expression) → {all : Finset Nat} →
    {merged sides : Finset Nat × Finset Nat} → Sides all merged.1 merged.2 →
    aggregateSides es (some merged) = some sides →
    Sides (all ∪ extractListMask es) sides.1 sides.2 ∧ merged.1 ⊆ sides.1 ∧ merged.2 ⊆ sides.2 ∧
      ∀ e ∈ es, Splits extractExpressionMask sides.1 sides.2 e
  | [], all, merged, sides, hmerged, h => by
    obtain rfl := Option.some.inj h
    rw [extractListMask, Finset.union_empty]
    exact ⟨hmerged, Finset.Subset.refl _, Finset.Subset.refl _,
      fun e he => absurd he List.not_mem_nil⟩
  | e :: es, all, merged, sides, hmerged, h => by
    rw [aggregateSides] at h
    obtain ⟨child, hchild, hrest⟩ := Option.bind_eq_some_iff.1 h
    obtain ⟨hsides, hsplits⟩ := tryExtractJoinSides_spec e hchild
    obtain ⟨left, right⟩ := merged
    dsimp only at hmerged hrest ⊢
    rw [extractListMask, ← Finset.union_assoc]
    split_ifs at hrest with hsame hreverse
    · have hnext := hmerged.merge hsides hsame.1 hsame.2
      obtain ⟨hall, hleft, hright, hes⟩ := aggregateSides_spec es hnext hrest
      refine ⟨hall, Finset.union_subset_left hleft, Finset.union_subset_left hright, ?_⟩
      intro x hx
      rcases List.mem_cons.1 hx with rfl | hmem
      · exact hsplits.mono (Finset.union_subset_right hleft) (Finset.union_subset_right hright)
      · exact hes x hmem
    · have hnext := hmerged.merge hsides.swap hreverse.2 hreverse.1
      obtain ⟨hall, hleft, hright, hes⟩ := aggregateSides_spec es hnext hrest
      refine ⟨hall, Finset.union_subset_left hleft, Finset.union_subset_left hright, ?_⟩
      intro x hx
      rcases List.mem_cons.1 hx with rfl | hmem
      · exact hsplits.swap.mono (Finset.union_subset_right hleft)
          (Finset.union_subset_right hright)
      · exact hes x hmem

end

/-! ## Both together -/

/-- The operands of the predicates of an expression. -/
inductive IsOperand (x : Expression) : Expression → Prop
  | first {functionName : String} {opOid : Int} {second : Expression} :
      IsOperand x (.function functionName opOid [x, second])
  | second {functionName : String} {opOid : Int} {first : Expression} :
      IsOperand x (.function functionName opOid [first, x])
  | conjunct {children : List Expression} {child : Expression} (hchild : child ∈ children)
      (h : IsOperand x child) : IsOperand x (.conjunction 0 children)

/-- Only the operands of an expression matter for how it splits. -/
theorem Splits.congr {tablesOf' : Expression → Finset Nat} (h : Splits tablesOf left right e)
    (hsame : ∀ x, IsOperand x e → tablesOf' x = tablesOf x) : Splits tablesOf' left right e := by
  induction h with
  | predicate hfirst hsecond =>
    rw [← hsame _ .first] at hfirst
    rw [← hsame _ .second] at hsecond
    exact .predicate hfirst hsecond
  | reversed hfirst hsecond =>
    rw [← hsame _ .first] at hfirst
    rw [← hsame _ .second] at hsecond
    exact .reversed hfirst hsecond
  | conjunction hne h ih =>
    exact .conjunction hne fun child hchild =>
      ih child hchild fun x hx => hsame x (.conjunct hchild hx)

theorem mem_referencedList {es : List Expression} {t : Nat} :
    t ∈ (Expression.bindingsList es).image ColumnBinding.tableIndex ↔
      ∃ e ∈ es, t ∈ e.referencedTables := by
  simp only [Finset.mem_image, Expression.mem_bindingsList, Expression.referencedTables]
  constructor
  · rintro ⟨b, ⟨e, he, hb⟩, ht⟩
    exact ⟨e, he, b, hb, ht⟩
  · rintro ⟨e, he, b, hb, ht⟩
    exact ⟨b, ⟨e, he, hb⟩, ht⟩

theorem mem_extractListMask {es : List Expression} {t : Nat} :
    t ∈ extractListMask es ↔ ∃ e ∈ es, t ∈ extractExpressionMask e := by
  induction es with
  | nil => simp [extractListMask]
  | cons e es ih => simp [extractListMask, ih]

/-- Where every column of the operands is seen, every column of the expression is. -/
theorem Splits.referencedTables_eq (h : Splits tablesOf left right e)
    (hseen : ∀ x, IsOperand x e → x.referencedTables = extractExpressionMask x) :
    e.referencedTables = extractExpressionMask e := by
  have hpair : ∀ {functionName : String} {opOid : Int} {first second : Expression},
      first.referencedTables = extractExpressionMask first →
      second.referencedTables = extractExpressionMask second →
      (Expression.function functionName opOid [first, second]).referencedTables =
        extractExpressionMask (.function functionName opOid [first, second]) := by
    intro functionName opOid first second hfirst hsecond
    ext t
    rw [extractExpressionMask, mem_extractListMask]
    refine mem_referencedList.trans ?_
    simp only [List.mem_cons, List.not_mem_nil, or_false, exists_eq_or_imp, exists_eq_left, hfirst,
      hsecond]
  induction h with
  | predicate hfirst hsecond => exact hpair (hseen _ .first) (hseen _ .second)
  | reversed hfirst hsecond => exact hpair (hseen _ .first) (hseen _ .second)
  | conjunction hne h ih =>
    ext t
    rw [extractExpressionMask, mem_extractListMask]
    refine mem_referencedList.trans (exists_congr fun child => and_congr_right fun hchild => ?_)
    rw [ih child hchild fun x hx => hseen x (.conjunct hchild hx)]

/-- An operand refers to tables of the expression. -/
theorem IsOperand.subset {x : Expression} (h : IsOperand x e) :
    x.referencedTables ⊆ e.referencedTables := by
  induction h with
  | first => exact fun t ht => mem_referencedList.2 ⟨x, List.mem_cons_self, ht⟩
  | second =>
    exact fun t ht => mem_referencedList.2 ⟨x, List.mem_cons_of_mem _ List.mem_cons_self, ht⟩
  | conjunct hchild h ih => exact fun t ht => mem_referencedList.2 ⟨_, hchild, ih ht⟩

/-- A table is found in a mask exactly where it is one of its tables. -/
def Finds (mask : UInt64) (relations : List (List Nat)) : Prop :=
  ∀ relation ∈ relations, ∀ t ∈ relation, hasTable mask t = true ↔ t ∈ tables mask

/-- **What is asked of the masks** of an expression, and of the relations they are compared with:
the expression is a conjunction of predicates over the two sides; the sides are disjoint, not
empty, and together the tables it refers to; the mask of every operand has its tables; and the
tables of the relations are found in the masks they are in. -/
structure SidesRight (e : Expression) (relations : List (List Nat)) (left right : UInt64) :
    Prop where
  splits : Splits Expression.referencedTables (tables left) (tables right) e
  sides : Sides e.referencedTables (tables left) (tables right)
  operands : ∀ x, IsOperand x e → tables (expressionMask x) = x.referencedTables
  findsLeft : Finds left relations
  findsRight : Finds right relations

/-- **The tables fit into a word**: those of the expression have indexes below 64, none of an
operand is referred to in subqueries only, and no larger one of a relation has the bit of a table
of the expression. -/
structure TablesFit (e : Expression) (relations : List (List Nat)) : Prop where
  below : ∀ t ∈ e.referencedTables, t < 64
  seen : ∀ x, IsOperand x e → ∀ t ∈ x.referencedTables, t ∈ extractExpressionMask x
  relations : ∀ relation ∈ relations, ∀ t ∈ relation, 64 ≤ t → t % 64 ∉ e.referencedTables

/-- **The masks of an expression are right** exactly when its tables fit into a word. -/
theorem joinSides_right_iff {left right : UInt64} {relations : List (List Nat)}
    (h : joinSides e = some (left, right)) :
    SidesRight e relations left right ↔ TablesFit e relations := by
  constructor
  · intro hright
    have hbelow : ∀ t ∈ e.referencedTables, t < 64 := by
      intro t ht
      rw [← hright.sides.union] at ht
      rcases Finset.mem_union.1 ht with hleft | hright
      · exact lt_of_mem_tables hleft
      · exact lt_of_mem_tables hright
    refine ⟨hbelow, fun x hx t ht => ?_, fun relation hrelation t ht hge hmem => ?_⟩
    · -- a table of the operand has a bit, which is that of a table outside subqueries
      have hmask := hright.operands x hx
      have hbit := ht
      rw [← hmask, tables_expressionMask] at hbit
      obtain ⟨s, hs, rfl⟩ := Finset.mem_image.1 hbit
      have hsx := extractExpressionMask_subset x hs
      rw [← hmask] at hsx
      rw [Nat.mod_eq_of_lt (lt_of_mem_tables hsx)]
      exact hs
    · rw [← hright.sides.union] at hmem
      rcases Finset.mem_union.1 hmem with hbit | hbit
      · have hfound := (hright.findsLeft relation hrelation t ht).1 (hasTable_iff.2 hbit)
        exact absurd (lt_of_mem_tables hfound) (Nat.not_lt.2 hge)
      · have hfound := (hright.findsRight relation hrelation t ht).1 (hasTable_iff.2 hbit)
        exact absurd (lt_of_mem_tables hfound) (Nat.not_lt.2 hge)
  · intro hfit
    have hseen : ∀ x, IsOperand x e → x.referencedTables = extractExpressionMask x :=
      fun x hx => Finset.Subset.antisymm (hfit.seen x hx) (extractExpressionMask_subset x)
    have hsets := joinSides_tables e fun t ht => hfit.below t (extractExpressionMask_subset e ht)
    rw [h, Option.map_some] at hsets
    obtain ⟨hsides, hsplits⟩ := tryExtractJoinSides_spec e hsets.symm
    have hall := hsplits.referencedTables_eq hseen
    rw [← hall] at hsides
    have hfinds : ∀ mask, tables mask ⊆ e.referencedTables → Finds mask relations := by
      intro mask hmask relation hrelation t ht
      rw [hasTable_iff]
      by_cases hlt : t < 64
      · rw [Nat.mod_eq_of_lt hlt]
      · have hmissing := hfit.relations relation hrelation t ht (Nat.le_of_not_lt hlt)
        exact ⟨fun hbit => absurd (hmask hbit) hmissing, fun hmem =>
          absurd (lt_of_mem_tables hmem) hlt⟩
    refine ⟨hsplits.congr hseen, hsides, fun x hx => ?_, hfinds left ?_, hfinds right ?_⟩
    · rw [tables_expressionMask, ← hseen x hx]
      exact image_mod_eq fun t ht => hfit.below t (hx.subset ht)
    · rw [← hsides.union]
      exact Finset.subset_union_left
    · rw [← hsides.union]
      exact Finset.subset_union_right

/-- The loop of `TableMaskToRelationMask`. -/
theorem mem_relationMask_loop {mask : UInt64} (relations : List (List Nat × Nat)) :
    ∀ (result : UInt64) (i : Nat),
      i ∈ tables (relations.foldl (fun result relation =>
        if relation.1.any (hasTable mask) then result ||| tableBit relation.2 else result) result) ↔
      i ∈ tables result ∨
        ∃ relation ∈ relations, relation.1.any (hasTable mask) = true ∧ relation.2 % 64 = i := by
  induction relations with
  | nil => simp
  | cons relation relations ih =>
    intro result i
    rw [List.foldl_cons, ih]
    by_cases hany : relation.1.any (hasTable mask) = true
    · rw [if_pos hany, tables_or, tables_tableBit, Finset.mem_union, Finset.mem_singleton, or_assoc]
      refine or_congr_right ?_
      simp only [List.mem_cons, exists_eq_or_imp, hany, true_and]
      rw [eq_comm]
    · rw [if_neg hany]
      simp only [List.mem_cons, exists_eq_or_imp, hany, Bool.false_eq_true, false_and, false_or]

/-- **The relation mask** of a mask whose tables are found, for as many relations as a word has
bits. -/
theorem tables_relationMask {mask : UInt64} {relations : List (List Nat)}
    (hlength : relations.length ≤ 64) (hfinds : Finds mask relations) :
    tables (relationMask mask relations) =
      tableMaskToRelationMask (tables mask) (relations.map List.toFinset) := by
  ext i
  rw [relationMask, mem_relationMask_loop, tables_eq_empty.2 rfl, tableMaskToRelationMask,
    Finset.mem_filter, Finset.mem_range, List.length_map, List.getD_eq_getElem?_getD,
    List.getElem?_map]
  constructor
  · rintro (hnone | ⟨⟨relation, idx⟩, hmem, hany, rfl⟩)
    · exact absurd hnone (Finset.notMem_empty i)
    · have hget := List.mem_zipIdx_iff_getElem?.1 hmem
      have hlt := (List.getElem?_eq_some_iff.1 hget).1
      dsimp only at hget hany ⊢
      rw [Nat.mod_eq_of_lt (by omega), hget]
      obtain ⟨t, ht, hfound⟩ := List.any_eq_true.1 hany
      refine ⟨hlt, t, Finset.mem_inter.2 ⟨List.mem_toFinset.2 ht, ?_⟩⟩
      exact (hfinds relation (List.mem_of_getElem? hget) t ht).1 hfound
  · rintro ⟨hlt, t, ht⟩
    rw [List.getElem?_eq_getElem hlt, Finset.mem_inter] at ht
    have htable := List.mem_toFinset.1 ht.1
    have hrelation := List.getElem_mem hlt
    refine Or.inr ⟨(relations[i], i), ?_, List.any_eq_true.2 ⟨t, htable, ?_⟩, Nat.mod_eq_of_lt ?_⟩
    · exact List.mem_zipIdx_iff_getElem?.2 (List.getElem?_eq_getElem hlt)
    · exact (hfinds _ hrelation t htable).2 ht.2
    · exact Nat.lt_of_lt_of_le hlt hlength

/-- `b.x = c.y`, for columns of the tables `first` and `second`. -/
def tablesEqual (first second : Nat) : Expression :=
  .function "=" 96 [.columnRef ⟨first, 0⟩, .columnRef ⟨second, 0⟩]

theorem joinSides_right_iff_two :
    ∃ left right, joinSides (tablesEqual 2 3) = some (left, right) ∧
      (SidesRight (tablesEqual 2 3) [[2], [3]] left right ↔
        TablesFit (tablesEqual 2 3) [[2], [3]]) :=
  ⟨4, 8, by decide, joinSides_right_iff (by decide)⟩

/-- **Table 64 takes the bit of table 0.** -/
theorem sixtyFour_taken_for_zero : joinSides (tablesEqual 64 1) = some (1, 2) ∧
    tables 1 = {0} ∧ 0 ∉ (tablesEqual 64 1).referencedTables ∧
    ¬ SidesRight (tablesEqual 64 1) [] 1 2 := by
  refine ⟨by decide, by decide, by decide, fun h => ?_⟩
  have hunion := h.sides.union
  revert hunion
  decide

end JoinSideMasks
end PgYaap
