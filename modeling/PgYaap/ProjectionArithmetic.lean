import PgYaap.ProjectionSteps
import PgYaap.Truncation

/-! # Projection arithmetic against SQL

The exact result of an operation is a rational. At the scale of the result it is the nearest
integer, and a quotient of integers has no decimals. The steps come to it, or raise an error,
on the operands that no wrapped product, no cut decimal and no missing alignment reaches
(`projection_exact`). -/
namespace PgYaap
namespace ProjectionArithmetic

open StoredNumeric ProjectionSteps WrappingAccumulators Truncation

/-! ## The results SQL asks for -/

inductive Fault
  | divisionByZero
  | outOfRange
  deriving DecidableEq, Repr

/-- An expression of an integer type; operations on integers are of one. -/
def integral : Expr → Bool
  | .slot _ _ integral => integral
  | .const _ _ integral => integral
  | .binary _ lhs rhs => integral lhs && integral rhs

/-- The number an integer stands for. -/
def number (e : Expr) (a : Int) : ℚ := a / 10 ^ e.scale

/-- An operation on numbers. -/
def exactResult (op : ArithOp) (x y : ℚ) : ℚ :=
  match op with
  | .add => x + y
  | .sub => x - y
  | .mul => x * y
  | .div => x / y

/-- The exact result at its scale. -/
def resultAtScale (op : ArithOp) (lhs rhs : Expr) (x y : ℚ) : Int :=
  let outScale := (Expr.binary op lhs rhs).scale
  if op = .div ∧ integral (.binary op lhs rhs) = true then
    truncate (exactResult op x y) * 10 ^ outScale.toNat
  else roundHalfAwayFromZero (exactResult op x y * 10 ^ outScale)

/-- What an operation goes through: the operands of a sum at the scale of the result, the
product of the integers, the quotient before it is rounded. -/
def intermediates (op : ArithOp) (lhs rhs : Expr) (a b : Int) : List ℚ :=
  let outScale := (Expr.binary op lhs rhs).scale
  match op with
  | .add | .sub => [number lhs a * 10 ^ outScale, number rhs b * 10 ^ outScale]
  | .mul => [a * b]
  | .div => [truncate (number lhs a / number rhs b * 10 ^ outScale)]

/-- The result of an operation, an error where it or something on the way to it is no
`int64`. -/
def sqlResult (op : ArithOp) (lhs rhs : Expr) (a b : Int) : Except Fault Int :=
  let result := resultAtScale op lhs rhs (number lhs a) (number rhs b)
  if op = .div ∧ b = 0 then .error .divisionByZero
  else if (∀ x ∈ intermediates op lhs rhs a b, FitsInt64 x) ∧ FitsInt64 result then .ok result
  else .error .outOfRange

/-- The result of an operation on operands that may be NULL. -/
def sqlResult? (op : ArithOp) (lhs rhs : Expr) :
    Option Int → Option Int → Except Fault (Option Int)
  | some a, some b => (sqlResult op lhs rhs a b).map some
  | _, _ => .ok none

/-- The value of an expression in SQL, as an integer at its scale. -/
def sqlValue : Expr → Slots → Except Fault (Option Int)
  | .slot k _ _, row => .ok ((row k).map Int64.toInt)
  | .const _ value _, _ => .ok (some value.toInt)
  | .binary op lhs rhs, row =>
    (sqlValue lhs row).bind fun a => (sqlValue rhs row).bind fun b => sqlResult? op lhs rhs a b

/-- The program of an expression raises an error or leaves its value at the scale it says. -/
def Exact (e : Expr) (row : Slots) : Prop :=
  ∀ s scale slot s' new, e.ReadsBelow s.nextInt64Slot → lower e s = some (scale, slot, s') →
    s'.steps = s.steps ++ new → ∀ row', execute new row = .ok row' →
      scale = e.scale ∧ sqlValue e row = .ok ((row' slot).map Int64.toInt)

/-! ## Where the steps come to them -/

/-- An operand of a sum at the scale of the result. -/
def aligned (op : ArithOp) (lhs rhs e : Expr) (a : Int) : Int :=
  a * 10 ^ ((Expr.binary op lhs rhs).scale - e.scale).toNat

/-- What is cut off a quotient does not count: no unit of its scale where it is an integer,
less than a half otherwise. -/
def CutsNothing (lhs rhs : Expr) (quotient : ℚ) : Prop :=
  let outScale := (Expr.binary .div lhs rhs).scale
  if integral (.binary .div lhs rhs) = true then
    |quotient - truncate quotient| * 10 ^ outScale < 1
  else |quotient * 10 ^ outScale - truncate (quotient * 10 ^ outScale)| < 1 / 2

/-- A sum or a difference of integers. -/
def intSum (op : ArithOp) (a b : Int) : Int := if op = .sub then a - b else a + b

/-- The operands an operation is right for. A sum: the aligned operands and the result are
`int64`, and behind a constant nothing has to be aligned. A product: it is an `int64`, and the
scales add up in eight bits. A quotient: the divisor is not zero, and the quotient is out of
range, so that an error is raised, or what is cut off does not count. -/
def OperandsFit (op : ArithOp) (lhs rhs : Expr) (a b : Int) : Prop :=
  let outScale := (Expr.binary op lhs rhs).scale
  match op with
  | .add | .sub =>
    let a' := aligned op lhs rhs lhs a
    let b' := aligned op lhs rhs rhs b
    (FitsInt64 a' ∧ FitsInt64 b') ∧ FitsInt64 (intSum op a' b') ∧
      (lhs.asConst.isSome = true → rhs.scale = outScale ∨ b = 0)
  | .mul => FitsInt64 (a * b) ∧ (outScale = lhs.scale + rhs.scale ∨ a * b = 0)
  | .div =>
    let quotient := number lhs a / number rhs b
    b ≠ 0 ∧ (¬FitsInt64 (truncate (quotient * 10 ^ outScale)) ∨ CutsNothing lhs rhs quotient)

/-- An operation whose operands fit, wherever they have values. -/
def Safe : Expr → Slots → Prop
  | .binary op lhs rhs, row => ∀ a b, sqlValue lhs row = .ok (some a) →
    sqlValue rhs row = .ok (some b) → OperandsFit op lhs rhs a b
  | _, _ => True

/-! ## One operation -/

/-- Where the steps raise no error, they come to the SQL result. -/
def Right (computed : Except String (Option Int64)) (sql : Except Fault (Option Int)) : Prop :=
  ∀ v, computed = .ok v → sql = .ok (v.map Int64.toInt)

theorem number_mul_zpow {e : Expr} {a outScale : Int} (h : e.scale ≤ outScale) :
    number e a * 10 ^ outScale = ((a * 10 ^ (outScale - e.scale).toNat : Int) : ℚ) := by
  have hnat : ((outScale - e.scale).toNat : Int) = outScale - e.scale := by omega
  rw [number, div_mul_eq_mul_div, mul_div_assoc, ← zpow_sub₀ (by norm_num), ← hnat, zpow_natCast]
  push_cast
  rfl

/-- The result where there is one number on the way to it. -/
theorem sqlResult_eq {op : ArithOp} {lhs rhs : Expr} {a b : Int} {x : ℚ}
    (hdiv : ¬(op = .div ∧ b = 0)) (hx : intermediates op lhs rhs a b = [x]) :
    sqlResult op lhs rhs a b =
      if FitsInt64 x ∧ FitsInt64 (resultAtScale op lhs rhs (number lhs a) (number rhs b)) then
        .ok (resultAtScale op lhs rhs (number lhs a) (number rhs b))
      else .error .outOfRange := by
  rw [sqlResult, if_neg hdiv, hx]
  simp only [List.forall_mem_singleton]

theorem sqlResult_eq_ok_iff {op : ArithOp} {lhs rhs : Expr} {a b c : Int} {x : ℚ}
    (hdiv : ¬(op = .div ∧ b = 0)) (hx : intermediates op lhs rhs a b = [x])
    (hfits : FitsInt64 x) (hc : FitsInt64 (c : ℚ)) :
    sqlResult op lhs rhs a b = .ok c ↔
      resultAtScale op lhs rhs (number lhs a) (number rhs b) = c := by
  rw [sqlResult_eq hdiv hx]
  constructor
  · intro h
    split_ifs at h
    exact Except.ok.inj h
  · intro h
    rw [h, if_pos ⟨hfits, hc⟩]

section Sum

variable {op : ArithOp} {lhs rhs : Expr}

theorem number_mul_zpow_sum (hop : op = .add ∨ op = .sub) {e : Expr} (he : e = lhs ∨ e = rhs)
    (a : Int) : number e a * 10 ^ (Expr.binary op lhs rhs).scale = aligned op lhs rhs e a := by
  apply number_mul_zpow
  rw [scale_sum hop]
  rcases he with rfl | rfl
  · exact le_max_left _ _
  · exact le_max_right _ _

theorem resultAtScale_sum (hop : op = .add ∨ op = .sub) (a b : Int) :
    resultAtScale op lhs rhs (number lhs a) (number rhs b) =
      intSum op (aligned op lhs rhs lhs a) (aligned op lhs rhs rhs b) := by
  have hexact : exactResult op (number lhs a) (number rhs b) * 10 ^ (Expr.binary op lhs rhs).scale =
      (intSum op (aligned op lhs rhs lhs a) (aligned op lhs rhs rhs b) : ℚ) := by
    have hl := @number_mul_zpow_sum op lhs rhs hop lhs (Or.inl rfl) a
    have hr := @number_mul_zpow_sum op lhs rhs hop rhs (Or.inr rfl) b
    rcases hop with rfl | rfl
    · show (_ + _) * _ = ((_ + _ : Int) : ℚ)
      rw [add_mul, hl, hr]
      push_cast
      rfl
    · show (_ - _) * _ = ((_ - _ : Int) : ℚ)
      rw [sub_mul, hl, hr]
      push_cast
      rfl
  have hdiv : op ≠ .div := by rcases hop with rfl | rfl <;> decide
  rw [resultAtScale, if_neg fun h => hdiv h.1, hexact, roundHalfAwayFromZero_intCast]

theorem sqlResult_sum (hop : op = .add ∨ op = .sub) (a b : Int) :
    sqlResult op lhs rhs a b =
      if (FitsInt64 (aligned op lhs rhs lhs a) ∧ FitsInt64 (aligned op lhs rhs rhs b)) ∧
        FitsInt64 (intSum op (aligned op lhs rhs lhs a) (aligned op lhs rhs rhs b)) then
        .ok (intSum op (aligned op lhs rhs lhs a) (aligned op lhs rhs rhs b))
      else .error .outOfRange := by
  have hdiv : op ≠ .div := by rcases hop with rfl | rfl <;> decide
  have hmem : intermediates op lhs rhs a b =
      [number lhs a * 10 ^ (Expr.binary op lhs rhs).scale,
        number rhs b * 10 ^ (Expr.binary op lhs rhs).scale] := by
    rcases hop with rfl | rfl <;> rfl
  rw [sqlResult, if_neg fun h => hdiv h.1, hmem, resultAtScale_sum hop,
    number_mul_zpow_sum hop (Or.inl rfl), number_mul_zpow_sum hop (Or.inr rfl)]
  simp only [List.forall_mem_cons, List.not_mem_nil, false_imp_iff, implies_true, and_true]

/-- The operand behind the operator: aligned, or as it is behind a constant. -/
theorem toInt_sumOf (hop : op = .add ∨ op = .sub) (a b : Int64) :
    (sumOf op a b).toInt = wrap 64 (intSum op a.toInt b.toInt) := by
  rcases hop with rfl | rfl
  · exact Int64.toInt_add a b
  · exact Int64.toInt_sub a b

theorem toInt_align {scale outScale : Int} (hle : outScale - scale ≤ 18) (a : Int64) :
    (align scale outScale a).toInt = wrap 64 (a.toInt * 10 ^ (outScale - scale).toNat) := by
  rw [align, Int64.toInt_mul, toInt_pow10 (by omega)]
  rfl

theorem intSum_modEq {a a' b b' : Int} (ha : a ≡ a' [ZMOD 2 ^ 64]) (hb : b ≡ b' [ZMOD 2 ^ 64]) :
    intSum op a b ≡ intSum op a' b' [ZMOD 2 ^ 64] := by
  rw [intSum, intSum]
  split_ifs
  · exact ha.sub hb
  · exact ha.add hb

/-- An operand that is not aligned makes no difference only where it is zero. -/
theorem modEq_mul_pow_iff {b : Int64} {k : Nat} :
    b.toInt * 10 ^ k ≡ b.toInt [ZMOD 2 ^ 64] ↔ k = 0 ∨ b.toInt = 0 := by
  constructor
  · intro h
    by_cases hk : k = 0
    · exact Or.inl hk
    · right
      have hdvd : (2 : Int) ^ 64 ∣ (10 ^ k - 1) * b.toInt := by
        have := h.symm.dvd
        rwa [show b.toInt * 10 ^ k - b.toInt = (10 ^ k - 1) * b.toInt by ring] at this
      have hcop : IsCoprime ((2 : Int) ^ 64) (10 ^ k - 1) := by
        apply IsCoprime.pow_left
        -- one less than an even number
        exact ⟨5 * 10 ^ (k - 1), -1, by
          obtain ⟨j, rfl⟩ : ∃ j, k = j + 1 := ⟨k - 1, by omega⟩
          rw [Nat.add_sub_cancel]
          ring⟩
      have hle := b.le_toInt
      have hlt := b.toInt_lt
      exact Int.eq_zero_of_abs_lt_dvd (hcop.dvd_of_dvd_mul_left hdvd) (by rw [abs_lt]; omega)
  · rintro (rfl | hb)
    · rw [pow_zero, mul_one]
    · rw [hb, zero_mul]

theorem intSum_modEq_left_iff (hop : op = .add ∨ op = .sub) {a b b' : Int} :
    intSum op a b ≡ intSum op a b' [ZMOD 2 ^ 64] ↔ b ≡ b' [ZMOD 2 ^ 64] := by
  constructor
  · intro h
    rcases hop with rfl | rfl
    · exact Int.ModEq.add_left_cancel' a h
    · have hneg := (Int.ModEq.refl a).sub h
      have hback : ∀ x : Int, a - intSum .sub a x = x := fun x => by
        show a - (a - x) = x
        ring
      rwa [hback, hback] at hneg
  · exact fun h => intSum_modEq rfl h

theorem right_some_iff {c : Int64} {sql : Except Fault Int} :
    Right (.ok (some c)) (sql.map some) ↔ sql = .ok c.toInt := by
  constructor
  · intro h
    have heq := h _ rfl
    cases sql with
    | error f => cases heq
    | ok x => exact congrArg Except.ok (Option.some.inj (Except.ok.inj heq))
  · rintro rfl v hv
    rw [← Except.ok.inj hv]
    rfl

theorem hasFactors_of_sum (hop : op = .add ∨ op = .sub) (h : (Expr.binary op lhs rhs).HasFactors) :
    max lhs.scale rhs.scale - lhs.scale ≤ 18 ∧
      (lhs.asConst = none → max lhs.scale rhs.scale - rhs.scale ≤ 18) := by
  rcases hop with rfl | rfl <;> exact h

/-- The second operand of a sum is right, up to what wraps, but for a constant before it. -/
theorem operand_modEq_iff (hop : op = .add ∨ op = .sub)
    (h : (Expr.binary op lhs rhs).HasFactors) (b : Int64) :
    aligned op lhs rhs rhs b.toInt ≡ (if lhs.asConst.isSome then b else
        align rhs.scale (max lhs.scale rhs.scale) b).toInt [ZMOD 2 ^ 64] ↔
      (lhs.asConst.isSome = true → rhs.scale = (Expr.binary op lhs rhs).scale ∨ b.toInt = 0) := by
  rw [aligned, scale_sum hop]
  cases hconst : lhs.asConst with
  | none =>
    rw [if_neg (by simp), toInt_align ((hasFactors_of_sum hop h).2 hconst)]
    exact iff_of_true (wrap_modEq 64 _).symm fun hsome => nomatch hsome
  | some c =>
    have hnat : (max lhs.scale rhs.scale - rhs.scale).toNat = 0 ↔
        rhs.scale = max lhs.scale rhs.scale := by omega
    rw [if_pos Option.isSome_some, modEq_mul_pow_iff, hnat]
    exact ⟨fun h _ => h, fun h => h rfl⟩

theorem right_sum_iff (hop : op = .add ∨ op = .sub) (h : (Expr.binary op lhs rhs).HasFactors)
    (a b : Int64) : Right (combine op lhs rhs a b) ((sqlResult op lhs rhs a.toInt b.toInt).map some) ↔
      OperandsFit op lhs rhs a.toInt b.toInt := by
  have hfit : OperandsFit op lhs rhs a.toInt b.toInt ↔
      (FitsInt64 (aligned op lhs rhs lhs a.toInt) ∧ FitsInt64 (aligned op lhs rhs rhs b.toInt)) ∧
        FitsInt64 (intSum op (aligned op lhs rhs lhs a.toInt) (aligned op lhs rhs rhs b.toInt)) ∧
        (lhs.asConst.isSome = true → rhs.scale = (Expr.binary op lhs rhs).scale ∨ b.toInt = 0) := by
    rcases hop with rfl | rfl <;> rfl
  have hfirst : (align lhs.scale (max lhs.scale rhs.scale) a).toInt ≡
      aligned op lhs rhs lhs a.toInt [ZMOD 2 ^ 64] := by
    rw [toInt_align (hasFactors_of_sum hop h).1, aligned, scale_sum hop]
    exact wrap_modEq 64 _
  rw [hfit, ← operand_modEq_iff hop h, combine_sum hop, right_some_iff, sqlResult_sum hop,
    toInt_sumOf hop, wrap_eq_wrap (intSum_modEq hfirst rfl), ← and_assoc]
  generalize aligned op lhs rhs lhs a.toInt = a'
  generalize aligned op lhs rhs rhs b.toInt = b'
  by_cases hfits : (FitsInt64 a' ∧ FitsInt64 b') ∧ FitsInt64 (intSum op a' b')
  · rw [if_pos hfits, and_iff_right hfits, ← intSum_modEq_left_iff hop, ← wrap_eq_wrap_iff,
      fitsInt64_iff.1 hfits.2, Except.ok.injEq]
  · rw [if_neg hfits]
    exact iff_of_false (fun h => nomatch h) fun h => hfits h.1

end Sum

section Product

variable {lhs rhs : Expr}

/-- A number other than zero keeps its integer only at its own scale. -/
theorem roundHalfAwayFromZero_mul_zpow_iff {k d : Int} :
    roundHalfAwayFromZero ((k : ℚ) * 10 ^ d) = k ↔ d = 0 ∨ k = 0 := by
  constructor
  · intro h
    by_contra hne
    rw [not_or] at hne
    have hround := abs_roundHalfAwayFromZero_sub_le ((k : ℚ) * 10 ^ d)
    have hone : (1 : ℚ) ≤ |(k : ℚ)| := by exact_mod_cast Int.one_le_abs hne.2
    have hsplit : |(k : ℚ) - k * 10 ^ d| = |(k : ℚ)| * |1 - (10 : ℚ) ^ d| := by
      rw [← abs_mul]
      congr 1
      ring
    rw [h, hsplit] at hround
    have hfar : (9 / 10 : ℚ) ≤ |1 - (10 : ℚ) ^ d| := by
      rcases lt_or_gt_of_ne hne.1 with hneg | hpos
      · have hle : (10 : ℚ) ^ d ≤ 10 ^ (-1 : Int) := zpow_le_zpow_right₀ (by norm_num) (by omega)
        have habs := le_abs_self (1 - (10 : ℚ) ^ d)
        norm_num at hle
        linarith
      · have hle : (10 : ℚ) ^ (1 : Int) ≤ 10 ^ d := zpow_le_zpow_right₀ (by norm_num) (by omega)
        have habs := neg_abs_le (1 - (10 : ℚ) ^ d)
        norm_num at hle
        linarith
    nlinarith
  · rintro (rfl | rfl)
    · rw [zpow_zero, mul_one, roundHalfAwayFromZero_intCast]
    · norm_num [roundHalfAwayFromZero]

theorem resultAtScale_mul (a b : Int) :
    resultAtScale .mul lhs rhs (number lhs a) (number rhs b) =
      roundHalfAwayFromZero (((a * b : Int) : ℚ) *
        10 ^ ((Expr.binary .mul lhs rhs).scale - (lhs.scale + rhs.scale))) := by
  rw [resultAtScale, if_neg (fun h => nomatch h.1), exactResult, number, number, div_mul_div_comm,
    ← zpow_add₀ (by norm_num), div_mul_eq_mul_div, mul_div_assoc, ← zpow_sub₀ (by norm_num)]
  push_cast
  rfl

theorem right_mul_iff (a b : Int64) :
    Right (combine .mul lhs rhs a b) ((sqlResult .mul lhs rhs a.toInt b.toInt).map some) ↔
      OperandsFit .mul lhs rhs a.toInt b.toInt := by
  have hmul : (a * b).toInt = wrap 64 (a.toInt * b.toInt) := Int64.toInt_mul a b
  have hround := @roundHalfAwayFromZero_mul_zpow_iff (a.toInt * b.toInt)
    ((Expr.binary .mul lhs rhs).scale - (lhs.scale + rhs.scale))
  rw [sub_eq_zero, ← resultAtScale_mul] at hround
  have hdiv : ¬(ArithOp.mul = .div ∧ b.toInt = 0) := fun h => by cases h.1
  have hcast : ((a.toInt : ℚ) * b.toInt) = ((a.toInt * b.toInt : Int) : ℚ) := by push_cast; rfl
  rw [combine, right_some_iff, hmul, OperandsFit, ← hround]
  by_cases hfits : FitsInt64 ((a.toInt : ℚ) * b.toInt)
  · have hfits' := hcast ▸ hfits
    rw [and_iff_right hfits, fitsInt64_iff.1 hfits',
      sqlResult_eq_ok_iff hdiv rfl hfits hfits']
  · rw [sqlResult_eq hdiv rfl, if_neg fun h => hfits h.1]
    exact iff_of_false (fun h => by cases h) fun h => hfits h.1

end Product

section Quotient

variable {lhs rhs : Expr}

/-- The quotient of the steps, in 128 bits, is the exact one without its decimals. -/
theorem wide_tdiv_eq (h : (Expr.binary .div lhs rhs).HasFactors) (a b : Int64) :
    (wide (a.toInt * (Int64.ofInt (10 ^ ((Expr.binary .div lhs rhs).scale + rhs.scale -
        lhs.scale).toNat)).toInt)).tdiv b.toInt =
      truncate (number lhs a.toInt / number rhs b.toInt * 10 ^ (Expr.binary .div lhs rhs).scale) := by
  obtain ⟨hnonneg, hexp⟩ : 0 ≤ (Expr.binary .div lhs rhs).scale + rhs.scale - lhs.scale ∧
      (Expr.binary .div lhs rhs).scale + rhs.scale - lhs.scale ≤ 18 := h
  generalize (Expr.binary .div lhs rhs).scale = outScale at hnonneg hexp ⊢
  obtain ⟨k, hk⟩ := Int.eq_ofNat_of_zero_le hnonneg
  have hk18 : k ≤ 18 := by omega
  rw [hk, Int.toNat_natCast, toInt_pow10 hk18]
  have hpow : (10 : Int) ^ k ≤ 10 ^ 18 := pow_le_pow_right₀ (by norm_num) hk18
  have hpos : (0 : Int) < 10 ^ k := by positivity
  have hle := a.le_toInt
  have hlt := a.toInt_lt
  rw [wide_eq (by nlinarith) (by nlinarith), ← truncate_div]
  congr 1
  have hscale : outScale = k + lhs.scale - rhs.scale := by omega
  have hten : ∀ e : Int, (10 : ℚ) ^ e ≠ 0 := fun e => zpow_ne_zero e (by norm_num)
  rw [number, number, hscale, zpow_sub₀ (by norm_num), zpow_add₀ (by norm_num), zpow_natCast]
  push_cast
  have hl := hten lhs.scale
  have hr := hten rhs.scale
  by_cases hb : (b.toInt : ℚ) = 0
  · rw [hb]
    simp
  · field_simp

/-- Where the quotient without its decimals is the result. -/
theorem resultAtScale_div_iff (a b : Int) :
    resultAtScale .div lhs rhs (number lhs a) (number rhs b) =
      truncate (number lhs a / number rhs b * 10 ^ (Expr.binary .div lhs rhs).scale) ↔
        CutsNothing lhs rhs (number lhs a / number rhs b) := by
  rw [resultAtScale, CutsNothing]
  by_cases hint : integral (.binary .div lhs rhs) = true
  · rw [if_pos ⟨rfl, hint⟩, if_pos hint]
    have hnonneg : 0 ≤ (Expr.binary .div lhs rhs).scale := by
      show 0 ≤ divisionScale _ _ _
      rw [divisionScale]
      split_ifs <;> omega
    obtain ⟨k, hk⟩ := Int.eq_ofNat_of_zero_le hnonneg
    have hpow : (10 : ℚ) ^ (k : Int) = ((10 ^ k : Int) : ℚ) := by
      rw [zpow_natCast]
      push_cast
      rfl
    rw [hk, Int.toNat_natCast, hpow]
    exact truncate_mul_eq_iff (by positivity)
  · rw [if_neg fun h => hint h.2, if_neg hint]
    exact roundHalfAwayFromZero_eq_truncate_iff

theorem right_div_iff (h : (Expr.binary .div lhs rhs).HasFactors) (a b : Int64) :
    Right (combine .div lhs rhs a b) ((sqlResult .div lhs rhs a.toInt b.toInt).map some) ↔
      OperandsFit .div lhs rhs a.toInt b.toInt := by
  rw [combine, divide, wide_tdiv_eq h, OperandsFit]
  by_cases hzero : b.toInt = 0
  · rw [if_pos hzero, sqlResult, if_pos ⟨rfl, hzero⟩]
    exact iff_of_false (fun h => by cases h none rfl) fun h => h.1 hzero
  · have hdiv : ¬(ArithOp.div = .div ∧ b.toInt = 0) := fun h => hzero h.2
    rw [if_neg hzero, and_iff_right hzero, ← resultAtScale_div_iff]
    by_cases hfits : FitsInt64 ((truncate (number lhs a.toInt / number rhs b.toInt *
        10 ^ (Expr.binary .div lhs rhs).scale) : Int) : ℚ)
    · have htoInt := Int64.toInt_ofInt.trans (fitsInt64_iff.1 hfits)
      rw [if_pos hfits, right_some_iff, htoInt, sqlResult_eq_ok_iff hdiv rfl hfits hfits]
      exact ⟨Or.inr, fun h => h.resolve_left (not_not_intro hfits)⟩
    · rw [if_neg hfits]
      exact iff_of_true (fun v hv => by cases hv) (Or.inl hfits)

/-- An error of the steps is one in SQL. -/
theorem sqlResult_of_error {op : ArithOp} (h : (Expr.binary op lhs rhs).HasFactors) {a b : Int64}
    {m : String} (herror : combine op lhs rhs a b = .error m) :
    ∃ f, sqlResult op lhs rhs a.toInt b.toInt = .error f := by
  cases op with
  | add => cases herror
  | sub => cases herror
  | mul => cases herror
  | div =>
    rw [combine, divide, wide_tdiv_eq h] at herror
    by_cases hzero : b.toInt = 0
    · rw [if_pos hzero] at herror
      cases herror
    · rw [if_neg hzero] at herror
      refine ⟨.outOfRange, ?_⟩
      rw [sqlResult_eq (fun h => hzero h.2) rfl, if_neg]
      rintro ⟨hfits, -⟩
      rw [if_pos hfits] at herror
      cases herror

end Quotient

/-! ## Programs -/

/-- One operation, given its operands. -/
theorem right_combine_iff {op : ArithOp} {lhs rhs : Expr}
    (h : (Expr.binary op lhs rhs).HasFactors) (a b : Int64) :
    Right (combine op lhs rhs a b) ((sqlResult op lhs rhs a.toInt b.toInt).map some) ↔
      OperandsFit op lhs rhs a.toInt b.toInt := by
  cases op with
  | add => exact right_sum_iff (Or.inl rfl) h a b
  | sub => exact right_sum_iff (Or.inr rfl) h a b
  | mul => exact right_mul_iff a b
  | div => exact right_div_iff h a b

/-- What is asked of the operands: no error goes unnoticed either. -/
structure Agrees (e : Expr) (row : Slots) : Prop where
  right : Right (e.eval row) (sqlValue e row)
  error : ∀ m, e.eval row = .error m → ∃ f, sqlValue e row = .error f

theorem right_binary_iff {op : ArithOp} {lhs rhs : Expr} {row : Slots}
    (h : (Expr.binary op lhs rhs).HasFactors) (hl : Agrees lhs row) (hr : Agrees rhs row) :
    Right ((Expr.binary op lhs rhs).eval row) (sqlValue (.binary op lhs rhs) row) ↔
      Safe (.binary op lhs rhs) row := by
  rw [Expr.eval, sqlValue, Safe]
  cases hleval : lhs.eval row with
  | error m =>
    obtain ⟨f, hf⟩ := hl.error m hleval
    rw [hf]
    exact iff_of_true (fun v hv => by cases hv) fun a b ha => by cases ha
  | ok a =>
    rw [hl.right a hleval]
    cases hreval : rhs.eval row with
    | error m =>
      obtain ⟨f, hf⟩ := hr.error m hreval
      rw [hf]
      exact iff_of_true (fun v hv => by cases hv) fun a b _ hb => by cases hb
    | ok b =>
      rw [hr.right b hreval]
      cases a with
      | none =>
        refine iff_of_true (fun v hv => ?_) fun a b ha => by cases ha
        rw [← Except.ok.inj hv]
        rfl
      | some a =>
        cases b with
        | none =>
          refine iff_of_true (fun v hv => ?_) fun a b _ hb => by cases hb
          rw [← Except.ok.inj hv]
          rfl
        | some b =>
          show Right (combine op lhs rhs a b) ((sqlResult op lhs rhs a.toInt b.toInt).map some) ↔ _
          rw [right_combine_iff h]
          constructor
          · intro hfit a' b' ha' hb'
            rw [← Option.some.inj (Except.ok.inj ha'), ← Option.some.inj (Except.ok.inj hb')]
            exact hfit
          · exact fun hsafe => hsafe _ _ rfl rfl

theorem error_binary {op : ArithOp} {lhs rhs : Expr} {row : Slots}
    (h : (Expr.binary op lhs rhs).HasFactors) (hl : Agrees lhs row) (hr : Agrees rhs row)
    {m : String} (herror : (Expr.binary op lhs rhs).eval row = .error m) :
    ∃ f, sqlValue (.binary op lhs rhs) row = .error f := by
  rw [Expr.eval] at herror
  rw [sqlValue]
  cases hleval : lhs.eval row with
  | error m =>
    obtain ⟨f, hf⟩ := hl.error m hleval
    exact ⟨f, by rw [hf]; rfl⟩
  | ok a =>
    rw [hleval] at herror
    rw [hl.right a hleval]
    cases hreval : rhs.eval row with
    | error m =>
      obtain ⟨f, hf⟩ := hr.error m hreval
      exact ⟨f, by rw [hf]; rfl⟩
    | ok b =>
      rw [hreval] at herror
      rw [hr.right b hreval]
      cases a with
      | none => cases herror
      | some a =>
        cases b with
        | none => cases herror
        | some b =>
          obtain ⟨f, hf⟩ := sqlResult_of_error h herror
          refine ⟨f, ?_⟩
          show (sqlResult op lhs rhs a.toInt b.toInt).map some = .error f
          rw [hf]
          rfl

/-- An expression whose operations are right agrees with SQL. -/
theorem agrees_of_right {e : Expr} {row : Slots} (hfactors : ∀ n ∈ e.arithmetic, n.HasFactors)
    (h : ∀ n ∈ e.arithmetic, Right (n.eval row) (sqlValue n row)) : Agrees e row := by
  induction e with
  | slot k scale integral =>
    exact ⟨fun v hv => by rw [← Except.ok.inj hv]; rfl, fun m hm => nomatch hm⟩
  | const scale value integral =>
    exact ⟨fun v hv => by rw [← Except.ok.inj hv]; rfl, fun m hm => nomatch hm⟩
  | binary op lhs rhs ihl ihr =>
    have hmem : ∀ n, n ∈ lhs.arithmetic ∨ n ∈ rhs.arithmetic →
        n ∈ (Expr.binary op lhs rhs).arithmetic := fun n hn =>
      List.mem_cons_of_mem _ (List.mem_append.2 hn)
    have hl := ihl (fun n hn => hfactors n (hmem n (Or.inl hn))) fun n hn => h n (hmem n (Or.inl hn))
    have hr := ihr (fun n hn => hfactors n (hmem n (Or.inr hn))) fun n hn => h n (hmem n (Or.inr hn))
    exact ⟨h _ List.mem_cons_self, fun m => error_binary (hfactors _ List.mem_cons_self) hl hr⟩

/-- All operations of an expression are right where their operands fit, and only there. -/
theorem right_iff_safe {e : Expr} {row : Slots} (hfactors : ∀ n ∈ e.arithmetic, n.HasFactors) :
    (∀ n ∈ e.arithmetic, Right (n.eval row) (sqlValue n row)) ↔ ∀ n ∈ e.arithmetic, Safe n row := by
  induction e with
  | slot k scale integral => exact iff_of_true (fun n hn => nomatch hn) fun n hn => nomatch hn
  | const scale value integral => exact iff_of_true (fun n hn => nomatch hn) fun n hn => nomatch hn
  | binary op lhs rhs ihl ihr =>
    have hfl : ∀ n ∈ lhs.arithmetic, n.HasFactors := fun n hn =>
      hfactors n (List.mem_cons_of_mem _ (List.mem_append_left _ hn))
    have hfr : ∀ n ∈ rhs.arithmetic, n.HasFactors := fun n hn =>
      hfactors n (List.mem_cons_of_mem _ (List.mem_append_right _ hn))
    rw [Expr.arithmetic, List.forall_mem_cons, List.forall_mem_cons, List.forall_mem_append,
      List.forall_mem_append, ← ihl hfl, ← ihr hfr]
    refine and_congr_left fun hright => ?_
    exact right_binary_iff (hfactors _ List.mem_cons_self) (agrees_of_right hfl hright.1)
      (agrees_of_right hfr hright.2)

theorem hasFactors_of_lowerable {e : Expr} (h : e.Lowerable) : e.HasFactors := by
  obtain ⟨s, ⟨scale, slot, s'⟩, hbelow, hlower⟩ := h
  exact (lowered_of_lower hlower hbelow).hasFactors

/-- The steps of an expression are right where its value is. -/
theorem exact_iff_right {e : Expr} {row : Slots} (h : e.Lowerable) :
    Exact e row ↔ Right (e.eval row) (sqlValue e row) := by
  constructor
  · intro hexact v hv
    obtain ⟨s, ⟨scale, slot, s'⟩, hbelow, hlower⟩ := h
    obtain ⟨new, hnew, hrun⟩ := execute_lower hlower hbelow
    have hvalue := hrun row
    rw [hv] at hvalue
    cases hexec : execute new row with
    | error m =>
      rw [hexec] at hvalue
      cases hvalue
    | ok row' =>
      rw [hexec] at hvalue
      rw [(hexact s scale slot s' new hbelow hlower hnew row' hexec).2]
      exact congrArg (fun v => Except.ok (Option.map Int64.toInt v)) (Except.ok.inj hvalue)
  · intro hright s scale slot s' new hbelow hlower hnew row' hexec
    refine ⟨(lowered_of_lower hlower hbelow).scale_eq, hright _ ?_⟩
    obtain ⟨new', hnew', hrun⟩ := execute_lower hlower hbelow
    obtain rfl : new = new' := List.append_cancel_left (hnew.symm.trans hnew')
    rw [← hrun row, hexec]
    rfl

/-- **Projection arithmetic is exact where the operands fit**: on a row, all operations of a
program come to the SQL results at their scales or raise an error, if and only if the operands
of each are in its range. -/
theorem projection_exact {e : Expr} (h : e.Lowerable) (row : Slots) :
    (∀ n ∈ e.arithmetic, Exact n row) ↔ ∀ n ∈ e.arithmetic, Safe n row := by
  rw [← right_iff_safe fun n hn => hasFactors_of_lowerable (h.of_mem hn)]
  exact forall₂_congr fun n hn => exact_iff_right (h.of_mem hn)

/-- Twelve and a quarter, and two. -/
def smallRow : Slots := fun k => if k = 0 then some 1225 else some 2

/-- Price plus quantity. -/
def priceAndQuantity : Expr := .binary .add (.slot 0 2 false) (.slot 1 0 true)

theorem projection_exact_sum : Exact priceAndQuantity smallRow := by
  have hlower : priceAndQuantity.Lowerable :=
    ⟨⟨[], 2⟩, _, ⟨Nat.zero_lt_two, Nat.one_lt_two⟩, rfl⟩
  refine (projection_exact hlower smallRow).2 (fun n hn => ?_) _ List.mem_cons_self
  obtain rfl := List.mem_singleton.1 hn
  intro a b ha hb
  obtain rfl : (1225 : Int) = a := Option.some.inj (Except.ok.inj ha)
  obtain rfl : (2 : Int) = b := Option.some.inj (Except.ok.inj hb)
  exact ⟨⟨fitsInt64_iff.2 (by decide), fitsInt64_iff.2 (by decide)⟩, fitsInt64_iff.2 (by decide),
    fun h => nomatch h⟩

/-- A column times four. -/
def fourfold : Expr := .binary .mul (.slot 0 0 true) (.const 0 4 true)

/-- Four times `2 ^ 62` wraps around to zero. -/
theorem not_projection_exact :
    ¬∀ e : Expr, e.Lowerable → ∀ row, ∀ n ∈ e.arithmetic, Exact n row := by
  intro h
  have hbelow : fourfold.ReadsBelow 1 := ⟨Nat.one_pos, trivial⟩
  have hexact := h fourfold ⟨⟨[], 1⟩, _, hbelow, rfl⟩ (fun _ => some 4611686018427387904) fourfold
    List.mem_cons_self
  have hvalue := (hexact ⟨[], 1⟩ 0 1 _ _ hbelow rfl rfl _ rfl).2
  have hdiv : ¬(ArithOp.mul = .div ∧ (4 : Int) = 0) := fun h => nomatch h.1
  have herror : sqlValue fourfold (fun _ => some 4611686018427387904) = .error .outOfRange := by
    have hoperand : (4611686018427387904 : Int64).toInt = 4611686018427387904 := by decide
    show (sqlResult .mul (.slot 0 0 true) (.const 0 4 true) (4611686018427387904 : Int64).toInt
      4).map some = _
    rw [hoperand, sqlResult_eq hdiv rfl, if_neg]
    · rfl
    · norm_num [FitsInt64]
  rw [herror] at hvalue
  cases hvalue

end ProjectionArithmetic
end PgYaap
