import Mathlib.Algebra.Order.Group.Unbundled.Int
import Mathlib.Data.Int.ModEq
import SplatLang.Exec
import SplatLang.Proofs.Operator

/-!
# Arithmetic in 32 bits

Operators on integers are explained by the whole numbers that their operands stand for. A result is
brought back into the range of 32 bits by a multiple of 2 ^ 32. Of all quotients only that of the
least integer by minus one leaves the range, so the law of division with remainder holds with
products and sums that wrap around.
-/

namespace SplatLang

/-- The integer of 32 bits that a whole number comes to. -/
structure Wraps (x : Int) (n : Int32) : Prop where
  congruent : n.toInt ≡ x [ZMOD 2 ^ 32]
  least : -2 ^ 31 ≤ n.toInt
  most : n.toInt < 2 ^ 31

namespace Wraps

variable {x y : Int} {m n : Int32}

theorem of_congruent (h : n.toInt ≡ x [ZMOD 2 ^ 32]) : Wraps x n := ⟨h, n.le_toInt, n.toInt_lt⟩

theorem of_bmod (h : n.toInt = x.bmod (2 ^ 32)) : Wraps x n := by
  refine of_congruent ?_
  rw [h]
  exact Int.bmod_emod

/-- There is only one such integer. -/
theorem unique (hm : Wraps x m) (hn : Wraps x n) : m = n := by
  have hmod : m.toInt ≡ n.toInt [ZMOD 2 ^ 32] := hm.congruent.trans hn.congruent.symm
  have hm₁ := hm.least
  have hm₂ := hm.most
  have hn₁ := hn.least
  have hn₂ := hn.most
  unfold Int.ModEq at hmod
  exact Int32.toInt_inj.mp (by omega)

end Wraps

namespace Run

variable {tok : Token} {l r : Int32}

def Gives (tok : Token) (op : String) (l r : Int32) (v : Value) : Prop :=
  ∀ m, binary tok op (.integer l) (.integer r) m = (.done v, m)

-- ---------------------------------------------------------------------------
-- Results
-- ---------------------------------------------------------------------------

theorem binary_arithmetic (tok : Token) (op : Arithmetic) (l r : Int32) :
    binary tok (BinaryOp.arithmetic op).text (.integer l) (.integer r) = arithmetic tok op l r := by
  simp [binary_eq]

theorem comparison_gives (op : Comparison) {b : Bool} (h : compare op l r = b) :
    Gives tok (BinaryOp.comparison op).text l r (.boolean b) := by
  intro m
  subst h
  simp only [binary_eq, BinaryOp.ofText?_text]
  rfl

theorem sum_gives (tok : Token) (l r : Int32) : Gives tok "+" l r (.integer (l + r)) :=
  congrFun (binary_arithmetic tok .add l r)

theorem product_gives (tok : Token) (l r : Int32) : Gives tok "*" l r (.integer (l * r)) :=
  congrFun (binary_arithmetic tok .mul l r)

theorem quotient_gives (h : r ≠ 0) : Gives tok "/" l r (.integer (l / r)) := by
  intro m
  rw [show "/" = (BinaryOp.arithmetic .div).text from rfl, binary_arithmetic, arithmetic, if_neg h]
  rfl

theorem remainder_gives (h : r ≠ 0) : Gives tok "%" l r (.integer (l % r)) := by
  intro m
  rw [show "%" = (BinaryOp.arithmetic .mod).text from rfl, binary_arithmetic, arithmetic, if_neg h]
  rfl

theorem equality_gives (tok : Token) (l r : Int32) :
    Gives tok "==" l r (.boolean (l.toInt = r.toInt)) := by
  intro m
  have heq : decide (Value.integer l = .integer r) = decide (l.toInt = r.toInt) := by
    simp [Int32.toInt_inj]
  rw [← heq]
  rfl

/-- Quotient and remainder give back the dividend, with a product and a sum that wrap around. -/
theorem quotient_mul_add_remainder (l r : Int32) : l / r * r + l % r = l := by
  have hquotient : (l / r).toInt ≡ l.toInt.tdiv r.toInt [ZMOD 2 ^ 32] :=
    (Wraps.of_bmod (l.toInt_div r)).congruent
  have hproduct : (l / r * r).toInt ≡ (l / r).toInt * r.toInt [ZMOD 2 ^ 32] :=
    (Wraps.of_bmod (Int32.toInt_mul _ _)).congruent
  have hsum : (l / r * r + l % r).toInt ≡ l.toInt [ZMOD 2 ^ 32] :=
    calc (l / r * r + l % r).toInt
      _ ≡ (l / r * r).toInt + (l % r).toInt [ZMOD 2 ^ 32] :=
        (Wraps.of_bmod (Int32.toInt_add _ _)).congruent
      _ ≡ l.toInt.tdiv r.toInt * r.toInt + l.toInt.tmod r.toInt [ZMOD 2 ^ 32] := by
        rw [Int32.toInt_mod]
        exact (hproduct.trans (hquotient.mul_right _)).add_right _
      _ = l.toInt := Int.tdiv_mul_add_tmod _ _
  exact (Wraps.of_congruent hsum).unique (.of_congruent rfl)

theorem toInt_ne_zero (h : r ≠ 0) : r.toInt ≠ 0 := by
  intro hzero
  exact h (Int32.toInt_inj.mp hzero)

theorem abs_remainder_lt (h : r ≠ 0) : |(l % r).toInt| < |r.toInt| := by
  have hpos := Int.natAbs_pos.mpr (toInt_ne_zero h)
  rw [Int32.toInt_mod, Int.abs_eq_natAbs, Int.abs_eq_natAbs, Int.natAbs_tmod]
  exact Int.ofNat_lt.mpr (Nat.mod_lt _ hpos)

-- ---------------------------------------------------------------------------
-- Every pair of operands
-- ---------------------------------------------------------------------------

/-- A computation ends at once, with a value or with a fault at a token, and nothing else
happens. -/
def Answers (tok : Token) (x : Exec Value) : Prop :=
  ∀ m, (∃ v, x m = (.done v, m)) ∨ ∃ cause, x m = (.fault ⟨cause, tok.location⟩, m)

theorem Answers.pure (v : Value) : Answers tok (Pure.pure v) := fun _ => .inl ⟨v, rfl⟩

theorem Answers.fail (cause : RunCause) : Answers tok (Exec.fail cause tok) :=
  fun _ => .inr ⟨cause, rfl⟩

theorem Answers.ite {c : Prop} [Decidable c] {x y : Exec Value} (hx : Answers tok x)
    (hy : Answers tok y) : Answers tok (if c then x else y) := by
  split
  · exact hx
  · exact hy

theorem arithmetic_answers (tok : Token) (op : Arithmetic) (l r : Int32) :
    Answers tok (arithmetic tok op l r) := by
  cases op with
  | add => exact .pure _
  | sub => exact .pure _
  | mul => exact .pure _
  | div => exact .ite (.fail _) (.pure _)
  | mod => exact .ite (.fail _) (.pure _)

/-- Every operator text answers on every two values. -/
theorem binary_answers (tok : Token) (op : String) (left right : Value) :
    Answers tok (binary tok op left right) := by
  rw [binary_eq]
  cases BinaryOp.ofText? op with
  | none => exact .fail _
  | some op =>
    cases op with
    | arithmetic op =>
      dsimp only
      split
      · exact arithmetic_answers tok op _ _
      · exact .fail _
    | comparison op =>
      dsimp only
      split
      · exact .pure _
      · exact .fail _
    | connective op =>
      dsimp only
      split
      · exact .pure _
      · exact .fail _
    | equality => exact .ite (.pure _) (.fail _)

/-- Integers are computed exactly, in two's complement of 32 bits. Sums, differences, products and
negations are those of whole numbers, reduced modulo 2 ^ 32. For a divisor other than zero the
quotient is cut towards zero and reduced alike, the remainder is exact and has the sign of the
dividend, and the law that ties them together holds with products and sums as the program computes
them. Only a divisor of zero is a fault. Comparisons are those of whole numbers. A text that is no
operator of integers is never taken for one, so no text and no two values are left without an
answer. -/
theorem integer_arithmetic_exact (tok : Token) (l r : Int32) :
    (∃ n, Wraps (l.toInt + r.toInt) n ∧ Gives tok "+" l r (.integer n)) ∧
    (∃ n, Wraps (l.toInt - r.toInt) n ∧ Gives tok "-" l r (.integer n)) ∧
    (∃ n, Wraps (l.toInt * r.toInt) n ∧ Gives tok "*" l r (.integer n)) ∧
    (∃ n, Wraps (-l.toInt) n ∧ ∀ m, unary tok "-" (.integer l) m = (.done (.integer n), m)) ∧
    (r ≠ 0 → ∃ q p x, Wraps (l.toInt.tdiv r.toInt) q ∧ Gives tok "/" l r (.integer q) ∧
      p.toInt = l.toInt.tmod r.toInt ∧ Gives tok "%" l r (.integer p) ∧
      |p.toInt| < |r.toInt| ∧ (0 ≤ l.toInt → 0 ≤ p.toInt) ∧ (l.toInt ≤ 0 → p.toInt ≤ 0) ∧
      Gives tok "*" q r (.integer x) ∧ Gives tok "+" x p (.integer l)) ∧
    (r = 0 → ∀ m,
      binary tok "/" (.integer l) (.integer r) m = (.fault ⟨.divisionByZero, tok.location⟩, m) ∧
      binary tok "%" (.integer l) (.integer r) m = (.fault ⟨.moduloByZero, tok.location⟩, m)) ∧
    Gives tok ">" l r (.boolean (l.toInt > r.toInt)) ∧
    Gives tok "<" l r (.boolean (l.toInt < r.toInt)) ∧
    Gives tok ">=" l r (.boolean (l.toInt ≥ r.toInt)) ∧
    Gives tok "<=" l r (.boolean (l.toInt ≤ r.toInt)) ∧
    Gives tok "==" l r (.boolean (l.toInt = r.toInt)) ∧
    (∀ op, integerOp? tok op l r = none ↔
      op ∉ ["+", "-", "*", "/", "%", ">", "<", ">=", "<="]) ∧
    ∀ op left right, binary? tok op left right = some (binary tok op left right) ∧
      Answers tok (binary tok op left right) := by
  refine ⟨⟨_, .of_bmod (l.toInt_add r), sum_gives tok l r⟩,
    ⟨_, .of_bmod (l.toInt_sub r), congrFun (binary_arithmetic tok .sub l r)⟩,
    ⟨_, .of_bmod (l.toInt_mul r), product_gives tok l r⟩,
    ⟨_, .of_bmod l.toInt_neg, fun m => rfl⟩, fun h => ?_, ?_,
    comparison_gives .greater (decide_eq_decide.mpr Int32.lt_iff_toInt_lt),
    comparison_gives .less (decide_eq_decide.mpr Int32.lt_iff_toInt_lt),
    comparison_gives .greaterEqual (decide_eq_decide.mpr Int32.le_iff_toInt_le),
    comparison_gives .lessEqual (decide_eq_decide.mpr Int32.le_iff_toInt_le),
    equality_gives tok l r, fun op => integerOp?_eq_none_iff tok op l r,
    fun op left right => ⟨(Option.some_get _).symm, binary_answers tok op left right⟩⟩
  · refine ⟨l / r, l % r, l / r * r, .of_bmod (l.toInt_div r), quotient_gives h, l.toInt_mod r,
      remainder_gives h, abs_remainder_lt h, ?_, ?_, product_gives tok _ r, ?_⟩
    · rw [Int32.toInt_mod]
      exact Int.tmod_nonneg _
    · intro hl
      have hneg := Int.tmod_nonneg r.toInt (Int.neg_nonneg_of_nonpos hl)
      rw [Int.neg_tmod] at hneg
      rw [Int32.toInt_mod]
      exact Int.nonpos_of_neg_nonneg hneg
    · have hsum := sum_gives tok (l / r * r) (l % r)
      rwa [quotient_mul_add_remainder] at hsum
  · rintro rfl m
    exact ⟨congrFun (binary_arithmetic tok .div l 0) m, congrFun (binary_arithmetic tok .mod l 0) m⟩

/-- The one quotient that leaves the range comes back as the dividend, without a remainder. -/
theorem integer_arithmetic_exact_leastQuotient :
    (-1 : Int32) ≠ 0 ∧ Gives default "/" Int32.minValue (-1) (.integer Int32.minValue) ∧
      Gives default "%" Int32.minValue (-1) (.integer 0) := by
  have hne : (-1 : Int32) ≠ 0 := by decide
  obtain ⟨-, -, -, -, hdivide, -⟩ := integer_arithmetic_exact default Int32.minValue (-1)
  obtain ⟨q, p, -, hq, hquotient, hp, hremainder, -⟩ := hdivide hne
  have hleast : q = Int32.minValue := hq.unique (.of_bmod (by decide))
  have hzero : p = 0 := Int32.toInt_inj.mp hp
  exact ⟨hne, hleast ▸ hquotient, hzero ▸ hremainder⟩

end Run

end SplatLang
