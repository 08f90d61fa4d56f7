import SplatLang.Exec

/-!
# Spellings of operators

Every operator has one spelling, and reading a text gives the operator that is spelled so. The
sign `-` alone spells an operator of two operands and one of a single operand. What a text does to
two values is said by the operator that it spells.
-/

namespace SplatLang

def BinaryOp.text : BinaryOp → String
  | .arithmetic .add => "+"
  | .arithmetic .sub => "-"
  | .arithmetic .mul => "*"
  | .arithmetic .div => "/"
  | .arithmetic .mod => "%"
  | .comparison .greater => ">"
  | .comparison .less => "<"
  | .comparison .greaterEqual => ">="
  | .comparison .lessEqual => "<="
  | .connective .and => "and"
  | .connective .or => "or"
  | .equality => "=="

def UnaryOp.text : UnaryOp → String
  | .not => "not"
  | .negate => "-"

@[simp] theorem BinaryOp.ofText?_text (op : BinaryOp) : BinaryOp.ofText? op.text = some op := by
  rcases op with ⟨op⟩ | ⟨op⟩ | ⟨op⟩ | _
  · cases op <;> rfl
  · cases op <;> rfl
  · cases op <;> rfl
  · rfl

theorem BinaryOp.ofText?_eq_some_iff {s : String} {op : BinaryOp} :
    BinaryOp.ofText? s = some op ↔ s = op.text := by
  constructor
  · intro h
    unfold BinaryOp.ofText? at h
    split at h <;> cases h <;> rfl
  · rintro rfl
    exact ofText?_text op

@[simp] theorem UnaryOp.ofText?_text (op : UnaryOp) : UnaryOp.ofText? op.text = some op := by
  cases op <;> rfl

theorem UnaryOp.ofText?_eq_some_iff {s : String} {op : UnaryOp} :
    UnaryOp.ofText? s = some op ↔ s = op.text := by
  constructor
  · intro h
    unfold UnaryOp.ofText? at h
    split at h <;> cases h <;> rfl
  · rintro rfl
    exact ofText?_text op

namespace Run

open Exec

def arithmetic (tok : Token) (op : Arithmetic) (l r : Int32) : Exec Value :=
  match op with
  | .add => pure (.integer (l + r))
  | .sub => pure (.integer (l - r))
  | .mul => pure (.integer (l * r))
  | .div => if r = 0 then fail .divisionByZero tok else pure (.integer (l / r))
  | .mod => if r = 0 then fail .moduloByZero tok else pure (.integer (l % r))

def compare (op : Comparison) (l r : Int32) : Bool :=
  match op with
  | .greater => r < l
  | .less => l < r
  | .greaterEqual => r ≤ l
  | .lessEqual => l ≤ r

theorem integerOp?_arithmetic (tok : Token) (op : Arithmetic) :
    integerOp? tok (BinaryOp.arithmetic op).text = fun l r => some (arithmetic tok op l r) := by
  cases op <;> rfl

theorem integerOp?_comparison (tok : Token) (op : Comparison) :
    integerOp? tok (BinaryOp.comparison op).text =
      fun l r => some (pure (.boolean (compare op l r))) := by
  cases op <;> rfl

theorem onIntegers_some (f : Int32 → Int32 → Exec Value) :
    onIntegers tok cause (fun l r => some (f l r)) left right =
      some (match left, right with
        | .integer l, .integer r => f l r
        | _, _ => fail cause tok) := by
  cases left <;> cases right <;> rfl

/-- Operators of integers are just those of arithmetic and comparison. -/
theorem integerOp?_eq_none_iff (tok : Token) (op : String) (l r : Int32) :
    integerOp? tok op l r = none ↔
      op ∉ ["+", "-", "*", "/", "%", ">", "<", ">=", "<="] := by
  unfold integerOp?
  split <;> simp_all

theorem binary_of_some {x : Exec Value} (h : binary? tok op left right = some x) :
    binary tok op left right = x :=
  Option.get_of_eq_some _ h

/-- An operator is applied as its family is. -/
theorem binary_eq (tok : Token) (op : String) (left right : Value) :
    binary tok op left right =
      match BinaryOp.ofText? op with
      | some (.arithmetic op) =>
        match left, right with
        | .integer l, .integer r => arithmetic tok op l r
        | _, _ => fail .arithmeticOperands tok
      | some (.comparison op) =>
        match left, right with
        | .integer l, .integer r => pure (.boolean (compare op l r))
        | _, _ => fail .comparisonOperands tok
      | some (.connective op) =>
        match left, right with
        | .boolean l, .boolean r => pure (.boolean (connect op l r))
        | _, _ => fail .connectiveOperands tok
      | some .equality =>
        if left.ty = right.ty then pure (.boolean (left = right)) else fail .equalityOperands tok
      | none => fail (.unknownBinary op) tok := by
  apply binary_of_some
  unfold binary?
  cases hop : BinaryOp.ofText? op with
  | none => rfl
  | some family =>
    cases family with
    | arithmetic k =>
      obtain rfl := BinaryOp.ofText?_eq_some_iff.mp hop
      dsimp only
      rw [integerOp?_arithmetic, onIntegers_some]
    | comparison k =>
      obtain rfl := BinaryOp.ofText?_eq_some_iff.mp hop
      dsimp only
      rw [integerOp?_comparison, onIntegers_some]
    | connective k => cases left <;> cases right <;> rfl
    | equality =>
      dsimp only
      split <;> rfl

end Run

end SplatLang
