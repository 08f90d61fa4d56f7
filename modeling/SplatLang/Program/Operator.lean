/-!
# Operators

A tree keeps an operator as text; here the text gets its meaning. The operators of two operands
fall into four families, which differ in the operands they take.
-/

namespace SplatLang

inductive Arithmetic
  | add
  | sub
  | mul
  | div
  | mod
  deriving DecidableEq, Repr

inductive Comparison
  | greater
  | less
  | greaterEqual
  | lessEqual
  deriving DecidableEq, Repr

inductive Connective
  | and
  | or
  deriving DecidableEq, Repr

inductive BinaryOp
  | arithmetic (op : Arithmetic)
  | comparison (op : Comparison)
  | connective (op : Connective)
  | equality
  deriving DecidableEq, Repr

inductive UnaryOp
  | not
  | negate
  deriving DecidableEq, Repr

def BinaryOp.ofText? (text : String) : Option BinaryOp :=
  match text with
  | "+" => some (.arithmetic .add)
  | "-" => some (.arithmetic .sub)
  | "*" => some (.arithmetic .mul)
  | "/" => some (.arithmetic .div)
  | "%" => some (.arithmetic .mod)
  | ">" => some (.comparison .greater)
  | "<" => some (.comparison .less)
  | ">=" => some (.comparison .greaterEqual)
  | "<=" => some (.comparison .lessEqual)
  | "and" => some (.connective .and)
  | "or" => some (.connective .or)
  | "==" => some .equality
  | _ => none

def UnaryOp.ofText? (text : String) : Option UnaryOp :=
  match text with
  | "not" => some .not
  | "-" => some .negate
  | _ => none

end SplatLang
