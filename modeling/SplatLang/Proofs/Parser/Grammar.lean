import SplatLang.Program
import SplatLang.Text.Decimal
import SplatLang.Text.Letter

/-!
# The grammar

The grammar as relations between runs of tokens and trees, one rule for each production. Nothing
here looks ahead: a rule says how the tokens of a phrase fall into those of its parts. A derived
tree has `default` in place of its tokens, so a tree with tokens of its own is derived as its
`bare`.

Words and symbols count by their text alone. That a symbol is not the text of a string literal is
not stated, because the lexer keeps the quotes.
-/

namespace SplatLang.Grammar

-- ---------------------------------------------------------------------------
-- Lists
-- ---------------------------------------------------------------------------

inductive Repeated (P : List Token → α → Prop) : List Token → List α → Prop
  | nil : Repeated P [] []
  | cons (head : P us x) (tail : Repeated P vs xs) : Repeated P (us ++ vs) (x :: xs)

inductive Further (P : List Token → α → Prop) : List Token → List α → Prop
  | nil : Further P [] []
  | cons (comma : c.value = ",") (head : P us x) (tail : Further P vs xs) :
      Further P (c :: us ++ vs) (x :: xs)

inductive Separated (P : List Token → α → Prop) : List Token → List α → Prop
  | none : Separated P [] []
  | some (head : P us x) (tail : Further P vs xs) : Separated P (us ++ vs) (x :: xs)

theorem Repeated.map {f : α → α} (h : Repeated (fun us x => P us (f x)) us xs) :
    Repeated P us (xs.map f) := by
  induction h with
  | nil => exact .nil
  | cons head _ ih => exact .cons head ih

theorem Further.map {f : α → α} (h : Further (fun us x => P us (f x)) us xs) :
    Further P us (xs.map f) := by
  induction h with
  | nil => exact .nil
  | cons comma head _ ih => exact .cons comma head ih

theorem Separated.map {f : α → α} (h : Separated (fun us x => P us (f x)) us xs) :
    Separated P us (xs.map f) := by
  cases h with
  | none => exact .none
  | some head tail => exact .some head (tail.map)

-- ---------------------------------------------------------------------------
-- Tokens
-- ---------------------------------------------------------------------------

def binaryOperators : List String :=
  ["and", "or", ">", "<", "==", ">=", "<=", "+", "-", "*", "/", "%"]

def unaryOperators : List String := ["not", "-"]

/-- A name begins with a letter or an underscore and is not a reserved word. -/
def IsLabel (t : Token) : Prop :=
  t.kind = .ident ∧ isKeyword t.value = false ∧
    ∃ c cs, t.value.toList = c :: cs ∧ (c = '_' ∨ Text.isLetter c)

/-- An integer literal has to fit 32 bits. -/
def IsLiteral (t : Token) : Prop :=
  t.value = "true" ∨ t.value = "false" ∨ t.kind = .string ∨
    t.kind = .int ∧ (Text.int32? t.value).isSome

-- ---------------------------------------------------------------------------
-- Phrases
-- ---------------------------------------------------------------------------

inductive IsExpr : List Token → Expr → Prop
  | literal (raw : IsLiteral t) : IsExpr [t] (.literal default t.value)
  | var (label : IsLabel t) : IsExpr [t] (.var default t.value)
  | unary (opens : o.value = "(") (op : t.value ∈ unaryOperators) (operand : IsExpr us e)
      (closes : c.value = ")") : IsExpr (o :: t :: us ++ [c]) (.unary default t.value e)
  | binary (opens : o.value = "(") (left : IsExpr us l) (op : t.value ∈ binaryOperators)
      (right : IsExpr vs r) (closes : c.value = ")") :
      IsExpr (o :: us ++ t :: vs ++ [c]) (.binary default l t.value r)
  | call (label : IsLabel t) (opens : o.value = "(") (args : Separated IsExpr us es)
      (closes : c.value = ")") : IsExpr (t :: o :: us ++ [c]) (.call default t.value es)

inductive IsStmt : List Token → Stmt → Prop
  | loop (opens : w.value = "while") (test : IsExpr us e) (goes : d.value = "do")
      (body : Repeated IsStmt vs b) (ends : f.value = "end") (again : g.value = "while")
      (stop : s.value = ";") : IsStmt (w :: us ++ d :: vs ++ [f, g, s]) (.loop default e b)
  | ifThen (opens : i.value = "if") (test : IsExpr us e) (goes : d.value = "then")
      (body : Repeated IsStmt vs b) (ends : f.value = "end") (again : g.value = "if")
      (stop : s.value = ";") : IsStmt (i :: us ++ d :: vs ++ [f, g, s]) (.cond default e b none)
  | ifElse (opens : i.value = "if") (test : IsExpr us e) (goes : d.value = "then")
      (body : Repeated IsStmt vs b) (other : o.value = "else") (alt : Repeated IsStmt ws a)
      (ends : f.value = "end") (again : g.value = "if") (stop : s.value = ";") :
      IsStmt (i :: us ++ d :: vs ++ o :: ws ++ [f, g, s]) (.cond default e b (some a))
  | printLine (opens : p.value = "print_line") (stop : s.value = ";") :
      IsStmt [p, s] (.printLine default)
  | print (opens : p.value = "print") (value : IsExpr us e) (stop : s.value = ";") :
      IsStmt (p :: us ++ [s]) (.print default e)
  | ret (opens : r.value = "return") (stop : s.value = ";") : IsStmt [r, s] (.ret default none)
  | retValue (opens : r.value = "return") (value : IsExpr us e) (stop : s.value = ";") :
      IsStmt (r :: us ++ [s]) (.ret default (some e))
  | assign (label : IsLabel t) (gets : g.value = ":=") (value : IsExpr us e)
      (stop : s.value = ";") : IsStmt (t :: g :: us ++ [s]) (.assign default t.value e)
  | call (label : IsLabel t) (opens : o.value = "(") (args : Separated IsExpr us es)
      (closes : c.value = ")") (stop : s.value = ";") :
      IsStmt (t :: o :: us ++ [c, s]) (.call default t.value es)

inductive IsParam : List Token → VarDecl → Prop
  | mk (label : IsLabel t) (colon : c.value = ":") : IsParam [t, c, y] ⟨default, t.value, ⟨y.value⟩⟩

inductive IsVarDecl : List Token → VarDecl → Prop
  | mk (param : IsParam us v) (stop : s.value = ";") : IsVarDecl (us ++ [s]) v

inductive IsFuncDecl : List Token → FuncDecl → Prop
  | mk (label : IsLabel t) (opens : o.value = "(") (params : Separated IsParam us ps)
      (closes : c.value = ")") (colon : n.value = ":") (is : i.value = "is")
      (locals : Repeated IsVarDecl vs ls) (begins : b.value = "begin")
      (body : Repeated IsStmt ws bs) (ends : e.value = "end") (stop : s.value = ";") :
      IsFuncDecl (t :: o :: us ++ c :: n :: y :: i :: vs ++ b :: ws ++ [e, s])
        ⟨default, t.value, ps, ⟨y.value⟩, ls, bs⟩

inductive IsDecl : List Token → Decl → Prop
  | var (decl : IsVarDecl us v) : IsDecl us (.var v)
  | func (decl : IsFuncDecl us f) : IsDecl us (.func f)

inductive IsProgram : List Token → Program → Prop
  | mk (opens : p.value = "program") (decls : Repeated IsDecl us ds) (begins : b.value = "begin")
      (stmts : Repeated IsStmt vs ss) (ends : e.value = "end") (stop : s.value = ";") :
      IsProgram (p :: us ++ b :: vs ++ [e, s]) ⟨default, ds, ss⟩

end SplatLang.Grammar
