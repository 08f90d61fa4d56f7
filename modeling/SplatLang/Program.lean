import SplatLang.Token

/-!
# Program trees

Every node keeps one token of the source: the one it begins with, except that operator
expressions keep their operator. The token gives the place of a fault found at the node and is
never looked at otherwise.

Labels, operators, type names and literals are kept as text. A tree read from a source holds only
texts that the parser lets through, but a tree may also be put together by hand, and checking and
execution say what they make of any text. The literals of such a tree may be bytes that are no
characters, so trees come with the type of their literals.
-/

namespace SplatLang

/-- A type is its name. The parser lets any name through. -/
structure Ty where
  name : String
  deriving DecidableEq, Repr, Inhabited

namespace Ty

def integer : Ty := ⟨"Integer"⟩
def boolean : Ty := ⟨"Boolean"⟩
def string : Ty := ⟨"String"⟩
def void : Ty := ⟨"void"⟩

end Ty

inductive Expr (ρ : Type := String)
  | literal (tok : Token) (raw : ρ)
  | var (tok : Token) (label : String)
  | binary (tok : Token) (left : Expr ρ) (op : String) (right : Expr ρ)
  | unary (tok : Token) (op : String) (operand : Expr ρ)
  | call (tok : Token) (label : String) (args : List (Expr ρ))
  deriving Repr, Inhabited

inductive Stmt (ρ : Type := String)
  | assign (tok : Token) (label : String) (value : Expr ρ)
  /-- A conditional. No else branch differs from an empty one. -/
  | cond (tok : Token) (test : Expr ρ) (body : List (Stmt ρ)) (alt : Option (List (Stmt ρ)))
  | loop (tok : Token) (test : Expr ρ) (body : List (Stmt ρ))
  | print (tok : Token) (value : Expr ρ)
  | printLine (tok : Token)
  | ret (tok : Token) (value : Option (Expr ρ))
  | call (tok : Token) (label : String) (args : List (Expr ρ))
  deriving Repr, Inhabited

structure VarDecl where
  tok : Token
  label : String
  ty : Ty
  deriving DecidableEq, Repr, Inhabited

structure FuncDecl (ρ : Type := String) where
  tok : Token
  label : String
  params : List VarDecl
  result : Ty
  locals : List VarDecl
  body : List (Stmt ρ)
  deriving Repr, Inhabited

inductive Decl (ρ : Type := String)
  | var (v : VarDecl)
  | func (f : FuncDecl ρ)
  deriving Repr, Inhabited

structure Program (ρ : Type := String) where
  tok : Token
  decls : List (Decl ρ)
  stmts : List (Stmt ρ)
  deriving Repr, Inhabited

def Expr.tok : Expr ρ → Token
  | literal tok _ => tok
  | var tok _ => tok
  | binary tok _ _ _ => tok
  | unary tok _ _ => tok
  | call tok _ _ => tok

def Stmt.tok : Stmt ρ → Token
  | assign tok _ _ => tok
  | cond tok _ _ _ => tok
  | loop tok _ _ => tok
  | print tok _ => tok
  | printLine tok => tok
  | ret tok _ => tok
  | call tok _ _ => tok

namespace Decl

def tok : Decl ρ → Token
  | var v => v.tok
  | func f => f.tok

def label : Decl ρ → String
  | var v => v.label
  | func f => f.label

def var? : Decl ρ → Option VarDecl
  | var v => some v
  | func _ => none

def func? : Decl ρ → Option (FuncDecl ρ)
  | var _ => none
  | func f => some f

end Decl

namespace Program

def vars (p : Program ρ) : List VarDecl := p.decls.filterMap Decl.var?

def funcs (p : Program ρ) : List (FuncDecl ρ) := p.decls.filterMap Decl.func?

end Program

end SplatLang
