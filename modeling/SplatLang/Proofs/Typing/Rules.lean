import SplatLang.Proofs.Operator
import SplatLang.Typing

/-!
# The typing rules

What it means for a program to be well typed, said without the checker: one rule for each form of
expression and statement, and for a program the conditions on its labels, bodies and returns. The
rules read what a body may refer to from a `Context`, which says which labels stand for which
functions and variables. Nothing here fixes an order in which conditions are looked at.
-/

namespace SplatLang.Typing

structure Context where
  func : String → FuncDecl → Prop
  var : String → Ty → Prop

def declared (funcs : List FuncDecl) (vars : List VarDecl) : Context where
  func label fn := fn ∈ funcs ∧ fn.label = label
  var label ty := ∃ v ∈ vars, v.label = label ∧ v.ty = ty

def Scope.context (sc : Scope) : Context where
  func label fn := sc.funcs.get? label = some fn
  var label ty := sc.vars.get? label = some ty

-- ---------------------------------------------------------------------------
-- Expressions
-- ---------------------------------------------------------------------------

inductive LiteralTyped : String → Ty → Prop
  | yes : LiteralTyped "true" .boolean
  | no : LiteralTyped "false" .boolean
  | string (inside : List Char) : LiteralTyped (String.ofList ('"' :: inside ++ ['"'])) .string
  | integer {raw n} : Text.int32? raw = some n → LiteralTyped raw .integer

inductive UnaryTyped : String → Ty → Ty → Prop
  | not : UnaryTyped (UnaryOp.not).text .boolean .boolean
  | negate : UnaryTyped (UnaryOp.negate).text .integer .integer

inductive BinaryTyped : String → Ty → Ty → Ty → Prop
  | arithmetic (op : Arithmetic) :
      BinaryTyped (BinaryOp.arithmetic op).text .integer .integer .integer
  | comparison (op : Comparison) :
      BinaryTyped (BinaryOp.comparison op).text .integer .integer .boolean
  | connective (op : Connective) :
      BinaryTyped (BinaryOp.connective op).text .boolean .boolean .boolean
  | equality {t} : t = .integer ∨ t = .boolean → BinaryTyped (BinaryOp.equality).text t t .boolean

mutual
inductive ExprTyped (c : Context) : Expr → Ty → Prop
  | literal {tok raw t} : LiteralTyped raw t → ExprTyped c (.literal tok raw) t
  | var {tok label t} : c.var label t → ExprTyped c (.var tok label) t
  | binary {tok left op right a b t} : ExprTyped c left a → ExprTyped c right b →
      BinaryTyped op a b t → ExprTyped c (.binary tok left op right) t
  | unary {tok op operand a t} : ExprTyped c operand a → UnaryTyped op a t →
      ExprTyped c (.unary tok op operand) t
  | call {tok label args fn} : c.func label fn → ArgsTyped c args fn.params →
      ExprTyped c (.call tok label args) fn.result
inductive ArgsTyped (c : Context) : List Expr → List VarDecl → Prop
  | nil : ArgsTyped c [] []
  | cons {e es p ps} : ExprTyped c e p.ty → ArgsTyped c es ps → ArgsTyped c (e :: es) (p :: ps)
end

-- ---------------------------------------------------------------------------
-- Statements
-- ---------------------------------------------------------------------------

mutual
inductive StmtTyped (c : Context) : Stmt → Prop
  | assign {tok label value t} : c.var label t → ExprTyped c value t →
      StmtTyped c (.assign tok label value)
  | ifThen {tok test body} : ExprTyped c test .boolean → BlockTyped c body →
      StmtTyped c (.cond tok test body none)
  | ifElse {tok test body alt} : ExprTyped c test .boolean → BlockTyped c body →
      BlockTyped c alt → StmtTyped c (.cond tok test body (some alt))
  | loop {tok test body} : ExprTyped c test .boolean → BlockTyped c body →
      StmtTyped c (.loop tok test body)
  | print {tok value t} : ExprTyped c value t → StmtTyped c (.print tok value)
  | printLine {tok} : StmtTyped c (.printLine tok)
  | bareReturn {tok} : StmtTyped c (.ret tok none)
  | valueReturn {tok value t} : ExprTyped c value t → StmtTyped c (.ret tok (some value))
  | call {tok label args fn} : c.func label fn → ArgsTyped c args fn.params →
      StmtTyped c (.call tok label args)
inductive BlockTyped (c : Context) : List Stmt → Prop
  | nil : BlockTyped c []
  | cons {s rest} : StmtTyped c s → BlockTyped c rest → BlockTyped c (s :: rest)
end

inductive Within (s : Stmt) : List Stmt → Prop
  | here {rest} : Within s (s :: rest)
  | later {t rest} : Within s rest → Within s (t :: rest)
  | thenBranch {tok test body alt rest} : Within s body →
      Within s (.cond tok test body alt :: rest)
  | elseBranch {tok test body alt rest} : Within s alt →
      Within s (.cond tok test body (some alt) :: rest)
  | loopBody {tok test body rest} : Within s body → Within s (.loop tok test body :: rest)

-- ---------------------------------------------------------------------------
-- Programs
-- ---------------------------------------------------------------------------

/-- A return fits a function if it is bare in a void one, and carries a value of the promised type
in any other. -/
def ReturnTyped (c : Context) (result : Ty) (value : Option Expr) : Prop :=
  if result = .void then value = none else ∃ e, value = some e ∧ ExprTyped c e result

structure FuncTyped (funcs : List FuncDecl) (fn : FuncDecl) : Prop where
  distinct : (fn.label :: (fn.params ++ fn.locals).map VarDecl.label).Nodup
  body : BlockTyped (declared funcs (fn.params ++ fn.locals)) fn.body
  returns : ∀ tok value, Within (.ret tok value) fn.body →
    ReturnTyped (declared funcs (fn.params ++ fn.locals)) fn.result value
  hasReturn : fn.result ≠ .void → ∃ tok value, Within (.ret tok value) fn.body

structure WellTyped (p : Program) : Prop where
  distinct : (p.decls.map Decl.label).Nodup
  funcs : ∀ fn ∈ p.funcs, FuncTyped p.funcs fn
  names : ∀ fn ∈ p.funcs, ∀ other ∈ p.funcs, ∀ v ∈ other.params, v.label ≠ fn.label
  body : BlockTyped (declared p.funcs p.vars) p.stmts
  noReturn : ∀ tok value, ¬ Within (.ret tok value) p.stmts

-- ---------------------------------------------------------------------------
-- Two programs
-- ---------------------------------------------------------------------------

/-- Prints the number after 41, which a function with a local variable computes. -/
def successor : Program :=
  ⟨default,
    [.func ⟨default, "next", [⟨default, "n", .integer⟩], .integer, [⟨default, "one", .integer⟩],
      [.assign default "one" (.literal default "1"),
        .ret default (some (.binary default (.var default "n") "+" (.var default "one")))]⟩,
      .var ⟨default, "x", .integer⟩],
    [.assign default "x" (.call default "next" [.literal default "41"]),
      .print default (.var default "x")]⟩

def undeclaredTarget : Program :=
  ⟨default, [], [.assign default "y" (.literal default "5")]⟩

end SplatLang.Typing
