import SplatLang.Exec

/-!
# Points of a run

A run is a recursion over the tree, so there is no list of states that it goes through. `Reached`
names them all the same: it says which blocks, statements, expressions and calls a run comes to,
with the variables and the machine as they are when it comes there. Each rule leads from a point
to one that the run comes to next or on the way, using the very functions that do the running.
-/

namespace SplatLang.Run

inductive Body
  | main
  | func (fn : FuncDecl)

def Body.vars (p : Program) : Body → List VarDecl
  | main => p.vars
  | func fn => fn.params ++ fn.locals

/-- One activation of a body, with the allowance it runs under and its variables. -/
structure Frame where
  body : Body
  allowance : Nat
  env : Env

namespace Frame

variable (p : Program) (limit : Int) (f : Frame)

def eval (e : Expr) : Exec Value :=
  evalExpr (functionTable p) (invoke (functionTable p) limit f.allowance) f.env e

def evalAll (es : List Expr) : Exec (List Value) :=
  evalArgs (functionTable p) (invoke (functionTable p) limit f.allowance) f.env es

def test (e : Expr) : Exec Bool :=
  condition (functionTable p) (invoke (functionTable p) limit f.allowance) f.env e

def exec (s : Stmt) : Exec (Env × Flow) :=
  execStmt (functionTable p) (invoke (functionTable p) limit f.allowance) f.allowance s f.env

def execAll (ss : List Stmt) : Exec (Env × Flow) :=
  execStmts (functionTable p) (invoke (functionTable p) limit f.allowance) f.allowance ss f.env

end Frame

inductive Point
  | block (f : Frame) (ss : List Stmt)
  | stmt (f : Frame) (s : Stmt)
  | expr (f : Frame) (e : Expr)
  | args (f : Frame) (es : List Expr)
  /-- A function is about to be called with the values of its arguments. -/
  | call (allowance : Nat) (tok : Token) (fn : FuncDecl) (values : List Value)

/-- The activation that a point belongs to. A call stands between two of them. -/
def Point.frame? : Point → Option Frame
  | block f _ | stmt f _ | expr f _ | args f _ => some f
  | call .. => none

def operand? : Stmt → Option Expr
  | .assign _ _ value | .print _ value | .ret _ (some value) => some value
  | .cond _ test _ _ | .loop _ test _ => some test
  | .printLine _ | .ret _ none | .call .. => none

/-- The run of a program with the allowance `n`, started on the machine `m₀`, comes to a point with
the machine as given. -/
inductive Reached (p : Program) (limit : Int) (n : Nat) (m₀ : Machine) : Point → Machine → Prop
  | start {env m} : bindZeros [] p.vars { m₀ with depth := 0 } = (.done env, m) →
      Reached p limit n m₀ (.block ⟨.main, n, env⟩ p.stmts)
        { m with trace := .executing p.tok.location.file (functionTable p).length :: m.trace }
  -- Blocks. The point after the last statement is an empty block.
  | head {f s rest m} : Reached p limit n m₀ (.block f (s :: rest)) m →
      Reached p limit n m₀ (.stmt f s) m
  | next {f s rest m env m'} : Reached p limit n m₀ (.block f (s :: rest)) m →
      f.exec p limit s m = (.done (env, .next), m') →
      Reached p limit n m₀ (.block { f with env } rest) m'
  -- Statements.
  | operand {f s e m} : Reached p limit n m₀ (.stmt f s) m → operand? s = some e →
      Reached p limit n m₀ (.expr f e) m
  | thenBranch {f tok test body alt m m'} :
      Reached p limit n m₀ (.stmt f (.cond tok test body alt)) m →
      f.test p limit test m = (.done true, m') → Reached p limit n m₀ (.block f body) m'
  | elseBranch {f tok test body alt m m'} :
      Reached p limit n m₀ (.stmt f (.cond tok test body (some alt))) m →
      f.test p limit test m = (.done false, m') → Reached p limit n m₀ (.block f alt) m'
  | round {f tok test body m m'} : Reached p limit n m₀ (.stmt f (.loop tok test body)) m →
      f.test p limit test m = (.done true, m') → Reached p limit n m₀ (.block f body) m'
  | again {f tok test body m m' env m''} :
      Reached p limit n m₀ (.stmt f (.loop tok test body)) m →
      f.test p limit test m = (.done true, m') →
      f.execAll p limit body m' = (.done (env, .next), m'') →
      Reached p limit n m₀ (.stmt { f with env } (.loop tok test body)) m''
  | stmtArgs {f tok label args m} : Reached p limit n m₀ (.stmt f (.call tok label args)) m →
      Reached p limit n m₀ (.args f args) m
  | stmtCall {f tok label args fn values m m'} :
      Reached p limit n m₀ (.stmt f (.call tok label args)) m →
      (functionTable p).get? label = some fn → args.length = fn.params.length →
      f.evalAll p limit args m = (.done values, m') →
      Reached p limit n m₀ (.call f.allowance tok fn values) m'
  -- Expressions.
  | left {f tok left op right m} : Reached p limit n m₀ (.expr f (.binary tok left op right)) m →
      Reached p limit n m₀ (.expr f left) m
  | right {f tok left op right m v m'} :
      Reached p limit n m₀ (.expr f (.binary tok left op right)) m →
      f.eval p limit left m = (.done v, m') → Reached p limit n m₀ (.expr f right) m'
  | inner {f tok op operand m} : Reached p limit n m₀ (.expr f (.unary tok op operand)) m →
      Reached p limit n m₀ (.expr f operand) m
  | exprArgs {f tok label args m} : Reached p limit n m₀ (.expr f (.call tok label args)) m →
      Reached p limit n m₀ (.args f args) m
  | exprCall {f tok label args fn values m m'} :
      Reached p limit n m₀ (.expr f (.call tok label args)) m →
      (functionTable p).get? label = some fn → args.length = fn.params.length →
      f.evalAll p limit args m = (.done values, m') →
      Reached p limit n m₀ (.call f.allowance tok fn values) m'
  | firstArg {f e es m} : Reached p limit n m₀ (.args f (e :: es)) m →
      Reached p limit n m₀ (.expr f e) m
  | laterArgs {f e es m v m'} : Reached p limit n m₀ (.args f (e :: es)) m →
      f.eval p limit e m = (.done v, m') → Reached p limit n m₀ (.args f es) m'
  -- Calls. The body runs with one call less to spare.
  | enter {k tok fn values m env m'} : Reached p limit n m₀ (.call (k + 1) tok fn values) m →
      exceeds limit (m.depth + 1) = false →
      bindZeros (bindParams fn.params values) fn.locals { m with depth := m.depth + 1 } =
        (.done env, m') →
      Reached p limit n m₀ (.block ⟨.func fn, k, env⟩ fn.body)
        { m' with trace := .call fn.label (m.depth + 1) :: m'.trace }

end SplatLang.Run
