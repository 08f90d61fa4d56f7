import SplatLang.Event
import SplatLang.Fault
import SplatLang.Program.Operator
import SplatLang.Value

/-!
# Running programs

A program runs by walking its tree. Nothing here relies on the program having been checked: an
undeclared label, an operand of the wrong type or an unknown operator is a fault of the run.

Expressions and statements are run by recursion on the tree. Calls and loops can go on for ever,
so they take an allowance: `invoke` may nest calls that deep, and each loop may go round that
often. A run that needs more ends as `exhausted`, which is no verdict on the program; a larger
allowance changes no other ending.

The machine keeps what a run leaves behind: the texts written, the trace and the number of calls
that are active.
-/

namespace SplatLang

inductive RunCause
  | unknownType (ty : Ty)
  | returnEscaped
  | undefinedVariable (label : String)
  | undefinedFunction (label : String)
  | argumentCount (func : String) (want got : Nat)
  | depthLimit (limit : Int)
  | noValue (func : String)
  | conditionNotBoolean
  | invalidLiteral (raw : String)
  | unknownUnary (op : String)
  | notNeedsBoolean
  | negateNeedsInteger
  | unknownBinary (op : String)
  | arithmeticOperands
  | comparisonOperands
  | connectiveOperands
  | equalityOperands
  | divisionByZero
  | moduloByZero
  deriving DecidableEq, Repr

def RunCause.message : RunCause → String
  | unknownType ty => "Unknown type: " ++ ty.name
  | returnEscaped => "Internal error: return statement escaped the program body"
  | undefinedVariable label => "Variable '" ++ label ++ "' is not defined"
  | undefinedFunction label => "Function '" ++ label ++ "' is not defined"
  | argumentCount func want got =>
    "Function '" ++ func ++ "' expects " ++ toString want ++ " argument(s), got " ++ toString got
  | depthLimit limit => "Call depth limit of " ++ toString limit ++ " exceeded"
  | noValue func => "Function '" ++ func ++ "' did not return a value"
  | conditionNotBoolean => "Condition must be Boolean"
  | invalidLiteral raw => "Invalid literal value: " ++ raw
  | unknownUnary op => "Unknown unary operator: " ++ op
  | notNeedsBoolean => "Unary operator 'not' requires a Boolean operand"
  | negateNeedsInteger => "Unary operator '-' requires an Integer operand"
  | unknownBinary op => "Unknown binary operator: " ++ op
  | arithmeticOperands => "Arithmetic operator requires Integer operands"
  | comparisonOperands => "Comparison operator requires Integer operands"
  | connectiveOperands => "Logical operator requires Boolean operands"
  | equalityOperands => "Equality operator requires operands of the same type"
  | divisionByZero => "Division by zero"
  | moduloByZero => "Modulo by zero"

abbrev RunFault := At RunCause

def RunFault.report (f : RunFault) : Fault := ⟨.execution, f.cause.message, f.location⟩

/-- Where output goes. A limited sink takes some more texts and refuses every later one, with an
error of its own. -/
inductive Sink
  | endless
  | limited (room : Nat) (refusal : Failure)
  deriving DecidableEq, Repr

structure Machine where
  sink : Sink := .endless
  /-- The texts written, the last one first. -/
  writes : List String := []
  /-- What was recorded, the last event first. -/
  trace : List Event := []
  depth : Nat := 0
  deriving Repr

def Machine.output (m : Machine) : String := String.join m.writes.reverse

def Machine.events (m : Machine) : List Event := m.trace.reverse

inductive Ending (α : Type) where
  | done (value : α)
  | fault (fault : RunFault)
  /-- The sink refused a text. -/
  | refused (reason : Failure)
  /-- The allowance was used up. -/
  | exhausted
  deriving DecidableEq, Repr

def Exec (α : Type) := Machine → Ending α × Machine

namespace Exec

variable {α β : Type}

@[always_inline, inline]
protected def pure (a : α) : Exec α := fun m => (.done a, m)

@[always_inline, inline]
protected def bind (x : Exec α) (f : α → Exec β) : Exec β := fun m =>
  match x m with
  | (.done a, m) => f a m
  | (.fault e, m) => (.fault e, m)
  | (.refused r, m) => (.refused r, m)
  | (.exhausted, m) => (.exhausted, m)

instance : Monad Exec where
  pure := Exec.pure
  bind := Exec.bind

def fail (cause : RunCause) (tok : Token) : Exec α := fun m => (.fault ⟨cause, tok.location⟩, m)

def exhausted : Exec α := fun m => (.exhausted, m)

def record (e : Event) : Exec Unit := fun m => (.done (), { m with trace := e :: m.trace })

def depth : Exec Nat := fun m => (.done m.depth, m)

/-- Hands one text to the sink. An empty text counts as well. -/
def write (text : String) : Exec Unit := fun m =>
  match m.sink with
  | .endless => (.done (), { m with writes := text :: m.writes })
  | .limited 0 refusal => (.refused refusal, m)
  | .limited (room + 1) refusal =>
    (.done (), { m with sink := .limited room refusal, writes := text :: m.writes })

/-- Runs a computation one call deeper. However it ends, the depth is what it was before. -/
def deeper (x : Exec α) : Exec α := fun m =>
  match x { m with depth := m.depth + 1 } with
  | (r, m) => (r, { m with depth := m.depth - 1 })

def need (cause : RunCause) (tok : Token) : Option α → Exec α
  | some a => pure a
  | none => fail cause tok

end Exec

namespace Run

open Exec

def unary (tok : Token) (op : String) (v : Value) : Exec Value :=
  match UnaryOp.ofText? op, v with
  | some .not, .boolean b => pure (.boolean !b)
  | some .not, _ => fail .notNeedsBoolean tok
  | some .negate, .integer n => pure (.integer (-n))
  | some .negate, _ => fail .negateNeedsInteger tok
  | none, _ => fail (.unknownUnary op) tok

/-- Applies an operator of integers. Arithmetic wraps around, and a quotient is cut towards zero.
Nothing is said of any other text. -/
def integerOp? (tok : Token) (op : String) (l r : Int32) : Option (Exec Value) :=
  match op with
  | "+" => some (pure (.integer (l + r)))
  | "-" => some (pure (.integer (l - r)))
  | "*" => some (pure (.integer (l * r)))
  | "/" => some (if r = 0 then fail .divisionByZero tok else pure (.integer (l / r)))
  | "%" => some (if r = 0 then fail .moduloByZero tok else pure (.integer (l % r)))
  | ">" => some (pure (.boolean (r < l)))
  | "<" => some (pure (.boolean (l < r)))
  | ">=" => some (pure (.boolean (r ≤ l)))
  | "<=" => some (pure (.boolean (l ≤ r)))
  | _ => none

def onIntegers (tok : Token) (cause : RunCause) (f : Int32 → Int32 → Option (Exec Value)) :
    (left right : Value) → Option (Exec Value)
  | .integer l, .integer r => f l r
  | _, _ => some (fail cause tok)

def connect (op : Connective) (l r : Bool) : Bool :=
  match op with
  | .and => l && r
  | .or => l || r

/-- Applies an operator to two values, unless it is taken for one of integers and is none. -/
def binary? (tok : Token) (op : String) (left right : Value) : Option (Exec Value) :=
  match BinaryOp.ofText? op with
  | some (.arithmetic _) => onIntegers tok .arithmeticOperands (integerOp? tok op) left right
  | some (.comparison _) => onIntegers tok .comparisonOperands (integerOp? tok op) left right
  | some (.connective op) =>
    match left, right with
    | .boolean l, .boolean r => some (pure (.boolean (connect op l r)))
    | _, _ => some (fail .connectiveOperands tok)
  | some .equality =>
    if left.ty = right.ty then some (pure (.boolean (left = right)))
    else some (fail .equalityOperands tok)
  | none => some (fail (.unknownBinary op) tok)

theorem onIntegers_isSome {f : Int32 → Int32 → Option (Exec Value)}
    (h : ∀ l r, (f l r).isSome = true) (left right : Value) :
    (onIntegers tok cause f left right).isSome = true := by
  unfold onIntegers
  split
  · exact h _ _
  · rfl

theorem integerOp?_isSome
    (h : (∃ k, BinaryOp.ofText? op = some (.arithmetic k)) ∨
      ∃ k, BinaryOp.ofText? op = some (.comparison k)) (l r : Int32) :
    (integerOp? tok op l r).isSome = true := by
  unfold BinaryOp.ofText? at h
  split at h <;> simp_all [integerOp?]

/-- What is taken for an operator of integers is one. -/
theorem binary?_isSome (tok : Token) (op : String) (left right : Value) :
    (binary? tok op left right).isSome = true := by
  unfold binary?
  split
  next k hop => exact onIntegers_isSome (integerOp?_isSome (.inl ⟨k, hop⟩)) left right
  next k hop => exact onIntegers_isSome (integerOp?_isSome (.inr ⟨k, hop⟩)) left right
  · split <;> rfl
  · split <;> rfl
  · rfl

/-- Applies an operator to two values. Both operands were evaluated, also those of `and` and
`or`. -/
def binary (tok : Token) (op : String) (left right : Value) : Exec Value :=
  (binary? tok op left right).get (binary?_isSome tok op left right)

/-- Calls a function with the values of its arguments. The token is that of the call. -/
abbrev Invoke := Token → FuncDecl → List Value → Exec (Option Value)

/-- Looks a function up and calls it. Its arguments are evaluated only if it exists and takes as
many of them. -/
def call (funcs : Bindings FuncDecl) (invoke : Invoke) (tok : Token) (label : String) (count : Nat)
    (args : Exec (List Value)) : Exec (Option Value) := do
  let fn ← need (.undefinedFunction label) tok (funcs.get? label)
  if count = fn.params.length then
    let values ← args
    invoke tok fn values
  else fail (.argumentCount label fn.params.length count) tok

mutual

def evalExpr (funcs : Bindings FuncDecl) (invoke : Invoke) (env : Env) : Expr → Exec Value
  | .literal tok raw => need (.invalidLiteral raw) tok (Value.ofLiteral? raw)
  | .var tok label => need (.undefinedVariable label) tok (env.get? label)
  | .binary tok left op right => do
    let l ← evalExpr funcs invoke env left
    let r ← evalExpr funcs invoke env right
    binary tok op l r
  | .unary tok op operand => do
    let v ← evalExpr funcs invoke env operand
    unary tok op v
  | .call tok label args => do
    let v ← call funcs invoke tok label args.length (evalArgs funcs invoke env args)
    need (.noValue label) tok v

/-- Arguments are evaluated from left to right. -/
def evalArgs (funcs : Bindings FuncDecl) (invoke : Invoke) (env : Env) :
    List Expr → Exec (List Value)
  | [] => pure []
  | e :: rest => do
    let v ← evalExpr funcs invoke env e
    let vs ← evalArgs funcs invoke env rest
    pure (v :: vs)

end

def condition (funcs : Bindings FuncDecl) (invoke : Invoke) (env : Env) (test : Expr) :
    Exec Bool := do
  match ← evalExpr funcs invoke env test with
  | .boolean b => pure b
  | _ => fail .conditionNotBoolean test.tok

inductive Flow
  | next
  | returned (value : Option Value)
  deriving DecidableEq, Repr

def Flow.value? : Flow → Option Value
  | next => none
  | returned v => v

def repeatWhile (test : Env → Exec Bool) (body : Env → Exec (Env × Flow)) :
    Nat → Env → Exec (Env × Flow)
  | 0, _, m => (.exhausted, m)
  | n + 1, env, m =>
    match test env m with
    | (.done false, m) => (.done (env, .next), m)
    | (.done true, m) =>
      match body env m with
      | (.done (env, .next), m) => repeatWhile test body n env m
      | (.done (env, .returned v), m) => (.done (env, .returned v), m)
      | (.fault e, m) => (.fault e, m)
      | (.refused r, m) => (.refused r, m)
      | (.exhausted, m) => (.exhausted, m)
    | (.fault e, m) => (.fault e, m)
    | (.refused r, m) => (.refused r, m)
    | (.exhausted, m) => (.exhausted, m)

mutual

def execStmt (funcs : Bindings FuncDecl) (invoke : Invoke) (rounds : Nat) :
    Stmt → Env → Exec (Env × Flow)
  | .assign tok label value, env =>
    if env.has label then do
      let v ← evalExpr funcs invoke env value
      pure (env.set label v, .next)
    else fail (.undefinedVariable label) tok
  | .cond _ test body none, env => do
    if ← condition funcs invoke env test then execStmts funcs invoke rounds body env
    else pure (env, .next)
  | .cond _ test body (some alt), env => do
    if ← condition funcs invoke env test then execStmts funcs invoke rounds body env
    else execStmts funcs invoke rounds alt env
  | .loop _ test body, env =>
    repeatWhile (fun env => condition funcs invoke env test)
      (fun env => execStmts funcs invoke rounds body env) rounds env
  | .print _ value, env => do
    let v ← evalExpr funcs invoke env value
    write v.text
    pure (env, .next)
  | .printLine _, env => do
    write "\n"
    pure (env, .next)
  | .ret _ none, env => pure (env, .returned none)
  | .ret _ (some value), env => do
    let v ← evalExpr funcs invoke env value
    pure (env, .returned (some v))
  | .call tok label args, env => do
    let _ ← call funcs invoke tok label args.length (evalArgs funcs invoke env args)
    pure (env, .next)

def execStmts (funcs : Bindings FuncDecl) (invoke : Invoke) (rounds : Nat) :
    List Stmt → Env → Exec (Env × Flow)
  | [], env => pure (env, .next)
  | s :: rest, env => do
    match ← execStmt funcs invoke rounds s env with
    | (env, .next) => execStmts funcs invoke rounds rest env
    | (env, .returned v) => pure (env, .returned v)

end

def bindZeros : Env → List VarDecl → Exec Env
  | env, [] => pure env
  | env, v :: rest => do
    let zero ← need (.unknownType v.ty) v.tok (Value.zero? v.ty)
    bindZeros (env.set v.label zero) rest

def bindParams (params : List VarDecl) (values : List Value) : Env :=
  Bindings.setAll [] ((params.map VarDecl.label).zip values)

/-- Whether a limit forbids that many active calls. A limit that is not positive forbids none. -/
def exceeds (limit : Int) (depth : Nat) : Bool := 0 < limit && limit < depth

/-- Calls a function, with `n` as the allowance for calls inside it and for its loops. -/
def invoke (funcs : Bindings FuncDecl) (limit : Int) : Nat → Invoke
  | 0, _, _, _ => exhausted
  | n + 1, tok, fn, values => deeper do
    let d ← depth
    -- The arguments were evaluated before, so their faults go before a limit.
    if exceeds limit d then fail (.depthLimit limit) tok
    else
      let env ← bindZeros (bindParams fn.params values) fn.locals
      record (.call fn.label d)
      let (_, flow) ← execStmts funcs (invoke funcs limit n) n fn.body env
      pure flow.value?

def functionTable (p : Program) : Bindings FuncDecl :=
  Bindings.setAll [] (p.funcs.map fun f => (f.label, f))

/-- Runs a program with the allowance `n`. The machine goes on from what earlier runs wrote and
recorded, but no call of theirs is active any more. -/
def program (limit : Int) (n : Nat) (p : Program) : Exec Unit := fun m =>
  (do
    let funcs := functionTable p
    let env ← bindZeros [] p.vars
    record (.executing p.tok.location.file funcs.length)
    let (_, flow) ← execStmts funcs (invoke funcs limit n) n p.stmts env
    -- A checked program has no return here, but nothing says that this one was checked.
    match flow with
    | .next => record (.finished p.tok.location.file)
    | .returned _ => fail .returnEscaped p.tok : Exec Unit) { m with depth := 0 }

end Run

end SplatLang
