import SplatLang.Bindings
import SplatLang.Fault
import SplatLang.Program
import SplatLang.Program.Operator
import SplatLang.Text.Decimal

/-!
# Checking programs

A program is checked before it runs: labels are declared once, every expression has a type, and
functions return what they promise. The checks run in a fixed order, and the first violation is
the one reported.

A body sees its own variables only. Inside a function these are the parameters and locals, and in
the program body they are the program variables. A void result and an unknown type name are types
like any other here; what they lack shows when the program runs.
-/

namespace SplatLang

inductive TypeCause
  | duplicateInProgram (label : String)
  | duplicateInFunction (label func : String)
  | functionNamedLikeParameter (func : String)
  | returnInProgramBody
  | noReturn (func : String) (result : Ty)
  | voidReturnsValue (func : String)
  | returnsNoValue (func : String) (result : Ty)
  | returnMismatch (func : String) (want got : Ty)
  | undeclaredVariable (label : String)
  | undeclaredFunction (label : String)
  | assignMismatch (got : Ty) (label : String) (want : Ty)
  | conditionNotBoolean (construct : String) (got : Ty)
  | argumentCount (func : String) (want got : Nat)
  | argumentMismatch (index : Nat) (func : String) (want got : Ty)
  | invalidLiteral (raw : String)
  | unknownUnary (op : String)
  | unaryOperand (op : String) (want got : Ty)
  | unknownBinary (op : String)
  | binaryOperands (family op : String) (want left right : Ty)
  | equalityMismatch (left right : Ty)
  | equalityOperands (got : Ty)
  deriving DecidableEq, Repr

def TypeCause.message : TypeCause → String
  | duplicateInProgram label => "Cannot have duplicate label '" ++ label ++ "' in program"
  | duplicateInFunction label func =>
    "Cannot have duplicate label '" ++ label ++ "' in function '" ++ func ++ "'"
  | functionNamedLikeParameter func =>
    "Function name '" ++ func ++ "' conflicts with a parameter name"
  | returnInProgramBody => "Return statement not allowed in program body"
  | noReturn func result =>
    "Function '" ++ func ++ "' returns " ++ result.name ++ " but has no return statement"
  | voidReturnsValue func => "Function '" ++ func ++ "' returns void, cannot return a value"
  | returnsNoValue func result =>
    "Function '" ++ func ++ "' returns " ++ result.name ++ ", must return a value"
  | returnMismatch func want got =>
    "Return type mismatch in function '" ++ func ++ "': expected " ++ want.name ++ ", got " ++
      got.name
  | undeclaredVariable label => "Variable '" ++ label ++ "' is not declared"
  | undeclaredFunction label => "Function '" ++ label ++ "' is not declared"
  | assignMismatch got label want =>
    "Type mismatch: cannot assign " ++ got.name ++ " to variable '" ++ label ++ "' of type " ++
      want.name
  | conditionNotBoolean construct got =>
    "Condition in " ++ construct ++ " must be Boolean, got " ++ got.name
  | argumentCount func want got =>
    "Function '" ++ func ++ "' expects " ++ toString want ++ " argument(s), got " ++ toString got
  | argumentMismatch index func want got =>
    "Type mismatch in argument " ++ toString index ++ " of function '" ++ func ++ "': expected " ++
      want.name ++ ", got " ++ got.name
  | invalidLiteral raw => "Invalid literal value: " ++ raw
  | unknownUnary op => "Unknown unary operator: " ++ op
  | unaryOperand op want got =>
    "Unary operator '" ++ op ++ "' requires " ++ want.name ++ " operand, got " ++ got.name
  | unknownBinary op => "Unknown binary operator: " ++ op
  | binaryOperands family op want left right =>
    family ++ " operator '" ++ op ++ "' requires " ++ want.name ++ " operands, got " ++ left.name ++
      " and " ++ right.name
  | equalityMismatch left right =>
    "Equality operator '==' requires operands of the same type, got " ++ left.name ++ " and " ++
      right.name
  | equalityOperands got =>
    "Equality operator '==' requires Integer or Boolean operands, got " ++ got.name

abbrev TypeFault := At TypeCause

def TypeFault.report (f : TypeFault) : Fault := ⟨.semantic, f.cause.message, f.location⟩

namespace Typing

abbrev Check := Except TypeFault

def fail {α : Type} (cause : TypeCause) (tok : Token) : Check α := .error ⟨cause, tok.location⟩

def ensure (holds : Prop) [Decidable holds] (cause : TypeCause) (tok : Token) : Check Unit :=
  if holds then .ok () else fail cause tok

/-- What a statement can see: the functions of the program and the variables of its body. -/
structure Scope where
  funcs : Bindings FuncDecl
  vars : Bindings Ty

/-- The type of a literal is decided by the shape of its text. -/
def literalType? (raw : String) : Option Ty :=
  if raw = "true" ∨ raw = "false" then some .boolean
  else if 2 ≤ raw.length ∧ raw.toList.head? = some '"' ∧ raw.toList.getLast? = some '"' then
    some .string
  else if (Text.int32? raw).isSome then some .integer
  else none

def bothOperands (tok : Token) (family op : String) (want result left right : Ty) : Check Ty :=
  if left = want ∧ right = want then .ok result
  else fail (.binaryOperands family op want left right) tok

def binaryType (tok : Token) (op : String) (left right : Ty) : Check Ty :=
  match BinaryOp.ofText? op with
  | some (.arithmetic _) => bothOperands tok "Arithmetic" op .integer .integer left right
  | some (.comparison _) => bothOperands tok "Comparison" op .integer .boolean left right
  | some (.connective _) => bothOperands tok "Logical" op .boolean .boolean left right
  | some .equality =>
    if left ≠ right then fail (.equalityMismatch left right) tok
    else if left ≠ .integer ∧ left ≠ .boolean then fail (.equalityOperands left) tok
    else .ok .boolean
  | none => fail (.unknownBinary op) tok

def unaryType (tok : Token) (op : String) (operand : Ty) : Check Ty :=
  match UnaryOp.ofText? op with
  | some .not =>
    if operand = .boolean then .ok .boolean else fail (.unaryOperand op .boolean operand) tok
  | some .negate =>
    if operand = .integer then .ok .integer else fail (.unaryOperand op .integer operand) tok
  | none => fail (.unknownUnary op) tok

mutual

def typeOf (sc : Scope) : Expr → Check Ty
  | .literal tok raw =>
    match literalType? raw with
    | some t => .ok t
    | none => fail (.invalidLiteral raw) tok
  | .var tok label =>
    match sc.vars.get? label with
    | some t => .ok t
    | none => fail (.undeclaredVariable label) tok
  | .binary tok left op right => do
    let l ← typeOf sc left
    let r ← typeOf sc right
    binaryType tok op l r
  | .unary tok op operand => do
    let t ← typeOf sc operand
    unaryType tok op t
  | .call tok label args =>
    match sc.funcs.get? label with
    | none => fail (.undeclaredFunction label) tok
    | some fn => do
      ensure (args.length = fn.params.length)
        (.argumentCount label fn.params.length args.length) tok
      checkArgs sc label 1 args fn.params
      .ok fn.result

def checkArgs (sc : Scope) (func : String) (index : Nat) : List Expr → List VarDecl → Check Unit
  | e :: es, p :: ps => do
    let got ← typeOf sc e
    ensure (got = p.ty) (.argumentMismatch index func p.ty got) e.tok
    checkArgs sc func (index + 1) es ps
  | [], _ => .ok ()
  | _ :: _, [] => .ok ()

end

def checkCondition (sc : Scope) (test : Expr) (construct : String) : Check Unit := do
  let t ← typeOf sc test
  ensure (t = .boolean) (.conditionNotBoolean construct t) test.tok

mutual

def checkStmt (sc : Scope) : Stmt → Check Unit
  | .assign tok label value =>
    match sc.vars.get? label with
    | none => fail (.undeclaredVariable label) tok
    | some want => do
      let got ← typeOf sc value
      ensure (want = got) (.assignMismatch got label want) tok
  | .cond _ test body none => do
    checkCondition sc test "if statement"
    checkStmts sc body
  | .cond _ test body (some alt) => do
    checkCondition sc test "if statement"
    checkStmts sc body
    checkStmts sc alt
  | .loop _ test body => do
    checkCondition sc test "while loop"
    checkStmts sc body
  | .print _ value => do
    let _ ← typeOf sc value
    .ok ()
  | .printLine _ => .ok ()
  | .ret _ none => .ok ()
  | .ret _ (some value) => do
    let _ ← typeOf sc value
    .ok ()
  | .call tok label args => do
    let _ ← typeOf sc (.call tok label args)
    .ok ()

def checkStmts (sc : Scope) : List Stmt → Check Unit
  | [] => .ok ()
  | s :: rest => do
    checkStmt sc s
    checkStmts sc rest

end

mutual

def checkNoReturn : Stmt → Check Unit
  | .ret tok _ => fail .returnInProgramBody tok
  | .cond _ _ body none => checkNoReturns body
  | .cond _ _ body (some alt) => do
    checkNoReturns body
    checkNoReturns alt
  | .loop _ _ body => checkNoReturns body
  | .assign .. | .print .. | .printLine _ | .call .. => .ok ()

def checkNoReturns : List Stmt → Check Unit
  | [] => .ok ()
  | s :: rest => do
    checkNoReturn s
    checkNoReturns rest

end

mutual

/-- Whether a return stands somewhere in a statement, at any depth. It need not be reached. -/
def hasReturn : Stmt → Bool
  | .ret .. => true
  | .cond _ _ body none => anyReturn body
  | .cond _ _ body (some alt) => anyReturn body || anyReturn alt
  | .loop _ _ body => anyReturn body
  | .assign .. | .print .. | .printLine _ | .call .. => false

def anyReturn : List Stmt → Bool
  | [] => false
  | s :: rest => hasReturn s || anyReturn rest

end

/-- A return of a void function carries no value; any other carries one of the promised type. -/
def checkReturn (sc : Scope) (fn : FuncDecl) (tok : Token) (value : Option Expr) : Check Unit :=
  if fn.result = .void then
    ensure (value.isNone) (.voidReturnsValue fn.label) tok
  else
    match value with
    | none => fail (.returnsNoValue fn.label fn.result) tok
    | some e => do
      let got ← typeOf sc e
      ensure (got = fn.result) (.returnMismatch fn.label fn.result got) tok

mutual

def checkReturnsIn (sc : Scope) (fn : FuncDecl) : Stmt → Check Unit
  | .ret tok value => checkReturn sc fn tok value
  | .cond _ _ body none => checkReturns sc fn body
  | .cond _ _ body (some alt) => do
    checkReturns sc fn body
    checkReturns sc fn alt
  | .loop _ _ body => checkReturns sc fn body
  | .assign .. | .print .. | .printLine _ | .call .. => .ok ()

def checkReturns (sc : Scope) (fn : FuncDecl) : List Stmt → Check Unit
  | [] => .ok ()
  | s :: rest => do
    checkReturnsIn sc fn s
    checkReturns sc fn rest

end

def each {α : Type} (check : α → Check Unit) : List α → Check Unit
  | [] => .ok ()
  | a :: rest => do
    check a
    each check rest

/-- No declaration of the program repeats a label in `seen` or an earlier one. -/
def checkDistinct : (seen : List String) → List Decl → Check Unit
  | _, [] => .ok ()
  | seen, d :: rest => do
    ensure (d.label ∉ seen) (.duplicateInProgram d.label) d.tok
    checkDistinct (d.label :: seen) rest

def checkDistinctVars (func : String) : (seen : List String) → List VarDecl → Check Unit
  | _, [] => .ok ()
  | seen, v :: rest => do
    ensure (v.label ∉ seen) (.duplicateInFunction v.label func) v.tok
    checkDistinctVars func (v.label :: seen) rest

def typesOf (vars : List VarDecl) : Bindings Ty :=
  Bindings.setAll [] (vars.map fun v => (v.label, v.ty))

def functionTable (funcs : List FuncDecl) : Bindings FuncDecl :=
  Bindings.setAll [] (funcs.map fun f => (f.label, f))

def bodyScope (funcs : Bindings FuncDecl) (fn : FuncDecl) : Scope :=
  ⟨funcs, typesOf (fn.params ++ fn.locals)⟩

def programScope (p : Program) : Scope :=
  ⟨functionTable p.funcs, typesOf p.vars⟩

/-- The labels of a function are its name, its parameters and its locals. -/
def checkBody (funcs : Bindings FuncDecl) (fn : FuncDecl) : Check Unit := do
  checkDistinctVars fn.label [fn.label] (fn.params ++ fn.locals)
  checkStmts (bodyScope funcs fn) fn.body

def parameterLabels (funcs : List FuncDecl) : List String :=
  funcs.flatMap fun f => f.params.map VarDecl.label

def checkTopLevel (sc : Scope) (s : Stmt) : Check Unit := do
  checkNoReturn s
  checkStmt sc s

def checkResult (funcs : Bindings FuncDecl) (fn : FuncDecl) : Check Unit := do
  checkReturns (bodyScope funcs fn) fn fn.body
  ensure (fn.result = .void ∨ anyReturn fn.body = true) (.noReturn fn.label fn.result) fn.tok

/-- Every check on a program, in the order in which violations are reported. -/
def checkProgram (p : Program) : Check Unit := do
  checkDistinct [] p.decls
  let sc := programScope p
  -- Bodies before names: a function whose name is a parameter of another one is found late.
  each (checkBody sc.funcs) p.funcs
  each (fun fn => ensure (fn.label ∉ parameterLabels p.funcs)
    (.functionNamedLikeParameter fn.label) fn.tok) p.funcs
  each (checkTopLevel sc) p.stmts
  -- Every expression has a type by now, so only the returns themselves can be refused.
  each (checkResult sc.funcs) p.funcs

end Typing

end SplatLang
