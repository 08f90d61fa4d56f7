import SplatLang.Fault
import SplatLang.Program
import SplatLang.Program.Operator
import SplatLang.Text.Decimal
import SplatLang.Text.Letter

/-!
# From tokens to a tree

The parser reads tokens from the front and never goes back: one token decides how to go on,
except that a declaration and a call are told from what they begin like by the token after the
name. A fault leaves the tokens behind it unread, so that reading may start again there.

`parseExpr` and `parseStmt` take an allowance of nested steps. Every step reads a token before it
takes the next one, so the number of tokens, plus one, is always enough.
-/

namespace SplatLang

inductive ParseCause
  | endOfFile
  | expected (want got : String)
  | keywordForLabel (got : String)
  | outOfRange (literal : String)
  | notALabel (got : String)
  | afterProgram (got : String)
  | notADeclaration (got : String)
  | notAStatement
  | notABinaryOperator (got : String)
  deriving DecidableEq, Repr

def ParseCause.message : ParseCause → String
  | endOfFile => "Unexpectedly reached the end of file."
  | expected want got => "Expected '" ++ want ++ "', got '" ++ got ++ "'."
  | keywordForLabel got => "Expected identifier, got keyword '" ++ got ++ "'."
  | outOfRange literal => "Integer literal '" ++ literal ++ "' is out of range."
  | notALabel got => "Expected identifier, got '" ++ got ++ "'."
  | afterProgram got => "Unexpected token '" ++ got ++ "' after end of program."
  | notADeclaration got => "Declaration expected, got '" ++ got ++ "'."
  | notAStatement => "Expected ':=' or '(' after identifier"
  | notABinaryOperator got => "Expected binary operator, got '" ++ got ++ "'."

abbrev ParseFault := At ParseCause

def ParseFault.report (f : ParseFault) : Fault := ⟨.parse, f.cause.message, f.location⟩

inductive Abort
  /-- A name was required and the token has no text. No lexer makes such a token. -/
  | emptyLabel
  /-- The allowance of steps was too small. -/
  | exhausted
  deriving DecidableEq, Repr

/-- How parsing ends, with the tokens that were not read. -/
inductive Parsed (α : Type) where
  | ok (value : α) (rest : List Token)
  | fault (fault : ParseFault) (rest : List Token)
  | abort (why : Abort)
  deriving Repr

/-- Parsers know the place just past the last token, where a missing token is reported. -/
def Parser (α : Type) := (eof : Position) → List Token → Parsed α

namespace Parser

variable {α β : Type}

@[always_inline, inline]
protected def pure (a : α) : Parser α := fun _ ts => .ok a ts

@[always_inline, inline]
protected def bind (p : Parser α) (f : α → Parser β) : Parser β := fun eof ts =>
  match p eof ts with
  | .ok a rest => f a eof rest
  | .fault e rest => .fault e rest
  | .abort why => .abort why

instance : Monad Parser where
  pure := Parser.pure
  bind := Parser.bind

def fail (cause : ParseCause) (location : Position) : Parser α := fun _ ts =>
  .fault ⟨cause, location⟩ ts

def giveUp (why : Abort) : Parser α := fun _ _ => .abort why

def peek : Parser Token := fun eof ts =>
  match ts with
  | [] => .fault ⟨.endOfFile, eof⟩ []
  | t :: _ => .ok t ts

def next : Parser Token := fun eof ts =>
  match ts with
  | [] => .fault ⟨.endOfFile, eof⟩ []
  | t :: rest => .ok t rest

def atEnd : Parser Bool := fun _ ts => .ok ts.isEmpty ts

def nextIs (value : String) : Parser Bool := fun _ ts =>
  .ok (ts.head?.any (·.value = value)) ts

def secondIs (value : String) : Parser Bool := fun _ ts =>
  .ok (ts.tail.head?.any (·.value = value)) ts

def expect (value : String) : Parser Token := do
  let t ← next
  if t.value = value then pure t else fail (.expected value t.value) t.location

def isNumeric (value : String) : Bool := (Text.int32? value).isSome

def label : Parser Token := do
  let t ← next
  if isKeyword t.value then fail (.keywordForLabel t.value) t.location
  -- A number too large to be a literal comes here, since nothing else takes it.
  else if t.kind = .int ∧ ¬ isNumeric t.value then fail (.outOfRange t.value) t.location
  else
    match t.value.toList with
    | [] => giveUp .emptyLabel
    | c :: _ =>
      if t.kind = .ident ∧ (c = '_' ∨ Text.isLetter c) then pure t
      else fail (.notALabel t.value) t.location

/-- Any single token names a type. -/
def typeName : Parser Ty := do
  let t ← next
  pure ⟨t.value⟩

/-- Items up to the point where `stop` holds. -/
def itemsUntil (stop : Parser Bool) (item : Parser α) : Nat → Parser (List α)
  | 0 => giveUp .exhausted
  | n + 1 => do
    if ← stop then pure []
    else
      let a ← item
      let rest ← itemsUntil stop item n
      pure (a :: rest)

def moreItems (item : Parser α) : Nat → Parser (List α)
  | 0 => giveUp .exhausted
  | n + 1 => do
    if ← nextIs "," then
      let _ ← expect ","
      let a ← item
      let rest ← moreItems item n
      pure (a :: rest)
    else pure []

def commaItems (item : Parser α) (n : Nat) : Parser (List α) := do
  if ← nextIs ")" then pure []
  else
    let a ← item
    let rest ← moreItems item n
    pure (a :: rest)

def isLiteral (t : Token) : Bool :=
  t.value = "true" || t.value = "false" || t.kind = .string || (t.kind = .int && isNumeric t.value)

def nextIsUnary : Parser Bool := fun _ ts =>
  .ok (ts.head?.any fun t => (UnaryOp.ofText? t.value).isSome) ts

/-- What follows an opening parenthesis: an operator expression of one operand or of two. -/
def operation (operand : Parser Expr) : Parser Expr := do
  if ← nextIsUnary then
    let op ← next
    let e ← operand
    let _ ← expect ")"
    pure (.unary op op.value e)
  else
    let left ← operand
    let op ← next
    if (BinaryOp.ofText? op.value).isSome then
      let right ← operand
      let _ ← expect ")"
      pure (.binary op left op.value right)
    else fail (.notABinaryOperator op.value) op.location

def parseExpr : Nat → Parser Expr
  | 0 => giveUp .exhausted
  | n + 1 => do
    let start ← peek
    if start.value = "(" then
      let _ ← expect "("
      operation (parseExpr n)
    else if isLiteral start then
      let t ← next
      pure (.literal t t.value)
    else if ← secondIs "(" then
      let t ← label
      let _ ← expect "("
      let args ← commaItems (parseExpr n) n
      let _ ← expect ")"
      pure (.call t t.value args)
    else
      let t ← label
      pure (.var t t.value)

/-- Statements go on up to the end of the tokens or a word that closes their block. -/
def blockEnds : Parser Bool := do
  if ← atEnd then pure true
  else if ← nextIs "end" then pure true
  else nextIs "else"

def exprThenSemicolon (n : Nat) : Parser Expr := do
  let e ← parseExpr n
  let _ ← expect ";"
  pure e

def namedStmt (n : Nat) : Parser Stmt := do
  let t ← label
  if ← nextIs ":=" then
    let _ ← expect ":="
    let e ← exprThenSemicolon n
    pure (.assign t t.value e)
  else if ← nextIs "(" then
    let _ ← expect "("
    let args ← commaItems (parseExpr n) n
    let _ ← expect ")"
    let _ ← expect ";"
    pure (.call t t.value args)
  else
    let t ← peek
    fail .notAStatement t.location

def whileStmt (block : Parser (List Stmt)) (n : Nat) : Parser Stmt := do
  let t ← expect "while"
  let test ← parseExpr n
  let _ ← expect "do"
  let body ← block
  let _ ← expect "end"
  let _ ← expect "while"
  let _ ← expect ";"
  pure (.loop t test body)

def elseBranch (block : Parser (List Stmt)) : Parser (Option (List Stmt)) := do
  if ← nextIs "else" then
    let _ ← expect "else"
    let body ← block
    pure (some body)
  else pure none

def ifStmt (block : Parser (List Stmt)) (n : Nat) : Parser Stmt := do
  let t ← expect "if"
  let test ← parseExpr n
  let _ ← expect "then"
  let body ← block
  let alt ← elseBranch block
  let _ ← expect "end"
  let _ ← expect "if"
  let _ ← expect ";"
  pure (.cond t test body alt)

def printStmt (n : Nat) : Parser Stmt := do
  let t ← expect "print"
  let e ← exprThenSemicolon n
  pure (.print t e)

def printLineStmt : Parser Stmt := do
  let t ← expect "print_line"
  let _ ← expect ";"
  pure (.printLine t)

def returnStmt (n : Nat) : Parser Stmt := do
  let t ← expect "return"
  if ← nextIs ";" then
    let _ ← expect ";"
    pure (.ret t none)
  else
    let e ← exprThenSemicolon n
    pure (.ret t (some e))

def parseStmt : Nat → Parser Stmt
  | 0 => giveUp .exhausted
  | n + 1 => do
    let start ← peek
    if start.value = "while" then whileStmt (itemsUntil blockEnds (parseStmt n) n) n
    else if start.value = "if" then ifStmt (itemsUntil blockEnds (parseStmt n) n) n
    else if start.value = "print_line" then printLineStmt
    else if start.value = "print" then printStmt n
    else if start.value = "return" then returnStmt n
    else namedStmt n

/-- Statements up to the word that closes their block, which stays unread. -/
def parseBlock (n : Nat) : Parser (List Stmt) := itemsUntil blockEnds (parseStmt n) n

def parseParam : Parser VarDecl := do
  let t ← label
  let _ ← expect ":"
  let ty ← typeName
  pure ⟨t, t.value, ty⟩

def parseVarDecl : Parser VarDecl := do
  let v ← parseParam
  let _ ← expect ";"
  pure v

def parseFuncDecl (n : Nat) : Parser FuncDecl := do
  let t ← label
  let _ ← expect "("
  let params ← commaItems parseParam n
  let _ ← expect ")"
  let _ ← expect ":"
  let result ← typeName
  let _ ← expect "is"
  let locals ← itemsUntil (nextIs "begin") parseVarDecl n
  let _ ← expect "begin"
  let body ← parseBlock n
  let _ ← expect "end"
  let _ ← expect ";"
  pure ⟨t, t.value, params, result, locals, body⟩

def parseDecl (n : Nat) : Parser Decl := do
  if ← secondIs ":" then
    let v ← parseVarDecl
    pure (.var v)
  else if ← secondIs "(" then
    let f ← parseFuncDecl n
    pure (.func f)
  else
    let t ← peek
    fail (.notADeclaration t.value) t.location

def parseProgram (n : Nat) : Parser Program := do
  let t ← expect "program"
  let decls ← itemsUntil (nextIs "begin") (parseDecl n) n
  let _ ← expect "begin"
  let stmts ← parseBlock n
  let _ ← expect "end"
  let _ ← expect ";"
  if ← atEnd then pure ⟨t, decls, stmts⟩
  else
    let t ← peek
    fail (.afterProgram t.value) t.location

/-- Just past the last token. With no token at all it is the start of a text without a name. -/
def endPosition (ts : List Token) : Position :=
  match ts.getLast? with
  | none => ⟨1, 1, ""⟩
  | some t => { t.location with column := t.location.column + t.value.length }

def resume (all rest : List Token) : Parsed Program :=
  parseProgram (rest.length + 1) (endPosition all) rest

end Parser

def parseTokens (ts : List Token) : Parsed Program := Parser.resume ts ts

end SplatLang
