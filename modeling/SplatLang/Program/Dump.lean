import SplatLang.Program
import SplatLang.Text.Quoted

/-!
# Trees in full

A dump shows everything that a tree or a list of tokens holds, one field a line. Fields that are
empty or zero are left out, but records never are. A list without items shows nothing at all,
which tells an empty else branch from a missing one.
-/

namespace SplatLang

inductive Dump
  | leaf (text : String)
  | record (title : String) (fields : List (String × Dump))
  | items (title : String) (elements : List Dump)
  deriving Inhabited

namespace Dump

mutual

/-- A dump whose first line stands behind some text and whose other lines are indented. -/
def text (indent : String) : Dump → String
  | leaf t => t
  | record title fields => title ++ "\x7b\n" ++ fieldsText (indent ++ "  ") fields ++ indent ++ "\x7d"
  | items _ [] => ""
  | items title (e :: rest) =>
    title ++ "\x7b\n" ++ itemsText (indent ++ "  ") (e :: rest) ++ indent ++ "\x7d"

def fieldsText (indent : String) : List (String × Dump) → String
  | [] => ""
  | (name, value) :: rest =>
    indent ++ name ++ ": " ++ text indent value ++ ",\n" ++ fieldsText indent rest

def itemsText (indent : String) : List Dump → String
  | [] => ""
  | e :: rest => indent ++ text indent e ++ ",\n" ++ itemsText indent rest

end

def stringField (name value : String) : List (String × Dump) :=
  if value = "" then [] else [(name, leaf (Text.quoted value))]

def numberField (name : String) (value : Int) : List (String × Dump) :=
  if value = 0 then [] else [(name, leaf (toString value))]

def ofPosition (p : Position) : Dump :=
  record "types.Position" (numberField "Line" p.line ++ numberField "Column" p.column ++
    stringField "Filename" p.file)

def kindField (k : TokenKind) : List (String × Dump) :=
  if k = .illegal then [] else [("Kind", leaf ("types.TokenKind(" ++ k.name ++ ")"))]

def tokenFields (t : Token) : List (String × Dump) :=
  kindField t.kind ++ stringField "Value" t.value ++ [("Location", ofPosition t.location)]

def ofTokens (ts : List Token) : Dump :=
  if ts = [] then leaf "nil"
  else items "[]types.Token" (ts.map fun t => record "" (tokenFields t))

def base (t : Token) : String × Dump :=
  ("Base", record "ast.Base" [("Tok", record "types.Token" (tokenFields t))])

def ofTy (t : Ty) : Dump := record "ast.Type" (stringField "Name" t.name)

mutual

def ofExpr : Expr → Dump
  | .literal t raw => record "&ast.Literal" (base t :: stringField "Raw" raw)
  | .var t label => record "&ast.Variable" (base t :: stringField "Label" label)
  | .binary t left op right =>
    record "&ast.BinaryOp"
      (base t :: ("Left", ofExpr left) :: stringField "Op" op ++ [("Right", ofExpr right)])
  | .unary t op operand =>
    record "&ast.UnaryOp" (base t :: stringField "Op" op ++ [("Operand", ofExpr operand)])
  | .call t label args =>
    record "&ast.FunctionCallExpr" (base t :: stringField "Label" label ++
      [("Args", items "[]ast.Expression" (ofExprs args))])

def ofExprs : List Expr → List Dump
  | [] => []
  | e :: rest => ofExpr e :: ofExprs rest

end

mutual

def ofStmt : Stmt → Dump
  | .assign t label value =>
    record "&ast.Assignment" (base t :: stringField "Label" label ++ [("Expr", ofExpr value)])
  | .cond t test body none =>
    record "&ast.IfThen"
      [base t, ("Cond", ofExpr test), ("Then", items "[]ast.Statement" (ofStmts body))]
  | .cond t test body (some alt) =>
    record "&ast.IfThen"
      [base t, ("Cond", ofExpr test), ("Then", items "[]ast.Statement" (ofStmts body)),
        ("Else", items "[]ast.Statement" (ofStmts alt))]
  | .loop t test body =>
    record "&ast.WhileLoop"
      [base t, ("Cond", ofExpr test), ("Body", items "[]ast.Statement" (ofStmts body))]
  | .print t value => record "&ast.Print" [base t, ("Expr", ofExpr value)]
  | .printLine t => record "&ast.PrintLine" [base t]
  | .ret t none => record "&ast.Return" [base t]
  | .ret t (some value) => record "&ast.Return" [base t, ("Expr", ofExpr value)]
  | .call t label args =>
    record "&ast.FunctionCallStmt" (base t :: stringField "Label" label ++
      [("Args", items "[]ast.Expression" (ofExprs args))])

def ofStmts : List Stmt → List Dump
  | [] => []
  | s :: rest => ofStmt s :: ofStmts rest

end

def varFields (v : VarDecl) : List (String × Dump) :=
  base v.tok :: stringField "Label" v.label ++ [("Type", ofTy v.ty)]

def ofVars (vs : List VarDecl) : Dump :=
  items "[]*ast.VariableDecl" (vs.map fun v => record "" (varFields v))

def ofDecl : Decl → Dump
  | .var v => record "&ast.VariableDecl" (varFields v)
  | .func f =>
    record "&ast.FunctionDecl" (base f.tok :: stringField "Label" f.label ++
      [("Params", ofVars f.params), ("ReturnType", ofTy f.result), ("Locals", ofVars f.locals),
        ("Body", items "[]ast.Statement" (ofStmts f.body))])

def ofProgram (p : Program) : Dump :=
  record "&ast.Program"
    [base p.tok, ("Decls", items "[]ast.Declaration" (p.decls.map ofDecl)),
      ("Stmts", items "[]ast.Statement" (ofStmts p.stmts))]

end Dump

def dumpTokens (ts : List Token) : String := (Dump.ofTokens ts).text "" ++ "\n"

def Program.dump (p : Program) : String := (Dump.ofProgram p).text "" ++ "\n"

end SplatLang
